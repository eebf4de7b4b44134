import BaturWhatsApi.SessionLifecycle

/-!
# Channels that are closed once

`broken` and `stopC` are closed under a flag. `connReady` and `online` are closed by every
connection task that comes so far, and the table lets `Start` begin another task after a failed
one or beside a starting one. They are closed once as long as a task is launched only while
`connReady` is open and no other task has still to close it.
-/
namespace BaturWhatsApi.SessionChannels
open ListCells Runs StateMachine SessionLifecycle

/-- The connection task has still to close `connReady`. -/
def beforeReady : Pc → ℕ
  | .connecting | .dialing | .publishing _ | .readying _ => 1
  | _ => 0

/-- It has closed `connReady` and may still close `online`. -/
def beforeOnline : Pc → ℕ
  | .authenticating _ | .handshaking _ | .syncing _ | .serving _ | .sendingIQ | .requesting
  | .onlining | .opening => 1
  | _ => 0

/-- `abort` has set its flag and has still to close `stopC`. -/
def beforeStop : Pc → ℕ
  | .aborting .closing _ => 1
  | _ => 0

/-! ### One operation -/

section
variable (s : Shared) (op : Op)

theorem connReady_apply : (s.apply op).connReady = s.connReady+performs .closeReady op := by
  cases op with
  | record err => simp [apply_record,performs]
  | _ => simp [Shared.apply,performs]

theorem online_apply : (s.apply op).online = s.online+performs .closeOnline op := by
  cases op with
  | record err => simp [apply_record,performs]
  | _ => simp [Shared.apply,performs]

theorem stopC_apply : (s.apply op).stopC = s.stopC+performs .closeStop op := by
  cases op with
  | record err => simp [apply_record,performs]
  | _ => simp [Shared.apply,performs]

/-- The flag and the channel are set together. -/
theorem broken_apply (h : s.broken = s.brokenClosed.toNat) :
    (s.apply op).broken = (s.apply op).brokenClosed.toNat := by
  cases op with
  | record err => cases hclosed : s.brokenClosed <;> simp [apply_record,hclosed,h]
  | _ => exact h

end

/-! ### One step of a program -/

section
variable {s : Shared} {dead : Bool} {pc pc' : Pc} {choice : Choice} {op : Op} {started : List Pc}

theorem resume_fail (caller : FailCaller) : beforeReady caller.resume = 0 ∧
    beforeOnline caller.resume = 0 ∧ beforeStop caller.resume = 0 := by
  cases caller <;> exact ⟨rfl,rfl,rfl⟩

theorem resume_abort (caller : AbortCaller) : beforeReady caller.resume = 0 ∧
    beforeOnline caller.resume = 0 ∧ beforeStop caller.resume = 0 := by
  cases caller <;> exact ⟨rfl,rfl,rfl⟩

/-- A place before the closing of `connReady` is left by closing it or by a failed dial, and
reached by the launch only; one before the closing of `online` is reached by closing `connReady`,
one before the closing of `stopC` by setting the flag of `abort`. -/
theorem next_closings (h : next s dead pc choice = some (op,pc',started)) :
    (performs .closeReady op+beforeReady pc'+tally beforeReady started ≤
        beforeReady pc+(if pc = .launching then 1 else 0)) ∧
      (performs .closeOnline op+beforeOnline pc'+tally beforeOnline started ≤
        beforeOnline pc+performs .closeReady op) ∧
      performs .closeStop op+beforeStop pc'+tally beforeStop started ≤
        beforeStop pc+performs .markAbort op := by
  revert h
  fun_cases next s dead pc choice <;> intro h <;> cases h
  all_goals try simp only [resume_fail,resume_abort]
  all_goals simp [performs,beforeReady,beforeOnline,beforeStop,tally]

end

/-! ### Whole runs -/

/-- What is closed, with what is still to be closed. -/
structure Closings (s : Session) : Prop where
  ready : s.shared.connReady+s.count beforeReady ≤ 1
  online : s.shared.online+s.count beforeOnline ≤ s.shared.connReady
  stopC : s.shared.stopC+s.count beforeStop ≤ s.shared.stopRequested.toNat
  broken : s.shared.broken = s.shared.brokenClosed.toNat

/-- A connection task is launched only while `connReady` is open and no other task has still to
close it. -/
def LaunchesAlone (s : Session) (ev : Event) : Prop :=
  movedPc s ev = some .launching → s.shared.connReady = 0 ∧ s.count beforeReady = 0

instance (s : Session) (ev : Event) : Decidable (LaunchesAlone s ev) :=
  inferInstanceAs (Decidable (_ → _))

def ClosedOnce (s : Session) : Prop :=
  s.shared.connReady ≤ 1 ∧ s.shared.online ≤ 1 ∧ s.shared.broken ≤ 1 ∧ s.shared.stopC ≤ 1

instance (s : Session) : Decidable (ClosedOnce s) := inferInstanceAs (Decidable (_ ∧ _))

theorem Closings.closedOnce {s : Session} (h : Closings s) : ClosedOnce s := by
  have hready := h.ready
  have honline := h.online
  have hstop := h.stopC
  have hbroken := h.broken
  have hflag := Bool.toNat_le s.shared.stopRequested
  have hflag' := Bool.toNat_le s.shared.brokenClosed
  exact ⟨by omega,by omega,by omega,by omega⟩

/-- A new call is at none of the places that count. -/
theorem Closings.call {s : Session} (h : Closings s) {pc : Pc} (hready : beforeReady pc = 0)
    (honline : beforeOnline pc = 0) (hstop : beforeStop pc = 0) : Closings (s.call pc) := by
  constructor
  · rw [count_call,hready]
    exact h.ready
  · rw [count_call,honline]
    exact h.online
  · rw [count_call,hstop]
    exact h.stopC
  · exact h.broken

theorem Closings.goes {s : Session} (h : Closings s) {i : ℕ} {choice : Choice} {t : Thread}
    {op : Op} {pc : Pc} {started : List Pc} (ht : s.threads[i]? = some t)
    (hnext : next s.shared (s.shared.cancelled.contains t.ctx) t.pc choice = some (op,pc,started))
    (halone : t.pc = .launching → s.shared.connReady = 0 ∧ s.count beforeReady = 0) :
    Closings (s.advance i t op pc started) := by
  have hready := h.ready
  have honline := h.online
  have hstop := h.stopC
  obtain ⟨hstep,hstep',hstep''⟩ := next_closings hnext
  have hcount := count_advance ht beforeReady op pc started
  have hcount' := count_advance ht beforeOnline op pc started
  have hcount'' := count_advance ht beforeStop op pc started
  constructor
  · show (s.shared.apply op).connReady+_ ≤ 1
    rw [connReady_apply]
    by_cases hlaunch : t.pc = .launching
    · have hfree := halone hlaunch
      rw [if_pos hlaunch] at hstep
      omega
    · rw [if_neg hlaunch] at hstep
      omega
  · show (s.shared.apply op).online+_ ≤ (s.shared.apply op).connReady
    rw [connReady_apply,online_apply]
    omega
  · show (s.shared.apply op).stopC+_ ≤ (s.shared.apply op).stopRequested.toNat
    rw [stopC_apply,stopRequested_apply]
    by_cases hmark : op = .markAbort
    · have hunset := next_markAbort (hmark ▸ hnext)
      have hone : performs .markAbort op = 1 := if_pos hmark
      rw [hunset] at hstop
      simp only [hmark,decide_true,Bool.or_true,Bool.toNat_true]
      simp only [Bool.toNat_false,hmark] at hstop hstep'' hcount'' hone
      omega
    · have hzero : performs .markAbort op = 0 := if_neg hmark
      simp only [hmark,decide_false,Bool.or_false]
      omega
  · exact broken_apply s.shared op h.broken

theorem Closings.outcome {s s' : Session} {ev : Event} (h : Closings s) (hev : Outcome s ev s')
    (halone : LaunchesAlone s ev) : Closings s' := by
  cases hev with
  | stays => exact h
  | starts => exact h.call rfl rfl rfl
  | stops =>
      have hcalled : Closings
          {s with shared := {s.shared with cleanStop := s.shared.cleanStop || !s.shared.failed}} :=
        ⟨h.ready,h.online,h.stopC,h.broken⟩
      exact hcalled.call rfl rfl rfl
  | cancels => exact ⟨h.ready,h.online,h.stopC,h.broken⟩
  | goes i choice t op pc started ht hnext =>
      apply h.goes ht hnext
      intro hpc
      apply halone
      rw [movedPc_go ht,hpc]

theorem Closings.initial : Closings {} := ⟨by decide,by decide,by decide,rfl⟩

/-- In a run of any calls, cancellations and schedules in which every task is launched alone, no
channel is closed twice. -/
theorem channels_closed_once (evs : List Event)
    (h : Along Session.step LaunchesAlone evs {}) :
    ∀ pre, pre <+: evs → ClosedOnce (run Session.step pre {}) := by
  intro pre hpre
  apply Closings.closedOnce
  apply h.throughout _ Closings.initial pre hpre
  intro s ev hs hev
  exact hs.outcome (step_outcome s ev) hev

/-- The first `Start`, up to its dial. -/
def firstDial : List Event := .start::goes 0 4++goes 1 1

/-- The first dial fails and the task ends; a second `Start` comes online and is stopped. -/
def dialFailsOnce : List Event :=
  firstDial++[.go 1 (.fails false)]++goes 1 8++[.go 0 .result]++
    (.start::goes 2 4)++goes 3 13++[.stop]++goes 7 5++[.go 7 .broken]++goes 7 1

theorem channels_closed_once_after_failed_dial :
    Along Session.step LaunchesAlone dialFailsOnce {} ∧
      ∀ pre, pre <+: dialFailsOnce → ClosedOnce (run Session.step pre {}) := by
  have halone : Along Session.step LaunchesAlone dialFailsOnce {} := by decide +kernel
  exact ⟨halone,channels_closed_once dialFailsOnce halone⟩

/-- The first handshake fails and the task ends; the dial of a second `Start` succeeds. -/
def handshakeFailsOnce : List Event :=
  firstDial++goes 1 4++[.go 1 (.fails false)]++goes 1 9++[.go 0 .result]++
    (.start::goes 2 4)++goes 3 4

theorem connReady_closed_twice : ¬ClosedOnce (run Session.step handshakeFailsOnce {}) ∧
    (run Session.step handshakeFailsOnce {}).shared.connReady = 2 := by
  decide +kernel

end BaturWhatsApi.SessionChannels
