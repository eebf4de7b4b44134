import BaturWhatsApi.SessionLifecycle

/-!
# The `connection.error` events of a session

Every call of `fail` publishes an event, also when another goroutine has recorded a failure
before. `Stop` closes the connection, the reader takes that for a failure of the transport since
nothing sets the flag it looks at, and the connection task calls `fail` again with the recorded
error. One event is published for a failure, and none after a clean `Stop`, as long as `fail` is
called only by the first goroutine to notice, and not after such a `Stop`.
-/
namespace BaturWhatsApi.SessionErrors
open ListCells Runs StateMachine SessionLifecycle

/-- The goroutine is inside `fail`. -/
def inFail : Pc → ℕ
  | .failing _ _ _ => 1
  | _ => 0

/-- It is inside `fail` and has recorded its error. -/
def recorded : Pc → ℕ
  | .failing .moving _ _ | .failing .emitting _ _ => 1
  | _ => 0

def records : Op → ℕ
  | .record _ => 1
  | _ => 0

/-- The next operation of the goroutine leads to a call of `fail`. -/
def callsFail (s : Shared) (dead : Bool) : Pc → Bool
  | .leaving err => !err.isStopped && !dead
  | .readChecked _ => !s.stopping
  | .handling _ .undecryptable => true
  | .degrading => true
  | _ => false

/-! ### One operation -/

section
variable (s : Shared) (op : Op)

theorem errorEvents_apply : (s.apply op).errorEvents = s.errorEvents+performs .emitError op := by
  cases op with
  | record err => simp [apply_record,performs]
  | _ => simp [Shared.apply,performs]

theorem cleanStop_apply : (s.apply op).cleanStop = s.cleanStop := by
  cases op with
  | record err => rw [apply_record]
  | _ => rfl

theorem brokenClosed_apply (h : (s.apply op).brokenClosed = false) :
    s.brokenClosed = false ∧ records op = 0 := by
  cases op with
  | record err =>
      rw [apply_record] at h
      cases h
  | _ => exact ⟨h,rfl⟩

end

/-! ### One step of a program -/

section
variable {s : Shared} {dead : Bool} {pc pc' : Pc} {choice : Choice} {op : Op} {started : List Pc}

theorem resume_fail (caller : FailCaller) :
    inFail caller.resume = 0 ∧ recorded caller.resume = 0 := by
  cases caller <;> exact ⟨rfl,rfl⟩

theorem resume_abort (caller : AbortCaller) :
    inFail caller.resume = 0 ∧ recorded caller.resume = 0 := by
  cases caller <;> exact ⟨rfl,rfl⟩

/-- `fail` is left by publishing the event. -/
theorem next_fail (h : next s dead pc choice = some (op,pc',started)) :
    (performs .emitError op+inFail pc'+tally inFail started ≤
        inFail pc+(callsFail s dead pc).toNat) ∧
      performs .emitError op+recorded pc'+tally recorded started ≤ recorded pc+records op := by
  revert h
  fun_cases next s dead pc choice <;> intro h <;> cases h
  all_goals try simp only [resume_fail,resume_abort]
  all_goals simp_all [inFail,recorded,records,callsFail,performs,tally]

end

/-! ### Whole runs -/

structure Reported (s : Session) : Prop where
  once : s.shared.errorEvents+s.count inFail ≤ 1
  closed : s.shared.brokenClosed = false → s.shared.errorEvents+s.count recorded = 0
  clean : s.shared.cleanStop = true → s.shared.errorEvents+s.count inFail = 0

/-- The goroutine that the event moves is about to call `fail`. -/
def failCalled (s : Session) (ev : Event) : Bool :=
  ((mover ev).bind (s.threads[·]?)).any fun t =>
    callsFail s.shared (s.shared.cancelled.contains t.ctx) t.pc

/-- A goroutine calls `fail` only while nothing has been recorded, no other goroutine is inside
`fail`, and `Stop` was not called before the first failure. `Stop` is not called after an error
that was published without any of the failures. -/
structure FirstOnly (s : Session) (ev : Event) : Prop where
  calls : failCalled s ev = true →
    s.shared.brokenClosed = false ∧ s.count inFail = 0 ∧ s.shared.cleanStop = false
  stops : ev = .stop → s.shared.failed = false → s.shared.errorEvents+s.count inFail = 0

instance (s : Session) (ev : Event) : Decidable (FirstOnly s ev) :=
  decidable_of_iff (_ ∧ _) ⟨fun h => ⟨h.1,h.2⟩,fun h => ⟨h.1,h.2⟩⟩

/-- At most one `connection.error` event, and none if `Stop` was called before any failure. -/
def ErrorsMeanFailure (s : Session) : Prop :=
  s.shared.errorEvents ≤ 1 ∧ (s.shared.cleanStop = true → s.shared.errorEvents = 0)

instance (s : Session) : Decidable (ErrorsMeanFailure s) := inferInstanceAs (Decidable (_ ∧ _))

theorem Reported.errorsMeanFailure {s : Session} (h : Reported s) : ErrorsMeanFailure s := by
  constructor
  · exact Nat.le_of_add_right_le h.once
  · intro hclean
    exact (Nat.add_eq_zero_iff.mp (h.clean hclean)).1

section
variable {s : Session} {i : ℕ} {choice : Choice} {t : Thread} {op : Op} {pc : Pc}
  {started : List Pc}

theorem Reported.goes (h : Reported s) (ht : s.threads[i]? = some t)
    (hnext : next s.shared (s.shared.cancelled.contains t.ctx) t.pc choice = some (op,pc,started))
    (hfirst : FirstOnly s (.go i choice)) : Reported (s.advance i t op pc started) := by
  obtain ⟨hstep,hstep'⟩ := next_fail hnext
  have hcount := count_advance ht inFail op pc started
  have hcount' := count_advance ht recorded op pc started
  have hevents := errorEvents_apply s.shared op
  have honce := h.once
  have hcalls := hfirst.calls
  have hcalled : failCalled s (.go i choice) =
      callsFail s.shared (s.shared.cancelled.contains t.ctx) t.pc := by
    simp only [failCalled,mover,Option.bind_some,ht,Option.any_some]
  rw [hcalled] at hcalls
  constructor
  · show (s.shared.apply op).errorEvents+_ ≤ 1
    cases hcall : callsFail s.shared (s.shared.cancelled.contains t.ctx) t.pc with
    | true =>
        -- Nothing is recorded, so nothing has been published.
        obtain ⟨hopen,hnone,-⟩ := hcalls hcall
        have hzero := h.closed hopen
        rw [hcall,Bool.toNat_true] at hstep
        omega
    | false =>
        rw [hcall,Bool.toNat_false] at hstep
        omega
  · intro hopen
    show (s.shared.apply op).errorEvents+_ = 0
    obtain ⟨hbefore,hunrecorded⟩ := brokenClosed_apply s.shared op hopen
    have hzero := h.closed hbefore
    omega
  · intro hclean
    show (s.shared.apply op).errorEvents+_ = 0
    have hbefore : s.shared.cleanStop = true := (cleanStop_apply s.shared op).symm.trans hclean
    have hzero := h.clean hbefore
    cases hcall : callsFail s.shared (s.shared.cancelled.contains t.ctx) t.pc with
    | true =>
        rw [(hcalls hcall).2.2] at hbefore
        cases hbefore
    | false =>
        rw [hcall,Bool.toNat_false] at hstep
        omega

theorem Reported.call (h : Reported s) {pc : Pc} (hfail : inFail pc = 0)
    (hrecorded : recorded pc = 0) : Reported (s.call pc) := by
  constructor
  · rw [count_call,hfail]
    exact h.once
  · rw [count_call,hrecorded]
    exact h.closed
  · rw [count_call,hfail]
    exact h.clean

theorem Reported.outcome {s' : Session} {ev : Event} (h : Reported s) (hev : Outcome s ev s')
    (hfirst : FirstOnly s ev) : Reported s' := by
  cases hev with
  | stays => exact h
  | starts => exact h.call rfl rfl
  | stops =>
      have hcalled : Reported {s with
          shared := {s.shared with cleanStop := s.shared.cleanStop || !s.shared.failed}} := by
        refine ⟨h.once,h.closed,?_⟩
        intro hclean
        rcases (Bool.or_eq_true _ _).mp hclean with hbefore | hunfailed
        · exact h.clean hbefore
        · exact hfirst.stops rfl (by simpa using hunfailed)
      exact hcalled.call rfl rfl
  | cancels => exact ⟨h.once,h.closed,h.clean⟩
  | goes i choice t op pc started ht hnext => exact h.goes ht hnext hfirst

end

theorem Reported.initial : Reported {} := ⟨by decide,fun _ => rfl,nofun⟩

/-- A run of any calls, cancellations and schedule in which `fail` is called by the first to
notice only. -/
theorem errors_mean_failure (evs : List Event) (h : Along Session.step FirstOnly evs {}) :
    ∀ pre, pre <+: evs → ErrorsMeanFailure (run Session.step pre {}) := by
  intro pre hpre
  apply Reported.errorsMeanFailure
  apply h.throughout _ Reported.initial pre hpre
  intro s ev hs hev
  exact hs.outcome (step_outcome s ev) hev

/-- The dial fails, and then the session is stopped. -/
def dialFails : List Event :=
  .start::goes 0 4++goes 1 1++[.go 1 (.fails false)]++goes 1 8++[.stop]++goes 2 5++
    [.go 2 .broken]++goes 2 1

theorem errors_mean_failure_dialFails :
    Along Session.step FirstOnly dialFails {} ∧
      ∀ pre, pre <+: dialFails → ErrorsMeanFailure (run Session.step pre {}) := by
  have hfirst : Along Session.step FirstOnly dialFails {} := by decide +kernel
  exact ⟨hfirst,errors_mean_failure dialFails hfirst⟩

/-- `Start` comes online. -/
def comesOnline : List Event := .start::goes 0 4++goes 1 13

/-- The reader fails, and the connection task after it. -/
def readFails : List Event :=
  comesOnline++[.go 3 (.fails false)]++goes 3 5++[.go 1 .broken]++goes 1 4

/-- `Stop` closes the connection, and the reader and the connection task fail. -/
def stops : List Event :=
  comesOnline++[.stop]++goes 5 8++[.go 3 .closed]++goes 3 5++[.go 1 .broken]++goes 1 4

/-- Two events for one failure, and two for a `Stop` without any failure. -/
theorem errors_repeated :
    (run Session.step readFails {}).shared.errorEvents = 2 ∧
      (run Session.step stops {}).shared.failed = false ∧
      (run Session.step stops {}).shared.cleanStop = true ∧
      (run Session.step stops {}).shared.errorEvents = 2 ∧
      ¬ErrorsMeanFailure (run Session.step readFails {}) ∧
      ¬ErrorsMeanFailure (run Session.step stops {}) := by
  decide +kernel

end BaturWhatsApi.SessionErrors
