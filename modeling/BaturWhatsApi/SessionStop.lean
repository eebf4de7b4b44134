import BaturWhatsApi.SingleStart

/-!
# The last state of a session

One call of `Start` and one of `Stop`. `Start` looks at the flag of `Stop` and moves the machine
in two separate operations, so `Stop` can run to its end in between, and then `Start` moves the
machine out of STOPPED. Apart from that the transition table makes `Stop` final: every other move
that a goroutine still issues is refused.
-/
namespace BaturWhatsApi.SessionStop
open ListCells Runs StateMachine SessionLifecycle SingleStart

/-- The state that the goroutine moves the machine to. -/
def issues : Pc → Option State
  | .starting => some .starting
  | .connecting => some .connecting
  | .authenticating _ => some .authenticating
  | .syncing _ => some .syncing
  | .onlining | .lifting _ _ => some .online
  | .degrading => some .degraded
  | .failing .moving _ _ => some .error
  | .stopMoving | .stopMovingAgain | .forcing => some .stopping
  | .finishing => some .stopped
  | _ => none

/-- `Stop` has moved the machine to STOPPING and not yet to STOPPED. -/
def midStop : Pc → Bool
  | .stopMovingAgain | .forcing | .sending | .aborting _ .stop | .awaiting | .finishing => true
  | _ => false

def stopReturned : Pc → Bool
  | .returned .stop _ => true
  | _ => false

/-! ### The machine -/

section
variable {m : Machine} {target : State}

theorem can_stopping (m : Machine) : m.can .stopping = true := by
  cases h : m.state <;> simp [Machine.can,table,h]

/-- STOPPING is left to STOPPED only. -/
theorem stays_stopping (h : m.state = .stopping) (hne : target ≠ .stopped) :
    (m.tryMove target).state = .stopping := by
  rw [state_tryMove]
  cases target <;> simp_all [Machine.can,table]

/-- STOPPED is left to STARTING and to STOPPING only. -/
theorem stays_stopped (h : m.state = .stopped) (hstart : target ≠ .starting)
    (hstop : target ≠ .stopping) : (m.tryMove target).state = .stopped := by
  rw [state_tryMove]
  cases target <;> simp_all [Machine.can,table]

/-- What has been entered stays entered. -/
theorem mem_entered_tryMove {state : State} (h : state ∈ m.entered) :
    state ∈ (m.tryMove target).entered := by
  rcases entered_tryMove m target with hsame | ⟨-,-,hnew⟩
  · rwa [hsame]
  · rw [hnew]
    exact List.mem_append_left _ h

/-- A state that has just been entered is the one moved to. -/
theorem entered_tryMove_cases {state : State} (h : state ∈ (m.tryMove target).entered) :
    state ∈ m.entered ∨ state = target ∧ (m.tryMove target).state = target := by
  rcases entered_tryMove m target with hsame | ⟨hcan,-,hnew⟩
  · exact .inl (hsame ▸ h)
  · rw [hnew,List.mem_append,List.mem_singleton] at h
    refine h.imp_right fun heq => ⟨heq,?_⟩
    rw [state_tryMove,if_pos hcan]

/-- The state of the machine is the last one entered; it is STOPPED before. -/
def Recorded (m : Machine) : Prop := m.state = m.entered.getLast?.getD .stopped

theorem Recorded.tryMove (h : Recorded m) : Recorded (m.tryMove target) := by
  cases hcan : m.can target with
  | false => rwa [tryMove_of_not_can hcan]
  | true =>
      rw [tryMove_of_can hcan,Machine.apply]
      split
      · exact h
      · simp [Recorded]

theorem Recorded.mem (h : Recorded m) (hne : m.state ≠ .stopped) : m.state ∈ m.entered := by
  cases hlast : m.entered.getLast? with
  | none => exact absurd (by rw [h,hlast]; rfl) hne
  | some last =>
      rw [h,hlast]
      exact List.mem_of_getLast? hlast

theorem Recorded.stopped (h : Recorded m) (hstate : m.state = .stopped) (hne : m.entered ≠ []) :
    .stopped ∈ m.entered := by
  cases hlast : m.entered.getLast? with
  | none => exact absurd (List.getLast?_eq_none_iff.mp hlast) hne
  | some last =>
      have hmem := List.mem_of_getLast? hlast
      rw [h,hlast] at hstate
      exact hstate ▸ hmem

/-- No ONLINE after ERROR or STOPPING. -/
def NoReturn (entered : List State) : Prop :=
  entered.Pairwise fun before after => before = .error ∨ before = .stopping → after ≠ .online

instance (entered : List State) : Decidable (NoReturn entered) :=
  inferInstanceAs (Decidable (List.Pairwise _ _))

def Down (state : State) : Prop := state = .error ∨ state = .stopping ∨ state = .stopped

/-- No move leads from these states to ONLINE. -/
theorem Down.not_can_online (h : Down m.state) : m.can .online = false := by
  rcases h with h | h | h <;> simp [Machine.can,table,h]

/-- Only STARTING and RECONNECTING lead away from these states, and not from STOPPING. -/
theorem Down.tryMove (h : Down m.state) (hstart : target = .starting → m.state = .stopping)
    (hre : target ≠ .reconnecting) : Down (m.tryMove target).state := by
  rw [state_tryMove]
  rcases h with h | h | h <;> cases target <;> simp_all [Machine.can,table,Down]

theorem NoReturn.tryMove (h : NoReturn m.entered)
    (hdown : .error ∈ m.entered ∨ .stopping ∈ m.entered → Down m.state) :
    NoReturn (m.tryMove target).entered := by
  rcases entered_tryMove m target with hsame | ⟨hcan,-,hnew⟩
  · rwa [hsame]
  · rw [hnew,NoReturn,List.pairwise_append]
    refine ⟨h,List.pairwise_singleton _ _,?_⟩
    intro before hbefore after hafter hbad honline
    rw [List.mem_singleton.mp hafter] at honline
    subst honline
    have hin : .error ∈ m.entered ∨ .stopping ∈ m.entered := by
      rcases hbad with rfl | rfl
      · exact .inl hbefore
      · exact .inr hbefore
    rw [(hdown hin).not_can_online] at hcan
    cases hcan

end

/-! ### Who moves the machine where -/

section
variable {pc : Pc}

theorem midStop_fail (caller : FailCaller) : midStop caller.resume = false ∧
    stopReturned caller.resume = false ∧ caller.resume ≠ .marking ∧ caller.role ≠ .start ∧
      caller.role ≠ .stop := by
  cases caller <;> exact ⟨rfl,rfl,nofun,nofun,nofun⟩

/-- Where a goroutine stands that moves the machine. -/
structure Place (pc : Pc) (target : State) : Prop where
  starting : target = .starting → pc = .starting
  stopped : target = .stopped → pc = .finishing
  stopping : target = .stopping → pc.role = .stop
  error : target = .error → pc.role ≠ .start ∧ pc.role ≠ .stop
  reconnecting : target ≠ .reconnecting

theorem issues_place {target : State} (h : issues pc = some target) : Place pc target := by
  revert h
  fun_cases issues pc <;> intro h <;> cases h
  all_goals constructor <;> simp [Pc.role,midStop_fail]

theorem role_midStop (h : midStop pc = true) : pc.role = .stop := by
  revert h
  fun_cases midStop pc <;> simp [Pc.role,AbortCaller.role]

theorem role_stopReturned (h : stopReturned pc = true) : pc.role = .stop := by
  revert h
  fun_cases stopReturned pc <;> simp [Pc.role]

theorem role_early (h : early pc = true) : pc.role = .start := by
  revert h
  fun_cases early pc <;> simp [Pc.role]

end

/-! ### One step of a program -/

section
variable {s : Shared} {dead : Bool} {pc pc' : Pc} {choice : Choice} {op : Op} {started : List Pc}

theorem mach_record (s : Shared) (err : Err) : (s.apply (.record err)).mach = s.mach := by
  rw [apply_record]

/-- The machine moves as the goroutine's place says, or not at all. -/
theorem next_mach (h : next s dead pc choice = some (op,pc',started)) :
    (s.apply op).mach = s.mach ∨
      ∃ target, issues pc = some target ∧ (s.apply op).mach = s.mach.tryMove target := by
  revert h
  fun_cases next s dead pc choice <;> intro h <;> cases h
  all_goals try simp only [mach_record]
  all_goals simp [Shared.apply,issues,Machine.force,tryMove_of_can,can_stopping]

theorem midStop_aborting (phase : Aborting) (caller : AbortCaller) :
    midStop (.aborting phase caller) = decide (caller = .stop) := by
  cases caller <;> rfl

theorem midStop_resume (caller : AbortCaller) :
    midStop caller.resume = decide (caller = .stop) := by
  cases caller <;> rfl

theorem midStop_abort (caller : AbortCaller) :
    stopReturned caller.resume = false ∧ caller.resume ≠ .marking := by
  cases caller <;> exact ⟨rfl,nofun⟩

/-- `Stop` comes to its middle part by moving the machine. -/
theorem next_midStop (h : next s dead pc choice = some (op,pc',started))
    (hmid : midStop pc' = true) :
    midStop pc = true ∧ pc ≠ .finishing ∨ op = .move .stopping := by
  revert h
  fun_cases next s dead pc choice <;> intro h <;> cases h
  all_goals try simp only [midStop_fail,midStop_resume,midStop_aborting] at hmid ⊢
  all_goals simp_all [midStop]

/-- It returns after moving the machine, or at once if it is not the first call. -/
theorem next_stopReturned (h : next s dead pc choice = some (op,pc',started))
    (hreturned : stopReturned pc' = true) :
    (pc = .finishing ∧ op = .move .stopped) ∨ pc = .marking ∧ s.stopped = true := by
  revert h
  fun_cases next s dead pc choice <;> intro h <;> cases h
  all_goals try simp only [midStop_fail,midStop_abort] at hreturned
  all_goals simp_all [stopReturned]

theorem next_stopReturned_none (h : stopReturned pc = true) : next s dead pc choice = none := by
  revert h
  fun_cases stopReturned pc
  · intro _
    rfl
  · intro h
    cases h

theorem stopped_apply (s : Shared) (op : Op) :
    (s.apply op).stopped = (s.stopped || decide (op = .markStopped)) := by
  cases op with
  | record err => simp [apply_record]
  | _ => simp [Shared.apply]

/-- `Stop` marks the session first. -/
theorem next_marking (h : next s dead pc choice = some (op,pc',started)) :
    pc' ≠ .marking ∧ (op = .markStopped → pc = .marking) := by
  revert h
  fun_cases next s dead pc choice <;> intro h <;> cases h
  all_goals simp [midStop_fail,midStop_abort]

end

/-! ### Whole runs -/

structure Settled (s : Session) : Prop where
  single : Single s
  recorded : Recorded s.shared.mach
  down : .error ∈ s.shared.mach.entered ∨ .stopping ∈ s.shared.mach.entered →
    Down s.shared.mach.state
  noReturn : NoReturn s.shared.mach.entered
  fresh : ∀ (i : ℕ) (t : Thread), s.threads[i]? = some t → early t.pc = true →
    .error ∉ s.shared.mach.entered
  one : ∀ (i j : ℕ) (t u : Thread), s.threads[i]? = some t → s.threads[j]? = some u →
    t.pc.role = .stop → u.pc.role = .stop → j = i
  marking : ∀ (i : ℕ) (t : Thread), s.threads[i]? = some t → t.pc = .marking →
    s.shared.stopped = false
  mid : ∀ (i : ℕ) (t : Thread), s.threads[i]? = some t → midStop t.pc = true →
    s.shared.mach.state = .stopping
  after : ∀ (i : ℕ) (t : Thread), s.threads[i]? = some t → stopReturned t.pc = true →
    s.shared.mach.state = .stopped ∧ .stopped ∈ s.shared.mach.entered
  came : .stopped ∈ s.shared.mach.entered →
    ∃ (i : ℕ) (t : Thread), s.threads[i]? = some t ∧ stopReturned t.pc = true

/-- Neither `Start` nor `Stop` is called again. -/
def NoCall (ev : Event) : Prop := ev ≠ .start ∧ ev ≠ .stop

instance (ev : Event) : Decidable (NoCall ev) := inferInstanceAs (Decidable (_ ∧ _))

/-- `Start` moves the machine only before `Stop` has moved it to STOPPED. -/
def StartsFirst (s : Session) (ev : Event) : Prop :=
  movedPc s ev = some .starting → .stopped ∉ s.shared.mach.entered

instance (s : Session) (ev : Event) : Decidable (StartsFirst s ev) :=
  inferInstanceAs (Decidable (_ → _))

/-- If `Stop` has returned the machine is in STOPPED, and it has not entered ONLINE after ERROR or
STOPPING. -/
def StopFinal (s : Session) : Prop :=
  (s.threads.any (fun t => stopReturned t.pc) = true → s.shared.mach.state = .stopped) ∧
    NoReturn s.shared.mach.entered

instance (s : Session) : Decidable (StopFinal s) := inferInstanceAs (Decidable (_ ∧ _))

theorem Settled.stopFinal {s : Session} (h : Settled s) : StopFinal s := by
  refine ⟨?_,h.noReturn⟩
  intro hany
  obtain ⟨t,ht,hreturned⟩ := List.any_eq_true.mp hany
  obtain ⟨i,hi⟩ := List.getElem?_of_mem ht
  exact (h.after i t hi hreturned).1

section
variable {s : Session} {i : ℕ} {choice : Choice} {t : Thread} {op : Op} {pc : Pc}
  {started : List Pc}

/-- Once down the machine stays down: `Start` moves it before anything has happened. -/
theorem Settled.down_move (h : Settled s) (ht : s.threads[i]? = some t)
    (hfirst : t.pc = .starting → .stopped ∉ s.shared.mach.entered) {target : State}
    (hissues : issues t.pc = some target)
    (hin : .error ∈ (s.shared.mach.tryMove target).entered ∨
      .stopping ∈ (s.shared.mach.tryMove target).entered) :
    Down (s.shared.mach.tryMove target).state := by
  by_cases hbefore : .error ∈ s.shared.mach.entered ∨ .stopping ∈ s.shared.mach.entered
  · have hdown := h.down hbefore
    apply hdown.tryMove
    · rintro rfl
      have hpc := (issues_place hissues).starting rfl
      have hnoerror := h.fresh i t ht (by rw [hpc]; rfl)
      have hstopping := hbefore.resolve_left hnoerror
      rcases hdown with herror | hstop | hstopped
      · have hmem := h.recorded.mem (by rw [herror]; nofun)
        rw [herror] at hmem
        exact absurd hmem hnoerror
      · exact hstop
      · exact absurd (h.recorded.stopped hstopped (List.ne_nil_of_mem hstopping)) (hfirst hpc)
    · rintro rfl
      exact (issues_place hissues).reconnecting rfl
  · rcases hin with hin | hin
    · rcases entered_tryMove_cases hin with hold | ⟨rfl,hstate⟩
      · exact absurd (.inl hold) hbefore
      · exact .inl hstate
    · rcases entered_tryMove_cases hin with hold | ⟨rfl,hstate⟩
      · exact absurd (.inr hold) hbefore
      · exact .inr (.inl hstate)

/-- The goroutine that moves is no call of `Stop` if another one is. -/
theorem Settled.not_stop (h : Settled s) (ht : s.threads[i]? = some t) {j : ℕ} {u : Thread}
    (hu : s.threads[j]? = some u) (hrole : u.pc.role = .stop) (hne : j ≠ i) :
    t.pc.role ≠ .stop := fun hstop => hne (h.one i j t u ht hu hstop hrole)

theorem Settled.mid_goes (h : Settled s) (ht : s.threads[i]? = some t)
    (hnext : next s.shared (s.shared.cancelled.contains t.ctx) t.pc choice = some (op,pc,started))
    {j : ℕ} {u : Thread} (hu : (s.advance i t op pc started).threads[j]? = some u)
    (hmid : midStop u.pc = true) : (s.shared.apply op).mach.state = .stopping := by
  -- Whoever moves, the machine is in STOPPING and the move is not the one to STOPPED.
  have hstays : s.shared.mach.state = .stopping → t.pc ≠ .finishing →
      (s.shared.apply op).mach.state = .stopping := by
    intro hstate hpc
    rcases next_mach hnext with hsame | ⟨target,hissues,hmoved⟩
    · rw [hsame,hstate]
    · rw [hmoved]
      apply stays_stopping hstate
      rintro rfl
      exact hpc ((issues_place hissues).stopped rfl)
  rcases stop_advance hnext hu (role_midStop hmid) with ⟨rfl,rfl,-⟩ | ⟨hne,hu⟩
  · rcases next_midStop hnext hmid with ⟨hbefore,hpc⟩ | rfl
    · exact hstays (h.mid j t ht hbefore) hpc
    · show (s.shared.mach.tryMove .stopping).state = .stopping
      rw [state_tryMove,if_pos (can_stopping _)]
  · apply hstays (h.mid j u hu hmid)
    intro hpc
    exact h.not_stop ht hu (role_midStop hmid) hne (by rw [hpc]; rfl)

theorem Settled.after_goes (h : Settled s) (ht : s.threads[i]? = some t)
    (hnext : next s.shared (s.shared.cancelled.contains t.ctx) t.pc choice = some (op,pc,started))
    (hfirst : t.pc = .starting → .stopped ∉ s.shared.mach.entered)
    {j : ℕ} {u : Thread} (hu : (s.advance i t op pc started).threads[j]? = some u)
    (hreturned : stopReturned u.pc = true) :
    (s.shared.apply op).mach.state = .stopped ∧ .stopped ∈ (s.shared.apply op).mach.entered := by
  rcases stop_advance hnext hu (role_stopReturned hreturned) with ⟨rfl,rfl,-⟩ | ⟨hne,hu⟩
  · rcases next_stopReturned hnext hreturned with ⟨hpc,rfl⟩ | ⟨hpc,hset⟩
    · have hstate := h.mid j t ht (by rw [hpc]; rfl)
      have hcan : s.shared.mach.can .stopped = true := by simp [Machine.can,table,hstate]
      show (s.shared.mach.tryMove .stopped).state = _ ∧ _ ∈ (s.shared.mach.tryMove .stopped).entered
      rw [tryMove_of_can hcan]
      refine ⟨state_apply,?_⟩
      simp [Machine.apply,hstate]
    · rw [h.marking j t ht hpc] at hset
      cases hset
  · obtain ⟨hstate,hmem⟩ := h.after j u hu hreturned
    have hother := h.not_stop ht hu (role_stopReturned hreturned) hne
    rcases next_mach hnext with hsame | ⟨target,hissues,hmoved⟩
    · rw [hsame]
      exact ⟨hstate,hmem⟩
    · rw [hmoved]
      refine ⟨?_,mem_entered_tryMove hmem⟩
      apply stays_stopped hstate
      · rintro rfl
        exact hfirst ((issues_place hissues).starting rfl) hmem
      · rintro rfl
        exact hother ((issues_place hissues).stopping rfl)

theorem Settled.fresh_goes (h : Settled s) (ht : s.threads[i]? = some t)
    (hnext : next s.shared (s.shared.cancelled.contains t.ctx) t.pc choice = some (op,pc,started))
    {j : ℕ} {u : Thread} (hu : (s.advance i t op pc started).threads[j]? = some u)
    (hearly : early u.pc = true) : .error ∉ (s.shared.apply op).mach.entered := by
  -- The goroutine that moves is `Start` or `Stop`, and neither moves the machine to ERROR.
  have hboth : .error ∉ s.shared.mach.entered ∧ (t.pc.role = .start ∨ t.pc.role = .stop) := by
    rcases early_advance hnext hu hearly with ⟨rfl,hbefore,-⟩ | ⟨hne,hu⟩
    · exact ⟨h.fresh j t ht hbefore,.inl (role_early hbefore)⟩
    · exact ⟨h.fresh j u hu hearly,.inr (h.single.alone j u hu hearly i t ht (Ne.symm hne))⟩
  intro herror
  rcases next_mach hnext with hsame | ⟨target,hissues,hmoved⟩
  · exact hboth.1 (hsame ▸ herror)
  · rw [hmoved] at herror
    rcases entered_tryMove_cases herror with hold | ⟨rfl,-⟩
    · exact hboth.1 hold
    · rcases hboth.2 with hstart | hstop
      · exact ((issues_place hissues).error rfl).1 hstart
      · exact ((issues_place hissues).error rfl).2 hstop

theorem Settled.came_goes (h : Settled s) (ht : s.threads[i]? = some t)
    (hnext : next s.shared (s.shared.cancelled.contains t.ctx) t.pc choice = some (op,pc,started))
    (hmem : .stopped ∈ (s.shared.apply op).mach.entered) :
    ∃ (j : ℕ) (u : Thread), (s.advance i t op pc started).threads[j]? = some u ∧
      stopReturned u.pc = true := by
  have hold : .stopped ∈ s.shared.mach.entered → ∃ (j : ℕ) (u : Thread),
      (s.advance i t op pc started).threads[j]? = some u ∧ stopReturned u.pc = true := by
    intro hmem
    obtain ⟨j,u,hu,hreturned⟩ := h.came hmem
    refine ⟨j,u,advance_other hu ?_ op pc started,hreturned⟩
    rintro rfl
    rw [hu] at ht
    cases ht
    rw [next_stopReturned_none hreturned] at hnext
    cases hnext
  rcases next_mach hnext with hsame | ⟨target,hissues,hmoved⟩
  · exact hold (hsame ▸ hmem)
  · rw [hmoved] at hmem
    rcases entered_tryMove_cases hmem with hbefore | ⟨rfl,-⟩
    · exact hold hbefore
    · rw [(issues_place hissues).stopped rfl] at hnext
      cases hnext
      exact ⟨i,_,advance_self ht _ _ _,rfl⟩

theorem Settled.goes (h : Settled s) (ht : s.threads[i]? = some t)
    (hnext : next s.shared (s.shared.cancelled.contains t.ctx) t.pc choice = some (op,pc,started))
    (hfirst : t.pc = .starting → .stopped ∉ s.shared.mach.entered) :
    Settled (s.advance i t op pc started) := by
  constructor
  · exact h.single.goes ht hnext
  · show Recorded (s.shared.apply op).mach
    rcases next_mach hnext with hsame | ⟨target,-,hmoved⟩
    · rw [hsame]
      exact h.recorded
    · rw [hmoved]
      exact h.recorded.tryMove
  · show _ ∈ (s.shared.apply op).mach.entered ∨ _ ∈ (s.shared.apply op).mach.entered →
      Down (s.shared.apply op).mach.state
    rcases next_mach hnext with hsame | ⟨target,hissues,hmoved⟩
    · rw [hsame]
      exact h.down
    · rw [hmoved]
      exact h.down_move ht hfirst hissues
  · show NoReturn (s.shared.apply op).mach.entered
    rcases next_mach hnext with hsame | ⟨target,-,hmoved⟩
    · rw [hsame]
      exact h.noReturn
    · rw [hmoved]
      exact h.noReturn.tryMove h.down
  · intro j u hu hearly
    exact h.fresh_goes ht hnext hu hearly
  · intro j k u v hu hv hrole hrole'
    rcases stop_advance hnext hu hrole with ⟨rfl,-,hstop⟩ | ⟨hj,hbefore⟩
    · rcases stop_advance hnext hv hrole' with ⟨rfl,-,-⟩ | ⟨-,hbefore⟩
      · rfl
      · exact h.one j k t v ht hbefore hstop hrole'
    · rcases stop_advance hnext hv hrole' with ⟨rfl,-,hstop⟩ | ⟨-,hbefore'⟩
      · exact h.one j k u t hbefore ht hrole hstop
      · exact h.one j k u v hbefore hbefore' hrole hrole'
  · intro j u hu hpc
    obtain ⟨hleaves,hmarks⟩ := next_marking hnext
    have hrole : u.pc.role = .stop := by rw [hpc]; rfl
    rcases stop_advance hnext hu hrole with ⟨-,rfl,-⟩ | ⟨hne,hu⟩
    · exact absurd hpc hleaves
    · show (s.shared.apply op).stopped = false
      rw [stopped_apply,h.marking j u hu hpc,Bool.false_or,decide_eq_false_iff_not]
      intro hop
      exact h.not_stop ht hu hrole hne (by rw [hmarks hop]; rfl)
  · intro j u hu hmid
    exact h.mid_goes ht hnext hu hmid
  · intro j u hu hreturned
    exact h.after_goes ht hnext hfirst hu hreturned
  · exact h.came_goes ht hnext

theorem Settled.outcome {s' : Session} {ev : Event} (h : Settled s) (hev : Outcome s ev s')
    (hno : NoCall ev) (hfirst : StartsFirst s ev) : Settled s' := by
  cases hev with
  | stays => exact h
  | starts => exact absurd rfl hno.1
  | stops => exact absurd rfl hno.2
  | cancels =>
      exact ⟨⟨h.single.alone,h.single.once⟩,h.recorded,h.down,h.noReturn,h.fresh,h.one,h.marking,
        h.mid,h.after,h.came⟩
  | goes i choice t op pc started ht hnext =>
      apply h.goes ht hnext
      intro hpc
      exact hfirst (by rw [movedPc_go ht,hpc])

end

/-- One call of `Start` and one of `Stop` that have not yet done anything. -/
def both : Session := started.call .marking

theorem both_thread {i : ℕ} {t : Thread} (h : both.threads[i]? = some t) :
    (i = 0 ∧ t = ⟨0,.checking⟩) ∨ i = 1 ∧ t = ⟨1,.marking⟩ := by
  rcases call_thread h with h | ⟨hi,rfl⟩
  · rcases call_thread h with h | ⟨hi,rfl⟩
    · cases h
    · exact .inl ⟨hi,rfl⟩
  · exact .inr ⟨hi,rfl⟩

theorem Settled.both : Settled both := by
  constructor
  · exact Single.started.call
  · rfl
  · rintro (h | h) <;> cases h
  · exact List.Pairwise.nil
  · intro i t _ _ h
    cases h
  · intro i j t u ht hu hrole hrole'
    rcases both_thread ht with ⟨-,rfl⟩ | ⟨rfl,-⟩
    · cases hrole
    · rcases both_thread hu with ⟨-,rfl⟩ | ⟨rfl,-⟩
      · cases hrole'
      · rfl
  · intro _ _ _ _
    rfl
  · intro i t ht hmid
    rcases both_thread ht with ⟨-,rfl⟩ | ⟨-,rfl⟩ <;> cases hmid
  · intro i t ht hreturned
    rcases both_thread ht with ⟨-,rfl⟩ | ⟨-,rfl⟩ <;> cases hreturned
  · intro h
    cases h

/-- A `Start` that moves the machine after `Stop` leaves STOPPED at once. -/
theorem Settled.shows {s : Session} (h : Settled s) {ev : Event} (hfinal : StopFinal (s.step ev)) :
    StartsFirst s ev := by
  intro hpc hmem
  cases ev with
  | go i choice =>
      cases ht : s.threads[i]? with
      | none => simp only [movedPc,mover,Option.bind_some,ht,Option.map_none,reduceCtorEq] at hpc
      | some t =>
          rw [movedPc_go ht,Option.some.injEq] at hpc
          obtain ⟨j,u,hu,hreturned⟩ := h.came hmem
          have hstate := (h.after j u hu hreturned).1
          have hcan : s.shared.mach.can .starting = true := by simp [Machine.can,table,hstate]
          have hstep : s.step (.go i choice) = s.advance i t (.move .starting) .launching [] := by
            simp only [Session.step,Session.go,ht,hpc,next,hcan,if_true]
          have hne : j ≠ i := by
            rintro rfl
            rw [hu] at ht
            cases ht
            rw [hpc] at hreturned
            cases hreturned
          rw [hstep] at hfinal
          have hthread := advance_other (t := t) hu hne (.move .starting) .launching []
          have hstopped := hfinal.1
            (List.any_eq_true.mpr ⟨u,List.mem_of_getElem? hthread,hreturned⟩)
          have hstarting : (s.shared.mach.tryMove .starting).state = .starting := by
            rw [state_tryMove,if_pos hcan]
          cases hstarting.symm.trans hstopped
  | _ => cases hpc

/-- One `Start` and one `Stop` under any schedule and cancellations: `Stop` is final after every
part of the run exactly when `Start` never moves the machine after `Stop` has. -/
theorem stop_final_iff (evs : List Event) (hno : ∀ ev ∈ evs, NoCall ev) :
    (∀ pre, pre <+: evs → StopFinal (run Session.step pre both)) ↔
      Along Session.step StartsFirst evs both := by
  apply along_iff_of (I := Settled) (Q := NoCall) _ _ _ hno Settled.both
  · intro s ev hno hs hfirst
    exact hs.outcome (step_outcome s ev) hno hfirst
  · intro s hs
    exact hs.stopFinal
  · intro s ev _ hs hfinal
    exact hs.shows hfinal

/-- `Start` comes online, and `Stop` runs to its end. -/
def stopsOnline : List Event :=
  goes 0 4++goes 2 13++goes 1 8++[.go 4 .closed]++goes 4 5++[.go 1 .broken]++goes 1 1

theorem stop_final_online :
    Along Session.step StartsFirst stopsOnline both ∧
      ∀ pre, pre <+: stopsOnline → StopFinal (run Session.step pre both) := by
  have hfirst : Along Session.step StartsFirst stopsOnline both := by decide
  exact ⟨hfirst,(stop_final_iff stopsOnline (by decide)).mpr hfirst⟩

/-- `Stop` runs between the two operations of `Start` and returns when its context ends, and then
`Start` comes online. -/
def stopsBetween : List Event :=
  goes 0 2++[.cancel 1]++goes 1 7++[.go 1 .ctx]++goes 1 1++goes 0 2++goes 2 11

/-- `Stop` has returned and the machine is in ONLINE, after STOPPING. -/
theorem stop_not_final :
    (∀ ev ∈ stopsBetween, NoCall ev) ∧
      (run Session.step stopsBetween both).threads.any (fun t => stopReturned t.pc) = true ∧
      (run Session.step stopsBetween both).shared.mach.state = .online ∧
      ¬StopFinal (run Session.step stopsBetween both) := by
  decide

end BaturWhatsApi.SessionStop
