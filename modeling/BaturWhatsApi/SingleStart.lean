import BaturWhatsApi.SessionLifecycle

/-!
# Sessions that are started once

Until `Start` has launched the connection task there are only calls of `Stop` beside it, and
there is never more than one connection task.
-/
namespace BaturWhatsApi.SingleStart
open ListCells Runs StateMachine SessionLifecycle

/-- `Start` has not yet launched the connection task. -/
def early : Pc → Bool
  | .checking | .loading | .starting | .launching => true
  | _ => false

/-- Before the launch, or in the connection task. -/
def life (pc : Pc) : ℕ := if early pc ∨ pc.role = .task then 1 else 0

@[simp] theorem early_resume_fail (caller : FailCaller) : early caller.resume = false := by
  cases caller <;> rfl

@[simp] theorem early_resume_abort (caller : AbortCaller) : early caller.resume = false := by
  cases caller <;> rfl

section
variable {s : Shared} {dead : Bool} {pc pc' : Pc} {choice : Choice} {op : Op} {started : List Pc}

/-- Which goroutines a step starts. -/
theorem next_started (h : next s dead pc choice = some (op,pc',started)) :
    started = [] ∨ (pc = .launching ∧ op = .skip ∧ pc' = .waiting ∧ started = [.connecting]) ∨
      pc.role = .task ∧ ∀ p ∈ started, p.role ≠ .start ∧ p.role ≠ .task ∧ p.role ≠ .stop := by
  revert h
  fun_cases next s dead pc choice <;> intro h <;> cases h
  all_goals simp [Pc.role]

/-- `Start` passes through its first operations once. -/
theorem next_early (h : next s dead pc choice = some (op,pc',started)) (hearly : early pc' = true) :
    early pc = true ∧ started = [] := by
  revert h
  fun_cases next s dead pc choice <;> intro h <;> cases h
  all_goals try simp only [early_resume_fail,early_resume_abort] at hearly
  all_goals simp_all [early]

theorem next_life (h : next s dead pc choice = some (op,pc',started)) :
    life pc'+tally life started ≤ life pc := by
  have hrole := next_role h
  rcases next_started h with hnone | ⟨rfl,-,rfl,rfl⟩ | ⟨htask,hothers⟩
  · subst hnone
    by_cases hearly : early pc' = true
    · simp [life,tally,hearly,(next_early h hearly).1]
    · by_cases htask : pc.role = .task
      · simp [life,tally,hrole,htask]
      · simp [life,tally,hearly,hrole,htask]
  · decide
  · have hzero : tally life started = 0 := by
      apply tally_eq_zero
      intro p hp
      obtain ⟨hstart,htask,-⟩ := hothers p hp
      have hlate : early p = false := by
        cases p <;> first | rfl | exact absurd rfl hstart
      simp [life,hlate,htask]
    simp only [hzero,life,hrole,htask,or_true,if_true,Nat.le_refl]

end

/-! ### Whole runs -/

structure Single (s : Session) : Prop where
  alone : ∀ (i : ℕ) (t : Thread), s.threads[i]? = some t → early t.pc = true →
    ∀ (j : ℕ) (u : Thread), s.threads[j]? = some u → j ≠ i → u.pc.role = .stop
  once : s.count life ≤ 1

/-- Any event but another `Start`. -/
def NoStart (ev : Event) : Prop := ev ≠ .start

instance (ev : Event) : Decidable (NoStart ev) := inferInstanceAs (Decidable (_ ≠ _))

section
variable {s : Session} {i : ℕ} {choice : Choice} {t : Thread} {op : Op} {pc : Pc}
  {started : List Pc}

/-- A goroutine before the launch was there before the step. -/
theorem early_advance
    (hnext : next s.shared (s.shared.cancelled.contains t.ctx) t.pc choice = some (op,pc,started))
    {j : ℕ} {u : Thread} (hu : (s.advance i t op pc started).threads[j]? = some u)
    (hearly : early u.pc = true) :
    (j = i ∧ early t.pc = true ∧ started = []) ∨ j ≠ i ∧ s.threads[j]? = some u := by
  rcases advance_thread hu with ⟨hji,rfl⟩ | ⟨hj,hu⟩ | ⟨-,-,hnew⟩
  · exact .inl ⟨hji,next_early hnext hearly⟩
  · exact .inr ⟨hj,hu⟩
  · -- No goroutine starts with the operations of `Start`.
    exfalso
    rcases next_started hnext with rfl | ⟨-,-,-,rfl⟩ | ⟨-,hothers⟩
    · cases hnew
    · rw [List.mem_singleton.mp hnew] at hearly
      cases hearly
    · have hstart := (hothers u.pc hnew).1
      revert hearly hstart
      cases u.pc <;> simp [early,Pc.role]

/-- A call of `Stop` was there before the step. -/
theorem stop_advance
    (hnext : next s.shared (s.shared.cancelled.contains t.ctx) t.pc choice = some (op,pc,started))
    {j : ℕ} {u : Thread} (hu : (s.advance i t op pc started).threads[j]? = some u)
    (hrole : u.pc.role = .stop) :
    (j = i ∧ u = ⟨t.ctx,pc⟩ ∧ t.pc.role = .stop) ∨ j ≠ i ∧ s.threads[j]? = some u := by
  rcases advance_thread hu with ⟨hji,rfl⟩ | ⟨hj,hu⟩ | ⟨-,-,hnew⟩
  · exact .inl ⟨hji,rfl,(next_role hnext).symm.trans hrole⟩
  · exact .inr ⟨hj,hu⟩
  · exfalso
    rcases next_started hnext with rfl | ⟨-,-,-,rfl⟩ | ⟨-,hothers⟩
    · cases hnew
    · rw [List.mem_singleton.mp hnew] at hrole
      cases hrole
    · exact (hothers u.pc hnew).2.2 hrole

theorem Single.goes (h : Single s) (ht : s.threads[i]? = some t)
    (hnext : next s.shared (s.shared.cancelled.contains t.ctx) t.pc choice = some (op,pc,started)) :
    Single (s.advance i t op pc started) := by
  constructor
  · intro j u hu hearly k v hv hne
    rcases early_advance hnext hu hearly with ⟨rfl,hbefore,rfl⟩ | ⟨hj,hu⟩
    · rcases advance_thread hv with ⟨rfl,-⟩ | ⟨-,hv⟩ | ⟨-,-,hnone⟩
      · exact absurd rfl hne
      · exact h.alone j t ht hbefore k v hv hne
      · cases hnone
    · -- The goroutine that moved stands beside an early one, so it is a call of `Stop`.
      have hstop := h.alone j u hu hearly i t ht (Ne.symm hj)
      rcases advance_thread hv with ⟨rfl,rfl⟩ | ⟨-,hv⟩ | ⟨-,-,hnew⟩
      · exact (next_role hnext).trans hstop
      · exact h.alone j u hu hearly k v hv hne
      · rcases next_started hnext with rfl | ⟨hlaunch,-⟩ | ⟨htask,-⟩
        · cases hnew
        · rw [hlaunch] at hstop
          cases hstop
        · rw [htask] at hstop
          cases hstop
  · have hstep := next_life hnext
    have hcount := count_advance ht life op pc started
    have hlife := h.once
    omega

end

theorem Single.call {s : Session} (h : Single s) {shared : Shared} :
    Single (Session.call {s with shared := shared} .marking) := by
  constructor
  · intro i t ht hearly j u hu hne
    rcases call_thread ht with ht | ⟨-,rfl⟩
    · rcases call_thread hu with hu | ⟨-,rfl⟩
      · exact h.alone i t ht hearly j u hu hne
      · rfl
    · cases hearly
  · rw [count_call]
    exact h.once

theorem Single.outcome {s s' : Session} {ev : Event} (h : Single s) (hev : Outcome s ev s')
    (hno : NoStart ev) : Single s' := by
  cases hev with
  | stays => exact h
  | starts => exact absurd rfl hno
  | stops => exact h.call
  | cancels => exact ⟨h.alone,h.once⟩
  | goes i choice t op pc started ht hnext => exact h.goes ht hnext

/-- One call of `Start` that has not yet done anything. -/
def started : Session := Session.call {} .checking

theorem Single.started : Single started := by
  constructor
  · intro i t ht _ j u hu hne
    have hi := (List.getElem?_eq_some_iff.mp ht).1
    have hj := (List.getElem?_eq_some_iff.mp hu).1
    simp only [SingleStart.started,Session.call,List.nil_append,List.length_singleton] at hi hj
    omega
  · decide

end BaturWhatsApi.SingleStart
