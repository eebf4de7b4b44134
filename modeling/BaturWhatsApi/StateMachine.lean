import Mathlib.Data.List.Basic

/-!
# The connection states

`Machine` of `statemachine/statemachine.go`: a state, and a table of the transitions
that `Move` accepts. Moving to the current state is accepted and changes nothing.
-/
namespace BaturWhatsApi.StateMachine

inductive State where
  | stopped
  | starting
  | connecting
  | authenticating
  | syncing
  | online
  | degraded
  | reconnecting
  | error
  | stopping
deriving DecidableEq, Repr

def table : State → List State
  | .stopped => [.starting,.stopping]
  | .starting => [.connecting,.stopping,.error]
  | .connecting => [.authenticating,.reconnecting,.stopping,.error]
  | .authenticating => [.syncing,.online,.reconnecting,.stopping,.error]
  | .syncing => [.online,.degraded,.reconnecting,.stopping,.error]
  | .online => [.degraded,.reconnecting,.syncing,.stopping,.error]
  | .degraded => [.online,.reconnecting,.syncing,.stopping,.error]
  | .reconnecting => [.connecting,.authenticating,.stopping,.error]
  | .error => [.reconnecting,.starting,.stopping,.stopped]
  | .stopping => [.stopped]

/-- The states entered are kept in the order in which they were entered. -/
structure Machine where
  state : State := .stopped
  entered : List State := []
deriving DecidableEq, Repr

def Machine.can (m : Machine) (target : State) : Bool :=
  target == m.state || (table m.state).contains target

def Machine.apply (m : Machine) (target : State) : Machine :=
  if m.state = target then m else {state := target,entered := m.entered++[target]}

/-- The error holds the two states. -/
def Machine.move (m : Machine) (target : State) : Except (State × State) Machine :=
  if m.can target then .ok (m.apply target) else .error (m.state,target)

def Machine.force (m : Machine) (target : State) : Machine := m.apply target

/-- The machine after a `Move` whose error is ignored. -/
def Machine.tryMove (m : Machine) (target : State) : Machine := (m.move target).toOption.getD m

section
variable {m : Machine} {target : State}

theorem tryMove_of_can (h : m.can target = true) : m.tryMove target = m.apply target := by
  simp only [Machine.tryMove,Machine.move,h,if_true,Except.toOption,Option.getD]

theorem tryMove_of_not_can (h : m.can target = false) : m.tryMove target = m := by
  simp only [Machine.tryMove,Machine.move,h,Bool.false_eq_true,if_false,Except.toOption,Option.getD]

theorem state_apply : (m.apply target).state = target := by
  by_cases h : m.state = target
  · rw [Machine.apply,if_pos h,h]
  · rw [Machine.apply,if_neg h]

/-- A move is refused or leads to its state. -/
theorem state_tryMove : (m.tryMove target).state = if m.can target then target else m.state := by
  cases h : m.can target with
  | true => simp only [tryMove_of_can h,state_apply,if_true]
  | false => simp only [tryMove_of_not_can h,Bool.false_eq_true,if_false]

theorem entered_apply : (m.apply target).entered = m.entered ∨
    (m.state ≠ target ∧ (m.apply target).entered = m.entered++[target]) := by
  by_cases h : m.state = target
  · exact .inl (by simp only [Machine.apply,if_pos h])
  · exact .inr ⟨h,by simp only [Machine.apply,if_neg h]⟩

variable (m target) in
theorem entered_tryMove : (m.tryMove target).entered = m.entered ∨
    m.can target = true ∧ m.state ≠ target ∧
      (m.tryMove target).entered = m.entered++[target] := by
  cases h : m.can target with
  | true =>
      rw [tryMove_of_can h]
      exact entered_apply.imp_right fun hnew => ⟨rfl,hnew⟩
  | false => exact .inl (by rw [tryMove_of_not_can h])

end

end BaturWhatsApi.StateMachine
