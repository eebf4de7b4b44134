import BaturWhatsApi.ByteStrings
import BaturWhatsApi.Runs
import BaturWhatsApi.StateMachine

/-!
# The log of the connection states

`Machine` of `statemachine/statemachine.go` with its log. The type of a state is a string
there, so `Force` can lead to a state that the table does not know, and `Move` leaves such a
state for no other. `applyLocked` writes one entry for each change and keeps the last 64.

The changes of a run are read off the states before and after each call, without the log. Which
calls have to change the state is said by the table alone, without the machine.
-/
namespace BaturWhatsApi.TransitionHistory
open ByteStrings Runs
open StateMachine (State)

/-- The text of a constant. -/
def name : State → Bytes
  | .stopped => text "STOPPED"
  | .starting => text "STARTING"
  | .connecting => text "CONNECTING"
  | .authenticating => text "AUTHENTICATING"
  | .syncing => text "SYNCING"
  | .online => text "ONLINE"
  | .degraded => text "DEGRADED"
  | .reconnecting => text "RECONNECTING"
  | .error => text "ERROR"
  | .stopping => text "STOPPING"

def states : List State :=
  [.stopped,.starting,.connecting,.authenticating,.syncing,.online,.degraded,.reconnecting,
    .error,.stopping]

/-- The constant with that text. -/
def constant? (s : Bytes) : Option State := states.find? fun st => name st = s

/-- A string that is no key of the map has no successors. -/
def table (s : Bytes) : List Bytes := ((constant? s).elim [] StateMachine.table).map name

structure Transition where
  fromState : Bytes
  toState : Bytes
  reason : Bytes
  time : ℤ
deriving DecidableEq, Repr

structure ErrTransition where
  fromState : Bytes
  toState : Bytes
deriving DecidableEq, Repr

def ErrTransition.error (e : ErrTransition) : Bytes :=
  text "statemachine: illegal transition "++e.fromState++text " -> "++e.toState

structure Machine where
  state : Bytes := name .stopped
  history : List Transition := []
  maxHist : ℕ := 64
deriving DecidableEq, Repr

def Machine.canLocked (m : Machine) (target : Bytes) : Bool :=
  target == m.state || (table m.state).contains target

/-- The new state, and the log cut to its length. -/
def Machine.record (m : Machine) (tr : Transition) : Machine :=
  let history := m.history++[tr]
  {m with
    state := tr.toState
    history := if m.maxHist < history.length then history.drop (history.length-m.maxHist)
      else history}

/-- The transition is returned for the watchers. -/
def Machine.applyLocked (m : Machine) (target reason : Bytes) (forced : Bool) (now : ℤ) :
    Machine × Option Transition :=
  if m.state = target then (m,none)
  else
    let tr : Transition :=
      {fromState := m.state
       toState := target
       reason := if forced then text "!"++reason else reason
       time := now}
    (m.record tr,some tr)

def Machine.move (m : Machine) (target reason : Bytes) (now : ℤ) :
    Machine × Except ErrTransition (Option Transition) :=
  if m.canLocked target then
    let r := m.applyLocked target reason false now
    (r.1,.ok r.2)
  else (m,.error ⟨m.state,target⟩)

def Machine.force (m : Machine) (target reason : Bytes) (now : ℤ) : Machine × Option Transition :=
  m.applyLocked target reason true now

/-- A call and the time that `applyLocked` reads. -/
inductive Call where
  | move (target reason : Bytes) (now : ℤ)
  | force (target reason : Bytes) (now : ℤ)
deriving DecidableEq, Repr

def Call.target : Call → Bytes
  | .move target _ _ => target
  | .force target _ _ => target

def Call.isForce : Call → Bool
  | .move _ _ _ => false
  | .force _ _ _ => true

/-- The entry that the call writes when it leaves the state. -/
def Call.entry (source : Bytes) : Call → Transition
  | .move target reason now => ⟨source,target,reason,now⟩
  | .force target reason now => ⟨source,target,text "!"++reason,now⟩

@[simp] theorem Call.entry_fromState (source : Bytes) (call : Call) :
    (call.entry source).fromState = source := by cases call <;> rfl

@[simp] theorem Call.entry_toState (source : Bytes) (call : Call) :
    (call.entry source).toState = call.target := by cases call <;> rfl

def perform (m : Machine) : Call → Machine × Option Transition
  | .move target reason now =>
      let r := m.move target reason now
      (r.1,r.2.toOption.join)
  | .force target reason now => m.force target reason now

def step (m : Machine) (call : Call) : Machine := (perform m call).1

/-- The call is to the current state, or it is a `Move` that the table does not have. -/
def Idle (m : Machine) (call : Call) : Prop :=
  call.target = m.state ∨ call.isForce = false ∧ call.target ∉ table m.state

/-- Everything that a call can do. -/
inductive Outcome (m : Machine) (call : Call) : Machine × Option Transition → Prop
  | idle : Idle m call → Outcome m call (m,none)
  | changed : m.state ≠ call.target →
      (call.isForce = false → call.target ∈ table m.state) →
      Outcome m call (m.record (call.entry m.state),some (call.entry m.state))

theorem canLocked_iff {m : Machine} {target : Bytes} :
    m.canLocked target = true ↔ target = m.state ∨ target ∈ table m.state := by
  rw [Machine.canLocked,Bool.or_eq_true,beq_iff_eq,List.contains_iff_mem]

theorem move_rejected_iff {m : Machine} {target reason : Bytes} {now : ℤ} :
    (∃ e, (m.move target reason now).2 = .error e) ↔
      target ≠ m.state ∧ target ∉ table m.state := by
  rw [← not_or,← canLocked_iff]
  unfold Machine.move
  split_ifs with h
  · exact ⟨fun ⟨_,he⟩ => he.elim,fun hn => absurd h hn⟩
  · exact ⟨fun _ => h,fun _ => ⟨_,rfl⟩⟩

theorem perform_outcome (m : Machine) (call : Call) : Outcome m call (perform m call) := by
  cases call with
  | move target reason now =>
      by_cases hcan : m.canLocked target = true
      · by_cases hsame : m.state = target
        · simp only [perform,Machine.move,Machine.applyLocked,if_pos hcan,if_pos hsame]
          exact .idle (.inl hsame.symm)
        · simp only [perform,Machine.move,Machine.applyLocked,if_pos hcan,if_neg hsame]
          refine .changed hsame fun _ => ?_
          exact (canLocked_iff.mp hcan).resolve_left fun h => hsame h.symm
      · simp only [perform,Machine.move,if_neg hcan]
        exact .idle (.inr ⟨rfl,fun hmem => hcan (canLocked_iff.mpr (.inr hmem))⟩)
  | force target reason now =>
      simp only [perform,Machine.force,Machine.applyLocked]
      split_ifs with hsame
      · exact .idle (.inl hsame.symm)
      · exact .changed hsame fun h => Bool.noConfusion h

theorem step_idle {m : Machine} {call : Call} (h : Idle m call) : step m call = m := by
  rw [step]
  have hout := perform_outcome m call
  generalize perform m call = out at hout ⊢
  cases hout with
  | idle _ => rfl
  | changed hne hlegal =>
      rcases h with h | ⟨hmove,hout⟩
      · exact absurd h.symm hne
      · exact absurd (hlegal hmove) hout

theorem perform_active {m : Machine} {call : Call} (h : ¬Idle m call) :
    perform m call = (m.record (call.entry m.state),some (call.entry m.state)) := by
  have hout := perform_outcome m call
  generalize perform m call = out at hout ⊢
  cases hout with
  | idle hidle => exact absurd hidle h
  | changed _ _ => rfl

theorem step_active {m : Machine} {call : Call} (h : ¬Idle m call) :
    step m call = m.record (call.entry m.state) := by rw [step,perform_active h]

theorem active_iff {m : Machine} {call : Call} : ¬Idle m call ↔
    m.state ≠ call.target ∧ (call.isForce = false → call.target ∈ table m.state) := by
  rw [Idle,not_or,ne_comm]
  tauto

/-! ### The changes of a run -/

/-- A call with the states before and after it. -/
structure Change where
  call : Call
  before : Bytes
  after : Bytes
deriving DecidableEq, Repr

/-- The calls after which the machine is in another state. -/
def changes : List Call → Machine → List Change
  | [],_ => []
  | call::calls,m =>
      let m' := step m call
      if m'.state = m.state then changes calls m'
      else ⟨call,m.state,m'.state⟩::changes calls m'

def Change.entry (c : Change) : Transition := c.call.entry c.before

/-- The call leads out of the state: a `Force` does so always, a `Move` by the table. -/
def effective (state : Bytes) (call : Call) : Bool :=
  call.target ≠ state && (call.isForce || (table state).contains call.target)

/-- The changes that the calls have to make. -/
def due : List Call → Bytes → List Change
  | [],_ => []
  | call::calls,state =>
      if effective state call then ⟨call,state,call.target⟩::due calls call.target
      else due calls state

/-- The log of a machine that has made the changes. -/
structure Logged (cs : List Change) (m : Machine) : Prop where
  bound : m.maxHist = 64
  recent : m.history = (cs.map Change.entry).drop (cs.length-64)
  last : m.state = ((cs.map Change.after).getLast?).getD (name .stopped)
  chained : cs.IsChain fun c c' => c.after = c'.before
  reached : ∀ c ∈ cs, c.after = c.call.target
  allowed : ∀ c ∈ cs, c.call.isForce = false → c.after ∈ table c.before

theorem logged_new : Logged [] {} where
  bound := rfl
  recent := rfl
  last := rfl
  chained := .nil
  reached := by simp
  allowed := by simp

/-- The last entries of a log that was cut before and has got one entry more. -/
theorem cut_append {α : Type*} (l : List α) (a : α) (k : ℕ) :
    (let history := l.drop (l.length-k)++[a]
     if k < history.length then history.drop (history.length-k) else history) =
      (l++[a]).drop (l.length+1-k) := by
  have hlen : (l.drop (l.length-k)).length = min k l.length := by
    rw [List.length_drop]
    omega
  simp only [List.length_append,hlen,List.length_singleton]
  split_ifs with h
  · have hfull : min k l.length = k := by omega
    rw [hfull,Nat.add_sub_cancel_left,← List.drop_append_of_le_length (by omega : l.length-k ≤ _),
      List.drop_drop]
    congr 1
    omega
  · have hall : l.length-k = 0 ∧ l.length+1-k = 0 := by omega
    rw [hall.1,hall.2,List.drop_zero,List.drop_zero]

theorem Logged.record {cs : List Change} {m : Machine} (h : Logged cs m) {call : Call}
    (hlegal : call.isForce = false → call.target ∈ table m.state) :
    Logged (cs++[⟨call,m.state,call.target⟩]) (m.record (call.entry m.state)) where
  bound := h.bound
  recent := by
    have hcut := cut_append (cs.map Change.entry) (call.entry m.state) 64
    simp only [List.length_map,List.length_append,List.length_singleton] at hcut
    simp only [Machine.record,h.bound,h.recent,List.map_append,List.map_singleton,
      List.length_append,List.length_singleton]
    exact hcut
  last := by
    rw [List.map_append,List.map_singleton,List.getLast?_concat]
    exact Call.entry_toState _ _
  chained := by
    refine h.chained.append (List.isChain_singleton _) ?_
    intro c hc c' hc'
    cases hc'
    have hlast := h.last
    rw [List.getLast?_map,hc] at hlast
    exact hlast.symm
  reached := by
    simp only [List.mem_append,List.mem_singleton]
    rintro c (hc | rfl)
    · exact h.reached c hc
    · rfl
  allowed := by
    simp only [List.mem_append,List.mem_singleton]
    rintro c (hc | rfl)
    · exact h.allowed c hc
    · exact hlegal

theorem changes_idle {m : Machine} {call : Call} (h : Idle m call) : changes [call] m = [] := by
  simp only [changes,step_idle h,if_true]

theorem changes_active {m : Machine} {call : Call} (h : ¬Idle m call) :
    changes [call] m = [⟨call,m.state,call.target⟩] := by
  have hstate : (step m call).state = call.target := by
    rw [step_active h]
    exact Call.entry_toState _ _
  simp only [changes,hstate,if_neg (active_iff.mp h).1.symm]

theorem effective_iff {m : Machine} {call : Call} :
    effective m.state call = true ↔ ¬Idle m call := by
  rw [active_iff,effective,Bool.and_eq_true,decide_eq_true_eq,Bool.or_eq_true,List.contains_iff_mem,
    ne_comm]
  cases call.isForce <;> simp

theorem Logged.step {cs : List Change} {m : Machine} (h : Logged cs m) (call : Call) :
    Logged (cs++changes [call] m) (step m call) := by
  by_cases hidle : Idle m call
  · rw [changes_idle hidle,step_idle hidle,List.append_nil]
    exact h
  · rw [changes_active hidle,step_active hidle]
    exact h.record (active_iff.mp hidle).2

theorem changes_cons (call : Call) (calls : List Call) (m : Machine) :
    changes (call::calls) m = changes [call] m++changes calls (step m call) := by
  simp only [changes]
  split_ifs <;> rfl

theorem changes_append (calls calls' : List Call) (m : Machine) :
    changes (calls++calls') m = changes calls m++changes calls' (run step calls m) := by
  induction calls generalizing m with
  | nil => rfl
  | cons call calls ih =>
      rw [List.cons_append,changes_cons,ih,changes_cons call calls,List.append_assoc]
      rfl

/-- The machine makes the changes that are due, and no others. -/
theorem changes_eq_due (calls : List Call) (m : Machine) : changes calls m = due calls m.state := by
  induction calls generalizing m with
  | nil => rfl
  | cons call calls ih =>
      rw [changes_cons,ih,due]
      by_cases hidle : Idle m call
      · rw [changes_idle hidle,step_idle hidle,if_neg (fun h => effective_iff.mp h hidle)]
        rfl
      · have hstate : (step m call).state = call.target := by
          rw [step_active hidle]
          exact Call.entry_toState _ _
        rw [changes_active hidle,hstate,if_pos (effective_iff.mpr hidle)]
        rfl

theorem Logged.run {cs : List Change} {m : Machine} (h : Logged cs m) (calls : List Call) :
    Logged (cs++changes calls m) (run TransitionHistory.step calls m) := by
  induction calls generalizing cs m with
  | nil =>
      rw [changes,List.append_nil]
      exact h
  | cons call calls ih =>
      rw [changes_cons,← List.append_assoc]
      exact ih (h.step call)

theorem Logged.history_length {cs : List Change} {m : Machine} (h : Logged cs m) :
    m.history.length = min cs.length 64 := by
  rw [h.recent,List.length_drop,List.length_map]
  omega

theorem Logged.history_chained {cs : List Change} {m : Machine} (h : Logged cs m) :
    m.history.IsChain fun tr tr' => tr.toState = tr'.fromState := by
  rw [h.recent]
  refine List.IsChain.drop ?_ _
  rw [List.isChain_map]
  refine (List.isChain_iff_getElem.mpr fun i hi => ?_)
  have hc := List.isChain_iff_getElem.mp h.chained i hi
  rw [Change.entry,Change.entry,Call.entry_toState,Call.entry_fromState,← hc,
    h.reached _ (List.getElem_mem _)]

theorem Logged.history_last {cs : List Change} {m : Machine} (h : Logged cs m) :
    m.state = (m.history.getLast?.map Transition.toState).getD (name .stopped) := by
  rw [h.recent,h.last]
  rcases List.eq_nil_or_concat cs with rfl | ⟨cs',c,rfl⟩
  · rfl
  · have hdrop : cs'.length+1-64 ≤ (cs'.map Change.entry).length := by
      rw [List.length_map]
      omega
    simp only [List.concat_eq_append,List.map_append,List.map_singleton,List.length_append,
      List.length_singleton]
    rw [List.drop_append_of_le_length hdrop,List.getLast?_concat,
      List.getLast?_concat]
    simp only [Option.map_some,Option.getD_some,Change.entry,Call.entry_toState]
    exact h.reached c (by simp)

/-- The machine makes the changes that are due, and the log holds the last 64 of them. -/
theorem history_faithful (calls : List Call) :
    let m := run step calls {}
    let cs := changes calls {}
    cs = due calls (name .stopped) ∧
    m.history = (cs.map Change.entry).drop (cs.length-64) ∧
    m.history.length = min cs.length 64 ∧
    (m.history.IsChain fun tr tr' => tr.toState = tr'.fromState) ∧
    m.state = (m.history.getLast?.map Transition.toState).getD (name .stopped) ∧
    (∀ call, call.target = m.state → step m call = m) ∧
    (∀ target reason now, (∃ e, (m.move target reason now).2 = .error e) →
      (m.move target reason now).1 = m) ∧
    (∀ c ∈ cs, c.call.isForce = false → c.entry.toState ∈ table c.entry.fromState) ∧
    ∀ c ∈ cs, c.call.isForce = true → ∃ reason, c.entry.reason = text "!"++reason := by
  have h : Logged (changes calls {}) (run step calls {}) := logged_new.run calls
  refine ⟨changes_eq_due calls {},h.recent,h.history_length,h.history_chained,h.history_last,
    ?_,?_,?_,?_⟩
  · exact fun call hself => step_idle (.inl hself)
  · intro target reason now hrejected
    have hidle : Idle _ (.move target reason now) := .inr ⟨rfl,(move_rejected_iff.mp hrejected).2⟩
    exact step_idle hidle
  · intro c hc hmove
    rw [Change.entry,Call.entry_toState,Call.entry_fromState,← h.reached c hc]
    exact h.allowed c hc hmove
  · intro c _ hforce
    obtain ⟨call,before,after⟩ := c
    cases call with
    | move _ _ _ => cases hforce
    | force target reason now => exact ⟨reason,rfl⟩

/-! ### The machine of the sessions -/

theorem name_injective : Function.Injective name := by
  intro st st' h
  cases st <;> cases st' <;> first | rfl | exact absurd h (by decide)

@[simp] theorem constant?_name (st : State) : constant? (name st) = some st := by
  cases st <;> rfl

theorem table_name (st : State) : table (name st) = (StateMachine.table st).map name := by
  rw [table,constant?_name,Option.elim_some]

theorem canLocked_name {m : Machine} {a : StateMachine.Machine} (h : m.state = name a.state)
    (target : State) : m.canLocked (name target) = a.can target := by
  rw [Bool.eq_iff_iff,canLocked_iff,h,table_name,List.mem_map_of_injective name_injective,
    name_injective.eq_iff,StateMachine.Machine.can,Bool.or_eq_true,beq_iff_eq,
    List.contains_iff_mem]

/-- A call with a constant, as the sessions make it. -/
structure Request where
  forced : Bool
  target : State
  reason : Bytes
  now : ℤ

def Request.call (r : Request) : Call :=
  if r.forced then .force (name r.target) r.reason r.now else .move (name r.target) r.reason r.now

def Request.apply (a : StateMachine.Machine) (r : Request) : StateMachine.Machine :=
  if r.forced then a.force r.target else a.tryMove r.target

/-- The sessions' machine has the state, and has entered the states of all changes. -/
structure Shows (cs : List Change) (m : Machine) (a : StateMachine.Machine) : Prop where
  state : m.state = name a.state
  entered : cs.map Change.after = a.entered.map name

theorem Request.call_target (r : Request) : r.call.target = name r.target := by
  unfold Request.call
  split <;> rfl

theorem Request.call_isForce (r : Request) : r.call.isForce = r.forced := by
  unfold Request.call
  cases r.forced <;> rfl

theorem Request.apply_cases (a : StateMachine.Machine) (r : Request) :
    (r.target = a.state ∨ r.forced = false ∧ a.can r.target = false) ∧ Request.apply a r = a ∨
    (a.state ≠ r.target ∧ (r.forced = false → a.can r.target = true)) ∧
      Request.apply a r = {state := r.target,entered := a.entered++[r.target]} := by
  unfold Request.apply
  cases hforced : r.forced with
  | true =>
      by_cases hsame : a.state = r.target
      · exact .inl ⟨.inl hsame.symm,if_pos hsame⟩
      · exact .inr ⟨⟨hsame,fun h => Bool.noConfusion h⟩,if_neg hsame⟩
  | false =>
      simp only [Bool.false_eq_true,if_false]
      cases hcan : a.can r.target with
      | true =>
          rw [StateMachine.tryMove_of_can hcan]
          by_cases hsame : a.state = r.target
          · exact .inl ⟨.inl hsame.symm,if_pos hsame⟩
          · exact .inr ⟨⟨hsame,fun _ => rfl⟩,if_neg hsame⟩
      | false => exact .inl ⟨.inr ⟨trivial,rfl⟩,StateMachine.tryMove_of_not_can hcan⟩

theorem Shows.idle_iff {cs : List Change} {m : Machine} {a : StateMachine.Machine}
    (h : Shows cs m a) (r : Request) :
    Idle m r.call ↔ r.target = a.state ∨ r.forced = false ∧ a.can r.target = false := by
  have hcan : a.can r.target = false ↔ ¬(r.target = a.state ∨ name r.target ∈ table m.state) := by
    rw [← canLocked_name h.state,← Bool.not_eq_true,canLocked_iff,h.state,name_injective.eq_iff]
  rw [Idle,r.call_target,r.call_isForce,h.state,name_injective.eq_iff,hcan,h.state]
  tauto

/-- Both machines refuse the same moves, and both stay when they are in the state already. -/
theorem Shows.step {cs : List Change} {m : Machine} {a : StateMachine.Machine} (h : Shows cs m a)
    (r : Request) :
    Shows (cs++changes [r.call] m) (step m r.call) (Request.apply a r) := by
  rcases r.apply_cases a with ⟨hidle,hsame⟩ | ⟨⟨hne,hlegal⟩,hnew⟩
  · rw [hsame,changes_idle ((h.idle_iff r).mpr hidle),step_idle ((h.idle_iff r).mpr hidle),
      List.append_nil]
    exact h
  · have hactive : ¬Idle m r.call := by
      rw [h.idle_iff]
      rintro (hself | ⟨hmove,hcan⟩)
      · exact hne hself.symm
      · rw [hlegal hmove] at hcan
        cases hcan
    have hstate : (TransitionHistory.step m r.call).state = name r.target := by
      rw [step_active hactive,← r.call_target]
      exact Call.entry_toState _ _
    rw [changes_active hactive,hnew]
    refine ⟨hstate,?_⟩
    rw [List.map_append,List.map_append,h.entered,List.map_singleton,List.map_singleton,
      r.call_target]

theorem Shows.run {cs : List Change} {m : Machine} {a : StateMachine.Machine} (h : Shows cs m a)
    (rs : List Request) :
    Shows (cs++changes (rs.map Request.call) m) (run TransitionHistory.step (rs.map Request.call) m)
      (run Request.apply rs a) := by
  induction rs generalizing cs m a with
  | nil =>
      rw [List.map_nil,changes,List.append_nil]
      exact h
  | cons r rs ih =>
      rw [List.map_cons,changes_cons,← List.append_assoc]
      exact ih (h.step r)

end BaturWhatsApi.TransitionHistory
