import BaturWhatsApi.ListCells
import BaturWhatsApi.Runs
import BaturWhatsApi.SessionSend

/-!
# The in-memory pipe

`transport/pipe.go`: two ends, a channel of 64 places towards each of them, and a state
that both share. Any number of goroutines call `SendBinary`, `ReceiveBinary` and `Close`
on both ends. A call is taken apart where another one can come between: a send looks at
the flag `closed` and then waits in its `select`, and `Close` sets the flag before it
closes the channel `done`. Whichever case of a `select` is ready may be taken.

A send that has passed the check is not held up by `Close`: its frame may still be
accepted when a receive has already reported the end.
-/
namespace BaturWhatsApi.TransportPipe
open ByteStrings ListCells Runs
open SessionSend (pipeCapacity)

inductive End where
  | client | server
deriving DecidableEq, Repr

def End.peer : End → End
  | .client => .server
  | .server => .client

inductive PipeError where
  | closed
  | context
deriving DecidableEq, Repr

/-- A call waits in its `select` or has returned. -/
inductive Call where
  | sending (e : End) (frame : Bytes)
  | sent (e : End) (frame : Bytes) (err : Option PipeError)
  | receiving (e : End)
  | received (e : End) (result : Except PipeError Bytes)
deriving DecidableEq

/-- `accepted` and `taken` record the frames that went into the channel towards an end and
out of it. -/
structure Pipe where
  recv : End → List Bytes := fun _ => []
  closed : Bool := false
  done : Bool := false
  calls : List Call := []
  accepted : End → List Bytes := fun _ => []
  taken : End → List Bytes := fun _ => []

/-- The cases of the two `select` statements. -/
inductive Case where
  | channel
  | contextDone
  | stateDone
deriving DecidableEq, Repr

/-- A call begins, takes a case of its `select`, or `Close` makes one of its two steps. -/
inductive Event where
  | send (e : End) (frame : Bytes)
  | receive (e : End)
  | select (call : ℕ) (c : Case)
  | close
  | closeDone
deriving DecidableEq, Repr

def Pipe.sendable (p : Pipe) : Bool := !p.closed

def Pipe.finish (p : Pipe) (call : ℕ) (c : Call) : Pipe := {p with calls := p.calls.set call c}

def Pipe.push (p : Pipe) (e : End) (frame : Bytes) : Pipe :=
  {p with
    recv := Function.update p.recv e (p.recv e++[frame])
    accepted := Function.update p.accepted e (p.accepted e++[frame])}

def Pipe.pop (p : Pipe) (e : End) (frame : Bytes) (rest : List Bytes) : Pipe :=
  {p with
    recv := Function.update p.recv e rest
    taken := Function.update p.taken e (p.taken e++[frame])}

/-- `SendBinary` up to its `select`. -/
def Pipe.sendBinary (p : Pipe) (e : End) (frame : Bytes) : Pipe :=
  {p with calls := p.calls++
    [if p.sendable then .sending e frame else .sent e frame (some .closed)]}

/-- The call waits as long as no case is ready. -/
def Pipe.sendSelect (p : Pipe) (call : ℕ) (e : End) (frame : Bytes) : Case → Pipe
  | .channel =>
      if (p.recv e.peer).length < pipeCapacity then
        (p.push e.peer frame).finish call (.sent e frame none)
      else p
  | .contextDone => p.finish call (.sent e frame (some .context))
  | .stateDone => if p.done then p.finish call (.sent e frame (some .closed)) else p

/-- The frame at the head of the channel, or what is done without one. -/
def Pipe.receiveOr (p : Pipe) (call : ℕ) (e : End) (empty : Pipe) : Pipe :=
  match p.recv e with
  | [] => empty
  | frame::rest => (p.pop e frame rest).finish call (.received e (.ok frame))

def Pipe.receiveSelect (p : Pipe) (call : ℕ) (e : End) : Case → Pipe
  | .channel => p.receiveOr call e p
  | .contextDone => p.finish call (.received e (.error .context))
  | .stateDone =>
      if p.done then p.receiveOr call e (p.finish call (.received e (.error .closed))) else p

def Pipe.step (p : Pipe) : Event → Pipe
  | .send e frame => p.sendBinary e frame
  | .receive e => {p with calls := p.calls++[.receiving e]}
  | .select call c =>
      match p.calls[call]? with
      | some (.sending e frame) => p.sendSelect call e frame c
      | some (.receiving e) => p.receiveSelect call e c
      | _ => p
  | .close => {p with closed := true}
  | .closeDone => if p.closed then {p with done := true} else p

/-! ### What an event does -/

/-- The frame that the call has brought to an end. -/
def Call.accepted (e : End) : Call → Option Bytes
  | .sent s frame none => if s.peer = e then some frame else none
  | _ => none

/-- The frame that the call has returned at an end. -/
def Call.delivered (e : End) : Call → Option Bytes
  | .received s (.ok frame) => if s = e then some frame else none
  | _ => none

/-- A send towards the end that has passed the check and waits. -/
def Call.underway (e : End) : Call → ℕ
  | .sending s _ => if s.peer = e then 1 else 0
  | _ => 0

def Pipe.underway (p : Pipe) (e : End) : ℕ := tally (Call.underway e) p.calls

/-- The call has brought and returned no frame. -/
def Call.Idle (c : Call) : Prop := ∀ e, c.accepted e = none ∧ c.delivered e = none

/-- A call begins or fails, or it moves one frame. -/
inductive Pipe.Moves (p : Pipe) : Pipe → Prop where
  | none : p.Moves p
  | closes : p.Moves {p with closed := true}
  | ends (hclosed : p.closed = true) : p.Moves {p with done := true}
  | begins (c : Call) (hidle : c.Idle) (hopen : p.closed = true → ∀ e, c.underway e = 0) :
      p.Moves {p with calls := p.calls++[c]}
  | fails (call : ℕ) (c c' : Call) (hcall : p.calls[call]? = some c) (hidle : c.Idle)
      (hidle' : c'.Idle) (hunder : ∀ e, c'.underway e = 0) : p.Moves (p.finish call c')
  | enqueues (call : ℕ) (e : End) (frame : Bytes)
      (hcall : p.calls[call]? = some (.sending e frame))
      (hroom : (p.recv e.peer).length < pipeCapacity) :
      p.Moves ((p.push e.peer frame).finish call (.sent e frame none))
  | dequeues (call : ℕ) (e : End) (frame : Bytes) (rest : List Bytes)
      (hcall : p.calls[call]? = some (.receiving e)) (hrecv : p.recv e = frame::rest) :
      p.Moves ((p.pop e frame rest).finish call (.received e (.ok frame)))

theorem receiveOr_moves {p empty : Pipe} {call : ℕ} {e : End}
    (hcall : p.calls[call]? = some (.receiving e)) (hempty : p.Moves empty) :
    p.Moves (p.receiveOr call e empty) := by
  unfold Pipe.receiveOr
  split
  · exact hempty
  · exact .dequeues call e _ _ hcall ‹_›

theorem step_moves (p : Pipe) (ev : Event) : p.Moves (p.step ev) := by
  cases ev with
  | send e frame =>
      apply Pipe.Moves.begins
      · split_ifs <;> exact fun _ => ⟨rfl,rfl⟩
      · intro hclosed
        rw [Pipe.sendable,hclosed]
        exact fun _ => rfl
  | receive e => exact .begins (.receiving e) (fun _ => ⟨rfl,rfl⟩) fun _ _ => rfl
  | select call c =>
      dsimp only [Pipe.step]
      split
      · rename_i e frame hcall
        have hfail := fun err => Pipe.Moves.fails call _ (.sent e frame (some err)) hcall
          (fun _ => ⟨rfl,rfl⟩) (fun _ => ⟨rfl,rfl⟩) fun _ => rfl
        cases c with
        | channel =>
            dsimp only [Pipe.sendSelect]
            split_ifs with hroom
            · exact .enqueues call e frame hcall hroom
            · exact .none
        | contextDone => exact hfail .context
        | stateDone =>
            dsimp only [Pipe.sendSelect]
            split_ifs
            · exact hfail .closed
            · exact .none
      · rename_i e hcall
        have hfail := fun err => Pipe.Moves.fails call _ (.received e (.error err)) hcall
          (fun _ => ⟨rfl,rfl⟩) (fun _ => ⟨rfl,rfl⟩) fun _ => rfl
        cases c with
        | channel => exact receiveOr_moves hcall .none
        | contextDone => exact hfail .context
        | stateDone =>
            dsimp only [Pipe.receiveSelect]
            split_ifs
            · exact receiveOr_moves hcall (hfail .closed)
            · exact .none
      · exact .none
  | close => exact .closes
  | closeDone =>
      dsimp only [Pipe.step]
      split_ifs with hclosed
      · exact .ends hclosed
      · exact .none

/-! ### Nothing is lost, repeated or reordered -/

/-- The frames that sends have brought to the end were taken out in their order, each by one
receive, or wait in the channel. -/
structure Pipe.Reliable (p : Pipe) (e : End) : Prop where
  order : p.accepted e = p.taken e++p.recv e
  room : (p.recv e).length ≤ pipeCapacity
  sent : (p.calls.filterMap (Call.accepted e)).Perm (p.accepted e)
  delivered : (p.calls.filterMap (Call.delivered e)).Perm (p.taken e)

theorem Pipe.Reliable.moves {p p' : Pipe} {e : End} (h : p.Reliable e) (hmoves : p.Moves p') :
    p'.Reliable e := by
  cases hmoves with
  | none => exact h
  | closes => exact ⟨h.order,h.room,h.sent,h.delivered⟩
  | ends _ => exact ⟨h.order,h.room,h.sent,h.delivered⟩
  | begins c hidle hopen =>
      refine ⟨h.order,h.room,?_,?_⟩
      · simpa [List.filterMap_append,(hidle e).1] using h.sent
      · simpa [List.filterMap_append,(hidle e).2] using h.delivered
  | fails call c c' hcall hidle hidle' _ =>
      refine ⟨h.order,h.room,?_,?_⟩
      · rw [Pipe.finish,filterMap_set_eq hcall ((hidle' e).1.trans (hidle e).1.symm)]
        exact h.sent
      · rw [Pipe.finish,filterMap_set_eq hcall ((hidle' e).2.trans (hidle e).2.symm)]
        exact h.delivered
  | enqueues call s frame hcall hroom =>
      have hsame : Call.delivered e (.sent s frame none) =
          Call.delivered e (.sending s frame) := rfl
      have hdelivered : ((p.calls.set call (.sent s frame none)).filterMap
          (Call.delivered e)).Perm (p.taken e) := by
        rw [filterMap_set_eq hcall hsame]
        exact h.delivered
      by_cases hs : s.peer = e
      · subst hs
        refine ⟨?_,?_,?_,hdelivered⟩
        · simp [Pipe.finish,Pipe.push,h.order]
        · simpa [Pipe.finish,Pipe.push] using hroom
        · have hnew : Call.accepted s.peer (.sent s frame none) = some frame := if_pos rfl
          have hperm := filterMap_set_perm hcall rfl hnew
          simpa [Pipe.finish,Pipe.push] using hperm.trans (h.sent.append_right _)
      · have hne : e ≠ s.peer := Ne.symm hs
        refine ⟨?_,?_,?_,hdelivered⟩
        · simpa [Pipe.finish,Pipe.push,hne] using h.order
        · simpa [Pipe.finish,Pipe.push,hne] using h.room
        · rw [Pipe.finish]
          dsimp only [Pipe.push]
          rw [filterMap_set_eq hcall (if_neg hs),Function.update_of_ne hne]
          exact h.sent
  | dequeues call s frame rest hcall hrecv =>
      have hsame : Call.accepted e (.received s (.ok frame)) =
          Call.accepted e (.receiving s) := rfl
      have hsent : ((p.calls.set call (.received s (.ok frame))).filterMap
          (Call.accepted e)).Perm (p.accepted e) := by
        rw [filterMap_set_eq hcall hsame]
        exact h.sent
      by_cases hs : s = e
      · subst hs
        have hroom := h.room
        rw [hrecv,List.length_cons] at hroom
        refine ⟨?_,?_,hsent,?_⟩
        · simp [Pipe.finish,Pipe.pop,h.order,hrecv]
        · simpa [Pipe.finish,Pipe.pop] using Nat.le_of_succ_le hroom
        · have hnew : Call.delivered s (.received s (.ok frame)) = some frame := if_pos rfl
          have hperm := filterMap_set_perm hcall rfl hnew
          simpa [Pipe.finish,Pipe.pop] using hperm.trans (h.delivered.append_right _)
      · have hne : e ≠ s := Ne.symm hs
        refine ⟨?_,?_,hsent,?_⟩
        · simpa [Pipe.finish,Pipe.pop,hne] using h.order
        · simpa [Pipe.finish,Pipe.pop,hne] using h.room
        · rw [Pipe.finish]
          dsimp only [Pipe.pop]
          rw [filterMap_set_eq hcall (if_neg hs),Function.update_of_ne hne]
          exact h.delivered

/-- Whatever the calls on both ends and their interleaving, an end receives the frames that its
peer has sent without an error, in the order in which they were accepted and each once, and at
most 64 of them are still to be received. -/
theorem pipe_reliable (evs : List Event) (e : End) : (run Pipe.step evs {}).Reliable e := by
  refine run_invariant (I := fun p : Pipe => p.Reliable e)
    (fun p ev h => h.moves (step_moves p ev)) evs ?_
  exact ⟨rfl,Nat.zero_le _,.nil,.nil⟩

/-! ### After Close -/

/-- The second state is reached from the first one, which was closed. -/
structure Pipe.Closing (e : End) (p q : Pipe) : Prop where
  closed : q.closed = true
  done : p.done = true → q.done = true
  late : ∃ frames, q.accepted e = p.accepted e++frames ∧
    frames.length+q.underway e ≤ p.underway e

theorem Pipe.Closing.moves {p q q' : Pipe} {e : End} (h : p.Closing e q) (hmoves : q.Moves q') :
    p.Closing e q' := by
  obtain ⟨frames,haccepted,hunder⟩ := h.late
  cases hmoves with
  | none => exact h
  | closes => exact ⟨rfl,h.done,frames,haccepted,hunder⟩
  | ends _ => exact ⟨h.closed,fun _ => rfl,frames,haccepted,hunder⟩
  | begins c hidle hopen =>
      refine ⟨h.closed,h.done,frames,haccepted,?_⟩
      rw [Pipe.underway,tally_append,hopen h.closed e]
      exact hunder
  | fails call c c' hcall hidle hidle' hnone =>
      refine ⟨h.closed,h.done,frames,haccepted,?_⟩
      have := tally_set (b := c') (Call.underway e) hcall
      rw [hnone e] at this
      simp only [Pipe.underway,Pipe.finish] at hunder ⊢
      omega
  | enqueues call s frame hcall hroom =>
      have htally := tally_set (b := .sent s frame none) (Call.underway e) hcall
      by_cases hs : s.peer = e
      · subst hs
        refine ⟨h.closed,h.done,frames++[frame],?_,?_⟩
        · simp [Pipe.finish,Pipe.push,haccepted]
        · simp only [Call.underway,if_pos] at htally
          simp only [Pipe.underway,Pipe.finish,Pipe.push,List.length_append,
            List.length_singleton] at hunder ⊢
          omega
      · refine ⟨h.closed,h.done,frames,?_,?_⟩
        · simpa [Pipe.finish,Pipe.push,Ne.symm hs] using haccepted
        · simp only [Call.underway,if_neg hs] at htally
          simp only [Pipe.underway,Pipe.finish,Pipe.push] at hunder ⊢
          omega
  | dequeues call s frame rest hcall hrecv =>
      refine ⟨h.closed,h.done,frames,haccepted,?_⟩
      have htally := tally_set (b := .received s (.ok frame)) (Call.underway e) hcall
      simp only [Call.underway] at htally
      simp only [Pipe.underway,Pipe.finish,Pipe.pop] at hunder ⊢
      omega

theorem Pipe.Moves.done_closed {p p' : Pipe} (hmoves : p.Moves p')
    (h : p.done = true → p.closed = true) : p'.done = true → p'.closed = true := by
  cases hmoves with
  | none => exact h
  | closes => exact fun _ => rfl
  | ends hclosed => exact fun _ => hclosed
  | begins => exact h
  | fails => exact h
  | enqueues => exact h
  | dequeues => exact h

theorem finish_cases {p : Pipe} {call i : ℕ} {c d : Call}
    (h : (p.finish call c).calls[i]? = some d) : p.calls[i]? = some d ∨ c = d := by
  rcases getElem?_set_cases h with ⟨_,hnew⟩ | ⟨_,hold⟩
  · exact .inr hnew.symm
  · exact .inl hold

/-- A receive reports the end only when nothing waits in its channel. -/
theorem reports_end {p : Pipe} {ev : Event} {i : ℕ} {e : End}
    (h : (p.step ev).calls[i]? = some (.received e (.error .closed))) :
    p.calls[i]? = some (.received e (.error .closed)) ∨ p.done = true ∧ p.recv e = [] := by
  cases ev with
  | send s frame =>
      rcases getElem?_append_cases h with ⟨_,hlast⟩ | h
      · split_ifs at hlast
      · exact .inl h
  | receive s =>
      rcases getElem?_append_cases h with ⟨_,hlast⟩ | h
      · cases hlast
      · exact .inl h
  | close => exact .inl h
  | closeDone =>
      dsimp only [Pipe.step] at h
      split_ifs at h <;> exact .inl h
  | select call c =>
      dsimp only [Pipe.step] at h
      split at h
      · rename_i s frame hcall
        cases c with
        | channel =>
            dsimp only [Pipe.sendSelect] at h
            split_ifs at h
            · exact .inl ((finish_cases h).resolve_right fun hx => by cases hx)
            · exact .inl h
        | contextDone => exact .inl ((finish_cases h).resolve_right fun hx => by cases hx)
        | stateDone =>
            dsimp only [Pipe.sendSelect] at h
            split_ifs at h
            · exact .inl ((finish_cases h).resolve_right fun hx => by cases hx)
            · exact .inl h
      · rename_i s hcall
        cases c with
        | channel =>
            dsimp only [Pipe.receiveSelect,Pipe.receiveOr] at h
            split at h
            · exact .inl h
            · exact .inl ((finish_cases h).resolve_right fun hx => by cases hx)
        | contextDone => exact .inl ((finish_cases h).resolve_right fun hx => by cases hx)
        | stateDone =>
            dsimp only [Pipe.receiveSelect,Pipe.receiveOr] at h
            split_ifs at h with hdone
            · split at h
              · rename_i hrecv
                rcases finish_cases h with hold | hnew
                · exact .inl hold
                · cases hnew
                  exact .inr ⟨hdone,hrecv⟩
              · exact .inl ((finish_cases h).resolve_right fun hx => by cases hx)
            · exact .inl h
      · exact .inl h

/-- Receives one after another, the first of them with the given number, and the cases that they
take. -/
def receives (e : End) (call : ℕ) : List Case → List Event
  | [] => []
  | c::cs => .receive e::.select call c::receives e (call+1) cs

/-- The case is ready for a receive after `Close` that finds so many frames, and whose context
goes on. -/
def Case.ready (waiting : ℕ) : Case → Bool
  | .channel => 0 < waiting
  | .contextDone => false
  | .stateDone => true

/-- The cases are ready one after another. Each receive takes a frame. -/
def allReady : ℕ → List Case → Bool
  | _,[] => true
  | waiting,c::cs => c.ready waiting && allReady (waiting-1) cs

/-- What a receive returns that finds the frame, or none, at the head of the channel. -/
def drained (frame : Option Bytes) : Except PipeError Bytes := frame.elim (.error .closed) .ok

/-- After `Close` all ready cases have the same outcome. -/
theorem receiveSelect_ready {p : Pipe} (hdone : p.done = true) (call : ℕ) {e : End} {c : Case}
    (hc : c.ready (p.recv e).length = true) : p.receiveSelect call e c =
      p.receiveOr call e (p.finish call (.received e (.error .closed))) := by
  cases c with
  | channel =>
      rw [Case.ready,decide_eq_true_eq,List.length_pos_iff] at hc
      obtain ⟨frame,rest,hrecv⟩ := List.exists_cons_of_ne_nil hc
      rw [Pipe.receiveSelect,Pipe.receiveOr,Pipe.receiveOr,hrecv]
  | contextDone => cases hc
  | stateDone => rw [Pipe.receiveSelect,if_pos hdone]

theorem run_receives {p : Pipe} (hdone : p.done = true) (e : End) {cs : List Case}
    (hcs : allReady (p.recv e).length cs = true) :
    (run Pipe.step (receives e p.calls.length cs) p).calls =
      p.calls++(List.range cs.length).map fun j => .received e (drained (p.recv e)[j]?) := by
  induction cs generalizing p with
  | nil => simp [receives,run]
  | cons c cs ih =>
      obtain ⟨hc,hcs⟩ := Bool.and_eq_true_iff.mp hcs
      have hfirst : run Pipe.step (receives e p.calls.length (c::cs)) p =
          run Pipe.step (receives e (p.calls.length+1) cs)
            (Pipe.receiveOr {p with calls := p.calls++[.receiving e]} p.calls.length e
              {p with calls := p.calls++[.received e (.error .closed)]}) := by
        have hselect := receiveSelect_ready (p := {p with calls := p.calls++[.receiving e]}) hdone
          p.calls.length hc
        simp only [Pipe.finish,List.set_append_right _ _ (Nat.le_refl _),Nat.sub_self,
          List.set_cons_zero] at hselect
        simp [receives,run,Pipe.step,hselect]
      rw [hfirst,List.length_cons,List.range_succ_eq_map,List.map_cons,List.map_map]
      unfold Pipe.receiveOr
      dsimp only
      cases hrecv : p.recv e with
      | nil =>
          have hmore := ih (p := {p with calls := p.calls++[.received e (.error .closed)]}) hdone
            (by simpa [hrecv] using hcs)
          simpa [hrecv,drained,Function.comp_def] using hmore
      | cons frame rest =>
          have hmore := ih (p := {p.pop e frame rest with
            calls := p.calls++[.received e (.ok frame)]}) hdone
            (by simpa [Pipe.pop,hrecv] using hcs)
          simpa [Pipe.pop,Pipe.finish,drained,Function.comp_def] using hmore

/-- Once `Close` is done, a channel still takes at most the frames of the sends that had passed
the check. Whatever else happens, a receive reports the end only when nothing waits. Receives
return what waits in the channel before they report the end, whichever ready case they take. -/
theorem pipe_closes (evs evs' : List Event) (e : End)
    (hdone : (run Pipe.step evs {}).done = true) :
    let p := run Pipe.step evs {}
    let q := run Pipe.step evs' p
    (∃ late, q.accepted e = p.accepted e++late ∧ late.length+q.underway e ≤ p.underway e) ∧
    (∀ (ev : Event) (i : ℕ), (q.step ev).calls[i]? = some (.received e (.error .closed)) →
      q.calls[i]? = some (.received e (.error .closed)) ∨ q.recv e = []) ∧
    ∀ cs, allReady (q.recv e).length cs = true →
      (run Pipe.step (receives e q.calls.length cs) q).calls =
        q.calls++(List.range cs.length).map fun j => .received e (drained (q.recv e)[j]?) := by
  intro p q
  have hclosed : p.closed = true :=
    run_invariant (I := fun p : Pipe => p.done = true → p.closed = true)
      (fun p ev => (step_moves p ev).done_closed) evs (fun h => by cases h) hdone
  have hq : p.Closing e q := run_invariant (I := fun q : Pipe => p.Closing e q)
    (fun q ev h => h.moves (step_moves q ev)) evs'
    ⟨hclosed,id,[],(List.append_nil _).symm,(Nat.zero_add _).le⟩
  exact ⟨hq.late,fun ev i h => (reports_end h).imp_right And.right,
    fun cs hcs => run_receives (hq.done hdone) e hcs⟩

/-- Two sends pass the check, one of them gets its frame accepted, and the pipe is closed. -/
def sampleClosing : List Event :=
  [.send .client [1],.select 0 .channel,.send .client [2],.close,.closeDone]

/-- A receive has reported the end when the other frame is accepted. -/
def sampleLate : List Event :=
  [.receive .server,.select 2 .stateDone,.receive .server,.select 3 .stateDone,.select 1 .channel]

theorem pipe_closes_sample :
    let p := run Pipe.step sampleClosing {}
    let q := run Pipe.step sampleLate p
    p.done = true ∧ p.underway .server = 1 ∧
    (∃ late, q.accepted .server = p.accepted .server++late ∧ late.length+0 ≤ 1) ∧
    (run Pipe.step (receives .server 4 [.channel,.stateDone]) q).calls =
      [.sent .client [1] none,.sent .client [2] none,.received .server (.ok [1]),
        .received .server (.error .closed),.received .server (.ok [2]),
        .received .server (.error .closed)] := by
  obtain ⟨hlate,_,hcalls⟩ := pipe_closes sampleClosing sampleLate .server (by decide)
  exact ⟨by decide,by decide,hlate,(hcalls [.channel,.stateDone] (by decide)).trans (by decide)⟩

end BaturWhatsApi.TransportPipe
