import BaturWhatsApi.ListCells
import BaturWhatsApi.TransitionHistory

/-!
# The watchers of the connection states

`Move` and `Force` change the state and copy the list of watchers under the lock, and
`notifyWatchers` sends to the watchers of the copy after the lock is released, one after
the other and only where the channel has room. Two calls can therefore come to a channel
in the other order than they changed the state.

Every critical section, every single send and every receive is one event. The calls that
have changed the state are numbered in the order of their changes.
-/
namespace BaturWhatsApi.TransitionWatchers
open ByteStrings ListCells Runs TransitionHistory

/-- A channel of `Watch` with what its owner has received. `since` is the number of changes before
it was registered, and `sent` has the numbers of the changes that were put into it. -/
structure Channel where
  capacity : ℕ
  queue : List Transition := []
  received : List Transition := []
  since : ℕ
  sent : List ℕ := []
deriving DecidableEq, Repr

/-- A call that has changed the state, with the watchers that it has still to come to. -/
structure Notifier where
  tr : Transition
  pending : List ℕ
deriving DecidableEq, Repr

structure World where
  machine : Machine := {}
  watchers : List ℕ := []
  channels : List Channel := []
  notifiers : List Notifier := []
deriving DecidableEq, Repr

/-- The changes in the order in which they were made. -/
def World.changes (s : World) : List Transition := s.notifiers.map Notifier.tr

def Channel.hasRoom (ch : Channel) : Bool := ch.queue.length < ch.capacity

/-- A send that does not wait. -/
def Channel.offer (c : ℕ) (tr : Transition) (ch : Channel) : Channel :=
  if ch.hasRoom then {ch with queue := ch.queue++[tr],sent := ch.sent++[c]} else ch

def Channel.receive (ch : Channel) : Channel :=
  {ch with queue := ch.queue.tail,received := ch.received++ch.queue.take 1}

inductive Event where
  | call (made : Call)
  | notify (c : ℕ)
  | watch (buffer : ℤ)
  | stop (w : ℕ)
  | receive (w : ℕ)
deriving DecidableEq, Repr

/-- The part of `Move` and `Force` that holds the lock. -/
def World.call (s : World) (call : Call) : World :=
  match perform s.machine call with
  | (m,none) => {s with machine := m}
  | (m,some tr) => {s with machine := m,notifiers := s.notifiers++[⟨tr,s.watchers⟩]}

/-- The next send of `notifyWatchers`. -/
def World.notify (s : World) (c : ℕ) : World :=
  match s.notifiers[c]? with
  | some ⟨tr,w::rest⟩ =>
      {s with
        channels := s.channels.modify w (Channel.offer c tr)
        notifiers := s.notifiers.set c ⟨tr,rest⟩}
  | _ => s

def World.watch (s : World) (buffer : ℤ) : World :=
  let ch : Channel :=
    {capacity := if buffer < 1 then 1 else buffer.toNat
     since := s.notifiers.length}
  {s with channels := s.channels++[ch],watchers := s.watchers++[s.channels.length]}

def step (s : World) : Event → World
  | .call made => s.call made
  | .notify c => s.notify c
  | .watch buffer => s.watch buffer
  | .stop w => {s with watchers := s.watchers.erase w}
  | .receive w => {s with channels := s.channels.modify w Channel.receive}

def Event.call? : Event → Option Call
  | .call made => some made
  | _ => none

def Event.notifier? : Event → Option ℕ
  | .notify c => some c
  | _ => none

/-! ### The calls of a run -/

theorem call_idle {s : World} {call : Call} (h : Idle s.machine call) : s.call call = s := by
  have hout := perform_outcome s.machine call
  rw [World.call]
  generalize hp : perform s.machine call = out at hout
  cases hout with
  | idle _ => rfl
  | changed hne hlegal => exact absurd h (active_iff.mpr ⟨hne,hlegal⟩)

theorem call_active {s : World} {call : Call} (h : ¬Idle s.machine call) :
    s.call call =
      {s with
        machine := s.machine.record (call.entry s.machine.state)
        notifiers := s.notifiers++[⟨call.entry s.machine.state,s.watchers⟩]} := by
  rw [World.call,perform_active h]

/-- The next send of a call, or nothing. -/
theorem notify_cases (s : World) (c : ℕ) :
    s.notify c = s ∨ ∃ tr w rest, s.notifiers[c]? = some ⟨tr,w::rest⟩ ∧
      s.notify c = {s with
        channels := s.channels.modify w (Channel.offer c tr)
        notifiers := s.notifiers.set c ⟨tr,rest⟩} := by
  unfold World.notify
  rcases hn : s.notifiers[c]? with _ | ⟨tr,_ | ⟨w,rest⟩⟩
  · exact .inl rfl
  · exact .inl rfl
  · exact .inr ⟨tr,w,rest,rfl,rfl⟩

theorem changes_set {s : World} {c : ℕ} {tr : Transition} {pending : List ℕ} (rest : List ℕ)
    (h : s.notifiers[c]? = some ⟨tr,pending⟩) :
    (s.notifiers.set c ⟨tr,rest⟩).map Notifier.tr = s.changes := by
  obtain ⟨hc,hget⟩ := List.getElem?_eq_some_iff.mp h
  rw [List.map_set,World.changes]
  refine List.ext_getElem (by simp) fun i hi hi' => ?_
  rw [List.getElem_set]
  split_ifs with hic
  · subst hic
    rw [List.getElem_map,hget]
  · rfl

/-- The calls among the events. -/
def calls : List Event → List Call
  | [] => []
  | ev::evs => ev.call?.toList++calls evs

/-- What the calls among the events change. -/
def performed (evs : List Event) (m : Machine) : List Transition :=
  (TransitionHistory.changes (calls evs) m).map Change.entry

theorem step_machine (s : World) (ev : Event) :
    (step s ev).machine = run TransitionHistory.step ev.call?.toList s.machine := by
  cases ev with
  | call made =>
      change (s.call made).machine = TransitionHistory.step s.machine made
      by_cases h : Idle s.machine made
      · rw [call_idle h,step_idle h]
      · rw [call_active h,step_active h]
  | notify c =>
      change (s.notify c).machine = s.machine
      rcases notify_cases s c with h | ⟨tr,w,rest,-,h⟩ <;> rw [h]
  | watch _ | stop _ | receive _ => rfl

theorem step_changes (s : World) (ev : Event) :
    (step s ev).changes =
      s.changes++(TransitionHistory.changes ev.call?.toList s.machine).map Change.entry := by
  cases ev with
  | call made =>
      change (s.call made).changes =
        s.changes++(TransitionHistory.changes [made] s.machine).map Change.entry
      by_cases h : Idle s.machine made
      · rw [call_idle h,changes_idle h,List.map_nil,List.append_nil]
      · rw [call_active h,changes_active h]
        exact List.map_append
  | notify c =>
      change (s.notify c).changes = s.changes++[]
      rw [List.append_nil]
      rcases notify_cases s c with h | ⟨tr,w,rest,hn,h⟩
      · rw [h]
      · rw [h,World.changes,changes_set rest hn]
  | watch _ | stop _ | receive _ => exact (List.append_nil _).symm

/-- The machine is the one that makes the calls of the run one after the other. -/
theorem machine_run (evs : List Event) (s : World) :
    (run step evs s).machine = run TransitionHistory.step (calls evs) s.machine := by
  induction evs generalizing s with
  | nil => rfl
  | cons ev evs ih =>
      rw [calls,run_append,← step_machine]
      exact ih (step s ev)

theorem changes_run (evs : List Event) (s : World) :
    (run step evs s).changes = s.changes++performed evs s.machine := by
  induction evs generalizing s with
  | nil => exact (List.append_nil _).symm
  | cons ev evs ih =>
      rw [performed,calls,changes_append,List.map_append,← List.append_assoc,← step_changes,
        ← step_machine]
      exact ih (step s ev)

/-! ### The order -/

/-- No call with an earlier change has still to come to the channel with room that the call is about
to send to. -/
def IsNext (s : World) (c : ℕ) (n : Notifier) : Prop :=
  ∀ w ∈ n.pending.head?, ∀ ch ∈ s.channels[w]?, ch.hasRoom = true →
    ∀ d < c, ∀ n' ∈ s.notifiers[d]?, w ∉ n'.pending

instance (s : World) (c : ℕ) (n : Notifier) : Decidable (IsNext s c n) :=
  inferInstanceAs (Decidable (∀ w ∈ n.pending.head?, ∀ ch ∈ s.channels[w]?, _ → ∀ d < c, _))

def InTurn (s : World) (ev : Event) : Prop :=
  ∀ c ∈ ev.notifier?, ∀ n ∈ s.notifiers[c]?, IsNext s c n

instance (s : World) (ev : Event) : Decidable (InTurn s ev) :=
  inferInstanceAs (Decidable (∀ c ∈ ev.notifier?, ∀ n ∈ s.notifiers[c]?, _))

/-- The channel has held the numbered changes in their order. -/
structure Channel.Ordered (cs : List Transition) (ch : Channel) : Prop where
  numbered : (ch.received++ch.queue).map some = ch.sent.map (cs[·]?)
  increasing : ch.sent.Pairwise (· < ·)
  later : ∀ i ∈ ch.sent, ch.since ≤ i
  made : ∀ i ∈ ch.sent, i < cs.length
  registered : ch.since ≤ cs.length

theorem Channel.Ordered.append {cs : List Transition} {ch : Channel} (h : ch.Ordered cs)
    (tr : Transition) : ch.Ordered (cs++[tr]) where
  numbered := by
    rw [h.numbered]
    refine List.map_congr_left fun i hi => ?_
    rw [List.getElem?_append_left (h.made i hi)]
  increasing := h.increasing
  later := h.later
  made i hi := by
    rw [List.length_append]
    exact Nat.lt_add_right _ (h.made i hi)
  registered := by
    rw [List.length_append]
    exact Nat.le_add_right_of_le h.registered

theorem Channel.Ordered.receive {cs : List Transition} {ch : Channel} (h : ch.Ordered cs) :
    ch.receive.Ordered cs where
  numbered := by
    have htrail : (ch.received++ch.queue.take 1)++ch.queue.tail = ch.received++ch.queue := by
      rw [List.append_assoc,← List.drop_one,List.take_append_drop]
    have hnumbered := h.numbered
    rw [← htrail] at hnumbered
    exact hnumbered
  increasing := h.increasing
  later := h.later
  made := h.made
  registered := h.registered

theorem Channel.Ordered.offer {cs : List Transition} {ch : Channel} (h : ch.Ordered cs) {c : ℕ}
    {tr : Transition} (hc : cs[c]? = some tr) (hsince : ch.since ≤ c)
    (hsent : ∀ i ∈ ch.sent, i < c) : (ch.offer c tr).Ordered cs := by
  unfold Channel.offer
  split_ifs
  · constructor
    · rw [← List.append_assoc,List.map_append,h.numbered,List.map_append,List.map_singleton,
        List.map_singleton,hc]
    · exact List.pairwise_append.mpr ⟨h.increasing,List.pairwise_singleton _ _,
        fun i hi j hj => by rw [List.mem_singleton.mp hj]; exact hsent i hi⟩
    · intro i hi
      rcases List.mem_append.mp hi with hi | hi
      · exact h.later i hi
      · rw [List.mem_singleton.mp hi]
        exact hsince
    · intro i hi
      rcases List.mem_append.mp hi with hi | hi
      · exact h.made i hi
      · rw [List.mem_singleton.mp hi]
        exact (List.getElem?_eq_some_iff.mp hc).1
    · exact h.registered
  · exact h

theorem offer_ahead {ch : Channel} {c d : ℕ} {tr : Transition}
    (h : ch.since ≤ d ∧ ∀ i ∈ ch.sent, i < d) (hc : ch.hasRoom = true → c < d) :
    (ch.offer c tr).since ≤ d ∧ ∀ i ∈ (ch.offer c tr).sent, i < d := by
  unfold Channel.offer
  split_ifs with hroom
  · refine ⟨h.1,fun i hi => ?_⟩
    rcases List.mem_append.mp hi with hi | hi
    · exact h.2 i hi
    · rw [List.mem_singleton.mp hi]
      exact hc hroom
  · exact h

/-- Increasing numbers select a sublist. -/
theorem sublist_drop_of_numbers {α : Type*} {xs l : List α} {is : List ℕ} {k : ℕ}
    (h : l.map some = is.map (xs[·]?)) (hinc : is.Pairwise (· < ·)) (hk : ∀ i ∈ is, k ≤ i) :
    l.Sublist (xs.drop k) := by
  induction is generalizing l k with
  | nil =>
      rw [List.map_nil,List.map_eq_nil_iff] at h
      rw [h]
      exact List.nil_sublist _
  | cons i is ih =>
      cases l with
      | nil => exact List.nil_sublist _
      | cons x l =>
          rw [List.map_cons,List.map_cons,List.cons.injEq] at h
          obtain ⟨hi,hget⟩ := List.getElem?_eq_some_iff.mp h.1.symm
          have hrest : l.Sublist (xs.drop (i+1)) :=
            ih h.2 hinc.of_cons fun j hj => (List.pairwise_cons.mp hinc).1 j hj
          have hfirst : (x::l).Sublist (xs.drop i) := by
            rw [List.drop_eq_getElem_cons hi,hget]
            exact hrest.cons_cons x
          exact hfirst.trans (List.drop_sublist_drop_left xs (hk i List.mem_cons_self))

theorem Channel.Ordered.received {cs : List Transition} {ch : Channel} (h : ch.Ordered cs) :
    ch.received.Sublist (cs.drop ch.since) :=
  (List.sublist_append_left _ _).trans
    (sublist_drop_of_numbers h.numbered h.increasing h.later)

/-- What a call has still to send is later than all that was sent to the same channel. -/
structure Ordered (s : World) : Prop where
  channels : Cells (fun _ ch => ch.Ordered s.changes) s.channels
  ahead : Cells (fun c n => ∀ w ∈ n.pending, ∀ ch, s.channels[w]? = some ch →
    ch.since ≤ c ∧ ∀ i ∈ ch.sent, i < c) s.notifiers
  pending : Cells (fun _ n => n.pending.Nodup ∧ ∀ w ∈ n.pending, w < s.channels.length) s.notifiers
  watchers : s.watchers.Nodup ∧ ∀ w ∈ s.watchers, w < s.channels.length

theorem ordered_new : Ordered {} := ⟨.nil,.nil,.nil,List.nodup_nil,by simp⟩

theorem Ordered.call {s : World} (h : Ordered s) (made : Call) : Ordered (s.call made) := by
  by_cases hidle : Idle s.machine made
  · rw [call_idle hidle]
    exact h
  · have hlen : s.changes.length = s.notifiers.length := List.length_map _
    rw [call_active hidle]
    constructor
    · have hchanges : World.changes {s with
          machine := s.machine.record (made.entry s.machine.state)
          notifiers := s.notifiers++[⟨made.entry s.machine.state,s.watchers⟩]} =
            s.changes++[made.entry s.machine.state] := List.map_append
      rw [hchanges]
      exact h.channels.mono fun _ ch hch => hch.append _
    · refine h.ahead.append fun w _ ch hch => ?_
      have hordered := h.channels w ch hch
      rw [← hlen]
      exact ⟨hordered.registered,hordered.made⟩
    · exact h.pending.append h.watchers
    · exact h.watchers

theorem Ordered.notify {s : World} (h : Ordered s) {c : ℕ} (hturn : InTurn s (.notify c)) :
    Ordered (s.notify c) := by
  rcases notify_cases s c with hsame | ⟨tr,w,rest,hn,hnew⟩
  · rw [hsame]
    exact h
  have hahead := h.ahead c _ hn w List.mem_cons_self
  have hnodup := List.nodup_cons.mp (h.pending c _ hn).1
  have hc : s.changes[c]? = some tr := by rw [World.changes,List.getElem?_map,hn]; rfl
  rw [hnew]
  constructor
  · rw [World.changes,changes_set rest hn]
    refine h.channels.modify fun ch hch => ?_
    exact (h.channels w ch hch).offer hc (hahead ch hch).1 (hahead ch hch).2
  · intro d n' hn' v hv ch' hch'
    obtain ⟨ch,hch,hcase⟩ := getElem?_modify_cases hch'
    rcases getElem?_set_cases hn' with ⟨rfl,rfl⟩ | ⟨hdc,hother⟩
    · -- the call itself does not come to the same channel again
      obtain ⟨rfl,-⟩ | ⟨-,rfl⟩ := hcase
      · exact absurd hv hnodup.1
      · exact h.ahead d _ hn v (List.mem_cons_of_mem _ hv) ch' hch
    · have hbefore := h.ahead d n' hother v hv ch hch
      obtain ⟨rfl,rfl⟩ | ⟨-,rfl⟩ := hcase
      · refine offer_ahead hbefore fun hroom => ?_
        have hlate : ¬d < c := fun hlt =>
          hturn c rfl _ hn v rfl ch hch hroom d hlt n' hother hv
        omega
      · exact hbefore
  · intro d n' hn'
    rw [List.length_modify]
    rcases getElem?_set_cases hn' with ⟨rfl,rfl⟩ | ⟨-,hn'⟩
    · exact ⟨hnodup.2,fun v hv => (h.pending d _ hn).2 v (List.mem_cons_of_mem _ hv)⟩
    · exact h.pending d n' hn'
  · rw [List.length_modify]
    exact h.watchers

theorem Ordered.watch {s : World} (h : Ordered s) (buffer : ℤ) : Ordered (s.watch buffer) := by
  have hlen : s.changes.length = s.notifiers.length := List.length_map _
  constructor
  · refine h.channels.append ⟨rfl,.nil,by simp,by simp,?_⟩
    exact hlen.ge
  · intro c n hn w hw ch hch
    rcases getElem?_append_cases hch with ⟨rfl,-⟩ | hch
    · exact absurd ((h.pending c n hn).2 _ hw) (lt_irrefl _)
    · exact h.ahead c n hn w hw ch hch
  · refine h.pending.mono fun c n hn => ⟨hn.1,fun w hw => ?_⟩
    rw [World.watch,List.length_append]
    exact Nat.lt_add_right _ (hn.2 w hw)
  · constructor
    · refine List.nodup_append.mpr ⟨h.watchers.1,List.nodup_singleton _,fun v hv w hw => ?_⟩
      rw [List.mem_singleton.mp hw]
      exact (h.watchers.2 v hv).ne
    · intro w hw
      rw [World.watch,List.length_append,List.length_singleton]
      rcases List.mem_append.mp hw with hw | hw
      · exact Nat.lt_succ_of_lt (h.watchers.2 w hw)
      · rw [List.mem_singleton.mp hw]
        exact Nat.lt_succ_self _

theorem Ordered.receive {s : World} (h : Ordered s) (w : ℕ) : Ordered (step s (.receive w)) := by
  constructor
  · exact h.channels.modify fun ch hch => (h.channels w ch hch).receive
  · intro c n hn v hv ch' hch'
    obtain ⟨ch,hch,hcase⟩ := getElem?_modify_cases hch'
    have hbefore := h.ahead c n hn v hv ch hch
    obtain ⟨-,rfl⟩ | ⟨-,rfl⟩ := hcase
    · exact hbefore
    · exact hbefore
  · rw [step,List.length_modify]
    exact h.pending
  · rw [step,List.length_modify]
    exact h.watchers

theorem Ordered.step {s : World} {ev : Event} (h : Ordered s) (hturn : InTurn s ev) :
    Ordered (step s ev) := by
  cases ev with
  | call made => exact h.call made
  | notify c => exact h.notify hturn
  | watch buffer => exact h.watch buffer
  | stop w =>
      exact ⟨h.channels,h.ahead,h.pending,h.watchers.1.erase w,
        fun v hv => h.watchers.2 v (List.mem_of_mem_erase hv)⟩
  | receive w => exact h.receive w

/-! ### What a watcher receives -/

/-- A channel keeps the time of its registration. -/
def Registered (w k : ℕ) (s : World) : Prop := ∃ ch, s.channels[w]? = some ch ∧ ch.since = k

theorem Registered.modify {w k : ℕ} {s : World} (h : Registered w k s) {v : ℕ}
    {f : Channel → Channel} (hf : ∀ ch, (f ch).since = ch.since) {s' : World}
    (hs' : s'.channels = s.channels.modify v f) : Registered w k s' := by
  obtain ⟨ch,hch,hsince⟩ := h
  rw [Registered,hs',List.getElem?_modify,hch]
  refine ⟨_,rfl,?_⟩
  split_ifs
  · rw [hf,hsince]
  · exact hsince

theorem offer_since (c : ℕ) (tr : Transition) (ch : Channel) :
    (ch.offer c tr).since = ch.since := by
  unfold Channel.offer
  split <;> rfl

theorem Registered.step {w k : ℕ} {s : World} (h : Registered w k s) (ev : Event) :
    Registered w k (step s ev) := by
  cases ev with
  | call made =>
      change Registered w k (s.call made)
      by_cases hidle : Idle s.machine made
      · rw [call_idle hidle]
        exact h
      · rw [call_active hidle]
        exact h
  | notify c =>
      change Registered w k (s.notify c)
      rcases notify_cases s c with hsame | ⟨tr,v,rest,-,hnew⟩
      · rw [hsame]
        exact h
      · rw [hnew]
        exact h.modify (offer_since c tr) rfl
  | watch buffer =>
      obtain ⟨ch,hch,hsince⟩ := h
      exact ⟨ch,getElem?_append_some hch,hsince⟩
  | stop v => exact h
  | receive v => exact h.modify (f := Channel.receive) (fun _ => rfl) rfl

/-- The channel that `Watch` returns has received some of the changes after it, in their order. -/
theorem transitions_in_order (before after : List Event) (buffer : ℤ)
    (h : Along step InTurn (before++.watch buffer::after) {}) :
    let w := (run step before {}).channels.length
    ∃ ch, (run step (before++.watch buffer::after) {}).channels[w]? = some ch ∧
      ch.received.Sublist (performed after (run step before {}).machine) := by
  intro w
  have hordered : Ordered (run step (before++.watch buffer::after) {}) :=
    h.invariant (fun _ _ hs hev => hs.step hev) ordered_new
  have hnew : Registered w (run step before {}).changes.length
      (step (run step before {}) (.watch buffer)) := by
    refine ⟨_,List.getElem?_concat_length,?_⟩
    exact (List.length_map _).symm
  have hkept : Registered w (run step before {}).changes.length
      (run step (before++.watch buffer::after) {}) := by
    rw [run_append]
    exact run_invariant (fun _ ev hs => hs.step ev) after hnew
  obtain ⟨ch,hch,hsince⟩ := hkept
  refine ⟨ch,hch,?_⟩
  have hsublist := (hordered.channels w ch hch).received
  rw [run_append,changes_run,hsince,List.drop_left] at hsublist
  exact hsublist

/-- Two calls, of which the second comes to the watcher first. -/
def overtaking : List Event :=
  [.call (.move (name .starting) [] 1),.call (.move (name .connecting) [] 2),.notify 1,.notify 0,
    .receive 0,.receive 0]

theorem second_change_received_first :
    ∃ ch, (run step (.watch 2::overtaking) {}).channels[0]? = some ch ∧
      ch.received = [⟨name .starting,name .connecting,[],2⟩,⟨name .stopped,name .starting,[],1⟩] ∧
      ¬ch.received.Sublist (performed overtaking {}) :=
  ⟨_,rfl,rfl,by decide +kernel⟩

/-- The same calls, of which the second comes to the watcher after the first. -/
theorem transitions_in_order_sample :
    ∃ ch, (run step (.watch 2::[.call (.move (name .starting) [] 1),
      .call (.move (name .connecting) [] 2),.notify 0,.notify 1,.receive 0,.receive 0])
        {}).channels[0]? = some ch ∧
      ch.received.Sublist (performed [.call (.move (name .starting) [] 1),
        .call (.move (name .connecting) [] 2),.notify 0,.notify 1,.receive 0,.receive 0] {}) :=
  transitions_in_order [] _ 2 (by decide +kernel)

end BaturWhatsApi.TransitionWatchers
