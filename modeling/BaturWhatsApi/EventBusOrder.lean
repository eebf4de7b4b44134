import BaturWhatsApi.EventBus

/-!
# The order in which a handler sees the events

A call of `Publish` takes its number first and goes to the queues later. Between the two
another call can take the next number and be the first at a queue, and the handler of that
queue then sees the numbers in the wrong order. It does not if no call ever overtakes one
with a smaller number that has still to come to the same queue.
-/
namespace BaturWhatsApi.EventBusOrder
open ByteStrings ListCells EventBus Runs

/-- Every handler has been called with increasing numbers. -/
def InOrder (b : Bus) : Prop :=
  ∀ sub ∈ b.subs, sub.handled.Pairwise fun ev ev' => ev.seq < ev'.seq

instance (b : Bus) : Decidable (InOrder b) :=
  inferInstanceAs (Decidable (∀ sub ∈ b.subs, sub.handled.Pairwise _))

/-- The call has a number and has still to come to the queue. -/
def Owes (call : Call) (i : ℕ) : Prop :=
  i ∈ call.targets ∧ call.pc ≠ .numbering ∧ call.pc.isReturned = false

instance (call : Call) (i : ℕ) : Decidable (Owes call i) := inferInstanceAs (Decidable (_ ∧ _))

/-- No call with a smaller number has still to come to the queue that the call is about to put its
event into. -/
def IsNext (b : Bus) (c : ℕ) (call : Call) : Prop :=
  ∀ i ∈ call.targets.head?, ∀ sub ∈ b.subs[i]?, sub.hasRoom = true →
    ∀ d < b.calls.length, d ≠ c → ∀ other ∈ b.calls[d]?, Owes other i → call.seq < other.seq

instance (b : Bus) (c : ℕ) (call : Call) : Decidable (IsNext b c call) :=
  inferInstanceAs (Decidable (∀ i ∈ call.targets.head?, ∀ sub ∈ b.subs[i]?, _ → ∀ d < _, _))

/-- Numbers are left, and no call is overtaken. -/
def InTurn (b : Bus) (act : Action) : Prop :=
  ∀ c ∈ act.call?, ∀ call ∈ b.calls[c]?, (call.pc = .numbering → b.seq.toNat+1 < 2^64) ∧
    (call.pc = .sending ∨ call.pc = .waiting → IsNext b c call)

instance (b : Bus) (act : Action) : Decidable (InTurn b act) :=
  inferInstanceAs (Decidable (∀ c ∈ act.call?, ∀ call ∈ b.calls[c]?, _ ∧ _))

/-! ### Queues -/

/-- The events of a queue, from the first that was handled to the last that is waiting. -/
def trail (sub : Subscription) : List Event := sub.handled++sub.queue

/-- Events have only left the queues. -/
def Shrinks (subs subs' : List Subscription) : Prop :=
  Cells (fun i sub' => trail sub' = [] ∨
    ∃ sub, subs[i]? = some sub ∧ (trail sub').Sublist (trail sub)) subs'

theorem Shrinks.refl (subs : List Subscription) : Shrinks subs subs :=
  fun _ sub hsub => .inr ⟨sub,hsub,.refl _⟩

theorem Shrinks.set {subs : List Subscription} {i : ℕ} {sub sub' : Subscription}
    (hsub : subs[i]? = some sub) (h : (trail sub').Sublist (trail sub)) :
    Shrinks subs (subs.set i sub') :=
  Cells.set (Shrinks.refl subs) (.inr ⟨sub,hsub,h⟩)

theorem shrinks_unmoved {act : Action} {b b' : Bus} (h : Unmoved act b b') :
    Shrinks b.subs b'.subs := by
  intro i sub' hsub'
  obtain ⟨sub,hsub,hsame⟩ := forall₂_getElem? h.subs hsub'
  refine .inr ⟨sub,hsub,?_⟩
  rw [trail,hsame.handled,hsame.queue]
  exact .refl _

theorem Shrinks.mem {subs subs' : List Subscription} (h : Shrinks subs subs') {i : ℕ}
    {sub' : Subscription} (hsub' : subs'[i]? = some sub') {ev : Event} (hev : ev ∈ trail sub') :
    ∃ sub, subs[i]? = some sub ∧ ev ∈ trail sub := by
  rcases h i sub' hsub' with hnil | ⟨sub,hsub,hsublist⟩
  · rw [hnil] at hev
    cases hev
  · exact ⟨sub,hsub,hsublist.subset hev⟩

theorem trail_send (sub : Subscription) (ev : Event) (enqueued : List Event) :
    trail {sub with queue := sub.queue++[ev],enqueued := enqueued} = trail sub++[ev] :=
  (List.append_assoc _ _ _).symm

/-! ### Calls -/

/-- No call has got a number or has gone back. -/
def Fewer (calls calls' : List Call) : Prop :=
  Cells (fun c call' => call'.targets.Nodup ∧ call'.seq = 0 ∧ (∀ i, ¬Owes call' i) ∨
    ∃ call, calls[c]? = some call ∧ call'.seq = call.seq ∧ call'.targets = call.targets ∧
      ∀ i, Owes call' i → Owes call i) calls'

theorem Fewer.refl (calls : List Call) : Fewer calls calls :=
  fun _ call hcall => .inr ⟨call,hcall,rfl,rfl,fun _ h => h⟩

theorem Fewer.append {calls : List Call} {call : Call} (hnodup : call.targets.Nodup)
    (hseq : call.seq = 0) (howes : ∀ i, ¬Owes call i) : Fewer calls (calls++[call]) :=
  Cells.append (Fewer.refl calls) (.inl ⟨hnodup,hseq,howes⟩)

theorem Fewer.set {calls : List Call} {c : ℕ} {call : Call} (hcall : calls[c]? = some call)
    (hpc : call.pc ≠ .numbering) (hreturned : call.pc.isReturned = false) (pc : Pc) :
    Fewer calls (calls.set c {call with pc := pc}) :=
  Cells.set (Fewer.refl calls) (.inr ⟨call,hcall,rfl,rfl,fun _ h => ⟨h.1,hpc,hreturned⟩⟩)

theorem fewer_unmoved {act : Action} {b b' : Bus} (h : Unmoved act b b') :
    Fewer b.calls b'.calls := by
  intro c call' hcall'
  obtain ⟨call,hcall,hsame⟩ := forall₂_getElem? h.calls hcall'
  refine .inr ⟨call,hcall,hsame.seq,hsame.targets,fun i => ?_⟩
  rw [Owes,hsame.targets,hsame.pc]
  exact id

/-! ### The bus -/

structure Ordered (b : Bus) : Prop where
  increasing : Cells (fun _ sub => (trail sub).Pairwise fun ev ev' => ev.seq < ev'.seq) b.subs
  numbered : Cells (fun _ sub => ∀ ev ∈ trail sub, ev.seq ≤ b.seq) b.subs
  issued : Cells (fun _ call => call.seq ≤ b.seq) b.calls
  ahead : Cells (fun _ call => ∀ i, Owes call i → ∀ sub, b.subs[i]? = some sub →
    ∀ ev ∈ trail sub, ev.seq < call.seq) b.calls
  nodup : Cells (fun _ call => call.targets.Nodup) b.calls

theorem ordered_new : Ordered {} := ⟨.nil,.nil,.nil,.nil,.nil⟩

theorem Ordered.weaken {b b' : Bus} (h : Ordered b) (hsubs : Shrinks b.subs b'.subs)
    (hcalls : Fewer b.calls b'.calls) (hseq : b'.seq = b.seq) : Ordered b' := by
  constructor
  · intro i sub' hsub'
    rcases hsubs i sub' hsub' with hnil | ⟨sub,hsub,hsublist⟩
    · rw [hnil]
      exact .nil
    · exact (h.increasing i sub hsub).sublist hsublist
  · intro i sub' hsub' ev hev
    obtain ⟨sub,hsub,hmem⟩ := hsubs.mem hsub' hev
    rw [hseq]
    exact h.numbered i sub hsub ev hmem
  · intro c call' hcall'
    rw [hseq]
    rcases hcalls c call' hcall' with ⟨-,hzero,-⟩ | ⟨call,hcall,hold,-⟩
    · rw [hzero]
      exact UInt64.zero_le
    · rw [hold]
      exact h.issued c call hcall
  · intro c call' hcall' i howes sub' hsub' ev hev
    obtain ⟨sub,hsub,hmem⟩ := hsubs.mem hsub' hev
    rcases hcalls c call' hcall' with ⟨-,-,hnone⟩ | ⟨call,hcall,hold,-,hle⟩
    · exact (hnone i howes).elim
    · rw [hold]
      exact h.ahead c call hcall i (hle i howes) sub hsub ev hmem
  · intro c call' hcall'
    rcases hcalls c call' hcall' with ⟨hnodup,-⟩ | ⟨call,hcall,-,htargets,-⟩
    · exact hnodup
    · rw [htargets]
      exact h.nodup c call hcall

theorem lt_next {n m : UInt64} (h : n ≤ m) (hm : m.toNat+1 < 2^64) : n < m+1 := by
  rw [UInt64.lt_iff_toNat_lt,UInt64.toNat_add]
  rw [UInt64.le_iff_toNat_le] at h
  have : (1 : UInt64).toNat = 1 := rfl
  omega

/-- The new number is greater than any other. -/
theorem Ordered.number {b : Bus} {c : ℕ} {call : Call} (h : Ordered b)
    (hcall : b.calls[c]? = some call) (hseq : b.seq.toNat+1 < 2^64) :
    Ordered {b with
      seq := b.seq+1
      calls := b.calls.set c {call with seq := b.seq+1,pc := .counting}} := by
  constructor
  · exact h.increasing
  · exact h.numbered.mono fun _ _ hold ev hev =>
      UInt64.le_of_lt (lt_next (hold ev hev) hseq)
  · apply Cells.set (h.issued.mono fun _ _ hold => UInt64.le_of_lt (lt_next hold hseq))
    exact UInt64.le_refl _
  · apply h.ahead.set
    intro i _ sub hsub ev hev
    exact lt_next (h.numbered i sub hsub ev hev) hseq
  · exact h.nodup.set (h.nodup c call hcall)

section
variable {b : Bus} {c i : ℕ} {call : Call} {rest : List ℕ} {sub : Subscription}

theorem owes_head (hpc : call.pc = .sending ∨ call.pc = .waiting)
    (htargets : call.targets = i::rest) : Owes call i := by
  refine ⟨by rw [htargets]; exact List.mem_cons_self,?_⟩
  rcases hpc with hpc | hpc <;> simp [hpc,Pc.isReturned]

/-- The call does not come to the same queue again. -/
theorem Ordered.send_self (h : Ordered b) (hcall : b.calls[c]? = some call)
    (howes : Owes call i) (htargets : call.targets = i::rest) {j : ℕ} (hj : j ∈ rest)
    {sub' sent : Subscription} (hsub' : (b.subs.set i sent)[j]? = some sub') {ev : Event}
    (hev : ev ∈ trail sub') : ev.seq < call.seq := by
  have hnodup : call.targets.Nodup := h.nodup c call hcall
  rw [htargets] at hnodup
  have hij : j ≠ i := fun hij => (List.nodup_cons.mp hnodup).1 (hij ▸ hj)
  have hmem : j ∈ call.targets := by
    rw [htargets]
    exact List.mem_cons_of_mem _ hj
  rw [getElem?_set_of_ne hij] at hsub'
  exact h.ahead c call hcall j ⟨hmem,howes.2⟩ sub' hsub' ev hev

/-- The other calls come after the event. -/
theorem Ordered.send_other (h : Ordered b) (htargets : call.targets = i::rest)
    (hsub : b.subs[i]? = some sub) (hroom : sub.hasRoom = true) (hnext : IsNext b c call)
    {d : ℕ} {other : Call} (hdc : d ≠ c) (hother : b.calls[d]? = some other) {j : ℕ}
    (hj : Owes other j) {sub' : Subscription}
    (hsub' : (b.send c call i rest sub).subs[j]? = some sub') {ev : Event}
    (hev : ev ∈ trail sub') : ev.seq < other.seq := by
  rcases getElem?_set_cases hsub' with ⟨rfl,rfl⟩ | ⟨_,hsub'⟩
  · rw [trail_send] at hev
    rcases List.mem_append.mp hev with hev | hev
    · exact h.ahead d other hother j hj sub hsub ev hev
    · cases List.mem_singleton.mp hev
      exact hnext j (by rw [htargets]; rfl) sub hsub hroom d
        (List.getElem?_eq_some_iff.mp hother).1 hdc other hother hj
  · exact h.ahead d other hother j hj sub' hsub' ev hev

/-- The event of the call is the last of the queue. -/
theorem Ordered.send (h : Ordered b) (hcall : b.calls[c]? = some call)
    (hpc : call.pc = .sending ∨ call.pc = .waiting) (htargets : call.targets = i::rest)
    (hsub : b.subs[i]? = some sub) (hroom : sub.hasRoom = true) (hnext : IsNext b c call) :
    Ordered (b.send c call i rest sub) := by
  have howes := owes_head hpc htargets
  constructor
  · apply h.increasing.set
    rw [trail_send,List.pairwise_append]
    refine ⟨h.increasing i sub hsub,List.pairwise_singleton _ _,?_⟩
    intro ev hev ev' hev'
    cases List.mem_singleton.mp hev'
    exact h.ahead c call hcall i howes sub hsub ev hev
  · apply h.numbered.set
    intro ev hev
    rw [trail_send] at hev
    rcases List.mem_append.mp hev with hev | hev
    · exact h.numbered i sub hsub ev hev
    · cases List.mem_singleton.mp hev
      exact h.issued c call hcall
  · exact h.issued.set (h.issued c call hcall)
  · intro d other hother j hj sub' hsub' ev hev
    rcases getElem?_set_cases hother with ⟨rfl,rfl⟩ | ⟨hdc,hother⟩
    · exact h.send_self hcall howes htargets hj.1 hsub' hev
    · exact h.send_other htargets hsub hroom hnext hdc hother hj hsub' hev
  · apply h.nodup.set
    have hnodup : call.targets.Nodup := h.nodup c call hcall
    rw [htargets] at hnodup
    exact (List.nodup_cons.mp hnodup).2

end

theorem Ordered.outcome {b b' : Bus} {act : Action} (h : Ordered b) (hturn : InTurn b act)
    (hact : Outcome b act b') : Ordered b' := by
  cases hact with
  | quiet act b' hb => exact h.weaken (shrinks_unmoved hb) (fewer_unmoved hb) hb.seq
  | subscribes pattern bufferSize policy sub _ hqueue henqueued hhandled hdiscarded hcap =>
      refine h.weaken (Cells.append (Shrinks.refl _) (.inl ?_)) (.refl _) rfl
      rw [trail,hhandled,hqueue,List.append_nil]
  | refuses evType order =>
      exact h.weaken (.refl _) (.append List.nodup_nil rfl fun i howes => nomatch howes.1) rfl
  | publishes evType order hclosed horder =>
      refine h.weaken (.refl _) (.append ?_ rfl fun i howes => howes.2.1 rfl) rfl
      exact horder.nodup_iff.mpr (matching_nodup b evType)
  | takes i sub ev queue hsub hqueue =>
      refine h.weaken (.set hsub ?_) (.refl _) rfl
      rw [trail,trail,hqueue,List.append_assoc]
      exact .refl _
  | numbers c choice call hcall hpc => exact h.number hcall ((hturn c rfl call hcall).1 hpc)
  | counts c choice call hcall hpc
  | countsDrop c choice call hcall hpc
  | countsDelivered c choice call hcall hpc =>
      exact h.weaken (.refl _) (.set hcall (hpc ▸ nofun) (hpc ▸ rfl) _) rfl
  | goes c choice call pc hcall hgoes =>
      exact h.weaken (.refl _) (.set hcall hgoes.running.1 hgoes.running.2 _) rfl
  | sends c choice call i rest sub hcall hpc htargets hsub hroom =>
      exact h.send hcall hpc htargets hsub hroom ((hturn c rfl call hcall).2 hpc)
  | discards c choice call i rest sub ev queue hcall hpc htargets hsub hqueue =>
      refine h.weaken (.set hsub ?_) (.set hcall (hpc ▸ nofun) (hpc ▸ rfl) _) rfl
      rw [trail,trail,hqueue]
      exact List.Sublist.append_left (List.sublist_cons_self ev queue) _

theorem Ordered.inOrder {b : Bus} (h : Ordered b) : InOrder b := by
  intro sub hmem
  obtain ⟨i,hsub⟩ := List.mem_iff_getElem?.mp hmem
  exact (h.increasing i sub hsub).sublist (List.sublist_append_left _ _)

theorem ordered_run {evs : List Action} (h : Along Bus.step InTurn evs {}) :
    Ordered (run Bus.step evs {}) :=
  h.invariant (fun s act hs hturn => hs.outcome hturn (step_outcome s act)) ordered_new

/-- If no call overtakes another one, all handlers see the events in order. -/
theorem handled_in_order (evs : List Action) (h : Along Bus.step InTurn evs {}) :
    InOrder (run Bus.step evs {}) := (ordered_run h).inOrder

/-- The first call has the number 1, and the second one is the first at the queue. -/
def overtaking : List Action :=
  [.subscribe (text "*") 2 .block,.publish (text "chat.updated") [0],
    .publish (text "chat.updated") [0],.advance 0 .send,.advance 1 .send,.advance 1 .send,
    .advance 1 .send,.advance 0 .send,.advance 0 .send,.take 0,.finish 0 false,.take 0]

theorem overtaking_out_of_order :
    ¬InOrder (run Bus.step overtaking {}) ∧
      (run Bus.step overtaking {}).subs.map (fun sub => sub.handled.map Event.seq) = [[2,1]] := by
  decide +kernel

/-- Here the calls take their numbers in the same way, and the first one is the first at the
queue. -/
def inTurn : List Action :=
  [.subscribe (text "*") 2 .block,.publish (text "chat.updated") [0],
    .publish (text "chat.updated") [0],.advance 0 .send,.advance 1 .send,.advance 0 .send,
    .advance 0 .send,.advance 1 .send,.advance 1 .send,.take 0,.finish 0 false,.take 0]

theorem handled_in_order_sample :
    (run Bus.step inTurn {}).subs.map (fun sub => sub.handled.map Event.seq) = [[1,2]] ∧
      InOrder (run Bus.step inTurn {}) :=
  ⟨by decide +kernel,handled_in_order inTurn (by decide +kernel)⟩

end BaturWhatsApi.EventBusOrder
