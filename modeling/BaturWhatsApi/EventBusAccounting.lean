import BaturWhatsApi.EventBus

/-!
# No event is lost

Every event that is put into a queue is still there, has been handed to the handler, or
has been discarded, and it is in one of these places only. It was put there once, for a
subscription that matched when it was published. `Publish` counts a discard and a delivery
after it has made it, so a counter is behind by the calls that are between the two
operations.
-/
namespace BaturWhatsApi.EventBusAccounting
open ByteStrings ListCells EventBus Runs

def copies (c : ℕ) (sub : Subscription) : ℕ := sub.enqueued.countP fun ev => ev.call = c

/-- The calls whose next operation is the given one. -/
def callsAt (pc : Pc) (b : Bus) : ℕ := tally (fun call => if call.pc = pc then 1 else 0) b.calls

def discards (b : Bus) : ℕ := tally (fun sub => sub.discarded.length) b.subs

def enqueues (b : Bus) : ℕ := tally (fun sub => sub.enqueued.length) b.subs

/-! ### Counters -/

/-- The counter has still to be raised `m` times. -/
def Counts (cnt : UInt64) (m n : ℕ) : Prop := cnt+.ofNat m = .ofNat n

theorem Counts.begin {cnt : UInt64} {m n : ℕ} (h : Counts cnt m n) :
    Counts cnt (m+1) (n+1) := by
  unfold Counts at h ⊢
  rw [UInt64.ofNat_add,UInt64.ofNat_add,← h,UInt64.add_assoc]

theorem Counts.congr {cnt : UInt64} {m m' n n' : ℕ} (h : Counts cnt m n) (hm : m' = m)
    (hn : n' = n) : Counts cnt m' n' := by
  rw [hm,hn]
  exact h

theorem Counts.finish {cnt : UInt64} {m n : ℕ} (h : Counts cnt (m+1) n) :
    Counts (cnt+1) m n := by
  unfold Counts at h ⊢
  rw [← h,UInt64.ofNat_add,UInt64.add_assoc,UInt64.add_comm 1]
  rfl

/-- A counter of the bus, the next operation of a call that has still to raise it, and what it
counts. -/
structure Counter where
  value : Bus → UInt64
  pc : Pc
  count : Subscription → ℕ

def drops : Counter := ⟨Bus.dropCnt,.dropping,fun sub => sub.discarded.length⟩

def deliveries : Counter := ⟨Bus.delCnt,.delivered,fun sub => sub.enqueued.length⟩

def Counter.Holds (k : Counter) (b : Bus) : Prop :=
  Counts (k.value b) (callsAt k.pc b) (tally k.count b.subs)

/-! ### A subscription -/

/-- An event belongs to a call that is known. -/
def Origin (calls : List Call) (sub : Subscription) : Prop :=
  ∀ ev ∈ sub.enqueued, ∃ call, calls[ev.call]? = some call ∧ ev.seq = call.seq ∧
    ev.type = call.type

structure Kept (sub : Subscription) : Prop where
  places : sub.enqueued.Perm (sub.queue++sub.handled++sub.discarded)
  blocking : sub.policy = .block → sub.discarded = []

theorem Kept.same {sub sub' : Subscription} (h : Kept sub) (hs : SameQueue sub sub') :
    Kept sub' := by
  constructor
  · rw [hs.enqueued,hs.queue,hs.handled,hs.discarded]
    exact h.places
  · rw [hs.policy,hs.discarded]
    exact h.blocking

theorem Kept.take {sub : Subscription} {ev : Event} {queue : List Event} (h : Kept sub)
    (hqueue : sub.queue = ev::queue) (worker : Worker) :
    Kept {sub with queue := queue,handled := sub.handled++[ev],worker := worker} := by
  refine ⟨h.places.trans ?_,h.blocking⟩
  rw [hqueue]
  apply List.Perm.append_right
  rw [← List.append_assoc]
  exact (List.perm_append_singleton _ _).symm

theorem Kept.send {sub : Subscription} (h : Kept sub) (ev : Event) :
    Kept {sub with queue := sub.queue++[ev],enqueued := sub.enqueued++[ev]} := by
  refine ⟨(h.places.append_right [ev]).trans ?_,h.blocking⟩
  simp only [List.append_assoc]
  apply List.Perm.append_left
  rw [← List.append_assoc]
  exact List.perm_append_comm

theorem Kept.discard {sub : Subscription} {ev : Event} {queue : List Event} (h : Kept sub)
    (hqueue : sub.queue = ev::queue) (hpolicy : sub.policy = .dropOldest) :
    Kept {sub with queue := queue,discarded := sub.discarded++[ev]} := by
  constructor
  · refine h.places.trans ?_
    rw [hqueue,← List.append_assoc]
    exact (List.perm_append_singleton _ _).symm
  · intro hblock
    cases hpolicy.symm.trans hblock

theorem Origin.extends {calls calls' : List Call} {sub : Subscription} (h : Origin calls sub)
    (hcalls : ∀ (c : ℕ) (call : Call), calls[c]? = some call →
      ∃ call' : Call, calls'[c]? = some call' ∧ call'.seq = call.seq ∧ call'.type = call.type) :
    Origin calls' sub := by
  intro ev hev
  obtain ⟨call,hcall,hseq,htype⟩ := h ev hev
  obtain ⟨call',hcall',hseq',htype'⟩ := hcalls _ call hcall
  exact ⟨call',hcall',hseq.trans hseq'.symm,htype.trans htype'.symm⟩

theorem Origin.append {calls : List Call} {sub : Subscription} (h : Origin calls sub)
    (call : Call) : Origin (calls++[call]) sub :=
  h.extends fun _ old hold => ⟨old,getElem?_append_some hold,rfl,rfl⟩

theorem Origin.set {calls : List Call} {sub : Subscription} {c : ℕ} {call call' : Call}
    (h : Origin calls sub) (hcall : calls[c]? = some call) (hseq : call'.seq = call.seq)
    (htype : call'.type = call.type) : Origin (calls.set c call') sub := by
  apply h.extends
  intro j old hold
  by_cases hj : j = c
  · subst hj
    cases hcall.symm.trans hold
    exact ⟨call',List.getElem?_set_self (List.getElem?_eq_some_iff.mp hcall).1,hseq,htype⟩
  · exact ⟨old,(getElem?_set_of_ne hj).trans hold,rfl,rfl⟩

theorem copies_eq_zero_iff {c : ℕ} {sub : Subscription} :
    copies c sub = 0 ↔ ∀ ev ∈ sub.enqueued, ev.call ≠ c := by
  simp [copies]

theorem Origin.copies_new {calls : List Call} {sub : Subscription} (h : Origin calls sub) :
    copies calls.length sub = 0 := by
  apply copies_eq_zero_iff.mpr
  intro ev hev
  obtain ⟨call,hcall,-⟩ := h ev hev
  exact ((List.getElem?_eq_some_iff.mp hcall).1).ne

theorem Origin.renumber {calls : List Call} {sub : Subscription} {c : ℕ} (h : Origin calls sub)
    (hcopies : copies c sub = 0) (call' : Call) : Origin (calls.set c call') sub := by
  intro ev hev
  obtain ⟨call,hcall,hevent⟩ := h ev hev
  exact ⟨call,(getElem?_set_of_ne (copies_eq_zero_iff.mp hcopies ev hev)).trans hcall,hevent⟩

/-! ### A call -/

/-- The queues that have the event of the call are the first of its targets. -/
structure Follows (subs : List Subscription) (c : ℕ) (call : Call) : Prop where
  nodup : call.selected.Nodup
  matched : ∀ i ∈ call.selected, ∃ sub, subs[i]? = some sub ∧ sub.matches call.type = true
  sent : ∃ sent, call.selected = sent++call.targets ∧
    Cells (fun i sub => copies c sub = if i ∈ sent then 1 else 0) subs
  fresh : call.pc = .numbering → call.targets = call.selected
  returned : call.pc = .returned none → call.targets = []
  drops : call.pc = .makingRoom → ∀ i ∈ call.targets.head?, ∀ sub, subs[i]? = some sub →
    sub.policy = .dropOldest

/-- Nothing that the call looks at has changed. -/
structure SameFor (c : ℕ) (sub sub' : Subscription) : Prop where
  matches_eq : ∀ evType, sub'.matches evType = sub.matches evType
  policy : sub'.policy = sub.policy
  copies : copies c sub' = copies c sub

theorem SameFor.refl (c : ℕ) (sub : Subscription) : SameFor c sub sub := ⟨fun _ => rfl,rfl,rfl⟩

theorem sameFor_of_sameQueue {sub sub' : Subscription} (c : ℕ) (h : SameQueue sub sub') :
    SameFor c sub sub' :=
  ⟨h.matches_eq,h.policy,by rw [copies,h.enqueued,copies]⟩

theorem Follows.forall₂ {subs subs' : List Subscription} {c : ℕ} {call : Call}
    (h : Follows subs c call) (hs : List.Forall₂ (SameFor c) subs subs') :
    Follows subs' c call := by
  refine ⟨h.nodup,?_,?_,h.fresh,h.returned,?_⟩
  · intro i hi
    obtain ⟨sub,hsub,hmatch⟩ := h.matched i hi
    obtain ⟨sub',hsub',hsame⟩ := forall₂_getElem?_left hs hsub
    exact ⟨sub',hsub',(hsame.matches_eq _).trans hmatch⟩
  · obtain ⟨sent,hselected,hcells⟩ := h.sent
    exact ⟨sent,hselected,hcells.forall₂ hs fun _ _ _ hsame hold => hsame.copies.trans hold⟩
  · intro hpc i hi sub' hsub'
    obtain ⟨sub,hsub,hsame⟩ := forall₂_getElem? hs hsub'
    exact hsame.policy.trans (h.drops hpc i hi sub hsub)

theorem Follows.set {subs : List Subscription} {c i : ℕ} {call : Call} {sub sub' : Subscription}
    (h : Follows subs c call) (hsub : subs[i]? = some sub) (hsame : SameFor c sub sub') :
    Follows (subs.set i sub') c call :=
  h.forall₂ (forall₂_set hsub hsame (.refl c))

theorem Follows.append {subs : List Subscription} {c : ℕ} {call : Call} {sub : Subscription}
    (h : Follows subs c call) (henqueued : sub.enqueued = []) :
    Follows (subs++[sub]) c call := by
  have hbound : ∀ i ∈ call.selected, i < subs.length := by
    intro i hi
    obtain ⟨old,hold,-⟩ := h.matched i hi
    exact (List.getElem?_eq_some_iff.mp hold).1
  refine ⟨h.nodup,?_,?_,h.fresh,h.returned,?_⟩
  · intro i hi
    obtain ⟨old,hold,hmatch⟩ := h.matched i hi
    exact ⟨old,getElem?_append_some hold,hmatch⟩
  · obtain ⟨sent,hselected,hcells⟩ := h.sent
    refine ⟨sent,hselected,hcells.append ?_⟩
    have hnew : subs.length ∉ sent := by
      intro hmem
      have hsel : subs.length ∈ call.selected := by
        rw [hselected]
        exact List.mem_append_left _ hmem
      exact (hbound _ hsel).false
    rw [if_neg hnew,copies,henqueued,List.countP_nil]
  · intro hpc i hi sub' hsub'
    rcases getElem?_append_cases hsub' with ⟨rfl,-⟩ | hold
    · obtain ⟨sent,hselected,-⟩ := h.sent
      have hsel : subs.length ∈ call.selected := by
        rw [hselected]
        exact List.mem_append_right _ (List.mem_of_head? hi)
      exact ((hbound _ hsel).false).elim
    · exact h.drops hpc i hi sub' hold

/-- The call has moved and sent nothing. -/
theorem Follows.move {subs : List Subscription} {c : ℕ} {call call' : Call}
    (h : Follows subs c call) (htype : call'.type = call.type)
    (hselected : call'.selected = call.selected) (htargets : call'.targets = call.targets)
    (hfresh : call'.pc = .numbering → call.pc = .numbering)
    (hreturned : call'.pc = .returned none → call.targets = [])
    (hdrops : call'.pc = .makingRoom → ∀ i ∈ call.targets.head?, ∀ sub, subs[i]? = some sub →
      sub.policy = .dropOldest) : Follows subs c call' := by
  constructor
  · rw [hselected]
    exact h.nodup
  · rw [hselected,htype]
    exact h.matched
  · rw [hselected,htargets]
    exact h.sent
  · intro hpc
    rw [hselected,htargets]
    exact h.fresh (hfresh hpc)
  · rw [htargets]
    exact hreturned
  · rw [htargets]
    exact hdrops

theorem Follows.same {subs : List Subscription} {c : ℕ} {call call' : Call}
    (h : Follows subs c call) (hs : SameCall call call') : Follows subs c call' :=
  h.move hs.type hs.selected hs.targets (hs.pc ▸ id) (hs.pc ▸ h.returned) (hs.pc ▸ h.drops)

theorem Follows.goes {b : Bus} {c : ℕ} {call : Call} {pc : Pc} (h : Follows b.subs c call)
    (hgoes : Goes b call pc) : Follows b.subs c {call with pc := pc} := by
  cases hgoes with
  | finishes hpc htargets => exact h.move rfl rfl rfl nofun (fun _ => htargets) nofun
  | full i rest sub hpc htargets hsub hpolicy =>
      refine h.move rfl rfl rfl nofun nofun ?_
      intro _ j hj other hother
      rw [htargets] at hj
      cases hj
      cases hsub.symm.trans hother
      exact hpolicy
  | empty i rest sub hpc htargets hsub hqueue => exact h.move rfl rfl rfl nofun nofun nofun
  | gives err hpc => exact h.move rfl rfl rfl nofun nofun nofun

theorem copies_send (c d : ℕ) (sub : Subscription) (ev : Event) (queue : List Event)
    (hev : ev.call = d) : copies c {sub with queue := queue,enqueued := sub.enqueued++[ev]} =
      copies c sub+if c = d then 1 else 0 := by
  subst hev
  simp only [copies,List.countP_append,List.countP_singleton,decide_eq_true_eq,
    eq_comm (a := c)]

theorem Follows.send {subs : List Subscription} {c i : ℕ} {rest : List ℕ} {call : Call}
    {sub : Subscription} {ev : Event} (h : Follows subs c call) (hev : ev.call = c)
    (htargets : call.targets = i::rest) (hsub : subs[i]? = some sub) (queue : List Event) :
    Follows (subs.set i {sub with queue := queue,enqueued := sub.enqueued++[ev]}) c
      {call with targets := rest,pc := .delivered} := by
  refine ⟨h.nodup,?_,?_,nofun,nofun,nofun⟩
  · intro j hj
    obtain ⟨old,hold,hmatch⟩ := h.matched j hj
    by_cases hij : j = i
    · subst hij
      cases hsub.symm.trans hold
      exact ⟨_,List.getElem?_set_self (List.getElem?_eq_some_iff.mp hsub).1,hmatch⟩
    · exact ⟨old,(getElem?_set_of_ne hij).trans hold,hmatch⟩
  · obtain ⟨sent,hselected,hcells⟩ := h.sent
    rw [htargets] at hselected
    have hi : i ∉ sent := by
      have hnodup := h.nodup
      rw [hselected] at hnodup
      exact fun hmem => List.disjoint_of_nodup_append hnodup hmem List.mem_cons_self
    refine ⟨sent++[i],by rw [hselected,List.append_assoc]; rfl,?_⟩
    intro j other hother
    rcases getElem?_set_cases hother with ⟨rfl,rfl⟩ | ⟨hij,hold⟩
    · rw [copies_send c c _ _ _ hev,hcells j sub hsub,if_neg hi]
      simp
    · rw [hcells j other hold]
      simp [hij]

theorem follows_new {b : Bus} {evType : Bytes} {order : List ℕ}
    (horder : order.Perm (b.matching evType))
    (hcopies : Cells (fun _ sub => copies b.calls.length sub = 0) b.subs) :
    Follows b.subs b.calls.length {type := evType,selected := order,targets := order} := by
  refine ⟨horder.nodup_iff.mpr (matching_nodup b evType),?_,⟨[],rfl,?_⟩,fun _ => rfl,nofun,nofun⟩
  · intro i hi
    obtain ⟨sub,hsub,-,hmatch⟩ := mem_matching (horder.mem_iff.mp hi)
    exact ⟨sub,hsub,hmatch⟩
  · exact hcopies.mono fun i sub h => by simpa using h

theorem follows_refused (subs : List Subscription) (c : ℕ) (evType : Bytes)
    (hcopies : Cells (fun _ sub => copies c sub = 0) subs) :
    Follows subs c {type := evType,pc := .returned (some .closed)} :=
  ⟨List.nodup_nil,nofun,⟨[],rfl,hcopies.mono fun i sub h => by simpa using h⟩,nofun,nofun,nofun⟩

/-- A call that has no number has sent nothing. -/
theorem Follows.copies_of_numbering {subs : List Subscription} {c : ℕ} {call : Call}
    (h : Follows subs c call) (hpc : call.pc = .numbering) :
    Cells (fun _ sub => copies c sub = 0) subs := by
  obtain ⟨sent,hselected,hcells⟩ := h.sent
  have hsent : sent = [] := by
    rw [h.fresh hpc] at hselected
    exact List.self_eq_append_left.mp hselected
  refine hcells.mono fun i sub hi => ?_
  rw [hi,hsent]
  simp

/-! ### The bus -/

structure Inv (b : Bus) : Prop where
  kept : Cells (fun _ sub => Kept sub) b.subs
  origin : Cells (fun _ sub => Origin b.calls sub) b.subs
  follows : Cells (Follows b.subs) b.calls
  dropped : Counts b.dropCnt (callsAt .dropping b) (discards b)
  delivered : Counts b.delCnt (callsAt .delivered b) (enqueues b)

theorem inv_new : Inv {} := ⟨.nil,.nil,.nil,rfl,rfl⟩

section
variable {b b' : Bus} {act : Action}

theorem Inv.kept_step (h : Inv b) (hact : Outcome b act b') :
    Cells (fun _ sub => Kept sub) b'.subs := by
  cases hact with
  | quiet act b' hb => exact h.kept.forall₂ hb.subs fun _ _ _ hsame hold => hold.same hsame
  | subscribes pattern bufferSize policy sub _ hqueue henqueued hhandled hdiscarded hcap =>
      apply h.kept.append
      constructor
      · rw [hqueue,henqueued,hhandled,hdiscarded]
        exact .nil
      · exact fun _ => hdiscarded
  | takes i sub ev queue hsub hqueue => exact h.kept.set ((h.kept i sub hsub).take hqueue _)
  | sends c choice call i rest sub hcall hpc htargets hsub hroom =>
      exact h.kept.set ((h.kept i sub hsub).send _)
  | discards c choice call i rest sub ev queue hcall hpc htargets hsub hqueue =>
      apply h.kept.set
      apply (h.kept i sub hsub).discard hqueue
      exact (h.follows c call hcall).drops hpc i (by rw [htargets]; rfl) sub hsub
  | _ => exact h.kept

theorem Inv.origin_step (h : Inv b) (hact : Outcome b act b') :
    Cells (fun _ sub => Origin b'.calls sub) b'.subs := by
  cases hact with
  | quiet act b' hb =>
      have hcalls : Cells (fun _ sub => Origin b'.calls sub) b.subs := by
        refine h.origin.mono fun i sub hold => hold.extends fun c call hcall => ?_
        obtain ⟨call',hcall',hsame⟩ := forall₂_getElem?_left hb.calls hcall
        exact ⟨call',hcall',hsame.seq,hsame.type⟩
      apply hcalls.forall₂ hb.subs
      intro i sub sub' hsame hold
      rw [Origin,hsame.enqueued]
      exact hold
  | subscribes pattern bufferSize policy sub _ hqueue henqueued hhandled hdiscarded hcap =>
      apply h.origin.append
      rw [Origin,henqueued]
      exact nofun
  | refuses
  | publishes => exact h.origin.mono fun _ _ hold => hold.append _
  | takes i sub ev queue hsub hqueue => exact h.origin.set (h.origin i sub hsub)
  | numbers c choice call hcall hpc =>
      intro i sub hsub
      exact (h.origin i sub hsub).renumber
        ((h.follows c call hcall).copies_of_numbering hpc i sub hsub) _
  | counts c choice call hcall hpc
  | countsDrop c choice call hcall hpc
  | countsDelivered c choice call hcall hpc =>
      exact h.origin.mono fun _ _ hold => hold.set hcall rfl rfl
  | goes c choice call pc hcall hgoes =>
      exact h.origin.mono fun _ _ hold => hold.set hcall rfl rfl
  | sends c choice call i rest sub hcall hpc htargets hsub hroom =>
      have hset : Cells (fun _ sub => Origin (b.calls.set c
          {call with targets := rest,pc := .delivered}) sub) b.subs :=
        h.origin.mono fun _ _ hold => hold.set hcall rfl rfl
      apply hset.set
      intro ev hev
      rcases List.mem_append.mp hev with hev | hev
      · exact hset i sub hsub ev hev
      · cases List.mem_singleton.mp hev
        exact ⟨_,List.getElem?_set_self (List.getElem?_eq_some_iff.mp hcall).1,rfl,rfl⟩
  | discards c choice call i rest sub ev queue hcall hpc htargets hsub hqueue =>
      have hset : Cells (fun _ sub => Origin (b.calls.set c {call with pc := .dropping}) sub)
          b.subs := h.origin.mono fun _ _ hold => hold.set hcall rfl rfl
      exact hset.set (hset i sub hsub)

theorem Inv.follows_step (h : Inv b) (hact : Outcome b act b') :
    Cells (Follows b'.subs) b'.calls := by
  have hnew : Cells (fun _ sub => copies b.calls.length sub = 0) b.subs :=
    h.origin.mono fun _ _ hold => hold.copies_new
  cases hact with
  | quiet act b' hb =>
      have hsubs := fun c => hb.subs.imp fun _ _ hsame => sameFor_of_sameQueue c hsame
      have hold := h.follows.mono fun c _ hfollows => hfollows.forall₂ (hsubs c)
      exact hold.forall₂ hb.calls fun _ _ _ hsame hfollows => hfollows.same hsame
  | subscribes pattern bufferSize policy sub _ hqueue henqueued hhandled hdiscarded hcap =>
      exact h.follows.mono fun _ _ hfollows => hfollows.append henqueued
  | refuses evType order => exact h.follows.append (follows_refused _ _ evType hnew)
  | publishes evType order hclosed horder => exact h.follows.append (follows_new horder hnew)
  | takes i sub ev queue hsub hqueue =>
      exact h.follows.mono fun _ _ hfollows => hfollows.set hsub ⟨fun _ => rfl,rfl,rfl⟩
  | numbers c choice call hcall hpc
  | counts c choice call hcall hpc
  | countsDrop c choice call hcall hpc
  | countsDelivered c choice call hcall hpc =>
      exact h.follows.set ((h.follows c call hcall).move rfl rfl rfl nofun nofun nofun)
  | goes c choice call pc hcall hgoes => exact h.follows.set ((h.follows c call hcall).goes hgoes)
  | sends c choice call i rest sub hcall hpc htargets hsub hroom =>
      intro d other hother
      rcases getElem?_set_cases hother with ⟨rfl,rfl⟩ | ⟨hcd,hold⟩
      · exact (h.follows d call hcall).send rfl htargets hsub _
      · apply (h.follows d other hold).set hsub
        refine ⟨fun _ => rfl,rfl,?_⟩
        rw [copies_send d c sub _ _ rfl,if_neg hcd,Nat.add_zero]
  | discards c choice call i rest sub ev queue hcall hpc htargets hsub hqueue =>
      have hmove : Follows b.subs c {call with pc := .dropping} :=
        (h.follows c call hcall).move rfl rfl rfl nofun nofun nofun
      exact (h.follows.set hmove).mono fun _ _ hfollows =>
        hfollows.set hsub ⟨fun _ => rfl,rfl,rfl⟩

theorem callsAt_set {c : ℕ} {call call' : Call} {pc : Pc} (hcall : b.calls[c]? = some call)
    (hcalls : b'.calls = b.calls.set c call') (hpc : call'.pc ≠ pc) (hpc' : call.pc ≠ pc) :
    callsAt pc b' = callsAt pc b := by
  rw [callsAt,hcalls,callsAt]
  apply tally_set_eq hcall
  rw [if_neg hpc,if_neg hpc']

theorem callsAt_enter {c : ℕ} {call call' : Call} {pc : Pc} (hcall : b.calls[c]? = some call)
    (hcalls : b'.calls = b.calls.set c call') (hpc : call'.pc = pc) (hpc' : call.pc ≠ pc) :
    callsAt pc b' = callsAt pc b+1 := by
  rw [callsAt,hcalls,callsAt]
  apply tally_set_succ hcall
  rw [if_pos hpc,if_neg hpc']

theorem callsAt_leave {c : ℕ} {call call' : Call} {pc : Pc} (hcall : b.calls[c]? = some call)
    (hcalls : b'.calls = b.calls.set c call') (hpc : call'.pc ≠ pc) (hpc' : call.pc = pc) :
    callsAt pc b'+1 = callsAt pc b := by
  rw [callsAt,hcalls,callsAt]
  apply tally_set_pred hcall
  rw [if_neg hpc,if_pos hpc']

theorem callsAt_append {call : Call} {pc : Pc} (hcalls : b'.calls = b.calls++[call])
    (hpc : call.pc ≠ pc) : callsAt pc b' = callsAt pc b := by
  rw [callsAt,hcalls,tally_append,if_neg hpc,Nat.add_zero,callsAt]

theorem callsAt_unmoved (hb : Unmoved act b b') (pc : Pc) : callsAt pc b' = callsAt pc b := by
  apply tally_forall₂ hb.calls
  intro call call' hsame
  rw [hsame.pc]

theorem Counter.step {k : Counter} (hk : k = drops ∨ k = deliveries) (h : k.Holds b)
    (hact : Outcome b act b') : k.Holds b' := by
  cases hact with
  | quiet act b' hb =>
      have hvalue : k.value b' = k.value b := by
        rcases hk with rfl | rfl
        · exact hb.dropCnt
        · exact hb.delCnt
      have hcount : ∀ sub sub', SameQueue sub sub' → k.count sub' = k.count sub := by
        intro sub sub' hsame
        rcases hk with rfl | rfl
        · exact congrArg List.length hsame.discarded
        · exact congrArg List.length hsame.enqueued
      rw [Holds,hvalue,callsAt_unmoved hb,tally_forall₂ hb.subs k.count hcount]
      exact h
  | subscribes pattern bufferSize policy sub _ hqueue henqueued hhandled hdiscarded hcap =>
      have hcount : k.count sub = 0 := by
        rcases hk with rfl | rfl
        · exact List.length_eq_zero_iff.mpr hdiscarded
        · exact List.length_eq_zero_iff.mpr henqueued
      have htally : tally k.count (b.subs++[sub]) = tally k.count b.subs := by
        rw [tally_append,hcount,Nat.add_zero]
      rcases hk with rfl | rfl <;> exact h.congr rfl htally
  | refuses
  | publishes => rcases hk with rfl | rfl <;> exact h.congr (callsAt_append rfl nofun) rfl
  | takes i sub ev queue hsub hqueue =>
      rcases hk with rfl | rfl <;> exact h.congr rfl (tally_set_eq hsub rfl)
  | numbers c choice call hcall hpc
  | counts c choice call hcall hpc =>
      rcases hk with rfl | rfl <;>
        exact h.congr (callsAt_set hcall rfl nofun (hpc ▸ nofun)) rfl
  | countsDrop c choice call hcall hpc =>
      rcases hk with rfl | rfl
      · exact .finish (h.congr (callsAt_leave hcall rfl nofun hpc) rfl)
      · exact h.congr (callsAt_set hcall rfl nofun (hpc ▸ nofun)) rfl
  | countsDelivered c choice call hcall hpc =>
      rcases hk with rfl | rfl
      · exact h.congr (callsAt_set hcall rfl nofun (hpc ▸ nofun)) rfl
      · exact .finish (h.congr (callsAt_leave hcall rfl nofun hpc) rfl)
  | goes c choice call pc hcall hgoes =>
      obtain ⟨hto,hfrom,hto',hfrom'⟩ := hgoes.uncounted
      rcases hk with rfl | rfl
      · exact h.congr (callsAt_set hcall rfl hto hfrom) rfl
      · exact h.congr (callsAt_set hcall rfl hto' hfrom') rfl
  | sends c choice call i rest sub hcall hpc htargets hsub hroom =>
      have hne : call.pc ≠ .dropping ∧ call.pc ≠ .delivered := by
        rcases hpc with hpc | hpc <;> simp [hpc]
      rcases hk with rfl | rfl
      · exact h.congr (callsAt_set hcall rfl nofun hne.1) (tally_set_eq hsub rfl)
      · exact h.begin.congr (callsAt_enter hcall rfl rfl hne.2)
          (tally_set_succ hsub List.length_append)
  | discards c choice call i rest sub ev queue hcall hpc htargets hsub hqueue =>
      rcases hk with rfl | rfl
      · exact h.begin.congr (callsAt_enter hcall rfl rfl (hpc ▸ nofun))
          (tally_set_succ hsub List.length_append)
      · exact h.congr (callsAt_set hcall rfl nofun (hpc ▸ nofun)) (tally_set_eq hsub rfl)

end

theorem Inv.step {b : Bus} (h : Inv b) (act : Action) : Inv (b.step act) := by
  have hact := step_outcome b act
  exact ⟨h.kept_step hact,h.origin_step hact,h.follows_step hact,
    Counter.step (.inl rfl) h.dropped hact,Counter.step (.inr rfl) h.delivered hact⟩

theorem inv_run (evs : List Action) : Inv (run Bus.step evs {}) :=
  run_invariant (fun _ act h => h.step act) evs inv_new

/-! ### Snapshots -/

/-- What a call has selected stays the same. -/
theorem selected_step {b b' : Bus} {act : Action} {c : ℕ} {call : Call}
    (hcall : b.calls[c]? = some call) (hact : Outcome b act b') :
    ∃ call', b'.calls[c]? = some call' ∧ call'.type = call.type ∧
      call'.selected = call.selected := by
  have hset : ∀ (d : ℕ) (old new : Call), b.calls[d]? = some old → new.type = old.type →
      new.selected = old.selected → ∃ call', (b.calls.set d new)[c]? = some call' ∧
        call'.type = call.type ∧ call'.selected = call.selected := by
    intro d old new hold htype hselected
    by_cases hcd : c = d
    · subst hcd
      cases hcall.symm.trans hold
      exact ⟨new,List.getElem?_set_self (List.getElem?_eq_some_iff.mp hcall).1,htype,hselected⟩
    · exact ⟨call,(getElem?_set_of_ne hcd).trans hcall,rfl,rfl⟩
  cases hact with
  | quiet act b' hb =>
      obtain ⟨call',hcall',hsame⟩ := forall₂_getElem?_left hb.calls hcall
      exact ⟨call',hcall',hsame.type,hsame.selected⟩
  | subscribes
  | takes => exact ⟨call,hcall,rfl,rfl⟩
  | refuses
  | publishes => exact ⟨call,getElem?_append_some hcall,rfl,rfl⟩
  | numbers d choice old hold
  | counts d choice old hold
  | countsDrop d choice old hold
  | countsDelivered d choice old hold
  | goes d choice old pc hold
  | sends d choice old i rest sub hold
  | discards d choice old i rest sub ev queue hold => exact hset d old _ hold rfl rfl

theorem selected_run {b : Bus} {c : ℕ} {call : Call} (hcall : b.calls[c]? = some call)
    (evs : List Action) : ∃ call', (run Bus.step evs b).calls[c]? = some call' ∧
      call'.type = call.type ∧ call'.selected = call.selected := by
  refine run_invariant (I := fun s : Bus => ∃ call' : Call, s.calls[c]? = some call' ∧
    call'.type = call.type ∧ call'.selected = call.selected) ?_ evs ⟨call,hcall,rfl,rfl⟩
  rintro s act ⟨mid,hmid,htype,hselected⟩
  obtain ⟨call',hcall',htype',hselected'⟩ := selected_step hmid (step_outcome s act)
  exact ⟨call',hcall',htype'.trans htype,hselected'.trans hselected⟩

/-! ### The account -/

/-- Where the events are, whose they are, and how far the counters are behind. -/
structure Accounts (b : Bus) : Prop where
  places : ∀ sub ∈ b.subs, sub.enqueued.Nodup ∧
    sub.enqueued.Perm (sub.queue++sub.handled++sub.discarded)
  blocking : ∀ sub ∈ b.subs, sub.policy = .block → sub.discarded = []
  events : ∀ sub ∈ b.subs, ∀ ev ∈ sub.enqueued, sub.matches ev.type = true ∧
    ∃ call, b.calls[ev.call]? = some call ∧ ev.seq = call.seq ∧ ev.type = call.type
  dropped : b.dropCnt+.ofNat (callsAt .dropping b) = .ofNat (discards b)
  delivered : b.delCnt+.ofNat (callsAt .delivered b) = .ofNat (enqueues b)

/-- No call of `Publish` is in progress. -/
def Idle (b : Bus) : Prop := ∀ call ∈ b.calls, call.pc.isReturned = true

/-- What has become of the call that began in the state `s`. -/
def Delivers (s b : Bus) (evType : Bytes) : Prop :=
  ∃ call, b.calls[s.calls.length]? = some call ∧ call.type = evType ∧
    Cells (fun i sub => copies s.calls.length sub ≤ 1 ∧
      (i ∉ s.matching evType → copies s.calls.length sub = 0) ∧
      (call.pc = .returned none → i ∈ s.matching evType → copies s.calls.length sub = 1)) b.subs

theorem Follows.copies_le {subs : List Subscription} {c i : ℕ} {call : Call} {sub : Subscription}
    (h : Follows subs c call) (hsub : subs[i]? = some sub) :
    copies c sub ≤ if i ∈ call.selected then 1 else 0 := by
  obtain ⟨sent,hselected,hcells⟩ := h.sent
  rw [hcells i sub hsub,hselected]
  split_ifs with hsent htargets
  · exact le_rfl
  · exact (htargets (List.mem_append_left _ hsent)).elim
  · exact Nat.zero_le 1
  · exact le_rfl

theorem Follows.copies_returned {subs : List Subscription} {c i : ℕ} {call : Call}
    {sub : Subscription} (h : Follows subs c call) (hsub : subs[i]? = some sub)
    (hpc : call.pc = .returned none) (hi : i ∈ call.selected) : copies c sub = 1 := by
  obtain ⟨sent,hselected,hcells⟩ := h.sent
  rw [h.returned hpc,List.append_nil] at hselected
  rw [hcells i sub hsub,← hselected,if_pos hi]

/-- Two events of one call are one event. -/
theorem Inv.enqueued_nodup {b : Bus} (h : Inv b) {i : ℕ} {sub : Subscription}
    (hsub : b.subs[i]? = some sub) : sub.enqueued.Nodup := by
  apply List.Nodup.of_map Event.call
  apply List.nodup_iff_count_le_one.mpr
  intro c
  rw [List.count_eq_countP,List.countP_map]
  by_cases hc : c < b.calls.length
  · have hle := (h.follows c _ (List.getElem?_eq_getElem hc)).copies_le hsub
    refine le_trans (le_of_eq ?_) (hle.trans (by split_ifs <;> simp))
    exact List.countP_congr fun ev _ => by simp
  · refine le_trans (le_of_eq (List.countP_eq_zero.mpr ?_)) (Nat.zero_le 1)
    intro ev hev
    obtain ⟨call,hcall,-⟩ := h.origin i sub hsub ev hev
    have hlt := (List.getElem?_eq_some_iff.mp hcall).1
    simp only [Function.comp_apply,beq_iff_eq]
    omega

theorem Inv.event_matches {b : Bus} (h : Inv b) {i : ℕ} {sub : Subscription} {ev : Event}
    (hsub : b.subs[i]? = some sub) (hev : ev ∈ sub.enqueued) : sub.matches ev.type = true := by
  obtain ⟨call,hcall,-,htype⟩ := h.origin i sub hsub ev hev
  have hfollows := h.follows ev.call call hcall
  have hcopies : copies ev.call sub ≠ 0 := fun h0 => copies_eq_zero_iff.mp h0 ev hev rfl
  have hi : i ∈ call.selected := by
    by_contra hi
    have hle := hfollows.copies_le hsub
    rw [if_neg hi] at hle
    exact hcopies (Nat.le_zero.mp hle)
  obtain ⟨sub',hsub',hmatch⟩ := hfollows.matched i hi
  cases hsub.symm.trans hsub'
  rw [htype]
  exact hmatch

theorem Inv.accounts {b : Bus} (h : Inv b) : Accounts b := by
  constructor
  · intro sub hmem
    obtain ⟨i,hsub⟩ := List.mem_iff_getElem?.mp hmem
    exact ⟨h.enqueued_nodup hsub,(h.kept i sub hsub).places⟩
  · intro sub hmem
    obtain ⟨i,hsub⟩ := List.mem_iff_getElem?.mp hmem
    exact (h.kept i sub hsub).blocking
  · intro sub hmem ev hev
    obtain ⟨i,hsub⟩ := List.mem_iff_getElem?.mp hmem
    exact ⟨h.event_matches hsub hev,h.origin i sub hsub ev hev⟩
  · exact h.dropped
  · exact h.delivered

theorem callsAt_idle {b : Bus} (h : Idle b) (pc : Pc) (hpc : pc.isReturned = false) :
    callsAt pc b = 0 := by
  apply tally_eq_zero
  intro call hcall
  apply if_neg
  intro heq
  cases (heq ▸ h call hcall).symm.trans hpc

theorem Accounts.idle {b : Bus} (h : Accounts b) (hidle : Idle b) :
    b.dropCnt = .ofNat (discards b) ∧ b.delCnt = .ofNat (enqueues b) := by
  constructor
  · rw [← h.dropped,callsAt_idle hidle .dropping rfl]
    exact (UInt64.add_zero _).symm
  · rw [← h.delivered,callsAt_idle hidle .delivered rfl]
    exact (UInt64.add_zero _).symm

theorem delivers_run (pre post : List Action) (evType : Bytes) (order : List ℕ)
    (hclosed : (run Bus.step pre {}).closed = false)
    (horder : order.Perm ((run Bus.step pre {}).matching evType)) :
    Delivers (run Bus.step pre {}) (run Bus.step (pre++.publish evType order::post) {}) evType := by
  generalize hs : run Bus.step pre {} = s at hclosed horder
  have hrun : run Bus.step (pre++.publish evType order::post) {} =
      run Bus.step post (s.publish evType order) := by
    rw [run_append,hs]
    rfl
  have hpublish : (s.publish evType order).calls[s.calls.length]? =
      some {type := evType,selected := order,targets := order} := by
    simp [Bus.publish,hclosed,horder]
  obtain ⟨call,hcall,htype,hselected⟩ := selected_run hpublish post
  rw [← hrun] at hcall
  have hfollows := (inv_run (pre++.publish evType order::post)).follows _ call hcall
  have hmem : ∀ i, i ∈ call.selected ↔ i ∈ s.matching evType := by
    intro i
    rw [hselected]
    exact horder.mem_iff
  refine ⟨call,hcall,htype,fun i sub hsub => ⟨?_,?_,?_⟩⟩
  · exact (hfollows.copies_le hsub).trans (by split_ifs <;> simp)
  · intro hi
    have hle := hfollows.copies_le hsub
    rw [if_neg (mt (hmem i).mp hi)] at hle
    exact Nat.le_zero.mp hle
  · exact fun hpc hi => hfollows.copies_returned hsub hpc ((hmem i).mpr hi)

/-- In every state of the bus the events are accounted for. -/
theorem events_accounted (evs : List Action) :
    Accounts (run Bus.step evs {}) ∧
      (Idle (run Bus.step evs {}) →
        (run Bus.step evs {}).dropCnt = .ofNat (discards (run Bus.step evs {})) ∧
        (run Bus.step evs {}).delCnt = .ofNat (enqueues (run Bus.step evs {}))) ∧
      ∀ pre post evType order, evs = pre++.publish evType order::post →
        (run Bus.step pre {}).closed = false →
        order.Perm ((run Bus.step pre {}).matching evType) →
        Delivers (run Bus.step pre {}) (run Bus.step evs {}) evType := by
  have haccounts := (inv_run evs).accounts
  refine ⟨haccounts,haccounts.idle,?_⟩
  rintro pre post evType order rfl hclosed horder
  exact delivers_run pre post evType order hclosed horder

/-- The queue has one place. The second call takes the first event out of it. -/
def uncounted : List Action :=
  .subscribe (text "*") 1 .dropOldest::.publish (text "chat.updated") [0]::(advances 0 5++
    .publish (text "chat.updated") [0]::advances 1 4)

theorem discard_not_counted :
    discards (run Bus.step uncounted {}) = 1 ∧ (run Bus.step uncounted {}).dropCnt = 0 := by
  decide +kernel

end BaturWhatsApi.EventBusAccounting
