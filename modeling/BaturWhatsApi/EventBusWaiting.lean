import BaturWhatsApi.EventBus

/-!
# What a publisher waits for

`Publish` is meant to wait only for a subscription that is registered and that blocks. Its
targets are a snapshot, so `Unsubscribe` can take one away and stop its worker while a call
has still to come to its queue, and nobody makes room in it then. A call that has made room
in a queue that drops takes the place in another operation; if a second call is faster, the
first one finds the queue full again and waits.
-/
namespace BaturWhatsApi.EventBusWaiting
open ByteStrings ListCells EventBus Runs

/-- The call is at a `select` without default for the queue, and none of its cases is ready. -/
def Waits (b : Bus) (call : Call) (sub : Subscription) : Prop :=
  (call.pc = .waiting ∨ call.pc = .sending ∧ sub.policy = .block) ∧ sub.hasRoom = false ∧
    call.expired = false ∧ b.closed = false

instance (b : Bus) (call : Call) (sub : Subscription) : Decidable (Waits b call sub) :=
  inferInstanceAs (Decidable (_ ∧ _))

/-- A call waits only for a registered subscription that blocks. -/
def WaitsForLive (b : Bus) : Prop :=
  ∀ call ∈ b.calls, ∀ i ∈ call.targets.head?, ∀ sub ∈ b.subs[i]?, Waits b call sub →
    sub.registered = true ∧ sub.policy = .block

instance (b : Bus) : Decidable (WaitsForLive b) :=
  inferInstanceAs (Decidable (∀ call ∈ b.calls, ∀ i ∈ call.targets.head?, ∀ sub ∈ b.subs[i]?, _))

/-- The call has made room in the queue, or found it empty, and has still to use the place. -/
def Reserves (call : Call) (i : ℕ) : Prop :=
  i ∈ call.targets.head? ∧ (call.pc = .dropping ∨ call.pc = .waiting)

instance (call : Call) (i : ℕ) : Decidable (Reserves call i) :=
  inferInstanceAs (Decidable (_ ∧ _))

/-- The subscription is no target any more. -/
def IsFree (b : Bus) (i : ℕ) : Prop :=
  ∀ call ∈ b.calls, i ∈ call.targets → call.pc.isReturned = true

instance (b : Bus) (i : ℕ) : Decidable (IsFree b i) :=
  inferInstanceAs (Decidable (∀ call ∈ b.calls, _ → _))

/-- Nobody else has made the room that the call is about to use. -/
def IsOwn (b : Bus) (c : ℕ) (call : Call) : Prop :=
  ∀ i ∈ call.targets.head?, ∀ sub ∈ b.subs[i]?, sub.hasRoom = true →
    ∀ d < b.calls.length, d ≠ c → ∀ other ∈ b.calls[d]?, ¬Reserves other i

instance (b : Bus) (c : ℕ) (call : Call) : Decidable (IsOwn b c call) :=
  inferInstanceAs (Decidable (∀ i ∈ call.targets.head?, ∀ sub ∈ b.subs[i]?, _ → ∀ d < _, _))

/-- No subscription is removed while it is a target, and no call takes the room of another. -/
def Undisturbed (b : Bus) (act : Action) : Prop :=
  (∀ i ∈ act.removed?, IsFree b i) ∧
    ∀ c ∈ act.call?, ∀ call ∈ b.calls[c]?, call.pc = .sending ∨ call.pc = .waiting →
      IsOwn b c call

instance (b : Bus) (act : Action) : Decidable (Undisturbed b act) :=
  inferInstanceAs (Decidable ((∀ i ∈ act.removed?, _) ∧ ∀ c ∈ act.call?, ∀ call ∈ b.calls[c]?, _))

/-! ### Room -/

def Fits (sub : Subscription) : Prop := 0 < sub.cap ∧ sub.queue.length ≤ sub.cap

theorem hasRoom_iff {sub : Subscription} : sub.hasRoom = true ↔ sub.queue.length < sub.cap :=
  decide_eq_true_iff

/-- Who has reserved a place finds it. -/
def Finds (subs : List Subscription) (call : Call) : Prop :=
  ∀ i, Reserves call i → ∀ sub, subs[i]? = some sub → sub.hasRoom = true

theorem head_eq {targets : List ℕ} {i j : ℕ} {rest : List ℕ} (h : targets = i::rest)
    (hj : j ∈ targets.head?) : j = i := by
  rw [h] at hj
  exact (Option.some.inj hj).symm

theorem Finds.set {subs : List Subscription} {call : Call} {i : ℕ} {sub : Subscription}
    (h : Finds subs call) (hroom : sub.hasRoom = true) : Finds (subs.set i sub) call := by
  intro j hj other hother
  rcases getElem?_set_cases hother with ⟨_,rfl⟩ | ⟨_,hold⟩
  · exact hroom
  · exact h j hj other hold

theorem Finds.append {subs : List Subscription} {call : Call} {sub : Subscription}
    (h : Finds subs call) (hroom : sub.hasRoom = true) : Finds (subs++[sub]) call := by
  intro j hj other hother
  rcases getElem?_append_cases hother with ⟨_,rfl⟩ | hold
  · exact hroom
  · exact h j hj other hold

theorem finds_of_pc {subs : List Subscription} {call : Call} (hdropping : call.pc ≠ .dropping)
    (hwaiting : call.pc ≠ .waiting) : Finds subs call := by
  rintro i ⟨_,hpc | hpc⟩
  · exact (hdropping hpc).elim
  · exact (hwaiting hpc).elim

structure Roomy (b : Bus) : Prop where
  fits : Cells (fun _ sub => Fits sub) b.subs
  finds : Cells (fun _ call => Finds b.subs call) b.calls

theorem roomy_new : Roomy {} := ⟨.nil,.nil⟩

/-- The queue is shorter by one. -/
theorem Fits.hasRoom_tail {sub sub' : Subscription} {ev : Event} (h : Fits sub)
    (hqueue : sub.queue = ev::sub'.queue) (hcap : sub'.cap = sub.cap) :
    sub'.hasRoom = true := by
  have hlength := h.2
  rw [hqueue,List.length_cons] at hlength
  rw [hasRoom_iff,hcap]
  omega

theorem fits_of_hasRoom {sub : Subscription} (h : sub.hasRoom = true) : Fits sub := by
  rw [hasRoom_iff] at h
  exact ⟨by omega,h.le⟩

theorem Finds.same {subs subs' : List Subscription} {call call' : Call} (h : Finds subs call)
    (hsubs : List.Forall₂ SameQueue subs subs') (hcall : SameCall call call') :
    Finds subs' call' := by
  intro i hi sub' hsub'
  obtain ⟨sub,hsub,hsame⟩ := forall₂_getElem? hsubs hsub'
  rw [Reserves,hcall.targets,hcall.pc] at hi
  rw [Subscription.hasRoom,hsame.queue,hsame.cap]
  exact h i hi sub hsub

theorem Finds.goes {b : Bus} {call : Call} {pc : Pc}
    (hfits : Cells (fun _ sub => Fits sub) b.subs) (hgoes : Goes b call pc) :
    Finds b.subs {call with pc := pc} := by
  cases hgoes with
  | empty i rest sub hpc htargets hsub hqueue =>
      intro j hj other hother
      cases head_eq htargets hj.1
      cases hsub.symm.trans hother
      rw [hasRoom_iff,hqueue]
      exact (hfits _ sub hsub).1
  | _ => exact finds_of_pc nofun nofun

/-- A call that uses a place leaves the others theirs. -/
theorem Roomy.send {b : Bus} {c i : ℕ} {call : Call} {rest : List ℕ} {sub : Subscription}
    (h : Roomy b) (htargets : call.targets = i::rest) (hsub : b.subs[i]? = some sub)
    (hroom : sub.hasRoom = true) (hown : IsOwn b c call) : Roomy (b.send c call i rest sub) := by
  constructor
  · apply h.fits.set
    rw [hasRoom_iff] at hroom
    refine ⟨(Nat.zero_le _).trans_lt hroom,?_⟩
    rw [List.length_append]
    exact hroom
  · intro d other hother
    rcases getElem?_set_cases hother with ⟨rfl,rfl⟩ | ⟨hdc,hold⟩
    · exact finds_of_pc nofun nofun
    · intro j hj sub' hsub'
      rcases getElem?_set_cases hsub' with ⟨rfl,rfl⟩ | ⟨_,hsub'⟩
      · exact (hown j (by rw [htargets]; rfl) sub hsub hroom d
          (List.getElem?_eq_some_iff.mp hold).1 hdc other hold hj).elim
      · exact h.finds d other hold j hj sub' hsub'

theorem Roomy.outcome {b b' : Bus} {act : Action} (h : Roomy b) (hquiet : Undisturbed b act)
    (hact : Outcome b act b') : Roomy b' := by
  cases hact with
  | quiet act b' hb =>
      constructor
      · apply h.fits.forall₂ hb.subs
        intro i sub sub' hsame hold
        rw [Fits,hsame.queue,hsame.cap]
        exact hold
      · intro c call' hcall'
        obtain ⟨call,hcall,hsame⟩ := forall₂_getElem? hb.calls hcall'
        exact (h.finds c call hcall).same hb.subs hsame
  | subscribes pattern bufferSize policy sub _ hqueue henqueued hhandled hdiscarded hcap =>
      have hroom : sub.hasRoom = true := by
        rw [hasRoom_iff,hqueue]
        exact hcap
      exact ⟨h.fits.append (fits_of_hasRoom hroom),h.finds.mono fun _ _ hold => hold.append hroom⟩
  | refuses evType order => exact ⟨h.fits,h.finds.append (finds_of_pc nofun nofun)⟩
  | publishes evType order hclosed horder =>
      exact ⟨h.fits,h.finds.append (finds_of_pc nofun nofun)⟩
  | takes i sub ev queue hsub hqueue =>
      have hroom : Subscription.hasRoom
          {sub with queue := queue,handled := sub.handled++[ev],worker := .handling ev} = true :=
        (h.fits i sub hsub).hasRoom_tail hqueue rfl
      exact ⟨h.fits.set (fits_of_hasRoom hroom),h.finds.mono fun _ _ hold => hold.set hroom⟩
  | numbers c choice call hcall hpc
  | counts c choice call hcall hpc
  | countsDelivered c choice call hcall hpc =>
      exact ⟨h.fits,h.finds.set (finds_of_pc nofun nofun)⟩
  | countsDrop c choice call hcall hpc =>
      exact ⟨h.fits,h.finds.set fun i hi => h.finds c call hcall i ⟨hi.1,.inl hpc⟩⟩
  | goes c choice call pc hcall hgoes => exact ⟨h.fits,h.finds.set (.goes h.fits hgoes)⟩
  | sends c choice call i rest sub hcall hpc htargets hsub hroom =>
      exact h.send htargets hsub hroom (hquiet.2 c rfl call hcall hpc)
  | discards c choice call i rest sub ev queue hcall hpc htargets hsub hqueue =>
      have hroom : Subscription.hasRoom
          {sub with queue := queue,discarded := sub.discarded++[ev]} = true :=
        (h.fits i sub hsub).hasRoom_tail hqueue rfl
      refine ⟨h.fits.set (fits_of_hasRoom hroom),Cells.set ?_ ?_⟩
      · exact h.finds.mono fun _ _ hold => hold.set hroom
      · intro j hj other hother
        rcases getElem?_set_cases hother with ⟨_,rfl⟩ | ⟨hji,_⟩
        · exact hroom
        · exact (hji (head_eq htargets hj.1)).elim

/-! ### Registration -/

/-- The targets of a call are registered until it returns. -/
def Shown (subs : List Subscription) (call : Call) : Prop :=
  call.pc.isReturned = false → ∀ i ∈ call.targets, ∀ sub, subs[i]? = some sub →
    sub.registered = true

theorem Shown.set {subs : List Subscription} {call : Call} {i : ℕ} {sub sub' : Subscription}
    (h : Shown subs call) (hsub : subs[i]? = some sub)
    (hregistered : sub'.registered = sub.registered) : Shown (subs.set i sub') call := by
  intro hpc j hj other hother
  rcases getElem?_set_cases hother with ⟨rfl,rfl⟩ | ⟨_,hold⟩
  · exact hregistered.trans (h hpc j hj sub hsub)
  · exact h hpc j hj other hold

theorem Shown.move {subs : List Subscription} {call call' : Call} (h : Shown subs call)
    (hpc : call.pc.isReturned = false) (htargets : call'.targets ⊆ call.targets) :
    Shown subs call' :=
  fun _ i hi => h hpc i (htargets hi)

def Listed (b : Bus) : Prop := b.closed = false → Cells (fun _ call => Shown b.subs call) b.calls

theorem Listed.quiet {b b' : Bus} {act : Action} (h : Listed b) (hquiet : Undisturbed b act)
    (hb : Unmoved act b b') : Listed b' := by
  intro hopen c call' hcall' hpc i hi sub' hsub'
  obtain ⟨call,hcall,hcallSame⟩ := forall₂_getElem? hb.calls hcall'
  obtain ⟨sub,hsub,-⟩ := forall₂_getElem? hb.subs hsub'
  rw [hcallSame.pc] at hpc
  rw [hcallSame.targets] at hi
  have hremove : act ≠ .remove i := by
    rintro rfl
    have hreturned := hquiet.1 i rfl call (List.mem_of_getElem? hcall) hi
    cases hreturned.symm.trans hpc
  exact hb.stays hopen i sub sub' hremove hsub hsub' (h (hb.isOpen hopen) c call hcall hpc i hi
    sub hsub)

theorem Listed.outcome {b b' : Bus} {act : Action} (h : Listed b) (hquiet : Undisturbed b act)
    (hact : Outcome b act b') : Listed b' := by
  cases hact with
  | quiet act b' hb => exact h.quiet hquiet hb
  | subscribes pattern bufferSize policy sub hregistered hqueue henqueued hhandled hdiscarded =>
      intro hopen c call hcall hpc i hi other hother
      rcases getElem?_append_cases hother with ⟨_,rfl⟩ | hold
      · exact hregistered
      · exact h hopen c call hcall hpc i hi other hold
  | refuses evType order => exact fun hopen => (h hopen).append nofun
  | publishes evType order hclosed horder =>
      refine fun hopen => (h hopen).append fun _ i hi sub hsub => ?_
      obtain ⟨sub',hsub',hregistered,-⟩ := mem_matching (horder.mem_iff.mp hi)
      cases hsub.symm.trans hsub'
      exact hregistered
  | takes i sub ev queue hsub hqueue =>
      exact fun hopen => (h hopen).mono fun _ _ hold => hold.set hsub rfl
  | numbers c choice call hcall hpc
  | counts c choice call hcall hpc
  | countsDrop c choice call hcall hpc
  | countsDelivered c choice call hcall hpc =>
      exact fun hopen => (h hopen).set ((h hopen c call hcall).move (hpc ▸ rfl) fun _ hi => hi)
  | goes c choice call pc hcall hgoes =>
      exact fun hopen => (h hopen).set
        ((h hopen c call hcall).move hgoes.running.2 fun _ hi => hi)
  | sends c choice call i rest sub hcall hpc htargets hsub hroom =>
      intro hopen
      have hmove : Shown b.subs {call with targets := rest,pc := .delivered} := by
        apply (h hopen c call hcall).move
        · rcases hpc with hpc | hpc <;> rw [hpc] <;> rfl
        · rw [htargets]
          exact List.subset_cons_self i rest
      exact ((h hopen).set hmove).mono fun _ _ hold => hold.set hsub rfl
  | discards c choice call i rest sub ev queue hcall hpc htargets hsub hqueue =>
      intro hopen
      have hmove : Shown b.subs {call with pc := .dropping} :=
        (h hopen c call hcall).move (hpc ▸ rfl) fun _ hi => hi
      exact ((h hopen).set hmove).mono fun _ _ hold => hold.set hsub rfl

/-! ### Waiting -/

theorem waitsForLive_of {b : Bus} (hroomy : Roomy b) (hlisted : Listed b) : WaitsForLive b := by
  rintro call hmem i hi sub hsub ⟨hpc | ⟨hpc,hpolicy⟩,hfull,-,hopen⟩
  · obtain ⟨c,hcall⟩ := List.mem_iff_getElem?.mp hmem
    have hroom := hroomy.finds c call hcall i ⟨hi,.inr hpc⟩ sub hsub
    cases hroom.symm.trans hfull
  · obtain ⟨c,hcall⟩ := List.mem_iff_getElem?.mp hmem
    have hrunning : call.pc.isReturned = false := by
      rw [hpc]
      rfl
    exact ⟨hlisted hopen c call hcall hrunning i (List.mem_of_head? hi) sub hsub,hpolicy⟩

/-- If no target is removed and no call takes the room of another one, every call that waits
does so for a registered subscription that blocks. -/
theorem waits_for_live (evs : List Action) (h : Along Bus.step Undisturbed evs {}) :
    WaitsForLive (run Bus.step evs {}) := by
  have hinv : Roomy (run Bus.step evs {}) ∧ Listed (run Bus.step evs {}) := by
    apply h.invariant (I := fun b => Roomy b ∧ Listed b)
    · intro b act hb hquiet
      have hact := step_outcome b act
      exact ⟨hb.1.outcome hquiet hact,hb.2.outcome hquiet hact⟩
    · exact ⟨roomy_new,fun _ => .nil⟩
  exact waitsForLive_of hinv.1 hinv.2

/-- The queue is full. The subscription is removed and its worker stops, and a call that has it as
a target waits. -/
def removedTarget : List Action :=
  .subscribe (text "*") 1 .block::.publish (text "chat.updated") [0]::(advances 0 5++
    .publish (text "chat.updated") [0]::.remove 0::.cancel 0::.stop 0::advances 1 2)

/-- Two calls come to a full queue that drops. The first one makes room and the second one takes
it. -/
def takenRoom : List Action :=
  .subscribe (text "*") 1 .dropOldest::.publish (text "chat.updated") [0]::(advances 0 5++
    .publish (text "chat.updated") [0]::.publish (text "chat.updated") [0]::(advances 1 5++
      advances 2 3))

theorem waits_for_others :
    ¬WaitsForLive (run Bus.step removedTarget {}) ∧ ¬WaitsForLive (run Bus.step takenRoom {}) := by
  decide +kernel

/-- The queue is full, a call waits for its handler, and another call drops an event. -/
def ownRoom : List Action :=
  .subscribe (text "*") 1 .block::.subscribe (text "chat.*") 1 .dropOldest::
    .publish (text "chat.updated") [0,1]::(advances 0 7++.publish (text "sync.started") [0]::
      .publish (text "chat.updated") [1,0]::(advances 1 2++advances 2 7))

theorem waits_for_live_sample :
    (∃ call ∈ (run Bus.step ownRoom {}).calls, ∃ sub ∈ (run Bus.step ownRoom {}).subs,
      Waits (run Bus.step ownRoom {}) call sub) ∧ (run Bus.step ownRoom {}).dropCnt = 1 ∧
      WaitsForLive (run Bus.step ownRoom {}) :=
  ⟨by decide +kernel,by decide +kernel,waits_for_live ownRoom (by decide +kernel)⟩

end BaturWhatsApi.EventBusWaiting
