import BaturWhatsApi.ByteStrings
import BaturWhatsApi.ListCells
import BaturWhatsApi.Runs

/-!
# The event bus

`Subscribe`, `Unsubscribe`, `Publish`, `Close` and the workers of `events/bus.go`, one
atomic operation at a time. A call of `Publish` selects its targets under the lock, takes a
number, and then goes from queue to queue without a lock. A queue that drops its oldest event
is written in up to four operations: an attempt, a removal, the count of it, and another
attempt that may wait. The schedule chooses which goroutine moves next, and which case of a
`select` is taken when several are ready.

Subscriptions and calls are numbered in the order in which they begin. Every subscription
has a record of the events that were put into its queue, handed to its handler, or
discarded.
-/
namespace BaturWhatsApi.EventBus
open ByteStrings ListCells

/-! ### Subscriptions -/

inductive Policy where
  | block
  | dropOldest
deriving DecidableEq, Repr

/-- An event, with the call of `Publish` that it comes from. -/
structure Event where
  call : ℕ
  seq : UInt64
  type : Bytes
deriving DecidableEq, Repr

inductive Worker where
  | idle
  | handling (ev : Event)
  | stopped
deriving DecidableEq, Repr

/-- `pattern`, `family` and `exact` are what `matches` looks at. -/
structure Subscription where
  pattern : Bytes
  family : Bytes
  exact : Bytes
  policy : Policy
  cap : ℕ
  queue : List Event := []
  registered : Bool := true
  cancelled : Bool := false
  worker : Worker := .idle
  enqueued : List Event := []
  handled : List Event := []
  discarded : List Event := []
deriving DecidableEq, Repr

inductive SubscribeError where
  | emptyPattern
  | closed
deriving DecidableEq

def star : Bytes := text "*"

def familySuffix : Bytes := text ".*"

def subscribe (closed : Bool) (pattern : Bytes) (bufferSize : ℤ) (policy : Policy) :
    Except SubscribeError Subscription :=
  if pattern = [] then .error .emptyPattern
  else if closed then .error .closed
  else
    let isFamily := pattern ≠ star ∧ familySuffix <:+ pattern
    .ok
      {pattern := pattern
       family := if isFamily then pattern.take (pattern.length-familySuffix.length) else []
       exact := if pattern = star ∨ isFamily then [] else pattern
       policy := policy
       cap := if bufferSize < 1 then 1 else bufferSize.toNat}

/-- A family is taken by its name and a dot; without one the type has to be the exact one. -/
def Subscription.matches (sub : Subscription) (evType : Bytes) : Bool :=
  if sub.pattern = star then true
  else if sub.family ≠ [] then (sub.family++text ".").isPrefixOf evType
  else evType == sub.exact

def Subscription.hasRoom (sub : Subscription) : Bool := sub.queue.length < sub.cap

/-! ### Calls of `Publish` -/

inductive PublishError where
  | closed
  | ctx
deriving DecidableEq, Repr

/-- The next operation of a call. In `sending` it is at the first `select` of its next target, in
`waiting` at the last one for a queue that drops. -/
inductive Pc where
  | numbering
  | counting
  | sending
  | makingRoom
  | dropping
  | waiting
  | delivered
  | returned (err : Option PublishError)
deriving DecidableEq, Repr

def Pc.isReturned : Pc → Bool
  | .returned _ => true
  | _ => false

/-- `selected` are the targets of the call, and `targets` those that it has not yet put the event
into. -/
structure Call where
  type : Bytes
  seq : UInt64 := 0
  selected : List ℕ := []
  targets : List ℕ := []
  pc : Pc := .numbering
  expired : Bool := false
deriving DecidableEq, Repr

structure Bus where
  subs : List Subscription := []
  calls : List Call := []
  closed : Bool := false
  done : Bool := false
  seq : UInt64 := 0
  pubCnt : UInt64 := 0
  delCnt : UInt64 := 0
  dropCnt : UInt64 := 0
  panics : UInt64 := 0
deriving DecidableEq, Repr

/-- The subscriptions that match now. -/
def Bus.matching (b : Bus) (evType : Bytes) : List ℕ :=
  (List.range b.subs.length).filter fun i =>
    b.subs[i]?.any fun sub => sub.registered && sub.matches evType

/-- The beginning of `Publish`, under the lock. The map is read in any order. -/
def Bus.publish (b : Bus) (evType : Bytes) (order : List ℕ) : Bus :=
  if b.closed then {b with calls := b.calls++[{type := evType,pc := .returned (some .closed)}]}
  else if order.Perm (b.matching evType) then
    {b with calls := b.calls++[{type := evType,selected := order,targets := order}]}
  else b

def Bus.setCall (b : Bus) (c : ℕ) (call : Call) : Bus := {b with calls := b.calls.set c call}

/-- A case of a `select`. -/
inductive Choice where
  | send
  | ctx
  | done
deriving DecidableEq, Repr

section
variable (b : Bus) (c : ℕ) (call : Call) (i : ℕ) (rest : List ℕ) (sub : Subscription)

/-- The event is put into the queue of the next target. -/
def Bus.send : Bus :=
  let ev : Event := ⟨c,call.seq,call.type⟩
  {b with
    subs := b.subs.set i {sub with queue := sub.queue++[ev],enqueued := sub.enqueued++[ev]}
    calls := b.calls.set c {call with targets := rest,pc := .delivered}}

/-- A `select` without default. A case that is not ready is not taken. -/
def Bus.select : Choice → Bus
  | .send => if sub.hasRoom then b.send c call i rest sub else b
  | .ctx => if call.expired then b.setCall c {call with pc := .returned (some .ctx)} else b
  | .done => if b.done then b.setCall c {call with pc := .returned (some .closed)} else b

/-- The oldest event is taken out of the queue. -/
def Bus.discard (ev : Event) (queue : List Event) : Bus :=
  {b with
    subs := b.subs.set i {sub with queue := queue,discarded := sub.discarded++[ev]}
    calls := b.calls.set c {call with pc := .dropping}}

/-- The operation of a call at its next target. -/
def Bus.atTarget (choice : Choice) : Pc → Bus
  | .sending =>
      match sub.policy with
      | .block => b.select c call i rest sub choice
      | .dropOldest =>
          if sub.hasRoom then b.send c call i rest sub
          else b.setCall c {call with pc := .makingRoom}
  | .makingRoom =>
      match sub.queue with
      | ev::queue => b.discard c call i sub ev queue
      | [] => b.setCall c {call with pc := .waiting}
  | .waiting => b.select c call i rest sub choice
  | _ => b

/-- The loop over the targets. -/
def Bus.atTargets (choice : Choice) : Bus :=
  match call.targets with
  | [] => if call.pc = .sending then b.setCall c {call with pc := .returned none} else b
  | i::rest =>
      match b.subs[i]? with
      | none => b
      | some sub => b.atTarget c call i rest sub choice call.pc

end

/-- The next operation of a call. -/
def Bus.advance (b : Bus) (c : ℕ) (choice : Choice) : Bus :=
  match b.calls[c]? with
  | none => b
  | some call =>
      match call.pc with
      | .numbering =>
          {b with
            seq := b.seq+1
            calls := b.calls.set c {call with seq := b.seq+1,pc := .counting}}
      | .counting =>
          {b with pubCnt := b.pubCnt+1,calls := b.calls.set c {call with pc := .sending}}
      | .dropping =>
          {b with dropCnt := b.dropCnt+1,calls := b.calls.set c {call with pc := .waiting}}
      | .delivered =>
          {b with delCnt := b.delCnt+1,calls := b.calls.set c {call with pc := .sending}}
      | _ => b.atTargets c call choice

/-! ### Workers and the rest -/

/-- The worker takes an event and calls the handler with it. -/
def Bus.take (b : Bus) (i : ℕ) : Bus :=
  match b.subs[i]? with
  | none => b
  | some sub =>
      match sub.worker,sub.queue with
      | .idle,ev::queue =>
          {b with
            subs := b.subs.set i
              {sub with queue := queue,handled := sub.handled++[ev],worker := .handling ev}}
      | _,_ => b

/-- What is not about queues. -/
def Bus.setSub (b : Bus) (i : ℕ) (f : Subscription → Subscription) : Bus :=
  {b with subs := b.subs.modify i f}

/-- `Unsubscribe` removes the subscription and then cancels it; `Close` sets a flag and empties the
map, closes a channel and then cancels. A handler returns or panics. -/
inductive Action where
  | subscribe (pattern : Bytes) (bufferSize : ℤ) (policy : Policy)
  | remove (i : ℕ)
  | cancel (i : ℕ)
  | publish (evType : Bytes) (order : List ℕ)
  | expire (c : ℕ)
  | advance (c : ℕ) (choice : Choice)
  | take (i : ℕ)
  | finish (i : ℕ) (panicked : Bool)
  | stop (i : ℕ)
  | close
  | closeDone
deriving DecidableEq, Repr

/-- The call that the action moves. -/
def Action.call? : Action → Option ℕ
  | .advance c _ => some c
  | _ => none

/-- The subscription that the action removes. -/
def Action.removed? : Action → Option ℕ
  | .remove i => some i
  | _ => none

def Bus.step (b : Bus) : Action → Bus
  | .subscribe pattern bufferSize policy =>
      match EventBus.subscribe b.closed pattern bufferSize policy with
      | .error _ => b
      | .ok sub => {b with subs := b.subs++[sub]}
  | .remove i => b.setSub i fun sub => {sub with registered := false}
  | .cancel i => b.setSub i fun sub => if sub.registered then sub else {sub with cancelled := true}
  | .publish evType order => b.publish evType order
  | .expire c => {b with calls := b.calls.modify c fun call => {call with expired := true}}
  | .advance c choice => b.advance c choice
  | .take i => b.take i
  | .finish i panicked =>
      match b.subs[i]? with
      | some sub =>
          match sub.worker with
          | .handling _ =>
              {b with
                subs := b.subs.set i {sub with worker := .idle}
                panics := if panicked then b.panics+1 else b.panics}
          | _ => b
      | none => b
  | .stop i => b.setSub i fun sub =>
      if sub.cancelled ∧ sub.worker = .idle then {sub with worker := .stopped} else sub
  | .close =>
      if b.closed then b
      else {b with closed := true,subs := b.subs.map fun sub => {sub with registered := false}}
  | .closeDone => if b.closed then {b with done := true} else b

/-- The next operations of a call, if it can send. -/
def advances (c n : ℕ) : List Action := List.replicate n (.advance c .send)

/-! ### What an action does -/

/-- Nothing has happened to the queue. -/
structure SameQueue (sub sub' : Subscription) : Prop where
  matches_eq : ∀ evType, sub'.matches evType = sub.matches evType
  policy : sub'.policy = sub.policy
  cap : sub'.cap = sub.cap
  queue : sub'.queue = sub.queue
  enqueued : sub'.enqueued = sub.enqueued
  handled : sub'.handled = sub.handled
  discarded : sub'.discarded = sub.discarded

/-- The call has not moved. -/
structure SameCall (call call' : Call) : Prop where
  type : call'.type = call.type
  seq : call'.seq = call.seq
  selected : call'.selected = call.selected
  targets : call'.targets = call.targets
  pc : call'.pc = call.pc

theorem SameQueue.refl (sub : Subscription) : SameQueue sub sub :=
  ⟨fun _ => rfl,rfl,rfl,rfl,rfl,rfl,rfl⟩

theorem SameCall.refl (call : Call) : SameCall call call := ⟨rfl,rfl,rfl,rfl,rfl⟩

/-- No queue and no call has moved, and only `remove` and `close` take a subscription away. -/
structure Unmoved (act : Action) (b b' : Bus) : Prop where
  subs : List.Forall₂ SameQueue b.subs b'.subs
  calls : List.Forall₂ SameCall b.calls b'.calls
  seq : b'.seq = b.seq
  delCnt : b'.delCnt = b.delCnt
  dropCnt : b'.dropCnt = b.dropCnt
  isOpen : b'.closed = false → b.closed = false
  stays : b'.closed = false → ∀ i sub sub', act ≠ .remove i → b.subs[i]? = some sub →
    b'.subs[i]? = some sub' → sub.registered = true → sub'.registered = true

theorem Unmoved.refl (act : Action) (b : Bus) : Unmoved act b b := by
  refine ⟨forall₂_refl .refl _,forall₂_refl .refl _,rfl,rfl,rfl,id,?_⟩
  intro _ i sub sub' _ hsub hsub' hregistered
  cases hsub.symm.trans hsub'
  exact hregistered

/-- The flags of the subscriptions have changed. -/
theorem Unmoved.relabel {act : Action} {b : Bus} {subs : List Subscription}
    (hsubs : List.Forall₂ SameQueue b.subs subs)
    (hstays : ∀ i sub sub', act ≠ .remove i → b.subs[i]? = some sub → subs[i]? = some sub' →
      sub.registered = true → sub'.registered = true) (panics : UInt64) :
    Unmoved act b {b with subs := subs,panics := panics} :=
  ⟨hsubs,forall₂_refl .refl _,rfl,rfl,rfl,id,fun _ => hstays⟩

/-- Where a call goes that puts nothing into a queue and takes nothing out of it. -/
inductive Goes (b : Bus) (call : Call) : Pc → Prop where
  | finishes : call.pc = .sending → call.targets = [] → Goes b call (.returned none)
  | full (i : ℕ) (rest : List ℕ) (sub : Subscription) : call.pc = .sending →
      call.targets = i::rest → b.subs[i]? = some sub → sub.policy = .dropOldest →
      Goes b call .makingRoom
  | empty (i : ℕ) (rest : List ℕ) (sub : Subscription) : call.pc = .makingRoom →
      call.targets = i::rest → b.subs[i]? = some sub → sub.queue = [] → Goes b call .waiting
  | gives (err : PublishError) : call.pc = .sending ∨ call.pc = .waiting →
      Goes b call (.returned (some err))

theorem Goes.running {b : Bus} {call : Call} {pc : Pc} (h : Goes b call pc) :
    call.pc ≠ .numbering ∧ call.pc.isReturned = false := by
  cases h with
  | gives err hpc => rcases hpc with hpc | hpc <;> simp [hpc,Pc.isReturned]
  | _ => simp [*,Pc.isReturned]

theorem Goes.uncounted {b : Bus} {call : Call} {pc : Pc} (h : Goes b call pc) :
    pc ≠ .dropping ∧ call.pc ≠ .dropping ∧ pc ≠ .delivered ∧ call.pc ≠ .delivered := by
  cases h with
  | gives err hpc => rcases hpc with hpc | hpc <;> simp [hpc]
  | _ => simp [*]

inductive Outcome (b : Bus) : Action → Bus → Prop where
  | quiet (act : Action) (b' : Bus) : Unmoved act b b' → Outcome b act b'
  | subscribes (pattern : Bytes) (bufferSize : ℤ) (policy : Policy) (sub : Subscription) :
      sub.registered = true → sub.queue = [] → sub.enqueued = [] → sub.handled = [] →
      sub.discarded = [] → 0 < sub.cap →
      Outcome b (.subscribe pattern bufferSize policy) {b with subs := b.subs++[sub]}
  | refuses (evType : Bytes) (order : List ℕ) : Outcome b (.publish evType order)
      {b with calls := b.calls++[{type := evType,pc := .returned (some .closed)}]}
  | publishes (evType : Bytes) (order : List ℕ) : b.closed = false →
      order.Perm (b.matching evType) → Outcome b (.publish evType order)
        {b with calls := b.calls++[{type := evType,selected := order,targets := order}]}
  | takes (i : ℕ) (sub : Subscription) (ev : Event) (queue : List Event) :
      b.subs[i]? = some sub → sub.queue = ev::queue → Outcome b (.take i)
        {b with
          subs := b.subs.set i
            {sub with queue := queue,handled := sub.handled++[ev],worker := .handling ev}}
  | numbers (c : ℕ) (choice : Choice) (call : Call) : b.calls[c]? = some call →
      call.pc = .numbering → Outcome b (.advance c choice)
        {b with
          seq := b.seq+1
          calls := b.calls.set c {call with seq := b.seq+1,pc := .counting}}
  | counts (c : ℕ) (choice : Choice) (call : Call) : b.calls[c]? = some call →
      call.pc = .counting → Outcome b (.advance c choice)
        {b with pubCnt := b.pubCnt+1,calls := b.calls.set c {call with pc := .sending}}
  | countsDrop (c : ℕ) (choice : Choice) (call : Call) : b.calls[c]? = some call →
      call.pc = .dropping → Outcome b (.advance c choice)
        {b with dropCnt := b.dropCnt+1,calls := b.calls.set c {call with pc := .waiting}}
  | countsDelivered (c : ℕ) (choice : Choice) (call : Call) : b.calls[c]? = some call →
      call.pc = .delivered → Outcome b (.advance c choice)
        {b with delCnt := b.delCnt+1,calls := b.calls.set c {call with pc := .sending}}
  | goes (c : ℕ) (choice : Choice) (call : Call) (pc : Pc) : b.calls[c]? = some call →
      Goes b call pc → Outcome b (.advance c choice) (b.setCall c {call with pc := pc})
  | sends (c : ℕ) (choice : Choice) (call : Call) (i : ℕ) (rest : List ℕ) (sub : Subscription) :
      b.calls[c]? = some call → call.pc = .sending ∨ call.pc = .waiting →
      call.targets = i::rest → b.subs[i]? = some sub → sub.hasRoom = true →
      Outcome b (.advance c choice) (b.send c call i rest sub)
  | discards (c : ℕ) (choice : Choice) (call : Call) (i : ℕ) (rest : List ℕ) (sub : Subscription)
      (ev : Event) (queue : List Event) : b.calls[c]? = some call → call.pc = .makingRoom →
      call.targets = i::rest → b.subs[i]? = some sub → sub.queue = ev::queue →
      Outcome b (.advance c choice) (b.discard c call i sub ev queue)

section
variable {b : Bus} {c : ℕ} {call : Call} {i : ℕ} {rest : List ℕ} {sub : Subscription}

theorem select_outcome (hcall : b.calls[c]? = some call)
    (hpc : call.pc = .sending ∨ call.pc = .waiting) (htargets : call.targets = i::rest)
    (hsub : b.subs[i]? = some sub) (choice : Choice) :
    Outcome b (.advance c choice) (b.select c call i rest sub choice) := by
  cases choice with
  | send =>
      dsimp only [Bus.select]
      split_ifs with hroom
      · exact .sends c _ call i rest sub hcall hpc htargets hsub hroom
      · exact .quiet _ b (.refl _ b)
  | ctx =>
      dsimp only [Bus.select]
      split_ifs
      · exact .goes c _ call _ hcall (.gives .ctx hpc)
      · exact .quiet _ b (.refl _ b)
  | done =>
      dsimp only [Bus.select]
      split_ifs
      · exact .goes c _ call _ hcall (.gives .closed hpc)
      · exact .quiet _ b (.refl _ b)

theorem atTarget_outcome (hcall : b.calls[c]? = some call) (htargets : call.targets = i::rest)
    (hsub : b.subs[i]? = some sub) (choice : Choice) :
    Outcome b (.advance c choice) (b.atTarget c call i rest sub choice call.pc) := by
  cases hpc : call.pc with
  | sending =>
      dsimp only [Bus.atTarget]
      cases hpolicy : sub.policy with
      | block => exact select_outcome hcall (.inl hpc) htargets hsub choice
      | dropOldest =>
          dsimp only
          split_ifs with hroom
          · exact .sends c _ call i rest sub hcall (.inl hpc) htargets hsub hroom
          · exact .goes c _ call _ hcall (.full i rest sub hpc htargets hsub hpolicy)
  | makingRoom =>
      dsimp only [Bus.atTarget]
      cases hqueue : sub.queue with
      | nil => exact .goes c _ call _ hcall (.empty i rest sub hpc htargets hsub hqueue)
      | cons ev queue => exact .discards c _ call i rest sub ev queue hcall hpc htargets hsub hqueue
  | waiting => exact select_outcome hcall (.inr hpc) htargets hsub choice
  | _ => exact .quiet _ b (.refl _ b)

theorem atTargets_outcome (hcall : b.calls[c]? = some call) (choice : Choice) :
    Outcome b (.advance c choice) (b.atTargets c call choice) := by
  unfold Bus.atTargets
  split
  next htargets =>
    split_ifs with hpc
    · exact .goes c _ call _ hcall (.finishes hpc htargets)
    · exact .quiet _ b (.refl _ b)
  next i rest htargets =>
    cases hsub : b.subs[i]? with
    | none => exact .quiet _ b (.refl _ b)
    | some sub => exact atTarget_outcome hcall htargets hsub choice

end

theorem advance_outcome (b : Bus) (c : ℕ) (choice : Choice) :
    Outcome b (.advance c choice) (b.advance c choice) := by
  unfold Bus.advance
  cases hcall : b.calls[c]? with
  | none => exact .quiet _ b (.refl _ b)
  | some call =>
      dsimp only
      cases hpc : call.pc with
      | numbering => exact .numbers c choice call hcall hpc
      | counting => exact .counts c choice call hcall hpc
      | dropping => exact .countsDrop c choice call hcall hpc
      | delivered => exact .countsDelivered c choice call hcall hpc
      | _ => exact atTargets_outcome hcall choice

theorem take_outcome (b : Bus) (i : ℕ) : Outcome b (.take i) (b.take i) := by
  unfold Bus.take
  cases hsub : b.subs[i]? with
  | none => exact .quiet _ b (.refl _ b)
  | some sub =>
      dsimp only
      split
      · exact .takes i sub _ _ hsub ‹_›
      · exact .quiet _ b (.refl _ b)

theorem subscribe_ok {closed : Bool} {pattern : Bytes} {bufferSize : ℤ} {policy : Policy}
    {sub : Subscription} (h : subscribe closed pattern bufferSize policy = .ok sub) :
    sub.registered = true ∧ sub.queue = [] ∧ sub.enqueued = [] ∧ sub.handled = [] ∧
      sub.discarded = [] ∧ 0 < sub.cap := by
  unfold subscribe at h
  split at h
  · cases h
  · split at h
    · cases h
    · cases h
      refine ⟨rfl,rfl,rfl,rfl,rfl,?_⟩
      dsimp only
      split <;> omega

theorem publish_outcome (b : Bus) (evType : Bytes) (order : List ℕ) :
    Outcome b (.publish evType order) (b.publish evType order) := by
  unfold Bus.publish
  split_ifs with hclosed horder
  · exact .refuses evType order
  · exact .publishes evType order (by simpa using hclosed) horder
  · exact .quiet _ b (.refl _ b)

theorem unmoved_setSub (act : Action) (b : Bus) (i : ℕ) (f : Subscription → Subscription)
    (hf : ∀ sub, SameQueue sub (f sub))
    (hstays : act = .remove i ∨ ∀ sub, sub.registered = true → (f sub).registered = true) :
    Unmoved act b (b.setSub i f) := by
  refine .relabel (forall₂_modify f hf .refl b.subs i) ?_ b.panics
  intro j sub sub' hact hsub hsub' hregistered
  rw [List.getElem?_modify,hsub] at hsub'
  cases hsub'
  split_ifs with hij
  · subst hij
    rcases hstays with hremove | hkeeps
    · exact (hact hremove).elim
    · exact hkeeps sub hregistered
  · exact hregistered

theorem finish_unmoved (b : Bus) (i : ℕ) (panicked : Bool) :
    Unmoved (.finish i panicked) b (b.step (.finish i panicked)) := by
  dsimp only [Bus.step]
  cases hsub : b.subs[i]? with
  | none => exact .refl _ b
  | some sub =>
      dsimp only
      split
      · have hsame : SameQueue sub {sub with worker := .idle} :=
          ⟨fun _ => rfl,rfl,rfl,rfl,rfl,rfl,rfl⟩
        refine .relabel (forall₂_set hsub hsame .refl) ?_ _
        intro j old new _ hold hnew hregistered
        rcases getElem?_set_cases hnew with ⟨rfl,rfl⟩ | ⟨_,hnew⟩
        · cases hsub.symm.trans hold
          exact hregistered
        · cases hold.symm.trans hnew
          exact hregistered
      · exact .refl _ b

theorem remove_unmoved (b : Bus) (i : ℕ) : Unmoved (.remove i) b (b.step (.remove i)) :=
  unmoved_setSub _ b i _ (fun _ => ⟨fun _ => rfl,rfl,rfl,rfl,rfl,rfl,rfl⟩) (.inl rfl)

theorem cancel_unmoved (b : Bus) (i : ℕ) : Unmoved (.cancel i) b (b.step (.cancel i)) := by
  apply unmoved_setSub
  · intro sub
    split_ifs
    · exact .refl sub
    · exact ⟨fun _ => rfl,rfl,rfl,rfl,rfl,rfl,rfl⟩
  · right
    intro sub hregistered
    rw [if_pos hregistered]
    exact hregistered

theorem stop_unmoved (b : Bus) (i : ℕ) : Unmoved (.stop i) b (b.step (.stop i)) := by
  apply unmoved_setSub
  · intro sub
    split_ifs
    · exact ⟨fun _ => rfl,rfl,rfl,rfl,rfl,rfl,rfl⟩
    · exact .refl sub
  · right
    intro sub hregistered
    split_ifs
    · exact hregistered
    · exact hregistered

theorem expire_unmoved (b : Bus) (c : ℕ) : Unmoved (.expire c) b (b.step (.expire c)) :=
  {Unmoved.refl (.expire c) b with
    calls := forall₂_modify _ (fun _ => ⟨rfl,rfl,rfl,rfl,rfl⟩) .refl _ c}

theorem close_unmoved (b : Bus) : Unmoved .close b (b.step .close) := by
  dsimp only [Bus.step]
  split_ifs
  · exact .refl _ b
  · exact ⟨forall₂_map _ (fun _ => ⟨fun _ => rfl,rfl,rfl,rfl,rfl,rfl,rfl⟩) _,
      forall₂_refl .refl _,rfl,rfl,rfl,nofun,nofun⟩

theorem closeDone_unmoved (b : Bus) : Unmoved .closeDone b (b.step .closeDone) := by
  dsimp only [Bus.step]
  split_ifs
  · exact {Unmoved.refl .closeDone b with subs := forall₂_refl .refl _}
  · exact .refl _ b

theorem subscribe_outcome (b : Bus) (pattern : Bytes) (bufferSize : ℤ) (policy : Policy) :
    Outcome b (.subscribe pattern bufferSize policy)
      (b.step (.subscribe pattern bufferSize policy)) := by
  dsimp only [Bus.step]
  cases hsub : EventBus.subscribe b.closed pattern bufferSize policy with
  | error err => exact .quiet _ b (.refl _ b)
  | ok sub =>
      obtain ⟨hregistered,hqueue,henqueued,hhandled,hdiscarded,hcap⟩ := subscribe_ok hsub
      exact .subscribes pattern bufferSize policy sub hregistered hqueue henqueued hhandled
        hdiscarded hcap

/-- Every action is one of these. -/
theorem step_outcome (b : Bus) (act : Action) : Outcome b act (b.step act) := by
  cases act with
  | subscribe pattern bufferSize policy => exact subscribe_outcome b pattern bufferSize policy
  | publish evType order => exact publish_outcome b evType order
  | advance c choice => exact advance_outcome b c choice
  | take i => exact take_outcome b i
  | finish i panicked => exact .quiet _ _ (finish_unmoved b i panicked)
  | remove i => exact .quiet _ _ (remove_unmoved b i)
  | cancel i => exact .quiet _ _ (cancel_unmoved b i)
  | stop i => exact .quiet _ _ (stop_unmoved b i)
  | expire c => exact .quiet _ _ (expire_unmoved b c)
  | close => exact .quiet _ _ (close_unmoved b)
  | closeDone => exact .quiet _ _ (closeDone_unmoved b)

/-! ### The targets of a call -/

theorem matching_nodup (b : Bus) (evType : Bytes) : (b.matching evType).Nodup :=
  List.nodup_range.filter _

theorem mem_matching {b : Bus} {evType : Bytes} {i : ℕ} (h : i ∈ b.matching evType) :
    ∃ sub, b.subs[i]? = some sub ∧ sub.registered = true ∧ sub.matches evType = true := by
  simp only [Bus.matching,List.mem_filter,Option.any_eq_true,Bool.and_eq_true] at h
  exact h.2

end BaturWhatsApi.EventBus
