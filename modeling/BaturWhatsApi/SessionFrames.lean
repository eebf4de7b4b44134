import BaturWhatsApi.NodeDecoder
import BaturWhatsApi.SessionSend

/-!
# Reader and consumer of a session

`serveFrames` and `frameConsumer` of `session/session.go` as two goroutines around a
queue of 64 frames. The reader puts a frame without waiting and drops it when the queue
is full. The consumer opens and decodes one frame at a time and waits in `dispatch` for
as long as the subscribers of the event bus please.

As long as no frame meets a full queue, the frames that were delivered are the opened
ones, the one in the consumer's hand, the queued ones and the one in the reader's hand.
-/
namespace BaturWhatsApi.SessionFrames
open ByteStrings TokenDictionary NodeModel NodeEncoder NodeDecoder NoiseCipher Runs

variable {N : NoiseSuite}

inductive Consumer where
  | waiting
  | holding (raw : Bytes)
  | dispatching
  | done
deriving DecidableEq, Repr

/-- `delivered`, `opened` and `dispatched` record what has happened. -/
structure Frames (N : NoiseSuite) where
  recv : Cipher N
  raw : Option Bytes := none
  frames : List Bytes := []
  consumer : Consumer := .waiting
  readerDone : Bool := false
  failed : Bool := false
  stopping : Bool := false
  delivered : List Bytes := []
  opened : List (UInt32 × Bytes) := []
  dispatched : List Node := []

inductive Event where
  | receiveBinary (raw : Bytes)
  | receiveError
  | put
  | take
  | openFrame
  | dispatchReturns
  | stop
  | leave
deriving DecidableEq, Repr

def queueSize : ℕ := 64

section
variable (inflate : Bytes → Except String Bytes) (dict : Dictionary)

/-- The consumer's work on one frame. -/
def Frames.consume (s : Frames N) (raw : Bytes) : Frames N :=
  let s' := {s with recv := (s.recv.open raw).2,opened := s.opened++[(s.recv.counter,raw)]}
  match (s.recv.open raw).1 with
  | none => {s' with consumer := .done,failed := true}
  | some plain =>
      match decode inflate dict plain with
      | .error _ => {s' with consumer := .waiting}
      | .ok node => {s' with consumer := .dispatching,dispatched := s.dispatched++[node]}

def Frames.step (s : Frames N) : Event → Frames N
  | .receiveBinary raw =>
      if s.readerDone || s.raw.isSome then s
      else {s with raw := some raw,delivered := s.delivered++[raw]}
  | .receiveError =>
      if s.readerDone || s.raw.isSome then s
      else {s with readerDone := true,failed := s.failed || !s.stopping}
  | .put =>
      match s.raw with
      | none => s
      | some raw =>
          if s.frames.length < queueSize then {s with raw := none,frames := s.frames++[raw]}
          else {s with raw := none}
  | .take =>
      match s.consumer,s.frames with
      | .waiting,raw::frames => {s with consumer := .holding raw,frames := frames}
      | _,_ => s
  | .openFrame =>
      match s.consumer with
      | .holding raw => s.consume inflate dict raw
      | _ => s
  | .dispatchReturns => if s.consumer = .dispatching then {s with consumer := .waiting} else s
  | .stop => {s with stopping := true}
  | .leave => if s.stopping ∧ s.consumer = .waiting then {s with consumer := .done} else s

/-- The reader finds room in the queue. -/
def Frames.Roomy (s : Frames N) : Event → Prop
  | .put => s.frames.length < queueSize
  | _ => True

/-! ### What was delivered is what was opened -/

def nodeOf (c : Cipher N) (raw : Bytes) : Option Node :=
  (c.open raw).1.bind fun plain => (decode inflate dict plain).toOption

/-- The decodable ones of the frames, opened one after the other. -/
def nodesOf : Cipher N → List Bytes → List Node
  | _,[] => []
  | c,raw::raws => (nodeOf inflate dict c raw).toList++nodesOf (c.open raw).2 raws

theorem nodesOf_append (c : Cipher N) (raws : List Bytes) (raw : Bytes) :
    nodesOf inflate dict c (raws++[raw]) =
      nodesOf inflate dict c raws++(nodeOf inflate dict (c.later raws.length) raw).toList := by
  induction raws generalizing c with
  | nil => simp only [nodesOf,List.nil_append,List.append_nil,List.length_nil,Cipher.later_zero]
  | cons r raws ih =>
      have hnext : (c.open r).2.later raws.length = c.later (raws.length+1) := c.later_next _
      rw [List.cons_append,nodesOf,nodesOf,ih,hnext,List.append_assoc,List.length_cons]

def Consumer.hand : Consumer → List Bytes
  | .holding raw => [raw]
  | _ => []

/-- Nothing is lost, every frame is opened with its own number, and the nodes of the opened
frames are dispatched once and in order. -/
structure InOrder (c : Cipher N) (s : Frames N) : Prop where
  frames : s.delivered = s.opened.map Prod.snd++s.consumer.hand++s.frames++s.raw.toList
  counters : s.opened.map Prod.fst = (List.range s.opened.length).map fun k => (c.later k).counter
  dispatched : s.dispatched = nodesOf inflate dict c (s.opened.map Prod.snd)

structure Frames.Inv (c : Cipher N) (s : Frames N) : Prop extends InOrder inflate dict c s where
  recv : s.recv = c.later s.opened.length
  running : s.consumer = .done → s.failed = true ∨ s.stopping = true

variable {inflate dict} {c : Cipher N} {s : Frames N}

/-- A frame has been opened; `x`, `nodes` and `b` are what became of it. -/
theorem Frames.Inv.opens (h : s.Inv inflate dict c) {raw : Bytes} {x : Consumer} {nodes : List Node}
    {b : Bool} (hraw : s.consumer = .holding raw) (hhand : x.hand = [])
    (hnodes : nodes = s.dispatched++(nodeOf inflate dict s.recv raw).toList)
    (hrunning : x = .done → b = true ∨ s.stopping = true) :
    Frames.Inv inflate dict c {s with
      recv := (s.recv.open raw).2
      opened := s.opened++[(s.recv.counter,raw)]
      consumer := x
      failed := b
      dispatched := nodes} := by
  have hmap : (s.opened++[(s.recv.counter,raw)]).map Prod.snd = s.opened.map Prod.snd++[raw] := by
    rw [List.map_append]
    rfl
  refine ⟨⟨?_,?_,?_⟩,?_,hrunning⟩
  · show s.delivered = _
    rw [h.frames,hraw,hmap,hhand,List.append_nil]
    rfl
  · show (s.opened++[(s.recv.counter,raw)]).map Prod.fst = _
    rw [List.map_append,h.counters,List.length_append,List.length_singleton,List.range_succ,
      List.map_append,h.recv]
    rfl
  · show nodes = _
    rw [hnodes,hmap,nodesOf_append,List.length_map,← h.recv,← h.dispatched]
  · show (s.recv.open raw).2 = _
    rw [List.length_append,h.recv]
    exact c.later_seal _ raw

theorem Frames.Inv.consume (h : s.Inv inflate dict c) {raw : Bytes}
    (hraw : s.consumer = .holding raw) : (s.consume inflate dict raw).Inv inflate dict c := by
  unfold Frames.consume
  dsimp only
  split
  · rename_i hopen
    apply h.opens hraw rfl _ (fun _ => .inl rfl)
    rw [nodeOf,hopen]
    exact (List.append_nil _).symm
  · rename_i plain hopen
    split
    · rename_i hdecode
      refine h.opens (x := .waiting) hraw rfl ?_ (fun hx => (nomatch hx))
      rw [nodeOf,hopen,Option.bind_some,hdecode]
      exact (List.append_nil _).symm
    · rename_i node hdecode
      refine h.opens (x := .dispatching) hraw rfl ?_ (fun hx => (nomatch hx))
      rw [nodeOf,hopen,Option.bind_some,hdecode]
      rfl

theorem Frames.Inv.put (h : s.Inv inflate dict c) (hroom : s.frames.length < queueSize) :
    (s.step inflate dict .put).Inv inflate dict c := by
  dsimp only [Frames.step]
  split
  · exact h
  · rename_i raw hraw
    rw [if_pos hroom]
    refine ⟨⟨?_,h.counters,h.dispatched⟩,h.recv,h.running⟩
    show s.delivered = _
    rw [h.frames,hraw]
    simp only [Option.toList_some,Option.toList_none,List.append_nil,List.append_assoc]

theorem Frames.Inv.take (h : s.Inv inflate dict c) :
    (s.step inflate dict .take).Inv inflate dict c := by
  dsimp only [Frames.step]
  split
  · rename_i raw frames hconsumer hframes
    refine ⟨⟨?_,h.counters,h.dispatched⟩,h.recv,fun hx => (nomatch hx)⟩
    show s.delivered = _
    rw [h.frames,hframes,hconsumer]
    simp only [Consumer.hand,List.append_nil,List.append_assoc,List.cons_append,List.nil_append]
  · exact h

theorem Frames.Inv.step (h : s.Inv inflate dict c) (ev : Event) (hroom : s.Roomy ev) :
    (s.step inflate dict ev).Inv inflate dict c := by
  cases ev with
  | receiveBinary raw =>
      dsimp only [Frames.step]
      split
      · exact h
      · rename_i hfree
        have hraw : s.readerDone = false ∧ s.raw = none := by simpa using hfree
        refine ⟨⟨?_,h.counters,h.dispatched⟩,h.recv,h.running⟩
        show s.delivered++[raw] = _
        rw [h.frames,hraw.2]
        simp only [Option.toList_some,Option.toList_none,List.append_nil]
  | receiveError =>
      dsimp only [Frames.step]
      split
      · exact h
      · refine ⟨⟨h.frames,h.counters,h.dispatched⟩,h.recv,fun hx => ?_⟩
        exact (h.running hx).imp (fun hf => by rw [hf]; rfl) id
  | put => exact h.put hroom
  | take => exact h.take
  | openFrame =>
      dsimp only [Frames.step]
      split
      · rename_i hraw
        exact h.consume hraw
      · exact h
  | dispatchReturns =>
      dsimp only [Frames.step]
      split
      · rename_i hconsumer
        refine ⟨⟨?_,h.counters,h.dispatched⟩,h.recv,fun hx => (nomatch hx)⟩
        have hframes := h.frames
        rw [hconsumer] at hframes
        exact hframes
      · exact h
  | stop => exact ⟨⟨h.frames,h.counters,h.dispatched⟩,h.recv,fun _ => .inr rfl⟩
  | leave =>
      dsimp only [Frames.step]
      split
      · rename_i hconsumer
        refine ⟨⟨?_,h.counters,h.dispatched⟩,h.recv,fun _ => .inr hconsumer.1⟩
        have hframes := h.frames
        rw [hconsumer.2] at hframes
        exact hframes
      · exact h

/-! ### The consumer gets through -/

def Event.ofConsumer : Event → Bool
  | .take => true
  | .openFrame => true
  | .dispatchReturns => true
  | _ => false

/-- The reader's side is as it was. -/
structure SameInput (s t : Frames N) : Prop where
  delivered : t.delivered = s.delivered
  raw : t.raw = s.raw
  frames : t.frames = s.frames

theorem consume_outcome (inflate : Bytes → Except String Bytes) (dict : Dictionary) (s : Frames N)
    (raw : Bytes) :
    let t := s.consume inflate dict raw
    SameInput s t ∧ (t.failed = true ∨ t.consumer = .waiting ∨ t.consumer = .dispatching) := by
  unfold Frames.consume
  dsimp only
  split
  · exact ⟨⟨rfl,rfl,rfl⟩,.inl rfl⟩
  · split
    · exact ⟨⟨rfl,rfl,rfl⟩,.inr (.inl rfl)⟩
    · exact ⟨⟨rfl,rfl,rfl⟩,.inr (.inr rfl)⟩

/-- The consumer comes back to its channel, or the session fails. -/
theorem consumer_returns (inflate : Bytes → Except String Bytes) (dict : Dictionary) (s : Frames N)
    (hrunning : s.consumer ≠ .done) :
    ∃ evs, (∀ ev ∈ evs, Event.ofConsumer ev = true) ∧
      let t := run (Frames.step inflate dict) evs s
      SameInput s t ∧ (t.failed = true ∨ t.consumer = .waiting) := by
  have hreturns : ∀ t : Frames N, t.consumer = .dispatching →
      t.step inflate dict .dispatchReturns = {t with consumer := .waiting} := by
    intro t ht
    rw [Frames.step,if_pos ht]
  cases hconsumer : s.consumer with
  | waiting => exact ⟨[],fun _ h => (nomatch h),⟨rfl,rfl,rfl⟩,.inr hconsumer⟩
  | dispatching =>
      refine ⟨[.dispatchReturns],by simp [Event.ofConsumer],?_⟩
      dsimp only [run,List.foldl]
      rw [hreturns s hconsumer]
      exact ⟨⟨rfl,rfl,rfl⟩,.inr rfl⟩
  | done => exact absurd hconsumer hrunning
  | holding raw =>
      have hopen : s.step inflate dict .openFrame = s.consume inflate dict raw := by
        rw [Frames.step,hconsumer]
      obtain ⟨hsame,hend⟩ := consume_outcome inflate dict s raw
      by_cases hdispatch : (s.consume inflate dict raw).consumer = .dispatching
      · refine ⟨[.openFrame,.dispatchReturns],by simp [Event.ofConsumer],?_⟩
        dsimp only [run,List.foldl]
        rw [hopen,hreturns _ hdispatch]
        exact ⟨⟨hsame.delivered,hsame.raw,hsame.frames⟩,.inr rfl⟩
      · refine ⟨[.openFrame],by simp [Event.ofConsumer],?_⟩
        dsimp only [run,List.foldl]
        rw [hopen]
        exact ⟨hsame,hend.imp_right fun h => h.resolve_right hdispatch⟩

/-- Left to itself the consumer empties the queue, or the session fails. -/
theorem consumer_drains (inflate : Bytes → Except String Bytes) (dict : Dictionary) (s : Frames N)
    (hrunning : s.consumer ≠ .done) :
    ∃ evs, (∀ ev ∈ evs, Event.ofConsumer ev = true) ∧
      let t := run (Frames.step inflate dict) evs s
      t.failed = true ∨ (t.delivered = s.delivered ∧ t.raw = s.raw ∧ t.consumer = .waiting ∧
        t.frames = []) := by
  induction hframes : s.frames generalizing s with
  | nil =>
      obtain ⟨evs,hevs,hsame,hend⟩ := consumer_returns inflate dict s hrunning
      refine ⟨evs,hevs,hend.imp_right fun hwait => ?_⟩
      exact ⟨hsame.delivered,hsame.raw,hwait,hsame.frames.trans hframes⟩
  | cons raw frames ih =>
      obtain ⟨evs,hevs,hsame,hend⟩ := consumer_returns inflate dict s hrunning
      rcases hend with hfail | hwait
      · exact ⟨evs,hevs,.inl hfail⟩
      · have htake : (run (Frames.step inflate dict) evs s).step inflate dict .take =
            {run (Frames.step inflate dict) evs s with
              consumer := .holding raw,frames := frames} := by
          rw [Frames.step,hwait,hsame.frames,hframes]
        obtain ⟨evs',hevs',hend'⟩ := ih ((run (Frames.step inflate dict) evs s).step inflate dict
          .take) (by rw [htake]; exact fun hx => (nomatch hx)) (by rw [htake])
        refine ⟨evs++.take::evs',?_,?_⟩
        · intro ev hev
          rcases List.mem_append.mp hev with hev | hev
          · exact hevs ev hev
          · rcases List.mem_cons.mp hev with rfl | hev
            · rfl
            · exact hevs' ev hev
        · have hdelivered : ((run (Frames.step inflate dict) evs s).step inflate dict
              .take).delivered = s.delivered := by
            rw [htake]
            exact hsame.delivered
          have hraw : ((run (Frames.step inflate dict) evs s).step inflate dict .take).raw =
              s.raw := by
            rw [htake]
            exact hsame.raw
          rw [run_append]
          refine hend'.imp_right fun hrest => ?_
          exact ⟨hrest.1.trans hdelivered,hrest.2.1.trans hraw,hrest.2.2⟩

theorem along_ofConsumer {evs : List Event} (h : ∀ ev ∈ evs, Event.ofConsumer ev = true)
    (s : Frames N) : Along (Frames.step inflate dict) Frames.Roomy evs s := by
  induction evs generalizing s with
  | nil => trivial
  | cons ev evs ih =>
      obtain ⟨hev,hevs⟩ := List.forall_mem_cons.mp h
      refine ⟨?_,ih hevs _⟩
      cases ev <;> trivial

end

def connected (key : N.Secret) : Frames N := {recv := newCipher key}

theorem inv_connected (inflate : Bytes → Except String Bytes) (dict : Dictionary) (key : N.Secret) :
    (connected key).Inv inflate dict (newCipher key) :=
  ⟨⟨rfl,rfl,rfl⟩,(Cipher.later_zero _).symm,fun h => (nomatch h)⟩

/-- Every delivered frame is opened under its own number and dispatched in its place, if no
frame meets a full queue. -/
theorem frames_opened_in_order (inflate : Bytes → Except String Bytes) (dict : Dictionary)
    (key : N.Secret) (evs : List Event)
    (h : Along (Frames.step inflate dict) Frames.Roomy evs (connected key)) :
    let s := run (Frames.step inflate dict) evs (connected key)
    InOrder inflate dict (newCipher key) s ∧
    (s.failed = false → s.stopping = false →
      ∃ evs', (∀ ev ∈ evs', Event.ofConsumer ev = true) ∧
        let t := run (Frames.step inflate dict) evs' s
        InOrder inflate dict (newCipher key) t ∧
        (t.failed = true ∨ s.delivered = t.opened.map Prod.snd++s.raw.toList)) := by
  intro s
  have hinv : s.Inv inflate dict (newCipher key) :=
    h.invariant (fun _ ev hI hP => hI.step ev hP) (inv_connected inflate dict key)
  refine ⟨hinv.toInOrder,fun hfailed hstopping => ?_⟩
  have hrunning : s.consumer ≠ .done := by
    intro hdone
    rcases hinv.running hdone with hf | hf
    · cases hfailed.symm.trans hf
    · cases hstopping.symm.trans hf
  obtain ⟨evs',hevs',hend⟩ := consumer_drains inflate dict s hrunning
  have hinv' := (along_ofConsumer hevs' s).invariant (fun _ ev hI hP => hI.step ev hP) hinv
  refine ⟨evs',hevs',hinv'.toInOrder,hend.imp_right fun hrest => ?_⟩
  obtain ⟨hdelivered,hraw,hwait,hempty⟩ := hrest
  rw [← hdelivered,hinv'.frames,hwait,hempty,hraw]
  simp only [Consumer.hand,List.append_nil]

/-! The server of the sample sends a node and then frames that do not decode. -/

instance (s : Frames N) (ev : Event) : Decidable (s.Roomy ev) := by
  unfold Frames.Roomy
  cases ev <;> infer_instance

def serverFrame (k : ℕ) : Bytes :=
  (((newCipher (N := symbolic) .nil).later k).seal
    (if k = 0 then marshalDict SessionSend.ping SessionSend.noTokens else [])).1

def sampleStep : Frames symbolic → Event → Frames symbolic :=
  Frames.step (fun _ => .error "") SessionSend.noTokens

def delivery (k : ℕ) : List Event := [.receiveBinary (serverFrame k),.put]

def sampleRun : List Event := delivery 0++[.take]++delivery 1++[.openFrame]

theorem frames_opened_in_order_sample :
    let s := run sampleStep sampleRun (connected (N := symbolic) .nil)
    InOrder (fun _ => .error "") SessionSend.noTokens (newCipher (N := symbolic) .nil) s ∧
    s.opened = [(0,serverFrame 0)] ∧ s.frames = [serverFrame 1] ∧ s.dispatched.length = 1 :=
  ⟨(frames_opened_in_order (N := symbolic) (fun _ => .error "") SessionSend.noTokens .nil sampleRun
    (by decide +kernel)).1,by decide +kernel⟩

/-- A subscriber holds the consumer in the first frame while 65 more come in. Then the consumer
goes on, one more frame comes in, and the consumer works on the queue. -/
def slowSubscriber : List Event :=
  delivery 0++[.take,.openFrame]++(List.range 65).flatMap (fun k => delivery (k+1))++
    [.dispatchReturns,.take,.openFrame]++delivery 66++
    (List.range 63).flatMap (fun _ => [.take,.openFrame])++[.take]

/-- The session has not failed, and the next frame to be opened is not the next one that was
delivered. -/
theorem frame_lost :
    let s := run sampleStep slowSubscriber (connected (N := symbolic) .nil)
    s.failed = false ∧ s.stopping = false ∧ s.opened.length = 65 ∧
    s.consumer = .holding (serverFrame 66) ∧ s.delivered[65]? = some (serverFrame 65) ∧
    serverFrame 65 ≠ serverFrame 66 := by
  decide +kernel

end BaturWhatsApi.SessionFrames
