import BaturWhatsApi.SocketLink

/-!
# Delivery over two WebSocket connections

The two ends of a wire on which nobody closes and no write fails, but on which writes take
time: `writeFrame` holds `writeMu` until the network has taken the frame, and a frame that
does not fit into its buffers is only taken when the peer reads. The read loop answers pings
under the same lock, and reads nothing meanwhile.

When one of the ends sends no pings, every message that was sent is received and every write
returns, also when the channels of the loops were full. When both ends send pings, each loop
can wait for a writer that waits for the other loop, and then nothing happens any more.
-/
namespace BaturWhatsApi.SocketDelivery
open ByteStrings PositionalReaders PositionalReaders.Reader WebSocketFrames SocketLink Runs
open SessionSend (maxFrameSize)
open WebSocketMessages hiding Event
open SocketLink hiding Act Event

/-! ### Writers that hold the lock -/

/-- The loop reads, waits for `writeMu` with the payload of a ping, or writes the answer to it. -/
inductive Loop where
  | reads
  | asked (payload : Bytes)
  | answers
deriving DecidableEq

/-- The loop after the write of an end has returned. -/
def Loop.returned : Loop → Loop
  | .answers => .reads
  | loop => loop

/-- One end. It is `locked` while a goroutine is in `nc.Write`. The frame of that goroutine counts
as written and its message as sent, and the peer reads of it what has arrived. -/
structure Side where
  socket : Socket
  loop : Loop := .reads
  locked : Bool := false

/-- The beginning of `writeFrame`, for which `writeMu` has to be free. -/
def Side.writeFrame (s : Side) (key : Vector UInt8 4) (opcode : UInt8) (payload : Bytes) :
    Option Side :=
  if s.locked then none
  else
    match s.socket.writeFrame (some key) opcode payload .whole with
    | (.ok _,socket) => some {s with socket := socket,locked := true}
    | (.error _,_) => none

def Side.send (s : Side) (kind : Kind) (payload : Bytes) (key : Vector UInt8 4) : Side :=
  match s.writeFrame key kind.opcode payload with
  | some s => {s with socket := {s.socket with sent := s.socket.sent++message kind.opcode payload}}
  | none => s

/-- The loop reads a frame from the bytes that have arrived, or waits for the rest of it. -/
def Side.read (s peer : Side) (arrived : ℕ) : Side :=
  let stream := (peer.socket.written.drop s.socket.consumed).take arrived
  if s.loop = .reads ∧ s.socket.conn.reading = true then
    match readFrame s.socket.conn.client stream 0 with
    | .error e =>
        if misses e then s
        else {s with socket := {s.socket with conn := s.socket.conn.step (.read stream true)}}
    | .ok (f,n) =>
        {s with
          socket := {s.socket with
            conn := s.socket.conn.step (.read stream true)
            consumed := s.socket.consumed+n}
          loop := if f.opcode = 0x9 then .asked f.payload else .reads}
  else s

def Side.answer (s : Side) (key : Vector UInt8 4) : Side :=
  match s.loop with
  | .asked payload =>
      match s.writeFrame key 0xA payload with
      | some s => {s with loop := .answers}
      | none => s
  | _ => s

/-- `nc.Write` returns, because the buffers have room for the rest of the frame or because the peer
has read all of it. The lock is given back. -/
def Side.done (s peer : Side) (room : Bool) : Side :=
  if s.locked && (room || peer.socket.consumed == s.socket.written.length) then
    {s with locked := false,loop := s.loop.returned}
  else s

inductive Act where
  | send (kind : Kind) (payload : Bytes) (key : Vector UInt8 4)
  | read (arrived : ℕ)
  | answer (key : Vector UInt8 4)
  | done (room : Bool)
  | put
  | receive

def Side.act (s peer : Side) : Act → Side
  | .send kind payload key => s.send kind payload key
  | .read arrived => s.read peer arrived
  | .answer key => s.answer key
  | .done room => s.done peer room
  | .put => {s with socket := {s.socket with conn := s.socket.conn.step .put}}
  | .receive => {s with socket := {s.socket with conn := s.socket.conn.step .receive}}

/-- The two ends, by their roles. -/
abbrev Pair := Bool → Side

def Pair.start : Pair := fun client => {socket := {conn := {client := client}}}

structure Event where
  client : Bool
  act : Act

def Pair.step (l : Pair) (ev : Event) : Pair :=
  Function.update l ev.client ((l ev.client).act (l !ev.client) ev.act)

def Act.sends : Act → Bool
  | .send _ _ _ => true
  | _ => false

def Act.pings : Act → Bool
  | .send kind _ _ => kind = .ping
  | _ => false

/-! ### What an end can do -/

structure Opened (s : Socket) : Prop where
  socket : s.ncClosed = false
  running : s.conn.ended = none
  staying : s.conn.left = false

/-- The frames that `send` and the answers to pings write. -/
def Ordinary (o : Outgoing) : Prop :=
  o.opcode = 0x1 ∨ o.opcode = 0x2 ∨ o.opcode = 0x9 ∨ o.opcode = 0xA

/-- The wire of one direction holds whole frames, the first ones of which have been read. -/
structure Flows (w r : Socket) (os : List Outgoing) (k : ℕ) : Prop where
  wrote : w.Wrote os []
  took : r.Took w.conn.client os k
  ordinary : ∀ o ∈ os, Ordinary o

/-- A frame in one piece only leaves its message to be put into the channel. -/
theorem handle_ordinary {c : Conn} {o : Outgoing} (ho : Ordinary o) :
    ∃ pending, (o.opcode = 0x9 → pending = c.pending) ∧ c.handle o.frame true = {c with
      inbound := c.inbound++[o.frame]
      pending := pending} := by
  have hdata : o.opcode = 0x1 ∨ o.opcode = 0x2 →
      ∃ pending, (o.opcode = 0x9 → pending = c.pending) ∧ c.handle o.frame true = {c with
        inbound := c.inbound++[o.frame]
        pending := pending} := by
    intro hdata
    have h₀ : o.frame.opcode ≠ 0x0 := by
      intro h₀
      have hzero : o.opcode = 0x0 := h₀
      simp [hzero] at hdata
    rw [Conn.handle_data (.inr hdata),Conn.data_begin h₀]
    refine ⟨_,fun hping => ?_,rfl⟩
    simp [hping] at hdata
  rcases ho with h | h | h | h
  · exact hdata (.inl h)
  · exact hdata (.inr h)
  · exact ⟨c.pending,fun _ => rfl,by simp [Conn.handle,Outgoing.frame,h]⟩
  · exact ⟨c.pending,fun _ => rfl,by simp [Conn.handle,Outgoing.frame,h]⟩

/-- A write begins with a free lock, and its frame is appended to the wire. -/
theorem writeFrame_begins {s s' : Side} {key : Vector UInt8 4} {opcode : UInt8}
    (hop : opcode < 16) {payload : Bytes} (h : s.writeFrame key opcode payload = some s') :
    s.locked = false ∧ ∃ o : Outgoing, o.opcode = opcode ∧ o.payload = payload ∧ s' = {s with
      socket := {s.socket with written := s.socket.written++o.block s.socket.conn.client}
      locked := true} := by
  unfold Side.writeFrame at h
  split_ifs at h with hlocked
  refine ⟨Bool.eq_false_of_not_eq_true hlocked,?_⟩
  have hwrites := writeFrame_writes s.socket (some key) opcode hop payload .whole
  generalize s.socket.writeFrame (some key) opcode payload .whole = res at h hwrites
  cases hwrites with
  | refused e => cases h
  | written o socket hop hpayload hwrites =>
      cases hwrites with
      | whole => exact ⟨o,hop,hpayload,(Option.some.inj h).symm⟩
  | failed o socket hwrites => cases h

/-- A payload that has come in a frame is not too large to be sent back. -/
theorem writeFrame_free {s : Side} (hopen : s.socket.ncClosed = false) (hfree : s.locked = false)
    (key : Vector UInt8 4) {payload : Bytes} (hlen : payload.length ≤ maxFrameSize) (opcode : UInt8)
    (hop : opcode < 16) : ∃ s', s.writeFrame key opcode payload = some s' := by
  let o : Outgoing := ⟨opcode,payload,key.toList,hop,hlen,key.length_toList⟩
  have hblock : WebSocketFrames.writeFrame s.socket.conn.client (maskKey (some key)) opcode
      payload = .ok (o.block s.socket.conn.client) := writeFrame_block s.socket.conn.client o
  simp only [Side.writeFrame,hfree,Socket.writeFrame,hblock,Socket.write,hopen,Bool.false_eq_true,
    if_false]
  exact ⟨_,rfl⟩

/-- What an act changes, with the frames that it appends to the wire and the frames of the other
direction that have been read after it. -/
inductive Side.Does (s : Side) (client : Bool) (os : List Outgoing) (k : ℕ) :
    Act → List Outgoing → ℕ → Side → Prop where
  | send (kind : Kind) (payload : Bytes) (key : Vector UInt8 4) (o : Outgoing)
      (hop : o.opcode = kind.opcode) :
      s.Does client os k (.send kind payload key) [o] k {s with
        socket := {s.socket with
          written := s.socket.written++o.block s.socket.conn.client
          sent := s.socket.sent++message o.opcode o.payload}
        locked := true}
  | read (arrived : ℕ) (o : Outgoing) (ho : os[k]? = some o) (hloop : s.loop = .reads)
      (hreading : s.socket.conn.reading = true) (pending : Option Bytes)
      (hping : o.opcode = 0x9 → pending = s.socket.conn.pending)
      (hhandle : s.socket.conn.handle o.frame true =
        {s.socket.conn with inbound := s.socket.conn.inbound++[o.frame],pending := pending}) :
      s.Does client os k (.read arrived) [] (k+1) {s with
        socket := {s.socket with
          conn := {s.socket.conn with
            inbound := s.socket.conn.inbound++[o.frame],pending := pending}
          consumed := s.socket.consumed+(o.block client).length}
        loop := if o.opcode = 0x9 then .asked o.payload else .reads}
  | answer (key : Vector UInt8 4) (payload : Bytes) (o : Outgoing) (hop : o.opcode = 0xA)
      (hloop : s.loop = .asked payload) (hfree : s.locked = false) :
      s.Does client os k (.answer key) [o] k {s with
        socket := {s.socket with written := s.socket.written++o.block s.socket.conn.client}
        loop := .answers
        locked := true}
  | done (room : Bool) (hlocked : s.locked = true) :
      s.Does client os k (.done room) [] k {s with
        locked := false,loop := s.loop.returned}
  | put (msg : Bytes) (hpend : s.socket.conn.pending = some msg) :
      s.Does client os k .put [] k {s with
        socket := {s.socket with
          conn := {s.socket.conn with pending := none,frames := s.socket.conn.frames++[msg]}}}
  | receive (msg : Bytes) (frames : List Bytes) (hframes : s.socket.conn.frames = msg::frames) :
      s.Does client os k .receive [] k {s with
        socket := {s.socket with
          conn := {s.socket.conn with
            frames := frames,received := s.socket.conn.received++[msg]}}}

section
variable {s peer : Side} {os : List Outgoing} {k : ℕ}

theorem read_does (hs : Opened s.socket) (hf : Flows peer.socket s.socket os k) (arrived : ℕ) :
    (s.read peer arrived = s ∧ (s.loop = .reads → s.socket.conn.pending = none → ∀ o,
      os[k]? = some o → arrived < (o.block peer.socket.conn.client).length)) ∨
    s.Does peer.socket.conn.client os k (.read arrived) [] (k+1) (s.read peer arrived) := by
  unfold Side.read
  dsimp only
  split_ifs with hreads
  · obtain ⟨hloop,hreading⟩ := hreads
    have hfinds := readFrame_finds hf.wrote hf.took hs.running arrived
    generalize (peer.socket.written.drop s.socket.consumed).take arrived = stream at hfinds ⊢
    generalize hread : readFrame s.socket.conn.client stream 0 = found at hfinds ⊢
    cases hfinds with
    | waits e he hshort =>
        dsimp only
        rw [if_pos he]
        exact .inl ⟨rfl,fun _ _ => hshort⟩
    | close rest htail => cases htail
    | frame o ho =>
        obtain ⟨pending,hping,hhandle⟩ := handle_ordinary (c := s.socket.conn)
          (hf.ordinary o (List.mem_of_getElem? ho))
        dsimp only
        rw [step_read_ok hreading hread,hhandle]
        exact .inr (.read arrived o ho hloop hreading pending hping hhandle)
  · refine .inl ⟨rfl,fun hloop hpend => absurd ⟨hloop,?_⟩ hreads⟩
    exact Conn.reading_iff.mpr ⟨hs.running,hs.staying,hpend⟩

/-- An act changes nothing or does what it is for. -/
theorem act_does (hs : Opened s.socket) (hf : Flows peer.socket s.socket os k) (act : Act) :
    s.act peer act = s ∨ ∃ more k',
      s.Does peer.socket.conn.client os k act more k' (s.act peer act) := by
  cases act with
  | send kind payload key =>
      dsimp only [Side.act,Side.send]
      cases hwrite : s.writeFrame key kind.opcode payload with
      | none => exact .inl rfl
      | some s' =>
          obtain ⟨_,o,hop,hpayload,rfl⟩ :=
            writeFrame_begins (by cases kind <;> decide) hwrite
          rw [← hop,← hpayload]
          exact .inr ⟨[o],k,.send kind _ key o hop⟩
  | read arrived =>
      rcases read_does hs hf arrived with ⟨hsame,_⟩ | hdoes
      · exact .inl hsame
      · exact .inr ⟨[],k+1,hdoes⟩
  | answer key =>
      dsimp only [Side.act,Side.answer]
      split
      · rename_i payload hloop
        cases hwrite : s.writeFrame key 0xA payload with
        | none => exact .inl rfl
        | some s' =>
            obtain ⟨hfree,o,hop,_,rfl⟩ := writeFrame_begins (by decide) hwrite
            exact .inr ⟨[o],k,.answer key payload o hop hloop hfree⟩
      · exact .inl rfl
  | done room =>
      dsimp only [Side.act,Side.done]
      split_ifs with hreturns
      · exact .inr ⟨[],k,.done room (Bool.and_eq_true_iff.mp hreturns).1⟩
      · exact .inl rfl
  | put =>
      dsimp only [Side.act,Conn.step]
      split
      · rename_i msg hpend
        split_ifs
        · exact .inr ⟨[],k,.put msg hpend⟩
        · exact .inl rfl
      · exact .inl rfl
  | receive =>
      dsimp only [Side.act,Conn.step]
      split
      · rename_i msg frames hframes
        exact .inr ⟨[],k,.receive msg frames hframes⟩
      · exact .inl rfl

end

/-! ### Ends that stay open -/

/-- Both directions flow, and the end `a` has sent no ping. `os` are the frames that an end has
written and `k` is how many of them its peer has read. -/
structure Flowing (a : Bool) (l : Pair) (os : Bool → List Outgoing) (k : Bool → ℕ) : Prop where
  opened : ∀ client, Opened (l client).socket
  flows : ∀ client, Flows (l client).socket (l !client).socket (os client) (k client)
  plain : ∀ o ∈ os a, o.opcode ≠ 0x9
  unasked : (l !a).loop = .reads
  holding : ∀ client, (l client).loop = .answers → (l client).locked = true
  fits : ∀ client payload, (l client).loop = .asked payload → payload.length ≤ maxFrameSize

section
variable {s s' : Side} {client : Bool} {os : List Outgoing} {k k' : ℕ} {act : Act}
  {more : List Outgoing}

theorem Side.Does.opened (h : s.Does client os k act more k' s') (hs : Opened s.socket) :
    Opened s'.socket := by
  cases h <;> exact ⟨hs.socket,hs.running,hs.staying⟩

theorem Side.Does.role (h : s.Does client os k act more k' s') :
    s'.socket.conn.client = s.socket.conn.client := by
  cases h <;> rfl

theorem Side.Does.wrote (h : s.Does client os k act more k' s') {os' : List Outgoing}
    (hwrote : s.socket.Wrote os' []) : s'.socket.Wrote (os'++more) [] := by
  have hkept : ∀ {w : Socket}, w.Wrote os' [] → w.Wrote (os'++[]) [] := by
    intro w hw
    rwa [List.append_nil]
  cases h with
  | send kind payload key o hop => exact hwrote.append o
  | answer key payload o hop hloop hfree =>
      have happend := hwrote.append o
      rwa [hop,message_pong,List.append_nil] at happend
  | read => exact hkept (hwrote.keep rfl rfl rfl id)
  | done => exact hkept hwrote
  | put => exact hkept (hwrote.keep rfl rfl rfl id)
  | receive => exact hkept (hwrote.keep rfl rfl rfl id)

theorem Side.Does.took (h : s.Does client os k act more k' s') (htook : s.socket.Took client os k) :
    s'.socket.Took client os k' := by
  cases h with
  | send => exact htook.moves rfl ⟨rfl,rfl,rfl,rfl⟩ rfl
  | read arrived o ho hloop hreading pending hping hhandle =>
      exact htook.advance hreading ho (.inl rfl) true hhandle.symm rfl rfl
  | answer => exact htook.moves rfl ⟨rfl,rfl,rfl,rfl⟩ rfl
  | done => exact htook
  | put msg hpend =>
      refine htook.moves rfl ⟨?_,rfl,rfl,rfl⟩ rfl
      simp [Conn.handed,hpend]
  | receive msg frames hframes =>
      refine htook.moves rfl ⟨?_,rfl,rfl,rfl⟩ rfl
      simp [Conn.handed,hframes]

/-- The frames that are appended are ordinary ones, and a ping is only sent on purpose. -/
theorem Side.Does.appends (h : s.Does client os k act more k' s') :
    ∀ o ∈ more, Ordinary o ∧ (o.opcode = 0x9 → act.pings = true) := by
  cases h with
  | send kind payload key o hop =>
      refine List.forall_mem_singleton.mpr ?_
      rw [Ordinary,hop]
      cases kind <;> simp [Kind.opcode,Act.pings]
  | answer key payload o hop hloop hfree =>
      refine List.forall_mem_singleton.mpr ?_
      rw [Ordinary,hop]
      exact ⟨.inr (.inr (.inr rfl)),fun hping => by cases hping⟩
  | _ => exact fun o ho => absurd ho List.not_mem_nil

theorem Side.Does.loop_reads (h : s.Does client os k act more k' s') (hloop : s.loop = .reads)
    (hplain : ∀ o ∈ os, o.opcode ≠ 0x9) : s'.loop = .reads := by
  cases h with
  | read arrived o ho => exact if_neg (hplain o (List.mem_of_getElem? ho))
  | answer key payload o hop hasked => cases hloop.symm.trans hasked
  | done =>
      show s.loop.returned = _
      rw [hloop]
      rfl
  | _ => exact hloop

theorem Side.Does.holding (h : s.Does client os k act more k' s')
    (hs : s.loop = .answers → s.locked = true) : s'.loop = .answers → s'.locked = true := by
  cases h with
  | send => exact fun _ => rfl
  | read arrived o =>
      intro hloop
      dsimp only at hloop
      split_ifs at hloop
  | answer => exact fun _ => rfl
  | done =>
      intro hloop
      change s.loop.returned = _ at hloop
      cases hs : s.loop <;> rw [hs] at hloop <;> cases hloop
  | put => exact hs
  | receive => exact hs

theorem Side.Does.fits (h : s.Does client os k act more k' s')
    (hs : ∀ payload, s.loop = .asked payload → payload.length ≤ maxFrameSize) :
    ∀ payload, s'.loop = .asked payload → payload.length ≤ maxFrameSize := by
  intro payload hloop
  cases h with
  | read arrived o =>
      dsimp only at hloop
      split_ifs at hloop
      cases hloop
      exact o.payload_le
  | answer => cases hloop
  | done =>
      change s.loop.returned = _ at hloop
      cases hs' : s.loop with
      | asked payload' =>
          rw [hs'] at hloop
          cases hloop
          exact hs payload hs'
      | reads =>
          rw [hs'] at hloop
          cases hloop
      | answers =>
          rw [hs'] at hloop
          cases hloop
  | _ => exact hs payload hloop

theorem Side.Does.consumed_lt {arrived : ℕ} (h : s.Does client os k (.read arrived) more k' s') :
    s.socket.consumed < s'.socket.consumed := by
  cases h with
  | read _ o => exact Nat.lt_add_of_pos_right (block_length_pos client o)

theorem Side.Does.sent (h : s.Does client os k act more k' s') (hsends : act.sends = false) :
    s'.socket.sent = s.socket.sent := by
  cases h with
  | send => cases hsends
  | _ => rfl

end

section
variable {a c : Bool} {l : Pair} {os : Bool → List Outgoing} {k : Bool → ℕ} {s' : Side}
  {act : Act} {more : List Outgoing} {k' : ℕ}

theorem Flowing.does (h : Flowing a l os k)
    (hdoes : (l c).Does (l !c).socket.conn.client (os !c) (k !c) act more k' s')
    (hping : c = a → act.pings = false) :
    Flowing a (Function.update l c s') (Function.update os c (os c++more))
      (Function.update k (!c) k') := by
  have hself : Function.update l c s' c = s' := Function.update_self c s' l
  have hpeer : Function.update l c s' (!c) = l !c :=
    Function.update_of_ne (Bool.not_ne_self c) s' l
  have hother : Function.update os c (os c++more) (!c) = os !c :=
    Function.update_of_ne (Bool.not_ne_self c) _ os
  have hread : Function.update k (!c) k' c = k c :=
    Function.update_of_ne (Bool.not_ne_self c).symm k' k
  have hback := h.flows !c
  rw [Bool.not_not] at hback
  -- what is asked of one end holds of the end that acts and has held of its peer
  have hends : ∀ {P : Bool → Side → Prop}, (∀ client, P client (l client)) → P c s' →
      ∀ client, P client (Function.update l c s' client) := by
    intro P hall hnew client
    rcases Bool.eq_or_eq_not client c with rfl | rfl
    · rwa [hself]
    · rw [hpeer]
      exact hall _
  refine ⟨?_,?_,?_,?_,?_,?_⟩
  · exact hends (P := fun _ s => Opened s.socket) h.opened (hdoes.opened (h.opened c))
  · intro client
    rcases Bool.eq_or_eq_not client c with rfl | rfl
    · have hforth := h.flows client
      rw [hself,hpeer,Function.update_self,hread]
      refine ⟨hdoes.wrote hforth.wrote,?_,?_⟩
      · rw [hdoes.role]
        exact hforth.took.extend more
      · intro o ho
        rcases List.mem_append.mp ho with ho | ho
        · exact hforth.ordinary o ho
        · exact (hdoes.appends o ho).1
    · rw [Bool.not_not,hself,hpeer,hother,Function.update_self]
      exact ⟨hback.wrote,hdoes.took hback.took,hback.ordinary⟩
  · rcases Bool.eq_or_eq_not a c with rfl | rfl
    · rw [Function.update_self]
      intro o ho
      rcases List.mem_append.mp ho with ho | ho
      · exact h.plain o ho
      · intro hop
        cases (hping rfl).symm.trans ((hdoes.appends o ho).2 hop)
    · rw [hother]
      exact h.plain
  · rcases Bool.eq_or_eq_not a c with rfl | rfl
    · rw [hpeer]
      exact h.unasked
    · have hunasked := h.unasked
      rw [Bool.not_not] at hunasked ⊢
      rw [hself]
      exact hdoes.loop_reads hunasked h.plain
  · exact hends (P := fun _ s => s.loop = .answers → s.locked = true) h.holding
      (hdoes.holding (h.holding c))
  · exact hends (P := fun _ s => ∀ payload, s.loop = .asked payload →
      payload.length ≤ maxFrameSize) h.fits (hdoes.fits (h.fits c))

theorem Pair.step_same {ev : Event}
    (h : (l ev.client).act (l !ev.client) ev.act = l ev.client) : l.step ev = l := by
  rw [Pair.step,h,Function.update_eq_self]

theorem Flowing.step (h : Flowing a l os k) (ev : Event)
    (hping : ev.client = a → ev.act.pings = false) :
    ∃ os' k', Flowing a (l.step ev) os' k' := by
  have hback := h.flows !ev.client
  rw [Bool.not_not] at hback
  rcases act_does (h.opened ev.client) hback ev.act with hsame | ⟨more,k',hdoes⟩
  · rw [Pair.step_same hsame]
    exact ⟨os,k,h⟩
  · exact ⟨_,_,h.does hdoes hping⟩

theorem flowing_start (a : Bool) : Flowing a Pair.start (fun _ => []) fun _ => 0 := by
  refine ⟨fun _ => ⟨rfl,rfl,rfl⟩,fun client => ⟨?_,?_,?_⟩,?_,rfl,?_,?_⟩
  · exact ⟨rfl,.none,List.prefix_rfl,fun _ => rfl⟩
  · exact ⟨rfl,le_rfl,rfl,rfl,fun _ => rfl⟩
  · exact fun o ho => absurd ho List.not_mem_nil
  · exact fun o ho => absurd ho List.not_mem_nil
  · exact fun client hloop => by cases hloop
  · exact fun client payload hloop => by cases hloop

/-! ### The work comes to an end -/

/-- What is still to be done with the frames that an end has not read: read, put, and receive. -/
def Side.load (r : Side) (unread : ℕ) : ℕ :=
  3*unread+2*r.socket.conn.pending.toList.length+r.socket.conn.frames.length

/-- An answer that is not written yet becomes a frame and a write. -/
def Loop.cost : Loop → ℕ
  | .asked _ => 5
  | _ => 0

/-- Reading at the end `a` counts twice, since a ping is there exchanged for an answer. -/
def work (a : Bool) (l : Pair) (os : Bool → List Outgoing) (k : Bool → ℕ) : ℕ :=
  2*(l a).load ((os !a).length-k !a)+(l a).loop.cost+(l a).locked.toNat+
    (l !a).load ((os a).length-k a)+(l !a).locked.toNat

/-- What an act other than a send does to the work of its end: less is to be done with the frames,
a ping is exchanged for an answer, an answer for a frame and a write, or a write returns. -/
theorem Side.Does.effort {s s' : Side} {client : Bool} {os more : List Outgoing} {k k' : ℕ}
    {act : Act} (h : s.Does client os k act more k' s') (hsends : act.sends = false) :
    let load := s.load (os.length-k)
    let load' := s'.load (os.length-k')
    let lock := s.locked.toNat
    let lock' := s'.locked.toNat
    load' < load ∧ s'.loop.cost = s.loop.cost ∧ lock' = lock ∧ more.length = 0 ∨
    load'+3 ≤ load ∧ s'.loop.cost = s.loop.cost+5 ∧ lock' = lock ∧ more.length = 0 ∨
    load' = load ∧ s.loop.cost = s'.loop.cost+5 ∧ lock' = lock+1 ∧ more.length = 1 ∨
    load' = load ∧ s'.loop.cost = s.loop.cost ∧ lock = lock'+1 ∧ more.length = 0 := by
  cases h with
  | send => cases hsends
  | read arrived o ho hloop hreading pending hping hhandle =>
      have hlt := (List.getElem?_eq_some_iff.mp ho).1
      have hnone := (Conn.reading_iff.mp hreading).2.2
      by_cases hop : o.opcode = 0x9
      · refine .inr (.inl ⟨?_,by simp [hop,hloop,Loop.cost],rfl,rfl⟩)
        simp only [Side.load,hping hop,hnone,Option.toList_none,List.length_nil]
        omega
      · refine .inl ⟨?_,by simp [hop,hloop],rfl,rfl⟩
        have hone : pending.toList.length ≤ 1 := by cases pending <;> simp
        simp only [Side.load,hnone,Option.toList_none,List.length_nil]
        omega
  | answer key payload o hop hloop hfree =>
      exact .inr (.inr (.inl ⟨rfl,by rw [hloop]; rfl,by rw [hfree]; rfl,rfl⟩))
  | done room hlocked =>
      have hcost : s.loop.returned.cost = s.loop.cost := by cases s.loop <;> rfl
      exact .inr (.inr (.inr ⟨rfl,hcost,by rw [hlocked]; rfl,rfl⟩))
  | put msg hpend =>
      refine .inl ⟨?_,rfl,rfl,rfl⟩
      simp only [Side.load,hpend,List.length_append,Option.toList_none,Option.toList_some,
        List.length_singleton,List.length_nil]
      omega
  | receive msg frames hframes =>
      refine .inl ⟨?_,rfl,rfl,rfl⟩
      simp only [Side.load,hframes,List.length_cons]
      omega

/-- Every act other than a send makes the work smaller. -/
theorem Flowing.work_lt (h : Flowing a l os k)
    (hdoes : (l c).Does (l !c).socket.conn.client (os !c) (k !c) act more k' s')
    (hsends : act.sends = false) :
    work a (Function.update l c s') (Function.update os c (os c++more))
      (Function.update k (!c) k') < work a l os k := by
  have hne : (!a) ≠ a := Bool.not_ne_self a
  have heffort := hdoes.effort hsends
  -- the peer has to read the frames that are appended
  have hpeer : (l !c).load ((os c++more).length-k c) =
      (l !c).load ((os c).length-k c)+3*more.length := by
    have hle := (h.flows c).took.le
    rw [List.length_append]
    unfold Side.load
    omega
  rcases Bool.eq_or_eq_not c a with rfl | rfl
  · simp only [work,Function.update_self,Function.update_of_ne hne,Function.update_of_ne hne.symm,
      hpeer]
    omega
  · have hunasked : (l !a).loop.cost = 0 := by
      rw [h.unasked]
      rfl
    rw [Bool.not_not] at heffort hpeer ⊢
    simp only [work,Function.update_self,Function.update_of_ne hne,Function.update_of_ne hne.symm,
      hpeer]
    omega

/-- The pair with what has been sent and the rest of its work. -/
def Busy (a : Bool) (sent : Bool → List Bytes) (n : ℕ) (l : Pair) : Prop :=
  (∀ client, (l client).socket.sent = sent client) ∧
    ∃ os k, Flowing a l os k ∧ work a l os k = n

theorem Busy.step {sent : Bool → List Bytes} {n : ℕ} {ev : Event}
    (hev : ev.act.sends = false) (h : Busy a sent n l) :
    l.step ev = l ∨ ∃ m < n, Busy a sent m (l.step ev) := by
  obtain ⟨hsent,os,k,hflow,rfl⟩ := h
  have hback := hflow.flows !ev.client
  rw [Bool.not_not] at hback
  rcases act_does (hflow.opened ev.client) hback ev.act with hsame | ⟨more,k',hdoes⟩
  · exact .inl (Pair.step_same hsame)
  · have hping : ev.client = a → ev.act.pings = false := by
      intro _
      obtain ⟨client,act⟩ := ev
      cases act <;> first | rfl | cases hev
    refine .inr ⟨_,hflow.work_lt hdoes hev,fun client => ?_,_,_,hflow.does hdoes hping,rfl⟩
    rw [← hsent client]
    rcases Bool.eq_or_eq_not client ev.client with rfl | rfl
    · rw [Pair.step,Function.update_self]
      exact hdoes.sent hev
    · rw [Pair.step,Function.update_of_ne (Bool.not_ne_self _)]

/-- The longest frame with its header and key. -/
def wholeFrame : ℕ := maxFrameSize+14

theorem block_length_le (client : Bool) (o : Outgoing) : (o.block client).length ≤ wholeFrame := by
  have hheader : (lengthHeader o.payload.length).length ≤ 9 := by
    unfold lengthHeader
    split_ifs <;> simp
  have hpayload := o.payload_le
  have hkey := o.key_length
  rw [wholeFrame]
  cases client <;> simp [Outgoing.block,xorMask_length] <;> omega

/-- Nobody sends, and everything else that can happen at an end is given its turn. -/
structure Fair (evs : List Event) : Prop where
  silent : ∀ ev ∈ evs, ev.act.sends = false
  receives : ∀ client, ⟨client,.receive⟩ ∈ evs
  puts : ∀ client, ⟨client,.put⟩ ∈ evs
  reads : ∀ client, ∃ arrived, wholeFrame ≤ arrived ∧ ⟨client,.read arrived⟩ ∈ evs
  answers : ∀ client, ∃ key, ⟨client,.answer key⟩ ∈ evs
  returns : ∀ client, ∃ room, ⟨client,.done room⟩ ∈ evs

variable {evs : List Event}

theorem act_same {ev : Event} (h : l.step ev = l) :
    (l ev.client).act (l !ev.client) ev.act = l ev.client := by
  have hself := congrFun h ev.client
  rwa [Pair.step,Function.update_self] at hself

theorem frames_taken {client : Bool} (h : l.step ⟨client,.receive⟩ = l) :
    (l client).socket.conn.frames = [] := by
  cases hframes : (l client).socket.conn.frames with
  | nil => rfl
  | cons msg frames =>
      have hreceived := congrArg (fun s : Side => s.socket.conn.received.length) (act_same h)
      simp only [Side.act,Conn.step,hframes,List.length_append,List.length_singleton] at hreceived
      omega

theorem message_put {client : Bool} (h : l.step ⟨client,.put⟩ = l)
    (hframes : (l client).socket.conn.frames = []) : (l client).socket.conn.pending = none := by
  cases hpend : (l client).socket.conn.pending with
  | none => rfl
  | some msg =>
      have hput := congrArg (fun s : Side => s.socket.conn.pending) (act_same h)
      simp [Side.act,Conn.step,hpend,hframes,queueSize] at hput

theorem frames_read (hflow : Flowing a l os k) {client : Bool} {arrived : ℕ}
    (harrived : wholeFrame ≤ arrived) (h : l.step ⟨client,.read arrived⟩ = l)
    (hloop : (l client).loop = .reads) (hpend : (l client).socket.conn.pending = none) :
    k (!client) = (os !client).length := by
  have hback := hflow.flows !client
  rw [Bool.not_not] at hback
  have hsame : (l client).read (l !client) arrived = l client := act_same h
  apply Nat.le_antisymm hback.took.le
  apply List.getElem?_eq_none_iff.mp
  cases ho : (os !client)[k !client]? with
  | none => rfl
  | some o =>
      rcases read_does (hflow.opened client) hback arrived with ⟨_,hshort⟩ | hdoes
      · have hlt := hshort hloop hpend o ho
        have hle := block_length_le (l !client).socket.conn.client o
        omega
      · have hconsumed := hdoes.consumed_lt
        rw [hsame] at hconsumed
        exact absurd hconsumed (Nat.lt_irrefl _)

theorem Flows.all_read {w r : Socket} {os : List Outgoing} (h : Flows w r os os.length)
    (hr : Opened r) : r.consumed = w.written.length := by
  rw [h.took.position hr.running,h.wrote.written,List.take_length,List.append_nil]

theorem write_returned (hflow : Flowing a l os k) {client room : Bool}
    (h : l.step ⟨client,.done room⟩ = l) (hall : k client = (os client).length) :
    (l client).locked = false := by
  have hforth := hflow.flows client
  rw [hall] at hforth
  have hread := hforth.all_read (hflow.opened !client)
  have hsame : (l client).done (l !client) room = l client := act_same h
  cases hlocked : (l client).locked with
  | false => rfl
  | true =>
      have hfree := congrArg Side.locked hsame
      simp [Side.done,hlocked,hread] at hfree

theorem not_asked (hflow : Flowing a l os k) {client : Bool} {key : Vector UInt8 4}
    (h : l.step ⟨client,.answer key⟩ = l) (hfree : (l client).locked = false) :
    (l client).loop = .reads := by
  have hsame : (l client).answer key = l client := act_same h
  cases hloop : (l client).loop with
  | reads => rfl
  | asked payload =>
      obtain ⟨s',hwrite⟩ := writeFrame_free (hflow.opened client).socket hfree key
        (hflow.fits client payload hloop) 0xA (by decide)
      have hanswers := congrArg Side.loop hsame
      simp [Side.answer,hloop,hwrite] at hanswers
  | answers => cases hfree.symm.trans (hflow.holding client hloop)

/-- A round in which nothing happens means that nothing is left to be done. -/
theorem Busy.idle {sent : Bool → List Bytes} {n : ℕ} (hfair : Fair evs) (h : Busy a sent n l)
    (hidle : ∀ ev ∈ evs, l.step ev = l) : n = 0 := by
  obtain ⟨_,os,k,hflow,rfl⟩ := h
  have hframes : ∀ client, (l client).socket.conn.frames = [] :=
    fun client => frames_taken (hidle _ (hfair.receives client))
  have hpend : ∀ client, (l client).socket.conn.pending = none :=
    fun client => message_put (hidle _ (hfair.puts client)) (hframes client)
  have hread : ∀ client, (l client).loop = .reads → k (!client) = (os !client).length := by
    intro client hloop
    obtain ⟨arrived,harrived,hmem⟩ := hfair.reads client
    exact frames_read hflow harrived (hidle _ hmem) hloop (hpend client)
  have hfree : ∀ client, k client = (os client).length → (l client).locked = false := by
    intro client hall
    obtain ⟨room,hmem⟩ := hfair.returns client
    exact write_returned hflow (hidle _ hmem) hall
  -- the peer of `a` has read all frames, so that the lock of `a` is free for its answers
  have hforth : k a = (os a).length := by
    have hall := hread (!a) hflow.unasked
    rwa [Bool.not_not] at hall
  obtain ⟨key,hmem⟩ := hfair.answers a
  have hloop := not_asked hflow (hidle _ hmem) (hfree a hforth)
  have hback := hread a hloop
  simp [work,Side.load,Loop.cost,hframes,hpend,hloop,hforth,hback,hfree]

end

/-! ### Messages are delivered -/

theorem load_eq_zero {r : Side} {unread : ℕ} (h : r.load unread = 0) :
    unread = 0 ∧ r.socket.conn.pending.toList = [] ∧ r.socket.conn.frames = [] := by
  unfold Side.load at h
  refine ⟨by omega,?_,?_⟩ <;>
    · apply List.eq_nil_of_length_eq_zero
      omega

theorem Flows.received {w : Socket} {r : Side} {os : List Outgoing} {k : ℕ}
    (h : Flows w r.socket os k) (hload : r.load (os.length-k) = 0) :
    r.socket.conn.received = w.sent := by
  obtain ⟨hunread,hpend,hframes⟩ := load_eq_zero hload
  have hk : os.length = k := by
    have := h.took.le
    omega
  calc r.socket.conn.received
    _ = r.socket.conn.handed := by simp [Conn.handed,hpend,hframes]
    _ = messages (os.take k) := h.took.handed
    _ = messages os := by rw [← hk,List.take_length]
    _ = w.sent := h.wrote.all rfl

/-- The ends have received what had been sent to them, and no writer and no loop waits. -/
def Delivered (sent : Bool → List Bytes) (l : Pair) : Prop :=
  ∀ client, (l !client).socket.conn.received = sent client ∧
    (l client).loop = .reads ∧ (l client).locked = false

theorem Busy.delivered {a : Bool} {sent : Bool → List Bytes} {l : Pair} (h : Busy a sent 0 l) :
    Delivered sent l := by
  obtain ⟨hsent,os,k,hflow,hnone⟩ := h
  have hback := hflow.flows !a
  rw [Bool.not_not] at hback
  unfold work at hnone
  have hfree : ∀ client, (l client).locked.toNat = 0 → (l client).locked = false := by
    intro client hzero
    exact Bool.toNat_eq_zero.mp hzero
  intro client
  rw [← hsent]
  rcases Bool.eq_or_eq_not client a with rfl | rfl
  · have hfreed := hfree client (by omega)
    refine ⟨(hflow.flows client).received (by omega),?_,hfreed⟩
    have hcost : (l client).loop.cost = 0 := by omega
    cases hloop : (l client).loop with
    | reads => rfl
    | asked payload =>
        rw [hloop] at hcost
        cases hcost
    | answers => cases hfreed.symm.trans (hflow.holding client hloop)
  · rw [Bool.not_not]
    exact ⟨hback.received (by omega),hflow.unasked,hfree _ (by omega)⟩

/-- After anything that two ends do of which one sends no pings, enough rounds in which everything
is given its turn deliver every message of both directions, and every write returns. -/
theorem link_delivers (a : Bool) (evs : List Event)
    (h : ∀ ev ∈ evs, ev.client = a → ev.act.pings = false) :
    let l := run Pair.step evs Pair.start
    ∃ n, ∀ rounds : List (List Event), (∀ round ∈ rounds, Fair round) → n < rounds.length →
      Delivered (fun client => (l client).socket.sent) (run Pair.step rounds.flatten l) := by
  intro l
  obtain ⟨os,k,hflow⟩ : ∃ os k, Flowing a l os k :=
    (along_of_mem h _).invariant (I := fun l => ∃ os k, Flowing a l os k)
      (fun l ev ⟨_,_,hl⟩ hev => hl.step ev hev) ⟨_,_,flowing_start a⟩
  refine ⟨work a l os k,fun rounds hfair hn => Busy.delivered (a := a) ?_⟩
  exact rounds_settle (fun n l ev hev hl => hl.step hev) (fun evs hevs => hevs.silent)
    (fun n l evs hevs hl hidle => hl.idle hevs hidle) hfair ⟨fun _ => rfl,os,k,hflow,rfl⟩ hn

/-- The server sends a ping and a message while the client writes one, and none is read to its
end. -/
def sampleEvents : List Event :=
  [⟨true,.send .binary [7] (.replicate 4 1)⟩,⟨false,.read 3⟩,
    ⟨false,.send .ping [5] (.replicate 4 0)⟩,⟨false,.done true⟩,⟨true,.read 3⟩,
    ⟨true,.answer (.replicate 4 2)⟩,⟨false,.send .text [8,9] (.replicate 4 0)⟩]

def sampleRound : List Event :=
  [true,false].flatMap fun client => [⟨client,.receive⟩,⟨client,.put⟩,
    ⟨client,.read wholeFrame⟩,⟨client,.answer (.replicate 4 3)⟩,⟨client,.done false⟩]

theorem sampleRound_fair : Fair sampleRound := by
  refine ⟨by simp [sampleRound,Act.sends],?_,?_,fun client => ⟨wholeFrame,le_rfl,?_⟩,
    fun client => ⟨.replicate 4 3,?_⟩,fun client => ⟨false,?_⟩⟩
  · intro client
    cases client <;> simp [sampleRound]
  · intro client
    cases client <;> simp [sampleRound]
  · cases client <;> simp [sampleRound]
  · cases client <;> simp [sampleRound]
  · cases client <;> simp [sampleRound]

theorem link_delivers_sample :
    let l := run Pair.step sampleEvents Pair.start
    (∀ ev ∈ sampleEvents, ev.client = true → ev.act.pings = false) ∧ Fair sampleRound ∧
    (l true).loop = .asked [5] ∧ (l true).locked = true ∧ (l false).locked = true ∧
    (∀ client, (l client).socket.conn.received = []) ∧
    ∃ n, Delivered (fun client => if client then [[7]] else [[8,9]])
      (run Pair.step (List.replicate (n+1) sampleRound).flatten l) := by
  intro l
  have hquiet : ∀ ev ∈ sampleEvents, ev.client = true → ev.act.pings = false := by
    simp [sampleEvents,Act.pings]
  have hsent : (fun client => (l client).socket.sent) =
      fun client => if client then [[7]] else [[8,9]] := by
    funext client
    cases client <;> decide +kernel
  obtain ⟨n,hn⟩ := link_delivers true sampleEvents hquiet
  rw [hsent] at hn
  refine ⟨hquiet,sampleRound_fair,?_,?_,?_,?_,n,hn _ ?_ ?_⟩
  · decide +kernel
  · decide +kernel
  · decide +kernel
  · decide +kernel
  · intro round hround
    rw [List.eq_of_mem_replicate hround]
    exact sampleRound_fair
  · rw [List.length_replicate]
    exact Nat.lt_succ_self n

/-! ### Two ends that wait for each other -/

/-- Each loop has a ping to answer while a writer of its end holds the lock, and neither of the two
frames is read to its end. -/
def Blocked (l : Pair) : Prop :=
  ∀ client, (∃ payload, (l client).loop = .asked payload) ∧ (l client).locked = true ∧
    (l client).socket.conn.pending = none ∧ (l client).socket.conn.frames = [] ∧
    (l !client).socket.consumed ≠ (l client).socket.written.length

/-- As long as the buffers have no room, nothing changes. -/
theorem Blocked.step {l : Pair} (h : Blocked l) {ev : Event} (hev : ev.act ≠ .done true) :
    l.step ev = l := by
  apply Pair.step_same
  obtain ⟨⟨payload,hloop⟩,hlocked,hpend,hframes,hunread⟩ := h ev.client
  cases hact : ev.act with
  | send => simp [Side.act,Side.send,Side.writeFrame,hlocked]
  | read => simp [Side.act,Side.read,hloop]
  | answer => simp [Side.act,Side.answer,Side.writeFrame,hloop,hlocked]
  | done room =>
      cases room with
      | true => exact absurd hact hev
      | false => simp [Side.act,Side.done,hunread]
  | put => simp [Side.act,Conn.step,hpend]
  | receive => simp [Side.act,Conn.step,hframes]

theorem send_begins {s : Side} (hopen : s.socket.ncClosed = false) (hfree : s.locked = false)
    (kind : Kind) {payload : Bytes} (hlen : payload.length ≤ maxFrameSize) (key : Vector UInt8 4) :
    ∃ block, 0 < block.length ∧ s.send kind payload key = {s with
      socket := {s.socket with
        written := s.socket.written++block
        sent := s.socket.sent++message kind.opcode payload}
      locked := true} := by
  have hop : kind.opcode < 16 := by cases kind <;> decide
  obtain ⟨s',hwrite⟩ := writeFrame_free hopen hfree key hlen kind.opcode hop
  obtain ⟨_,o,_,_,rfl⟩ := writeFrame_begins hop hwrite
  refine ⟨o.block s.socket.conn.client,block_length_pos _ o,?_⟩
  rw [Side.send,hwrite]

/-- Both ends have sent a ping and a message, and have read the ping of the other. -/
def samplePings : List Event :=
  [⟨true,.send .ping [] (.replicate 4 0)⟩,⟨true,.done true⟩,
    ⟨true,.send .text [1] (.replicate 4 0)⟩,⟨true,.done true⟩,
    ⟨false,.send .ping [] (.replicate 4 0)⟩,⟨false,.done true⟩,
    ⟨false,.send .text [1] (.replicate 4 0)⟩,⟨false,.done true⟩,⟨true,.read 2⟩,⟨false,.read 6⟩]

/-- Both ends send pings and then a frame, up to the largest, that the buffers do not take: then
nothing is received, whatever else happens. -/
theorem pings_block {big : Bytes} (hbig : big.length ≤ maxFrameSize) (key : Vector UInt8 4)
    (later : List Event) (hlater : ∀ ev ∈ later, ev.act ≠ .done true) :
    let evs := samplePings++[⟨true,.send .binary big key⟩,⟨false,.send .binary big key⟩]++later
    let l := run Pair.step evs Pair.start
    ∀ client, (l client).socket.sent = [[1],big] ∧ (l client).socket.conn.received = [] := by
  intro evs l
  generalize hpings : run Pair.step samplePings Pair.start = l₀
  have hopen : ∀ client, (l₀ client).socket.ncClosed = false := by
    rw [← hpings]
    decide +kernel
  have hfree : ∀ client, (l₀ client).locked = false := by
    rw [← hpings]
    decide +kernel
  have hstate : ∀ client, (l₀ client).loop = .asked [] ∧
      (l₀ client).socket.conn.pending = none ∧ (l₀ client).socket.conn.frames = [] ∧
      (l₀ !client).socket.consumed ≤ (l₀ client).socket.written.length ∧
      (l₀ client).socket.sent = [[1]] ∧ (l₀ client).socket.conn.received = [] := by
    rw [← hpings]
    decide +kernel
  have hsend := fun client => send_begins (hopen client) (hfree client) .binary hbig key
  generalize hl₁ : run Pair.step
    [⟨true,.send .binary big key⟩,⟨false,.send .binary big key⟩] l₀ = l₁
  have hends : ∀ client, l₁ client = (l₀ client).send .binary big key := by
    intro client
    rw [← hl₁]
    cases client <;> rfl
  have hblocked : Blocked l₁ := by
    intro client
    obtain ⟨hloop,hpend,hframes,hread,_,_⟩ := hstate client
    obtain ⟨block,hpos,hself⟩ := hsend client
    obtain ⟨block',_,hpeer⟩ := hsend !client
    rw [hends,hends,hself,hpeer]
    refine ⟨⟨[],hloop⟩,rfl,hpend,hframes,?_⟩
    rw [List.length_append]
    exact (Nat.lt_of_le_of_lt hread (Nat.lt_add_of_pos_right hpos)).ne
  have hl : l = l₁ := by
    calc l
      _ = run Pair.step later l₁ := by
        rw [← hl₁,← hpings,← run_append,← run_append,← List.append_assoc]
      _ = l₁ := run_fixed fun ev hev => hblocked.step (hlater ev hev)
  intro client
  obtain ⟨_,_,_,_,hsent,hreceived⟩ := hstate client
  obtain ⟨block,_,hself⟩ := hsend client
  rw [hl,hends,hself]
  refine ⟨?_,hreceived⟩
  show (l₀ client).socket.sent++[big] = _
  rw [hsent]
  rfl

end BaturWhatsApi.SocketDelivery
