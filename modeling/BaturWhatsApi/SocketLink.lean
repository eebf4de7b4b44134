import BaturWhatsApi.WebSocketMessages

/-!
# Two WebSocket connections on one wire

The writing side of `transport/ws/ws.go`, and two connections of it joined by a stream of
bytes in each direction. Goroutines of both ends send text, binary and ping frames, take
messages and close, while the two read loops parse what has arrived, answer pings and put
messages into their channels. Bytes arrive in pieces of any size.

The lock of the writers keeps frames apart. A write that fails in the middle of a frame
closes the socket before the lock is given back, unless another goroutine has marked the
connection as closed and not yet closed the socket. A frame that is written in that
moment is appended to a torso, and the peer takes its bytes for those of the torso.
-/
namespace BaturWhatsApi.SocketLink
open ByteStrings PositionalReaders PositionalReaders.Reader WebSocketFrames WebSocketMessages Runs

/-! ### Writing to the socket -/

/-- One end. `written` are all bytes that it has handed to the network, `consumed` is how many
bytes of the peer its loop has parsed, and `sent` records the messages whose write succeeded. -/
structure Socket where
  conn : Conn
  ncClosed : Bool := false
  written : Bytes := []
  consumed : ℕ := 0
  sent : List Bytes := []

/-- A write to the open socket succeeds, or fails after some bytes of the block. -/
inductive Write where
  | whole
  | cut (n : ℕ)
deriving DecidableEq, Repr

/-- `nc.Write` -/
def Socket.write (s : Socket) (block : Bytes) : Write → Bool × Socket
  | .whole => if s.ncClosed then (false,s) else (true,{s with written := s.written++block})
  | .cut n =>
      if s.ncClosed then (false,s)
      else (false,{s with written := s.written++block.take (min n (block.length-1))})

/-- The socket is closed by whoever marks the connection as closed. -/
def Socket.fail (s : Socket) (e : ConnError) : Socket :=
  {s with conn := s.conn.fail e,ncClosed := s.ncClosed || !s.conn.isClosed}

/-- Four bytes of the random source, which may fail. -/
def maskKey (key : Option (Vector UInt8 4)) : Except ConnError Bytes :=
  match key with
  | some k => .ok k.toList
  | none => .error .other

def Socket.writeFrame (s : Socket) (key : Option (Vector UInt8 4)) (opcode : UInt8)
    (payload : Bytes) (how : Write) : Except ConnError Unit × Socket :=
  match WebSocketFrames.writeFrame s.conn.client (maskKey key) opcode payload with
  | .error e => (.error e,s)
  | .ok block =>
      match s.write block how with
      | (true,s) => (.ok (),s)
      | (false,s) => (.error .other,s.fail .other)

/-- `SendText`, `SendBinary` and `SendPing`. -/
inductive Kind where
  | text | binary | ping
deriving DecidableEq, Repr

def Kind.opcode : Kind → UInt8
  | .text => 0x1
  | .binary => 0x2
  | .ping => 0x9

def isMessage (opcode : UInt8) : Bool := opcode = 0x1 || opcode = 0x2

def Socket.send (s : Socket) (kind : Kind) (payload : Bytes) (key : Option (Vector UInt8 4))
    (how : Write) : Socket :=
  match s.writeFrame key kind.opcode payload how with
  | (.ok _,s) => if isMessage kind.opcode then {s with sent := s.sent++[payload]} else s
  | (.error _,s) => s

/-- The bytes of `writeFrameNoFail` in `sendCloseBestEffort`, with a key of zeros. -/
def closeBlock (client : Bool) : Bytes :=
  let payload := [0x03,0xE8]
  let key := [0,0,0,0]
  if client then [0x80 ||| 0x8,0x80 ||| UInt8.ofNat payload.length]++key++xorMask key payload
  else [0x80 ||| 0x8,UInt8.ofNat payload.length]++payload

def Socket.sendCloseBestEffort (s : Socket) (how : Write) : Socket :=
  (s.write (closeBlock s.conn.client) how).2

/-! ### The loop on what has arrived -/

/-- A reader that misses bytes. -/
def misses : ConnError → Bool
  | .eof => true
  | .unexpectedEOF => true
  | _ => false

/-- The loop reads a frame from the bytes that have arrived. It waits while bytes are missing,
unless the peer has closed its socket and all bytes are here. A ping is answered. -/
def Socket.read (s peer : Socket) (arrived : ℕ) (key : Option (Vector UInt8 4)) (how : Write) :
    Socket :=
  let rest := peer.written.drop s.consumed
  let stream := rest.take arrived
  if s.conn.reading then
    match readFrame s.conn.client stream 0 with
    | .error e =>
        if misses e && !(peer.ncClosed && stream.length == rest.length) then s
        else {s with conn := s.conn.step (.read stream true)}
    | .ok (f,n) =>
        let s := {s with consumed := s.consumed+n}
        if f.opcode = 0x9 then
          match s.writeFrame key 0xA f.payload how with
          | (.ok _,s) => {s with conn := s.conn.step (.read stream true)}
          | (.error _,s) => {s with conn := s.conn.step (.read stream false)}
        else {s with conn := s.conn.step (.read stream true)}
  else s

/-- `closeFrame`, `shutdown` and `closeSocket` are the steps of `Close`, and the last of them
also ends a failed loop. A `broken` socket is one on which reading fails. -/
inductive Act where
  | send (kind : Kind) (payload : Bytes) (key : Option (Vector UInt8 4)) (how : Write)
  | closeFrame (how : Write)
  | shutdown
  | closeSocket
  | read (arrived : ℕ) (key : Option (Vector UInt8 4)) (how : Write)
  | broken
  | put
  | leave
  | receive

def Socket.act (s peer : Socket) : Act → Socket
  | .send kind payload key how => s.send kind payload key how
  | .closeFrame how => s.sendCloseBestEffort how
  | .shutdown => {s with conn := s.conn.step (.shutdown none)}
  | .closeSocket => if s.conn.isClosed then {s with ncClosed := true} else s
  | .read arrived key how => s.read peer arrived key how
  | .broken => {s with conn := s.conn.step .broken}
  | .put => {s with conn := s.conn.step .put}
  | .leave => {s with conn := s.conn.step .leave}
  | .receive => {s with conn := s.conn.step .receive}

/-- The two ends, by their roles. -/
abbrev Link := Bool → Socket

def Link.start : Link := fun client => {conn := {client := client}}

structure Event where
  client : Bool
  act : Act

def Link.step (l : Link) (ev : Event) : Link :=
  Function.update l ev.client ((l ev.client).act (l !ev.client) ev.act)

/-! ### What a write does -/

/-- What of the block gets onto the wire, and whether the write succeeds. -/
inductive Socket.Writes (s : Socket) (block : Bytes) : Write → Bool → Socket → Prop where
  | whole (hopen : s.ncClosed = false) :
      s.Writes block .whole true {s with written := s.written++block}
  | cut (n m : ℕ) (hopen : s.ncClosed = false) (hm : m < block.length) (hn : m ≤ n) :
      s.Writes block (.cut n) false {s with written := s.written++block.take m}
  | closed (how : Write) (hclosed : s.ncClosed = true) : s.Writes block how false s

theorem write_writes (s : Socket) (block : Bytes) (hblock : 0 < block.length) (how : Write) :
    s.Writes block how (s.write block how).1 (s.write block how).2 := by
  cases hclosed : s.ncClosed with
  | true =>
      have hwrite : s.write block how = (false,s) := by cases how <;> simp [Socket.write,hclosed]
      rw [hwrite]
      exact .closed how hclosed
  | false =>
      cases how with
      | whole => simpa [Socket.write,hclosed] using Socket.Writes.whole hclosed
      | cut n =>
          have hm : min n (block.length-1) < block.length := by omega
          simpa [Socket.write,hclosed] using Socket.Writes.cut n _ hclosed hm (Nat.min_le_left _ _)

theorem block_length_pos (client : Bool) (o : Outgoing) : 0 < (o.block client).length := by
  cases client <;> simp [Outgoing.block]

/-- A frame that is accepted for writing has a block. -/
theorem writeFrame_ok {client : Bool} {key : Option (Vector UInt8 4)} {opcode : UInt8}
    {payload block : Bytes} (hop : opcode < 16)
    (h : WebSocketFrames.writeFrame client (maskKey key) opcode payload = .ok block) :
    ∃ o : Outgoing, o.opcode = opcode ∧ o.payload = payload ∧ block = o.block client := by
  have hlen : payload.length ≤ SessionSend.maxFrameSize := by
    by_contra hlong
    rw [WebSocketFrames.writeFrame,if_pos (Nat.not_le.mp hlong)] at h
    cases h
  cases key with
  | some k =>
      let o : Outgoing := ⟨opcode,payload,k.toList,hop,hlen,k.length_toList⟩
      have hwritten := writeFrame_block client o
      exact ⟨o,rfl,rfl,Except.ok.inj (h.symm.trans hwritten)⟩
  | none =>
      cases client with
      | true =>
          rw [WebSocketFrames.writeFrame,if_neg (Nat.not_lt.mpr hlen)] at h
          cases h
      | false =>
          let o : Outgoing := ⟨opcode,payload,[0,0,0,0],hop,hlen,rfl⟩
          have hwritten := writeFrame_block false o
          rw [WebSocketFrames.writeFrame,if_neg (Nat.not_lt.mpr hlen)] at h hwritten
          exact ⟨o,rfl,rfl,Except.ok.inj (h.symm.trans hwritten)⟩

/-- A frame is refused before it is written, written, or its write fails. -/
inductive Socket.WritesFrame (s : Socket) (opcode : UInt8) (payload : Bytes) (how : Write) :
    Except ConnError Unit × Socket → Prop where
  | refused (e : ConnError) : s.WritesFrame opcode payload how (.error e,s)
  | written (o : Outgoing) (s' : Socket) (hop : o.opcode = opcode) (hpayload : o.payload = payload)
      (hwrites : s.Writes (o.block s.conn.client) how true s') :
      s.WritesFrame opcode payload how (.ok (),s')
  | failed (o : Outgoing) (s' : Socket)
      (hwrites : s.Writes (o.block s.conn.client) how false s') :
      s.WritesFrame opcode payload how (.error .other,s'.fail .other)

theorem writeFrame_writes (s : Socket) (key : Option (Vector UInt8 4)) (opcode : UInt8)
    (hop : opcode < 16) (payload : Bytes) (how : Write) :
    s.WritesFrame opcode payload how (s.writeFrame key opcode payload how) := by
  unfold Socket.writeFrame
  cases hblock : WebSocketFrames.writeFrame s.conn.client (maskKey key) opcode payload with
  | error e => exact .refused e
  | ok block =>
      obtain ⟨o,hop,hpayload,rfl⟩ := writeFrame_ok hop hblock
      have hwrites := write_writes s _ (block_length_pos s.conn.client o) how
      dsimp only
      split
      · rename_i s' hwrite
        rw [hwrite] at hwrites
        exact .written o s' hop hpayload hwrites
      · rename_i s' hwrite
        rw [hwrite] at hwrites
        exact .failed o s' hwrites

/-! ### The bytes on the wire -/

/-- The message that a frame with the opcode carries. -/
def message (opcode : UInt8) (payload : Bytes) : List Bytes :=
  if isMessage opcode then [payload] else []

def messages (os : List Outgoing) : List Bytes := os.flatMap fun o => message o.opcode o.payload

theorem messages_append (os os' : List Outgoing) : messages (os++os') = messages os++messages os' :=
  List.flatMap_append

/-- What may follow the whole frames: nothing, a torso on a closed socket, or the beginning of a
close frame and then anything. -/
inductive Socket.Tail (w : Socket) : Bytes → Prop where
  | none : w.Tail []
  | torso (o : Outgoing) (n : ℕ) (hclosed : w.ncClosed = true)
      (hn : n < (o.block w.conn.client).length) : w.Tail ((o.block w.conn.client).take n)
  | close (rest : Bytes) : w.Tail (0x88::rest)

structure Socket.Wrote (w : Socket) (os : List Outgoing) (tail : Bytes) : Prop where
  written : w.written = (os.map (Outgoing.block w.conn.client)).flatten++tail
  ending : w.Tail tail
  sent : messages os <+: w.sent
  all : tail = [] → messages os = w.sent

section
variable {w w' : Socket} {os : List Outgoing} {tail : Bytes}

theorem Socket.Wrote.keep (h : w.Wrote os tail) (hclient : w'.conn.client = w.conn.client)
    (hwritten : w'.written = w.written) (hsent : w'.sent = w.sent)
    (hclosed : w.ncClosed = true → w'.ncClosed = true) : w'.Wrote os tail := by
  refine ⟨?_,?_,?_,?_⟩
  · rw [hwritten,hclient]
    exact h.written
  · cases h.ending with
    | none => exact .none
    | torso o n hc hn =>
        rw [← hclient] at hn ⊢
        exact .torso o n (hclosed hc) hn
    | close rest => exact .close rest
  · rw [hsent]
    exact h.sent
  · rw [hsent]
    exact h.all

theorem Socket.Wrote.append (h : w.Wrote os []) (o : Outgoing) :
    Socket.Wrote {w with
      written := w.written++o.block w.conn.client
      sent := w.sent++message o.opcode o.payload} (os++[o]) [] := by
  have hsame : messages (os++[o]) = w.sent++message o.opcode o.payload := by
    rw [messages_append,h.all rfl,messages,List.flatMap_singleton]
  refine ⟨?_,.none,hsame ▸ List.prefix_rfl,fun _ => hsame⟩
  simp [h.written]

theorem Socket.Wrote.whole (h : w.Wrote os tail) (hopen : w.ncClosed = false) (o : Outgoing) :
    ∃ more tail', Socket.Wrote {w with
      written := w.written++o.block w.conn.client
      sent := w.sent++message o.opcode o.payload} (os++more) tail' := by
  have hold := h
  obtain ⟨hwritten,htail,hsent,hall⟩ := h
  cases htail with
  | none => exact ⟨[o],[],hold.append o⟩
  | torso o n hclosed hn => cases hopen.symm.trans hclosed
  | close rest =>
      refine ⟨[],0x88::(rest++o.block w.conn.client),?_,.close _,?_,fun hx => by cases hx⟩
      · simp [hwritten]
      · rw [List.append_nil]
        exact hsent.trans (List.prefix_append _ _)

/-- A write that fails in the middle of a frame leaves the socket closed, or has written
nothing. -/
theorem Socket.Wrote.cut (h : w.Wrote os tail) (hopen : w.ncClosed = false) {o : Outgoing}
    {m : ℕ} (hm : m < (o.block w.conn.client).length) (hclient : w'.conn.client = w.conn.client)
    (hwritten : w'.written = w.written++(o.block w.conn.client).take m)
    (hsent : w'.sent = w.sent) (hclosed : 0 < m → w'.ncClosed = true) :
    ∃ tail', w'.Wrote os tail' := by
  obtain ⟨hold,htail,hbegin,hall⟩ := h
  cases htail with
  | none =>
      rcases Nat.eq_zero_or_pos m with rfl | hpos
      · refine ⟨[],?_,.none,hsent ▸ hbegin,hsent ▸ hall⟩
        simpa [hwritten,hclient] using hold
      · refine ⟨(o.block w.conn.client).take m,?_,?_,hsent ▸ hbegin,fun _ => hsent ▸ hall rfl⟩
        · simp [hwritten,hclient,hold]
        · rw [← hclient] at hm ⊢
          exact .torso o m (hclosed hpos) hm
  | torso o n hc hn => cases hopen.symm.trans hc
  | close rest =>
      refine ⟨0x88::(rest++(o.block w.conn.client).take m),?_,.close _,hsent ▸ hbegin,
        fun hx => by cases hx⟩
      simp [hwritten,hclient,hold]

end

/-- No write is cut short between the moment in which another goroutine marks the connection as
closed and the one in which it closes the socket. -/
def Write.Intact (s : Socket) : Write → Prop
  | .whole => True
  | .cut n => 0 < n → s.conn.isClosed = true → s.ncClosed = true

theorem Socket.Wrote.framed {w w' : Socket} {os : List Outgoing} {tail : Bytes}
    {opcode : UInt8} {payload : Bytes} {how : Write} (h : w.Wrote os tail)
    (hframe : w.WritesFrame opcode payload how (.ok (),w')) :
    ∃ more tail', Socket.Wrote {w' with sent := w'.sent++message opcode payload} (os++more)
      tail' := by
  cases hframe with
  | written o s' hop hpayload hwrites =>
      cases hwrites with
      | whole hopen =>
          obtain ⟨more,tail',hwrote⟩ := h.whole hopen o
          rw [hop,hpayload] at hwrote
          exact ⟨more,tail',hwrote⟩

theorem Socket.Wrote.failed {w w' : Socket} {os : List Outgoing} {tail : Bytes}
    {opcode : UInt8} {payload : Bytes} {how : Write} {e : ConnError} (h : w.Wrote os tail)
    (hhow : how.Intact w) (hframe : w.WritesFrame opcode payload how (.error e,w')) :
    ∃ tail', w'.Wrote os tail' := by
  cases hframe with
  | refused => exact ⟨tail,h⟩
  | failed o s' hwrites =>
      cases hwrites with
      | cut n m hopen hm hn =>
          refine h.cut hopen hm rfl rfl rfl fun hpos => ?_
          -- the connection was open, so that it is the failure which closes the socket
          have hconn : w.conn.isClosed = false := by
            cases hc : w.conn.isClosed with
            | false => rfl
            | true => exact absurd (hhow (by omega) hc) (by simp [hopen])
          simp [Socket.fail,hconn]
      | closed how hclosed =>
          exact ⟨tail,h.keep rfl rfl rfl fun _ => by simp [Socket.fail,hclosed]⟩

/-- A close frame may be cut short anywhere. -/
theorem Socket.Wrote.closing {w : Socket} {os : List Outgoing} {tail piece : Bytes}
    (h : w.Wrote os tail) (hopen : w.ncClosed = false)
    (hpiece : piece = [] ∨ ∃ rest, piece = 0x88::rest) :
    ∃ tail', Socket.Wrote {w with written := w.written++piece} os tail' := by
  obtain ⟨hwritten,htail,hsent,hall⟩ := h
  cases htail with
  | none =>
      rcases hpiece with rfl | ⟨rest,rfl⟩
      · exact ⟨[],by simp [hwritten],.none,hsent,hall⟩
      · exact ⟨0x88::rest,by simp [hwritten],.close rest,hsent,fun hx => by cases hx⟩
  | torso o n hclosed hn => cases hopen.symm.trans hclosed
  | close rest =>
      exact ⟨0x88::(rest++piece),by simp [hwritten],.close _,hsent,fun hx => by cases hx⟩

theorem Socket.Wrote.closeFrame {w : Socket} {os : List Outgoing} {tail : Bytes}
    (h : w.Wrote os tail) (how : Write) : ∃ tail', (w.sendCloseBestEffort how).Wrote os tail' := by
  obtain ⟨rest,hrest⟩ : ∃ rest, closeBlock w.conn.client = 0x88::rest := by
    cases w.conn.client <;> exact ⟨_,rfl⟩
  have hwrites := write_writes w (closeBlock w.conn.client) (by simp [hrest]) how
  rw [Socket.sendCloseBestEffort]
  generalize (w.write (closeBlock w.conn.client) how).1 = ok at hwrites
  generalize (w.write (closeBlock w.conn.client) how).2 = w' at hwrites ⊢
  cases hwrites with
  | whole hopen => exact h.closing hopen (.inr ⟨rest,hrest⟩)
  | cut n m hopen hm hn =>
      refine h.closing hopen ?_
      rw [hrest]
      cases m with
      | zero => exact .inl rfl
      | succ m => exact .inr ⟨_,rfl⟩
  | closed how hclosed => exact ⟨tail,h⟩

/-! ### What the loop makes of it -/

theorem Conn.step_client (c : Conn) (ev : WebSocketMessages.Event) :
    (c.step ev).client = c.client := by
  have hdata : ∀ (c : Conn) (f : Frame), (c.data f).client = c.client := by
    intro c f
    by_cases h₀ : f.opcode = 0x0
    · by_cases hempty : c.partialMsg = []
      · rw [Conn.data_unsolicited h₀ hempty]
        rfl
      · rw [Conn.data_continuation h₀ hempty]
    · rw [Conn.data_begin h₀]
  cases ev with
  | read stream pong =>
      dsimp only [Conn.step]
      split_ifs
      · split
        · rfl
        · dsimp only [Conn.handle]
          split_ifs
          · rfl
          · rfl
          · rfl
          · rfl
          · exact hdata _ _
          · rfl
      · rfl
  | broken =>
      dsimp only [Conn.step]
      split_ifs <;> rfl
  | put =>
      dsimp only [Conn.step]
      split
      · split_ifs <;> rfl
      · rfl
  | leave =>
      dsimp only [Conn.step]
      split_ifs <;> rfl
  | receive =>
      dsimp only [Conn.step]
      split <;> rfl
  | shutdown reason => rfl

/-- A frame that is not fragmented. -/
theorem handle_whole {c : Conn} {f : Frame} (hfin : f.fin = true) (hpend : c.pending = none)
    (hpart : c.partialMsg = []) (pong : Bool) :
    (c.handle f pong).handed = c.handed++message f.opcode f.payload ∧
      (c.handle f pong).partialMsg = [] := by
  by_cases hdata : f.opcode = 0x1 ∨ f.opcode = 0x2
  · have h₀ : f.opcode ≠ 0x0 := by
      rintro h₀
      simp [h₀] at hdata
    rw [Conn.handle_data (.inr hdata),Conn.data_begin h₀,hfin]
    refine ⟨?_,hpart⟩
    simp [Conn.handed,hpend,message,isMessage,hdata]
  · have hnone : message f.opcode f.payload = [] := by simp [message,isMessage,hdata]
    rw [hnone,List.append_nil]
    by_cases h₀ : f.opcode = 0x0
    · rw [Conn.handle_data (.inl h₀),
        Conn.data_unsolicited (c := {c with inbound := c.inbound++[f]}) h₀ hpart]
      exact ⟨rfl,hpart⟩
    · dsimp only [Conn.handle]
      rw [if_neg (c := f.opcode = 0x0 ∨ f.opcode = 0x1 ∨ f.opcode = 0x2) (by tauto)]
      split_ifs <;> exact ⟨rfl,hpart⟩

/-- The loop has handed over the messages of the first frames. -/
structure Socket.Took (r : Socket) (client : Bool) (os : List Outgoing) (k : ℕ) : Prop where
  role : r.conn.client = !client
  le : k ≤ os.length
  handed : r.conn.handed = messages (os.take k)
  fragments : r.conn.partialMsg = []
  position : r.conn.ended = none →
    r.consumed = ((os.take k).map (Outgoing.block client)).flatten.length

section
variable {r r' : Socket} {client : Bool} {os : List Outgoing} {k : ℕ}

theorem Socket.Took.extend (h : r.Took client os k) (more : List Outgoing) :
    r.Took client (os++more) k := by
  have htake : (os++more).take k = os.take k := List.take_append_of_le_length h.le
  refine ⟨h.role,?_,?_,h.fragments,?_⟩
  · rw [List.length_append]
    exact h.le.trans (Nat.le_add_right _ _)
  · rw [htake]
    exact h.handed
  · rw [htake]
    exact h.position

theorem Socket.Took.moves (h : r.Took client os k) (hrole : r'.conn.client = r.conn.client)
    (hmoves : r.conn.Moves r'.conn) (hconsumed : r'.consumed = r.consumed) :
    r'.Took client os k := by
  refine ⟨hrole.trans h.role,h.le,hmoves.handed.trans h.handed,hmoves.partialMsg.trans h.fragments,
    ?_⟩
  rw [hmoves.ended,hconsumed]
  exact h.position

/-- The loop has failed. -/
theorem Socket.Took.finish (h : r.Took client os k) (hrole : r'.conn.client = r.conn.client)
    (hhanded : r'.conn.handed = r.conn.handed) (hpart : r'.conn.partialMsg = r.conn.partialMsg)
    (hended : r'.conn.ended.isSome = true) : r'.Took client os k := by
  refine ⟨hrole.trans h.role,h.le,hhanded.trans h.handed,hpart.trans h.fragments,fun hnone => ?_⟩
  rw [hnone] at hended
  cases hended

end

theorem step_read_ok {c : Conn} {stream : Bytes} {f : Frame} {n : ℕ} (hreading : c.reading = true)
    (h : readFrame c.client stream 0 = .ok (f,n)) (pong : Bool) :
    c.step (.read stream pong) = c.handle f pong := by
  simp only [Conn.step,hreading,if_true,h]

theorem step_read_error {c : Conn} {stream : Bytes} {e : ConnError} (hreading : c.reading = true)
    (h : readFrame c.client stream 0 = .error e) (pong : Bool) :
    c.step (.read stream pong) = c.finish e := by
  simp only [Conn.step,hreading,if_true,h]

/-- The opcode stands in the first byte. -/
theorem readFrame_close {client : Bool} {rest : Bytes} {f : Frame} {n : ℕ}
    (h : readFrame client (0x88::rest) 0 = .ok (f,n)) : f.opcode = 0x8 := by
  obtain ⟨hdr,j,hhdr,hbody⟩ := bind_eq_ok h
  have hfirst : hdr.getD 0 0 = 0x88 := by
    unfold readFull block at hhdr
    split_ifs at hhdr
    cases hhdr
    simp [window]
  dsimp only at hbody
  rw [hfirst] at hbody
  split_ifs at hbody
  · cases hbody
  · cases hbody
  · obtain ⟨length,j,_,hbody⟩ := bind_eq_ok hbody
    obtain ⟨payload,j,_,hbody⟩ := bind_eq_ok hbody
    cases hbody
    rfl

theorem readFrame_firm (client : Bool) : Firm misses (readFrame client) := by
  have hfull : ∀ n, Firm misses (readFull n) := by
    refine fun n => Firm.block ?_ n
    intro d i
    split_ifs <;> rfl
  have hlength : ∀ b, Firm misses (readLength b) := by
    intro b
    unfold readLength
    split_ifs
    · exact (hfull 2).bind fun _ => .pure _
    · exact (hfull 8).bind fun _ => .pure _
    · exact .pure _
  have hbody : ∀ n, Firm misses (readBody client n) := by
    intro n
    unfold readBody
    split_ifs
    · exact .fail _
    · exact hfull n
    · exact (hfull 4).bind fun _ => (hfull n).bind fun _ => .pure _
  apply (hfull 2).bind
  intro hdr
  dsimp only
  split_ifs
  · exact .fail _
  · exact .fail _
  · exact (hlength _).bind fun n => (hbody n).bind fun _ => .pure _

/-- What the reader makes of the bytes that have arrived: it finds the next frame, waits for the
rest of it, or has come to a close frame. -/
inductive Finds (client : Bool) (os : List Outgoing) (tail : Bytes) (k arrived : ℕ) :
    Except ConnError (Frame × ℕ) → Prop where
  | frame (o : Outgoing) (ho : os[k]? = some o) :
      Finds client os tail k arrived (.ok (o.frame,(o.block client).length))
  | waits (e : ConnError) (he : misses e = true)
      (hshort : ∀ o, os[k]? = some o → arrived < (o.block client).length) :
      Finds client os tail k arrived (.error e)
  | close (rest : Bytes) (htail : tail = 0x88::rest) {res : Except ConnError (Frame × ℕ)}
      (hclose : ∀ f n, res = .ok (f,n) → f.opcode = 0x8) : Finds client os tail k arrived res

theorem readFrame_waits {client : Bool} {o : Outgoing} {n : ℕ}
    (hn : n < (o.block client).length) :
    ∃ e, readFrame (!client) ((o.block client).take n) 0 = .error e ∧ misses e = true := by
  obtain ⟨e,he⟩ := readFrame_cut client o [] hn
  rw [List.nil_append,List.length_nil] at he
  exact ⟨e,he,(readFrame_firm (!client)).waits (readFrame_reads client o) he⟩

theorem readFrame_finds {w r : Socket} {os : List Outgoing} {tail : Bytes} {k : ℕ}
    (hw : w.Wrote os tail) (hr : r.Took w.conn.client os k) (hend : r.conn.ended = none)
    (arrived : ℕ) :
    Finds w.conn.client os tail k arrived
      (readFrame r.conn.client ((w.written.drop r.consumed).take arrived) 0) := by
  have hrest : w.written.drop r.consumed =
      ((os.drop k).map (Outgoing.block w.conn.client)).flatten++tail := by
    have hsplit : (os.map (Outgoing.block w.conn.client)).flatten =
        ((os.take k).map (Outgoing.block w.conn.client)).flatten++
          ((os.drop k).map (Outgoing.block w.conn.client)).flatten := by
      rw [← List.flatten_append,← List.map_append,List.take_append_drop]
    rw [hw.written,hr.position hend,hsplit,List.append_assoc,List.drop_left]
  rw [hrest,hr.role]
  cases hdrop : os.drop k with
  | nil =>
      have hnone : ∀ o, os[k]? = some o → arrived < (o.block w.conn.client).length := by
        intro o ho
        rw [← List.head?_drop,hdrop] at ho
        cases ho
      rw [List.map_nil,List.flatten_nil,List.nil_append]
      cases hw.ending with
      | none =>
          rw [List.take_nil]
          have hempty : readFrame (!w.conn.client) [] 0 = .error .eof := by
            cases w.conn.client <;> rfl
          rw [hempty]
          exact .waits _ rfl hnone
      | torso o n hclosed hn =>
          rw [List.take_take]
          obtain ⟨e,he,hmisses⟩ := readFrame_waits ((Nat.min_le_right arrived n).trans_lt hn)
          rw [he]
          exact .waits e hmisses hnone
      | close rest =>
          refine .close rest rfl fun f n hread => ?_
          cases arrived with
          | zero => cases hclient : w.conn.client <;> rw [hclient] at hread <;> cases hread
          | succ m => exact readFrame_close hread
  | cons o more =>
      have ho : os[k]? = some o := by
        rw [← List.head?_drop,hdrop]
        rfl
      rw [List.map_cons,List.flatten_cons,List.append_assoc]
      rcases Nat.lt_or_ge arrived (o.block w.conn.client).length with hlt | hge
      · rw [List.take_append_of_le_length hlt.le]
        obtain ⟨e,he,hmisses⟩ := readFrame_waits hlt
        rw [he]
        refine .waits e hmisses fun o' ho' => ?_
        rw [ho] at ho'
        cases ho'
        exact hlt
      · rw [List.take_append,List.take_of_length_le hge]
        have hread := readFrame_reads w.conn.client o []
          (((more.map (Outgoing.block w.conn.client)).flatten++tail).take
            (arrived-(o.block w.conn.client).length))
        rw [List.nil_append,List.length_nil,Nat.zero_add] at hread
        rw [hread]
        exact .frame o ho

/-- The connection has read what it had read, and may have been failed by a write. -/
def Same (c c' : Conn) : Prop := c' = c ∨ c' = c.fail .other

theorem Same.moves {c c' : Conn} (h : Same c c') : c.Moves c' := by
  rcases h with rfl | rfl <;> exact ⟨rfl,rfl,rfl,rfl⟩

theorem Same.client {c c' : Conn} (h : Same c c') : c'.client = c.client := by
  rcases h with rfl | rfl <;> rfl

theorem Same.pending {c c' : Conn} (h : Same c c') : c'.pending = c.pending := by
  rcases h with rfl | rfl <;> rfl

theorem Same.reading {c c' : Conn} (h : Same c c') : c'.reading = c.reading := by
  rcases h with rfl | rfl <;> rfl

theorem Socket.Writes.reader {s s' : Socket} {block : Bytes} {how : Write} {ok : Bool}
    (h : s.Writes block how ok s') : s'.conn = s.conn ∧ s'.consumed = s.consumed := by
  cases h <;> exact ⟨rfl,rfl⟩

theorem Socket.WritesFrame.reader {s : Socket} {opcode : UInt8} {payload : Bytes} {how : Write}
    {res : Except ConnError Unit × Socket} (h : s.WritesFrame opcode payload how res) :
    Same s.conn res.2.conn ∧ res.2.consumed = s.consumed := by
  cases h with
  | refused e => exact ⟨.inl rfl,rfl⟩
  | written o s' hop hpayload hwrites => exact ⟨.inl hwrites.reader.1,hwrites.reader.2⟩
  | failed o s' hwrites =>
      refine ⟨.inr ?_,hwrites.reader.2⟩
      rw [Socket.fail,hwrites.reader.1]

section
variable {r r' : Socket} {client : Bool} {os : List Outgoing} {k : ℕ}

/-- The loop has read the next frame. -/
theorem Socket.Took.advance (h : r.Took client os k) (hreading : r.conn.reading = true)
    {o : Outgoing} (ho : os[k]? = some o) {c : Conn} (hc : Same r.conn c) (pong : Bool)
    (hconn : r'.conn = c.handle o.frame pong) (hclient : r'.conn.client = r.conn.client)
    (hconsumed : r'.consumed = r.consumed+(o.block client).length) : r'.Took client os (k+1) := by
  obtain ⟨hend,_,hpend⟩ := Conn.reading_iff.mp hreading
  have hpart : c.partialMsg = [] := hc.moves.partialMsg.trans h.fragments
  obtain ⟨hhanded,hfragments⟩ :=
    handle_whole (f := o.frame) rfl (hc.pending.trans hpend) hpart pong
  have htake : os.take (k+1) = os.take k++[o] := by rw [List.take_add_one,ho,Option.toList_some]
  refine ⟨hclient.trans h.role,?_,?_,?_,fun _ => ?_⟩
  · exact (List.getElem?_eq_some_iff.mp ho).1
  · rw [hconn,hhanded,hc.moves.handed,h.handed,htake,messages_append]
    simp [messages,Outgoing.frame]
  · rw [hconn,hfragments]
  · rw [hconsumed,h.position hend,htake]
    simp

theorem Socket.Took.read {w : Socket} {tail : Bytes} (h : r.Took w.conn.client os k)
    (hw : w.Wrote os tail) (arrived : ℕ) (key : Option (Vector UInt8 4)) (how : Write) :
    ∃ k', (r.read w arrived key how).Took w.conn.client os k' := by
  unfold Socket.read
  dsimp only
  split_ifs with hreading
  · have hfinds := readFrame_finds hw h (Conn.reading_iff.mp hreading).1 arrived
    generalize hstream : (w.written.drop r.consumed).take arrived = stream at hfinds ⊢
    cases hread : readFrame r.conn.client stream 0 with
    | error e =>
        dsimp only
        split_ifs
        · exact ⟨k,h⟩
        · refine ⟨k,h.finish (Conn.step_client _ _) ?_ ?_ ?_⟩ <;>
            rw [step_read_error hreading hread] <;> rfl
    | ok res =>
        obtain ⟨f,n⟩ := res
        rw [hread] at hfinds
        dsimp only
        cases hfinds with
        | frame o ho =>
            split_ifs with hping
            · have hwrites := writeFrame_writes {r with
                consumed := r.consumed+(o.block w.conn.client).length} key
                0xA (by decide) o.frame.payload how
              generalize Socket.writeFrame _ _ _ _ _ = res at hwrites ⊢
              obtain ⟨hsame,hconsumed⟩ := hwrites.reader
              have hreads : readFrame res.2.conn.client stream 0 =
                  .ok (o.frame,(o.block w.conn.client).length) := by
                rw [hsame.client]
                exact hread
              have hanswer : ∀ pong, Socket.Took {res.2 with
                  conn := res.2.conn.step (.read stream pong)} w.conn.client os (k+1) :=
                fun pong => h.advance hreading ho hsame pong
                  (step_read_ok (hsame.reading.trans hreading) hreads pong)
                  ((Conn.step_client _ _).trans hsame.client) hconsumed
              split
              · exact ⟨k+1,hanswer true⟩
              · exact ⟨k+1,hanswer false⟩
            · exact ⟨k+1,h.advance hreading ho (.inl rfl) true (step_read_ok hreading hread true)
                (Conn.step_client _ _) rfl⟩
        | close rest htail hclose =>
            have hop := hclose f n rfl
            rw [if_neg (by rw [hop]; decide)]
            have hstep : r.conn.step (.read stream true) =
                Conn.finish {r.conn with inbound := r.conn.inbound++[f]} .closed := by
              rw [step_read_ok hreading hread,Conn.handle,if_pos hop]
            refine ⟨k,h.finish (Conn.step_client _ _) ?_ ?_ ?_⟩ <;> rw [hstep] <;> rfl
  · exact ⟨k,h⟩

end

/-! ### Messages stay in order -/

/-- The writes of the act are not cut short in the moment of a closing. A call of `writeFrame` that
fails counts as a whole: the socket is closed in the same event in which the write is cut. -/
def Act.Intact (s : Socket) : Act → Prop
  | .send _ _ _ how => how.Intact s
  | .read _ _ how => how.Intact s
  | _ => True

instance (s : Socket) : (how : Write) → Decidable (how.Intact s)
  | .whole => .isTrue trivial
  | .cut n => inferInstanceAs (Decidable (0 < n → s.conn.isClosed = true → s.ncClosed = true))

instance (s : Socket) (a : Act) : Decidable (a.Intact s) :=
  match a with
  | .send _ _ _ how => inferInstanceAs (Decidable (how.Intact s))
  | .read _ _ how => inferInstanceAs (Decidable (how.Intact s))
  | .closeFrame _ => .isTrue trivial
  | .shutdown => .isTrue trivial
  | .closeSocket => .isTrue trivial
  | .broken => .isTrue trivial
  | .put => .isTrue trivial
  | .leave => .isTrue trivial
  | .receive => .isTrue trivial

theorem message_pong (payload : Bytes) : message 0xA payload = [] := rfl

theorem read_wrote {s peer : Socket} {os : List Outgoing} {tail : Bytes} (h : s.Wrote os tail)
    (arrived : ℕ) (key : Option (Vector UInt8 4)) {how : Write} (hhow : how.Intact s) :
    ∃ more tail', (s.read peer arrived key how).Wrote (os++more) tail' := by
  have hsame : ∃ more tail', s.Wrote (os++more) tail' := ⟨[],tail,by rwa [List.append_nil]⟩
  -- the loop itself writes nothing
  have hconn : ∀ {w : Socket} (ev : WebSocketMessages.Event),
      (∃ more tail', w.Wrote (os++more) tail') →
      ∃ more tail', Socket.Wrote {w with conn := w.conn.step ev} (os++more) tail' := by
    rintro w ev ⟨more,tail',hw⟩
    exact ⟨more,tail',hw.keep (Conn.step_client _ _) rfl rfl id⟩
  unfold Socket.read
  dsimp only
  split_ifs
  · split
    · split_ifs
      · exact hsame
      · exact hconn _ hsame
    · rename_i f n hread
      have hmoved : Socket.Wrote {s with consumed := s.consumed+n} os tail :=
        h.keep rfl rfl rfl id
      split_ifs
      · have hwrites := writeFrame_writes {s with consumed := s.consumed+n} key
          0xA (by decide) f.payload how
        split
        · rename_i w hw
          rw [hw] at hwrites
          have hpong := hmoved.framed hwrites
          simp only [message_pong,List.append_nil] at hpong
          exact hconn _ hpong
        · rename_i e w hw
          rw [hw] at hwrites
          obtain ⟨tail',hfailed⟩ := hmoved.failed hhow hwrites
          exact hconn _ ⟨[],tail',by rwa [List.append_nil]⟩
      · exact hconn _ ⟨[],tail,by rwa [List.append_nil]⟩
  · exact hsame

theorem send_wrote {s : Socket} {os : List Outgoing} {tail : Bytes} (h : s.Wrote os tail)
    (kind : Kind) (payload : Bytes) (key : Option (Vector UInt8 4)) {how : Write}
    (hhow : how.Intact s) :
    ∃ more tail', (s.send kind payload key how).Wrote (os++more) tail' := by
  have hwrites := writeFrame_writes s key kind.opcode (by cases kind <;> decide)
    payload how
  unfold Socket.send
  split
  · rename_i w hw
    rw [hw] at hwrites
    have hframed := h.framed hwrites
    rw [message] at hframed
    split_ifs at hframed ⊢
    · exact hframed
    · simpa only [List.append_nil] using hframed
  · rename_i e w hw
    rw [hw] at hwrites
    obtain ⟨tail',hfailed⟩ := h.failed hhow hwrites
    exact ⟨[],tail',by rwa [List.append_nil]⟩

theorem act_wrote {s peer : Socket} {os : List Outgoing} {tail : Bytes} (h : s.Wrote os tail)
    {a : Act} (ha : a.Intact s) : ∃ more tail', (s.act peer a).Wrote (os++more) tail' := by
  have hkept : ∀ {w : Socket} {tail' : Bytes}, w.Wrote os tail' →
      ∃ more tail', w.Wrote (os++more) tail' :=
    fun hw => ⟨[],_,by rwa [List.append_nil]⟩
  have hconn : ∀ ev : WebSocketMessages.Event,
      Socket.Wrote {s with conn := s.conn.step ev} os tail :=
    fun ev => h.keep (Conn.step_client _ _) rfl rfl id
  cases a with
  | send kind payload key how => exact send_wrote h kind payload key ha
  | closeFrame how =>
      obtain ⟨tail',hclose⟩ := h.closeFrame how
      exact hkept hclose
  | shutdown => exact hkept (hconn _)
  | closeSocket =>
      dsimp only [Socket.act]
      split_ifs
      · exact hkept (h.keep rfl rfl rfl fun _ => rfl)
      · exact hkept h
  | read arrived key how => exact read_wrote h arrived key ha
  | broken => exact hkept (hconn _)
  | put => exact hkept (hconn _)
  | leave => exact hkept (hconn _)
  | receive => exact hkept (hconn _)

theorem send_reader (s : Socket) (kind : Kind) (payload : Bytes)
    (key : Option (Vector UInt8 4)) (how : Write) :
    Same s.conn (s.send kind payload key how).conn ∧
      (s.send kind payload key how).consumed = s.consumed := by
  have hreader := (writeFrame_writes s key kind.opcode (by cases kind <;> decide)
    payload how).reader
  unfold Socket.send
  split
  · rename_i w hw
    rw [hw] at hreader
    split_ifs <;> exact hreader
  · rename_i e w hw
    rw [hw] at hreader
    exact hreader

theorem close_reader (s : Socket) (how : Write) :
    (s.sendCloseBestEffort how).conn = s.conn ∧
      (s.sendCloseBestEffort how).consumed = s.consumed := by
  have hpos : 0 < (closeBlock s.conn.client).length := by cases s.conn.client <;> decide
  exact (write_writes s _ hpos how).reader

theorem act_took {s peer : Socket} {os : List Outgoing} {tail : Bytes} {k : ℕ}
    (h : s.Took peer.conn.client os k) (hpeer : peer.Wrote os tail) (a : Act) :
    ∃ k', (s.act peer a).Took peer.conn.client os k' := by
  have hconn : ∀ ev, s.conn.Moves (s.conn.step ev) →
      Socket.Took {s with conn := s.conn.step ev} peer.conn.client os k :=
    fun ev hmoves => h.moves (Conn.step_client _ _) hmoves rfl
  cases a with
  | send kind payload key how =>
      obtain ⟨hsame,hconsumed⟩ := send_reader s kind payload key how
      exact ⟨k,h.moves hsame.client hsame.moves hconsumed⟩
  | closeFrame how =>
      obtain ⟨hsame,hconsumed⟩ := close_reader s how
      exact ⟨k,h.moves (congrArg Conn.client hsame) (Same.moves (.inl hsame)) hconsumed⟩
  | shutdown => exact ⟨k,hconn _ ⟨rfl,rfl,rfl,rfl⟩⟩
  | closeSocket =>
      dsimp only [Socket.act]
      split_ifs
      · exact ⟨k,h.moves rfl ⟨rfl,rfl,rfl,rfl⟩ rfl⟩
      · exact ⟨k,h⟩
  | read arrived key how => exact h.read hpeer arrived key how
  | broken =>
      refine ⟨k,?_⟩
      dsimp only [Socket.act,Conn.step]
      split_ifs
      · exact h.finish rfl rfl rfl rfl
      · exact h
  | put => exact ⟨k,hconn _ s.conn.put_moves⟩
  | leave => exact ⟨k,hconn _ s.conn.leave_moves⟩
  | receive => exact ⟨k,hconn _ s.conn.receive_moves⟩

/-- The messages that an end has sent reach the other one. -/
def Carries (w r : Socket) : Prop :=
  ∃ os tail k, w.Wrote os tail ∧ r.Took w.conn.client os k

theorem Carries.received {w r : Socket} (h : Carries w r) : r.conn.received <+: w.sent := by
  obtain ⟨os,tail,k,hw,hr⟩ := h
  calc r.conn.received
    _ <+: r.conn.handed := by
        rw [Conn.handed,List.append_assoc]
        exact List.prefix_append _ _
    _ = messages (os.take k) := hr.handed
    _ <+: messages os := by
        conv_rhs => rw [← List.take_append_drop k os,messages_append]
        exact List.prefix_append _ _
    _ <+: w.sent := hw.sent

theorem Link.step_self (l : Link) (a : Bool) (act : Act) :
    l.step ⟨a,act⟩ a = (l a).act (l !a) act := Function.update_self ..

theorem Link.step_peer (l : Link) (a : Bool) (act : Act) : l.step ⟨a,act⟩ (!a) = l !a :=
  Function.update_of_ne (by simp) ..

/-- Both directions, with the roles of the ends. -/
structure Link.Ordered (l : Link) : Prop where
  role : ∀ client, (l client).conn.client = client
  carries : ∀ client, Carries (l client) (l !client)

theorem Link.Ordered.step {l : Link} (h : l.Ordered) (ev : Event)
    (hev : ev.act.Intact (l ev.client)) : (l.step ev).Ordered := by
  obtain ⟨a,act⟩ := ev
  have hacting := l.step_self a act
  have hother := l.step_peer a act
  have hback := h.carries (!a)
  rw [Bool.not_not] at hback
  obtain ⟨os,tail,k,hpeer,htook⟩ := hback
  obtain ⟨k',htook'⟩ := act_took htook hpeer act
  have hrole : ((l a).act (l !a) act).conn.client = a := by
    rw [htook'.role,h.role,Bool.not_not]
  constructor
  · intro client
    rcases Bool.eq_or_eq_not client a with rfl | rfl
    · rw [hacting,hrole]
    · rw [hother,h.role]
  · intro client
    rcases Bool.eq_or_eq_not client a with rfl | rfl
    · obtain ⟨os,tail,k,hwrote,hreads⟩ := h.carries client
      obtain ⟨more,tail',hwrote'⟩ := act_wrote hwrote hev
      rw [h.role] at hreads
      rw [hacting,hother]
      refine ⟨os++more,tail',k,hwrote',?_⟩
      rw [hrole]
      exact hreads.extend more
    · rw [Bool.not_not,hacting,hother]
      exact ⟨os,tail,k',hpeer,htook'⟩

theorem ordered_start : Link.start.Ordered := by
  refine ⟨fun _ => rfl,fun client => ⟨[],[],0,?_,?_⟩⟩
  · exact ⟨rfl,.none,List.prefix_rfl,fun _ => rfl⟩
  · exact ⟨rfl,le_rfl,rfl,rfl,fun _ => rfl⟩

/-- Whatever both ends do and however the bytes arrive, the messages that an end has received are
the first ones of those that the other end has sent, in their order, as long as no write is cut
short while another goroutine is closing the same end. -/
theorem link_ordered (evs : List Event)
    (h : Along Link.step (fun l ev => ev.act.Intact (l ev.client)) evs Link.start)
    (client : Bool) :
    ((run Link.step evs Link.start) !client).conn.received <+:
      (run Link.step evs Link.start client).sent := by
  have hordered : (run Link.step evs Link.start).Ordered :=
    h.invariant (fun l ev hl hev => hl.step ev hev) ordered_start
  exact (hordered.carries client).received

/-- A message arrives in two pieces, a ping is answered, and a write fails in the middle. -/
def sampleTraffic : List Event :=
  [⟨true,.send .binary [7] (some #v[1,2,3,4]) .whole⟩,⟨false,.read 3 none .whole⟩,
    ⟨true,.send .ping [] (some #v[0,0,0,0]) .whole⟩,⟨true,.send .text [8,9] none .whole⟩,
    ⟨false,.read 20 none .whole⟩,⟨false,.put⟩,⟨false,.read 20 none .whole⟩,⟨false,.receive⟩,
    ⟨true,.send .binary [8,9] (some #v[1,1,1,1]) (.cut 5)⟩,⟨false,.read 20 none .whole⟩,
    ⟨true,.read 9 none .whole⟩]

theorem link_ordered_sample :
    Along Link.step (fun l ev => ev.act.Intact (l ev.client)) sampleTraffic Link.start ∧
    (run Link.step sampleTraffic Link.start true).ncClosed = true ∧
    (run Link.step sampleTraffic Link.start false).conn.received = [[7]] ∧
    (run Link.step sampleTraffic Link.start false).conn.received <+:
      (run Link.step sampleTraffic Link.start true).sent := by
  refine ⟨by decide +kernel,by decide +kernel,by decide +kernel,?_⟩
  exact link_ordered sampleTraffic (by decide +kernel) true

/-- A write is cut short while the connection is marked as closed and the socket still open. The
frame that another goroutine writes next completes the torso to a message nobody has sent. -/
example :
    let l := run Link.step [⟨false,.shutdown⟩,⟨false,.send .binary [1,2,3,4] none (.cut 3)⟩,
      ⟨false,.send .binary [9] none .whole⟩,⟨true,.read 20 none .whole⟩,⟨true,.put⟩,
      ⟨true,.receive⟩] Link.start
    (l false).sent = [[9]] ∧ (l true).conn.received = [[1,0x82,1,9]] := by
  decide +kernel

end BaturWhatsApi.SocketLink
