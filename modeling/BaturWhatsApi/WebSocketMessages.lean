import BaturWhatsApi.WebSocketFrames
import BaturWhatsApi.Runs

/-!
# Messages over a WebSocket connection

`readLoop`, `accumulate` and `ReceiveBinary` of `transport/ws/ws.go`. The loop reads
one frame at a time from whatever bytes the peer sends. It hands a finished message to a
channel of 64 places and waits there while the channel is full. Other goroutines take
messages out of the channel or close the connection.

The fragments of a message are collected in one byte string, and this string is empty
also when no message is in progress. An empty first fragment is therefore forgotten, and
a new message in the middle of another one is not noticed. The string has no limit.
-/
namespace BaturWhatsApi.WebSocketMessages
open ByteStrings PositionalReaders PositionalReaders.Reader WebSocketFrames Runs
open SessionSend (maxFrameSize)

/-! ### The connection -/

/-- `pending` is the message that the loop is about to put into the channel, and `ended` the
error it has failed with. The frames read so far are kept in `inbound`. -/
structure Conn where
  client : Bool
  partialMsg : Bytes := []
  pending : Option Bytes := none
  frames : List Bytes := []
  received : List Bytes := []
  lastErr : Option ConnError := none
  isClosed : Bool := false
  ended : Option ConnError := none
  left : Bool := false
  inbound : List Frame := []

def queueSize : ℕ := 64

def Conn.fail (c : Conn) (e : ConnError) : Conn :=
  {c with lastErr := c.lastErr.or (some e),isClosed := true}

/-- The loop fails the connection and returns. -/
def Conn.finish (c : Conn) (e : ConnError) : Conn := {c.fail e with ended := some e}

/-- A message, if one is finished, and whether the frame was in place. -/
def Conn.accumulate (c : Conn) (f : Frame) : (Option Bytes × Bool) × Conn :=
  if f.opcode ≠ 0x0 then
    if !f.fin then ((none,true),{c with partialMsg := f.payload})
    else ((some f.payload,true),c)
  else if c.partialMsg.length = 0 then ((none,false),c)
  else if !f.fin then ((none,true),{c with partialMsg := c.partialMsg++f.payload})
  else ((some (c.partialMsg++f.payload),true),{c with partialMsg := []})

/-- A data frame. -/
def Conn.data (c : Conn) (f : Frame) : Conn :=
  match c.accumulate f with
  | ((_,false),c) => c.finish .protocol
  | ((msg,true),c) => {c with pending := msg}

/-- One round of the loop on a frame. A pong may fail to be written. -/
def Conn.handle (c : Conn) (f : Frame) (pong : Bool) : Conn :=
  let c := {c with inbound := c.inbound++[f]}
  if f.opcode = 0x8 then c.finish .closed
  else if f.opcode = 0x9 then if pong then c else c.finish .other
  else if f.opcode = 0xA then c
  else if f.opcode = 0x0 ∨ f.opcode = 0x1 ∨ f.opcode = 0x2 then c.data f
  else c.finish (.opcode f.opcode)

/-- The loop reads from the bytes that the peer has sent or finds the socket broken, puts its
message into the channel, or leaves because the connection was closed. `receive` is
`ReceiveBinary`, and `shutdown` is `Close` or a failed write of another goroutine. -/
inductive Event where
  | read (stream : Bytes) (pong : Bool)
  | broken
  | put
  | leave
  | receive
  | shutdown (reason : Option ConnError)
deriving DecidableEq

/-- The loop is at `readFrame`. -/
def Conn.reading (c : Conn) : Bool := c.ended.isNone && !c.left && c.pending.isNone

def Conn.step (c : Conn) : Event → Conn
  | .read stream pong =>
      if c.reading then
        match readFrame c.client stream 0 with
        | .error e => c.finish e
        | .ok (f,_) => c.handle f pong
      else c
  | .broken => if c.reading then c.finish .other else c
  | .put =>
      match c.pending with
      | some msg =>
          if c.frames.length < queueSize then {c with pending := none,frames := c.frames++[msg]}
          else c
      | none => c
  | .leave => if c.pending.isSome && c.isClosed then {c with left := true} else c
  | .receive =>
      match c.frames with
      | msg::frames => {c with frames := frames,received := c.received++[msg]}
      | [] => c
  | .shutdown reason => {c with lastErr := c.lastErr.or reason,isClosed := true}

/-- The messages on their way to the caller, in order. -/
def Conn.handed (c : Conn) : List Bytes := c.received++c.frames++c.pending.toList

/-- Messages are moved on, and the loop has read nothing. -/
structure Conn.Moves (c c' : Conn) : Prop where
  handed : c'.handed = c.handed
  partialMsg : c'.partialMsg = c.partialMsg
  inbound : c'.inbound = c.inbound
  ended : c'.ended = c.ended

theorem Conn.put_moves (c : Conn) : c.Moves (c.step .put) := by
  dsimp only [Conn.step]
  cases hpend : c.pending with
  | none => exact ⟨rfl,rfl,rfl,rfl⟩
  | some msg =>
      dsimp only
      split_ifs
      · refine ⟨?_,rfl,rfl,rfl⟩
        simp [Conn.handed,hpend]
      · exact ⟨rfl,rfl,rfl,rfl⟩

theorem Conn.leave_moves (c : Conn) : c.Moves (c.step .leave) := by
  dsimp only [Conn.step]
  split_ifs <;> exact ⟨rfl,rfl,rfl,rfl⟩

theorem Conn.receive_moves (c : Conn) : c.Moves (c.step .receive) := by
  dsimp only [Conn.step]
  cases hframes : c.frames with
  | nil => exact ⟨rfl,rfl,rfl,rfl⟩
  | cons msg frames =>
      refine ⟨?_,rfl,rfl,rfl⟩
      simp [Conn.handed,hframes]

/-! ### Fragmented messages -/

/-- What the frames of a connection amount to. -/
structure Assembly where
  messages : List Bytes := []
  current : Option Bytes := none
  violated : Bool := false

def Assembly.message (a : Assembly) (fin : Bool) (b : Bytes) : Assembly :=
  if fin then {a with messages := a.messages++[b],current := none}
  else {a with current := some b}

/-- A continuation needs a message in progress, a text or binary frame that there is none. -/
def Assembly.frame (a : Assembly) (f : Frame) : Assembly :=
  if a.violated then a
  else if f.opcode = 0x0 then
    match a.current with
    | none => {a with violated := true}
    | some b => a.message f.fin (b++f.payload)
  else if f.opcode = 0x1 ∨ f.opcode = 0x2 then
    match a.current with
    | none => a.message f.fin f.payload
    | some _ => {a with violated := true}
  else a

def assemble (fs : List Frame) : Assembly := fs.foldl Assembly.frame {}

/-- The messages are handed over, and the loop has failed where a frame was out of place. -/
structure Conn.Reassembles (c : Conn) : Prop where
  handed : c.handed = (assemble c.inbound).messages
  violated : (assemble c.inbound).violated = true ↔ c.ended = some .protocol

/-- The frame continues a message of which something has arrived, or begins one when none is in
progress. -/
def Conn.InPlace (c : Conn) (f : Frame) : Prop :=
  (f.opcode = 0x0 → (assemble c.inbound).current ≠ some []) ∧
  (f.opcode = 0x1 ∨ f.opcode = 0x2 → (assemble c.inbound).current = none)

/-- The frame that the loop reads at the event, if it reads one, has the property. -/
def Conn.Reads (c : Conn) (P : Frame → Prop) : Event → Prop
  | .read stream _ => c.reading = true → ∀ f i, readFrame c.client stream 0 = .ok (f,i) → P f
  | _ => True

theorem assemble_append (fs : List Frame) (f : Frame) :
    assemble (fs++[f]) = (assemble fs).frame f := List.foldl_append

section
variable (client : Bool) (m : ℕ)

theorem readFull_sufficient (n : ℕ) : Sufficient ConnError.protocol m (readFull n) := by
  apply block_sufficient
  intro d i
  split_ifs <;> exact fun he => (nomatch he)

theorem readBody_sufficient (n : ℕ) : Sufficient ConnError.protocol m (readBody client n) := by
  unfold readBody
  split_ifs
  · exact .fail m fun he => (nomatch he)
  · exact readFull_sufficient m _
  · exact (readFull_sufficient m _).bind (block_local _ _) fun _ =>
      (readFull_sufficient m _).bind (block_local _ _) fun _ => .pure _ m _

theorem readLength_sufficient (b : UInt8) :
    Sufficient ConnError.protocol m (readLength b) := by
  unfold readLength
  split_ifs
  · exact (readFull_sufficient m _).bind (block_local _ _) fun _ => .pure _ m _
  · exact (readFull_sufficient m _).bind (block_local _ _) fun _ => .pure _ m _
  · exact .pure _ m _

theorem readFrame_sufficient : Sufficient ConnError.protocol m (readFrame client) := by
  apply (readFull_sufficient m _).bind (block_local _ _)
  intro hdr
  dsimp only
  split_ifs
  · exact .fail m fun he => (nomatch he)
  · exact .fail m fun he => (nomatch he)
  · exact (readLength_sufficient m _).bind (readLength_local _) fun _ =>
      (readBody_sufficient client m _).bind (readBody_local _ _) fun _ => .pure _ m _

end

/-- The reader has no error of its own that looks like a frame out of place. -/
theorem readFrame_error {client : Bool} {d : Bytes} {e : ConnError}
    (h : readFrame client d 0 = .error e) : e ≠ .protocol := by
  rintro rfl
  exact readFrame_sufficient client (d.length+1) d 0 (by omega) h

/-- The collected bytes are those of the message in progress. -/
structure Conn.Inv (c : Conn) : Prop extends c.Reassembles where
  fragments : c.ended = none → c.partialMsg = (assemble c.inbound).current.getD []

section
variable {c : Conn} {f : Frame}

theorem Conn.Inv.unviolated (h : c.Inv) (hend : c.ended = none) :
    (assemble c.inbound).violated = false := by
  cases hv : (assemble c.inbound).violated with
  | false => rfl
  | true => cases hend.symm.trans (h.violated.mp hv)

theorem Conn.Inv.moves (h : c.Inv) {c' : Conn} (hmoves : c.Moves c') : c'.Inv := by
  constructor
  · constructor
    · rw [hmoves.handed,hmoves.inbound]
      exact h.handed
    · rw [hmoves.inbound,hmoves.ended]
      exact h.violated
  · rw [hmoves.inbound,hmoves.ended,hmoves.partialMsg]
    exact h.fragments

/-- A round that ends the loop and leaves the assembly alone. -/
theorem Conn.Inv.finish (h : c.Inv) (hend : c.ended = none) {e : ConnError} {fs : List Frame}
    (hsame : assemble fs = assemble c.inbound) (he : e ≠ .protocol) :
    Conn.Inv {c.finish e with inbound := fs} where
  handed := by
    rw [hsame]
    exact h.handed
  violated := by
    rw [hsame,h.unviolated hend]
    refine ⟨fun hx => (nomatch hx),fun hx => ?_⟩
    exact absurd (Option.some.inj hx) he
  fragments hx := (nomatch hx)

/-- A frame that begins, continues or finishes a message. -/
theorem Conn.Inv.message (h : c.Inv) (hpend : c.pending = none) {b : Bytes}
    (hframe : assemble (c.inbound++[f]) = (assemble c.inbound).message f.fin b) :
    Conn.Inv
      {c with
        inbound := c.inbound++[f]
        partialMsg := if f.fin then [] else b
        pending := if f.fin then some b else none} := by
  have hhanded := h.handed
  rw [Conn.handed,hpend,Option.toList_none,List.append_nil] at hhanded
  cases hfin : f.fin with
  | false =>
      rw [hfin,Assembly.message,if_neg Bool.false_ne_true] at hframe
      constructor
      · constructor
        · simpa [Conn.handed,hframe] using hhanded
        · simpa [hframe] using h.violated
      · simp [hframe]
  | true =>
      rw [hfin,Assembly.message,if_pos rfl] at hframe
      constructor
      · constructor
        · simp [Conn.handed,hframe,← hhanded]
        · simpa [hframe] using h.violated
      · simp [hframe]

/-- A continuation that finds nothing collected. -/
theorem Conn.data_unsolicited (hop : f.opcode = 0x0) (hempty : c.partialMsg = []) :
    c.data f = c.finish .protocol := by
  simp [Conn.data,Conn.accumulate,hop,hempty]

/-- A continuation that finds something collected. -/
theorem Conn.data_continuation (hop : f.opcode = 0x0) (hsome : c.partialMsg ≠ []) : c.data f =
    {c with
      partialMsg := if f.fin then [] else c.partialMsg++f.payload
      pending := if f.fin then some (c.partialMsg++f.payload) else none} := by
  cases hfin : f.fin <;> simp [Conn.data,Conn.accumulate,hop,hsome,hfin]

theorem Conn.data_begin (hop : f.opcode ≠ 0x0) : c.data f =
    {c with
      partialMsg := if f.fin then c.partialMsg else f.payload
      pending := if f.fin then some f.payload else none} := by
  cases hfin : f.fin <;> simp [Conn.data,Conn.accumulate,hop,hfin]

theorem Conn.handle_data {pong : Bool} (hop : f.opcode = 0x0 ∨ f.opcode = 0x1 ∨ f.opcode = 0x2) :
    c.handle f pong = Conn.data {c with inbound := c.inbound++[f]} f := by
  unfold Conn.handle
  obtain hop|hop|hop := hop <;> simp [hop]

/-- A data frame in its place. -/
theorem Conn.Inv.data (h : c.Inv) (hend : c.ended = none) (hpend : c.pending = none)
    (hop : f.opcode = 0x0 ∨ f.opcode = 0x1 ∨ f.opcode = 0x2) (hplace : c.InPlace f) :
    (Conn.data {c with inbound := c.inbound++[f]} f).Inv := by
  have hframe := assemble_append c.inbound f
  have hfragments := h.fragments hend
  by_cases h₀ : f.opcode = 0x0
  · cases hcur : (assemble c.inbound).current with
    | none =>
        simp only [Assembly.frame,h.unviolated hend,Bool.false_eq_true,if_false,h₀,if_true,
          hcur] at hframe
        rw [hcur] at hfragments
        rw [Conn.data_unsolicited (c := {c with inbound := c.inbound++[f]}) h₀ hfragments]
        constructor
        · constructor
          · simpa [Conn.handed,Conn.finish,Conn.fail,hframe] using h.handed
          · simp [Conn.finish,Conn.fail,hframe]
        · exact fun hx => (nomatch hx)
    | some b =>
        simp only [Assembly.frame,h.unviolated hend,Bool.false_eq_true,if_false,h₀,if_true,
          hcur] at hframe
        have hfragments : c.partialMsg = b := by rw [hfragments,hcur,Option.getD_some]
        have hb : c.partialMsg ≠ [] := by
          intro hb
          rw [hfragments] at hb
          exact hplace.1 h₀ (hb ▸ hcur)
        rw [Conn.data_continuation (c := {c with inbound := c.inbound++[f]}) h₀ hb]
        dsimp only
        rw [hfragments]
        exact h.message hpend hframe
  · have hop := hop.resolve_left h₀
    have hcur := hplace.2 hop
    simp only [Assembly.frame,h.unviolated hend,Bool.false_eq_true,if_false,h₀,hop,if_true,
      hcur] at hframe
    rw [hcur,Option.getD_none] at hfragments
    rw [Conn.data_begin h₀]
    dsimp only
    rw [hfragments]
    exact h.message hpend hframe

/-- A frame out of its place shows at once. -/
theorem Conn.Inv.inPlace (h : c.Inv) (hend : c.ended = none)
    (hafter : (Conn.data {c with inbound := c.inbound++[f]} f).Reassembles) : c.InPlace f := by
  have hframe := assemble_append c.inbound f
  have hviolated := hafter.violated
  constructor
  · intro h₀ hcur
    have hempty : c.partialMsg = [] := by rw [h.fragments hend,hcur,Option.getD_some]
    rw [Conn.data_unsolicited (c := {c with inbound := c.inbound++[f]}) h₀ hempty] at hviolated
    have hv : (assemble (c.inbound++[f])).violated = true := hviolated.mpr rfl
    simp only [Assembly.frame,h.unviolated hend,Bool.false_eq_true,if_false,h₀,if_true,
      hcur] at hframe
    rw [hframe,Assembly.message] at hv
    split_ifs at hv <;> simp [h.unviolated hend] at hv
  · intro hop
    have h₀ : f.opcode ≠ 0x0 := by
      intro h₀
      simp [h₀] at hop
    rw [Conn.data_begin h₀] at hviolated
    cases hcur : (assemble c.inbound).current with
    | none => rfl
    | some b =>
        simp only [Assembly.frame,h.unviolated hend,Bool.false_eq_true,if_false,h₀,hop,if_true,
          hcur] at hframe
        simp [hframe,hend] at hviolated

/-- A control frame, or one that ends the loop, does not count. -/
theorem Conn.Inv.skip (h : c.Inv) (hend : c.ended = none)
    (hop : ¬(f.opcode = 0x0 ∨ f.opcode = 0x1 ∨ f.opcode = 0x2)) :
    assemble (c.inbound++[f]) = assemble c.inbound := by
  rw [assemble_append,Assembly.frame,h.unviolated hend,if_neg Bool.false_ne_true,
    if_neg fun h₀ => hop (.inl h₀),if_neg fun h₁ => hop (.inr h₁)]

theorem Conn.Inv.handle (h : c.Inv) (hend : c.ended = none) (hpend : c.pending = none)
    (pong : Bool) (hplace : c.InPlace f) : (c.handle f pong).Inv := by
  by_cases hop : f.opcode = 0x0 ∨ f.opcode = 0x1 ∨ f.opcode = 0x2
  · rw [Conn.handle_data hop]
    exact h.data hend hpend hop hplace
  · have hsame := h.skip hend hop
    have hinv : Conn.Inv {c with inbound := c.inbound++[f]} := by
      constructor
      · constructor
        · simpa [Conn.handed,hsame] using h.handed
        · simpa [hsame] using h.violated
      · simpa [hsame] using h.fragments
    unfold Conn.handle
    split_ifs
    · exact h.finish hend hsame fun he => (nomatch he)
    · exact hinv
    · exact h.finish hend hsame fun he => (nomatch he)
    · exact hinv
    · exact h.finish hend hsame fun he => (nomatch he)

theorem Conn.reading_iff : c.reading = true ↔
    c.ended = none ∧ c.left = false ∧ c.pending = none := by
  simp [Conn.reading,and_assoc]

theorem Conn.Inv.step (h : c.Inv) (ev : Event) (hev : c.Reads c.InPlace ev) : (c.step ev).Inv := by
  cases ev with
  | read stream pong =>
      dsimp only [Conn.step]
      split_ifs with hreading
      · have hev := hev hreading
        obtain ⟨hend,_,hpend⟩ := Conn.reading_iff.mp hreading
        cases hread : readFrame c.client stream 0 with
        | error e => exact h.finish hend rfl (readFrame_error hread)
        | ok r =>
            exact h.handle hend hpend pong (hev r.1 r.2 hread)
      · exact h
  | broken =>
      dsimp only [Conn.step]
      split_ifs with hreading
      · exact h.finish (Conn.reading_iff.mp hreading).1 rfl fun he => (nomatch he)
      · exact h
  | put => exact h.moves c.put_moves
  | leave => exact h.moves c.leave_moves
  | receive => exact h.moves c.receive_moves
  | shutdown reason => exact h.moves ⟨rfl,rfl,rfl,rfl⟩

theorem Conn.Inv.shows (h : c.Inv) (ev : Event) (hafter : (c.step ev).Reassembles) :
    c.Reads c.InPlace ev := by
  cases ev with
  | read stream pong =>
      intro hreading f i hread
      simp only [Conn.step,hreading,if_true,hread] at hafter
      by_cases hop : f.opcode = 0x0 ∨ f.opcode = 0x1 ∨ f.opcode = 0x2
      · rw [Conn.handle_data hop] at hafter
        exact h.inPlace (Conn.reading_iff.mp hreading).1 hafter
      · exact ⟨fun h₀ => absurd (.inl h₀) hop,fun h₁ => absurd (.inr h₁) hop⟩
  | _ => trivial

end

theorem Conn.inv_init (client : Bool) : Conn.Inv {client := client} :=
  ⟨⟨rfl,⟨fun hx => (nomatch hx),fun hx => (nomatch hx)⟩⟩,fun _ => rfl⟩

/-- The loop reassembles the messages of a run, and fails at the first frame out of place,
exactly when every frame is in place in the sense of `Conn.InPlace`. -/
theorem messages_reassembled_iff (client : Bool) (evs : List Event) :
    (∀ pre, pre <+: evs → (run Conn.step pre {client := client}).Reassembles) ↔
      Along Conn.step (fun c => c.Reads c.InPlace) evs {client := client} := by
  apply along_iff (I := Conn.Inv)
  · intro c ev h hev
    exact h.step ev hev
  · intro c h
    exact h.toReassembles
  · intro c ev h hafter
    exact h.shows ev hafter
  · exact Conn.inv_init client

/-- A binary message in an empty fragment and a fragment with one byte makes the loop fail, and
a binary message in the middle of another one is handed over. -/
theorem fragments_misread :
    (let c := run Conn.step [.read [0x02,0] true,.read [0x80,1,7] true] {client := true}
    c.inbound = [⟨false,2,[]⟩,⟨true,0,[7]⟩] ∧ (assemble c.inbound).messages = [[7]] ∧
      c.handed = [] ∧ c.ended = some .protocol) ∧
    let c := run Conn.step [.read [0x02,1,5] true,.read [0x82,1,7] true] {client := true}
    c.inbound = [⟨false,2,[5]⟩,⟨true,2,[7]⟩] ∧ (assemble c.inbound).violated = true ∧
      c.handed = [[7]] ∧ c.ended = none := by
  decide +kernel

/-! ### The size of a message -/

/-- The limit of a single frame holds for the collected bytes and for every message. -/
structure Conn.Within (c : Conn) : Prop where
  fragments : c.partialMsg.length ≤ maxFrameSize
  messages : ∀ msg ∈ c.handed, msg.length ≤ maxFrameSize

def Conn.Bounded (c : Conn) : Prop := c.Within ∨ c.ended = some .frameTooLarge

/-- A continuation has room behind what has been collected. -/
def Conn.Fits (c : Conn) (f : Frame) : Prop :=
  f.opcode = 0x0 → c.partialMsg ≠ [] → c.partialMsg.length+f.payload.length ≤ maxFrameSize

theorem readFrame_payload (client : Bool) :
    Ensures (readFrame client) fun f => f.payload.length ≤ maxFrameSize := by
  have hbody : ∀ n, Ensures (readBody client n) fun b => b.length ≤ maxFrameSize := by
    intro n
    unfold readBody
    split_ifs with hn
    · exact .fail _
    · intro d i b j h
      rw [Ensures.block _ _ d i b j h]
      exact Nat.not_lt.mp hn
    · refine .after fun key => (Ensures.block _ _).bind fun b hb => .pure ?_
      rw [xorMask_length,hb]
      exact Nat.not_lt.mp hn
  apply Ensures.after
  intro hdr
  dsimp only
  split_ifs
  · exact .fail _
  · exact .fail _
  · exact .after fun n => (hbody n).bind fun b hb => .pure hb

section
variable {c : Conn} {f : Frame}

theorem Conn.Within.moves (h : c.Within) {c' : Conn} (hmoves : c.Moves c') : c'.Within := by
  constructor
  · rw [hmoves.partialMsg]
    exact h.fragments
  · rw [hmoves.handed]
    exact h.messages

theorem Conn.Within.message (h : c.Within) {p b : Bytes} (hp : p.length ≤ maxFrameSize)
    (hb : b.length ≤ maxFrameSize) :
    Conn.Within {c with partialMsg := p,pending := if f.fin then some b else none} := by
  constructor
  · exact hp
  · intro msg hmsg
    have hmem : msg ∈ c.handed ∨ msg = b := by
      cases hfin : f.fin <;> simp [Conn.handed,hfin] at hmsg ⊢ <;> tauto
    cases hmem with
    | inl hold => exact h.messages msg hold
    | inr hnew => rwa [hnew]

theorem Conn.Within.data (h : c.Within) (hf : f.payload.length ≤ maxFrameSize) (hfits : c.Fits f) :
    (c.data f).Within := by
  by_cases h₀ : f.opcode = 0x0
  · by_cases hempty : c.partialMsg = []
    · rw [Conn.data_unsolicited h₀ hempty]
      exact ⟨h.fragments,h.messages⟩
    · have hlen := hfits h₀ hempty
      rw [← List.length_append] at hlen
      rw [Conn.data_continuation h₀ hempty]
      apply h.message _ hlen
      split_ifs
      · exact Nat.zero_le _
      · exact hlen
  · rw [Conn.data_begin h₀]
    apply h.message _ hf
    split_ifs
    · exact h.fragments
    · exact hf

theorem Conn.Within.step (h : c.Within) (ev : Event) (hev : c.Reads c.Fits ev) :
    (c.step ev).Within := by
  cases ev with
  | read stream pong =>
      dsimp only [Conn.step]
      split_ifs with hreading
      · cases hread : readFrame c.client stream 0 with
        | error e => exact ⟨h.fragments,h.messages⟩
        | ok r =>
            have hf := readFrame_payload _ _ _ _ _ hread
            have hseen : Conn.Within {c with inbound := c.inbound++[r.1]} :=
              ⟨h.fragments,h.messages⟩
            dsimp only [Conn.handle]
            split_ifs
            · exact ⟨h.fragments,h.messages⟩
            · exact hseen
            · exact ⟨h.fragments,h.messages⟩
            · exact hseen
            · exact hseen.data hf (hev hreading r.1 r.2 hread)
            · exact ⟨h.fragments,h.messages⟩
      · exact h
  | broken =>
      dsimp only [Conn.step]
      split_ifs
      · exact ⟨h.fragments,h.messages⟩
      · exact h
  | put => exact h.moves c.put_moves
  | leave => exact h.moves c.leave_moves
  | receive => exact h.moves c.receive_moves
  | shutdown reason => exact h.moves ⟨rfl,rfl,rfl,rfl⟩

/-- Without room the collected bytes or the finished message are too long at once. -/
theorem Conn.Bounded.shows (ev : Event) (hafter : (c.step ev).Bounded) : c.Reads c.Fits ev := by
  cases ev with
  | read stream pong =>
      intro hreading f i hread h₀ hsome
      have hend := (Conn.reading_iff.mp hreading).1
      simp only [Conn.step,hreading,if_true,hread] at hafter
      rw [Conn.handle_data (.inl h₀),
        Conn.data_continuation (c := {c with inbound := c.inbound++[f]}) h₀ hsome] at hafter
      cases hafter with
      | inl hwithin =>
          rw [← List.length_append]
          cases hfin : f.fin with
          | false => simpa [hfin] using hwithin.fragments
          | true =>
              apply hwithin.messages
              simp [Conn.handed,hfin]
      | inr hended => simp [hend] at hended
  | _ => trivial

end

/-- The limit holds in every state of a run, or the loop has failed with the error for it, exactly
when every continuation has room. -/
theorem receive_bounded_iff (client : Bool) (evs : List Event) :
    (∀ pre, pre <+: evs → (run Conn.step pre {client := client}).Bounded) ↔
      Along Conn.step (fun c => c.Reads c.Fits) evs {client := client} := by
  apply along_iff (I := Conn.Within)
  · intro c ev h hev
    exact h.step ev hev
  · intro c h
    exact .inl h
  · intro c ev _ hafter
    exact hafter.shows ev
  · exact ⟨Nat.zero_le _,fun msg hmsg => (nomatch hmsg)⟩

/-- Two fragments within the limit are handed over as one message. -/
theorem two_fragments_handed {p q : Bytes} (hp : p.length ≤ maxFrameSize)
    (hq : q.length ≤ maxFrameSize) (hsome : p ≠ []) :
    let c := run Conn.step [.read (0x02::lengthHeader p.length++p) true,
      .read (0x80::lengthHeader q.length++q) true] {client := true}
    c.handed = [p++q] ∧ c.ended = none := by
  have h₁ := readFrame_reads_byte false ⟨2,p,[0,0,0,0],by decide,hp,rfl⟩ 0x02 [] []
  have h₂ := readFrame_reads_byte false ⟨0,q,[0,0,0,0],by decide,hq,rfl⟩ 0x80 [] []
  simp only [Outgoing.block,Bool.false_eq_true,if_false,List.cons_append,List.tail_cons,
    List.nil_append,List.append_nil,List.length_nil,Nat.zero_add,Bool.not_false] at h₁ h₂
  simp only [run,List.foldl_cons,List.foldl_nil,List.cons_append]
  have hfirst : Conn.step {client := true} (.read (0x02::(lengthHeader p.length++p)) true) =
      {client := true,partialMsg := p,inbound := [⟨false,2,p⟩]} := by
    simp only [Conn.step,h₁]
    rfl
  rw [hfirst]
  simp only [Conn.step,h₂]
  rw [if_pos (c := Conn.reading _ = true) rfl,Conn.handle_data (.inl rfl),
    Conn.data_continuation rfl hsome]
  exact ⟨rfl,rfl⟩

/-- A fragment of the greatest length and a continuation with one more byte. -/
theorem oversized_message_handed :
    let c := run Conn.step [.read (0x02::lengthHeader maxFrameSize++List.replicate maxFrameSize 0)
      true,.read [0x80,1,0] true] {client := true}
    c.handed = [List.replicate maxFrameSize 0++[0]] ∧ c.ended = none ∧
      maxFrameSize < (List.replicate maxFrameSize (0 : UInt8)++[0]).length := by
  have hlength : ∀ n, n ≤ maxFrameSize → 0 < n →
      let c := run Conn.step [.read (0x02::lengthHeader n++List.replicate n 0) true,
        .read [0x80,1,0] true] {client := true}
      c.handed = [List.replicate n 0++[0]] ∧ c.ended = none ∧
        n < (List.replicate n (0 : UInt8)++[0]).length := by
    intro n hn hpos
    have hrep : (List.replicate n (0 : UInt8)).length = n := List.length_replicate
    have h := two_fragments_handed (p := List.replicate n 0) (q := [0]) (hrep.trans_le hn)
      (by decide) (List.ne_nil_of_length_pos (hrep.symm ▸ hpos))
    rw [hrep] at h
    refine ⟨h.1,h.2,?_⟩
    rw [List.length_append,hrep]
    exact n.lt_succ_self
  exact hlength maxFrameSize le_rfl (by decide)

end BaturWhatsApi.WebSocketMessages
