import BaturWhatsApi.PositionalReaders
import BaturWhatsApi.SessionSend

/-!
# The frames of the WebSocket transport

`writeFrame` and `readFrame` of `transport/ws/ws.go`. A connection has a role, which
decides on both sides about the mask: a client masks what it writes and refuses a mask
on what it reads, a server does neither. The length of a payload has three forms.

A block that one role writes is read by the other as the frame it was made from. The
reader looks at nothing behind the block and finds no proper prefix of it sufficient,
so a stream of blocks is read frame by frame to its end, or up to its cut.
-/
namespace BaturWhatsApi.WebSocketFrames
open ByteStrings PositionalReaders PositionalReaders.Reader
open SessionSend (maxFrameSize)

/-- `other` is an error of the socket or of the random source. -/
inductive ConnError where
  | eof
  | unexpectedEOF
  | frameTooLarge
  | maskedServerFrame
  | unmaskedClientFrame
  | opcode (b : UInt8)
  | protocol
  | closed
  | other
deriving DecidableEq, Repr

/-- The errors that wrap `ErrProtocol`. -/
def ConnError.isProtocol : ConnError → Bool
  | .maskedServerFrame => true
  | .unmaskedClientFrame => true
  | .opcode _ => true
  | .protocol => true
  | _ => false

structure Frame where
  fin : Bool
  opcode : UInt8
  payload : Bytes
deriving DecidableEq, Repr

/-- The loop over the payload in both functions. -/
def xorMask (key payload : Bytes) : Bytes := payload.mapIdx fun i b => b ^^^ key.getD (i % 4) 0

def lengthHeader (n : ℕ) : Bytes :=
  if n < 126 then [UInt8.ofNat n]
  else if n ≤ 0xFFFF then [126,UInt8.ofNat (n >>> 8),UInt8.ofNat n]
  else [127,UInt8.ofNat (n >>> 56),UInt8.ofNat (n >>> 48),UInt8.ofNat (n >>> 40),
    UInt8.ofNat (n >>> 32),UInt8.ofNat (n >>> 24),UInt8.ofNat (n >>> 16),
    UInt8.ofNat (n >>> 8),UInt8.ofNat n]

/-- The bytes that are handed to the socket. The masking key is fresh, or its source fails. -/
def writeFrame (client : Bool) (newKey : Except ConnError Bytes) (opcode : UInt8)
    (payload : Bytes) : Except ConnError Bytes :=
  if maxFrameSize < payload.length then .error .frameTooLarge
  else
    let header := (0x80 ||| opcode)::lengthHeader payload.length
    if client then do
      let header := header.modify 1 (0x80 ||| ·)
      let key ← newKey
      .ok (header++key++xorMask key payload)
    else .ok (header++payload)

abbrev Read (α : Type) := Reader UInt8 ConnError α

/-- `io.ReadFull`: an input that ends before the first byte is told apart. -/
def readFull (n : ℕ) : Read Bytes :=
  block (fun d i => if d.length ≤ i then .eof else .unexpectedEOF) n

def readLength (b : UInt8) : Read ℕ :=
  if b = 126 then do
    let bs ← readFull 2
    pure (bigEndian bs)
  else if b = 127 then do
    let bs ← readFull 8
    pure (bigEndian bs)
  else pure b.toNat

/-- What follows the header. A client reads no key. -/
def readBody (client : Bool) (length : ℕ) : Read Bytes :=
  if maxFrameSize < length then fail .frameTooLarge
  else if client then readFull length
  else do
    let key ← readFull 4
    let payload ← readFull length
    pure (xorMask key payload)

def readFrame (client : Bool) : Read Frame := do
  let hdr ← readFull 2
  let b₀ := hdr.getD 0 0
  let b₁ := hdr.getD 1 0
  if client && b₁ &&& 0x80 != 0 then fail .maskedServerFrame
  else if !client && b₁ &&& 0x80 == 0 then fail .unmaskedClientFrame
  else do
    let length ← readLength (b₁ &&& 0x7F)
    let payload ← readBody client length
    pure ⟨b₀ &&& 0x80 != 0,b₀ &&& 0x0F,payload⟩

/-! ### What is written is read -/

theorem xorMask_length (key payload : Bytes) : (xorMask key payload).length = payload.length := by
  simp [xorMask]

theorem xorMask_xorMask (key payload : Bytes) : xorMask key (xorMask key payload) = payload := by
  apply List.ext_getElem?
  intro i
  simp only [xorMask,List.getElem?_mapIdx,Option.map_map]
  cases payload[i]? with
  | none => rfl
  | some b => simp [Function.comp]

theorem bigEndian_eight {n : ℕ} (h : n < 2^64) :
    bigEndian [UInt8.ofNat (n >>> 56),UInt8.ofNat (n >>> 48),UInt8.ofNat (n >>> 40),
      UInt8.ofNat (n >>> 32),UInt8.ofNat (n >>> 24),UInt8.ofNat (n >>> 16),
      UInt8.ofNat (n >>> 8),UInt8.ofNat n] = n := by
  simp only [bigEndian,List.foldl_cons,List.foldl_nil,shift_or_byte,UInt8.toNat_ofNat',
    Nat.shiftRight_eq_div_pow]
  omega

theorem readFull_reads {n : ℕ} (c : Bytes) (h : c.length = n) : Reads (readFull n) c c :=
  block_reads _ c h

/-- A frame that can be written: the opcode has four bits and the masking key four bytes. -/
structure Outgoing where
  opcode : UInt8
  payload : Bytes
  key : Bytes
  opcode_lt : opcode < 16
  payload_le : payload.length ≤ maxFrameSize
  key_length : key.length = 4

def Outgoing.frame (w : Outgoing) : Frame := ⟨true,w.opcode,w.payload⟩

/-- The second byte of a header without and with the mask, and what the reader finds in it. -/
theorem length_byte : ∀ b : UInt8, b < 128 → (b &&& 0x80 = 0 ∧ b &&& 0x7F = b) ∧
    (0x80 ||| b) &&& 0x80 ≠ 0 ∧ (0x80 ||| b) &&& 0x7F = b := by
  decide +kernel

theorem opcode_byte : ∀ b : UInt8, b < 16 → (0x80 ||| b) &&& 0x80 ≠ 0 ∧
    (0x80 ||| b) &&& 0x0F = b := by
  decide +kernel

def Outgoing.block (client : Bool) (w : Outgoing) : Bytes :=
  if client then
    (0x80 ||| w.opcode)::(lengthHeader w.payload.length).modify 0 (0x80 ||| ·)++w.key++
      xorMask w.key w.payload
  else (0x80 ||| w.opcode)::lengthHeader w.payload.length++w.payload

theorem writeFrame_block (client : Bool) (w : Outgoing) :
    writeFrame client (.ok w.key) w.opcode w.payload = .ok (w.block client) := by
  unfold writeFrame
  rw [if_neg (Nat.not_lt.mpr w.payload_le)]
  cases client <;> simp [Outgoing.block,bind,Except.bind]

/-- Each of the three forms of a length is read as the length. -/
theorem lengthHeader_reads {n : ℕ} (h : n ≤ maxFrameSize) :
    ∃ b rest, lengthHeader n = b::rest ∧ b < 128 ∧ Reads (readLength b) rest n := by
  have hmax : maxFrameSize = 16777216 := rfl
  unfold lengthHeader
  split_ifs with h₁ h₂
  · have hn : (UInt8.ofNat n).toNat = n := by
      rw [UInt8.toNat_ofNat']
      omega
    refine ⟨UInt8.ofNat n,[],rfl,?_,?_⟩
    · rw [UInt8.lt_iff_toNat_lt,hn]
      exact h₁.trans (by decide)
    · have hne : ∀ b : UInt8, UInt8.ofNat n = b → n = b.toNat := by
        rintro b rfl
        exact hn.symm
      rw [readLength,if_neg (fun hb => by have := hne 126 hb; simp at this; omega),
        if_neg (fun hb => by have := hne 127 hb; simp at this; omega)]
      nth_rewrite 2 [← hn]
      exact Reads.pure _
  · refine ⟨126,_,rfl,by decide,?_⟩
    rw [readLength,if_pos rfl]
    refine (readFull_reads (n := 2) _ rfl).bind_nil ?_
    rw [bigEndian_two (by omega)]
    exact Reads.pure n
  · refine ⟨127,_,rfl,by decide,?_⟩
    rw [readLength,if_neg (by decide),if_pos rfl]
    refine (readFull_reads (n := 8) _ rfl).bind_nil ?_
    rw [bigEndian_eight (by omega)]
    exact Reads.pure n

/-- The other role of the writer reads the body. -/
theorem readBody_reads (client : Bool) (w : Outgoing) :
    Reads (readBody (!client) w.payload.length)
      (if client then w.key++xorMask w.key w.payload else w.payload) w.payload := by
  unfold readBody
  rw [if_neg (Nat.not_lt.mpr w.payload_le)]
  cases client with
  | false => exact readFull_reads w.payload rfl
  | true =>
      refine (readFull_reads w.key w.key_length).bind ?_
      refine (readFull_reads _ (xorMask_length w.key w.payload)).bind_nil ?_
      rw [xorMask_xorMask]
      exact Reads.pure _

/-- The block is read whatever its first byte says. -/
theorem readFrame_reads_byte (client : Bool) (w : Outgoing) (b₀ : UInt8) :
    Reads (readFrame (!client)) (b₀::(w.block client).tail)
      ⟨b₀ &&& 0x80 != 0,b₀ &&& 0x0F,w.payload⟩ := by
  obtain ⟨b,rest,hheader,hb,hlength⟩ := lengthHeader_reads w.payload_le
  obtain ⟨⟨hplain,hplain'⟩,hmasked,hmasked'⟩ := length_byte b hb
  have hbody := readBody_reads client w
  cases client with
  | false =>
      have hblock : b₀::(w.block false).tail = [b₀,b]++(rest++w.payload) := by
        simp [Outgoing.block,hheader]
      rw [hblock]
      refine (readFull_reads [b₀,b] rfl).bind ?_
      simp only [List.getD_cons_zero,List.getD_cons_succ,hplain,hplain',Bool.not_false,
        bne_self_eq_false,Bool.and_false,Bool.false_eq_true,if_false,Bool.not_true,Bool.false_and]
      exact hlength.bind (hbody.bind_nil (Reads.pure _))
  | true =>
      have hblock : b₀::(w.block true).tail =
          [b₀,0x80 ||| b]++(rest++(w.key++xorMask w.key w.payload)) := by
        simp [Outgoing.block,hheader]
      rw [hblock]
      refine (readFull_reads [b₀,0x80 ||| b] rfl).bind ?_
      simp only [List.getD_cons_zero,List.getD_cons_succ,beq_eq_false_iff_ne.mpr hmasked,hmasked',
        Bool.not_true,Bool.false_and,Bool.false_eq_true,if_false,Bool.not_false,
        Bool.and_false]
      exact hlength.bind (hbody.bind_nil (Reads.pure _))

theorem readFrame_reads (client : Bool) (w : Outgoing) :
    Reads (readFrame (!client)) (w.block client) w.frame := by
  obtain ⟨hfin,hopcode⟩ := opcode_byte w.opcode w.opcode_lt
  have hread := readFrame_reads_byte client w (0x80 ||| w.opcode)
  have hblock : (0x80 ||| w.opcode)::(w.block client).tail = w.block client := by
    cases client <;> rfl
  rw [hblock,hopcode,bne_iff_ne.mpr hfin] at hread
  exact hread

/-! ### Cut streams and the wrong role -/

theorem readBody_local (client : Bool) (n : ℕ) : Local (readBody client n) := by
  unfold readBody
  split_ifs
  · exact Local.fail _
  · exact block_local _ _
  · exact (block_local _ _).bind fun _ => (block_local _ _).bind fun _ => Local.pure _

theorem readLength_local (b : UInt8) : Local (readLength b) := by
  unfold readLength
  split_ifs
  · exact (block_local _ _).bind fun _ => Local.pure _
  · exact (block_local _ _).bind fun _ => Local.pure _
  · exact Local.pure _

theorem readFrame_local (client : Bool) : Local (readFrame client) := by
  apply (block_local _ _).bind
  intro hdr
  dsimp only
  split_ifs
  · exact Local.fail _
  · exact Local.fail _
  · exact (readLength_local _).bind fun _ => (readBody_local _ _).bind fun _ => Local.pure _

/-- No proper prefix of a block is read, wherever the stream is cut. -/
theorem readFrame_cut (client : Bool) (w : Outgoing) (pre : Bytes) {n : ℕ}
    (hn : n < (w.block client).length) :
    ∃ e, readFrame (!client) (pre++(w.block client).take n) pre.length = .error e := by
  have hread := readFrame_reads client w pre []
  rw [List.append_nil] at hread
  have herr := (readFrame_local _ _ _ _ _ hread).take_error (k := pre.length+n) (by omega)
    (by omega)
  rwa [List.take_length_add_append] at herr

/-- A reader refuses what its own role has written. -/
theorem readFrame_own (client : Bool) (w : Outgoing) (pre post : Bytes) :
    ∃ e, readFrame client (pre++w.block client++post) pre.length = .error e ∧
      e.isProtocol = true := by
  obtain ⟨b,rest,hheader,hb,_⟩ := lengthHeader_reads w.payload_le
  obtain ⟨⟨hplain,_⟩,hmasked,_⟩ := length_byte b hb
  cases client with
  | false =>
      have hblock : w.block false = [0x80 ||| w.opcode,b]++(rest++w.payload) := by
        simp [Outgoing.block,hheader]
      have hhdr := readFull_reads (n := 2) [0x80 ||| w.opcode,b] rfl pre (rest++w.payload++post)
      rw [hblock]
      simp only [List.append_assoc] at hhdr ⊢
      refine ⟨.unmaskedClientFrame,?_,rfl⟩
      rw [readFrame,bind_ok hhdr]
      simp [hplain]
  | true =>
      have hblock : w.block true =
          [0x80 ||| w.opcode,0x80 ||| b]++(rest++(w.key++xorMask w.key w.payload)) := by
        simp [Outgoing.block,hheader]
      have hhdr := readFull_reads (n := 2) [0x80 ||| w.opcode,0x80 ||| b] rfl pre
        (rest++(w.key++xorMask w.key w.payload)++post)
      rw [hblock]
      simp only [List.append_assoc] at hhdr ⊢
      refine ⟨.maskedServerFrame,?_,rfl⟩
      rw [readFrame,bind_ok hhdr]
      simp [hmasked]

theorem writeFrame_blocks (client : Bool) (ws : List Outgoing) :
    ws.mapM (fun w => writeFrame client (.ok w.key) w.opcode w.payload) =
      .ok (ws.map (Outgoing.block client)) := by
  induction ws with
  | nil => rfl
  | cons w ws ih =>
      rw [List.mapM_cons,writeFrame_block,ih]
      rfl

/-- The other role reads the frames, whatever follows them. -/
theorem readFrame_blocks (client : Bool) (ws : List Outgoing) (post : Bytes) :
    times ws.length (readFrame (!client)) ((ws.map (Outgoing.block client)).flatten++post) 0 =
      .ok (ws.map Outgoing.frame,(ws.map (Outgoing.block client)).flatten.length) := by
  have hall : List.Forall₂ (Reads (readFrame (!client))) (ws.map (Outgoing.block client))
      (ws.map Outgoing.frame) := by
    rw [List.forall₂_map_left_iff,List.forall₂_map_right_iff,List.forall₂_same]
    exact fun w _ => readFrame_reads client w
  have h := reads_times hall [] post
  simpa only [List.length_map,List.nil_append,List.length_nil,Nat.zero_add] using h

/-- A stream of frames from one role to the other, whole, cut, and read by the wrong role. -/
theorem frame_codec (client : Bool) (ws : List Outgoing) :
    ∃ blocks, ws.mapM (fun w => writeFrame client (.ok w.key) w.opcode w.payload) = .ok blocks ∧
    times ws.length (readFrame (!client)) blocks.flatten 0 =
      .ok (ws.map Outgoing.frame,blocks.flatten.length) ∧
    (∀ k block, blocks[k]? = some block → ∀ n, 0 < n → n < block.length →
      let cut := (blocks.take k).flatten++block.take n
      let done := (blocks.take k).flatten.length
      times k (readFrame (!client)) cut 0 = .ok ((ws.take k).map Outgoing.frame,done) ∧
      ∃ e, readFrame (!client) cut done = .error e) ∧
    ∀ block ∈ blocks, ∀ rest, ∃ e, readFrame client (block++rest) 0 = .error e ∧
      e.isProtocol = true := by
  refine ⟨_,writeFrame_blocks client ws,?_,?_,?_⟩
  · simpa only [List.append_nil] using readFrame_blocks client ws []
  · intro k block hk n _ hn
    rw [List.getElem?_map,Option.map_eq_some_iff] at hk
    obtain ⟨w,hw,rfl⟩ := hk
    have hlen : (ws.take k).length = k := by
      have := (List.getElem?_eq_some_iff.mp hw).1
      rw [List.length_take]
      omega
    dsimp only
    rw [← List.map_take]
    refine ⟨?_,readFrame_cut client w _ hn⟩
    have h := readFrame_blocks client (ws.take k) ((w.block client).take n)
    rwa [hlen] at h
  · intro block hblock rest
    obtain ⟨w,_,rfl⟩ := List.mem_map.mp hblock
    exact readFrame_own client w [] rest

end BaturWhatsApi.WebSocketFrames
