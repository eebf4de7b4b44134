import BaturWhatsApi.DecoderLocality

/-!
# The decoder ends, stays in its buffer and builds no more than it reads

Every error of the decoder is one of the source: the depth bound of the model is never used
up, for nodes, payloads and streams. The buffer is a slice, whose array may be longer than the
slice, and it is read in four places. Each of them checks the length first, and then neither
panics nor sees a byte behind the end. The decoder is made of these four, so it has a program
on slices with the same results on the bytes before the end.

A node costs at least the byte of its list tag. The step back of `readContent` is paid for
by the list, which reads that byte again, so the nodes of a tree are at most as many as the
bytes of its block. Nodes in attributes count as well, and those that are formatted into a
text or replaced by a later attribute are lost.
-/
namespace BaturWhatsApi.DecoderTotality
open ByteStrings OrderedEntries TokenDictionary NodeModel NodeEncoder NodeDecoder DecoderLocality
open PositionalReaders PositionalReaders.Reader

/-! ### The number of nodes -/

mutual
def Node.count : Node → ℕ
  | .mk _ as c => attrsCount as+Value.count c+1
def Value.count : Value → ℕ
  | .node n => Node.count n
  | .nodes ns => nodesCount ns
  | _ => 0
def nodesCount : List Node → ℕ
  | [] => 0
  | n::ns => Node.count n+nodesCount ns
def attrsCount : List (Bytes × Value) → ℕ
  | [] => 0
  | (_,v)::as => Value.count v+attrsCount as
end

theorem count_jid (j : JID) : Value.count (.jid j) = 0 := rfl

theorem nodesCount_eq (ns : List Node) : nodesCount ns = (ns.map Node.count).sum := by
  induction ns with
  | nil => rfl
  | cons n ns ih => rw [nodesCount,ih,List.map_cons,List.sum_cons]

theorem attrsCount_eq (as : List (Bytes × Value)) :
    attrsCount as = (as.map fun e => Value.count e.2).sum := by
  induction as with
  | nil => rfl
  | cons e as ih => rw [attrsCount,ih,List.map_cons,List.sum_cons]

theorem attrsCount_ofPairs_le (as : List (Bytes × Value)) :
    attrsCount (ofPairs as) ≤ (as.map fun e => Value.count e.2).sum := by
  rw [attrsCount_eq]
  exact sum_ofPairs_le Value.count as

/-! ### What the readers pass -/

theorem readByte_spends : Spends readByte fun _ => 1 :=
  (Spends.block _ 1).bind fun _ => .pure rfl

theorem readInt_spends (n : ℕ) : Spends (readInt n) fun _ => n :=
  (Spends.block _ n).bind fun _ => .pure (Nat.sub_self n)

theorem readTag20_spends : Spends readTag20 fun _ => 3 := by
  refine (Spends.block _ 3).bind fun b => ?_
  split <;> exact .pure rfl

theorem listSize_spends (tag : UInt8) : Spends (listSize tag) fun _ => 0 :=
  .ite (fun _ => .pure rfl) fun _ =>
    .ite (fun _ => (readInt_spends 1).weaken fun _ => Nat.zero_le _) fun _ =>
      .ite (fun _ => (readInt_spends 2).weaken fun _ => Nat.zero_le _) fun _ => .failAt _

theorem bytesOrString_spends (n : ℕ) (asString : Bool) :
    Spends (bytesOrString n asString) Value.count := by
  refine (Spends.block _ n).bind fun raw => ?_
  split <;> exact .pure (Nat.zero_sub n)

theorem readPacked8_spends (tag : UInt8) : Spends (readPacked8 tag) fun _ => 0 := by
  refine readByte_spends.bind fun head => (Spends.block _ _).bind fun raw => ?_
  simp only [Nat.zero_sub]
  cases unpackBytes tag raw with
  | error e => exact .fail e
  | ok s => exact .ite (fun _ => .ite (fun _ => .fail _) fun _ => .pure rfl) fun _ => .pure rfl

section Bodies
variable {c : Bool → Read Value} (hc : ∀ b, Spends (c b) Value.count)
include hc

theorem readStringLike_spends : Spends (readStringLike c) Value.count := by
  refine (hc false).bind fun v => ?_
  split
  · exact .pure (Nat.zero_sub _)
  · exact .pure (Nat.zero_sub _)
  · exact .pure (Nat.sub_self _)

/-- A value without nodes owes nothing, whatever was read for it. -/
theorem readJIDPair_spends : Spends (readJIDPair c) Value.count := by
  refine (readStringLike_spends hc).bind fun user =>
    (readStringLike_spends hc).bind fun server => ?_
  split
  · split_ifs
    · exact .fail _
    · split <;> exact .pure (by simp only [count_jid,Nat.zero_sub])
  · exact .fail _

theorem readADJID_spends : Spends (readADJID c) Value.count := by
  refine readByte_spends.bind fun agent => readByte_spends.bind fun device =>
    (readStringLike_spends hc).bind fun user => ?_
  split <;> exact .pure (by simp only [count_jid,Nat.zero_sub])

theorem readFBJID_spends : Spends (readFBJID c) Value.count :=
  (readStringLike_spends hc).bind fun _ => (readInt_spends 2).bind fun _ =>
    (readStringLike_spends hc).bind fun _ => .pure (by simp only [count_jid,Nat.zero_sub])

theorem readInteropJID_spends : Spends (readInteropJID c) Value.count :=
  (readStringLike_spends hc).bind fun _ => (readInt_spends 2).bind fun _ =>
    (readInt_spends 2).bind fun _ => (readStringLike_spends hc).bind fun _ =>
      .pure (by simp only [count_jid,Nat.zero_sub])

theorem readAttr_spends : Spends (readAttr c) fun e => Value.count e.2 := by
  refine (readStringLike_spends hc).bind fun key => ?_
  split
  · exact (hc true).bind fun v => .pure (by dsimp only; omega)
  · exact .failAt _

/-- The tag of the list is still owed. -/
theorem readFields_spends (size : ℕ) : Spends (readFields c size) fun n => Node.count n-1 := by
  refine (readStringLike_spends hc).bind fun rawTag => ?_
  split
  · refine ((readAttr_spends hc).times _).bind fun attrs => ?_
    have hattrs := attrsCount_ofPairs_le attrs
    refine .ite (fun _ => (hc true).bind fun v => .pure ?_) fun _ => .pure ?_
    · simp only [Node.count]
      omega
    · simp only [Node.count,Value.count]
      omega
  · exact .fail _

theorem readNodeBody_spends : Spends (readNodeBody c) Node.count :=
  readByte_spends.bind fun tag => .ite (fun _ => .failAt _) fun _ =>
    (listSize_spends tag).bind fun size => .ite (fun _ => .pure rfl) fun _ =>
      .ite (fun _ => .fail _) fun _ => readFields_spends hc size

theorem readList_spends : Spends (readList c) fun v => Value.count v+1 := by
  refine readByte_spends.bind fun tag => (listSize_spends tag).bind fun size =>
    ((readNodeBody_spends hc).times size).bind fun ns => .pure ?_
  simp only [Value.count,nodesCount_eq]
  omega

theorem readContentBody_spends (dict : Dictionary) (asString : Bool) :
    Spends (readContentBody c dict asString) Value.count := by
  have hless : ∀ {r : Read Value}, Spends r Value.count → Spends r fun v => Value.count v-1 :=
    fun h => h.weaken fun v => Nat.sub_le _ _
  refine readByte_spends.bind fun tag => .ite (fun _ => .pure rfl) fun _ =>
    .ite (fun _ => .stepBack ((readList_spends hc).weaken fun v => by omega)) fun _ =>
    .ite (fun _ => ?_) fun _ => .ite (fun _ => ?_) fun _ => .ite (fun _ => ?_) fun _ =>
    .ite (fun _ => readByte_spends.bind fun i => ?_) fun _ =>
    .ite (fun _ => hless (readFBJID_spends hc)) fun _ =>
    .ite (fun _ => hless (readInteropJID_spends hc)) fun _ =>
    .ite (fun _ => hless (readJIDPair_spends hc)) fun _ =>
    .ite (fun _ => hless (readADJID_spends hc)) fun _ =>
    .ite (fun _ => (readPacked8_spends tag).bind fun _ => .pure rfl) fun _ => ?_
  · exact (readInt_spends 1).bind fun size =>
      (bytesOrString_spends size asString).weaken fun v => by omega
  · exact readTag20_spends.bind fun size =>
      (bytesOrString_spends size asString).weaken fun v => by omega
  · exact (readInt_spends 4).bind fun size =>
      (bytesOrString_spends size asString).weaken fun v => by omega
  · split
    · exact .pure rfl
    · exact .failAt _
  · split
    · exact .pure rfl
    · exact .failAt _

end Bodies

section
variable (dict : Dictionary)

theorem contentUpTo_spends (fuel : ℕ) (asString : Bool) :
    Spends (contentUpTo dict fuel asString) Value.count := by
  induction fuel generalizing asString with
  | zero => exact .fail _
  | succ fuel ih => exact readContentBody_spends ih dict asString

theorem readNode_spends : Spends (readNode dict) Node.count :=
  readNodeBody_spends fun asString => .limit fun fuel => contentUpTo_spends dict fuel asString

theorem readNode_success {d : Bytes} {i j : ℕ} {n : Node} (h : readNode dict d i = .ok (n,j)) :
    i < j ∧ j ≤ d.length ∧ Node.count n ≤ j-i := by
  have hlt := readNode_advances dict h
  have hcount := readNode_spends dict d i n j h
  exact ⟨hlt,(readNode_local dict d i n j h).inside hlt,by omega⟩

theorem decodeLoop_count {stream : Bytes} {fuel i : ℕ} {ns : List Node}
    (h : decodeLoop dict stream fuel i = .ok ns) : nodesCount ns ≤ stream.length-i := by
  induction fuel generalizing i ns with
  | zero => cases h
  | succ fuel ih =>
      rw [decodeLoop] at h
      split_ifs at h
      · split at h
        · cases h
        · rename_i n j hread
          split at h
          · cases h
          · rename_i rest hrest
            cases h
            have hnode := readNode_success dict hread
            have hothers := ih hrest
            rw [nodesCount]
            omega
      · cases h
        exact Nat.zero_le _

/-! ### No error but those of the source -/

theorem readNode_ne_exhausted (d : Bytes) (i : ℕ) : readNode dict d i ≠ .error .exhausted :=
  (readNodeBody_approx (readContent_approx dict d.length)).enough d i (by omega)

theorem decodeLoop_ne_exhausted {stream : Bytes} {fuel i : ℕ} (hfuel : stream.length < fuel+i) :
    i ≤ stream.length → decodeLoop dict stream fuel i ≠ .error .exhausted := by
  intro hi
  induction fuel generalizing i with
  | zero => omega
  | succ fuel ih =>
      rw [decodeLoop]
      split_ifs
      · split
        · rename_i e hread
          intro he
          cases he
          exact readNode_ne_exhausted dict stream i hread
        · rename_i n j hread
          have hnode := readNode_success dict hread
          split
          · rename_i e hrest
            intro he
            cases he
            exact ih (by omega) hnode.2.1 hrest
          · intro he
            cases he
      · intro he
        cases he

theorem unpack_ne_exhausted (inflate : Bytes → Except String Bytes) (payload : Bytes) :
    unpack inflate payload ≠ .error .exhausted := by
  cases payload with
  | nil => intro h; cases h
  | cons flag body =>
      rw [unpack]
      split_ifs
      · cases inflate body with
        | error e => intro h; cases h
        | ok out => intro h; cases h
      · intro h; cases h
      · intro h; cases h

theorem decode_ne_exhausted (inflate : Bytes → Except String Bytes) (payload : Bytes) :
    decode inflate dict payload ≠ .error .exhausted := by
  rw [decode]
  cases hunpack : unpack inflate payload with
  | error e =>
      intro h
      cases h
      exact unpack_ne_exhausted inflate payload hunpack
  | ok stream =>
      dsimp only
      cases hread : readNode dict stream 0 with
      | error e =>
          intro h
          cases h
          exact readNode_ne_exhausted dict stream 0 hread
      | ok p =>
          dsimp only
          split_ifs
          · intro h; cases h
          · intro h; cases h

theorem decode_count {inflate : Bytes → Except String Bytes} {payload : Bytes} {n : Node}
    (h : decode inflate dict payload = .ok n) :
    ∃ stream, unpack inflate payload = .ok stream ∧ Node.count n ≤ stream.length := by
  rw [decode] at h
  cases hunpack : unpack inflate payload with
  | error e => rw [hunpack] at h; cases h
  | ok stream =>
      rw [hunpack] at h
      dsimp only at h
      cases hread : readNode dict stream 0 with
      | error e => rw [hread] at h; cases h
      | ok p =>
          rw [hread] at h
          dsimp only at h
          split_ifs at h
          cases h
          have hnode := readNode_success dict hread
          exact ⟨stream,rfl,by omega⟩

end

/-! ### The accesses to the buffer -/

/-- A slice ends before its array does. -/
structure Slice where
  array : Bytes
  len : ℕ
  fits : len ≤ array.length

namespace Slice

def bytes (s : Slice) : Bytes := s.array.take s.len

/-- An access ends in a panic, or the read in an error of the decoder. -/
inductive Stop where
  | outside
  | failed (e : DecodeError)

def index (s : Slice) (k : ℕ) : Except Stop UInt8 :=
  if k < s.len then .ok (s.array.getD k 0) else .error .outside

/-- The bounds of a slice expression are those of the array, not of the slice. -/
def range (s : Slice) (lo hi : ℕ) : Except Stop Bytes :=
  if lo ≤ hi ∧ hi ≤ s.array.length then .ok (window s.array lo hi) else .error .outside

def need (s : Slice) (n i : ℕ) : Except Stop Unit :=
  if s.len < i+n then .error (.failed (.truncated n ((s.len : ℤ)-i))) else .ok ()

def readByte (s : Slice) (i : ℕ) : Except Stop (UInt8 × ℕ) := do
  s.need 1 i
  let b ← s.index i
  pure (b,i+1)

def readInt (s : Slice) (n i : ℕ) : Except Stop (ℕ × ℕ) := do
  s.need n i
  let v ← (List.range n).foldlM (fun v k => do
    let b ← s.index (i+k)
    pure (v <<< 8 ||| b.toNat)) 0
  pure (v,i+n)

def readRaw (s : Slice) (n i : ℕ) : Except Stop (Bytes × ℕ) := do
  s.need n i
  let out ← s.range i (i+n)
  pure (out,i+n)

def readTag20 (s : Slice) (i : ℕ) : Except Stop (ℕ × ℕ) := do
  s.need 3 i
  let a ← s.index i
  let b ← s.index (i+1)
  let c ← s.index (i+2)
  pure (tag20 a b c,i+3)

variable {s : Slice}

theorem length_bytes : s.bytes.length = s.len := by
  rw [bytes,List.length_take,min_eq_left s.fits]

theorem lt_length {k : ℕ} (h : k < s.len) : k < s.bytes.length := by
  rwa [length_bytes]

theorem index_eq {k : ℕ} (h : k < s.len) : s.index k = .ok (s.bytes.getD k 0) := by
  rw [index,if_pos h,bytes,List.getD_eq_getElem?_getD,List.getD_eq_getElem?_getD,
    List.getElem?_take_of_lt h]

theorem window_array {i j : ℕ} (h : j ≤ s.len) : window s.array i j = window s.bytes i j := by
  apply window_congr
  intro k _ hk
  rw [bytes,List.getElem?_take_of_lt (by omega)]

theorem need_of_le {n i : ℕ} (h : i+n ≤ s.len) : s.need n i = .ok () := by
  rw [need,if_neg (Nat.not_lt.mpr h)]

theorem need_of_lt {n i : ℕ} (h : s.len < i+n) :
    s.need n i = .error (.failed (truncated n s.bytes i)) := by
  rw [need,if_pos h,truncated,length_bytes]

theorem raw_of_le {n i : ℕ} (h : i+n ≤ s.len) :
    NodeDecoder.readRaw n s.bytes i = .ok (window s.bytes i (i+n),i+n) := by
  rw [NodeDecoder.readRaw,block,if_pos (by rwa [length_bytes])]

theorem raw_of_lt {n i : ℕ} (h : s.len < i+n) :
    NodeDecoder.readRaw n s.bytes i = .error (truncated n s.bytes i) := by
  rw [NodeDecoder.readRaw,block,if_neg (by rw [length_bytes]; omega)]

theorem readRaw_eq (n i : ℕ) :
    s.readRaw n i = (NodeDecoder.readRaw n s.bytes i).mapError .failed := by
  rcases Nat.lt_or_ge s.len (i+n) with h | h
  · rw [readRaw,need_of_lt h,raw_of_lt h]
    rfl
  · have hrange : s.range i (i+n) = .ok (window s.bytes i (i+n)) := by
      rw [range,if_pos ⟨Nat.le_add_right i n,h.trans s.fits⟩,window_array h]
    rw [readRaw,need_of_le h,raw_of_le h]
    show (s.range i (i+n) >>= fun out => pure (out,i+n)) = _
    rw [hrange]
    rfl

theorem readByte_eq (i : ℕ) : s.readByte i = (NodeDecoder.readByte s.bytes i).mapError .failed := by
  rcases Nat.lt_or_ge s.len (i+1) with h | h
  · rw [readByte,need_of_lt h,NodeDecoder.readByte,bind_error (raw_of_lt h)]
    rfl
  · rw [readByte,need_of_le h,NodeDecoder.readByte,bind_ok (raw_of_le h),
      window_one (lt_length h) 0]
    show (s.index i >>= fun b => pure (b,i+1)) = _
    rw [index_eq h]
    rfl

/-- The loop of `readInt` after `m` bytes. -/
theorem foldlM_index {n i m : ℕ} (h : i+n ≤ s.len) (hm : m ≤ n) :
    (List.range m).foldlM (fun v k => do
      let b ← s.index (i+k)
      pure (v <<< 8 ||| b.toNat)) 0 = .ok (bigEndian (window s.bytes i (i+m))) := by
  induction m with
  | zero =>
      rw [Nat.add_zero,window_self]
      rfl
  | succ m ih =>
      rw [List.range_succ,List.foldlM_append,ih (by omega),← Nat.add_assoc,
        window_succ (Nat.le_add_right i m) (lt_length (by omega)) 0,bigEndian_concat]
      show ((s.index (i+m) >>= fun b => _) >>= fun _ => _) = _
      rw [index_eq (by omega)]
      rfl

theorem readInt_eq (n i : ℕ) :
    s.readInt n i = (NodeDecoder.readInt n s.bytes i).mapError .failed := by
  rcases Nat.lt_or_ge s.len (i+n) with h | h
  · rw [readInt,need_of_lt h,NodeDecoder.readInt,bind_error (raw_of_lt h)]
    rfl
  · rw [readInt,need_of_le h,NodeDecoder.readInt,bind_ok (raw_of_le h),foldlM_index h le_rfl]
    rfl

theorem readTag20_eq (i : ℕ) :
    s.readTag20 i = (NodeDecoder.readTag20 s.bytes i).mapError .failed := by
  rcases Nat.lt_or_ge s.len (i+3) with h | h
  · rw [readTag20,need_of_lt h,NodeDecoder.readTag20,bind_error (raw_of_lt h)]
    rfl
  · rw [readTag20,need_of_le h,NodeDecoder.readTag20,bind_ok (raw_of_le h),
      window_succ (k := i+2) (by omega) (lt_length (by omega)) 0,
      window_succ (k := i+1) (by omega) (lt_length (by omega)) 0,
      window_one (lt_length (by omega)) 0,index_eq (by omega),index_eq (by omega),
      index_eq (by omega)]
    rfl

end Slice

abbrev SliceRead (α : Type) := Slice → ℕ → Except Slice.Stop (α × ℕ)

/-- A program on slices, built from the four accesses as the reader is from its own. Nothing
else of the slice is used but its length, which bounds the depth. -/
inductive Accesses : {α : Type} → Read α → SliceRead α → Prop where
  | readByte : Accesses NodeDecoder.readByte Slice.readByte
  | readInt (n : ℕ) : Accesses (NodeDecoder.readInt n) fun s => s.readInt n
  | readRaw (n : ℕ) : Accesses (NodeDecoder.readRaw n) fun s => s.readRaw n
  | readTag20 : Accesses NodeDecoder.readTag20 Slice.readTag20
  | pure {α : Type} (a : α) : Accesses (pure a) fun _ i => .ok (a,i)
  | fail {α : Type} (e : DecodeError) :
      Accesses (fail e : Read α) fun _ _ => .error (.failed e)
  | failAt {α : Type} (e : ℕ → DecodeError) :
      Accesses (failAt e : Read α) fun _ i => .error (.failed (e i))
  | bind {α β : Type} {r : Read α} {g : SliceRead α} {f : α → Read β} {k : α → SliceRead β}
      (h : Accesses r g) (hf : ∀ a, Accesses (f a) (k a)) :
      Accesses (r >>= f) fun s i => (g s i).bind fun p => k p.1 s p.2
  | stepBack {α : Type} {r : Read α} {g : SliceRead α} (h : Accesses r g) :
      Accesses (stepBack r) fun s i => g s (i-1)
  | limit {α : Type} {r : ℕ → Read α} {g : ℕ → SliceRead α} (h : ∀ n, Accesses (r n) (g n)) :
      Accesses (limit r) fun s i => g (s.len+1) s i

/-- Such a program returns what the reader returns on the bytes of the slice. -/
theorem Accesses.eq {α : Type} {r : Read α} {g : SliceRead α} (h : Accesses r g) (s : Slice) :
    ∀ i, g s i = (r s.bytes i).mapError .failed := by
  induction h with
  | readByte => exact Slice.readByte_eq
  | readInt n => exact Slice.readInt_eq n
  | readRaw n => exact Slice.readRaw_eq n
  | readTag20 => exact Slice.readTag20_eq
  | pure a => exact fun _ => rfl
  | fail e => exact fun _ => rfl
  | failAt e => exact fun _ => rfl
  | @bind α β r g f k _ _ ih ihf =>
      intro i
      dsimp only
      rw [ih]
      cases hr : r s.bytes i with
      | error e =>
          rw [bind_error hr]
          rfl
      | ok p =>
          rw [bind_ok (a := p.1) (j := p.2) hr]
          exact ihf p.1 p.2
  | stepBack _ ih => exact fun i => ih (i-1)
  | @limit α r g _ ih =>
      intro i
      rw [Reader.limit,Slice.length_bytes]
      exact ih (s.len+1) i

def Guarded {α : Type} (r : Read α) : Prop := ∃ g, Accesses r g

namespace Guarded
variable {α β : Type}

theorem pure (a : α) : Guarded (pure a) := ⟨_,.pure a⟩

theorem fail (e : DecodeError) : Guarded (fail e : Read α) := ⟨_,.fail e⟩

theorem failAt (e : ℕ → DecodeError) : Guarded (failAt e : Read α) := ⟨_,.failAt e⟩

theorem bind {r : Read α} {f : α → Read β} (h : Guarded r) (hf : ∀ a, Guarded (f a)) :
    Guarded (r >>= f) := by
  obtain ⟨g,hg⟩ := h
  choose k hk using hf
  exact ⟨_,hg.bind hk⟩

theorem ite {p : Prop} [Decidable p] {r r' : Read α} (h₁ : Guarded r) (h₂ : Guarded r') :
    Guarded (if p then r else r') := by
  split_ifs
  · exact h₁
  · exact h₂

theorem times {r : Read α} (h : Guarded r) (n : ℕ) : Guarded (times n r) := by
  induction n with
  | zero => exact pure []
  | succ n ih => exact h.bind fun a => Guarded.bind ih fun as => pure (a::as)

theorem stepBack {r : Read α} (h : Guarded r) : Guarded (stepBack r) := by
  obtain ⟨g,hg⟩ := h
  exact ⟨_,hg.stepBack⟩

theorem limit {r : ℕ → Read α} (h : ∀ n, Guarded (r n)) : Guarded (limit r) := by
  choose g hg using h
  exact ⟨_,.limit hg⟩

theorem readByte : Guarded readByte := ⟨_,.readByte⟩

theorem readInt (n : ℕ) : Guarded (readInt n) := ⟨_,.readInt n⟩

theorem readRaw (n : ℕ) : Guarded (readRaw n) := ⟨_,.readRaw n⟩

theorem readTag20 : Guarded readTag20 := ⟨_,.readTag20⟩

theorem listSize (tag : UInt8) : Guarded (listSize tag) :=
  .ite (.pure 0) (.ite (readInt 1) (.ite (readInt 2) (.failAt _)))

theorem bytesOrString (n : ℕ) (asString : Bool) : Guarded (bytesOrString n asString) :=
  (readRaw n).bind fun _ => .ite (.pure _) (.pure _)

theorem readPacked8 (tag : UInt8) : Guarded (readPacked8 tag) := by
  refine readByte.bind fun head => (readRaw _).bind fun raw => ?_
  cases unpackBytes tag raw with
  | error e => exact .fail e
  | ok s => exact .ite (.ite (.fail _) (.pure _)) (.pure _)

section Bodies
variable {c : Bool → Read Value} (hc : ∀ b, Guarded (c b))
include hc

theorem readStringLike : Guarded (readStringLike c) := by
  refine (hc false).bind fun v => ?_
  split <;> exact .pure _

theorem readJIDPair : Guarded (readJIDPair c) := by
  refine (readStringLike hc).bind fun user => (readStringLike hc).bind fun server => ?_
  split
  · refine .ite (.fail _) ?_
    split <;> exact .pure _
  · exact .fail _

theorem readADJID : Guarded (readADJID c) := by
  refine readByte.bind fun agent => readByte.bind fun device =>
    (readStringLike hc).bind fun user => ?_
  split <;> exact .pure _

theorem readFBJID : Guarded (readFBJID c) :=
  (readStringLike hc).bind fun _ => (readInt 2).bind fun _ =>
    (readStringLike hc).bind fun _ => .pure _

theorem readInteropJID : Guarded (readInteropJID c) :=
  (readStringLike hc).bind fun _ => (readInt 2).bind fun _ => (readInt 2).bind fun _ =>
    (readStringLike hc).bind fun _ => .pure _

theorem readAttr : Guarded (readAttr c) := by
  refine (readStringLike hc).bind fun key => ?_
  split
  · exact (hc true).bind fun _ => .pure _
  · exact .failAt _

theorem readFields (size : ℕ) : Guarded (readFields c size) := by
  refine (readStringLike hc).bind fun rawTag => ?_
  split
  · exact ((readAttr hc).times _).bind fun attrs =>
      .ite ((hc true).bind fun _ => .pure _) (.pure _)
  · exact .fail _

theorem readNodeBody : Guarded (readNodeBody c) :=
  readByte.bind fun tag => .ite (.failAt _) ((listSize tag).bind fun size =>
    .ite (.pure _) (.ite (.fail _) (readFields hc size)))

theorem readList : Guarded (readList c) :=
  readByte.bind fun tag => (listSize tag).bind fun size =>
    ((readNodeBody hc).times size).bind fun _ => .pure _

theorem readContentBody (dict : Dictionary) (asString : Bool) :
    Guarded (readContentBody c dict asString) := by
  refine readByte.bind fun tag => .ite (.pure _) <| .ite (readList hc).stepBack <|
    .ite ((readInt 1).bind fun size => bytesOrString size asString) <|
    .ite (readTag20.bind fun size => bytesOrString size asString) <|
    .ite ((readInt 4).bind fun size => bytesOrString size asString) <|
    .ite (readByte.bind fun i => ?_) <| .ite (readFBJID hc) <| .ite (readInteropJID hc) <|
    .ite (readJIDPair hc) <| .ite (readADJID hc) <|
    .ite ((readPacked8 tag).bind fun _ => .pure _) ?_
  · split
    · exact .pure _
    · exact .failAt _
  · split
    · exact .pure _
    · exact .failAt _

end Bodies

theorem contentUpTo (dict : Dictionary) (fuel : ℕ) (asString : Bool) :
    Guarded (contentUpTo dict fuel asString) := by
  induction fuel generalizing asString with
  | zero => exact .fail _
  | succ fuel ih => exact readContentBody ih dict asString

theorem readNode (dict : Dictionary) : Guarded (readNode dict) :=
  readNodeBody fun asString => .limit fun fuel => contentUpTo dict fuel asString

end Guarded

/-- The depth bound is invisible: the recursion is that of the source, and it ends without the
error of the bound. -/
structure Ends (dict : Dictionary) : Prop where
  recursion : ∀ asString,
    readContent dict asString = readContentBody (readContent dict) dict asString
  readNode : ∀ d i, readNode dict d i ≠ .error .exhausted
  decodeStream : ∀ stream, decodeStream dict stream ≠ .error .exhausted
  decode : ∀ inflate payload, decode inflate dict payload ≠ .error .exhausted

theorem ends (dict : Dictionary) : Ends dict where
  recursion := readContent_eq dict
  readNode := readNode_ne_exhausted dict
  decodeStream stream := decodeLoop_ne_exhausted dict (by omega) (Nat.zero_le _)
  decode := decode_ne_exhausted dict

/-- The decoder is total, reads its buffer only, advances, and builds at most as many nodes as
there are bytes. -/
theorem readNode_total (dict : Dictionary) :
    Ends dict ∧
    (∃ g, Accesses (readNode dict) g ∧
      ∀ s i, g s i = (readNode dict s.bytes i).mapError .failed) ∧
    (∀ d i n j, readNode dict d i = .ok (n,j) → i < j ∧ j ≤ d.length ∧ Node.count n ≤ j-i) ∧
    (∀ stream ns, decodeStream dict stream = .ok ns → nodesCount ns ≤ stream.length) ∧
    ∀ inflate payload n, decode inflate dict payload = .ok n →
      ∃ stream, unpack inflate payload = .ok stream ∧ Node.count n ≤ stream.length :=
  ⟨ends dict,(Guarded.readNode dict).imp fun _ h => ⟨h,h.eq⟩,
    fun _ _ _ _ h => readNode_success dict h,fun _ _ h => decodeLoop_count dict h,
    fun _ _ _ h => decode_count dict h⟩

end BaturWhatsApi.DecoderTotality
