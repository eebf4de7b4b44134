import BaturWhatsApi.DecoderLocality
import BaturWhatsApi.JsonTexts

/-!
# Strings on the wire

A string has five encodings: a single-byte token, a dictionary token, two packed
alphabets and raw bytes under three length forms. Each is read back separately,
and the separate facts give one theorem for well-formed dictionaries.

An arbitrary accepted dictionary is not enough. Single-byte tokens share their
byte with the structural tags, index zero is the empty list, and the second byte
of a dictionary token holds the position only below 256. The final theorem says
exactly which strings survive in a given pair of tables.
-/
namespace BaturWhatsApi.StringCodec
open ByteStrings OrderedEntries TokenDictionary NodeModel NodeEncoder NodeDecoder DecoderLocality
open PositionalReaders PositionalReaders.Reader JsonValues JsonTexts

theorem readRaw_reads (b : Bytes) : Reads (readRaw b.length) b b := block_reads _ b rfl

theorem readByte_reads (x : UInt8) : Reads readByte [x] x :=
  (readRaw_reads [x]).bind_nil (Reads.pure x)

theorem readInt_reads (b : Bytes) : Reads (readInt b.length) b (bigEndian b) :=
  (readRaw_reads b).bind_nil (Reads.pure _)

theorem tag20_eq (a b c : UInt8) :
    tag20 a b c = ((a &&& 0x0F).toNat*256+b.toNat)*256+c.toNat := by
  have hshift : (a &&& 0x0F).toNat <<< 16 = (a &&& 0x0F).toNat <<< 8 <<< 8 :=
    Nat.shiftLeft_add _ 8 8
  rw [tag20,hshift,← Nat.shiftLeft_or_distrib,shift_or_byte,shift_or_byte]

theorem readTag20_reads {n : ℕ} (h : n < 1 <<< 20) :
    Reads readTag20
      [UInt8.ofNat (n >>> 16 &&& 0x0F),UInt8.ofNat (n >>> 8),UInt8.ofNat n] n := by
  have hn : n < 2^20 := h
  have hlow : ∀ m, m &&& 0x0F = m % 16 := fun m => Nat.and_two_pow_sub_one_eq_mod m 4
  have ht : tag20 (UInt8.ofNat (n >>> 16 &&& 0x0F)) (UInt8.ofNat (n >>> 8)) (UInt8.ofNat n) = n := by
    rw [tag20_eq,UInt8.toNat_and,show (0x0F : UInt8).toNat = 0x0F from rfl,hlow,hlow,
      UInt8.toNat_ofNat',UInt8.toNat_ofNat',UInt8.toNat_ofNat',Nat.shiftRight_eq_div_pow,
      Nat.shiftRight_eq_div_pow]
    omega
  have hr : Reads readTag20 _ _ := (readRaw_reads [UInt8.ofNat (n >>> 16 &&& 0x0F),
    UInt8.ofNat (n >>> 8),UInt8.ofNat n]).bind_nil (Reads.pure _)
  rwa [ht] at hr

theorem bytesOrString_reads (b : Bytes) (asString : Bool) :
    Reads (bytesOrString b.length asString) b
      (if asString && utf8Valid b then .str b else .bytes b) := by
  refine (readRaw_reads b).bind_nil ?_
  split <;> exact Reads.pure _

/-- A packing inverts the unpacking on its alphabet and fits into half a byte. -/
structure Packs (tag : UInt8) (pack : UInt8 → UInt8) (char : UInt8 → Bool) : Prop where
  unpack : ∀ c, char c = true → unpackByte tag (pack c) = .ok c
  small : ∀ c, pack c < 16
  ascii : ∀ c, char c = true → c < 128
  zero : ∃ c, unpackByte tag 0 = .ok c

theorem nibble_packs : Packs nibble8 packNibble nibbleChar where
  unpack := by decide +kernel
  small := by decide +kernel
  ascii := by decide +kernel
  zero := ⟨48,rfl⟩

theorem hex_packs : Packs hex8 packHex hexChar where
  unpack := by decide +kernel
  small := by decide +kernel
  ascii := by decide +kernel
  zero := ⟨48,rfl⟩

theorem halves {x y : UInt8} (hx : x < 16) (hy : y < 16) :
    (x <<< 4 ||| y) >>> 4 = x ∧ (x <<< 4 ||| y) &&& 0x0F = y := by
  have h : ∀ i j : Fin 16, (UInt8.ofNat i <<< 4 ||| UInt8.ofNat j) >>> 4 = UInt8.ofNat i ∧
      (UInt8.ofNat i <<< 4 ||| UInt8.ofNat j) &&& 0x0F = UInt8.ofNat j := by decide
  have hxy := h ⟨x.toNat,hx⟩ ⟨y.toNat,hy⟩
  simpa only [UInt8.ofNat_toNat] using hxy

/-- The pad of an odd string follows its last character. -/
theorem unpackBytes_packPairs {tag : UInt8} {pack : UInt8 → UInt8} {char : UInt8 → Bool}
    (hp : Packs tag pack char) (s : Bytes) (hs : ∀ c ∈ s, char c = true) :
    ∃ pad, unpackBytes tag (packPairs pack s) = .ok (s++pad) ∧ pad.length = s.length % 2 := by
  induction s using packPairs.induct with
  | case1 => exact ⟨[],rfl,rfl⟩
  | case2 a =>
      obtain ⟨z,hz⟩ := hp.zero
      have hh := halves (hp.small a) (show (0 : UInt8) < 16 by decide)
      rw [UInt8.or_zero] at hh
      refine ⟨[z],?_,rfl⟩
      rw [packPairs,unpackBytes,hh.1,hh.2,hp.unpack a (hs a (by simp)),hz]
      rfl
  | case3 a b s ih =>
      obtain ⟨pad,hu,hl⟩ := ih fun c hc => hs c (by simp [hc])
      have hh := halves (hp.small a) (hp.small b)
      refine ⟨pad,?_,by simp only [List.length_cons]; omega⟩
      rw [packPairs,unpackBytes,hh.1,hh.2,hp.unpack a (hs a (by simp)),
        hp.unpack b (hs b (by simp)),hu]
      rfl

theorem packPairs_length (pack : UInt8 → UInt8) (s : Bytes) :
    (packPairs pack s).length = (s.length+1)/2 := by
  induction s using packPairs.induct with
  | case1 => rfl
  | case2 a => simp [packPairs]
  | case3 a b s ih =>
      simp only [packPairs,List.length_cons,ih]
      omega

theorem packedHead_spec {n : ℕ} (h : n ≤ packedMax) :
    (packedHead n &&& 0x7F).toNat = (n+1)/2 ∧ (packedHead n &&& 0x80 ≠ 0 ↔ n % 2 = 1) := by
  have hall : ∀ i : Fin 128, (packedHead i &&& 0x7F).toNat = (i.val+1)/2 ∧
      (packedHead i &&& 0x80 ≠ 0 ↔ i.val % 2 = 1) := by decide
  exact hall ⟨n,Nat.lt_succ_of_le h⟩

theorem packable_iff {char : UInt8 → Bool} {s : Bytes} :
    packable char s = true ↔ s ≠ [] ∧ s.length ≤ packedMax ∧ ∀ c ∈ s, char c = true := by
  simp [packable,and_assoc]

theorem readPacked8_reads {tag : UInt8} {pack : UInt8 → UInt8} {char : UInt8 → Bool}
    (hp : Packs tag pack char) {s : Bytes} (hs : packable char s = true) :
    Reads (readPacked8 tag) (packedHead s.length::packPairs pack s) s := by
  obtain ⟨-,hl,hc⟩ := packable_iff.mp hs
  obtain ⟨hlow,hodd⟩ := packedHead_spec hl
  obtain ⟨pad,hu,hpad⟩ := unpackBytes_packPairs hp s hc
  have hraw := readRaw_reads (packPairs pack s)
  rw [packPairs_length,← hlow] at hraw
  refine (readByte_reads _).bind (hraw.bind_nil ?_)
  rw [hu]
  by_cases h : s.length % 2 = 1
  · obtain ⟨z,rfl⟩ := List.length_eq_one_iff.mp (hpad.trans h)
    have hz : (s++[z]).length ≠ 0 := by simp
    simp only [if_pos (hodd.mpr h),if_neg hz,List.dropLast_concat]
    exact Reads.pure s
  · obtain rfl := List.length_eq_zero_iff.mp (hpad.trans (by omega))
    simp only [if_neg (mt hodd.mp h),List.append_nil]
    exact Reads.pure s

theorem packable_valid {tag : UInt8} {pack : UInt8 → UInt8} {char : UInt8 → Bool}
    (hp : Packs tag pack char) {s : Bytes} (hs : packable char s = true) : utf8Valid s = true :=
  utf8Valid_of_ascii fun c hc => hp.ascii c ((packable_iff.mp hs).2.2 c hc)

section Content
variable {d : Dictionary} {asString : Bool}

/-- The bytes written for a blob are read back under each of the length forms. -/
theorem writeBytes_reads {b w : Bytes} (h : writeBytes b = .ok w) :
    Reads (readContent d asString) w (if asString && utf8Valid b then .str b else .bytes b) := by
  have hb := bytesOrString_reads b asString
  rw [readContent_eq]
  unfold writeBytes writeBytesLen at h
  split_ifs at h with h₁ h₂ h₃
  · cases h
    refine (readByte_reads binary8).bind (v := UInt8.ofNat b.length::b) ?_
    have hn := readInt_reads [UInt8.ofNat b.length]
    rw [bigEndian_one h₁] at hn
    exact hn.bind hb
  · cases h
    exact (readByte_reads binary20).bind ((readTag20_reads h₂).bind hb)
  · cases h
    have hlt : b.length < 4294967296 := lt_trans h₃ (by decide)
    have hn := readInt_reads [UInt8.ofNat (b.length >>> 24),UInt8.ofNat (b.length >>> 16),
      UInt8.ofNat (b.length >>> 8),UInt8.ofNat b.length]
    rw [bigEndian_four hlt] at hn
    exact (readByte_reads binary32).bind (hn.bind hb)
  · cases h

theorem nibble_reads {s : Bytes} (hs : isNibblePackable s = true) :
    Reads (readContent d asString) (nibble8::packedHead s.length::packPairs packNibble s)
      (.str s) := by
  rw [readContent_eq]
  exact (readByte_reads nibble8).bind ((readPacked8_reads nibble_packs hs).bind_nil (Reads.pure _))

theorem hex_reads {s : Bytes} (hs : isHexPackable s = true) :
    Reads (readContent d asString) (hex8::packedHead s.length::packPairs packHex s) (.str s) := by
  rw [readContent_eq]
  exact (readByte_reads hex8).bind ((readPacked8_reads hex_packs hs).bind_nil (Reads.pure _))

/-- The bytes that are neither a structural tag nor the empty list. -/
def tokenByte (b : UInt8) : Bool := (1 ≤ b && b ≤ 235) || (240 ≤ b && b ≤ 244)

theorem tokenByte_reads {b : UInt8} {s : Bytes} (hb : tokenByte b = true)
    (ht : d.singleToken b.toNat = some s) : Reads (readContent d asString) [b] (.str s) := by
  -- none of the tags with a branch of their own is a token
  have hne : ∀ tag : UInt8, tokenByte tag = false → b ≠ tag := by
    rintro tag htag rfl
    rw [hb] at htag
    cases htag
  have hlist : ¬(b = list8 ∨ b = list16) := not_or.mpr ⟨hne _ rfl,hne _ rfl⟩
  have hpacked : ¬(b = nibble8 ∨ b = hex8) := not_or.mpr ⟨hne _ rfl,hne _ rfl⟩
  have hdict : ¬(b = dictionary0 ∨ b = dictionary1 ∨ b = dictionary2 ∨ b = dictionary3) := by
    rintro (h | h | h | h) <;> exact hne _ rfl h
  rw [readContent_eq]
  refine (readByte_reads b).bind_nil ?_
  rw [if_neg (hne _ rfl),if_neg hlist,if_neg (hne _ rfl),if_neg (hne _ rfl),if_neg (hne _ rfl),
    if_neg hdict,if_neg (hne _ rfl),if_neg (hne _ rfl),if_neg (hne _ rfl),if_neg (hne _ rfl),
    if_neg hpacked,ht]
  exact Reads.pure _

/-- The four dictionary tags reach the dictionary branch of the reader, which recovers the number of
the dictionary from the tag. -/
theorem dictionaryTag_free {di : ℕ} {b : UInt8} (hdi : di < 4)
    (hb : b = UInt8.ofNat (dictionary0.toNat+di)) :
    b ≠ listEmpty ∧ ¬(b = list8 ∨ b = list16) ∧ b ≠ binary8 ∧ b ≠ binary20 ∧ b ≠ binary32 ∧
      (b = dictionary0 ∨ b = dictionary1 ∨ b = dictionary2 ∨ b = dictionary3) ∧
      b.toNat-dictionary0.toNat = di := by
  subst hb
  interval_cases di <;> decide

theorem dictionary_reads {di : ℕ} {i : UInt8} {s : Bytes} (hdi : di < 4)
    (ht : d.doubleToken di i.toNat = some s) :
    Reads (readContent d asString) [UInt8.ofNat (dictionary0.toNat+di),i] (.str s) := by
  obtain ⟨h₀,h₁,h₂,h₃,h₄,h₅,hnum⟩ := dictionaryTag_free hdi rfl
  rw [readContent_eq]
  refine (readByte_reads _).bind ?_
  rw [if_neg h₀,if_neg h₁,if_neg h₂,if_neg h₃,if_neg h₄,if_pos h₅]
  refine (readByte_reads i).bind_nil ?_
  rw [hnum,ht]
  exact Reads.pure _

theorem dictionary_rejects {di : ℕ} {i : UInt8} (hdi : di < 4)
    (ht : d.doubleToken di i.toNat = none) :
    Rejects (readContent d asString) [UInt8.ofNat (dictionary0.toNat+di),i] := by
  obtain ⟨h₀,h₁,h₂,h₃,h₄,h₅,hnum⟩ := dictionaryTag_free hdi rfl
  rw [readContent_eq]
  refine (readByte_reads _).rejects ?_
  rw [if_neg h₀,if_neg h₁,if_neg h₂,if_neg h₃,if_neg h₄,if_pos h₅]
  refine (readByte_reads i).rejects_nil ?_
  rw [hnum,ht]
  exact Rejects.failAt _

/-- A string is written as its token, packed, or raw. -/
theorem writeString_cases {s w : Bytes} (h : writeString d s = .ok w) :
    (∃ i, LastSingle d.singleByte s i ∧ w = [UInt8.ofNat i]) ∨
    ((∀ i, ¬LastSingle d.singleByte s i) ∧ ∃ di i, FirstDouble d.doubleByte s di i ∧
      w = [UInt8.ofNat (dictionary0.toNat+di),UInt8.ofNat i]) ∨
    ((∀ i, ¬LastSingle d.singleByte s i) ∧ (∀ di i, ¬FirstDouble d.doubleByte s di i) ∧
      ((s.length ≤ packedMax ∧ utf8Valid s = true ∧ ∀ b, Reads (readContent d b) w (.str s)) ∨
        writeBytes s = .ok w)) := by
  unfold writeString at h
  split at h
  · rename_i b hb
    cases h
    obtain ⟨i,hi,rfl⟩ := d.indexOfSingle_eq_some.mp hb
    exact .inl ⟨i,hi,rfl⟩
  · rename_i hs
    have hs' : ∀ i, ¬LastSingle d.singleByte s i := fun i hi =>
      absurd (d.indexOfSingle_eq_some.mpr ⟨i,hi,rfl⟩) (by simp [hs])
    right
    split at h
    · rename_i a b hb
      cases h
      obtain ⟨di,i,hi,hab⟩ := d.indexOfDouble_eq_some.mp hb
      cases hab
      have hlt := lt_of_lt_of_le hi.lt d.double_count
      have hdi : (UInt8.ofNat di).toNat = di := by
        rw [UInt8.toNat_ofNat']
        omega
      exact .inl ⟨hs',di,i,hi,by rw [hdi]⟩
    · rename_i hd
      refine .inr ⟨hs',fun di i hi => ?_,?_⟩
      · exact absurd (d.indexOfDouble_eq_some.mpr ⟨di,i,hi,rfl⟩) (by simp [hd])
      · split_ifs at h with h₁ h₂
        · cases h
          exact .inl ⟨(packable_iff.mp h₁).2.1,packable_valid nibble_packs h₁,
            fun b => nibble_reads h₁⟩
        · cases h
          exact .inl ⟨(packable_iff.mp h₂).2.1,packable_valid hex_packs h₂,fun b => hex_reads h₂⟩
        · exact .inr h

theorem writeBytes_ok_iff {b : Bytes} : (∃ w, writeBytes b = .ok w) ↔ b.length < maxInt32 := by
  unfold writeBytes writeBytesLen
  have h20 : 1 <<< 20 < maxInt32 := by decide
  have h8 : 256 < maxInt32 := by decide
  split_ifs with h₁ h₂ h₃
  · exact ⟨fun _ => by omega,fun _ => ⟨_,rfl⟩⟩
  · exact ⟨fun _ => by omega,fun _ => ⟨_,rfl⟩⟩
  · exact ⟨fun _ => h₃,fun _ => ⟨_,rfl⟩⟩
  · exact ⟨fun ⟨_,hw⟩ => (nomatch hw),fun h => (h₃ h).elim⟩

/-- A token of either kind, or a string below the length limit. -/
def Writable (d : Dictionary) (s : Bytes) : Prop :=
  (∃ i, LastSingle d.singleByte s i) ∨ (∃ di i, FirstDouble d.doubleByte s di i) ∨
    s.length < maxInt32

theorem writeString_ok_iff {s : Bytes} : (∃ w, writeString d s = .ok w) ↔ Writable d s := by
  constructor
  · rintro ⟨w,hw⟩
    rcases writeString_cases hw with ⟨i,hi,-⟩ | ⟨-,di,i,hi,-⟩ | ⟨-,-,⟨hl,-⟩ | hb⟩
    · exact .inl ⟨i,hi⟩
    · exact .inr (.inl ⟨di,i,hi⟩)
    · exact .inr (.inr (lt_of_le_of_lt hl (by decide)))
    · exact .inr (.inr (writeBytes_ok_iff.mp ⟨w,hb⟩))
  · intro h
    unfold writeString
    cases hs : d.indexOfSingle s with
    | some b => exact ⟨_,rfl⟩
    | none =>
        cases hd : d.indexOfDouble s with
        | some p => exact ⟨_,rfl⟩
        | none =>
            have hlen : s.length < maxInt32 := by
              rcases h with ⟨i,hi⟩ | ⟨di,i,hi⟩ | h
              · rw [d.indexOfSingle_eq_some.mpr ⟨i,hi,rfl⟩] at hs; cases hs
              · rw [d.indexOfDouble_eq_some.mpr ⟨di,i,hi,rfl⟩] at hd; cases hd
              · exact h
            split_ifs
            · exact ⟨_,rfl⟩
            · exact ⟨_,rfl⟩
            · exact writeBytes_ok_iff.mpr hlen

/-- Text and raw bytes are the same to a reader of strings. -/
theorem readStringLike_reads {w s : Bytes} {v : Value} (hv : v = .str s ∨ v = .bytes s)
    (h : Reads (readContent d false) w v) : Reads (readStringLike (readContent d)) w (.str s) := by
  refine h.bind_nil ?_
  rcases hv with rfl | rfl <;> exact Reads.pure _

theorem single_toNat {s : Bytes} {i : ℕ} (h : LastSingle d.singleByte s i) :
    (UInt8.ofNat i).toNat = i := by
  have hi := lt_of_lt_of_le h.lt d.single_count
  rw [singleByteMax] at hi
  rw [UInt8.toNat_ofNat']
  omega

theorem single_reads {s : Bytes} {i : ℕ} (h : LastSingle d.singleByte s i)
    (hi : tokenByte (UInt8.ofNat i) = true) :
    Reads (readContent d asString) [UInt8.ofNat i] (.str s) := by
  have hpos : 1 ≤ i := by
    by_contra hz
    obtain rfl : i = 0 := by omega
    exact absurd hi (by decide)
  exact tokenByte_reads hi (by rw [single_toNat h]; exact d.singleToken_of_last h hpos)

theorem double_reads {s : Bytes} {di i : ℕ} (h : FirstDouble d.doubleByte s di i) (hi : i < 256) :
    Reads (readContent d asString) [UInt8.ofNat (dictionary0.toNat+di),UInt8.ofNat i]
      (.str s) := by
  refine dictionary_reads (lt_of_lt_of_le h.lt d.double_count) ?_
  rw [UInt8.toNat_ofNat',Nat.mod_eq_of_lt (by omega)]
  exact d.doubleToken_of_first h

/-- The other bytes cannot stand alone as a string: they announce more input or
are the empty list. -/
theorem structural_not_string {b : UInt8} (hb : tokenByte b = false) (s : Bytes) :
    readStringLike (readContent d) [b] 0 ≠ .ok (.str s,1) := by
  have hcases : ∀ b : UInt8, tokenByte b = false → b = 0 ∨ b = 236 ∨ b = 237 ∨ b = 238 ∨ b = 239 ∨
      b = 245 ∨ b = 246 ∨ b = 247 ∨ b = 248 ∨ b = 249 ∨ b = 250 ∨ b = 251 ∨ b = 252 ∨ b = 253 ∨
      b = 254 ∨ b = 255 := by decide +kernel
  rcases hcases b hb with rfl | rfl | rfl | rfl | rfl | rfl | rfl | rfl | rfl | rfl | rfl | rfl |
    rfl | rfl | rfl | rfl
  all_goals exact fun h => nomatch h

end Content

/-- What a string value becomes in attribute and content position. -/
def plainText (s : Bytes) : Value := if utf8Valid s then .str s else .bytes s

/-- The positions at which a string survives being written and read. -/
def Addressable (ts : List String) (ls : List (List String)) (s : Bytes) : Prop :=
  (∃ i, LastSingle ts s i ∧ (1 ≤ i ∧ i ≤ 235 ∨ 240 ≤ i ∧ i ≤ 244)) ∨
  ((∀ i, ¬LastSingle ts s i) ∧ ∃ di i, FirstDouble ls s di i ∧ i < 256) ∨
  ((∀ i, ¬LastSingle ts s i) ∧ (∀ di i, ¬FirstDouble ls s di i) ∧ s.length < maxInt32)

theorem Addressable.writable {d : Dictionary} {s : Bytes}
    (h : Addressable d.singleByte d.doubleByte s) : Writable d s := by
  rcases h with ⟨i,hi,-⟩ | ⟨-,di,i,hi,-⟩ | ⟨-,-,hl⟩
  · exact .inl ⟨i,hi⟩
  · exact .inr (.inl ⟨di,i,hi⟩)
  · exact .inr (.inr hl)

theorem tokenByte_iff {i : ℕ} (h : (UInt8.ofNat i).toNat = i) :
    tokenByte (UInt8.ofNat i) = true ↔ 1 ≤ i ∧ i ≤ 235 ∨ 240 ≤ i ∧ i ≤ 244 := by
  simp only [tokenByte,Bool.or_eq_true,Bool.and_eq_true,decide_eq_true_eq,UInt8.le_iff_toNat_le,h,
    show (1 : UInt8).toNat = 1 from rfl,show (235 : UInt8).toNat = 235 from rfl,
    show (240 : UInt8).toNat = 240 from rfl,show (244 : UInt8).toNat = 244 from rfl]

/-- An addressable string is read as valid text, or as it was written raw. -/
theorem writeString_reads {d : Dictionary} {s w : Bytes} {asString : Bool}
    (h : Addressable d.singleByte d.doubleByte s) (hw : writeString d s = .ok w) :
    (utf8Valid s = true ∧ Reads (readContent d asString) w (.str s)) ∨
      Reads (readContent d asString) w (if asString && utf8Valid s then .str s else .bytes s) := by
  rcases writeString_cases hw with ⟨i,hi,rfl⟩ | ⟨hs,di,i,hi,rfl⟩ | ⟨hs,hdn,⟨-,hv,hr⟩ | hb⟩
  · rcases h with ⟨j,hj,hrange⟩ | ⟨hs,-⟩ | ⟨hs,-⟩
    · obtain rfl := hi.unique hj
      have hb := (tokenByte_iff (single_toNat hi)).mpr hrange
      exact .inl ⟨hi.valid,single_reads hi hb⟩
    · exact (hs i hi).elim
    · exact (hs i hi).elim
  · rcases h with ⟨j,hj,-⟩ | ⟨-,dj,j,hj,hlt⟩ | ⟨-,hdn,-⟩
    · exact (hs j hj).elim
    · obtain ⟨rfl,rfl⟩ := hi.unique hj
      exact .inl ⟨hi.valid,double_reads hi hlt⟩
    · exact (hdn di i hi).elim
  · exact .inl ⟨hv,hr asString⟩
  · exact .inr (writeBytes_reads hb)

theorem writeString_reads_like {d : Dictionary} {s w : Bytes}
    (h : Addressable d.singleByte d.doubleByte s) (hw : writeString d s = .ok w) :
    Reads (readStringLike (readContent d)) w (.str s) := by
  rcases writeString_reads h hw with ⟨-,hr⟩ | hr
  · exact readStringLike_reads (.inl rfl) hr
  · exact readStringLike_reads (.inr rfl) hr

theorem writeString_reads_plain {d : Dictionary} {s w : Bytes}
    (h : Addressable d.singleByte d.doubleByte s) (hw : writeString d s = .ok w) :
    Reads (readContent d true) w (plainText s) := by
  rcases writeString_reads h hw with ⟨hv,hr⟩ | hr
  · rwa [plainText,if_pos hv]
  · simpa [plainText] using hr

/-- Well-formed tables keep every string they can write. -/
theorem addressable_of_wellFormed {d : Dictionary} (hd : d.WellFormed) {s : Bytes}
    (h : Writable d s) : Addressable d.singleByte d.doubleByte s := by
  by_cases hs : ∃ i, LastSingle d.singleByte s i
  · obtain ⟨i,hi⟩ := hs
    have hlt := lt_of_lt_of_le hi.lt hd.single
    have hpos : i ≠ 0 := by
      rintro rfl
      obtain ⟨hne,⟨t,ht,rfl⟩,-⟩ := hi
      exact hne (text_eq_nil.mpr (hd.zero t ht))
    exact .inl ⟨i,hi,.inl ⟨by omega,by omega⟩⟩
  · have hs' : ∀ i, ¬LastSingle d.singleByte s i := fun i hi => hs ⟨i,hi⟩
    by_cases hdb : ∃ di i, FirstDouble d.doubleByte s di i
    · obtain ⟨di,i,hi⟩ := hdb
      obtain ⟨⟨l,hl,hf⟩,-⟩ := id hi
      obtain ⟨hlt,-⟩ := List.findIdx?_eq_some_iff_getElem.mp hf
      have hlen := hd.double l (List.mem_of_getElem? hl)
      exact .inr (.inl ⟨hs',di,i,hi,by omega⟩)
    · refine .inr (.inr ⟨hs',fun di i hi => hdb ⟨di,i,hi⟩,?_⟩)
      rcases h with h | h | h
      · exact (hs h).elim
      · exact (hdb h).elim
      · exact h

/-- A second byte that wrapped around names an earlier, different entry. -/
theorem double_wrapped {d : Dictionary} {s : Bytes} {di i : ℕ}
    (h : FirstDouble d.doubleByte s di i) (hi : 256 ≤ i) :
    d.doubleToken di (UInt8.ofNat i).toNat ≠ some s := by
  obtain ⟨⟨l,hl,hf⟩,-⟩ := h
  obtain ⟨hlt,-,hfirst⟩ := List.findIdx?_eq_some_iff_getElem.mp hf
  have hmod : (UInt8.ofNat i).toNat < i := by
    rw [UInt8.toNat_ofNat']
    omega
  rw [Dictionary.doubleToken,hl]
  simp only [List.getElem?_eq_getElem (hmod.trans hlt),Option.map_some,ne_eq,Option.some.injEq]
  exact fun he => hfirst _ hmod (decide_eq_true he)

/-- Reading a dictionary token back returns the table entry at its second byte. -/
theorem dictionary_value {d : Dictionary} {di : ℕ} {i : UInt8} {s : Bytes} (hdi : di < 4)
    (h : readStringLike (readContent d) [UInt8.ofNat (dictionary0.toNat+di),i] 0 =
      .ok (.str s,2)) : d.doubleToken di i.toNat = some s := by
  cases ht : d.doubleToken di i.toNat with
  | some t =>
      have hr := readStringLike_reads (.inl rfl) (dictionary_reads hdi ht) [] []
      cases hr.symm.trans h
      rfl
  | none =>
      have hr : Rejects (readStringLike (readContent d)) _ := (dictionary_rejects hdi ht).bind_nil
      obtain ⟨e,he⟩ := hr [] []
      cases he.symm.trans h

/-- In a dictionary built from a document, exactly the strings addressable in the
tables of that document are written and then read back with nothing left over. -/
theorem writeString_read_back_iff (unmarshal : Bytes → Except String DictFile) (data : Bytes)
    (f : DictFile) (d : Dictionary) (hf : unmarshal data = .ok f)
    (hd : fromJSON unmarshal data = .ok d) (s : Bytes) :
    (∃ w, writeString d s = .ok w ∧
      readStringLike (readContent d) w 0 = .ok (.str s,w.length)) ↔
      Addressable f.singleByte f.doubleByte s := by
  rw [fromJSON,hf] at hd
  obtain ⟨hts,hls⟩ := ofFile_tables hd
  rw [← hts,← hls]
  constructor
  · rintro ⟨w,hw,hr⟩
    rcases writeString_cases hw with ⟨i,hi,rfl⟩ | ⟨hs,di,i,hi,rfl⟩ | ⟨hs,hdn,h⟩
    · refine .inl ⟨i,hi,(tokenByte_iff (single_toNat hi)).mp ?_⟩
      by_contra hb
      exact structural_not_string (Bool.eq_false_iff.mpr hb) s hr
    · refine .inr (.inl ⟨hs,di,i,hi,?_⟩)
      by_contra hge
      exact double_wrapped hi (by omega)
        (dictionary_value (lt_of_lt_of_le hi.lt d.double_count) hr)
    · rcases h with ⟨hl,-⟩ | hb
      · exact .inr (.inr ⟨hs,hdn,lt_of_le_of_lt hl (by decide)⟩)
      · exact .inr (.inr ⟨hs,hdn,writeBytes_ok_iff.mp ⟨w,hb⟩⟩)
  · intro h
    obtain ⟨w,hw⟩ := writeString_ok_iff.mpr h.writable
    have hr := writeString_reads_like h hw [] []
    rw [List.nil_append,List.append_nil,List.length_nil,Nat.zero_add] at hr
    exact ⟨w,hw,hr⟩

/-! ### Dictionaries from documents -/

/-- A token of a document. -/
def intoToken (j : Json) : Option String :=
  (intoString [] j).map fun s => String.ofList (Utf8Runes.runes s)

def intoTokens (j : Json) : Option (List String) := (intoList j).bind fun es => es.mapM intoToken

def dictMember (f : DictFile) (e : Bytes × Json) : Option DictFile :=
  if named "version" e.1 then
    (intoInt64 (Int64.ofInt f.version) e.2).map fun v => {f with version := v.toInt}
  else if named "single" e.1 then
    (intoTokens e.2).map fun ts => {f with singleByte := ts}
  else if named "double" e.1 then
    ((intoList e.2).bind fun ls => ls.mapM intoTokens).map fun ls => {f with doubleByte := ls}
  else some f

/-- The decoder for documents in which no field stands twice. -/
def unmarshalDictFile (data : Bytes) : Except String DictFile :=
  match (unmarshal data).bind (intoRecord dictMember ⟨0,[],[]⟩) with
  | some f => .ok f
  | none => .error "invalid document"

def tokensJson (ts : List String) : Json := .arr (ts.map fun t => .str (text t))

def dictDocument (f : DictFile) : Bytes :=
  marshal (.obj [(text "version",.num (.ofInt f.version)),
    (text "single",tokensJson f.singleByte),(text "double",.arr (f.doubleByte.map tokensJson))])

theorem intoTokens_tokensJson (ts : List String) : intoTokens (tokensJson ts) = some ts := by
  refine mapM_map (fun t => ?_) ts
  rw [intoToken,intoString,Option.map_some,Utf8Runes.ofList_runes_text]

theorem coerced_tokensJson (ts : List String) : coerced (tokensJson ts) = tokensJson ts := by
  rw [tokensJson,coerced,coercedElems_map fun t _ => ?_]
  rw [coerced,Utf8Runes.coerce_text]

theorem depth_tokensJson (ts : List String) : depth (tokensJson ts) ≤ 1 := by
  refine Nat.succ_le_succ (depthElems_map (fun t => ?_) ts)
  exact Nat.zero_le 0

/-- Every file is read out of its document. -/
theorem unmarshalDictFile_dictDocument {f : DictFile}
    (hversion : (Int64.ofInt f.version).toInt = f.version) :
    unmarshalDictFile (dictDocument f) = .ok f := by
  have hdepth : depth (.obj [(text "version",.num (.ofInt f.version)),
      (text "single",tokensJson f.singleByte),(text "double",.arr (f.doubleByte.map tokensJson))]) ≤
      maxNestingDepth := by
    have hsingle := depth_tokensJson f.singleByte
    have hdouble := depthElems_map depth_tokensJson f.doubleByte
    simp only [depth,depthMembers,maxNestingDepth]
    omega
  have hmember : dictMember ⟨0,[],[]⟩ (text "version",.num (.ofInt f.version)) =
      some ⟨f.version,[],[]⟩ := by
    show (intoInt64 (Int64.ofInt 0) (.num (.ofInt f.version))).map _ = _
    rw [← hversion,intoInt64_ofInt]
    rfl
  have hsingle : dictMember ⟨f.version,[],[]⟩ (text "single",tokensJson f.singleByte) =
      some ⟨f.version,f.singleByte,[]⟩ := by
    show (intoTokens (tokensJson f.singleByte)).map _ = _
    rw [intoTokens_tokensJson]
    rfl
  have hdouble : dictMember ⟨f.version,f.singleByte,[]⟩
      (text "double",.arr (f.doubleByte.map tokensJson)) = some f := by
    show ((f.doubleByte.map tokensJson).mapM intoTokens).map _ = _
    rw [mapM_map intoTokens_tokensJson]
    rfl
  rw [unmarshalDictFile,dictDocument,unmarshal_marshal hdepth,Option.bind_some]
  simp only [coerced,coercedMembers,Utf8Runes.coerce_text,coerced_tokensJson,
    coercedElems_map fun ts _ => coerced_tokensJson ts,intoRecord,List.foldlM_cons,hmember,hsingle,
    hdouble,List.foldlM_nil,Option.bind_eq_bind,Option.bind_some,Option.pure_def]

/-- One token at an ordinary index, and a second list. -/
def smallTokens : DictFile := ⟨3,["","x"],[["y","é"]]⟩

theorem smallTokens_read_back :
    ∃ d, fromJSON unmarshalDictFile (dictDocument smallTokens) = .ok d ∧
    ∃ w, writeString d (text "x") = .ok w ∧
      readStringLike (readContent d) w 0 = .ok (.str (text "x"),w.length) := by
  obtain ⟨d,hd⟩ : ∃ d, fromJSON unmarshalDictFile (dictDocument smallTokens) = .ok d := by
    rw [fromJSON,unmarshalDictFile_dictDocument rfl]
    exact ⟨_,rfl⟩
  refine ⟨d,hd,(writeString_read_back_iff unmarshalDictFile _ smallTokens d
    (unmarshalDictFile_dictDocument rfl) hd (text "x")).mpr ?_⟩
  refine .inl ⟨1,⟨by decide,⟨"x",rfl,rfl⟩,fun j t hj ht => ?_⟩,.inl ⟨le_rfl,by decide⟩⟩
  have hlt := (List.getElem?_eq_some_iff.mp ht).choose
  exact absurd hlt (by simp only [smallTokens,List.length_cons,List.length_nil]; omega)

/-- A token at the index of the first dictionary tag. -/
def crowdedTokens : DictFile := ⟨3,List.replicate 236 ""++["x"],[]⟩

/-- The table is accepted, the token is written as the tag, and the tag asks for a
second byte. -/
theorem crowdedTokens_token_lost :
    ∃ d, fromJSON unmarshalDictFile (dictDocument crowdedTokens) = .ok d ∧
    writeString d (text "x") = .ok [dictionary0] ∧
    readStringLike (readContent d) [dictionary0] 0 = .error (.truncated 1 0) := by
  rw [fromJSON,unmarshalDictFile_dictDocument rfl]
  exact ⟨_,ofFile_ok (by decide +kernel) (by decide),by decide +kernel,rfl⟩

end BaturWhatsApi.StringCodec
