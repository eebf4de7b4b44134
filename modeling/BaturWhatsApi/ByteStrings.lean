import Mathlib

/-!
# Byte strings, text and big-endian numbers

A string and a byte slice are both lists of bytes; the length is a count of
bytes and the order is bytewise. Text validity is the standard UTF-8 validator,
so the bytes of a Lean string are valid by construction. Strings made only of
seven-bit bytes are valid as well, which is the one fact about the validator
proved here.

Big-endian numbers are folded exactly as a shift-and-or loop folds them. The
fixed-width lemmas recover a number from its truncated shifts. Counters wrap.
-/
namespace BaturWhatsApi.ByteStrings

abbrev Bytes := List UInt8

/-- Bytes are compared as numbers; byte strings inherit the lexicographic order. -/
instance byteOrder : LinearOrder UInt8 where
  le_refl a := Nat.le_refl a.toNat
  le_trans _ b _ h k := Nat.le_trans (m := b.toNat) h k
  lt_iff_le_not_ge a b := Nat.lt_iff_le_and_not_ge (m := a.toNat) (n := b.toNat)
  le_antisymm _ _ h k := UInt8.toNat_inj.mp (Nat.le_antisymm h k)
  le_total a b := Nat.le_total a.toNat b.toNat
  toDecidableLE := fun a b => inferInstanceAs (Decidable (a.toNat ≤ b.toNat))
  toDecidableLT := fun a b => inferInstanceAs (Decidable (a.toNat < b.toNat))
  toDecidableEq := inferInstance

/-- The bytes of a text literal. -/
def text (s : String) : Bytes := s.toByteArray.data.toList

theorem text_injective : Function.Injective text := by
  intro s t h
  apply String.toByteArray_inj.mp
  exact congrArg ByteArray.mk (Array.toList_inj.mp h)

@[simp] theorem text_inj {s t : String} : text s = text t ↔ s = t :=
  text_injective.eq_iff

@[simp] theorem text_empty : text "" = [] := rfl

theorem text_eq_nil {s : String} : text s = [] ↔ s = "" := by
  rw [← text_empty,text_inj]

/-- Bytewise validity as checked by the standard UTF-8 validator. -/
def utf8Valid (b : Bytes) : Bool := (ByteArray.mk b.toArray).validateUTF8

theorem utf8Valid_iff (b : Bytes) :
    utf8Valid b = true ↔ (ByteArray.mk b.toArray).IsValidUTF8 :=
  ByteArray.validateUTF8_eq_true_iff

@[simp] theorem utf8Valid_text (s : String) : utf8Valid (text s) = true := by
  rw [utf8Valid_iff]
  simpa [text] using s.isValidUTF8

/-- A seven-bit byte is the encoding of one character. -/
theorem ascii_encode (b : UInt8) (h : b < 128) :
    ∃ c : Char, String.utf8EncodeChar c = [b] := by
  have hs : (Char.ofUInt8 b).utf8Size = 1 := by
    have hb : b.toNat < 128 := h
    rw [Char.utf8Size_eq_one_iff,UInt32.le_iff_toNat_le]
    simp only [Char.ofUInt8,UInt8.toNat_toUInt32,UInt32.reduceToNat]
    omega
  exact ⟨Char.ofUInt8 b,by rw [String.utf8EncodeChar_eq_singleton hs]; simp [Char.ofUInt8]⟩

theorem utf8Valid_of_ascii {b : Bytes} (h : ∀ x ∈ b, x < 128) : utf8Valid b = true := by
  have hc : ∃ cs : List Char, cs.flatMap String.utf8EncodeChar = b := by
    induction b with
    | nil => exact ⟨[],rfl⟩
    | cons x b ih =>
        obtain ⟨c,hc⟩ := ascii_encode x (h x (by simp))
        obtain ⟨cs,hcs⟩ := ih (fun y hy => h y (by simp [hy]))
        exact ⟨c::cs,by simp [hc,hcs]⟩
  obtain ⟨cs,rfl⟩ := hc
  rw [utf8Valid_iff]
  exact ⟨cs,by rw [List.utf8Encode]; apply ByteArray.ext; simp⟩

/-- The shift-and-or loop over the bytes of a big-endian number. -/
def bigEndian (bs : Bytes) : ℕ := bs.foldl (fun v b => v <<< 8 ||| b.toNat) 0

theorem bigEndian_concat (bs : Bytes) (b : UInt8) :
    bigEndian (bs++[b]) = bigEndian bs <<< 8 ||| b.toNat := by
  rw [bigEndian,List.foldl_append]
  rfl

theorem shift_or_byte (v : ℕ) (b : UInt8) : v <<< 8 ||| b.toNat = v*256+b.toNat := by
  rw [← Nat.shiftLeft_add_eq_or_of_lt b.toNat_lt v,Nat.shiftLeft_eq]

theorem bigEndian_one {n : ℕ} (h : n < 256) : bigEndian [UInt8.ofNat n] = n := by
  simp only [bigEndian,List.foldl_cons,List.foldl_nil,shift_or_byte,UInt8.toNat_ofNat']
  omega

theorem bigEndian_two {n : ℕ} (h : n < 65536) :
    bigEndian [UInt8.ofNat (n >>> 8),UInt8.ofNat n] = n := by
  simp only [bigEndian,List.foldl_cons,List.foldl_nil,shift_or_byte,UInt8.toNat_ofNat',
    Nat.shiftRight_eq_div_pow]
  omega

theorem bigEndian_four {n : ℕ} (h : n < 4294967296) :
    bigEndian [UInt8.ofNat (n >>> 24),UInt8.ofNat (n >>> 16),UInt8.ofNat (n >>> 8),
      UInt8.ofNat n] = n := by
  simp only [bigEndian,List.foldl_cons,List.foldl_nil,shift_or_byte,UInt8.toNat_ofNat',
    Nat.shiftRight_eq_div_pow]
  omega

/-! Counters of 32 bits, a number of steps apart. -/

theorem counter_ne {c : UInt32} {k : ℕ} (hk : 0 < k) (hlt : k < 2^32) : c+UInt32.ofNat k ≠ c := by
  intro h
  have hz : UInt32.ofNat k = 0 := by simpa using h
  have := congrArg UInt32.toNat hz
  rw [UInt32.toNat_ofNat_of_lt' hlt] at this
  simp at this
  omega

theorem counter_inj {c : UInt32} {i j : ℕ} (hi : i < 2^32) (hj : j < 2^32)
    (h : c+UInt32.ofNat i = c+UInt32.ofNat j) : i = j := by
  have he : UInt32.ofNat i = UInt32.ofNat j := by simpa using h
  have := congrArg UInt32.toNat he
  rwa [UInt32.toNat_ofNat_of_lt' hi,UInt32.toNat_ofNat_of_lt' hj] at this

theorem counter_add_sub {c n : UInt32} (h : c ≤ n) : c+UInt32.ofNat (n.toNat-c.toNat) = n := by
  rw [UInt32.le_iff_toNat_le] at h
  have hn := n.toNat_lt
  apply UInt32.toNat_inj.mp
  rw [UInt32.toNat_add,UInt32.toNat_ofNat_of_lt' (show n.toNat-c.toNat < 2^32 by omega)]
  omega

end BaturWhatsApi.ByteStrings
