import BaturWhatsApi.ByteStrings

/-!
# The standard base64 encoding

Three bytes are four digits of six bits, and a shorter last group is filled up with
padding. The decoder skips the ends of lines anywhere and does not look at the bits that
a shorter group leaves over, so several texts stand for the same bytes. What the encoder
writes is read back.
-/
namespace BaturWhatsApi.Base64
open ByteStrings

def pad : UInt8 := 61

/-- Letters, digits, plus and slash. -/
def digit (n : ℕ) : UInt8 :=
  if n < 26 then UInt8.ofNat (n+65)
  else if n < 52 then UInt8.ofNat (n+71)
  else if n < 62 then UInt8.ofNat (n-4)
  else if n = 62 then 43
  else 47

def digitValue (c : UInt8) : Option ℕ :=
  if 65 ≤ c && c ≤ 90 then some (c.toNat-65)
  else if 97 ≤ c && c ≤ 122 then some (c.toNat-71)
  else if 48 ≤ c && c ≤ 57 then some (c.toNat+4)
  else if c = 43 then some 62
  else if c = 47 then some 63
  else none

/-- The digit at a place of a group. -/
def digitAt (v shift : ℕ) : UInt8 := digit (v >>> shift &&& 63)

def encode : Bytes → Bytes
  | a::b::c::rest =>
      let v := bigEndian [a,b,c]
      digitAt v 18::digitAt v 12::digitAt v 6::digitAt v 0::encode rest
  | [a,b] =>
      let v := bigEndian [a,b,0]
      [digitAt v 18,digitAt v 12,digitAt v 6,pad]
  | [a] =>
      let v := bigEndian [a,0,0]
      [digitAt v 18,digitAt v 12,pad,pad]
  | [] => []

/-- The number that the digits of a group make. -/
def groupValue (ds : List ℕ) : ℕ := ds.foldl (fun v d => v <<< 6 ||| d) 0

/-- The bytes of a group. -/
def groupBytes (v : ℕ) : Bytes := [UInt8.ofNat (v >>> 16),UInt8.ofNat (v >>> 8),UInt8.ofNat v]

/-- The decoder on a text without ends of lines. Padding ends the text. -/
def decodeGroups : Bytes → Option Bytes
  | [] => some []
  | c₀::c₁::c₂::c₃::rest =>
      match digitValue c₀,digitValue c₁,digitValue c₂,digitValue c₃ with
      | some d₀,some d₁,some d₂,some d₃ =>
          (decodeGroups rest).map (groupBytes (groupValue [d₀,d₁,d₂,d₃])++·)
      | some d₀,some d₁,some d₂,none =>
          if c₃ = pad ∧ rest = [] then some ((groupBytes (groupValue [d₀,d₁,d₂,0])).take 2)
          else none
      | some d₀,some d₁,none,none =>
          if c₂ = pad ∧ c₃ = pad ∧ rest = [] then
            some ((groupBytes (groupValue [d₀,d₁,0,0])).take 1)
          else none
      | _,_,_,_ => none
  | _ => none

def decode (s : Bytes) : Option Bytes := decodeGroups (s.filter fun c => c != 10 && c != 13)

theorem digit_value : ∀ n < 64, digitValue (digit n) = some n ∧
    (digit n != 10 && digit n != 13) = true := by
  decide +kernel

theorem digitAt_value (v shift : ℕ) : digitValue (digitAt v shift) = some (v >>> shift &&& 63) ∧
    (digitAt v shift != 10 && digitAt v shift != 13) = true :=
  digit_value _ (Nat.and_lt_two_pow _ (by decide : 63 < 2^6))

theorem groupValue_digits {v : ℕ} (h : v < 2^24) :
    groupValue [v >>> 18 &&& 63,v >>> 12 &&& 63,v >>> 6 &&& 63,v >>> 0 &&& 63] = v := by
  have hor : ∀ a d : ℕ, d < 64 → a <<< 6 ||| d = a*64+d := by
    intro a d hd
    rw [← Nat.shiftLeft_add_eq_or_of_lt (show d < 2^6 from hd) a,Nat.shiftLeft_eq]
  have hmask : ∀ a : ℕ, a &&& 63 = a % 64 := fun a => Nat.and_two_pow_sub_one_eq_mod a 6
  simp only [groupValue,List.foldl_cons,List.foldl_nil,hmask,Nat.shiftRight_eq_div_pow]
  rw [hor _ _ (Nat.mod_lt _ (by decide)),hor _ _ (Nat.mod_lt _ (by decide)),
    hor _ _ (Nat.mod_lt _ (by decide)),hor _ _ (Nat.mod_lt _ (by decide))]
  omega

theorem bigEndian_three (a b c : UInt8) :
    bigEndian [a,b,c] = a.toNat*65536+b.toNat*256+c.toNat := by
  simp only [bigEndian,List.foldl_cons,List.foldl_nil,shift_or_byte]
  omega

theorem bigEndian_three_lt (a b c : UInt8) : bigEndian [a,b,c] < 2^24 := by
  have := a.toNat_lt
  have := b.toNat_lt
  have := c.toNat_lt
  rw [bigEndian_three]
  omega

theorem groupBytes_bigEndian (a b c : UInt8) : groupBytes (bigEndian [a,b,c]) = [a,b,c] := by
  have := a.toNat_lt
  have := b.toNat_lt
  have := c.toNat_lt
  rw [bigEndian_three,groupBytes]
  simp only [Nat.shiftRight_eq_div_pow,List.cons.injEq,and_true,← UInt8.toNat_inj,
    UInt8.toNat_ofNat']
  omega

theorem encode_filter (b : Bytes) :
    (encode b).filter (fun c => c != 10 && c != 13) = encode b := by
  induction b using encode.induct with
  | case1 a b c rest ih =>
      simp only [encode,List.filter_cons,(digitAt_value _ _).2,if_true,ih]
  | case2 a b =>
      simp only [encode,List.filter_cons,(digitAt_value _ _).2,if_true]
      rfl
  | case3 a =>
      simp only [encode,List.filter_cons,(digitAt_value _ _).2,if_true]
      rfl
  | case4 => rfl

/-- The last groups: the digits that are missing are zero. -/
theorem low_digits (a b : UInt8) : bigEndian [a,b,0] >>> 0 &&& 63 = 0 ∧
    bigEndian [a,0,0] >>> 6 &&& 63 = 0 ∧ bigEndian [a,0,0] >>> 0 &&& 63 = 0 := by
  have hmask : ∀ a : ℕ, a &&& 63 = a % 64 := fun a => Nat.and_two_pow_sub_one_eq_mod a 6
  simp only [hmask,bigEndian_three,Nat.shiftRight_eq_div_pow,UInt8.toNat_zero]
  omega

theorem pad_value : digitValue pad = none := by
  decide

theorem decode_encode (b : Bytes) : decode (encode b) = some b := by
  rw [decode,encode_filter]
  induction b using encode.induct with
  | case1 a b c rest ih =>
      simp only [encode,decodeGroups,(digitAt_value _ _).1,ih,Option.map_some]
      rw [groupValue_digits (bigEndian_three_lt a b c),groupBytes_bigEndian]
      rfl
  | case2 a b =>
      have hgroup := groupValue_digits (bigEndian_three_lt a b 0)
      rw [(low_digits a b).1] at hgroup
      simp only [encode,decodeGroups,(digitAt_value _ _).1,pad_value,and_self,if_true,hgroup,
        groupBytes_bigEndian]
      rfl
  | case3 a =>
      have hgroup := groupValue_digits (bigEndian_three_lt a 0 0)
      rw [(low_digits a 0).2.1,(low_digits a 0).2.2] at hgroup
      simp only [encode,decodeGroups,(digitAt_value _ _).1,pad_value,and_self,if_true,hgroup,
        groupBytes_bigEndian]
      rfl
  | case4 => rfl

theorem digitAt_ascii (v shift : ℕ) : digitAt v shift < 128 := by
  have hdigit : ∀ n < 64, digit n < 128 := by decide +kernel
  exact hdigit _ (Nat.and_lt_two_pow _ (by decide : 63 < 2^6))

theorem encode_ascii {b : Bytes} {x : UInt8} (h : x ∈ encode b) : x < 128 := by
  have hpad : pad < 128 := by decide
  induction b using encode.induct with
  | case1 a b c rest ih =>
      simp only [encode,List.mem_cons] at h
      rcases h with rfl | rfl | rfl | rfl | h
      · exact digitAt_ascii _ _
      · exact digitAt_ascii _ _
      · exact digitAt_ascii _ _
      · exact digitAt_ascii _ _
      · exact ih h
  | case2 a b =>
      simp only [encode,List.mem_cons,List.not_mem_nil,or_false] at h
      rcases h with rfl | rfl | rfl | rfl
      · exact digitAt_ascii _ _
      · exact digitAt_ascii _ _
      · exact digitAt_ascii _ _
      · exact hpad
  | case3 a =>
      simp only [encode,List.mem_cons,List.not_mem_nil,or_false] at h
      rcases h with rfl | rfl | rfl | rfl
      · exact digitAt_ascii _ _
      · exact digitAt_ascii _ _
      · exact hpad
      · exact hpad
  | case4 => cases h

/-- Another spelling of one byte. -/
example : decode (text "AQ==") = some [1] ∧ decode (text "A\nR==") = some [1] := by
  decide +kernel

end BaturWhatsApi.Base64
