import BaturWhatsApi.ByteStrings

/-!
# The standard base32 encoding without padding

Five bytes are eight digits of five bits. A shorter last group is filled up with zero
bits to a whole number of digits. The digits determine the bytes.
-/
namespace BaturWhatsApi.Base32
open ByteStrings

/-- Capital letters, then the digits from two to seven. -/
def digit (n : ℕ) : UInt8 := if n < 26 then UInt8.ofNat (n+65) else UInt8.ofNat (n+24)

def digitAt (v shift : ℕ) : UInt8 := digit (v >>> shift &&& 31)

def group (a b c d e : UInt8) : Bytes :=
  (List.range 8).map fun i => digitAt (bigEndian [a,b,c,d,e]) (35-5*i)

def encode : Bytes → Bytes
  | a::b::c::d::e::rest => group a b c d e++encode rest
  | [a,b,c,d] => (group a b c d 0).take 7
  | [a,b,c] => (group a b c 0 0).take 5
  | [a,b] => (group a b 0 0 0).take 4
  | [a] => (group a 0 0 0 0).take 2
  | [] => []

theorem digit_inj : ∀ m < 32, ∀ n < 32, digit m = digit n → m = n := by
  decide +kernel

theorem digit_lt : ∀ n < 32, digit n < 128 := by decide +kernel

theorem and_31_lt (n : ℕ) : n &&& 31 < 32 := Nat.and_lt_two_pow n (by decide : 31 < 2^5)

theorem digitAt_inj {v w shift : ℕ} (h : digitAt v shift = digitAt w shift) :
    v/2^shift%32 = w/2^shift%32 := by
  have heq := digit_inj _ (and_31_lt _) _ (and_31_lt _) h
  have hmask : ∀ n : ℕ, n &&& 31 = n%32 := fun n => Nat.and_two_pow_sub_one_eq_mod n 5
  rwa [hmask,hmask,Nat.shiftRight_eq_div_pow,Nat.shiftRight_eq_div_pow] at heq

theorem bigEndian_five (a b c d e : UInt8) : bigEndian [a,b,c,d,e] =
    a.toNat*4294967296+b.toNat*16777216+c.toNat*65536+d.toNat*256+e.toNat := by
  simp only [bigEndian,List.foldl_cons,List.foldl_nil,shift_or_byte]
  omega

section
variable {a b c d e a' b' c' d' e' : UInt8} {n : ℕ}

theorem group_digit (hn : n ≤ 8)
    (h : (group a b c d e).take n = (group a' b' c' d' e').take n) {i : ℕ} (hi : i < n) :
    bigEndian [a,b,c,d,e]/2^(35-5*i)%32 = bigEndian [a',b',c',d',e']/2^(35-5*i)%32 := by
  apply digitAt_inj
  have hget := congrArg (·[i]?) h
  have hlt : i < 8 := Nat.lt_of_lt_of_le hi hn
  simpa [group,List.getElem?_take,hi,hlt] using hget

/-- The first digits of a group determine the bits written in them. -/
theorem group_take (hn : n ≤ 8)
    (h : (group a b c d e).take n = (group a' b' c' d' e').take n) :
    bigEndian [a,b,c,d,e]/2^(40-5*n) = bigEndian [a',b',c',d',e']/2^(40-5*n) := by
  have hdigit := fun i (hi : i < n) => group_digit hn h hi
  clear h
  induction n with
  | zero =>
      have hlt : ∀ a b c d e : UInt8, bigEndian [a,b,c,d,e] < 2^40 := by
        intro a b c d e
        have ha := a.toNat_lt
        have hb := b.toNat_lt
        have hc := c.toNat_lt
        have hd := d.toNat_lt
        have he := e.toNat_lt
        rw [bigEndian_five]
        omega
      rw [Nat.div_eq_of_lt (hlt a b c d e),Nat.div_eq_of_lt (hlt a' b' c' d' e')]
  | succ n ih =>
      have hrest := ih (by omega) fun i hi => hdigit i (by omega)
      have hlast := hdigit n (Nat.lt_succ_self n)
      have hpow : 2^(40-5*n) = 2^(35-5*n)*32 := by
        rw [show 40-5*n = 35-5*n+5 by omega,Nat.pow_add]
      rw [hpow,← Nat.div_div_eq_div_mul,← Nat.div_div_eq_div_mul] at hrest
      rw [show 40-5*(n+1) = 35-5*n by omega]
      omega

theorem bigEndian_five_inj (h : bigEndian [a,b,c,d,e] = bigEndian [a',b',c',d',e']) :
    [a,b,c,d,e] = [a',b',c',d',e'] := by
  have hb := b.toNat_lt
  have hb' := b'.toNat_lt
  have hc := c.toNat_lt
  have hc' := c'.toNat_lt
  have hd := d.toNat_lt
  have hd' := d'.toNat_lt
  have he := e.toNat_lt
  have he' := e'.toNat_lt
  simp only [bigEndian_five] at h
  -- From the last byte to the first: each is the remainder by 256 of what is left.
  have he₀ : e.toNat = e'.toNat := by omega
  have hd₀ : d.toNat = d'.toNat := by omega
  have hc₀ : c.toNat = c'.toNat := by omega
  have hb₀ : b.toNat = b'.toNat := by omega
  have ha₀ : a.toNat = a'.toNat := by omega
  simp only [UInt8.toNat_inj] at ha₀ hb₀ hc₀ hd₀ he₀
  simp only [ha₀,hb₀,hc₀,hd₀,he₀]

/-- When the digits left out of both groups are zero, the groups have the same bytes. -/
theorem group_inj (hn : n ≤ 8) (hzero : bigEndian [a,b,c,d,e]%2^(40-5*n) = 0)
    (hzero' : bigEndian [a',b',c',d',e']%2^(40-5*n) = 0)
    (h : (group a b c d e).take n = (group a' b' c' d' e').take n) :
    [a,b,c,d,e] = [a',b',c',d',e'] := by
  apply bigEndian_five_inj
  rw [← Nat.div_add_mod (bigEndian [a,b,c,d,e]) (2^(40-5*n)),
    ← Nat.div_add_mod (bigEndian [a',b',c',d',e']) (2^(40-5*n)),group_take hn h,hzero,hzero']

end

theorem length_group (a b c d e : UInt8) : (group a b c d e).length = 8 := by simp [group]

/-- Byte strings of one length have different encodings unless they are equal. -/
theorem encode_inj : ∀ b b' : Bytes, b.length = b'.length → encode b = encode b' → b = b'
  | a::b::c::d::e::rest,a'::b'::c'::d'::e'::rest',hlen,h => by
      have hsplit := List.append_inj h (by simp only [length_group])
      have hgroup := group_inj (Nat.le_refl 8) (Nat.mod_one _) (Nat.mod_one _)
        (congrArg (List.take 8) hsplit.1)
      have hrest := encode_inj rest rest' (by simpa using hlen) hsplit.2
      simp only [List.cons.injEq,and_true] at hgroup
      simp only [hgroup,hrest]
  | [a,b,c,d],[a',b',c',d'],_,h => by
      have hgroup := group_inj (by decide : 7 ≤ 8) (by rw [bigEndian_five]; simp; omega)
        (by rw [bigEndian_five]; simp; omega) h
      simpa using hgroup
  | [a,b,c],[a',b',c'],_,h => by
      have hgroup := group_inj (by decide : 5 ≤ 8) (by rw [bigEndian_five]; simp; omega)
        (by rw [bigEndian_five]; simp; omega) h
      simpa using hgroup
  | [a,b],[a',b'],_,h => by
      have hgroup := group_inj (by decide : 4 ≤ 8) (by rw [bigEndian_five]; simp; omega)
        (by rw [bigEndian_five]; simp; omega) h
      simpa using hgroup
  | [a],[a'],_,h => by
      have hgroup := group_inj (by decide : 2 ≤ 8) (by rw [bigEndian_five]; simp; omega)
        (by rw [bigEndian_five]; simp; omega) h
      simpa using hgroup
  | [],[],_,_ => rfl

theorem encode_ascii {b : Bytes} {x : UInt8} (h : x ∈ encode b) : x < 128 := by
  have hdigit : ∀ a b c d e, x ∈ group a b c d e → ∃ n < 32, digit n = x := by
    intro a b c d e hx
    obtain ⟨i,-,rfl⟩ := List.mem_map.mp hx
    exact ⟨_,and_31_lt _,rfl⟩
  obtain ⟨n,hn,rfl⟩ : ∃ n < 32, digit n = x := by
    induction b using encode.induct with
    | case1 a b c d e rest ih =>
        rcases List.mem_append.mp h with h|h
        · exact hdigit _ _ _ _ _ h
        · exact ih h
    | case2 a b c d => exact hdigit _ _ _ _ _ (List.mem_of_mem_take h)
    | case3 a b c => exact hdigit _ _ _ _ _ (List.mem_of_mem_take h)
    | case4 a b => exact hdigit _ _ _ _ _ (List.mem_of_mem_take h)
    | case5 a => exact hdigit _ _ _ _ _ (List.mem_of_mem_take h)
    | case6 => cases h
  exact digit_lt n hn

example : encode (text "foobar") = text "MZXW6YTBOI" := by decide +kernel

end BaturWhatsApi.Base32
