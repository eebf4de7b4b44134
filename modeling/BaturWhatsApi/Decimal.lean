import BaturWhatsApi.ByteStrings

/-!
# Decimal numbers as text

The text of a number by its last digit, and the reading of digits. Reading the text of a
number gives the number.
-/
namespace BaturWhatsApi.Decimal
open ByteStrings

def digit (d : ℕ) : UInt8 := UInt8.ofNat (48+d)

def readDigit (b : UInt8) : Option ℕ := if 48 ≤ b ∧ b ≤ 57 then some (b.toNat-48) else none

/-- The digits after a number that was read already. -/
def readFrom (n : ℕ) : Bytes → Option ℕ
  | [] => some n
  | b::bs => (readDigit b).bind fun d => readFrom (10*n+d) bs

/-- A number has at least one digit. -/
def read (s : Bytes) : Option ℕ := if s = [] then none else readFrom 0 s

theorem text_ofList (cs : List Char) :
    text (String.ofList cs) = cs.flatMap String.utf8EncodeChar := by
  rw [text,String.toByteArray_ofList,List.utf8Encode]
  simp

theorem encode_digitChar {d : ℕ} (h : d < 10) :
    String.utf8EncodeChar (Nat.digitChar d) = [digit d] := by
  interval_cases d <;> rfl

theorem text_of_lt {n : ℕ} (h : n < 10) : text (toString n) = [digit n] := by
  rw [Nat.toString_eq_ofList_toDigits,text_ofList,Nat.toDigits_of_lt_base h,List.flatMap_singleton,
    encode_digitChar h]

theorem text_of_ge {n : ℕ} (h : 10 ≤ n) :
    text (toString n) = text (toString (n/10))++[digit (n % 10)] := by
  rw [Nat.toString_eq_ofList_toDigits,Nat.toString_eq_ofList_toDigits,text_ofList,text_ofList,
    Nat.toDigits_of_base_le (by decide) h,List.flatMap_append,List.flatMap_singleton,
    encode_digitChar (Nat.mod_lt n (by decide))]

theorem readDigit_digit {d : ℕ} (h : d < 10) : readDigit (digit d) = some d := by
  interval_cases d <;> rfl

theorem readFrom_append {n m : ℕ} {s : Bytes} (h : readFrom n s = some m) (t : Bytes) :
    readFrom n (s++t) = readFrom m t := by
  induction s generalizing n with
  | nil =>
      cases h
      rfl
  | cons b bs ih =>
      obtain ⟨d,hd,hbs⟩ := Option.bind_eq_some_iff.mp h
      rw [List.cons_append,readFrom,hd,Option.bind_some]
      exact ih hbs

theorem readFrom_text (n : ℕ) : readFrom 0 (text (toString n)) = some n := by
  induction n using Nat.strong_induction_on with
  | _ n ih =>
      by_cases h : n < 10
      · rw [text_of_lt h,readFrom,readDigit_digit h,Option.bind_some,readFrom,Nat.mul_zero,
          Nat.zero_add]
      · have hlast := Nat.mod_lt n (show 10 > 0 by decide)
        rw [text_of_ge (Nat.le_of_not_lt h),readFrom_append (ih (n/10) (by omega)),readFrom,
          readDigit_digit hlast,Option.bind_some,readFrom,Nat.div_add_mod]

theorem text_ne_nil (n : ℕ) : text (toString n) ≠ [] := by
  by_cases h : n < 10
  · rw [text_of_lt h]
    exact List.cons_ne_nil _ _
  · rw [text_of_ge (Nat.le_of_not_lt h)]
    exact List.append_ne_nil_of_right_ne_nil _ (List.cons_ne_nil _ _)

theorem read_text (n : ℕ) : read (text (toString n)) = some n := by
  rw [read,if_neg (text_ne_nil n),readFrom_text]

/-- Other bytes than digits cannot be read. -/
theorem mem_of_readFrom {n m : ℕ} {s : Bytes} (h : readFrom n s = some m) {b : UInt8}
    (hb : b ∈ s) : 48 ≤ b ∧ b ≤ 57 := by
  induction s generalizing n with
  | nil => cases hb
  | cons c cs ih =>
      obtain ⟨d,hd,hcs⟩ := Option.bind_eq_some_iff.mp h
      rcases List.mem_cons.mp hb with rfl | hb
      · rw [readDigit] at hd
        split_ifs at hd with hdigit
        exact hdigit
      · exact ih hcs hb

theorem digit_of_mem_text {n : ℕ} {b : UInt8} (h : b ∈ text (toString n)) : 48 ≤ b ∧ b ≤ 57 :=
  mem_of_readFrom (readFrom_text n) h

theorem length_text_le {n : ℕ} (e : ℕ) (h : n < 10^(e+1)) : (text (toString n)).length ≤ e+1 := by
  induction e generalizing n with
  | zero =>
      rw [text_of_lt (by simpa using h)]
      exact le_rfl
  | succ e ih =>
      by_cases hn : n < 10
      · rw [text_of_lt hn]
        exact Nat.succ_le_succ (Nat.zero_le _)
      · have hdiv : n/10 < 10^(e+1) := Nat.div_lt_of_lt_mul (by rwa [← pow_succ'])
        rw [text_of_ge (Nat.le_of_not_lt hn),List.length_append]
        exact Nat.succ_le_succ (ih hdiv)

end BaturWhatsApi.Decimal
