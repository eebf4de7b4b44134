import BaturWhatsApi.Decimal
import BaturWhatsApi.HistoryEvents

/-!
# The time of an inbound message

`msgTS` of `api/history.go` adds up the digits of the attribute `t` in a signed word of 64
bits. The loop has no check of the size: what it returns is the number of the digits, reduced
to the range of the word. The current time is returned for other texts only.
-/
namespace BaturWhatsApi.MessageTimes
open ByteStrings NodeModel HistoryEvents

theorem digit_value {c : UInt8} (h : 48 ≤ c) :
    (c-48).toUInt64.toInt64 = Int64.ofNat (c.toNat-48) := by
  have hsub : (c-48).toNat = c.toNat-48 := UInt8.toNat_sub_of_le c 48 h
  rw [← hsub]
  generalize c-48 = b
  apply Int64.toBitVec_inj.mp
  simp only [UInt64.toBitVec_toInt64,UInt8.toBitVec_toUInt64,Int64.toBitVec_ofNat']
  rw [← UInt8.toNat_toBitVec,BitVec.ofNat_toNat]

/-- The loop reads the digits modulo the size of the word. -/
theorem digits_ofNat (t : Bytes) (n : ℕ) :
    digits t (Int64.ofNat n) = (Decimal.readFrom n t).map Int64.ofNat := by
  induction t generalizing n with
  | nil => rfl
  | cons c cs ih =>
      rw [digits,Decimal.readFrom,Decimal.readDigit]
      by_cases h : 48 ≤ c ∧ c ≤ 57
      · have hin : ¬(c < 48 ∨ 57 < c) := by
          rw [not_or,not_lt,not_lt]
          exact h
        rw [if_neg hin,if_pos h,digit_value h.1,Option.bind_some,Nat.mul_comm,← ih,
          Int64.ofNat_add,Int64.ofNat_mul]
        rfl
      · have hout : c < 48 ∨ 57 < c := by
          rw [← not_le,← not_le,← not_and_or]
          exact h
        rw [if_pos hout,if_neg h]
        rfl

/-- What `msgTS` returns for every node. -/
theorem msgTS_eq (n : Node) (now : ℤ) :
    msgTS n now = (((n.stringAttr (text "t")).bind (Decimal.readFrom 0)).map
      fun m : ℕ => (Int64.ofNat m).toInt).getD now := by
  rw [msgTS]
  cases n.stringAttr (text "t") with
  | none => rfl
  | some t =>
      have hdigits : digits t 0 = (Decimal.readFrom 0 t).map Int64.ofNat := digits_ofNat t 0
      dsimp only
      rw [hdigits,Option.bind_some]
      cases Decimal.readFrom 0 t with
      | none => rfl
      | some m => rfl

/-- The attribute `t` is a text of one digit or more, which denote `m`. -/
def Denotes (n : Node) (m : ℕ) : Prop :=
  (n.stringAttr (text "t")).bind Decimal.read = some m

theorem msgTS_of_denotes {n : Node} {m : ℕ} (h : Denotes n m) (now : ℤ) :
    msgTS n now = (Int64.ofNat m).toInt := by
  obtain ⟨t,ht,hm⟩ := Option.bind_eq_some_iff.mp h
  rw [Decimal.read] at hm
  split_ifs at hm
  rw [msgTS_eq,ht,Option.bind_some,hm,Option.map_some,Option.getD_some]

/-- The number where it fits a signed word of 64 bits, the current time otherwise. -/
def timeOf (m : ℕ) (now : ℤ) : ℤ := if m < 2^63 then m else now

theorem toInt_ofNat_of_fits {m : ℕ} (h : m < 2^63) : (Int64.ofNat m).toInt = m := by
  rw [Int64.toInt_ofNat']
  apply Int.bmod_eq_of_le
  · norm_num
  · norm_num
    omega

/-- The time of a message is right whatever the clock says, exactly for the numbers that fit.
A larger one never gives the current time, but at a single moment. -/
theorem msgTS_eq_timeOf_iff {n : Node} {m : ℕ} (h : Denotes n m) :
    (∀ now, msgTS n now = timeOf m now) ↔ m < 2^63 := by
  constructor
  · intro hall
    by_contra hlarge
    have hzero := hall 0
    have hone := hall 1
    rw [msgTS_of_denotes h,timeOf,if_neg hlarge] at hzero hone
    rw [hzero] at hone
    exact zero_ne_one hone
  · intro hfits now
    rw [msgTS_of_denotes h,timeOf,if_pos hfits,toInt_ofNat_of_fits hfits]

/-- A node that carries the number `m` as its time. -/
def stamped (m : ℕ) : Node :=
  .mk (text "message") [(text "t",.str (text (toString m)))] .nil

theorem stamped_denotes (m : ℕ) : Denotes (stamped m) m := Decimal.read_text m

theorem msgTS_stamped_now :
    Denotes (stamped 1700000000) 1700000000 ∧
      ∀ now, msgTS (stamped 1700000000) now = timeOf 1700000000 now :=
  ⟨stamped_denotes _,(msgTS_eq_timeOf_iff (stamped_denotes _)).mpr (by norm_num)⟩

/-- One second after the last time a word can hold lies before the first one. -/
theorem msgTS_stamped_wraps :
    ∃ n, Denotes n (2^63) ∧ msgTS n 1700000000 = -2^63 ∧ timeOf (2^63) 1700000000 = 1700000000 := by
  refine ⟨stamped (2^63),stamped_denotes _,?_,?_⟩
  · rw [msgTS_of_denotes (stamped_denotes _)]
    rfl
  · rw [timeOf,if_neg (lt_irrefl _)]

end BaturWhatsApi.MessageTimes
