import BaturWhatsApi.ByteStrings
import BaturWhatsApi.OrderedEntries

/-!
# JSON values decoded into records

A JSON value as a tree, with strings and names as the bytes that they stand for. Decoding into a
record goes through the members of an object in order: a member is matched with a field up to the
case of its letters, a string field keeps its value at a null, and a map field is emptied by a
null and added to by an object.
-/
namespace BaturWhatsApi.JsonValues
open ByteStrings OrderedEntries

/-- The literal of a number, with the decimal point taken out. The literal of an integer has no
exponent. -/
structure Number where
  negative : Bool := false
  mantissa : ℕ
  exponent : Option ℤ := none
deriving DecidableEq, Repr

/-- The number is not so large that it would be rounded to infinity. -/
def Number.finite (n : Number) : Bool :=
  let e := n.exponent.getD 0
  n.mantissa*10^e.toNat < (2^1024-2^970)*10^(-e).toNat

def Number.ofInt (i : ℤ) : Number := {negative := i < 0,mantissa := i.natAbs}

/-- The integer of a literal that is one. -/
def Number.int (n : Number) : Option ℤ :=
  if n.exponent = none then some (if n.negative then -n.mantissa else n.mantissa) else none

@[simp] theorem Number.int_ofInt (i : ℤ) : (Number.ofInt i).int = some i := by
  by_cases h : i < 0
  · simp [int,ofInt,h,abs_of_neg h]
  · simp [int,ofInt,h,abs_of_nonneg (not_lt.mp h)]

inductive Json where
  | null
  | bool (b : Bool)
  | num (n : Number)
  | str (s : Bytes)
  | arr (elems : List Json)
  | obj (members : List (Bytes × Json))

mutual
/-- Every number in the value is in range. -/
def Json.finite : Json → Bool
  | .num n => n.finite
  | .arr elems => finiteElems elems
  | .obj members => finiteMembers members
  | _ => true
def finiteElems : List Json → Bool
  | [] => true
  | e::es => e.finite && finiteElems es
def finiteMembers : List (Bytes × Json) → Bool
  | [] => true
  | (_,v)::ms => v.finite && finiteMembers ms
end

/-- Lower case. Two letters outside ASCII fold to letters of ASCII. -/
def foldName : Bytes → Bytes
  | 0xC5::0xBF::bs => 115::foldName bs
  | 0xE2::0x84::0xAA::bs => 107::foldName bs
  | b::bs => (if 65 ≤ b ∧ b ≤ 90 then b+32 else b)::foldName bs
  | [] => []

/-- The name of a member is that of the field. -/
def named (field : String) (name : Bytes) : Bool := foldName name = text field

def intoString (s : Bytes) : Json → Option Bytes
  | .str s' => some s'
  | .null => some s
  | _ => none

def intoBool (b : Bool) : Json → Option Bool
  | .bool b' => some b'
  | .null => some b
  | _ => none

def intoInt64 (v : Int64) : Json → Option Int64
  | .num n => n.int.bind fun i =>
      if -2^63 ≤ i ∧ i < 2^63 then some (Int64.ofInt i) else none
  | .null => some v
  | _ => none

theorem intoInt64_ofInt (v w : Int64) : intoInt64 v (.num (.ofInt w.toInt)) = some w := by
  rw [intoInt64,Number.int_ofInt,Option.bind_some,if_pos ⟨w.le_toInt,w.toInt_lt⟩,Int64.ofInt_toInt]

/-- A sign is refused, also that of `-0`. -/
def intoUint32 (v : UInt32) : Json → Option UInt32
  | .num n =>
      if n.negative = false ∧ n.exponent = none ∧ n.mantissa < 2^32 then
        some (UInt32.ofNat n.mantissa)
      else none
  | .null => some v
  | _ => none

theorem intoUint32_ofInt (v w : UInt32) : intoUint32 v (.num (.ofInt w.toNat)) = some w := by
  have hint : Number.ofInt w.toNat = {mantissa := w.toNat} := by
    simp [Number.ofInt]
  rw [intoUint32,hint,if_pos ⟨rfl,rfl,w.toNat_lt⟩,UInt32.ofNat_toNat]

def intoMap (m : List (Bytes × Json)) : Json → Option (List (Bytes × Json))
  | .obj ms => if finiteMembers ms then some (ms.foldl (fun m e => put e.1 e.2 m) m) else none
  | .null => some []
  | _ => none

def intoList : Json → Option (List Json)
  | .arr elems => some elems
  | .null => some []
  | _ => none

variable {σ : Type}

/-- A list is decoded from the values that its elements are decoded from. -/
theorem mapM_map {f : σ → Json} {g : Json → Option σ} (h : ∀ a, g (f a) = some a) (l : List σ) :
    (l.map f).mapM g = some l := by
  induction l with
  | nil => rfl
  | cons a l ih =>
      rw [List.map_cons,List.mapM_cons,h,ih]
      rfl

/-- Decoding into a record, which starts as `zero`. -/
def intoRecord (member : σ → Bytes × Json → Option σ) (zero : σ) : Json → Option σ
  | .obj ms => ms.foldlM member zero
  | .null => some zero
  | _ => none

theorem sizeOf_member {ms : List (Bytes × Json)} {e : Bytes × Json} (he : e ∈ ms) :
    sizeOf e.2 < sizeOf (Json.obj ms) := by
  have hlt := List.sizeOf_lt_of_mem he
  obtain ⟨k,v⟩ := e
  rw [Prod.mk.sizeOf_spec] at hlt
  rw [Json.obj.sizeOf_spec]
  change sizeOf v < _
  omega

theorem foldlM_invariant {α : Type} {f : σ → α → Option σ} {P : σ → Prop} {l : List α} {r s : σ}
    (hstep : ∀ r, ∀ a ∈ l, ∀ s, P r → f r a = some s → P s) (hr : P r)
    (h : l.foldlM f r = some s) : P s := by
  induction l generalizing r with
  | nil => exact Option.some.inj h ▸ hr
  | cons a l ih =>
      rw [List.foldlM_cons] at h
      obtain ⟨r',hr',h⟩ := Option.bind_eq_some_iff.mp h
      have hkept := hstep r a List.mem_cons_self r' hr hr'
      exact ih (fun r b hb => hstep r b (List.mem_cons_of_mem a hb)) hkept h

/-- What holds of the record at the start and is kept by each member holds at the end. -/
theorem intoRecord_invariant {member : σ → Bytes × Json → Option σ} {zero r : σ} {j : Json}
    {P : σ → Prop} (hzero : P zero)
    (hmember : ∀ r e s, sizeOf e.2 < sizeOf j → P r → member r e = some s → P s)
    (h : intoRecord member zero j = some r) : P r := by
  cases j with
  | null => exact Option.some.inj h ▸ hzero
  | obj ms => exact foldlM_invariant (fun r e he s => hmember r e s (sizeOf_member he)) hzero h
  | _ => cases h

end BaturWhatsApi.JsonValues
