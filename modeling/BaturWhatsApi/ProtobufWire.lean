import BaturWhatsApi.ByteStrings

/-!
# The protobuf wire subset

Fields carry a number, a wire type and one payload; a message is its list of
fields. The builder writes a key and the payload for every field, and the parser
reads keys until the input is exhausted. The varint reader is the standard
library's: at most ten bytes, and the tenth may only hold one bit.

A key has room for 29 bits of a field number. Every field is read back with what is
left of its number, whatever follows it, and a message of fields that fit is read
back as its list of fields.
-/
namespace BaturWhatsApi.ProtobufWire
open ByteStrings

def varintType : UInt32 := 0
def fixed64Type : UInt32 := 1
def bytesType : UInt32 := 2
def fixed32Type : UInt32 := 5

/-- The payload that counts is chosen by the type; the others stay zero. -/
structure Field where
  num : UInt32
  type : UInt32
  v : UInt64 := 0
  b : Bytes := []
  f32 : UInt32 := 0
  f64 : UInt64 := 0
deriving DecidableEq, Repr

abbrev Message := List Field

def varint (num : UInt32) (v : UInt64) : Field := {num := num,type := varintType,v := v}
def bytes (num : UInt32) (b : Bytes) : Field := {num := num,type := bytesType,b := b}
def fixed32 (num : UInt32) (n : UInt32) : Field := {num := num,type := fixed32Type,f32 := n}
def fixed64 (num : UInt32) (n : UInt64) : Field := {num := num,type := fixed64Type,f64 := n}

/-- Seven bits a byte, low bits first; a value below `2^64` needs at most ten. -/
def varintBytes : ℕ → ℕ → Bytes
  | 0,_ => []
  | fuel+1,v =>
      if v < 128 then [UInt8.ofNat v]
      else (UInt8.ofNat v ||| 0x80)::varintBytes fuel (v >>> 7)

def appendVarint (v : UInt64) : Bytes := varintBytes 10 v.toNat

def littleEndian : ℕ → ℕ → Bytes
  | 0,_ => []
  | k+1,n => UInt8.ofNat n::littleEndian k (n >>> 8)

def Field.key (f : Field) : UInt32 := f.num <<< 3 ||| f.type

def Field.payload (f : Field) : Bytes :=
  if f.type = varintType then appendVarint f.v
  else if f.type = bytesType then appendVarint (UInt64.ofNat f.b.length)++f.b
  else if f.type = fixed32Type then littleEndian 4 f.f32.toNat
  else if f.type = fixed64Type then littleEndian 8 f.f64.toNat
  else []

def Field.appendTo (f : Field) : Bytes := appendVarint f.key.toUInt64++f.payload

def build (m : Message) : Bytes := m.flatMap Field.appendTo

/-- The loop of the standard varint reader: byte index, value so far. -/
def uvarintLoop : Bytes → ℕ → ℕ → Option (ℕ × Bytes)
  | [],_,_ => none
  | b::bs,i,x =>
      if i = 10 then none
      else if b < 0x80 then
        if i = 9 ∧ 1 < b then none else some (x ||| b.toNat <<< (7*i),bs)
      else uvarintLoop bs (i+1) (x ||| (b &&& 0x7F).toNat <<< (7*i))

/-- The value and the rest of the input; nothing when the reader reports no length. -/
def uvarint (data : Bytes) : Option (ℕ × Bytes) := uvarintLoop data 0 0

inductive ParseError where
  | fieldKey
  | varint (num : UInt32)
  | length (num : UInt32)
  | truncatedBytes (num : UInt32)
  | truncatedFixed32 (num : UInt32)
  | truncatedFixed64 (num : UInt32)
  | wireType (type : UInt32)
deriving DecidableEq, Repr

def ofLittleEndian : Bytes → ℕ
  | [] => 0
  | b::bs => b.toNat ||| ofLittleEndian bs <<< 8

def parsePayload (num type : UInt32) (data : Bytes) : Except ParseError (Field × Bytes) :=
  if type = varintType then
    match uvarint data with
    | none => .error (.varint num)
    | some (v,rest) => .ok (varint num (UInt64.ofNat v),rest)
  else if type = bytesType then
    match uvarint data with
    | none => .error (.length num)
    | some (l,rest) =>
        if rest.length < l then .error (.truncatedBytes num)
        else .ok (bytes num (rest.take l),rest.drop l)
  else if type = fixed32Type then
    if data.length < 4 then .error (.truncatedFixed32 num)
    else .ok (fixed32 num (UInt32.ofNat (ofLittleEndian (data.take 4))),data.drop 4)
  else if type = fixed64Type then
    if data.length < 8 then .error (.truncatedFixed64 num)
    else .ok (fixed64 num (UInt64.ofNat (ofLittleEndian (data.take 8))),data.drop 8)
  else .error (.wireType type)

/-- One iteration of the loop in `Parse`. -/
def parseField (data : Bytes) : Except ParseError (Field × Bytes) :=
  match uvarint data with
  | none => .error .fieldKey
  | some (key,rest) =>
      parsePayload (UInt32.ofNat (key >>> 3)) (UInt32.ofNat (key &&& 7)) rest

/-- Every iteration consumes at least the key, so the length bounds their number. -/
def parseLoop : ℕ → Bytes → Except ParseError Message
  | 0,_ => .ok []
  | fuel+1,data =>
      if data.isEmpty then .ok []
      else
        match parseField data with
        | .error e => .error e
        | .ok (f,rest) =>
            match parseLoop fuel rest with
            | .error e => .error e
            | .ok m => .ok (f::m)

def parse (data : Bytes) : Except ParseError Message := parseLoop data.length data

def get (m : Message) (num : UInt32) : Option Field := m.find? (fun f => f.num = num)

def getUint (m : Message) (num : UInt32) : Option UInt64 :=
  match get m num with
  | some f => if f.type = varintType then some f.v else none
  | none => none

def getBytes (m : Message) (num : UInt32) : Option Bytes :=
  match get m num with
  | some f => if f.type = bytesType then some f.b else none
  | none => none

theorem low_bits (v : ℕ) : (UInt8.ofNat v ||| 0x80) &&& 0x7F = UInt8.ofNat (v % 128) ∧
    ¬(UInt8.ofNat v ||| 0x80) < 0x80 := by
  have hall : ∀ b : UInt8, (b ||| 0x80) &&& 0x7F = UInt8.ofNat (b.toNat % 128) ∧
      ¬(b ||| 0x80) < 0x80 := by decide +kernel
  have h := hall (UInt8.ofNat v)
  rw [UInt8.toNat_ofNat'] at h
  rwa [show v % 2^8 % 128 = v % 128 by omega] at h

/-- Joining the low seven bits and the rest at a common shift. -/
theorem join_bits (x v s : ℕ) :
    (x ||| (v % 128) <<< s) ||| (v >>> 7) <<< (s+7) = x ||| v <<< s := by
  have hv : (v % 128) ||| (v >>> 7) <<< 7 = v := by
    rw [Nat.or_comm,← Nat.shiftLeft_add_eq_or_of_lt (show v % 128 < 2^7 by omega),
      Nat.shiftLeft_eq,Nat.shiftRight_eq_div_pow]
    omega
  have hs : (v >>> 7) <<< (s+7) = (v >>> 7) <<< 7 <<< s := by
    rw [Nat.add_comm,Nat.shiftLeft_add]
  rw [Nat.or_assoc,hs,← Nat.shiftLeft_or_distrib,hv]

theorem uvarintLoop_varintBytes (fuel v i x : ℕ) (rest : Bytes) (hi : i+fuel = 10)
    (hv : v < 2^(64-7*i)) (hf : 0 < fuel) :
    uvarintLoop (varintBytes fuel v++rest) i x = some (x ||| v <<< (7*i),rest) := by
  induction fuel generalizing v i x with
  | zero => omega
  | succ fuel ih =>
      rw [varintBytes]
      split_ifs with h
      · have hb : (UInt8.ofNat v).toNat = v := by
          rw [UInt8.toNat_ofNat']
          omega
        have hlt : UInt8.ofNat v < 0x80 := by
          rw [UInt8.lt_iff_toNat_lt,hb]
          exact h
        have hlast : ¬(i = 9 ∧ 1 < UInt8.ofNat v) := by
          rintro ⟨rfl,hone⟩
          rw [UInt8.lt_iff_toNat_lt,hb,show (1 : UInt8).toNat = 1 from rfl] at hone
          omega
        rw [List.singleton_append,uvarintLoop,if_neg (by omega),if_pos hlt,if_neg hlast,hb]
      · obtain ⟨hlow,hhigh⟩ := low_bits v
        have hmod : (UInt8.ofNat (v % 128)).toNat = v % 128 := by
          rw [UInt8.toNat_ofNat']
          omega
        have hpow : v >>> 7 < 2^(64-7*(i+1)) := by
          have hi9 : i ≠ 9 := by
            rintro rfl
            omega
          rw [Nat.shiftRight_eq_div_pow,Nat.div_lt_iff_lt_mul (by decide),← Nat.pow_add]
          rwa [show 64-7*(i+1)+7 = 64-7*i by omega]
        have hfuel : 0 < fuel := by
          by_contra hz
          obtain rfl : i = 9 := by omega
          omega
        rw [List.cons_append,uvarintLoop,if_neg (by omega),if_neg hhigh,hlow,hmod,
          ih (v >>> 7) (i+1) _ (by omega) hpow hfuel,show 7*(i+1) = 7*i+7 by omega,join_bits]

theorem uvarint_appendVarint (v : UInt64) (rest : Bytes) :
    uvarint (appendVarint v++rest) = some (v.toNat,rest) := by
  have h := uvarintLoop_varintBytes 10 v.toNat 0 0 rest rfl v.toNat_lt (by decide)
  rw [Nat.zero_or,Nat.mul_zero,Nat.shiftLeft_zero] at h
  exact h

theorem littleEndian_length (k n : ℕ) : (littleEndian k n).length = k := by
  induction k generalizing n with
  | zero => rfl
  | succ k ih => rw [littleEndian,List.length_cons,ih]

theorem ofLittleEndian_littleEndian (k n : ℕ) (h : n < 256^k) :
    ofLittleEndian (littleEndian k n) = n := by
  induction k generalizing n with
  | zero =>
      obtain rfl : n = 0 := by simpa using h
      rfl
  | succ k ih =>
      have hk : n >>> 8 < 256^k := by
        rw [Nat.shiftRight_eq_div_pow,Nat.div_lt_iff_lt_mul (by decide)]
        rwa [Nat.pow_succ] at h
      rw [littleEndian,ofLittleEndian,ih _ hk,Nat.or_comm,shift_or_byte,UInt8.toNat_ofNat',
        Nat.shiftRight_eq_div_pow]
      omega

/-- A field with the payload of its type only, and a length the key can announce. -/
inductive Shaped : Field → Prop
  | varint (num : UInt32) (v : UInt64) : Shaped (varint num v)
  | bytes (num : UInt32) {b : Bytes} (hb : b.length < 2^64) : Shaped (bytes num b)
  | fixed32 (num n : UInt32) : Shaped (fixed32 num n)
  | fixed64 (num : UInt32) (n : UInt64) : Shaped (fixed64 num n)

/-- A field as the builder creates it, with a number that fits the key. -/
inductive Built : Field → Prop
  | varint {num : UInt32} (v : UInt64) (hn : num.toNat < 2^29) : Built (varint num v)
  | bytes {num : UInt32} {b : Bytes} (hb : b.length < 2^64) (hn : num.toNat < 2^29) :
      Built (bytes num b)
  | fixed32 {num : UInt32} (n : UInt32) (hn : num.toNat < 2^29) : Built (fixed32 num n)
  | fixed64 {num : UInt32} (n : UInt64) (hn : num.toNat < 2^29) : Built (fixed64 num n)

theorem Built.shaped {f : Field} (h : Built f) : Shaped f ∧ f.num.toNat < 2^29 := by
  cases h with
  | varint v hn => exact ⟨.varint _ v,hn⟩
  | bytes hb hn => exact ⟨.bytes _ hb,hn⟩
  | fixed32 n hn => exact ⟨.fixed32 _ n,hn⟩
  | fixed64 n hn => exact ⟨.fixed64 _ n,hn⟩

theorem Shaped.type_lt {f : Field} (h : Shaped f) : f.type.toNat < 8 := by
  cases h with
  | varint _ _ => exact (by decide : varintType.toNat < 8)
  | bytes _ _ => exact (by decide : bytesType.toNat < 8)
  | fixed32 _ _ => exact (by decide : fixed32Type.toNat < 8)
  | fixed64 _ _ => exact (by decide : fixed64Type.toNat < 8)

/-- What the key keeps of a field: three bits of its number are shifted out. -/
def Field.narrow (f : Field) : Field := {f with num := UInt32.ofNat (f.num.toNat % 2^29)}

theorem Field.narrow_eq_self {f : Field} : f.narrow = f ↔ f.num.toNat < 2^29 := by
  have hlt := f.num.toNat_lt
  constructor
  · intro h
    have hnum := congrArg (fun g : Field => g.num.toNat) h
    simp only [narrow,UInt32.toNat_ofNat'] at hnum
    omega
  · intro h
    rw [narrow,Nat.mod_eq_of_lt h,UInt32.ofNat_toNat]

theorem key_toNat {f : Field} (ht : f.type.toNat < 8) :
    f.key.toUInt64.toNat = f.num.toNat % 2^29*8+f.type.toNat := by
  have hs : (f.num <<< 3).toNat = (f.num.toNat % 2^29) <<< 3 := by
    rw [UInt32.toNat_shiftLeft,show (3 : UInt32).toNat % 32 = 3 from rfl,Nat.shiftLeft_eq,
      Nat.shiftLeft_eq]
    omega
  rw [Field.key,UInt32.toNat_toUInt64,UInt32.toNat_or,hs,← Nat.shiftLeft_add_eq_or_of_lt ht,
    Nat.shiftLeft_eq]

/-- The key of a field is read back as its type and what is left of its number. -/
theorem parseField_key {f : Field} (ht : f.type.toNat < 8) (rest : Bytes) :
    parseField (appendVarint f.key.toUInt64++rest) = parsePayload f.narrow.num f.type rest := by
  have hnum : (f.num.toNat % 2^29*8+f.type.toNat) >>> 3 = f.num.toNat % 2^29 := by
    rw [Nat.shiftRight_eq_div_pow]
    omega
  have htype : (f.num.toNat % 2^29*8+f.type.toNat) &&& 7 = f.type.toNat := by
    rw [show (7 : ℕ) = 2^3-1 from rfl,Nat.and_two_pow_sub_one_eq_mod]
    omega
  rw [parseField,uvarint_appendVarint,key_toNat ht]
  simp only [hnum,htype,UInt32.ofNat_toNat]
  rfl

/-- The payload is read back under whatever number the key gave. -/
theorem parsePayload_payload {f : Field} (h : Shaped f) (num : UInt32) (rest : Bytes) :
    parsePayload num f.type (f.payload++rest) = .ok ({f with num := num},rest) := by
  cases h with
  | varint _ v =>
      show parsePayload num varintType (appendVarint v++rest) = _
      rw [parsePayload,if_pos rfl,uvarint_appendVarint]
      simp [varint]
  | @bytes _ b hb =>
      show parsePayload num bytesType ((appendVarint (UInt64.ofNat b.length)++b)++rest) = _
      have hl : (UInt64.ofNat b.length).toNat = b.length := UInt64.toNat_ofNat_of_lt hb
      rw [parsePayload,if_neg (by decide),if_pos rfl,List.append_assoc,uvarint_appendVarint,hl]
      simp [bytes]
  | fixed32 _ n =>
      show parsePayload num fixed32Type (littleEndian 4 n.toNat++rest) = _
      have hl := littleEndian_length 4 n.toNat
      have he := ofLittleEndian_littleEndian 4 n.toNat n.toNat_lt
      rw [parsePayload,if_neg (by decide),if_neg (by decide),if_pos rfl,
        if_neg (by rw [List.length_append]; omega),List.take_left' hl,List.drop_left' hl,he,
        UInt32.ofNat_toNat]
      rfl
  | fixed64 _ n =>
      show parsePayload num fixed64Type (littleEndian 8 n.toNat++rest) = _
      have hl := littleEndian_length 8 n.toNat
      have he := ofLittleEndian_littleEndian 8 n.toNat n.toNat_lt
      rw [parsePayload,if_neg (by decide),if_neg (by decide),if_neg (by decide),if_pos rfl,
        if_neg (by rw [List.length_append]; omega),List.take_left' hl,List.drop_left' hl,he,
        UInt64.ofNat_toNat]
      rfl

theorem parseField_appendTo {f : Field} (h : Shaped f) (rest : Bytes) :
    parseField (f.appendTo++rest) = .ok (f.narrow,rest) := by
  rw [Field.appendTo,List.append_assoc,parseField_key h.type_lt,parsePayload_payload h]
  rfl

theorem appendTo_ne_nil (f : Field) : 0 < f.appendTo.length := by
  have h : 0 < (appendVarint f.key.toUInt64).length := by
    rw [appendVarint,varintBytes]
    split_ifs <;> simp
  rw [Field.appendTo,List.length_append]
  omega

/-- A message is read back with the numbers that its keys have kept. -/
theorem parse_build_narrow {m : Message} (h : ∀ f ∈ m, Shaped f) :
    parse (build m) = .ok (m.map Field.narrow) := by
  have hloop : ∀ fuel, (build m).length ≤ fuel →
      parseLoop fuel (build m) = .ok (m.map Field.narrow) := by
    induction m with
    | nil =>
        intro fuel _
        cases fuel <;> rfl
    | cons f m ih =>
        intro fuel hf
        have hpos := appendTo_ne_nil f
        rw [build,List.flatMap_cons,List.length_append] at hf
        obtain ⟨fuel,rfl⟩ := Nat.exists_eq_succ_of_ne_zero (by omega : fuel ≠ 0)
        have hne : (build (f::m)).isEmpty = false := by
          rw [List.isEmpty_eq_false_iff,build,List.flatMap_cons]
          exact List.append_ne_nil_of_left_ne_nil (List.ne_nil_of_length_pos hpos) _
        rw [parseLoop,hne,build,List.flatMap_cons,
          parseField_appendTo (h f List.mem_cons_self)]
        have hrest := ih (fun g hg => h g (List.mem_cons_of_mem f hg)) fuel (by
          rw [build]
          omega)
        rw [build] at hrest
        simp only [Bool.false_eq_true,if_false,hrest,List.map_cons]
  exact hloop _ le_rfl

/-- A message of built fields is read back whole. -/
theorem parse_build {m : Message} (h : ∀ f ∈ m, Built f) : parse (build m) = .ok m := by
  have hid : m.map Field.narrow = m.map id :=
    List.map_congr_left fun f hf => Field.narrow_eq_self.mpr (h f hf).shaped.2
  rw [parse_build_narrow fun f hf => (h f hf).shaped.1,hid,List.map_id]

end BaturWhatsApi.ProtobufWire
