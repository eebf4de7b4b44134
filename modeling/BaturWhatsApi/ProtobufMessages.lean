import BaturWhatsApi.ProtobufWire

/-!
# Messages built and parsed

A builder is a list of parts, of which some are builders again; a nested builder
becomes a field that holds its bytes. What is built is parsed as the same fields,
and a nested field opens to the fields of the nested builder, to any depth.

In the other direction a parsed message need not be what its bytes say. A key is a
number of up to 64 bits, its field number is cut to 32 bits when it is read and to
29 when it is written again, so a message is determined by its bytes exactly when
every key fits 32 bits.
-/
namespace BaturWhatsApi.ProtobufMessages
open ByteStrings ProtobufWire

/-! ### Builders -/

/-- A field number that leaves room for the wire type in a key. -/
structure FieldNum where
  num : UInt32
  small : num.toNat < 2^29
deriving DecidableEq, Repr

/-- A number below 256. -/
def FieldNum.short (n : UInt8) : FieldNum where
  num := n.toUInt32
  small := by
    rw [UInt8.toNat_toUInt32]
    exact n.toNat_lt.trans (by decide)

inductive Part where
  | varint (num : FieldNum) (v : UInt64)
  | bytes (num : FieldNum) (b : Bytes)
  | fixed32 (num : FieldNum) (n : UInt32)
  | fixed64 (num : FieldNum) (n : UInt64)
  | msg (num : FieldNum) (parts : List Part)

/-! The other methods of the builder are cases of these. -/

def Part.int (num : FieldNum) (v : Int64) : Part := .varint num v.toUInt64
def Part.uint (num : FieldNum) (v : UInt64) : Part := .varint num v
def Part.bool (num : FieldNum) (v : Bool) : Part := .varint num (if v then 1 else 0)
def Part.enum (num : FieldNum) (v : Int32) : Part := .varint num v.toInt64.toUInt64
def Part.string (num : FieldNum) (s : String) : Part := .bytes num (text s)

def Part.num : Part → FieldNum
  | .varint num _ => num
  | .bytes num _ => num
  | .fixed32 num _ => num
  | .fixed64 num _ => num
  | .msg num _ => num

mutual

/-- The field a method of the builder adds. -/
def Part.field : Part → Field
  | .varint num v => ProtobufWire.varint num.num v
  | .bytes num b => ProtobufWire.bytes num.num b
  | .fixed32 num n => ProtobufWire.fixed32 num.num n
  | .fixed64 num n => ProtobufWire.fixed64 num.num n
  | .msg num parts => ProtobufWire.bytes num.num (build (fields parts))

def fields : List Part → Message
  | [] => []
  | p::ps => p.field::fields ps

end

def getMsg (m : Message) (num : UInt32) : Option Message :=
  match get m num with
  | some f => if f.type = bytesType then (parse f.b).toOption else none
  | none => none

/-- Nested messages along a path of field numbers. -/
def getPath : Message → List UInt32 → Option Message
  | m,[] => some m
  | m,n::ns => (getMsg m n).bind fun nested => getPath nested ns

/-- The builder along a path, as long as the first part of each number is nested. -/
def nested : List Part → List UInt32 → Option (List Part)
  | b,[] => some b
  | b,n::ns =>
      match b.find? fun p => p.num.num = n with
      | some (.msg _ parts) => nested parts ns
      | _ => none

theorem fields_eq_map (b : List Part) : fields b = b.map Part.field := by
  induction b with
  | nil => rw [fields,List.map_nil]
  | cons p ps ih => rw [fields,ih,List.map_cons]

theorem Part.field_num (p : Part) : p.field.num = p.num.num := by
  cases p <;> rw [Part.field] <;> rfl

theorem get_fields (b : List Part) (n : UInt32) :
    get (fields b) n = (b.find? fun p => p.num.num = n).map Part.field := by
  show (fields b).find? (fun f => f.num = n) = _
  rw [fields_eq_map,List.find?_map]
  simp only [Function.comp_def,Part.field_num]

theorem getUint_of_find {b : List Part} {n : UInt32} {num : FieldNum} {v : UInt64}
    (h : (b.find? fun p => p.num.num = n) = some (.varint num v)) :
    getUint (fields b) n = some v := by
  rw [getUint,get_fields,h,Option.map_some,Part.field]
  rfl

theorem getBytes_of_find {b : List Part} {n : UInt32} {num : FieldNum} {x : Bytes}
    (h : (b.find? fun p => p.num.num = n) = some (.bytes num x)) :
    getBytes (fields b) n = some x := by
  rw [getBytes,get_fields,h,Option.map_some,Part.field]
  rfl

theorem payload_length_le {f : Field} (h : f.type = bytesType) :
    f.b.length ≤ f.appendTo.length := by
  have hpayload : f.payload = appendVarint (UInt64.ofNat f.b.length)++f.b := by
    rw [Field.payload,h,if_neg (by decide),if_pos rfl]
  rw [Field.appendTo,hpayload,List.length_append,List.length_append]
  omega

theorem appendTo_length_le {f : Field} {m : Message} (h : f ∈ m) :
    f.appendTo.length ≤ (build m).length := by
  induction m with
  | nil => cases h
  | cons g m ih =>
      rw [build,List.flatMap_cons,List.length_append]
      rcases List.mem_cons.mp h with rfl | h
      · omega
      · have hle := ih h
        rw [build] at hle
        omega

theorem bytes_length_lt {f : Field} {m : Message} (hf : f ∈ m) (ht : f.type = bytesType)
    (hlen : (build m).length < 2^64) : f.b.length < 2^64 :=
  ((payload_length_le ht).trans (appendTo_length_le hf)).trans_lt hlen

theorem built_field (p : Part) (h : p.field.type = bytesType → p.field.b.length < 2^64) :
    Built p.field := by
  cases p with
  | varint num v => rw [Part.field]; exact .varint v num.small
  | bytes num b => rw [Part.field] at h ⊢; exact .bytes (h rfl) num.small
  | fixed32 num n => rw [Part.field]; exact .fixed32 n num.small
  | fixed64 num n => rw [Part.field]; exact .fixed64 n num.small
  | msg num parts => rw [Part.field] at h ⊢; exact .bytes (h rfl) num.small

theorem parse_fields {b : List Part} (hlen : (build (fields b)).length < 2^64) :
    parse (build (fields b)) = .ok (fields b) := by
  refine parse_build fun f hf => ?_
  have hlt := fun ht => bytes_length_lt hf ht hlen
  rw [fields_eq_map] at hf
  obtain ⟨p,_,rfl⟩ := List.mem_map.mp hf
  exact built_field p hlt

/-- A nested builder is not longer than the builder around it. -/
theorem nested_length {b parts : List Part} {num : FieldNum} (h : .msg num parts ∈ b)
    (hlen : (build (fields b)).length < 2^64) : (build (fields parts)).length < 2^64 := by
  have hmem : Part.field (.msg num parts) ∈ fields b := by
    rw [fields_eq_map]
    exact List.mem_map_of_mem h
  rw [Part.field] at hmem
  exact bytes_length_lt hmem rfl hlen

theorem getPath_fields {b b' : List Part} {path : List UInt32}
    (hlen : (build (fields b)).length < 2^64) (h : nested b path = some b') :
    getPath (fields b) path = some (fields b') := by
  induction path generalizing b with
  | nil =>
      rw [nested,Option.some.injEq] at h
      rw [getPath,h]
  | cons n ns ih =>
      rw [nested] at h
      split at h
      · rename_i num parts hfind
        have hsmall := nested_length (List.mem_of_find?_eq_some hfind) hlen
        have hmsg : getMsg (fields b) n = some (fields parts) := by
          rw [getMsg,get_fields,hfind,Option.map_some]
          simp only [Part.field,ProtobufWire.bytes,if_true,parse_fields hsmall]
          rfl
        rw [getPath,hmsg]
        exact ih hsmall h
      · cases h

/-- Every message that fits in memory is read back, with its nested messages. -/
theorem parse_build_fields (b : List Part) (hlen : (build (fields b)).length < 2^64) :
    parse (build (fields b)) = .ok (fields b) ∧
      ∀ path b', nested b path = some b' → getPath (fields b) path = some (fields b') :=
  ⟨parse_fields hlen,fun _ _ h => getPath_fields hlen h⟩

/-- A hello inside a message inside a message. -/
def sampleParts : List Part :=
  [.fixed32 ⟨3,by decide⟩ 7,
   .msg ⟨2,by decide⟩ [.bool ⟨1,by decide⟩ true,
     .msg ⟨536870911,by decide⟩ [.int ⟨1,by decide⟩ (-1),.string ⟨0,by decide⟩ "hello"]],
   .fixed64 ⟨3,by decide⟩ 18446744073709551615]

theorem parse_build_fields_sample :
    parse (build (fields sampleParts)) = .ok (fields sampleParts) ∧
    getPath (fields sampleParts) [2,536870911] =
      some (fields [.int ⟨1,by decide⟩ (-1),.string ⟨0,by decide⟩ "hello"]) := by
  have h := parse_build_fields sampleParts (by decide +kernel)
  exact ⟨h.1,h.2 [2,536870911] _ rfl⟩

/-! ### Parsed messages -/

/-- The keys of an input, as they are read before they are cut. -/
def keysLoop : ℕ → Bytes → List ℕ
  | 0,_ => []
  | fuel+1,data =>
      if data.isEmpty then []
      else
        match uvarint data,parseField data with
        | some (key,_),.ok (_,rest) => key::keysLoop fuel rest
        | some (key,_),.error _ => [key]
        | none,_ => []

def keys (data : Bytes) : List ℕ := keysLoop data.length data

theorem uvarintLoop_lt {data rest : Bytes} {i x v : ℕ} (hi : i ≤ 10) (hx : x < 2^(7*i))
    (h : uvarintLoop data i x = some (v,rest)) : v < 2^64 := by
  induction data generalizing i x with
  | nil => cases h
  | cons b bs ih =>
      rw [uvarintLoop] at h
      split_ifs at h with h₁ h₂ h₃
      · cases h
        have hb : b.toNat < 128 := h₂
        by_cases hlast : i = 9
        · subst hlast
          have hone : b.toNat < 2 := by
            by_contra hge
            exact h₃ ⟨rfl,UInt8.lt_iff_toNat_lt.mpr (by omega : 1 < b.toNat)⟩
          refine Nat.or_lt_two_pow (hx.trans (by decide)) ?_
          rw [Nat.shiftLeft_eq]
          omega
        · have hpow : 2^(7*i+7) ≤ 2^64 := Nat.pow_le_pow_right (by decide) (by omega)
          refine lt_of_lt_of_le (Nat.or_lt_two_pow ?_ ?_) hpow
          · exact hx.trans_le (Nat.pow_le_pow_right (by decide) (by omega))
          · rw [Nat.shiftLeft_eq,Nat.pow_add,Nat.mul_comm]
            exact Nat.mul_lt_mul_of_pos_left hb (by positivity)
      · refine ih (by omega) ?_ h
        have hb : (b &&& 0x7F).toNat < 2^7 := by
          rw [UInt8.toNat_and]
          exact Nat.and_lt_two_pow _ (by decide)
        rw [show 7*(i+1) = 7*i+7 by omega]
        refine Nat.or_lt_two_pow ?_ ?_
        · exact hx.trans_le (Nat.pow_le_pow_right (by decide) (by omega))
        · rw [Nat.shiftLeft_eq,Nat.pow_add,Nat.mul_comm]
          exact Nat.mul_lt_mul_of_pos_left hb (by positivity)

theorem uvarint_lt {data rest : Bytes} {v : ℕ} (h : uvarint data = some (v,rest)) : v < 2^64 :=
  uvarintLoop_lt (by decide) (by decide) h

/-- An accepted field has one payload and the number it was read under. -/
theorem parsePayload_ok {num type : UInt32} {data rest : Bytes} {f : Field}
    (h : parsePayload num type data = .ok (f,rest)) : Shaped f ∧ f.num = num := by
  rw [parsePayload] at h
  split_ifs at h
  · split at h
    · cases h
    · cases h
      exact ⟨.varint _ _,rfl⟩
  · split at h
    · cases h
    · rename_i l data' hl
      split_ifs at h
      cases h
      refine ⟨.bytes _ ?_,rfl⟩
      rw [List.length_take]
      exact lt_of_le_of_lt (min_le_left _ _) (uvarint_lt hl)
  · cases h
    exact ⟨.fixed32 _ _,rfl⟩
  · cases h
    exact ⟨.fixed64 _ _,rfl⟩

theorem parseField_ok {data rest : Bytes} {f : Field} (h : parseField data = .ok (f,rest)) :
    ∃ key data', uvarint data = some (key,data') ∧ Shaped f ∧
      f.num = UInt32.ofNat (key >>> 3) := by
  rw [parseField] at h
  split at h
  · cases h
  · rename_i key data' hkey
    obtain ⟨hshape,hnum⟩ := parsePayload_ok h
    exact ⟨key,data',hkey,hshape,hnum⟩

/-- The fields of an accepted input have the numbers of its keys, cut to 32 bits. -/
theorem parseLoop_keys {fuel : ℕ} {data : Bytes} {m : Message}
    (h : parseLoop fuel data = .ok m) : (∀ f ∈ m, Shaped f) ∧
      m.map Field.num = (keysLoop fuel data).map fun key => UInt32.ofNat (key >>> 3) := by
  induction fuel generalizing data m with
  | zero =>
      cases h
      exact ⟨fun _ hf => (nomatch hf),rfl⟩
  | succ fuel ih =>
      rw [parseLoop] at h
      rw [keysLoop]
      split_ifs at h with hempty
      · cases h
        rw [if_pos hempty]
        exact ⟨fun _ hf => (nomatch hf),rfl⟩
      · rw [if_neg hempty]
        cases hfield : parseField data with
        | error e =>
            rw [hfield] at h
            cases h
        | ok x =>
            obtain ⟨f,rest⟩ := x
            obtain ⟨key,data',hkey,hshape,hnum⟩ := parseField_ok hfield
            rw [hfield] at h
            cases hrest : parseLoop fuel rest with
            | error e =>
                simp only [hrest] at h
                cases h
            | ok m' =>
                simp only [hrest] at h
                cases h
                obtain ⟨hall,hmap⟩ := ih hrest
                constructor
                · intro g hg
                  rcases List.mem_cons.mp hg with rfl | hg
                  · exact hshape
                  · exact hall g hg
                · simp only [hkey,List.map_cons,hnum,hmap]

/-- A message is what its bytes say: it is read back from what it is written as, and
its fields have the numbers that the keys encode. -/
def Determined (data : Bytes) (m : Message) : Prop :=
  parse (build m) = .ok m ∧ m.map (fun f => f.num.toNat) = (keys data).map (· >>> 3)

instance (data : Bytes) (m : Message) : Decidable (Determined data m) :=
  inferInstanceAs (Decidable (_ ∧ _))

theorem map_narrow_eq_self {m : Message} :
    m.map Field.narrow = m ↔ ∀ f ∈ m, f.num.toNat < 2^29 := by
  induction m with
  | nil => exact ⟨fun _ _ hf => (nomatch hf),fun _ => rfl⟩
  | cons f m ih =>
      rw [List.map_cons,List.cons.injEq,ih,Field.narrow_eq_self,List.forall_mem_cons]

/-- Bytes determine the message exactly when every key fits 32 bits. -/
theorem parse_determines_iff {data : Bytes} {m : Message} (h : parse data = .ok m) :
    Determined data m ↔ ∀ key ∈ keys data, key < 2^32 := by
  obtain ⟨hshape,hnums⟩ := parseLoop_keys h
  have hread : parse (build m) = .ok m ↔ ∀ f ∈ m, f.num.toNat < 2^29 := by
    rw [parse_build_narrow hshape,Except.ok.injEq,map_narrow_eq_self]
  constructor
  · rintro ⟨hback,hsame⟩ key hkey
    have hmem : key >>> 3 ∈ m.map fun f => f.num.toNat := hsame ▸ List.mem_map_of_mem hkey
    obtain ⟨f,hf,hfk⟩ := List.mem_map.mp hmem
    have hlt := hread.mp hback f hf
    rw [hfk,Nat.shiftRight_eq_div_pow] at hlt
    omega
  · intro hkeys
    have hnat : m.map (fun f => f.num.toNat) = (keys data).map (· >>> 3) := by
      have hto := congrArg (List.map UInt32.toNat) hnums
      rw [List.map_map,List.map_map] at hto
      refine hto.trans (List.map_congr_left fun key hkey => ?_)
      have hlt := hkeys key hkey
      rw [Function.comp_apply,UInt32.toNat_ofNat',Nat.shiftRight_eq_div_pow]
      omega
    refine ⟨hread.mpr fun f hf => ?_,hnat⟩
    have hmem : f.num.toNat ∈ (keys data).map (· >>> 3) := hnat ▸ List.mem_map_of_mem hf
    obtain ⟨key,hkey,hfk⟩ := List.mem_map.mp hmem
    have hlt := hkeys key hkey
    rw [← hfk,Nat.shiftRight_eq_div_pow]
    omega

/-- An overlong key of a small field number is no obstacle. -/
theorem parse_determines_overlong :
    parse [0x88,0x80,0x00,0x05] = .ok [ProtobufWire.varint 1 5] ∧
    Determined [0x88,0x80,0x00,0x05] [ProtobufWire.varint 1 5] :=
  ⟨by decide +kernel,(parse_determines_iff (by decide +kernel)).mpr (by decide +kernel)⟩

/-- Number `2^29` is written again as zero, and number `2^32+1` is read as one. -/
theorem parse_not_determined :
    (parse [0x80,0x80,0x80,0x80,0x10,0x05] = .ok [ProtobufWire.varint 536870912 5] ∧
      parse (build [ProtobufWire.varint 536870912 5]) = .ok [ProtobufWire.varint 0 5] ∧
      ¬Determined [0x80,0x80,0x80,0x80,0x10,0x05] [ProtobufWire.varint 536870912 5]) ∧
    parse [0x88,0x80,0x80,0x80,0x80,0x01,0x05] = .ok [ProtobufWire.varint 1 5] ∧
      keys [0x88,0x80,0x80,0x80,0x80,0x01,0x05] = [(2^32+1)*8] ∧
      ¬Determined [0x88,0x80,0x80,0x80,0x80,0x01,0x05] [ProtobufWire.varint 1 5] := by
  decide +kernel

end BaturWhatsApi.ProtobufMessages
