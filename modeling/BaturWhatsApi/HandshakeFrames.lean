import BaturWhatsApi.CertificateChains

/-!
# The messages of the handshake

`internal/wapb/wapb.go`. A hello or a finish is a message of a few byte strings, and a frame is a
message with it in one field. A field that is empty is left out of a hello, and a field that is
missing is read as an empty one. An inner message without fields is not told from a missing one.
-/
namespace BaturWhatsApi.HandshakeFrames
open ByteStrings ProtobufWire ProtobufMessages CertificateChains Fallible

def hsFieldClientHello : UInt8 := 1
def hsFieldServerHello : UInt8 := 2
def hsFieldClientFinish : UInt8 := 3
def hflEphemeral : UInt8 := 1
def hflStatic : UInt8 := 2
def hflPayload : UInt8 := 3

/-- A field that is left out when it is empty. -/
def optional (num : UInt8) (b : Bytes) : List Part :=
  if 0 < b.length then [.bytes (.short num) b] else []

/-- The bytes of a field, or none. -/
def fieldBytes (m : Message) (num : UInt8) : Bytes := (getBytes m num.toUInt32).getD []

structure ClientHello where
  ephemeral : Bytes
  payload : Bytes := []
deriving DecidableEq, Repr

def ClientHello.parts (c : ClientHello) : List Part :=
  .bytes (.short hflEphemeral) c.ephemeral::optional hflPayload c.payload

def parseClientHello (m : Message) : ClientHello where
  ephemeral := fieldBytes m hflEphemeral
  payload := fieldBytes m hflPayload

structure ServerHello where
  ephemeral : Bytes
  static : Bytes
  payload : Bytes
deriving DecidableEq, Repr

def ServerHello.parts (c : ServerHello) : List Part :=
  .bytes (.short hflEphemeral) c.ephemeral::
    (optional hflStatic c.static++optional hflPayload c.payload)

def parseServerHello (m : Message) : ServerHello where
  ephemeral := fieldBytes m hflEphemeral
  static := fieldBytes m hflStatic
  payload := fieldBytes m hflPayload

/-- The static key stands in the field of an ephemeral one. -/
structure ClientFinish where
  static : Bytes
  payload : Bytes
deriving DecidableEq, Repr

def ClientFinish.parts (c : ClientFinish) : List Part :=
  [.bytes (.short hflEphemeral) c.static,.bytes (.short hflPayload) c.payload]

def parseClientFinish (m : Message) : ClientFinish where
  static := fieldBytes m hflEphemeral
  payload := fieldBytes m hflPayload

/-- `Build` of the three messages. -/
def built (parts : List Part) : Bytes := build (fields parts)

def wrapTop (num : UInt8) (inner : Bytes) : Bytes := build (fields [.bytes (.short num) inner])

/-- A missing field gives the empty message. -/
def unwrapTop (data : Bytes) (num : UInt8) : Except ParseError Message := do
  let msg ← parse data
  match getBytes msg num.toUInt32 with
  | none => pure []
  | some inner => parse inner

/-- A wrapped message of any parts is unwrapped to its fields. -/
theorem unwrapTop_wrapTop (num : UInt8) {parts : List Part}
    (hlen : (wrapTop num (built parts)).length < 2^64) :
    unwrapTop (wrapTop num (built parts)) num = .ok (fields parts) := by
  have hinner : (built parts).length < 2^64 := part_length List.mem_cons_self hlen
  have hfind : [Part.bytes (.short num) (built parts)].find?
      (fun p => p.num.num = (FieldNum.short num).num) = some (.bytes (.short num) (built parts)) :=
    List.find?_cons_of_pos (by simp [Part.num])
  have hget : getBytes (fields [.bytes (.short num) (built parts)]) num.toUInt32 =
      some (built parts) := getBytes_of_find hfind
  rw [wrapTop] at hlen
  rw [unwrapTop,wrapTop,bind_eq_ok]
  refine ⟨_,parse_fields hlen,?_⟩
  rw [hget]
  exact parse_fields hinner

theorem parts_ne_nil {p : Part} {ps : List Part} : fields (p::ps) ≠ [] := by
  simp [fields]

theorem fieldBytes_of_find {parts : List Part} {num : UInt8} {b : Bytes}
    (h : parts.find? (fun p => p.num.num = num.toUInt32) = some (.bytes (.short num) b)) :
    fieldBytes (fields parts) num = b := by
  rw [fieldBytes,getBytes_of_find h]
  rfl

theorem fieldBytes_of_missing {parts : List Part} {num : UInt8}
    (h : parts.find? (fun p => p.num.num = num.toUInt32) = none) :
    fieldBytes (fields parts) num = [] := by
  rw [fieldBytes,getBytes,get_fields,h]
  rfl

theorem optional_find_self (num : UInt8) (b : Bytes) :
    (optional num b).find? (fun p => p.num.num = num.toUInt32) =
      if 0 < b.length then some (.bytes (.short num) b) else none := by
  rw [optional]
  split_ifs
  · exact List.find?_cons_of_pos (by simp [Part.num,FieldNum.short])
  · rfl

/-- A field of another number is passed over. -/
theorem find_other {num other : UInt8} (h : num.toUInt32 ≠ other.toUInt32) (b : Bytes)
    (parts : List Part) :
    (.bytes (.short num) b::parts).find? (fun p => p.num.num = other.toUInt32) =
      parts.find? (fun p => p.num.num = other.toUInt32) := by
  refine List.find?_cons_of_neg fun hnum => h ?_
  exact of_decide_eq_true hnum

theorem optional_find_other {num other : UInt8} (h : num.toUInt32 ≠ other.toUInt32) (b : Bytes) :
    (optional num b).find? (fun p => p.num.num = other.toUInt32) = none := by
  rw [optional]
  split_ifs
  · rw [find_other h]
    rfl
  · rfl

/-- What is found in an optional field, or not, is its bytes. -/
theorem fieldBytes_optional {parts : List Part} {num : UInt8} {b : Bytes}
    (h : parts.find? (fun p => p.num.num = num.toUInt32) =
      if 0 < b.length then some (.bytes (.short num) b) else none) :
    fieldBytes (fields parts) num = b := by
  split_ifs at h with hb
  · exact fieldBytes_of_find h
  · rw [fieldBytes_of_missing h]
    exact (List.length_eq_zero_iff.mp (Nat.eq_zero_of_not_pos hb)).symm

theorem parseClientHello_parts (c : ClientHello) : parseClientHello (fields c.parts) = c := by
  have hephemeral : fieldBytes (fields c.parts) hflEphemeral = c.ephemeral :=
    fieldBytes_of_find rfl
  have hpayload : fieldBytes (fields c.parts) hflPayload = c.payload :=
    fieldBytes_optional ((find_other (by decide) _ _).trans (optional_find_self _ _))
  rw [parseClientHello,hephemeral,hpayload]

theorem parseServerHello_parts (c : ServerHello) : parseServerHello (fields c.parts) = c := by
  have hephemeral : fieldBytes (fields c.parts) hflEphemeral = c.ephemeral :=
    fieldBytes_of_find rfl
  have hstatic : fieldBytes (fields c.parts) hflStatic = c.static := by
    refine fieldBytes_optional ((find_other (by decide) _ _).trans ?_)
    rw [List.find?_append,optional_find_self,optional_find_other (by decide),Option.or_none]
  have hpayload : fieldBytes (fields c.parts) hflPayload = c.payload := by
    refine fieldBytes_optional ((find_other (by decide) _ _).trans ?_)
    rw [List.find?_append,optional_find_other (by decide),optional_find_self,Option.none_or]
  rw [parseServerHello,hephemeral,hstatic,hpayload]

theorem parseClientFinish_parts (c : ClientFinish) : parseClientFinish (fields c.parts) = c := by
  have hstatic : fieldBytes (fields c.parts) hflEphemeral = c.static := fieldBytes_of_find rfl
  have hpayload : fieldBytes (fields c.parts) hflPayload = c.payload := fieldBytes_of_find rfl
  rw [parseClientFinish,hstatic,hpayload]

end BaturWhatsApi.HandshakeFrames
