import BaturWhatsApi.ProtobufMessages
import BaturWhatsApi.RatchetModel

/-!
# Envelopes on the wire

`Serialize` and `ParseEnvelope` of `security/e2e/ratchet.go` over the protobuf codec. Every
envelope has seven fields, and an init envelope has the five of the handshake behind them. The
parser takes the first field of a number, cuts numbers to their width and checks the version,
the type and the length of the key.
-/
namespace BaturWhatsApi.EnvelopeWire
open ByteStrings ProtobufWire ProtobufMessages RatchetModel

/-- The fields of every envelope. -/
def commonParts (e : Envelope) : List Part :=
  [.uint (.short 1) e.version.toUInt64,
   .uint (.short 2) e.type.toUInt64,
   .bytes (.short 3) e.ratchetPub,
   .uint (.short 4) e.prevCount.toUInt64,
   .uint (.short 5) e.counter.toUInt64,
   .bytes (.short 6) e.headerEncrypt,
   .bytes (.short 7) e.body]

/-- The fields of the handshake. -/
def initParts (e : Envelope) : List Part :=
  [.bytes (.short 8) e.identityPub,
   .bytes (.short 11) e.identitySigPub,
   .bytes (.short 12) e.identityCert,
   .uint (.short 9) e.regID.toUInt64,
   .uint (.short 10) e.opkID.toUInt64]

def parts (e : Envelope) : List Part :=
  commonParts e++if e.type = envInit then initParts e else []

def serialize (e : Envelope) : Bytes := build (fields (parts e))

inductive EnvelopeError where
  | malformed (err : ParseError)
  | badEnvelope (version type : UInt8)
  | badKey
deriving DecidableEq, Repr

/-- Absent fields are zero or empty. -/
def readEnvelope (m : Message) : Envelope where
  version := ((getUint m 1).getD 0).toUInt8
  type := ((getUint m 2).getD 0).toUInt8
  ratchetPub := (getBytes m 3).getD []
  prevCount := ((getUint m 4).getD 0).toUInt32
  counter := ((getUint m 5).getD 0).toUInt32
  headerEncrypt := (getBytes m 6).getD []
  body := (getBytes m 7).getD []
  identityPub := (getBytes m 8).getD []
  identitySigPub := (getBytes m 11).getD []
  identityCert := (getBytes m 12).getD []
  regID := ((getUint m 9).getD 0).toUInt32
  opkID := ((getUint m 10).getD 0).toUInt32

def parseEnvelope (data : Bytes) : Except EnvelopeError Envelope :=
  match parse data with
  | .error err => .error (.malformed err)
  | .ok m =>
      let e := readEnvelope m
      if e.version ≠ 1 ∨ e.type ≠ envInit ∧ e.type ≠ envRatchet then
        .error (.badEnvelope e.version e.type)
      else if e.ratchetPub.length ≠ 32 then .error .badKey
      else .ok e

/-- What the parser checks. -/
structure Checked (e : Envelope) : Prop where
  version : e.version = 1
  type : e.type = envInit ∨ e.type = envRatchet
  key : e.ratchetPub.length = 32

/-- The fields of the handshake are empty. -/
structure NoInit (e : Envelope) : Prop where
  identityPub : e.identityPub = []
  identitySigPub : e.identitySigPub = []
  identityCert : e.identityCert = []
  regID : e.regID = 0
  opkID : e.opkID = 0

theorem parseEnvelope_checked {data : Bytes} {e : Envelope} (h : parseEnvelope data = .ok e) :
    Checked e := by
  unfold parseEnvelope at h
  split at h
  · cases h
  · simp only at h
    split_ifs at h with hbad hkey
    cases h
    rw [not_or,not_not,not_and_or,not_not,not_not] at hbad
    exact ⟨hbad.1,hbad.2,not_not.mp hkey⟩

/-- The fields of every envelope are found in front of whatever follows. -/
theorem readEnvelope_common (e : Envelope) (tail : List Part) :
    let r := readEnvelope (fields (commonParts e++tail))
    r.version = e.version ∧ r.type = e.type ∧ r.ratchetPub = e.ratchetPub ∧
      r.prevCount = e.prevCount ∧ r.counter = e.counter ∧ r.headerEncrypt = e.headerEncrypt ∧
      r.body = e.body := by
  have h₁ : getUint (fields (commonParts e++tail)) 1 = some e.version.toUInt64 :=
    getUint_of_find rfl
  have h₂ : getUint (fields (commonParts e++tail)) 2 = some e.type.toUInt64 := getUint_of_find rfl
  have h₃ : getBytes (fields (commonParts e++tail)) 3 = some e.ratchetPub := getBytes_of_find rfl
  have h₄ : getUint (fields (commonParts e++tail)) 4 = some e.prevCount.toUInt64 :=
    getUint_of_find rfl
  have h₅ : getUint (fields (commonParts e++tail)) 5 = some e.counter.toUInt64 :=
    getUint_of_find rfl
  have h₆ : getBytes (fields (commonParts e++tail)) 6 = some e.headerEncrypt :=
    getBytes_of_find rfl
  have h₇ : getBytes (fields (commonParts e++tail)) 7 = some e.body := getBytes_of_find rfl
  simp only [readEnvelope,h₁,h₂,h₃,h₄,h₅,h₆,h₇,Option.getD_some,UInt8.toUInt8_toUInt64,
    UInt32.toUInt32_toUInt64,and_self]

theorem readEnvelope_init (e : Envelope) :
    let r := readEnvelope (fields (commonParts e++initParts e))
    r.identityPub = e.identityPub ∧ r.identitySigPub = e.identitySigPub ∧
      r.identityCert = e.identityCert ∧ r.regID = e.regID ∧ r.opkID = e.opkID := by
  have h₈ : getBytes (fields (commonParts e++initParts e)) 8 = some e.identityPub :=
    getBytes_of_find rfl
  have h₁₁ : getBytes (fields (commonParts e++initParts e)) 11 = some e.identitySigPub :=
    getBytes_of_find rfl
  have h₁₂ : getBytes (fields (commonParts e++initParts e)) 12 = some e.identityCert :=
    getBytes_of_find rfl
  have h₉ : getUint (fields (commonParts e++initParts e)) 9 = some e.regID.toUInt64 :=
    getUint_of_find rfl
  have h₁₀ : getUint (fields (commonParts e++initParts e)) 10 = some e.opkID.toUInt64 :=
    getUint_of_find rfl
  simp only [readEnvelope,h₈,h₉,h₁₀,h₁₁,h₁₂,Option.getD_some,UInt32.toUInt32_toUInt64,and_self]

theorem readEnvelope_noInit (e : Envelope) : NoInit (readEnvelope (fields (commonParts e++[]))) :=
  ⟨rfl,rfl,rfl,rfl,rfl⟩

/-- Every field is found again under its number. -/
theorem readEnvelope_fields {e : Envelope} (h : e.type = envInit ∨ NoInit e) :
    readEnvelope (fields (parts e)) = e := by
  have hcommon := readEnvelope_common e (if e.type = envInit then initParts e else [])
  have hrest : let r := readEnvelope (fields (parts e))
      r.identityPub = e.identityPub ∧ r.identitySigPub = e.identitySigPub ∧
        r.identityCert = e.identityCert ∧ r.regID = e.regID ∧ r.opkID = e.opkID := by
    by_cases hinit : e.type = envInit
    · rw [parts,if_pos hinit]
      exact readEnvelope_init e
    · have hno := h.resolve_left hinit
      have hread := readEnvelope_noInit e
      rw [parts,if_neg hinit]
      exact ⟨hread.identityPub.trans hno.identityPub.symm,
        hread.identitySigPub.trans hno.identitySigPub.symm,
        hread.identityCert.trans hno.identityCert.symm,hread.regID.trans hno.regID.symm,
        hread.opkID.trans hno.opkID.symm⟩
  obtain ⟨hversion,htype,hpub,hprev,hcounter,hheader,hbody⟩ := hcommon
  obtain ⟨hidentity,hsig,hcert,hreg,hopk⟩ := hrest
  change readEnvelope (fields (parts e)) = ⟨_,_,_,_,_,_,_,_,_,_,_,_⟩
  rw [← hversion,← htype,← hpub,← hprev,← hcounter,← hheader,← hbody,← hidentity,← hsig,← hcert,
    ← hreg,← hopk]
  rfl

theorem parseEnvelope_of_parse {data : Bytes} {m : Message} (h : parse data = .ok m)
    (hm : Checked (readEnvelope m)) : parseEnvelope data = .ok (readEnvelope m) := by
  simp only [parseEnvelope,h]
  rw [if_neg,if_neg (not_not.mpr hm.key)]
  rw [not_or,not_not,not_and_or,not_not,not_not]
  exact ⟨hm.version,hm.type⟩

theorem parseEnvelope_serialize {e : Envelope} (hchecked : Checked e)
    (hinit : e.type = envInit ∨ NoInit e) (hlen : (serialize e).length < 2^64) :
    parseEnvelope (serialize e) = .ok e := by
  have hread := readEnvelope_fields hinit
  have hparsed := parseEnvelope_of_parse (parse_fields hlen) (by rw [hread]; exact hchecked)
  rwa [hread] at hparsed

/-- An envelope is read back, and what is read is checked. -/
theorem envelope_wire :
    (∀ e : Envelope, Checked e → (e.type = envRatchet → NoInit e) →
      (serialize e).length < 2^64 → parseEnvelope (serialize e) = .ok e) ∧
    ∀ (data : Bytes) (e : Envelope), parseEnvelope data = .ok e → Checked e := by
  refine ⟨fun e hchecked hinit hlen => ?_,fun data e h => parseEnvelope_checked h⟩
  exact parseEnvelope_serialize hchecked (hchecked.type.imp_right hinit) hlen

def sampleInit : Envelope where
  type := envInit
  ratchetPub := List.replicate 32 9
  prevCount := 0
  counter := 4294967295
  body := text "sealed"
  identityPub := [1,2,3]
  regID := 4294967295

theorem envelope_wire_sample :
    parseEnvelope (serialize sampleInit) = .ok sampleInit ∧ Checked sampleInit := by
  have hread := envelope_wire.1 sampleInit ⟨rfl,.inl rfl,rfl⟩ (fun h => absurd h (by decide))
    (by decide +kernel)
  exact ⟨hread,envelope_wire.2 _ _ hread⟩

end BaturWhatsApi.EnvelopeWire
