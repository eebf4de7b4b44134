import BaturWhatsApi.Fallible
import BaturWhatsApi.ProtobufMessages

/-!
# Certificate chains

`Verify`, `BuildChain` and `BuildDetails` of `security/wacert/wacert.go`. A chain is a message of
two certificates, a certificate a message of its details and a signature, and the details a
message of two serials, a key and two times. The times are whole seconds on the wire, so a
fraction of a second is lost when details are built.

The check of a signature is a parameter.
-/
namespace BaturWhatsApi.CertificateChains
open ByteStrings ProtobufWire ProtobufMessages Fallible

/-! ### Time -/

/-- Seconds since the beginning of year 1, and the nanoseconds after them. -/
structure Time where
  sec : Int64
  nsec : Fin 1000000000
deriving DecidableEq, Repr

/-- The seconds from year 1 to the epoch. -/
def unixToInternal : Int64 := 62135596800

def Time.unix (t : Time) : Int64 := t.sec-unixToInternal

def timeUnix (sec : Int64) : Time := ⟨sec+unixToInternal,0⟩

def Time.before (t u : Time) : Bool := t.sec < u.sec || t.sec == u.sec && t.nsec < u.nsec

/-- The time without its fraction of a second. -/
def Time.whole (t : Time) : Time := ⟨t.sec,0⟩

theorem timeUnix_unix (t : Time) : timeUnix t.unix = t.whole := by
  rw [timeUnix,Time.unix,Int64.sub_add_cancel,Time.whole]

/-- Nanoseconds since the beginning of year 1. -/
def Time.nanos (t : Time) : ℤ := t.sec.toInt*1000000000+t.nsec.val

theorem before_iff (t u : Time) : t.before u = true ↔ t.nanos < u.nanos := by
  have ht := t.nsec.isLt
  have hu := u.nsec.isLt
  simp only [Time.before,Bool.or_eq_true,Bool.and_eq_true,decide_eq_true_eq,beq_iff_eq,
    Int64.lt_iff_toInt_lt,← Int64.toInt_inj,Fin.lt_def,Time.nanos]
  omega

/-! ### Chains -/

/-- What `BuildDetails` is given. -/
structure Terms where
  serial : UInt32
  issuerSerial : UInt32
  key : Bytes
  notBefore : Time
  notAfter : Time
deriving DecidableEq, Repr

def detailsParts (t : Terms) : List Part :=
  [.uint (.short 1) t.serial.toUInt64,
   .uint (.short 2) t.issuerSerial.toUInt64,
   .bytes (.short 3) t.key,
   .uint (.short 4) t.notBefore.unix.toUInt64,
   .uint (.short 5) t.notAfter.unix.toUInt64]

def buildDetails (t : Terms) : Bytes := build (fields (detailsParts t))

/-- The two fields of a certificate, and of a chain. -/
def pair (first second : Bytes) : List Part :=
  [.bytes (.short 1) first,.bytes (.short 2) second]

def buildCert (details sig : Bytes) : Bytes := build (fields (pair details sig))

def buildChain (leafDetails leafSig interDetails interSig : Bytes) : Bytes :=
  build (fields (pair (buildCert leafDetails leafSig) (buildCert interDetails interSig)))

structure Cert where
  details : Bytes
  signature : Bytes
deriving DecidableEq, Repr

structure Details where
  serial : UInt32
  issuerSerial : UInt32
  key : Bytes
  notBefore : UInt64
  notAfter : UInt64
deriving DecidableEq, Repr

/-- The certificate that an error is about. -/
inductive Which where
  | intermediate
  | leaf
deriving DecidableEq, Repr

inductive VerifyError where
  | malformedChain (err : ParseError)
  | noCertificate
  | malformedCert (which : Which) (err : ParseError)
  | emptyCert (which : Which)
  | trustAnchor
  | badSig (which : Which)
  | malformedDetails (which : Which) (err : ParseError)
  | keyLength (which : Which) (length : ℕ)
  | rootSerial (serial : UInt32)
  | leafSerial (issuer serial : UInt32)
  | notYetValid (which : Which) (notBefore : Time)
  | expired (which : Which) (notAfter : Time)
  | keyMismatch
deriving DecidableEq, Repr

abbrev Check := Except VerifyError

/-- The error unless the condition holds. -/
def ensure (cond : Bool) (err : VerifyError) : Check Unit := if cond then .ok () else .error err

def parsed (data : Bytes) (err : ParseError → VerifyError) : Check Message :=
  (parse data).mapError err

def signatureSize : ℕ := 64

def publicKeySize : ℕ := 32

def parseCert (which : Which) (b : Bytes) : Check Cert := do
  let m ← parsed b (.malformedCert which)
  let c : Cert := ⟨(getBytes m 1).getD [],(getBytes m 2).getD []⟩
  ensure (!c.details.isEmpty && c.signature.length == signatureSize) (.emptyCert which)
  pure c

def parseDetails (which : Which) (raw : Bytes) : Check Details := do
  let m ← parsed raw (.malformedDetails which)
  let d : Details :=
    {serial := ((getUint m 1).getD 0).toUInt32
     issuerSerial := ((getUint m 2).getD 0).toUInt32
     key := (getBytes m 3).getD []
     notBefore := (getUint m 4).getD 0
     notAfter := (getUint m 5).getD 0}
  ensure (d.key.length == 32) (.keyLength which d.key.length)
  pure d

def checkValidity (which : Which) (d : Details) (now : Time) : Check Unit := do
  let nb := timeUnix d.notBefore.toInt64
  let na := timeUnix d.notAfter.toInt64
  ensure (!now.before nb) (.notYetValid which nb)
  ensure (!na.before now) (.expired which na)

def rootSerial : UInt32 := 0

/-- `verifySig` is given a key, a message and a signature. -/
def verify (verifySig : Bytes → Bytes → Bytes → Bool) (certChain serverStatic rootPubKey : Bytes)
    (now : Time) : Check Unit := do
  let msg ← parsed certChain .malformedChain
  let interRaw ← (getBytes msg 2).elim (.error .noCertificate) .ok
  let leafRaw ← (getBytes msg 1).elim (.error .noCertificate) .ok
  let inter ← parseCert .intermediate interRaw
  let leaf ← parseCert .leaf leafRaw
  ensure (rootPubKey.length == publicKeySize) .trustAnchor
  ensure (verifySig rootPubKey inter.details inter.signature) (.badSig .intermediate)
  let interD ← parseDetails .intermediate inter.details
  ensure (interD.issuerSerial == rootSerial) (.rootSerial interD.issuerSerial)
  checkValidity .intermediate interD now
  ensure (verifySig interD.key leaf.details leaf.signature) (.badSig .leaf)
  let leafD ← parseDetails .leaf leaf.details
  ensure (leafD.issuerSerial == interD.serial) (.leafSerial leafD.issuerSerial interD.serial)
  checkValidity .leaf leafD now
  ensure (leafD.key == serverStatic) .keyMismatch

/-! ### What is accepted -/

theorem ensure_ok_iff {cond : Bool} {err : VerifyError} {u : Unit} :
    ensure cond err = .ok u ↔ cond = true := by
  cases cond with
  | true => exact ⟨fun _ => rfl,fun _ => rfl⟩
  | false => exact ⟨fun h => (nomatch h),fun h => (nomatch h)⟩

/-! ### What is built -/

/-- The details that are parsed. -/
def Terms.details (t : Terms) : Details where
  serial := t.serial
  issuerSerial := t.issuerSerial
  key := t.key
  notBefore := t.notBefore.unix.toUInt64
  notAfter := t.notAfter.unix.toUInt64

/-- The bytes of a part are not longer than the message. -/
theorem part_length {b : List Part} {num : FieldNum} {x : Bytes} (h : .bytes num x ∈ b)
    (hlen : (build (fields b)).length < 2^64) : x.length < 2^64 := by
  have hmem : Part.field (.bytes num x) ∈ fields b := by
    rw [fields_eq_map]
    exact List.mem_map_of_mem h
  rw [Part.field] at hmem
  exact bytes_length_lt hmem rfl hlen

theorem pair_length {x y : Bytes} (hlen : (build (fields (pair x y))).length < 2^64) :
    x.length < 2^64 ∧ y.length < 2^64 := by
  constructor
  · exact part_length (List.mem_cons_self ..) hlen
  · exact part_length (List.mem_cons_of_mem _ (List.mem_cons_self ..)) hlen

theorem getBytes_pair (x y : Bytes) :
    getBytes (fields (pair x y)) 1 = some x ∧ getBytes (fields (pair x y)) 2 = some y :=
  ⟨getBytes_of_find rfl,getBytes_of_find rfl⟩

theorem parseCert_build {details sig : Bytes} {which : Which} {c : Cert}
    (hlen : (buildCert details sig).length < 2^64) :
    parseCert which (buildCert details sig) = .ok c ↔
      (details ≠ [] ∧ sig.length = 64) ∧ c = ⟨details,sig⟩ := by
  obtain ⟨h₁,h₂⟩ := getBytes_pair details sig
  rw [buildCert] at hlen ⊢
  simp only [parseCert,bind_eq_ok,parsed,mapError_eq_ok,parse_fields hlen,ensure_ok_iff,pure_eq_ok,
    Except.ok.injEq,exists_eq_left',h₁,h₂,Option.getD_some,exists_const,Bool.and_eq_true,
    Bool.not_eq_true',List.isEmpty_eq_false_iff,beq_iff_eq,signatureSize,eq_comm (b := c)]

theorem parseDetails_build {t : Terms} {which : Which} {d : Details}
    (hlen : (buildDetails t).length < 2^64) :
    parseDetails which (buildDetails t) = .ok d ↔ t.key.length = 32 ∧ d = t.details := by
  have h₁ : getUint (fields (detailsParts t)) 1 = some t.serial.toUInt64 := getUint_of_find rfl
  have h₂ : getUint (fields (detailsParts t)) 2 = some t.issuerSerial.toUInt64 :=
    getUint_of_find rfl
  have h₃ : getBytes (fields (detailsParts t)) 3 = some t.key := getBytes_of_find rfl
  have h₄ : getUint (fields (detailsParts t)) 4 = some t.notBefore.unix.toUInt64 :=
    getUint_of_find rfl
  have h₅ : getUint (fields (detailsParts t)) 5 = some t.notAfter.unix.toUInt64 :=
    getUint_of_find rfl
  rw [buildDetails] at hlen ⊢
  simp only [parseDetails,bind_eq_ok,parsed,mapError_eq_ok,parse_fields hlen,ensure_ok_iff,pure_eq_ok,
    Except.ok.injEq,exists_eq_left',h₁,h₂,h₃,h₄,h₅,Option.getD_some,exists_const,beq_iff_eq,
    UInt32.toUInt32_toUInt64,Terms.details,eq_comm (b := d)]

/-- The details hold at the time, with their times in whole seconds. -/
def Terms.ValidAt (t : Terms) (now : Time) : Prop :=
  t.notBefore.whole.nanos ≤ now.nanos ∧ now.nanos ≤ t.notAfter.whole.nanos

theorem checkValidity_details {t : Terms} {which : Which} {now : Time} {u : Unit} :
    checkValidity which t.details now = .ok u ↔ t.ValidAt now := by
  have hunix : ∀ x : Time, timeUnix x.unix.toUInt64.toInt64 = x.whole := by
    intro x
    rw [Int64.toInt64_toUInt64,timeUnix_unix]
  have hbefore : ∀ x y : Time, x.before y = false ↔ y.nanos ≤ x.nanos := by
    intro x y
    rw [← Bool.not_eq_true,before_iff,not_lt]
  simp only [checkValidity,bind_eq_ok,ensure_ok_iff,exists_const,Terms.details,hunix,
    Bool.not_eq_true',hbefore,Terms.ValidAt]

theorem buildDetails_ne_nil (t : Terms) : buildDetails t ≠ [] := by
  intro hnil
  have hparse : parse (buildDetails t) = .ok (fields (detailsParts t)) := by
    refine parse_fields ?_
    rw [buildDetails] at hnil
    rw [hnil]
    exact Nat.two_pow_pos 64
  rw [hnil,fields_eq_map] at hparse
  cases hparse

/-- A chain is accepted exactly when it is valid. -/
theorem verify_iff (verifySig : Bytes → Bytes → Bytes → Bool) (leaf inter : Terms)
    (leafSig interSig serverStatic rootPubKey : Bytes) (now : Time)
    (hroot : rootPubKey.length = 32)
    (hlen : (buildChain (buildDetails leaf) leafSig (buildDetails inter) interSig).length < 2^64) :
    verify verifySig (buildChain (buildDetails leaf) leafSig (buildDetails inter) interSig)
        serverStatic rootPubKey now = .ok () ↔
      (leafSig.length = 64 ∧ interSig.length = 64) ∧
      (leaf.key.length = 32 ∧ inter.key.length = 32) ∧
      verifySig rootPubKey (buildDetails inter) interSig = true ∧
      verifySig inter.key (buildDetails leaf) leafSig = true ∧
      inter.issuerSerial = rootSerial ∧ leaf.issuerSerial = inter.serial ∧
      inter.ValidAt now ∧ leaf.ValidAt now ∧ leaf.key = serverStatic := by
  -- what is nested fits where the whole chain fits
  obtain ⟨hleaf,hinter⟩ := pair_length hlen
  obtain ⟨hleafD,_⟩ := pair_length hleaf
  obtain ⟨hinterD,_⟩ := pair_length hinter
  obtain ⟨h₁,h₂⟩ :=
    getBytes_pair (buildCert (buildDetails leaf) leafSig) (buildCert (buildDetails inter) interSig)
  rw [buildChain] at hlen ⊢
  simp only [verify,bind_eq_ok,parsed,mapError_eq_ok,parse_fields hlen,Except.ok.injEq,exists_eq_left',
    h₁,h₂,elim_eq_ok,Option.some.injEq,parseCert_build hinter,parseCert_build hleaf,
    ensure_ok_iff,exists_const,hroot,publicKeySize,and_assoc,exists_and_left,exists_eq_left,
    parseDetails_build hinterD,parseDetails_build hleafD,checkValidity_details,beq_iff_eq,
    true_and,ne_eq,buildDetails_ne_nil,not_false_eq_true]
  rw [Terms.details,Terms.details]
  constructor
  · intro ⟨hi,hl,hisig,hik,hroot,hivalid,hlsig,hlk,hserial,hlvalid,hstatic⟩
    exact ⟨hl,hi,hlk,hik,hisig,hlsig,hroot,hserial,hivalid,hlvalid,hstatic⟩
  · intro ⟨hl,hi,hlk,hik,hisig,hlsig,hroot,hserial,hivalid,hlvalid,hstatic⟩
    exact ⟨hi,hl,hisig,hik,hroot,hivalid,hlsig,hlk,hserial,hlvalid,hstatic⟩

/-- A certificate of the sample chain: valid for half a second after its first second. -/
def shortLived (serial : UInt32) : Terms where
  serial := serial
  issuerSerial := 0
  key := List.replicate 32 7
  notBefore := ⟨unixToInternal,0⟩
  notAfter := ⟨unixToInternal,500000000⟩

def sampleChain : Bytes :=
  buildChain (buildDetails (shortLived 1)) (List.replicate 64 1)
    (buildDetails (shortLived 0)) (List.replicate 64 2)

/-- The chain is accepted at the beginning of the second. -/
theorem verify_sampleChain :
    verify (fun _ _ _ => true) sampleChain (List.replicate 32 7) (List.replicate 32 9)
      ⟨unixToInternal,0⟩ = .ok () :=
  (verify_iff (fun _ _ _ => true) (shortLived 1) (shortLived 0) (List.replicate 64 1)
    (List.replicate 64 2) (List.replicate 32 7) (List.replicate 32 9) ⟨unixToInternal,0⟩ rfl
    (by decide +kernel)).mpr (by simp [shortLived,rootSerial,Terms.ValidAt,Time.whole])

/-- A fifth of a second later every certificate of the chain is still valid, all else is as it
    was, and the chain is refused. -/
theorem fraction_refused :
    (∀ t ∈ [shortLived 1,shortLived 0], t.notBefore.nanos ≤ Time.nanos ⟨unixToInternal,200000000⟩ ∧
      Time.nanos ⟨unixToInternal,200000000⟩ ≤ t.notAfter.nanos) ∧
    verify (fun _ _ _ => true) sampleChain (List.replicate 32 7) (List.replicate 32 9)
      ⟨unixToInternal,200000000⟩ =
        .error (.expired .intermediate ⟨unixToInternal,0⟩) := by
  decide +kernel

end BaturWhatsApi.CertificateChains
