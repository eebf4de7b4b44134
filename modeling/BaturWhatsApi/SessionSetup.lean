import BaturWhatsApi.RatchetModel

/-!
# Establishing a session

The prekey bundle, its verification, the two sides of the key agreement and the
two constructors of a session, from `security/e2e/e2e.go` and
`security/e2e/ratchet.go`. The one-time prekeys of a bundle are a Go map: every
range statement over it visits the entries in an order of its own, so the order
is an argument of each function that ranges over the map. A published key may be
a nil slice, which the initiator treats as absent.
-/
namespace BaturWhatsApi.SessionSetup
open ByteStrings CipherSuite ProtobufWire RatchetModel

structure Identity (S : Suite) where
  dhKey : S.Priv
  signPriv : S.SignKey
  regID : UInt32

def Identity.signPub {S : Suite} (id : Identity S) : Bytes := S.signPublic id.signPriv

def Identity.sign {S : Suite} (id : Identity S) (msg : Bytes) : Bytes := S.sign id.signPriv msg

/-- The entries of the one-time prekey map, in some order. -/
abbrev OneTimeKeys := List (UInt32 × Option Bytes)

structure PreKeyBundle where
  identityPub : Bytes
  identitySigPub : Bytes
  identityCert : Bytes
  regID : UInt32
  signedPreKeyPub : Bytes
  signedPreKeyID : UInt32
  signedPreKeySig : Bytes
  oneTimePreKeys : OneTimeKeys

def spkCertMessage (identityCert spkPub : Bytes) (spkID : UInt32) : Bytes :=
  text "batur-e2e-spk-v1\x00"++identityCert++spkPub++
    [UInt8.ofNat (spkID.toNat >>> 24),UInt8.ofNat (spkID.toNat >>> 16),
     UInt8.ofNat (spkID.toNat >>> 8),UInt8.ofNat spkID.toNat]

variable {S : Suite}

def buildBundle (id : Identity S) (spk : S.Priv) (spkID : UInt32) (oneTime : OneTimeKeys) :
    PreKeyBundle :=
  let idCert := id.sign (idCertMessage (S.publicKey id.dhKey))
  {identityPub := S.publicKey id.dhKey
   identitySigPub := id.signPub
   identityCert := idCert
   regID := id.regID
   signedPreKeyPub := S.publicKey spk
   signedPreKeyID := spkID
   signedPreKeySig := id.sign (spkCertMessage idCert (S.publicKey spk) spkID)
   oneTimePreKeys := oneTime}

def verifyBundle (S : Suite) (b : PreKeyBundle) : Option Failure :=
  if b.identityPub.length ≠ 32 ∨ b.identitySigPub.length ≠ 32 ∨ b.signedPreKeyPub.length ≠ 32 then
    some .bundleInvalid
  else if !S.verify b.identitySigPub (idCertMessage b.identityPub) b.identityCert then
    some .bundleIdentity
  else if !S.verify b.identitySigPub
      (spkCertMessage b.identityCert b.signedPreKeyPub b.signedPreKeyID) b.signedPreKeySig then
    some .bundlePreKey
  else none

/-- The key of the first entry a range statement visits. -/
def firstKey : OneTimeKeys → Option Bytes
  | [] => none
  | e::_ => e.2

/-- The id of the first entry a range statement visits. -/
def firstID : OneTimeKeys → UInt32
  | [] => 0
  | e::_ => e.1

/-- The input of the derivation: three agreements and the optional fourth. -/
def x3dhInput (d1 d2 d3 : S.Secret) : Option S.Secret → List (Atom S.Secret)
  | none => [.secret d1,.secret d2,.secret d3]++bytesOf x3dhZero
  | some d4 => [.secret d1,.secret d2,.secret d3,.secret d4]

def x3dhInitiator (identity ephemeral : S.Priv) (bundle : PreKeyBundle) (order : OneTimeKeys)
    (info : Bytes) : Except Failure (S.Secret × S.Secret) := do
  let d1 ← numberedDH 1 identity bundle.identityPub
  let d2 ← numberedDH 2 ephemeral bundle.signedPreKeyPub
  let d3 ← numberedDH 3 identity bundle.signedPreKeyPub
  match firstKey order with
  | some opkPub =>
      let d4 ← numberedDH 4 ephemeral opkPub
      pure (x3dhDerive (x3dhInput d1 d2 d3 (some d4)) info)
  | none => pure (x3dhDerive (x3dhInput d1 d2 d3 none) info)

/-- Only the first agreement names itself in its error. -/
def x3dhRecipient (identity spkPriv : S.Priv) (senderIdentityPub senderEphemeralPub : Bytes)
    (oneTimePriv : Option S.Priv) (info : Bytes) : Except Failure (S.Secret × S.Secret) := do
  let d1 ← numberedDH 1 identity senderIdentityPub
  let d2 ← dh spkPriv senderEphemeralPub
  let d3 ← dh spkPriv senderIdentityPub
  match oneTimePriv with
  | some k =>
      let d4 ← dh k senderEphemeralPub
      pure (x3dhDerive (x3dhInput d1 d2 d3 (some d4)) info)
  | none => pure (x3dhDerive (x3dhInput d1 d2 d3 none) info)

/-- The initiator's state; the advertised id is the first of a second range. -/
def aliceRatchet (eph : S.Priv) (bundle : PreKeyBundle) (idOrder : OneTimeKeys)
    (identity : Identity S) (root chain : S.Secret) (info : Bytes) : Ratchet S :=
  {rootKey := root
   sendingChain := some chain
   sendingDH := some eph
   isInitiator := true
   selfDH := S.publicKey identity.dhKey
   selfSig := identity.signPub
   selfID := identity.regID
   signer := some identity.signPriv
   peerIdentityPub := bundle.identityPub
   peerSigPub := bundle.identitySigPub
   peerRegID := bundle.regID
   opkID := firstID idOrder
   spkID := bundle.signedPreKeyID
   initInfo := info}

/-- Two range statements: one chooses the key, the other the advertised id. -/
def aliceSession (fresh : Except Failure S.Priv) (bundle : PreKeyBundle)
    (keyOrder idOrder : OneTimeKeys) (identity : Identity S) (info : Bytes) :
    Except Failure (Ratchet S) :=
  match verifyBundle S bundle with
  | some e => .error e
  | none => do
      let eph ← fresh
      let (root,chain) ← x3dhInitiator identity.dhKey eph bundle keyOrder info
      pure (aliceRatchet eph bundle idOrder identity root chain info)

structure BobKeys (S : Suite) where
  identity : Identity S
  signedPreKey : S.Priv
  signedPreID : UInt32
  oneTimeKey : Option S.Priv
  oneTimeKeyID : UInt32

/-- The responder's state before the header and the first message are opened. -/
def bobRatchet (keys : BobKeys S) (env : Envelope) (root chain : S.Secret) (info : Bytes) :
    Ratchet S :=
  {rootKey := root
   recvChain := some chain
   recvPub := copy32 env.ratchetPub
   haveRecvPub := true
   isInitiator := false
   selfDH := S.publicKey keys.identity.dhKey
   selfSig := keys.identity.signPub
   selfID := keys.identity.regID
   signer := some keys.identity.signPriv
   peerIdentityPub := env.identityPub
   peerSigPub := env.identitySigPub
   peerRegID := env.regID
   opkID := env.opkID
   spkID := keys.signedPreID
   initInfo := info}

/-- The header must carry the tag; an absent prekey id is accepted. -/
def checkHeader (root : S.Secret) (headerEncrypt : Bytes) (signedPreID : UInt32) :
    Except Failure Unit := do
  let hdr ← decryptHeader root headerEncrypt
  match parse hdr with
  | .error e => .error (.headerParse e)
  | .ok m =>
      if (getBytes m 1).getD [] ≠ initTag then .error .headerTag
      else match getUint m 2 with
        | some id => if id.toUInt32 ≠ signedPreID then .error .signedPreKeyMismatch else .ok ()
        | none => .ok ()

def bobSession (keys : BobKeys S) (env : Envelope) (info : Bytes) :
    Except Failure (Ratchet S × Bytes) :=
  if env.type ≠ envInit then .error .notInit
  else if env.identityPub.length ≠ 32 ∨ env.identitySigPub.length ≠ 32 then .error .badKey
  else if !S.verify env.identitySigPub (idCertMessage env.identityPub) env.identityCert then
    .error .certificate
  else do
    let (root,chain) ← x3dhRecipient keys.identity.dhKey keys.signedPreKey env.identityPub
      env.ratchetPub keys.oneTimeKey info
    let r := bobRatchet keys env root chain info
    let _ ← checkHeader root env.headerEncrypt keys.signedPreID
    match openMessage env r.recvPub r with
    | (.error e,_) => .error e
    | (.ok msg,r) => pure (r,msg)

end BaturWhatsApi.SessionSetup
