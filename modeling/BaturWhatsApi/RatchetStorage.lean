import BaturWhatsApi.SessionSetup

/-!
# Storing a session

`MarshalState` and `RestoreRatchet` of `security/e2e/ratchet.go`, and the keys that
are rebuilt from their seeds. A stored session is the record that the source turns
into JSON with its byte strings in base64; the two library encodings are left out.
The skipped keys are kept as a map, since the order of their list comes from ranging
over one and is lost again when it is restored.

The signing function is not stored. Everything else comes back.
-/
namespace BaturWhatsApi.RatchetStorage
open ByteStrings CipherSuite RatchetModel SessionSetup

variable {S : Suite}

/-- The seeds of the two kinds of private key. -/
structure Seeds (S : Suite) where
  seed : S.Priv → Bytes
  ofSeed : Bytes → Option S.Priv
  signOfSeed : Bytes → S.SignKey

structure Seeds.Lawful (F : Seeds S) : Prop where
  seed_length : ∀ k, (F.seed k).length = 32
  ofSeed_seed : ∀ k, F.ofSeed (F.seed k) = some k

def keyPairFromSeed (F : Seeds S) (seed : Bytes) : Except Failure S.Priv :=
  if seed.length ≠ 32 then .error .badKey
  else match F.ofSeed seed with
    | none => .error .badKey
    | some k => .ok k

def restoreIdentity (F : Seeds S) (dhSeed sigSeed : Bytes) (regID : UInt32) :
    Except Failure (Identity S) :=
  match keyPairFromSeed F dhSeed with
  | .error e => .error e
  | .ok dhKey =>
      if sigSeed.length ≠ 32 then .error .badKey
      else .ok ⟨dhKey,F.signOfSeed sigSeed,regID⟩

structure PersistedRatchet (S : Suite) where
  version : ℤ
  rootKey : S.Secret
  sendingChain : Option S.Secret
  recvChain : Option S.Secret
  sendingDHSeed : Bytes
  recvPub : Bytes
  haveRecvPub : Bool
  initSent : Bool
  isInitiator : Bool
  sendingCounter : UInt32
  receivingCounter : UInt32
  previousCounter : UInt32
  retiredSendCount : UInt32
  peerIdentity : Bytes
  peerSig : Bytes
  peerRegID : UInt32
  opkID : UInt32
  spkID : UInt32
  initInfo : Bytes
  selfDH : Bytes
  selfSig : Bytes
  selfRegID : UInt32
  skipped : Finmap (fun _ : ChainIndex => S.Secret)

def marshalState (F : Seeds S) (r : Ratchet S) : PersistedRatchet S :=
  {version := 1
   rootKey := r.rootKey
   sendingChain := r.sendingChain
   recvChain := r.recvChain
   sendingDHSeed := (r.sendingDH.map F.seed).getD []
   recvPub := r.recvPub
   haveRecvPub := r.haveRecvPub
   initSent := r.initSent
   isInitiator := r.isInitiator
   sendingCounter := r.sendingCounter
   receivingCounter := r.receivingCounter
   previousCounter := r.previousCounter
   retiredSendCount := r.retiredSendCount
   peerIdentity := r.peerIdentityPub
   peerSig := r.peerSigPub
   peerRegID := r.peerRegID
   opkID := r.opkID
   spkID := r.spkID
   initInfo := r.initInfo
   selfDH := r.selfDH
   selfSig := r.selfSig
   selfRegID := r.selfID
   skipped := r.skipped}

/-- The session of a stored record with the sending pair it has been given. -/
def PersistedRatchet.ratchet (p : PersistedRatchet S) (sendingDH : Option S.Priv) : Ratchet S :=
  {rootKey := p.rootKey
   sendingChain := p.sendingChain
   recvChain := p.recvChain
   sendingDH := sendingDH
   recvPub := copy32 p.recvPub
   haveRecvPub := p.haveRecvPub
   initSent := p.initSent
   isInitiator := p.isInitiator
   sendingCounter := p.sendingCounter
   receivingCounter := p.receivingCounter
   previousCounter := p.previousCounter
   retiredSendCount := p.retiredSendCount
   skipped := p.skipped
   selfDH := p.selfDH
   selfSig := p.selfSig
   selfID := p.selfRegID
   signer := none
   peerIdentityPub := p.peerIdentity
   peerSigPub := p.peerSig
   peerRegID := p.peerRegID
   opkID := p.opkID
   spkID := p.spkID
   initInfo := p.initInfo}

def restoreRatchet (F : Seeds S) (p : PersistedRatchet S) : Except Failure (Ratchet S) :=
  if p.version ≠ 1 then .error .stateVersion
  else if p.sendingDHSeed = [] then .ok (p.ratchet none)
  else match keyPairFromSeed F p.sendingDHSeed with
    | .error e => .error e
    | .ok dhPair => .ok (p.ratchet (some dhPair))

/-- A session as it comes back from the store. -/
def restored (r : Ratchet S) : Ratchet S := {r with signer := none,recvPub := copy32 r.recvPub}

theorem keyPairFromSeed_seed {F : Seeds S} (hF : F.Lawful) (k : S.Priv) :
    keyPairFromSeed F (F.seed k) = .ok k := by
  rw [keyPairFromSeed,if_neg (not_not.mpr (hF.seed_length k)),hF.ofSeed_seed]

theorem restoreRatchet_marshalState {F : Seeds S} (hF : F.Lawful) (r : Ratchet S) :
    restoreRatchet F (marshalState F r) = .ok (restored r) := by
  have hversion : ¬(marshalState F r).version ≠ 1 := not_not.mpr rfl
  rw [restoreRatchet,if_neg hversion]
  cases hdh : r.sendingDH with
  | none =>
      rw [if_pos (by simp only [marshalState,hdh]; rfl)]
      simp only [PersistedRatchet.ratchet,marshalState,restored,hdh]
  | some k =>
      have hseed : (marshalState F r).sendingDHSeed = F.seed k := by
        simp only [marshalState,hdh,Option.map_some,Option.getD_some]
      have hne : F.seed k ≠ [] := by
        intro h
        have hlen := hF.seed_length k
        rw [h] at hlen
        cases hlen
      rw [hseed,if_neg hne,keyPairFromSeed_seed hF]
      simp only [PersistedRatchet.ratchet,marshalState,restored,hdh]

end BaturWhatsApi.RatchetStorage
