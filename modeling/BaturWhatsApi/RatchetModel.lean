import BaturWhatsApi.CipherSuite

/-!
# The Double Ratchet session

The state and the operations of `security/e2e/ratchet.go`. A call that fails
returns the state it leaves behind, because the source mutates the session in
place and its errors leave in the middle of the updates. Fresh key pairs are
arguments; an argument may also be the failure of the generator.

Both skip loops are one definition with the index under which a key is stored,
and the opening of a message is split into the choice of its key and the use of
that key. The mutex makes every call atomic and does not appear. The limit on
skipped keys is a constant of the source that every constructor stores.
-/
namespace BaturWhatsApi.RatchetModel
open ByteStrings CipherSuite ProtobufWire

def envInit : UInt8 := 1
def envRatchet : UInt8 := 2

def initTag : Bytes := text "batur-e2e-init-v1"

structure Envelope where
  version : UInt8 := 1
  type : UInt8
  ratchetPub : Bytes
  prevCount : UInt32
  counter : UInt32
  headerEncrypt : Bytes := []
  body : Bytes := []
  identityPub : Bytes := []
  identitySigPub : Bytes := []
  identityCert : Bytes := []
  regID : UInt32 := 0
  opkID : UInt32 := 0
deriving DecidableEq, Repr

structure ChainIndex where
  ratchet : Bytes
  pn : UInt32
  n : UInt32
deriving DecidableEq, Repr

def maxSkippedMessageKeys : ℕ := 1000

/-- Copying a slice into a fresh array of 32 bytes. -/
def copy32 (b : Bytes) : Bytes := b.take 32++List.replicate (32-b.length) 0

theorem copy32_of_length {b : Bytes} (h : b.length = 32) : copy32 b = b := by
  rw [copy32,h,Nat.sub_self,List.replicate_zero,List.append_nil,List.take_of_length_le h.le]

structure Ratchet (S : Suite) where
  rootKey : S.Secret
  sendingChain : Option S.Secret := none
  recvChain : Option S.Secret := none
  sendingDH : Option S.Priv := none
  recvPub : Bytes := List.replicate 32 0
  haveRecvPub : Bool := false
  initSent : Bool := false
  isInitiator : Bool
  sendingCounter : UInt32 := 0
  receivingCounter : UInt32 := 0
  previousCounter : UInt32 := 0
  retiredSendCount : UInt32 := 0
  skipped : Finmap (fun _ : ChainIndex => S.Secret) := ∅
  selfDH : Bytes
  selfSig : Bytes
  selfID : UInt32
  signer : Option S.SignKey
  peerIdentityPub : Bytes
  peerSigPub : Bytes
  peerRegID : UInt32
  opkID : UInt32 := 0
  spkID : UInt32
  initInfo : Bytes

variable {S : Suite}

def newSendingChain (nk : S.Priv) (out : S.Secret) (r : Ratchet S) : Ratchet S :=
  {r with
   rootKey := (kdfRoot r.rootKey out).1
   sendingChain := some (kdfRoot r.rootKey out).2
   sendingDH := some nk
   sendingCounter := 0
   previousCounter := r.retiredSendCount}

/-- A fresh sending pair after a remote step; the state is kept on failure. -/
def ensureSendingChain (fresh : Except Failure S.Priv) (r : Ratchet S) :
    Except Failure (Ratchet S) :=
  if r.sendingChain.isSome then .ok r
  else if !r.haveRecvPub then .error .noRemoteKey
  else match fresh with
    | .error e => .error e
    | .ok nk =>
        match dh nk r.recvPub with
        | .error e => .error e
        | .ok out => .ok (newSendingChain nk out r)

def idCertMessage (dhPub : Bytes) : Bytes := text "batur-e2e-id-v1\x00"++dhPub

def selfCert (r : Ratchet S) : Bytes :=
  match r.signer with
  | none => []
  | some k => S.sign k (idCertMessage r.selfDH)

/-- The header that proves possession of the root key. -/
def initHeader (spkID : UInt32) : Bytes :=
  build [bytes 1 initTag,varint 2 spkID.toUInt64]

def envAAD (env : Envelope) : Bytes := env.ratchetPub++env.headerEncrypt

/-- The envelope before its body is sealed. -/
def envelopeHead (r : Ratchet S) : Envelope :=
  let env : Envelope :=
    {type := envRatchet,ratchetPub := (r.sendingDH.map S.publicKey).getD [],
     prevCount := r.previousCounter,counter := r.sendingCounter}
  if r.isInitiator && !r.initSent then
    {env with
     type := envInit
     identityPub := r.selfDH
     identitySigPub := r.selfSig
     identityCert := selfCert r
     regID := r.selfID
     opkID := r.opkID
     headerEncrypt := encryptHeader r.rootKey (initHeader r.spkID)}
  else env

/-- The key of the next message of the sending chain. -/
def sendKey (r : Ratchet S) : S.Secret := (kdfChain (keyInput r.sendingChain)).1

def sealMessage (plaintext : Bytes) (r : Ratchet S) : Envelope :=
  let env := envelopeHead r
  let (aesKey,iv) := expandMessageKey (sendKey r)
  {env with body := aesGCMEncrypt aesKey iv plaintext (envAAD env)}

/-- The sending side behind that message. -/
def messageSent (r : Ratchet S) : Ratchet S :=
  {r with
   initSent := r.initSent || r.isInitiator
   sendingChain := some (kdfChain (keyInput r.sendingChain)).2
   sendingCounter := r.sendingCounter+1}

def encrypt (fresh : Except Failure S.Priv) (plaintext : Bytes) (r : Ratchet S) :
    Except Failure Envelope × Ratchet S :=
  match ensureSendingChain fresh r with
  | .error e => (.error e,r)
  | .ok r => (.ok (sealMessage plaintext r),messageSent r)

/-- The key of the next message of the receiving chain. -/
def recvKey (r : Ratchet S) : S.Secret := (kdfChain (keyInput r.recvChain)).1

/-- The receiving chain behind that message. -/
def advance (r : Ratchet S) : Ratchet S :=
  {r with
   recvChain := some (kdfChain (keyInput r.recvChain)).2
   receivingCounter := r.receivingCounter+1}

/-- One iteration of a skip loop: the key of the next message is put aside. -/
def skipOne (pub : Bytes) (pn : UInt32) (r : Ratchet S) : Ratchet S :=
  {advance r with skipped := r.skipped.insert ⟨pub,pn,r.receivingCounter⟩ (recvKey r)}

def skipKeys (pub : Bytes) (pn : UInt32) : ℕ → Ratchet S → Option Failure × Ratchet S
  | 0,r => (none,r)
  | n+1,r =>
      if maxSkippedMessageKeys ≤ r.skipped.keys.card then (some .skippedExhausted,r)
      else skipKeys pub pn n (skipOne pub pn r)

/-- The loop runs while the counter is below the bound. -/
def skipUntil (pub : Bytes) (pn bound : UInt32) (r : Ratchet S) : Option Failure × Ratchet S :=
  skipKeys pub pn (bound.toNat-r.receivingCounter.toNat) r

def skipOldChain (pn : UInt32) (r : Ratchet S) : Option Failure × Ratchet S :=
  if r.recvChain.isSome then skipUntil r.recvPub r.previousCounter pn r else (none,r)

def retireSendingChain (r : Ratchet S) : Ratchet S :=
  {r with
   retiredSendCount := if r.sendingChain.isSome then r.sendingCounter else r.retiredSendCount
   sendingChain := none}

def newReceivingChain (pub : Bytes) (out : S.Secret) (r : Ratchet S) : Ratchet S :=
  {r with
   rootKey := (kdfRoot r.rootKey out).1
   recvChain := some (kdfRoot r.rootKey out).2
   receivingCounter := 0
   recvPub := pub
   haveRecvPub := true}

def recvRatchetStep (pub : Bytes) (pn : UInt32) (r : Ratchet S) : Option Failure × Ratchet S :=
  match skipOldChain pn r with
  | (some e,r) => (some e,r)
  | (none,r) =>
      let r := retireSendingChain r
      match r.sendingDH with
      | none => (some .noSendingIdentity,r)
      | some k =>
          match dh k pub with
          | .error e => (some e,r)
          | .ok out => (none,newReceivingChain pub out r)

/-- The choice of the key in `openMessage`. -/
def takeKey (env : Envelope) (pub : Bytes) (r : Ratchet S) : Except Failure S.Secret × Ratchet S :=
  let idx : ChainIndex := ⟨pub,env.prevCount,env.counter⟩
  match r.skipped.lookup idx with
  | some sk => (.ok sk,{r with skipped := r.skipped.erase idx})
  | none =>
      if env.counter < r.receivingCounter then (.error .tooOld,r)
      else match skipUntil pub env.prevCount env.counter r with
        | (some e,r) => (.error e,r)
        | (none,r) => (.ok (recvKey r),advance r)

def openWithKey (msgKey : S.Secret) (env : Envelope) : Except Failure Bytes :=
  aesGCMDecrypt (expandMessageKey msgKey).1 (expandMessageKey msgKey).2 env.body (envAAD env)

def openMessage (env : Envelope) (pub : Bytes) (r : Ratchet S) :
    Except Failure Bytes × Ratchet S :=
  match takeKey env pub r with
  | (.error e,r) => (.error e,r)
  | (.ok k,r) => (openWithKey k env,r)

/-- A step is taken for an unknown remote key, before anything is authenticated. -/
def stepNeeded (env : Envelope) (r : Ratchet S) : Bool :=
  r.recvChain.isNone || copy32 env.ratchetPub ≠ r.recvPub

def decrypt (env : Envelope) (r : Ratchet S) : Except Failure Bytes × Ratchet S :=
  let pub := copy32 env.ratchetPub
  if stepNeeded env r then
    match recvRatchetStep pub env.prevCount r with
    | (some e,r) => (.error e,r)
    | (none,r) => openMessage env pub r
  else openMessage env pub r

def peerIdentity (r : Ratchet S) : Bytes × Bytes × UInt32 :=
  (r.peerIdentityPub,r.peerSigPub,r.peerRegID)

end BaturWhatsApi.RatchetModel
