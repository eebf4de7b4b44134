import BaturWhatsApi.ProtobufWire

/-!
# The primitives under the end-to-end sessions

Key agreement, the keyed hash, the two ciphers and the signatures are the
standard library's. They enter as one record of functions. A hash value and an
agreed secret are opaque: they are never inspected by the code, only hashed
again, used as keys, or cut to a nonce. The inputs of the hash are therefore
strings over plain bytes and opaque secrets.

The derivations of `security/e2e/e2e.go` and the two-block case of
`security/hkdf/hkdf.go` are definitions over that record, as is the padding of
the header cipher. The laws used by the results are stated separately, and each
result names the ones it needs.
-/
namespace BaturWhatsApi.CipherSuite
open ByteStrings

/-- One position of a hash input: a plain byte or a whole secret. -/
inductive Atom (κ : Type) where
  | byte (b : UInt8)
  | secret (s : κ)
deriving DecidableEq, Repr

structure Suite where
  Priv : Type
  Secret : Type
  SignKey : Type
  publicKey : Priv → Bytes
  /-- Nothing for a peer key of low order. -/
  ecdh : Priv → Bytes → Option Secret
  hmac : List (Atom Secret) → List (Atom Secret) → Secret
  /-- The leading twelve bytes of a hash value. -/
  nonce : Secret → Bytes
  gcmSeal : Secret → Bytes → Bytes → Bytes → Bytes
  gcmOpen : Secret → Bytes → Bytes → Bytes → Option Bytes
  /-- Block chaining under the zero vector, on whole blocks. -/
  cbcEncrypt : Secret → Bytes → Bytes
  cbcDecrypt : Secret → Bytes → Bytes
  signPublic : SignKey → Bytes
  sign : SignKey → Bytes → Bytes
  verify : Bytes → Bytes → Bytes → Bool

inductive Failure where
  | badKey
  | lowOrder
  | decryptFailed
  | bundleInvalid
  | bundleIdentity
  | bundlePreKey
  | keyGeneration
  | noRemoteKey
  | skippedExhausted
  | noSendingIdentity
  | tooOld
  | notInit
  | certificate
  | headerParse (e : ProtobufWire.ParseError)
  | headerTag
  | signedPreKeyMismatch
  | stateVersion
  /-- A failed agreement with its number in the handshake. -/
  | x3dh (number : ℕ) (e : Failure)
deriving DecidableEq, Repr

variable {S : Suite}

def bytesOf (b : Bytes) : List (Atom S.Secret) := b.map .byte

/-- A possibly absent key as a hash input; an absent slice is empty. -/
def keyInput : Option S.Secret → List (Atom S.Secret)
  | none => []
  | some s => [.secret s]

/-- The output blocks of the expansion, each hashing its predecessor. -/
def hkdfBlock (prk : S.Secret) (info : Bytes) : ℕ → List (Atom S.Secret)
  | 0 => []
  | n+1 => [.secret (S.hmac [.secret prk]
      (hkdfBlock prk info n++bytesOf info++[.byte (UInt8.ofNat (n+1))]))]

def hkdfFirst (prk : S.Secret) (info : Bytes) : S.Secret :=
  S.hmac [.secret prk] (bytesOf info++[.byte 1])

def hkdfSecond (prk : S.Secret) (info : Bytes) : S.Secret :=
  S.hmac [.secret prk] (.secret (hkdfFirst prk info)::(bytesOf info++[.byte 2]))

/-- The two blocks the callers take are those the expansion loop produces. -/
theorem hkdfBlock_one (prk : S.Secret) (info : Bytes) :
    hkdfBlock prk info 1 = [.secret (hkdfFirst prk info)] := rfl

theorem hkdfBlock_two (prk : S.Secret) (info : Bytes) :
    hkdfBlock prk info 2 = [.secret (hkdfSecond prk info)] := rfl

def dh (priv : S.Priv) (peerRaw : Bytes) : Except Failure S.Secret :=
  if peerRaw.length ≠ 32 then .error .badKey
  else match S.ecdh priv peerRaw with
    | none => .error .lowOrder
    | some s => .ok s

/-- An agreement of the handshake whose error names it. -/
def numberedDH (number : ℕ) (priv : S.Priv) (peerRaw : Bytes) : Except Failure S.Secret :=
  (dh priv peerRaw).mapError (.x3dh number)

def x3dhZero : Bytes := List.replicate 32 0

def x3dhDerive (ikm : List (Atom S.Secret)) (info : Bytes) : S.Secret × S.Secret :=
  let prk := S.hmac (bytesOf x3dhZero) ikm
  (hkdfFirst prk info,hkdfSecond prk info)

def kdfRoot (rootKey dhOut : S.Secret) : S.Secret × S.Secret :=
  (S.hmac [.secret rootKey] [.byte 0x80,.secret dhOut],
    S.hmac [.secret rootKey] [.byte 0x07,.secret dhOut])

def kdfChain (chainKey : List (Atom S.Secret)) : S.Secret × S.Secret :=
  (S.hmac chainKey [.byte 0x01],S.hmac chainKey [.byte 0x02])

/-- The two outputs of the chain step on a chain key. -/
def messageKey (c : S.Secret) : S.Secret := (kdfChain [.secret c]).1
def nextChain (c : S.Secret) : S.Secret := (kdfChain [.secret c]).2

def expandMessageKey (msgKey : S.Secret) : S.Secret × Bytes :=
  let prk := S.hmac (bytesOf (text "batur-e2e-keys")) [.secret msgKey]
  (hkdfFirst prk (text "msg"),S.nonce (hkdfSecond prk (text "msg")))

def blockSize : ℕ := 16

def pkcs7 (data : Bytes) (bs : ℕ) : Bytes :=
  let pad := bs-data.length % bs
  data++List.replicate pad (UInt8.ofNat pad)

def unpkcs7 (data : Bytes) : Option Bytes :=
  match data.getLast? with
  | none => none
  | some last =>
      let pad := last.toNat
      if pad = 0 ∨ pad > blockSize ∨ pad > data.length then none
      else if (data.drop (data.length-pad)).all (fun b => b.toNat = pad) then
        some (data.take (data.length-pad))
      else none

def encryptHeader (sharedKey : S.Secret) (plaintext : Bytes) : Bytes :=
  S.cbcEncrypt sharedKey (pkcs7 plaintext blockSize)

def decryptHeader (sharedKey : S.Secret) (ciphertext : Bytes) : Except Failure Bytes :=
  if ciphertext.length = 0 ∨ ciphertext.length % blockSize ≠ 0 then .error .decryptFailed
  else match unpkcs7 (S.cbcDecrypt sharedKey ciphertext) with
    | none => .error .decryptFailed
    | some plain => .ok plain

def aesGCMEncrypt (key : S.Secret) (iv plaintext ad : Bytes) : Bytes :=
  S.gcmSeal key iv plaintext ad

def aesGCMDecrypt (key : S.Secret) (iv ciphertext ad : Bytes) : Except Failure Bytes :=
  match S.gcmOpen key iv ciphertext ad with
  | none => .error .decryptFailed
  | some pt => .ok pt

/-- Agreement of both directions, and each inverse undoing its operation. -/
structure Suite.Correct (S : Suite) : Prop where
  public_length : ∀ k, (S.publicKey k).length = 32
  ecdh_honest : ∀ a b, ∃ s, S.ecdh a (S.publicKey b) = some s ∧ S.ecdh b (S.publicKey a) = some s
  open_seal : ∀ k n p ad, S.gcmOpen k n (S.gcmSeal k n p ad) ad = some p
  cbc_length : ∀ k b, (S.cbcEncrypt k b).length = b.length
  cbc_inverse : ∀ k b, b.length % blockSize = 0 → S.cbcDecrypt k (S.cbcEncrypt k b) = b
  verify_sign : ∀ k m, S.verify (S.signPublic k) m (S.sign k m) = true
  signPublic_length : ∀ k, (S.signPublic k).length = 32

/-- The hash as a free constructor: its inputs are determined by its value and
are smaller than it. -/
structure Suite.Free (S : Suite) : Prop where
  hmac_inj : ∀ {k d k' d'}, S.hmac k d = S.hmac k' d' → k = k' ∧ d = d'
  acyclic : ∃ rank : S.Secret → ℕ, ∀ k d s,
    (.secret s ∈ k ∨ .secret s ∈ d) → rank s < rank (S.hmac k d)

/-- A ciphertext opens only as what was sealed under that key and data. -/
structure Suite.IdealSeal (S : Suite) : Prop where
  opened : ∀ {k n c ad p}, S.gcmOpen k n c ad = some p → c = S.gcmSeal k n p ad
  seal_key : ∀ {k n p ad k' n' p' ad'},
    S.gcmSeal k n p ad = S.gcmSeal k' n' p' ad' → k = k'

theorem dh_honest (hS : S.Correct) (a b : S.Priv) :
    ∃ s, dh a (S.publicKey b) = .ok s ∧ dh b (S.publicKey a) = .ok s := by
  obtain ⟨s,hab,hba⟩ := hS.ecdh_honest a b
  refine ⟨s,?_,?_⟩
  · rw [dh,if_neg (not_not.mpr (hS.public_length b)),hab]
  · rw [dh,if_neg (not_not.mpr (hS.public_length a)),hba]

theorem numberedDH_ok {number : ℕ} {a : S.Priv} {p : Bytes} {s : S.Secret} :
    numberedDH number a p = .ok s ↔ dh a p = .ok s := by
  unfold numberedDH
  cases dh a p <;> simp [Except.mapError]

theorem ecdh_of_dh {a : S.Priv} {p : Bytes} {s : S.Secret} (h : dh a p = .ok s) :
    S.ecdh a p = some s := by
  unfold dh at h
  split_ifs at h
  cases he : S.ecdh a p with
  | none => simp [he] at h
  | some t =>
      simp only [he,Except.ok.injEq] at h
      rw [h]

theorem pkcs7_length (data : Bytes) : (pkcs7 data blockSize).length % blockSize = 0 ∧
    0 < (pkcs7 data blockSize).length := by
  simp only [pkcs7,blockSize,List.length_append,List.length_replicate]
  omega

theorem unpkcs7_pkcs7 (data : Bytes) : unpkcs7 (pkcs7 data blockSize) = some data := by
  obtain ⟨pad,hpad,h₁,h₂⟩ : ∃ pad, pad = blockSize-data.length % blockSize ∧ 0 < pad ∧
      pad ≤ blockSize := ⟨_,rfl,by simp only [blockSize]; omega,by simp only [blockSize]; omega⟩
  have hp : pkcs7 data blockSize = data++List.replicate pad (UInt8.ofNat pad) := by
    rw [hpad]
    rfl
  have hlast : (data++List.replicate pad (UInt8.ofNat pad)).getLast? = some (UInt8.ofNat pad) := by
    rw [List.getLast?_append,List.getLast?_replicate,if_neg (by omega)]
    rfl
  have hnat : (UInt8.ofNat pad).toNat = pad := by
    rw [blockSize] at h₂
    rw [UInt8.toNat_ofNat']
    omega
  have hlen : (data++List.replicate pad (UInt8.ofNat pad)).length-pad = data.length := by simp
  rw [hp,unpkcs7,hlast]
  simp only [hnat,hlen]
  rw [if_neg (by simp only [List.length_append,List.length_replicate]; omega),List.drop_left,
    List.take_left,if_pos]
  simp only [List.all_replicate,hnat]
  simp

theorem decryptHeader_encryptHeader (hS : S.Correct) (k : S.Secret) (plain : Bytes) :
    decryptHeader k (encryptHeader k plain) = .ok plain := by
  obtain ⟨hmod,hpos⟩ := pkcs7_length plain
  have hlen := hS.cbc_length k (pkcs7 plain blockSize)
  rw [decryptHeader,encryptHeader,if_neg (by rw [hlen]; omega),hS.cbc_inverse k _ hmod,
    unpkcs7_pkcs7]

end BaturWhatsApi.CipherSuite
