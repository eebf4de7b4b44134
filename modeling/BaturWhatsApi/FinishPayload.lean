import BaturWhatsApi.Base32
import BaturWhatsApi.JsonTexts
import BaturWhatsApi.X25519
import BaturWhatsApi.KeyValueStores

/-!
# The registration payload of the handshake

The client's last handshake message carries a JSON object about the device. Its field
`noise_pub` is filled with the seed of the noise key pair itself, not with its public key,
so the payload determines the private key.
-/
namespace BaturWhatsApi.FinishPayload
open ByteStrings Utf8Runes JsonValues JsonTexts KeyValueStores

structure DeviceInfo where
  platform : Bytes
  deviceName : Bytes

structure Credentials where
  noiseKeySeed : Bytes
  identitySeed : Bytes
  identitySigSeed : Bytes
  registrationID : UInt32
  deviceID : Bytes
  accountJID : Bytes
  serverStatic : Bytes

/-- The arguments are the random bytes drawn; a key pair's seed is the bytes drawn for it,
before clamping. -/
def generateCredentials (noise identity sig : Bytes) (r₀ r₁ r₂ r₃ : UInt8) : Credentials :=
  { noiseKeySeed := noise
    identitySeed := identity
    identitySigSeed := sig
    registrationID :=
      r₀.toUInt32 <<< 24 ||| r₁.toUInt32 <<< 16 ||| r₂.toUInt32 <<< 8 ||| r₃.toUInt32
    deviceID := []
    accountJID := []
    serverStatic := [] }

def sha1Short (sha : Sha256) (data : Bytes) : Bytes := Base32.encode ((sha.sum data).take 10)

def deviceID (sha : Sha256) (id : Bytes) : Bytes := sha1Short sha id

/-- The object that a session describes itself with; the keys of a map are written in order.
`seed` is what the slice of the seed holds. -/
def payloadJson (sha : Sha256) (id : Bytes) (device : DeviceInfo) (registrationID : UInt32)
    (seed : Bytes) : Json :=
  .obj [(text "device_id",.str (deviceID sha id)),(text "name",.str device.deviceName),
    (text "noise_pub",.str (Base32.encode seed)),(text "platform",.str device.platform),
    (text "reg_id",.num (.ofInt registrationID.toNat))]

/-- The first 32 bytes of the seed's array; `behind` are the bytes after the seed, up to its
capacity. `none` is the panic of the slice expression. -/
def finishPayload (sha : Sha256) (id : Bytes) (device : DeviceInfo) (creds : Credentials)
    (behind : Bytes) : Option Bytes :=
  if (creds.noiseKeySeed++behind).length < 32 then none
  else some (marshal (payloadJson sha id device creds.registrationID
    ((creds.noiseKeySeed++behind).take 32)))

theorem coerce_encode32 (b : Bytes) : coerce (Base32.encode b) = Base32.encode b := by
  apply coerce_of_utf8Valid
  exact utf8Valid_of_ascii fun x hx => Base32.encode_ascii hx

/-- What is read from the payload. -/
theorem unmarshal_payloadJson (sha : Sha256) (id : Bytes) (device : DeviceInfo)
    (registrationID : UInt32) (seed : Bytes) :
    unmarshal (marshal (payloadJson sha id device registrationID seed)) =
      some (payloadJson sha id
        {platform := coerce device.platform,deviceName := coerce device.deviceName}
        registrationID seed) := by
  rw [unmarshal_marshal (by simp [payloadJson,depth,depthMembers,maxNestingDepth])]
  simp only [payloadJson,coerced,coercedMembers,coerce_text,deviceID,sha1Short,coerce_encode32]

theorem finishPayload_of_length {sha : Sha256} {id : Bytes} {device : DeviceInfo}
    {creds : Credentials} (hlen : creds.noiseKeySeed.length = 32) (behind : Bytes) :
    finishPayload sha id device creds behind =
      some (marshal (payloadJson sha id device creds.registrationID creds.noiseKeySeed)) := by
  have hfull : (creds.noiseKeySeed++behind).take 32 = creds.noiseKeySeed := by
    rw [← hlen,List.take_left]
  rw [finishPayload,hfull,if_neg]
  rw [List.length_append]
  omega

/-- What the payload says about the seed is the whole seed. -/
theorem finishPayload_seed {sha : Sha256} {id : Bytes} {device : DeviceInfo}
    {creds creds' : Credentials} {behind behind' : Bytes}
    (hlen : creds.noiseKeySeed.length = 32) (hlen' : creds'.noiseKeySeed.length = 32)
    (h : finishPayload sha id device creds behind = finishPayload sha id device creds' behind') :
    creds.noiseKeySeed = creds'.noiseKeySeed := by
  rw [finishPayload_of_length hlen,finishPayload_of_length hlen'] at h
  have hread := congrArg unmarshal (Option.some.inj h)
  rw [unmarshal_payloadJson,unmarshal_payloadJson] at hread
  simp only [payloadJson,Option.some.injEq,Json.obj.injEq,List.cons.injEq,Prod.mk.injEq,
    Json.str.injEq,true_and,and_true] at hread
  exact Base32.encode_inj _ _ (hlen.trans hlen'.symm) hread.1

/-- Seeds with one public key give one payload exactly when they are one seed. -/
theorem finishPayload_eq_iff_seed_eq (sha : Sha256) (id : Bytes) (device : DeviceInfo)
    (creds creds' : Credentials) (behind behind' : Bytes) (pub : Bytes)
    (hpub : X25519.publicKey creds.noiseKeySeed = some pub)
    (hpub' : X25519.publicKey creds'.noiseKeySeed = some pub)
    (hreg : creds.registrationID = creds'.registrationID) :
    finishPayload sha id device creds behind = finishPayload sha id device creds' behind' ↔
      creds.noiseKeySeed = creds'.noiseKeySeed := by
  have hlen := X25519.length_of_publicKey hpub
  have hlen' := X25519.length_of_publicKey hpub'
  constructor
  · exact finishPayload_seed hlen hlen'
  · intro h
    rw [finishPayload_of_length hlen,finishPayload_of_length hlen',h,hreg]

section
def zeroSha : Sha256 := ⟨fun _ => List.replicate 32 0,fun _ => List.length_replicate⟩

def browser : DeviceInfo := ⟨text "web",text "browser"⟩

/-- Only the lowest bit of the noise seed varies; clamping clears it. -/
def drawn (low : UInt8) : Credentials :=
  generateCredentials (low::List.replicate 31 0) (List.replicate 32 1) (List.replicate 32 2) 0 0 0 7

theorem publicKey_drawn : X25519.publicKey (drawn 0).noiseKeySeed =
    X25519.publicKey (drawn 1).noiseKeySeed :=
  X25519.publicKey_eq_of_clamp rfl (by decide +kernel)

theorem finishPayload_drawn_iff :
    finishPayload zeroSha (text "main") browser (drawn 0) [] =
        finishPayload zeroSha (text "main") browser (drawn 1) [] ↔
      (drawn 0).noiseKeySeed = (drawn 1).noiseKeySeed :=
  finishPayload_eq_iff_seed_eq zeroSha (text "main") browser (drawn 0) (drawn 1) [] []
    (X25519.scalarMult (drawn 1).noiseKeySeed 9) publicKey_drawn rfl rfl

/-- Two seeds of one public key with different payloads. -/
theorem finishPayload_discloses_seed :
    (drawn 0).registrationID = (drawn 1).registrationID ∧
      X25519.publicKey (drawn 0).noiseKeySeed = X25519.publicKey (drawn 1).noiseKeySeed ∧
      finishPayload zeroSha (text "main") browser (drawn 0) [] ≠
        finishPayload zeroSha (text "main") browser (drawn 1) [] := by
  refine ⟨rfl,publicKey_drawn,?_⟩
  intro h
  have hseed := finishPayload_seed (by rfl) (by rfl) h
  exact absurd hseed (by decide +kernel)

end

end BaturWhatsApi.FinishPayload
