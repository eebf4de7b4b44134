import BaturWhatsApi.Base64
import BaturWhatsApi.FinishPayload

/-!
# The texts of credentials

What `loadCredentials` and `saveCredentials` of `session/session.go` make of credentials: an
object whose byte fields are base64, with four of its members left out where they are empty. A
member is matched with a field up to the case of its letters, and an unknown one is skipped.

The keys and the registration number are read back as they were written. The device and the
account are texts, whose invalid bytes are replaced.
-/
namespace BaturWhatsApi.CredentialTexts
open ByteStrings Utf8Runes JsonValues JsonTexts FinishPayload

/-! ### Writing -/

/-- The member, unless it is `omitempty` and has nothing to say. -/
def filled (name : String) (b : Bytes) (j : Json) : List (Bytes × Json) :=
  if b = [] then [] else [(text name,j)]

/-- A key that is there but empty; a nil slice would be a null, which is read as no bytes, too. -/
def bytesJson (b : Bytes) : Json := .str (Base64.encode b)

def credentialsJson (c : Credentials) : Json :=
  .obj ([(text "noise_key",bytesJson c.noiseKeySeed),
    (text "identity_key",bytesJson c.identitySeed)]++
    filled "identity_sig" c.identitySigSeed (bytesJson c.identitySigSeed)++
    [(text "reg_id",.num (.ofInt c.registrationID.toNat))]++
    filled "device_id" c.deviceID (.str c.deviceID)++
    filled "account" c.accountJID (.str c.accountJID)++
    filled "server_static" c.serverStatic (bytesJson c.serverStatic))

def marshalCredentials (c : Credentials) : Bytes := marshal (credentialsJson c)

/-! ### Reading -/

def byteOf : Json → Option UInt8
  | .num n =>
      if n.negative = false ∧ n.exponent = none ∧ n.mantissa < 2^8 then
        some (UInt8.ofNat n.mantissa)
      else none
  | .null => some 0
  | _ => none

/-- Bytes are a base64 text or an array of numbers, and a null is no bytes. -/
def bytesOf : Json → Option Bytes
  | .str s => Base64.decode s
  | .arr elems => elems.mapM byteOf
  | .null => some []
  | _ => none

def credentialsMember (c : Credentials) (e : Bytes × Json) : Option Credentials :=
  if named "noise_key" e.1 then (bytesOf e.2).map fun b => {c with noiseKeySeed := b}
  else if named "identity_key" e.1 then (bytesOf e.2).map fun b => {c with identitySeed := b}
  else if named "identity_sig" e.1 then (bytesOf e.2).map fun b => {c with identitySigSeed := b}
  else if named "reg_id" e.1 then
    (intoUint32 c.registrationID e.2).map fun v => {c with registrationID := v}
  else if named "device_id" e.1 then (intoString c.deviceID e.2).map fun s => {c with deviceID := s}
  else if named "account" e.1 then
    (intoString c.accountJID e.2).map fun s => {c with accountJID := s}
  else if named "server_static" e.1 then (bytesOf e.2).map fun b => {c with serverStatic := b}
  else some c

def noCredentials : Credentials := ⟨[],[],[],0,[],[],[]⟩

def credentialsOf : Json → Option Credentials := intoRecord credentialsMember noCredentials

def unmarshalCredentials (raw : Bytes) : Option Credentials := (unmarshal raw).bind credentialsOf

/-! ### What is read back -/

theorem bytesOf_bytesJson (b : Bytes) : bytesOf (bytesJson b) = some b := Base64.decode_encode b

theorem coerced_bytesJson (b : Bytes) : coerced (bytesJson b) = bytesJson b := by
  rw [bytesJson,coerced,coerce_of_utf8Valid]
  exact utf8Valid_of_ascii fun x hx => Base64.encode_ascii hx

theorem coercedMembers_filled (name : String) (b : Bytes) (j : Json) :
    coercedMembers (filled name b j) = filled name b (coerced j) := by
  rw [filled,filled]
  split_ifs
  · rfl
  · simp only [coercedMembers,coerce_text]

/-- A member that was left out has the value that the record starts with. -/
theorem fold_filled {name : String} {b : Bytes} {j : Json} {c c' : Credentials}
    (hempty : b = [] → c = c') (hmember : credentialsMember c (text name,j) = some c') :
    (filled name b j).foldlM credentialsMember c = some c' := by
  rw [filled]
  split_ifs with hb
  · rw [hempty hb]
    rfl
  · rw [List.foldlM_cons,hmember]
    rfl

/-- The credentials that are read back from the text of these. -/
def coercedCredentials (c : Credentials) : Credentials :=
  {c with deviceID := coerce c.deviceID,accountJID := coerce c.accountJID}

theorem coerced_credentialsJson (c : Credentials) :
    coerced (credentialsJson c) = credentialsJson (coercedCredentials c) := by
  have hempty : ∀ (name : String) (b : Bytes) (j : Json),
      filled name (coerce b) j = filled name b j := by
    intro name b j
    rw [filled,filled]
    congr 1
    rw [coerce_eq_nil_iff]
  simp only [credentialsJson,coercedCredentials,coerced,coercedMembers_append,
    coercedMembers_filled,coercedMembers,coerce_text,coerced_bytesJson,hempty]

theorem credentialsOf_credentialsJson (c : Credentials) :
    credentialsOf (credentialsJson c) = some c := by
  obtain ⟨noise,idkey,sig,reg,device,account,static⟩ := c
  have hkeys : List.foldlM credentialsMember noCredentials
      [(text "noise_key",bytesJson noise),(text "identity_key",bytesJson idkey)] =
      some ⟨noise,idkey,[],0,[],[],[]⟩ := by
    show ((bytesOf (bytesJson noise)).map _).bind _ = _
    rw [bytesOf_bytesJson]
    show ((bytesOf (bytesJson idkey)).map _).bind _ = _
    rw [bytesOf_bytesJson]
    rfl
  have hsig : (filled "identity_sig" sig (bytesJson sig)).foldlM credentialsMember
      ⟨noise,idkey,[],0,[],[],[]⟩ = some ⟨noise,idkey,sig,0,[],[],[]⟩ := by
    refine fold_filled (fun h => by rw [h]) ?_
    show (bytesOf (bytesJson sig)).map _ = _
    rw [bytesOf_bytesJson]
    rfl
  have hreg : List.foldlM credentialsMember ⟨noise,idkey,sig,0,[],[],[]⟩
      [(text "reg_id",.num (.ofInt reg.toNat))] = some ⟨noise,idkey,sig,reg,[],[],[]⟩ := by
    show ((intoUint32 0 _).map _).bind _ = _
    rw [intoUint32_ofInt]
    rfl
  have hdevice : (filled "device_id" device (.str device)).foldlM credentialsMember
      ⟨noise,idkey,sig,reg,[],[],[]⟩ = some ⟨noise,idkey,sig,reg,device,[],[]⟩ :=
    fold_filled (fun h => by rw [h]) rfl
  have haccount : (filled "account" account (.str account)).foldlM credentialsMember
      ⟨noise,idkey,sig,reg,device,[],[]⟩ = some ⟨noise,idkey,sig,reg,device,account,[]⟩ :=
    fold_filled (fun h => by rw [h]) rfl
  have hstatic : (filled "server_static" static (bytesJson static)).foldlM credentialsMember
      ⟨noise,idkey,sig,reg,device,account,[]⟩ =
      some ⟨noise,idkey,sig,reg,device,account,static⟩ := by
    refine fold_filled (fun h => by rw [h]) ?_
    show (bytesOf (bytesJson static)).map _ = _
    rw [bytesOf_bytesJson]
    rfl
  rw [credentialsOf,credentialsJson,intoRecord]
  simp only [List.foldlM_append,hkeys,hsig,hreg,hdevice,haccount,hstatic,Option.bind_eq_bind,
    Option.bind_some]

theorem depthMembers_filled (name : String) (b s : Bytes) :
    depthMembers (filled name b (.str s)) = 0 := by
  rw [filled]
  split_ifs <;> rfl

/-- Credentials are read back, with the invalid bytes of their texts replaced. -/
theorem unmarshal_marshalCredentials (c : Credentials) :
    unmarshalCredentials (marshalCredentials c) = some (coercedCredentials c) := by
  have hdepth : depth (credentialsJson c) ≤ maxNestingDepth := by
    simp [credentialsJson,bytesJson,depth,depthMembers,depthMembers_append,depthMembers_filled,
      maxNestingDepth]
  rw [unmarshalCredentials,marshalCredentials,unmarshal_marshal hdepth,Option.bind_some,
    coerced_credentialsJson,credentialsOf_credentialsJson]

end BaturWhatsApi.CredentialTexts
