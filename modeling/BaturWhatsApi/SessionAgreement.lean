import BaturWhatsApi.SessionSetup
import BaturWhatsApi.RatchetSteps
import BaturWhatsApi.SymbolicSuite
import BaturWhatsApi.DerivedKeys
import BaturWhatsApi.Fallible

/-!
# Both ends of a new session

The responder recomputes the initiator's keys exactly when he uses the one-time
key she used. She takes the key from one range statement over the map and
advertises the id of another, and the two may visit the map in different orders.
For a bundle whose one-time keys are all the same key, which covers the bundles
with none and with one, every order establishes the session.
-/
namespace BaturWhatsApi.SessionAgreement
open ByteStrings CipherSuite ProtobufWire RatchetModel SessionSetup RatchetSteps DerivedKeys
open Fallible

variable {S : Suite}

/-- The optional fourth agreement of a derivation. -/
def Fourth (own : S.Priv → Bytes → Except Failure S.Secret) (k : Option S.Priv) (pub : Bytes)
    (d : Option S.Secret) : Prop :=
  (k = none ∧ d = none) ∨ ∃ k' s, k = some k' ∧ d = some s ∧ own k' pub = .ok s

theorem Fourth.of_some {own : S.Priv → Bytes → Except Failure S.Secret} {k : Option S.Priv}
    {pub : Bytes} {d : Option S.Secret} {k' : S.Priv} (h : Fourth own k pub d) (hk : k = some k') :
    ∃ s, d = some s ∧ own k' pub = .ok s := by
  rcases h with ⟨h,_⟩ | ⟨k'',s,h,hd,hs⟩
  · rw [h] at hk
    cases hk
  · rw [h,Option.some.injEq] at hk
    exact ⟨s,hd,hk ▸ hs⟩

/-- The input shows the three agreements that are always there. -/
theorem x3dhInput_injective {d1 d2 d3 e1 e2 e3 : S.Secret} {d4 e4 : Option S.Secret}
    (h : x3dhInput d1 d2 d3 d4 = x3dhInput e1 e2 e3 e4) : d1 = e1 ∧ d2 = e2 ∧ d3 = e3 := by
  cases d4 <;> cases e4 <;>
    simp only [x3dhInput,List.cons_append,List.nil_append,List.cons.injEq,Atom.secret.injEq] at h <;>
    exact ⟨h.1,h.2.1,h.2.2.1⟩

/-- What an accepted key agreement has computed on the responder's side. -/
theorem x3dhRecipient_ok {identity spk : S.Priv} {idPub ephPub : Bytes} {opk : Option S.Priv}
    {info : Bytes} {rc : S.Secret × S.Secret}
    (h : x3dhRecipient identity spk idPub ephPub opk info = .ok rc) :
    ∃ d1 d2 d3 d4, dh identity idPub = .ok d1 ∧ dh spk ephPub = .ok d2 ∧ dh spk idPub = .ok d3 ∧
      Fourth dh opk ephPub d4 ∧ rc = x3dhDerive (x3dhInput d1 d2 d3 d4) info := by
  obtain ⟨d1,h1,h⟩ := bind_eq_ok.mp h
  obtain ⟨d2,h2,h⟩ := bind_eq_ok.mp h
  obtain ⟨d3,h3,h⟩ := bind_eq_ok.mp h
  rw [numberedDH_ok] at h1
  cases opk with
  | none => exact ⟨d1,d2,d3,none,h1,h2,h3,.inl ⟨rfl,rfl⟩,(Except.ok.inj h).symm⟩
  | some k =>
      obtain ⟨d4,h4,h⟩ := bind_eq_ok.mp h
      exact ⟨d1,d2,d3,some d4,h1,h2,h3,.inr ⟨k,d4,rfl,rfl,h4⟩,(Except.ok.inj h).symm⟩

theorem x3dhInitiator_ok {identity eph : S.Priv} {bundle : PreKeyBundle} {order : OneTimeKeys}
    {info : Bytes} {rc : S.Secret × S.Secret}
    (h : x3dhInitiator identity eph bundle order info = .ok rc) :
    ∃ d1 d2 d3 d4, dh identity bundle.identityPub = .ok d1 ∧
      dh eph bundle.signedPreKeyPub = .ok d2 ∧ dh identity bundle.signedPreKeyPub = .ok d3 ∧
      ((firstKey order = none ∧ d4 = none) ∨
        ∃ pub s, firstKey order = some pub ∧ d4 = some s ∧ dh eph pub = .ok s) ∧
      rc = x3dhDerive (x3dhInput d1 d2 d3 d4) info := by
  obtain ⟨d1,h1,h⟩ := bind_eq_ok.mp h
  obtain ⟨d2,h2,h⟩ := bind_eq_ok.mp h
  obtain ⟨d3,h3,h⟩ := bind_eq_ok.mp h
  rw [numberedDH_ok] at h1 h2 h3
  cases ho : firstKey order with
  | none =>
      simp only [ho] at h
      exact ⟨d1,d2,d3,none,h1,h2,h3,.inl ⟨rfl,rfl⟩,(Except.ok.inj h).symm⟩
  | some pub =>
      simp only [ho] at h
      obtain ⟨d4,h4,h⟩ := bind_eq_ok.mp h
      rw [numberedDH_ok] at h4
      exact ⟨d1,d2,d3,some d4,h1,h2,h3,.inr ⟨pub,d4,rfl,rfl,h4⟩,(Except.ok.inj h).symm⟩

/-- The state of a session the initiator has opened. -/
theorem aliceSession_ok {fresh : Except Failure S.Priv} {bundle : PreKeyBundle}
    {keyOrder idOrder : OneTimeKeys} {identity : Identity S} {info : Bytes} {r : Ratchet S}
    (h : aliceSession fresh bundle keyOrder idOrder identity info = .ok r) :
    ∃ eph root chain, fresh = .ok eph ∧
      x3dhInitiator identity.dhKey eph bundle keyOrder info = .ok (root,chain) ∧
      r = aliceRatchet eph bundle idOrder identity root chain info := by
  rw [aliceSession] at h
  split at h
  · cases h
  · obtain ⟨eph,heph,h⟩ := bind_eq_ok.mp h
    obtain ⟨⟨root,chain⟩,hx,h⟩ := bind_eq_ok.mp h
    exact ⟨eph,root,chain,heph,hx,(Except.ok.inj h).symm⟩

/-- What an accepted init envelope has passed. -/
theorem bobSession_ok {keys : BobKeys S} {env : Envelope} {info : Bytes} {b : Ratchet S}
    {msg : Bytes} (h : bobSession keys env info = .ok (b,msg)) :
    env.type = envInit ∧ env.identityPub.length = 32 ∧
    S.verify env.identitySigPub (idCertMessage env.identityPub) env.identityCert = true ∧
    ∃ root chain, x3dhRecipient keys.identity.dhKey keys.signedPreKey env.identityPub
        env.ratchetPub keys.oneTimeKey info = .ok (root,chain) ∧
      checkHeader root env.headerEncrypt keys.signedPreID = .ok () ∧
      openMessage env (copy32 env.ratchetPub) (bobRatchet keys env root chain info) =
        (.ok msg,b) := by
  unfold bobSession at h
  split_ifs at h with ht hl hv
  obtain ⟨⟨root,chain⟩,hx,h⟩ := bind_eq_ok.mp h
  obtain ⟨_,hh,h⟩ := bind_eq_ok.mp h
  refine ⟨not_not.mp ht,?_,by simpa using hv,root,chain,hx,hh,?_⟩
  · push Not at hl
    exact hl.1
  · split at h
    · cases h
    · rename_i msg' r' ho
      obtain ⟨rfl,rfl⟩ := Prod.mk.inj (Except.ok.inj h)
      exact ho

theorem verifyBundle_buildBundle (hS : S.Correct) (id : Identity S) (spk : S.Priv) (spkID : UInt32)
    (oneTime : OneTimeKeys) : verifyBundle S (buildBundle id spk spkID oneTime) = none := by
  have hlen : ¬((buildBundle id spk spkID oneTime).identityPub.length ≠ 32 ∨
      (buildBundle id spk spkID oneTime).identitySigPub.length ≠ 32 ∨
      (buildBundle id spk spkID oneTime).signedPreKeyPub.length ≠ 32) := by
    simp [buildBundle,Identity.signPub,hS.public_length,hS.signPublic_length]
  rw [verifyBundle,if_neg hlen]
  simp only [buildBundle,Identity.signPub,Identity.sign,hS.verify_sign]
  rfl

/-- With the same one-time key both sides derive the same pair of keys. -/
theorem x3dh_agrees (hS : S.Correct) (alice eph : S.Priv) (bob : Identity S) (spk : S.Priv)
    (spkID : UInt32) (oneTime order : OneTimeKeys) (opk : Option S.Priv)
    (ho : firstKey order = opk.map S.publicKey) (info : Bytes) :
    ∃ root chain, x3dhInitiator alice eph (buildBundle bob spk spkID oneTime) order info =
        .ok (root,chain) ∧
      x3dhRecipient bob.dhKey spk (S.publicKey alice) (S.publicKey eph) opk info =
        .ok (root,chain) := by
  obtain ⟨d1,ha1,hb1⟩ := dh_honest hS alice bob.dhKey
  obtain ⟨d2,ha2,hb2⟩ := dh_honest hS eph spk
  obtain ⟨d3,ha3,hb3⟩ := dh_honest hS alice spk
  simp only [x3dhInitiator,x3dhRecipient,buildBundle,numberedDH_ok.mpr ha1,numberedDH_ok.mpr ha2,
    numberedDH_ok.mpr ha3,numberedDH_ok.mpr hb1,hb2,hb3,ho]
  cases opk with
  | none => exact ⟨_,_,rfl,rfl⟩
  | some k =>
      obtain ⟨d4,ha4,hb4⟩ := dh_honest hS eph k
      simp only [Option.map_some,numberedDH_ok.mpr ha4,hb4]
      exact ⟨_,_,rfl,rfl⟩

theorem checkHeader_initHeader (hS : S.Correct) (root : S.Secret) (spkID : UInt32) :
    checkHeader root (encryptHeader root (initHeader spkID)) spkID = .ok () := by
  have hbuilt : ∀ f ∈ [bytes 1 initTag,varint 2 spkID.toUInt64], Built f := by
    intro f hf
    rcases List.mem_cons.mp hf with rfl | hf
    · exact .bytes (by decide) (by decide)
    · rw [List.mem_singleton.mp hf]
      exact .varint _ (by decide)
  have hparse : parse (initHeader spkID) = .ok [bytes 1 initTag,varint 2 spkID.toUInt64] :=
    parse_build hbuilt
  have htag : getBytes [bytes 1 initTag,varint 2 spkID.toUInt64] 1 = some initTag := rfl
  have hid : getUint [bytes 1 initTag,varint 2 spkID.toUInt64] 2 = some spkID.toUInt64 := rfl
  rw [checkHeader,decryptHeader_encryptHeader hS]
  simp [bind,Except.bind,hparse,htag,hid]

theorem encrypt_of_sending {r : Ratchet S} (h : r.sendingChain.isSome)
    (fresh : Except Failure S.Priv) (p : Bytes) :
    encrypt fresh p r = (.ok (sealMessage p r),messageSent r) := by
  have hens : ensureSendingChain fresh r = .ok r := if_pos h
  rw [encrypt,hens]

/-- An empty buffer and the expected counter: the key is the chain's next. -/
theorem openMessage_next {env : Envelope} {r : Ratchet S} (pub : Bytes)
    (hidx : r.skipped.lookup ⟨pub,env.prevCount,env.counter⟩ = none)
    (hc : env.counter = r.receivingCounter) :
    openMessage env pub r = (openWithKey (recvKey r) env,advance r) := by
  have hskip : skipUntil pub env.prevCount env.counter r = (none,r) := by
    rw [skipUntil,hc,Nat.sub_self]
    rfl
  rw [openMessage,takeKey]
  simp only [hidx]
  rw [if_neg (by rw [hc]; exact UInt32.lt_irrefl _),hskip]

/-- The receiver with the sender's message key reads the message. -/
theorem openWithKey_sealMessage (hS : S.Correct) (p : Bytes) (r : Ratchet S) :
    openWithKey (sendKey r) (sealMessage p r) = .ok p := by
  show aesGCMDecrypt (expandMessageKey (sendKey r)).1 (expandMessageKey (sendKey r)).2
    (S.gcmSeal (expandMessageKey (sendKey r)).1 (expandMessageKey (sendKey r)).2 p
      (envAAD (envelopeHead r))) (envAAD (envelopeHead r)) = _
  rw [aesGCMDecrypt,hS.open_seal]

/-- The entries of the published map. -/
def published (opks : List (UInt32 × S.Priv)) : OneTimeKeys :=
  opks.map fun e => (e.1,some (S.publicKey e.2))

/-- The responder's keys for an advertised one-time key id. -/
def keysFor (bob : Identity S) (spk : S.Priv) (spkID : UInt32) (opks : List (UInt32 × S.Priv))
    (opkID : UInt32) : BobKeys S :=
  {identity := bob,signedPreKey := spk,signedPreID := spkID,oneTimeKey := opks.lookup opkID,
   oneTimeKeyID := opkID}

/-- The first message of the initiator's session. -/
theorem aliceSession_first (hS : S.Correct) (alice bob : Identity S) (eph spk : S.Priv)
    (spkID : UInt32) (oneTime keyOrder idOrder : OneTimeKeys) (opk : Option S.Priv)
    (ho : firstKey keyOrder = opk.map S.publicKey) (info : Bytes) :
    ∃ root chain, aliceSession (.ok eph) (buildBundle bob spk spkID oneTime) keyOrder idOrder alice
        info = .ok (aliceRatchet eph (buildBundle bob spk spkID oneTime) idOrder alice root chain
          info) ∧
      x3dhRecipient bob.dhKey spk (S.publicKey alice.dhKey) (S.publicKey eph) opk info =
        .ok (root,chain) := by
  obtain ⟨root,chain,ha,hb⟩ := x3dh_agrees hS alice.dhKey eph bob spk spkID oneTime keyOrder opk ho
    info
  refine ⟨root,chain,?_,hb⟩
  rw [aliceSession,verifyBundle_buildBundle hS]
  show (x3dhInitiator alice.dhKey eph _ keyOrder info >>= _) = _
  rw [ha]
  rfl

/-- The responder's state once the first message is read. -/
def accepted (keys : BobKeys S) (env : Envelope) (root chain : S.Secret) (info : Bytes) :
    Ratchet S := advance (bobRatchet keys env root chain info)

/-- An honest first message is accepted by the keys it was made for. -/
theorem bobSession_first (hS : S.Correct) (alice : Identity S) (eph : S.Priv)
    (bundle : PreKeyBundle) (idOrder : OneTimeKeys) (keys : BobKeys S) (root chain : S.Secret)
    (info p : Bytes) (hspk : bundle.signedPreKeyID = keys.signedPreID)
    (hx : x3dhRecipient keys.identity.dhKey keys.signedPreKey (S.publicKey alice.dhKey)
      (S.publicKey eph) keys.oneTimeKey info = .ok (root,chain)) :
    bobSession keys (sealMessage p (aliceRatchet eph bundle idOrder alice root chain info)) info =
      .ok (accepted keys (sealMessage p (aliceRatchet eph bundle idOrder alice root chain info))
        root chain info,p) := by
  set a := aliceRatchet eph bundle idOrder alice root chain info with ha
  set env := sealMessage p a with henv
  have hlen : ¬(env.identityPub.length ≠ 32 ∨ env.identitySigPub.length ≠ 32) := by
    show ¬((S.publicKey alice.dhKey).length ≠ 32 ∨ (S.signPublic alice.signPriv).length ≠ 32)
    simp [hS.public_length,hS.signPublic_length]
  have hcert : S.verify env.identitySigPub (idCertMessage env.identityPub) env.identityCert = true :=
    hS.verify_sign _ _
  have hhead : checkHeader root env.headerEncrypt keys.signedPreID = .ok () := by
    rw [← hspk]
    exact checkHeader_initHeader hS root _
  have hopen : openMessage env (copy32 env.ratchetPub) (bobRatchet keys env root chain info) =
      (.ok p,accepted keys env root chain info) := by
    rw [openMessage_next _ rfl rfl]
    have hkey := openWithKey_sealMessage hS p a
    rw [show recvKey (bobRatchet keys env root chain info) = sendKey a from rfl,← henv] at *
    rw [hkey]
    rfl
  have hx' : x3dhRecipient keys.identity.dhKey keys.signedPreKey env.identityPub env.ratchetPub
      keys.oneTimeKey info = .ok (root,chain) := hx
  rw [bobSession,if_neg (not_not.mpr (show env.type = envInit from rfl)),if_neg hlen,hcert]
  show (x3dhRecipient keys.identity.dhKey keys.signedPreKey env.identityPub env.ratchetPub
      keys.oneTimeKey info >>= _) = _
  rw [hx']
  show (checkHeader root env.headerEncrypt keys.signedPreID >>= _) = _
  rw [hhead]
  have hopen' : openMessage env (bobRatchet keys env root chain info).recvPub
      (bobRatchet keys env root chain info) = (.ok p,accepted keys env root chain info) := hopen
  simp only [bind,Except.bind,hopen']
  rfl

/-- A session with its first message `p`, from the responder's keys to both states. -/
def establish (alice : Identity S) (eph : S.Priv) (keys : BobKeys S)
    (oneTime keyOrder idOrder : OneTimeKeys) (info p : Bytes) :
    Except Failure (Ratchet S × Ratchet S) := do
  let bundle := buildBundle keys.identity keys.signedPreKey keys.signedPreID oneTime
  let a ← aliceSession (.ok eph) bundle keyOrder idOrder alice info
  match encrypt (.error .keyGeneration) p a with
  | (.error e,_) => .error e
  | (.ok env,a) => do
      let (b,_) ← bobSession keys env info
      pure (a,b)

/-- When the responder holds the one-time key the initiator used, both states
come from one pair of keys. -/
theorem establish_eq (hS : S.Correct) (alice : Identity S) (eph : S.Priv) (keys : BobKeys S)
    (oneTime keyOrder idOrder : OneTimeKeys) (info p : Bytes)
    (ho : firstKey keyOrder = keys.oneTimeKey.map S.publicKey) {root chain : S.Secret}
    (hx : x3dhRecipient keys.identity.dhKey keys.signedPreKey (S.publicKey alice.dhKey)
      (S.publicKey eph) keys.oneTimeKey info = .ok (root,chain)) :
    let a := aliceRatchet eph (buildBundle keys.identity keys.signedPreKey keys.signedPreID oneTime)
      idOrder alice root chain info
    establish alice eph keys oneTime keyOrder idOrder info p =
      .ok (messageSent a,accepted keys (sealMessage p a) root chain info) := by
  obtain ⟨root',chain',ha,hx'⟩ := aliceSession_first hS alice keys.identity eph keys.signedPreKey
    keys.signedPreID oneTime keyOrder idOrder keys.oneTimeKey ho info
  obtain ⟨rfl,rfl⟩ := Prod.mk.inj (Except.ok.inj (hx'.symm.trans hx))
  intro a
  rw [establish]
  simp only [ha]
  show (match encrypt (.error .keyGeneration) p a with
    | (.error e,_) => Except.error e
    | (.ok env,a) => do
        let (b,_) ← bobSession keys env info
        pure (a,b)) = _
  have hb := bobSession_first hS alice eph
    (buildBundle keys.identity keys.signedPreKey keys.signedPreID oneTime) idOrder keys root' chain'
    info p rfl hx
  rw [encrypt_of_sending rfl]
  simp only [a,hb]
  rfl

/-- The agreement tells honest peers apart. -/
def Separates (S : Suite) : Prop := ∀ a b c s, S.ecdh a (S.publicKey b) = some s →
  S.ecdh a (S.publicKey c) = some s → S.publicKey b = S.publicKey c

theorem dh_symm (hS : S.Correct) {a b : S.Priv} {s : S.Secret}
    (h : dh a (S.publicKey b) = .ok s) : dh b (S.publicKey a) = .ok s := by
  obtain ⟨t,hab,hba⟩ := dh_honest hS a b
  rw [hba,← hab,h]

theorem separates_dh (hsep : Separates S) {a b c : S.Priv} {s : S.Secret}
    (hb : dh a (S.publicKey b) = .ok s) (hc : dh a (S.publicKey c) = .ok s) :
    S.publicKey b = S.publicKey c := by
  exact hsep a b c s (ecdh_of_dh hb) (ecdh_of_dh hc)

/-- The root key of an accepted session is the derived one. -/
theorem bobSession_rootKey {keys : BobKeys S} {env : Envelope} {info : Bytes} {b : Ratchet S}
    {msg : Bytes} (h : bobSession keys env info = .ok (b,msg)) :
    ∃ d1 d2 d3 d4, dh keys.identity.dhKey env.identityPub = .ok d1 ∧
      dh keys.signedPreKey env.ratchetPub = .ok d2 ∧
      dh keys.signedPreKey env.identityPub = .ok d3 ∧
      Fourth dh keys.oneTimeKey env.ratchetPub d4 ∧
      b.rootKey = (x3dhDerive (x3dhInput d1 d2 d3 d4) info).1 := by
  obtain ⟨_,_,_,root,chain,hx,_,ho⟩ := bobSession_ok h
  obtain ⟨d1,d2,d3,d4,h1,h2,h3,h4,hrc⟩ := x3dhRecipient_ok hx
  have hsame := takeKey_same env (copy32 env.ratchetPub) (bobRatchet keys env root chain info)
  rw [← openMessage_state,ho] at hsame
  exact ⟨d1,d2,d3,d4,h1,h2,h3,h4,hsame.rootKey.trans (congrArg Prod.fst hrc)⟩

theorem lookup_of_mem {opks : List (UInt32 × S.Priv)} (hnd : (opks.map Prod.fst).Nodup)
    {e : UInt32 × S.Priv} (he : e ∈ opks) : opks.lookup e.1 = some e.2 := by
  induction opks with
  | nil => cases he
  | cons x opks ih =>
      rw [List.map_cons,List.nodup_cons] at hnd
      rcases List.mem_cons.mp he with rfl | he
      · exact List.lookup_cons_self
      · have hne : e.1 ≠ x.1 := fun heq => hnd.1 (heq ▸ List.mem_map_of_mem he)
        rw [List.lookup_cons,show (e.1 == x.1) = false from beq_eq_false_iff_ne.mpr hne]
        exact ih hnd.2 he

/-- The first entry of an order is an entry of the map. -/
theorem published_first {opks : List (UInt32 × S.Priv)} {x : UInt32 × Option Bytes}
    {order : OneTimeKeys} (h : (x::order).Perm (published opks)) :
    ∃ e ∈ opks, x = (e.1,some (S.publicKey e.2)) := by
  have hmem : x ∈ published opks := h.mem_iff.mp List.mem_cons_self
  obtain ⟨e,he,rfl⟩ := List.mem_map.mp hmem
  exact ⟨e,he,rfl⟩

theorem exists_order {opks : List (UInt32 × S.Priv)} {e : UInt32 × S.Priv} (he : e ∈ opks) :
    ∃ l, (published (e::l)).Perm (published opks) := by
  obtain ⟨s,t,rfl⟩ := List.append_of_mem he
  exact ⟨s++t,(List.perm_middle.symm).map _⟩

section
variable (alice bob : Identity S) (eph spk : S.Priv) (spkID : UInt32)
variable (opks : List (UInt32 × S.Priv)) (info : Bytes)

/-- The session is established for one pair of orders and every first message. -/
def Establishes (keyOrder idOrder : OneTimeKeys) : Prop :=
  ∀ a, aliceSession (.ok eph) (buildBundle bob spk spkID (published opks)) keyOrder idOrder alice
      info = .ok a → ∀ fresh p e a', encrypt fresh p a = (.ok e,a') →
    ∃ b, bobSession (keysFor bob spk spkID opks e.opkID) e info = .ok (b,p) ∧
      b.rootKey = a'.rootKey ∧ b.recvChain = a'.sendingChain

/-- Whatever key the orders select, the responder's lookup finds its equal. -/
theorem firstKey_lookup (hnd : (opks.map Prod.fst).Nodup)
    (hone : ∀ e ∈ opks, ∀ e' ∈ opks, S.publicKey e.2 = S.publicKey e'.2)
    {keyOrder idOrder : OneTimeKeys} (hk : keyOrder.Perm (published opks))
    (hi : idOrder.Perm (published opks)) :
    firstKey keyOrder = (opks.lookup (firstID idOrder)).map S.publicKey := by
  cases keyOrder with
  | nil =>
      have hnil : opks = [] := List.map_eq_nil_iff.mp hk.nil_eq.symm
      subst hnil
      rfl
  | cons x keyOrder =>
      cases idOrder with
      | nil => exact absurd (hi.nil_eq ▸ hk.length_eq) (by simp)
      | cons y idOrder =>
          obtain ⟨e,he,rfl⟩ := published_first hk
          obtain ⟨e',he',rfl⟩ := published_first hi
          show some (S.publicKey e.2) = (opks.lookup e'.1).map S.publicKey
          rw [lookup_of_mem hnd he',Option.map_some,hone e he e' he']

theorem establishes_of_lookup (hS : S.Correct) {keyOrder idOrder : OneTimeKeys}
    (hfirst : firstKey keyOrder = (opks.lookup (firstID idOrder)).map S.publicKey) :
    Establishes alice bob eph spk spkID opks info keyOrder idOrder := by
  intro a ha fresh p e a' he
  obtain ⟨root,chain,ha',hx⟩ := aliceSession_first hS alice bob eph spk spkID (published opks)
    keyOrder idOrder _ hfirst info
  obtain rfl := Except.ok.inj (ha'.symm.trans ha)
  obtain ⟨h₁,rfl⟩ := Prod.mk.inj ((encrypt_of_sending rfl fresh p).symm.trans he)
  obtain rfl := Except.ok.inj h₁
  exact ⟨_,bobSession_first hS alice eph _ idOrder (keysFor bob spk spkID opks (firstID idOrder))
    root chain info p rfl hx,rfl,rfl⟩

/-- Every order of the two range statements establishes the session exactly when
the published one-time keys are all one key. -/
theorem session_established_iff (hS : S.Correct) (hF : S.Free) (hsep : Separates S)
    (hnd : (opks.map Prod.fst).Nodup) :
    (∀ keyOrder idOrder, keyOrder.Perm (published opks) → idOrder.Perm (published opks) →
      Establishes alice bob eph spk spkID opks info keyOrder idOrder) ↔
    ∀ e ∈ opks, ∀ e' ∈ opks, S.publicKey e.2 = S.publicKey e'.2 := by
  constructor
  · intro hall e he e' he'
    -- one range starts at `e`, the other at `e'`
    obtain ⟨l,hl⟩ := exists_order he
    obtain ⟨l',hl'⟩ := exists_order he'
    obtain ⟨root,chain,ha,hx⟩ := aliceSession_first hS alice bob eph spk spkID (published opks)
      (published (e::l)) (published (e'::l')) (some e.2) rfl info
    obtain ⟨b,hb,hroot,_⟩ := hall _ _ hl hl' _ ha (.ok eph) [] _ _ (encrypt_of_sending rfl _ _)
    obtain ⟨d1,d2,d3,d4,_,_,_,h4,hrc⟩ := x3dhRecipient_ok hx
    obtain ⟨c1,c2,c3,c4,_,_,_,g4,hbc⟩ := bobSession_rootKey hb
    have hinput : x3dhInput c1 c2 c3 c4 = x3dhInput d1 d2 d3 d4 := by
      refine x3dhDerive_injective hF (show (x3dhDerive _ info).1 = (x3dhDerive _ info).1 from ?_)
      rw [← hbc,hroot,← hrc]
      rfl
    obtain ⟨s,rfl,hs⟩ := h4.of_some rfl
    obtain ⟨t,rfl,ht⟩ := g4.of_some (lookup_of_mem hnd he')
    simp only [x3dhInput,List.cons.injEq,Atom.secret.injEq,and_true] at hinput
    rw [hinput.2.2.2] at ht
    exact separates_dh hsep (dh_symm hS hs) (dh_symm hS ht)
  · intro hone keyOrder idOrder hk hi
    exact establishes_of_lookup alice bob eph spk spkID opks info hS
      (firstKey_lookup opks hnd hone hk hi)

end

/-! One initiator and one responder over the symbolic suite. -/

def sampleAlice : Identity SymbolicSuite.suite := ⟨(1 : UInt8),(2 : UInt8),7⟩
def sampleBob : Identity SymbolicSuite.suite := ⟨(3 : UInt8),(4 : UInt8),9⟩
def sampleInfo : Bytes := text "BaturWhatsApi/1"

def oneKey : List (UInt32 × SymbolicSuite.suite.Priv) := [(1,(21 : UInt8))]
def twoKeys : List (UInt32 × SymbolicSuite.suite.Priv) := [(1,(21 : UInt8)),(2,(22 : UInt8))]

def sampleBobKeys : BobKeys SymbolicSuite.suite :=
  {identity := sampleBob,signedPreKey := (6 : UInt8),signedPreID := 11,
   oneTimeKey := some (21 : UInt8),oneTimeKeyID := 1}

/-- The root and chain keys of the sample session. -/
def sampleSecrets : SymbolicSuite.Term × SymbolicSuite.Term :=
  x3dhDerive (S := SymbolicSuite.suite)
    (x3dhInput (.agreed 1 3) (.agreed 5 6) (.agreed 1 6) (some (.agreed 5 21))) sampleInfo

def sampleStart : Ratchet SymbolicSuite.suite :=
  aliceRatchet (5 : UInt8) (buildBundle sampleBob (6 : UInt8) 11 (published oneKey))
    (published oneKey) sampleAlice sampleSecrets.1 sampleSecrets.2 sampleInfo

def sampleSender : Ratchet SymbolicSuite.suite := messageSent sampleStart

def sampleReceiver : Ratchet SymbolicSuite.suite :=
  accepted sampleBobKeys (sealMessage (text "hello") sampleStart) sampleSecrets.1 sampleSecrets.2
    sampleInfo

theorem sampleReceiver_session :
    bobSession sampleBobKeys (sealMessage (text "hello") sampleStart) sampleInfo =
      .ok (sampleReceiver,text "hello") :=
  bobSession_first SymbolicSuite.suite_correct sampleAlice (5 : UInt8)
    (buildBundle sampleBob (6 : UInt8) 11 (published oneKey)) (published oneKey) sampleBobKeys
    sampleSecrets.1 sampleSecrets.2 sampleInfo (text "hello") rfl rfl

theorem sample_established :
    establish sampleAlice (5 : UInt8) sampleBobKeys (published oneKey) (published oneKey)
      (published oneKey) sampleInfo (text "hello") = .ok (sampleSender,sampleReceiver) :=
  establish_eq SymbolicSuite.suite_correct sampleAlice (5 : UInt8) sampleBobKeys (published oneKey)
    (published oneKey) (published oneKey) sampleInfo (text "hello") rfl rfl

theorem symbolic_separates : Separates SymbolicSuite.suite := by
  intro a b c s hb hc
  exact congrArg _ (SymbolicSuite.agreement_injective (hb.trans hc.symm))

theorem session_established_oneKey :
    Establishes sampleAlice sampleBob (5 : UInt8) (6 : UInt8) 11 oneKey sampleInfo
      (published oneKey) (published oneKey) :=
  (session_established_iff sampleAlice sampleBob (5 : UInt8) (6 : UInt8) 11 oneKey sampleInfo
    SymbolicSuite.suite_correct SymbolicSuite.suite_free symbolic_separates (by decide)).mpr
    (by decide +kernel) _ _ (List.Perm.refl _) (List.Perm.refl _)

/-- Two one-time keys, the key range starting at the first and the id range at
the second: the responder's first message does not open. -/
theorem session_twoKeys_broken :
    (published twoKeys.reverse).Perm (published twoKeys) ∧
    ¬Establishes sampleAlice sampleBob (5 : UInt8) (6 : UInt8) 11 twoKeys sampleInfo
      (published twoKeys) (published twoKeys.reverse) := by
  refine ⟨(List.reverse_perm twoKeys).map _,fun h => ?_⟩
  have ha : aliceSession (.ok (5 : UInt8)) (buildBundle sampleBob (6 : UInt8) 11 (published twoKeys))
      (published twoKeys) (published twoKeys.reverse) sampleAlice sampleInfo = .ok _ := rfl
  obtain ⟨b,hb,_⟩ := h _ ha (.error .keyGeneration) (text "hello") _ _ (encrypt_of_sending rfl _ _)
  have hok := (congrArg Except.isOk hb).trans (show (Except.ok (b,text "hello")).isOk = true from rfl)
  exact absurd hok (by decide +kernel)

end BaturWhatsApi.SessionAgreement
