import BaturWhatsApi.SessionAgreement

/-!
# What an accepted init envelope authenticates

The certificate ties the identity key to the signing key that comes with it, the
key agreement ties the session to the identity key, and the sealed body ties the
plaintext to the session. The signing key itself and the registration id are tied
to nothing: anybody can certify the initiator's identity key under a signing key
of his own, and the responder reports that key as his peer's.

The network is described by what it can make of the honest traffic: the secrets it
holds, which contain a hash only together with everything hashed, the messages the
initiator has signed, the bundles it has handed out, and the messages that honest parties
have sealed in whatever sessions they hold. That two different pairs of keys do not agree
on the same secrets is asked of the keys and bundles of this traffic only: on a curve every
key agrees with some point on any given secret.
-/
namespace BaturWhatsApi.InitAuthenticity
open ByteStrings CipherSuite RatchetModel SessionSetup RatchetSteps SessionAgreement KeyChains
open DerivedKeys Fallible

variable {S : Suite}

/-! ### Sessions of honest parties -/

/-- The states that a party with this identity can be in when it is given these bundles. -/
inductive Holds (bundles : PreKeyBundle → Prop) (id : Identity S) : Ratchet S → Prop
  | initiate {fresh : Except Failure S.Priv} {bundle : PreKeyBundle}
      {keyOrder idOrder : OneTimeKeys} {info : Bytes} {r : Ratchet S} (hb : bundles bundle)
      (h : aliceSession fresh bundle keyOrder idOrder id info = .ok r) : Holds bundles id r
  | respond {keys : BobKeys S} {env : Envelope} {info msg : Bytes} {r : Ratchet S}
      (hk : keys.identity = id) (h : bobSession keys env info = .ok (r,msg)) : Holds bundles id r
  | send {r : Ratchet S} (h : Holds bundles id r) (fresh : Except Failure S.Priv) (p : Bytes) :
      Holds bundles id (encrypt fresh p r).2
  | receive {r : Ratchet S} (h : Holds bundles id r) (env : Envelope) :
      Holds bundles id (decrypt env r).2

/-- Where a sending chain starts: at a ratchet step, or in a key agreement that
the party began with its identity key and a bundle. -/
def SendOrigin (bundles : PreKeyBundle → Prop) (id : Identity S) (o : S.Secret) : Prop :=
  (∃ ρ δ, o = (kdfRoot ρ δ).2) ∨
  ∃ bundle d1 d2 d3 d4 info, bundles bundle ∧ dh id.dhKey bundle.identityPub = .ok d1 ∧
    dh id.dhKey bundle.signedPreKeyPub = .ok d3 ∧
    o = (x3dhDerive (x3dhInput d1 d2 d3 d4) info).2

def Traced (bundles : PreKeyBundle → Prop) (id : Identity S) (r : Ratchet S) : Prop :=
  ∀ c, r.sendingChain = some c → ∃ n o, SendOrigin bundles id o ∧ c = nextChain^[n] o

section
variable {bundles : PreKeyBundle → Prop} {id : Identity S}

theorem Traced.congr {r r' : Ratchet S} (h : Traced bundles id r)
    (heq : r'.sendingChain = r.sendingChain) : Traced bundles id r' := by
  rw [Traced,heq]
  exact h

theorem Traced.ensure {fresh : Except Failure S.Priv} {r r' : Ratchet S}
    (h : Traced bundles id r) (hens : ensureSendingChain fresh r = .ok r') :
    Traced bundles id r' := by
  rcases ensureSendingChain_ok hens with ⟨_,rfl⟩ | ⟨_,nk,out,_,_,rfl⟩
  · exact h
  · intro c hc
    obtain rfl := Option.some.inj hc
    exact ⟨0,_,.inl ⟨_,_,rfl⟩,rfl⟩

/-- After the chain is ensured there is one. -/
theorem ensure_isSome {fresh : Except Failure S.Priv} {r r' : Ratchet S}
    (hens : ensureSendingChain fresh r = .ok r') : ∃ c, r'.sendingChain = some c := by
  rcases ensureSendingChain_ok hens with ⟨hsome,rfl⟩ | ⟨_,nk,out,_,_,rfl⟩
  · exact Option.isSome_iff_exists.mp hsome
  · exact ⟨_,rfl⟩

theorem Traced.encrypt {r : Ratchet S} (h : Traced bundles id r)
    (fresh : Except Failure S.Priv) (p : Bytes) : Traced bundles id (encrypt fresh p r).2 := by
  rcases encrypt_outcome fresh p r with ⟨r',hens,henc⟩ | ⟨e,henc⟩
  · rw [henc]
    obtain ⟨c',hc'⟩ := ensure_isSome hens
    obtain ⟨n,o,ho,hn⟩ := h.ensure hens c' hc'
    intro c hc
    refine ⟨n+1,o,ho,?_⟩
    rw [Function.iterate_succ_apply',← hn]
    have hnext : some (kdfChain (keyInput r'.sendingChain)).2 = some c := hc
    rw [hc'] at hnext
    exact (Option.some.inj hnext).symm
  · rw [henc]
    exact h

/-- A received envelope leaves the sending chain or retires it. -/
theorem decrypt_sendingChain (env : Envelope) (r : Ratchet S) :
    (decrypt env r).2.sendingChain = r.sendingChain ∨ (decrypt env r).2.sendingChain = none := by
  rw [RatchetModel.decrypt]
  by_cases hstep : stepNeeded env r
  · simp only [hstep,if_true]
    have hold := skipOldChain_same env.prevCount r
    have hout := recvRatchetStep_outcome (copy32 env.ratchetPub) env.prevCount r
    generalize recvRatchetStep (copy32 env.ratchetPub) env.prevCount r = out at hout ⊢
    cases hout with
    | full hs =>
        rw [hs] at hold
        exact .inl hold.sendingChain
    | noIdentity _ _ => exact .inr rfl
    | refused _ _ _ => exact .inr rfl
    | stepped _ _ _ =>
        simp only [openMessage_state]
        exact .inr (takeKey_same env _ _).sendingChain
  · simp only [hstep,Bool.false_eq_true,if_false,openMessage_state]
    exact .inl (takeKey_same env _ r).sendingChain

/-- Every sending chain of an honest party is traced to its origin. -/
theorem Holds.traced {r : Ratchet S} (h : Holds bundles id r) : Traced bundles id r := by
  induction h with
  | @initiate _ bundle _ _ info _ hgiven h =>
      obtain ⟨eph,root,chain,_,hx,rfl⟩ := aliceSession_ok h
      obtain ⟨d1,d2,d3,d4,h1,_,h3,_,hrc⟩ := x3dhInitiator_ok hx
      intro c hc
      obtain rfl : chain = c := Option.some.inj hc
      exact ⟨0,chain,.inr ⟨bundle,d1,d2,d3,d4,info,hgiven,h1,h3,congrArg Prod.snd hrc⟩,rfl⟩
  | @respond keys env info msg _ _ h =>
      obtain ⟨_,_,_,root,chain,_,_,ho⟩ := bobSession_ok h
      have hsame := takeKey_same env (copy32 env.ratchetPub) (bobRatchet keys env root chain info)
      rw [← openMessage_state,ho] at hsame
      intro c hc
      have hnone : none = some c := hsame.sendingChain.symm.trans hc
      cases hnone
  | send _ fresh p ih => exact ih.encrypt fresh p
  | @receive r _ env ih =>
      rcases decrypt_sendingChain env r with hsame | hnone
      · exact ih.congr hsame
      · intro c hc
        rw [hnone] at hc
        cases hc

end

/-! ### The network -/

structure Network (alice : Identity S) where
  knows : S.Secret → Prop
  /-- The messages signed by the initiator. -/
  signed : Bytes → Prop
  /-- A plaintext with the party and the state that sealed it. -/
  sent : Identity S → Ratchet S → Bytes → Prop
  /-- The bundles that the parties were given. -/
  bundles : PreKeyBundle → Prop
  one_way : ∀ k d s, knows (S.hmac k d) → (Atom.secret s ∈ k ∨ Atom.secret s ∈ d) → knows s
  /-- The two kinds of message the code signs. -/
  certificates : ∀ m, signed m → m = idCertMessage (S.publicKey alice.dhKey) ∨
    ∃ cert pub id, m = spkCertMessage cert pub id
  honest : ∀ id r p, sent id r p →
    ∃ fresh r₀, Holds bundles id r₀ ∧ ensureSendingChain fresh r₀ = .ok r

variable {alice : Identity S}

/-- The certificate is not forged, and the body is sealed under a key the network
holds or is a body that an honest party sealed. -/
structure Network.CanSend (net : Network alice) (env : Envelope) : Prop where
  unforged : ∀ m, S.verify alice.signPub m env.identityCert = true → net.signed m
  ideal : ∀ k n ad p, S.gcmOpen k n env.body ad = some p → net.knows k ∨
    ∃ id r, net.sent id r p ∧ (expandMessageKey (sendKey r)).1 = k

/-- The plaintext was sealed by the owner of the initiator's identity key, and the
reported identity is the initiator's. -/
def Authentic (net : Network alice) (b : Ratchet S) (msg : Bytes) : Prop :=
  (∃ id r, net.sent id r msg ∧ S.publicKey id.dhKey = S.publicKey alice.dhKey) ∧
    peerIdentity b = (S.publicKey alice.dhKey,alice.signPub,alice.regID)

/-- Of the parties that have sealed something, with the bundles that were given to them, only the
owner of the initiator's identity key makes her two agreements with the responder's keys. -/
def Network.Exclusive (net : Network alice) (identity spk : S.Priv) : Prop :=
  ∀ id r p bundle d1 d3, net.sent id r p → net.bundles bundle →
    dh id.dhKey bundle.identityPub = .ok d1 → dh id.dhKey bundle.signedPreKeyPub = .ok d3 →
    dh identity (S.publicKey alice.dhKey) = .ok d1 → dh spk (S.publicKey alice.dhKey) = .ok d3 →
    S.publicKey id.dhKey = S.publicKey alice.dhKey

theorem idCertMessage_injective {a b : Bytes} (h : idCertMessage a = idCertMessage b) : a = b :=
  List.append_cancel_left h

/-- The two tags differ at their eleventh byte. -/
theorem idCertMessage_ne_spkCertMessage (a cert pub : Bytes) (id : UInt32) :
    idCertMessage a ≠ spkCertMessage cert pub id := by
  intro h
  have htake := congrArg (List.take 11) h
  rw [idCertMessage,spkCertMessage,List.append_assoc,List.append_assoc,
    List.take_append_of_le_length (by decide),List.take_append_of_le_length (by decide)] at htake
  revert htake
  decide

/-- Only the initiator's own key is certified under her signing key. -/
theorem Network.CanSend.identity {net : Network alice} {env : Envelope} (h : net.CanSend env)
    (hsig : env.identitySigPub = alice.signPub)
    (hv : S.verify env.identitySigPub (idCertMessage env.identityPub) env.identityCert = true) :
    env.identityPub = S.publicKey alice.dhKey := by
  rw [hsig] at hv
  rcases net.certificates _ (h.unforged _ hv) with hid | ⟨cert,pub,id,hspk⟩
  · exact idCertMessage_injective hid
  · exact absurd hspk (idCertMessage_ne_spkCertMessage _ _ _ _)

section
variable (net : Network alice)

theorem Network.knows_msgKey {k : S.Secret} (h : net.knows (expandMessageKey k).1) :
    net.knows k :=
  net.one_way _ _ _ (net.one_way _ _ _ h (.inl List.mem_cons_self)) (.inr List.mem_cons_self)

/-- Who holds a later key of a chain holds the chain. -/
theorem Network.knows_iterate {c : S.Secret} (n : ℕ) (h : net.knows (nextChain^[n] c)) :
    net.knows c := by
  induction n with
  | zero => exact h
  | succ n ih =>
      rw [Function.iterate_succ_apply'] at h
      exact ih (net.one_way _ _ _ h (.inl List.mem_cons_self))

/-- The first chain needs the first agreement. -/
theorem Network.knows_chain {d1 d2 d3 : S.Secret} {d4 : Option S.Secret} {info : Bytes}
    (h : net.knows (x3dhDerive (x3dhInput d1 d2 d3 d4) info).2) : net.knows d1 := by
  refine net.one_way _ _ _ (net.one_way _ _ _ h (.inl List.mem_cons_self)) (.inr ?_)
  cases d4 with
  | none => exact List.mem_cons_self
  | some d4 => exact List.mem_cons_self

end

/-- The message of an accepted envelope was opened with a key of the agreed chain. -/
theorem openMessage_first_key {keys : BobKeys S} {env : Envelope} {root chain : S.Secret}
    {info msg : Bytes} {b : Ratchet S}
    (h : openMessage env (copy32 env.ratchetPub) (bobRatchet keys env root chain info) =
      (.ok msg,b)) :
    ∃ n, openWithKey (messageKey (nextChain^[n] chain)) env = .ok msg := by
  rw [openMessage] at h
  have hout := takeKey_outcome env (copy32 env.ratchetPub) (bobRatchet keys env root chain info)
  generalize takeKey env (copy32 env.ratchetPub) (bobRatchet keys env root chain info) = out
    at h hout
  cases hout with
  | stored hl => cases hl
  | old _ _ => cases h
  | full _ _ _ => cases h
  | next _ _ hs =>
      obtain ⟨rfl,_⟩ := skipUntil_none _ _ hs
      refine ⟨env.counter.toNat-(bobRatchet keys env root chain info).receivingCounter.toNat,?_⟩
      have hkey := congrArg Prod.fst h
      simp only [recvKey,iterate_chain (copy32 env.ratchetPub) env.prevCount _
        (show (bobRatchet keys env root chain info).recvChain = some chain from rfl)] at hkey
      exact hkey

theorem openWithKey_ok {k : S.Secret} {env : Envelope} {msg : Bytes}
    (h : openWithKey k env = .ok msg) :
    S.gcmOpen (expandMessageKey k).1 (expandMessageKey k).2 env.body (envAAD env) = some msg := by
  rw [openWithKey,aesGCMDecrypt] at h
  cases ho : S.gcmOpen (expandMessageKey k).1 (expandMessageKey k).2 env.body (envAAD env) with
  | none =>
      rw [ho] at h
      cases h
  | some p =>
      rw [ho] at h
      rw [Except.ok.inj h]

/-- A key of a responder's first chain is used by nobody but its initiator. -/
theorem sender_of_sendKey (hF : S.Free) {bundles : PreKeyBundle → Prop} {id : Identity S}
    {r : Ratchet S} {n : ℕ} {d1 d2 d3 : S.Secret} {d4 : Option S.Secret} {info : Bytes}
    {fresh : Except Failure S.Priv} {r₀ : Ratchet S} (h : Holds bundles id r₀)
    (hens : ensureSendingChain fresh r₀ = .ok r)
    (hkey : sendKey r = messageKey (nextChain^[n] (x3dhDerive (x3dhInput d1 d2 d3 d4) info).2)) :
    ∃ bundle, bundles bundle ∧ dh id.dhKey bundle.identityPub = .ok d1 ∧
      dh id.dhKey bundle.signedPreKeyPub = .ok d3 := by
  obtain ⟨c,hc⟩ := ensure_isSome hens
  obtain ⟨m,o,ho,rfl⟩ := h.traced.ensure hens c hc
  rw [sendKey,hc] at hkey
  have hchain : nextChain^[m] o = nextChain^[n] (x3dhDerive (x3dhInput d1 d2 d3 d4) info).2 :=
    (chains hF).key_injective hkey
  have horigin := x3dhDerive_origin hF (x3dhInput d1 d2 d3 d4) info
  rcases ho with ⟨ρ,δ,rfl⟩ | ⟨bundle,e1,e2,e3,e4,info',hgiven,h1,h3,rfl⟩
  · exact absurd (iterate_origin (kdfRoot_origin hF ρ δ) horigin hchain)
      (kdfRoot_ne_x3dhDerive hF ρ δ _ _)
  · have hinput := x3dhDerive_chain_injective hF
      (iterate_origin (x3dhDerive_origin hF _ info') horigin hchain)
    obtain ⟨rfl,_,rfl⟩ := x3dhInput_injective hinput
    exact ⟨bundle,hgiven,h1,h3⟩

/-- Who presents the initiator's identity key cannot make the plaintext. -/
theorem Network.CanSend.plaintext (hF : S.Free) {net : Network alice} {env : Envelope}
    (h : net.CanSend env) {keys : BobKeys S} {info msg : Bytes} {b : Ratchet S}
    (hb : bobSession keys env info = .ok (b,msg))
    (hid : env.identityPub = S.publicKey alice.dhKey)
    (hown : net.Exclusive keys.identity.dhKey keys.signedPreKey)
    (hsecret : ∀ s, dh keys.identity.dhKey (S.publicKey alice.dhKey) = .ok s → ¬net.knows s) :
    ∃ id r, net.sent id r msg ∧ S.publicKey id.dhKey = S.publicKey alice.dhKey := by
  obtain ⟨_,_,_,root,chain,hx,_,ho⟩ := bobSession_ok hb
  obtain ⟨d1,d2,d3,d4,h1,_,h3,_,hrc⟩ := x3dhRecipient_ok hx
  obtain rfl : chain = (x3dhDerive (x3dhInput d1 d2 d3 d4) info).2 := congrArg Prod.snd hrc
  obtain ⟨n,hk⟩ := openMessage_first_key ho
  rw [hid] at h1 h3
  rcases h.ideal _ _ _ _ (openWithKey_ok hk) with hknows | ⟨id,r,hr,hkey⟩
  · have hchain := net.knows_iterate n (net.one_way _ _ _ (net.knows_msgKey hknows)
      (.inl List.mem_cons_self))
    exact absurd (net.knows_chain hchain) (hsecret d1 h1)
  · obtain ⟨fresh,r₀,hold,hens⟩ := net.honest id r msg hr
    obtain ⟨bundle,hgiven,g1,g3⟩ := sender_of_sendKey hF hold hens
      (expandMessageKey_injective hF hkey)
    exact ⟨id,r,hr,hown id r msg bundle d1 d3 hr hgiven g1 g3 h1 h3⟩

/-- The responder reports the fields of the envelope. -/
theorem bobSession_peer {keys : BobKeys S} {env : Envelope} {info msg : Bytes} {b : Ratchet S}
    (hb : bobSession keys env info = .ok (b,msg)) :
    peerIdentity b = (env.identityPub,env.identitySigPub,env.regID) := by
  obtain ⟨_,_,_,root,chain,_,_,ho⟩ := bobSession_ok hb
  have hsame := takeKey_same env (copy32 env.ratchetPub) (bobRatchet keys env root chain info)
  rw [← openMessage_state,ho] at hsame
  exact hsame.peer

/-- The initiator's first envelope carries her own identity. -/
theorem init_identity {fresh fresh' : Except Failure S.Priv} {bundle : PreKeyBundle}
    {keyOrder idOrder : OneTimeKeys} {info p : Bytes} {a a' : Ratchet S} {env : Envelope}
    (ha : aliceSession fresh bundle keyOrder idOrder alice info = .ok a)
    (henv : encrypt fresh' p a = (.ok env,a')) :
    env.identitySigPub = alice.signPub ∧ env.regID = alice.regID := by
  obtain ⟨eph,root,chain,_,_,rfl⟩ := aliceSession_ok ha
  obtain ⟨h,_⟩ := Prod.mk.inj ((encrypt_of_sending rfl fresh' p).symm.trans henv)
  obtain rfl := Except.ok.inj h
  exact ⟨rfl,rfl⟩

/-- An accepted variant of the initiator's envelope is authentic exactly when its
signing key and its registration id are hers. -/
theorem init_authentic_iff (hF : S.Free) (net : Network alice)
    {bob : Identity S} {spk : S.Priv} {spkID : UInt32} {oneTime keyOrder idOrder : OneTimeKeys}
    {fresh fresh' : Except Failure S.Priv} {info p : Bytes} {a a' : Ratchet S} {env : Envelope}
    (ha : aliceSession fresh (buildBundle bob spk spkID oneTime) keyOrder idOrder alice info = .ok a)
    (henv : encrypt fresh' p a = (.ok env,a'))
    (hown : net.Exclusive bob.dhKey spk)
    (hsecret : ∀ s, dh bob.dhKey (S.publicKey alice.dhKey) = .ok s → ¬net.knows s)
    {opk : Option S.Priv} {opkID : UInt32} {env' : Envelope} (hsend : net.CanSend env')
    {b : Ratchet S} {msg : Bytes}
    (hb : bobSession ⟨bob,spk,spkID,opk,opkID⟩ env' info = .ok (b,msg)) :
    Authentic net b msg ↔
      env'.identitySigPub = env.identitySigPub ∧ env'.regID = env.regID := by
  obtain ⟨hsig,hreg⟩ := init_identity ha henv
  have hpeer := bobSession_peer hb
  rw [hsig,hreg,Authentic,hpeer]
  constructor
  · rintro ⟨_,h⟩
    obtain ⟨_,h⟩ := Prod.mk.inj h
    exact Prod.mk.inj h
  · rintro ⟨hs,hr⟩
    have hid := hsend.identity hs (bobSession_ok hb).2.2.1
    exact ⟨hsend.plaintext hF hb hid hown hsecret,by rw [hid,hs,hr]⟩

/-! The sample initiator's first envelope and a network that has seen nothing else. -/

def sampleInit : Envelope := sealMessage (text "hello") sampleStart

theorem sampleStart_session :
    aliceSession (.ok (5 : UInt8)) (buildBundle sampleBob (6 : UInt8) 11 (published oneKey))
      (published oneKey) (published oneKey) sampleAlice sampleInfo = .ok sampleStart := rfl

def sampleNetwork : Network sampleAlice where
  knows _ := False
  signed m := m = idCertMessage (SymbolicSuite.publicOf 1)
  sent id r p := id = sampleAlice ∧ r = sampleStart ∧ p = text "hello"
  bundles bundle := bundle = buildBundle sampleBob (6 : UInt8) 11 (published oneKey)
  one_way _ _ _ h _ := h
  certificates _ h := .inl h
  honest := by
    rintro id r p ⟨rfl,rfl,_⟩
    exact ⟨.error .keyGeneration,sampleStart,.initiate rfl sampleStart_session,rfl⟩

/-- The network can send the sample body with any certificate it has not forged. -/
theorem sampleNetwork_canSend {env : Envelope} (hbody : env.body = sampleInit.body)
    (hcert : ∀ m, SymbolicSuite.verified (SymbolicSuite.publicOf 2) m env.identityCert = true →
      m = idCertMessage (SymbolicSuite.publicOf 1)) : sampleNetwork.CanSend env where
  unforged := hcert
  ideal k n ad p h := by
    have hopen : env.body = SymbolicSuite.stamp k n ad++p := SymbolicSuite.opened_iff.mp h
    have hseal : sampleInit.body = SymbolicSuite.stamp (expandMessageKey (sendKey sampleStart)).1
        (expandMessageKey (sendKey sampleStart)).2 (envAAD (envelopeHead sampleStart))++
          text "hello" := rfl
    obtain ⟨rfl,_,_,rfl⟩ := SymbolicSuite.stamp_append (hseal.symm.trans (hbody.symm.trans hopen))
    exact .inr ⟨sampleAlice,sampleStart,⟨rfl,rfl,rfl⟩,rfl⟩

/-- A changed previous counter goes unnoticed and does no harm. -/
theorem init_authentic_prevCount :
    ∃ b, bobSession sampleBobKeys {sampleInit with prevCount := 5} sampleInfo =
      .ok (b,text "hello") ∧ Authentic sampleNetwork b (text "hello") := by
  have hmsg : (bobSession sampleBobKeys {sampleInit with prevCount := 5} sampleInfo).map Prod.snd =
      .ok (text "hello") := by decide +kernel
  obtain ⟨⟨b,msg⟩,hb,rfl⟩ := map_eq_ok.mp hmsg
  have hsend : sampleNetwork.CanSend {sampleInit with prevCount := 5} :=
    sampleNetwork_canSend rfl fun m h => (SymbolicSuite.verified_cons h).2.symm
  refine ⟨b,hb,?_⟩
  have hown : sampleNetwork.Exclusive sampleBob.dhKey (6 : UInt8) := by
    rintro id r p bundle d1 d3 ⟨rfl,_⟩ _ _ _ _ _
    rfl
  exact (init_authentic_iff SymbolicSuite.suite_free sampleNetwork
    sampleStart_session (encrypt_of_sending rfl (.error .keyGeneration) (text "hello"))
    hown (fun _ _ h => h) hsend hb).mpr ⟨rfl,rfl⟩

/-- A certificate of a stranger over the initiator's key: the responder accepts,
and reports the stranger's signing key and registration id. -/
theorem init_identity_replaced :
    let env' : Envelope := {sampleInit with
      identitySigPub := SymbolicSuite.publicOf 99
      identityCert := 99::idCertMessage (SymbolicSuite.publicOf 1)
      regID := 1000}
    sampleNetwork.CanSend env' ∧
    (bobSession sampleBobKeys env' sampleInfo).map (fun x => (x.2,peerIdentity x.1)) =
      .ok (text "hello",SymbolicSuite.publicOf 1,SymbolicSuite.publicOf 99,1000) ∧
    sampleAlice.signPub = SymbolicSuite.publicOf 2 ∧ sampleAlice.regID = 7 := by
  refine ⟨sampleNetwork_canSend rfl ?_,by decide +kernel,rfl,rfl⟩
  intro m h
  exact absurd (SymbolicSuite.verified_cons h).1 (by decide)

end BaturWhatsApi.InitAuthenticity
