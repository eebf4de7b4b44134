import BaturWhatsApi.MessageChains
import BaturWhatsApi.TextRelay

/-!
# One text on its way through the server

A call of `SendText` seals the message that is due in the epoch of its target, from a stored
session or from a new one. The server, which never sends, waits for a message of one epoch: it
reads that message and any later one, refuses the one it has read last, and cannot step into
another epoch, because it has no key pair to step with. An init envelope always begins a session.
-/
namespace BaturWhatsApi.RelayedMessages
open ByteStrings CipherSuite RatchetModel SessionSetup RatchetSteps SessionAgreement MessageChains
open RatchetStorage SendText EnvelopeWire NodeEncoder StringCodec Encodability
open TextRelay

variable {S : Suite}

/-! ### The calls -/

/-- The checks that end a call before a session is loaded. -/
def refused (c : Call S) : Bool :=
  match c.request.session with
  | none => true
  | some creds => c.request.target.isEmpty || creds.identitySeed.isEmpty ||
      creds.identitySigSeed.isEmpty || c.request.getError.isSome

/-- A provisioned session, the bundle of the server and an ephemeral key. -/
structure Proper (F : Seeds S) (V : Server S) (c : Call S) : Prop where
  identity : ∀ creds ∈ c.request.session, ∃ id,
    restoreIdentity F creds.identitySeed creds.identitySigSeed creds.registrationID = .ok id
  bundle : ∃ oneTime, c.request.bundles = some (.ok (buildBundle V.keys.identity
    V.keys.signedPreKey V.keys.signedPreID oneTime))
  oneTime : firstKey c.request.keyOrder = V.keys.oneTimeKey.map S.publicKey
  ephemeral : ∃ eph, c.request.ephemeral = .ok eph
  writable : ∀ s ∈ [c.msgID,c.pushID,c.request.target,V.account,c.request.text], Writable V.dict s

def ephemeralPub (c : Call S) : Option Bytes := c.request.ephemeral.toOption.map S.publicKey

/-- The envelope of the call is not too long for a node. -/
def Fits (F : Seeds S) (σ : Link S) (c : Call S) : Prop :=
  ∀ f ∈ (c.prepared F σ).toOption, (serialize f.env).length < maxInt32

instance (F : Seeds S) (σ : Link S) (c : Call S) : Decidable (Fits F σ c) :=
  inferInstanceAs (Decidable (∀ f ∈ (c.prepared F σ).toOption, _))

/-- A node with a few attributes and one child. -/
theorem encodable_parent {d : TokenDictionary.Dictionary} {tag child : Bytes}
    {as : List (Bytes × NodeModel.Value)} {v : NodeModel.Value} (htag : tag.length < maxInt32)
    (hsize : as.length ≤ 4) (has : EncodableAttrs d as) (hchild : child.length < maxInt32)
    (hv : Value.Encodable d v) : Node.Encodable d (.mk tag as (.nodes [.mk child [] v])) := by
  have hcount := List.length_filter_le (fun e : Bytes × NodeModel.Value => !e.2.dropped) as
  refine .inr ⟨writable_of_short htag,?_,has,?_,
    .inr ⟨writable_of_short hchild,?_,trivial,hv⟩,trivial⟩
  · show 2*_+1+1 < 65535
    omega
  · show 1 < 65535
    decide
  · show 2*0+1+(if v.isNil then 0 else 1) < 65535
    split_ifs <;> decide

theorem encodable_attr {d : TokenDictionary.Dictionary} {key s : Bytes}
    (hkey : key.length < maxInt32) (hs : Writable d s) : (NodeModel.Value.str s).dropped = true ∨
      Writable d key ∧ Value.Encodable d (.str s) := .inr ⟨writable_of_short hkey,hs⟩

theorem Proper.encodable_textNode {F : Seeds S} {V : Server S} {c : Call S} (h : Proper F V c)
    {env : Envelope} (hlen : (serialize env).length < maxInt32) :
    Node.Encodable V.dict (textNode c.msgID c.request.target env) := by
  refine encodable_parent (by decide) (show 3 ≤ 4 by decide) ⟨?_,?_,?_,trivial⟩ (by decide) hlen
  · exact encodable_attr (by decide) (h.writable c.msgID (by simp))
  · exact encodable_attr (by decide) (h.writable c.request.target (by simp))
  · exact encodable_attr (by decide) (writable_of_short (by decide))

theorem Proper.encodable_pushedNode {F : Seeds S} {V : Server S} {c : Call S} (h : Proper F V c) :
    Node.Encodable V.dict (pushedNode c.pushID V.account c.request.target c.request.text) := by
  refine encodable_parent (by decide) (show 4 ≤ 4 by decide) ⟨?_,?_,?_,?_,trivial⟩ (by decide)
    (h.writable c.request.text (by simp))
  · exact encodable_attr (by decide) (h.writable V.account (by simp))
  · exact encodable_attr (by decide) (h.writable c.pushID (by simp))
  · exact encodable_attr (by decide) (h.writable c.request.target (by simp))
  · exact encodable_attr (by decide) (writable_of_short (by decide))

/-- The session is stored although the message does not arrive. -/
def lost (c : Call S) : Bool := c.persisted && !c.arrives

/-! ### One message at the server -/

def Epoch.at (e : Epoch S) (n : ℕ) : Epoch S := {e with count := n}

/-- The server waits for message `n` of an epoch, and has nothing to send. -/
structure Waits (e : Epoch S) (n : ℕ) (b : Ratchet S) : Prop where
  receives : Receives b (Epoch.at e n)
  counter : b.receivingCounter.toNat = n
  pair : b.sendingDH = none
  chain : b.sendingChain = none
  last : ∀ k : UInt32, k.toNat+1 = n → b.skipped.lookup ⟨e.pub,e.pn,k⟩ = none

section
variable (hS : S.Correct) {e : Epoch S} {b r : Ratchet S} {n c : ℕ}

theorem sealMessage_ratchet (h : r.initSent = true) (p : Bytes) :
    (sealMessage p r).type = envRatchet ∧ NoInit (sealMessage p r) := by
  have hhead : envelopeHead r =
      {type := envRatchet,ratchetPub := (r.sendingDH.map S.publicKey).getD []
       prevCount := r.previousCounter,counter := r.sendingCounter} := by
    rw [envelopeHead]
    simp [h]
  rw [sealMessage,hhead]
  exact ⟨rfl,rfl,rfl,rfl,rfl,rfl⟩

include hS in
theorem checked_sealMessage {k : S.Priv} (h : r.sendingDH = some k) (p : Bytes) :
    Checked (sealMessage p r) := by
  have hpub := (sealMessage_fields p r).1
  refine ⟨?_,?_,?_⟩
  · rw [sealMessage,envelopeHead]
    split_ifs <;> rfl
  · rw [sealMessage,envelopeHead]
    split_ifs
    · exact .inl rfl
    · exact .inr rfl
  · rw [hpub,h]
    exact hS.public_length _

/-- The state that reading a message leaves behind. -/
theorem Waits.decrypt_state (hw : Waits e n b) {m : Envelope × Bytes}
    (hm : Message (Epoch.at e (c+1)) m) (hc : m.1.counter.toNat = c) (hn : n ≤ c)
    (hroom : size b+(c-n) < maxSkippedMessageKeys) :
    (takeKey m.1 e.pub b).2 = advance ((skipOne e.pub e.pn)^[c-n] b) := by
  have hle : b.receivingCounter ≤ m.1.counter := by
    rw [UInt32.le_iff_toNat_le,hw.counter,hc]
    exact hn
  have hroom' : size b+(m.1.counter.toNat-b.receivingCounter.toNat) < maxSkippedMessageKeys := by
    rw [hw.counter,hc]
    exact hroom
  have hskip := skipUntil_of_room e.pub e.pn hroom'
  have hout := takeKey_outcome m.1 e.pub b
  generalize RatchetModel.takeKey m.1 e.pub b = out at hout
  cases hout with
  | stored hl =>
      rw [show m.1.prevCount = e.pn from hm.pn] at hl
      have hahead := hw.receives.ahead _ hle
      rw [show (Epoch.at e n).pub = e.pub from rfl,show (Epoch.at e n).pn = e.pn from rfl,hl]
        at hahead
      cases hahead
  | old _ hlt => exact absurd hle (UInt32.not_le.mpr hlt)
  | full _ _ hs =>
      rw [show m.1.prevCount = e.pn from hm.pn,hskip] at hs
      cases hs
  | next _ _ hs =>
      rw [show m.1.prevCount = e.pn from hm.pn,hskip,hw.counter,hc] at hs
      rw [(Prod.mk.inj hs).2]

include hS in
/-- The next message, or one further ahead. -/
theorem Waits.read (hw : Waits e n b) {m : Envelope × Bytes}
    (hm : Message (Epoch.at e (c+1)) m) (hc : m.1.counter.toNat = c) (hn : n ≤ c)
    (hcount : c+1 < 2^32) (hroom : size b+(c-n) < maxSkippedMessageKeys) :
    ∃ b', decrypt m.1 b = (.ok m.2,b') ∧ Waits e (c+1) b' ∧ size b' ≤ size b+(c-n) := by
  have hle : b.receivingCounter ≤ m.1.counter := by
    rw [UInt32.le_iff_toNat_le,hw.counter,hc]
    exact hn
  have hrecv : Receives b (Epoch.at e (c+1)) :=
    ⟨hw.receives.chain,hw.receives.pub,hw.receives.have_pub,
      by rw [hw.counter]; exact Nat.le_succ_of_le hn,hw.receives.ahead⟩
  have hstay : ¬stepNeeded m.1 b = true := by
    rw [stepNeeded_iff hS hm,hrecv.chain,hrecv.pub]
    simp
  have hskip : size b+toSkip m.1 b < maxSkippedMessageKeys := by
    rw [toSkip,if_neg hstay,hw.counter,hc]
    exact hroom
  obtain ⟨b',hdec,hrecv',hsame,_,_⟩ := hrecv.decrypt hS hm hcount (.inl hle) hskip
  have hstate : b' = advance ((skipOne e.pub e.pn)^[c-n] b) := by
    rw [← hw.decrypt_state hm hc hn hroom,← openMessage_state]
    rw [decrypt,if_neg hstay,show copy32 m.1.ratchetPub = e.pub by
      rw [hm.pub]; exact copy32_pub hS (Epoch.at e (c+1))] at hdec
    rw [hdec]
  obtain ⟨_,hcounter,hahead,_⟩ := hw.receives.skipped hle
  rw [hw.counter,hc,show (Epoch.at e n).pub = e.pub from rfl,
    show (Epoch.at e n).pn = e.pn from rfl] at hcounter hahead
  have hnext : b'.receivingCounter.toNat = c+1 := by
    rw [hstate]
    show (((skipOne e.pub e.pn)^[c-n] b).receivingCounter+1).toNat = c+1
    rw [hcounter,UInt32.toNat_add,hc]
    exact Nat.mod_eq_of_lt hcount
  refine ⟨b',hdec,⟨hrecv',hnext,hsame.sendingDH.trans hw.pair,hsame.sendingChain.trans hw.chain,?_⟩,
    ?_⟩
  · intro k hk
    have hkc : k = m.1.counter := UInt32.toNat_inj.mp (by omega)
    rw [hstate,hkc]
    exact hahead m.1.counter (UInt32.le_refl _)
  · rw [hstate]
    exact iterate_size_le e.pub e.pn (c-n) b

include hS in
/-- The number that was used last. -/
theorem Waits.reject (hw : Waits e n b) {m : Envelope × Bytes}
    (hm : Message (Epoch.at e (c+1)) m) (hc : m.1.counter.toNat = c) (hn : n = c+1) :
    decrypt m.1 b = (.error .tooOld,b) := by
  have hstay : ¬stepNeeded m.1 b = true := by
    rw [stepNeeded_iff hS hm,hw.receives.chain,hw.receives.pub]
    simp [Epoch.at,Epoch.pub]
  have hlookup : b.skipped.lookup ⟨e.pub,m.1.prevCount,m.1.counter⟩ = none := by
    rw [show m.1.prevCount = e.pn from hm.pn]
    exact hw.last m.1.counter (by rw [hc,hn])
  have hold : m.1.counter < b.receivingCounter := by
    rw [UInt32.lt_iff_toNat_lt,hw.counter,hc,hn]
    exact Nat.lt_succ_self c
  rw [decrypt,if_neg hstay,hm.pub,copy32_pub hS]
  rw [openMessage,takeKey,show (Epoch.at e (c+1)).pub = e.pub from rfl]
  simp only [hlookup]
  rw [if_pos hold]

include hS in
/-- A message of another session: there is no key pair to step with. -/
theorem Waits.foreign (hw : Waits e n b) {e' : Epoch S} {m : Envelope × Bytes}
    (hm : Message e' m) (hpn : e'.pn = 0) (hpub : e'.pub ≠ e.pub) :
    decrypt m.1 b = (.error .noSendingIdentity,b) := by
  have hstep : stepNeeded m.1 b = true := by
    rw [stepNeeded_iff hS hm,hw.receives.pub]
    exact .inr hpub
  have hskip : skipOldChain m.1.prevCount b = (none,b) := by
    rw [skipOldChain,hm.pn,hpn]
    split_ifs
    · rw [skipUntil,show (0 : UInt32).toNat = 0 from rfl,Nat.zero_sub]
      rfl
    · rfl
  have hretire : retireSendingChain b = b := by
    have hchain := hw.chain
    cases b
    cases hchain
    rfl
  rw [decrypt,if_pos hstep,recvRatchetStep,hskip]
  simp only [hretire,hw.pair]

end

/-! ### One message at the client -/

/-- A stored session whose next message is number `c` of an epoch. -/
def Stands (F : Seeds S) (e : Epoch S) (c : ℕ) (p : PersistedRatchet S) : Prop :=
  ∃ r, p = marshalState F r ∧ Sends r (Epoch.at e c) ∧ r.initSent = true

/-- The epoch of a new session. -/
def opening (eph : S.Priv) (root chain : S.Secret) : Epoch S := ⟨eph,chain,root,0,0⟩

theorem sends_aliceRatchet (eph : S.Priv) (bundle : PreKeyBundle) (idOrder : OneTimeKeys)
    (identity : Identity S) (root chain : S.Secret) (info : Bytes) :
    Sends (aliceRatchet eph bundle idOrder identity root chain info)
      (Epoch.at (opening eph root chain) 0) :=
  ⟨rfl,rfl,rfl,rfl,rfl⟩

/-- What a call hands over: the message that is due in its epoch. -/
structure Hands (e : Epoch S) (c : ℕ) (q : Request S) (f : Sending S) : Prop where
  message : Message (Epoch.at e (c+1)) (f.env,q.text)
  counter : f.env.counter.toNat = c
  checked : Checked f.env
  init : f.env.type = envInit ∨ NoInit f.env
  sends : c+1 < 2^32 → Sends f.ratchet (Epoch.at e (c+1))
  sent : f.ratchet.initSent = true

section
variable {F : Seeds S} {V : Server S} {σ : Link S} {call : Call S}

theorem prepared_refused (h : refused call = true) : ∃ e, call.prepared F σ = .error e := by
  rw [Call.prepared,prepare]
  rw [refused] at h
  cases hs : call.request.session with
  | none => exact ⟨_,rfl⟩
  | some creds =>
      simp only [hs,Bool.or_eq_true,List.isEmpty_iff] at h
      simp only
      split_ifs with ht hp
      · exact ⟨_,rfl⟩
      · exact ⟨_,rfl⟩
      · rw [not_or] at hp
        obtain ⟨cause,hcause⟩ := Option.isSome_iff_exists.mp
          (h.resolve_left fun h => h.elim (fun h => h.elim ht hp.1) hp.2)
        exact ⟨.storage cause,by simp only [loadRatchet,hcause]⟩

/-- A call that passes its checks loads a session. -/
theorem prepared_of_load (h : refused call = false) {r : Ratchet S}
    (hload : ∀ creds ∈ call.request.session, call.request.getError = none →
      loadRatchet F creds (σ.stored call.request.target) call.request = .ok r)
    (hchain : r.sendingChain.isSome) :
    ∃ f, call.prepared F σ = .ok f ∧ f.env = sealMessage call.request.text r ∧
      f.ratchet = messageSent r := by
  rw [refused] at h
  cases hs : call.request.session with
  | none => simp [hs] at h
  | some creds =>
      simp only [hs,Bool.or_eq_false_iff,List.isEmpty_eq_false_iff,Option.isSome_eq_false_iff,
        Option.isNone_iff_eq_none] at h
      obtain ⟨⟨⟨ht,hi⟩,hg⟩,he⟩ := h
      have hl := hload creds hs he
      rw [Call.prepared,prepare]
      simp only [hs]
      rw [if_neg ht,if_neg (not_or.mpr ⟨hi,hg⟩)]
      simp only [Option.map_map,Function.comp_def,Option.map_id_fun',id_eq,hl,
        encrypt_of_sending hchain]
      exact ⟨_,rfl,rfl,rfl⟩

theorem hands_of_sends (hS : S.Correct) {e : Epoch S} {c : ℕ} {r : Ratchet S} {f : Sending S}
    (h : Sends r (Epoch.at e c)) (henv : f.env = sealMessage call.request.text r)
    (hr : f.ratchet = messageSent r)
    (hinit : (sealMessage call.request.text r).type = envInit ∨
      NoInit (sealMessage call.request.text r)) (hi : (r.initSent || r.isInitiator) = true) :
    Hands e c call.request f where
  message := henv ▸ h.message hS call.request.text
  counter := by
    rw [henv,(sealMessage_fields call.request.text r).2.2]
    exact h.counter
  checked := henv ▸ checked_sealMessage hS h.pair call.request.text
  init := henv ▸ hinit
  sends hroom := hr ▸ h.messageSent hroom
  sent := by
    rw [hr]
    exact hi

theorem prepared_stored (hS : S.Correct) (hF : F.Lawful) (h : refused call = false) {e : Epoch S}
    {c : ℕ} {p : PersistedRatchet S} (hp : σ.stored call.request.target = some p)
    (hstands : Stands F e c p) :
    ∃ f, call.prepared F σ = .ok f ∧ Hands e c call.request f ∧ f.env.type = envRatchet := by
  obtain ⟨r,rfl,hsends,hinit⟩ := hstands
  have hrestored : Sends (restored r) (Epoch.at e c) :=
    ⟨hsends.chain,hsends.pair,hsends.counter,hsends.pn,hsends.root⟩
  have hload : ∀ creds ∈ call.request.session, call.request.getError = none →
      loadRatchet F creds (σ.stored call.request.target) call.request = .ok (restored r) := by
    intro creds _ he
    simp only [loadRatchet,he,hp,restoreRatchet_marshalState hF]
    rfl
  obtain ⟨f,hf,henv,hr⟩ := prepared_of_load h hload (by rw [hrestored.chain]; rfl)
  obtain ⟨htype,hno⟩ := sealMessage_ratchet (r := restored r) hinit call.request.text
  refine ⟨f,hf,hands_of_sends hS hrestored henv hr (.inr hno) ?_,henv ▸ htype⟩
  rw [show (restored r).initSent = true from hinit,Bool.true_or]

/-- The server accepts the first message of a session. -/
theorem waits_accepted (hS : S.Correct) (env : Envelope) (keys : BobKeys S) (eph : S.Priv)
    (root chain : S.Secret) (info : Bytes) (hpub : env.ratchetPub = S.publicKey eph) :
    Waits (opening eph root chain) 1 (accepted keys env root chain info) ∧
      size (accepted keys env root chain info) = 0 := by
  have hcopy : copy32 env.ratchetPub = S.publicKey eph := by
    rw [hpub]
    exact copy32_pub hS (opening eph root chain)
  exact ⟨⟨⟨rfl,hcopy,rfl,Nat.le_refl 1,fun _ _ => rfl⟩,rfl,rfl,rfl,fun _ _ => rfl⟩,rfl⟩

theorem prepared_new (hS : S.Correct) (h : refused call = false) (hproper : Proper F V call)
    (hp : σ.stored call.request.target = none) {eph : S.Priv}
    (heph : call.request.ephemeral = .ok eph) :
    ∃ root chain f b, call.prepared F σ = .ok f ∧
      Hands (opening eph root chain) 0 call.request f ∧ f.env.type = envInit ∧
      bobSession V.keys f.env protocolInfoV1 = .ok (b,call.request.text) ∧
      Waits (opening eph root chain) 1 b ∧ size b = 0 := by
  obtain ⟨oneTime,hbundle⟩ := hproper.bundle
  obtain ⟨creds,hcreds⟩ : ∃ creds, call.request.session = some creds := by
    cases hs : call.request.session with
    | none => simp [refused,hs] at h
    | some creds => exact ⟨creds,rfl⟩
  obtain ⟨ident,hident⟩ := hproper.identity creds hcreds
  obtain ⟨root,chain,hstart,hx⟩ := aliceSession_first hS ident V.keys.identity eph
    V.keys.signedPreKey V.keys.signedPreID oneTime call.request.keyOrder call.request.idOrder
    V.keys.oneTimeKey hproper.oneTime protocolInfoV1
  set bundle := buildBundle V.keys.identity V.keys.signedPreKey V.keys.signedPreID oneTime
  set a := aliceRatchet eph bundle call.request.idOrder ident root chain protocolInfoV1 with ha
  have hload : ∀ creds ∈ call.request.session, call.request.getError = none →
      loadRatchet F creds (σ.stored call.request.target) call.request = .ok a := by
    intro creds' hc he
    obtain rfl : creds' = creds := Option.some.inj (hc.symm.trans hcreds)
    simp only [loadRatchet,he,hp,hbundle,hident,heph,hstart]
    rfl
  obtain ⟨f,hf,henv,hr⟩ := prepared_of_load h hload rfl
  have htype : (sealMessage call.request.text a).type = envInit := rfl
  have hsends := sends_aliceRatchet eph bundle call.request.idOrder ident root chain protocolInfoV1
  have hbob := bobSession_first hS ident eph bundle call.request.idOrder V.keys root chain
    protocolInfoV1 call.request.text rfl hx
  obtain ⟨hwaits,hsize⟩ := waits_accepted hS f.env V.keys eph root chain protocolInfoV1
    (by rw [henv]; rfl)
  refine ⟨root,chain,f,_,hf,hands_of_sends hS hsends henv hr (.inl htype) rfl,henv ▸ htype,?_,
    hwaits,hsize⟩
  rw [henv]
  exact hbob

end

/-! ### The server -/

theorem relayEnvelope_init {keys : BobKeys S} {rt : Option (Ratchet S)} {env : Envelope}
    {b : Ratchet S} {plain : Bytes} (ht : env.type = envInit)
    (hb : bobSession keys env protocolInfoV1 = .ok (b,plain)) :
    relayEnvelope keys rt env = (some b,some plain) := by
  cases rt with
  | none => simp only [relayEnvelope,hb]
  | some r => simp only [relayEnvelope,hb,if_pos ht]

theorem relayEnvelope_decrypt {keys : BobKeys S} {b : Ratchet S} {env : Envelope}
    (ht : env.type = envRatchet) :
    relayEnvelope keys (some b) env =
      (some (decrypt env b).2,(decrypt env b).1.toOption) := by
  have hne : ¬env.type = envInit := by
    rw [ht]
    decide
  rw [relayEnvelope]
  simp only [if_neg hne]
  generalize decrypt env b = out
  obtain ⟨res,r⟩ := out
  cases res <;> rfl

theorem relayEnvelope_none {keys : BobKeys S} {env : Envelope} (ht : env.type = envRatchet) :
    relayEnvelope keys none env = (none,none) := by
  have hbob : bobSession keys env protocolInfoV1 = .error .notInit := by
    rw [bobSession,if_pos (by rw [ht]; decide)]
  rw [relayEnvelope]
  simp only [hbob]

end BaturWhatsApi.RelayedMessages
