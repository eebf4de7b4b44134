import BaturWhatsApi.RelayedTexts

/-!
# Targets that starve

The client keeps a session for every target and the server one for every sender. Once the server
has accepted the first text to another target, the session it holds is not the one that is stored
for the first target. It has no key pair, so it cannot step into that session again: whatever
calls follow, also ones that fail, get lost or are too long, no text to the first target is
relayed.

All that is assumed of the calls is that no ephemeral key comes twice. With the same key two
sessions would be one.
-/
namespace BaturWhatsApi.StarvedTargets
open ByteStrings CipherSuite RatchetModel SessionSetup RatchetSteps SessionAgreement MessageChains
open RatchetStorage SendText EnvelopeWire NodeEncoder NodeDecoder Encodability TextRelay
open RelayedMessages RelayedTexts Runs

variable {S : Suite}

/-! ### What a call hands over -/

/-- A session with this key that has sent its first message. -/
structure Opened (pub : Bytes) (r : Ratchet S) : Prop where
  chain : r.sendingChain.isSome
  pair : r.sendingDH.map S.publicKey = some pub
  sent : r.initSent = true

def Kept (F : Seeds S) (pub : Bytes) (p : PersistedRatchet S) : Prop :=
  ∃ r, p = marshalState F r ∧ Opened pub r

theorem Kept.key_eq {F : Seeds S} (hF : F.Lawful) {pub pub' : Bytes} {p : PersistedRatchet S}
    (h : Kept F pub p) (h' : Kept F pub' p) : pub = pub' := by
  obtain ⟨r,rfl,hr⟩ := h
  obtain ⟨r',hmarshal,hr'⟩ := h'
  have hsame : restored r = restored r' := by
    have hrestore := restoreRatchet_marshalState hF r
    rw [hmarshal,restoreRatchet_marshalState hF] at hrestore
    exact (Except.ok.inj hrestore).symm
  have hpair : (restored r).sendingDH.map S.publicKey =
      (restored r').sendingDH.map S.publicKey := by
    rw [hsame]
  exact Option.some.inj (hr.pair.symm.trans (hpair.trans hr'.pair))

/-- Every stored session was begun by one of the calls. -/
def Begun (F : Seeds S) (calls : List (Call S)) (σ : Link S) : Prop :=
  ∀ t p, σ.stored t = some p → ∃ pub, Kept F pub p ∧ ∃ c ∈ calls, ephemeralPub c = some pub

/-- The envelope of a session with this key, and the session behind it. -/
structure Written (pub : Bytes) (f : Sending S) : Prop where
  checked : Checked f.env
  key : f.env.ratchetPub = pub
  opened : Opened pub f.ratchet

/-- The call begins a session or goes on with a stored one. -/
inductive Source (F : Seeds S) (σ : Link S) (c : Call S) (pub : Bytes) (f : Sending S) : Prop where
  | new (hnone : σ.stored c.request.target = none) (heph : ephemeralPub c = some pub)
      (htype : f.env.type = envInit)
  | stored (p : PersistedRatchet S) (hp : σ.stored c.request.target = some p) (hk : Kept F pub p)
      (htype : f.env.type = envRatchet) (hinit : NoInit f.env)

theorem Source.init {F : Seeds S} {σ : Link S} {c : Call S} {pub : Bytes} {f : Sending S}
    (h : Source F σ c pub f) : f.env.type = envInit ∨ NoInit f.env := by
  cases h with
  | new _ _ htype => exact .inl htype
  | stored _ _ _ _ hinit => exact .inr hinit

/-- The link behind a sequence of calls. -/
def Link.after (F : Seeds S) (V : Server S) (calls : List (Call S)) (σ : Link S) : Link S :=
  run (fun σ c => (σ.step F V c).1) calls σ

section
variable {F : Seeds S} {V : Server S} {σ : Link S} {c : Call S} {f : Sending S} {pub : Bytes}

theorem checked_seal (hS : S.Correct) {r : Ratchet S} (h : r.sendingDH.map S.publicKey = some pub)
    (p : Bytes) : Checked (sealMessage p r) ∧ (sealMessage p r).ratchetPub = pub := by
  have hpub : (sealMessage p r).ratchetPub = pub := by
    rw [(sealMessage_fields p r).1,h]
    rfl
  obtain ⟨k,hk,_⟩ := Option.map_eq_some_iff.mp h
  exact ⟨checked_sealMessage hS hk p,hpub⟩

theorem ephemeralPub_of_agreement {d : S.Secret} (h : c.request.agreement = some (pub,d)) :
    ephemeralPub c = some pub := by
  unfold Request.agreement at h
  split at h
  · rename_i eph bundle heph _
    obtain ⟨d',_,hd⟩ := Option.map_eq_some_iff.mp h
    rw [ephemeralPub,heph]
    exact congrArg some (Prod.mk.inj hd).1
  · cases h

/-- A call that gets as far as its send. -/
theorem prepared_cases (hS : S.Correct) (hF : F.Lawful)
    (hσ : ∀ p, σ.stored c.request.target = some p → ∃ pub, Kept F pub p)
    (h : c.prepared F σ = .ok f) : ∃ pub, Written pub f ∧ Source F σ c pub f := by
  obtain ⟨creds,r,hload,hf⟩ := prepare_ok h
  simp only [Option.map_map,Function.comp_def,Option.map_id_fun',id_eq] at hload
  cases hp : σ.stored c.request.target with
  | none =>
      rw [hp] at hload
      obtain ⟨eph,bundle,ident,d1,d2,d3,d4,hagree,hr⟩ := loadRatchet_new hload
      have hpair : r.sendingDH.map S.publicKey = some (S.publicKey eph) := by rw [hr]; rfl
      obtain ⟨hchecked,hkey⟩ := checked_seal hS hpair c.request.text
      subst hr
      obtain rfl := hf rfl
      exact ⟨S.publicKey eph,⟨hchecked,hkey,rfl,rfl,rfl⟩,
        .new hp (ephemeralPub_of_agreement hagree) rfl⟩
  | some p =>
      obtain ⟨pub,hk⟩ := hσ p hp
      obtain ⟨r₀,rfl,hopened⟩ := hk
      rw [hp] at hload
      obtain rfl := loadRatchet_stored hF hload
      obtain rfl := hf hopened.chain
      obtain ⟨hchecked,hkey⟩ := checked_seal hS (r := restored r₀) hopened.pair c.request.text
      obtain ⟨htype,hinit⟩ := sealMessage_ratchet (r := restored r₀) hopened.sent c.request.text
      refine ⟨pub,⟨hchecked,hkey,rfl,hopened.pair,?_⟩,.stored _ hp ⟨r₀,rfl,hopened⟩ htype hinit⟩
      show ((restored r₀).initSent || _) = true
      rw [show (restored r₀).initSent = true from hopened.sent,Bool.true_or]

/-- The store behind a call. -/
theorem stored_step {t : Bytes} {p : PersistedRatchet S}
    (h : (σ.step F V c).1.stored t = some p) : σ.stored t = some p ∨
      t = c.request.target ∧ ∃ f, c.prepared F σ = .ok f ∧ p = marshalState F f.ratchet := by
  rw [Link.step] at h
  split at h
  · exact .inl h
  · rename_i f hf
    dsimp only at h
    split_ifs at h
    · by_cases ht : t = c.request.target
      · subst ht
        rw [Function.update_self] at h
        exact .inr ⟨rfl,f,hf,(Option.some.inj h).symm⟩
      · rw [Function.update_of_ne ht] at h
        exact .inl h
    · exact .inl h

theorem Begun.step (hS : S.Correct) (hF : F.Lawful) {calls : List (Call S)} (h : Begun F calls σ) :
    Begun F (calls++[c]) (σ.step F V c).1 := by
  have hold : ∀ t p, σ.stored t = some p → ∃ pub, Kept F pub p ∧
      ∃ c' ∈ calls++[c], ephemeralPub c' = some pub := by
    intro t p hp
    obtain ⟨pub,hk,c',hc',heph⟩ := h t p hp
    exact ⟨pub,hk,c',List.mem_append_left _ hc',heph⟩
  intro t p hp
  rcases stored_step hp with hp | ⟨rfl,f,hf,rfl⟩
  · exact hold t p hp
  · obtain ⟨pub,hwritten,hsource⟩ := prepared_cases hS hF
      (fun p hp => (h _ p hp).imp fun _ h => h.1) hf
    refine ⟨pub,⟨f.ratchet,rfl,hwritten.opened⟩,?_⟩
    cases hsource with
    | new _ heph _ => exact ⟨c,List.mem_append_right _ (List.mem_singleton_self c),heph⟩
    | stored p hp hk _ _ =>
        obtain ⟨pub',hk',c',hc',heph⟩ := hold _ p hp
        rw [hk.key_eq hF hk']
        exact ⟨c',hc',heph⟩

theorem begun_run (hS : S.Correct) (hF : F.Lawful) (calls : List (Call S)) :
    Begun F calls (Link.after F V calls .empty) := by
  induction calls using List.reverseRecOn with
  | nil => exact fun _ _ h => by cases h
  | append_singleton calls c ih =>
      rw [Link.after,run_append]
      exact Begun.step hS hF ih

/-! ### A server with another session -/

/-- A session without a key pair that reads messages of another key than this. -/
structure Deaf (pub : Bytes) (b : Ratchet S) : Prop where
  pair : b.sendingDH = none
  other : b.recvPub ≠ pub

theorem decrypt_deaf (env : Envelope) {b : Ratchet S} (h : b.sendingDH = none) :
    (decrypt env b).2.sendingDH = none ∧ (decrypt env b).2.recvPub = b.recvPub ∧
      (copy32 env.ratchetPub ≠ b.recvPub → (decrypt env b).1.toOption = none) := by
  rw [decrypt]
  by_cases hstep : stepNeeded env b = true
  · have hout := recvRatchetStep_outcome (copy32 env.ratchetPub) env.prevCount b
    have hsame := skipOldChain_same env.prevCount b
    rw [if_pos hstep]
    generalize recvRatchetStep (copy32 env.ratchetPub) env.prevCount b = out at hout
    cases hout with
    | full hs =>
        rw [hs] at hsame
        exact ⟨hsame.sendingDH.trans h,hsame.recvPub,fun _ => rfl⟩
    | noIdentity hs _ =>
        rw [hs] at hsame
        exact ⟨hsame.sendingDH.trans h,hsame.recvPub,fun _ => rfl⟩
    | refused _ hpair _ => cases h.symm.trans hpair
    | stepped _ hpair _ => cases h.symm.trans hpair
  · have hsame := takeKey_same env (copy32 env.ratchetPub) b
    rw [← openMessage_state] at hsame
    rw [if_neg hstep]
    refine ⟨hsame.sendingDH.trans h,hsame.recvPub,fun hne => absurd ?_ hstep⟩
    simp [stepNeeded,hne]

theorem bobSession_deaf {keys : BobKeys S} {env : Envelope} {info plain : Bytes} {b : Ratchet S}
    (h : bobSession keys env info = .ok (b,plain)) :
    b.sendingDH = none ∧ b.recvPub = copy32 env.ratchetPub := by
  obtain ⟨_,_,_,root,chain,_,_,hopen⟩ := bobSession_ok h
  have hsame := takeKey_same env (copy32 env.ratchetPub) (bobRatchet keys env root chain info)
  rw [← openMessage_state,hopen] at hsame
  exact ⟨hsame.sendingDH,hsame.recvPub⟩

/-- An envelope of another session leaves the server deaf, one of this session is not read. -/
theorem Deaf.relay {b : Ratchet S} (h : Deaf pub b) (keys : BobKeys S) {env : Envelope}
    (hinit : env.type = envInit → copy32 env.ratchetPub ≠ pub) :
    (∃ b', (relayEnvelope keys (some b) env).1 = some b' ∧ Deaf pub b') ∧
    (env.type = envRatchet → copy32 env.ratchetPub = pub →
      (relayEnvelope keys (some b) env).2 = none) := by
  by_cases htype : env.type = envInit
  · refine ⟨?_,fun hratchet => absurd (htype.symm.trans hratchet) (by decide)⟩
    rw [relayEnvelope]
    simp only [if_pos htype]
    cases hbob : bobSession keys env protocolInfoV1 with
    | error e => exact ⟨b,rfl,h⟩
    | ok out =>
        obtain ⟨b',plain⟩ := out
        obtain ⟨hpair,hpub⟩ := bobSession_deaf hbob
        exact ⟨b',rfl,hpair,by rw [hpub]; exact hinit htype⟩
  · obtain ⟨hpair,hpub,herror⟩ := decrypt_deaf env h.pair
    have hrelay : relayEnvelope keys (some b) env =
        (some (decrypt env b).2,(decrypt env b).1.toOption) := by
      rw [relayEnvelope]
      simp only [if_neg htype]
      generalize decrypt env b = out
      obtain ⟨res,r⟩ := out
      cases res <;> rfl
    rw [hrelay]
    refine ⟨⟨_,rfl,hpair,by rw [hpub]; exact h.other⟩,fun _ hkey => herror ?_⟩
    rw [hkey]
    exact h.other.symm

/-- A frame is read as what was written, or not at all. -/
theorem relayed_cases (hd : V.dict.WellFormed) (hchecked : Checked f.env)
    (hinit : f.env.type = envInit ∨ NoInit f.env) (rt : Option (Ratchet S)) :
    c.relayed V rt f.env = (rt,none) ∨
    c.relayed V rt f.env = ((relayEnvelope V.keys rt f.env).1,
      (relayEnvelope V.keys rt f.env).2.bind fun plain =>
        if V.online c.request.target then
          some (pushedNode c.pushID V.account c.request.target plain)
        else none) := by
  rw [Call.relayed]
  by_cases harr : c.arrives = true
  · rw [if_pos harr]
    by_cases hok : Node.Encodable V.dict (textNode c.msgID c.request.target f.env)
    · exact .inr (handleFrame_textNode hd hok hchecked hinit c.pushID rt)
    · obtain ⟨e,he⟩ := (encode_error_iff V.dict _).mpr hok
      left
      rw [handleFrame,marshalDict,he]
      rfl
  · exact .inl (if_neg harr)

/-- The target has a session with this key, and the server one that it does not read with. -/
structure Starving (F : Seeds S) (t pub : Bytes) (σ : Link S) : Prop where
  stored : ∃ p, σ.stored t = some p ∧ Kept F pub p
  begun : ∀ t' p, σ.stored t' = some p → ∃ pub', Kept F pub' p
  session : ∃ b, σ.session = some b ∧ Deaf pub b

variable {t : Bytes}

theorem Starving.step (hS : S.Correct) (hF : F.Lawful) (hd : V.dict.WellFormed)
    (h : Starving F t pub σ) (hfresh : ephemeralPub c ≠ some pub) :
    Starving F t pub (σ.step F V c).1 ∧
    (c.request.target = t → (σ.step F V c).2 = none) := by
  cases hf : c.prepared F σ with
  | error e =>
      rw [Link.step,hf]
      exact ⟨h,fun _ => rfl⟩
  | ok f =>
      obtain ⟨pub',hwritten,hsource⟩ := prepared_cases hS hF (h.begun c.request.target) hf
      obtain ⟨b,hb,hdeaf⟩ := h.session
      have hcopy : copy32 f.env.ratchetPub = pub' := by
        rw [copy32_of_length hwritten.checked.key,hwritten.key]
      have hother : f.env.type = envInit → copy32 f.env.ratchetPub ≠ pub := by
        rintro htype rfl
        cases hsource with
        | new _ heph _ => exact hfresh (heph.trans (congrArg some hcopy.symm))
        | stored _ _ _ hratchet _ => exact absurd (htype.symm.trans hratchet) (by decide)
      obtain ⟨⟨b',hb',hdeaf'⟩,hread⟩ := hdeaf.relay V.keys hother
      -- the session of the target is the one with this key
      have hown : c.request.target = t → f.env.type = envRatchet ∧ pub' = pub := by
        rintro rfl
        obtain ⟨p,hp,hk⟩ := h.stored
        cases hsource with
        | new hnone _ _ => cases hp.symm.trans hnone
        | stored p' hp' hk' htype _ =>
            cases hp.symm.trans hp'
            exact ⟨htype,hk'.key_eq hF hk⟩
      have hrelayed := relayed_cases (c := c) hd hwritten.checked hsource.init σ.session
      rw [hb] at hrelayed
      refine ⟨⟨?_,fun t' p hp => ?_,?_⟩,fun ht => ?_⟩
      · obtain ⟨p,hp,hk⟩ := h.stored
        rw [Link.step,hf]
        dsimp only
        split_ifs
        · by_cases ht : t = c.request.target
          · rw [ht,Function.update_self]
            exact ⟨_,rfl,f.ratchet,rfl,(hown ht.symm).2 ▸ hwritten.opened⟩
          · rw [Function.update_of_ne ht]
            exact ⟨p,hp,hk⟩
        · exact ⟨p,hp,hk⟩
      · rcases stored_step hp with hp | ⟨_,f',hf',rfl⟩
        · exact h.begun t' p hp
        · cases hf.symm.trans hf'
          exact ⟨pub',f.ratchet,rfl,hwritten.opened⟩
      · rw [Link.step,hf,hb]
        rcases hrelayed with hsame | hrelay
        · exact ⟨b,congrArg Prod.fst hsame,hdeaf⟩
        · exact ⟨b',(congrArg Prod.fst hrelay).trans hb',hdeaf'⟩
      · obtain ⟨htype,rfl⟩ := hown ht
        rw [Link.step,hf,hb]
        dsimp only
        rcases hrelayed with hsame | hrelay
        · rw [hsame]
          rfl
        · rw [hrelay,hread htype hcopy]
          rfl

theorem Starving.outputs (hS : S.Correct) (hF : F.Lawful) (hd : V.dict.WellFormed)
    (h : Starving F t pub σ) {later : List (Call S)}
    (hfresh : ∀ c ∈ later, ephemeralPub c ≠ some pub) {i : ℕ} (hi : later[i]? = some c)
    (hc : c.request.target = t) : (outputs F V later σ)[i]? = some none := by
  induction later generalizing σ i with
  | nil => cases hi
  | cons c' later ih =>
      obtain ⟨hfirst,hrest⟩ := List.forall_mem_cons.mp hfresh
      obtain ⟨hstep,hnone⟩ := h.step (c := c') hS hF hd hfirst
      cases i with
      | zero =>
          obtain rfl : c' = c := Option.some.inj hi
          rw [TextRelay.outputs,hnone hc]
          rfl
      | succ i => exact ih hstep hrest hi

end

/-! ### Whole runs -/

/-- The server accepts the envelope of the call as the first of a session. -/
def Accepted (F : Seeds S) (V : Server S) (σ : Link S) (c : Call S) : Prop :=
  c.arrives = true ∧ ∃ f b plain, c.prepared F σ = .ok f ∧
    Node.Encodable V.dict (textNode c.msgID c.request.target f.env) ∧
    bobSession V.keys f.env protocolInfoV1 = .ok (b,plain)

/-- A call that has what it needs is accepted when it begins a session. -/
theorem accepted_of_proper {F : Seeds S} {V : Server S} {σ : Link S} {c : Call S} (hS : S.Correct)
    (hproper : Proper F V c) (hc : refused c = false) (harrives : c.arrives = true)
    (hnone : σ.stored c.request.target = none) (hfits : Fits F σ c) : Accepted F V σ c := by
  obtain ⟨eph,heph⟩ := hproper.ephemeral
  obtain ⟨_,_,f,b,hprep,_,_,hbob,_,_⟩ := prepared_new hS hc hproper hnone heph
  have hlen : (serialize f.env).length < maxInt32 := hfits f (by rw [hprep]; rfl)
  exact ⟨harrives,f,b,c.request.text,hprep,hproper.encodable_textNode hlen,hbob⟩

/-- No ephemeral key comes twice. -/
def Fresh (calls : List (Call S)) : Prop :=
  calls.Pairwise fun c c' => ephemeralPub c = none ∨ ephemeralPub c ≠ ephemeralPub c'

instance (calls : List (Call S)) : Decidable (Fresh calls) :=
  inferInstanceAs (Decidable (calls.Pairwise _))

theorem outputs_append (F : Seeds S) (V : Server S) (calls calls' : List (Call S)) (σ : Link S) :
    outputs F V (calls++calls') σ =
      outputs F V calls σ++outputs F V calls' (Link.after F V calls σ) := by
  induction calls generalizing σ with
  | nil => rfl
  | cons c calls ih =>
      rw [List.cons_append,outputs,outputs,ih]
      rfl

theorem length_outputs (F : Seeds S) (V : Server S) (calls : List (Call S)) (σ : Link S) :
    (outputs F V calls σ).length = calls.length := by
  induction calls generalizing σ with
  | nil => rfl
  | cons c calls ih => rw [outputs,List.length_cons,List.length_cons,ih]

/-- The server's session behind the call. -/
theorem session_accepted {F : Seeds S} {V : Server S} {σ : Link S} {c : Call S} {f : Sending S}
    {b : Ratchet S} {plain : Bytes} (hd : V.dict.WellFormed) (harrives : c.arrives = true)
    (hprep : c.prepared F σ = .ok f)
    (hok : Node.Encodable V.dict (textNode c.msgID c.request.target f.env))
    (hchecked : Checked f.env) (hbob : bobSession V.keys f.env protocolInfoV1 = .ok (b,plain)) :
    (σ.step F V c).1.session = some b := by
  have htype : f.env.type = envInit := (bobSession_ok hbob).1
  have hframe := handleFrame_textNode hd hok hchecked (.inl htype) c.pushID σ.session
  rw [Link.step,hprep]
  dsimp only
  rw [Call.relayed,if_pos harrives,hframe,relayEnvelope_init htype hbob]

/-- A session is stored for a target, and then the server accepts the first message to another
target. No text to the first target is relayed from then on. -/
theorem other_target_starves {F : Seeds S} {V : Server S} (hS : S.Correct) (hF : F.Lawful)
    (hd : V.dict.WellFormed) {before later : List (Call S)} {c₀ : Call S}
    (hfresh : Fresh (before++c₀::later)) {t : Bytes}
    (hstored : (Link.after F V before .empty).stored t ≠ none)
    (hnone : (Link.after F V before .empty).stored c₀.request.target = none)
    (haccepted : Accepted F V (Link.after F V before .empty) c₀) {i : ℕ} {c : Call S}
    (hi : later[i]? = some c) (hc : c.request.target = t) :
    (outputs F V (before++c₀::later) .empty)[before.length+1+i]? = some none := by
  have hbegun := begun_run (V := V) hS hF before
  set σ := Link.after F V before .empty with hσ
  obtain ⟨p,hp⟩ := Option.ne_none_iff_exists'.mp hstored
  obtain ⟨pub,hk,d,hd',heph⟩ := hbegun t p hp
  have hne : t ≠ c₀.request.target := by
    rintro rfl
    exact hstored hnone
  -- the key of the target's session is that of an earlier call
  have hother : ∀ c ∈ c₀::later, ephemeralPub c ≠ some pub := by
    intro c' hc' heq
    rcases (List.pairwise_append.mp hfresh).2.2 d hd' c' hc' with h | h
    · rw [heph] at h
      cases h
    · exact h (heph.trans heq.symm)
  obtain ⟨harrives,f,b,plain,hprep,hok,hbob⟩ := haccepted
  obtain ⟨pub₀,hwritten,hsource⟩ := prepared_cases hS hF
    (fun p hp => by cases hp.symm.trans hnone) hprep
  have hstarving : Starving F t pub (σ.step F V c₀).1 := by
    refine ⟨?_,fun t' p hp => ?_,b,session_accepted hd harrives hprep hok hwritten.checked hbob,?_⟩
    · rw [Link.step,hprep]
      dsimp only
      split_ifs
      · rw [Function.update_of_ne hne]
        exact ⟨p,hp,hk⟩
      · exact ⟨p,hp,hk⟩
    · rcases stored_step hp with hp | ⟨_,f',hf',rfl⟩
      · exact (hbegun t' p hp).imp fun _ h => h.1
      · cases hprep.symm.trans hf'
        exact ⟨pub₀,f.ratchet,rfl,hwritten.opened⟩
    · obtain ⟨hpair,hrecv⟩ := bobSession_deaf hbob
      refine ⟨hpair,?_⟩
      rw [hrecv,copy32_of_length hwritten.checked.key,hwritten.key]
      cases hsource with
      | new _ heph₀ _ =>
          rintro rfl
          exact hother c₀ List.mem_cons_self heph₀
      | stored p' hp' _ _ _ => cases hp'.symm.trans hnone
  have hlater := hstarving.outputs hS hF hd
    (fun c hc => hother c (List.mem_cons_of_mem c₀ hc)) hi hc
  rw [outputs_append,List.getElem?_append_right (by rw [length_outputs]; omega),length_outputs,
    show before.length+1+i-before.length = i+1 by omega]
  exact hlater

/-! ### Another target in between -/

/-- A call of a session that is not there, one that is lost, and two that arrive. -/
def sampleLater : List (Call SymbolicSuite.suite) :=
  [{sampleCall "first" 36 "six" true with
     request := {sampleRequest 36 "six" with session := none,target := text "first"}},
   {sampleCall "first" 37 "seven" true with arrives := false},
   sampleCall "third" 38 "eight" false,sampleCall "first" 39 "nine" true]

theorem other_target_starves_sample :
    (outputs sampleSeeds sampleServer (sampleCalls.take 4++
      sampleCall "second" 35 "five" true::sampleLater) .empty)[8]? = some none := by
  have hstored : ((Link.after sampleSeeds sampleServer (sampleCalls.take 4) .empty).stored
      (text "first")).isSome := by decide +kernel
  have hnone : ((Link.after sampleSeeds sampleServer (sampleCalls.take 4) .empty).stored
      (text "second")).isNone := by decide +kernel
  have haccepted : Accepted sampleSeeds sampleServer
      (Link.after sampleSeeds sampleServer (sampleCalls.take 4) .empty)
      (sampleCall "second" 35 "five" true) :=
    accepted_of_proper SymbolicSuite.suite_correct (sampleCall_proper (by decide) (by decide) _ _)
      rfl rfl (Option.isNone_iff_eq_none.mp hnone) (by decide +kernel)
  exact other_target_starves SymbolicSuite.suite_correct sampleSeeds_lawful
    DefaultTokens.default_wellFormed (by decide +kernel) (Option.isSome_iff_ne_none.mp hstored)
    (Option.isNone_iff_eq_none.mp hnone) haccepted (i := 3) rfl rfl

end BaturWhatsApi.StarvedTargets
