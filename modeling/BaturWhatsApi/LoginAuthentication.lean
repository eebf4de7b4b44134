import BaturWhatsApi.Intruder
import BaturWhatsApi.LoginCompletion
import BaturWhatsApi.Runs

/-!
# Who is at the other end of a login

An intruder carries all frames. He has private keys of his own, or stolen ones, and public values
to agree with, and delivers any bytes, except that he cannot make a ciphertext for a key that he
cannot compute: what opens under such a key was sent by a session or a serving. Then a session
whose policy passes only keys that are not his has been answered by the owner of the key, in this
very handshake, and a serving that takes a finish of such a key has been talking to its owner.
Both hold the same keys, in opposite order.

The keys of a login are hashed from three agreements, so they stay out of his reach as long as one
of the three does. What is stolen later does not help him unless it makes the agreement of the two
ephemeral keys.
-/
namespace BaturWhatsApi.LoginAuthentication
open ByteStrings CipherSuite NoiseCipher NoiseHandshake NoiseAgreement RatchetStorage FinishPayload
open HandshakeFrames Login LoginTranscripts LoginCompletion Intruder Runs

variable {N : NoiseSuite} {α : Type}

/-! ### The intruder -/

/-- A digest, a keyed hash and an agreement are never the same. -/
structure Separate (N : NoiseSuite) : Prop where
  agreed : Apart N.toSuite
  digest_hash : ∀ l k d, N.sha256 l ≠ N.hmac k d
  digest_agreed : ∀ l k p, N.ecdh k p ≠ some (N.sha256 l)

/-- What the intruder can compute. Digests are of messages, and all his. -/
def Known (M : Means N.toSuite) (s : N.Secret) : Prop := Knows {s | ∃ l, s = N.sha256 l} M s

/-- The ciphertexts that were sent. -/
def sent (W : World N α) : List Bytes :=
  (W.clients.flatMap fun c => c.finished.toList.flatMap fun f => [f.sent.static,f.sent.payload])++
    W.servings.flatMap fun v => [v.answered.sent.static,v.answered.sent.payload]

/-- The intruder has the ciphertext: he knows every key that opens it, or it was sent in a login,
or it was made without associated data, as in the sessions behind a login. -/
def Available (M : Means N.toSuite) (W : World N α) (c : Bytes) : Prop :=
  ∀ k n ad p, N.aeadOpen k n c ad = some p → (∀ s, .secret s ∈ k → Known M s) ∨ c ∈ sent W ∨
    ∃ k' n' p', c = N.aeadSeal k' n' p' []

/-- The ciphertexts in the frame that an event delivers. -/
def delivered : Event N α → List Bytes
  | .read _ resp =>
      match serverHelloOf (α := α) resp with
      | .error _ => []
      | .ok sh => [sh.static,sh.payload]
  | .accept _ frame =>
      match clientFinishOf frame with
      | .error _ => []
      | .ok cf => [cf.static,cf.payload]
  | _ => []

def Genuine (M : Means N.toSuite) (W : World N α) (ev : Event N α) : Prop :=
  ∀ c ∈ delivered ev, Available M W c

section
variable (hI : N.Ideal) (hN : Separate N) {M : Means N.toSuite}
include hI hN

theorem known_hash {k d : List (Atom N.Secret)} (h : Known M (N.hmac k d)) :
    (∀ s, .secret s ∈ k → Known M s) ∧ ∀ s, .secret s ∈ d → Known M s := by
  rcases h.inv with ⟨l,hl⟩ | ⟨x,_,p,_,hx⟩ | ⟨k',d',he,hk,hd⟩
  · exact absurd hl.symm (hN.digest_hash l k d)
  · exact absurd rfl (hN.agreed x p _ hx k d)
  · obtain ⟨rfl,rfl⟩ := hI.hmac_inj he
    exact ⟨hk,hd⟩

omit hI in
theorem not_known_of_beyond {k : N.Priv} {p : Bytes} {δ : N.Secret} (hδ : N.ecdh k p = some δ)
    (h : Beyond M δ) : ¬Known M δ := by
  refine h.not_knows hN.agreed hδ ?_
  rintro ⟨l,rfl⟩
  exact hN.digest_agreed l k p hδ

/-- Both keys of a state give away what was mixed in, and the chaining key before. -/
theorem known_extractExpand {nh : Handshake N} {d : List (Atom N.Secret)}
    (h : Known M (nh.extractExpand d).1 ∨ Known M (nh.extractExpand d).2) :
    (∀ s, .secret s ∈ nh.ck → Known M s) ∧ ∀ s, .secret s ∈ d → Known M s := by
  have hprk : Known M (N.hmac nh.ck d) := by
    rcases h with h | h
    · exact (known_hash hI hN h).1 _ List.mem_cons_self
    · exact (known_hash hI hN h).1 _ List.mem_cons_self
  exact known_hash hI hN hprk

theorem known_mixKey_k {nh : Handshake N} {d : N.Secret}
    (h : ∀ s, .secret s ∈ (nh.mixKey [.secret d]).k → Known M s) : Known M d :=
  (known_extractExpand hI hN (.inr (h _ List.mem_cons_self))).2 d List.mem_cons_self

theorem known_mixKey_ck (nh : Handshake N) {d : N.Secret}
    (h : ∀ s, .secret s ∈ (nh.mixKey [.secret d]).ck → Known M s) :
    (∀ s, .secret s ∈ nh.ck → Known M s) ∧ Known M d :=
  (known_extractExpand hI hN (.inl (h _ List.mem_cons_self))).imp_right
    fun hd => hd d List.mem_cons_self

/-- Whoever knows a key of the login knows the three agreements. -/
theorem known_agreements {x : Closing N} {ct : Bytes}
    (h : Known M ((passed x.fourth ct).extractExpand []).1 ∨
      Known M ((passed x.fourth ct).extractExpand []).2) :
    Known M x.hello ∧ Known M x.named ∧ Known M x.proved := by
  obtain ⟨hthird,hproved⟩ := known_mixKey_ck hI hN (passed x.third x.client)
    (known_extractExpand hI hN h).1
  obtain ⟨hsecond,hnamed⟩ := known_mixKey_ck hI hN (passed x.first x.static) hthird
  exact ⟨(known_mixKey_ck hI hN _ hsecond).2,hnamed,hproved⟩

end

/-! ### Ciphertexts that were sent -/

section
variable (hI : N.Ideal)
include hI

/-- A ciphertext of one stage is opened in no other. -/
theorem opened_stage {m n : ℕ} {c d : UInt32} {a b b' : Handshake N} {p q : Bytes}
    (h : b.decrypt (a.encrypt p).1 = (.ok q,b')) (ha : Stage m c a) (hb : Stage n d b) :
    n = m ∧ d = c := by
  obtain ⟨hk,hiv,_⟩ := opened_seal hI h
  exact hb.unique hI ha hk hiv

/-- What the intruder delivers under a key that he does not know was sent in a login. -/
theorem sent_of_available {M : Means N.toSuite} {W : World N α} {nh nh' : Handshake N} {c p : Bytes}
    (hc : Available M W c) (hopen : nh.decrypt c = (.ok p,nh')) (hh : nh.h ≠ [])
    (hk : ¬∀ s, .secret s ∈ nh.k → Known M s) : c ∈ sent W := by
  obtain ⟨hopen,_⟩ := decrypt_ok hopen
  rcases hc _ _ _ _ hopen with hknown | hsent | ⟨k',n',p',rfl⟩
  · exact absurd hknown hk
  · exact hsent
  · exact absurd (hI.opened hopen).2.2.1 hh

end

/-- The four ciphertexts of a login, with the party that has sent them. -/
theorem sent_cases {E : Setting N} {W : World N α} (hsound : Sound E W) {ct : Bytes}
    (h : ct ∈ sent W) :
    (∃ (j : ℕ) (v : Serving N) (eph : N.Priv) (o : Opening N), W.servings[j]? = some v ∧
      Answers v.service v.answered eph o ∧
      (ct = (o.first.encrypt (N.publicKey v.service.static)).1 ∨
        ct = (o.second.encrypt v.service.certChain).1)) ∨
    ∃ (i : ℕ) (c : Client N α) (f : Finished N) (static eph : N.Priv) (x : Closing N)
      (payload : Bytes), W.clients[i]? = some c ∧ c.finished = some f ∧
      Finishes E c.session f static eph x ∧
      finishPayload E.sha c.session.id c.session.device c.session.creds
        c.session.behind = some payload ∧
      (ct = (x.third.encrypt (N.publicKey static)).1 ∨
        ct = f.sent.payload ∧ ct = (x.fourth.encrypt payload).1) := by
  rcases List.mem_append.mp h with h | h
  · obtain ⟨c,hc,h⟩ := List.mem_flatMap.mp h
    obtain ⟨f,hf,h⟩ := List.mem_flatMap.mp h
    obtain ⟨i,hi⟩ := List.mem_iff_getElem?.mp hc
    obtain ⟨static,eph,x,hx⟩ := hsound.finished i c hi f (Option.mem_toList.mp hf)
    obtain ⟨payload,hpayload,hsent,_⟩ := hx.payload
    refine .inr ⟨i,c,f,static,eph,x,payload,hi,Option.mem_toList.mp hf,hx,hpayload,?_⟩
    simp only [List.mem_cons,List.not_mem_nil,or_false] at h
    rcases h with rfl | rfl
    · exact .inl (hx.sentStatic.trans hx.client)
    · exact .inr ⟨rfl,hsent⟩
  · obtain ⟨v,hv,h⟩ := List.mem_flatMap.mp h
    obtain ⟨j,hj⟩ := List.mem_iff_getElem?.mp hv
    obtain ⟨eph,o,ho⟩ := hsound.answered j v hj
    refine .inl ⟨j,v,eph,o,hj,ho,?_⟩
    simp only [List.mem_cons,List.not_mem_nil,or_false] at h
    rcases h with rfl | rfl
    · exact .inl (ho.sentStatic.trans ho.static)
    · exact .inr ho.sentPayload

section
variable (hI : N.Ideal) {E : Setting N} {W : World N α} (hsound : Sound E W)
include hI hsound

/-- Certificates that open were sent by a serving with the same opening. -/
theorem second_opened {o : Opening N} {ct p : Bytes} {nh : Handshake N} (hct : ct ∈ sent W)
    (h : o.second.decrypt ct = (.ok p,nh)) :
    ∃ (j : ℕ) (v : Serving N) (eph : N.Priv), W.servings[j]? = some v ∧
      Answers v.service v.answered eph o ∧
      ct = v.answered.sent.payload ∧ p = v.service.certChain := by
  rcases sent_cases hsound hct with ⟨j,v,eph,o',hv,ho,rfl | rfl⟩ |
    ⟨i,c,f,static,eph,x,payload,_,_,_,_,rfl | ⟨_,rfl⟩⟩
  · cases (opened_stage hI h o'.stage_first o.stage_second).1
  · obtain ⟨hk,_,hh,hp⟩ := opened_seal hI h
    obtain rfl : o = o' := Opening.second_inj hI (mixKey_ck_of_k hI hk) hh
    exact ⟨j,v,eph,hv,ho,ho.sentPayload.symm,hp⟩
  · cases (opened_stage hI h x.stage_third o.stage_second).2
  · cases (opened_stage hI h x.stage_fourth o.stage_second).1

/-- A registration that opens was sent by a session with the same transcript. -/
theorem fourth_opened {x : Closing N} {ct p : Bytes} {nh : Handshake N} (hct : ct ∈ sent W)
    (h : x.fourth.decrypt ct = (.ok p,nh)) :
    ∃ (i : ℕ) (c : Client N α) (f : Finished N) (static eph : N.Priv),
      W.clients[i]? = some c ∧ c.finished = some f ∧
      Finishes E c.session f static eph x ∧ ct = f.sent.payload ∧
      finishPayload E.sha c.session.id c.session.device c.session.creds
        c.session.behind = some p := by
  rcases sent_cases hsound hct with ⟨j,v,eph,o',_,_,rfl | rfl⟩ |
    ⟨i,c,f,static,eph,x',payload,hc,hf,hx,hpayload,rfl | ⟨hct,hseal⟩⟩
  · cases (opened_stage hI h o'.stage_first x.stage_fourth).1
  · cases (opened_stage hI h o'.stage_second x.stage_fourth).1
  · cases (opened_stage hI h x'.stage_third x.stage_fourth).1
  · rw [hseal] at h
    obtain ⟨hk,_,hh,rfl⟩ := opened_seal hI h
    obtain rfl : x = x' := Closing.fourth_inj hI (mixKey_ck_of_k hI hk) hh
    exact ⟨i,c,f,static,eph,hc,hf,hx,hct,hpayload⟩

end

/-! ### The other end -/

/-- The policy passes only keys whose agreement with the session is beyond the intruder. -/
def Vetted (M : Means N.toSuite) (s : Session N α) : Prop :=
  ∀ auth eph, s.auth = some auth → s.fresh = .ok eph → ∀ static cert δ,
    auth static cert = .ok () → N.ecdh eph static = some δ → Beyond M δ

theorem Vetted.named {M : Means N.toSuite} {E : Setting N} {s : Session N α} {f : Finished N}
    {static eph : N.Priv} {x : Closing N} (h : Vetted M s) (hx : Finishes E s f static eph x) :
    Beyond M x.named := by
  have hchecked := hx.checked
  unfold Session.check at hchecked
  split at hchecked
  · cases hchecked
  · rename_i auth hauth
    exact h auth eph hauth hx.fresh _ _ _ (Fallible.mapError_eq_ok.mp hchecked) hx.named

/-- The key of a finish has an agreement with the serving that is beyond the intruder. -/
def Owned (M : Means N.toSuite) (v : Service N) (t : Accepted N) : Prop :=
  ∀ eph δ, v.fresh = .ok eph → N.ecdh eph t.remote = some δ → Beyond M δ

/-- What holds in every world that an intruder can bring about. -/
structure Authentic (E : Setting N) (M : Means N.toSuite) (W : World N α) : Prop where
  sound : Sound E W
  server {i : ℕ} {c : Client N α} {f : Finished N} : W.clients[i]? = some c →
    c.finished = some f → Vetted M c.session →
    ∃ (j : ℕ) (v : Serving N), W.servings[j]? = some v ∧ Meets c.session f v.service v.answered
  client {j : ℕ} {v : Serving N} {t : Accepted N} : W.servings[j]? = some v →
    v.accepted = some t → Owned M v.service t →
    ∃ (i : ℕ) (c : Client N α) (f : Finished N), W.clients[i]? = some c ∧
      c.finished = some f ∧ Joined E c.session f v.service v.answered t

section
variable (hI : N.Ideal) (hN : Separate N) {E : Setting N} {M : Means N.toSuite} {W : World N α}
include hI hN

/-- A session that reads an answer has met a serving. -/
theorem meets_of_read (hsound : Sound E W) {i : ℕ} {resp : Bytes} {c : Client N α}
    {f : Finished N} (hev : Genuine M W (.read i resp)) (hc : W.clients[i]? = some c)
    (hf : c.session.finish E.sha c.xx resp = .ok f) (hvetted : Vetted M c.session) :
    ∃ (j : ℕ) (v : Serving N), W.servings[j]? = some v ∧
      Meets c.session f v.service v.answered := by
  obtain ⟨frame,hhail⟩ := hsound.hailed i c hc
  obtain ⟨static,eph,sh,x,hsh,hx,_,hcert⟩ := finishes_of_ok hhail hf
  have havailable : Available M W x.cert := by
    refine hev x.cert ?_
    simp only [delivered,hsh,hcert,List.mem_cons,or_true,true_or]
  -- the key of the certificates holds an agreement that the policy has let pass
  have hbeyond := hvetted.named hx
  obtain ⟨nh,hopen⟩ := hx.cert
  have hsent : x.cert ∈ sent W := by
    refine sent_of_available hI havailable hopen (List.cons_ne_nil _ _) fun hknown => ?_
    exact not_known_of_beyond hN hx.named hbeyond (known_mixKey_k hI hN hknown)
  obtain ⟨j,v,eph',hv,ha,hpayload,_⟩ := second_opened hI hsound hsent hopen
  exact ⟨j,v,hv,meets_of_transcript hI hx ha hpayload⟩

/-- A serving that takes a finish has met a session. -/
theorem joined_of_accept (hsound : Sound E W) {j : ℕ} {frame : Bytes} {v : Serving N}
    {t : Accepted N} (hev : Genuine M W (.accept j frame)) (hv : W.servings[j]? = some v)
    (ht : accept v.answered.xx frame = .ok t) (howned : Owned M v.service t) :
    ∃ (i : ℕ) (c : Client N α) (f : Finished N), W.clients[i]? = some c ∧
      c.finished = some f ∧ Joined E c.session f v.service v.answered t := by
  obtain ⟨eph,o,ha⟩ := hsound.answered j v hv
  obtain ⟨cf,x,hcf,hx⟩ := takes_of_ok ha ht
  have havailable : Available M W cf.payload := by
    refine hev cf.payload ?_
    simp only [delivered,hcf,List.mem_cons,or_true,true_or]
  have hbeyond : Beyond M x.proved := howned eph _ ha.fresh hx.proved
  obtain ⟨nh,hopen⟩ := hx.payload
  have hsent : cf.payload ∈ sent W := by
    refine sent_of_available hI havailable hopen (List.cons_ne_nil _ _) fun hknown => ?_
    exact not_known_of_beyond hN hx.proved hbeyond (known_mixKey_k hI hN hknown)
  obtain ⟨i,c,f,static,eph',hc,hf,hfinish,hct,hpayload⟩ := fourth_opened hI hsound hsent hopen
  exact ⟨i,c,f,hc,hf,joined_of_transcript hI hfinish hx hct hpayload⟩

theorem Authentic.step (h : Authentic E M W) {ev : Event N α} (hev : Genuine M W ev) :
    Authentic E M (W.step E ev) where
  sound := h.sound.step ev
  server {i c f} hc hf hvetted := by
    obtain ⟨j,v,hv,hmeets⟩ : ∃ (j : ℕ) (v : Serving N), W.servings[j]? = some v ∧
        Meets c.session f v.service v.answered := by
      rcases client_before hc with hc | ⟨_,_,hnone⟩ | ⟨resp,c₀,rfl,hc₀,rfl⟩
      · exact h.server hc hf hvetted
      · rw [hnone] at hf
        cases hf
      · rw [(read_session _ _ c₀).1] at hvetted ⊢
        rcases read_finished hf with hf | hf
        · exact h.server hc₀ hf hvetted
        · exact meets_of_read hI hN h.sound hev hc₀ hf hvetted
    obtain ⟨v',hv',hservice,hanswered,_⟩ := serving_kept E W ev hv
    exact ⟨j,v',hv',by rwa [hservice,hanswered]⟩
  client {j v t} hv ht howned := by
    obtain ⟨i,c,f,hc,hf,hjoined⟩ : ∃ (i : ℕ) (c : Client N α) (f : Finished N),
        W.clients[i]? = some c ∧ c.finished = some f ∧
          Joined E c.session f v.service v.answered t := by
      rcases serving_before hv with hv | ⟨_,_,hnone⟩ | ⟨frame,v₀,rfl,hv₀,rfl⟩
      · exact h.client hv ht howned
      · rw [hnone] at ht
        cases ht
      · obtain ⟨hservice,hanswered⟩ := take_service frame v₀
        rw [hservice] at howned ⊢
        rw [hanswered]
        rcases take_accepted ht with ht | ht
        · exact h.client hv₀ ht howned
        · exact joined_of_accept hI hN h.sound hev hv₀ ht howned
    obtain ⟨c',hc',hsession,hkept⟩ := client_kept E W ev hc
    exact ⟨i,c',f,hc',hkept f hf,by rwa [hsession]⟩

theorem authentic_run {evs : List (Event N α)} (h : Along (World.step E) (Genuine M) evs {}) :
    Authentic E M (run (World.step E) evs {}) :=
  h.invariant (fun _ _ hW hev => hW.step hI hN hev)
    ⟨sound_empty E,fun hc => by simp at hc,fun hv => by simp at hv⟩

end

/-- A session that comes to the end of its handshake with a policy that is sound has been answered
by the owner of the server's key, with its own hello and header. -/
theorem server_authenticated (hI : N.Ideal) (hN : Separate N) {E : Setting N} {M : Means N.toSuite}
    {evs : List (Event N α)} (hrun : Along (World.step E) (Genuine M) evs {}) {i : ℕ}
    {c : Client N α} {f : Finished N} (hc : (run (World.step E) evs {}).clients[i]? = some c)
    (hf : c.finished = some f) (hvetted : Vetted M c.session) :
    ∃ (j : ℕ) (v : Serving N), (run (World.step E) evs {}).servings[j]? = some v ∧
      Meets c.session f v.service v.answered :=
  (authentic_run hI hN hrun).server hc hf hvetted

/-- A serving that takes a finish of a key that is not the intruder's has joined a session of this
key, which has read its answer and has the same keys. -/
theorem client_authenticated (hI : N.Ideal) (hN : Separate N) {E : Setting N} {M : Means N.toSuite}
    {evs : List (Event N α)} (hrun : Along (World.step E) (Genuine M) evs {}) {j : ℕ}
    {v : Serving N} {t : Accepted N} (hv : (run (World.step E) evs {}).servings[j]? = some v)
    (ht : v.accepted = some t) (howned : Owned M v.service t) :
    ∃ (i : ℕ) (c : Client N α) (f : Finished N), (run (World.step E) evs {}).clients[i]? = some c ∧
      c.finished = some f ∧ Joined E c.session f v.service v.answered t :=
  (authentic_run hI hN hrun).client hv ht howned

/-- The keys of a login whose server was authenticated hang on the agreement of two ephemeral
keys, its own and one that the server has drawn for it. Whoever cannot make this agreement does
not know them, even with all static keys. -/
theorem login_keys_secret (hI : N.Ideal) (hN : Separate N) {E : Setting N} {M : Means N.toSuite}
    {evs : List (Event N α)} (hrun : Along (World.step E) (Genuine M) evs {}) {i : ℕ}
    {c : Client N α} {f : Finished N} (hc : (run (World.step E) evs {}).clients[i]? = some c)
    (hf : c.finished = some f) (hvetted : Vetted M c.session) :
    ∃ (j : ℕ) (v : Serving N) (eph eph' : N.Priv) (δ send recv : N.Secret),
      (run (World.step E) evs {}).servings[j]? = some v ∧
      Meets c.session f v.service v.answered ∧
      c.session.fresh = .ok eph ∧ v.service.fresh = .ok eph' ∧
      N.ecdh eph (N.publicKey eph') = some δ ∧
      f.xx.sendCipher = .ok (newCipher send,newCipher recv) ∧
      ∀ later : Means N.toSuite, Beyond later δ → ¬Known later send ∧ ¬Known later recv := by
  have hauthentic := authentic_run hI hN hrun
  obtain ⟨j,v,hv,hmeets⟩ := hauthentic.server hc hf hvetted
  obtain ⟨eph',hfresh',heph'⟩ := hmeets.answered
  obtain ⟨static,eph,x,hx⟩ := hauthentic.sound.finished i c hc f hf
  obtain ⟨_,_,_,hstate⟩ := hx.payload
  have hhello := hx.hello
  rw [← hx.ephS,heph'] at hhello
  refine ⟨j,v,eph,eph',x.hello,_,_,hv,hmeets,hx.fresh,hfresh',hhello,hx.ciphers,?_⟩
  intro later hbeyond
  have hunknown := not_known_of_beyond hN hhello hbeyond
  rw [hstate]
  exact ⟨fun hknown => hunknown (known_agreements hI hN (.inl hknown)).1,
    fun hknown => hunknown (known_agreements hI hN (.inr hknown)).1⟩

/-! A login of the written-out suite, before an intruder who has many keys. -/

theorem sample_separate : Separate TranscriptSuite.suite where
  agreed k p s hs a d h := by
    obtain ⟨t,ht,rfl⟩ := TranscriptSuite.ecdh_agreed hs
    obtain ⟨x,y,rfl⟩ := agreement_agreed ht
    cases h
  digest_hash l k d h := by cases h
  digest_agreed l k p h := by
    obtain ⟨t,ht,hs⟩ := TranscriptSuite.ecdh_agreed h
    obtain ⟨x,y,rfl⟩ := agreement_agreed ht
    cases hs

/-- In this suite a secret is agreed with its two keys only, whatever the value is. -/
theorem sample_paired {a b k : UInt8} {p : Bytes} {s : TranscriptSuite.suite.Secret}
    (hab : TranscriptSuite.suite.ecdh a (TranscriptSuite.suite.publicKey b) = some s)
    (hk : TranscriptSuite.suite.ecdh k p = some s) : k = a ∨ k = b := by
  obtain ⟨t,ht,rfl⟩ := TranscriptSuite.ecdh_agreed hab
  obtain ⟨t',ht',hcode⟩ := TranscriptSuite.ecdh_agreed hk
  obtain rfl : t = t' := (SymbolicSuite.Term.code_append (u := []) (v := []) (by rw [hcode])).1
  exact SymbolicSuite.agreement_paired ht ht'

/-- The frames of a login that nobody disturbs were sent in it. -/
theorem login_relays {E : Setting N} {s : Session N α} {v : Service N} {hello : Bytes}
    {xx : XX N} {a : Answered N} {f : Finished N} {t : Accepted N}
    (h : Completes E s v hello xx a f t) :
    Along (World.step E) (fun W ev => ∀ c ∈ delivered ev, c ∈ sent W)
      (loginEvents {} s v hello a f) {} := by
  unfold loginEvents
  refine ⟨fun c hc => ?_,fun c hc => ?_,fun c hc => ?_,fun c hc => ?_,trivial⟩
  · simp only [delivered,List.not_mem_nil] at hc
  · simp only [delivered,List.not_mem_nil] at hc
  · simp only [delivered,h.reads] at hc
    refine List.mem_append_right _ ?_
    simp only [World.step,h.hails,h.answers,List.nil_append,List.flatMap_cons,List.flatMap_nil,
      List.append_nil]
    exact hc
  · simp only [delivered,h.hears] at hc
    refine List.mem_append_left _ ?_
    simp only [World.step,h.hails,h.answers,List.nil_append,List.length_nil,List.modify_zero_cons,
      Client.read,h.finishes,Option.isSome_none,Bool.or_self,Bool.false_eq_true,if_false,
      List.flatMap_cons,List.flatMap_nil,Option.toList_some,List.append_nil]
    exact hc

/-- The intruder may pass on what was sent. -/
theorem genuine_login {E : Setting N} {s : Session N α} {v : Service N} {hello : Bytes}
    {xx : XX N} {a : Answered N} {f : Finished N} {t : Accepted N}
    (h : Completes E s v hello xx a f t) (M : Means N.toSuite) :
    Along (World.step E) (Genuine M) (loginEvents {} s v hello a f) {} :=
  (login_relays h).mono fun _ _ hsent c hc _ _ _ _ _ => .inr (.inl (hsent c hc))

theorem sample_completes : ∃ hello xx a f t,
    Completes sampleSetting sampleSession sampleService hello xx a f t ∧
      t.remote = TranscriptSuite.suite.publicKey (1 : UInt8) := by
  obtain ⟨hello,xx,a,f,t,h⟩ := sample_ready.completes TranscriptSuite.suite_correct
    TranscriptSuite.sealed_length sample_fits
  obtain ⟨static,hstatic,hremote⟩ := h.joined.remote
  cases hstatic
  exact ⟨hello,xx,a,f,t,h,hremote⟩

/-- The sample login, and that its run is one of the intruder's. -/
theorem sample_login (M : Means TranscriptSuite.suite.toSuite) :
    ∃ evs xx a f t, Along (World.step sampleSetting) (Genuine M) evs {} ∧
      run (World.step sampleSetting) evs {} = loggedIn {} sampleSession sampleService xx a f t ∧
      t.remote = TranscriptSuite.suite.publicKey (1 : UInt8) := by
  obtain ⟨hello,xx,a,f,t,h,hremote⟩ := sample_completes
  exact ⟨_,xx,a,f,t,genuine_login h M,run_login h {},hremote⟩

/-- All keys but two, and every public value. -/
def allBut (a b : UInt8) : Means TranscriptSuite.suite.toSuite where
  keys := fun k : UInt8 => k ≠ a ∧ k ≠ b
  points := Set.univ

theorem beyond_allBut {a b : UInt8} {δ : TranscriptSuite.suite.Secret}
    (h : TranscriptSuite.suite.ecdh a (TranscriptSuite.suite.publicKey b) = some δ) :
    Beyond (allBut b a) δ := by
  intro k hk p _ he
  rcases sample_paired h he with rfl | rfl
  · exact hk.2 rfl
  · exact hk.1 rfl

theorem sample_vetted : Vetted (allBut 3 5) sampleSession := by
  intro auth eph hauth hfresh static cert δ hpass hδ
  cases hauth
  cases hfresh
  dsimp only at hpass
  split_ifs at hpass with hstatic
  rw [hstatic] at hδ
  exact beyond_allBut hδ

theorem server_authenticated_sample : ∃ evs xx a f t,
    run (World.step sampleSetting) evs {} = loggedIn {} sampleSession sampleService xx a f t ∧
    Meets sampleSession f sampleService a := by
  obtain ⟨evs,xx,a,f,t,hgenuine,hrun,_⟩ := sample_login (allBut 3 5)
  obtain ⟨j,v,hv,hmeets⟩ := server_authenticated TranscriptSuite.suite_ideal sample_separate
    hgenuine (i := 0) (by rw [hrun]; rfl) rfl sample_vetted
  rw [hrun] at hv
  refine ⟨evs,xx,a,f,t,hrun,?_⟩
  cases j with
  | zero =>
      cases hv
      exact hmeets
  | succ j => cases hv

theorem sample_owned {t : Accepted TranscriptSuite.suite}
    (h : t.remote = TranscriptSuite.suite.publicKey (1 : UInt8)) :
    Owned (allBut 1 6) sampleService t := by
  intro eph δ hfresh hδ
  cases hfresh
  rw [h] at hδ
  exact beyond_allBut hδ

theorem client_authenticated_sample : ∃ evs xx a f t,
    run (World.step sampleSetting) evs {} = loggedIn {} sampleSession sampleService xx a f t ∧
    Joined sampleSetting sampleSession f sampleService a t := by
  obtain ⟨evs,xx,a,f,t,hgenuine,hrun,hremote⟩ := sample_login (allBut 1 6)
  obtain ⟨i,c,f',hc,hf,hjoined⟩ := client_authenticated TranscriptSuite.suite_ideal sample_separate
    hgenuine (j := 0) (by rw [hrun]; rfl) rfl (sample_owned hremote)
  rw [hrun] at hc
  refine ⟨evs,xx,a,f,t,hrun,?_⟩
  cases i with
  | zero =>
      cases hc
      cases hf
      exact hjoined
  | succ i => cases hc

/-- Both static keys, and every public value. -/
def staticKeys : Means TranscriptSuite.suite.toSuite where
  keys := fun k : UInt8 => k = 1 ∨ k = 3
  points := Set.univ

theorem login_keys_secret_sample : ∃ evs xx a f t,
    run (World.step sampleSetting) evs {} = loggedIn {} sampleSession sampleService xx a f t ∧
    ∃ send recv, f.xx.sendCipher = .ok (newCipher send,newCipher recv) ∧
      ¬Known staticKeys send ∧ ¬Known staticKeys recv := by
  obtain ⟨evs,xx,a,f,t,hgenuine,hrun,_⟩ := sample_login (allBut 3 5)
  obtain ⟨j,v,eph,eph',δ,send,recv,hv,_,hfresh,hfresh',hδ,hkeys,hsecret⟩ :=
    login_keys_secret TranscriptSuite.suite_ideal sample_separate hgenuine (i := 0)
      (by rw [hrun]; rfl) rfl sample_vetted
  refine ⟨evs,xx,a,f,t,hrun,send,recv,hkeys,hsecret staticKeys ?_⟩
  rw [hrun] at hv
  cases j with
  | zero =>
      cases hv
      cases hfresh
      cases hfresh'
      rintro k (rfl | rfl) p _ he
      · exact absurd (sample_paired hδ he) (by decide)
      · exact absurd (sample_paired hδ he) (by decide)
  | succ j => cases hv

end BaturWhatsApi.LoginAuthentication
