import BaturWhatsApi.LoginAuthentication
import BaturWhatsApi.LoginTraffic

/-!
# Nodes before an active intruder

The intruder of the logins also carries the frames that follow them. He can hold them back, repeat
them, mix them up and send them to others, but he makes none for a key that he does not know. An
end then opens what the other end of its login has sealed, in the same order and without a gap.
The counter of a cipher has 32 bits, so this holds for the first `2^32` frames.
-/
namespace BaturWhatsApi.TrafficAuthentication
open ByteStrings CipherSuite NoiseCipher NoiseHandshake NoiseAgreement NodeModel
open LoginTranscripts LoginCompletion LoginTraffic Intruder Runs
open Login hiding Event
open LoginAuthentication hiding Genuine Available

variable {N : NoiseSuite} {α : Type}

/-! ### The intruder -/

/-- The intruder has the ciphertext: he knows every key that opens it, or it was sent. -/
def Available (M : Means N.toSuite) (T : Traffic N α) (ct : Bytes) : Prop :=
  ∀ k n ad p, N.aeadOpen k n ct ad = some p → (∀ s, .secret s ∈ k → Known M s) ∨
    ct ∈ LoginAuthentication.sent T.login ∨ ∃ q c, T.channels q = some c ∧ ct ∈ c.frames

def Genuine (M : Means N.toSuite) (T : Traffic N α) : Event N α → Prop
  | .login ev => ∀ ct ∈ delivered ev, Available M T ct
  | .deliver _ raw => Available M T raw
  | _ => True

/-! ### Where a plaintext comes from -/

/-- Some end has sealed the plaintext under the key, with a number that has the same counter. -/
def Origin (K : Codec) (T : Traffic N α) (key : N.Secret) (k : ℕ) (plain : Bytes) : Prop :=
  ∃ q c recv m n, T.channels q = some c ∧
    ciphers T.login q = some (newCipher key,newCipher recv) ∧
    c.sent[m]? = some n ∧ plain = K.plain n ∧ UInt32.ofNat m = UInt32.ofNat k

theorem Origin.step {E : Setting N} {K : Codec} {T : Traffic N α} {key : N.Secret} {k : ℕ}
    {plain : Bytes} (h : Origin K T key k plain) (ev : Event N α) :
    Origin K (T.step E K ev) key k plain := by
  obtain ⟨q,c,recv,m,n,hc,hkeys,hn,hplain,hm⟩ := h
  refine ⟨q,_,recv,m,n,step_channel E K ev hc,ciphers_kept E K ev hkeys,?_,hplain,hm⟩
  rw [after_sent,List.getElem?_append_left (List.getElem?_eq_some_iff.mp hn).1]
  exact hn

/-- What holds whatever the intruder does. -/
structure Secure (E : Setting N) (K : Codec) (M : Means N.toSuite) (T : Traffic N α) : Prop where
  authentic : Authentic E M T.login
  wired : Wired K T
  origin {p : Party} {c : Channel N} {send recv : N.Secret} {k : ℕ} {plain : Bytes} :
    T.channels p = some c → ciphers T.login p = some (newCipher send,newCipher recv) →
    ¬Known M recv → c.opened[k]? = some plain → Origin K T recv k plain
  waiting {p : Party} {c : Channel N} {send recv : N.Secret} {k : ℕ} {raw plain : Bytes} :
    T.channels p = some c → ciphers T.login p = some (newCipher send,newCipher recv) →
    ¬Known M recv → raw ∈ c.queue →
    N.aeadOpen [.secret recv] (iv (UInt32.ofNat k)) raw [] = some plain → Origin K T recv k plain

/-- The ciphertexts of a login are bound to its transcript. -/
theorem sent_bound {E : Setting N} {W : World N α} (hsound : Sound E W) {ct : Bytes}
    (h : ct ∈ LoginAuthentication.sent W) :
    ∃ (nh : Handshake N) (p : Bytes), ct = (nh.encrypt p).1 ∧ nh.h ≠ [] := by
  rcases sent_cases hsound h with ⟨_,v,_,o,_,_,rfl | rfl⟩ | ⟨_,_,_,_,_,x,_,_,_,_,_,rfl | ⟨_,rfl⟩⟩
  · exact ⟨o.first,_,rfl,List.cons_ne_nil _ _⟩
  · exact ⟨o.second,_,rfl,List.cons_ne_nil _ _⟩
  · exact ⟨x.third,_,rfl,List.cons_ne_nil _ _⟩
  · exact ⟨x.fourth,_,rfl,List.cons_ne_nil _ _⟩

section
variable (hI : N.Ideal) {E : Setting N} {K : Codec} {M : Means N.toSuite} {T : Traffic N α}
include hI

/-- A frame that opens under a key that the intruder does not know. -/
theorem origin_of_opened (hsound : Sound E T.login) (hwired : Wired K T) {raw plain : Bytes}
    {key : N.Secret} {k : ℕ} (hraw : Available M T raw) (hkey : ¬Known M key)
    (hopen : N.aeadOpen [.secret key] (iv (UInt32.ofNat k)) raw [] = some plain) :
    Origin K T key k plain := by
  rcases hraw _ _ _ _ hopen with hknown | hsent | ⟨q,c,hc,hframe⟩
  · exact absurd (hknown key List.mem_cons_self) hkey
  · obtain ⟨nh,p,rfl,hh⟩ := sent_bound hsound hsent
    exact absurd (hI.opened hopen).2.2.1.symm hh
  · obtain ⟨send,recv,m,n,hkeys,hn,rfl⟩ := hwired.frame hc hframe
    obtain ⟨hk,hiv,_,hp⟩ := hI.opened hopen
    obtain rfl := Atom.secret.inj (List.cons.inj hk).1
    exact ⟨q,c,recv,m,n,hc,hkeys,hn,hp,(iv_injective hiv).symm⟩

theorem Secure.step (hN : Separate N) (h : Secure E K M T) {ev : Event N α}
    (hev : Genuine M T ev) : Secure E K M (T.step E K ev) where
  authentic := by
    cases ev with
    | login ev =>
        refine h.authentic.step hI hN fun ct hct k n ad p hopen => ?_
        rcases hev ct hct k n ad p hopen with hknown | hsent | ⟨q,c,hc,hframe⟩
        · exact .inl hknown
        · exact .inr (.inl hsent)
        · obtain ⟨send,_,m,n,_,_,rfl⟩ := h.wired.frame hc hframe
          exact .inr (.inr ⟨_,_,_,rfl⟩)
    | connect q =>
        rw [Traffic.step]
        split <;> exact h.authentic
    | send q n => exact h.authentic
    | deliver q raw => exact h.authentic
    | take i => exact h.authentic
  wired := h.wired.step ev
  origin {p c send recv k plain} hc hkeys hknown hk := by
    rcases channel_before hc with ⟨c₀,hc₀,rfl⟩ | ⟨_,_,rfl⟩
    · obtain ⟨send',recv',hold,hkeyed⟩ := h.wired p c₀ hc₀
      cases Option.some.inj (hkeys.symm.trans (ciphers_kept E K ev hold))
      rcases after_opened hkeyed hk with hk | ⟨raw,rfl | hqueue,hopen⟩
      · exact (h.origin hc₀ hold hknown hk).step ev
      · exact (origin_of_opened hI h.authentic.sound h.wired hev hknown hopen).step _
      · exact (h.waiting hc₀ hold hknown hqueue hopen).step ev
    · simp at hk
  waiting {p c send recv k raw plain} hc hkeys hknown hqueue hopen := by
    rcases channel_before hc with ⟨c₀,hc₀,rfl⟩ | ⟨_,_,rfl⟩
    · obtain ⟨send',recv',hold,_⟩ := h.wired p c₀ hc₀
      cases Option.some.inj (hkeys.symm.trans (ciphers_kept E K ev hold))
      rcases after_queue hqueue with hqueue | rfl
      · exact (h.waiting hc₀ hold hknown hqueue hopen).step ev
      · exact (origin_of_opened hI h.authentic.sound h.wired hev hknown hopen).step _
    · simp at hqueue

theorem secure_run (hN : Separate N) {evs : List (Event N α)}
    (h : Along (Traffic.step E K) (Genuine M) evs {}) :
    Secure E K M (run (Traffic.step E K) evs {}) := by
  refine h.invariant (fun T ev hT hev => hT.step hI hN hev) ⟨?_,?_,?_,?_⟩
  · exact ⟨sound_empty E,fun hc => by simp at hc,fun hv => by simp at hv⟩
  · intro p c hc
    cases hc
  · intro p c send recv k plain hc
    cases hc
  · intro p c send recv k raw plain hc
    cases hc

end

/-! ### Whose keys they are -/

/-- What an end has agreed with the ephemeral key that it was sent. -/
def agreement (W : World N α) : Party → Option N.Secret
  | .client i => do
      let c ← W.clients[i]?
      let f ← c.finished
      let eph ← c.session.fresh.toOption
      N.ecdh eph f.xx.remoteEph
  | .serving j => do
      let v ← W.servings[j]?
      let eph ← v.service.fresh.toOption
      N.ecdh eph v.answered.hailed

/-- At most one other end has the agreement of this one. -/
def Sole (W : World N α) (p : Party) : Prop :=
  ∀ δ q q', agreement W p = some δ → agreement W q = some δ → agreement W q' = some δ →
    q ≠ p → q' ≠ p → q = q'

theorem agreement_client {E : Setting N} {W : World N α} {i : ℕ} {c : Client N α} {f : Finished N}
    {static eph : N.Priv} {x : Closing N} (hc : W.clients[i]? = some c) (hf : c.finished = some f)
    (hx : Finishes E c.session f static eph x) : agreement W (.client i) = some x.hello := by
  simp [agreement,hc,hf,hx.fresh,Except.toOption,hx.ephS,hx.hello]

theorem agreement_serving {W : World N α} {j : ℕ} {v : Serving N} {eph : N.Priv} {o : Opening N}
    (hv : W.servings[j]? = some v) (ho : Answers v.service v.answered eph o) :
    agreement W (.serving j) = some o.hello := by
  simp [agreement,hv,ho.fresh,Except.toOption,← ho.ephC,ho.hello]

/-- Two ends that have met have made the same agreement. -/
theorem agreement_meets (hC : N.Correct) {W : World N α} {i j : ℕ} {c : Client N α}
    {f : Finished N} {v : Serving N} (hc : W.clients[i]? = some c) (hf : c.finished = some f)
    (hv : W.servings[j]? = some v) (h : Meets c.session f v.service v.answered) :
    agreement W (.serving j) = agreement W (.client i) := by
  obtain ⟨eph,hfresh,hhailed⟩ := h.hailed
  obtain ⟨eph',hfresh',hremote⟩ := h.answered
  obtain ⟨δ,hδ,hδ'⟩ := hC.ecdh_honest eph eph'
  simp [agreement,hc,hf,hv,hfresh,hfresh',Except.toOption,hremote,hhailed,hδ,hδ']

/-- The send and receive keys of an end, with its transcript. -/
inductive KeysOf (E : Setting N) (W : World N α) : Party → N.Secret → N.Secret → Prop where
  | client {i : ℕ} {c : Client N α} {f : Finished N} {static eph : N.Priv} {x : Closing N}
      (hc : W.clients[i]? = some c) (hf : c.finished = some f)
      (hx : Finishes E c.session f static eph x) :
      KeysOf E W (.client i) (f.xx.nh.extractExpand []).1 (f.xx.nh.extractExpand []).2
  | serving {j : ℕ} {v : Serving N} {t : Accepted N} {eph : N.Priv} {x : Closing N} {ct : Bytes}
      (hv : W.servings[j]? = some v) (ht : v.accepted = some t)
      (hx : Takes v.service v.answered t eph x ct) :
      KeysOf E W (.serving j) (t.xx.nh.extractExpand []).2 (t.xx.nh.extractExpand []).1

theorem keysOf_ciphers {E : Setting N} {W : World N α} (hsound : Sound E W) {p : Party}
    {send recv : N.Secret} (h : ciphers W p = some (newCipher send,newCipher recv)) :
    KeysOf E W p send recv := by
  cases p with
  | client i =>
      simp only [ciphers,Option.bind_eq_bind,Option.bind_eq_some_iff] at h
      obtain ⟨c,hc,f,hf,hk⟩ := h
      obtain ⟨static,eph,x,hx⟩ := hsound.finished i c hc f hf
      rw [hx.ciphers] at hk
      cases hk
      exact .client hc hf hx
  | serving j =>
      simp only [ciphers,Option.bind_eq_bind,Option.bind_eq_some_iff] at h
      obtain ⟨v,hv,t,ht,hk⟩ := h
      obtain ⟨eph,x,ct,hx⟩ := hsound.accepted j v hv t ht
      rw [hx.ciphers] at hk
      cases hk
      exact .serving hv ht hx

section
variable (hI : N.Ideal)
include hI

/-- The keys of the two directions differ, in all logins. -/
theorem expand_ne (a b : Handshake N) : (a.extractExpand []).1 ≠ (b.extractExpand []).2 := by
  intro h
  have hdata := (hI.hmac_inj h).2
  cases (List.cons.inj hdata).1

/-- Either of the two keys determines the chaining key. -/
theorem ck_of_expand {a b : Handshake N} (h : (a.extractExpand []).1 = (b.extractExpand []).1 ∨
    (a.extractExpand []).2 = (b.extractExpand []).2) : a.ck = b.ck := by
  have hprk : N.hmac a.ck [] = N.hmac b.ck [] := by
    rcases h with h | h <;> exact Atom.secret.inj (List.cons.inj (hI.hmac_inj h).1).1
  exact (hI.hmac_inj hprk).1

/-- The last chaining key determines the agreement of the ephemeral keys. -/
theorem hello_of_ck {x y : Closing N} (h : x.fourth.ck = y.fourth.ck) : x.hello = y.hello := by
  have hsecond : x.second.ck = y.second.ck := (mixKey_ck_inj hI h).1
  have hfirst : x.first.ck = y.first.ck := (mixKey_ck_inj hI hsecond).1
  exact Atom.secret.inj (List.cons.inj (mixKey_ck_inj hI hfirst).2).1

variable (hC : N.Correct) {E : Setting N} {W : World N α} (hsound : Sound E W)
include hC hsound

/-- The one that seals under the key under which a session opens. -/
theorem sender_of_client {i j : ℕ} {c : Client N α} {f : Finished N} {v : Serving N}
    (hsole : Sole W (.client i)) (hc : W.clients[i]? = some c) (hf : c.finished = some f)
    (hv : W.servings[j]? = some v) (hmeets : Meets c.session f v.service v.answered) {q : Party}
    {other : N.Secret}
    (hq : ciphers W q = some (newCipher (f.xx.nh.extractExpand []).2,newCipher other)) :
    q = .serving j := by
  obtain ⟨static,eph,x,hx⟩ := hsound.finished i c hc f hf
  obtain ⟨_,_,_,hstate⟩ := hx.payload
  generalize hkey : (f.xx.nh.extractExpand []).2 = key at hq
  cases keysOf_ciphers hsound hq with
  | client _ _ _ => exact absurd hkey.symm (expand_ne hI _ _)
  | @serving j' v' t ephq y ct hv' ht hy =>
      have hck := ck_of_expand hI (.inr hkey)
      rw [hstate,hy.state] at hck
      have hhello := hello_of_ck hI (x := x) (y := y) hck
      have hours := agreement_client hc hf hx
      have hmet := (agreement_meets hC hc hf hv hmeets).trans hours
      refine hsole _ _ _ hours ?_ hmet nofun nofun
      rw [agreement_serving hv' hy.answers,hhello]

/-- The one that seals under the key under which a serving opens. -/
theorem sender_of_serving {i j : ℕ} {c : Client N α} {f : Finished N} {v : Serving N}
    {t : Accepted N} (hsole : Sole W (.serving j)) (hc : W.clients[i]? = some c)
    (hf : c.finished = some f) (hv : W.servings[j]? = some v) (ht : v.accepted = some t)
    (hmeets : Meets c.session f v.service v.answered) {q : Party} {other : N.Secret}
    (hq : ciphers W q = some (newCipher (t.xx.nh.extractExpand []).1,newCipher other)) :
    q = .client i := by
  obtain ⟨eph,x,ct,hx⟩ := hsound.accepted j v hv t ht
  generalize hkey : (t.xx.nh.extractExpand []).1 = key at hq
  cases keysOf_ciphers hsound hq with
  | @client i' c' f' static ephq y hc' hf' hy =>
      have hck := ck_of_expand hI (.inl hkey)
      obtain ⟨_,_,_,hstate⟩ := hy.payload
      rw [hstate,hx.state] at hck
      have hhello := hello_of_ck hI (x := x) (y := y) hck
      have hours := agreement_serving hv hx.answers
      have hmet := (agreement_meets hC hc hf hv hmeets).symm.trans hours
      refine hsole _ _ _ hours ?_ hmet nofun nofun
      rw [agreement_client hc' hf' hy,hhello]
  | serving _ _ _ => exact absurd hkey (expand_ne hI _ _)

end

/-! ### The nodes of the other end -/

/-- All that an end has opened is what one other end has sealed, in order. -/
theorem opened_prefix {E : Setting N} {K : Codec} {M : Means N.toSuite} {T : Traffic N α}
    (h : Secure E K M T) {p q : Party} {send recv : N.Secret}
    (hkeys : ciphers T.login p = some (newCipher send,newCipher recv)) (hknown : ¬Known M recv)
    (hunique : ∀ q' other, ciphers T.login q' = some (newCipher recv,newCipher other) → q' = q)
    (hlen : (T.sent q).length < 2^32) :
    T.opened p <+: (T.sent q).map K.plain ∧
      T.handled p <+: (T.sent q).filterMap fun n => K.read (K.plain n) := by
  have hplain : ∀ k plain, (T.opened p)[k]? = some plain →
      ∃ m n, (T.sent q)[m]? = some n ∧ plain = K.plain n ∧ UInt32.ofNat m = UInt32.ofNat k := by
    intro k plain hk
    cases hc : T.channels p with
    | none => simp [Traffic.opened,hc] at hk
    | some c =>
        simp only [Traffic.opened,hc,Option.elim_some] at hk
        obtain ⟨q',d,other,m,n,hd,hq,hn,hp,hm⟩ := h.origin hc hkeys hknown hk
        obtain rfl := hunique q' other hq
        refine ⟨m,n,?_,hp,hm⟩
        simp only [Traffic.sent,hd,Option.elim_some]
        exact hn
  have hsame : ∀ {m k : ℕ}, m < 2^32 → k < 2^32 → UInt32.ofNat m = UInt32.ofNat k → m = k :=
    fun hm hk he => counter_inj (c := 0) hm hk (congrArg (0+·) he)
  -- a frame behind the last one of the sender would have to be an earlier one
  have hle : (T.opened p).length ≤ (T.sent q).length := by
    by_contra hlt
    obtain ⟨plain,hk⟩ : ∃ plain, (T.opened p)[(T.sent q).length]? = some plain :=
      ⟨_,List.getElem?_eq_getElem (Nat.not_le.mp hlt)⟩
    obtain ⟨m,n,hn,_,hm⟩ := hplain _ plain hk
    have hlast := (List.getElem?_eq_some_iff.mp hn).1
    have := hsame (hlast.trans hlen) hlen hm
    omega
  have hopened : T.opened p <+: (T.sent q).map K.plain := by
    rw [List.prefix_iff_getElem?]
    intro k hk
    obtain ⟨m,n,hn,hp,hm⟩ := hplain k _ (List.getElem?_eq_getElem hk)
    obtain rfl := hsame ((List.getElem?_eq_some_iff.mp hn).1.trans hlen)
      ((hk.trans_le hle).trans hlen) hm
    rw [List.getElem?_map,hn,hp,Option.map_some]
  refine ⟨hopened,?_⟩
  have hhandled : T.handled p = (T.opened p).filterMap K.read := by
    cases hc : T.channels p with
    | none => simp [Traffic.handled,Traffic.opened,hc]
    | some c =>
        obtain ⟨_,_,_,hkeyed⟩ := h.wired p c hc
        simpa only [Traffic.handled,Traffic.opened,hc,Option.elim_some] using hkeyed.handled
  rw [hhandled]
  have hread := hopened.filterMap K.read
  rwa [List.filterMap_map] at hread

/-! ### A run in which the intruder only passes frames on -/

theorem along_logins {E : Setting N} {K : Codec} {P : World N α → Login.Event N α → Prop}
    {Q : Traffic N α → Event N α → Prop} (hPQ : ∀ T ev, P T.login ev → Q T (.login ev))
    {evs : List (Login.Event N α)} {T : Traffic N α} (h : Along (World.step E) P evs T.login) :
    Along (Traffic.step E K) Q (evs.map .login) T := by
  induction evs generalizing T with
  | nil => trivial
  | cons ev evs ih => exact ⟨hPQ T ev h.1,ih h.2⟩

section
variable {E : Setting N} {s : Session N α} {v : Service N} {hello : Bytes} {xx : XX N}
  {a : Answered N} {f : Finished N} {t : Accepted N} (h : Completes E s v hello xx a f t)
include h

theorem genuine_opening (K : Codec) (M : Means N.toSuite) :
    Along (Traffic.step E K) (Genuine M) (opening {} s v hello a f) {} := by
  refine (along_logins (fun T ev hsent => ?_) (login_relays h)).append ⟨trivial,trivial,trivial⟩
  intro ct hct k n ad p _
  exact .inr (.inl (hsent ct hct))

theorem opening_login (K : Codec) (W : World N α) :
    (run (Traffic.step E K) (opening W s v hello a f) {login := W}).login =
      loggedIn W s v xx a f t := by
  have hconnect : ∀ (T : Traffic N α) p, (T.step E K (.connect p)).login = T.login := by
    intro T p
    rw [Traffic.step]
    split <;> rfl
  rw [opening,run_append,run_logins,run_login h,run,List.foldl_cons,List.foldl_cons,
    List.foldl_nil,hconnect,hconnect]

end

/-- The frame of a node that an end has sent. -/
theorem available_sent {K : Codec} {T : Traffic N α} {p q : Party} {send recv : N.Secret} {n m : ℕ}
    {c : Channel N} (h : Hears K T p q send recv n c) {node : Node}
    (hnode : (T.sent p)[m]? = some node) (M : Means N.toSuite) :
    Available M T (frame K send m node) := by
  intro k n ad plain _
  refine .inr (.inr ⟨p,c,h.channel,List.mem_of_getElem? (i := m) ?_⟩)
  rw [h.keyed.frames,List.getElem?_mapIdx,← h.sent,hnode,Option.map_some]

theorem genuine_sampleTalk (hC : N.Correct) (E : Setting N) {T : Traffic N α} {k l : N.Secret}
    (hc : Hears sampleCodec T (.client 0) (.serving 0) k l 0
      {send := newCipher k,recv := newCipher l})
    (hd : Hears sampleCodec T (.serving 0) (.client 0) l k 0
      {send := newCipher l,recv := newCipher k}) (M : Means N.toSuite) :
    Along (Traffic.step E sampleCodec) (Genuine M) (sampleTalk k l) T := by
  obtain ⟨h₁,h₂,h₃,h₄,_⟩ := sampleTalk_inOrder hC E hc hd
  -- the ends just before a frame is brought to the session, and to the server
  have hfirst : Along (Traffic.step E sampleCodec) (InOrder (.client 0) (.serving 0)) [_] T :=
    ⟨h₁,trivial⟩
  have hfour : Along (Traffic.step E sampleCodec) (InOrder (.client 0) (.serving 0)) [_,_,_,_] T :=
    ⟨h₁,h₂,h₃,h₄,trivial⟩
  obtain ⟨_,hserver⟩ := hears_run hC hfirst hc hd
  obtain ⟨hsession,_⟩ := hears_run hC hfour hc hd
  refine ⟨trivial,available_sent hserver ?_ M,trivial,trivial,available_sent hsession ?_ M,trivial⟩
  · rw [sent_run E sampleCodec _ hd.channel]
    rfl
  · rw [sent_run E sampleCodec _ hc.channel]
    rfl

/-- The sample conversation, and that its run is one of the intruder's. -/
theorem sample_traffic (M : Means TranscriptSuite.suite.toSuite) :
    ∃ evs xx a f t, Along (Traffic.step sampleSetting sampleCodec) (Genuine M) evs {} ∧
      (run (Traffic.step sampleSetting sampleCodec) evs {}).login =
        loggedIn {} sampleSession sampleService xx a f t ∧
      t.remote = TranscriptSuite.suite.publicKey (1 : UInt8) ∧
      (run (Traffic.step sampleSetting sampleCodec) evs {}).sent (.client 0) = [sampleNode] ∧
      (run (Traffic.step sampleSetting sampleCodec) evs {}).sent (.serving 0) = [sampleNode] := by
  obtain ⟨hello,xx,a,f,t,h,hremote⟩ := sample_completes
  obtain ⟨k,l,hc,hd⟩ := hears_opening sampleCodec h {}
  refine ⟨opening {} sampleSession sampleService hello a f++sampleTalk k l,xx,a,f,t,
    (genuine_opening h sampleCodec M).append
      (genuine_sampleTalk TranscriptSuite.suite_correct sampleSetting hc hd M),?_,hremote,?_,?_⟩
  · rw [run_append]
    exact opening_login h sampleCodec {}
  · rw [run_append]
    exact sent_run sampleSetting sampleCodec _ hc.channel
  · rw [run_append]
    exact sent_run sampleSetting sampleCodec _ hd.channel

/-- There are two ends only. -/
theorem sample_sole (xx : XX TranscriptSuite.suite) (a : Answered TranscriptSuite.suite)
    (f : Finished TranscriptSuite.suite) (t : Accepted TranscriptSuite.suite) (p : Party) :
    Sole (loggedIn {} sampleSession sampleService xx a f t) p := by
  have hends : ∀ q δ, agreement (loggedIn {} sampleSession sampleService xx a f t) q = some δ →
      q = .client 0 ∨ q = .serving 0 := by
    intro q δ hq
    cases q with
    | client i =>
        cases i with
        | zero => exact .inl rfl
        | succ i => cases hq
    | serving j =>
        cases j with
        | zero => exact .inr rfl
        | succ j => cases hq
  intro δ q q' hp hq hq' hne hne'
  rcases hends p δ hp with rfl | rfl
  · rw [(hends q δ hq).resolve_left hne,(hends q' δ hq').resolve_left hne']
  · rw [(hends q δ hq).resolve_right hne,(hends q' δ hq').resolve_right hne']

/-! ### Both directions -/

section
variable (hC : N.Correct) (hI : N.Ideal) (hN : Separate N)
include hC hI hN

/-- A session with a sound policy handles the nodes of the serving that has answered it, in their
order: none is left out, repeated, changed or made up. -/
theorem server_nodes_authentic {E : Setting N} {K : Codec} {M : Means N.toSuite}
    {evs : List (Event N α)} (hrun : Along (Traffic.step E K) (Genuine M) evs {})
    {i : ℕ} {c : Client N α} {f : Finished N}
    (hc : (run (Traffic.step E K) evs {}).login.clients[i]? = some c) (hf : c.finished = some f)
    (hvetted : Vetted M c.session)
    (hsole : Sole (run (Traffic.step E K) evs {}).login (.client i)) :
    let T := run (Traffic.step E K) evs {}
    ∃ (j : ℕ) (v : Serving N), T.login.servings[j]? = some v ∧
      Meets c.session f v.service v.answered ∧ ((T.sent (.serving j)).length < 2^32 →
        T.opened (.client i) <+: (T.sent (.serving j)).map K.plain ∧
        T.handled (.client i) <+: (T.sent (.serving j)).filterMap fun n => K.read (K.plain n)) := by
  intro T
  have hsecure := secure_run hI hN hrun
  have hsound := hsecure.authentic.sound
  obtain ⟨j,v,hv,hmeets⟩ := hsecure.authentic.server hc hf hvetted
  obtain ⟨static,eph,x,hx⟩ := hsound.finished i c hc f hf
  obtain ⟨_,_,_,hstate⟩ := hx.payload
  refine ⟨j,v,hv,hmeets,fun hlen => ?_⟩
  have hkeys : ciphers T.login (.client i) = some (newCipher (f.xx.nh.extractExpand []).1,
      newCipher (f.xx.nh.extractExpand []).2) := by
    simp only [ciphers,Option.bind_eq_bind,Option.bind_eq_some_iff]
    exact ⟨c,hc,f,hf,by rw [hx.ciphers]; rfl⟩
  refine opened_prefix hsecure hkeys ?_ ?_ hlen
  · rw [hstate]
    intro hknown
    exact not_known_of_beyond hN hx.named (hvetted.named hx)
      (known_agreements hI hN (.inr hknown)).2.1
  · exact fun q other hq => sender_of_client hI hC hsound hsole hc hf hv hmeets hq

end

theorem server_nodes_authentic_sample : ∃ evs xx a f t,
    (run (Traffic.step sampleSetting sampleCodec) evs {}).login =
      loggedIn {} sampleSession sampleService xx a f t ∧
    Meets sampleSession f sampleService a ∧
    (run (Traffic.step sampleSetting sampleCodec) evs {}).opened (.client 0) <+:
      [sampleCodec.plain sampleNode] := by
  obtain ⟨evs,xx,a,f,t,hgenuine,hlogin,_,_,hsent⟩ := sample_traffic (allBut 3 5)
  obtain ⟨j,v,hv,hmeets,hnodes⟩ := server_nodes_authentic TranscriptSuite.suite_correct
    TranscriptSuite.suite_ideal sample_separate hgenuine (i := 0) (by rw [hlogin]; rfl) rfl
    sample_vetted (by rw [hlogin]; exact sample_sole xx a f t _)
  rw [hlogin] at hv
  refine ⟨evs,xx,a,f,t,hlogin,?_⟩
  cases j with
  | zero =>
      cases hv
      rw [hsent] at hnodes
      exact ⟨hmeets,(hnodes (by decide)).1⟩
  | succ j => cases hv

section
variable (hC : N.Correct) (hI : N.Ideal) (hN : Separate N)
include hC hI hN

/-- A serving that has taken the finish of a key which is not the intruder's handles the nodes of
the session with this key, in their order. -/
theorem client_nodes_authentic {E : Setting N} {K : Codec} {M : Means N.toSuite}
    {evs : List (Event N α)} (hrun : Along (Traffic.step E K) (Genuine M) evs {})
    {j : ℕ} {v : Serving N} {t : Accepted N}
    (hv : (run (Traffic.step E K) evs {}).login.servings[j]? = some v) (ht : v.accepted = some t)
    (howned : Owned M v.service t)
    (hsole : Sole (run (Traffic.step E K) evs {}).login (.serving j)) :
    let T := run (Traffic.step E K) evs {}
    ∃ (i : ℕ) (c : Client N α) (f : Finished N), T.login.clients[i]? = some c ∧
      c.finished = some f ∧ Joined E c.session f v.service v.answered t ∧
      ((T.sent (.client i)).length < 2^32 →
        T.opened (.serving j) <+: (T.sent (.client i)).map K.plain ∧
        T.handled (.serving j) <+: (T.sent (.client i)).filterMap fun n => K.read (K.plain n)) := by
  intro T
  have hsecure := secure_run hI hN hrun
  have hsound := hsecure.authentic.sound
  obtain ⟨i,c,f,hc,hf,hjoined⟩ := hsecure.authentic.client hv ht howned
  obtain ⟨eph,x,ct,hx⟩ := hsound.accepted j v hv t ht
  refine ⟨i,c,f,hc,hf,hjoined,fun hlen => ?_⟩
  have hkeys : ciphers T.login (.serving j) = some (newCipher (t.xx.nh.extractExpand []).2,
      newCipher (t.xx.nh.extractExpand []).1) := by
    simp only [ciphers,Option.bind_eq_bind,Option.bind_eq_some_iff]
    exact ⟨v,hv,t,ht,by rw [hx.ciphers]; rfl⟩
  refine opened_prefix hsecure hkeys ?_ ?_ hlen
  · rw [hx.state]
    intro hknown
    exact not_known_of_beyond hN hx.proved (howned eph _ hx.answers.fresh hx.proved)
      (known_agreements hI hN (.inl hknown)).2.2
  · exact fun q other hq => sender_of_serving hI hC hsound hsole hc hf hv ht hjoined.meets hq

end

theorem client_nodes_authentic_sample : ∃ evs xx a f t,
    (run (Traffic.step sampleSetting sampleCodec) evs {}).login =
      loggedIn {} sampleSession sampleService xx a f t ∧
    Joined sampleSetting sampleSession f sampleService a t ∧
    (run (Traffic.step sampleSetting sampleCodec) evs {}).opened (.serving 0) <+:
      [sampleCodec.plain sampleNode] := by
  obtain ⟨evs,xx,a,f,t,hgenuine,hlogin,hremote,hsent,_⟩ := sample_traffic (allBut 1 6)
  obtain ⟨i,c,f',hc,hf,hjoined,hnodes⟩ := client_nodes_authentic TranscriptSuite.suite_correct
    TranscriptSuite.suite_ideal sample_separate hgenuine (j := 0) (by rw [hlogin]; rfl) rfl
    (sample_owned hremote) (by rw [hlogin]; exact sample_sole xx a f t _)
  rw [hlogin] at hc
  refine ⟨evs,xx,a,f,t,hlogin,?_⟩
  cases i with
  | zero =>
      cases hc
      cases hf
      rw [hsent] at hnodes
      exact ⟨hjoined,(hnodes (by decide)).1⟩
  | succ i => cases hc

end BaturWhatsApi.TrafficAuthentication
