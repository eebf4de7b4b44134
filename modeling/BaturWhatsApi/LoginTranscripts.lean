import BaturWhatsApi.Login

/-!
# The states of a handshake and the parties in them

Both parties of a handshake go through the same symmetric states, each from the messages it has
seen. There are four in which something is encrypted: the server's key and certificates, and the
client's key and registration. A state determines the whole transcript before it. The four are
told apart by how many agreements are in their key and by the counter.

Every session that has sent its finish, and every serving, stands at the end of a transcript of
its own messages.
-/
namespace BaturWhatsApi.LoginTranscripts
open ByteStrings CipherSuite NoiseCipher NoiseHandshake NoiseAgreement NoiseAgreement.Exchange
open RatchetStorage FinishPayload HandshakeFrames JsonValues KeyValueStores Login ListCells
open Fallible

variable {N : NoiseSuite} {α : Type}

/-! ### Transcripts -/

/-- The state behind a ciphertext. -/
def passed (nh : Handshake N) (ct : Bytes) : Handshake N :=
  Handshake.authenticate {nh with counter := nh.counter+1} ct

/-- The messages and agreements up to the server's certificates. -/
structure Opening (N : NoiseSuite) where
  header : Bytes
  ephC : Bytes
  ephS : Bytes
  hello : N.Secret
  static : Bytes
  named : N.Secret

namespace Opening
variable (o : Opening N)

/-- The server's key is encrypted. -/
def first : Handshake N := (hellos o.header o.ephC o.ephS).mixKey [.secret o.hello]

/-- The server's certificates are encrypted. -/
def second : Handshake N := (passed o.first o.static).mixKey [.secret o.named]

end Opening

/-- And on to the client's registration. -/
structure Closing (N : NoiseSuite) extends Opening N where
  cert : Bytes
  client : Bytes
  proved : N.Secret

namespace Closing
variable (x : Closing N)

/-- The client's key is encrypted. -/
def third : Handshake N := passed x.toOpening.second x.cert

/-- The client's registration is encrypted. -/
def fourth : Handshake N := (passed x.third x.client).mixKey [.secret x.proved]

end Closing

section
variable (hI : N.Ideal)
include hI

/-- The chaining key determines what was mixed in. -/
theorem mixKey_ck_inj {a b : Handshake N} {s t : List (Atom N.Secret)}
    (h : (a.mixKey s).ck = (b.mixKey t).ck) : a.ck = b.ck ∧ s = t := by
  have hfirst := Atom.secret.inj (List.cons.inj h).1
  exact hI.hmac_inj (Atom.secret.inj (List.cons.inj (hI.hmac_inj hfirst).1).1)

theorem passed_inj {a b : Handshake N} {x y : Bytes} (h : (passed a x).h = (passed b y).h)
    (hlen : a.h.length = b.h.length) : a.h = b.h ∧ x = y := authenticate_inj hI h hlen

theorem Opening.first_inj {o o' : Opening N} (hck : o.first.ck = o'.first.ck)
    (hh : o.first.h = o'.first.h) :
    o.header = o'.header ∧ o.ephC = o'.ephC ∧ o.ephS = o'.ephS ∧ o.hello = o'.hello := by
  obtain ⟨hheader,hephC,hephS⟩ := hellos_inj hI hh
  refine ⟨hheader,hephC,hephS,?_⟩
  have hs := (mixKey_ck_inj hI hck).2
  exact Atom.secret.inj (List.cons.inj hs).1

/-- The state of the certificates determines the opening. -/
theorem Opening.second_inj {o o' : Opening N} (hck : o.second.ck = o'.second.ck)
    (hh : o.second.h = o'.second.h) : o = o' := by
  obtain ⟨hfirst,hs⟩ := mixKey_ck_inj hI hck
  obtain ⟨hh,hstatic⟩ := passed_inj hI (a := o.first) (b := o'.first) hh rfl
  obtain ⟨hheader,hephC,hephS,hhello⟩ := Opening.first_inj hI hfirst hh
  have hnamed := Atom.secret.inj (List.cons.inj hs).1
  cases o
  cases o'
  simp_all

/-- The state of the registration determines the transcript. -/
theorem Closing.fourth_inj {x x' : Closing N} (hck : x.fourth.ck = x'.fourth.ck)
    (hh : x.fourth.h = x'.fourth.h) : x = x' := by
  obtain ⟨hsecond,hs⟩ := mixKey_ck_inj hI hck
  obtain ⟨hh,hclient⟩ := passed_inj hI (a := x.third) (b := x'.third) hh rfl
  obtain ⟨hh,hcert⟩ := passed_inj hI (a := x.second) (b := x'.second) hh rfl
  have hopening := Opening.second_inj hI hsecond hh
  have hproved := Atom.secret.inj (List.cons.inj hs).1
  cases x
  cases x'
  simp_all

/-- The cipher key determines the chaining key beside it. -/
theorem mixKey_ck_of_k {a b : Handshake N} {s t : List (Atom N.Secret)}
    (h : (a.mixKey s).k = (b.mixKey t).k) : (a.mixKey s).ck = (b.mixKey t).ck :=
  (mixKey_inj hI h).2.2

end

/-! ### Stages -/

/-- A chaining key after a number of agreements. -/
inductive Chained (N : NoiseSuite) : ℕ → List (Atom N.Secret) → Prop
  | start : Chained N 0 (bytesOf startPattern)
  | mix {n : ℕ} {a : Handshake N} (h : Chained N n a.ck) (d : N.Secret) :
      Chained N (n+1) (a.mixKey [.secret d]).ck

theorem Chained.unique (hI : N.Ideal) {m n : ℕ} {ck : List (Atom N.Secret)}
    (hm : Chained N m ck) (hn : Chained N n ck) : m = n := by
  induction m generalizing n ck with
  | zero =>
      cases hm
      generalize hck : (bytesOf startPattern : List (Atom N.Secret)) = ck at hn
      cases hn with
      | start => rfl
      | mix h d => exact absurd hck (startPattern_ne _)
  | succ m ih =>
      generalize hck : ck = ck' at hn
      cases hm with
      | mix hm d =>
          cases hn with
          | start => exact absurd hck.symm (startPattern_ne _)
          | mix hn d' =>
              obtain ⟨hck,_⟩ := mixKey_ck_inj hI hck
              rw [ih hm (hck ▸ hn)]

/-- A state with a number of agreements in its key and a counter. -/
structure Stage (n : ℕ) (counter : UInt32) (nh : Handshake N) : Prop where
  chained : Chained N n nh.ck
  counter : nh.counter = counter
  keyed : ∃ (a : Handshake N) (d : N.Secret), nh.k = (a.mixKey [.secret d]).k ∧
    nh.ck = (a.mixKey [.secret d]).ck

/-- What is encrypted in one stage is decrypted in no other. -/
theorem Stage.unique (hI : N.Ideal) {m n : ℕ} {c d : UInt32} {a b : Handshake N}
    (ha : Stage m c a) (hb : Stage n d b) (hk : a.k = b.k) (hiv : iv a.counter = iv b.counter) :
    m = n ∧ c = d := by
  obtain ⟨a',x,hak,hack⟩ := ha.keyed
  obtain ⟨b',y,hbk,hbck⟩ := hb.keyed
  have hck : a.ck = b.ck := by
    rw [hack,hbck]
    exact mixKey_ck_of_k hI (hak.symm.trans (hk.trans hbk))
  refine ⟨ha.chained.unique hI (hck ▸ hb.chained),?_⟩
  rw [← ha.counter,← hb.counter]
  exact iv_injective hiv

theorem Opening.stage_first (o : Opening N) : Stage 1 0 o.first where
  chained := by
    refine .mix ?_ _
    show Chained N 0 (newHandshake startPattern o.header).ck
    rw [newHandshake_ck]
    exact .start
  counter := rfl
  keyed := ⟨_,_,rfl,rfl⟩

theorem Opening.stage_second (o : Opening N) : Stage 2 0 o.second where
  chained := .mix (a := passed o.first o.static) o.stage_first.chained _
  counter := rfl
  keyed := ⟨_,_,rfl,rfl⟩

theorem Closing.stage_third (x : Closing N) : Stage 2 1 x.third where
  chained := x.stage_second.chained
  counter := rfl
  keyed := ⟨_,_,rfl,rfl⟩

theorem Closing.stage_fourth (x : Closing N) : Stage 3 0 x.fourth where
  chained := .mix (a := passed x.third x.client) x.stage_third.chained _
  counter := rfl
  keyed := ⟨_,_,rfl,rfl⟩

/-! ### The parties -/

/-- A hello was answered, with this opening. -/
structure Answers (v : Service N) (a : Answered N) (eph : N.Priv) (o : Opening N) : Prop where
  fresh : v.fresh = .ok eph
  header : o.header = v.header
  ephC : o.ephC = a.hailed
  ephS : o.ephS = N.publicKey eph
  sentEph : a.sent.ephemeral = o.ephS
  hello : N.ecdh eph o.ephC = some o.hello
  static : o.static = (o.first.encrypt (N.publicKey v.static)).1
  sentStatic : a.sent.static = o.static
  named : N.ecdh v.static o.ephC = some o.named
  sentPayload : a.sent.payload = (o.second.encrypt v.certChain).1
  state : a.xx.nh = passed o.second a.sent.payload
  own : a.xx.eph = some eph
  initiator : a.xx.initiator = false

/-- A finish with this registration was taken, at the end of this transcript. -/
structure Takes (v : Service N) (a : Answered N) (t : Accepted N) (eph : N.Priv)
    (x : Closing N) (ct : Bytes) : Prop where
  answers : Answers v a eph x.toOpening
  cert : x.cert = a.sent.payload
  client : ∃ nh, x.third.decrypt x.client = (.ok t.remote,nh)
  proved : N.ecdh eph t.remote = some x.proved
  payload : ∃ nh, x.fourth.decrypt ct = (.ok t.payload,nh)
  state : t.xx.nh = passed x.fourth ct
  initiator : t.xx.initiator = false
  done : t.xx.done = true

/-- A session has sent its finish, at the end of this transcript. -/
structure Finishes (E : Setting N) (s : Session N α) (f : Finished N) (static eph : N.Priv)
    (x : Closing N) : Prop where
  seed : keyPairFromSeed (α := α) E.seeds s.creds.noiseKeySeed = .ok static
  fresh : s.fresh = .ok eph
  header : x.header = s.header
  ephC : x.ephC = N.publicKey eph
  ephS : f.xx.remoteEph = x.ephS
  hello : N.ecdh eph x.ephS = some x.hello
  read : ∃ nh, x.first.decrypt x.static = (.ok f.xx.remoteStatic,nh)
  named : N.ecdh eph f.xx.remoteStatic = some x.named
  cert : ∃ nh, x.second.decrypt x.cert = (.ok f.cert,nh)
  checked : s.check f.xx.remoteStatic f.cert = .ok ()
  client : x.client = (x.third.encrypt (N.publicKey static)).1
  sentStatic : f.sent.static = x.client
  proved : N.ecdh static x.ephS = some x.proved
  payload : ∃ payload, finishPayload E.sha s.id s.device s.creds s.behind = some payload ∧
    f.sent.payload = (x.fourth.encrypt payload).1 ∧ f.xx.nh = passed x.fourth f.sent.payload
  initiator : f.xx.initiator = true
  done : f.xx.done = true

/-- The keys of a login, from the state behind its last message. -/
theorem Finishes.ciphers {E : Setting N} {s : Session N α} {f : Finished N} {static eph : N.Priv}
    {x : Closing N} (h : Finishes E s f static eph x) : f.xx.sendCipher =
      .ok (newCipher (f.xx.nh.extractExpand []).1,newCipher (f.xx.nh.extractExpand []).2) := by
  simp only [XX.sendCipher,h.done,h.initiator,Handshake.sendKeys,Bool.not_true,
    Bool.false_eq_true,if_false,if_true]

theorem Takes.ciphers {v : Service N} {a : Answered N} {t : Accepted N} {eph : N.Priv}
    {x : Closing N} {ct : Bytes} (h : Takes v a t eph x ct) : t.xx.sendCipher =
      .ok (newCipher (t.xx.nh.extractExpand []).2,newCipher (t.xx.nh.extractExpand []).1) := by
  simp only [XX.sendCipher,h.done,h.initiator,Handshake.sendKeys,Bool.not_true,
    Bool.false_eq_true,if_false]
  rfl

theorem decrypt_state {nh nh' : Handshake N} {ct p : Bytes} (h : nh.decrypt ct = (.ok p,nh')) :
    nh' = passed nh ct := (decrypt_ok h).2

theorem serverHello1_ok {static eph : N.Priv} {header hailed payload e s p : Bytes} {xx : XX N}
    (h : (newXXServer static header).serverHello1 (.ok eph) hailed payload = (.ok (e,s,p),xx)) :
    ∃ d d', let o : Opening N := ⟨header,hailed,N.publicKey eph,d,s,d'⟩
      N.ecdh eph hailed = some d ∧ N.ecdh static hailed = some d' ∧ e = N.publicKey eph ∧
      s = (o.first.encrypt (N.publicKey static)).1 ∧ p = (o.second.encrypt payload).1 ∧
      xx = {newXXServer static header with
        remoteEph := hailed,eph := some eph,nh := passed o.second p} := by
  unfold XX.serverHello1 at h
  rw [if_neg (by simp [newXXServer])] at h
  dsimp only at h
  split at h
  · cases congrArg Prod.fst h
  · rename_i hmix
    obtain ⟨_,d,hd,rfl⟩ := mix_ok hmix
    split at h
    · cases congrArg Prod.fst h
    · rename_i hmix'
      obtain ⟨_,d',hd',rfl⟩ := mix_ok hmix'
      obtain ⟨hout,rfl⟩ := Prod.mk.inj h
      cases Except.ok.inj hout
      exact ⟨d,d',hd,hd',rfl,rfl,rfl,rfl⟩

theorem answers_of_ok {v : Service N} {frame : Bytes} {a : Answered N}
    (h : v.answer frame = .ok a) : ∃ eph o, Answers v a eph o := by
  obtain ⟨ch,_,hhailed,hserver⟩ := answer_ok h
  cases hfresh : v.fresh with
  | error e =>
      rw [hfresh] at hserver
      cases congrArg Prod.fst hserver
  | ok eph =>
      rw [hfresh,← hhailed] at hserver
      obtain ⟨d,d',hd,hd',he,hs,hp,hxx⟩ := serverHello1_ok hserver
      exact ⟨eph,_,hfresh,rfl,rfl,rfl,he,hd,hs,rfl,hd',hp,by rw [hxx],by rw [hxx],by rw [hxx]; rfl⟩

theorem takes_of_ok {v : Service N} {a : Answered N} {frame : Bytes}
    {t : Accepted N} {eph : N.Priv} {o : Opening N} (ha : Answers v a eph o)
    (h : accept a.xx frame = .ok t) :
    ∃ cf x, clientFinishOf frame = .ok cf ∧ Takes v a t eph x cf.payload := by
  obtain ⟨cf,hcf,haccept,_⟩ := accept_ok h
  obtain ⟨nh1,d,nh2,hclient,hd,hpayload,hxx⟩ := acceptFinish_ok eph ha.own haccept
  refine ⟨cf,⟨o,a.sent.payload,cf.static,d⟩,hcf,ha,rfl,⟨nh1,?_⟩,hd,⟨nh2,?_⟩,?_,?_,?_⟩
  · rw [ha.state] at hclient
    exact hclient
  · rw [decrypt_state hclient,ha.state] at hpayload
    exact hpayload
  · rw [hxx,decrypt_state hpayload,decrypt_state hclient,ha.state]
    rfl
  · rw [hxx]
    exact ha.initiator
  · rw [hxx]

theorem finishes_of_ok {E : Setting N} {s : Session N α} {frame resp : Bytes} {xx : XX N}
    {f : Finished N} (hhail : s.hail E.seeds = .ok (frame,xx)) (h : s.finish E.sha xx resp = .ok f) :
    ∃ static eph sh x, serverHelloOf (α := α) resp = .ok sh ∧ Finishes E s f static eph x ∧
      x.static = sh.static ∧ x.cert = sh.payload := by
  obtain ⟨static,eph,hseed,hfresh,_,rfl⟩ := hail_ok hhail
  obtain ⟨sh,rs,xx',payload,hsh,hread,hcheck,_,hpayload,hwrite⟩ := finish_ok h
  obtain ⟨d1,nh1,d2,nh2,hd1,hstatic,hd2,hcert,rfl⟩ := readServerHello_ok eph rfl hread
  obtain ⟨d3,hd3,hsent,hxx⟩ := writeClientFinish_ok hwrite
  obtain rfl := decrypt_state hstatic
  obtain rfl := decrypt_state hcert
  obtain ⟨hsentStatic,hsentPayload⟩ := Prod.mk.inj hsent
  refine ⟨static,eph,sh,⟨⟨s.header,N.publicKey eph,sh.ephemeral,d1,sh.static,d2⟩,sh.payload,
    f.sent.static,d3⟩,hsh,?_,rfl,rfl⟩
  have hremote : f.xx.remoteStatic = rs := by rw [hxx]
  have hlast : f.xx.nh = passed (Closing.fourth ⟨⟨s.header,N.publicKey eph,sh.ephemeral,d1,
      sh.static,d2⟩,sh.payload,f.sent.static,d3⟩) f.sent.payload := by
    rw [hxx,hsentPayload,hsentStatic]
    rfl
  rw [← hremote] at hstatic hd2
  refine ⟨hseed,hfresh,rfl,rfl,?_,hd1,⟨_,hstatic⟩,hd2,⟨_,hcert⟩,?_,hsentStatic,rfl,hd3,
    ⟨payload,hpayload,?_,hlast⟩,?_,?_⟩
  · rw [hxx]
  · rw [hremote]
    exact hcheck
  · rw [hsentPayload,hsentStatic]
    rfl
  · rw [hxx]
    rfl
  · rw [hxx]

/-! ### Two parties that meet -/

/-- A session and a serving have spoken to each other. -/
structure Meets (s : Session N α) (f : Finished N) (v : Service N) (a : Answered N) : Prop where
  header : v.header = s.header
  hailed : ∃ eph, s.fresh = .ok eph ∧ a.hailed = N.publicKey eph
  answered : ∃ eph, v.fresh = .ok eph ∧ f.xx.remoteEph = N.publicKey eph
  static : f.xx.remoteStatic = N.publicKey v.static
  cert : f.cert = v.certChain

/-- And they have finished together. -/
structure Joined (E : Setting N) (s : Session N α) (f : Finished N) (v : Service N)
    (a : Answered N) (t : Accepted N) : Prop where
  meets : Meets s f v a
  remote : ∃ static, keyPairFromSeed (α := α) E.seeds s.creds.noiseKeySeed = .ok static ∧
    t.remote = N.publicKey static
  payload : finishPayload E.sha s.id s.device s.creds s.behind = some t.payload
  keys : ∃ send recv, f.xx.sendCipher = .ok (newCipher send,newCipher recv) ∧
    t.xx.sendCipher = .ok (newCipher recv,newCipher send)

section
variable (hI : N.Ideal)
include hI

theorem opened_seal {a b b' : Handshake N} {p q : Bytes}
    (h : b.decrypt (a.encrypt p).1 = (.ok q,b')) :
    b.k = a.k ∧ iv b.counter = iv a.counter ∧ b.h = a.h ∧ q = p :=
  hI.opened (decrypt_ok h).1

variable {E : Setting N} {s : Session N α} {f : Finished N} {v : Service N}
  {a : Answered N} {t : Accepted N} {static eph eph' : N.Priv} {x : Closing N} {ct : Bytes}

theorem meets_of_transcript (hs : Finishes E s f static eph x)
    (hv : Answers v a eph' x.toOpening) (hcert : x.cert = a.sent.payload) : Meets s f v a := by
  obtain ⟨_,hread⟩ := hs.read
  obtain ⟨_,hopened⟩ := hs.cert
  rw [hv.static] at hread
  rw [hcert,hv.sentPayload] at hopened
  refine ⟨hv.header.symm.trans hs.header,⟨eph,hs.fresh,hv.ephC.symm.trans hs.ephC⟩,
    ⟨eph',hv.fresh,hs.ephS.trans hv.ephS⟩,?_,?_⟩
  · exact (opened_seal hI hread).2.2.2
  · exact (opened_seal hI hopened).2.2.2

theorem joined_of_transcript (hs : Finishes E s f static eph x) (ht : Takes v a t eph' x ct)
    (hct : ct = f.sent.payload)
    (hpayload : finishPayload E.sha s.id s.device s.creds s.behind = some t.payload) :
    Joined E s f v a t := by
  obtain ⟨_,_,_,hlast⟩ := hs.payload
  have hstate : t.xx.nh = f.xx.nh := by rw [ht.state,hlast,hct]
  obtain ⟨_,hclient⟩ := ht.client
  rw [hs.client] at hclient
  have hserver := ht.ciphers
  rw [hstate] at hserver
  exact ⟨meets_of_transcript hI hs ht.answers ht.cert,
    ⟨static,hs.seed,(opened_seal hI hclient).2.2.2⟩,hpayload,_,_,hs.ciphers,hserver⟩

end

/-! ### The world -/

theorem read_session (sha : Sha256) (resp : Bytes) (c : Client N α) :
    (c.read sha resp).session = c.session ∧ (c.read sha resp).xx = c.xx := by
  unfold Client.read
  split_ifs
  · exact ⟨rfl,rfl⟩
  · split <;> exact ⟨rfl,rfl⟩

/-- A session has finished before, or does so with this answer. -/
theorem read_finished {sha : Sha256} {resp : Bytes} {c : Client N α} {f : Finished N} :
    (c.read sha resp).finished = some f →
      c.finished = some f ∨ c.session.finish sha c.xx resp = .ok f := by
  unfold Client.read
  intro h
  split_ifs at h
  · exact .inl h
  · split at h
    · exact .inl h
    · rename_i hfinish
      cases h
      exact .inr hfinish

theorem read_kept {sha : Sha256} {resp : Bytes} {c : Client N α} {f : Finished N}
    (h : c.finished = some f) : (c.read sha resp).finished = some f := by
  rw [Client.read,if_pos (by simp [h])]
  exact h

theorem take_service (frame : Bytes) (v : Serving N) :
    (v.take frame).service = v.service ∧ (v.take frame).answered = v.answered := by
  unfold Serving.take
  split_ifs
  · exact ⟨rfl,rfl⟩
  · split <;> exact ⟨rfl,rfl⟩

theorem take_accepted {frame : Bytes} {v : Serving N}
    {t : Accepted N} : (v.take frame).accepted = some t →
      v.accepted = some t ∨ accept v.answered.xx frame = .ok t := by
  unfold Serving.take
  intro h
  split_ifs at h
  · exact .inl h
  · split at h
    · exact .inl h
    · rename_i haccept
      cases h
      exact .inr haccept

theorem take_kept {frame : Bytes} {v : Serving N} {t : Accepted N}
    (h : v.accepted = some t) : (v.take frame).accepted = some t := by
  rw [Serving.take,if_pos (by simp [h])]
  exact h

/-- The client of a number stays, with what it has finished. -/
theorem client_kept (E : Setting N) (W : World N α) (ev : Event N α) {i : ℕ} {c : Client N α}
    (h : W.clients[i]? = some c) : ∃ c', (W.step E ev).clients[i]? = some c' ∧
      c'.session = c.session ∧ ∀ f, c.finished = some f → c'.finished = some f := by
  cases ev with
  | hail s =>
      rw [World.step]
      split
      · exact ⟨c,h,rfl,fun _ hf => hf⟩
      · exact ⟨c,getElem?_append_some h,rfl,fun _ hf => hf⟩
  | serve v frame =>
      rw [World.step]
      split <;> exact ⟨c,h,rfl,fun _ hf => hf⟩
  | read j resp =>
      rw [World.step,List.getElem?_modify,h]
      by_cases hj : j = i
      · exact ⟨c.read E.sha resp,by simp [hj],(read_session _ _ c).1,fun _ hf => read_kept hf⟩
      · exact ⟨c,by simp [hj],rfl,fun _ hf => hf⟩
  | accept j frame => exact ⟨c,h,rfl,fun _ hf => hf⟩

theorem serving_kept (E : Setting N) (W : World N α) (ev : Event N α) {j : ℕ} {v : Serving N}
    (h : W.servings[j]? = some v) : ∃ v', (W.step E ev).servings[j]? = some v' ∧
      v'.service = v.service ∧ v'.answered = v.answered ∧
      ∀ t, v.accepted = some t → v'.accepted = some t := by
  cases ev with
  | hail s =>
      rw [World.step]
      split <;> exact ⟨v,h,rfl,rfl,fun _ ht => ht⟩
  | serve w frame =>
      rw [World.step]
      split
      · exact ⟨v,h,rfl,rfl,fun _ ht => ht⟩
      · exact ⟨v,getElem?_append_some h,rfl,rfl,fun _ ht => ht⟩
  | read i resp => exact ⟨v,h,rfl,rfl,fun _ ht => ht⟩
  | accept i frame =>
      rw [World.step,List.getElem?_modify,h]
      by_cases hi : i = j
      · obtain ⟨hservice,hanswered⟩ := take_service frame v
        exact ⟨v.take frame,by simp [hi],hservice,hanswered,fun _ ht => take_kept ht⟩
      · exact ⟨v,by simp [hi],rfl,rfl,fun _ ht => ht⟩

/-- Where a client comes from. -/
theorem client_before {E : Setting N} {W : World N α} {ev : Event N α} {i : ℕ} {c : Client N α}
    (h : (W.step E ev).clients[i]? = some c) :
    W.clients[i]? = some c ∨
    (∃ frame, c.session.hail E.seeds = .ok (frame,c.xx) ∧ c.finished = none) ∨
    ∃ resp c₀, ev = .read i resp ∧ W.clients[i]? = some c₀ ∧ c = c₀.read E.sha resp := by
  cases ev with
  | hail s =>
      rw [World.step] at h
      split at h
      · exact .inl h
      · rename_i frame xx hhail
        rcases getElem?_append_cases h with ⟨_,rfl⟩ | h
        · exact .inr (.inl ⟨frame,hhail,rfl⟩)
        · exact .inl h
  | serve v frame =>
      rw [World.step] at h
      split at h <;> exact .inl h
  | read j resp =>
      obtain ⟨c₀,hc₀,⟨rfl,rfl⟩ | ⟨_,rfl⟩⟩ := getElem?_modify_cases h
      · exact .inr (.inr ⟨resp,c₀,rfl,hc₀,rfl⟩)
      · exact .inl hc₀
  | accept j frame => exact .inl h

theorem serving_before {E : Setting N} {W : World N α} {ev : Event N α} {j : ℕ} {v : Serving N}
    (h : (W.step E ev).servings[j]? = some v) :
    W.servings[j]? = some v ∨
    (∃ frame, v.service.answer frame = .ok v.answered ∧ v.accepted = none) ∨
    ∃ frame v₀, ev = .accept j frame ∧ W.servings[j]? = some v₀ ∧ v = v₀.take frame := by
  cases ev with
  | hail s =>
      rw [World.step] at h
      split at h <;> exact .inl h
  | serve w frame =>
      rw [World.step] at h
      split at h
      · exact .inl h
      · rename_i a hanswer
        rcases getElem?_append_cases h with ⟨_,rfl⟩ | h
        · exact .inr (.inl ⟨frame,hanswer,rfl⟩)
        · exact .inl h
  | read i resp => exact .inl h
  | accept i frame =>
      obtain ⟨v₀,hv₀,⟨rfl,rfl⟩ | ⟨_,rfl⟩⟩ := getElem?_modify_cases h
      · exact .inr (.inr ⟨frame,v₀,rfl,hv₀,rfl⟩)
      · exact .inl hv₀

/-- Every party stands at the end of a transcript. -/
structure Sound (E : Setting N) (W : World N α) : Prop where
  hailed (i : ℕ) (c : Client N α) : W.clients[i]? = some c →
    ∃ frame, c.session.hail E.seeds = .ok (frame,c.xx)
  finished (i : ℕ) (c : Client N α) : W.clients[i]? = some c → ∀ f, c.finished = some f →
    ∃ static eph x, Finishes E c.session f static eph x
  answered (j : ℕ) (v : Serving N) : W.servings[j]? = some v →
    ∃ eph o, Answers v.service v.answered eph o
  accepted (j : ℕ) (v : Serving N) : W.servings[j]? = some v → ∀ t, v.accepted = some t →
    ∃ eph x ct, Takes v.service v.answered t eph x ct

theorem sound_empty (E : Setting N) : Sound E ({} : World N α) :=
  ⟨fun i c h => by simp at h,fun i c h => by simp at h,fun j v h => by simp at h,
    fun j v h => by simp at h⟩

theorem Sound.step {E : Setting N} {W : World N α} (h : Sound E W) (ev : Event N α) :
    Sound E (W.step E ev) where
  hailed i c hc := by
    rcases client_before hc with hc | ⟨frame,hhail,_⟩ | ⟨resp,c₀,_,hc₀,rfl⟩
    · exact h.hailed i c hc
    · exact ⟨frame,hhail⟩
    · rw [(read_session _ _ c₀).1,(read_session _ _ c₀).2]
      exact h.hailed i c₀ hc₀
  finished i c hc f hf := by
    rcases client_before hc with hc | ⟨_,_,hnone⟩ | ⟨resp,c₀,_,hc₀,rfl⟩
    · exact h.finished i c hc f hf
    · rw [hnone] at hf
      cases hf
    · rw [(read_session _ _ c₀).1]
      rcases read_finished hf with hf | hf
      · exact h.finished i c₀ hc₀ f hf
      · obtain ⟨frame,hhail⟩ := h.hailed i c₀ hc₀
        obtain ⟨static,eph,_,x,_,hx,_⟩ := finishes_of_ok hhail hf
        exact ⟨static,eph,x,hx⟩
  answered j v hv := by
    rcases serving_before hv with hv | ⟨frame,hanswer,_⟩ | ⟨frame,v₀,_,hv₀,rfl⟩
    · exact h.answered j v hv
    · exact answers_of_ok hanswer
    · rw [(take_service _ v₀).1,(take_service _ v₀).2]
      exact h.answered j v₀ hv₀
  accepted j v hv t ht := by
    rcases serving_before hv with hv | ⟨_,_,hnone⟩ | ⟨frame,v₀,_,hv₀,rfl⟩
    · exact h.accepted j v hv t ht
    · rw [hnone] at ht
      cases ht
    · rw [(take_service _ v₀).1,(take_service _ v₀).2]
      rcases take_accepted ht with ht | ht
      · exact h.accepted j v₀ hv₀ t ht
      · obtain ⟨eph,o,ha⟩ := h.answered j v₀ hv₀
        obtain ⟨cf,x,_,hx⟩ := takes_of_ok ha ht
        exact ⟨eph,x,cf.payload,hx⟩

end BaturWhatsApi.LoginTranscripts
