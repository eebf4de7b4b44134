import BaturWhatsApi.NoiseHandshake

/-!
# Agreement of the two handshake parties

A client and a server go through one handshake, with anything delivered in place of
the client's key and of the server's three answers. The last two ciphertexts reach
the server as the client wrote them. When the server opens the first of them, both
have the same cipher key and the same running hash. The hash has taken in the header,
both ephemeral keys and both server ciphertexts, so none of these was changed on the
way. The cipher key gives the chaining key, and the second ciphertext repeats this for
the final state.
-/
namespace BaturWhatsApi.NoiseAgreement
open ByteStrings CipherSuite NoiseCipher NoiseHandshake

variable {N : NoiseSuite}

/-! ### The symmetric state determines its history -/

theorem bytesOf_injective : Function.Injective (bytesOf (S := N.toSuite)) :=
  List.map_injective_iff.mpr fun _ _ h => Atom.byte.inj h

theorem startPattern_length : startPattern.length = 32 := by decide +kernel

theorem newHandshake_ck (header : Bytes) :
    (newHandshake (N := N) startPattern header).ck = bytesOf startPattern := by
  rw [newHandshake,if_pos startPattern_length]
  rfl

theorem newHandshake_k (header : Bytes) :
    (newHandshake (N := N) startPattern header).k = bytesOf startPattern := by
  rw [newHandshake,if_pos startPattern_length]
  rfl

theorem newHandshake_h (header : Bytes) : (newHandshake (N := N) startPattern header).h =
    [.secret (N.sha256 (bytesOf startPattern++bytesOf header))] := by
  rw [newHandshake,if_pos startPattern_length]
  rfl

/-- The protocol name is not a derived key. -/
theorem startPattern_ne (s : N.Secret) : bytesOf startPattern ≠ [Atom.secret s] := by
  intro h
  have hlen := congrArg List.length h
  rw [bytesOf,List.length_map,startPattern_length] at hlen
  cases hlen

theorem authenticate_inj (hI : N.Ideal) {a b : Handshake N} {x y : Bytes}
    (h : (a.authenticate x).h = (b.authenticate y).h) (hlen : a.h.length = b.h.length) :
    a.h = b.h ∧ x = y := by
  have hsecret : N.sha256 (a.h++bytesOf x) = N.sha256 (b.h++bytesOf y) :=
    Atom.secret.inj (List.cons.inj h).1
  obtain ⟨hh,hd⟩ := List.append_inj (hI.sha256_inj hsecret) hlen
  exact ⟨hh,bytesOf_injective hd⟩

theorem newHandshake_inj (hI : N.Ideal) {x y : Bytes}
    (h : (newHandshake (N := N) startPattern x).h = (newHandshake startPattern y).h) : x = y := by
  rw [newHandshake_h,newHandshake_h] at h
  have hsecret := hI.sha256_inj (Atom.secret.inj (List.cons.inj h).1)
  exact bytesOf_injective (List.append_cancel_left hsecret)

/-- A cipher key determines the chaining key that goes with it and the one before. -/
theorem mixKey_inj (hI : N.Ideal) {a b : Handshake N} {s t : List (Atom N.Secret)}
    (h : (a.mixKey s).k = (b.mixKey t).k) :
    a.ck = b.ck ∧ s = t ∧ (a.mixKey s).ck = (b.mixKey t).ck := by
  have hprk : N.hmac a.ck s = N.hmac b.ck t := by
    have hsecond := Atom.secret.inj (List.cons.inj h).1
    exact Atom.secret.inj (List.cons.inj (hI.hmac_inj hsecond).1).1
  obtain ⟨hck,hst⟩ := hI.hmac_inj hprk
  refine ⟨hck,hst,?_⟩
  simp only [Handshake.mixKey,Handshake.extractExpand,hprk]

theorem mixKey_eq (hI : N.Ideal) {a b : Handshake N} {s t : List (Atom N.Secret)}
    (hh : a.h = b.h) (hk : (a.mixKey s).k = (b.mixKey t).k) : a.mixKey s = b.mixKey t := by
  obtain ⟨hck,rfl,_⟩ := mixKey_inj hI hk
  simp only [Handshake.mixKey,Handshake.extractExpand,hck,hh]

theorem decrypt_ok {b b' : Handshake N} {c q : Bytes} (h : b.decrypt c = (.ok q,b')) :
    N.aeadOpen b.k (iv b.counter) c b.h = some q ∧
      b' = Handshake.authenticate {b with counter := b.counter+1} c := by
  unfold Handshake.decrypt at h
  split at h
  · cases congrArg Prod.fst h
  · rename_i pt hopen
    obtain ⟨hq,hb⟩ := Prod.mk.inj h
    cases Except.ok.inj hq
    exact ⟨hopen,hb.symm⟩

/-- What one side has encrypted and the other decrypts. -/
theorem decrypt_encrypt (hI : N.Ideal) {a b b' : Handshake N} {p q : Bytes}
    (h : b.decrypt (a.encrypt p).1 = (.ok q,b')) : b.k = a.k ∧ b.h = a.h ∧ q = p := by
  obtain ⟨hk,_,hh,hq⟩ := hI.opened (decrypt_ok h).1
  exact ⟨hk,hh,hq⟩

theorem decrypt_encrypt_self (hC : N.Correct) (a : Handshake N) (p : Bytes) :
    a.decrypt (a.encrypt p).1 = (.ok p,(a.encrypt p).2) := by
  have hopen := hC.open_seal a.k (iv a.counter) p a.h
  unfold Handshake.decrypt
  rw [Handshake.encrypt,hopen]

/-! ### The exchange -/

/-- The inputs of both sides, and what each of them is given for the other's message. -/
structure Exchange (N : NoiseSuite) where
  clientStatic : N.Priv
  serverStatic : N.Priv
  clientEph : N.Priv
  serverEph : N.Priv
  clientHeader : Bytes
  serverHeader : Bytes
  clientPayload : Bytes
  serverPayload : Bytes
  hailed : Bytes
  answered : Bytes × Bytes × Bytes

namespace Exchange
variable (x : Exchange N)

def hello : Except NoiseError Bytes × XX N :=
  (newXXClient x.clientStatic x.clientHeader).clientHello1 (.ok x.clientEph)

def answer : Except NoiseError (Bytes × Bytes × Bytes) × XX N :=
  (newXXServer x.serverStatic x.serverHeader).serverHello1 (.ok x.serverEph) x.hailed x.serverPayload

def reading : Except NoiseError (Bytes × Bytes) × XX N :=
  x.hello.2.readServerHello x.answered.1 x.answered.2.1 x.answered.2.2

def finish : Except NoiseError (Bytes × Bytes) × XX N :=
  x.reading.2.writeClientFinish x.clientPayload

def acceptance (finish : Bytes × Bytes) : Except NoiseError (Bytes × Bytes) × XX N :=
  x.answer.2.acceptFinish finish.1 finish.2

/-- What both sides hold in the end. -/
structure Agreed (read accepted : Bytes × Bytes) (client server : XX N) : Prop where
  header : x.clientHeader = x.serverHeader
  clientEph : x.hailed = N.publicKey x.clientEph
  serverEph : x.answered.1 = N.publicKey x.serverEph
  hash : client.nh.h = server.nh.h
  clientRemote : client.remoteStatic = N.publicKey x.serverStatic ∧ read.1 = client.remoteStatic
  serverRemote : server.remoteStatic = N.publicKey x.clientStatic ∧ accepted.1 = server.remoteStatic
  serverPayload : read.2 = x.serverPayload
  clientPayload : accepted.2 = x.clientPayload
  keys : ∃ send recv, client.sendCipher = .ok (newCipher send,newCipher recv) ∧
    server.sendCipher = .ok (newCipher recv,newCipher send)

/-! ### What a successful step has done -/

/-- The symmetric state after both ephemeral keys. -/
def hellos (header ephC ephS : Bytes) : Handshake N :=
  ((newHandshake startPattern header).authenticate ephC).authenticate ephS

theorem hellos_inj (hI : N.Ideal) {ha ca sa hb cb sb : Bytes}
    (h : (hellos (N := N) ha ca sa).h = (hellos hb cb sb).h) : ha = hb ∧ ca = cb ∧ sa = sb := by
  obtain ⟨h1,hs⟩ := authenticate_inj hI h rfl
  obtain ⟨h2,hc⟩ := authenticate_inj hI h1 (by rw [newHandshake_h,newHandshake_h]; rfl)
  exact ⟨newHandshake_inj hI h2,hc,hs⟩

end Exchange

theorem readServerHello_ok {xx xx' : XX N} (eph : N.Priv) {e s p rs sp : Bytes}
    (heph : xx.eph = some eph) (h : xx.readServerHello e s p = (.ok (rs,sp),xx')) :
    ∃ d1 nh1 d2 nh2, N.ecdh eph e = some d1 ∧
      ((xx.nh.authenticate e).mixKey [.secret d1]).decrypt s = (.ok rs,nh1) ∧
      N.ecdh eph rs = some d2 ∧ (nh1.mixKey [.secret d2]).decrypt p = (.ok sp,nh2) ∧
      xx' = {xx with remoteEph := e,remoteStatic := rs,nh := nh2} := by
  unfold XX.readServerHello at h
  split_ifs at h
  · cases congrArg Prod.fst h
  · rw [heph] at h
    dsimp only at h
    split at h
    · cases congrArg Prod.fst h
    · rename_i hmix
      obtain ⟨_,d1,hd1,rfl⟩ := mix_ok hmix
      split at h
      · cases congrArg Prod.fst h
      · rename_i rs' nh1 hstatic
        split at h
        · cases congrArg Prod.fst h
        · rename_i hmix'
          obtain ⟨_,d2,hd2,rfl⟩ := mix_ok hmix'
          split at h
          · cases congrArg Prod.fst h
          · rename_i sp' nh2 hpayload
            obtain ⟨hout,rfl⟩ := Prod.mk.inj h
            cases Except.ok.inj hout
            exact ⟨d1,nh1,d2,nh2,hd1,hstatic,hd2,hpayload,by simp only [heph]⟩

theorem writeClientFinish_ok {xx xx' : XX N} {payload : Bytes} {f : Bytes × Bytes}
    (h : xx.writeClientFinish payload = (.ok f,xx')) :
    ∃ d, N.ecdh xx.static xx.remoteEph = some d ∧
      let sent := xx.nh.encrypt (N.publicKey xx.static)
      let last := (sent.2.mixKey [.secret d]).encrypt payload
      f = (sent.1,last.1) ∧ xx' = {xx with nh := last.2,done := true} := by
  unfold XX.writeClientFinish at h
  split_ifs at h
  · cases congrArg Prod.fst h
  · dsimp only at h
    split at h
    · cases congrArg Prod.fst h
    · rename_i hmix
      obtain ⟨_,d,hd,rfl⟩ := mix_ok hmix
      obtain ⟨hout,rfl⟩ := Prod.mk.inj h
      exact ⟨d,hd,(Except.ok.inj hout).symm,rfl⟩

theorem acceptFinish_ok {xx xx' : XX N} (eph : N.Priv) {c1 c2 remote payload : Bytes}
    (heph : xx.eph = some eph) (h : xx.acceptFinish c1 c2 = (.ok (remote,payload),xx')) :
    ∃ nh1 d nh2, xx.nh.decrypt c1 = (.ok remote,nh1) ∧ N.ecdh eph remote = some d ∧
      (nh1.mixKey [.secret d]).decrypt c2 = (.ok payload,nh2) ∧
      xx' = {xx with nh := nh2,remoteStatic := remote,done := true} := by
  unfold XX.acceptFinish at h
  split_ifs at h
  · cases congrArg Prod.fst h
  · split at h
    · cases congrArg Prod.fst h
    · rename_i remote' nh1 hstatic
      rw [heph] at h
      dsimp only at h
      split at h
      · cases congrArg Prod.fst h
      · rename_i hmix
        obtain ⟨_,d,hd,rfl⟩ := mix_ok hmix
        split at h
        · cases congrArg Prod.fst h
        · rename_i payload' nh2 hpayload
          obtain ⟨hout,rfl⟩ := Prod.mk.inj h
          cases Except.ok.inj hout
          exact ⟨nh1,d,nh2,hstatic,hd,hpayload,by simp only [heph]⟩

namespace Exchange
variable (x : Exchange N)

/-- The server after its static key. -/
def serverStaticSent (d : N.Secret) : Bytes × Handshake N :=
  ((hellos x.serverHeader x.hailed (N.publicKey x.serverEph)).mixKey [.secret d]).encrypt
    (N.publicKey x.serverStatic)

def serverPayloadSent (d d' : N.Secret) : Bytes × Handshake N :=
  ((x.serverStaticSent d).2.mixKey [.secret d']).encrypt x.serverPayload

/-- The server stops at a key it cannot use, or answers. -/
theorem answer_outcome : ∃ nh, x.answer.2 = {newXXServer x.serverStatic x.serverHeader with
      remoteEph := x.hailed,eph := some x.serverEph,nh := nh} ∧
    (nh = hellos x.serverHeader x.hailed (N.publicKey x.serverEph) ∨
      (∃ d, nh = (x.serverStaticSent d).2) ∨
      ∃ d d', nh = (x.serverPayloadSent d d').2 ∧
        x.answer.1 = .ok (N.publicKey x.serverEph,(x.serverStaticSent d).1,
          (x.serverPayloadSent d d').1)) := by
  unfold answer XX.serverHello1
  rw [if_neg (by simp [newXXServer])]
  dsimp only
  split
  · exact ⟨_,rfl,.inl rfl⟩
  · rename_i hmix
    obtain ⟨_,d,_,rfl⟩ := mix_ok hmix
    split
    · exact ⟨_,rfl,.inr (.inl ⟨d,rfl⟩)⟩
    · rename_i hmix'
      obtain ⟨_,d',_,rfl⟩ := mix_ok hmix'
      exact ⟨_,rfl,.inr (.inr ⟨d,d',rfl,rfl⟩)⟩

/-- The client's state after a server hello it has read. -/
theorem reading_ok {client : XX N} {rs sp : Bytes} (h : x.reading = (.ok (rs,sp),client)) :
    ∃ d1 nh1 d2 nh2,
      ((hellos x.clientHeader (N.publicKey x.clientEph) x.answered.1).mixKey [.secret d1]).decrypt
        x.answered.2.1 = (.ok rs,nh1) ∧
      (nh1.mixKey [.secret d2]).decrypt x.answered.2.2 = (.ok sp,nh2) ∧
      client = {x.hello.2 with remoteEph := x.answered.1,remoteStatic := rs,nh := nh2} := by
  obtain ⟨d1,nh1,d2,nh2,_,hstatic,_,hpayload,rfl⟩ := readServerHello_ok x.clientEph rfl h
  exact ⟨d1,nh1,d2,nh2,hstatic,hpayload,rfl⟩

/-- When the server opens what the client encrypts after reading its answer, nothing was
changed on the way and both are in the same state. -/
theorem same_state (hI : N.Ideal) {client : XX N} {rs sp p q : Bytes} {nh' : Handshake N}
    (hread : x.reading = (.ok (rs,sp),client))
    (hopen : x.answer.2.nh.decrypt (client.nh.encrypt p).1 = (.ok q,nh')) :
    x.clientHeader = x.serverHeader ∧ x.hailed = N.publicKey x.clientEph ∧
    x.answered.1 = N.publicKey x.serverEph ∧ rs = N.publicKey x.serverStatic ∧
    sp = x.serverPayload ∧ x.answer.2.nh = client.nh := by
  obtain ⟨d1,nh1,d2,nh2,hstatic,hpayload,rfl⟩ := x.reading_ok hread
  obtain ⟨hk,hh,_⟩ := decrypt_encrypt hI hopen
  obtain ⟨_,hnh1⟩ := decrypt_ok hstatic
  obtain ⟨_,hnh2⟩ := decrypt_ok hpayload
  have hk2 : nh2.k = (nh1.mixKey [.secret d2]).k := by rw [hnh2]; rfl
  have hck1 : ∃ s, nh1.ck = [.secret s] := by rw [hnh1]; exact ⟨_,rfl⟩
  obtain ⟨s,hs⟩ := hck1
  obtain ⟨nh,hserver,hcase⟩ := x.answer_outcome
  rw [hserver] at hk hh ⊢
  dsimp only at hk hh ⊢
  rcases hcase with rfl | ⟨d,rfl⟩ | ⟨d,d',rfl,_⟩
  · exact absurd ((newHandshake_k x.serverHeader).symm.trans (hk.trans hk2)) (startPattern_ne _)
  · obtain ⟨hck,_⟩ := mixKey_inj hI (a := hellos _ _ _) (hk.trans hk2)
    exact absurd ((newHandshake_ck x.serverHeader).symm.trans (hck.trans hs)) (startPattern_ne s)
  · rw [hnh2] at hh
    obtain ⟨hh1,hct2⟩ := authenticate_inj hI hh (by rw [hnh1]; rfl)
    have hstate := mixKey_eq hI (a := (x.serverStaticSent d).2) (b := nh1) hh1 (hk.trans hk2)
    have hh1' : (x.serverStaticSent d).2.h = nh1.h := hh1
    rw [hnh1] at hh1'
    obtain ⟨hh0,hct1⟩ := authenticate_inj hI hh1' rfl
    obtain ⟨hheader,hephC,hephS⟩ := hellos_inj hI hh0
    rw [← hct1] at hstatic
    rw [← hct2] at hpayload
    refine ⟨hheader.symm,hephC,hephS.symm,(decrypt_encrypt hI hstatic).2.2,
      (decrypt_encrypt hI hpayload).2.2,?_⟩
    rw [hnh2,← hct2,← hstate]
    rfl

/-- A finish that the server accepts. -/
theorem agreed_of_acceptance (hI : N.Ideal) {read f accepted : Bytes × Bytes}
    (hread : x.reading.1 = .ok read) (hfinish : x.finish.1 = .ok f)
    (haccept : (x.acceptance f).1 = .ok accepted) :
    x.Agreed read accepted x.finish.2 (x.acceptance f).2 := by
  have hread' : x.reading = (.ok (read.1,read.2),x.reading.2) := Prod.ext hread rfl
  obtain ⟨d,_,hf,hclient⟩ := writeClientFinish_ok (Prod.ext hfinish rfl :
    x.reading.2.writeClientFinish x.clientPayload = (.ok f,x.finish.2))
  obtain ⟨nh,hserver,_⟩ := x.answer_outcome
  obtain ⟨nh1,d',nh2,hopen1,_,hopen2,hserver'⟩ := acceptFinish_ok x.serverEph
    (by rw [hserver]) (Prod.ext haccept rfl :
      x.answer.2.acceptFinish f.1 f.2 = (.ok (accepted.1,accepted.2),(x.acceptance f).2))
  rw [hf] at hopen1 hopen2
  obtain ⟨hheader,hephC,hephS,hrs,hsp,hsame⟩ := x.same_state hI hread' hopen1
  obtain ⟨_,_,_,_,_,_,hreading⟩ := x.reading_ok hread'
  have hnh1 : nh1 = (x.reading.2.nh.encrypt (N.publicKey x.reading.2.static)).2 := by
    rw [(decrypt_ok hopen1).2,hsame]
    rfl
  obtain ⟨hk,_,hpayload⟩ := decrypt_encrypt hI hopen2
  have hstate := mixKey_eq hI (by rw [hnh1]) hk
  have hlast : nh2 = x.finish.2.nh := by
    rw [(decrypt_ok hopen2).2,hstate,hclient]
    rfl
  have hstatic : x.reading.2.static = x.clientStatic := by
    rw [hreading]
    rfl
  have hremote : accepted.1 = N.publicKey x.clientStatic := by
    rw [(decrypt_encrypt hI hopen1).2.2,hstatic]
  rw [hserver',hserver]
  refine ⟨hheader,hephC,hephS,hlast.symm ▸ rfl,⟨?_,?_⟩,⟨hremote,rfl⟩,hsp,hpayload,?_⟩
  · rw [hclient,hreading]
    exact hrs
  · rw [hclient,hreading]
  · refine ⟨(x.finish.2.nh.extractExpand []).1,(x.finish.2.nh.extractExpand []).2,?_,?_⟩
    · have hdone : x.finish.2.done = true ∧ x.finish.2.initiator = true := by
        rw [hclient,hreading]
        exact ⟨rfl,rfl⟩
      rw [XX.sendCipher,hdone.1,hdone.2]
      rfl
    · rw [hlast]
      rfl

/-! ### An exchange that nobody touches -/

theorem mix_honest (hC : N.Correct) {a b : N.Priv} {s : N.Secret}
    (h : N.ecdh a (N.publicKey b) = some s) (xx : XX N) :
    xx.mix a (N.publicKey b) = .ok {xx with nh := xx.nh.mixKey [.secret s]} := by
  rw [XX.mix,if_neg (not_not.mpr (hC.public_length b)),h]

theorem readServerHello_honest (hC : N.Correct) (xx : XX N) {eph a b : N.Priv} {s p sp : Bytes}
    {d1 d2 : N.Secret} {nh1 nh2 : Handshake N} (hinit : xx.initiator = true)
    (heph : xx.eph = some eph) (hd1 : N.ecdh eph (N.publicKey a) = some d1)
    (hstatic : ((xx.nh.authenticate (N.publicKey a)).mixKey [.secret d1]).decrypt s =
      (.ok (N.publicKey b),nh1)) (hd2 : N.ecdh eph (N.publicKey b) = some d2)
    (hpayload : (nh1.mixKey [.secret d2]).decrypt p = (.ok sp,nh2)) :
    xx.readServerHello (N.publicKey a) s p = (.ok (N.publicKey b,sp),
      {xx with remoteEph := N.publicKey a,remoteStatic := N.publicKey b,nh := nh2}) := by
  unfold XX.readServerHello
  rw [if_neg (by simp [hinit])]
  simp only [heph,mix_honest hC hd1,hstatic,mix_honest hC hd2,hpayload]

theorem writeClientFinish_honest (hC : N.Correct) (xx : XX N) {a : N.Priv} {d : N.Secret}
    (hinit : xx.initiator = true) (hremote : xx.remoteEph = N.publicKey a)
    (hd : N.ecdh xx.static (N.publicKey a) = some d) (payload : Bytes) :
    let last := ((xx.nh.encrypt (N.publicKey xx.static)).2.mixKey [.secret d]).encrypt payload
    xx.writeClientFinish payload = (.ok ((xx.nh.encrypt (N.publicKey xx.static)).1,last.1),
      {xx with nh := last.2,done := true}) := by
  unfold XX.writeClientFinish
  rw [if_neg (by simp [hinit])]
  simp only [hremote,mix_honest hC hd]

theorem acceptFinish_honest (hC : N.Correct) (xx : XX N) {eph a : N.Priv} {c1 c2 p : Bytes}
    {d : N.Secret} {nh1 nh2 : Handshake N} (hinit : xx.initiator = false)
    (heph : xx.eph = some eph) (hstatic : xx.nh.decrypt c1 = (.ok (N.publicKey a),nh1))
    (hd : N.ecdh eph (N.publicKey a) = some d)
    (hpayload : (nh1.mixKey [.secret d]).decrypt c2 = (.ok p,nh2)) :
    xx.acceptFinish c1 c2 = (.ok (N.publicKey a,p),
      {xx with nh := nh2,remoteStatic := N.publicKey a,done := true}) := by
  unfold XX.acceptFinish
  rw [if_neg (by simp [hinit])]
  simp only [heph,hstatic,mix_honest hC hd,hpayload]

/-- The server answers the client's own key. -/
theorem answer_honest (hC : N.Correct) (hhailed : x.hailed = N.publicKey x.clientEph)
    {d1 d2 : N.Secret} (hd1 : N.ecdh x.serverEph (N.publicKey x.clientEph) = some d1)
    (hd2 : N.ecdh x.serverStatic (N.publicKey x.clientEph) = some d2) :
    x.answer = (.ok (N.publicKey x.serverEph,(x.serverStaticSent d1).1,
      (x.serverPayloadSent d1 d2).1),{newXXServer x.serverStatic x.serverHeader with
        remoteEph := x.hailed,eph := some x.serverEph,nh := (x.serverPayloadSent d1 d2).2}) := by
  unfold answer XX.serverHello1
  rw [if_neg (by simp [newXXServer]),hhailed]
  simp only [mix_honest hC hd1,mix_honest hC hd2,newXXServer,serverPayloadSent,
    serverStaticSent,hhailed,hellos]

/-- With equal headers it completes, in agreement. -/
theorem completes (hC : N.Correct) (hhello : x.hello.1 = .ok x.hailed)
    (hheader : x.clientHeader = x.serverHeader) :
    ∃ answer, x.answer.1 = .ok answer ∧ (x.answered = answer → ∃ read f accepted,
      x.reading.1 = .ok read ∧ x.finish.1 = .ok f ∧ (x.acceptance f).1 = .ok accepted ∧
      x.Agreed read accepted x.finish.2 (x.acceptance f).2) := by
  have hhailed : x.hailed = N.publicKey x.clientEph := (Except.ok.inj hhello).symm
  obtain ⟨d1,hd1,hd1'⟩ := hC.ecdh_honest x.clientEph x.serverEph
  obtain ⟨d2,hd2,hd2'⟩ := hC.ecdh_honest x.clientEph x.serverStatic
  obtain ⟨d3,hd3,hd3'⟩ := hC.ecdh_honest x.clientStatic x.serverEph
  have hanswer := x.answer_honest hC hhailed hd1' hd2'
  refine ⟨_,by rw [hanswer],fun hanswered => ?_⟩
  -- both sides go through the same states, so each message is opened in the state it was sealed in
  have hstatic := decrypt_encrypt_self hC ((hellos x.serverHeader x.hailed
    (N.publicKey x.serverEph)).mixKey [.secret d1]) (N.publicKey x.serverStatic)
  nth_rewrite 1 [← hheader,hhailed] at hstatic
  have hreading := readServerHello_honest hC x.hello.2 rfl rfl hd1
    hstatic hd2 (decrypt_encrypt_self hC _ x.serverPayload)
  have hread : x.reading = (.ok (N.publicKey x.serverStatic,x.serverPayload),{x.hello.2 with
      remoteEph := N.publicKey x.serverEph,remoteStatic := N.publicKey x.serverStatic,
      nh := (x.serverPayloadSent d1 d2).2}) := by
    rw [reading,hanswered]
    exact hreading
  have hfinish := writeClientFinish_honest hC x.reading.2 (a := x.serverEph)
    (by rw [hread]; rfl) (by rw [hread]) (by rw [hread]; exact hd3) x.clientPayload
  have hpub : x.reading.2.static = x.clientStatic := by
    rw [hread]
    rfl
  have hopen := decrypt_encrypt_self hC x.reading.2.nh (N.publicKey x.clientStatic)
  have hsame : x.answer.2.nh = x.reading.2.nh := by rw [hread,hanswer]
  rw [hpub] at hfinish
  have haccept := acceptFinish_honest hC x.answer.2 (by rw [hanswer]; rfl) (by rw [hanswer])
    (by rw [hsame]; exact hopen) hd3' (decrypt_encrypt_self hC _ x.clientPayload)
  refine ⟨_,_,_,congrArg Prod.fst hread,congrArg Prod.fst hfinish,congrArg Prod.fst haccept,?_⟩
  rw [finish,hfinish,acceptance,haccept]
  refine ⟨hheader,hhailed,congrArg Prod.fst hanswered,rfl,⟨by rw [hread],by rw [hread]⟩,⟨rfl,rfl⟩,
    rfl,rfl,?_⟩
  have hinitiator : x.reading.2.initiator = true ∧ x.answer.2.initiator = false := by
    rw [hread,hanswer]
    exact ⟨rfl,rfl⟩
  simp only [XX.sendCipher,hinitiator]
  exact ⟨_,_,rfl,rfl⟩

end Exchange

/-- An accepted finish means agreement on everything, whatever was delivered before it, and an
exchange that is delivered as it was sent comes to its end. -/
theorem xx_agreement (hI : N.Ideal) (hC : N.Correct) (x : Exchange N) :
    (∀ read f accepted, x.reading.1 = .ok read → x.finish.1 = .ok f →
      (x.acceptance f).1 = .ok accepted →
      x.Agreed read accepted x.finish.2 (x.acceptance f).2) ∧
    (x.hello.1 = .ok x.hailed → x.clientHeader = x.serverHeader →
      ∃ answer, x.answer.1 = .ok answer ∧ (x.answered = answer → ∃ read f accepted,
        x.reading.1 = .ok read ∧ x.finish.1 = .ok f ∧ (x.acceptance f).1 = .ok accepted)) :=
  ⟨fun _ _ _ => x.agreed_of_acceptance hI,fun hhello hheader => by
    obtain ⟨answer,hanswer,hrest⟩ := x.completes hC hhello hheader
    refine ⟨answer,hanswer,fun hanswered => ?_⟩
    obtain ⟨read,f,accepted,hread,hfinish,haccept,_⟩ := hrest hanswered
    exact ⟨read,f,accepted,hread,hfinish,haccept⟩⟩

/-! Two parties of the symbolic suite. -/

def sampleExchange : Exchange symbolic where
  clientStatic := (1 : UInt8)
  serverStatic := (3 : UInt8)
  clientEph := (5 : UInt8)
  serverEph := (6 : UInt8)
  clientHeader := text "header"
  serverHeader := text "header"
  clientPayload := text "payload"
  serverPayload := text "cert"
  hailed := symbolic.publicKey (5 : UInt8)
  answered := (sampleServer.1.toOption).getD ([],[],[])

theorem xx_agreement_sample : ∃ read f accepted,
    sampleExchange.reading.1 = .ok read ∧ sampleExchange.finish.1 = .ok f ∧
    (sampleExchange.acceptance f).1 = .ok accepted ∧
    sampleExchange.Agreed read accepted sampleExchange.finish.2 (sampleExchange.acceptance f).2 := by
  obtain ⟨hagree,hcomplete⟩ := xx_agreement symbolic_ideal symbolic_correct sampleExchange
  obtain ⟨answer,hanswer,hrest⟩ := hcomplete rfl rfl
  have hdelivered : sampleExchange.answered = answer := by
    have hserver : sampleServer.1 = .ok answer := hanswer
    show (sampleServer.1.toOption).getD ([],[],[]) = answer
    rw [hserver]
    rfl
  obtain ⟨read,f,accepted,hread,hfinish,haccept⟩ := hrest hdelivered
  exact ⟨read,f,accepted,hread,hfinish,haccept,hagree read f accepted hread hfinish haccept⟩

end BaturWhatsApi.NoiseAgreement
