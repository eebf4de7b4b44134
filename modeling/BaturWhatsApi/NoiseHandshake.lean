import BaturWhatsApi.NoiseCipher
import BaturWhatsApi.Runs

/-!
# The handshake and its order

`Handshake` and `XX` of `security/noise/noise.go`. The symmetric state is a running
hash, a chaining key, a cipher key and a counter. A method that fails returns the
state it leaves behind. Fresh key pairs are arguments, and a method that would follow
a nil pointer says so.

The only guards of the initiator are its role and one bit, which `WriteClientFinish`
sets. It needs the remote ephemeral key for that, and `ReadServerHello` stores this
key before it has authenticated anything. So the order of the handshake is kept only
by a caller who does not go on after a failed `ReadServerHello`.
-/
namespace BaturWhatsApi.NoiseHandshake
open ByteStrings CipherSuite NoiseCipher Runs

variable {N : NoiseSuite}

def startPattern : Bytes := text "Noise_XX_25519_AESGCM_SHA256\x00\x00\x00\x00"

inductive NoiseError where
  | handshakeState
  | decryptFailed
  | generateKey
  | badPeerKey
  | ecdhFailed
  | serverStatic (e : NoiseError)
  | serverPayload (e : NoiseError)
  | clientStatic (e : NoiseError)
  | clientPayload (e : NoiseError)
  /-- A nil key pair is followed, which panics. -/
  | nilKeyPair
deriving DecidableEq, Repr

/-! ### The symmetric state -/

structure Handshake (N : NoiseSuite) where
  h : List (Atom N.Secret)
  ck : List (Atom N.Secret)
  k : List (Atom N.Secret)
  counter : UInt32

def Handshake.authenticate (nh : Handshake N) (data : Bytes) : Handshake N :=
  {nh with h := [.secret (N.sha256 (nh.h++bytesOf data))]}

def newHandshake (pattern header : Bytes) : Handshake N :=
  let h : List (Atom N.Secret) :=
    if pattern.length = 32 then bytesOf pattern else [.secret (N.sha256 (bytesOf pattern))]
  Handshake.authenticate ⟨h,h,h,0⟩ header

def Handshake.encrypt (nh : Handshake N) (plaintext : Bytes) : Bytes × Handshake N :=
  let ct := N.aeadSeal nh.k (iv nh.counter) plaintext nh.h
  (ct,Handshake.authenticate {nh with counter := nh.counter+1} ct)

def Handshake.decrypt (nh : Handshake N) (ciphertext : Bytes) :
    Except NoiseError Bytes × Handshake N :=
  match N.aeadOpen nh.k (iv nh.counter) ciphertext nh.h with
  | none => (.error .decryptFailed,{nh with counter := nh.counter+1})
  | some pt => (.ok pt,Handshake.authenticate {nh with counter := nh.counter+1} ciphertext)

/-- The two keys of `extractExpand` on the chaining key. -/
def Handshake.extractExpand (nh : Handshake N) (secret : List (Atom N.Secret)) :
    N.Secret × N.Secret :=
  let prk := N.hmac nh.ck secret
  (hkdfFirst prk [],hkdfSecond prk [])

def Handshake.mixKey (nh : Handshake N) (secret : List (Atom N.Secret)) : Handshake N :=
  {nh with
   counter := 0
   ck := [.secret (nh.extractExpand secret).1]
   k := [.secret (nh.extractExpand secret).2]}

/-- Send and receive keys, turned round for the responder. -/
def Handshake.sendKeys (nh : Handshake N) (initiator : Bool) : N.Secret × N.Secret :=
  if initiator then nh.extractExpand [] else (nh.extractExpand []).swap

/-! ### The two parties -/

structure XX (N : NoiseSuite) where
  nh : Handshake N
  initiator : Bool
  static : N.Priv
  remoteStatic : Bytes := []
  remoteEph : Bytes := []
  eph : Option N.Priv := none
  done : Bool := false

def newXXClient (static : N.Priv) (header : Bytes) : XX N :=
  {nh := newHandshake startPattern header,initiator := true,static := static}

def newXXServer (static : N.Priv) (header : Bytes) : XX N :=
  {nh := newHandshake startPattern header,initiator := false,static := static}

def XX.mix (xx : XX N) (priv : N.Priv) (peerPub : Bytes) : Except NoiseError (XX N) :=
  if peerPub.length ≠ 32 then .error .badPeerKey
  else match N.ecdh priv peerPub with
    | none => .error .ecdhFailed
    | some secret => .ok {xx with nh := xx.nh.mixKey [.secret secret]}

def XX.clientHello1 (xx : XX N) (fresh : Except NoiseError N.Priv) :
    Except NoiseError Bytes × XX N :=
  if !xx.initiator then (.error .handshakeState,xx)
  else match fresh with
    | .error e => (.error e,{xx with eph := none})
    | .ok eph =>
        (.ok (N.publicKey eph),
          {xx with eph := some eph,nh := xx.nh.authenticate (N.publicKey eph)})

def XX.writeHello (xx : XX N) (payload : Bytes) : Bytes × XX N :=
  ((xx.nh.encrypt payload).1,{xx with nh := (xx.nh.encrypt payload).2})

def XX.readHello (xx : XX N) (payload : Bytes) : Except NoiseError Bytes × XX N :=
  ((xx.nh.decrypt payload).1,{xx with nh := (xx.nh.decrypt payload).2})

def XX.serverHello1 (xx : XX N) (fresh : Except NoiseError N.Priv) (ephPub payload : Bytes) :
    Except NoiseError (Bytes × Bytes × Bytes) × XX N :=
  if xx.initiator then (.error .handshakeState,xx)
  else
    let xx := {xx with remoteEph := ephPub,nh := xx.nh.authenticate ephPub}
    match fresh with
    | .error e => (.error e,{xx with eph := none})
    | .ok eph =>
        let xx := {xx with eph := some eph,nh := xx.nh.authenticate (N.publicKey eph)}
        match xx.mix eph ephPub with
        | .error e => (.error e,xx)
        | .ok xx =>
            let (staticCT,nh) := xx.nh.encrypt (N.publicKey xx.static)
            let xx := {xx with nh := nh}
            match xx.mix xx.static ephPub with
            | .error e => (.error e,xx)
            | .ok xx =>
                let (payloadCT,nh) := xx.nh.encrypt payload
                (.ok (N.publicKey eph,staticCT,payloadCT),{xx with nh := nh})

def XX.readServerHello (xx : XX N) (serverEph staticCT payloadCT : Bytes) :
    Except NoiseError (Bytes × Bytes) × XX N :=
  if !xx.initiator then (.error .handshakeState,xx)
  else
    let xx := {xx with remoteEph := serverEph,nh := xx.nh.authenticate serverEph}
    match xx.eph with
    | none => (.error .nilKeyPair,xx)
    | some eph =>
        match xx.mix eph serverEph with
        | .error e => (.error e,xx)
        | .ok xx =>
            match xx.nh.decrypt staticCT with
            | (.error e,nh) => (.error (.serverStatic e),{xx with nh := nh})
            | (.ok remoteStatic,nh) =>
                let xx := {xx with nh := nh,remoteStatic := remoteStatic}
                match xx.mix eph remoteStatic with
                | .error e => (.error e,xx)
                | .ok xx =>
                    match xx.nh.decrypt payloadCT with
                    | (.error e,nh) => (.error (.serverPayload e),{xx with nh := nh})
                    | (.ok serverPayload,nh) =>
                        (.ok (remoteStatic,serverPayload),{xx with nh := nh})

def XX.writeClientFinish (xx : XX N) (payload : Bytes) :
    Except NoiseError (Bytes × Bytes) × XX N :=
  if !xx.initiator then (.error .handshakeState,xx)
  else
    let (clientStaticCT,nh) := xx.nh.encrypt (N.publicKey xx.static)
    let xx := {xx with nh := nh}
    match xx.mix xx.static xx.remoteEph with
    | .error e => (.error e,xx)
    | .ok xx =>
        let (clientPayloadCT,nh) := xx.nh.encrypt payload
        (.ok (clientStaticCT,clientPayloadCT),{xx with nh := nh,done := true})

def XX.acceptFinish (xx : XX N) (clientStaticCT clientPayloadCT : Bytes) :
    Except NoiseError (Bytes × Bytes) × XX N :=
  if xx.initiator then (.error .handshakeState,xx)
  else
    match xx.nh.decrypt clientStaticCT with
    | (.error e,nh) => (.error (.clientStatic e),{xx with nh := nh})
    | (.ok remote,nh) =>
        let xx := {xx with nh := nh,remoteStatic := remote}
        match xx.eph with
        | none => (.error .nilKeyPair,xx)
        | some eph =>
            match xx.mix eph remote with
            | .error e => (.error e,xx)
            | .ok xx =>
                match xx.nh.decrypt clientPayloadCT with
                | (.error e,nh) => (.error (.clientPayload e),{xx with nh := nh})
                | (.ok payload,nh) => (.ok (remote,payload),{xx with nh := nh,done := true})

def XX.sendCipher (xx : XX N) : Except NoiseError (Cipher N × Cipher N) :=
  if !xx.done then .error .handshakeState
  else
    let keys := xx.nh.sendKeys xx.initiator
    .ok (newCipher keys.1,newCipher keys.2)

/-! ### Calls of an initiator -/

inductive Call (N : NoiseSuite) where
  | clientHello1 (fresh : Except NoiseError N.Priv)
  | writeHello (payload : Bytes)
  | readHello (payload : Bytes)
  | readServerHello (serverEph staticCT payloadCT : Bytes)
  | writeClientFinish (payload : Bytes)
  | sendCipher

def Call.after : Call N → XX N → XX N
  | .clientHello1 fresh,xx => (xx.clientHello1 fresh).2
  | .writeHello payload,xx => (xx.writeHello payload).2
  | .readHello payload,xx => (xx.readHello payload).2
  | .readServerHello e s p,xx => (xx.readServerHello e s p).2
  | .writeClientFinish payload,xx => (xx.writeClientFinish payload).2
  | .sendCipher,xx => xx

/-- The call returns without an error. -/
def Call.succeeds : Call N → XX N → Bool
  | .clientHello1 fresh,xx => (xx.clientHello1 fresh).1.isOk
  | .writeHello _,_ => true
  | .readHello payload,xx => (xx.readHello payload).1.isOk
  | .readServerHello e s p,xx => (xx.readServerHello e s p).1.isOk
  | .writeClientFinish payload,xx => (xx.writeClientFinish payload).1.isOk
  | .sendCipher,xx => xx.sendCipher.isOk

/-- A party with the calls made on it and their success. -/
structure History (N : NoiseSuite) where
  xx : XX N
  trace : List (Call N × Bool)

def History.step (H : History N) (c : Call N) : History N :=
  ⟨c.after H.xx,H.trace++[(c,c.succeeds H.xx)]⟩

def clientHistory (static : N.Priv) (header : Bytes) : History N := ⟨newXXClient static header,[]⟩

def readResult : Call N × Bool → Option Bool
  | (.readServerHello _ _ _,ok) => some ok
  | _ => none

/-- A hello was written. -/
def Hailed (trace : List (Call N × Bool)) : Prop :=
  ∃ fresh, (.clientHello1 fresh,true) ∈ trace

/-- A hello, and later a server hello that was read and after which no reading failed. -/
def Greeted (trace : List (Call N × Bool)) : Prop :=
  ∃ a c e s p, trace = a++(.readServerHello e s p,true)::c ∧ Hailed a ∧
    ∀ x ∈ c, readResult x ≠ some false

/-- The calls of a handshake, in order. -/
def Ordered (trace : List (Call N × Bool)) : Prop :=
  ∃ a c payload, trace = a++(.writeClientFinish payload,true)::c ∧ Greeted a

/-- The result of the last `ReadServerHello`. -/
def latestRead (trace : List (Call N × Bool)) : Option Bool :=
  (trace.filterMap readResult).getLast?

/-- `WriteClientFinish` is not called after a `ReadServerHello` that failed. -/
def History.Careful (H : History N) : Call N → Prop
  | .writeClientFinish _ => latestRead H.trace ≠ some false
  | _ => True

theorem latestRead_append (trace : List (Call N × Bool)) (x : Call N × Bool) :
    latestRead (trace++[x]) = (readResult x).or (latestRead trace) := by
  rw [latestRead,List.filterMap_append,List.getLast?_append]
  cases hx : readResult x <;> simp [hx,latestRead]

theorem Hailed.append {trace : List (Call N × Bool)} (h : Hailed trace) (x : Call N × Bool) :
    Hailed (trace++[x]) :=
  h.imp fun _ hmem => List.mem_append_left _ hmem

theorem Greeted.append {trace : List (Call N × Bool)} (h : Greeted trace) {x : Call N × Bool}
    (hx : readResult x ≠ some false) : Greeted (trace++[x]) := by
  obtain ⟨a,c,e,s,p,rfl,ha,hc⟩ := h
  refine ⟨a,c++[x],e,s,p,by simp,ha,fun y hy => ?_⟩
  rcases List.mem_append.mp hy with hy | hy
  · exact hc y hy
  · rw [List.mem_singleton.mp hy]
    exact hx

theorem Ordered.append {trace : List (Call N × Bool)} (h : Ordered trace) (x : Call N × Bool) :
    Ordered (trace++[x]) := by
  obtain ⟨a,c,payload,rfl,ha⟩ := h
  exact ⟨a,c++[x],payload,by simp,ha⟩

theorem mix_ok {xx xx' : XX N} {priv : N.Priv} {pub : Bytes} (h : xx.mix priv pub = .ok xx') :
    pub.length = 32 ∧ ∃ secret, N.ecdh priv pub = some secret ∧
      xx' = {xx with nh := xx.nh.mixKey [.secret secret]} := by
  unfold XX.mix at h
  split_ifs at h with hlen
  split at h
  · cases h
  · rename_i secret hs
    exact ⟨not_not.mp hlen,secret,hs,(Except.ok.inj h).symm⟩

/-- The fields that the order depends on. -/
structure SameOrder (xx xx' : XX N) : Prop where
  initiator : xx'.initiator = xx.initiator
  eph : xx'.eph = xx.eph
  remoteEph : xx'.remoteEph = xx.remoteEph
  done : xx'.done = xx.done

theorem readServerHello_same (xx : XX N) (e s p : Bytes) (hi : xx.initiator = true) :
    SameOrder {xx with remoteEph := e} (xx.readServerHello e s p).2 := by
  unfold XX.readServerHello
  rw [if_neg (by rw [hi]; decide)]
  dsimp only
  split
  · exact ⟨rfl,rfl,rfl,rfl⟩
  · split
    · exact ⟨rfl,rfl,rfl,rfl⟩
    · rename_i hmix
      obtain ⟨_,_,_,rfl⟩ := mix_ok hmix
      split
      · exact ⟨rfl,rfl,rfl,rfl⟩
      · split
        · exact ⟨rfl,rfl,rfl,rfl⟩
        · rename_i hmix'
          obtain ⟨_,_,_,rfl⟩ := mix_ok hmix'
          split <;> exact ⟨rfl,rfl,rfl,rfl⟩

/-- Without an ephemeral key nothing is read. -/
theorem readServerHello_eph {xx : XX N} {e s p : Bytes}
    (h : (xx.readServerHello e s p).1.isOk = true) : xx.eph.isSome := by
  unfold XX.readServerHello at h
  split_ifs at h
  · cases h
  · dsimp only at h
    split at h
    · cases h
    · rename_i heph
      exact Option.isSome_iff_exists.mpr ⟨_,heph⟩

/-- A finish completes the handshake and needs a remote key, or leaves the order as it is. -/
theorem writeClientFinish_outcome (xx : XX N) (payload : Bytes) (hi : xx.initiator = true) :
    ((xx.writeClientFinish payload).1.isOk = true ∧ xx.remoteEph ≠ [] ∧
      SameOrder {xx with done := true} (xx.writeClientFinish payload).2) ∨
    ((xx.writeClientFinish payload).1.isOk = false ∧
      SameOrder xx (xx.writeClientFinish payload).2) := by
  unfold XX.writeClientFinish
  rw [if_neg (by rw [hi]; decide)]
  dsimp only
  split
  · exact .inr ⟨rfl,rfl,rfl,rfl,rfl⟩
  · rename_i hmix
    obtain ⟨hlen,_,_,rfl⟩ := mix_ok hmix
    refine .inl ⟨rfl,fun hnil => ?_,rfl,rfl,rfl,rfl⟩
    simp only [hnil,List.length_nil] at hlen
    cases hlen

/-- What the calls so far have made sure of. -/
structure History.Inv (H : History N) : Prop where
  initiator : H.xx.initiator = true
  hailed : H.xx.eph.isSome → Hailed H.trace
  unread : latestRead H.trace = none → H.xx.remoteEph = []
  read : latestRead H.trace = some true → Greeted H.trace
  done : H.xx.done = true → Ordered H.trace

theorem inv_clientHistory (static : N.Priv) (header : Bytes) :
    (clientHistory static header).Inv :=
  ⟨rfl,fun h => (nomatch h),fun _ => rfl,fun h => (nomatch h),fun h => (nomatch h)⟩

/-- A call that reads nothing keeps what was known of the readings. -/
theorem History.Inv.readless {H : History N} (h : H.Inv) {xx : XX N} {x : Call N × Bool}
    (hx : readResult x = none) (hinit : xx.initiator = H.xx.initiator)
    (hremote : xx.remoteEph = H.xx.remoteEph) (hhailed : xx.eph.isSome → Hailed (H.trace++[x]))
    (hdone : xx.done = true → Ordered (H.trace++[x])) : History.Inv ⟨xx,H.trace++[x]⟩ := by
  have hread := latestRead_append H.trace x
  rw [hx,Option.none_or] at hread
  refine ⟨hinit.trans h.initiator,hhailed,?_,?_,hdone⟩
  · intro hnone
    rw [hread] at hnone
    exact hremote.trans (h.unread hnone)
  · intro htrue
    rw [hread] at htrue
    exact (h.read htrue).append (by rw [hx]; simp)

/-- A call that also leaves the order alone. -/
theorem History.Inv.quiet {H : History N} (h : H.Inv) {xx : XX N} {x : Call N × Bool}
    (hx : readResult x = none) (hsame : SameOrder H.xx xx) : History.Inv ⟨xx,H.trace++[x]⟩ := by
  apply h.readless hx hsame.initiator hsame.remoteEph
  · intro heph
    rw [hsame.eph] at heph
    exact (h.hailed heph).append x
  · intro hdone
    rw [hsame.done] at hdone
    exact (h.done hdone).append x

theorem History.Inv.clientHello1 {H : History N} (h : H.Inv) (fresh : Except NoiseError N.Priv) :
    (H.step (.clientHello1 fresh)).Inv := by
  have hstep : H.step (.clientHello1 fresh) = ⟨(H.xx.clientHello1 fresh).2,
      H.trace++[(.clientHello1 fresh,(H.xx.clientHello1 fresh).1.isOk)]⟩ := rfl
  have hsame : (H.xx.clientHello1 fresh).2.initiator = H.xx.initiator ∧
      (H.xx.clientHello1 fresh).2.remoteEph = H.xx.remoteEph ∧
      (H.xx.clientHello1 fresh).2.done = H.xx.done ∧
      ((H.xx.clientHello1 fresh).2.eph.isSome → (H.xx.clientHello1 fresh).1.isOk = true) := by
    unfold XX.clientHello1
    rw [if_neg (by rw [h.initiator]; decide)]
    cases fresh with
    | error e => exact ⟨rfl,rfl,rfl,fun heph => (nomatch heph)⟩
    | ok eph => exact ⟨rfl,rfl,rfl,fun _ => rfl⟩
  rw [hstep]
  apply h.readless rfl hsame.1 hsame.2.1
  · intro heph
    refine ⟨fresh,List.mem_append_right _ ?_⟩
    rw [hsame.2.2.2 heph]
    exact List.mem_singleton_self _
  · intro hdone
    rw [hsame.2.2.1] at hdone
    exact (h.done hdone).append _

theorem History.Inv.readServerHello {H : History N} (h : H.Inv) (e s p : Bytes) :
    (H.step (.readServerHello e s p)).Inv := by
  have hread := latestRead_append H.trace
    (.readServerHello e s p,(H.xx.readServerHello e s p).1.isOk)
  rw [show readResult (_,_) = some (H.xx.readServerHello e s p).1.isOk from rfl,
    Option.some_or] at hread
  have hsame := readServerHello_same H.xx e s p h.initiator
  have hstep : H.step (.readServerHello e s p) = ⟨(H.xx.readServerHello e s p).2,
      H.trace++[(.readServerHello e s p,(H.xx.readServerHello e s p).1.isOk)]⟩ := rfl
  rw [hstep]
  refine ⟨hsame.initiator.trans h.initiator,?_,?_,?_,?_⟩
  · intro heph
    rw [hsame.eph] at heph
    exact (h.hailed heph).append _
  · intro hnone
    rw [hread] at hnone
    cases hnone
  · intro htrue
    rw [hread,Option.some.injEq] at htrue
    have hhailed := h.hailed (readServerHello_eph htrue)
    exact ⟨H.trace,[],e,s,p,by rw [htrue],hhailed,fun _ hx => (nomatch hx)⟩
  · intro hdone
    rw [hsame.done] at hdone
    exact (h.done hdone).append _

theorem History.Inv.writeClientFinish {H : History N} (h : H.Inv) (payload : Bytes)
    (hcareful : latestRead H.trace ≠ some false) : (H.step (.writeClientFinish payload)).Inv := by
  have hstep : H.step (.writeClientFinish payload) = ⟨(H.xx.writeClientFinish payload).2,
      H.trace++[(.writeClientFinish payload,(H.xx.writeClientFinish payload).1.isOk)]⟩ := rfl
  rw [hstep]
  rcases writeClientFinish_outcome H.xx payload h.initiator with ⟨hok,hne,hsame⟩ | ⟨_,hsame⟩
  · have hgreeted : Greeted H.trace := by
      cases hlast : latestRead H.trace with
      | none => exact absurd (h.unread hlast) hne
      | some ok =>
          cases ok with
          | false => exact absurd hlast hcareful
          | true => exact h.read hlast
    rw [hok]
    apply h.readless rfl hsame.initiator hsame.remoteEph
    · intro heph
      rw [hsame.eph] at heph
      exact (h.hailed heph).append _
    · intro _
      exact ⟨H.trace,[],payload,rfl,hgreeted⟩
  · exact h.quiet rfl hsame

theorem History.Inv.step {H : History N} (h : H.Inv) (c : Call N) (hcareful : H.Careful c) :
    (H.step c).Inv := by
  cases c with
  | clientHello1 fresh => exact h.clientHello1 fresh
  | writeHello payload => exact h.quiet rfl ⟨rfl,rfl,rfl,rfl⟩
  | readHello payload => exact h.quiet rfl ⟨rfl,rfl,rfl,rfl⟩
  | readServerHello e s p => exact h.readServerHello e s p
  | writeClientFinish payload => exact h.writeClientFinish payload hcareful
  | sendCipher => exact h.quiet rfl ⟨rfl,rfl,rfl,rfl⟩

/-- Keys come out only at the end of a handshake, if no `WriteClientFinish` follows a server
hello that was refused. -/
theorem sendCipher_ordered (static : N.Priv) (header : Bytes) (calls : List (Call N))
    (h : Along History.step History.Careful calls (clientHistory static header)) :
    let H := run History.step calls (clientHistory static header)
    Ordered H.trace ∨ H.xx.sendCipher = .error .handshakeState := by
  have hinv : (run History.step calls (clientHistory static header)).Inv :=
    h.invariant (fun _ c hI hc => hI.step c hc) (inv_clientHistory static header)
  cases hdone : (run History.step calls (clientHistory static header)).xx.done with
  | true => exact .inl (hinv.done hdone)
  | false =>
      right
      rw [XX.sendCipher,hdone]
      rfl

/-! A server of the symbolic suite, and a client that goes through the handshake with it. -/

def sampleServer : Except NoiseError (Bytes × Bytes × Bytes) × XX symbolic :=
  (newXXServer (N := symbolic) (3 : UInt8) (text "header")).serverHello1 (.ok (6 : UInt8))
    (symbolic.publicKey (5 : UInt8)) (text "cert")

def sampleCalls : List (Call symbolic) :=
  match sampleServer.1 with
  | .ok (e,s,p) =>
      [.clientHello1 (.ok (5 : UInt8)),.readServerHello e s p,.writeClientFinish (text "payload")]
  | .error _ => []

def sampleClient : History symbolic := clientHistory (N := symbolic) (1 : UInt8) (text "header")

instance (H : History N) (c : Call N) : Decidable (H.Careful c) := by
  unfold History.Careful
  cases c <;> infer_instance

theorem sendCipher_ordered_sample :
    let H := run History.step sampleCalls sampleClient
    (Ordered H.trace ∨ H.xx.sendCipher = .error .handshakeState) ∧ H.xx.sendCipher.isOk = true :=
  ⟨sendCipher_ordered (N := symbolic) (1 : UInt8) (text "header") sampleCalls (by decide +kernel),
    by decide +kernel⟩

def forcedCalls : List (Call symbolic) :=
  [.clientHello1 (.ok (5 : UInt8)),.readServerHello (symbolic.publicKey (6 : UInt8)) [] [],
    .writeClientFinish (text "payload")]

/-- A server hello with nothing to authenticate it is refused, and the keys come out all
the same. -/
theorem sendCipher_unauthenticated :
    let H := run History.step forcedCalls sampleClient
    ¬Ordered H.trace ∧ H.xx.sendCipher.isOk = true := by
  refine ⟨?_,by decide⟩
  have hread : ∀ x ∈ (run History.step forcedCalls sampleClient).trace,
      readResult x ≠ some true := by decide
  rintro ⟨a,c,payload,htrace,b,d,e,s,p,rfl,_,_⟩
  apply hread (.readServerHello e s p,true) _ rfl
  rw [htrace]
  simp

end BaturWhatsApi.NoiseHandshake
