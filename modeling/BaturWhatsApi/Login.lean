import BaturWhatsApi.FinishPayload
import BaturWhatsApi.HandshakeFrames
import BaturWhatsApi.JsonTexts
import BaturWhatsApi.ListCells
import BaturWhatsApi.NoiseAgreement
import BaturWhatsApi.RatchetStorage

/-!
# Logging in

`handshake` of `session/session.go` and the beginning of `ServeConn` of
`internal/mockserver/mockserver.go`: the noise handshake in the frames of the protocol. A session
sends a hello, reads a server hello, asks its policy about the server's key, saves its
credentials and sends a finish with its registration. The server answers a hello and takes a
finish.

Any number of sessions and servings go on at the same time, and each of them is given any bytes
in place of a frame of its peer.
-/
namespace BaturWhatsApi.Login
open ByteStrings CipherSuite NoiseCipher NoiseHandshake RatchetStorage FinishPayload
open HandshakeFrames JsonValues JsonTexts KeyValueStores Fallible

variable {N : NoiseSuite} {α : Type}

/-! ### The session -/

inductive LoginError (α : Type) where
  | seedLength
  | restoreKey
  | noise (e : NoiseError)
  | missingServerHello
  | malformedServerHello
  | helloRejected (e : NoiseError)
  | noPolicy
  | serverAuth (e : α)
  | save
  /-- The slice of a short seed panics. -/
  | panics
deriving DecidableEq, Repr

/-- What a session brings into its handshake. The bytes `behind` the noise seed are those of its
array up to the capacity. The policy is `ServerAuth`, which gets the static key and the
certificates, and `saved` says whether the store takes the credentials. -/
structure Session (N : NoiseSuite) (α : Type) where
  id : Bytes
  device : DeviceInfo
  creds : Credentials
  behind : Bytes := []
  header : Bytes
  fresh : Except NoiseError N.Priv
  auth : Option (Bytes → Bytes → Except α Unit)
  saved : Bool

def keyPairFromSeed (F : Seeds N.toSuite) (seed : Bytes) : Except (LoginError α) N.Priv :=
  if seed.length ≠ 32 then .error .seedLength
  else match F.ofSeed seed with
    | none => .error .restoreKey
    | some k => .ok k

/-- The first frame, and the handshake behind it. -/
def Session.hail (F : Seeds N.toSuite) (s : Session N α) : Except (LoginError α) (Bytes × XX N) := do
  let static ← keyPairFromSeed F s.creds.noiseKeySeed
  match (newXXClient static s.header).clientHello1 s.fresh with
  | (.error e,_) => .error (.noise e)
  | (.ok eph,xx) => .ok (wrapTop hsFieldClientHello (built (ClientHello.parts ⟨eph,[]⟩)),xx)

def serverHelloOf (resp : Bytes) : Except (LoginError α) ServerHello :=
  match unwrapTop resp hsFieldServerHello with
  | .error _ => .error .missingServerHello
  | .ok m =>
      if m = [] then .error .missingServerHello
      else
        let sh := parseServerHello m
        if sh.ephemeral.length ≠ 32 ∨ sh.static.length = 0 then .error .malformedServerHello
        else .ok sh

def Session.check (s : Session N α) (static cert : Bytes) : Except (LoginError α) Unit :=
  match s.auth with
  | none => .error .noPolicy
  | some auth => (auth static cert).mapError .serverAuth

def Session.payload (sha : Sha256) (s : Session N α) : Except (LoginError α) Bytes :=
  match finishPayload sha s.id s.device s.creds s.behind with
  | none => .error .panics
  | some payload => .ok payload

/-- The second frame with its two ciphertexts, and the certificates that were read. -/
structure Finished (N : NoiseSuite) where
  cert : Bytes
  sent : ClientFinish
  xx : XX N

def Finished.frame (f : Finished N) : Bytes := wrapTop hsFieldClientFinish (built f.sent.parts)

/-- The rest of the handshake on an answer. -/
def Session.finish (sha : Sha256) (s : Session N α) (xx : XX N) (resp : Bytes) :
    Except (LoginError α) (Finished N) := do
  let sh ← serverHelloOf resp
  match xx.readServerHello sh.ephemeral sh.static sh.payload with
  | (.error e,_) => .error (.helloRejected e)
  | (.ok (_,cert),xx) => do
      s.check xx.remoteStatic cert
      if !s.saved then .error .save
      else do
        let payload ← s.payload sha
        match xx.writeClientFinish payload with
        | (.error e,_) => .error (.noise e)
        | (.ok (static,payload),xx) => .ok ⟨cert,⟨static,payload⟩,xx⟩

/-! ### The server -/

inductive ServeError where
  | badClientHello
  | malformedClientHello
  | noise (e : NoiseError)
  | badClientFinish
  | finishRejected (e : NoiseError)
  | badRegistration
deriving DecidableEq, Repr

structure Registration where
  deviceID : Bytes := []
  name : Bytes := []
  platform : Bytes := []
  noisePub : Bytes := []
  accountJID : Bytes := []
deriving DecidableEq, Repr

def Registration.member (reg : Registration) (e : Bytes × Json) : Option Registration :=
  if named "device_id" e.1 then (intoString reg.deviceID e.2).map fun s => {reg with deviceID := s}
  else if named "name" e.1 then (intoString reg.name e.2).map fun s => {reg with name := s}
  else if named "platform" e.1 then
    (intoString reg.platform e.2).map fun s => {reg with platform := s}
  else if named "noise_pub" e.1 then
    (intoString reg.noisePub e.2).map fun s => {reg with noisePub := s}
  else if named "account" e.1 then
    (intoString reg.accountJID e.2).map fun s => {reg with accountJID := s}
  else some reg

def registration (payload : Bytes) : Option Registration :=
  (unmarshal payload).bind (intoRecord Registration.member {})

/-- What the server brings into the handshake on one connection. -/
structure Service (N : NoiseSuite) where
  static : N.Priv
  certChain : Bytes
  header : Bytes
  fresh : Except NoiseError N.Priv

/-- The answer to a hello. -/
structure Answered (N : NoiseSuite) where
  hailed : Bytes
  sent : ServerHello
  xx : XX N

def Answered.frame (a : Answered N) : Bytes := wrapTop hsFieldServerHello (built a.sent.parts)

def clientHelloOf (frame : Bytes) : Except ServeError ClientHello :=
  match unwrapTop frame hsFieldClientHello with
  | .error _ => .error .badClientHello
  | .ok m =>
      if m = [] then .error .badClientHello
      else
        let ch := parseClientHello m
        if ch.ephemeral.length ≠ 32 then .error .malformedClientHello else .ok ch

def Service.answer (v : Service N) (frame : Bytes) : Except ServeError (Answered N) := do
  let ch ← clientHelloOf frame
  match (newXXServer v.static v.header).serverHello1 v.fresh ch.ephemeral v.certChain with
  | (.error e,_) => .error (.noise e)
  | (.ok (eph,static,cert),xx) => .ok ⟨ch.ephemeral,⟨eph,static,cert⟩,xx⟩

def clientFinishOf (frame : Bytes) : Except ServeError ClientFinish :=
  match unwrapTop frame hsFieldClientFinish with
  | .error _ => .error .badClientFinish
  | .ok m => if m = [] then .error .badClientFinish else .ok (parseClientFinish m)

/-- A finish that was taken, with the client's key and registration. -/
structure Accepted (N : NoiseSuite) where
  remote : Bytes
  payload : Bytes
  reg : Registration
  xx : XX N

def accept (xx : XX N) (frame : Bytes) : Except ServeError (Accepted N) := do
  let cf ← clientFinishOf frame
  match xx.acceptFinish cf.static cf.payload with
  | (.error e,_) => .error (.finishRejected e)
  | (.ok (remote,payload),xx) =>
      match registration payload with
      | none => .error .badRegistration
      | some reg => .ok ⟨remote,payload,reg,xx⟩

/-! ### Many of them -/

/-- A session that has sent its hello. -/
structure Client (N : NoiseSuite) (α : Type) where
  session : Session N α
  xx : XX N
  finished : Option (Finished N) := none
  failed : Bool := false

/-- A connection on which the server has answered a hello. -/
structure Serving (N : NoiseSuite) where
  service : Service N
  answered : Answered N
  accepted : Option (Accepted N) := none
  failed : Bool := false

structure World (N : NoiseSuite) (α : Type) where
  clients : List (Client N α) := []
  servings : List (Serving N) := []

def Client.read (sha : Sha256) (resp : Bytes) (c : Client N α) : Client N α :=
  if c.finished.isSome || c.failed then c
  else match c.session.finish sha c.xx resp with
    | .error _ => {c with failed := true}
    | .ok f => {c with finished := some f}

def Serving.take (frame : Bytes) (v : Serving N) : Serving N :=
  if v.accepted.isSome || v.failed then v
  else match accept v.answered.xx frame with
    | .error _ => {v with failed := true}
    | .ok a => {v with accepted := some a}

inductive Event (N : NoiseSuite) (α : Type) where
  | hail (s : Session N α)
  | serve (v : Service N) (frame : Bytes)
  | read (i : ℕ) (resp : Bytes)
  | accept (j : ℕ) (frame : Bytes)

/-- The parameters of all sessions and servings. -/
structure Setting (N : NoiseSuite) where
  seeds : Seeds N.toSuite
  sha : Sha256

def World.step (E : Setting N) (W : World N α) : Event N α → World N α
  | .hail s =>
      match s.hail E.seeds with
      | .error _ => W
      | .ok (_,xx) => {W with clients := W.clients++[{session := s,xx := xx}]}
  | .serve v frame =>
      match v.answer frame with
      | .error _ => W
      | .ok a => {W with servings := W.servings++[{service := v,answered := a}]}
  | .read i resp => {W with clients := W.clients.modify i (Client.read E.sha resp)}
  | .accept j frame => {W with servings := W.servings.modify j (Serving.take frame)}

/-! ### What a success says -/

theorem keyPairFromSeed_ok {F : Seeds N.toSuite} {seed : Bytes} {k : N.Priv}
    (h : keyPairFromSeed (α := α) F seed = .ok k) : seed.length = 32 ∧ F.ofSeed seed = some k := by
  unfold keyPairFromSeed at h
  split_ifs at h with hlen
  split at h
  · cases h
  · rename_i k' hk
    cases h
    exact ⟨not_not.mp hlen,hk⟩

/-- A session after its hello. -/
theorem hail_ok {F : Seeds N.toSuite} {s : Session N α} {frame : Bytes} {xx : XX N}
    (h : s.hail F = .ok (frame,xx)) :
    ∃ static eph, keyPairFromSeed (α := α) F s.creds.noiseKeySeed = .ok static ∧
      s.fresh = .ok eph ∧
      frame = wrapTop hsFieldClientHello (built (ClientHello.parts ⟨N.publicKey eph,[]⟩)) ∧
      xx = ((newXXClient static s.header).clientHello1 (.ok eph)).2 := by
  rw [Session.hail,bind_eq_ok] at h
  obtain ⟨static,hstatic,h⟩ := h
  cases hfresh : s.fresh with
  | error e =>
      rw [hfresh] at h
      cases h
  | ok eph =>
      rw [hfresh] at h
      cases h
      exact ⟨static,eph,hstatic,rfl,rfl,rfl⟩

/-- A session that has sent its finish. -/
theorem finish_ok {sha : Sha256} {s : Session N α} {xx : XX N} {resp : Bytes} {f : Finished N}
    (h : s.finish sha xx resp = .ok f) :
    ∃ sh rs xx' payload, serverHelloOf (α := α) resp = .ok sh ∧
      xx.readServerHello sh.ephemeral sh.static sh.payload = (.ok (rs,f.cert),xx') ∧
      s.check xx'.remoteStatic f.cert = .ok () ∧ s.saved = true ∧
      finishPayload sha s.id s.device s.creds s.behind = some payload ∧
      xx'.writeClientFinish payload = (.ok (f.sent.static,f.sent.payload),f.xx) := by
  rw [Session.finish,bind_eq_ok] at h
  obtain ⟨sh,hsh,h⟩ := h
  split at h
  · cases h
  · rename_i rs cert xx' hread
    rw [bind_eq_ok] at h
    obtain ⟨_,hcheck,h⟩ := h
    split_ifs at h with hsaved
    rw [bind_eq_ok] at h
    obtain ⟨payload,hpayload,h⟩ := h
    split at h
    · cases h
    · rename_i static payload' xx'' hwrite
      cases h
      refine ⟨sh,rs,xx',payload,hsh,hread,hcheck,by simpa using hsaved,?_,hwrite⟩
      unfold Session.payload at hpayload
      split at hpayload
      · cases hpayload
      · rename_i hp
        cases hpayload
        exact hp

theorem answer_ok {v : Service N} {frame : Bytes} {a : Answered N} (h : v.answer frame = .ok a) :
    ∃ ch, clientHelloOf frame = .ok ch ∧ a.hailed = ch.ephemeral ∧
      (newXXServer v.static v.header).serverHello1 v.fresh ch.ephemeral v.certChain =
        (.ok (a.sent.ephemeral,a.sent.static,a.sent.payload),a.xx) := by
  rw [Service.answer,bind_eq_ok] at h
  obtain ⟨ch,hch,h⟩ := h
  split at h
  · cases h
  · rename_i hserver
    cases h
    exact ⟨ch,hch,rfl,hserver⟩

theorem accept_ok {xx : XX N} {frame : Bytes} {a : Accepted N} (h : accept xx frame = .ok a) :
    ∃ cf, clientFinishOf frame = .ok cf ∧
      xx.acceptFinish cf.static cf.payload = (.ok (a.remote,a.payload),a.xx) ∧
      registration a.payload = some a.reg := by
  rw [accept,bind_eq_ok] at h
  obtain ⟨cf,hcf,h⟩ := h
  split at h
  · cases h
  · rename_i haccept
    split at h
    · cases h
    · rename_i reg hreg
      cases h
      exact ⟨cf,hcf,haccept,hreg⟩

end BaturWhatsApi.Login
