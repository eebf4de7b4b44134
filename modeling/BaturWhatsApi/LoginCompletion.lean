import BaturWhatsApi.LoginTranscripts
import BaturWhatsApi.Runs
import BaturWhatsApi.TranscriptSuite

/-!
# A login that nobody disturbs

When every frame arrives as it was sent, the server's key passes the policy of the session and the
store takes the credentials, the login comes to its end: the server has the registration that the
session describes itself with, read from its JSON text, and both have the same keys. The names
in the registration have their invalid bytes replaced, and it holds the seed of the session's
key where its public key should be.
-/
namespace BaturWhatsApi.LoginCompletion
open ByteStrings CipherSuite NoiseCipher NoiseHandshake NoiseAgreement NoiseAgreement.Exchange
open RatchetStorage FinishPayload HandshakeFrames JsonTexts KeyValueStores Login Utf8Runes
open LoginTranscripts ProtobufMessages Fallible Runs ListCells

variable {N : NoiseSuite} {α : Type}

/-- The registration that the server makes of the payload. -/
def registered (sha : Sha256) (s : Session N α) : Registration where
  deviceID := deviceID sha s.id
  name := coerce s.device.deviceName
  platform := coerce s.device.platform
  noisePub := Base32.encode s.creds.noiseKeySeed

theorem registration_payload (sha : Sha256) (s : Session N α) :
    registration (marshal (payloadJson sha s.id s.device s.creds.registrationID
      s.creds.noiseKeySeed)) = some (registered sha s) := by
  rw [registration,unmarshal_payloadJson]
  rfl

/-! ### Frames -/

def helloFrame (eph : Bytes) : Bytes :=
  wrapTop hsFieldClientHello (built (ClientHello.parts ⟨eph,[]⟩))

theorem clientHelloOf_frame {eph : Bytes} (heph : eph.length = 32)
    (hlen : (helloFrame eph).length < 2^64) : clientHelloOf (helloFrame eph) = .ok ⟨eph,[]⟩ := by
  have hne : fields (ClientHello.parts ⟨eph,[]⟩) ≠ [] := parts_ne_nil
  simp only [clientHelloOf,helloFrame,unwrapTop_wrapTop _ hlen,if_neg hne,parseClientHello_parts,
    heph,ne_eq,not_true_eq_false,if_false]

theorem serverHelloOf_frame {a : Answered N} (heph : a.sent.ephemeral.length = 32)
    (hstatic : 0 < a.sent.static.length) (hlen : a.frame.length < 2^64) :
    serverHelloOf (α := α) a.frame = .ok a.sent := by
  have hne : fields a.sent.parts ≠ [] := parts_ne_nil
  simp only [serverHelloOf,Answered.frame,unwrapTop_wrapTop _ hlen,if_neg hne,
    parseServerHello_parts,heph,hstatic.ne',ne_eq,not_true_eq_false,or_self,if_false]

theorem clientFinishOf_frame {f : Finished N} (hlen : f.frame.length < 2^64) :
    clientFinishOf f.frame = .ok f.sent := by
  have hne : fields f.sent.parts ≠ [] := parts_ne_nil
  simp only [clientFinishOf,Finished.frame,unwrapTop_wrapTop _ hlen,if_neg hne,
    parseClientFinish_parts]

/-! ### The steps -/

section
variable {E : Setting N} {s : Session N α} {v : Service N} {static eph eph' : N.Priv}

theorem hail_eq (hseed : keyPairFromSeed (α := α) E.seeds s.creds.noiseKeySeed = .ok static)
    (hfresh : s.fresh = .ok eph) : s.hail E.seeds = .ok (helloFrame (N.publicKey eph),
      ((newXXClient static s.header).clientHello1 (.ok eph)).2) := by
  rw [Session.hail,hseed,hfresh]
  rfl

theorem answer_eq {hailed e st p : Bytes} {xx : XX N} (hhailed : hailed.length = 32)
    (hlen : (helloFrame hailed).length < 2^64) (hfresh : v.fresh = .ok eph')
    (h : (newXXServer v.static v.header).serverHello1 (.ok eph') hailed v.certChain =
      (.ok (e,st,p),xx)) : v.answer (helloFrame hailed) = .ok ⟨hailed,⟨e,st,p⟩,xx⟩ := by
  rw [Service.answer,bind_eq_ok]
  refine ⟨_,clientHelloOf_frame hhailed hlen,?_⟩
  rw [hfresh,h]

theorem finish_eq {resp rs cert payload st p : Bytes} {sh : ServerHello} {xx xx' xx'' : XX N}
    (hsh : serverHelloOf (α := α) resp = .ok sh)
    (hread : xx.readServerHello sh.ephemeral sh.static sh.payload = (.ok (rs,cert),xx'))
    (hcheck : s.check xx'.remoteStatic cert = .ok ()) (hsaved : s.saved = true)
    (hpayload : finishPayload E.sha s.id s.device s.creds s.behind = some payload)
    (hwrite : xx'.writeClientFinish payload = (.ok (st,p),xx'')) :
    s.finish E.sha xx resp = .ok ⟨cert,⟨st,p⟩,xx''⟩ := by
  rw [Session.finish,bind_eq_ok]
  refine ⟨sh,hsh,?_⟩
  rw [hread]
  simp only [bind_eq_ok]
  refine ⟨(),hcheck,?_⟩
  rw [if_neg (by simp [hsaved]),bind_eq_ok]
  refine ⟨payload,?_,?_⟩
  · rw [Session.payload,hpayload]
  · rw [hwrite]

theorem accept_eq {frame remote payload : Bytes} {cf : ClientFinish} {reg : Registration}
    {xx xx' : XX N} (hcf : clientFinishOf frame = .ok cf)
    (haccept : xx.acceptFinish cf.static cf.payload = (.ok (remote,payload),xx'))
    (hreg : registration payload = some reg) :
    accept xx frame = .ok ⟨remote,payload,reg,xx'⟩ := by
  rw [accept,bind_eq_ok]
  refine ⟨cf,hcf,?_⟩
  rw [haccept]
  simp only [hreg]

end

/-! ### The login -/

/-- What the two parties bring into a login that succeeds. -/
structure Ready (E : Setting N) (s : Session N α) (v : Service N) (static eph eph' : N.Priv) :
    Prop where
  seed : keyPairFromSeed (α := α) E.seeds s.creds.noiseKeySeed = .ok static
  fresh : s.fresh = .ok eph
  fresh' : v.fresh = .ok eph'
  header : s.header = v.header
  passes : s.check (N.publicKey v.static) v.certChain = .ok ()
  saved : s.saved = true

/-- The three frames fit in memory. -/
def framesFit (E : Setting N) (s : Session N α) (v : Service N) : Bool :=
  match s.hail E.seeds with
  | .error _ => true
  | .ok (hello,xx) => hello.length < 2^64 && match v.answer hello with
    | .error _ => true
    | .ok a => a.frame.length < 2^64 && match s.finish E.sha xx a.frame with
      | .error _ => true
      | .ok f => f.frame.length < 2^64

/-- The steps of a login, each with the frame it is given. -/
structure Completes (E : Setting N) (s : Session N α) (v : Service N) (hello : Bytes) (xx : XX N)
    (a : Answered N) (f : Finished N) (t : Accepted N) : Prop where
  hails : s.hail E.seeds = .ok (hello,xx)
  answers : v.answer hello = .ok a
  reads : serverHelloOf (α := α) a.frame = .ok a.sent
  finishes : s.finish E.sha xx a.frame = .ok f
  hears : clientFinishOf f.frame = .ok f.sent
  accepts : accept a.xx f.frame = .ok t
  joined : Joined E s f v a t
  registers : t.reg = registered E.sha s

/-- Every step of the login succeeds. -/
theorem Ready.completes (hC : N.Correct)
    (hseal : ∀ k n p ad, 0 < (N.aeadSeal k n p ad).length) {E : Setting N} {s : Session N α}
    {v : Service N} {static eph eph' : N.Priv} (h : Ready E s v static eph eph')
    (hfit : framesFit E s v = true) :
    ∃ hello xx a f t, Completes E s v hello xx a f t := by
  have hpayload : finishPayload E.sha s.id s.device s.creds s.behind = some _ :=
    finishPayload_of_length (keyPairFromSeed_ok h.seed).1 s.behind
  generalize hj : marshal (payloadJson E.sha s.id s.device s.creds.registrationID
    s.creds.noiseKeySeed) = payload at hpayload
  -- the answer does not depend on what the session is given for it
  let x₀ : Exchange N :=
    ⟨static,v.static,eph,eph',s.header,v.header,payload,v.certChain,N.publicKey eph,[],[],[]⟩
  obtain ⟨⟨e,st,p⟩,hanswer,_⟩ := x₀.completes hC rfl h.header
  let x : Exchange N := {x₀ with answered := (e,st,p)}
  obtain ⟨answer,hanswer',hrest⟩ := x.completes hC rfl h.header
  obtain rfl : (e,st,p) = answer := Except.ok.inj (hanswer.symm.trans hanswer')
  obtain ⟨read,f,accepted,hread,hfinish,haccept,hagreed⟩ := hrest rfl
  have hserver : x.answer = (.ok (e,st,p),x.answer.2) := Prod.ext hanswer' rfl
  have hreading : x.reading = (.ok (read.1,read.2),x.reading.2) := Prod.ext hread rfl
  have hwrite : x.reading.2.writeClientFinish payload = (.ok (f.1,f.2),x.finish.2) :=
    Prod.ext hfinish rfl
  have haccepting : x.answer.2.acceptFinish f.1 f.2 =
      (.ok (accepted.1,accepted.2),(x.acceptance f).2) := Prod.ext haccept rfl
  obtain ⟨_,_,_,_,_,hst,_⟩ := serverHello1_ok hserver
  obtain ⟨_,_,_,hclient⟩ := writeClientFinish_ok hwrite
  obtain ⟨_,_,_,_,_,_,hstate⟩ := x.reading_ok hreading
  have hremote : x.reading.2.remoteStatic = N.publicKey v.static := by
    rw [← hagreed.clientRemote.1,hclient]
  have hremoteEph : x.finish.2.remoteEph = N.publicKey eph' := by
    rw [hclient,hstate]
    exact hagreed.serverEph
  have hcheck : s.check x.reading.2.remoteStatic read.2 = .ok () := by
    rw [hremote,hagreed.serverPayload]
    exact h.passes
  have hstatic : 0 < st.length := (hseal _ _ _ _).trans_eq (congrArg List.length hst).symm
  have heph : e.length = 32 := by
    rw [show e = N.publicKey eph' from hagreed.serverEph]
    exact hC.public_length eph'
  have hreg : registration accepted.2 = some (registered E.sha s) := by
    rw [hagreed.clientPayload,show x.clientPayload = payload from rfl,← hj]
    exact registration_payload E.sha s
  have hhail := hail_eq h.seed h.fresh
  simp only [framesFit,hhail,Bool.and_eq_true,decide_eq_true_eq] at hfit
  have hanswers := answer_eq (hC.public_length eph) hfit.1 h.fresh' hserver
  simp only [hanswers,Bool.and_eq_true,decide_eq_true_eq] at hfit
  have hreads := serverHelloOf_frame (α := α) heph hstatic hfit.2.1
  have hfinishes := finish_eq hreads hreading hcheck h.saved hpayload hwrite
  have hframe : s.finish E.sha ((newXXClient static s.header).clientHello1 (.ok eph)).2
      (Answered.frame ⟨N.publicKey eph,⟨e,st,p⟩,x.answer.2⟩) =
        .ok ⟨read.2,⟨f.1,f.2⟩,x.finish.2⟩ := hfinishes
  simp only [hframe,decide_eq_true_eq] at hfit
  have hhears := clientFinishOf_frame hfit.2.2
  refine ⟨_,_,_,_,_,hhail,hanswers,hreads,hfinishes,hhears,accept_eq hhears haccepting hreg,
    ⟨⟨h.header.symm,⟨eph,h.fresh,rfl⟩,⟨eph',h.fresh',hremoteEph⟩,?_,?_⟩,⟨static,h.seed,?_⟩,?_,
      hagreed.keys⟩,rfl⟩
  · exact hagreed.clientRemote.1
  · exact hagreed.serverPayload
  · exact hagreed.serverRemote.2.trans hagreed.serverRemote.1
  · rw [show accepted.2 = payload from hagreed.clientPayload]
    exact hpayload

/-- The events of a login in a world with other sessions and servings. -/
def loginEvents (W : World N α) (s : Session N α) (v : Service N) (hello : Bytes) (a : Answered N)
    (f : Finished N) : List (Event N α) :=
  [.hail s,.serve v hello,.read W.clients.length a.frame,.accept W.servings.length f.frame]

/-- The world after a login. -/
def loggedIn (W : World N α) (s : Session N α) (v : Service N) (xx : XX N) (a : Answered N)
    (f : Finished N) (t : Accepted N) : World N α where
  clients := W.clients++[{session := s,xx := xx,finished := some f}]
  servings := W.servings++[{service := v,answered := a,accepted := some t}]

theorem run_login {E : Setting N} {s : Session N α} {v : Service N} {hello : Bytes} {xx : XX N}
    {a : Answered N} {f : Finished N} {t : Accepted N} (h : Completes E s v hello xx a f t)
    (W : World N α) :
    run (World.step E) (loginEvents W s v hello a f) W = loggedIn W s v xx a f t := by
  simp only [loginEvents,run,List.foldl_cons,List.foldl_nil,World.step,h.hails,h.answers,
    modify_last,Client.read,Serving.take,h.finishes,h.accepts,loggedIn,Option.isSome_none,
    Bool.or_self,Bool.false_eq_true,if_false]

/-- A login succeeds in every world: the session has finished, the server has its registration, and
the two have joined. -/
theorem login_completes (hC : N.Correct)
    (hseal : ∀ k n p ad, 0 < (N.aeadSeal k n p ad).length) {E : Setting N} {s : Session N α}
    {v : Service N} {static eph eph' : N.Priv} (h : Ready E s v static eph eph')
    (hfit : framesFit E s v = true) (W : World N α) :
    ∃ hello xx a f t,
      run (World.step E) (loginEvents W s v hello a f) W = loggedIn W s v xx a f t ∧
      Joined E s f v a t ∧ t.reg = registered E.sha s := by
  obtain ⟨hello,xx,a,f,t,hcompletes⟩ := h.completes hC hseal hfit
  exact ⟨hello,xx,a,f,t,run_login hcompletes W,hcompletes.joined,hcompletes.registers⟩

/-! A session and a server of the written-out suite. -/

def sampleSeeds : Seeds TranscriptSuite.suite.toSuite where
  seed k := SymbolicSuite.publicOf k
  ofSeed b := b.head?
  signOfSeed b := b.headD 0

def sampleSession : Session TranscriptSuite.suite Unit where
  id := text "one"
  device := browser
  creds := generateCredentials (SymbolicSuite.publicOf 1) [] [] 0 0 0 7
  header := text "binding"
  fresh := .ok (5 : UInt8)
  auth := some fun static _ => if static = SymbolicSuite.publicOf 3 then .ok () else .error ()
  saved := true

def sampleService : Service TranscriptSuite.suite where
  static := (3 : UInt8)
  certChain := text "chain"
  header := text "binding"
  fresh := .ok (6 : UInt8)

def sampleSetting : Setting TranscriptSuite.suite where
  seeds := sampleSeeds
  sha := zeroSha

theorem sample_ready : Ready sampleSetting sampleSession sampleService (1 : UInt8) (5 : UInt8)
    (6 : UInt8) where
  seed := rfl
  fresh := rfl
  fresh' := rfl
  header := rfl
  passes := rfl
  saved := rfl

set_option maxRecDepth 100000 in
theorem sample_fits : framesFit sampleSetting sampleSession sampleService = true := by
  decide +kernel

theorem login_completes_sample : ∃ hello xx a f t,
    run (World.step sampleSetting) (loginEvents {} sampleSession sampleService hello a f) {} =
      loggedIn {} sampleSession sampleService xx a f t ∧
    t.reg.name = text "browser" := by
  obtain ⟨hello,xx,a,f,t,hrun,_,hreg⟩ := login_completes TranscriptSuite.suite_correct
    TranscriptSuite.sealed_length sample_ready sample_fits {}
  exact ⟨hello,xx,a,f,t,hrun,by rw [hreg]; rfl⟩

end BaturWhatsApi.LoginCompletion
