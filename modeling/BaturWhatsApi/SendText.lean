import Mathlib.Data.List.AList
import BaturWhatsApi.ChainCells
import BaturWhatsApi.RatchetStorage
import BaturWhatsApi.Runs
import BaturWhatsApi.SessionAgreement

/-!
# Concurrent sends to one target

`SendText` of `api/e2e.go` for one session and one target: the stored session is
read, a message is encrypted, the envelope is handed to the connection, and only
then is the advanced session stored. Nothing excludes a second call in between.

A world is the stored session, the calls under way and the envelopes handed over.
Calls interleave at their three accesses to shared state, each of which may fail,
and the process may stop at any point. Writes to the store are numbered, and a call
remembers the write it has read, so that two calls that have read the same stored
session can be recognised.

The stored session is a chain key in a shared cell. Two views of it are used: the
chain key itself, and the public key and the counter that an envelope shows.
-/
namespace BaturWhatsApi.SendText
open ByteStrings CipherSuite RatchetModel SessionSetup SessionAgreement RatchetStorage KeyChains
open DerivedKeys Runs

variable {S : Suite}

/-! ### One call -/

def protocolInfoV1 : Bytes := text "baturwhatsapi-e2e-v1"

structure Credentials where
  identitySeed : Bytes
  identitySigSeed : Bytes
  registrationID : UInt32
deriving DecidableEq, Repr

inductive SendError where
  | unknownSession
  | emptyTarget
  | notProvisioned
  | storage (cause : String)
  | noBundleSource
  | resolveBundle (cause : String)
  | e2e (e : Failure)
deriving DecidableEq, Repr

/-- What a call is given and what it finds outside the store. -/
structure Request (S : Suite) where
  session : Option Credentials
  target : Bytes
  text : Bytes
  /-- A failure of the store other than an absent entry. -/
  getError : Option String := none
  bundles : Option (Except String PreKeyBundle)
  keyOrder : OneTimeKeys
  idOrder : OneTimeKeys
  ephemeral : Except Failure S.Priv
  fresh : Except Failure S.Priv := .error .keyGeneration

def loadRatchet (F : Seeds S) (creds : Credentials) (raw : Option (PersistedRatchet S))
    (q : Request S) : Except SendError (Ratchet S) :=
  match q.getError,raw with
  | some cause,_ => .error (.storage cause)
  | none,some p => (restoreRatchet F p).mapError .e2e
  | none,none =>
      match q.bundles with
      | none => .error .noBundleSource
      | some (.error cause) => .error (.resolveBundle cause)
      | some (.ok bundle) =>
          match restoreIdentity F creds.identitySeed creds.identitySigSeed creds.registrationID with
          | .error e => .error (.e2e e)
          | .ok ident =>
              (aliceSession q.ephemeral bundle q.keyOrder q.idOrder ident protocolInfoV1).mapError
                .e2e

/-- A call between its load and its end. The source is the number of the write it
has read, and the key is the message key that sealed the envelope. -/
structure Sending (S : Suite) where
  source : Option ℕ
  ratchet : Ratchet S
  env : Envelope
  text : Bytes
  key : S.Secret
  handed : Bool := false

/-- The session whose chain `Encrypt` draws from. -/
def sealing (fresh : Except Failure S.Priv) (r : Ratchet S) : Ratchet S :=
  (ensureSendingChain fresh r).toOption.getD r

/-- `SendText` up to the send. -/
def prepare (F : Seeds S) (stored : Option (ℕ × PersistedRatchet S)) (q : Request S) :
    Except SendError (Sending S) :=
  match q.session with
  | none => .error .unknownSession
  | some creds =>
      if q.target = [] then .error .emptyTarget
      else if creds.identitySeed = [] ∨ creds.identitySigSeed = [] then .error .notProvisioned
      else
        match loadRatchet F creds (stored.map Prod.snd) q with
        | .error e => .error e
        | .ok r =>
            match encrypt q.fresh q.text r with
            | (.error e,_) => .error (.e2e e)
            | (.ok env,r') =>
                .ok {source := stored.map Prod.fst,ratchet := r',env := env,text := q.text
                     key := sendKey (sealing q.fresh r)}

/-! ### Interleaved calls -/

structure World (S : Suite) where
  store : Option (ℕ × PersistedRatchet S)
  writes : ℕ
  calls : AList fun _ : ℕ => Sending S
  /-- The envelopes handed to the connection, whether or not it accepted them. -/
  log : List (Sending S)
  /-- The ephemeral public keys of the sessions begun, each with its agreement with
  the peer's signed key. -/
  begun : List (Bytes × S.Secret)

def World.empty : World S := ⟨none,0,∅,[],[]⟩

inductive Event (S : Suite) where
  | start (i : ℕ) (q : Request S)
  | send (i : ℕ) (accepted : Bool)
  | persist (i : ℕ) (written : Bool)
  | stop

def Request.agreement (q : Request S) : Option (Bytes × S.Secret) :=
  match q.ephemeral,q.bundles with
  | .ok eph,some (.ok bundle) =>
      (dh eph bundle.signedPreKeyPub).toOption.map fun d => (S.publicKey eph,d)
  | _,_ => none

def World.started (F : Seeds S) (i : ℕ) (q : Request S) (σ : World S) :
    AList fun _ : ℕ => Sending S :=
  match σ.calls.lookup i,prepare F σ.store q with
  | none,.ok f => σ.calls.insert i f
  | _,_ => σ.calls

def World.step (F : Seeds S) (σ : World S) : Event S → World S
  | .start i q => {σ with calls := σ.started F i q,begun := q.agreement.toList++σ.begun}
  | .send i accepted =>
      match σ.calls.lookup i with
      | none => σ
      | some f =>
          if f.handed then σ
          else
            {σ with
             calls := if accepted then σ.calls.insert i {f with handed := true}
               else σ.calls.erase i
             log := σ.log++[f]}
  | .persist i written =>
      match σ.calls.lookup i with
      | none => σ
      | some f =>
          if f.handed then
            if written then
              {σ with
               store := some (σ.writes,marshalState F f.ratchet)
               writes := σ.writes+1
               calls := σ.calls.erase i}
            else {σ with calls := σ.calls.erase i}
          else σ
  | .stop => {σ with calls := ∅}

/-- The key pair of a new session is fresh: neither its public key nor its agreement
with the peer has occurred. -/
def World.Fresh (σ : World S) : Event S → Prop
  | .start _ q => σ.store = none → ∀ x ∈ q.agreement, ∀ y ∈ σ.begun, y.1 ≠ x.1 ∧ y.2 ≠ x.2
  | _ => True

/-- A call reads a stored session only if no other call has read it that is under way
or has handed over its envelope. -/
def World.Exclusive (σ : World S) : Event S → Prop
  | .start _ _ => ∀ x ∈ σ.store, (∀ f ∈ σ.log, f.source ≠ some x.1) ∧
      ∀ e ∈ σ.calls.entries, e.2.source ≠ some x.1
  | _ => True

/-- The counter of the stored session does not wrap. -/
def World.Room (σ : World S) : Event S → Prop
  | .start _ _ => ∀ x ∈ σ.store, x.2.sendingCounter.toNat+1 < 2^32
  | _ => True

/-! ### Views of the stored session -/

/-- What is kept of a session, as a position in a chain, and what an envelope shows
of it. Sessions are begun with an ephemeral key and an agreement. -/
structure View (S : Suite) {κ : Type} (C : Chains κ) where
  position : Ratchet S → κ
  shown : Envelope → S.Secret → κ
  Room : Ratchet S → Prop
  Begins : Bytes × S.Secret → κ → Prop
  position_restored : ∀ r, position (restored r) = position r
  shown_seal : ∀ r p, r.sendingChain.isSome →
    shown (sealMessage p r) (sendKey r) = C.key (position r)
  position_sent : ∀ r, r.sendingChain.isSome → Room r →
    position (messageSent r) = C.next (position r)
  begins_origin : ∀ x o, Begins x o → C.Origin o
  begins_unique : ∀ x y o, Begins x o → Begins y o → x.1 = y.1 ∨ x.2 = y.2
  begins_session : ∀ eph bundle idOrder identity d1 d2 d3 d4,
    let rc := x3dhDerive (x3dhInput d1 d2 d3 d4) protocolInfoV1
    Begins (S.publicKey eph,d2)
      (position (aliceRatchet eph bundle idOrder identity rc.1 rc.2 protocolInfoV1))

theorem sendKey_of_some {r : Ratchet S} {c : S.Secret} (h : r.sendingChain = some c) :
    sendKey r = messageKey c := by
  rw [sendKey,h]
  rfl

/-- The chain key, and the message key it gives. -/
def keyView (hF : S.Free) : View S (chains hF) where
  position r := r.sendingChain.getD r.rootKey
  shown _ k := k
  Room _ := True
  Begins x o := ∃ d1 d3 d4, o = (x3dhDerive (x3dhInput d1 x.2 d3 d4) protocolInfoV1).2
  position_restored _ := rfl
  shown_seal r p h := by
    obtain ⟨c,hc⟩ := Option.isSome_iff_exists.mp h
    rw [sendKey_of_some hc,hc]
    rfl
  position_sent r h _ := by
    obtain ⟨c,hc⟩ := Option.isSome_iff_exists.mp h
    simp only [messageSent,hc]
    rfl
  begins_origin := by
    rintro x _ ⟨d1,d3,d4,rfl⟩
    exact x3dhDerive_origin hF _ _
  begins_unique := by
    rintro x y _ ⟨d1,d3,d4,h⟩ ⟨e1,e3,e4,h'⟩
    have hinput := x3dhDerive_chain_injective hF (h.symm.trans h')
    exact .inr (x3dhInput_injective hinput).2.1
  begins_session _ _ _ _ d1 _ d3 d4 := ⟨d1,d3,d4,rfl⟩

theorem iterate_counter (n : ℕ) (x : Bytes × ℕ) :
    (fun x : Bytes × ℕ => (x.1,x.2+1))^[n] x = (x.1,x.2+n) := by
  induction n with
  | zero => rfl
  | succ n ih =>
      rw [Function.iterate_succ_apply',ih]
      rfl

/-- Counters under a public key. -/
def counters : Chains (Bytes × ℕ) where
  next x := (x.1,x.2+1)
  key x := x
  next_injective := by
    rintro ⟨p,n⟩ ⟨q,m⟩ h
    simpa using h
  key_injective := fun _ _ h => h
  acyclic := by
    intro x n h
    rw [iterate_counter] at h
    have hcount := congrArg Prod.snd h
    simp only at hcount
    omega

/-- The public key and the counter that an envelope shows. -/
def headerView : View S counters where
  position r := ((r.sendingDH.map S.publicKey).getD [],r.sendingCounter.toNat)
  shown env _ := (env.ratchetPub,env.counter.toNat)
  Room r := r.sendingCounter.toNat+1 < 2^32
  Begins x o := o = (x.1,0)
  position_restored _ := rfl
  shown_seal r p _ := by
    simp only [sealMessage,envelopeHead]
    split_ifs <;> rfl
  position_sent r _ hroom := by
    have hcount : (r.sendingCounter+1).toNat = r.sendingCounter.toNat+1 := by
      rw [UInt32.toNat_add]
      exact Nat.mod_eq_of_lt hroom
    exact Prod.ext rfl hcount
  begins_origin := by
    rintro x _ rfl c hc
    exact absurd (congrArg Prod.snd hc) (Nat.succ_ne_zero _)
  begins_unique := by
    rintro x y _ h h'
    exact .inl (Prod.mk.inj (h.symm.trans h')).1
  begins_session _ _ _ _ _ _ _ _ := rfl

/-! ### The store as a shared cell -/

section Tracking

variable {κ : Type} {C : Chains κ} {F : Seeds S} (V : View S C)

/-- A stored session at a position. -/
def Holds (F : Seeds S) (x : ℕ × PersistedRatchet S) (y : ℕ × κ) : Prop :=
  x.1 = y.1 ∧ ∃ r, r.sendingChain.isSome ∧ x.2 = marshalState F r ∧ V.position r = y.2

/-- A call and the draw it makes. -/
structure Carries (f : Sending S) (d : Draw κ) : Prop where
  source : d.source = f.source
  handed : d.handed = f.handed
  sending : f.ratchet.sendingChain.isSome
  shown : V.shown f.env f.key = C.key d.chain
  position : V.position f.ratchet = C.next d.chain

/-- The world as the cell sees it. -/
structure Tracks (F : Seeds S) (σ : World S) (s : Cell κ) : Prop where
  writes : s.writes = σ.writes
  value : Option.Rel (Holds V F) σ.store s.value
  draws : ∀ i, Option.Rel (Carries V) (σ.calls.lookup i) (s.draws i)
  out : s.out = σ.log.map fun f => (f.source,V.shown f.env f.key)

/-- The origins of the sessions begun. -/
def View.Old (begun : List (Bytes × S.Secret)) (o : κ) : Prop := ∃ x ∈ begun, V.Begins x o

/-- A world whose cell keeps its pieces apart. -/
def View.Sound (F : Seeds S) (σ : World S) : Prop :=
  ∃ s, Tracks V F σ s ∧ s.Separated C (V.Old σ.begun)

variable {V}

theorem rel_some {α β : Type} {R : α → β → Prop} {a : α} {y : Option β}
    (h : Option.Rel R (some a) y) : ∃ b, y = some b ∧ R a b := by
  cases h with
  | some h => exact ⟨_,rfl,h⟩

theorem rel_some_right {α β : Type} {R : α → β → Prop} {x : Option α} {b : β}
    (h : Option.Rel R x (some b)) : ∃ a, x = some a ∧ R a b := by
  cases h with
  | some h => exact ⟨_,rfl,h⟩

theorem rel_insert {α β : Type} {R : α → β → Prop} {m : AList fun _ : ℕ => α} {g : ℕ → Option β}
    (h : ∀ j, Option.Rel R (m.lookup j) (g j)) (i : ℕ) {a : α} {b : β} (hab : R a b) (j : ℕ) :
    Option.Rel R ((m.insert i a).lookup j) (Function.update g i (some b) j) := by
  by_cases hj : j = i
  · subst hj
    rw [AList.lookup_insert,Function.update_self]
    exact .some hab
  · rw [AList.lookup_insert_ne hj,Function.update_of_ne hj]
    exact h j

theorem rel_erase {α β : Type} {R : α → β → Prop} {m : AList fun _ : ℕ => α} {g : ℕ → Option β}
    (h : ∀ j, Option.Rel R (m.lookup j) (g j)) (i j : ℕ) :
    Option.Rel R ((m.erase i).lookup j) (Function.update g i none j) := by
  by_cases hj : j = i
  · subst hj
    rw [AList.lookup_erase,Function.update_self]
    exact .none
  · rw [AList.lookup_erase_ne hj,Function.update_of_ne hj]
    exact h j

/-- The draw of a session with a sending chain. -/
def drawn (source : Option ℕ) (text : Bytes) (r : Ratchet S) : Sending S :=
  {source := source,ratchet := messageSent r,env := sealMessage text r,text := text
   key := sendKey r}

theorem carries_drawn {r : Ratchet S} (hr : r.sendingChain.isSome) (hroom : V.Room r)
    (source : Option ℕ) (text : Bytes) :
    Carries V (drawn source text r) ⟨source,V.position r,false⟩ :=
  {source := rfl
   handed := rfl
   sending := rfl
   shown := V.shown_seal r text hr
   position := V.position_sent r hr hroom}

/-- What a call has done when it is ready to send. -/
theorem prepare_ok {stored : Option (ℕ × PersistedRatchet S)} {q : Request S} {f : Sending S}
    (h : prepare F stored q = .ok f) :
    ∃ creds r, loadRatchet F creds (stored.map Prod.snd) q = .ok r ∧
      (r.sendingChain.isSome → f = drawn (stored.map Prod.fst) q.text r) := by
  unfold prepare at h
  split at h
  · cases h
  · rename_i creds _
    split_ifs at h
    split at h
    · cases h
    · rename_i r hload
      refine ⟨creds,r,hload,fun hr => ?_⟩
      have hens : ensureSendingChain q.fresh r = .ok r := if_pos hr
      rw [encrypt_of_sending hr] at h
      simp only [Except.ok.injEq] at h
      rw [← h,sealing,hens]
      rfl

theorem loadRatchet_stored (hseeds : F.Lawful) {creds : Credentials} {q : Request S}
    {r₀ r : Ratchet S} (h : loadRatchet F creds (some (marshalState F r₀)) q = .ok r) :
    r = restored r₀ := by
  unfold loadRatchet at h
  split at h
  · cases h
  · rename_i heq
    cases heq
    have hr := Fallible.mapError_eq_ok.mp h
    rw [restoreRatchet_marshalState hseeds] at hr
    exact (Except.ok.inj hr).symm
  · rename_i heq
    cases heq

/-- A first call to a target begins a session. -/
theorem loadRatchet_new {creds : Credentials} {q : Request S} {r : Ratchet S}
    (h : loadRatchet F creds none q = .ok r) :
    ∃ eph bundle ident d1 d2 d3 d4, q.agreement = some (S.publicKey eph,d2) ∧
      r = aliceRatchet eph bundle q.idOrder ident
        (x3dhDerive (x3dhInput d1 d2 d3 d4) protocolInfoV1).1
        (x3dhDerive (x3dhInput d1 d2 d3 d4) protocolInfoV1).2 protocolInfoV1 := by
  unfold loadRatchet at h
  split at h
  · cases h
  · rename_i heq
    cases heq
  · split at h
    · cases h
    · cases h
    · rename_i bundle hbundle
      split at h
      · cases h
      · rename_i ident _
        obtain ⟨eph,root,chain,heph,hx,rfl⟩ := aliceSession_ok (Fallible.mapError_eq_ok.mp h)
        obtain ⟨d1,d2,d3,d4,_,h2,_,_,hrc⟩ := x3dhInitiator_ok hx
        refine ⟨eph,bundle,ident,d1,d2,d3,d4,?_,?_⟩
        · rw [Request.agreement,heph,hbundle]
          simp only [h2]
          rfl
        · rw [← hrc]

theorem View.old_mono {begun : List (Bytes × S.Secret)} {o : κ} (more : List (Bytes × S.Secret))
    (h : V.Old begun o) : V.Old (more++begun) o := by
  obtain ⟨x,hx,ho⟩ := h
  exact ⟨x,List.mem_append_right _ hx,ho⟩

theorem View.old_origin {begun : List (Bytes × S.Secret)} {o : κ} (h : V.Old begun o) :
    C.Origin o := by
  obtain ⟨x,_,ho⟩ := h
  exact V.begins_origin x o ho

/-- Calls that do not get to their send leave the cell alone. -/
theorem View.Sound.begun {σ : World S} (h : V.Sound F σ) (more : List (Bytes × S.Secret)) :
    V.Sound F {σ with begun := more++σ.begun} := by
  obtain ⟨s,ht,hs⟩ := h
  exact ⟨s,⟨ht.writes,ht.value,ht.draws,ht.out⟩,
    hs.weaken (fun _ => V.old_mono more) fun _ => V.old_origin⟩

theorem Tracks.load {σ : World S} {s : Cell κ} (ht : Tracks V F σ s) (i : ℕ) {r : Ratchet S}
    (hr : r.sendingChain.isSome) (hroom : V.Room r) (source : Option ℕ) (text : Bytes)
    (begun : List (Bytes × S.Secret)) :
    Tracks V F {σ with calls := σ.calls.insert i (drawn source text r),begun := begun}
      (s.load i source (V.position r)) :=
  {writes := ht.writes
   value := ht.value
   draws := rel_insert ht.draws i (carries_drawn hr hroom source text)
   out := ht.out}

/-- The condition on a call, in the words of the cell. -/
theorem Tracks.exclusive {σ : World S} {s : Cell κ} (ht : Tracks V F σ s) {i : ℕ} {q : Request S}
    (hex : σ.Exclusive (.start i q)) {x : ℕ × PersistedRatchet S} (hx : σ.store = some x) :
    (∀ y ∈ s.out, y.1 ≠ some x.1) ∧ ∀ j d, s.draws j = some d → d.source ≠ some x.1 := by
  obtain ⟨hlog,hcalls⟩ := hex x hx
  constructor
  · intro y hy
    rw [ht.out] at hy
    obtain ⟨f,hf,rfl⟩ := List.mem_map.mp hy
    exact hlog f hf
  · intro j d hd
    have hrel := ht.draws j
    rw [hd] at hrel
    obtain ⟨f,hf,hfd⟩ := rel_some_right hrel
    rw [hfd.source]
    exact hcalls ⟨j,f⟩ (AList.mem_lookup_iff.mp hf)

/-- A call reads the store. -/
theorem View.Sound.start (hseeds : F.Lawful) {σ : World S} (h : V.Sound F σ) (i : ℕ) (q : Request S)
    (hfresh : σ.Fresh (.start i q)) (hex : σ.Exclusive (.start i q))
    (hroom : ∀ creds r, loadRatchet F creds (σ.store.map Prod.snd) q = .ok r → V.Room r) :
    V.Sound F (σ.step F (.start i q)) := by
  have hskip := h.begun q.agreement.toList
  have hstep : σ.step F (.start i q) =
      {σ with calls := σ.started F i q,begun := q.agreement.toList++σ.begun} := rfl
  rw [hstep,World.started]
  split
  · rename_i f _ hprep
    obtain ⟨creds,r,hload,hf⟩ := prepare_ok hprep
    have hr := hroom creds r hload
    obtain ⟨s,ht,hs⟩ := h
    rcases Option.eq_none_or_eq_some σ.store with hstore | ⟨x,hstore⟩
    · rw [hstore] at hload
      obtain ⟨eph,bundle,ident,d1,d2,d3,d4,hagree,hnew⟩ := loadRatchet_new hload
      have hsome : r.sendingChain.isSome := by
        rw [hnew]
        rfl
      have hbegins : V.Begins (S.publicKey eph,d2) (V.position r) := by
        rw [hnew]
        exact V.begins_session eph bundle q.idOrder ident d1 d2 d3 d4
      have hsource : σ.store.map Prod.fst = none := by rw [hstore]; rfl
      rw [hf hsome,hsource]
      refine ⟨_,ht.load i hsome hr _ _ _,hs.start i (fun _ => V.old_mono _)
        (fun _ => V.old_origin) ⟨_,?_,hbegins⟩ ?_⟩
      · rw [hagree]
        exact List.mem_append_left _ (List.mem_singleton_self _)
      · rintro ⟨y,hy,hyo⟩
        obtain ⟨hpub,hsecret⟩ := hfresh hstore _ hagree y hy
        rcases V.begins_unique _ _ _ hyo hbegins with heq | heq
        · exact hpub heq
        · exact hsecret heq
    · have hvalue := ht.value
      rw [hstore] at hvalue hload
      obtain ⟨⟨v,c⟩,hv,hxv,r₀,hsome,hmarshal,hpos⟩ := rel_some hvalue
      change loadRatchet F creds (some x.2) q = .ok r at hload
      rw [hmarshal] at hload
      obtain rfl := loadRatchet_stored hseeds hload
      obtain ⟨hout,hdraws⟩ := ht.exclusive hex hstore
      rw [hxv] at hout hdraws
      have hpos' : V.position (restored r₀) = c := (V.position_restored r₀).trans hpos
      have hread := hs.read i hv hout hdraws
      rw [← hpos'] at hread
      have hsource : σ.store.map Prod.fst = some v := by rw [hstore]; exact congrArg some hxv
      rw [hf hsome,hsource]
      exact ⟨_,ht.load (r := restored r₀) i hsome hr (some v) q.text _,
        hread.weaken (fun _ => V.old_mono _) fun _ => V.old_origin⟩
  · exact hskip

/-- A call hands its envelope over. -/
theorem View.Sound.send {σ : World S} (h : V.Sound F σ) (i : ℕ) (accepted : Bool) :
    V.Sound F (σ.step F (.send i accepted)) := by
  simp only [World.step]
  cases hf : σ.calls.lookup i with
  | none => exact h
  | some f =>
      by_cases hh : f.handed
      · simp only [hh,if_true]
        exact h
      · obtain ⟨s,ht,hs⟩ := h
        have hrel := ht.draws i
        rw [hf] at hrel
        obtain ⟨d,hd,hfd⟩ := rel_some hrel
        have hhand := hs.hand hd (hfd.handed.trans (Bool.eq_false_iff.mpr hh))
        have hout : (s.hand C i d).out =
            (σ.log++[f]).map fun f => (f.source,V.shown f.env f.key) := by
          rw [List.map_append,← ht.out,List.map_singleton,hfd.shown,← hfd.source]
          rfl
        simp only [hh,Bool.false_eq_true,if_false]
        cases accepted with
        | true =>
            have hcarries : Carries V {f with handed := true} {d with handed := true} :=
              ⟨hfd.source,rfl,hfd.sending,hfd.shown,hfd.position⟩
            exact ⟨s.hand C i d,⟨ht.writes,ht.value,rel_insert ht.draws i hcarries,hout⟩,hhand⟩
        | false =>
            refine ⟨(s.hand C i d).drop i,⟨ht.writes,ht.value,?_,hout⟩,hhand.drop i⟩
            intro j
            have hdrop : Function.update (s.hand C i d).draws i none =
                Function.update s.draws i none := Function.update_idem _ _ _
            change Option.Rel _ _ (Function.update (s.hand C i d).draws i none j)
            rw [hdrop]
            exact rel_erase ht.draws i j

/-- A call stores the session it has advanced, or fails to. -/
theorem View.Sound.persist {σ : World S} (h : V.Sound F σ) (i : ℕ) (written : Bool) :
    V.Sound F (σ.step F (.persist i written)) := by
  simp only [World.step]
  cases hf : σ.calls.lookup i with
  | none => exact h
  | some f =>
      by_cases hh : f.handed
      · obtain ⟨s,ht,hs⟩ := h
        have hrel := ht.draws i
        rw [hf] at hrel
        obtain ⟨d,hd,hfd⟩ := rel_some hrel
        simp only [hh,if_true]
        cases written with
        | true =>
            refine ⟨(s.drop i).write C d,⟨congrArg (·+1) ht.writes,?_,rel_erase ht.draws i,ht.out⟩,
              hs.write hd (hfd.handed.trans hh)⟩
            exact .some ⟨ht.writes.symm,f.ratchet,hfd.sending,rfl,hfd.position⟩
        | false =>
            exact ⟨s.drop i,⟨ht.writes,ht.value,rel_erase ht.draws i,ht.out⟩,hs.drop i⟩
      · simp only [hh,Bool.false_eq_true,if_false]
        exact h

theorem View.Sound.stop {σ : World S} (h : V.Sound F σ) : V.Sound F (σ.step F .stop) := by
  obtain ⟨s,ht,hs⟩ := h
  exact ⟨s.stop,⟨ht.writes,ht.value,fun _ => .none,ht.out⟩,hs.stop⟩

theorem View.sound_empty : V.Sound F World.empty :=
  ⟨Cell.empty,⟨rfl,.none,fun _ => .none,rfl⟩,.empty fun _ => V.old_origin⟩

/-- A condition under which every loaded session has room. -/
def View.Enough (F : Seeds S) (V : View S C) (P : World S → Event S → Prop) : Prop :=
  ∀ σ i q, V.Sound F σ → P σ (.start i q) →
    ∀ creds r, loadRatchet F creds (σ.store.map Prod.snd) q = .ok r → V.Room r

theorem View.Sound.step (hseeds : F.Lawful) {P : World S → Event S → Prop} (hP : V.Enough F P)
    {σ : World S} (h : V.Sound F σ) {ev : Event S} (hfresh : σ.Fresh ev) (hex : σ.Exclusive ev)
    (hroom : P σ ev) : V.Sound F (σ.step F ev) := by
  cases ev with
  | start i q => exact h.start hseeds i q hfresh hex (hP σ i q h hroom)
  | send i accepted => exact h.send i accepted
  | persist i written => exact h.persist i written
  | stop => exact h.stop

theorem View.Sound.run (hseeds : F.Lawful) {P : World S → Event S → Prop} (hP : V.Enough F P)
    {evs : List (Event S)} {σ : World S} (h : V.Sound F σ)
    (hfresh : Along (World.step F) World.Fresh evs σ)
    (hex : Along (World.step F) World.Exclusive evs σ) (hroom : Along (World.step F) P evs σ) :
    V.Sound F (run (World.step F) evs σ) :=
  ((hfresh.and hex).and hroom).invariant
    (fun _ _ hs hev => hs.step hseeds hP hev.1.1 hev.1.2 hev.2) h

theorem View.Sound.nodup {σ : World S} (h : V.Sound F σ) :
    (σ.log.map fun f => V.shown f.env f.key).Nodup := by
  obtain ⟨s,ht,hs⟩ := h
  have hnodup := hs.nodup
  rwa [ht.out,List.map_map] at hnodup

end Tracking

/-! ### Message keys -/

/-- A call has room for its counter when the stored session has. -/
theorem headerView_enough {F : Seeds S} (hseeds : F.Lawful) :
    (headerView : View S counters).Enough F World.Room := by
  rintro σ i q ⟨s,ht,_⟩ hroom creds r hload
  rcases Option.eq_none_or_eq_some σ.store with hstore | ⟨x,hstore⟩
  · rw [hstore] at hload
    obtain ⟨eph,bundle,ident,d1,d2,d3,d4,_,rfl⟩ := loadRatchet_new hload
    exact (by decide : (0 : UInt32).toNat+1 < 2^32)
  · have hvalue := ht.value
    rw [hstore] at hvalue hload
    obtain ⟨y,_,_,r₀,_,hmarshal,_⟩ := rel_some hvalue
    have hx := hroom x hstore
    change loadRatchet F creds (some x.2) q = .ok r at hload
    rw [hmarshal] at hload hx
    rw [loadRatchet_stored hseeds hload]
    exact hx

/-- In a run whose calls read each stored session exclusively, all envelopes handed
over are sealed with different message keys, and without a wrapped counter they show
different positions. -/
theorem message_keys_distinct {F : Seeds S} (hF : S.Free) (hseeds : F.Lawful)
    (evs : List (Event S)) (hfresh : Along (World.step F) World.Fresh evs .empty)
    (hex : Along (World.step F) World.Exclusive evs .empty) :
    ((run (World.step F) evs .empty).log.map Sending.key).Nodup ∧
      (Along (World.step F) World.Room evs .empty →
        ((run (World.step F) evs .empty).log.map fun f =>
          (f.env.ratchetPub,f.env.counter)).Nodup) := by
  constructor
  · have hsound : (keyView hF).Sound F World.empty := View.sound_empty
    have henough : (keyView hF).Enough F World.Exclusive := fun _ _ _ _ _ _ _ _ => trivial
    exact (hsound.run hseeds henough hfresh hex hex).nodup
  · intro hroom
    have hsound : (headerView : View S counters).Sound F World.empty := View.sound_empty
    have hnodup := (hsound.run hseeds (headerView_enough hseeds) hfresh hex hroom).nodup
    refine List.Nodup.of_map (fun x : Bytes × UInt32 => (x.1,x.2.toNat)) ?_
    rw [List.map_map]
    exact hnodup

/-! Calls to one responder over the symbolic suite. -/

def sampleSeeds : Seeds SymbolicSuite.suite where
  seed k := SymbolicSuite.publicOf k
  ofSeed b := b.head?
  signOfSeed b := b.headD (0 : UInt8)

theorem sampleSeeds_lawful : sampleSeeds.Lawful := ⟨fun _ => rfl,fun _ => rfl⟩

def sampleRequest (eph : UInt8) (message : String) : Request SymbolicSuite.suite :=
  {session := some ⟨SymbolicSuite.publicOf 1,SymbolicSuite.publicOf 2,7⟩
   target := text "628123@s.whatsapp.net"
   text := text message
   bundles := some (.ok (buildBundle sampleBob (6 : UInt8) 11 (published oneKey)))
   keyOrder := published oneKey
   idOrder := published oneKey
   ephemeral := .ok eph}

instance : DecidableEq SymbolicSuite.suite.Secret :=
  inferInstanceAs (DecidableEq SymbolicSuite.Term)

instance [DecidableEq S.Secret] (σ : World S) (ev : Event S) : Decidable (σ.Fresh ev) :=
  match ev with
  | .start _ q =>
      match h : σ.store with
      | none => decidable_of_iff (∀ x ∈ q.agreement, ∀ y ∈ σ.begun, y.1 ≠ x.1 ∧ y.2 ≠ x.2)
          ⟨fun hq _ => hq,fun hq => hq h⟩
      | some _ => .isTrue fun hq => nomatch h.symm.trans hq
  | .send _ _ => .isTrue trivial
  | .persist _ _ => .isTrue trivial
  | .stop => .isTrue trivial

instance (σ : World S) (ev : Event S) : Decidable (σ.Exclusive ev) :=
  match ev with
  | .start _ _ => inferInstanceAs (Decidable (∀ x ∈ σ.store, _ ∧ _))
  | .send _ _ => .isTrue trivial
  | .persist _ _ => .isTrue trivial
  | .stop => .isTrue trivial

instance (σ : World S) (ev : Event S) : Decidable (σ.Room ev) :=
  match ev with
  | .start _ _ => inferInstanceAs (Decidable (∀ x ∈ σ.store, _))
  | .send _ _ => .isTrue trivial
  | .persist _ _ => .isTrue trivial
  | .stop => .isTrue trivial

/-- Two first calls at once, of which one cannot store its session, a call that is
stopped before it sends, and the call after the restart. -/
def restartedRun : List (Event SymbolicSuite.suite) :=
  [.start 0 (sampleRequest 5 "one"),.start 1 (sampleRequest 8 "two"),.send 0 true,.send 1 true,
   .persist 1 true,.persist 0 false,.start 2 (sampleRequest 9 "three"),.stop,
   .start 3 (sampleRequest 9 "four"),.send 3 true,.persist 3 true]

theorem message_keys_distinct_restarted :
    (run (World.step sampleSeeds) restartedRun .empty).log.length = 3 ∧
    ((run (World.step sampleSeeds) restartedRun .empty).log.map Sending.key).Nodup ∧
    ((run (World.step sampleSeeds) restartedRun .empty).log.map fun f =>
      (f.env.ratchetPub,f.env.counter)).Nodup := by
  have hdistinct := message_keys_distinct SymbolicSuite.suite_free sampleSeeds_lawful restartedRun
    (by decide +kernel) (by decide +kernel)
  exact ⟨by decide +kernel,hdistinct.1,hdistinct.2 (by decide +kernel)⟩

/-- A first call that completes, and two more of which the second reads the stored
session before the first has replaced it. -/
def overtaking (between : List (Event SymbolicSuite.suite)) : List (Event SymbolicSuite.suite) :=
  [.start 0 (sampleRequest 5 "hello"),.send 0 true,.persist 0 true,
   .start 1 (sampleRequest 8 "yes")]++between++
  [.start 2 (sampleRequest 9 "no"),.send 1 true,.send 2 true]

/-- One message key seals two texts. -/
abbrev Reuses (evs : List (Event SymbolicSuite.suite)) : Prop :=
  Along (World.step sampleSeeds) World.Fresh evs .empty ∧
  ∃ f ∈ (run (World.step sampleSeeds) evs .empty).log,
    ∃ g ∈ (run (World.step sampleSeeds) evs .empty).log,
      f.text ≠ g.text ∧ f.key = g.key ∧ f.env.ratchetPub = g.env.ratchetPub ∧
        f.env.counter = g.env.counter

/-- Two calls at once; a send that fails; a store that fails; a process that stops
between the send and the store. -/
theorem message_key_reused :
    Reuses (overtaking []) ∧ Reuses (overtaking [.send 1 false]) ∧
    Reuses (overtaking [.send 1 true,.persist 1 false]) ∧
    Reuses (overtaking [.send 1 true,.stop]) := by
  decide +kernel

end BaturWhatsApi.SendText
