import BaturWhatsApi.CredentialTexts
import BaturWhatsApi.ListCells
import BaturWhatsApi.Runs

/-!
# Credentials across restarts

`loadCredentials` and `saveCredentials` of `session/session.go`, the part of `handshake` that
stores the server's key and then sends the finish, and the part of `connectIQ` that stores the
account. The sessions of one id come and go: they are started one after another or at the same
time, each of them once, they fail, and the process ends at any point. A read of the store can
fail, and a write that reports an error may have reached the store.

A session without stored credentials draws new ones. They are used only when they were stored,
so all finishes of an id show the same identity, unless one session is started while another one
is about to store the first credentials.
-/
namespace BaturWhatsApi.CredentialRestarts
open ByteStrings FinishPayload CredentialTexts ListCells Runs

/-! ### The sessions of one id -/

/-- What the server and the other devices know a session by. -/
structure Identity where
  noiseKeySeed : Bytes
  identitySeed : Bytes
  identitySigSeed : Bytes
  registrationID : UInt32
deriving DecidableEq

def identity (c : Credentials) : Identity :=
  ⟨c.noiseKeySeed,c.identitySeed,c.identitySigSeed,c.registrationID⟩

/-- `provisioning` is between the drawing of credentials and their first save, `checked` between
the check of the server's key and the save that follows it, and `named` between the answer to the
connect request and the last save. -/
inductive Phase where
  | provisioning
  | loaded
  | checked
  | saved
  | finished
  | named
  | online
  | failed
deriving DecidableEq, Repr

structure Live where
  creds : Credentials
  phase : Phase

/-- The outcome of a `Set`. A write that reports an error is `lost`, or `reached` the store. -/
inductive SetOutcome where
  | stored
  | lost
  | reached
deriving DecidableEq, Repr

/-- `used` are the credentials of the finishes that were sent. -/
structure World where
  store : Option Bytes
  lives : List Live := []
  used : List Credentials := []

inductive Event where
  | load (readable : Bool) (drawn : Option Credentials)
  | save (i : ℕ) (how : SetOutcome)
  | check (i : ℕ) (static : Bytes)
  | finish (i : ℕ)
  | account (i : ℕ) (jid : Bytes)
  | crash

def World.load (W : World) (drawn : Option Credentials) : World :=
  match W.store with
  | none =>
      match drawn with
      | none => W
      | some c => {W with lives := W.lives++[⟨c,.provisioning⟩]}
  | some raw =>
      match unmarshalCredentials raw with
      | none => W
      | some c => {W with lives := W.lives++[⟨c,.loaded⟩]}

/-- `next` comes after a save without an error, `other` after one with an error. -/
def World.saveCredentials (W : World) (i : ℕ) (l : Live) (next other : Phase) :
    SetOutcome → World
  | .stored =>
      {W with
       store := some (marshalCredentials l.creds)
       lives := W.lives.set i {l with phase := next}}
  | .lost => {W with lives := W.lives.set i {l with phase := other}}
  | .reached =>
      {W with
       store := some (marshalCredentials l.creds)
       lives := W.lives.set i {l with phase := other}}

def World.step (W : World) : Event → World
  | .load readable drawn => if readable then W.load drawn else W
  | .save i how =>
      match W.lives[i]? with
      | none => W
      | some l =>
          match l.phase with
          | .provisioning => W.saveCredentials i l .loaded .failed how
          | .checked => W.saveCredentials i l .saved .failed how
          | .named => W.saveCredentials i l .online .online how -- the error is not looked at
          | _ => W
  | .check i static =>
      match W.lives[i]? with
      | none => W
      | some l =>
          if l.phase = .loaded then
            {W with lives := W.lives.set i ⟨{l.creds with serverStatic := static},.checked⟩}
          else W
  | .finish i =>
      match W.lives[i]? with
      | none => W
      | some l =>
          if l.phase = .saved then
            {W with lives := W.lives.set i {l with phase := .finished},used := W.used++[l.creds]}
          else W
  | .account i jid =>
      match W.lives[i]? with
      | none => W
      | some l =>
          if l.phase = .finished ∧ jid ≠ [] then
            {W with lives := W.lives.set i ⟨{l.creds with accountJID := jid},.named⟩}
          else W
  | .crash => {W with lives := []}

/-- No session is started while the first credentials are about to be stored. -/
def Alone (W : World) : Event → Prop
  | .load _ _ => ∀ l ∈ W.lives, l.phase ≠ .provisioning
  | _ => True

instance (W : World) (ev : Event) : Decidable (Alone W ev) :=
  match ev with
  | .load _ _ => inferInstanceAs (Decidable (∀ l ∈ W.lives, l.phase ≠ .provisioning))
  | .save _ _ => .isTrue trivial
  | .check _ _ => .isTrue trivial
  | .finish _ => .isTrue trivial
  | .account _ _ => .isTrue trivial
  | .crash => .isTrue trivial

/-! ### What one event does -/

/-- The credentials are about to be written. -/
def Phase.writing (p : Phase) : Prop := p = .provisioning ∨ p = .checked ∨ p = .named

/-- The credentials are used or written again. -/
def Phase.active (p : Phase) : Prop :=
  p = .loaded ∨ p = .checked ∨ p = .saved ∨ p = .finished ∨ p = .named

/-- All that an event can do to the world. -/
inductive World.Moves (W : World) (ev : Event) : World → Prop where
  | none : W.Moves ev W
  | draws (readable : Bool) (c : Credentials) (hev : ev = .load readable (some c))
      (hstore : W.store = none) : W.Moves ev {W with lives := W.lives++[⟨c,.provisioning⟩]}
  | loads (raw : Bytes) (c : Credentials) (hstore : W.store = some raw)
      (hc : unmarshalCredentials raw = some c) :
      W.Moves ev {W with lives := W.lives++[⟨c,.loaded⟩]}
  | writes (i : ℕ) (l : Live) (next : Phase) (hl : W.lives[i]? = some l)
      (hphase : l.phase.writing) (hnext : next ≠ .provisioning) : W.Moves ev {W with
        store := some (marshalCredentials l.creds)
        lives := W.lives.set i {l with phase := next}}
  | goes (i : ℕ) (l l' : Live) (hl : W.lives[i]? = some l) (hphase : l'.phase ≠ .provisioning)
      (hactive : l'.phase.active → l.phase.active) (hcreds : identity l'.creds = identity l.creds) :
      W.Moves ev {W with lives := W.lives.set i l'}
  | finishes (i : ℕ) (l : Live) (hl : W.lives[i]? = some l) (hphase : l.phase = .saved) :
      W.Moves ev {W with
        lives := W.lives.set i {l with phase := .finished},used := W.used++[l.creds]}
  | crash : W.Moves ev {W with lives := []}

theorem saveCredentials_moves {W : World} {ev : Event} {i : ℕ} {l : Live} {next other : Phase}
    (hl : W.lives[i]? = some l) (hphase : l.phase.writing) (hnext : next ≠ .provisioning)
    (hother : other ≠ .provisioning ∧ ¬other.active) (how : SetOutcome) :
    W.Moves ev (W.saveCredentials i l next other how) := by
  cases how with
  | stored => exact .writes i l next hl hphase hnext
  | lost => exact .goes i l _ hl hother.1 (fun h => (hother.2 h).elim) rfl
  | reached => exact .writes i l other hl hphase hother.1

theorem step_moves (W : World) (ev : Event) : W.Moves ev (W.step ev) := by
  cases ev with
  | load readable drawn =>
      rw [World.step]
      split_ifs
      · unfold World.load
        split
        · rename_i hstore
          split
          · exact .none
          · exact .draws readable _ rfl hstore
        · rename_i raw hstore
          split
          · exact .none
          · rename_i c hc
            exact .loads raw c hstore hc
      · exact .none
  | save i how =>
      dsimp only [World.step]
      split
      · exact .none
      · rename_i l hl
        split
        · rename_i hphase
          exact saveCredentials_moves hl (.inl hphase) (by decide) (by simp [Phase.active]) how
        · rename_i hphase
          exact saveCredentials_moves hl (.inr (.inl hphase)) (by decide)
            (by simp [Phase.active]) how
        · rename_i hphase
          exact saveCredentials_moves hl (.inr (.inr hphase)) (by decide)
            (by simp [Phase.active]) how
        · exact .none
  | check i static =>
      dsimp only [World.step]
      split
      · exact .none
      · rename_i l hl
        split_ifs with hphase
        · exact .goes i l _ hl (by simp) (fun _ => .inl hphase) rfl
        · exact .none
  | finish i =>
      dsimp only [World.step]
      split
      · exact .none
      · rename_i l hl
        split_ifs with hphase
        · exact .finishes i l hl hphase
        · exact .none
  | account i jid =>
      dsimp only [World.step]
      split
      · exact .none
      · rename_i l hl
        split_ifs with hphase
        · exact .goes i l _ hl (by simp) (fun _ => .inr (.inr (.inr (.inl hphase.1)))) rfl
        · exact .none
  | crash => exact .crash

/-! ### One identity -/

/-- The store holds the identity of the credentials. -/
def Agrees (W : World) (c : Credentials) : Prop :=
  ∃ s, W.store.bind unmarshalCredentials = some s ∧ identity s = identity c

/-- Credentials that are written have their identity in the store. -/
theorem agrees_written {W : World} {c d : Credentials} (h : W.store = some (marshalCredentials c))
    (hd : identity c = identity d) : Agrees W d := by
  refine ⟨coercedCredentials c,?_,hd⟩
  rw [h,Option.bind_some,unmarshal_marshalCredentials]

theorem Agrees.identity_eq {W : World} {c d : Credentials} (hc : Agrees W c) (hd : Agrees W d) :
    identity c = identity d := by
  obtain ⟨s,hs,hsc⟩ := hc
  obtain ⟨t,ht,htd⟩ := hd
  cases hs.symm.trans ht
  exact hsc.symm.trans htd

/-- Sessions that go on have the stored identity, and only one can be about to store the first
credentials. -/
structure Settled (W : World) : Prop where
  kept {i : ℕ} {l : Live} : W.lives[i]? = some l → l.phase.active → Agrees W l.creds
  used {u : Credentials} : u ∈ W.used → Agrees W u
  first {i : ℕ} {l : Live} : W.lives[i]? = some l → l.phase = .provisioning → W.store = none ∧
    ∀ j l', W.lives[j]? = some l' → l'.phase = .provisioning → j = i

/-- A session goes on or ends while the store stays. -/
theorem Settled.replace {W : World} (h : Settled W) {i : ℕ} {l : Live}
    (hphase : l.phase ≠ .provisioning) (hactive : l.phase.active → Agrees W l.creds)
    {used : List Credentials} (hused : ∀ u ∈ used, Agrees W u) :
    Settled {W with lives := W.lives.set i l,used := used} where
  kept hl hx := by
    rcases getElem?_set_cases hl with ⟨_,rfl⟩ | ⟨_,hl⟩
    · exact hactive hx
    · exact h.kept hl hx
  used hu := hused _ hu
  first hl hx := by
    rcases getElem?_set_cases hl with ⟨_,rfl⟩ | ⟨_,hl⟩
    · exact (hphase hx).elim
    · refine ⟨(h.first hl hx).1,fun j l' hl' hx' => ?_⟩
      rcases getElem?_set_cases hl' with ⟨_,rfl⟩ | ⟨_,hl'⟩
      · exact (hphase hx').elim
      · exact (h.first hl hx).2 j l' hl' hx'

section
variable {W W' : World} {ev : Event}

/-- The identity in the store never changes. -/
theorem Agrees.moves (h : Settled W) (hmoves : W.Moves ev W') {c : Credentials}
    (hc : Agrees W c) : Agrees W' c := by
  cases hmoves with
  | writes i l next hl hphase _ =>
      have hidentity : identity l.creds = identity c := by
        rcases hphase with hphase | hphase
        · obtain ⟨s,hs,_⟩ := hc
          rw [(h.first hl hphase).1] at hs
          cases hs
        · refine Agrees.identity_eq (h.kept hl ?_) hc
          rcases hphase with hphase | hphase
          · exact .inr (.inl hphase)
          · exact .inr (.inr (.inr (.inr hphase)))
      exact agrees_written rfl hidentity
  | _ => exact hc

theorem Settled.moves (h : Settled W) (hmoves : W.Moves ev W') (hev : Alone W ev) :
    Settled W' := by
  have hstays : ∀ {c}, Agrees W c → Agrees W' c := fun hc => hc.moves h hmoves
  cases hmoves with
  | none => exact h
  | draws readable c hload hstore =>
      subst hload
      refine ⟨fun hl hactive => ?_,fun hu => hstays (h.used hu),fun hl hphase => ⟨hstore,?_⟩⟩
      · rcases getElem?_append_cases hl with ⟨_,rfl⟩ | hl
        · simp [Phase.active] at hactive
        · exact hstays (h.kept hl hactive)
      · have hlast : ∀ j l', (W.lives++[⟨c,.provisioning⟩])[j]? = some l' →
            l'.phase = .provisioning → j = W.lives.length := by
          intro j l' hl' hphase'
          rcases getElem?_append_cases hl' with ⟨rfl,_⟩ | hl'
          · rfl
          · exact (hev l' (List.mem_of_getElem? hl') hphase').elim
        intro j l' hl' hphase'
        exact (hlast j l' hl' hphase').trans (hlast _ _ hl hphase).symm
  | loads raw c hstore hc =>
      have hnew : Agrees W c := ⟨c,by rw [hstore]; exact hc,rfl⟩
      refine ⟨fun hl hactive => ?_,fun hu => hstays (h.used hu),fun hl hphase => ?_⟩
      · rcases getElem?_append_cases hl with ⟨_,rfl⟩ | hl
        · exact hstays hnew
        · exact hstays (h.kept hl hactive)
      · rcases getElem?_append_cases hl with ⟨_,rfl⟩ | hl
        · cases hphase
        · rw [(h.first hl hphase).1] at hstore
          cases hstore
  | writes i l next hl hphase hnext =>
      refine ⟨fun hl' hactive => ?_,fun hu => hstays (h.used hu),fun {j l'} hl' hphase' => ?_⟩
      · rcases getElem?_set_cases hl' with ⟨rfl,rfl⟩ | hl'
        · exact agrees_written rfl rfl
        · exact hstays (h.kept hl'.2 hactive)
      · rcases getElem?_set_cases hl' with ⟨_,rfl⟩ | ⟨hne,hl'⟩
        · exact (hnext hphase').elim
        · -- the first save ends the only provisioning, and a later one finds a store
          have hfirst := h.first hl' hphase'
          have hempty : ¬l.phase.active := by
            intro hactive
            obtain ⟨s,hs,_⟩ := h.kept hl hactive
            rw [hfirst.1] at hs
            cases hs
          rcases hphase with hphase | hphase | hphase
          · exact (hne (hfirst.2 i l hl hphase).symm).elim
          · exact (hempty (.inr (.inl hphase))).elim
          · exact (hempty (.inr (.inr (.inr (.inr hphase))))).elim
  | goes i l l' hl hphase hactive hcreds =>
      refine h.replace hphase (fun hactive' => ?_) fun u hu => h.used hu
      obtain ⟨s,hs,hidentity⟩ := h.kept hl (hactive hactive')
      exact ⟨s,hs,hidentity.trans hcreds.symm⟩
  | finishes i l hl hphase =>
      have hl := h.kept hl (.inr (.inr (.inl hphase)))
      refine h.replace (l := {l with phase := .finished}) (by simp) (fun _ => hl) fun u hu => ?_
      rcases List.mem_append.mp hu with hu | hu
      · exact h.used hu
      · rw [List.mem_singleton.mp hu]
        exact hl
  | crash =>
      exact ⟨fun hl => by simp at hl,fun hu => hstays (h.used hu),fun hl => by simp at hl⟩

theorem settled_step (h : Settled W) (hev : Alone W ev) : Settled (W.step ev) :=
  h.moves (step_moves W ev) hev

theorem settled_empty (store : Option Bytes) : Settled {store := store} :=
  ⟨fun hl => by simp at hl,fun hu => by simp at hu,fun hl => by simp at hl⟩

/-- What the store holds at one time it holds from then on. -/
theorem Agrees.run {evs : List Event} {c : Credentials} (h : Settled W)
    (hrun : Along World.step Alone evs W) (hc : Agrees W c) : Agrees (run World.step evs W) c := by
  have hboth : Settled (Runs.run World.step evs W) ∧ Agrees (Runs.run World.step evs W) c := by
    refine hrun.invariant (I := fun W => Settled W ∧ Agrees W c) ?_ ⟨h,hc⟩
    intro W ev h hev
    exact ⟨settled_step h.1 hev,h.2.moves h.1 (step_moves W ev)⟩
  exact hboth.2

end

/-- Over all starts, failed reads and writes and ends of the process, every finish of an id shows
the identity that is in the store, and an identity that is in the store at any time stays there. -/
theorem identity_persists (store : Option Bytes) (evs : List Event)
    (hrun : Along World.step Alone evs {store := store}) :
    let W := run World.step evs {store := store}
    (∀ u ∈ W.used, Agrees W u ∧ ∀ v ∈ W.used, identity v = identity u) ∧
    ∀ pre, pre <+: evs → ∀ s,
      (run World.step pre {store := store}).store.bind unmarshalCredentials = some s →
      Agrees W s ∧ ∀ u ∈ W.used, identity u = identity s := by
  intro W
  have hsettled : Settled W :=
    hrun.invariant (fun _ _ h hev => settled_step h hev) (settled_empty store)
  refine ⟨fun u hu => ⟨hsettled.used hu,fun v hv => ?_⟩,?_⟩
  · exact Agrees.identity_eq (hsettled.used hv) (hsettled.used hu)
  · rintro pre ⟨rest,rfl⟩ s hs
    have hpre : Settled (run World.step pre {store := store}) :=
      hrun.left.invariant (fun _ _ h hev => settled_step h hev) (settled_empty store)
    have hend : Agrees W s := by
      have hlater : W = run World.step rest (run World.step pre {store := store}) :=
        run_append pre rest _
      rw [hlater]
      exact Agrees.run hpre hrun.right ⟨s,hs,rfl⟩
    exact ⟨hend,fun u hu => (hsettled.used hu).identity_eq hend⟩

/-- The seeds are one byte, repeated. -/
def drawing (seed : UInt8) : Credentials :=
  generateCredentials (List.replicate 32 seed) (List.replicate 32 seed) (List.replicate 32 seed)
    0 0 0 7

/-- The first start is cut off, the second one gets an error for a write that has reached the store,
and two later ones send their finish. The account of the first of them is not stored. -/
def sampleRestarts : List Event :=
  [.load true (some (drawing 1)),.crash,.load true (some (drawing 2)),.save 0 .reached,
    .load true (some (drawing 3)),.check 1 [9],.save 1 .stored,.finish 1,.account 1 (text "7"),
    .save 1 .lost,.crash,.load false none,.load true (some (drawing 4)),.check 0 [8],
    .save 0 .stored,.finish 0,.account 0 [0xFF],.save 0 .stored]

theorem identity_persists_sample :
    let W := run World.step sampleRestarts {store := none}
    W.used.map identity = [identity (drawing 2),identity (drawing 2)] ∧
    (W.store.bind unmarshalCredentials).map Credentials.accountJID = some [0xEF,0xBF,0xBD] ∧
    ∀ u ∈ W.used, Agrees W u ∧ ∀ v ∈ W.used, identity v = identity u := by
  have hrun : Along World.step Alone sampleRestarts {store := none} ∧
      (run World.step sampleRestarts {store := none}).used.map identity =
        [identity (drawing 2),identity (drawing 2)] ∧
      ((run World.step sampleRestarts {store := none}).store.bind unmarshalCredentials).map
        Credentials.accountJID = some [0xEF,0xBF,0xBD] := by
    decide +kernel
  exact ⟨hrun.2.1,hrun.2.2,(identity_persists none sampleRestarts hrun.1).1⟩

/-- Two sessions that both find no credentials send different identities, and the one that was
stored first is lost. -/
theorem overlapping_starts_differ :
    let W := run World.step [.load true (some (drawing 1)),.load true (some (drawing 2)),
      .save 0 .stored,.save 1 .stored,.check 0 [9],.save 0 .stored,.finish 0,.check 1 [9],
      .save 1 .stored,.finish 1] {store := none}
    W.used.map identity = [identity (drawing 1),identity (drawing 2)] ∧
    (W.store.bind unmarshalCredentials).map identity = some (identity (drawing 2)) ∧
    identity (drawing 1) ≠ identity (drawing 2) := by
  decide +kernel

end BaturWhatsApi.CredentialRestarts
