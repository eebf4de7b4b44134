import BaturWhatsApi.SyncRunner

/-!
# A server that repeats its cursors

The runs of `sync/sync.go` against a server that answers as it likes: each call of a stage's
`Fetch` is answered by its own function of the cursor. The calls of the current run are
recorded. A stage is known by the number of the stages behind it. If every call is answered
by the function of its stage, the runs are those of `SyncRunner`.

The loop asks for the cursor of the page it was given, without a look at the ones before. So
it asks twice for a cursor exactly when the cursors of the pages, followed from the one the
stage begins with, come to a cursor that was there before. Without such a repetition a
server with finitely many cursors is left after a bounded number of operations.
-/
namespace BaturWhatsApi.SyncProgress
open ByteStrings CursorPages Runs SyncRunner

variable {α : Type}

/-- By the stage and the number of its call in the run. -/
abbrev Server (α : Type) := ℕ → ℕ → Bytes → Except FetchError (Page Bytes α)

/-- A run with the calls of `Fetch` it has made, each with its stage and cursor. -/
structure Progress (α : Type) where
  sync : State α := {}
  calls : List (ℕ × Bytes) := []

def callsOf (k : ℕ) (calls : List (ℕ × Bytes)) : List Bytes :=
  (calls.filter fun c => c.1 = k).map Prod.snd

/-- A call of `Fetch` is answered by the server. -/
def Progress.step (r : Runner α) (srv : Server α) (p : Progress α) (ev : Event) : Progress α :=
  match p.sync.pc,ev with
  | .fetch st rest cp,.op _ =>
      let answer := srv rest.length (callsOf rest.length p.calls).length
      { sync := State.step r {p.sync with pc := .fetch {st with fetch := answer} rest cp} ev
        calls := p.calls++[(rest.length,cp.cursor)] }
  | .idle,.run => {sync := p.sync.step r ev,calls := []}
  | _,_ => {p with sync := p.sync.step r ev}

def Progress.begin (store : Store) : Progress α := {sync := {store := store}}

/-- No stage has asked for a cursor twice. -/
def NeverTwice (p : Progress α) : Prop := ∀ k, (callsOf k p.calls).Nodup

theorem callsOf_append_self (k : ℕ) (calls : List (ℕ × Bytes)) (c : Bytes) :
    callsOf k (calls++[(k,c)]) = callsOf k calls++[c] := by
  simp [callsOf]

theorem callsOf_append_of_ne {k k' : ℕ} (h : k' ≠ k) (calls : List (ℕ × Bytes)) (c : Bytes) :
    callsOf k (calls++[(k',c)]) = callsOf k calls := by
  simp [callsOf,h]

/-! ### The cursors of a stage -/

section
variable (answers : ℕ → Bytes → Except FetchError (Page Bytes α)) (start : Bytes)

/-- The cursor that a page leads to. -/
def next : Except FetchError (Page Bytes α) → Option Bytes
  | .error _ => none
  | .ok page => if page.cursor = [] then none else some page.cursor

/-- The cursors of the pages, followed from a first one until an error or the last page. -/
def chain : ℕ → Option Bytes
  | 0 => some start
  | n+1 => (chain n).bind fun c => next (answers n c)

/-- No cursor comes up again. -/
def Fresh : Prop := ∀ m n c, m < n → chain answers start m = some c → chain answers start n ≠ some c

def Followed (cs : List Bytes) : Prop := ∀ i c, cs[i]? = some c → chain answers start i = some c

end

section
variable {answers : ℕ → Bytes → Except FetchError (Page Bytes α)} {start : Bytes}

theorem followed_nil : Followed answers start [] := by
  intro i c h
  cases h

theorem Followed.concat {cs : List Bytes} {c : Bytes} (h : Followed answers start cs)
    (hc : chain answers start cs.length = some c) : Followed answers start (cs++[c]) := by
  intro i d hd
  rcases Nat.lt_trichotomy i cs.length with hlt | rfl | hgt
  · rw [List.getElem?_append_left hlt] at hd
    exact h i d hd
  · rw [List.getElem?_concat_length] at hd
    rw [hc,hd]
  · rw [List.getElem?_eq_none (by rw [List.length_append,List.length_singleton]; omega)] at hd
    cases hd

theorem Followed.nodup {cs : List Bytes} (h : Followed answers start cs)
    (hfresh : Fresh answers start) : cs.Nodup := by
  rw [List.nodup_iff_getElem?_ne_getElem?]
  intro i j hij hj heq
  have hlast := List.getElem?_eq_getElem hj
  exact hfresh i j _ hij (h i _ (heq.trans hlast)) (h j _ hlast)

theorem next_eq_some {x : Except FetchError (Page Bytes α)} {c : Bytes} (h : next x = some c) :
    ∃ page, x = .ok page ∧ page.cursor = c ∧ c ≠ [] := by
  cases x with
  | error e => cases h
  | ok page =>
      rw [next] at h
      split_ifs at h with hempty
      cases h
      exact ⟨page,rfl,rfl,hempty⟩

theorem chain_before {m n : ℕ} (hmn : m ≤ n) {c : Bytes} (h : chain answers start n = some c) :
    ∃ d, chain answers start m = some d := by
  induction n, hmn using Nat.le_induction generalizing c with
  | base => exact ⟨c,h⟩
  | succ n _ ih =>
      obtain ⟨d,hd,-⟩ := Option.bind_eq_some_iff.mp h
      exact ih hd

/-- The pages carry cursors of the set. -/
def Within (C : Finset Bytes) (answers : ℕ → Bytes → Except FetchError (Page Bytes α)) : Prop :=
  ∀ n c page, answers n c = .ok page → page.cursor = [] ∨ page.cursor ∈ C

theorem Within.mem {C : Finset Bytes} (hC : Within C answers) {n : ℕ} {c : Bytes}
    (h : chain answers start (n+1) = some c) : c ∈ C := by
  obtain ⟨d,-,hd⟩ := Option.bind_eq_some_iff.mp h
  obtain ⟨page,hpage,rfl,hne⟩ := next_eq_some hd
  exact (hC n d page hpage).resolve_left hne

/-- Without a repetition the cursors of a finite set run out. -/
theorem Within.le_card {C : Finset Bytes} (hC : Within C answers) (hfresh : Fresh answers start)
    {n : ℕ} {c : Bytes} (h : chain answers start n = some c) : n ≤ C.card := by
  have hsome : ∀ i ∈ Finset.range n, ∃ d, chain answers start (i+1) = some d :=
    fun i hi => chain_before (Finset.mem_range.mp hi) h
  have hcard := Finset.card_le_card_of_injOn (s := Finset.range n) (t := C)
    (fun i => (chain answers start (i+1)).getD []) ?_ ?_
  · rwa [Finset.card_range] at hcard
  · intro i hi
    obtain ⟨d,hd⟩ := hsome i hi
    dsimp only
    rw [hd]
    exact hC.mem hd
  · intro i hi j hj heq
    obtain ⟨d,hd⟩ := hsome i hi
    obtain ⟨e,he⟩ := hsome j hj
    dsimp only at heq
    rw [hd,he,Option.getD_some,Option.getD_some] at heq
    subst heq
    rcases Nat.lt_trichotomy i j with hlt | rfl | hgt
    · exact absurd he (hfresh _ _ _ (Nat.succ_lt_succ hlt) hd)
    · rfl
    · exact absurd hd (hfresh _ _ _ (Nat.succ_lt_succ hgt) he)

end

/-! ### What an operation does -/

/-- The cursor that a stage begins with, unless it is complete. -/
def startCursor (r : Runner α) (s : State α) (st : Stage α) : Option Bytes :=
  if r.forceRestart then some []
  else match s.store st.name with
    | none => some []
    | some cp => if cp.complete then none else some cp.cursor

/-- The place before the next stage. -/
def after : List (Stage α) → Pc α
  | [] => .idle
  | st::rest => .load st rest

theorem advance_pc (s : State α) (rest : List (Stage α)) : (s.advance rest).pc = after rest := by
  cases rest <;> rfl

/-- The operations of a run that is under way. -/
inductive Moves (r : Runner α) (srv : Server α) (p q : Progress α) : Prop where
  | stops (hpc : q.sync.pc = .idle) (hcalls : q.calls = p.calls)
  | skips {st : Stage α} {rest : List (Stage α)} (hp : p.sync.pc = .load st rest)
      (hq : q.sync.pc = after rest) (hcalls : q.calls = p.calls)
  | loads {st : Stage α} {rest : List (Stage α)} {cp : Checkpoint} (hp : p.sync.pc = .load st rest)
      (hstart : startCursor r p.sync st = some cp.cursor) (hq : q.sync.pc = .fetch st rest cp)
      (hcalls : q.calls = p.calls)
  | errs {st : Stage α} {rest : List (Stage α)} {cp : Checkpoint}
      (hp : p.sync.pc = .fetch st rest cp) (hq : q.sync.pc = .idle)
      (hcalls : q.calls = p.calls++[(rest.length,cp.cursor)])
  | fetches {st st' : Stage α} {rest : List (Stage α)} {cp cp' : Checkpoint}
      {page : Page Bytes α} (hp : p.sync.pc = .fetch st rest cp)
      (hpage : srv rest.length (callsOf rest.length p.calls).length cp.cursor = .ok page)
      (hq : q.sync.pc = .save st' rest cp') (hcursor : cp'.cursor = page.cursor)
      (hcalls : q.calls = p.calls++[(rest.length,cp.cursor)])
  | saves {st : Stage α} {rest : List (Stage α)} {cp : Checkpoint}
      (hp : p.sync.pc = .save st rest cp) (hmore : cp.cursor ≠ [])
      (hq : q.sync.pc = .fetch st rest cp) (hcalls : q.calls = p.calls)
  | ends {st : Stage α} {rest : List (Stage α)} {cp cp' : Checkpoint}
      (hp : p.sync.pc = .save st rest cp) (hlast : cp.cursor = [])
      (hq : q.sync.pc = .complete st rest cp') (hcalls : q.calls = p.calls)
  | completes {st : Stage α} {rest : List (Stage α)} {cp : Checkpoint}
      (hp : p.sync.pc = .complete st rest cp) (hq : q.sync.pc = after rest)
      (hcalls : q.calls = p.calls)

section
variable {r : Runner α} {srv : Server α} {p : Progress α} {st : Stage α} {rest : List (Stage α)}
  {cp : Checkpoint} {ok : Bool}

theorem loadStage_start {s : State α} {c : Bytes} (h : startCursor r s st = some c)
    (hok : r.forceRestart ∨ ok) (rest : List (Stage α)) :
    ∃ cp, cp.cursor = c ∧ (s.loadStage r st rest ok).pc = .fetch st rest cp := by
  rw [startCursor] at h
  rw [State.loadStage]
  by_cases hforce : r.forceRestart
  · rw [if_pos hforce] at h ⊢
    cases h
    exact ⟨_,rfl,rfl⟩
  · rw [if_neg hforce] at h ⊢
    rw [hok.resolve_left hforce]
    cases hstore : s.store st.name with
    | none =>
        rw [hstore] at h
        cases h
        exact ⟨_,rfl,rfl⟩
    | some cp =>
        rw [hstore] at h
        dsimp only at h
        split_ifs at h with hcomplete
        cases h
        exact ⟨cp,rfl,by simp [hcomplete]⟩

theorem loadStage_skip {s : State α} (h : startCursor r s st = none) :
    (s.loadStage r st rest true).pc = after rest := by
  rw [startCursor] at h
  rw [State.loadStage]
  by_cases hforce : r.forceRestart
  · rw [if_pos hforce] at h
    cases h
  · rw [if_neg hforce] at h ⊢
    cases hstore : s.store st.name with
    | none =>
        rw [hstore] at h
        cases h
    | some cp =>
        rw [hstore] at h
        dsimp only at h
        split_ifs at h with hcomplete
        simp [hcomplete,advance_pc]

theorem step_load (hp : p.sync.pc = .load st rest) :
    p.step r srv (.op ok) = {p with sync := p.sync.loadStage r st rest ok} := by
  simp only [Progress.step,State.step,hp]

theorem moves_load (hp : p.sync.pc = .load st rest) : Moves r srv p (p.step r srv (.op ok)) := by
  rw [step_load hp]
  by_cases hok : r.forceRestart ∨ ok
  · cases hstart : startCursor r p.sync st with
    | some c =>
        obtain ⟨cp,rfl,hpc⟩ := loadStage_start hstart hok rest
        exact .loads hp hstart hpc rfl
    | none =>
        have hforce : ¬r.forceRestart := by
          intro hforce
          rw [startCursor,if_pos hforce] at hstart
          cases hstart
        rw [hok.resolve_left hforce]
        exact .skips hp (loadStage_skip hstart) rfl
  · rw [not_or] at hok
    exact .stops (by simp [State.loadStage,hok,State.fail]) rfl

theorem moves_fetch (hp : p.sync.pc = .fetch st rest cp) :
    Moves r srv p (p.step r srv (.op ok)) := by
  set answer := srv rest.length (callsOf rest.length p.calls).length with hanswer
  have hstep : p.step r srv (.op ok) =
      { sync := State.fetchPage {p.sync with pc := .fetch {st with fetch := answer} rest cp}
          {st with fetch := answer} rest cp ok
        calls := p.calls++[(rest.length,cp.cursor)] } := by
    simp only [Progress.step,State.step,hp]
    rfl
  rw [hstep]
  cases ok with
  | false => exact .errs hp rfl rfl
  | true =>
      cases hpage : answer cp.cursor with
      | error e =>
          refine .errs hp ?_ rfl
          simp [State.fetchPage,hpage,State.fail]
      | ok page =>
          have hsave : (State.fetchPage
              {p.sync with pc := .fetch {st with fetch := answer} rest cp}
              {st with fetch := answer} rest cp true).pc =
              .save {st with fetch := answer} rest {cp with
                items := cp.items+UInt64.ofNat page.items.length
                cursor := page.cursor} := by
            simp [State.fetchPage,hpage]
          exact .fetches hp hpage hsave rfl rfl

theorem moves_save (hp : p.sync.pc = .save st rest cp) :
    Moves r srv p (p.step r srv (.op ok)) := by
  have hstep : p.step r srv (.op ok) = {p with sync := p.sync.savePage st rest cp ok} := by
    simp only [Progress.step,State.step,hp]
  rw [hstep]
  cases ok with
  | false => exact .stops rfl rfl
  | true =>
      by_cases hcursor : cp.cursor = []
      · have hlast : (p.sync.savePage st rest cp true).pc =
            .complete st rest {cp with complete := true,cursor := []} := by
          simp [State.savePage,hcursor]
        exact .ends hp hcursor hlast rfl
      · refine .saves hp hcursor ?_ rfl
        simp [State.savePage,hcursor]

theorem moves_complete (hp : p.sync.pc = .complete st rest cp) :
    Moves r srv p (p.step r srv (.op ok)) := by
  have hstep : p.step r srv (.op ok) = {p with sync := p.sync.step r (.op ok)} := by
    simp only [Progress.step,hp]
  rw [hstep]
  cases ok with
  | false =>
      refine .stops ?_ rfl
      simp [State.step,hp,State.fail]
  | true =>
      refine .completes hp ?_ rfl
      simp [State.step,hp,advance_pc]

/-- Every operation of a run that is under way is one of those. -/
theorem moves_op (hp : p.sync.pc ≠ .idle) : Moves r srv p (p.step r srv (.op ok)) := by
  cases hpc : p.sync.pc with
  | idle => exact absurd hpc hp
  | load st rest => exact moves_load hpc
  | fetch st rest cp => exact moves_fetch hpc
  | save st rest cp => exact moves_save hpc
  | complete st rest cp => exact moves_complete hpc

end

/-! ### The calls follow the pages -/

section
variable (G : ℕ → Bytes → Prop) (srv : Server α)

/-- The calls of a stage follow its pages from a cursor with the property `G`. -/
def Traced (calls : List (ℕ × Bytes)) (k : ℕ) : Prop :=
  callsOf k calls = [] ∨ ∃ start, G k start ∧ Followed (srv k) start (callsOf k calls)

/-- They have come to the cursor `o`. -/
def Stands (calls : List (ℕ × Bytes)) (k : ℕ) (o : Option Bytes) : Prop :=
  ∃ start, G k start ∧ Followed (srv k) start (callsOf k calls) ∧
    chain (srv k) start (callsOf k calls).length = o

/-- What the place of the run says about the calls of its stage and of the later ones. -/
def Placed (calls : List (ℕ × Bytes)) : Pc α → Prop
  | .idle => True
  | .load _ rest => ∀ k < rest.length+1, callsOf k calls = []
  | .fetch _ rest cp => (∀ k < rest.length, callsOf k calls = []) ∧
      Stands G srv calls rest.length (some cp.cursor)
  | .save _ rest cp => (∀ k < rest.length, callsOf k calls = []) ∧
      Stands G srv calls rest.length (if cp.cursor = [] then none else some cp.cursor)
  | .complete _ rest _ => ∀ k < rest.length, callsOf k calls = []

structure Inv (p : Progress α) : Prop where
  traced : ∀ k, Traced G srv p.calls k
  placed : Placed G srv p.calls p.sync.pc

end

/-- The pages of a stage that begins do not come back to a cursor. -/
def Unrepeating (r : Runner α) (srv : Server α) (p : Progress α) (_ : Event) : Prop :=
  ∀ st rest c, p.sync.pc = .load st rest → startCursor r p.sync st = some c →
    Fresh (srv rest.length) c

section
variable {G : ℕ → Bytes → Prop} {r : Runner α} {srv : Server α} {p q : Progress α}

theorem placed_after {calls : List (ℕ × Bytes)} {rest : List (Stage α)}
    (h : ∀ k < rest.length, callsOf k calls = []) : Placed G srv calls (after rest) := by
  cases rest with
  | nil => trivial
  | cons st rest => exact h

/-- A call in a place where the pages lead. -/
theorem Stands.call {calls : List (ℕ × Bytes)} {k : ℕ} {c : Bytes}
    (h : Stands G srv calls k (some c)) :
    Stands G srv (calls++[(k,c)]) k (next (srv k (callsOf k calls).length c)) := by
  obtain ⟨start,hG,hfollowed,hc⟩ := h
  refine ⟨start,hG,?_,?_⟩
  · rw [callsOf_append_self]
    exact hfollowed.concat hc
  · rw [callsOf_append_self,List.length_append,List.length_singleton,chain,hc,Option.bind_some]

theorem Stands.traced {calls : List (ℕ × Bytes)} {k : ℕ} {o : Option Bytes}
    (h : Stands G srv calls k o) : Traced G srv calls k := by
  obtain ⟨start,hG,hfollowed,-⟩ := h
  exact .inr ⟨start,hG,hfollowed⟩

theorem traced_call {calls : List (ℕ × Bytes)} {k : ℕ} {c : Bytes}
    (h : ∀ k, Traced G srv calls k) (hk : Stands G srv calls k (some c)) :
    ∀ k', Traced G srv (calls++[(k,c)]) k' := by
  intro k'
  by_cases heq : k = k'
  · subst heq
    exact hk.call.traced
  · rw [Traced,callsOf_append_of_ne heq]
    exact h k'

theorem later_call {calls : List (ℕ × Bytes)} {n : ℕ} (h : ∀ k < n, callsOf k calls = [])
    (c : Bytes) : ∀ k < n, callsOf k (calls++[(n,c)]) = [] := by
  intro k hk
  rw [callsOf_append_of_ne hk.ne',h k hk]

theorem Moves.inv (h : Moves r srv p q) (hp : Inv G srv p)
    (hG : ∀ st rest c, p.sync.pc = .load st rest → startCursor r p.sync st = some c →
      G rest.length c) : Inv G srv q := by
  obtain ⟨htraced,hplaced⟩ := hp
  cases h with
  | stops hpc hcalls =>
      constructor
      · rwa [hcalls]
      · rw [hpc]
        trivial
  | skips hpc hq hcalls =>
      rw [hpc] at hplaced
      constructor
      · rwa [hcalls]
      · rw [hq,hcalls]
        exact placed_after fun k hk => hplaced k (Nat.lt_succ_of_lt hk)
  | @loads st rest cp hpc hstart hq hcalls =>
      rw [hpc] at hplaced
      constructor
      · rwa [hcalls]
      · rw [hq,hcalls]
        have hnone := hplaced rest.length (Nat.lt_succ_self _)
        have hG := hG st rest _ hpc hstart
        refine ⟨fun k hk => hplaced k (Nat.lt_succ_of_lt hk),cp.cursor,hG,?_,?_⟩
        · rw [hnone]
          exact followed_nil
        · rw [hnone]
          rfl
  | errs hpc hq hcalls =>
      rw [hpc] at hplaced
      constructor
      · rw [hcalls]
        exact traced_call htraced hplaced.2
      · rw [hq]
        trivial
  | @fetches st st' rest cp cp' page hpc hpage hq hcursor hcalls =>
      rw [hpc] at hplaced
      constructor
      · rw [hcalls]
        exact traced_call htraced hplaced.2
      · have hnext := hplaced.2.call
        rw [hpage] at hnext
        rw [hq,hcalls]
        refine ⟨later_call hplaced.1 _,?_⟩
        rw [hcursor]
        exact hnext
  | saves hpc hmore hq hcalls =>
      rw [hpc] at hplaced
      constructor
      · rwa [hcalls]
      · rw [hq,hcalls]
        refine ⟨hplaced.1,?_⟩
        have hstands := hplaced.2
        rwa [if_neg hmore] at hstands
  | ends hpc hlast hq hcalls =>
      rw [hpc] at hplaced
      constructor
      · rwa [hcalls]
      · rw [hq,hcalls]
        exact hplaced.1
  | completes hpc hq hcalls =>
      rw [hpc] at hplaced
      constructor
      · rwa [hcalls]
      · rw [hq,hcalls]
        exact placed_after hplaced

theorem inv_begin (store : Store) : Inv G srv (Progress.begin store) := by
  constructor
  · intro k
    exact .inl rfl
  · trivial

theorem inv_step (hp : Inv G srv p) (ev : Event)
    (hG : ∀ st rest c, p.sync.pc = .load st rest → startCursor r p.sync st = some c →
      G rest.length c) : Inv G srv (p.step r srv ev) := by
  cases ev with
  | run =>
      by_cases hpc : p.sync.pc = .idle
      · have hstep : p.step r srv .run = {sync := p.sync.step r .run,calls := []} := by
          simp only [Progress.step,hpc]
        have hstart : (p.sync.step r .run).pc = after r.stages := by
          simp only [State.step,hpc,advance_pc]
        rw [hstep]
        constructor
        · intro k
          exact .inl rfl
        · show Placed G srv [] (p.sync.step r .run).pc
          rw [hstart]
          exact placed_after fun k _ => rfl
      · have hstep : p.step r srv .run = p := by
          cases hpc' : p.sync.pc with
          | idle => exact absurd hpc' hpc
          | _ => simp only [Progress.step,State.step,hpc']
        rwa [hstep]
  | crash =>
      have hstep : p.step r srv .crash = {p with sync := p.sync.step r .crash} := by
        cases hpc : p.sync.pc <;> simp only [Progress.step,hpc]
      rw [hstep]
      exact ⟨hp.traced,trivial⟩
  | op ok =>
      by_cases hpc : p.sync.pc = .idle
      · have hstep : p.step r srv (.op ok) = p := by
          simp only [Progress.step,State.step,hpc]
        rwa [hstep]
      · exact (moves_op hpc).inv hp hG

theorem Inv.neverTwice (h : Inv (fun k start => Fresh (srv k) start) srv p) : NeverTwice p := by
  intro k
  rcases h.traced k with hnone | ⟨start,hfresh,hfollowed⟩
  · rw [hnone]
    exact List.nodup_nil
  · exact hfollowed.nodup hfresh

/-! ### Any page can be reached -/

theorem step_fetch_ok {st : Stage α} {rest : List (Stage α)} {cp : Checkpoint}
    {page : Page Bytes α} (hp : p.sync.pc = .fetch st rest cp)
    (hpage : srv rest.length (callsOf rest.length p.calls).length cp.cursor = .ok page)
    (hmore : page.cursor ≠ []) : ∃ st' cp',
      (run (Progress.step r srv) [.op true,.op true] p).sync.pc = .fetch st' rest cp' ∧
      cp'.cursor = page.cursor ∧ (run (Progress.step r srv) [.op true,.op true] p).calls =
        p.calls++[(rest.length,cp.cursor)] := by
  simp only [run,List.foldl_cons,List.foldl_nil,Progress.step,State.step,hp,State.fetchPage,hpage,
    State.savePage,Bool.not_true,Bool.false_eq_true,if_false,if_neg hmore]
  exact ⟨_,_,rfl,rfl,trivial⟩

/-- Operations that succeed come to any page of the stage. -/
theorem reaches {st : Stage α} {rest : List (Stage α)} {start : Bytes}
    (hp : p.sync.pc = .load st rest) (hstart : startCursor r p.sync st = some start)
    (hnone : callsOf rest.length p.calls = []) {n : ℕ} {c : Bytes}
    (h : chain (srv rest.length) start n = some c) : ∃ evs st' cp',
      (run (Progress.step r srv) evs p).sync.pc = .fetch st' rest cp' ∧ cp'.cursor = c ∧
      callsOf rest.length (run (Progress.step r srv) evs p).calls =
        (List.range n).map fun i => (chain (srv rest.length) start i).getD [] := by
  induction n generalizing c with
  | zero =>
      cases h
      obtain ⟨cp,hcursor,hpc⟩ := loadStage_start hstart (.inr rfl : _ ∨ true) rest
      refine ⟨[.op true],st,cp,?_,hcursor,?_⟩
      · exact (congrArg (fun q => q.sync.pc) (step_load hp)).trans hpc
      · exact (congrArg (fun q => callsOf rest.length q.calls) (step_load hp)).trans hnone
  | succ n ih =>
      obtain ⟨d,hd,hnext⟩ := Option.bind_eq_some_iff.mp h
      obtain ⟨page,hpage,hcursor,hmore⟩ := next_eq_some hnext
      obtain ⟨evs,st',cp',hpc,rfl,hcalls⟩ := ih hd
      have hlength : (callsOf rest.length (run (Progress.step r srv) evs p).calls).length = n := by
        rw [hcalls,List.length_map,List.length_range]
      rw [← hlength] at hpage
      obtain ⟨st₂,cp₂,hpc₂,hcursor₂,hcalls₂⟩ := step_fetch_ok (r := r) hpc hpage (hcursor ▸ hmore)
      refine ⟨evs++[.op true,.op true],st₂,cp₂,?_,hcursor₂.trans hcursor,?_⟩
      · rw [run_append]
        exact hpc₂
      · rw [run_append,hcalls₂,callsOf_append_self,hcalls,List.range_succ,List.map_append,
          List.map_singleton,hd]
        rfl

/-- A run that asks for no cursor twice has begun no stage whose pages come back to one. -/
theorem unrepeating_of_neverTwice (hp : Inv (fun _ _ => True) srv p)
    (h : ∀ evs, NeverTwice (run (Progress.step r srv) evs p)) (ev : Event) :
    Unrepeating r srv p ev := by
  intro st rest start hpc hstart m n c hmn hm hn
  have hplaced := hp.placed
  rw [hpc] at hplaced
  obtain ⟨evs,st',cp,hfetch,rfl,hcalls⟩ := reaches hpc hstart
    (hplaced rest.length (Nat.lt_succ_self _)) hn
  have hlast : callsOf rest.length (run (Progress.step r srv) (evs++[.op false]) p).calls =
      (List.range (n+1)).map fun i => (chain (srv rest.length) start i).getD [] := by
    have hstep : (Progress.step r srv (run (Progress.step r srv) evs p) (.op false)).calls =
        (run (Progress.step r srv) evs p).calls++[(rest.length,cp.cursor)] := by
      simp only [Progress.step,hfetch]
    rw [run_append,run,List.foldl_cons,List.foldl_nil,hstep,callsOf_append_self,hcalls,
      List.range_succ,List.map_append,List.map_singleton,hn]
    rfl
  have hnodup := h (evs++[.op false]) rest.length
  rw [hlast] at hnodup
  have heq := List.inj_on_of_nodup_map hnodup (List.mem_range.mpr (by omega : m < n+1))
    (List.mem_range.mpr (Nat.lt_succ_self n)) (by rw [hm,hn])
  omega

/-! ### Finitely many cursors -/

/-- The operations that are left, if no stage makes more than `B+1` calls. -/
def cost (B : ℕ) (calls : List (ℕ × Bytes)) : Pc α → ℕ
  | .idle => 0
  | .load _ rest => (rest.length+1)*(2*B+4)
  | .fetch _ rest _ => rest.length*(2*B+4)+(2*(B-(callsOf rest.length calls).length)+3)
  | .save _ rest _ => rest.length*(2*B+4)+(2*(B+1-(callsOf rest.length calls).length)+2)
  | .complete _ rest _ => rest.length*(2*B+4)+1

theorem cost_after (B : ℕ) (calls : List (ℕ × Bytes)) (rest : List (Stage α)) :
    cost B calls (after rest) = rest.length*(2*B+4) := by
  cases rest with
  | nil => exact (Nat.zero_mul _).symm
  | cons st rest => rfl

theorem cost_pos {B : ℕ} {calls : List (ℕ × Bytes)} {pc : Pc α} (h : pc ≠ .idle) :
    0 < cost B calls pc := by
  cases pc with
  | idle => exact absurd rfl h
  | _ =>
      rw [cost]
      positivity

theorem Moves.cost_lt (h : Moves r srv p q) (hp : Inv (fun k start => Fresh (srv k) start) srv p)
    {C : Finset Bytes} (hC : ∀ k, Within C (srv k)) (hpc : p.sync.pc ≠ .idle) :
    cost C.card q.calls q.sync.pc < cost C.card p.calls p.sync.pc := by
  have hplaced := hp.placed
  cases h with
  | stops hq hcalls =>
      rw [hq]
      exact cost_pos hpc
  | skips hpc hq hcalls =>
      rw [hq,hpc,cost_after,cost]
      exact Nat.mul_lt_mul_of_pos_right (Nat.lt_succ_self _) (by omega)
  | @loads st rest cp hpc hstart hq hcalls =>
      rw [hq,hpc,cost,cost,Nat.add_one_mul rest.length]
      omega
  | errs hpc' hq hcalls =>
      rw [hq]
      exact cost_pos hpc
  | fetches hpc hpage hq hcursor hcalls =>
      rw [hq,hpc,hcalls,cost,cost,callsOf_append_self,List.length_append,List.length_singleton]
      omega
  | saves hpc hmore hq hcalls =>
      rw [hpc] at hplaced
      obtain ⟨start,hfresh,-,hchain⟩ := hplaced.2
      rw [if_neg hmore] at hchain
      have hcard := (hC _).le_card hfresh hchain
      rw [hq,hpc,hcalls,cost,cost]
      omega
  | ends hpc hlast hq hcalls =>
      rw [hq,hpc,cost,cost]
      omega
  | completes hpc hq hcalls =>
      rw [hq,hpc,cost_after,cost]
      exact Nat.lt_succ_self _

theorem idle_ops (hp : p.sync.pc = .idle) (ops : List Bool) :
    (run (Progress.step r srv) (ops.map .op) p).sync.pc = .idle := by
  induction ops generalizing p with
  | nil => exact hp
  | cons ok ops ih =>
      apply ih
      simp only [Progress.step,State.step,hp]

/-- Each operation takes something off, or the run has ended. -/
theorem cost_ops {C : Finset Bytes} (hC : ∀ k, Within C (srv k)) (ops : List Bool)
    (hp : Inv (fun k start => Fresh (srv k) start) srv p)
    (h : Along (Progress.step r srv) (Unrepeating r srv) (ops.map .op) p) :
    (run (Progress.step r srv) (ops.map .op) p).sync.pc = .idle ∨
      cost C.card (run (Progress.step r srv) (ops.map .op) p).calls
        (run (Progress.step r srv) (ops.map .op) p).sync.pc+ops.length ≤
          cost C.card p.calls p.sync.pc := by
  induction ops generalizing p with
  | nil => exact .inr le_rfl
  | cons ok ops ih =>
      by_cases hpc : p.sync.pc = .idle
      · exact .inl (idle_ops hpc (ok::ops))
      · have hmoves : Moves r srv p (p.step r srv (.op ok)) := moves_op hpc
        have hlt := hmoves.cost_lt hp hC hpc
        rcases ih (inv_step hp (.op ok) h.1) h.2 with hidle | hle
        · exact .inl hidle
        · right
          rw [List.map_cons,List.length_cons]
          exact (Nat.succ_le_succ hle).trans hlt

theorem idle_of_cost_le {C : Finset Bytes} (hC : ∀ k, Within C (srv k)) (ops : List Bool)
    (hp : Inv (fun k start => Fresh (srv k) start) srv p)
    (h : Along (Progress.step r srv) (Unrepeating r srv) (ops.map .op) p)
    (henough : cost C.card p.calls p.sync.pc ≤ ops.length) :
    (run (Progress.step r srv) (ops.map .op) p).sync.pc = .idle := by
  rcases cost_ops hC ops hp h with hidle | hle
  · exact hidle
  · by_contra hpc
    have hpos : 0 < cost C.card (run (Progress.step r srv) (ops.map .op) p).calls
      (run (Progress.step r srv) (ops.map .op) p).sync.pc := cost_pos hpc
    omega

end

/-- In every run whose stages begin with pages that do not come back to a cursor, no cursor is
asked for twice, and no weaker condition does it for all runs. With finitely many cursors such
a run then ends, whatever its operations return. -/
theorem neverTwice_iff (r : Runner α) (srv : Server α) (store : Store) :
    (∀ evs, Along (Progress.step r srv) (Unrepeating r srv) evs (.begin store) →
      ∀ pre, pre <+: evs → NeverTwice (run (Progress.step r srv) pre (.begin store))) ∧
    ((∀ evs, NeverTwice (run (Progress.step r srv) evs (.begin store))) ↔
      ∀ evs, Along (Progress.step r srv) (Unrepeating r srv) evs (.begin store)) ∧
    ∀ C : Finset Bytes, (∀ k, Within C (srv k)) → ∀ ops : List Bool,
      Along (Progress.step r srv) (Unrepeating r srv) (.run::ops.map .op) (.begin store) →
      r.stages.length*(2*C.card+4) ≤ ops.length →
      (run (Progress.step r srv) (.run::ops.map .op) (.begin store)).sync.pc = .idle := by
  have hstep : ∀ p ev, Inv (fun k start => Fresh (srv k) start) srv p → Unrepeating r srv p ev →
      Inv (fun k start => Fresh (srv k) start) srv (p.step r srv ev) :=
    fun p ev hp hev => inv_step hp ev hev
  have hruns : ∀ evs, Along (Progress.step r srv) (Unrepeating r srv) evs (.begin store) →
      ∀ pre, pre <+: evs → NeverTwice (run (Progress.step r srv) pre (.begin store)) :=
    fun evs h pre hpre => (h.throughout hstep (inv_begin store) pre hpre).neverTwice
  refine ⟨hruns,⟨fun h => ?_,fun h evs => hruns evs (h evs) evs (List.prefix_refl _)⟩,?_⟩
  · apply along_of_run
    intro pre ev
    apply unrepeating_of_neverTwice
    · exact run_invariant (I := Inv (fun _ _ => True) srv)
        (fun p ev hp => inv_step hp ev fun _ _ _ _ _ => trivial) pre (inv_begin store)
    · intro evs
      rw [← run_append]
      exact h (pre++evs)
  · intro C hC ops halong henough
    have hstart : cost C.card (Progress.step r srv (.begin store) .run).calls
        (Progress.step r srv (.begin store) .run).sync.pc = r.stages.length*(2*C.card+4) := by
      rw [← cost_after C.card [] r.stages]
      exact congrArg _ (advance_pc _ _)
    apply idle_of_cost_le hC ops (hstep _ _ (inv_begin store) halong.1) halong.2
    rwa [hstart]

/-! ### Stages that answer for themselves -/

/-- Every call is answered by the stage's own function. -/
def ownServer (r : Runner α) : Server α := fun k _ c =>
  match r.stages.reverse[k]? with
  | some st => st.fetch c
  | none => .error .request

/-- The current stage and those behind it. -/
def stagesOf : Pc α → List (Stage α)
  | .idle => []
  | .load st rest | .fetch st rest _ | .save st rest _ | .complete st rest _ => st::rest

section
variable {r : Runner α} {s : State α} {st : Stage α} {rest : List (Stage α)}

theorem ownServer_eq (h : st::rest <:+ r.stages) (n : ℕ) :
    ownServer r rest.length n = st.fetch := by
  obtain ⟨done,hdone⟩ := h
  have hst : r.stages.reverse[rest.length]? = some st := by
    rw [← hdone]
    simp
  funext c
  rw [ownServer,hst]

theorem stagesOf_advance (s : State α) (rest : List (Stage α)) :
    stagesOf (s.advance rest).pc = rest := by
  cases rest <;> rfl

theorem stagesOf_loadStage (ok : Bool) :
    stagesOf (s.loadStage r st rest ok).pc <:+ st::rest := by
  rw [State.loadStage]
  split_ifs
  · exact List.suffix_refl _
  · exact List.nil_suffix
  · cases s.store st.name with
    | none => exact List.suffix_refl _
    | some cp =>
        dsimp only
        split_ifs
        · rw [stagesOf_advance]
          exact List.suffix_cons _ _
        · exact List.suffix_refl _

theorem stagesOf_fetchPage (cp : Checkpoint) (ok : Bool) :
    stagesOf (s.fetchPage st rest cp ok).pc <:+ st::rest := by
  rw [State.fetchPage]
  split_ifs
  · exact List.nil_suffix
  · cases st.fetch cp.cursor with
    | error e => exact List.nil_suffix
    | ok page => exact List.suffix_refl _

theorem stagesOf_savePage (cp : Checkpoint) (ok : Bool) :
    stagesOf (s.savePage st rest cp ok).pc <:+ st::rest := by
  rw [State.savePage]
  split_ifs
  · exact List.nil_suffix
  · exact List.suffix_refl _
  · exact List.suffix_refl _

theorem stagesOf_step (h : stagesOf s.pc <:+ r.stages) (ev : Event) :
    stagesOf (s.step r ev).pc <:+ r.stages := by
  cases ev with
  | run =>
      cases hpc : s.pc with
      | idle =>
          simp only [State.step,hpc,stagesOf_advance]
          exact List.suffix_refl _
      | _ =>
          simp only [State.step,hpc]
          rwa [hpc] at h
  | crash => exact List.nil_suffix
  | op ok =>
      cases hpc : s.pc with
      | idle =>
          simp only [State.step,hpc]
          exact List.nil_suffix
      | load st rest =>
          rw [hpc] at h
          simp only [State.step,hpc]
          exact (stagesOf_loadStage ok).trans h
      | fetch st rest cp =>
          rw [hpc] at h
          simp only [State.step,hpc]
          exact (stagesOf_fetchPage cp ok).trans h
      | save st rest cp =>
          rw [hpc] at h
          simp only [State.step,hpc]
          exact (stagesOf_savePage cp ok).trans h
      | complete st rest cp =>
          rw [hpc] at h
          simp only [State.step,hpc]
          split_ifs
          · exact List.nil_suffix
          · rw [stagesOf_advance]
            exact (List.suffix_cons st rest).trans h

theorem own_step {p : Progress α} (h : stagesOf p.sync.pc <:+ r.stages) (ev : Event) :
    (p.step r (ownServer r) ev).sync = p.sync.step r ev := by
  cases hpc : p.sync.pc with
  | fetch st rest cp =>
      rw [hpc] at h
      cases ev with
      | op ok =>
          have hpc' : {p.sync with pc := Pc.fetch st rest cp} = p.sync := by
            rw [← hpc]
          simp only [Progress.step,hpc,ownServer_eq h]
          rw [hpc']
      | _ => simp only [Progress.step,hpc]
  | idle => cases ev <;> simp only [Progress.step,hpc]
  | _ => cases ev <;> simp only [Progress.step,hpc]

/-- With the stages' own functions the runs are those of the runner. -/
theorem own_run (r : Runner α) (store : Store) (evs : List Event) :
    (run (Progress.step r (ownServer r)) evs (.begin store)).sync =
      run (State.step r) evs {store := store} := by
  have hrun : ∀ p : Progress α, stagesOf p.sync.pc <:+ r.stages →
      (run (Progress.step r (ownServer r)) evs p).sync = run (State.step r) evs p.sync := by
    induction evs with
    | nil => exact fun p _ => rfl
    | cons ev evs ih =>
        intro p hp
        have hstep := own_step hp ev
        have hnext := stagesOf_step hp ev
        rw [← hstep] at hnext
        refine (ih _ hnext).trans ?_
        rw [hstep]
        rfl
  exact hrun (.begin store) List.nil_suffix

end

/-! ### A cursor that leads to itself -/

/-- Every page carries the same cursor. -/
def spinning : Server Unit := fun _ _ _ => .ok ⟨[],text "a"⟩

def spinningRunner : Runner Unit := {stages := [⟨text "contacts",spinning 0 0⟩]}

/-- Between two pages. -/
def Spins (p : Progress Unit) : Prop :=
  (∃ st rest cp, p.sync.pc = .fetch st rest cp) ∨
    ∃ st rest cp, p.sync.pc = .save st rest cp ∧ cp.cursor ≠ []

theorem Spins.step {r : Runner Unit} {p : Progress Unit} (h : Spins p) :
    Spins (p.step r spinning (.op true)) := by
  rcases h with ⟨st,rest,cp,hp⟩ | ⟨st,rest,cp,hp,hmore⟩
  · right
    simp only [Progress.step,State.step,hp,State.fetchPage,spinning,Bool.not_true,
      Bool.false_eq_true,if_false]
    have hcursor : text "a" ≠ [] := by decide
    exact ⟨_,_,_,rfl,hcursor⟩
  · left
    simp only [Progress.step,State.step,hp,State.savePage,Bool.not_true,Bool.false_eq_true,if_false,
      if_neg hmore]
    exact ⟨_,_,_,rfl⟩

theorem Spins.run {r : Runner Unit} (n : ℕ) {p : Progress Unit} (h : Spins p) :
    Spins (run (Progress.step r spinning) (List.replicate n (.op true)) p) := by
  induction n generalizing p with
  | zero => exact h
  | succ n ih => exact ih h.step

theorem Spins.pc_ne_idle {p : Progress Unit} (h : Spins p) : p.sync.pc ≠ .idle := by
  intro hidle
  rcases h with ⟨st,rest,cp,hp⟩ | ⟨st,rest,cp,hp,-⟩
  · cases hp.symm.trans hidle
  · cases hp.symm.trans hidle

/-- The third call repeats the second, and no number of successful operations ends the run. -/
theorem spinning_asks_twice : ∃ (r : Runner Unit) (srv : Server Unit) (store : Store),
    (∃ evs, ¬NeverTwice (run (Progress.step r srv) evs (.begin store))) ∧
    ∀ n, (run (Progress.step r srv) (.run::.op true::List.replicate n (.op true))
      (.begin store)).sync.pc ≠ .idle := by
  refine ⟨spinningRunner,spinning,fun _ => none,⟨.run::List.replicate 6 (.op true),fun h => ?_⟩,
    fun n => ?_⟩
  · have hcalls := h 0
    revert hcalls
    decide
  · exact (Spins.run n (.inl ⟨_,_,_,rfl⟩)).pc_ne_idle

end BaturWhatsApi.SyncProgress
