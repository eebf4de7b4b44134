import Mathlib.Data.List.Basic

/-!
# Runs of an event system

A system takes one event after another. A run is a list of events, a condition on
the single events can be asked of a whole run, and what every event preserves under
that condition is preserved by the run.
-/
namespace BaturWhatsApi.Runs

variable {σ ε : Type*}

def run (step : σ → ε → σ) (evs : List ε) (s : σ) : σ := evs.foldl step s

/-- The condition holds of every event in the state in which it happens. -/
def Along (step : σ → ε → σ) (P : σ → ε → Prop) : List ε → σ → Prop
  | [],_ => True
  | ev::evs,s => P s ev ∧ Along step P evs (step s ev)

variable {step : σ → ε → σ} {P Q : σ → ε → Prop} {I : σ → Prop}

theorem run_append (evs evs' : List ε) (s : σ) :
    run step (evs++evs') s = run step evs' (run step evs s) := List.foldl_append

theorem Along.and {evs : List ε} {s : σ} (hP : Along step P evs s) (hQ : Along step Q evs s) :
    Along step (fun s ev => P s ev ∧ Q s ev) evs s := by
  induction evs generalizing s with
  | nil => trivial
  | cons ev evs ih => exact ⟨⟨hP.1,hQ.1⟩,ih hP.2 hQ.2⟩

theorem Along.left {evs evs' : List ε} {s : σ} (h : Along step P (evs++evs') s) :
    Along step P evs s := by
  induction evs generalizing s with
  | nil => trivial
  | cons ev evs ih => exact ⟨h.1,ih h.2⟩

theorem Along.right {evs evs' : List ε} {s : σ} (h : Along step P (evs++evs') s) :
    Along step P evs' (run step evs s) := by
  induction evs generalizing s with
  | nil => exact h
  | cons ev evs ih => exact ih h.2

theorem Along.append {evs evs' : List ε} {s : σ} (h : Along step P evs s)
    (h' : Along step P evs' (run step evs s)) : Along step P (evs++evs') s := by
  induction evs generalizing s with
  | nil => exact h'
  | cons ev evs ih => exact ⟨h.1,ih h.2 h'⟩

theorem Along.mono (hPQ : ∀ s ev, P s ev → Q s ev) {evs : List ε} {s : σ}
    (h : Along step P evs s) : Along step Q evs s := by
  induction evs generalizing s with
  | nil => trivial
  | cons ev evs ih => exact ⟨hPQ s ev h.1,ih h.2⟩

theorem along_of_forall (h : ∀ s ev, P s ev) (evs : List ε) (s : σ) : Along step P evs s := by
  induction evs generalizing s with
  | nil => trivial
  | cons ev evs ih => exact ⟨h s ev,ih _⟩

theorem along_of_mem {Q : ε → Prop} {evs : List ε} (h : ∀ ev ∈ evs, Q ev) (s : σ) :
    Along step (fun _ ev => Q ev) evs s := by
  induction evs generalizing s with
  | nil => trivial
  | cons ev evs ih =>
      exact ⟨h ev List.mem_cons_self,ih (fun e he => h e (List.mem_cons_of_mem ev he)) _⟩

/-- The condition holds in every state that can be reached. -/
theorem along_of_run {s : σ} (h : ∀ pre ev, P (run step pre s) ev) (evs : List ε) :
    Along step P evs s := by
  induction evs generalizing s with
  | nil => trivial
  | cons ev evs ih => exact ⟨h [] ev,ih fun pre => h (ev::pre)⟩

/-- What every event of the run preserves. -/
theorem Along.invariant (hstep : ∀ s ev, I s → P s ev → I (step s ev)) {evs : List ε} {s : σ}
    (h : Along step P evs s) (hs : I s) : I (run step evs s) := by
  induction evs generalizing s with
  | nil => exact hs
  | cons ev evs ih => exact ih h.2 (hstep s ev hs h.1)

/-- The invariant also holds after every part of the run. -/
theorem Along.throughout (hstep : ∀ s ev, I s → P s ev → I (step s ev)) {evs : List ε} {s : σ}
    (h : Along step P evs s) (hs : I s) : ∀ pre, pre <+: evs → I (run step pre s) := by
  induction evs generalizing s with
  | nil =>
      intro pre hpre
      rw [List.prefix_nil.mp hpre]
      exact hs
  | cons ev evs ih =>
      intro pre hpre
      cases pre with
      | nil => exact hs
      | cons e pre =>
          obtain ⟨rfl,hshorter⟩ := List.cons_prefix_cons.mp hpre
          exact ih h.2 (hstep s e hs h.1) pre hshorter

theorem run_invariant (hstep : ∀ s ev, I s → I (step s ev)) (evs : List ε) {s : σ} (hs : I s) :
    I (run step evs s) :=
  (along_of_forall (fun _ _ => trivial) evs s : Along step (fun _ _ => True) evs s).invariant
    (fun s ev h _ => hstep s ev h) hs

/-- The condition is exact when it keeps the invariant and any other event shows at once. Only
the events of a given kind happen. -/
theorem along_iff_of {Q : ε → Prop} {R : σ → Prop}
    (hstep : ∀ s ev, Q ev → I s → P s ev → I (step s ev)) (hR : ∀ s, I s → R s)
    (hshow : ∀ s ev, Q ev → I s → R (step s ev) → P s ev) {evs : List ε}
    (hevs : ∀ ev ∈ evs, Q ev) {s : σ} (hs : I s) :
    (∀ pre, pre <+: evs → R (run step pre s)) ↔ Along step P evs s := by
  induction evs generalizing s with
  | nil =>
      refine ⟨fun _ => trivial,fun _ pre hpre => ?_⟩
      rw [List.prefix_nil.mp hpre]
      exact hR s hs
  | cons ev evs ih =>
      have hfirst := hevs ev List.mem_cons_self
      have ih := fun {s} => ih (s := s) fun ev hev => hevs ev (List.mem_cons_of_mem _ hev)
      constructor
      · intro h
        have hev := hshow s ev hfirst hs (h [ev] ⟨evs,rfl⟩)
        refine ⟨hev,(ih (hstep s ev hfirst hs hev)).mp fun pre hpre => ?_⟩
        exact h (ev::pre) (List.cons_prefix_cons.mpr ⟨rfl,hpre⟩)
      · rintro ⟨hev,hrest⟩ pre hpre
        cases pre with
        | nil => exact hR s hs
        | cons e pre =>
            obtain ⟨rfl,hshorter⟩ := List.cons_prefix_cons.mp hpre
            exact (ih (hstep s e hfirst hs hev)).mpr hrest pre hshorter

theorem along_iff {R : σ → Prop} (hstep : ∀ s ev, I s → P s ev → I (step s ev))
    (hR : ∀ s, I s → R s) (hshow : ∀ s ev, I s → R (step s ev) → P s ev) (evs : List ε) {s : σ}
    (hs : I s) : (∀ pre, pre <+: evs → R (run step pre s)) ↔ Along step P evs s :=
  along_iff_of (Q := fun _ => True) (fun s ev _ => hstep s ev) hR (fun s ev _ => hshow s ev)
    (fun _ _ => trivial) hs

def decidableAlong (step : σ → ε → σ) (P : σ → ε → Prop) [∀ s ev, Decidable (P s ev)] :
    ∀ (evs : List ε) (s : σ), Decidable (Along step P evs s)
  | [],_ => .isTrue trivial
  | ev::evs,s =>
      have := decidableAlong step P evs (step s ev)
      inferInstanceAs (Decidable (P s ev ∧ Along step P evs (step s ev)))

instance (step : σ → ε → σ) (P : σ → ε → Prop) [∀ s ev, Decidable (P s ev)] (evs : List ε)
    (s : σ) : Decidable (Along step P evs s) := decidableAlong step P evs s

/-! ### Rounds that come to rest -/

theorem run_fixed {evs : List ε} {s : σ} (h : ∀ ev ∈ evs, step s ev = s) :
    run step evs s = s := by
  induction evs with
  | nil => rfl
  | cons ev evs ih =>
      have hev : step s ev = s := h ev List.mem_cons_self
      calc run step (ev::evs) s
        _ = run step evs (step s ev) := rfl
        _ = run step evs s := by rw [hev]
        _ = s := ih fun e he => h e (List.mem_cons_of_mem ev he)

section
variable {E : ε → Prop} {M : ℕ → σ → Prop}

/-- Every event leaves the state as it is or makes the rest of the work smaller. -/
theorem round_cases (hstep : ∀ n s ev, E ev → M n s → step s ev = s ∨ ∃ m < n, M m (step s ev))
    {evs : List ε} (hevs : ∀ ev ∈ evs, E ev) {n : ℕ} {s : σ} (h : M n s) :
    (∀ ev ∈ evs, step s ev = s) ∨ ∃ m < n, M m (run step evs s) := by
  induction evs generalizing n s with
  | nil => exact .inl fun ev hev => absurd hev List.not_mem_nil
  | cons ev evs ih =>
      have hrest : ∀ e ∈ evs, E e := fun e he => hevs e (List.mem_cons_of_mem ev he)
      rcases hstep n s ev (hevs ev List.mem_cons_self) h with hsame | ⟨m,hm,hless⟩
      · rcases ih hrest h with hidle | ⟨m,hm,hless⟩
        · exact .inl (List.forall_mem_cons.mpr ⟨hsame,hidle⟩)
        · refine .inr ⟨m,hm,?_⟩
          rwa [show run step (ev::evs) s = run step evs (step s ev) from rfl,hsame]
      · right
        rcases ih hrest hless with hidle | ⟨m',hm',hless'⟩
        · refine ⟨m,hm,?_⟩
          rwa [show run step (ev::evs) s = run step evs (step s ev) from rfl,run_fixed hidle]
        · exact ⟨m',Nat.lt_trans hm' hm,hless'⟩

/-- When a round in which nothing happens means that no work is left, enough rounds do all of
it. -/
theorem rounds_settle {R : List ε → Prop}
    (hstep : ∀ n s ev, E ev → M n s → step s ev = s ∨ ∃ m < n, M m (step s ev))
    (hround : ∀ evs, R evs → ∀ ev ∈ evs, E ev)
    (hidle : ∀ n s evs, R evs → M n s → (∀ ev ∈ evs, step s ev = s) → n = 0)
    {rounds : List (List ε)} (hrounds : ∀ evs ∈ rounds, R evs) {n : ℕ} {s : σ} (h : M n s)
    (hn : n < rounds.length) : M 0 (run step rounds.flatten s) := by
  induction rounds generalizing n s with
  | nil => cases hn
  | cons evs rounds ih =>
      have hfirst := hrounds evs List.mem_cons_self
      have hrest : ∀ evs ∈ rounds, R evs := fun e he => hrounds e (List.mem_cons_of_mem evs he)
      rw [List.length_cons] at hn
      rw [List.flatten_cons,run_append]
      rcases round_cases hstep (hround evs hfirst) h with hsame | ⟨m,hm,hless⟩
      · -- no work is left, so that nothing happens any more
        obtain rfl := hidle n s evs hfirst h hsame
        have hlater : ∀ ev ∈ rounds.flatten, E ev := by
          intro ev hev
          obtain ⟨e,he,hev⟩ := List.mem_flatten.mp hev
          exact hround e (hrest e he) ev hev
        rw [run_fixed hsame]
        rcases round_cases hstep hlater h with hsame | ⟨m,hm,_⟩
        · rwa [run_fixed hsame]
        · cases hm
      · exact ih hrest hless (by omega)

end

end BaturWhatsApi.Runs
