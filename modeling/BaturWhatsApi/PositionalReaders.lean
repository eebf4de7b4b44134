import Mathlib

/-!
# Readers over a retained input and a position

A reader receives the whole input and a position, and returns a value with the
next position or an error. The input is never consumed, so a body may move its
position back. Nothing below fixes the alphabet, the errors or the values.

Three relations describe a reader from outside. `Reads r c a` says that the
block `c`, placed anywhere in any input, is read as `a` and nothing after it is
inspected. `Rejects r c` says that the same block is refused wherever it stands.
`Consumes r c a` adds to `Reads` that no proper prefix of the block is enough.
A reader is `Local` when every success is an instance of `Consumes`, and
`Spends r f` bounds the weight of a value by the length of its block.

Bounded recursion is expressed by a distinguished error. `Extends out r s` says
that `s` agrees with `r` wherever `r` does not end with that error, and
`Sufficient out n r` that `r` never ends with it on fewer than `n` symbols. An
increasing family of such readers has a limit which no longer knows the bound.
-/
namespace BaturWhatsApi.PositionalReaders

def Reader (σ ε α : Type) := List σ → ℕ → Except ε (α × ℕ)

namespace Reader
variable {σ ε α β : Type}

instance : Monad (Reader σ ε) where
  pure a := fun _ i => .ok (a,i)
  bind r f := fun d i =>
    match r d i with
    | .error e => .error e
    | .ok (a,j) => f a d j

def fail (e : ε) : Reader σ ε α := fun _ _ => .error e

/-- A failure whose error names the current position. -/
def failAt (e : ℕ → ε) : Reader σ ε α := fun _ i => .error (e i)

/-- The body runs one symbol before the current position. -/
def stepBack (r : Reader σ ε α) : Reader σ ε α := fun d i => r d (i-1)

/-- A counted loop which keeps every result in order. -/
def times : ℕ → Reader σ ε α → Reader σ ε (List α)
  | 0,_ => pure []
  | n+1,r => do
      let a ← r
      let as ← times n r
      pure (a::as)

@[simp] theorem pure_apply (a : α) (d : List σ) (i : ℕ) :
    (pure a : Reader σ ε α) d i = .ok (a,i) := rfl

@[simp] theorem fail_apply (e : ε) (d : List σ) (i : ℕ) :
    (fail e : Reader σ ε α) d i = .error e := rfl

@[simp] theorem stepBack_apply (r : Reader σ ε α) (d : List σ) (i : ℕ) :
    stepBack r d i = r d (i-1) := rfl

theorem bind_ok {r : Reader σ ε α} {f : α → Reader σ ε β} {d : List σ} {i j : ℕ} {a : α}
    (h : r d i = .ok (a,j)) : (r >>= f) d i = f a d j := by
  show (match r d i with | .error e => Except.error e | .ok (a,j) => f a d j) = _
  rw [h]

theorem bind_error {r : Reader σ ε α} {f : α → Reader σ ε β} {d : List σ} {i : ℕ} {e : ε}
    (h : r d i = .error e) : (r >>= f) d i = .error e := by
  show (match r d i with | .error e => Except.error e | .ok (a,j) => f a d j) = _
  rw [h]

/-- A successful sequence consists of two successful readers. -/
theorem bind_eq_ok {r : Reader σ ε α} {f : α → Reader σ ε β} {d : List σ} {i k : ℕ} {b : β}
    (h : (r >>= f) d i = .ok (b,k)) :
    ∃ a j, r d i = .ok (a,j) ∧ f a d j = .ok (b,k) := by
  cases hr : r d i with
  | error e => rw [bind_error hr] at h; cases h
  | ok p => exact ⟨p.1,p.2,rfl,by rwa [bind_ok (a := p.1) (j := p.2) hr] at h⟩

/-- The block is read completely, wherever it stands in the input. -/
def Reads (r : Reader σ ε α) (c : List σ) (a : α) : Prop :=
  ∀ pre post, r (pre++c++post) pre.length = .ok (a,pre.length+c.length)

/-- The block is refused, wherever it stands in the input. -/
def Rejects (r : Reader σ ε α) (c : List σ) : Prop :=
  ∀ pre post, ∃ e, r (pre++c++post) pre.length = .error e

theorem Reads.pure (a : α) : Reads (pure a : Reader σ ε α) [] a := by
  intro pre post
  simp

theorem Reads.bind {r : Reader σ ε α} {f : α → Reader σ ε β} {u v : List σ} {a : α} {b : β}
    (h₁ : Reads r u a) (h₂ : Reads (f a) v b) : Reads (r >>= f) (u++v) b := by
  intro pre post
  have hr := h₁ pre (v++post)
  have hf := h₂ (pre++u) post
  simp only [List.append_assoc,List.length_append] at hr hf ⊢
  rw [bind_ok hr,hf,Nat.add_assoc]

theorem Reads.bind_nil {r : Reader σ ε α} {f : α → Reader σ ε β} {c : List σ} {a : α} {b : β}
    (h₁ : Reads r c a) (h₂ : Reads (f a) [] b) : Reads (r >>= f) c b := by
  simpa only [List.append_nil] using h₁.bind h₂

theorem Reads.rejects {r : Reader σ ε α} {f : α → Reader σ ε β} {u v : List σ} {a : α}
    (h₁ : Reads r u a) (h₂ : Rejects (f a) v) : Rejects (r >>= f) (u++v) := by
  intro pre post
  have hr := h₁ pre (v++post)
  obtain ⟨e,he⟩ := h₂ (pre++u) post
  simp only [List.append_assoc,List.length_append] at hr he ⊢
  exact ⟨e,by rw [bind_ok hr,he]⟩

theorem Rejects.bind {r : Reader σ ε α} {f : α → Reader σ ε β} {u v : List σ}
    (h : Rejects r u) : Rejects (r >>= f) (u++v) := by
  intro pre post
  obtain ⟨e,he⟩ := h pre (v++post)
  simp only [List.append_assoc] at he ⊢
  exact ⟨e,bind_error he⟩

theorem Reads.rejects_nil {r : Reader σ ε α} {f : α → Reader σ ε β} {c : List σ} {a : α}
    (h₁ : Reads r c a) (h₂ : Rejects (f a) []) : Rejects (r >>= f) c := by
  simpa only [List.append_nil] using h₁.rejects h₂

theorem Rejects.bind_nil {r : Reader σ ε α} {f : α → Reader σ ε β} {c : List σ}
    (h : Rejects r c) : Rejects (r >>= f) c := by
  simpa only [List.append_nil] using h.bind (v := [])

theorem Rejects.fail (e : ε) : Rejects (fail e : Reader σ ε α) [] :=
  fun _ _ => ⟨e,rfl⟩

theorem Rejects.failAt (e : ℕ → ε) : Rejects (failAt e : Reader σ ε α) [] :=
  fun _ _ => ⟨_,rfl⟩

theorem reads_times {r : Reader σ ε α} {cs : List (List σ)} {as : List α}
    (h : List.Forall₂ (Reads r) cs as) : Reads (times as.length r) cs.flatten as := by
  induction h with
  | nil => exact Reads.pure []
  | cons hc _ ih =>
      simp only [List.length_cons,List.flatten_cons,times]
      exact hc.bind (ih.bind_nil (Reads.pure _))

/-- The block is read as the value, or refused when there is none. -/
def Yields (r : Reader σ ε α) (c : List σ) : Option α → Prop
  | some a => Reads r c a
  | none => Rejects r c

/-- What is read from the block alone. -/
theorem Yields.ok_iff {r : Reader σ ε α} {c : List σ} {o : Option α} (h : Yields r c o) {a : α} :
    r c 0 = .ok (a,c.length) ↔ o = some a := by
  cases o with
  | none =>
      obtain ⟨e,he⟩ := h [] []
      rw [List.nil_append,List.append_nil,List.length_nil] at he
      simp [he]
  | some b =>
      have hb := h [] []
      rw [List.nil_append,List.append_nil,List.length_nil,Nat.zero_add] at hb
      simp [hb]

theorem Yields.bind {r : Reader σ ε α} {f : α → Reader σ ε β} {u v : List σ} {o : Option α}
    {g : α → Option β} (h₁ : Yields r u o) (h₂ : ∀ a, o = some a → Yields (f a) v (g a)) :
    Yields (r >>= f) (u++v) (o.bind g) := by
  cases o with
  | none => exact Rejects.bind h₁
  | some a =>
      have hf := h₂ a rfl
      rw [Option.bind_some]
      cases hg : g a with
      | none =>
          rw [hg] at hf
          exact Reads.rejects h₁ hf
      | some b =>
          rw [hg] at hf
          exact Reads.bind h₁ hf

theorem Yields.map {r : Reader σ ε α} {c : List σ} {o : Option α} (f : α → β)
    (h : Yields r c o) : Yields (r >>= fun a => Pure.pure (f a)) c (o.map f) := by
  cases o with
  | none => exact Rejects.bind_nil h
  | some a => exact Reads.bind_nil h (Reads.pure (f a))

theorem Reads.yields {r : Reader σ ε α} {f : α → Reader σ ε β} {u v : List σ} {a : α}
    {o : Option β} (h₁ : Reads r u a) (h₂ : Yields (f a) v o) :
    Yields (r >>= f) (u++v) o :=
  Yields.bind (o := some a) (g := fun _ => o) h₁ fun _ ha => Option.some.inj ha ▸ h₂

/-- A first symbol is read and the body starts again in front of it. -/
theorem Reads.yields_stepBack {r : Reader σ ε α} {s : Reader σ ε β} {f : α → Reader σ ε β}
    {x : σ} {c : List σ} {a : α} {o : Option β} (h₁ : Reads r [x] a) (hf : f a = stepBack s)
    (h₂ : Yields s (x::c) o) : Yields (r >>= f) (x::c) o := by
  have hstep : ∀ pre post,
      (r >>= f) (pre++x::c++post) pre.length = s (pre++x::c++post) pre.length := by
    intro pre post
    have hr := h₁ pre (c++post)
    simp only [List.append_assoc,List.singleton_append,List.length_singleton] at hr
    simp only [List.append_assoc,List.cons_append]
    rw [bind_ok hr,hf,stepBack_apply,Nat.add_sub_cancel]
  cases o with
  | none => exact fun pre post => by rw [hstep]; exact h₂ pre post
  | some b => exact fun pre post => by rw [hstep]; exact h₂ pre post

/-- No proper prefix of the block suffices, whatever precedes it. -/
structure Consumes (r : Reader σ ε α) (c : List σ) (a : α) : Prop where
  reads : Reads r c a
  cut : ∀ pre c', c' <+: c → c' ≠ c → ∃ e, r (pre++c') pre.length = .error e

/-- The block between two positions. -/
def window (d : List σ) (i j : ℕ) : List σ := (d.drop i).take (j-i)

theorem window_append (d : List σ) {i j k : ℕ} (hij : i ≤ j) (hjk : j ≤ k) :
    window d i j++window d j k = window d i k := by
  have h : k-i = (j-i)+(k-j) := by omega
  have hd : d.drop j = (d.drop i).drop (j-i) := by
    rw [List.drop_drop]
    congr 1
    omega
  rw [window,window,window,h,List.take_add,hd]

@[simp] theorem window_self (d : List σ) (i : ℕ) : window d i i = [] := by
  simp [window]

theorem window_length {d : List σ} {i j : ℕ} (h : j ≤ d.length) :
    (window d i j).length = j-i := by
  simp only [window,List.length_take,List.length_drop]
  omega

theorem window_one {d : List σ} {k : ℕ} (h : k < d.length) (a : σ) :
    window d k (k+1) = [d.getD k a] := by
  rw [window,Nat.add_sub_cancel_left,List.drop_eq_getElem_cons h,List.take_succ_cons,List.take_zero,
    List.getD_eq_getElem _ _ h]

theorem window_succ {d : List σ} {i k : ℕ} (hik : i ≤ k) (h : k < d.length) (a : σ) :
    window d i (k+1) = window d i k++[d.getD k a] := by
  rw [← window_append d hik (Nat.le_succ k),Nat.succ_eq_add_one,window_one h a]

theorem window_split (d : List σ) {i j : ℕ} (hij : i ≤ j) :
    d = d.take i++window d i j++d.drop j := by
  have hd : d.drop j = (d.drop i).drop (j-i) := by
    rw [List.drop_drop]
    congr 1
    omega
  rw [window,hd,List.append_assoc,List.take_append_drop,List.take_append_drop]

theorem window_congr {d d' : List σ} {i j : ℕ} (h : ∀ k, i ≤ k → k < j → d'[k]? = d[k]?) :
    window d' i j = window d i j := by
  refine List.ext_getElem? fun k => ?_
  simp only [window,List.getElem?_take,List.getElem?_drop]
  split_ifs with hk
  · exact h (i+k) (by omega) (by omega)
  · rfl

theorem take_window (d : List σ) {i k : ℕ} (hik : i ≤ k) : d.take i++window d i k = d.take k := by
  rw [window,← List.take_add,Nat.add_sub_cancel' hik]

/-- Every success moves forward inside the input and depends only on the block
between its two positions. -/
structure Success (r : Reader σ ε α) (d : List σ) (i : ℕ) (a : α) (j : ℕ) : Prop where
  forward : i ≤ j
  inside : i < j → j ≤ d.length
  consumes : Consumes r (window d i j) a

def Local (r : Reader σ ε α) : Prop :=
  ∀ d i a j, r d i = .ok (a,j) → Success r d i a j

/-- The same block at the same place of another input is read in the same way. -/
theorem Success.transfer {r : Reader σ ε α} {d d' : List σ} {i j : ℕ} {a : α}
    (h : Success r d i a j) (hij : i < j) (hd : ∀ k, i ≤ k → k < j → d'[k]? = d[k]?) :
    r d' i = .ok (a,j) := by
  have hi : i < d'.length := by
    have hlt := h.inside hij
    by_contra hge
    have hk := hd i le_rfl hij
    rw [List.getElem?_eq_none (by omega),List.getElem?_eq_getElem (by omega)] at hk
    cases hk
  have hr := h.consumes.reads (d'.take i) (d'.drop j)
  rw [← window_congr hd,← window_split d' hij.le,window_congr hd,
    window_length (h.inside hij),List.length_take_of_le hi.le] at hr
  rw [hr,Nat.add_sub_cancel' hij.le]

theorem Success.take_error {r : Reader σ ε α} {d : List σ} {i j k : ℕ} {a : α}
    (h : Success r d i a j) (hik : i ≤ k) (hkj : k < j) : ∃ e, r (d.take k) i = .error e := by
  have hj := h.inside (by omega)
  have hw := window_append d hik hkj.le
  have hne : window d i k ≠ window d i j := fun he => by
    have hl := congrArg List.length he
    rw [window_length (by omega),window_length hj] at hl
    omega
  obtain ⟨e,he⟩ := h.consumes.cut (d.take i) _ ⟨_,hw⟩ hne
  rw [take_window d hik,List.length_take_of_le (by omega)] at he
  exact ⟨e,he⟩

theorem Consumes.pure (a : α) : Consumes (pure a : Reader σ ε α) [] a :=
  ⟨Reads.pure a,fun _ _ hp hne => (hne (List.prefix_nil.mp hp)).elim⟩

theorem Consumes.bind {r : Reader σ ε α} {f : α → Reader σ ε β} {u v : List σ} {a : α} {b : β}
    (h₁ : Consumes r u a) (h₂ : Consumes (f a) v b) : Consumes (r >>= f) (u++v) b := by
  refine ⟨h₁.reads.bind h₂.reads,?_⟩
  intro pre c' hp hne
  by_cases hc : u <+: c'
  · obtain ⟨t,rfl⟩ := hc
    have ht : t <+: v := (List.prefix_append_right_inj u).mp hp
    obtain ⟨e,he⟩ := h₂.cut (pre++u) t ht (fun h => hne (by rw [h]))
    have hr := h₁.reads pre t
    simp only [List.append_assoc,List.length_append] at hr he ⊢
    exact ⟨e,by rw [bind_ok hr,he]⟩
  · have hp₁ : c' <+: u :=
      (List.prefix_or_prefix_of_prefix hp (List.prefix_append u v)).resolve_right hc
    obtain ⟨e,he⟩ := h₁.cut pre c' hp₁ (fun h => hc (by rw [h]))
    exact ⟨e,bind_error he⟩

theorem Local.pure (a : α) : Local (pure a : Reader σ ε α) := by
  intro d i b j h
  cases h
  exact ⟨le_rfl,fun h => (lt_irrefl _ h).elim,by simpa using Consumes.pure a⟩

theorem Local.fail (e : ε) : Local (fail e : Reader σ ε α) := by
  intro d i a j h
  cases h

theorem Local.failAt (e : ℕ → ε) : Local (failAt e : Reader σ ε α) := by
  intro d i a j h
  cases h

theorem Success.bind {r : Reader σ ε α} {f : α → Reader σ ε β} {d : List σ} {i j k : ℕ}
    {a : α} {b : β} (h₁ : Success r d i a j) (h₂ : Success (f a) d j b k) :
    Success (r >>= f) d i b k := by
  refine ⟨h₁.forward.trans h₂.forward,fun _ => ?_,?_⟩
  · rcases h₂.forward.eq_or_lt with h | h
    · subst h
      exact h₁.inside (by omega)
    · exact h₂.inside h
  · rw [← window_append d h₁.forward h₂.forward]
    exact h₁.consumes.bind h₂.consumes

theorem Local.bind {r : Reader σ ε α} {f : α → Reader σ ε β}
    (h₁ : Local r) (h₂ : ∀ a, Local (f a)) : Local (r >>= f) := by
  intro d i b k h
  obtain ⟨a,j,hr,hf⟩ := bind_eq_ok h
  exact (h₁ d i a j hr).bind (h₂ a d j b k hf)

theorem Local.times {r : Reader σ ε α} (h : Local r) (n : ℕ) : Local (times n r) := by
  induction n with
  | zero => exact Local.pure []
  | succ n ih => exact h.bind fun a => ih.bind fun as => Local.pure (a::as)

/-- A block of known length, or the supplied error for an input that ends early. -/
def block (err : List σ → ℕ → ε) (n : ℕ) : Reader σ ε (List σ) := fun d i =>
  if i+n ≤ d.length then .ok (window d i (i+n),i+n) else .error (err d i)

theorem block_reads (err : List σ → ℕ → ε) {n : ℕ} (c : List σ) (h : c.length = n) :
    Reads (block err n) c c := by
  subst h
  intro pre post
  have hw : window (pre++c++post) pre.length (pre.length+c.length) = c := by
    simp [window]
  rw [block,if_pos (by simp),hw]

theorem block_local (err : List σ → ℕ → ε) (n : ℕ) : Local (block err n) := by
  intro d i c j h
  unfold block at h
  split at h
  · rename_i hn
    cases h
    have hl : (window d i (i+n)).length = n := by rw [window_length hn]; omega
    refine ⟨by omega,fun _ => hn,block_reads err _ hl,?_⟩
    intro pre c' hp hne
    have hlt : c'.length < n := by
      have := hp.length_le
      have := mt hp.eq_of_length hne
      omega
    exact ⟨_,if_neg (by simp only [List.length_append]; omega)⟩
  · cases h

/-- After a first symbol the body may restart in front of it. -/
theorem Consumes.stepBack {r : Reader σ ε α} {s : Reader σ ε β} {f : α → Reader σ ε β}
    {x : σ} {c : List σ} {a : α} {b : β} (h₁ : Consumes r [x] a) (hf : f a = stepBack s)
    (h₂ : Consumes s (x::c) b) : Consumes (r >>= f) (x::c) b := by
  have hstep : ∀ pre t, (r >>= f) (pre++x::t) pre.length = s (pre++x::t) pre.length := by
    intro pre t
    have hr := h₁.reads pre t
    simp only [List.append_assoc,List.singleton_append,List.length_singleton] at hr
    rw [bind_ok hr,hf,stepBack_apply,Nat.add_sub_cancel]
  refine ⟨fun pre post => ?_,fun pre c' hp hne => ?_⟩
  · have hs := h₂.reads pre post
    simp only [List.append_assoc,List.cons_append] at hs ⊢
    rw [hstep,hs]
  · cases c' with
    | nil =>
        obtain ⟨e,he⟩ := h₁.cut pre [] List.nil_prefix (by simp)
        exact ⟨e,bind_error he⟩
    | cons y t =>
        obtain ⟨e,he⟩ := h₂.cut pre (y::t) hp hne
        obtain rfl : y = x := (List.cons_prefix_cons.mp hp).1
        exact ⟨e,by rw [hstep,he]⟩

/-- Every value the reader returns has the property. -/
def Ensures (r : Reader σ ε α) (P : α → Prop) : Prop := ∀ d i a j, r d i = .ok (a,j) → P a

namespace Ensures
variable {P : α → Prop} {Q : β → Prop}

theorem pure {a : α} (h : P a) : Ensures (pure a : Reader σ ε α) P := by
  intro d i b j hb
  cases hb
  exact h

theorem fail (e : ε) : Ensures (fail e : Reader σ ε α) P := by
  intro d i a j h
  cases h

theorem failAt (e : ℕ → ε) : Ensures (failAt e : Reader σ ε α) P := by
  intro d i a j h
  cases h

theorem bind {r : Reader σ ε α} {f : α → Reader σ ε β} (h₁ : Ensures r P)
    (h₂ : ∀ a, P a → Ensures (f a) Q) : Ensures (r >>= f) Q := by
  intro d i b k h
  obtain ⟨a,j,ha,hb⟩ := bind_eq_ok h
  exact h₂ a (h₁ d i a j ha) d j b k hb

/-- Nothing is known about the first value. -/
theorem after {r : Reader σ ε α} {f : α → Reader σ ε β} (h : ∀ a, Ensures (f a) Q) :
    Ensures (r >>= f) Q :=
  bind (P := fun _ => True) (fun _ _ _ _ _ => trivial) fun a _ => h a

theorem ite {p : Prop} [Decidable p] {r r' : Reader σ ε α} (h₁ : p → Ensures r P)
    (h₂ : ¬p → Ensures r' P) : Ensures (if p then r else r') P := by
  by_cases hp : p
  · simpa only [if_pos hp] using h₁ hp
  · simpa only [if_neg hp] using h₂ hp

theorem times {r : Reader σ ε α} (h : Ensures r P) (n : ℕ) :
    Ensures (times n r) (fun as => ∀ a ∈ as, P a) := by
  induction n with
  | zero => exact pure fun a ha => (nomatch ha)
  | succ n ih =>
      refine h.bind fun a ha => ih.bind fun as has => pure fun b hb => ?_
      rcases List.mem_cons.mp hb with rfl | hb
      · exact ha
      · exact has b hb

theorem stepBack {r : Reader σ ε α} (h : Ensures r P) : Ensures (stepBack r) P :=
  fun d i => h d (i-1)

theorem block (err : List σ → ℕ → ε) (n : ℕ) : Ensures (block err n) fun c => c.length = n := by
  intro d i c j h
  unfold Reader.block at h
  split at h
  · rename_i hn
    cases h
    rw [window_length hn]
    omega
  · cases h

end Ensures

/-- A success passes at least as many symbols as the value weighs. -/
def Spends (r : Reader σ ε α) (f : α → ℕ) : Prop := ∀ d i a j, r d i = .ok (a,j) → i+f a ≤ j

namespace Spends
variable {f : α → ℕ} {g : β → ℕ}

theorem weaken {f' : α → ℕ} {r : Reader σ ε α} (h : Spends r f) (hf : ∀ a, f' a ≤ f a) :
    Spends r f' := fun d i a j ha => (Nat.add_le_add_left (hf a) i).trans (h d i a j ha)

theorem pure {a : α} (h : f a = 0) : Spends (pure a : Reader σ ε α) f := by
  intro d i b j hb
  cases hb
  rw [h,Nat.add_zero]

theorem fail (e : ε) : Spends (fail e : Reader σ ε α) f := by
  intro d i a j h
  cases h

theorem failAt (e : ℕ → ε) : Spends (failAt e : Reader σ ε α) f := by
  intro d i a j h
  cases h

/-- The second reader owes what the first one has not passed. -/
theorem bind {r : Reader σ ε α} {k : α → Reader σ ε β} (h₁ : Spends r f)
    (h₂ : ∀ a, Spends (k a) fun b => g b-f a) : Spends (r >>= k) g := by
  intro d i b l h
  obtain ⟨a,j,ha,hb⟩ := bind_eq_ok h
  have hfirst := h₁ d i a j ha
  have hsecond : j+(g b-f a) ≤ l := h₂ a d j b l hb
  omega

theorem ite {p : Prop} [Decidable p] {r r' : Reader σ ε α} (h₁ : p → Spends r f)
    (h₂ : ¬p → Spends r' f) : Spends (if p then r else r') f := by
  by_cases hp : p
  · simpa only [if_pos hp] using h₁ hp
  · simpa only [if_neg hp] using h₂ hp

theorem times {r : Reader σ ε α} (h : Spends r f) (n : ℕ) :
    Spends (times n r) fun as => (as.map f).sum := by
  induction n with
  | zero => exact pure rfl
  | succ n ih =>
      refine h.bind fun a => Spends.bind ih fun as => pure ?_
      rw [List.map_cons,List.sum_cons]
      omega

/-- One symbol more makes up for the step back. -/
theorem stepBack {r : Reader σ ε α} (h : Spends r fun a => f a+1) : Spends (stepBack r) f := by
  intro d i a j ha
  have hback : i-1+(f a+1) ≤ j := h d (i-1) a j ha
  omega

theorem block (err : List σ → ℕ → ε) (n : ℕ) : Spends (block err n) fun _ => n := by
  intro d i c j h
  unfold Reader.block at h
  split at h
  · cases h
    exact le_rfl
  · cases h

end Spends

/-- Agreement except where the first reader ends with the distinguished error. -/
def Extends (out : ε) (r s : Reader σ ε α) : Prop :=
  ∀ d i, r d i = .error out ∨ r d i = s d i

theorem Extends.refl (out : ε) (r : Reader σ ε α) : Extends out r r :=
  fun _ _ => .inr rfl

theorem Extends.trans {out : ε} {r s t : Reader σ ε α}
    (h₁ : Extends out r s) (h₂ : Extends out s t) : Extends out r t := by
  intro d i
  rcases h₁ d i with h | h
  · exact .inl h
  · rw [h]
    exact h₂ d i

theorem Extends.ok {out : ε} {r s : Reader σ ε α} (h : Extends out r s) {d : List σ}
    {i j : ℕ} {a : α} (hr : r d i = .ok (a,j)) : s d i = .ok (a,j) := by
  rcases h d i with he | he
  · rw [hr] at he; cases he
  · rw [← he,hr]

theorem Extends.bind {out : ε} {r s : Reader σ ε α} {f g : α → Reader σ ε β}
    (h₁ : Extends out r s) (h₂ : ∀ a, Extends out (f a) (g a)) :
    Extends out (r >>= f) (s >>= g) := by
  intro d i
  cases hr : r d i with
  | error e =>
      rcases h₁ d i with h | h
      · exact .inl (bind_error h)
      · exact .inr (by rw [bind_error hr,bind_error (h.symm.trans hr)])
  | ok p =>
      have hs : s d i = .ok (p.1,p.2) := h₁.ok hr
      rw [bind_ok (a := p.1) (j := p.2) hr,bind_ok hs]
      exact h₂ p.1 d p.2

theorem Extends.stepBack {out : ε} {r s : Reader σ ε α} (h : Extends out r s) :
    Extends out (stepBack r) (stepBack s) := fun d i => h d (i-1)

theorem Extends.times {out : ε} {r s : Reader σ ε α} (h : Extends out r s) (n : ℕ) :
    Extends out (times n r) (times n s) := by
  induction n with
  | zero => exact .refl out _
  | succ n ih => exact h.bind fun a => ih.bind fun as => .refl out _

/-- The distinguished error is impossible on fewer than `n` remaining symbols. -/
def Sufficient (out : ε) (n : ℕ) (r : Reader σ ε α) : Prop :=
  ∀ d i, d.length-i < n → r d i ≠ .error out

theorem Sufficient.mono {out : ε} {n m : ℕ} {r : Reader σ ε α} (h : Sufficient out n r)
    (hm : m ≤ n) : Sufficient out m r := fun d i hi => h d i (by omega)

theorem Sufficient.pure (out : ε) (n : ℕ) (a : α) :
    Sufficient out n (pure a : Reader σ ε α) := by
  intro d i _ h
  cases h

theorem Sufficient.fail {out e : ε} (n : ℕ) (h : e ≠ out) :
    Sufficient out n (fail e : Reader σ ε α) := by
  intro d i _ hf
  exact h (Except.error.inj hf)

theorem Sufficient.failAt {out : ε} {e : ℕ → ε} (n : ℕ) (h : ∀ i, e i ≠ out) :
    Sufficient out n (failAt e : Reader σ ε α) := by
  intro d i _ hf
  exact h i (Except.error.inj hf)

theorem Sufficient.bind {out : ε} {n : ℕ} {r : Reader σ ε α} {f : α → Reader σ ε β}
    (h₁ : Sufficient out n r) (hl : Local r) (h₂ : ∀ a, Sufficient out n (f a)) :
    Sufficient out n (r >>= f) := by
  intro d i hi
  cases hr : r d i with
  | error e =>
      rw [bind_error hr]
      exact fun he => h₁ d i hi (by rw [hr,Except.error.inj he])
  | ok p =>
      rw [bind_ok (a := p.1) (j := p.2) hr]
      have hj := (hl d i p.1 p.2 hr).forward
      exact h₂ p.1 d p.2 (by omega)

theorem Sufficient.times {out : ε} {n : ℕ} {r : Reader σ ε α} (h : Sufficient out n r)
    (hl : Local r) (m : ℕ) : Sufficient out n (times m r) := by
  induction m with
  | zero => exact .pure out n []
  | succ m ih =>
      exact h.bind hl fun a => ih.bind (hl.times m) fun as => .pure out n (a::as)

theorem block_sufficient {out : ε} (err : List σ → ℕ → ε) (h : ∀ d i, err d i ≠ out)
    (n m : ℕ) : Sufficient out m (block err n) := by
  intro d i _ hb
  unfold block at hb
  split at hb
  · cases hb
  · exact h d i (Except.error.inj hb)

/-- A first symbol, then a body that may restart in front of it. -/
theorem Local.bind_stepBack {r : Reader σ ε α} {f : α → Reader σ ε β} (hr : Local r)
    (hone : ∀ d i a j, r d i = .ok (a,j) → j = i+1)
    (hf : ∀ a, Local (f a) ∨ ∃ s, f a = stepBack s ∧ Local s ∧
      ∀ d i b j, s d i = .ok (b,j) → i < j) : Local (r >>= f) := by
  intro d i b k h
  obtain ⟨a,j,ha,hb⟩ := bind_eq_ok h
  obtain rfl := hone d i a j ha
  rcases hf a with hl | ⟨s,hs,hl,hlt⟩
  · exact (hr d i a _ ha).bind (hl d _ b k hb)
  · rw [hs,stepBack_apply,Nat.add_sub_cancel] at hb
    have hik := hlt d i b k hb
    have hsuc := hl d i b k hb
    have hfirst := hr d i a _ ha
    obtain ⟨x,hx⟩ := List.length_eq_one_iff.mp
      ((window_length (hfirst.inside (Nat.lt_succ_self i))).trans (Nat.add_sub_cancel_left i 1))
    have hw := window_append d (Nat.le_succ i) hik
    have hc := hsuc.consumes
    have hone' := hfirst.consumes
    rw [← hw] at hc
    rw [Nat.succ_eq_add_one,hx] at hc
    rw [hx] at hone'
    refine ⟨hik.le,hsuc.inside,?_⟩
    rw [← hw,Nat.succ_eq_add_one,hx]
    exact hone'.stepBack hs hc

/-- A first symbol has been passed, but a body that restarts in front of it needs
the full bound. -/
theorem Sufficient.bind_stepBack {out : ε} {n : ℕ} {r : Reader σ ε α} {f : α → Reader σ ε β}
    (hr : Sufficient out (n+1) r)
    (hone : ∀ d i a j, r d i = .ok (a,j) → i < d.length ∧ j = i+1)
    (hf : ∀ a, Sufficient out n (f a) ∨ ∃ s, f a = stepBack s ∧ Sufficient out (n+1) s) :
    Sufficient out (n+1) (r >>= f) := by
  intro d i hi
  cases h : r d i with
  | error e =>
      rw [bind_error h]
      exact fun he => hr d i hi (by rw [h,Except.error.inj he])
  | ok p =>
      obtain ⟨hlt,hj⟩ := hone d i p.1 p.2 h
      rw [bind_ok (a := p.1) (j := p.2) h,hj]
      rcases hf p.1 with hs | ⟨s,hs,hn⟩
      · exact hs d (i+1) (by omega)
      · rw [hs,stepBack_apply,Nat.add_sub_cancel]
        exact hn d i hi

/-- The first reader is local, ends with the distinguished error only on `n` or
more symbols, and otherwise agrees with the second. -/
structure Approximates (out : ε) (n : ℕ) (r s : Reader σ ε α) : Prop where
  agrees : Extends out r s
  enough : Sufficient out n r
  isLocal : Local r

namespace Approximates
variable {out : ε} {n : ℕ}

theorem mono {m : ℕ} {r s : Reader σ ε α} (h : Approximates out n r s) (hm : m ≤ n) :
    Approximates out m r s := ⟨h.agrees,h.enough.mono hm,h.isLocal⟩

theorem pure (a : α) : Approximates out n (pure a : Reader σ ε α) (pure a) :=
  ⟨.refl out _,.pure out n a,.pure a⟩

theorem fail {e : ε} (h : e ≠ out) : Approximates out n (fail e : Reader σ ε α) (fail e) :=
  ⟨.refl out _,.fail n h,.fail e⟩

theorem failAt {e : ℕ → ε} (h : ∀ i, e i ≠ out) :
    Approximates out n (failAt e : Reader σ ε α) (failAt e) :=
  ⟨.refl out _,.failAt n h,.failAt e⟩

theorem block {err : List σ → ℕ → ε} (h : ∀ d i, err d i ≠ out) (m : ℕ) :
    Approximates out n (block err m) (block err m) :=
  ⟨.refl out _,block_sufficient err h m n,block_local err m⟩

theorem bind {r s : Reader σ ε α} {f g : α → Reader σ ε β} (h₁ : Approximates out n r s)
    (h₂ : ∀ a, Approximates out n (f a) (g a)) : Approximates out n (r >>= f) (s >>= g) :=
  ⟨h₁.agrees.bind fun a => (h₂ a).agrees,h₁.enough.bind h₁.isLocal fun a => (h₂ a).enough,
    h₁.isLocal.bind fun a => (h₂ a).isLocal⟩

theorem ite {p : Prop} [Decidable p] {r r' s s' : Reader σ ε α}
    (h₁ : p → Approximates out n r s) (h₂ : ¬p → Approximates out n r' s') :
    Approximates out n (if p then r else r') (if p then s else s') := by
  by_cases hp : p
  · simpa only [if_pos hp] using h₁ hp
  · simpa only [if_neg hp] using h₂ hp

theorem times {r s : Reader σ ε α} (h : Approximates out n r s) (m : ℕ) :
    Approximates out n (times m r) (times m s) :=
  ⟨h.agrees.times m,h.enough.times h.isLocal m,h.isLocal.times m⟩

/-- After a first symbol a body gains one unit, unless it restarts in front of it. -/
theorem bind_stepBack {r : Reader σ ε α} {f g : α → Reader σ ε β}
    (hr : Approximates out (n+1) r r)
    (hone : ∀ d i a j, r d i = .ok (a,j) → i < d.length ∧ j = i+1)
    (hf : ∀ a, Approximates out n (f a) (g a) ∨ ∃ s t, f a = stepBack s ∧ g a = stepBack t ∧
      Approximates out (n+1) s t ∧ ∀ d i b j, s d i = .ok (b,j) → i < j) :
    Approximates out (n+1) (r >>= f) (r >>= g) := by
  refine ⟨hr.agrees.bind fun a => ?_,hr.enough.bind_stepBack hone fun a => ?_,
    hr.isLocal.bind_stepBack (fun d i a j h => (hone d i a j h).2) fun a => ?_⟩
  · rcases hf a with h | ⟨s,t,hs,ht,h,-⟩
    · exact h.agrees
    · rw [hs,ht]
      exact h.agrees.stepBack
  · exact (hf a).imp (fun h => h.enough) fun ⟨s,_,hs,_,h,_⟩ => ⟨s,hs,h.enough⟩
  · exact (hf a).imp (fun h => h.isLocal) fun ⟨s,_,hs,_,h,hlt⟩ => ⟨s,hs,h.isLocal,hlt⟩

end Approximates

section Limit
variable {out : ε} {r : ℕ → Reader σ ε α}

/-- The bound is taken from the input. -/
def limit (r : ℕ → Reader σ ε α) : Reader σ ε α := fun d i => r (d.length+1) d i

theorem Spends.limit {f : α → ℕ} (h : ∀ n, Spends (r n) f) : Spends (limit r) f :=
  fun d i => h (d.length+1) d i

/-- Every member approximates the next one. -/
def Increasing (out : ε) (r : ℕ → Reader σ ε α) : Prop :=
  ∀ n, Approximates out n (r n) (r (n+1))

theorem Increasing.le (h : Increasing out r) {n m : ℕ} (hnm : n ≤ m) :
    Extends out (r n) (r m) := by
  induction hnm with
  | refl => exact .refl out _
  | step _ ih => exact ih.trans (h _).agrees

theorem Increasing.limit_eq (h : Increasing out r) {n : ℕ} {d : List σ} (i : ℕ)
    (hn : d.length < n) : r n d i = limit r d i := by
  rcases h.le hn d i with he | he
  · exact ((h (d.length+1)).enough d i (by omega) he).elim
  · exact he.symm

theorem Increasing.approximates_limit (h : Increasing out r) (n : ℕ) :
    Approximates out n (r n) (limit r) := by
  refine ⟨fun d i => ?_,(h n).enough,(h n).isLocal⟩
  rcases Nat.lt_or_ge d.length n with hn | hn
  · exact .inr (h.limit_eq i hn)
  · exact h.le (by omega) d i

theorem Increasing.limit_local (h : Increasing out r) : Local (limit r) := by
  intro d i a j hd
  have hs := fun n => (h n).isLocal d i a j
  refine ⟨(hs _ hd).forward,(hs _ hd).inside,fun pre post => ?_,fun pre c' hp hne => ?_⟩
  · exact (h.approximates_limit _).agrees.ok ((hs _ hd).consumes.reads pre post)
  · -- one bound covers both inputs
    have hbig : r (max d.length (pre++c').length+1) d i = .ok (a,j) :=
      (h.limit_eq i (by omega)).trans hd
    obtain ⟨e,he⟩ := (hs _ hbig).consumes.cut pre c' hp hne
    exact ⟨e,(h.limit_eq pre.length (by omega)).symm.trans he⟩

/-- The limit no longer ends with the distinguished error. -/
theorem Increasing.limit_self (h : Increasing out r) (n : ℕ) :
    Approximates out n (limit r) (limit r) :=
  ⟨.refl out _,fun d i _ => (h (d.length+1)).enough d i (by omega),h.limit_local⟩

/-- A body that turns each member into the next fixes the limit. -/
theorem Increasing.limit_fixed {s : Reader σ ε α} (h : Increasing out r)
    (hs : ∀ n, Extends out (r (n+1)) s) : limit r = s := by
  funext d i
  rcases hs d.length d i with he | he
  · exact ((h (d.length+1)).enough d i (by omega) he).elim
  · exact he

end Limit

/-! Readers that wait for more input. -/

section
variable {missing : ε → Bool}

/-- More input changes the result only where the error says that input is missing. -/
def Firm (missing : ε → Bool) (r : Reader σ ε α) : Prop :=
  ∀ d post i, (∃ e, r d i = .error e ∧ missing e = true) ∨ r (d++post) i = r d i

theorem Firm.pure (a : α) : Firm missing (pure a : Reader σ ε α) := fun _ _ _ => .inr rfl

theorem Firm.fail (e : ε) : Firm missing (fail e : Reader σ ε α) := fun _ _ _ => .inr rfl

theorem Firm.bind {r : Reader σ ε α} {f : α → Reader σ ε β} (h₁ : Firm missing r)
    (h₂ : ∀ a, Firm missing (f a)) : Firm missing (r >>= f) := by
  intro d post i
  rcases h₁ d post i with ⟨e,he,hmissing⟩ | hsame
  · exact .inl ⟨e,bind_error he,hmissing⟩
  · cases hr : r d i with
    | error e => exact .inr ((bind_error (hsame.trans hr)).trans (bind_error hr).symm)
    | ok p =>
        rw [bind_ok hr,bind_ok (hsame.trans hr)]
        exact h₂ p.1 d post p.2

theorem Firm.block {err : List σ → ℕ → ε} (h : ∀ d i, missing (err d i) = true) (n : ℕ) :
    Firm missing (block err n) := by
  intro d post i
  by_cases hn : i+n ≤ d.length
  · refine .inr ?_
    have hd : ∀ k, i ≤ k → k < i+n → (d++post)[k]? = d[k]? :=
      fun k _ hk => List.getElem?_append_left (by omega)
    rw [Reader.block,Reader.block,if_pos hn,if_pos (by rw [List.length_append]; omega),
      window_congr hd]
  · refine .inl ⟨err d i,?_,h d i⟩
    rw [Reader.block,if_neg hn]

/-- A proper part of a block leaves the reader waiting. -/
theorem Firm.waits {r : Reader σ ε α} (h : Firm missing r) {c : List σ} {a : α}
    (hreads : Reads r c a) {n : ℕ} {e : ε} (herror : r (c.take n) 0 = .error e) :
    missing e = true := by
  have hwhole := hreads [] []
  rw [List.nil_append,List.append_nil,List.length_nil] at hwhole
  rcases h (c.take n) (c.drop n) 0 with ⟨e',he',hmissing⟩ | hsame
  · rw [herror] at he'
    cases he'
    exact hmissing
  · rw [List.take_append_drop,hwhole,herror] at hsame
    cases hsame

end

end Reader
end BaturWhatsApi.PositionalReaders
