import Mathlib

/-!
# Lists as numbered cells

A system that keeps its parts in a list changes one cell at a time and adds new cells at
the end. A property of every cell is kept if the changed cell has it. A sum over the cells
changes by what the cell counted before and counts now.
-/
namespace BaturWhatsApi.ListCells
variable {α : Type*}

/-- Every cell has the property of its number. -/
def Cells (P : ℕ → α → Prop) (l : List α) : Prop := ∀ i a, l[i]? = some a → P i a

variable {P Q : ℕ → α → Prop} {l : List α} {i : ℕ} {a b : α}

theorem getElem?_set_cases {j : ℕ} (h : (l.set i a)[j]? = some b) :
    (j = i ∧ b = a) ∨ (j ≠ i ∧ l[j]? = some b) := by
  rw [List.getElem?_set] at h
  split_ifs at h with hij hi
  · exact .inl ⟨hij.symm,(Option.some.inj h).symm⟩
  · exact .inr ⟨Ne.symm hij,h⟩

theorem getElem?_append_cases {j : ℕ} (h : (l++[a])[j]? = some b) :
    (j = l.length ∧ b = a) ∨ l[j]? = some b := by
  rw [List.getElem?_append] at h
  split_ifs at h with hj
  · exact .inr h
  · rw [List.getElem?_singleton] at h
    split_ifs at h
    exact .inl ⟨by omega,(Option.some.inj h).symm⟩

theorem getElem?_set_of_ne {j : ℕ} (h : j ≠ i) : (l.set i a)[j]? = l[j]? := by
  rw [List.getElem?_set_ne h.symm]

theorem getElem?_append_some {j : ℕ} (h : l[j]? = some b) : (l++[a])[j]? = some b := by
  rw [List.getElem?_append_left (List.getElem?_eq_some_iff.mp h).1]
  exact h

theorem concat_prefix {l l' : List α} {a : α} (h : l <+: l') (ha : l'[l.length]? = some a) :
    l++[a] <+: l' := by
  obtain ⟨more,rfl⟩ := h
  rw [List.getElem?_append_right le_rfl,Nat.sub_self] at ha
  cases more with
  | nil => cases ha
  | cons b more =>
      cases ha
      exact ⟨more,by simp⟩

theorem Cells.nil : Cells P [] := fun i a h => by simp at h

theorem Cells.set (h : Cells P l) (ha : P i a) : Cells P (l.set i a) := by
  intro j b hb
  rcases getElem?_set_cases hb with ⟨rfl,rfl⟩ | ⟨_,hb⟩
  · exact ha
  · exact h j b hb

theorem getElem?_modify_cases {f : α → α} {j : ℕ} (h : (l.modify i f)[j]? = some b) :
    ∃ c, l[j]? = some c ∧ (j = i ∧ b = f c ∨ j ≠ i ∧ b = c) := by
  rw [List.getElem?_modify] at h
  obtain ⟨c,hc,hb⟩ := Option.map_eq_some_iff.mp h
  refine ⟨c,hc,?_⟩
  split_ifs at hb with hij
  · exact .inl ⟨hij.symm,hb.symm⟩
  · exact .inr ⟨Ne.symm hij,hb.symm⟩

theorem modify_last (l : List α) (b : α) (f : α → α) :
    (l++[b]).modify l.length f = l++[f b] := by
  induction l with
  | nil => rfl
  | cons a l ih => exact congrArg (a::·) ih

theorem Cells.modify {f : α → α} (h : Cells P l) (hf : ∀ c, l[i]? = some c → P i (f c)) :
    Cells P (l.modify i f) := by
  intro j b hb
  obtain ⟨c,hc,⟨rfl,rfl⟩ | ⟨-,rfl⟩⟩ := getElem?_modify_cases hb
  · exact hf c hc
  · exact h j b hc

theorem Cells.append (h : Cells P l) (ha : P l.length a) : Cells P (l++[a]) := by
  intro j b hb
  rcases getElem?_append_cases hb with ⟨rfl,rfl⟩ | hb
  · exact ha
  · exact h j b hb

theorem Cells.mono (h : Cells P l) (hPQ : ∀ i a, P i a → Q i a) : Cells Q l :=
  fun i a hi => hPQ i a (h i a hi)

/-! Cells that change in what does not matter. -/

section
variable {R : α → α → Prop} {l' : List α}

theorem forall₂_refl (h : ∀ a, R a a) (l : List α) : List.Forall₂ R l l :=
  List.forall₂_same.mpr fun a _ => h a

theorem forall₂_map (f : α → α) (h : ∀ a, R a (f a)) (l : List α) :
    List.Forall₂ R l (l.map f) :=
  List.forall₂_map_right_iff.mpr (List.forall₂_same.mpr fun a _ => h a)

theorem forall₂_modify (f : α → α) (h : ∀ a, R a (f a)) (hrefl : ∀ a, R a a) (l : List α)
    (i : ℕ) : List.Forall₂ R l (l.modify i f) := by
  induction l generalizing i with
  | nil =>
      rw [List.modify_nil]
      exact .nil
  | cons a l ih =>
      cases i with
      | zero => exact .cons (h a) (forall₂_refl hrefl l)
      | succ i => exact .cons (hrefl a) (ih i)

theorem forall₂_set (h : l[i]? = some a) (hab : R a b) (hrefl : ∀ a, R a a) :
    List.Forall₂ R l (l.set i b) := by
  induction l generalizing i with
  | nil => cases h
  | cons x l ih =>
      cases i with
      | zero =>
          cases h
          exact .cons hab (forall₂_refl hrefl l)
      | succ i => exact .cons (hrefl x) (ih h)

theorem forall₂_getElem? (h : List.Forall₂ R l l') {i : ℕ} {b : α} (hb : l'[i]? = some b) :
    ∃ a, l[i]? = some a ∧ R a b := by
  induction h generalizing i with
  | nil => cases hb
  | cons hab _ ih =>
      cases i with
      | zero =>
          cases hb
          exact ⟨_,rfl,hab⟩
      | succ i => exact ih hb

theorem forall₂_getElem?_left (h : List.Forall₂ R l l') {i : ℕ} {a : α} (ha : l[i]? = some a) :
    ∃ b, l'[i]? = some b ∧ R a b := by
  induction h generalizing i with
  | nil => cases ha
  | cons hab _ ih =>
      cases i with
      | zero =>
          cases ha
          exact ⟨_,rfl,hab⟩
      | succ i => exact ih ha

theorem Cells.forall₂ (h : Cells P l) (hl : List.Forall₂ R l l')
    (hP : ∀ i a b, R a b → P i a → P i b) : Cells P l' := by
  intro i b hb
  obtain ⟨a,ha,hab⟩ := forall₂_getElem? hl hb
  exact hP i a b hab (h i a ha)

end

/-! Some cells hold a value. -/

section
variable {β : Type*} {f : α → Option β}

theorem filterMap_set_eq (h : l[i]? = some a) (hf : f b = f a) :
    (l.set i b).filterMap f = l.filterMap f := by
  induction l generalizing i with
  | nil => cases h
  | cons x l ih =>
      cases i with
      | zero =>
          cases h
          simp only [List.set_cons_zero,List.filterMap_cons,hf]
      | succ i => simp only [List.set_cons_succ,List.filterMap_cons,ih h]

/-- A cell that held nothing holds a value now. -/
theorem filterMap_set_perm (h : l[i]? = some a) (ha : f a = none) {x : β} (hb : f b = some x) :
    ((l.set i b).filterMap f).Perm (l.filterMap f++[x]) := by
  induction l generalizing i with
  | nil => cases h
  | cons y l ih =>
      cases i with
      | zero =>
          cases h
          simp only [List.set_cons_zero,List.filterMap_cons,ha,hb]
          exact (List.perm_append_singleton x _).symm
      | succ i =>
          have hrest := ih h
          simp only [List.set_cons_succ,List.filterMap_cons]
          cases f y with
          | none => exact hrest
          | some z => exact hrest.cons z

end

/-- The sum of what the cells count. -/
def tally (f : α → ℕ) (l : List α) : ℕ := (l.map f).sum

theorem tally_set (f : α → ℕ) (h : l[i]? = some a) :
    tally f (l.set i b)+f a = tally f l+f b := by
  induction l generalizing i with
  | nil => cases h
  | cons x l ih =>
      cases i with
      | zero =>
          cases h
          simp only [tally,List.set_cons_zero,List.map_cons,List.sum_cons]
          omega
      | succ i =>
          have := ih h
          simp only [tally,List.set_cons_succ,List.map_cons,List.sum_cons] at this ⊢
          omega

theorem tally_set_eq {f : α → ℕ} (h : l[i]? = some a) (hf : f b = f a) :
    tally f (l.set i b) = tally f l := by
  have := tally_set (b := b) f h
  omega

theorem tally_set_succ {f : α → ℕ} (h : l[i]? = some a) (hf : f b = f a+1) :
    tally f (l.set i b) = tally f l+1 := by
  have := tally_set (b := b) f h
  omega

theorem tally_set_pred {f : α → ℕ} (h : l[i]? = some a) (hf : f b+1 = f a) :
    tally f (l.set i b)+1 = tally f l := by
  have := tally_set (b := b) f h
  omega

theorem tally_append (f : α → ℕ) : tally f (l++[a]) = tally f l+f a := by
  simp [tally]

theorem tally_append_list (f : α → ℕ) (l l' : List α) : tally f (l++l') = tally f l+tally f l' := by
  simp only [tally,List.map_append,List.sum_append]

theorem tally_add (f g : α → ℕ) (l : List α) :
    tally (fun a => f a+g a) l = tally f l+tally g l := List.sum_map_add

theorem tally_le_tally {f g : α → ℕ} (h : ∀ a, f a ≤ g a) (l : List α) : tally f l ≤ tally g l :=
  List.sum_le_sum fun a _ => h a

theorem tally_forall₂ {R : α → α → Prop} {l' : List α} (h : List.Forall₂ R l l') (f : α → ℕ)
    (hf : ∀ a b, R a b → f b = f a) : tally f l' = tally f l := by
  induction h with
  | nil => rfl
  | cons hab _ ih =>
      simp only [tally] at ih
      simp only [tally,List.map_cons,List.sum_cons,ih,hf _ _ hab]

theorem tally_eq_zero {f : α → ℕ} (h : ∀ a ∈ l, f a = 0) : tally f l = 0 := by
  rw [tally,List.sum_eq_zero_iff]
  intro n hn
  obtain ⟨a,ha,rfl⟩ := List.mem_map.mp hn
  exact h a ha

end BaturWhatsApi.ListCells
