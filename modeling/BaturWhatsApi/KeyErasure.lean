import Mathlib.Data.Set.Image
import Mathlib.Data.List.Nodup

/-!
# Secrets that are derived and erased

A holder keeps secrets in slots. One action takes the secret of a slot, writes secrets derived
from it into slots, hands others out, and erases the secret itself. With a derivation that
determines its inputs, a secret that was erased or handed out is in no slot, and never comes
back: everything derived from a present secret is new.

The descendants of something new are new as well, which is what a holder gains by deriving from
an input that nobody else has.
-/
namespace BaturWhatsApi.KeyErasure

structure Derivation (κ δ : Type*) where
  derive : κ → δ → κ
  injective : ∀ {x y d e}, derive x d = derive y e → x = y ∧ d = e

variable {κ δ ι : Type*} (D : Derivation κ δ)

/-- The secrets of the slots and the ones that are gone; `base` has what was there before. -/
structure Erased (base gone : Set κ) (slots : ι → Option κ) : Prop where
  underived : ∀ x ∈ base, ∀ y d, x ≠ D.derive y d
  grounded : ∀ x ∈ gone, x ∈ base ∨ ∃ y ∈ gone, ∃ d, x = D.derive y d
  child : ∀ i x, slots i = some x → ∃ y ∈ gone, ∃ d, x = D.derive y d
  hidden : ∀ i x, slots i = some x → x ∉ gone
  barren : ∀ i x, slots i = some x → ∀ d, D.derive x d ∉ gone
  single : ∀ i j x, slots i = some x → slots j = some x → i = j

/-- The secrets that are in no slot any more. -/
def dropped (slots slots' : ι → Option κ) : Set κ :=
  {x | (∃ i, slots i = some x) ∧ ∀ j, slots' j ≠ some x}

/-- What lies behind a derivation. -/
inductive Descends (o : κ) : κ → Prop
  | self : Descends o o
  | derive {x : κ} (h : Descends o x) (d : δ) : Descends o (D.derive x d)

namespace Erased

variable {D} {base gone : Set κ} {slots slots' : ι → Option κ}

/-- The slots have secrets derived from one that was there before. -/
theorem start (hbase : ∀ x ∈ base, ∀ y d, x ≠ D.derive y d) {x : κ} (hx : x ∈ base)
    (writes : List (ι × δ))
    (hs : ∀ j y, slots j = some y → ∃ d, (j,d) ∈ writes ∧ y = D.derive x d)
    (hnodup : (writes.map Prod.snd).Nodup) : Erased D base base slots where
  underived := hbase
  grounded y hy := .inl hy
  child j y hj := by
    obtain ⟨d,_,rfl⟩ := hs j y hj
    exact ⟨x,hx,d,rfl⟩
  hidden j y hj hy := by
    obtain ⟨d,_,rfl⟩ := hs j y hj
    exact hbase _ hy x d rfl
  barren j y hj d hy := hbase _ hy y d rfl
  single i j y hi hj := by
    obtain ⟨d,hd,rfl⟩ := hs i y hi
    obtain ⟨e,he,hde⟩ := hs j _ hj
    exact congrArg Prod.fst (List.inj_on_of_nodup_map hnodup hd he (D.injective hde).2)

/-- A gone secret that is derived has a gone parent. -/
theorem parent_gone (h : Erased D base gone slots) {x : κ} {d : δ} (hx : D.derive x d ∈ gone) :
    x ∈ gone := by
  rcases h.grounded _ hx with hb | ⟨y,hy,e,he⟩
  · exact absurd rfl (h.underived _ hb x d)
  · exact (D.injective he).1 ▸ hy

/-- So has a present one. -/
theorem parent_of_slot (h : Erased D base gone slots) {i : ι} {x : κ} {d : δ}
    (hi : slots i = some (D.derive x d)) : x ∈ gone := by
  obtain ⟨y,hy,e,he⟩ := h.child i _ hi
  exact (D.injective he).1 ▸ hy

/-- Nothing is its own child. -/
theorem derive_ne (h : Erased D base gone slots) {i : ι} {x : κ} (hi : slots i = some x) (d : δ) :
    D.derive x d ≠ x := by
  intro he
  rw [← he] at hi
  exact h.hidden i _ hi (he.symm ▸ h.parent_of_slot hi)

/-- A child of a present secret is in no slot. -/
theorem derive_not_slot (h : Erased D base gone slots) {i : ι} {x : κ} (hi : slots i = some x)
    (j : ι) (d : δ) : slots j ≠ some (D.derive x d) :=
  fun hj => h.hidden i x hi (h.parent_of_slot hj)

/-- A present secret is no child of a present secret. -/
theorem slot_ne_derive (h : Erased D base gone slots) {i j : ι} {x y : κ} (hi : slots i = some x)
    (hj : slots j = some y) (d : δ) : y ≠ D.derive x d :=
  fun he => h.derive_not_slot hi j d (he ▸ hj)

/-- Slots are emptied. -/
theorem drop (h : Erased D base gone slots)
    (hs : ∀ j y, slots' j = some y → slots j = some y) :
    Erased D base (gone ∪ dropped slots slots') slots' where
  underived := h.underived
  grounded x hx := by
    rcases hx with hx | ⟨⟨i,hi⟩,_⟩
    · exact (h.grounded x hx).imp_right fun ⟨y,hy,he⟩ => ⟨y,.inl hy,he⟩
    · obtain ⟨y,hy,he⟩ := h.child i x hi
      exact .inr ⟨y,.inl hy,he⟩
  child i x hi := by
    obtain ⟨y,hy,he⟩ := h.child i x (hs i x hi)
    exact ⟨y,.inl hy,he⟩
  hidden i x hi hx := by
    rcases hx with hx | ⟨_,hx⟩
    · exact h.hidden i x (hs i x hi) hx
    · exact hx i hi
  barren i x hi d hx := by
    rcases hx with hx | ⟨⟨j,hj⟩,_⟩
    · exact h.barren i x (hs i x hi) d hx
    · exact h.derive_not_slot (hs i x hi) j d hj
  single i j x hi hj := h.single i j x (hs i x hi) (hs j x hj)

/-- A secret that is replaced by secrets derived from it is gone. -/
theorem parent_dropped (h : Erased D base gone slots) {p : ι} {x : κ} (hp : slots p = some x)
    {writes : List (ι × δ)}
    (hs : ∀ j y, slots' j = some y →
      (∃ d, (j,d) ∈ writes ∧ y = D.derive x d) ∨ (slots j = some y ∧ j ≠ p)) :
    x ∈ dropped slots slots' := by
  refine ⟨⟨p,hp⟩,fun j hj => ?_⟩
  rcases hs j x hj with ⟨d,_,hd⟩ | ⟨hj,hne⟩
  · exact h.derive_ne hp d hd.symm
  · exact hne (h.single j p x hj hp)

/-- The secret of slot `p` is replaced by secrets derived from it. The slots in `writes` get
one each, those with data in `used` are handed out. -/
theorem step (h : Erased D base gone slots) {p : ι} {x : κ} (hp : slots p = some x)
    {writes : List (ι × δ)} {used : Set δ}
    (hs : ∀ j y, slots' j = some y →
      (∃ d, (j,d) ∈ writes ∧ y = D.derive x d) ∨ (slots j = some y ∧ j ≠ p))
    (hnodup : (writes.map Prod.snd).Nodup) (hused : ∀ w ∈ writes, w.2 ∉ used) :
    Erased D base (gone ∪ dropped slots slots' ∪ D.derive x '' used) slots' where
  underived := h.underived
  grounded y hy := by
    rcases hy with (hy | ⟨⟨i,hi⟩,_⟩) | ⟨d,_,rfl⟩
    · exact (h.grounded y hy).imp_right fun ⟨z,hz,he⟩ => ⟨z,.inl (.inl hz),he⟩
    · obtain ⟨z,hz,he⟩ := h.child i y hi
      exact .inr ⟨z,.inl (.inl hz),he⟩
    · exact .inr ⟨x,.inl (.inr (h.parent_dropped hp hs)),d,rfl⟩
  child j y hj := by
    rcases hs j y hj with ⟨d,_,rfl⟩ | ⟨hj,_⟩
    · exact ⟨x,.inl (.inr (h.parent_dropped hp hs)),d,rfl⟩
    · obtain ⟨z,hz,he⟩ := h.child j y hj
      exact ⟨z,.inl (.inl hz),he⟩
  hidden j y hj hy := by
    rcases hy with (hy | ⟨_,hy⟩) | ⟨u,hu,rfl⟩
    · rcases hs j y hj with ⟨d,_,rfl⟩ | ⟨hj,_⟩
      · exact h.barren p x hp d hy
      · exact h.hidden j y hj hy
    · exact hy j hj
    · rcases hs j _ hj with ⟨d,hd,he⟩ | ⟨hj,_⟩
      · exact hused (j,d) hd ((D.injective he).2 ▸ hu)
      · exact h.derive_not_slot hp j u hj
  barren j y hj e hy := by
    rcases hs j y hj with ⟨d,_,rfl⟩ | ⟨hj,hne⟩
    · rcases hy with (hy | ⟨⟨i,hi⟩,_⟩) | ⟨u,_,hu⟩
      · exact h.barren p x hp d (h.parent_gone hy)
      · exact h.barren p x hp d (h.parent_of_slot hi)
      · exact h.derive_ne hp d (D.injective hu).1.symm
    · rcases hy with (hy | ⟨⟨i,hi⟩,_⟩) | ⟨u,_,hu⟩
      · exact h.barren j y hj e hy
      · exact h.derive_not_slot hj i e hi
      · exact hne (h.single j p x ((D.injective hu).1 ▸ hj) hp)
  single i j y hi hj := by
    rcases hs i y hi with ⟨d,hd,rfl⟩ | ⟨hi,_⟩ <;> rcases hs j _ hj with ⟨e,he,hde⟩ | ⟨hj,_⟩
    · exact congrArg Prod.fst (List.inj_on_of_nodup_map hnodup hd he (D.injective hde).2)
    · exact absurd hj (h.derive_not_slot hp j d)
    · exact absurd hde (h.slot_ne_derive hp hi e)
    · exact h.single i j y hi hj

/-- What descends from a child of a present secret has never been there. -/
theorem descends_new (h : Erased D base gone slots) {p : ι} {x y : κ} {d : δ}
    (hp : slots p = some x) (hy : Descends D (D.derive x d) y) :
    y ∉ gone ∧ ∀ j, slots j ≠ some y := by
  induction hy with
  | self => exact ⟨h.barren p x hp d,fun j => h.derive_not_slot hp j d⟩
  | derive _ e ih =>
      exact ⟨fun hg => ih.1 (h.parent_gone hg),fun j hj => ih.1 (h.parent_of_slot hj)⟩

end Erased

/-! ### Sequences of actions -/

/-- The secrets whose slots are emptied. -/
def emptied (slots slots' : ι → Option κ) : Set κ := {x | ∃ i, slots i = some x ∧ slots' i = none}

/-- Actions with the secrets they hand out. Only slots in `parents` are derived from. -/
inductive Moves (parents : Set ι) : Set κ → (ι → Option κ) → (ι → Option κ) → Prop
  | refl (slots : ι → Option κ) : Moves parents ∅ slots slots
  | drop {slots slots' : ι → Option κ} (hs : ∀ j y, slots' j = some y → slots j = some y) :
      Moves parents (emptied slots slots') slots slots'
  | step {slots slots' : ι → Option κ} {p : ι} {x : κ} (hparent : p ∈ parents)
      (hp : slots p = some x) {writes : List (ι × δ)} {used : Set δ}
      (hs : ∀ j y, slots' j = some y →
        (∃ d, (j,d) ∈ writes ∧ y = D.derive x d) ∨ (slots j = some y ∧ j ≠ p))
      (hnodup : (writes.map Prod.snd).Nodup) (hused : ∀ w ∈ writes, w.2 ∉ used) :
      Moves parents (D.derive x '' used) slots slots'
  | trans {keys keys' : Set κ} {slots slots' slots'' : ι → Option κ}
      (h : Moves parents keys slots slots') (h' : Moves parents keys' slots' slots'') :
      Moves parents (keys ∪ keys') slots slots''
  | mono {keys keys' : Set κ} {slots slots' : ι → Option κ} (h : Moves parents keys slots slots')
      (hsub : keys' ⊆ keys) : Moves parents keys' slots slots'

theorem mem_dropped_or_slot {slots slots' : ι → Option κ} {i : ι} {x : κ} (hi : slots i = some x) :
    x ∈ dropped slots slots' ∨ ∃ j, slots' j = some x := by
  by_cases h : ∃ j, slots' j = some x
  · exact .inr h
  · exact .inl ⟨⟨i,hi⟩,not_exists.mp h⟩

namespace Moves

variable {D} {parents : Set ι} {keys : Set κ} {slots slots' : ι → Option κ}

/-- What was handed out is gone, and what was there is there or gone. -/
theorem erased (h : Moves D parents keys slots slots') {base gone : Set κ}
    (hg : Erased D base gone slots) :
    ∃ gone', gone ⊆ gone' ∧ keys ⊆ gone' ∧
      (∀ i x, slots i = some x → x ∈ gone' ∨ ∃ j, slots' j = some x) ∧
      Erased D base gone' slots' := by
  induction h generalizing gone with
  | refl slots => exact ⟨gone,subset_rfl,Set.empty_subset _,fun i _ hi => .inr ⟨i,hi⟩,hg⟩
  | drop hs =>
      refine ⟨_,Set.subset_union_left,?_,fun i x hi => (mem_dropped_or_slot hi).imp_left .inr,
        hg.drop hs⟩
      rintro x ⟨i,hi,hn⟩
      refine .inr ⟨⟨i,hi⟩,fun j hj => ?_⟩
      rw [← hg.single i j x hi (hs j x hj),hn] at hj
      cases hj
  | step _ hp hs hnodup hused =>
      exact ⟨_,Set.subset_union_left.trans Set.subset_union_left,Set.subset_union_right,
        fun i x hi => (mem_dropped_or_slot hi).imp_left fun hd => .inl (.inr hd),
        hg.step hp hs hnodup hused⟩
  | trans _ _ ih ih' =>
      obtain ⟨g,hsub,hkeys,hkept,hg⟩ := ih hg
      obtain ⟨g',hsub',hkeys',hkept',hg'⟩ := ih' hg
      refine ⟨g',hsub.trans hsub',Set.union_subset (hkeys.trans hsub') hkeys',fun i x hi => ?_,hg'⟩
      rcases hkept i x hi with hx | ⟨j,hj⟩
      · exact .inl (hsub' hx)
      · exact hkept' j x hj
  | mono _ hsub ih =>
      obtain ⟨g,hs,hk,hkept,hg⟩ := ih hg
      exact ⟨g,hs,hsub.trans hk,hkept,hg⟩

/-- The parents hold secrets of a family that is closed under derivation, the other slots may
hold secrets of `rest` as well. -/
structure Within (parents : Set ι) (family rest : Set κ) (slots : ι → Option κ) : Prop where
  parent : ∀ i ∈ parents, ∀ x, slots i = some x → x ∈ family
  slot : ∀ i x, slots i = some x → x ∈ family ∪ rest

theorem within (h : Moves D parents keys slots slots') {family rest : Set κ}
    (hclosed : ∀ x ∈ family, ∀ d, D.derive x d ∈ family)
    (hw : Within parents family rest slots) :
    keys ⊆ family ∪ rest ∧ Within parents family rest slots' := by
  induction h with
  | refl _ => exact ⟨Set.empty_subset _,hw⟩
  | drop hs =>
      refine ⟨?_,fun i hi x hx => hw.parent i hi x (hs i x hx),
        fun i x hx => hw.slot i x (hs i x hx)⟩
      rintro x ⟨i,hi,_⟩
      exact hw.slot i x hi
  | step hparent hp hs _ _ =>
      have hx := hw.parent _ hparent _ hp
      refine ⟨?_,fun i hi y hy => ?_,fun i y hy => ?_⟩
      · rintro _ ⟨d,_,rfl⟩
        exact .inl (hclosed _ hx d)
      · rcases hs i y hy with ⟨d,_,rfl⟩ | ⟨hy,_⟩
        · exact hclosed _ hx d
        · exact hw.parent i hi y hy
      · rcases hs i y hy with ⟨d,_,rfl⟩ | ⟨hy,_⟩
        · exact .inl (hclosed _ hx d)
        · exact hw.slot i y hy
  | trans _ _ ih ih' =>
      obtain ⟨hkeys,hw⟩ := ih hw
      obtain ⟨hkeys',hw⟩ := ih' hw
      exact ⟨Set.union_subset hkeys hkeys',hw⟩
  | mono _ hsub ih => exact ⟨hsub.trans (ih hw).1,(ih hw).2⟩

end Moves

end BaturWhatsApi.KeyErasure
