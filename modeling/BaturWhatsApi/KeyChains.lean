import Mathlib.Data.List.Nodup
import Mathlib.Logic.Function.Iterate

/-!
# Keys drawn from hash chains

A chain key gives one message key and its successor. A consumer holds a current
chain key, may put message keys aside under an index, may use them later, and may
start a new chain. The invariant below says that no key it has used or put aside
can come up again, and each rule says what one action of a consumer preserves.
Chains are told apart by their origins, which are nobody's successors.
-/
namespace BaturWhatsApi.KeyChains

structure Chains (κ : Type*) where
  next : κ → κ
  key : κ → κ
  next_injective : Function.Injective next
  key_injective : Function.Injective key
  acyclic : ∀ c n, next^[n+1] c ≠ c

variable {κ ι : Type*} (C : Chains κ)

/-- A key of the chain from here on. -/
def Chains.Later (c k : κ) : Prop := ∃ n, k = C.key (C.next^[n] c)

def Chains.Origin (o : κ) : Prop := ∀ c, C.next c ≠ o

variable {C}

theorem later_of_next {c k : κ} (h : C.Later (C.next c) k) : C.Later c k := by
  obtain ⟨n,rfl⟩ := h
  exact ⟨n+1,rfl⟩

theorem not_later_next (c : κ) : ¬C.Later (C.next c) (C.key c) := by
  rintro ⟨n,h⟩
  exact C.acyclic c n (C.key_injective h).symm

theorem iterate_origin {o o' : κ} (ho : C.Origin o) (ho' : C.Origin o') {m n : ℕ}
    (h : C.next^[m] o = C.next^[n] o') : o = o' := by
  induction m generalizing n with
  | zero =>
      cases n with
      | zero => exact h
      | succ n =>
          rw [Function.iterate_succ_apply'] at h
          exact absurd h.symm (ho _)
  | succ m ih =>
      cases n with
      | zero =>
          rw [Function.iterate_succ_apply'] at h
          exact absurd h (ho' _)
      | succ n =>
          rw [Function.iterate_succ_apply',Function.iterate_succ_apply'] at h
          exact ih (C.next_injective h)

/-- A key belongs to one origin. -/
theorem origin_unique {o o' k : κ} (ho : C.Origin o) (ho' : C.Origin o') (h : C.Later o k)
    (h' : C.Later o' k) : o = o' := by
  obtain ⟨m,rfl⟩ := h
  obtain ⟨n,h'⟩ := h'
  exact iterate_origin ho ho' (C.key_injective h')

theorem update_eq_some {α β : Type*} [DecidableEq α] {f : α → Option β} {a a' : α} {x : Option β}
    {b : β} (h : Function.update f a x a' = some b) :
    (a' = a ∧ x = some b) ∨ (a' ≠ a ∧ f a' = some b) := by
  by_cases ha : a' = a
  · subst ha
    rw [Function.update_self] at h
    exact .inl ⟨rfl,h⟩
  · rw [Function.update_of_ne ha] at h
    exact .inr ⟨ha,h⟩

def Spent (used : List κ) (stored : ι → Option κ) (k : κ) : Prop :=
  k ∈ used ∨ ∃ i, stored i = some k

variable (C) in
/-- Nothing used or stored can be drawn again; `Old` are the origins so far. -/
structure Consumed (Old : κ → Prop) (used : List κ) (stored : ι → Option κ) (cur : Option κ) :
    Prop where
  nodup : used.Nodup
  disjoint : ∀ i k, stored i = some k → k ∉ used
  single : ∀ i j k, stored i = some k → stored j = some k → i = j
  ahead : ∀ c, cur = some c → ∀ k, Spent used stored k → ¬C.Later c k
  origins : ∀ o, Old o → C.Origin o
  traced : ∀ k, Spent used stored k → ∃ o, Old o ∧ C.Later o k
  current : ∀ c, cur = some c → ∃ o n, Old o ∧ c = C.next^[n] o

namespace Consumed

variable {Old Old' : κ → Prop} {used : List κ} {stored : ι → Option κ} {cur : Option κ}

theorem weaken (h : Consumed C Old used stored cur) (hsub : ∀ o, Old o → Old' o)
    (horigins : ∀ o, Old' o → C.Origin o) : Consumed C Old' used stored cur :=
  {h with
    origins := horigins
    traced := fun k hk => (h.traced k hk).imp fun _ ho => ⟨hsub _ ho.1,ho.2⟩
    current := fun c hc => (h.current c hc).imp fun _ ⟨n,ho⟩ => ⟨n,hsub _ ho.1,ho.2⟩}

theorem current_next {c : κ} (h : Consumed C Old used stored (some c)) :
    ∀ c', some (C.next c) = some c' → ∃ o n, Old o ∧ c' = C.next^[n] o := by
  rintro _ ⟨⟩
  obtain ⟨o,n,ho,rfl⟩ := h.current c rfl
  exact ⟨o,n+1,ho,(Function.iterate_succ_apply' _ _ _).symm⟩

theorem traced_key {c : κ} (h : Consumed C Old used stored (some c)) :
    ∃ o, Old o ∧ C.Later o (C.key c) := by
  obtain ⟨o,n,ho,rfl⟩ := h.current c rfl
  exact ⟨o,ho,n,rfl⟩

/-- The next key is unlike every spent one. -/
theorem key_fresh {c : κ} (h : Consumed C Old used stored (some c)) :
    ¬Spent used stored (C.key c) := fun hk => h.ahead c rfl _ hk ⟨0,rfl⟩

/-- A key is put aside, over whatever the index held. -/
theorem skip [DecidableEq ι] {c : κ} (h : Consumed C Old used stored (some c)) (i : ι) :
    Consumed C Old used (Function.update stored i (some (C.key c))) (some (C.next c)) := by
  have hfresh := h.key_fresh
  have hcases : ∀ j k, Function.update stored i (some (C.key c)) j = some k →
      (j = i ∧ k = C.key c) ∨ (j ≠ i ∧ stored j = some k) := by
    intro j k hj
    rcases update_eq_some hj with ⟨hji,hj⟩ | hj
    · exact .inl ⟨hji,(Option.some.inj hj).symm⟩
    · exact .inr hj
  have hspent : ∀ k, Spent used (Function.update stored i (some (C.key c))) k →
      k = C.key c ∨ Spent used stored k := by
    rintro k (hk | ⟨j,hj⟩)
    · exact .inr (.inl hk)
    · rcases hcases j k hj with ⟨_,hk⟩ | ⟨_,hk⟩
      · exact .inl hk
      · exact .inr (.inr ⟨j,hk⟩)
  refine ⟨h.nodup,?_,?_,?_,h.origins,?_,h.current_next⟩
  · intro j k hj
    rcases hcases j k hj with ⟨_,rfl⟩ | ⟨_,hk⟩
    · exact fun hu => hfresh (.inl hu)
    · exact h.disjoint j k hk
  · intro j j' k hj hj'
    rcases hcases j k hj with ⟨rfl,rfl⟩ | ⟨_,hk⟩ <;> rcases hcases j' _ hj' with ⟨rfl,hk'⟩ | ⟨_,hk'⟩
    · rfl
    · exact absurd (.inr ⟨j',hk'⟩) hfresh
    · exact absurd (.inr ⟨j,hk' ▸ hk⟩) hfresh
    · exact h.single j j' k hk hk'
  · rintro _ ⟨⟩ k hk hlater
    rcases hspent k hk with rfl | hk
    · exact not_later_next c hlater
    · exact h.ahead c rfl k hk (later_of_next hlater)
  · intro k hk
    rcases hspent k hk with rfl | hk
    · exact h.traced_key
    · exact h.traced k hk

theorem spent_append {k k' : κ} (h : Spent (used++[k']) stored k) :
    k = k' ∨ Spent used stored k := by
  rcases h with h | h
  · rcases List.mem_append.mp h with h | h
    · exact .inr (.inl h)
    · exact .inl (List.mem_singleton.mp h)
  · exact .inr (.inr h)

/-- The next key is used. -/
theorem advance {c : κ} (h : Consumed C Old used stored (some c)) :
    Consumed C Old (used++[C.key c]) stored (some (C.next c)) := by
  have hfresh := h.key_fresh
  refine ⟨?_,?_,h.single,?_,h.origins,?_,h.current_next⟩
  · exact h.nodup.append (List.nodup_singleton _) (List.disjoint_singleton.mpr fun hu =>
      hfresh (.inl hu))
  · intro i k hi hu
    rcases List.mem_append.mp hu with hu | hu
    · exact h.disjoint i k hi hu
    · rw [List.mem_singleton.mp hu] at hi
      exact hfresh (.inr ⟨i,hi⟩)
  · rintro _ ⟨⟩ k hk hlater
    rcases spent_append hk with rfl | hk
    · exact not_later_next c hlater
    · exact h.ahead c rfl k hk (later_of_next hlater)
  · intro k hk
    rcases spent_append hk with rfl | hk
    · exact h.traced_key
    · exact h.traced k hk

/-- A stored key is removed and used. -/
theorem take [DecidableEq ι] {i : ι} {k : κ} (h : Consumed C Old used stored cur)
    (hi : stored i = some k) : Consumed C Old (used++[k]) (Function.update stored i none) cur := by
  have hcases : ∀ j k', Function.update stored i none j = some k' → j ≠ i ∧ stored j = some k' := by
    intro j k' hj
    rcases update_eq_some hj with ⟨_,hnone⟩ | hj
    · cases hnone
    · exact hj
  have hspent : ∀ k', Spent (used++[k]) (Function.update stored i none) k' →
      Spent used stored k' := by
    intro k' hk'
    rcases spent_append hk' with rfl | hu | ⟨j,hj⟩
    · exact .inr ⟨i,hi⟩
    · exact .inl hu
    · exact .inr ⟨j,(hcases j k' hj).2⟩
  refine ⟨?_,?_,?_,?_,h.origins,fun k' hk' => h.traced k' (hspent k' hk'),h.current⟩
  · exact h.nodup.append (List.nodup_singleton _) (List.disjoint_singleton.mpr (h.disjoint i k hi))
  · intro j k' hj hu
    obtain ⟨hji,hj⟩ := hcases j k' hj
    rcases List.mem_append.mp hu with hu | hu
    · exact h.disjoint j k' hj hu
    · rw [List.mem_singleton.mp hu] at hj
      exact hji (h.single j i k hj hi)
  · intro j j' k' hj hj'
    exact h.single j j' k' (hcases j k' hj).2 (hcases j' k' hj').2
  · intro c hc k' hk'
    exact h.ahead c hc k' (hspent k' hk')

/-- A chain with a new origin shares no key with the old ones. -/
theorem restart {c : κ} (h : Consumed C Old used stored cur) (hsub : ∀ o, Old o → Old' o)
    (horigins : ∀ o, Old' o → C.Origin o) (hc : Old' c) (hnew : ¬Old c) :
    Consumed C Old' used stored (some c) := by
  have h' := h.weaken hsub horigins
  refine ⟨h.nodup,h.disjoint,h.single,?_,horigins,h'.traced,?_⟩
  · rintro _ ⟨⟩ k hk hlater
    obtain ⟨o,ho,hko⟩ := h.traced k hk
    exact hnew (origin_unique (h.origins o ho) (horigins c hc) hko hlater ▸ ho)
  · rintro _ ⟨⟩
    exact ⟨c,0,hc,rfl⟩

/-- A consumer that has drawn nothing. -/
theorem start (horigins : ∀ o, Old o → C.Origin o) (hcur : ∀ c, cur = some c → Old c) :
    Consumed C Old [] (fun _ : ι => none) cur := by
  have hspent : ∀ k : κ, ¬Spent [] (fun _ : ι => none) k := by
    rintro k (hk | ⟨i,hi⟩)
    · cases hk
    · cases hi
  exact ⟨List.nodup_nil,fun _ _ h => (nomatch h),fun _ _ _ h => (nomatch h),
    fun _ _ k hk => absurd hk (hspent k),horigins,fun k hk => absurd hk (hspent k),
    fun c hc => ⟨c,0,hcur c hc,rfl⟩⟩

end Consumed

end BaturWhatsApi.KeyChains
