import Mathlib

/-!
# Finite maps as entries in key order

A map is the list of its entries in strictly increasing key order, so two maps
with the same entries are the same list. Writing a key replaces its entry or
inserts one at its place. Sorting a list that is already in key order, and
writing the entries of a map one after another, both return the list unchanged.
-/
namespace BaturWhatsApi.OrderedEntries
variable {κ ν : Type} [LinearOrder κ]

def Ordered (l : List (κ × ν)) : Prop := l.Pairwise (fun a b => a.1 < b.1)

instance (l : List (κ × ν)) : Decidable (Ordered l) :=
  inferInstanceAs (Decidable (l.Pairwise (fun a b => a.1 < b.1)))

def put (k : κ) (v : ν) : List (κ × ν) → List (κ × ν)
  | [] => [(k,v)]
  | e::es =>
      if k < e.1 then (k,v)::e::es
      else if k = e.1 then (k,v)::es
      else e::put k v es

/-- Writes in order of arrival; a later write of a key replaces the earlier one. -/
def ofPairs (ps : List (κ × ν)) : List (κ × ν) :=
  ps.foldl (fun m p => put p.1 p.2 m) []

/-- Stable sorting by key. -/
def sortByKey (l : List (κ × ν)) : List (κ × ν) :=
  l.insertionSort (fun a b => a.1 ≤ b.1)

theorem mem_put {k : κ} {v : ν} {l : List (κ × ν)} {e : κ × ν} (h : e ∈ put k v l) :
    e = (k,v) ∨ e ∈ l := by
  induction l with
  | nil => exact .inl (List.mem_singleton.mp h)
  | cons a l ih =>
      unfold put at h
      split_ifs at h
      · exact List.mem_cons.mp h
      · rcases List.mem_cons.mp h with h | h
        · exact .inl h
        · exact .inr (List.mem_cons_of_mem a h)
      · rcases List.mem_cons.mp h with rfl | h
        · exact .inr List.mem_cons_self
        · exact (ih h).imp id (List.mem_cons_of_mem a)

theorem put_ordered (k : κ) (v : ν) {l : List (κ × ν)} (h : Ordered l) : Ordered (put k v l) := by
  induction l with
  | nil => exact List.pairwise_singleton _ _
  | cons a l ih =>
      obtain ⟨ha,hl⟩ := List.pairwise_cons.mp h
      unfold put
      split_ifs with h₁ h₂
      · refine List.pairwise_cons.mpr ⟨fun e he => ?_,h⟩
        rcases List.mem_cons.mp he with rfl | he
        · exact h₁
        · exact h₁.trans (ha e he)
      · exact List.pairwise_cons.mpr ⟨fun e he => h₂ ▸ ha e he,hl⟩
      · refine List.pairwise_cons.mpr ⟨fun e he => ?_,ih hl⟩
        rcases mem_put he with rfl | he
        · exact lt_of_le_of_ne (not_lt.mp h₁) (Ne.symm h₂)
        · exact ha e he

theorem put_last (k : κ) (v : ν) {l : List (κ × ν)} (h : ∀ e ∈ l, e.1 < k) :
    put k v l = l++[(k,v)] := by
  induction l with
  | nil => rfl
  | cons a l ih =>
      have ha := h a List.mem_cons_self
      rw [put,if_neg ha.not_gt,if_neg ha.ne',ih (fun e he => h e (List.mem_cons_of_mem a he)),
        List.cons_append]

theorem mem_ofPairs {ps : List (κ × ν)} {e : κ × ν} (h : e ∈ ofPairs ps) : e ∈ ps := by
  induction ps using List.reverseRecOn with
  | nil => exact h
  | append_singleton ps p ih =>
      rw [ofPairs,List.foldl_concat] at h
      rcases mem_put h with rfl | h
      · simp
      · exact List.mem_append_left _ (ih h)

/-- A write that replaces an entry takes its weight away. -/
theorem sum_put_le (f : ν → ℕ) (k : κ) (v : ν) (l : List (κ × ν)) :
    ((put k v l).map fun e => f e.2).sum ≤ (l.map fun e => f e.2).sum+f v := by
  induction l with
  | nil => simp [put]
  | cons e l ih =>
      unfold put
      split_ifs <;> simp only [List.map_cons,List.sum_cons] <;> omega

theorem sum_ofPairs_le (f : ν → ℕ) (ps : List (κ × ν)) :
    ((ofPairs ps).map fun e => f e.2).sum ≤ (ps.map fun e => f e.2).sum := by
  induction ps using List.reverseRecOn with
  | nil => exact le_rfl
  | append_singleton ps p ih =>
      have hput := sum_put_le f p.1 p.2 (ofPairs ps)
      rw [ofPairs,List.foldl_append,List.map_append,List.sum_append] at *
      simp only [List.foldl_cons,List.foldl_nil,List.map_cons,List.map_nil,List.sum_cons,
        List.sum_nil,Nat.add_zero]
      exact hput.trans (Nat.add_le_add_right ih _)

theorem ofPairs_ordered (ps : List (κ × ν)) : Ordered (ofPairs ps) := by
  induction ps using List.reverseRecOn with
  | nil => exact List.Pairwise.nil
  | append_singleton ps p ih =>
      rw [ofPairs,List.foldl_concat]
      exact put_ordered p.1 p.2 ih

theorem ofPairs_of_ordered {ps : List (κ × ν)} (h : Ordered ps) : ofPairs ps = ps := by
  induction ps using List.reverseRecOn with
  | nil => rfl
  | append_singleton ps p ih =>
      obtain ⟨hps,-,hlast⟩ := List.pairwise_append.mp h
      have hp : ∀ e ∈ ps, e.1 < p.1 := fun e he => hlast e he p List.mem_cons_self
      have hi := ih hps
      rw [ofPairs] at hi
      rw [ofPairs,List.foldl_concat,hi,put_last p.1 p.2 hp]

theorem sortByKey_of_ordered {l : List (κ × ν)} (h : Ordered l) : sortByKey l = l :=
  List.Pairwise.insertionSort_eq (h.imp fun hab => hab.le)

theorem Ordered.sublist {l m : List (κ × ν)} (h : Ordered m) (hs : l.Sublist m) : Ordered l :=
  List.Pairwise.sublist hs h

/-- Only the keys matter for the order. -/
theorem ordered_iff_keys {l : List (κ × ν)} : Ordered l ↔ (l.map Prod.fst).Pairwise (· < ·) := by
  rw [Ordered,List.pairwise_map]

/-- The values may be replaced, before or after a write. -/
theorem map_put {μ : Type} (f : κ → μ) (k : κ) (v : ν) (l : List (κ × ν)) :
    (put k v l).map (fun e => (e.1,f e.1)) = put k (f k) (l.map fun e => (e.1,f e.1)) := by
  induction l with
  | nil => rfl
  | cons e l ih =>
      rw [List.map_cons,put,put]
      split_ifs
      · rfl
      · rfl
      · rw [List.map_cons,ih]

theorem lookup_cons (e : κ × ν) (l : List (κ × ν)) (j : κ) :
    (e::l).lookup j = if j = e.1 then some e.2 else l.lookup j := by
  rw [List.lookup_cons]
  split_ifs with h
  · rw [beq_iff_eq.mpr h]
  · rw [beq_eq_false_iff_ne.mpr h]

theorem lookup_put (k : κ) (v : ν) (l : List (κ × ν)) (j : κ) :
    (put k v l).lookup j = if j = k then some v else l.lookup j := by
  induction l with
  | nil => rw [put,lookup_cons]
  | cons e l ih =>
      unfold put
      split_ifs with h₁ hj h₂ hj hj
      · rw [lookup_cons,if_pos hj]
      · rw [lookup_cons,if_neg hj]
      · rw [lookup_cons,if_pos hj]
      · rw [lookup_cons,if_neg hj,lookup_cons,if_neg (h₂ ▸ hj)]
      · rw [lookup_cons,ih,if_pos hj,if_neg (hj ▸ h₂)]
      · rw [lookup_cons,ih,if_neg hj,lookup_cons]

theorem lookup_filter (l : List (κ × ν)) (k j : κ) :
    (l.filter fun e => e.1 ≠ k).lookup j = if j = k then none else l.lookup j := by
  induction l with
  | nil => simp
  | cons e l ih =>
      rw [lookup_cons]
      by_cases he : e.1 = k
      · rw [List.filter_cons_of_neg (by simp [he]),ih]
        split_ifs with h₁ h₂
        · rfl
        · exact absurd (h₂.trans he) h₁
        · rfl
      · rw [List.filter_cons_of_pos (by simp [he]),lookup_cons,ih]
        split_ifs with h₁ h₂ h₂
        · exact absurd (h₁.symm.trans h₂) he
        · rfl
        · rfl
        · rfl

/-! Entries under other keys in the same order, with other values. -/

theorem map_put_of_strictMono {κ' ν' : Type} [LinearOrder κ'] {g : κ → κ'}
    (hg : StrictMono g) (f : ν → ν') (k : κ) (v : ν) (l : List (κ × ν)) :
    (put k v l).map (Prod.map g f) = put (g k) (f v) (l.map (Prod.map g f)) := by
  induction l with
  | nil => rfl
  | cons e l ih =>
      simp only [put,List.map_cons,Prod.map_fst,hg.lt_iff_lt,hg.injective.eq_iff]
      split_ifs
      · rfl
      · rfl
      · rw [List.map_cons,ih]

theorem lookup_map_of_injective {κ' ν' : Type} [LinearOrder κ'] {g : κ → κ'}
    (hg : Function.Injective g) (f : ν → ν') (k : κ) (l : List (κ × ν)) :
    (l.map (Prod.map g f)).lookup (g k) = (l.lookup k).map f := by
  induction l with
  | nil => rfl
  | cons e l ih =>
      simp only [List.map_cons,lookup_cons,ih,Prod.map_fst,Prod.map_snd,hg.eq_iff]
      split_ifs <;> rfl

/-! ### Maps -/

/-- A finite map. -/
@[ext]
structure Entries (κ ν : Type) [LinearOrder κ] where
  list : List (κ × ν)
  ordered : Ordered list

namespace Entries

def empty : Entries κ ν := ⟨[],List.Pairwise.nil⟩

def collect (ps : List (κ × ν)) : Entries κ ν := ⟨ofPairs ps,ofPairs_ordered ps⟩

def get (m : Entries κ ν) (k : κ) : Option ν := m.list.lookup k

def set (m : Entries κ ν) (k : κ) (v : ν) : Entries κ ν :=
  ⟨put k v m.list,put_ordered k v m.ordered⟩

def erase (m : Entries κ ν) (k : κ) : Entries κ ν :=
  ⟨m.list.filter fun e => e.1 ≠ k,m.ordered.sublist List.filter_sublist⟩

def keys (m : Entries κ ν) : List κ := m.list.map Prod.fst

/-- The same keys, with values made from them. -/
def derive {μ : Type} (f : κ → μ) (m : Entries κ ν) : Entries κ μ :=
  ⟨m.list.map fun e => (e.1,f e.1),by simpa [Ordered,List.pairwise_map] using m.ordered⟩

@[simp] theorem get_set (m : Entries κ ν) (k : κ) (v : ν) (j : κ) :
    (m.set k v).get j = if j = k then some v else m.get j := lookup_put k v m.list j

@[simp] theorem get_erase (m : Entries κ ν) (k j : κ) :
    (m.erase k).get j = if j = k then none else m.get j := lookup_filter m.list k j

theorem keys_ordered (m : Entries κ ν) : m.keys.Pairwise (· < ·) := ordered_iff_keys.mp m.ordered

theorem mem_keys {m : Entries κ ν} {k : κ} : k ∈ m.keys ↔ (m.get k).isSome := by
  unfold keys get
  induction m.list with
  | nil => simp
  | cons e l ih =>
      rw [List.map_cons,List.mem_cons,ih,lookup_cons]
      by_cases h : k = e.1 <;> simp [h]

theorem mem_keys_set {m : Entries κ ν} {k j : κ} {v : ν} :
    j ∈ (m.set k v).keys ↔ j = k ∨ j ∈ m.keys := by
  rw [mem_keys,mem_keys,get_set]
  by_cases h : j = k <;> simp [h]

theorem mem_keys_erase {m : Entries κ ν} {k j : κ} :
    j ∈ (m.erase k).keys ↔ j ≠ k ∧ j ∈ m.keys := by
  rw [mem_keys,mem_keys,get_erase]
  by_cases h : j = k <;> simp [h]

theorem derive_set {μ : Type} (f : κ → μ) (m : Entries κ ν) (k : κ) (v : ν) :
    (m.set k v).derive f = (m.derive f).set k (f k) := Entries.ext (map_put f k v m.list)

theorem derive_erase {μ : Type} (f : κ → μ) (m : Entries κ ν) (k : κ) :
    (m.erase k).derive f = (m.derive f).erase k := by
  ext1
  simp only [derive,erase,List.filter_map]
  rfl

theorem derive_keys {μ : Type} (f : κ → μ) (m : Entries κ ν) : (m.derive f).keys = m.keys := by
  simp [derive,keys]

/-- The keys of two maps with the same domain are the same list. -/
theorem keys_ext {μ : Type} {m : Entries κ ν} {m' : Entries κ μ}
    (h : ∀ k, k ∈ m.keys ↔ k ∈ m'.keys) : m.keys = m'.keys :=
  m.keys_ordered.eq_of_mem_iff m'.keys_ordered h

end Entries

end BaturWhatsApi.OrderedEntries
