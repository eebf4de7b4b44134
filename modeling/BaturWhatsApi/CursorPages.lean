import Mathlib.Data.List.Nodup

/-!
# Pages that are chained by cursors

A feed is a list of pages. Each page carries the cursor under which the next one is
asked for, and the last page carries the cursor under which the first one is asked
for. The cursors are distinct, so a cursor is a position in the feed.
-/
namespace BaturWhatsApi.CursorPages

structure Page (κ α : Type*) where
  items : List α
  cursor : κ

structure Feed (κ α : Type*) (start : κ) where
  pages : List (Page κ α)
  distinct : (pages.map Page.cursor).Nodup
  last : (pages.map Page.cursor).getLast? = some start

namespace Feed
variable {κ α : Type*} {start : κ}

def items (F : Feed κ α start) : List α := F.pages.flatMap Page.items

/-- The items of the first `k` pages. -/
def before (F : Feed κ α start) (k : ℕ) : List α := (F.pages.take k).flatMap Page.items

/-- The items of the pages from `k` to `l`. -/
def between (F : Feed κ α start) (k l : ℕ) : List α :=
  ((F.pages.take l).drop k).flatMap Page.items

variable {F : Feed κ α start}

theorem length_pos : 0 < F.pages.length := by
  rcases List.eq_nil_or_concat F.pages with h | ⟨ps,p,h⟩
  · have hlast := F.last
    rw [h] at hlast
    cases hlast
  · rw [h]
    simp

/-- Only the last page leads back to the start. -/
theorem cursor_eq_start_iff {k : ℕ} {p : Page κ α} (hp : F.pages[k]? = some p) :
    p.cursor = start ↔ k+1 = F.pages.length := by
  have hpos := F.length_pos
  have hk : k < F.pages.length := (List.getElem?_eq_some_iff.mp hp).1
  have hcursor : (F.pages.map Page.cursor)[k]? = some p.cursor := by
    rw [List.getElem?_map,hp,Option.map_some]
  have hlast : (F.pages.map Page.cursor)[F.pages.length-1]? = some start := by
    rw [← F.last,List.getLast?_eq_getElem?,List.length_map]
  constructor
  · intro h
    rw [h] at hcursor
    have hsame := (List.getElem?_inj (by rw [List.length_map]; exact hk) F.distinct).mp
      (hcursor.trans hlast.symm)
    omega
  · intro h
    have hk' : F.pages.length-1 = k := by omega
    rw [hk',hcursor] at hlast
    exact Option.some.inj hlast

theorem before_succ {k : ℕ} {p : Page κ α} (hp : F.pages[k]? = some p) :
    F.before (k+1) = F.before k++p.items := by
  rw [before,before,List.take_add_one,hp]
  simp only [Option.toList_some,List.flatMap_append,List.flatMap_cons,List.flatMap_nil,
    List.append_nil]

theorem before_length : F.before F.pages.length = F.items := by
  rw [before,items,List.take_length]

theorem between_self (k : ℕ) : F.between k k = [] := by
  rw [between,List.drop_take,Nat.sub_self]
  rfl

theorem between_succ {k l : ℕ} {p : Page κ α} (hkl : k ≤ l) (hp : F.pages[l]? = some p) :
    F.between k (l+1) = F.between k l++p.items := by
  have hl : l < F.pages.length := (List.getElem?_eq_some_iff.mp hp).1
  rw [between,between,List.take_add_one,hp,List.drop_append_of_le_length (by simp; omega)]
  simp only [Option.toList_some,List.flatMap_append,List.flatMap_cons,List.flatMap_nil,
    List.append_nil]

/-- What is missing at the front is what was skipped. -/
theorem before_append_between (k : ℕ) : F.before k++F.between k F.pages.length = F.items := by
  rw [before,between,items,List.take_length,← List.flatMap_append,List.take_append_drop]

/-! ### Cursors as positions -/

variable [DecidableEq κ]

/-- The number of pages before the one that is asked for. -/
def position (F : Feed κ α start) (c : κ) : ℕ :=
  if c = start then 0 else F.pages.findIdx (fun p => p.cursor = c)+1

def fetch (F : Feed κ α start) (c : κ) : Page κ α :=
  (F.pages[F.position c]?).getD ⟨[],start⟩

theorem position_start : F.position start = 0 := if_pos rfl

theorem position_cursor {k : ℕ} {p : Page κ α} (hp : F.pages[k]? = some p)
    (hk : k+1 < F.pages.length) : F.position p.cursor = k+1 := by
  have hne : p.cursor ≠ start := fun h => absurd ((cursor_eq_start_iff hp).mp h) (by omega)
  obtain ⟨hlt,hget⟩ := List.getElem?_eq_some_iff.mp hp
  have hidx : F.pages.findIdx (fun q => q.cursor = p.cursor) = k := by
    rw [List.findIdx_eq hlt]
    refine ⟨by simp [hget],fun j hj => ?_⟩
    have hj' : j < F.pages.length := Nat.lt_trans hj hlt
    simp only [decide_eq_false_iff_not]
    intro hsame
    have hcj : (F.pages.map Page.cursor)[j]? = (F.pages.map Page.cursor)[k]? := by
      rw [List.getElem?_map,List.getElem?_map,hp,List.getElem?_eq_getElem hj',Option.map_some,
        Option.map_some,hsame]
    have := (List.getElem?_inj (by rw [List.length_map]; exact hj') F.distinct).mp hcj
    omega
  rw [position,if_neg hne,hidx]

theorem fetch_eq {c : κ} {p : Page κ α} (hp : F.pages[F.position c]? = some p) : F.fetch c = p := by
  rw [fetch,hp,Option.getD_some]

end Feed

end BaturWhatsApi.CursorPages
