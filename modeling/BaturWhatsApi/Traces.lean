import Mathlib.Data.List.Basic

/-!
# What happened before

A trace is the list of what has happened, the latest last. `Since` says that something happened
and that nothing of a given kind has happened after it; `Checked` asks a condition of every entry
with the trace before it. Both are settled by the last entry and the trace without it.
-/
namespace BaturWhatsApi.Traces

variable {ε : Type*}

/-- The entry is in the trace, and none that stops it comes later. -/
def Since (start : ε) (Stops : ε → Prop) (trace : List ε) : Prop :=
  ∃ pre post, trace = pre++start::post ∧ ∀ e ∈ post, ¬Stops e

/-- Every entry meets the condition after the entries before it. -/
def Checked (P : List ε → ε → Prop) (trace : List ε) : Prop :=
  ∀ pre e post, trace = pre++e::post → P pre e

theorem not_since_nil {start : ε} {Stops : ε → Prop} : ¬Since start Stops [] :=
  fun ⟨_,_,h,_⟩ => by simp at h

theorem checked_nil {P : List ε → ε → Prop} : Checked P [] :=
  fun _ _ _ h => by simp at h

/-- A cut of a longer trace is at its last entry or in the old trace. -/
theorem concat_eq_cut {trace pre post : List ε} {e e' : ε} (h : trace++[e] = pre++e'::post) :
    pre = trace ∧ e' = e ∧ post = [] ∨ ∃ mid, trace = pre++e'::mid ∧ post = mid++[e] := by
  rcases List.eq_nil_or_concat' post with rfl | ⟨mid,last,rfl⟩
  · obtain ⟨rfl,rfl⟩ := List.append_singleton_inj.mp h
    exact .inl ⟨rfl,rfl,rfl⟩
  · rw [← List.cons_append,← List.append_assoc] at h
    obtain ⟨rfl,rfl⟩ := List.append_singleton_inj.mp h
    exact .inr ⟨mid,rfl,rfl⟩

theorem since_concat {start e : ε} {Stops : ε → Prop} {trace : List ε} :
    Since start Stops (trace++[e]) ↔ e = start ∨ Since start Stops trace ∧ ¬Stops e := by
  constructor
  · intro ⟨pre,post,h,hpost⟩
    rcases concat_eq_cut h with ⟨-,rfl,-⟩ | ⟨mid,htrace,rfl⟩
    · exact .inl rfl
    · refine .inr ⟨⟨pre,mid,htrace,fun e' he' => hpost e' ?_⟩,hpost e ?_⟩
      · exact List.mem_append_left _ he'
      · exact List.mem_append_right _ (List.mem_singleton_self e)
  · rintro (rfl | ⟨⟨pre,post,rfl,hpost⟩,he⟩)
    · exact ⟨trace,[],rfl,fun e' he' => absurd he' List.not_mem_nil⟩
    · refine ⟨pre,post++[e],by rw [List.append_assoc,List.cons_append],fun e' he' => ?_⟩
      rcases List.mem_append.mp he' with he' | he'
      · exact hpost e' he'
      · rwa [List.mem_singleton.mp he']

/-- An entry that is not the start leaves what is in force, or stops it. -/
theorem Since.old {start e : ε} {Stops : ε → Prop} {trace : List ε}
    (h : Since start Stops (trace++[e])) (hne : e ≠ start) :
    Since start Stops trace ∧ ¬Stops e := (since_concat.mp h).resolve_left hne

theorem since_singleton {start e : ε} {Stops : ε → Prop} :
    Since start Stops [e] ↔ e = start := by
  rw [← List.nil_append [e],since_concat]
  exact or_iff_left fun h => not_since_nil h.1

theorem checked_concat {P : List ε → ε → Prop} {trace : List ε} {e : ε}
    (h : Checked P trace) (he : P trace e) : Checked P (trace++[e]) := by
  intro pre e' post hcut
  rcases concat_eq_cut hcut with ⟨rfl,rfl,-⟩ | ⟨mid,htrace,-⟩
  · exact he
  · exact h pre e' mid htrace

end BaturWhatsApi.Traces
