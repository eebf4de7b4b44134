import Mathlib

/-!
# Records on lines of a text

A record is a key and a value. It is written as one line, with one symbol between the
two and one at the end. A reader splits the text into lines and every line at the first
inner separator, and drops a line without a separator, a key or a value.

A list of records whose keys avoid both separators and whose values avoid the end of a
line is read back. A text that breaks off loses records from its end: the last key is
still found when the first symbol of its value is there.
-/
namespace BaturWhatsApi.SeparatedRecords
variable {σ : Type}

/-! ### Lines -/

def line (tab nl : σ) (e : List σ × List σ) : List σ := e.1++tab::(e.2++[nl])

def render (tab nl : σ) (es : List (List σ × List σ)) : List σ := es.flatMap (line tab nl)

section
variable {tab nl : σ}

theorem render_cons (e : List σ × List σ) (es : List (List σ × List σ)) :
    render tab nl (e::es) = (e.1++tab::e.2)++nl::render tab nl es := by
  simp [render,line]

theorem render_cons_length (e : List σ × List σ) (es : List (List σ × List σ)) :
    (render tab nl (e::es)).length = e.1.length+e.2.length+2+(render tab nl es).length := by
  rw [render_cons]
  simp only [List.length_append,List.length_cons]
  omega

/-- What may be missing from the end without a key being lost. -/
def slack (es : List (List σ × List σ)) : ℕ := es.getLast?.elim 0 fun e => e.2.length

theorem slack_cons (e : List σ × List σ) {es : List (List σ × List σ)} (h : es ≠ []) :
    slack (e::es) = slack es := by
  obtain ⟨e',es,rfl⟩ := List.exists_cons_of_ne_nil h
  rw [slack,slack,List.getLast?_cons_cons]

theorem slack_le (es : List (List σ × List σ)) : slack es ≤ (render tab nl es).length := by
  induction es with
  | nil => exact Nat.zero_le _
  | cons e es ih =>
      rw [render_cons_length]
      by_cases hes : es = []
      · simp only [hes,slack,List.getLast?_singleton,Option.elim_some]
        omega
      · rw [slack_cons e hes]
        omega

end

variable [DecidableEq σ]

/-- The parts of a text around its first separator. -/
def cut (sep : σ) : List σ → Option (List σ × List σ)
  | [] => none
  | b::s => if b = sep then some ([],s) else (cut sep s).map fun p => (b::p.1,p.2)

def record (tab : σ) (line : List σ) : Option (List σ × List σ) :=
  (cut tab line).filter fun e => e.1 ≠ [] ∧ e.2 ≠ []

def parse (tab nl : σ) (s : List σ) : List (List σ × List σ) :=
  (s.splitOn nl).filterMap (record tab)

/-- A key that can stand in front of the separators. -/
structure PlainKey (tab nl : σ) (k : List σ) : Prop where
  ne_nil : k ≠ []
  tab_not_mem : tab ∉ k
  nl_not_mem : nl ∉ k

/-- A value that can stand in a line. -/
structure PlainValue (nl : σ) (v : List σ) : Prop where
  ne_nil : v ≠ []
  nl_not_mem : nl ∉ v

/-! ### The first separator -/

theorem cut_append {sep : σ} {k : List σ} (h : sep ∉ k) (v : List σ) :
    cut sep (k++sep::v) = some (k,v) := by
  induction k with
  | nil => rw [List.nil_append,cut,if_pos rfl]
  | cons b k ih =>
      have hb : b ≠ sep := fun hb => h (hb ▸ List.mem_cons_self)
      rw [List.cons_append,cut,if_neg hb,ih fun hk => h (List.mem_cons_of_mem b hk)]
      rfl

theorem cut_eq_none {sep : σ} {s : List σ} (h : sep ∉ s) : cut sep s = none := by
  induction s with
  | nil => rfl
  | cons b s ih =>
      have hb : b ≠ sep := fun hb => h (hb ▸ List.mem_cons_self)
      rw [cut,if_neg hb,ih fun hs => h (List.mem_cons_of_mem b hs)]
      rfl

theorem cut_eq_some {sep : σ} {s k v : List σ} (h : cut sep s = some (k,v)) :
    s = k++sep::v ∧ sep ∉ k := by
  induction s generalizing k with
  | nil => cases h
  | cons b s ih =>
      rw [cut] at h
      split_ifs at h with hb
      · cases h
        exact ⟨by rw [hb,List.nil_append],List.not_mem_nil⟩
      · obtain ⟨p,hp,he⟩ := Option.map_eq_some_iff.mp h
        cases he
        obtain ⟨hs,hk⟩ := ih hp
        refine ⟨by rw [hs,List.cons_append],fun hmem => ?_⟩
        cases List.mem_cons.mp hmem with
        | inl hsep => exact hb hsep.symm
        | inr hmem => exact hk hmem

/-! ### Records of a text -/

section
variable {tab nl : σ}

theorem record_append {k v : List σ} (hk : PlainKey tab nl k) (hv : v ≠ []) :
    record tab (k++tab::v) = some (k,v) := by
  simp [record,cut_append hk.tab_not_mem,hk.ne_nil,hv]

theorem record_without_tab {s : List σ} (h : tab ∉ s) : record tab s = none := by
  rw [record,cut_eq_none h]
  rfl

/-- The last line of a text, which is not ended. -/
theorem parse_line {s : List σ} (h : nl ∉ s) : parse tab nl s = (record tab s).toList := by
  rw [parse,List.splitOn_eq_singleton h]
  cases hrecord : record tab s <;> simp [hrecord]

theorem parse_cons {e : List σ × List σ} (hk : PlainKey tab nl e.1) (hv : PlainValue nl e.2)
    (htab : tab ≠ nl) (s : List σ) : parse tab nl (line tab nl e++s) = e::parse tab nl s := by
  have hline : nl ∉ e.1++tab::e.2 := by
    simp [hk.nl_not_mem,hv.nl_not_mem,htab.symm]
  have hsplit : line tab nl e++s = (e.1++tab::e.2)++nl::s := by simp [line]
  rw [parse,hsplit,List.splitOn_append_cons_self_of_not_mem hline,List.filterMap_cons,
    record_append hk hv.ne_nil]
  rfl

theorem splitOn_not_mem {s p : List σ} (h : p ∈ s.splitOn nl) : nl ∉ p := by
  induction s generalizing p with
  | nil =>
      rw [List.splitOn_nil,List.mem_singleton] at h
      rw [h]
      exact List.not_mem_nil
  | cons b s ih =>
      rw [List.splitOn_cons_eq_if_modifyHead] at h
      split_ifs at h with hb
      · cases List.mem_cons.mp h with
        | inl hp => exact hp ▸ List.not_mem_nil
        | inr hp => exact ih hp
      · cases hparts : s.splitOn nl with
        | nil => exact absurd hparts (List.splitOn_ne_nil _ _)
        | cons q parts =>
            rw [hparts,List.modifyHead_cons,List.mem_cons] at h
            rw [hparts] at ih
            cases h with
            | inl hp =>
                rw [hp,List.mem_cons,not_or]
                exact ⟨fun he => hb (beq_iff_eq.mpr he.symm),ih List.mem_cons_self⟩
            | inr hp => exact ih (List.mem_cons_of_mem q hp)

/-- Whatever the text is, what is read from it is plain. -/
theorem mem_parse {s : List σ} {e : List σ × List σ} (h : e ∈ parse tab nl s) :
    PlainKey tab nl e.1 ∧ PlainValue nl e.2 := by
  obtain ⟨p,hp,he⟩ := List.mem_filterMap.mp h
  obtain ⟨hcut,hne⟩ := Option.filter_eq_some_iff.mp he
  obtain ⟨rfl,htab⟩ := cut_eq_some hcut
  have hnl := splitOn_not_mem hp
  simp only [List.mem_append,List.mem_cons,not_or] at hnl
  simp only [ne_eq,decide_eq_true_eq] at hne
  exact ⟨⟨hne.1,htab,hnl.1⟩,⟨hne.2,hnl.2.2⟩⟩

/-- The records are plain. -/
def Plain (tab nl : σ) (es : List (List σ × List σ)) : Prop :=
  ∀ e ∈ es, PlainKey tab nl e.1 ∧ PlainValue nl e.2

theorem parse_render (htab : tab ≠ nl) {es : List (List σ × List σ)} (h : Plain tab nl es) :
    parse tab nl (render tab nl es) = es := by
  induction es with
  | nil => rfl
  | cons e es ih =>
      obtain ⟨hk,hv⟩ := h e List.mem_cons_self
      rw [render,List.flatMap_cons,parse_cons hk hv htab]
      rw [render] at ih
      rw [ih fun e he => h e (List.mem_cons_of_mem _ he)]

/-! ### Texts that break off -/

/-- A line that breaks off holds the record from the first symbol of its value on. -/
theorem parse_line_take {e : List σ × List σ} (hk : PlainKey tab nl e.1) (hv : PlainValue nl e.2)
    (htab : tab ≠ nl) {n : ℕ} (hn : n ≤ e.1.length+1+e.2.length) :
    parse tab nl ((e.1++tab::e.2).take n) =
      if n ≤ e.1.length+1 then [] else [(e.1,e.2.take (n-(e.1.length+1)))] := by
  have hline : nl ∉ e.1++tab::e.2 := by
    simp [hk.nl_not_mem,hv.nl_not_mem,htab.symm]
  rw [parse_line fun hmem => hline (List.mem_of_mem_take hmem)]
  split_ifs with hshort
  · by_cases hkey : n ≤ e.1.length
    · rw [List.take_append_of_le_length hkey,
        record_without_tab fun hmem => hk.tab_not_mem (List.mem_of_mem_take hmem)]
      rfl
    · have hsplit : (e.1++tab::e.2).take n = e.1++[tab] := by
        rw [show n = e.1.length+1 by omega,List.take_length_add_append]
        rfl
      rw [hsplit,record,cut_append hk.tab_not_mem]
      simp
  · obtain ⟨m,rfl⟩ := Nat.exists_eq_add_of_lt (Nat.not_le.mp hshort)
    have hsplit : (e.1++tab::e.2).take (e.1.length+1+m+1) = e.1++tab::e.2.take (m+1) := by
      rw [Nat.add_assoc,Nat.add_assoc,List.take_length_add_append,Nat.add_comm 1,
        List.take_succ_cons]
    have hvalue : e.2.take (m+1) ≠ [] := by simp [hv.ne_nil]
    rw [hsplit,record_append hk hvalue,show e.1.length+1+m+1-(e.1.length+1) = m+1 by omega]
    rfl

/-- The lines in front of the break are whole. -/
theorem parse_render_take {e : List σ × List σ} (hk : PlainKey tab nl e.1)
    (hv : PlainValue nl e.2) (htab : tab ≠ nl) (es : List (List σ × List σ)) (n : ℕ) :
    parse tab nl ((render tab nl (e::es)).take n) =
      if n ≤ e.1.length+1 then []
      else if n ≤ e.1.length+1+e.2.length then [(e.1,e.2.take (n-(e.1.length+1)))]
      else e::parse tab nl ((render tab nl es).take (n-(e.1.length+e.2.length+2))) := by
  have hlength : (e.1++tab::e.2).length = e.1.length+1+e.2.length := by
    simp only [List.length_append,List.length_cons]
    omega
  by_cases hn : n ≤ e.1.length+1+e.2.length
  · rw [render_cons,List.take_append_of_le_length (hlength ▸ hn),if_pos hn]
    exact parse_line_take hk hv htab hn
  · rw [if_neg (by omega),if_neg hn,← parse_cons hk hv htab]
    congr 1
    obtain ⟨m,rfl⟩ := Nat.exists_eq_add_of_lt (Nat.not_le.mp hn)
    rw [render_cons,← hlength,Nat.add_assoc,List.take_length_add_append,List.take_succ_cons,
      show (e.1++tab::e.2).length+(m+1)-(e.1.length+e.2.length+2) = m by omega]
    simp [line]

theorem parse_take_prefix (htab : tab ≠ nl) {es : List (List σ × List σ)} (h : Plain tab nl es)
    (n : ℕ) : (parse tab nl ((render tab nl es).take n)).map Prod.fst <+: es.map Prod.fst := by
  induction es generalizing n with
  | nil => simp [render,parse,record,cut]
  | cons e es ih =>
      obtain ⟨hk,hv⟩ := h e List.mem_cons_self
      rw [parse_render_take hk hv htab]
      split_ifs
      · exact List.nil_prefix
      · exact List.cons_prefix_cons.mpr ⟨rfl,List.nil_prefix⟩
      · exact List.cons_prefix_cons.mpr ⟨rfl,ih (fun e he => h e (List.mem_cons_of_mem _ he)) _⟩

/-- All keys are found exactly when no more than the last value is missing. -/
theorem parse_take_keys (htab : tab ≠ nl) {es : List (List σ × List σ)} (h : Plain tab nl es)
    (n : ℕ) : (parse tab nl ((render tab nl es).take n)).map Prod.fst = es.map Prod.fst ↔
      (render tab nl es).length ≤ n+slack es := by
  induction es generalizing n with
  | nil => simp [render,parse,record,cut]
  | cons e es ih =>
      obtain ⟨hk,hv⟩ := h e List.mem_cons_self
      have ih := ih fun e he => h e (List.mem_cons_of_mem _ he)
      have hle : slack es ≤ (render tab nl es).length := slack_le es
      have hone : es = [] → slack (e::es) = e.2.length ∧ (render tab nl es).length = 0 := by
        rintro rfl
        exact ⟨rfl,rfl⟩
      have hmore : es ≠ [] → slack (e::es) = slack es := slack_cons e
      rw [parse_render_take hk hv htab,render_cons_length]
      split_ifs with h₁ h₂
      · refine ⟨fun hx => (nomatch hx),fun hx => ?_⟩
        by_cases hes : es = []
        · have := hone hes
          omega
        · have := hmore hes
          omega
      · rw [List.map_cons,List.map_cons,List.map_nil,List.cons_eq_cons,eq_comm (a := []),
          List.map_eq_nil_iff]
        by_cases hes : es = []
        · have := hone hes
          simp only [hes,and_self,true_iff]
          rw [hes] at this
          omega
        · have := hmore hes
          simp only [hes,and_false,false_iff]
          omega
      · rw [List.map_cons,List.map_cons,List.cons_eq_cons,ih,and_iff_right rfl]
        by_cases hes : es = []
        · have := hone hes
          omega
        · have := hmore hes
          omega

end

end BaturWhatsApi.SeparatedRecords
