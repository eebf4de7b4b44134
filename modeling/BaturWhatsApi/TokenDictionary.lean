import BaturWhatsApi.ByteStrings

/-!
# Token dictionaries

The tag constants, the JSON shape of a dictionary file and the two index maps
follow `protocol/token`. A dictionary is built in one place only, from a parsed
file that passed the two size checks; the maps are filled by the loops of that
constructor, so they are fields tied to the tables they index. The table sizes
the checks allow are larger than the byte ranges the wire format has room for.

Parsed JSON strings are Lean strings: the standard JSON decoder replaces
malformed text, so a dictionary never holds invalid UTF-8.
-/
namespace BaturWhatsApi.TokenDictionary
open ByteStrings

def listEmpty : UInt8 := 0
def dictionary0 : UInt8 := 236
def dictionary1 : UInt8 := 237
def dictionary2 : UInt8 := 238
def dictionary3 : UInt8 := 239
def interopJID : UInt8 := 245
def fbJID : UInt8 := 246
def adJID : UInt8 := 247
def list8 : UInt8 := 248
def list16 : UInt8 := 249
def jidPair : UInt8 := 250
def hex8 : UInt8 := 251
def binary8 : UInt8 := 252
def binary20 : UInt8 := 253
def binary32 : UInt8 := 254
def nibble8 : UInt8 := 255

def packedMax : ℕ := 127
def singleByteMax : ℕ := 256

structure DictFile where
  version : ℤ
  singleByte : List String
  doubleByte : List (List String)
deriving DecidableEq

abbrev SingleIndex := Bytes → Option UInt8
abbrev DoubleIndex := Bytes → Option (UInt8 × UInt8)

/-- One iteration of the single-byte loop: later entries overwrite earlier ones. -/
def indexToken (m : SingleIndex) (t : String × ℕ) : SingleIndex :=
  if t.1 = "" then m else Function.update m (text t.1) (some (UInt8.ofNat t.2))

def indexSingle (ts : List String) : SingleIndex :=
  ts.zipIdx.foldl indexToken (fun _ => none)

/-- One iteration of the inner double-byte loop: the first entry is kept. -/
def indexPair (di : ℕ) (m : DoubleIndex) (t : String × ℕ) : DoubleIndex :=
  if (m (text t.1)).isSome then m
  else Function.update m (text t.1) (some (UInt8.ofNat di,UInt8.ofNat t.2))

def indexList (m : DoubleIndex) (l : List String × ℕ) : DoubleIndex :=
  l.1.zipIdx.foldl (indexPair l.2) m

def indexDouble (ls : List (List String)) : DoubleIndex :=
  ls.zipIdx.foldl indexList (fun _ => none)

/-- The maps are the ones built from the tables, and both size checks passed. -/
structure Dictionary where
  version : ℤ
  singleByte : List String
  doubleByte : List (List String)
  singleIndex : SingleIndex
  doubleIndex : DoubleIndex
  singleIndex_eq : singleIndex = indexSingle singleByte
  doubleIndex_eq : doubleIndex = indexDouble doubleByte
  single_count : singleByte.length ≤ singleByteMax
  double_count : doubleByte.length ≤ 4

inductive DictError where
  | parse (cause : String)
  | singleCount (n : ℕ)
  | doubleCount (n : ℕ)
deriving Repr, DecidableEq

/-- The part of `FromJSON` after the document has been parsed. -/
def ofFile (f : DictFile) : Except DictError Dictionary :=
  if hs : f.singleByte.length > singleByteMax then .error (.singleCount f.singleByte.length)
  else if hd : f.doubleByte.length > 4 then .error (.doubleCount f.doubleByte.length)
  else .ok ⟨f.version,f.singleByte,f.doubleByte,indexSingle f.singleByte,
    indexDouble f.doubleByte,rfl,rfl,Nat.le_of_not_gt hs,Nat.le_of_not_gt hd⟩

theorem ofFile_ok {f : DictFile} (hs : f.singleByte.length ≤ singleByteMax)
    (hd : f.doubleByte.length ≤ 4) :
    ofFile f = .ok ⟨f.version,f.singleByte,f.doubleByte,indexSingle f.singleByte,
      indexDouble f.doubleByte,rfl,rfl,hs,hd⟩ := by
  rw [ofFile,dif_neg hs.not_gt,dif_neg hd.not_gt]

theorem ofFile_tables {f : DictFile} {d : Dictionary} (h : ofFile f = .ok d) :
    d.singleByte = f.singleByte ∧ d.doubleByte = f.doubleByte := by
  unfold ofFile at h
  split_ifs at h
  cases h
  exact ⟨rfl,rfl⟩

/-- The JSON decoder is the standard library's and enters as a function. -/
def fromJSON (unmarshal : Bytes → Except String DictFile) (data : Bytes) :
    Except DictError Dictionary :=
  match unmarshal data with
  | .error e => .error (.parse e)
  | .ok f => ofFile f

namespace Dictionary
variable (d : Dictionary)

def singleToken (index : ℕ) : Option Bytes :=
  if index < 1 then none else
    match d.singleByte[index]? with
    | none => none
    | some t => if t = "" then none else some (text t)

def doubleToken (dict index : ℕ) : Option Bytes :=
  match d.doubleByte[dict]? with
  | none => none
  | some l => l[index]?.map text

def indexOfSingle (t : Bytes) : Option UInt8 := d.singleIndex t

def indexOfDouble (t : Bytes) : Option (UInt8 × UInt8) := d.doubleIndex t

end Dictionary

/-- The string is the table entry at this index, and no later entry is equal. -/
def LastSingle (ts : List String) (s : Bytes) (i : ℕ) : Prop :=
  s ≠ [] ∧ (∃ t, ts[i]? = some t ∧ text t = s) ∧
    ∀ j t, i < j → ts[j]? = some t → text t ≠ s

/-- The first list holding the string, and its first position there. -/
def FirstDouble (ls : List (List String)) (s : Bytes) (di i : ℕ) : Prop :=
  (∃ l, ls[di]? = some l ∧ l.findIdx? (fun t => text t = s) = some i) ∧
    ∀ dj l, dj < di → ls[dj]? = some l → ∀ t ∈ l, text t ≠ s

theorem indexSingle_append (ts : List String) (t : String) :
    indexSingle (ts++[t]) = indexToken (indexSingle ts) (t,ts.length) := by
  simp [indexSingle,List.zipIdx_append]

theorem lastSingle_append (ts : List String) (t : String) (s : Bytes) (i : ℕ) :
    LastSingle (ts++[t]) s i ↔
      s ≠ [] ∧ ((text t = s ∧ i = ts.length) ∨ (text t ≠ s ∧ LastSingle ts s i)) := by
  constructor
  · rintro ⟨hs,⟨u,hu,rfl⟩,hlast⟩
    refine ⟨hs,?_⟩
    by_cases ht : text t = text u
    · refine .inl ⟨ht,?_⟩
      have hi := (List.getElem?_eq_some_iff.mp hu).choose
      simp only [List.length_append,List.length_singleton] at hi
      by_contra hne
      exact hlast ts.length t (by omega) (by simp) ht
    · refine .inr ⟨ht,hs,⟨u,?_,rfl⟩,fun j v hj hv => hlast j v hj ?_⟩
      · have hi := (List.getElem?_eq_some_iff.mp hu).choose
        simp only [List.length_append,List.length_singleton] at hi
        have hlt : i < ts.length := by
          by_contra hge
          obtain rfl : i = ts.length := by omega
          simp only [List.getElem?_concat_length,Option.some.injEq] at hu
          exact ht (by rw [hu])
        rwa [List.getElem?_append_left hlt] at hu
      · rw [List.getElem?_append_left (List.getElem?_eq_some_iff.mp hv).choose]
        exact hv
  · rintro ⟨hs,⟨ht,rfl⟩ | ⟨ht,-,⟨u,hu,hus⟩,hlast⟩⟩
    · refine ⟨hs,⟨t,by simp,ht⟩,fun j v hj hv => ?_⟩
      have := (List.getElem?_eq_some_iff.mp hv).choose
      simp only [List.length_append,List.length_singleton] at this
      omega
    · refine ⟨hs,⟨u,?_,hus⟩,fun j v hj hv => ?_⟩
      · rw [List.getElem?_append_left (List.getElem?_eq_some_iff.mp hu).choose]
        exact hu
      · by_cases hlt : j < ts.length
        · rw [List.getElem?_append_left hlt] at hv
          exact hlast j v hj hv
        · have hjl := (List.getElem?_eq_some_iff.mp hv).choose
          simp only [List.length_append,List.length_singleton] at hjl
          obtain rfl : j = ts.length := by omega
          simp only [List.getElem?_concat_length,Option.some.injEq] at hv
          rwa [← hv]

/-- The map holds the last index of every nonempty entry, truncated to a byte. -/
theorem indexSingle_eq_some {ts : List String} {s : Bytes} {b : UInt8} :
    indexSingle ts s = some b ↔ ∃ i, LastSingle ts s i ∧ b = UInt8.ofNat i := by
  induction ts using List.reverseRecOn with
  | nil => simp [indexSingle,LastSingle]
  | append_singleton ts t ih =>
      simp only [indexSingle_append,lastSingle_append,indexToken]
      by_cases ht : t = ""
      · subst ht
        rw [if_pos rfl,ih]
        constructor
        · rintro ⟨i,hi,rfl⟩
          exact ⟨i,⟨hi.1,.inr ⟨fun h => hi.1 h.symm,hi⟩⟩,rfl⟩
        · rintro ⟨i,⟨hs,⟨h,-⟩ | ⟨-,h⟩⟩,rfl⟩
          · exact (hs h.symm).elim
          · exact ⟨i,h,rfl⟩
      · rw [if_neg ht]
        have hne : text t ≠ [] := fun h => ht (text_eq_nil.mp h)
        by_cases hs : s = text t
        · subst hs
          simp [hne,eq_comm]
        · rw [Function.update_of_ne hs,ih]
          constructor
          · rintro ⟨i,hi,rfl⟩
            exact ⟨i,⟨hi.1,.inr ⟨fun h => hs h.symm,hi⟩⟩,rfl⟩
          · rintro ⟨i,⟨-,⟨h,-⟩ | ⟨-,h⟩⟩,rfl⟩
            · exact (hs h.symm).elim
            · exact ⟨i,h,rfl⟩

theorem indexList_append (l : List String) (t : String) (di : ℕ) (m : DoubleIndex) :
    indexList m (l++[t],di) = indexPair di (indexList m (l,di)) (t,l.length) := by
  simp [indexList,List.zipIdx_append]

/-- Entries already present are kept; otherwise the entry is added. -/
theorem indexPair_apply (di : ℕ) (m : DoubleIndex) (t : String × ℕ) (s : Bytes) :
    indexPair di m t s = (m s).or
      (if text t.1 = s then some (UInt8.ofNat di,UInt8.ofNat t.2) else none) := by
  unfold indexPair
  split
  · rename_i h
    split
    · rename_i ht
      obtain ⟨v,hv⟩ := Option.isSome_iff_exists.mp (ht ▸ h)
      rw [hv,Option.some_or]
    · rw [Option.or_none]
  · rename_i h
    split
    · rename_i ht
      subst ht
      rw [Option.not_isSome_iff_eq_none.mp h,Function.update_self,Option.none_or]
    · rename_i ht
      rw [Function.update_of_ne (Ne.symm ht),Option.or_none]

theorem indexList_apply (l : List String) (di : ℕ) (m : DoubleIndex) (s : Bytes) :
    indexList m (l,di) s = (m s).or ((l.findIdx? (fun t => text t = s)).map
      fun i => (UInt8.ofNat di,UInt8.ofNat i)) := by
  induction l using List.reverseRecOn with
  | nil => simp [indexList]
  | append_singleton l t ih =>
      rw [indexList_append,indexPair_apply,ih,List.findIdx?_append,Option.or_assoc]
      congr 1
      by_cases ht : text t = s <;> cases l.findIdx? (fun u => decide (text u = s)) <;> simp [ht]

theorem indexDouble_append (ls : List (List String)) (l : List String) :
    indexDouble (ls++[l]) = indexList (indexDouble ls) (l,ls.length) := by
  simp [indexDouble,List.zipIdx_append]

theorem firstDouble_append (ls : List (List String)) (l : List String) (s : Bytes) (di i : ℕ) :
    FirstDouble (ls++[l]) s di i ↔ FirstDouble ls s di i ∨
      ((∀ k ∈ ls, ∀ t ∈ k, text t ≠ s) ∧ di = ls.length ∧
        l.findIdx? (fun t => text t = s) = some i) := by
  constructor
  · rintro ⟨⟨k,hk,hi⟩,hfirst⟩
    by_cases hlt : di < ls.length
    · rw [List.getElem?_append_left hlt] at hk
      refine .inl ⟨⟨k,hk,hi⟩,fun dj v hj hv => hfirst dj v hj ?_⟩
      rwa [List.getElem?_append_left (hj.trans hlt)]
    · have hd := (List.getElem?_eq_some_iff.mp hk).choose
      simp only [List.length_append,List.length_singleton] at hd
      obtain rfl : di = ls.length := by omega
      simp only [List.getElem?_concat_length,Option.some.injEq] at hk
      refine .inr ⟨fun v hv => ?_,rfl,hk ▸ hi⟩
      obtain ⟨dj,hj,rfl⟩ := List.getElem_of_mem hv
      exact hfirst dj _ hj (by rw [List.getElem?_append_left hj,List.getElem?_eq_getElem])
  · rintro (⟨⟨k,hk,hi⟩,hfirst⟩ | ⟨hnone,rfl,hi⟩)
    · have hlt := (List.getElem?_eq_some_iff.mp hk).choose
      refine ⟨⟨k,by rwa [List.getElem?_append_left hlt],hi⟩,fun dj v hj hv => ?_⟩
      rw [List.getElem?_append_left (hj.trans hlt)] at hv
      exact hfirst dj v hj hv
    · refine ⟨⟨l,by simp,hi⟩,fun dj v hj hv => ?_⟩
      rw [List.getElem?_append_left hj] at hv
      exact hnone v (List.mem_of_getElem? hv)

theorem FirstDouble.mem {ls : List (List String)} {s : Bytes} {di i : ℕ}
    (h : FirstDouble ls s di i) : ∃ l ∈ ls, ∃ t ∈ l, text t = s := by
  obtain ⟨⟨l,hl,hi⟩,-⟩ := h
  obtain ⟨hlt,ht,-⟩ := List.findIdx?_eq_some_iff_getElem.mp hi
  exact ⟨l,List.mem_of_getElem? hl,l[i],List.getElem_mem hlt,of_decide_eq_true ht⟩

theorem indexDouble_eq_none {ls : List (List String)} {s : Bytes} :
    indexDouble ls s = none ↔ ∀ l ∈ ls, ∀ t ∈ l, text t ≠ s := by
  induction ls using List.reverseRecOn with
  | nil => simp [indexDouble]
  | append_singleton ls l ih =>
      rw [indexDouble_append,indexList_apply,Option.or_eq_none_iff,ih,Option.map_eq_none_iff,
        List.findIdx?_eq_none_iff]
      simp only [List.mem_append,List.mem_singleton,or_imp,forall_and,forall_eq,
        decide_eq_false_iff_not,ne_eq]

/-- The map holds the first occurrence of every string in the lists. -/
theorem indexDouble_eq_some {ls : List (List String)} {s : Bytes} {p : UInt8 × UInt8} :
    indexDouble ls s = some p ↔
      ∃ di i, FirstDouble ls s di i ∧ p = (UInt8.ofNat di,UInt8.ofNat i) := by
  induction ls using List.reverseRecOn generalizing p with
  | nil => simp [indexDouble,FirstDouble]
  | append_singleton ls l ih =>
      rw [indexDouble_append,indexList_apply,Option.or_eq_some_iff,ih,indexDouble_eq_none]
      simp only [firstDouble_append,Option.map_eq_some_iff]
      constructor
      · rintro (⟨di,i,h,rfl⟩ | ⟨hn,i,hi,rfl⟩)
        · exact ⟨di,i,.inl h,rfl⟩
        · exact ⟨_,i,.inr ⟨hn,rfl,hi⟩,rfl⟩
      · rintro ⟨di,i,h | ⟨hn,rfl,hi⟩,rfl⟩
        · exact .inl ⟨di,i,h,rfl⟩
        · exact .inr ⟨hn,i,hi,rfl⟩

theorem LastSingle.unique {ts : List String} {s : Bytes} {i j : ℕ}
    (hi : LastSingle ts s i) (hj : LastSingle ts s j) : i = j := by
  obtain ⟨t,ht,hts⟩ := hi.2.1
  obtain ⟨u,hu,hus⟩ := hj.2.1
  rcases lt_trichotomy i j with h | h | h
  · exact (hi.2.2 j u h hu hus).elim
  · exact h
  · exact (hj.2.2 i t h ht hts).elim

theorem LastSingle.lt {ts : List String} {s : Bytes} {i : ℕ} (h : LastSingle ts s i) :
    i < ts.length := by
  obtain ⟨t,ht,-⟩ := h.2.1
  exact (List.getElem?_eq_some_iff.mp ht).choose

theorem FirstDouble.lt {ls : List (List String)} {s : Bytes} {di i : ℕ}
    (h : FirstDouble ls s di i) : di < ls.length := by
  obtain ⟨⟨l,hl,-⟩,-⟩ := h
  exact (List.getElem?_eq_some_iff.mp hl).choose

theorem LastSingle.valid {ts : List String} {s : Bytes} {i : ℕ} (h : LastSingle ts s i) :
    utf8Valid s = true := by
  obtain ⟨-,⟨t,-,rfl⟩,-⟩ := h
  exact utf8Valid_text t

theorem FirstDouble.valid {ls : List (List String)} {s : Bytes} {di i : ℕ}
    (h : FirstDouble ls s di i) : utf8Valid s = true := by
  obtain ⟨-,-,t,-,rfl⟩ := h.mem
  exact utf8Valid_text t

theorem FirstDouble.unique {ls : List (List String)} {s : Bytes} {di i dj j : ℕ}
    (hi : FirstDouble ls s di i) (hj : FirstDouble ls s dj j) : di = dj ∧ i = j := by
  have hhit : ∀ {l : List String} {k : ℕ}, l.findIdx? (fun t => text t = s) = some k →
      ∃ t ∈ l, text t = s := fun {l k} hk => by
    obtain ⟨hlt,ht,-⟩ := List.findIdx?_eq_some_iff_getElem.mp hk
    exact ⟨l[k],List.getElem_mem hlt,of_decide_eq_true ht⟩
  obtain ⟨⟨l,hl,hfi⟩,hbefore⟩ := hi
  obtain ⟨⟨l',hl',hfj⟩,hbefore'⟩ := hj
  rcases lt_trichotomy di dj with h | h | h
  · obtain ⟨t,ht,hts⟩ := hhit hfi
    exact (hbefore' di l h hl t ht hts).elim
  · subst h
    cases hl.symm.trans hl'
    exact ⟨rfl,Option.some.inj (hfi.symm.trans hfj)⟩
  · obtain ⟨t,ht,hts⟩ := hhit hfj
    exact (hbefore dj l' h hl' t ht hts).elim

namespace Dictionary

/-- The ranges in which every table index is a byte of its own. -/
structure WellFormed (d : Dictionary) : Prop where
  zero : ∀ t, d.singleByte[0]? = some t → t = ""
  single : d.singleByte.length ≤ 236
  double : ∀ l ∈ d.doubleByte, l.length ≤ 256

theorem indexOfSingle_eq_some (d : Dictionary) {s : Bytes} {b : UInt8} :
    d.indexOfSingle s = some b ↔ ∃ i, LastSingle d.singleByte s i ∧ b = UInt8.ofNat i := by
  rw [indexOfSingle,d.singleIndex_eq,indexSingle_eq_some]

theorem indexOfDouble_eq_some (d : Dictionary) {s : Bytes} {p : UInt8 × UInt8} :
    d.indexOfDouble s = some p ↔
      ∃ di i, FirstDouble d.doubleByte s di i ∧ p = (UInt8.ofNat di,UInt8.ofNat i) := by
  rw [indexOfDouble,d.doubleIndex_eq,indexDouble_eq_some]

theorem singleToken_of_last (d : Dictionary) {s : Bytes} {i : ℕ}
    (h : LastSingle d.singleByte s i) (hi : 1 ≤ i) : d.singleToken i = some s := by
  obtain ⟨hs,⟨t,ht,rfl⟩,-⟩ := h
  have hne : t ≠ "" := fun h => hs (text_eq_nil.mpr h)
  rw [singleToken,if_neg (by omega),ht]
  simp [hne]

theorem doubleToken_of_first (d : Dictionary) {s : Bytes} {di i : ℕ}
    (h : FirstDouble d.doubleByte s di i) : d.doubleToken di i = some s := by
  obtain ⟨⟨l,hl,hi⟩,-⟩ := h
  obtain ⟨hlt,ht,-⟩ := List.findIdx?_eq_some_iff_getElem.mp hi
  rw [doubleToken,hl]
  simp only [List.getElem?_eq_getElem hlt,Option.map_some,of_decide_eq_true ht]

end Dictionary

end BaturWhatsApi.TokenDictionary
