import BaturWhatsApi.JsonStrings
import BaturWhatsApi.JsonValues

/-!
# JSON texts

The text of a value as `encoding/json` writes it, and the reading of a text. The reader takes
blanks between any two tokens, numbers with fractions and exponents, and values that are nested
10000 deep. Reading what was written gives the value, with the invalid bytes of its strings and
names replaced.
-/
namespace BaturWhatsApi.JsonTexts
open ByteStrings Utf8Runes JsonStrings JsonValues

/-! ### Writing -/

def renderNumber (n : Number) : List Char :=
  (if n.negative then ['-'] else [])++Nat.toDigits 10 n.mantissa++
    match n.exponent with
    | none => []
    | some e => 'e'::((if e < 0 then ['-'] else [])++Nat.toDigits 10 e.natAbs)

def opening : Char := '\x7b'

def closing : Char := '\x7d'

mutual
def render : Json → List Char
  | .null => ['n','u','l','l']
  | .bool true => ['t','r','u','e']
  | .bool false => ['f','a','l','s','e']
  | .num n => renderNumber n
  | .str s => quote s
  | .arr [] => ['[',']']
  | .arr (e::es) => '['::(render e++renderElems es++[']'])
  | .obj [] => [opening,closing]
  | .obj ((k,v)::ms) => opening::(quote k++ ':'::render v++renderMembers ms++[closing])
/-- The elements behind the first. -/
def renderElems : List Json → List Char
  | [] => []
  | e::es => ','::(render e++renderElems es)
/-- The members behind the first. -/
def renderMembers : List (Bytes × Json) → List Char
  | [] => []
  | (k,v)::ms => ','::(quote k++ ':'::render v++renderMembers ms)
end

def marshal (j : Json) : Bytes := encode (render j)

/-! ### Reading -/

def blank (c : Char) : Bool := c = ' ' || c = '\t' || c = '\n' || c = '\r'

/-- What is behind a token of one character. -/
def expect (c : Char) (cs : List Char) : Option (List Char) :=
  match cs.dropWhile blank with
  | [] => none
  | x::rest => if x = c then some rest else none

def digits (cs : List Char) : List Char × List Char := cs.span Char.isDigit

def sign (cs : List Char) : Bool × List Char :=
  match cs with
  | c::rest => if c = '-' then (true,rest) else (false,cs)
  | [] => (false,[])

/-- Nothing stands behind a zero at the front. -/
def whole (cs : List Char) : List Char × List Char :=
  match cs with
  | c::rest => if c = '0' then ([c],rest) else digits cs
  | [] => ([],[])

def fraction (cs : List Char) : Option (List Char × List Char) :=
  match cs with
  | c::rest =>
      if c = '.' then
        if (digits rest).1 = [] then none else some (digits rest)
      else some ([],cs)
  | [] => some ([],[])

def exponent (cs : List Char) : Option (Option ℤ × List Char) :=
  match cs with
  | c::rest =>
      if c = 'e' ∨ c = 'E' then
        let (negative,rest) := if rest.head? = some '+' then (false,rest.tail) else sign rest
        let (ds,rest) := digits rest
        let n : ℤ := Nat.ofDigitChars 10 ds 0
        if ds = [] then none else some (some (if negative then -n else n),rest)
      else some (none,cs)
  | [] => some (none,[])

def number (cs : List Char) : Option (Number × List Char) := do
  let (negative,cs) := sign cs
  let (ds,cs) := whole cs
  if ds = [] then none
  else
    let (frac,cs) ← fraction cs
    let (e,cs) ← exponent cs
    let place := if frac = [] then e else some (e.getD 0-frac.length)
    return (⟨negative,Nat.ofDigitChars 10 (ds++frac) 0,place⟩,cs)

def word (w : List Char) (j : Json) (cs : List Char) : Option (Json × List Char) :=
  if w.isPrefixOf cs then some (j,cs.drop w.length) else none

mutual
/-- A value at the front, in at most so many rounds and with so many levels to go. -/
def value : ℕ → ℕ → List Char → Option (Json × List Char)
  | 0,_,_ => none
  | rounds+1,levels,cs =>
      match cs.dropWhile blank with
      | [] => none
      | c::cs =>
          if c = mark then (unquote cs).map fun r => (.str r.1,r.2)
          else if c = '[' then
            match levels with
            | 0 => none
            | levels+1 =>
                match expect ']' cs with
                | some rest => some (.arr [],rest)
                | none => (elements rounds levels cs).map fun r => (.arr r.1,r.2)
          else if c = opening then
            match levels with
            | 0 => none
            | levels+1 =>
                match expect closing cs with
                | some rest => some (.obj [],rest)
                | none => (members rounds levels cs).map fun r => (.obj r.1,r.2)
          else if c = 'n' then word ['u','l','l'] .null cs
          else if c = 't' then word ['r','u','e'] (.bool true) cs
          else if c = 'f' then word ['a','l','s','e'] (.bool false) cs
          else (number (c::cs)).map fun r => (.num r.1,r.2)
def elements : ℕ → ℕ → List Char → Option (List Json × List Char)
  | 0,_,_ => none
  | rounds+1,levels,cs =>
      (value rounds levels cs).bind fun (e,cs) =>
        match expect ',' cs with
        | some cs => (elements rounds levels cs).map fun r => (e::r.1,r.2)
        | none => (expect ']' cs).map fun rest => ([e],rest)
def members : ℕ → ℕ → List Char → Option (List (Bytes × Json) × List Char)
  | 0,_,_ => none
  | rounds+1,levels,cs =>
      ((expect mark cs).bind unquote).bind fun (k,cs) =>
        ((expect ':' cs).bind (value rounds levels)).bind fun (v,cs) =>
          match expect ',' cs with
          | some cs => (members rounds levels cs).map fun r => ((k,v)::r.1,r.2)
          | none => (expect closing cs).map fun rest => ([(k,v)],rest)
end

def maxNestingDepth : ℕ := 10000

/-- Two rounds take at least one character. -/
def parse (cs : List Char) : Option Json :=
  (value (2*cs.length) maxNestingDepth cs).bind fun (j,rest) =>
    if rest.all blank then some j else none

def unmarshal (raw : Bytes) : Option Json := parse (runes raw)

/-! ### What is read back -/

mutual
/-- The value with the invalid bytes of its strings replaced. -/
def coerced : Json → Json
  | .str s => .str (coerce s)
  | .arr es => .arr (coercedElems es)
  | .obj ms => .obj (coercedMembers ms)
  | .null => .null
  | .bool b => .bool b
  | .num n => .num n
def coercedElems : List Json → List Json
  | [] => []
  | e::es => coerced e::coercedElems es
def coercedMembers : List (Bytes × Json) → List (Bytes × Json)
  | [] => []
  | (k,v)::ms => (coerce k,coerced v)::coercedMembers ms
end

mutual
def depth : Json → ℕ
  | .arr es => depthElems es+1
  | .obj ms => depthMembers ms+1
  | _ => 0
def depthElems : List Json → ℕ
  | [] => 0
  | e::es => max (depth e) (depthElems es)
def depthMembers : List (Bytes × Json) → ℕ
  | [] => 0
  | (_,v)::ms => max (depth v) (depthMembers ms)
end

theorem coercedMembers_append (ms ms' : List (Bytes × Json)) :
    coercedMembers (ms++ms') = coercedMembers ms++coercedMembers ms' := by
  induction ms with
  | nil => rfl
  | cons m ms ih => rw [List.cons_append,coercedMembers,ih]; rfl

theorem depthMembers_append (ms ms' : List (Bytes × Json)) :
    depthMembers (ms++ms') = max (depthMembers ms) (depthMembers ms') := by
  induction ms with
  | nil => rw [List.nil_append,depthMembers,Nat.zero_max]
  | cons m ms ih => rw [List.cons_append,depthMembers,depthMembers,ih,Nat.max_assoc]

theorem coercedElems_map {σ : Type} {f : σ → Json} {l : List σ}
    (h : ∀ a ∈ l, coerced (f a) = f a) : coercedElems (l.map f) = l.map f := by
  induction l with
  | nil => rfl
  | cons a l ih =>
      obtain ⟨ha,hl⟩ := List.forall_mem_cons.mp h
      rw [List.map_cons,coercedElems,ha,ih hl]

theorem depthElems_map {σ : Type} {f : σ → Json} {n : ℕ} (h : ∀ a, depth (f a) ≤ n)
    (l : List σ) : depthElems (l.map f) ≤ n := by
  induction l with
  | nil => exact Nat.zero_le n
  | cons a l ih => exact max_le (h a) ih

/-- No number goes on here. -/
def Ends (rest : List Char) : Prop :=
  ∀ c ∈ rest.head?, c.isDigit = false ∧ c ≠ '.' ∧ c ≠ 'e' ∧ c ≠ 'E'

theorem ends_nil : Ends [] := fun _ h => by cases h

theorem ends_cons {c : Char} (hc : c.isDigit = false ∧ c ≠ '.' ∧ c ≠ 'e' ∧ c ≠ 'E')
    (rest : List Char) : Ends (c::rest) := fun _ h => Option.some.inj h ▸ hc

/-! ### Numbers -/

theorem digits_append {ds rest : List Char} (hds : ∀ c ∈ ds, c.isDigit = true)
    (hrest : ∀ c ∈ rest.head?, c.isDigit = false) : digits (ds++rest) = (ds,rest) := by
  have hstop : rest.takeWhile Char.isDigit = [] ∧ rest.dropWhile Char.isDigit = rest := by
    cases rest with
    | nil => exact ⟨rfl,rfl⟩
    | cons c rest => simp [hrest c rfl]
  rw [digits,List.span_eq_takeWhile_dropWhile,List.takeWhile_append_of_pos hds,
    List.dropWhile_append_of_pos hds,hstop.1,hstop.2,List.append_nil]

theorem isDigit_of_mem {n : ℕ} {c : Char} (h : c ∈ Nat.toDigits 10 n) : c.isDigit = true :=
  Nat.isDigit_of_mem_toDigits (b := 10) (by decide) (by decide) h

/-- The text of a number begins with a zero only if it is one. -/
theorem head_toDigits (n : ℕ) (hn : n ≠ 0) : ∃ c cs, Nat.toDigits 10 n = c::cs ∧ c ≠ '0' := by
  induction n using Nat.strong_induction_on with
  | _ n ih =>
      by_cases h : n < 10
      · refine ⟨n.digitChar,[],Nat.toDigits_of_lt_base h,?_⟩
        interval_cases n <;> first | exact absurd rfl hn | decide
      · obtain ⟨c,cs,hc,hne⟩ := ih (n/10) (by omega) (by omega)
        refine ⟨c,cs++[(n % 10).digitChar],?_,hne⟩
        rw [Nat.toDigits_of_base_le (by decide) (Nat.le_of_not_lt h),hc,List.cons_append]

theorem whole_toDigits (n : ℕ) {rest : List Char} (hrest : ∀ c ∈ rest.head?, c.isDigit = false) :
    whole (Nat.toDigits 10 n++rest) = (Nat.toDigits 10 n,rest) := by
  have hdigits := digits_append (fun c hc => isDigit_of_mem (n := n) hc) hrest
  by_cases hn : n = 0
  · subst hn
    rfl
  · obtain ⟨c,cs,hc,hne⟩ := head_toDigits n hn
    rw [hc] at hdigits ⊢
    rw [List.cons_append] at hdigits ⊢
    rw [whole,if_neg hne,hdigits]

theorem toDigits_cons (n : ℕ) : ∃ c cs, Nat.toDigits 10 n = c::cs ∧ c.isDigit = true := by
  obtain ⟨c,cs,hc⟩ := List.exists_cons_of_ne_nil (Nat.toDigits_ne_nil (n := n) (b := 10))
  exact ⟨c,cs,hc,isDigit_of_mem (n := n) (hc ▸ List.mem_cons_self)⟩

theorem sign_toDigits (negative : Bool) (n : ℕ) (rest : List Char) :
    sign ((if negative then ['-'] else [])++Nat.toDigits 10 n++rest) =
      (negative,Nat.toDigits 10 n++rest) := by
  obtain ⟨c,cs,hc,hdigit⟩ := toDigits_cons n
  have hne : c ≠ '-' := by
    rintro rfl
    exact absurd hdigit (by decide)
  cases negative <;> simp [hc,sign,hne]

theorem fraction_none {cs : List Char} (h : ∀ c ∈ cs.head?, c ≠ '.') :
    fraction cs = some ([],cs) := by
  cases cs with
  | nil => rfl
  | cons c cs => rw [fraction,if_neg (h c rfl)]

theorem exponent_none {rest : List Char} (h : Ends rest) : exponent rest = some (none,rest) := by
  cases rest with
  | nil => rfl
  | cons c rest =>
      obtain ⟨_,_,he,hE⟩ := h c rfl
      rw [exponent,if_neg (not_or.mpr ⟨he,hE⟩)]

theorem exponent_some (e : ℤ) {rest : List Char} (h : Ends rest) :
    exponent ('e'::((if e < 0 then ['-'] else [])++Nat.toDigits 10 e.natAbs)++rest) =
      some (some e,rest) := by
  obtain ⟨c,cs,hc,hdigit⟩ := toDigits_cons e.natAbs
  have hplus : ((if e < 0 then ['-'] else [])++Nat.toDigits 10 e.natAbs++rest).head? ≠
      some '+' := by
    have hne : c ≠ '+' := by
      rintro rfl
      exact absurd hdigit (by decide)
    split_ifs <;> simp [hc,hne]
  have hsign := sign_toDigits (decide (e < 0)) e.natAbs rest
  have hdigits := digits_append (fun c hc => isDigit_of_mem (n := e.natAbs) hc)
    fun c hc => (h c hc).1
  simp only [decide_eq_true_eq] at hsign
  rw [List.cons_append,exponent,if_pos (.inl rfl),if_neg hplus,hsign]
  simp only [hdigits,Nat.ofDigitChars_ten_toDigits,if_neg Nat.toDigits_ne_nil,decide_eq_true_eq]
  split_ifs <;> (congr 3; omega)

theorem number_renderNumber (n : Number) {rest : List Char} (h : Ends rest) :
    number (renderNumber n++rest) = some (n,rest) := by
  obtain ⟨negative,mantissa,e⟩ := n
  have htail : ∃ cs, (match e with
      | none => []
      | some e => 'e'::((if e < 0 then ['-'] else [])++Nat.toDigits 10 e.natAbs))++rest = cs ∧
      exponent cs = some (e,rest) ∧ ∀ c ∈ cs.head?, c.isDigit = false ∧ c ≠ '.' := by
    cases e with
    | none => exact ⟨rest,rfl,exponent_none h,fun c hc => ⟨(h c hc).1,(h c hc).2.1⟩⟩
    | some e =>
        refine ⟨_,rfl,exponent_some e h,fun c hc => ?_⟩
        obtain rfl := Option.some.inj hc
        decide
  obtain ⟨cs,hcs,he,hhead⟩ := htail
  rw [renderNumber,List.append_assoc,hcs,number,sign_toDigits]
  simp only [whole_toDigits mantissa fun c hc => (hhead c hc).1,if_neg Nat.toDigits_ne_nil,
    fraction_none fun c hc => (hhead c hc).2,he,Option.bind_eq_bind,Option.bind_some,if_true,
    List.append_nil,Nat.ofDigitChars_ten_toDigits,Option.pure_def]

/-! ### Values -/

theorem expect_cons {c : Char} (hc : blank c = false) (rest : List Char) :
    expect c (c::rest) = some rest := by
  simp [expect,hc]

theorem expect_ne {c x : Char} (hx : blank x = false) (hne : x ≠ c) (rest : List Char) :
    expect c (x::rest) = none := by
  simp [expect,hx,hne]

theorem word_append (w : List Char) (j : Json) (rest : List Char) :
    word w j (w++rest) = some (j,rest) := by
  have hfront : w.isPrefixOf (w++rest) = true := by simp
  rw [word,if_pos hfront,List.drop_left]

/-- The text of a value begins with a character that ends no list. -/
theorem render_cons (j : Json) : ∃ c cs, render j = c::cs ∧ blank c = false ∧ c ≠ ']' := by
  cases j with
  | null => exact ⟨_,_,rfl,by decide,by decide⟩
  | bool b => cases b <;> exact ⟨_,_,rfl,by decide,by decide⟩
  | num n =>
      obtain ⟨c,cs,hc,hdigit⟩ := toDigits_cons n.mantissa
      have hblank : blank c = false ∧ c ≠ ']' := by
        constructor
        · rw [Bool.eq_false_iff]
          intro h
          simp only [blank,Bool.or_eq_true,decide_eq_true_eq] at h
          rcases h with ((rfl | rfl) | rfl) | rfl <;> exact absurd hdigit (by decide)
        · rintro rfl
          exact absurd hdigit (by decide)
      rw [render,renderNumber,hc]
      cases n.negative with
      | true => exact ⟨_,_,rfl,by decide,by decide⟩
      | false => exact ⟨_,_,rfl,hblank⟩
  | str s => exact ⟨_,_,rfl,by decide,by decide⟩
  | arr es => cases es <;> exact ⟨_,_,rfl,by decide,by decide⟩
  | obj ms => rcases ms with _ | ⟨⟨k,v⟩,ms⟩ <;> exact ⟨_,_,rfl,by decide,by decide⟩

mutual
/-- The rounds that reading a value takes. -/
def cost : Json → ℕ
  | .arr es => costElems es+1
  | .obj ms => costMembers ms+1
  | _ => 1
def costElems : List Json → ℕ
  | [] => 0
  | e::es => cost e+costElems es+1
def costMembers : List (Bytes × Json) → ℕ
  | [] => 0
  | (_,v)::ms => cost v+costMembers ms+1
end

theorem cost_pos (j : Json) : 0 < cost j := by
  cases j <;> simp [cost]

theorem dropWhile_blank {c : Char} (hc : blank c = false) (cs : List Char) :
    (c::cs).dropWhile blank = c::cs := List.dropWhile_cons_of_neg (by simp [hc])

theorem value_num {n : Number} {rounds levels : ℕ} {rest : List Char} (h : Ends rest) :
    value (rounds+1) levels (renderNumber n++rest) = some (.num n,rest) := by
  obtain ⟨c,cs,hc,hdigit⟩ := toDigits_cons n.mantissa
  have hfront : ∃ x xs, renderNumber n++rest = x::xs ∧ (x = '-' ∨ x.isDigit = true) := by
    rw [renderNumber,hc]
    cases n.negative with
    | true => exact ⟨_,_,rfl,.inl rfl⟩
    | false => exact ⟨_,_,rfl,.inr hdigit⟩
  have hnumber := number_renderNumber n h
  obtain ⟨x,xs,hx,hfirst⟩ := hfront
  have hother : ∀ y : Char, y ≠ '-' → y.isDigit = false → x ≠ y := by
    rintro y hminus hy rfl
    rcases hfirst with rfl | hfirst
    · exact hminus rfl
    · rw [hy] at hfirst
      cases hfirst
  have hblank : blank x = false := by
    simp only [blank,Bool.or_eq_false_iff,decide_eq_false_iff_not]
    exact ⟨⟨⟨hother _ (by decide) (by decide),hother _ (by decide) (by decide)⟩,
      hother _ (by decide) (by decide)⟩,hother _ (by decide) (by decide)⟩
  rw [hx] at hnumber ⊢
  rw [value,dropWhile_blank hblank]
  simp only [if_neg (hother mark (by decide) (by decide)),
    if_neg (hother '[' (by decide) (by decide)),if_neg (hother opening (by decide) (by decide)),
    if_neg (hother 'n' (by decide) (by decide)),if_neg (hother 't' (by decide) (by decide)),
    if_neg (hother 'f' (by decide) (by decide)),hnumber,Option.map_some]

/-- A string where a string is expected. -/
theorem unquote_front (s : Bytes) (rest : List Char) :
    (expect mark (quote s++rest)).bind unquote = some (coerce s,rest) := by
  have hquote : quote s++rest = mark::((quote s).tail++rest) := rfl
  rw [hquote,expect_cons (by decide),Option.bind_some,unquote_quote]

section
variable (rounds : ℕ)

/-- Values that need at most so many rounds are read back. -/
def ReadsValues : Prop := ∀ (j : Json) (levels : ℕ) (rest : List Char), cost j ≤ rounds →
  depth j ≤ levels → Ends rest → value rounds levels (render j++rest) = some (coerced j,rest)

def ReadsElems : Prop := ∀ (e : Json) (es : List Json) (levels : ℕ) (rest : List Char),
  costElems (e::es) ≤ rounds → depthElems (e::es) ≤ levels →
  elements rounds levels (render e++renderElems es++ ']'::rest) =
    some (coercedElems (e::es),rest)

def ReadsMembers : Prop :=
  ∀ (k : Bytes) (v : Json) (ms : List (Bytes × Json)) (levels : ℕ) (rest : List Char),
    costMembers ((k,v)::ms) ≤ rounds → depthMembers ((k,v)::ms) ≤ levels →
    members rounds levels (quote k++ ':'::render v++renderMembers ms++closing::rest) =
      some (coercedMembers ((k,v)::ms),rest)

end

section
variable {rounds : ℕ}

theorem ReadsValues.succ (helems : ReadsElems rounds) (hmembers : ReadsMembers rounds) :
    ReadsValues (rounds+1) := by
  intro j levels rest hcost hdepth hrest
  cases j with
  | null => exact word_append ['u','l','l'] .null rest
  | bool b =>
      cases b with
      | true => exact word_append ['r','u','e'] (.bool true) rest
      | false => exact word_append ['a','l','s','e'] (.bool false) rest
  | num n => exact value_num hrest
  | str s =>
      have hquote : quote s++rest = mark::((quote s).tail++rest) := rfl
      rw [render,hquote,value,dropWhile_blank (by decide)]
      simp only [if_true,unquote_quote,Option.map_some,coerced]
  | arr es =>
      obtain ⟨levels,rfl⟩ : ∃ n, levels = n+1 := ⟨levels-1,by simp only [depth] at hdepth; omega⟩
      simp only [cost,depth,Nat.add_le_add_iff_right] at hcost hdepth
      cases es with
      | nil => rfl
      | cons e es =>
          obtain ⟨c,cs,hc,hblank,hne⟩ := render_cons e
          have hread := helems e es levels rest hcost hdepth
          have hclose : expect ']' (render e++renderElems es++ ']'::rest) = none := by
            rw [hc]
            exact expect_ne hblank hne _
          have htext : render (.arr (e::es))++rest =
              '['::(render e++renderElems es++ ']'::rest) := by simp [render]
          rw [htext,value,dropWhile_blank (by decide)]
          simp only [show '[' ≠ mark by decide,if_false,if_true,hclose,hread,Option.map_some,coerced]
  | obj ms =>
      obtain ⟨levels,rfl⟩ : ∃ n, levels = n+1 := ⟨levels-1,by simp only [depth] at hdepth; omega⟩
      simp only [cost,depth,Nat.add_le_add_iff_right] at hcost hdepth
      rcases ms with _ | ⟨⟨k,v⟩,ms⟩
      · rfl
      · have hread := hmembers k v ms levels rest hcost hdepth
        have hclose : expect closing (quote k++ ':'::render v++renderMembers ms++closing::rest) =
            none := expect_ne (by decide) (by decide) _
        have htext : render (.obj ((k,v)::ms))++rest =
            opening::(quote k++ ':'::render v++renderMembers ms++closing::rest) := by simp [render]
        rw [htext,value,dropWhile_blank (by decide)]
        simp only [show opening ≠ mark by decide,show opening ≠ '[' by decide,if_false,if_true,
          hclose,hread,Option.map_some,coerced]

theorem ReadsElems.succ (hvalues : ReadsValues rounds) (helems : ReadsElems rounds) :
    ReadsElems (rounds+1) := by
  intro e es levels rest hcost hdepth
  simp only [costElems,depthElems,Nat.add_le_add_iff_right,sup_le_iff] at hcost hdepth
  cases es with
  | nil =>
      have hread := hvalues e levels (']'::rest) (by omega) hdepth.1 (ends_cons (by decide) rest)
      simp only [elements,renderElems,List.append_nil,hread,Option.bind_some,
        expect_ne (show blank ']' = false by decide) (show ']' ≠ ',' by decide),
        expect_cons (show blank ']' = false by decide),Option.map_some,coercedElems]
  | cons e' es =>
      have hcons : cost e+costElems (e'::es) ≤ rounds := hcost
      have hread := hvalues e levels (','::(render e'++renderElems es++ ']'::rest)) (by omega)
        hdepth.1 (ends_cons (by decide) _)
      have hmore := helems e' es levels rest (by omega) hdepth.2
      have htext : render e++renderElems (e'::es)++ ']'::rest =
          render e++ ','::(render e'++renderElems es++ ']'::rest) := by simp [renderElems]
      rw [htext,elements,hread,Option.bind_some]
      simp only [expect_cons (show blank ',' = false by decide),hmore,Option.map_some,coercedElems]

theorem ReadsMembers.succ (hvalues : ReadsValues rounds) (hmembers : ReadsMembers rounds) :
    ReadsMembers (rounds+1) := by
  intro k v ms levels rest hcost hdepth
  simp only [costMembers,depthMembers,Nat.add_le_add_iff_right,sup_le_iff] at hcost hdepth
  cases ms with
  | nil =>
      have hread := hvalues v levels (closing::rest) (by omega) hdepth.1
        (ends_cons (by decide) rest)
      have htext : quote k++ ':'::render v++renderMembers []++closing::rest =
          quote k++(':'::(render v++closing::rest)) := by simp [renderMembers]
      rw [htext,members,unquote_front]
      simp only [Option.bind_some,expect_cons (show blank ':' = false by decide),hread,
        expect_ne (show blank closing = false by decide) (show closing ≠ ',' by decide),
        expect_cons (show blank closing = false by decide),Option.map_some,coercedMembers]
  | cons m ms =>
      obtain ⟨k',v'⟩ := m
      have hcons : cost v+costMembers ((k',v')::ms) ≤ rounds := hcost
      have hread := hvalues v levels
        (','::(quote k'++ ':'::render v'++renderMembers ms++closing::rest)) (by omega) hdepth.1
        (ends_cons (by decide) _)
      have hmore := hmembers k' v' ms levels rest (by omega) hdepth.2
      have htext : quote k++ ':'::render v++renderMembers ((k',v')::ms)++closing::rest =
          quote k++(':'::(render v++
            ','::(quote k'++ ':'::render v'++renderMembers ms++closing::rest))) := by
        simp [renderMembers]
      rw [htext,members,unquote_front]
      simp only [Option.bind_some,expect_cons (show blank ':' = false by decide),hread,
        expect_cons (show blank ',' = false by decide),hmore,Option.map_some,coercedMembers]

end

theorem reads_back (rounds : ℕ) :
    ReadsValues rounds ∧ ReadsElems rounds ∧ ReadsMembers rounds := by
  induction rounds with
  | zero =>
      refine ⟨fun j _ _ hcost => ?_,fun e es _ _ hcost => ?_,fun k v ms _ _ hcost => ?_⟩
      · exact absurd hcost (Nat.not_le.mpr (cost_pos j))
      · simp [costElems] at hcost
      · simp [costMembers] at hcost
  | succ rounds ih =>
      obtain ⟨hvalues,helems,hmembers⟩ := ih
      exact ⟨.succ helems hmembers,.succ hvalues helems,.succ hvalues hmembers⟩

theorem render_pos (j : Json) : 0 < (render j).length := by
  obtain ⟨c,cs,hc,_⟩ := render_cons j
  rw [hc]
  exact Nat.succ_pos _

mutual
/-- The text is long enough for the rounds. -/
theorem cost_le (j : Json) : cost j ≤ 2*(render j).length := by
  cases j with
  | arr es =>
      cases es with
      | nil => decide
      | cons e es =>
          have he := cost_le e
          have hes := costElems_le es
          simp only [cost,costElems,render,List.length_cons,List.length_append]
          omega
  | obj ms =>
      rcases ms with _ | ⟨⟨k,v⟩,ms⟩
      · decide
      · have hv := cost_le v
        have hms := costMembers_le ms
        simp only [cost,costMembers,render,List.length_cons,List.length_append]
        omega
  | null => decide
  | bool b => cases b <;> decide
  | num n =>
      have hpos := render_pos (.num n)
      simp only [cost]
      omega
  | str s =>
      have hpos := render_pos (.str s)
      simp only [cost]
      omega
theorem costElems_le (es : List Json) : costElems es ≤ 2*(renderElems es).length := by
  cases es with
  | nil => decide
  | cons e es =>
      have he := cost_le e
      have hes := costElems_le es
      simp only [costElems,renderElems,List.length_cons,List.length_append]
      omega
theorem costMembers_le (ms : List (Bytes × Json)) :
    costMembers ms ≤ 2*(renderMembers ms).length := by
  rcases ms with _ | ⟨⟨k,v⟩,ms⟩
  · decide
  · have hv := cost_le v
    have hms := costMembers_le ms
    simp only [costMembers,renderMembers,List.length_cons,List.length_append]
    omega
end

/-- What is written is read, with the invalid bytes of its strings replaced. -/
theorem unmarshal_marshal {j : Json} (h : depth j ≤ maxNestingDepth) :
    unmarshal (marshal j) = some (coerced j) := by
  have hread := (reads_back _).1 j maxNestingDepth [] (cost_le j) h ends_nil
  rw [List.append_nil] at hread
  rw [unmarshal,marshal,runes_encode,parse,hread]
  rfl

example : (unmarshal (text " [1.50e+3 , -0,\x7b\"a\":\"\\u00e9\\ud83d\"\x7d]")).map render =
    some "[150e1,-0,\x7b\"a\":\"\u00e9\ufffd\"\x7d]".toList := by
  decide +kernel

end BaturWhatsApi.JsonTexts
