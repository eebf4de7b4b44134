import BaturWhatsApi.Utf8Runes

/-!
# Strings as `encoding/json` writes and reads them

A string is copied between quotes rune by rune. The quote, the backslash, control characters, the
characters special in HTML and the two Unicode line separators are escaped; a byte that begins no
valid rune is written as the replacement character. A reader takes every escape of the standard,
and a surrogate without its partner is the replacement character again.

What is read from a written string is the string with its invalid bytes replaced.
-/
namespace BaturWhatsApi.JsonStrings
open ByteStrings Utf8Runes

def mark : Char := '\x22'

def backslash : Char := '\x5c'

/-! ### Writing -/

/-- The letter of a short escape. -/
def shortEscape (c : Char) : Option Char :=
  if c = mark ∨ c = backslash then some c
  else if c = '\x08' then some 'b'
  else if c = '\x0c' then some 'f'
  else if c = '\n' then some 'n'
  else if c = '\r' then some 'r'
  else if c = '\t' then some 't'
  else none

/-- Runes that are written by their number. -/
def numbered (c : Char) : Bool :=
  c < ' ' || c = '<' || c = '>' || c = '&' || c = '\u2028' || c = '\u2029'

def hex4 (n : ℕ) : List Char :=
  [(n/4096 % 16).digitChar,(n/256 % 16).digitChar,(n/16 % 16).digitChar,(n % 16).digitChar]

def escapeRune (c : Char) : List Char :=
  match shortEscape c with
  | some e => [backslash,e]
  | none => if numbered c then backslash:: 'u'::hex4 c.toNat else [c]

def quote (s : Bytes) : List Char := mark::((runes s).flatMap escapeRune++[mark])

/-! ### Reading -/

/-- A part of a string: a rune, or a unit of UTF-16. -/
inductive Piece where
  | rune (c : Char)
  | unit (n : ℕ)

def readHex (c : Char) : Option ℕ :=
  if '0' ≤ c ∧ c ≤ '9' then some (c.toNat-48)
  else if 'a' ≤ c ∧ c ≤ 'f' then some (c.toNat-87)
  else if 'A' ≤ c ∧ c ≤ 'F' then some (c.toNat-55)
  else none

def readUnit (w x y z : Char) : Option ℕ := do
  return ((← readHex w)*16+(← readHex x))*256+((← readHex y)*16+(← readHex z))

def escaped (e : Char) : Option Char :=
  if e = mark ∨ e = backslash ∨ e = '/' then some e
  else if e = 'b' then some '\x08'
  else if e = 'f' then some '\x0c'
  else if e = 'n' then some '\n'
  else if e = 'r' then some '\r'
  else if e = 't' then some '\t'
  else none

def push (p : Piece) (r : List Piece × List Char) : List Piece × List Char := (p::r.1,r.2)

/-- The parts of a string up to its closing quote, and what is behind it. -/
def pieces : List Char → Option (List Piece × List Char)
  | [] => none
  | c::cs =>
      if c = mark then some ([],cs)
      else if c = backslash then
        match cs with
        | [] => none
        | e::cs =>
            if e = 'u' then
              match cs with
              | w::x::y::z::cs => (readUnit w x y z).bind fun n => (pieces cs).map (push (.unit n))
              | _ => none
            else (escaped e).bind fun c => (pieces cs).map (push (.rune c))
      else if c < ' ' then none
      else (pieces cs).map (push (.rune c))

def high (n : ℕ) : Bool := 0xD800 ≤ n && n < 0xDC00

def low (n : ℕ) : Bool := 0xDC00 ≤ n && n < 0xE000

/-- The rune of a unit that stands alone. -/
def single (n : ℕ) : Char := if high n || low n then replacement else Char.ofNat n

/-- Two surrogates are one rune. -/
def join : List Piece → List Char
  | [] => []
  | .rune c::ps => c::join ps
  | .unit n::.unit m::ps =>
      if high n && low m then Char.ofNat (0x10000+(n-0xD800)*0x400+(m-0xDC00))::join ps
      else single n::join (.unit m::ps)
  | .unit n::ps => single n::join ps

/-- A string behind its opening quote. -/
def unquote (cs : List Char) : Option (Bytes × List Char) :=
  (pieces cs).map fun r => (encode (join r.1),r.2)

/-! ### Reading what was written -/

/-- How a rune is written. -/
def pieceOf (c : Char) : Piece :=
  if shortEscape c = none ∧ numbered c then .unit c.toNat else .rune c

theorem shortEscape_some {c e : Char} (h : shortEscape c = some e) :
    escaped e = some c ∧ e ≠ 'u' := by
  unfold shortEscape at h
  split_ifs at h with h₁ h₂ h₃ h₄ h₅ h₆
  · obtain rfl := Option.some.inj h
    rcases h₁ with rfl | rfl <;> decide
  all_goals
    subst_vars
    obtain rfl := Option.some.inj h
    decide

theorem shortEscape_none {c : Char} (h : shortEscape c = none) : c ≠ mark ∧ c ≠ backslash := by
  unfold shortEscape at h
  split_ifs at h with h₁
  exact not_or.mp h₁

theorem readHex_digitChar {d : ℕ} (h : d < 16) : readHex d.digitChar = some d := by
  interval_cases d <;> decide

theorem readUnit_hex4 {n : ℕ} (h : n < 65536) :
    readUnit (n/4096 % 16).digitChar (n/256 % 16).digitChar (n/16 % 16).digitChar
      (n % 16).digitChar = some n := by
  have hdigit : ∀ k, readHex (k % 16).digitChar = some (k % 16) :=
    fun k => readHex_digitChar (Nat.mod_lt k (by decide))
  simp only [readUnit,hdigit,Option.pure_def,Option.bind_eq_bind,Option.bind_some]
  congr 1
  omega

theorem toNat_lt_of_numbered {c : Char} (h : numbered c) : c.toNat < 65536 := by
  simp only [numbered,Bool.or_eq_true,decide_eq_true_eq] at h
  rcases h with ((((h | rfl) | rfl) | rfl) | rfl) | rfl
  · have hlt : c.toNat < 32 := h
    omega
  all_goals decide

theorem pieces_escapeRune (c : Char) (rest : List Char) :
    pieces (escapeRune c++rest) = (pieces rest).map (push (pieceOf c)) := by
  have hne : backslash ≠ mark := by decide
  rw [escapeRune,pieceOf]
  cases hshort : shortEscape c with
  | some e =>
      obtain ⟨hread,hu⟩ := shortEscape_some hshort
      rw [pieces.eq_def]
      simp [hne,hu,hread]
  | none =>
      obtain ⟨hmark,hslash⟩ := shortEscape_none hshort
      rw [pieces.eq_def]
      cases hnum : numbered c with
      | true => simp [hne,hex4,readUnit_hex4 (toNat_lt_of_numbered hnum)]
      | false =>
          have hspace : ¬c < ' ' := by
            simp only [numbered,Bool.or_eq_false_iff,decide_eq_false_iff_not] at hnum
            exact hnum.1.1.1.1.1
          simp [hmark,hslash,hspace]

theorem not_surrogate (c : Char) : high c.toNat = false ∧ low c.toNat = false := by
  have hvalid := c.valid
  simp only [high,low,Bool.and_eq_false_iff,decide_eq_false_iff_not]
  rcases hvalid with h | ⟨h,_⟩
  · have hlt : c.toNat < 0xD800 := h
    omega
  · have hlt : 0xDFFF < c.toNat := h
    omega

theorem single_toNat (c : Char) : single c.toNat = c := by
  simp [single,not_surrogate c]

theorem join_pieceOf (c : Char) (ps : List Piece) : join (pieceOf c::ps) = c::join ps := by
  rw [pieceOf]
  split_ifs
  · cases ps with
    | nil => simp [join,single_toNat]
    | cons p ps =>
        cases p with
        | rune d => simp [join,single_toNat]
        | unit m => simp [join,single_toNat,not_surrogate c]
  · rfl

theorem pieces_flatMap (cs rest : List Char) :
    pieces (cs.flatMap escapeRune++mark::rest) = some (cs.map pieceOf,rest) := by
  induction cs with
  | nil =>
      rw [pieces.eq_def]
      simp
  | cons c cs ih =>
      rw [List.flatMap_cons,List.append_assoc,pieces_escapeRune,ih]
      rfl

theorem join_map (cs : List Char) : join (cs.map pieceOf) = cs := by
  induction cs with
  | nil => rfl
  | cons c cs ih => rw [List.map_cons,join_pieceOf,ih]

/-- A written string is read with its invalid bytes replaced. -/
theorem unquote_quote (s : Bytes) (rest : List Char) :
    unquote ((quote s).tail++rest) = some (coerce s,rest) := by
  have htail : (quote s).tail++rest = (runes s).flatMap escapeRune++mark::rest := by simp [quote]
  rw [htail,unquote,pieces_flatMap,Option.map_some,join_map]
  rfl

example : quote (text "a<\"\n"++[0xFF]) = "\"a\\u003c\\\"\\n\ufffd\"".toList := by
  decide +kernel

end BaturWhatsApi.JsonStrings
