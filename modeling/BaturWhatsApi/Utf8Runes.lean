import BaturWhatsApi.ByteStrings

/-!
# Strings rune by rune

A string is any sequence of bytes. Read rune by rune, a byte that begins no valid rune stands for
the replacement character. What is written back is valid text: the string itself where it was
valid, and the string with its invalid bytes replaced where it was not.
-/
namespace BaturWhatsApi.Utf8Runes
open ByteStrings

/-- The rune at the front, of at most four bytes. -/
def runeAt (s : Bytes) : Option Char := (ByteArray.mk (s.take 4).toArray).utf8DecodeChar? 0

def replacement : Char := '\ufffd'

/-- The runes of a string, in at most so many rounds. -/
def runesUpTo : ℕ → Bytes → List Char
  | 0,_ => []
  | _+1,[] => []
  | rounds+1,b::rest =>
      match runeAt (b::rest) with
      | none => replacement::runesUpTo rounds rest
      | some c => c::runesUpTo rounds ((b::rest).drop c.utf8Size)

/-- Every round takes at least one byte, so the length of the string is enough rounds. -/
def runes (s : Bytes) : List Char := runesUpTo s.length s

def encode (cs : List Char) : Bytes := cs.flatMap String.utf8EncodeChar

/-- The string with its invalid bytes replaced. -/
def coerce (s : Bytes) : Bytes := encode (runes s)

@[simp] theorem encode_cons (c : Char) (cs : List Char) :
    encode (c::cs) = String.utf8EncodeChar c++encode cs := rfl

theorem length_encodeChar (c : Char) : (String.utf8EncodeChar c).length = c.utf8Size :=
  String.length_utf8EncodeChar c

theorem runeAt_encode (c : Char) (rest : Bytes) :
    runeAt (String.utf8EncodeChar c++rest) = some c := by
  have hlen : (String.utf8EncodeChar c).length ≤ 4 := by
    rw [length_encodeChar]
    exact c.utf8Size_le_four
  have hsplit : ByteArray.mk ((String.utf8EncodeChar c++rest).take 4).toArray =
      (String.utf8EncodeChar c).toByteArray++ByteArray.mk
        (rest.take (4-(String.utf8EncodeChar c).length)).toArray := by
    rw [List.take_append,List.take_of_length_le hlen]
    apply ByteArray.ext
    simp
  rw [runeAt,hsplit]
  exact ByteArray.utf8DecodeChar?_utf8EncodeChar_append

theorem runesUpTo_encode (cs : List Char) {rounds : ℕ} (h : (encode cs).length ≤ rounds) :
    runesUpTo rounds (encode cs) = cs := by
  induction cs generalizing rounds with
  | nil => cases rounds <;> rfl
  | cons c cs ih =>
      have hpos := c.utf8Size_pos
      have hlen := length_encodeChar c
      rw [encode_cons,List.length_append,hlen] at h
      obtain ⟨n,rfl⟩ : ∃ n, rounds = n+1 := ⟨rounds-1,by omega⟩
      obtain ⟨b,bs,hb⟩ := List.exists_cons_of_ne_nil (String.utf8EncodeChar_ne_nil (c := c))
      have hfront := runeAt_encode c (encode cs)
      have hrest : (String.utf8EncodeChar c++encode cs).drop c.utf8Size = encode cs := by
        rw [← hlen,List.drop_left]
      rw [encode_cons]
      rw [hb,List.cons_append] at hfront hrest ⊢
      simp only [runesUpTo,hfront,hrest]
      rw [ih (by omega)]

/-- The runes of what was written are the runes that were written. -/
@[simp] theorem runes_encode (cs : List Char) : runes (encode cs) = cs :=
  runesUpTo_encode cs le_rfl

theorem utf8Valid_encode (cs : List Char) : utf8Valid (encode cs) = true := by
  rw [utf8Valid_iff]
  refine ⟨cs,?_⟩
  rw [List.utf8Encode]
  apply ByteArray.ext
  simp [encode]

theorem exists_encode_of_utf8Valid {s : Bytes} (h : utf8Valid s = true) : ∃ cs, s = encode cs := by
  rw [utf8Valid_iff] at h
  obtain ⟨cs,hcs⟩ := h
  refine ⟨cs,?_⟩
  have hdata := congrArg (fun b : ByteArray => b.data.toList) hcs
  simpa [List.utf8Encode,encode] using hdata

@[simp] theorem coerce_encode (cs : List Char) : coerce (encode cs) = encode cs := by
  rw [coerce,runes_encode]

/-- Valid text is kept. -/
theorem coerce_of_utf8Valid {s : Bytes} (h : utf8Valid s = true) : coerce s = s := by
  obtain ⟨cs,rfl⟩ := exists_encode_of_utf8Valid h
  exact coerce_encode cs

@[simp] theorem coerce_text (s : String) : coerce (text s) = text s :=
  coerce_of_utf8Valid (utf8Valid_text s)

theorem text_ofList (cs : List Char) : text (String.ofList cs) = encode cs := by
  rw [text,String.toByteArray_ofList,List.utf8Encode]
  simp [encode]

/-- A literal is made of the runes of its bytes. -/
theorem ofList_runes_text (s : String) : String.ofList (runes (text s)) = s := by
  obtain ⟨cs,hcs⟩ := exists_encode_of_utf8Valid (utf8Valid_text s)
  rw [hcs,runes_encode]
  exact text_injective ((text_ofList cs).trans hcs.symm)

theorem utf8Valid_coerce (s : Bytes) : utf8Valid (coerce s) = true := utf8Valid_encode (runes s)

theorem coerce_eq_self_iff {s : Bytes} : coerce s = s ↔ utf8Valid s = true :=
  ⟨fun h => h ▸ utf8Valid_coerce s,coerce_of_utf8Valid⟩

theorem coerce_eq_nil_iff {s : Bytes} : coerce s = [] ↔ s = [] := by
  refine ⟨fun h => ?_,fun h => by rw [h]; rfl⟩
  cases s with
  | nil => rfl
  | cons b rest =>
      rw [coerce,runes,List.length_cons,runesUpTo] at h
      split at h <;> simp [String.utf8EncodeChar_ne_nil] at h

example : coerce [97,0xFF,0xC3,0xA9,0xC3] = [97,0xEF,0xBF,0xBD,0xC3,0xA9,0xEF,0xBF,0xBD] := by
  decide +kernel

end BaturWhatsApi.Utf8Runes
