import BaturWhatsApi.NodeModel

/-!
# The node encoder

The encoder appends to a buffer and keeps its first error; after an error every
push is ignored and `Encode` returns that error. A write is therefore the bytes
it appends or the error it raises, and a sequence of writes stops at its first
error. Partial output before an error is discarded, as `Encode` discards it.

Attribute entries are filtered, sorted by key and written in that order. The
recursion prepares the write of every entry first, so that filtering and sorting
do not hide the subterms; a prepared write that is filtered out is never run.
-/
namespace BaturWhatsApi.NodeEncoder
open ByteStrings OrderedEntries TokenDictionary NodeModel

inductive EncodeError where
  | listTooLarge (size : ℕ)
  | blobTooLarge (size : ℕ)
  | unsupported (type : String)
deriving DecidableEq, Repr

abbrev Write := Except EncodeError Bytes

/-- Two writes in sequence. -/
def Write.then (a b : Write) : Write := do
  let x ← a
  let y ← b
  pure (x++y)

theorem Write.then_eq_ok {a b : Write} {w : Bytes} :
    a.then b = .ok w ↔ ∃ x y, a = .ok x ∧ b = .ok y ∧ w = x++y := by
  cases a with
  | error e => exact ⟨fun h => (nomatch h),fun ⟨_,_,h,_⟩ => nomatch h⟩
  | ok x =>
      cases b with
      | error e => exact ⟨fun h => (nomatch h),fun ⟨_,_,_,h,_⟩ => nomatch h⟩
      | ok y =>
          constructor
          · intro h
            cases h
            exact ⟨x,y,rfl,rfl,rfl⟩
          · rintro ⟨x',y',hx,hy,rfl⟩
            cases hx
            cases hy
            rfl

theorem Write.ok_then {x w : Bytes} {b : Write} :
    Write.then (.ok x) b = .ok w ↔ ∃ y, b = .ok y ∧ w = x++y := by
  rw [Write.then_eq_ok]
  constructor
  · rintro ⟨_,y,hx,hb,rfl⟩
    cases hx
    exact ⟨y,hb,rfl⟩
  · rintro ⟨y,hb,rfl⟩
    exact ⟨x,y,rfl,hb,rfl⟩

def writeListStart (size : ℕ) : Write :=
  if size = 0 then .ok [listEmpty]
  else if size < 256 then .ok [list8,UInt8.ofNat size]
  else if size < 65535 then .ok [list16,UInt8.ofNat (size >>> 8),UInt8.ofNat size]
  else .error (.listTooLarge size)

/-- The bound is the largest signed 32-bit number, which is itself refused. -/
def maxInt32 : ℕ := 2147483647

def writeBytesLen (n : ℕ) : Write :=
  if n < 256 then .ok [binary8,UInt8.ofNat n]
  else if n < 1 <<< 20 then
    .ok [binary20,UInt8.ofNat (n >>> 16 &&& 0x0F),UInt8.ofNat (n >>> 8),UInt8.ofNat n]
  else if n < maxInt32 then
    .ok [binary32,UInt8.ofNat (n >>> 24),UInt8.ofNat (n >>> 16),UInt8.ofNat (n >>> 8),
      UInt8.ofNat n]
  else .error (.blobTooLarge n)

def writeBytes (b : Bytes) : Write := (writeBytesLen b.length).then (.ok b)

def isDigit (c : UInt8) : Bool := 48 ≤ c && c ≤ 57

def nibbleChar (c : UInt8) : Bool := isDigit c || c == 45 || c == 46

def hexChar (c : UInt8) : Bool := isDigit c || (65 ≤ c && c ≤ 70)

/-- Packable strings are nonempty, of bounded length and over one alphabet. -/
def packable (char : UInt8 → Bool) (s : Bytes) : Bool :=
  !s.isEmpty && s.length ≤ packedMax && s.all char

def isNibblePackable (s : Bytes) : Bool := packable nibbleChar s

def isHexPackable (s : Bytes) : Bool := packable hexChar s

def packNibble (c : UInt8) : UInt8 :=
  if isDigit c then c-48 else if c = 45 then 10 else if c = 46 then 11 else 15

def packHex (c : UInt8) : UInt8 :=
  if isDigit c then c-48 else if 65 ≤ c && c ≤ 70 then 10+(c-65) else 15

/-- Two characters a byte; an odd last character fills only the high half. -/
def packPairs (pack : UInt8 → UInt8) : Bytes → Bytes
  | [] => []
  | [a] => [pack a <<< 4]
  | a::b::s => (pack a <<< 4 ||| pack b)::packPairs pack s

def packedHead (n : ℕ) : UInt8 :=
  let round := UInt8.ofNat ((n+1)/2)
  if n % 2 ≠ 0 then round ||| 0x80 else round

def writePacked (s : Bytes) (tag : UInt8) (pack : UInt8 → UInt8) : Write :=
  .ok (tag::packedHead s.length::packPairs pack s)

def writeString (d : Dictionary) (s : Bytes) : Write :=
  match d.indexOfSingle s with
  | some i => .ok [i]
  | none =>
      match d.indexOfDouble s with
      | some (di,i) => .ok [UInt8.ofNat (dictionary0.toNat+di.toNat),i]
      | none =>
          if isNibblePackable s then writePacked s nibble8 packNibble
          else if isHexPackable s then writePacked s hex8 packHex
          else writeBytes s

def writeUint16 (n : UInt16) : Bytes := [UInt8.ofNat (n.toNat >>> 8),UInt8.ofNat n.toNat]

def writeJID (d : Dictionary) (j : JID) : Write :=
  if j.isADJIDEncodable then
    Write.then (.ok [adJID,j.actualAgent,UInt8.ofNat (j.device.toNat &&& 0xFF)])
      (writeString d j.user)
  else if j.server = serverMSGram then
    Write.then (.ok [fbJID]) ((writeString d j.user).then
      (Write.then (.ok (writeUint16 j.device)) (writeString d j.server)))
  else if j.server = serverInterop then
    Write.then (.ok [interopJID]) ((writeString d j.user).then
      (Write.then (.ok (writeUint16 j.device))
        (Write.then (.ok (writeUint16 j.integrator)) (writeString d j.server))))
  else
    Write.then (.ok [jidPair]) (Write.then
      (if j.user = [] then .ok [listEmpty] else writeString d j.user) (writeString d j.server))

/-- The writes of a list of entries, in order. -/
def writeAll : List (Bytes × Write) → Write
  | [] => .ok []
  | e::es => e.2.then (writeAll es)

/-- The legacy null node has this tag. -/
def nullTag : Bytes := text "0"

mutual
def writeNode (d : Dictionary) : Node → Write
  | .mk t as c =>
      if t = nullTag then .ok [list8,listEmpty]
      else
        let attrs := sortByKey (countableAttrs d as)
        (writeListStart (2*attrs.length+1+if c.isNil then 0 else 1)).then
          ((writeString d t).then
            ((writeAll attrs).then (if c.isNil then .ok [] else write d c)))
def write (d : Dictionary) : Value → Write
  | .nil => .ok [listEmpty]
  | .node n => writeNode d n
  | .nodes ns => (writeListStart ns.length).then (writeNodes d ns)
  | .jid j => writeJID d j
  | .str s => writeString d s
  | .bytes b => writeBytes b
  | .bool b => writeString d (formatBool b)
  | .int i => writeString d (formatInt i.toInt)
  | .int32 i => writeString d (formatInt i.toInt)
  | .int64 i => writeString d (formatInt i.toInt)
  | .uint n => writeString d (formatUint n.toNat)
  | .uint32 n => writeString d (formatUint n.toNat)
  | .uint64 n => writeString d (formatUint n.toNat)
  | .other type => .error (.unsupported type)
def writeNodes (d : Dictionary) : List Node → Write
  | [] => .ok []
  | n::ns => (writeNode d n).then (writeNodes d ns)
/-- Nil and empty-string attributes are left out; the others keep their key and
the write of the key followed by the value. -/
def countableAttrs (d : Dictionary) : List (Bytes × Value) → List (Bytes × Write)
  | [] => []
  | (k,v)::as =>
      if v.dropped then countableAttrs d as
      else (k,(writeString d k).then (write d v))::countableAttrs d as
end

def encode (n : Node) (d : Dictionary) : Write := writeNode d n

/-- The flag byte marks an uncompressed stream; a failed encoding yields nothing. -/
def marshalDict (n : Node) (d : Dictionary) : Bytes :=
  match encode n d with
  | .error _ => []
  | .ok stream => 0::stream

end BaturWhatsApi.NodeEncoder
