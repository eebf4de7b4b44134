import BaturWhatsApi.NodeEncoder
import BaturWhatsApi.PositionalReaders

/-!
# The node decoder

The reader bodies follow `protocol/binary/decoder.go` and share one retained
input with a position; one of them steps back over a byte it has read. The
mutual recursion of nodes, contents, lists and JIDs passes through `readContent`
alone: every other body takes the content reader it calls as an argument, and
`contentUpTo` ties the knot on a natural number. Running out of that number is
an error of its own; `readContent` supplies more than the input can use, and
`readContent_eq` recovers the equation of the source.

Errors keep the data of the source messages. Inflating a compressed payload is
the standard library's and enters as a function.
-/
namespace BaturWhatsApi.NodeDecoder
open ByteStrings OrderedEntries TokenDictionary NodeModel NodeEncoder
open PositionalReaders PositionalReaders.Reader

/-- The dynamic type named by a failed type assertion. -/
inductive Kind where
  | nil | str | bytes | jid | nodes | unsupported
deriving DecidableEq, Repr

def Kind.of : Value → Kind
  | .nil => .nil
  | .str _ => .str
  | .bytes _ => .bytes
  | .jid _ => .jid
  | .nodes _ => .nodes
  | _ => .unsupported

/-- The last constructor is not an error of the source and is never returned. -/
inductive DecodeError where
  | truncated (need : ℕ) (have_ : ℤ)
  | listTag (tag : UInt8) (index : ℕ)
  | emptyList (index : ℤ)
  | invalidNode
  | nodeTag (got : Kind)
  | nonStringKey (got : Kind) (index : ℕ)
  | doubleToken (tag i : UInt8) (index : ℕ)
  | token (tag : UInt8) (index : ℤ)
  | oddEmpty
  | nibble (v : UInt8)
  | hex (v : UInt8)
  | packTag (tag : UInt8)
  | jidServer
  | trailing (left : ℤ)
  | empty
  | inflate (cause : String)
  | unknownFlag (flag : UInt8)
  | exhausted
deriving DecidableEq, Repr

abbrev Read (α : Type) := Reader UInt8 DecodeError α

def truncated (n : ℕ) (d : Bytes) (i : ℕ) : DecodeError :=
  .truncated n ((d.length : ℤ)-i)

def readRaw (n : ℕ) : Read Bytes := block (truncated n) n

def readByte : Read UInt8 := do
  let b ← readRaw 1
  pure (b.headD 0)

def readInt (n : ℕ) : Read ℕ := do
  let b ← readRaw n
  pure (bigEndian b)

def listSize (tag : UInt8) : Read ℕ :=
  if tag = listEmpty then pure 0
  else if tag = list8 then readInt 1
  else if tag = list16 then readInt 2
  else failAt (.listTag tag)

def tag20 (a b c : UInt8) : ℕ := (a &&& 0x0F).toNat <<< 16 ||| b.toNat <<< 8 ||| c.toNat

def readTag20 : Read ℕ := do
  let b ← readRaw 3
  match b with
  | [x,y,z] => pure (tag20 x y z)
  | _ => pure 0

def bytesOrString (n : ℕ) (asString : Bool) : Read Value := do
  let raw ← readRaw n
  if asString && utf8Valid raw then pure (.str raw) else pure (.bytes raw)

def unpackByte (tag v : UInt8) : Except DecodeError UInt8 :=
  if tag = nibble8 then
    if v < 10 then .ok (48+v)
    else if v = 10 then .ok 45
    else if v = 11 then .ok 46
    else if v = 15 then .ok 0
    else .error (.nibble v)
  else if tag = hex8 then
    if v < 10 then .ok (48+v)
    else if v < 16 then .ok (65+(v-10))
    else .error (.hex v)
  else .error (.packTag tag)

/-- Both halves of every byte, high half first. -/
def unpackBytes (tag : UInt8) : Bytes → Except DecodeError Bytes
  | [] => .ok []
  | b::bs => do
      let c₁ ← unpackByte tag (b >>> 4)
      let c₂ ← unpackByte tag (b &&& 0x0F)
      let cs ← unpackBytes tag bs
      pure (c₁::c₂::cs)

def readPacked8 (tag : UInt8) : Read Bytes := do
  let head ← readByte
  let raw ← readRaw (head &&& 0x7F).toNat
  match unpackBytes tag raw with
  | .error e => fail e
  | .ok s =>
      if head &&& 0x80 ≠ 0 then
        if s.length = 0 then fail .oddEmpty else pure s.dropLast
      else pure s

section Bodies
variable (content : Bool → Read Value)

def readStringLike : Read Value := do
  let v ← content false
  match v with
  | .bytes b => pure (.str b)
  | .jid j => pure (.str j.string)
  | v => pure v

def readJIDPair : Read Value := do
  let user ← readStringLike content
  let server ← readStringLike content
  match server with
  | .str s =>
      if s = [] then fail .jidServer
      else match user with
        | .str u => pure (.jid (newJID u s))
        | _ => pure (.jid (newJID [] s))
  | _ => fail .jidServer

def readADJID : Read Value := do
  let agent ← readByte
  let device ← readByte
  let user ← readStringLike content
  match user with
  | .str u => pure (.jid (newADJID u agent device))
  | _ => pure (.jid (newADJID [] agent device))

def toStringOrBytes : Value → Bytes
  | .str s => s
  | .bytes b => b
  | v => sprintValue v

def readFBJID : Read Value := do
  let user ← readStringLike content
  let device ← readInt 2
  let server ← readStringLike content
  pure (.jid
    {user := toStringOrBytes user,device := UInt16.ofNat device,server := toStringOrBytes server})

def readInteropJID : Read Value := do
  let user ← readStringLike content
  let device ← readInt 2
  let integrator ← readInt 2
  let server ← readStringLike content
  pure (.jid
    {user := toStringOrBytes user,device := UInt16.ofNat device,
     integrator := UInt16.ofNat integrator,server := toStringOrBytes server})

/-- One iteration of the attribute loop. -/
def readAttr : Read (Bytes × Value) := do
  let key ← readStringLike content
  match key with
  | .str k =>
      let val ← content true
      pure (k,val)
  | v => failAt (.nonStringKey (Kind.of v))

/-- The part of `ReadNode` after the list header. -/
def readFields (size : ℕ) : Read Node := do
  let rawTag ← readStringLike content
  match rawTag with
  | .str t =>
      let attrs ← times ((size-1) >>> 1) (readAttr content)
      if size % 2 = 0 then
        let c ← content true
        pure (.mk t (ofPairs attrs) c)
      else pure (.mk t (ofPairs attrs) .nil)
  | v => fail (.nodeTag (Kind.of v))

def readNodeBody : Read Node := do
  let tag ← readByte
  if tag = listEmpty then failAt (fun i => .emptyList ((i : ℤ)-1))
  else
    let size ← listSize tag
    if tag = list8 ∧ size = 0 then pure (.mk nullTag [] .nil)
    else if size = 0 then fail .invalidNode
    else readFields content size

def readList : Read Value := do
  let tag ← readByte
  let size ← listSize tag
  let ns ← times size (readNodeBody content)
  pure (.nodes ns)

def readContentBody (dict : Dictionary) (asString : Bool) : Read Value := do
  let tag ← readByte
  if tag = listEmpty then pure .nil
  else if tag = list8 ∨ tag = list16 then stepBack (readList content)
  else if tag = binary8 then
    let size ← readInt 1
    bytesOrString size asString
  else if tag = binary20 then
    let size ← readTag20
    bytesOrString size asString
  else if tag = binary32 then
    let size ← readInt 4
    bytesOrString size asString
  else if tag = dictionary0 ∨ tag = dictionary1 ∨ tag = dictionary2 ∨ tag = dictionary3 then
    let i ← readByte
    match dict.doubleToken (tag.toNat-dictionary0.toNat) i.toNat with
    | some s => pure (.str s)
    | none => failAt (.doubleToken tag i)
  else if tag = fbJID then readFBJID content
  else if tag = interopJID then readInteropJID content
  else if tag = jidPair then readJIDPair content
  else if tag = adJID then readADJID content
  else if tag = nibble8 ∨ tag = hex8 then
    let s ← readPacked8 tag
    pure (.str s)
  else
    match dict.singleToken tag.toNat with
    | some s => pure (.str s)
    | none => failAt (fun i => .token tag ((i : ℤ)-1))

end Bodies

/-- The recursion, cut off at a given depth. -/
def contentUpTo (dict : Dictionary) : ℕ → Bool → Read Value
  | 0,_ => fail .exhausted
  | fuel+1,asString => readContentBody (contentUpTo dict fuel) dict asString

/-- One byte passes at every nested call, so the input bounds the depth. -/
def readContent (dict : Dictionary) (asString : Bool) : Read Value :=
  limit fun fuel => contentUpTo dict fuel asString

def readNode (dict : Dictionary) : Read Node := readNodeBody (readContent dict)

/-- The loop of `DecodeStream`; every iteration advances. -/
def decodeLoop (dict : Dictionary) (stream : Bytes) : ℕ → ℕ → Except DecodeError (List Node)
  | 0,_ => .error .exhausted
  | fuel+1,i =>
      if i < stream.length then
        match readNode dict stream i with
        | .error e => .error e
        | .ok (n,j) =>
            match decodeLoop dict stream fuel j with
            | .error e => .error e
            | .ok ns => .ok (n::ns)
      else .ok []

def decodeStream (dict : Dictionary) (stream : Bytes) : Except DecodeError (List Node) :=
  decodeLoop dict stream (stream.length+1) 0

section Payload
variable (inflate : Bytes → Except String Bytes)

def streamFlagRaw : UInt8 := 0x00
def streamFlagZlib : UInt8 := 0x02

def unpack : Bytes → Except DecodeError Bytes
  | [] => .error .empty
  | flag::body =>
      if flag &&& streamFlagZlib ≠ 0 then
        match inflate body with
        | .error e => .error (.inflate e)
        | .ok out => .ok out
      else if flag = streamFlagRaw then .ok body
      else .error (.unknownFlag flag)

def decode (dict : Dictionary) (payload : Bytes) : Except DecodeError Node :=
  match unpack inflate payload with
  | .error e => .error e
  | .ok stream =>
      match readNode dict stream 0 with
      | .error e => .error e
      | .ok (n,j) =>
          if j ≠ stream.length then .error (.trailing ((stream.length : ℤ)-j)) else .ok n

end Payload

end BaturWhatsApi.NodeDecoder
