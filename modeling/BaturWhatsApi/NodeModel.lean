import BaturWhatsApi.OrderedEntries
import BaturWhatsApi.TokenDictionary

/-!
# Protocol nodes, attribute values and JIDs

A node has a tag, an attribute map and a content value. An attribute or content
value is one of the dynamic types the encoder switches on; every other dynamic
type is the single case `other`. The attribute map is kept as its entries in
key order, and `Mapped` states that this is the case; `Every` carries such a
condition to all levels of a tree.

Formatting follows the standard library: decimal numbers, booleans, the text of
a JID, and the default format of a nested value inside a formatted list.
-/
namespace BaturWhatsApi.NodeModel
open ByteStrings OrderedEntries

structure JID where
  user : Bytes
  rawAgent : UInt8 := 0
  device : UInt16 := 0
  integrator : UInt16 := 0
  server : Bytes
deriving DecidableEq, Repr

def serverUser : Bytes := text "s.whatsapp.net"
def serverLID : Bytes := text "lid"
def serverMSGram : Bytes := text "msgr"
def serverInterop : Bytes := text "interop"
def serverHosted : Bytes := text "hosted"
def serverHostedLID : Bytes := text "hosted.lid"

def agentWhatsApp : UInt8 := 0
def agentLID : UInt8 := 1
def agentHosted : UInt8 := 128
def agentHostedLID : UInt8 := 129

def newJID (user server : Bytes) : JID := {user := user,server := server}

def newADJID (user : Bytes) (agent device : UInt8) : JID :=
  if agent = agentLID then {user := user,device := device.toUInt16,server := serverLID}
  else if agent = agentHosted then
    {user := user,device := device.toUInt16,server := serverHosted}
  else if agent = agentHostedLID then
    {user := user,device := device.toUInt16,server := serverHostedLID}
  else if agent = agentWhatsApp then
    {user := user,device := device.toUInt16,server := serverUser}
  else {user := user,rawAgent := agent,device := device.toUInt16,server := serverUser}

namespace JID

def actualAgent (j : JID) : UInt8 :=
  if j.server = serverUser then agentWhatsApp
  else if j.server = serverLID then agentLID
  else if j.server = serverHosted then agentHosted
  else if j.server = serverHostedLID then agentHostedLID
  else j.rawAgent

/-- The four servers whose JIDs may carry a device byte on the wire. -/
def onDeviceServer (j : JID) : Bool :=
  j.server = serverUser || j.server = serverLID || j.server = serverHosted ||
    j.server = serverHostedLID

def isADJIDEncodable (j : JID) : Bool :=
  j.onDeviceServer && (0 < j.device || j.rawAgent ≠ 0)

end JID

/-- `strconv` and the `%d` verb on natural numbers and integers. -/
def formatUint (n : ℕ) : Bytes := text (toString n)
def formatInt (i : ℤ) : Bytes := text (toString i)
def formatBool (b : Bool) : Bytes := text (if b then "true" else "false")

def JID.string (j : JID) : Bytes :=
  if j.server = [] then []
  else if 0 < j.rawAgent then
    j.user++text "."++formatUint j.rawAgent.toNat++text ":"++formatUint j.device.toNat++
      text "@"++j.server
  else if 0 < j.device ∧ (j.server = serverUser ∨ j.server = serverLID) then
    j.user++text ":"++formatUint j.device.toNat++text "@"++j.server
  else if j.user ≠ [] then j.user++text "@"++j.server
  else j.server

mutual
/-- The fields are the tag, the attributes in key order and the content. -/
inductive Node where
  | mk (tag : Bytes) (attrs : List (Bytes × Value)) (content : Value)
inductive Value where
  | nil
  | str (s : Bytes)
  | bytes (b : Bytes)
  | bool (b : Bool)
  | int (i : Int64)
  | int32 (i : Int32)
  | int64 (i : Int64)
  | uint (n : UInt64)
  | uint32 (n : UInt32)
  | uint64 (n : UInt64)
  | jid (j : JID)
  | node (n : Node)
  | nodes (ns : List Node)
  | other (type : String)
end

namespace Node

def tag : Node → Bytes
  | .mk t _ _ => t

def attrs : Node → List (Bytes × Value)
  | .mk _ as _ => as

def content : Node → Value
  | .mk _ _ c => c

end Node

/-- The text written for a number or a boolean. -/
def Value.scalar : Value → Option Bytes
  | .bool b => some (formatBool b)
  | .int i => some (formatInt i.toInt)
  | .int32 i => some (formatInt i.toInt)
  | .int64 i => some (formatInt i.toInt)
  | .uint n => some (formatUint n.toNat)
  | .uint32 n => some (formatUint n.toNat)
  | .uint64 n => some (formatUint n.toNat)
  | _ => none

/-- Attribute values the encoder leaves out. -/
def Value.dropped : Value → Bool
  | .nil => true
  | .str s => s.isEmpty
  | _ => false

def Value.isNil : Value → Bool
  | .nil => true
  | _ => false

/-- Entries separated by single spaces. -/
def spaced : List Bytes → Bytes
  | [] => []
  | [b] => b
  | b::bs => b++text " "++spaced bs

mutual
/-- The `%v` verb on a struct, a map in key order, a slice and an interface. -/
def sprintNode : Node → Bytes
  | .mk t as c =>
      text "\x7b"++t++text " map["++spaced (sprintAttrs as)++text "] "++sprintValue c++text "\x7d"
def sprintValue : Value → Bytes
  | .nil => text "<nil>"
  | .str s => s
  | .bytes b => text "["++spaced (b.map fun x => formatUint x.toNat)++text "]"
  | .bool b => formatBool b
  | .int i => formatInt i.toInt
  | .int32 i => formatInt i.toInt
  | .int64 i => formatInt i.toInt
  | .uint n => formatUint n.toNat
  | .uint32 n => formatUint n.toNat
  | .uint64 n => formatUint n.toNat
  | .jid j => j.string
  | .node n => sprintNode n
  | .nodes ns => text "["++spaced (sprintNodes ns)++text "]"
  | .other type => text type
def sprintNodes : List Node → List Bytes
  | [] => []
  | n::ns => sprintNode n::sprintNodes ns
def sprintAttrs : List (Bytes × Value) → List Bytes
  | [] => []
  | (k,v)::as => (k++text ":"++sprintValue v)::sprintAttrs as
end

/-- An attribute as text; an absent and a nil one have none. -/
def Node.stringAttr (n : Node) (key : Bytes) : Option Bytes :=
  match n.attrs.lookup key with
  | none => none
  | some .nil => none
  | some (.bytes b) => some b
  | some v => some (sprintValue v)

def Node.mustStringAttr (n : Node) (key : Bytes) : Bytes := (n.stringAttr key).getD []

def Node.children (n : Node) : List Node :=
  match n.content with
  | .nodes ns => ns
  | _ => []

def Node.childByTag (n : Node) (tag : Bytes) : Option Node :=
  n.children.find? fun c => c.tag = tag

mutual
/-- One condition on every node of a tree and one on every value in it. -/
def Node.Every (P : Node → Prop) (Q : Value → Prop) : Node → Prop
  | .mk t as c => P (.mk t as c) ∧ EveryAttr P Q as ∧ Value.Every P Q c
def Value.Every (P : Node → Prop) (Q : Value → Prop) : Value → Prop
  | .node n => Q (.node n) ∧ Node.Every P Q n
  | .nodes ns => Q (.nodes ns) ∧ EveryNode P Q ns
  | v => Q v
def EveryNode (P : Node → Prop) (Q : Value → Prop) : List Node → Prop
  | [] => True
  | n::ns => Node.Every P Q n ∧ EveryNode P Q ns
def EveryAttr (P : Node → Prop) (Q : Value → Prop) : List (Bytes × Value) → Prop
  | [] => True
  | (_,v)::as => Value.Every P Q v ∧ EveryAttr P Q as
end

theorem Value.Every.here {P : Node → Prop} {Q : Value → Prop} {v : Value}
    (h : v.Every P Q) : Q v := by
  cases v with
  | node n => exact h.1
  | nodes ns => exact h.1
  | _ => exact h

theorem everyAttr_iff {P : Node → Prop} {Q : Value → Prop} {as : List (Bytes × Value)} :
    EveryAttr P Q as ↔ ∀ e ∈ as, e.2.Every P Q := by
  induction as with
  | nil => exact ⟨fun _ _ h => (nomatch h),fun _ => trivial⟩
  | cons e as ih => rw [EveryAttr,ih,List.forall_mem_cons]

theorem everyNode_iff {P : Node → Prop} {Q : Value → Prop} {ns : List Node} :
    EveryNode P Q ns ↔ ∀ n ∈ ns, n.Every P Q := by
  induction ns with
  | nil => exact ⟨fun _ _ h => (nomatch h),fun _ => trivial⟩
  | cons n ns ih => rw [EveryNode,ih,List.forall_mem_cons]

section Imp
variable {P P' : Node → Prop} {Q Q' : Value → Prop}

mutual
theorem Node.Every.imp (hP : ∀ n, P n → P' n) (hQ : ∀ v, Q v → Q' v) :
    ∀ {n : Node}, n.Every P Q → n.Every P' Q'
  | .mk _ _ _,⟨h,has,hc⟩ => ⟨hP _ h,everyAttr_imp hP hQ has,Value.Every.imp hP hQ hc⟩
theorem Value.Every.imp (hP : ∀ n, P n → P' n) (hQ : ∀ v, Q v → Q' v) :
    ∀ {v : Value}, v.Every P Q → v.Every P' Q'
  | .node _,⟨h,hn⟩ => ⟨hQ _ h,Node.Every.imp hP hQ hn⟩
  | .nodes _,⟨h,hns⟩ => ⟨hQ _ h,everyNode_imp hP hQ hns⟩
  | .nil,h | .str _,h | .bytes _,h | .bool _,h | .int _,h | .int32 _,h | .int64 _,h
  | .uint _,h | .uint32 _,h | .uint64 _,h | .jid _,h | .other _,h => hQ _ h
theorem everyNode_imp (hP : ∀ n, P n → P' n) (hQ : ∀ v, Q v → Q' v) :
    ∀ {ns : List Node}, EveryNode P Q ns → EveryNode P' Q' ns
  | [],_ => trivial
  | _::_,⟨h,hs⟩ => ⟨Node.Every.imp hP hQ h,everyNode_imp hP hQ hs⟩
theorem everyAttr_imp (hP : ∀ n, P n → P' n) (hQ : ∀ v, Q v → Q' v) :
    ∀ {as : List (Bytes × Value)}, EveryAttr P Q as → EveryAttr P' Q' as
  | [],_ => trivial
  | _::_,⟨h,hs⟩ => ⟨Value.Every.imp hP hQ h,everyAttr_imp hP hQ hs⟩
end

end Imp

/-- The attributes are in strict key order, as the entries of a map. -/
def Node.Mapped (n : Node) : Prop := Ordered n.attrs

/-- The dynamic types the encoder writes as a value of their own: a bare node is
written like a list and an unknown type is refused. -/
def Value.Supported : Value → Prop
  | .node _ => False
  | .other _ => False
  | _ => True

end BaturWhatsApi.NodeModel
