import BaturWhatsApi.ByteStrings

/-!
# The log of a chat

The messages of one chat as `api/history.go` keeps them: a message is put into the log or
replaces the one with its identifier, the log keeps its newest entries, and a receipt
raises the state of a message that was sent from here. A log is stored as JSON; the two
functions are a parameter of what is said about storages.
-/
namespace BaturWhatsApi.ChatHistory
open ByteStrings

/-- The strings of the states that have a name. -/
def ackNames : List Bytes :=
  [[],text "pending",text "sent",text "delivered",text "read",text "received",text "failed"]

/-- A state is a string, and any string may come out of the storage. -/
inductive AckState where
  | unset
  | pending
  | sent
  | delivered
  | read
  | received
  | failed
  | other (s : {s : Bytes // s ∉ ackNames})
deriving DecidableEq, Repr

def AckState.name : AckState → Bytes
  | .unset => []
  | .pending => text "pending"
  | .sent => text "sent"
  | .delivered => text "delivered"
  | .read => text "read"
  | .received => text "received"
  | .failed => text "failed"
  | .other s => s

def AckState.ofName (s : Bytes) : AckState :=
  if h : s ∈ ackNames then
    if s = [] then .unset
    else if s = text "pending" then .pending
    else if s = text "sent" then .sent
    else if s = text "delivered" then .delivered
    else if s = text "read" then .read
    else if s = text "received" then .received
    else .failed
  else .other ⟨s,h⟩

theorem AckState.ofName_name (a : AckState) : ofName a.name = a := by
  cases a with
  | other s => exact dif_neg s.2
  | _ => decide +kernel

def ackRank : AckState → ℤ
  | .failed => -1
  | .unset => 0
  | .received => 0
  | .sent => 1
  | .delivered => 2
  | .read => 3
  | _ => 0

structure Media where
  kind : Bytes
  url : Bytes
  mime : Bytes
  caption : Bytes
  width : Bytes
  height : Bytes
  name : Bytes
  size : Bytes
  thumb : Bytes
deriving DecidableEq, Repr

structure StoredMessage where
  id : Bytes
  chat : Bytes
  sender : Bytes := []
  content : Bytes := []
  type : Bytes := []
  fromMe : Bool := false
  ack : AckState := .unset
  timestamp : Int64 := 0
  media : Option Media := none
deriving DecidableEq, Repr

def historyWindow : ℕ := 256

/-- The first message with the identifier is replaced, and keeps its state when the new one has
none. -/
def replaceMessage (m : StoredMessage) : List StoredMessage → Option (List StoredMessage)
  | [] => none
  | old::log =>
      if old.id = m.id then
        some ({m with ack := if m.ack = .unset then old.ack else m.ack}::log)
      else (replaceMessage m log).map (old::·)

def upsertLog (log : List StoredMessage) (m : StoredMessage) : List StoredMessage :=
  let log := (replaceMessage m log).getD (log++[m])
  if historyWindow < log.length then log.drop (log.length-historyWindow) else log

/-- A message from here that the receipt is about, and that it does not set back. -/
def acknowledges (msgID : Bytes) (ack : AckState) (m : StoredMessage) : Bool :=
  m.id == msgID && m.fromMe && ackRank m.ack ≤ ackRank ack

/-- The log after a receipt, unless nothing has changed. -/
def ackLog (msgID : Bytes) (ack : AckState) (log : List StoredMessage) :
    Option (List StoredMessage) :=
  if log.any (acknowledges msgID ack) then
    some (log.map fun m => if acknowledges msgID ack m then {m with ack := ack} else m)
  else none

/-- `encoding/json` on logs. -/
structure LogCodec where
  marshal : List StoredMessage → Bytes
  unmarshal : Bytes → Option (List StoredMessage)

end BaturWhatsApi.ChatHistory
