import BaturWhatsApi.NodeModel
import BaturWhatsApi.SharedStorage

/-!
# The events of the history

The four handlers of `api/history.go` and what they make of the nodes and messages they are
given. A handler makes at most one call to the history, and is taken to be that call. Each
call holds the lock of the history from its first access to its last, so that the workers of
the four subscriptions run their calls one after another, in any order.
-/
namespace BaturWhatsApi.HistoryEvents
open ByteStrings NodeModel ChatHistory SharedStorage Runs

/-! ### Messages out of nodes -/

/-- The fields of a message that the history reads. -/
structure Message where
  id : Bytes
  chat : Bytes
  sender : Bytes := []
  content : Bytes := []
  type : Bytes := []
  stamp : ℤ := 0
  media : Option Media := none

def textContent (n : Node) : Option Bytes :=
  match n.content with
  | .str s => some s
  | .bytes b => some b
  | _ => none

def mediaTags : List Bytes :=
  [text "image",text "video",text "audio",text "document",text "location",text "contact",
   text "sticker",text "app"]

/-- The first of the attributes that has a text. -/
def firstAttr (n : Node) : List Bytes → Bytes
  | [] => []
  | key::keys =>
      if n.mustStringAttr key = [] then firstAttr n keys else n.mustStringAttr key

def mediaURL (tag : Bytes) (child : Node) : Bytes :=
  if tag = text "location" then
    match child.stringAttr (text "latitude"),child.stringAttr (text "longitude") with
    | some lat,some lon => lat++text ","++lon
    | _,_ => child.mustStringAttr (text "url")
  else child.mustStringAttr (text "url")

def mediaOf (tag : Bytes) (child : Node) : Media :=
  { kind := tag
    url := mediaURL tag child
    mime := firstAttr child [text "mimetype",text "mime",text "media"]
    caption := child.mustStringAttr (text "caption")
    width := child.mustStringAttr (text "width")
    height := child.mustStringAttr (text "height")
    name := child.mustStringAttr (text "name")
    size := child.mustStringAttr (text "file-length")
    thumb := child.mustStringAttr (text "jpegThumbnail") }

def toMessage (n : Node) (now : ℤ) : Message :=
  { id := n.mustStringAttr (text "id")
    type := n.mustStringAttr (text "type")
    chat := n.mustStringAttr (text "from")
    sender := firstAttr n [text "participant",text "from"]
    content :=
      match n.childByTag (text "plain") with
      | some child => (textContent child).getD []
      | none => (textContent n).getD []
    stamp := now
    media := mediaTags.findSome? fun tag => (n.childByTag tag).map (mediaOf tag) }

/-- The digits of a timestamp. The sum wraps, and anything but a digit ends the loop. -/
def digits : Bytes → Int64 → Option Int64
  | [],v => some v
  | c::cs,v => if c < 48 ∨ 57 < c then none else digits cs (v*10+(c-48).toUInt64.toInt64)

def msgTS (n : Node) (now : ℤ) : ℤ :=
  match n.stringAttr (text "t") with
  | some t =>
      match digits t 0 with
      | some v => v.toInt
      | none => now
  | none => now

/-! ### The handlers -/

inductive Payload where
  | node (n : Node)
  | message (m : Message)
  | other

/-- A call to the history. -/
inductive Update where
  | skip
  | upsert (m : StoredMessage)
  | setAck (msgID : Bytes) (ack : AckState)

def onInbound (now : ℤ) : Payload → Update
  | .node n =>
      let msg := toMessage n now
      if msg.id = [] then .skip
      else .upsert
        { id := msg.id
          chat := msg.chat
          sender := msg.sender
          content := msg.content
          type := msg.type
          ack := .received
          timestamp := .ofInt (msgTS n now)
          media := msg.media }
  | _ => .skip

def onSent : Payload → Update
  | .message msg => .upsert
      { id := msg.id
        chat := msg.chat
        content := msg.content
        type := msg.type
        fromMe := true
        ack := .sent
        timestamp := .ofInt msg.stamp }
  | _ => .skip

/-- Only letters matter: no other character has one of those in `read` and `played` as its
small letter. -/
def toLower (b : Bytes) : Bytes := b.map fun c => if 65 ≤ c ∧ c ≤ 90 then c+32 else c

def receiptAck (n : Node) : AckState :=
  if toLower (n.mustStringAttr (text "type")) = text "read" then .read
  else if toLower (n.mustStringAttr (text "type")) = text "played" then .read
  else .delivered

def onAck : Payload → Update
  | .node n =>
      if n.mustStringAttr (text "id") = [] then .skip
      else .setAck (n.mustStringAttr (text "id")) (receiptAck n)
  | _ => .skip

def onUpdated : Payload → Update
  | .node n =>
      if n.mustStringAttr (text "id") = [] then .skip
      else .setAck (n.mustStringAttr (text "id")) .read
  | _ => .skip

/-- An event of one of the four subscriptions; the clock is read for inbound messages. -/
inductive Event where
  | received (now : ℤ) (data : Payload)
  | sent (data : Payload)
  | acknowledged (data : Payload)
  | updated (data : Payload)

def Event.update : Event → Update
  | .received now data => onInbound now data
  | .sent data => onSent data
  | .acknowledged data => onAck data
  | .updated data => onUpdated data

section
variable (json : LogCodec) (id : Bytes)

def Update.exec (t : Traced) : Update → Traced
  | .skip => t
  | .upsert m => SharedStorage.upsert json t id m
  | .setAck msgID ack => SharedStorage.setAck json t id msgID ack

def handle (t : Traced) (ev : Event) : Traced := ev.update.exec json id t

end

/-! ### What handlers ask for -/

theorem receiptAck_cases (n : Node) : receiptAck n = .delivered ∨ receiptAck n = .read := by
  rw [receiptAck]
  split_ifs
  · exact .inr rfl
  · exact .inr rfl
  · exact .inl rfl

/-- What an event asks for. -/
inductive UpdateOutcome : Event → Update → Prop
  | skips (ev : Event) : UpdateOutcome ev .skip
  | inbound (ev : Event) {m : StoredMessage} (hid : m.id ≠ []) (hpeer : m.fromMe = false)
      (hack : m.ack = .received) (hev : ∀ msg, ev ≠ .sent (.message msg)) :
      UpdateOutcome ev (.upsert m)
  | sent (msg : Message) {m : StoredMessage} (hid : m.id = msg.id) (hchat : m.chat = msg.chat)
      (hme : m.fromMe = true) (hack : m.ack = .sent) :
      UpdateOutcome (.sent (.message msg)) (.upsert m)
  | receipt (ev : Event) {msgID : Bytes} {ack : AckState} (hid : msgID ≠ [])
      (hack : ack = .delivered ∨ ack = .read) : UpdateOutcome ev (.setAck msgID ack)

theorem update_outcome (ev : Event) : UpdateOutcome ev ev.update := by
  cases ev with
  | received now data =>
      cases data with
      | node n =>
          simp only [Event.update,onInbound]
          split_ifs with hid
          · exact .skips _
          · exact .inbound _ hid rfl rfl fun _ => by simp
      | _ => exact .skips _
  | sent data =>
      cases data with
      | message msg => exact .sent msg rfl rfl rfl rfl
      | _ => exact .skips _
  | acknowledged data =>
      cases data with
      | node n =>
          simp only [Event.update,onAck]
          split_ifs with hid
          · exact .skips _
          · exact .receipt _ hid (receiptAck_cases n)
      | _ => exact .skips _
  | updated data =>
      cases data with
      | node n =>
          simp only [Event.update,onUpdated]
          split_ifs with hid
          · exact .skips _
          · exact .receipt _ hid (.inr rfl)
      | _ => exact .skips _

/-- What a handler stores is either from the peer or from here, with the state that goes with it. -/
theorem update_upsert {ev : Event} {m : StoredMessage} (h : ev.update = .upsert m) :
    (m.fromMe = false ∧ m.ack = .received) ∨ (m.fromMe = true ∧ m.ack = .sent) := by
  have hout := update_outcome ev
  rw [h] at hout
  cases hout with
  | inbound _ _ hpeer hack _ => exact .inl ⟨hpeer,hack⟩
  | sent _ _ _ hme hack => exact .inr ⟨hme,hack⟩

/-- A receipt names its message and raises it to one of two states. -/
theorem update_setAck {ev : Event} {msgID : Bytes} {ack : AckState}
    (h : ev.update = .setAck msgID ack) : msgID ≠ [] ∧ (ack = .delivered ∨ ack = .read) := by
  have hout := update_outcome ev
  rw [h] at hout
  cases hout with
  | receipt _ hid hack => exact ⟨hid,hack⟩

end BaturWhatsApi.HistoryEvents
