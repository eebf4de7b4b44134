import BaturWhatsApi.ChatHistory
import BaturWhatsApi.JsonTexts

/-!
# The texts of logs

What `loadLocked` and `saveLocked` of `api/history.go` make of a log: an array with an object for
each message, whose media is left out where there is none. A member is matched with a field up to
the case of its letters, and an unknown one is skipped.

A log whose texts are valid UTF-8 is read back as it was written. Other bytes are replaced.
-/
namespace BaturWhatsApi.HistoryTexts
open ByteStrings Utf8Runes JsonValues JsonTexts ChatHistory

/-! ### Writing -/

def mediaJson (m : Media) : Json :=
  .obj [(text "Kind",.str m.kind),(text "URL",.str m.url),(text "MIME",.str m.mime),
    (text "Caption",.str m.caption),(text "Width",.str m.width),(text "Height",.str m.height),
    (text "Name",.str m.name),(text "Size",.str m.size),(text "Thumb",.str m.thumb)]

def messageJson (m : StoredMessage) : Json :=
  .obj ([(text "id",.str m.id),(text "chat",.str m.chat),(text "sender",.str m.sender),
    (text "text",.str m.content),(text "type",.str m.type),(text "from_me",.bool m.fromMe),
    (text "ack",.str m.ack.name),(text "ts",.num (.ofInt m.timestamp.toInt))]++
      m.media.toList.map fun media => (text "media",mediaJson media))

/-! ### Reading -/

def mediaMember (m : Media) (e : Bytes × Json) : Option Media :=
  if named "kind" e.1 then (intoString m.kind e.2).map fun s => {m with kind := s}
  else if named "url" e.1 then (intoString m.url e.2).map fun s => {m with url := s}
  else if named "mime" e.1 then (intoString m.mime e.2).map fun s => {m with mime := s}
  else if named "caption" e.1 then (intoString m.caption e.2).map fun s => {m with caption := s}
  else if named "width" e.1 then (intoString m.width e.2).map fun s => {m with width := s}
  else if named "height" e.1 then (intoString m.height e.2).map fun s => {m with height := s}
  else if named "name" e.1 then (intoString m.name e.2).map fun s => {m with name := s}
  else if named "size" e.1 then (intoString m.size e.2).map fun s => {m with size := s}
  else if named "thumb" e.1 then (intoString m.thumb e.2).map fun s => {m with thumb := s}
  else some m

def noMedia : Media := ⟨[],[],[],[],[],[],[],[],[]⟩

/-- A pointer: a null makes it nil, and an object is read into what it points to. -/
def intoMedia (media : Option Media) : Json → Option (Option Media)
  | .null => some none
  | j => (intoRecord mediaMember (media.getD noMedia) j).map some

def messageMember (m : StoredMessage) (e : Bytes × Json) : Option StoredMessage :=
  if named "id" e.1 then (intoString m.id e.2).map fun s => {m with id := s}
  else if named "chat" e.1 then (intoString m.chat e.2).map fun s => {m with chat := s}
  else if named "sender" e.1 then (intoString m.sender e.2).map fun s => {m with sender := s}
  else if named "text" e.1 then (intoString m.content e.2).map fun s => {m with content := s}
  else if named "type" e.1 then (intoString m.type e.2).map fun s => {m with type := s}
  else if named "from_me" e.1 then (intoBool m.fromMe e.2).map fun b => {m with fromMe := b}
  else if named "ack" e.1 then
    (intoString m.ack.name e.2).map fun s => {m with ack := .ofName s}
  else if named "ts" e.1 then (intoInt64 m.timestamp e.2).map fun v => {m with timestamp := v}
  else if named "media" e.1 then (intoMedia m.media e.2).map fun v => {m with media := v}
  else some m

def messageOf : Json → Option StoredMessage := intoRecord messageMember {id := [],chat := []}

def logOf (j : Json) : Option (List StoredMessage) := (intoList j).bind (List.mapM messageOf)

/-- A log that is stored has a message, so it is not the null of an empty list. -/
def jsonLogs : LogCodec where
  marshal log := marshal (.arr (log.map messageJson))
  unmarshal raw := (unmarshal raw).bind logOf

/-! ### What is read back -/

def mediaTexts (m : Media) : List Bytes :=
  [m.kind,m.url,m.mime,m.caption,m.width,m.height,m.name,m.size,m.thumb]

def messageTexts (m : StoredMessage) : List Bytes :=
  [m.id,m.chat,m.sender,m.content,m.type,m.ack.name]++m.media.toList.flatMap mediaTexts

/-- All texts of the message are valid UTF-8. -/
def Utf8 (m : StoredMessage) : Prop := ∀ s ∈ messageTexts m, utf8Valid s = true

instance (m : StoredMessage) : Decidable (Utf8 m) := inferInstanceAs (Decidable (∀ s ∈ _, _))

theorem coerced_mediaJson {m : Media} (h : ∀ s ∈ mediaTexts m, utf8Valid s = true) :
    coerced (mediaJson m) = mediaJson m := by
  simp only [mediaTexts,List.forall_mem_cons] at h
  obtain ⟨h₁,h₂,h₃,h₄,h₅,h₆,h₇,h₈,h₉,_⟩ := h
  simp only [mediaJson,coerced,coercedMembers,coerce_text,coerce_of_utf8Valid h₁,
    coerce_of_utf8Valid h₂,coerce_of_utf8Valid h₃,coerce_of_utf8Valid h₄,coerce_of_utf8Valid h₅,
    coerce_of_utf8Valid h₆,coerce_of_utf8Valid h₇,coerce_of_utf8Valid h₈,coerce_of_utf8Valid h₉]

theorem coerced_messageJson {m : StoredMessage} (h : Utf8 m) :
    coerced (messageJson m) = messageJson m := by
  obtain ⟨hown,hmedia⟩ := List.forall_mem_append.mp h
  simp only [List.forall_mem_cons] at hown
  obtain ⟨h₁,h₂,h₃,h₄,h₅,h₆,_⟩ := hown
  cases hm : m.media with
  | none =>
      simp only [messageJson,hm,Option.toList_none,List.map_nil,List.append_nil,coerced,
        coercedMembers,coerce_text,coerce_of_utf8Valid h₁,coerce_of_utf8Valid h₂,
        coerce_of_utf8Valid h₃,coerce_of_utf8Valid h₄,coerce_of_utf8Valid h₅,
        coerce_of_utf8Valid h₆]
  | some media =>
      have hcoerced := coerced_mediaJson (m := media) fun s hs => hmedia s (by simpa [hm] using hs)
      simp only [messageJson,hm,Option.toList_some,List.map_cons,List.map_nil,List.cons_append,
        List.nil_append,coerced,coercedMembers,coerce_text,coerce_of_utf8Valid h₁,
        coerce_of_utf8Valid h₂,coerce_of_utf8Valid h₃,coerce_of_utf8Valid h₄,
        coerce_of_utf8Valid h₅,coerce_of_utf8Valid h₆,hcoerced]

theorem messageMember_ts (m : StoredMessage) (v : Int64) :
    messageMember m (text "ts",.num (.ofInt v.toInt)) = some {m with timestamp := v} := by
  show (intoInt64 m.timestamp _).map _ = _
  rw [intoInt64_ofInt]
  rfl

theorem messageOf_messageJson (m : StoredMessage) : messageOf (messageJson m) = some m := by
  obtain ⟨id,chat,sender,content,type,fromMe,ack,timestamp,media⟩ := m
  have hstart : List.foldlM messageMember {id := [],chat := []}
      [(text "id",.str id),(text "chat",.str chat),(text "sender",.str sender),
        (text "text",.str content),(text "type",.str type),(text "from_me",.bool fromMe),
        (text "ack",.str ack.name)] =
      some ⟨id,chat,sender,content,type,fromMe,.ofName ack.name,0,none⟩ := rfl
  rw [AckState.ofName_name] at hstart
  show List.foldlM messageMember {id := [],chat := []} (([_,_,_,_,_,_,_]++[_])++_) = _
  rw [List.foldlM_append,List.foldlM_append,hstart,Option.bind_eq_bind,Option.bind_some,
    List.foldlM_cons,messageMember_ts]
  cases media with
  | none => rfl
  | some media => rfl

theorem depth_messageJson (m : StoredMessage) : depth (messageJson m) ≤ 2 := by
  cases hm : m.media <;> simp [messageJson,hm,mediaJson,depth,depthMembers]

/-- A log of valid texts is read back. -/
theorem jsonLogs_reads {log : List StoredMessage} (h : ∀ m ∈ log, Utf8 m) :
    jsonLogs.unmarshal (jsonLogs.marshal log) = some log := by
  have hdepth : depth (.arr (log.map messageJson)) ≤ maxNestingDepth := by
    rw [depth,maxNestingDepth]
    have := depthElems_map depth_messageJson log
    omega
  rw [jsonLogs]
  dsimp only
  rw [unmarshal_marshal hdepth,Option.bind_some,coerced,
    coercedElems_map fun m hm => coerced_messageJson (h m hm)]
  exact mapM_map messageOf_messageJson log

/-- An identifier that is no text is not read back. -/
example : (jsonLogs.unmarshal (jsonLogs.marshal [{id := [0xFF],chat := text "c"}])).map
    (List.map StoredMessage.id) = some [[0xEF,0xBF,0xBD]] := by
  decide +kernel

end BaturWhatsApi.HistoryTexts
