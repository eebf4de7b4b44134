import BaturWhatsApi.HistoryEvents
import BaturWhatsApi.HistoryTexts

/-!
# The logs of a session

Over a storage that keeps what it is given, and an encoding that can be read back, the history
of a session is a map from chats to logs. Every call to the history does to the stored logs what
it does to the map, so what is said about logs is proved about the map. JSON can be read back for
messages whose texts are valid UTF-8.

A log never exceeds its window, names no message twice, and holds messages of its own chat only.
-/
namespace BaturWhatsApi.HistoryLogs
open ByteStrings OrderedEntries KeyValueStores ChatHistory SharedStorage HistoryEvents HistoryTexts
open Runs

/-! ### One log -/

/-- The message that takes the place of an old one. -/
def inPlace (old m : StoredMessage) : StoredMessage :=
  {m with ack := if m.ack = .unset then old.ack else m.ack}

theorem replaceMessage_cons (m old : StoredMessage) (log : List StoredMessage) :
    replaceMessage m (old::log) =
      if old.id = m.id then some (inPlace old m::log) else (replaceMessage m log).map (old::·) :=
  rfl

theorem replaceMessage_none {m : StoredMessage} {log : List StoredMessage}
    (h : replaceMessage m log = none) : ∀ e ∈ log, e.id ≠ m.id := by
  induction log with
  | nil =>
      intro e he
      cases he
  | cons old log ih =>
      rw [replaceMessage_cons] at h
      split_ifs at h with hid
      intro e he
      cases he with
      | head => exact hid
      | tail _ he => exact ih (Option.map_eq_none_iff.mp h) e he

theorem replaceMessage_some {m : StoredMessage} {log log' : List StoredMessage}
    (h : replaceMessage m log = some log') : ∃ before old after,
      log = before++old::after ∧ old.id = m.id ∧ log' = before++inPlace old m::after := by
  induction log generalizing log' with
  | nil => cases h
  | cons e log ih =>
      rw [replaceMessage_cons] at h
      split_ifs at h with hid
      · exact ⟨[],e,log,rfl,hid,(Option.some.inj h).symm⟩
      · obtain ⟨rest,hrest,rfl⟩ := Option.map_eq_some_iff.mp h
        obtain ⟨before,old,after,rfl,hold,rfl⟩ := ih hrest
        exact ⟨e::before,old,after,rfl,hold,rfl⟩

/-- What an upsert does to a log within its window. -/
inductive UpsertOutcome (m : StoredMessage) : List StoredMessage → List StoredMessage → Prop
  | replaced {before after : List StoredMessage} {old : StoredMessage} (hid : old.id = m.id) :
      UpsertOutcome m (before++old::after) (before++inPlace old m::after)
  | appended {log : List StoredMessage} (hnew : ∀ e ∈ log, e.id ≠ m.id)
      (hroom : log.length < historyWindow) : UpsertOutcome m log (log++[m])
  | evicted {log : List StoredMessage} (hnew : ∀ e ∈ log, e.id ≠ m.id)
      (hfull : log.length = historyWindow) : UpsertOutcome m log (log.tail++[m])

theorem upsertLog_outcome {log : List StoredMessage} (h : log.length ≤ historyWindow)
    (m : StoredMessage) : UpsertOutcome m log (upsertLog log m) := by
  rw [upsertLog]
  cases hreplace : replaceMessage m log with
  | some log' =>
      obtain ⟨before,old,after,rfl,hid,rfl⟩ := replaceMessage_some hreplace
      have hlength : (before++inPlace old m::after).length = (before++old::after).length := by
        simp only [List.length_append,List.length_cons]
      simp only [Option.getD_some,hlength,if_neg (not_lt.mpr h)]
      exact .replaced hid
  | none =>
      have hnew := replaceMessage_none hreplace
      simp only [Option.getD_none,List.length_append,List.length_singleton]
      split_ifs with hover
      · have hfull : log.length = historyWindow := by omega
        have hone : log.length+1-historyWindow = 1 := by omega
        have hne : log ≠ [] := by
          rintro rfl
          cases hfull
        obtain ⟨e,rest,rfl⟩ := List.exists_cons_of_ne_nil hne
        rw [hone]
        exact .evicted hnew hfull
      · exact .appended hnew (by omega)

theorem upsertLog_new {log : List StoredMessage} {m : StoredMessage}
    (hroom : log.length < historyWindow) (hnew : ∀ e ∈ log, e.id ≠ m.id) :
    upsertLog log m = log++[m] := by
  have hout := upsertLog_outcome hroom.le m
  generalize upsertLog log m = log' at hout ⊢
  cases hout with
  | @replaced before after old hid =>
      exact absurd hid (hnew old (List.mem_append_right _ List.mem_cons_self))
  | appended _ _ => rfl
  | evicted _ hfull => exact absurd hfull hroom.ne

/-- Every message of the log after an upsert is an old one or has taken its place. -/
theorem of_mem_upsertLog {P : StoredMessage → Prop} {log : List StoredMessage} {m : StoredMessage}
    (hlog : ∀ e ∈ log, P e) (hm : P m) (hplace : ∀ old, P old → P (inPlace old m)) :
    ∀ e ∈ upsertLog log m, P e := by
  have hnew : ∀ e ∈ (replaceMessage m log).getD (log++[m]), P e := by
    intro e he
    cases hreplace : replaceMessage m log with
    | none =>
        rw [hreplace,Option.getD_none] at he
        rcases List.mem_append.mp he with he | he
        · exact hlog e he
        · rw [List.mem_singleton.mp he]
          exact hm
    | some log' =>
        obtain ⟨before,old,after,rfl,_,rfl⟩ := replaceMessage_some hreplace
        rw [hreplace,Option.getD_some] at he
        rcases List.mem_append.mp he with he | he
        · exact hlog e (List.mem_append_left _ he)
        · rcases List.mem_cons.mp he with rfl | he
          · exact hplace old (hlog old (List.mem_append_right _ List.mem_cons_self))
          · exact hlog e (List.mem_append_right _ (List.mem_cons_of_mem _ he))
  intro e he
  rw [upsertLog] at he
  split_ifs at he
  · exact hnew e (List.mem_of_mem_drop he)
  · exact hnew e he

/-- A log as the history keeps it. -/
structure LogOk (chat : Bytes) (log : List StoredMessage) : Prop where
  length_le : log.length ≤ historyWindow
  ids : (log.map StoredMessage.id).Nodup
  chats : ∀ m ∈ log, m.chat = chat

theorem LogOk.nil (chat : Bytes) : LogOk chat [] :=
  ⟨Nat.zero_le _,List.nodup_nil,List.forall_mem_nil _⟩

/-- Two entries of a log with one identifier are one. -/
theorem LogOk.unique {chat : Bytes} {log : List StoredMessage} (h : LogOk chat log)
    {m m' : StoredMessage} (hm : m ∈ log) (hm' : m' ∈ log) (hid : m.id = m'.id) : m = m' :=
  List.inj_on_of_nodup_map h.ids hm hm' hid

theorem nodup_ids_append {log : List StoredMessage} {m : StoredMessage}
    (h : (log.map StoredMessage.id).Nodup) (hnew : ∀ e ∈ log, e.id ≠ m.id) :
    ((log++[m]).map StoredMessage.id).Nodup := by
  rw [List.map_append,List.nodup_append]
  refine ⟨h,List.nodup_singleton m.id,?_⟩
  intro a ha b hb
  obtain ⟨e,he,rfl⟩ := List.mem_map.mp ha
  rw [List.mem_singleton.mp hb]
  exact hnew e he

theorem LogOk.upsertLog {log : List StoredMessage} {m : StoredMessage} (h : LogOk m.chat log) :
    LogOk m.chat (upsertLog log m) := by
  have hout := upsertLog_outcome h.length_le m
  generalize ChatHistory.upsertLog log m = log' at hout ⊢
  cases hout with
  | @replaced before after old hid =>
      constructor
      · have hlength := h.length_le
        simp only [List.length_append,List.length_cons] at hlength ⊢
        exact hlength
      · have hids := h.ids
        simp only [List.map_append,List.map_cons,hid] at hids ⊢
        exact hids
      · intro e he
        rcases List.mem_append.mp he with he | he
        · exact h.chats e (List.mem_append_left _ he)
        · cases he with
          | head => rfl
          | tail _ he => exact h.chats e (List.mem_append_right _ (List.mem_cons_of_mem _ he))
  | appended hnew hroom =>
      constructor
      · rw [List.length_append,List.length_singleton]
        exact hroom
      · exact nodup_ids_append h.ids hnew
      · intro e he
        rcases List.mem_append.mp he with he | he
        · exact h.chats e he
        · rw [List.mem_singleton.mp he]
  | evicted hnew hfull =>
      constructor
      · rw [List.length_append,List.length_singleton,List.length_tail,hfull]
        decide
      · apply nodup_ids_append
        · rw [List.map_tail]
          exact h.ids.tail
        · exact fun e he => hnew e (List.mem_of_mem_tail he)
      · intro e he
        rcases List.mem_append.mp he with he | he
        · exact h.chats e (List.mem_of_mem_tail he)
        · rw [List.mem_singleton.mp he]

/-- The message is in its log. -/
theorem mem_upsertLog {log : List StoredMessage} (h : log.length ≤ historyWindow)
    (m : StoredMessage) :
    ∃ ack, {m with ack := ack} ∈ upsertLog log m ∧ (m.ack ≠ .unset → ack = m.ack) := by
  have hout := upsertLog_outcome h m
  generalize upsertLog log m = log' at hout ⊢
  cases hout with
  | @replaced before after old hid =>
      refine ⟨(inPlace old m).ack,?_,fun hack => if_neg hack⟩
      exact List.mem_append_right _ List.mem_cons_self
  | appended hnew hroom => exact ⟨m.ack,List.mem_append_right _ List.mem_cons_self,fun _ => rfl⟩
  | evicted hnew hfull => exact ⟨m.ack,List.mem_append_right _ List.mem_cons_self,fun _ => rfl⟩

/-- The other messages of a log. -/
def others (m : StoredMessage) (log : List StoredMessage) : List StoredMessage :=
  log.filter fun e => e.id ≠ m.id

theorem others_of_new {m : StoredMessage} {log : List StoredMessage}
    (h : ∀ e ∈ log, e.id ≠ m.id) : others m log = log :=
  List.filter_eq_self.mpr fun e he => decide_eq_true (h e he)

theorem others_append_self (m : StoredMessage) (log : List StoredMessage) :
    others m (log++[m]) = others m log := by
  simp [others]

/-- The others stay as they are, in their order; the oldest goes when there is no room. -/
theorem others_upsertLog {log : List StoredMessage} (h : log.length ≤ historyWindow)
    (m : StoredMessage) : others m (upsertLog log m) =
      if log.length = historyWindow ∧ ∀ e ∈ log, e.id ≠ m.id then log.tail else others m log := by
  have hout := upsertLog_outcome h m
  generalize upsertLog log m = log' at hout ⊢
  cases hout with
  | @replaced before after old hid =>
      rw [if_neg]
      · simp [others,inPlace,hid]
      · rintro ⟨-,hnew⟩
        exact hnew old (List.mem_append_right _ List.mem_cons_self) hid
  | appended hnew hroom =>
      rw [if_neg fun hfull => hroom.ne hfull.1,others_append_self]
  | evicted hnew hfull =>
      rw [if_pos ⟨hfull,hnew⟩,others_append_self]
      exact others_of_new fun e he => hnew e (List.mem_of_mem_tail he)

/-! ### Receipts -/

/-- An entry after a receipt. -/
def acked (msgID : Bytes) (ack : AckState) (m : StoredMessage) : StoredMessage :=
  if acknowledges msgID ack m then {m with ack := ack} else m

/-- Nothing but the state of a message from here changes. -/
def OnlyAck (msgID : Bytes) (m m' : StoredMessage) : Prop :=
  m' = m ∨ m.id = msgID ∧ m.fromMe = true ∧ ∃ ack, m' = {m with ack := ack}

theorem onlyAck_acked (msgID : Bytes) (ack : AckState) (m : StoredMessage) :
    OnlyAck msgID m (acked msgID ack m) := by
  rw [acked]
  split_ifs with h
  · simp only [acknowledges,Bool.and_eq_true,beq_iff_eq] at h
    exact .inr ⟨h.1.1,h.1.2,ack,rfl⟩
  · exact .inl rfl

theorem onlyAck_refl (msgID : Bytes) (log : List StoredMessage) :
    List.Forall₂ (OnlyAck msgID) log log :=
  List.forall₂_same.mpr fun _ _ => .inl rfl

theorem onlyAck_map (msgID : Bytes) (ack : AckState) (log : List StoredMessage) :
    List.Forall₂ (OnlyAck msgID) log (log.map (acked msgID ack)) := by
  rw [List.forall₂_map_right_iff]
  exact List.forall₂_same.mpr fun m _ => onlyAck_acked msgID ack m

theorem ackLog_eq_some {msgID : Bytes} {ack : AckState} {log log' : List StoredMessage}
    (h : ackLog msgID ack log = some log') :
    (∃ m ∈ log, acknowledges msgID ack m = true) ∧ log' = log.map (acked msgID ack) := by
  rw [ackLog] at h
  split_ifs at h with hany
  exact ⟨List.any_eq_true.mp hany,(Option.some.inj h).symm⟩

theorem ackLog_eq_none {msgID : Bytes} {ack : AckState} {log : List StoredMessage}
    (h : ackLog msgID ack log = none) : ∀ m ∈ log, acknowledges msgID ack m = false := by
  rw [ackLog] at h
  split_ifs at h with hany
  exact fun m hm => by simpa using fun ha => hany (List.any_eq_true.mpr ⟨m,hm,ha⟩)

theorem acked_id (msgID : Bytes) (ack : AckState) (m : StoredMessage) :
    (acked msgID ack m).id = m.id := by
  rw [acked]
  split_ifs <;> rfl

theorem acked_chat (msgID : Bytes) (ack : AckState) (m : StoredMessage) :
    (acked msgID ack m).chat = m.chat := by
  rw [acked]
  split_ifs <;> rfl

theorem acked_fromMe (msgID : Bytes) (ack : AckState) (m : StoredMessage) :
    (acked msgID ack m).fromMe = m.fromMe := by
  rw [acked]
  split_ifs <;> rfl

theorem acked_of_ne {msgID : Bytes} {m : StoredMessage} (h : m.id ≠ msgID) (ack : AckState) :
    acked msgID ack m = m := by
  rw [acked,if_neg]
  simp [acknowledges,h]

theorem LogOk.acked {chat : Bytes} {log : List StoredMessage} (h : LogOk chat log) (msgID : Bytes)
    (ack : AckState) : LogOk chat (log.map (acked msgID ack)) := by
  constructor
  · rw [List.length_map]
    exact h.length_le
  · rw [List.map_map,show StoredMessage.id ∘ HistoryLogs.acked msgID ack = StoredMessage.id from
      funext (acked_id msgID ack)]
    exact h.ids
  · intro m hm
    obtain ⟨e,he,rfl⟩ := List.mem_map.mp hm
    rw [acked_chat]
    exact h.chats e he

/-! ### The map of logs -/

abbrev Logs := Entries Bytes (List StoredMessage)

def log (logs : Logs) (chat : Bytes) : List StoredMessage := (logs.get chat).getD []

def upsertIn (logs : Logs) (m : StoredMessage) : Logs :=
  if m.chat = [] then logs else logs.set m.chat (upsertLog (log logs m.chat) m)

/-- The first of the chats whose log a receipt changes. -/
def ackFirst (logs : Logs) (msgID : Bytes) (ack : AckState) : List Bytes → Logs
  | [] => logs
  | chat::chats =>
      match ackLog msgID ack (log logs chat) with
      | some log => logs.set chat log
      | none => ackFirst logs msgID ack chats

def apply (id : Bytes) (logs : Logs) : Update → Logs
  | .skip => logs
  | .upsert m => upsertIn logs m
  | .setAck msgID ack =>
      if id = [] ∨ msgID = [] then logs else ackFirst logs msgID ack logs.keys

theorem log_set (logs : Logs) (chat : Bytes) (l : List StoredMessage) (chat' : Bytes) :
    log (logs.set chat l) chat' = if chat' = chat then l else log logs chat' := by
  rw [log,Entries.get_set]
  split_ifs <;> rfl

theorem log_upsertIn {m : StoredMessage} (hchat : m.chat ≠ []) (logs : Logs) (chat : Bytes) :
    log (upsertIn logs m) chat =
      if chat = m.chat then upsertLog (log logs m.chat) m else log logs chat := by
  rw [upsertIn,if_neg hchat,log_set]

/-- A receipt changes the log of one chat, the first it is about, or nothing. -/
theorem log_ackFirst (logs : Logs) (msgID : Bytes) (ack : AckState) (chats : List Bytes) :
    (∃ before chat after, chats = before++chat::after ∧
      (∀ c ∈ before, ∀ m ∈ log logs c, acknowledges msgID ack m = false) ∧
      (∃ m ∈ log logs chat, acknowledges msgID ack m = true) ∧
      ackFirst logs msgID ack chats = logs.set chat ((log logs chat).map (acked msgID ack))) ∨
    (∀ c ∈ chats, ∀ m ∈ log logs c, acknowledges msgID ack m = false) ∧
      ackFirst logs msgID ack chats = logs := by
  induction chats with
  | nil => exact .inr ⟨List.forall_mem_nil _,rfl⟩
  | cons chat chats ih =>
      rw [ackFirst]
      cases hack : ackLog msgID ack (log logs chat) with
      | some l =>
          obtain ⟨hfound,rfl⟩ := ackLog_eq_some hack
          exact .inl ⟨[],chat,chats,rfl,List.forall_mem_nil _,hfound,rfl⟩
      | none =>
          have hnone := ackLog_eq_none hack
          rcases ih with ⟨before,c,after,rfl,hbefore,hfound,hset⟩ | ⟨hall,hsame⟩
          · refine .inl ⟨chat::before,c,after,rfl,?_,hfound,hset⟩
            exact List.forall_mem_cons.mpr ⟨hnone,hbefore⟩
          · exact .inr ⟨List.forall_mem_cons.mpr ⟨hnone,hall⟩,hsame⟩

theorem log_ackFirst_onlyAck (logs : Logs) (msgID : Bytes) (ack : AckState) (chats : List Bytes)
    (chat : Bytes) :
    List.Forall₂ (OnlyAck msgID) (log logs chat) (log (ackFirst logs msgID ack chats) chat) := by
  rcases log_ackFirst logs msgID ack chats with ⟨_,c,_,_,_,_,hset⟩ | ⟨_,hsame⟩
  · rw [hset,log_set]
    split_ifs with hchat
    · rw [hchat]
      exact onlyAck_map msgID ack _
    · exact onlyAck_refl msgID _
  · rw [hsame]
    exact onlyAck_refl msgID _

/-- Every log is as the history keeps it. -/
def LogsOk (logs : Logs) : Prop := ∀ chat, LogOk chat (log logs chat)

theorem LogsOk.set {logs : Logs} (h : LogsOk logs) {chat : Bytes} {l : List StoredMessage}
    (hl : LogOk chat l) : LogsOk (logs.set chat l) := by
  intro chat'
  rw [log_set]
  split_ifs with hchat
  · rw [hchat]
    exact hl
  · exact h chat'

theorem LogsOk.apply {logs : Logs} (h : LogsOk logs) (id : Bytes) (u : Update) :
    LogsOk (apply id logs u) := by
  cases u with
  | skip => exact h
  | upsert m =>
      rw [HistoryLogs.apply,upsertIn]
      split_ifs
      · exact h
      · exact h.set (h m.chat).upsertLog
  | setAck msgID ack =>
      rw [HistoryLogs.apply]
      split_ifs
      · exact h
      · rcases log_ackFirst logs msgID ack logs.keys with ⟨_,c,_,_,_,_,hset⟩ | ⟨_,hsame⟩
        · rw [hset]
          exact h.set ((h c).acked msgID ack)
        · rw [hsame]
          exact h

/-! ### The stored logs -/

/-- The encoding can be read back, for logs of messages with the property. -/
structure RoundTrips (json : LogCodec) (P : StoredMessage → Prop) : Prop where
  reads : ∀ l, (∀ m ∈ l, P m) → json.unmarshal (json.marshal l) = some l
  inPlace : ∀ old m, P old → P m → P (inPlace old m)

/-- The call stores nothing but messages with the property. -/
def Within (P : StoredMessage → Prop) : Update → Prop
  | .skip => True
  | .upsert m => P m
  | .setAck _ ack => ∀ m, P m → P {m with ack := ack}

theorem historyKey_append (id chat : Bytes) : historyKey id chat = historyKey id []++chat := by
  simp [historyKey,sessionKey]

theorem historyKey_strictMono (id : Bytes) : StrictMono (historyKey id) := by
  intro a b h
  rw [historyKey_append id a,historyKey_append id b]
  exact List.Lex.append_left _ h _

/-- The storage holds the logs and nothing else. -/
structure Holds (json : LogCodec) (P : StoredMessage → Prop) (id : Bytes) (logs : Logs)
    (t : Traced) : Prop where
  data : t.store.data.list = logs.list.map (Prod.map (historyKey id) json.marshal)
  within : ∀ chat, ∀ m ∈ log logs chat, P m

section
variable {json : LogCodec} {P : StoredMessage → Prop} {id : Bytes} {logs : Logs} {t : Traced}

theorem holds_empty : Holds json P id .empty {} := ⟨rfl,fun _ _ hm => by cases hm⟩

theorem Holds.loadLocked (h : Holds json P id logs t) (hjson : RoundTrips json P) (chat : Bytes) :
    loadLocked json t id chat = log logs chat := by
  have hget : t.store.data.get (historyKey id chat) = (logs.get chat).map json.marshal := by
    rw [Entries.get,h.data]
    exact lookup_map_of_injective (historyKey_strictMono id).injective _ _ _
  have hwithin := h.within chat
  rw [log] at hwithin
  rw [SharedStorage.loadLocked,Memory.get,hget,log]
  cases hl : logs.get chat with
  | none => rfl
  | some l =>
      rw [hl] at hwithin
      exact congrArg (fun o => o.getD []) (hjson.reads l hwithin)

theorem Holds.saveLocked (h : Holds json P id logs t) (chat : Bytes) {l : List StoredMessage}
    (hl : ∀ m ∈ l, P m) : Holds json P id (logs.set chat l) (saveLocked json t id chat l) where
  data := by
    rw [Entries.set,map_put_of_strictMono (historyKey_strictMono id),← h.data]
    rfl
  within chat' := by
    rw [log_set]
    split_ifs
    · exact hl
    · exact h.within chat'

theorem Holds.list (h : Holds json P id logs t) :
    t.store.list (historyKey id []) = logs.keys.map (historyKey id) := by
  have hkeys : t.store.data.keys = logs.keys.map (historyKey id) := by
    rw [Entries.keys,h.data,Entries.keys,List.map_map,List.map_map]
    rfl
  rw [Memory.list,withPrefix,hkeys,List.filter_eq_self]
  intro k hk
  obtain ⟨chat,_,rfl⟩ := List.mem_map.mp hk
  rw [historyKey_append id chat]
  exact List.isPrefixOf_iff_prefix.mpr (List.prefix_append _ _)

theorem Holds.setAckIn (h : Holds json P id logs t) (hjson : RoundTrips json P) (msgID : Bytes)
    {ack : AckState} (hack : ∀ m, P m → P {m with ack := ack}) (chats : List Bytes) :
    Holds json P id (ackFirst logs msgID ack chats)
      (setAckIn json t id msgID ack (chats.map (historyKey id))) := by
  induction chats with
  | nil => exact h
  | cons chat chats ih =>
      have hchat : (historyKey id chat).drop (historyKey id []).length = chat := by
        rw [historyKey_append id chat,List.drop_left]
      rw [List.map_cons,SharedStorage.setAckIn,ackFirst]
      simp only [hchat,h.loadLocked hjson]
      cases hsome : ackLog msgID ack (log logs chat) with
      | some l =>
          obtain ⟨_,rfl⟩ := ackLog_eq_some hsome
          refine h.saveLocked chat fun m hm => ?_
          obtain ⟨e,he,rfl⟩ := List.mem_map.mp hm
          rw [acked]
          split_ifs
          · exact hack e (h.within chat e he)
          · exact h.within chat e he
      | none => exact ih

/-- A call does the same to the stored logs. -/
theorem Holds.exec (h : Holds json P id logs t) (hjson : RoundTrips json P) {u : Update}
    (hu : Within P u) : Holds json P id (apply id logs u) (u.exec json id t) := by
  cases u with
  | skip => exact h
  | upsert m =>
      simp only [Update.exec,SharedStorage.upsert,apply,upsertIn,h.loadLocked hjson]
      split_ifs
      · exact h
      · exact h.saveLocked m.chat (of_mem_upsertLog (h.within m.chat) hu
          fun old hold => hjson.inPlace old m hold hu)
  | setAck msgID ack =>
      simp only [Update.exec,SharedStorage.setAck,apply,Traced.list,h.list]
      split_ifs
      · exact h
      · apply Holds.setAckIn _ hjson msgID hu
        exact ⟨h.data,h.within⟩

end

/-- The map of logs after events. -/
def logsAfter (id : Bytes) (evs : List Event) : Logs :=
  run (fun logs ev => apply id logs ev.update) evs .empty

theorem holds_run {json : LogCodec} {P : StoredMessage → Prop} (hjson : RoundTrips json P)
    (id : Bytes) {evs : List Event} (hevs : ∀ ev ∈ evs, Within P ev.update) :
    Holds json P id (logsAfter id evs) (run (handle json id) evs {}) := by
  have hsim : ∀ (evs : List Event) (logs : Logs) (t : Traced), (∀ ev ∈ evs, Within P ev.update) →
      Holds json P id logs t →
      Holds json P id (run (fun logs ev => apply id logs ev.update) evs logs)
        (run (handle json id) evs t) := by
    intro evs
    induction evs with
    | nil => exact fun _ _ _ h => h
    | cons ev evs ih =>
        intro logs t hevs h
        obtain ⟨hev,hevs⟩ := List.forall_mem_cons.mp hevs
        exact ih _ _ hevs (h.exec hjson hev)
  exact hsim evs .empty {} hevs holds_empty

theorem logsAfter_ok (id : Bytes) (evs : List Event) : LogsOk (logsAfter id evs) :=
  run_invariant (I := LogsOk) (fun _ ev h => h.apply id ev.update) evs fun chat => LogOk.nil chat

/-! ### The representation -/

/-- An upsert, seen from the chats. -/
structure UpsertKeeps (m : StoredMessage) (before after : Bytes → List StoredMessage) : Prop where
  present : ∃ ack, {m with ack := ack} ∈ after m.chat ∧ (m.ack ≠ .unset → ack = m.ack)
  others : others m (after m.chat) =
    if (before m.chat).length = historyWindow ∧ ∀ e ∈ before m.chat, e.id ≠ m.id
    then (before m.chat).tail else others m (before m.chat)
  elsewhere : ∀ chat, chat ≠ m.chat → after chat = before chat

theorem upsertKeeps_of_ok {logs : Logs} (h : LogsOk logs) {m : StoredMessage} (hm : m.chat ≠ []) :
    UpsertKeeps m (log logs) (log (upsertIn logs m)) := by
  have hlength := (h m.chat).length_le
  constructor
  · rw [log_upsertIn hm,if_pos rfl]
    exact mem_upsertLog hlength m
  · rw [log_upsertIn hm,if_pos rfl]
    exact others_upsertLog hlength m
  · intro chat hchat
    rw [log_upsertIn hm,if_neg hchat]

/-- The logs after any events, and what one more call does to them. -/
theorem history_represented {json : LogCodec} {P : StoredMessage → Prop}
    (hjson : RoundTrips json P) (id : Bytes) (evs : List Event)
    (hevs : ∀ ev ∈ evs, Within P ev.update) :
    let t := run (handle json id) evs {}
    (∀ chat, LogOk chat (loadLocked json t id chat)) ∧
    (∀ m : StoredMessage, P m → m.chat ≠ [] →
      UpsertKeeps m (loadLocked json t id) (loadLocked json (upsert json t id m) id)) ∧
    ∀ msgID ack, Within P (.setAck msgID ack) → ∀ chat,
      List.Forall₂ (OnlyAck msgID) (loadLocked json t id chat)
        (loadLocked json (setAck json t id msgID ack) id chat) := by
  intro t
  have hholds : Holds json P id (logsAfter id evs) t := holds_run hjson id hevs
  have hok := logsAfter_ok id evs
  have hload : loadLocked json t id = log (logsAfter id evs) := funext (hholds.loadLocked hjson)
  rw [hload]
  refine ⟨hok,fun m hm hchat => ?_,fun msgID ack hack chat => ?_⟩
  · have hafter := hholds.exec hjson (u := .upsert m) hm
    rw [show loadLocked json (upsert json t id m) id = _ from funext (hafter.loadLocked hjson)]
    exact upsertKeeps_of_ok hok hchat
  · have hafter := hholds.exec hjson hack
    rw [show loadLocked json (setAck json t id msgID ack) id chat = _ from
      hafter.loadLocked hjson chat,apply]
    split_ifs
    · exact onlyAck_refl msgID _
    · exact log_ackFirst_onlyAck _ msgID ack _ chat

/-! ### Events of valid texts -/

theorem utf8_withAck {m : StoredMessage} (h : Utf8 m) {ack : AckState}
    (hack : utf8Valid ack.name = true) : Utf8 {m with ack := ack} := by
  obtain ⟨hown,hmedia⟩ := List.forall_mem_append.mp h
  refine List.forall_mem_append.mpr ⟨?_,hmedia⟩
  simp only [List.forall_mem_cons] at hown ⊢
  obtain ⟨h₁,h₂,h₃,h₄,h₅,_,hnil⟩ := hown
  exact ⟨h₁,h₂,h₃,h₄,h₅,hack,hnil⟩

theorem jsonLogs_roundTrips : RoundTrips jsonLogs Utf8 where
  reads _ h := jsonLogs_reads h
  inPlace old m hold hm := by
    rw [inPlace]
    split_ifs
    · exact utf8_withAck hm (hold old.ack.name (by simp [messageTexts]))
    · exact hm

/-- The texts of the message that an event brings are valid UTF-8. -/
def Legible (ev : Event) : Prop := ∀ m, ev.update = .upsert m → Utf8 m

theorem Legible.within {ev : Event} (h : Legible ev) : Within Utf8 ev.update := by
  cases hev : ev.update with
  | skip => trivial
  | upsert m => exact h m hev
  | setAck msgID ack =>
      intro m hm
      rcases (update_setAck hev).2 with rfl | rfl
      · exact utf8_withAck hm (utf8Valid_text _)
      · exact utf8_withAck hm (utf8Valid_text _)

def decidableLegible (ev : Event) : Decidable (Legible ev) :=
  match hev : ev.update with
  | .upsert m => decidable_of_iff (Utf8 m) ⟨fun h m' hm => by cases hev.symm.trans hm; exact h,
      fun h => h m hev⟩
  | .skip => .isTrue fun m hm => by cases hev.symm.trans hm
  | .setAck _ _ => .isTrue fun m hm => by cases hev.symm.trans hm

instance (ev : Event) : Decidable (Legible ev) := decidableLegible ev

/-- The stored log of a chat is the one of the map. -/
theorem loadLocked_jsonLogs (id chat : Bytes) {evs : List Event} (h : ∀ ev ∈ evs, Legible ev) :
    loadLocked jsonLogs (run (handle jsonLogs id) evs {}) id chat = log (logsAfter id evs) chat :=
  (holds_run jsonLogs_roundTrips id fun ev hev => (h ev hev).within).loadLocked
    jsonLogs_roundTrips chat

def sentEvent (id chat : String) : Event :=
  .sent (.message {id := text id,chat := text chat,content := text "hello",type := text "text"})

def receiptEvent (id type : String) : Event :=
  .acknowledged (.node (.mk (text "receipt")
    [(text "id",.str (text id)),(text "type",.str (text type))] .nil))

def inboundEvent (id chat : String) : Event :=
  .received 0 (.node (.mk (text "message")
    [(text "from",.str (text chat)),(text "id",.str (text id))] (.str (text "hi"))))

def sampleEvents : List Event :=
  [sentEvent "m1" "chat",inboundEvent "m2" "chat",receiptEvent "m1" "Read"]

/-- A message that is sent and read, and one that comes in. -/
theorem history_represented_sample :
    let t := run (handle jsonLogs (text "s")) sampleEvents {}
    LogOk (text "chat") (loadLocked jsonLogs t (text "s") (text "chat")) ∧
    (loadLocked jsonLogs t (text "s") (text "chat")).map (fun m => (m.id,m.ack)) =
      [(text "m1",.read),(text "m2",.received)] := by
  have hlegible : ∀ ev ∈ sampleEvents, Legible ev := by decide +kernel
  refine ⟨(history_represented jsonLogs_roundTrips _ _ fun ev hev => (hlegible ev hev).within).1 _,
    ?_⟩
  rw [loadLocked_jsonLogs _ _ hlegible]
  decide +kernel

end BaturWhatsApi.HistoryLogs
