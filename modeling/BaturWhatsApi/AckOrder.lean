import BaturWhatsApi.HistoryLogs

/-!
# The state of a message and the order of its events

A message from here should end in the highest state that any of its receipts gives it. The
events of a message come from four subscriptions, each with a worker of its own, so they are
handled in any order, and a receipt may be handled before the message is stored. It is then
lost: the first chat in whose log it finds something to change is the only one it changes, and
there is none.

The message is watched together with the receipts it has had so far. Its state is the highest of
them in every state of a run, exactly when every event of the run leaves it in place. The texts of
all messages are taken to be valid UTF-8, as other texts do not come out of the storage as they
were put in.
-/
namespace BaturWhatsApi.AckOrder
open ByteStrings OrderedEntries ChatHistory SharedStorage HistoryEvents HistoryTexts HistoryLogs
open Runs

/-! ### Watching a message -/

/-- The event with which the message is stored. -/
def sends (msgID chat : Bytes) : Event → Bool
  | .sent (.message m) => m.id = msgID ∧ m.chat = chat
  | _ => false

def Update.ackOf (msgID : Bytes) : Update → Option AckState
  | .setAck i ack => if i = msgID then some ack else none
  | _ => none

/-- The state that a receipt for the message gives it. -/
def ackOf (msgID : Bytes) (ev : Event) : Option AckState := Update.ackOf msgID ev.update

/-- The highest of some states. -/
def Highest (ack : AckState) (acks : List AckState) : Prop :=
  ack ∈ acks ∧ ∀ a ∈ acks, ackRank a ≤ ackRank ack

/-- The message as one that was sent from here. -/
def Own (msgID : Bytes) (m : StoredMessage) : Prop := m.id = msgID ∧ m.fromMe = true

instance (ack : AckState) (acks : List AckState) : Decidable (Highest ack acks) :=
  inferInstanceAs (Decidable (_ ∧ _))

instance (msgID : Bytes) (m : StoredMessage) : Decidable (Own msgID m) :=
  inferInstanceAs (Decidable (_ ∧ _))

structure Watch where
  logs : Logs := .empty
  acks : List AckState := []
  sent : Bool := false

section
variable (id msgID chat : Bytes)

def watch (w : Watch) (ev : Event) : Watch :=
  { logs := apply id w.logs ev.update
    acks := w.acks++(ackOf msgID ev).toList
    sent := w.sent || sends msgID chat ev }

/-- A message that was sent is stored in the highest state so far. -/
def Tracks (w : Watch) : Prop :=
  w.sent = true → ∃ m ∈ log w.logs chat, Own msgID m ∧ Highest m.ack (.sent::w.acks)

/-- An upsert pushes the message out of its log. -/
def PushesOut (w : Watch) (m : StoredMessage) : Prop :=
  (log w.logs chat).length = historyWindow ∧ (∀ e ∈ log w.logs chat, e.id ≠ m.id) ∧
    ∃ e ∈ (log w.logs chat).head?, e.id = msgID

/-- A message from here with the same identifier takes the receipt, in a chat that comes first. -/
def Diverted (w : Watch) (ack : AckState) : Prop :=
  ∃ c ∈ w.logs.keys, c < chat ∧ ∃ m ∈ log w.logs c, acknowledges msgID ack m = true

/-- A call that leaves the message in the highest state. -/
def Keeps (w : Watch) : Update → Prop
  | .skip => True
  | .upsert m =>
      if m.chat ≠ chat then True
      else if m.id ≠ msgID then w.sent = true → ¬PushesOut msgID chat w m
      else if m.fromMe = true then chat ≠ [] ∧ w.acks = []
      else w.sent = false
  | .setAck i ack =>
      i = msgID → w.sent = true →
        (∃ a ∈ w.acks, ackRank ack ≤ ackRank a) ∨ id ≠ [] ∧ ¬Diverted msgID chat w ack

instance (w : Watch) (m : StoredMessage) : Decidable (PushesOut msgID chat w m) :=
  inferInstanceAs (Decidable (_ ∧ _ ∧ _))

instance (w : Watch) (ack : AckState) : Decidable (Diverted msgID chat w ack) :=
  inferInstanceAs (Decidable (∃ c ∈ w.logs.keys, _ ∧ _))

def decidableKeeps (w : Watch) : (u : Update) → Decidable (Keeps id msgID chat w u)
  | .skip => .isTrue trivial
  | .upsert m => inferInstanceAs (Decidable
      (if m.chat ≠ chat then True
       else if m.id ≠ msgID then w.sent = true → ¬PushesOut msgID chat w m
       else if m.fromMe = true then chat ≠ [] ∧ w.acks = []
       else w.sent = false))
  | .setAck i ack => inferInstanceAs (Decidable
      (i = msgID → w.sent = true →
        (∃ a ∈ w.acks, ackRank ack ≤ ackRank a) ∨ id ≠ [] ∧ ¬Diverted msgID chat w ack))

instance (w : Watch) (u : Update) : Decidable (Keeps id msgID chat w u) :=
  decidableKeeps id msgID chat w u

end

/-! ### States -/

theorem Highest.append {ack : AckState} {acks : List AckState} (h : Highest ack acks)
    {new : AckState} (hnew : ackRank new ≤ ackRank ack) : Highest ack (acks++[new]) := by
  refine ⟨List.mem_append_left _ h.1,?_⟩
  intro a ha
  rcases List.mem_append.mp ha with ha | ha
  · exact h.2 a ha
  · rw [List.mem_singleton.mp ha]
    exact hnew

theorem Highest.replace {ack : AckState} {acks : List AckState} (h : Highest ack acks)
    {new : AckState} (hnew : ackRank ack ≤ ackRank new) : Highest new (acks++[new]) := by
  refine ⟨List.mem_append_right _ List.mem_cons_self,?_⟩
  intro a ha
  rcases List.mem_append.mp ha with ha | ha
  · exact (h.2 a ha).trans hnew
  · rw [List.mem_singleton.mp ha]

/-- The states a receipt can give. -/
def Receipted (ack : AckState) : Prop := ack = .delivered ∨ ack = .read

theorem Receipted.rank {ack : AckState} (h : Receipted ack) : ackRank .sent < ackRank ack := by
  rcases h with rfl | rfl <;> decide

/-- The message has the state of an earlier receipt, if it is as high as a new one. -/
theorem Highest.seen_iff {ack new : AckState} {acks : List AckState}
    (h : Highest ack (.sent::acks)) (hnew : Receipted new) :
    ackRank new ≤ ackRank ack ↔ ∃ a ∈ acks, ackRank new ≤ ackRank a := by
  constructor
  · intro hle
    rcases List.mem_cons.mp h.1 with rfl | hmem
    · exact absurd hle (not_le.mpr hnew.rank)
    · exact ⟨ack,hmem,hle⟩
  · rintro ⟨a,ha,hle⟩
    exact hle.trans (h.2 a (List.mem_cons_of_mem _ ha))

/-! ### What the watch keeps -/

structure Inv (msgID chat : Bytes) (w : Watch) : Prop where
  logs : LogsOk w.logs
  nowhere : log w.logs [] = []
  acks : ∀ a ∈ w.acks, Receipted a
  tracks : Tracks msgID chat w

theorem sends_iff {msgID chat : Bytes} {ev : Event} {m : StoredMessage}
    (h : ev.update = .upsert m) :
    sends msgID chat ev = true ↔ m.chat = chat ∧ m.id = msgID ∧ m.fromMe = true := by
  have hout := update_outcome ev
  rw [h] at hout
  cases hout with
  | inbound _ _ hpeer _ hev =>
      rw [hpeer]
      fun_cases sends msgID chat ev
      · exact absurd rfl (hev _)
      · simp
  | sent msg hid hchat hme _ => simp [sends,hid,hchat,hme,and_comm]

/-- Only an upsert sends. -/
theorem sends_eq_false {msgID chat : Bytes} {ev : Event} (h : ∀ m, ev.update ≠ .upsert m) :
    sends msgID chat ev = false := by
  fun_cases sends msgID chat ev
  · exact absurd rfl (h _)
  · rfl

theorem log_apply_nil {id : Bytes} {logs : Logs} (h : log logs [] = []) (u : Update) :
    log (apply id logs u) [] = [] := by
  cases u with
  | skip => exact h
  | upsert m =>
      by_cases hm : m.chat = []
      · rw [apply,upsertIn,if_pos hm]
        exact h
      · rw [apply,log_upsertIn hm,if_neg (Ne.symm hm)]
        exact h
  | setAck msgID ack =>
      rw [apply]
      split_ifs
      · exact h
      · have honly := log_ackFirst_onlyAck logs msgID ack logs.keys []
        rw [h] at honly
        exact List.forall₂_nil_left_iff.mp honly

section
variable {id msgID chat : Bytes} {w : Watch} {ev : Event}

/-- A message that is stored has a chat. -/
theorem Inv.chat_ne (h : Inv msgID chat w) (hs : w.sent = true) : chat ≠ [] := by
  rintro rfl
  obtain ⟨e,he,-,-⟩ := h.tracks hs
  rw [h.nowhere] at he
  cases he

variable (id msgID chat w) in
theorem watch_of_upsert {m : StoredMessage} (hev : ev.update = .upsert m) :
    (watch id msgID chat w ev).logs = upsertIn w.logs m ∧
    (watch id msgID chat w ev).acks = w.acks := by
  constructor
  · rw [watch,hev]
    rfl
  · rw [watch,ackOf,hev]
    exact List.append_nil _

/-- An upsert that is not the send of the message only changes the logs. -/
theorem tracks_upsert {m : StoredMessage} (hev : ev.update = .upsert m)
    (hsends : sends msgID chat ev = false) : Tracks msgID chat (watch id msgID chat w ev) ↔
      Tracks msgID chat {w with logs := upsertIn w.logs m} := by
  obtain ⟨hlogs,hacks⟩ := watch_of_upsert id msgID chat w hev
  have hsent : (watch id msgID chat w ev).sent = w.sent := by
    rw [watch,hsends,Bool.or_false]
  rw [Tracks,hsent,hlogs,hacks]
  rfl

/-- Another message in the chat of the message. -/
theorem tracks_beside_iff (h : Inv msgID chat w) {m : StoredMessage}
    (hev : ev.update = .upsert m) (hchat : m.chat = chat) (hid : m.id ≠ msgID) :
    Tracks msgID chat (watch id msgID chat w ev) ↔
      (w.sent = true → ¬PushesOut msgID chat w m) := by
  have hsends : sends msgID chat ev = false := by
    rw [Bool.eq_false_iff]
    exact fun hs => hid ((sends_iff hev).mp hs).2.1
  rw [tracks_upsert hev hsends]
  refine forall_congr' fun hs => ?_
  obtain ⟨e,he,hown,hhigh⟩ := h.tracks hs
  have hm : m.chat ≠ [] := hchat ▸ h.chat_ne hs
  have hothers := others_upsertLog (h.logs m.chat).length_le m
  have hlog : log (upsertIn w.logs m) chat = upsertLog (log w.logs chat) m := by
    rw [log_upsertIn hm,if_pos hchat.symm,hchat]
  rw [hchat] at hothers
  rw [hlog]
  have hmem : ∀ {x : StoredMessage} {l : List StoredMessage}, x.id = msgID →
      (x ∈ others m l ↔ x ∈ l) := by
    intro x l hx
    rw [others,List.mem_filter,decide_eq_true_iff,and_iff_left]
    rw [hx]
    exact Ne.symm hid
  constructor
  · rintro ⟨x,hx,hxown,-⟩ ⟨hfull,hnew,first,hfirst,hfirstID⟩
    -- the oldest entry is the message, so it is not among those behind
    rw [← hmem hxown.1,hothers,if_pos ⟨hfull,hnew⟩] at hx
    obtain ⟨tail,htail⟩ := List.head?_eq_some_iff.mp hfirst
    have hids := (h.logs chat).ids
    rw [htail] at hx hids
    rw [List.map_cons,List.nodup_cons,hfirstID,← hxown.1] at hids
    exact hids.1 (List.mem_map_of_mem hx)
  · intro hstays
    refine ⟨e,?_,hown,hhigh⟩
    rw [← hmem hown.1,hothers]
    split_ifs with hout
    · cases hl : log w.logs chat with
      | nil => rw [hl] at he; cases he
      | cons first tail =>
          rw [hl] at he
          rcases List.mem_cons.mp he with rfl | htail
          · exact absurd ⟨hout.1,hout.2,e,by rw [hl]; rfl,hown.1⟩ hstays
          · exact htail
    · exact (hmem hown.1).mpr he

/-- The message itself is stored. -/
theorem tracks_sent_iff (h : Inv msgID chat w) {m : StoredMessage} (hev : ev.update = .upsert m)
    (hchat : m.chat = chat) (hid : m.id = msgID) (hme : m.fromMe = true) :
    Tracks msgID chat (watch id msgID chat w ev) ↔ chat ≠ [] ∧ w.acks = [] := by
  have hack : m.ack = .sent := by
    rcases update_upsert hev with ⟨hpeer,-⟩ | ⟨-,hack⟩
    · rw [hme] at hpeer
      cases hpeer
    · exact hack
  obtain ⟨hlogs,hacks⟩ := watch_of_upsert id msgID chat w hev
  have hsent : (watch id msgID chat w ev).sent = true := by
    rw [watch,(sends_iff hev).mpr ⟨hchat,hid,hme⟩,Bool.or_true]
  rw [Tracks,hsent,hlogs,hacks]
  have hstored : chat ≠ [] → m ∈ log (upsertIn w.logs m) chat := by
    intro hne
    rw [log_upsertIn (hchat ▸ hne),if_pos hchat.symm]
    obtain ⟨ack,hmem,hsame⟩ := mem_upsertLog (h.logs m.chat).length_le m
    rw [hsame (by rw [hack]; decide)] at hmem
    exact hmem
  constructor
  · intro htracks
    obtain ⟨x,hx,hown,hhigh⟩ := htracks rfl
    have hne : chat ≠ [] := by
      rintro rfl
      rw [upsertIn,if_pos hchat,h.nowhere] at hx
      cases hx
    refine ⟨hne,List.eq_nil_iff_forall_not_mem.mpr fun a ha => ?_⟩
    have hok : LogOk chat (log (upsertIn w.logs m) chat) := h.logs.apply id (.upsert m) chat
    rw [hok.unique hx (hstored hne) (hown.1.trans hid.symm),hack] at hhigh
    exact not_lt.mpr (hhigh.2 a (List.mem_cons_of_mem _ ha)) (h.acks a ha).rank
  · rintro ⟨hne,hnone⟩ -
    refine ⟨m,hstored hne,⟨hid,hme⟩,?_⟩
    rw [hnone,hack]
    exact ⟨List.mem_singleton_self _,fun a ha => by rw [List.mem_singleton.mp ha]⟩

/-- A message of the peer has the identifier of the message. -/
theorem tracks_imitated_iff (h : Inv msgID chat w) {m : StoredMessage}
    (hev : ev.update = .upsert m) (hchat : m.chat = chat) (hid : m.id = msgID)
    (hpeer : m.fromMe = false) :
    Tracks msgID chat (watch id msgID chat w ev) ↔ w.sent = false := by
  have hsends : sends msgID chat ev = false := by
    rw [Bool.eq_false_iff]
    intro hs
    rw [((sends_iff hev).mp hs).2.2] at hpeer
    cases hpeer
  rw [tracks_upsert hev hsends]
  constructor
  · intro htracks
    rw [Bool.eq_false_iff]
    intro hs
    obtain ⟨x,hx,hown,-⟩ := htracks hs
    have hne : m.chat ≠ [] := hchat ▸ h.chat_ne hs
    obtain ⟨ack,hmem,-⟩ := mem_upsertLog (h.logs m.chat).length_le m
    have hok : LogOk chat (log (upsertIn w.logs m) chat) := h.logs.apply id (.upsert m) chat
    rw [log_upsertIn hne,if_pos hchat.symm] at hok hx
    have hsame := hok.unique hx hmem (hown.1.trans hid.symm)
    have hme := hown.2
    rw [hsame] at hme
    exact absurd (hpeer.symm.trans hme) Bool.false_ne_true
  · intro hs
    rw [hs]
    exact fun hfalse => absurd hfalse Bool.false_ne_true

variable (id msgID chat w) in
theorem watch_of_setAck {i : Bytes} {ack : AckState} (hev : ev.update = .setAck i ack) :
    (watch id msgID chat w ev).logs = apply id w.logs (.setAck i ack) ∧
    (watch id msgID chat w ev).sent = w.sent := by
  constructor
  · rw [watch,hev]
  · have hsends : sends msgID chat ev = false := sends_eq_false fun m hm => by
      rw [hev] at hm
      cases hm
    rw [watch,hsends,Bool.or_false]

/-- A receipt for another message. -/
theorem tracks_of_other (h : Inv msgID chat w) {i : Bytes} {ack : AckState}
    (hev : ev.update = .setAck i ack) (hi : i ≠ msgID) :
    Tracks msgID chat (watch id msgID chat w ev) := by
  obtain ⟨hlogs,hsent⟩ := watch_of_setAck id msgID chat w hev
  have hacks : (watch id msgID chat w ev).acks = w.acks := by
    rw [watch,ackOf,hev,Update.ackOf,if_neg hi]
    exact List.append_nil _
  rw [Tracks,hsent,hlogs,hacks]
  intro hs
  obtain ⟨e,he,hown,hhigh⟩ := h.tracks hs
  refine ⟨e,?_,hown,hhigh⟩
  have hsame : acked i ack e = e := acked_of_ne (fun hid => hi (hid.symm.trans hown.1)) ack
  rw [apply]
  split_ifs
  · exact he
  · rcases log_ackFirst w.logs i ack w.logs.keys with ⟨_,c,_,_,_,_,hset⟩ | ⟨_,hnothing⟩
    · rw [hset,log_set]
      split_ifs with hc
      · rw [← hsame,← hc]
        exact List.mem_map_of_mem he
      · exact he
    · rw [hnothing]
      exact he

theorem acknowledges_iff {m : StoredMessage} (h : Own msgID m) (ack : AckState) :
    acknowledges msgID ack m = true ↔ ackRank m.ack ≤ ackRank ack := by
  simp [acknowledges,h.1,h.2]

/-- A receipt that leaves the log of the message as it is. -/
theorem unchanged_iff (h : Inv msgID chat w) {e : StoredMessage} (he : e ∈ log w.logs chat)
    (hown : Own msgID e) (hhigh : Highest e.ack (.sent::w.acks)) {ack : AckState}
    (hack : Receipted ack) :
    (∃ m ∈ log w.logs chat, Own msgID m ∧ Highest m.ack (.sent::(w.acks++[ack]))) ↔
      ∃ a ∈ w.acks, ackRank ack ≤ ackRank a := by
  rw [← hhigh.seen_iff hack]
  constructor
  · rintro ⟨m,hm,hmown,hmhigh⟩
    rw [(h.logs chat).unique he hm (hown.1.trans hmown.1.symm)]
    exact hmhigh.2 ack (List.mem_cons_of_mem _ (List.mem_append_right _ List.mem_cons_self))
  · intro hle
    exact ⟨e,he,hown,hhigh.append hle⟩

theorem mem_keys_of_mem_log {logs : Logs} {e : StoredMessage} (h : e ∈ log logs chat) :
    chat ∈ logs.keys := by
  rw [Entries.mem_keys]
  rw [log] at h
  cases hget : logs.get chat with
  | none => rw [hget] at h; cases h
  | some l => rfl

/-- A receipt for the message. -/
theorem tracks_receipt_iff (h : Inv msgID chat w) {ack : AckState}
    (hev : ev.update = .setAck msgID ack) :
    Tracks msgID chat (watch id msgID chat w ev) ↔ (w.sent = true →
      (∃ a ∈ w.acks, ackRank ack ≤ ackRank a) ∨ id ≠ [] ∧ ¬Diverted msgID chat w ack) := by
  obtain ⟨hnamed,hack⟩ := update_setAck hev
  obtain ⟨hlogs,hsent⟩ := watch_of_setAck id msgID chat w hev
  have hacks : (watch id msgID chat w ev).acks = w.acks++[ack] := by
    rw [watch,ackOf,hev,Update.ackOf,if_pos rfl]
    rfl
  rw [Tracks,hsent,hlogs,hacks]
  refine forall_congr' fun hs => ?_
  obtain ⟨e,he,hown,hhigh⟩ := h.tracks hs
  have hunchanged := unchanged_iff h he hown hhigh hack
  by_cases hid : id = []
  · rw [apply,if_pos (.inl hid),hunchanged,or_iff_left fun hr => hr.1 hid]
  rw [apply,if_neg (not_or.mpr ⟨hid,hnamed⟩)]
  rcases log_ackFirst w.logs msgID ack w.logs.keys with
    ⟨before,c,after,hkeys,hbefore,⟨m,hm,htakes⟩,hset⟩ | ⟨hnone,hsame⟩
  · have hordered := w.logs.keys_ordered
    rw [hkeys,List.pairwise_append,List.pairwise_cons] at hordered
    rw [hset,log_set]
    split_ifs with hc
    · -- the log of the message is the one that changes
      subst hc
      apply iff_of_true
      · refine ⟨acked msgID ack e,List.mem_map_of_mem he,?_,?_⟩
        · exact ⟨(acked_id _ _ e).trans hown.1,(acked_fromMe _ _ e).trans hown.2⟩
        · rw [acked]
          split_ifs with htake
          · exact hhigh.replace ((acknowledges_iff hown ack).mp htake)
          · exact hhigh.append (not_le.mp fun hle => htake ((acknowledges_iff hown ack).mpr hle)).le
      · refine .inr ⟨hid,?_⟩
        rintro ⟨c',hc',hlt,m',hm',htakes'⟩
        rw [hkeys] at hc'
        rcases List.mem_append.mp hc' with hmem | hmem
        · rw [hbefore c' hmem m' hm'] at htakes'
          cases htakes'
        · rcases List.mem_cons.mp hmem with rfl | hmem
          · exact lt_irrefl _ hlt
          · exact lt_asymm hlt (hordered.2.1.1 c' hmem)
    · -- another log changes; it comes first unless the message is already as high
      rw [hunchanged]
      rw [← hhigh.seen_iff hack]
      refine ⟨.inl,fun hor => hor.elim (fun hseen => hseen) fun hr => ?_⟩
      by_contra hlow
      have htake := (acknowledges_iff hown ack).mpr (not_le.mp hlow).le
      have hmem := mem_keys_of_mem_log he
      rw [hkeys] at hmem
      rcases List.mem_append.mp hmem with hmem | hmem
      · rw [hbefore chat hmem e he] at htake
        cases htake
      · rcases List.mem_cons.mp hmem with hsame | hmem
        · exact hc hsame
        · refine hr.2 ⟨c,?_,hordered.2.1.1 chat hmem,m,hm,htakes⟩
          rw [hkeys]
          exact List.mem_append_right _ List.mem_cons_self
  · have hlow : ¬ackRank e.ack ≤ ackRank ack := by
      rw [← acknowledges_iff hown ack,hnone chat (mem_keys_of_mem_log he) e he]
      exact Bool.false_ne_true
    have hseen := (hhigh.seen_iff hack).mp (not_le.mp hlow).le
    rw [hsame,hunchanged]
    exact iff_of_true hseen (.inl hseen)

/-- An event leaves the message in the highest state exactly under the condition. -/
theorem tracks_watch_iff (h : Inv msgID chat w) (ev : Event) :
    Tracks msgID chat (watch id msgID chat w ev) ↔ Keeps id msgID chat w ev.update := by
  cases hev : ev.update with
  | skip =>
      have hsends : sends msgID chat ev = false := sends_eq_false fun m hm => by
        rw [hev] at hm
        cases hm
      have hsame : watch id msgID chat w ev = w := by
        rw [watch,hsends,ackOf,hev,Bool.or_false]
        simp [Update.ackOf,apply]
      rw [hsame]
      exact iff_of_true h.tracks trivial
  | upsert m =>
      rw [Keeps]
      split_ifs with hchat hid hme
      · refine iff_of_true ?_ trivial
        have hsends : sends msgID chat ev = false := by
          rw [Bool.eq_false_iff]
          exact fun hs => hchat ((sends_iff hev).mp hs).1
        rw [tracks_upsert hev hsends,Tracks,upsertIn]
        split_ifs
        · exact h.tracks
        · rw [log_set,if_neg (Ne.symm hchat)]
          exact h.tracks
      · exact tracks_beside_iff h hev (not_not.mp hchat) hid
      · exact tracks_sent_iff h hev (not_not.mp hchat) (not_not.mp hid) hme
      · exact tracks_imitated_iff h hev (not_not.mp hchat) (not_not.mp hid)
          (Bool.eq_false_iff.mpr hme)
  | setAck i ack =>
      by_cases hi : i = msgID
      · subst hi
        rw [tracks_receipt_iff h hev]
        exact ⟨fun hk _ => hk,fun hk => hk rfl⟩
      · exact iff_of_true (tracks_of_other h hev hi) fun heq => absurd heq hi

theorem Inv.watch (h : Inv msgID chat w) (ev : Event) (hk : Keeps id msgID chat w ev.update) :
    Inv msgID chat (watch id msgID chat w ev) where
  logs := h.logs.apply id ev.update
  nowhere := log_apply_nil h.nowhere ev.update
  acks := by
    intro a ha
    rcases List.mem_append.mp ha with ha | ha
    · exact h.acks a ha
    · rw [Option.mem_toList,ackOf] at ha
      cases hev : ev.update with
      | setAck i ack =>
          rw [hev,Update.ackOf] at ha
          split_ifs at ha
          cases ha
          exact (update_setAck hev).2
      | _ => rw [hev] at ha; cases ha
  tracks := (tracks_watch_iff h ev).mpr hk

end

/-! ### Runs -/

section
variable (id msgID chat : Bytes)

/-- The log of the chat after some events. -/
def logAfter (evs : List Event) : List StoredMessage :=
  loadLocked jsonLogs (run (handle jsonLogs id) evs {}) id chat

abbrev SentIn (evs : List Event) : Prop := evs.any (sends msgID chat) = true

/-- Once sent, the message is in its log, in the highest of the states its receipts have given it.
From then on its rank does not fall. -/
structure OrderIndependent (evs : List Event) : Prop where
  highest : ∀ pre, pre <+: evs → SentIn msgID chat pre →
    ∃ m ∈ logAfter id chat pre, Own msgID m ∧
      Highest m.ack (.sent::pre.filterMap (ackOf msgID))
  rises : ∀ pre later, pre <+: later → later <+: evs → SentIn msgID chat pre →
    ∀ m ∈ logAfter id chat pre, ∀ m' ∈ logAfter id chat later,
      Own msgID m → Own msgID m' → ackRank m.ack ≤ ackRank m'.ack

end

theorem run_watch (id msgID chat : Bytes) (evs : List Event) :
    run (watch id msgID chat) evs {} =
      ⟨logsAfter id evs,evs.filterMap (ackOf msgID),evs.any (sends msgID chat)⟩ := by
  induction evs using List.reverseRecOn with
  | nil => rfl
  | append_singleton evs ev ih =>
      have hacks : (evs++[ev]).filterMap (ackOf msgID) =
          evs.filterMap (ackOf msgID)++(ackOf msgID ev).toList := by
        rw [List.filterMap_append]
        cases h : ackOf msgID ev <;> simp [h]
      have hlogs : logsAfter id (evs++[ev]) = apply id (logsAfter id evs) ev.update :=
        run_append evs [ev] _
      rw [run_append,ih,hlogs,hacks,List.any_append]
      simp [run,watch]

theorem inv_empty (msgID chat : Bytes) : Inv msgID chat {} where
  logs c := LogOk.nil c
  nowhere := rfl
  acks := List.forall_mem_nil _
  tracks h := absurd h Bool.false_ne_true

/-- The highest of more states is higher. -/
theorem Highest.mono {a b : AckState} {acks more : List AckState} (h : Highest a (.sent::acks))
    (h' : Highest b (.sent::more)) (hsub : acks <+: more) : ackRank a ≤ ackRank b := by
  apply h'.2
  rcases List.mem_cons.mp h.1 with rfl | ha
  · exact List.mem_cons_self
  · exact List.mem_cons_of_mem _ (hsub.subset ha)

/-- The state of the message does not depend on the order of its events, exactly when every event
of the run leaves the message in place. -/
theorem order_independent_iff (id msgID chat : Bytes) {evs : List Event}
    (hevs : ∀ ev ∈ evs, Legible ev) :
    OrderIndependent id msgID chat evs ↔
      Along (watch id msgID chat) (fun w ev => Keeps id msgID chat w ev.update) evs {} := by
  have hlog : ∀ pre, pre <+: evs → logAfter id chat pre = log (logsAfter id pre) chat :=
    fun pre hpre => loadLocked_jsonLogs id chat fun ev hev => hevs ev (hpre.subset hev)
  have htracks : ∀ pre, pre <+: evs → (Tracks msgID chat (run (watch id msgID chat) pre {}) ↔
      (SentIn msgID chat pre → ∃ m ∈ logAfter id chat pre, Own msgID m ∧
        Highest m.ack (.sent::pre.filterMap (ackOf msgID)))) := by
    intro pre hpre
    rw [run_watch,Tracks,hlog pre hpre,SentIn]
  rw [← along_iff (I := Inv msgID chat) (R := Tracks msgID chat)
    (fun w ev h hk => h.watch ev hk) (fun w h => h.tracks)
    (fun w ev h hr => (tracks_watch_iff h ev).mp hr) evs (inv_empty msgID chat)]
  constructor
  · intro h pre hpre
    exact (htracks pre hpre).mpr (h.highest pre hpre)
  · intro h
    have hhighest := fun pre hpre => (htracks pre hpre).mp (h pre hpre)
    refine ⟨hhighest,?_⟩
    intro pre later hpre hlater hsent m hm m' hm' hown hown'
    have hsent' : SentIn msgID chat later := by
      obtain ⟨rest,rfl⟩ := hpre
      rw [SentIn,List.any_append,show pre.any (sends msgID chat) = true from hsent,Bool.true_or]
    obtain ⟨e,he,heown,hehigh⟩ := hhighest pre (hpre.trans hlater) hsent
    obtain ⟨e',he',heown',hehigh'⟩ := hhighest later hlater hsent'
    rw [hlog pre (hpre.trans hlater)] at hm he
    rw [hlog later hlater] at hm' he'
    have hok := logsAfter_ok id pre chat
    have hok' := logsAfter_ok id later chat
    rw [hok.unique hm he (hown.1.trans heown.1.symm),
      hok'.unique hm' he' (hown'.1.trans heown'.1.symm)]
    exact hehigh.mono hehigh' (hpre.filterMap _)

def sampleOrder : List Event :=
  [sentEvent "m1" "chat",receiptEvent "m1" "",inboundEvent "m2" "chat",receiptEvent "m1" "played",
   receiptEvent "m1" "delivered"]

/-- A message that is sent, then delivered and read, with another one coming in. -/
theorem order_independent_sample :
    OrderIndependent (text "s") (text "m1") (text "chat") sampleOrder :=
  (order_independent_iff _ _ _ (by decide +kernel)).mpr (by decide +kernel)

def earlyReceipt : List Event := [receiptEvent "m1" "read",sentEvent "m1" "chat"]

def imitation : List Event :=
  [sentEvent "m1" "chat",receiptEvent "m1" "read",inboundEvent "m1" "chat"]

/-- A receipt that is handled before the message is stored is lost. A message of the peer with
the identifier of the message takes its place, whatever state it had. -/
theorem ack_order_matters :
    (logAfter (text "s") (text "chat") earlyReceipt).map StoredMessage.ack = [.sent] ∧
    ¬OrderIndependent (text "s") (text "m1") (text "chat") earlyReceipt ∧
    (logAfter (text "s") (text "chat") imitation).map StoredMessage.ack = [.received] ∧
    ¬OrderIndependent (text "s") (text "m1") (text "chat") imitation := by
  have hearly : logAfter (text "s") (text "chat") earlyReceipt =
      log (logsAfter (text "s") earlyReceipt) (text "chat") :=
    loadLocked_jsonLogs _ _ (by decide +kernel)
  have himitation : logAfter (text "s") (text "chat") imitation =
      log (logsAfter (text "s") imitation) (text "chat") :=
    loadLocked_jsonLogs _ _ (by decide +kernel)
  refine ⟨?_,fun h => ?_,?_,fun h => ?_⟩
  · rw [hearly]
    decide +kernel
  · have hstored := h.highest earlyReceipt List.prefix_rfl (by decide +kernel)
    rw [hearly] at hstored
    exact absurd hstored (by decide +kernel)
  · rw [himitation]
    decide +kernel
  · have hstored := h.highest imitation List.prefix_rfl (by decide +kernel)
    rw [himitation] at hstored
    exact absurd hstored (by decide +kernel)

end BaturWhatsApi.AckOrder
