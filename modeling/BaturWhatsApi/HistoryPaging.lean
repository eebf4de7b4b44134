import BaturWhatsApi.HistoryLogs

/-!
# Reading the history page by page

`hSessionHistory` of `apiserver/apiserver.go`, and a client that asks for a chat page by page and
follows the cursor it is given. The cursor is a place in the log, and is not checked: a
negative one ends in a slice out of range, which is a panic. A log that is full moves by one
place with every new message, and a client that has read a part of it misses as many. As long
as nothing is pushed out of the log while the client reads, the pages are the log. The texts of all
messages are taken to be valid UTF-8.
-/
namespace BaturWhatsApi.HistoryPaging
open ByteStrings OrderedEntries KeyValueStores ChatHistory SharedStorage HistoryEvents HistoryTexts
open HistoryLogs Runs

/-! ### The handler -/

/-- The parameters of a request. One that is missing or not a number keeps its default. -/
structure Query where
  chat : Bytes
  limit : Option ℤ := none
  cursor : Option ℤ := none

inductive Answer where
  | chats (chats : List Bytes)
  | page (chat : Bytes) (messages : List StoredMessage) (nextCursor : ℤ)
  | badRequest (error : Bytes)

/-- `list[low:high]`, which panics when it is out of range. -/
def slice {α : Type} (list : List α) (low high : ℤ) : Option (List α) :=
  if 0 ≤ low ∧ low ≤ high ∧ high ≤ list.length then
    some ((list.take high.toNat).drop low.toNat)
  else none

def pageLimit (q : Query) : ℤ :=
  let limit := q.limit.getD 50
  if limit < 1 then 1 else if 500 < limit then 500 else limit

/-- The answer for a chat. -/
def servePage (q : Query) (list : List StoredMessage) : Option Answer :=
  let cursor := q.cursor.getD 0
  if list.length ≤ cursor then some (.page q.chat [] (-1))
  else
    let high := if (list.length : ℤ) < cursor+pageLimit q then (list.length : ℤ)
      else cursor+pageLimit q
    match slice list cursor high with
    | none => none
    | some page => some (.page q.chat page (if high < list.length then high else -1))

/-- The newest messages of a chat. -/
def history (t : Traced) (id chat : Bytes) (limit : ℤ) : List StoredMessage :=
  let list := loadLocked jsonLogs t id chat
  if limit ≤ 0 ∨ list.length ≤ limit then list else list.drop (list.length-limit).toNat

def recentChats (t : Traced) (id : Bytes) : List Bytes :=
  ((t.store.list (historyKey id [])).map fun k =>
    k.drop (historyKey id []).length).insertionSort (· ≤ ·)

/-- The handler, with whether a history is kept at all; a panic is no answer. -/
def hSessionHistory (enabled : Bool) (t : Traced) (id : Bytes) (q : Query) : Option Answer :=
  if enabled = false then some (.badRequest (text "batur: history not enabled"))
  else if q.chat = [] then some (.chats (recentChats t id))
  else servePage q (history t id q.chat historyWindow)

/-! ### The client -/

/-- A client that reads a chat: its cursor, the pages it has, and the identifiers that were in the
log at each of its requests. -/
structure Client where
  cursor : ℤ := 0
  pages : List (List StoredMessage) := []
  present : List (List Bytes) := []

def Client.take (c : Client) (list : List StoredMessage) : Option Answer → Client
  | some (.page _ messages next) =>
      { cursor := next
        pages := c.pages++[messages]
        present := c.present++[list.map StoredMessage.id] }
  | _ => c

inductive Step where
  | request (limit : Option ℤ)
  | event (ev : Event)

/-- The client beside the storage. -/
structure Walk where
  store : Traced
  client : Client := {}

section
variable (id chat : Bytes)

/-- The client stops at the cursor -1. -/
def Walk.step (w : Walk) : Step → Walk
  | .request limit =>
      if w.client.cursor = -1 then w
      else
        let answer := hSessionHistory true w.store id ⟨chat,limit,some w.client.cursor⟩
        {w with client := w.client.take (loadLocked jsonLogs w.store id chat) answer}
  | .event ev => {w with store := handle jsonLogs id w.store ev}

end

/-- Every message that was in the log at all requests is on exactly one page. -/
def Client.Complete (c : Client) : Prop :=
  c.cursor = -1 → ∀ i, (∀ ids ∈ c.present, i ∈ ids) →
    c.pages.countP (fun page => (page.map StoredMessage.id).contains i) = 1

/-- A message is pushed out of the log. -/
def Evicts (chat : Bytes) (list : List StoredMessage) : Update → Prop
  | .upsert m => m.chat = chat ∧ list.length = historyWindow ∧ ∀ e ∈ list, e.id ≠ m.id
  | _ => False

/-! ### The client beside the map of logs -/

structure Reading where
  logs : Logs
  client : Client := {}

section
variable (id chat : Bytes)

def Reading.step (w : Reading) : Step → Reading
  | .request limit =>
      if w.client.cursor = -1 then w
      else
        let answer := servePage ⟨chat,limit,some w.client.cursor⟩ (log w.logs chat)
        {w with client := w.client.take (log w.logs chat) answer}
  | .event ev => {w with logs := apply id w.logs ev.update}

/-- Nothing is pushed out of the log while the client is between two pages. -/
def Undisturbed (w : Reading) : Step → Prop
  | .request _ => True
  | .event ev => w.client.cursor ≤ 0 ∨ ¬Evicts chat (log w.logs chat) ev.update

end

def decidableEvicts (chat : Bytes) (list : List StoredMessage) :
    (u : Update) → Decidable (Evicts chat list u)
  | .upsert m => inferInstanceAs
      (Decidable (m.chat = chat ∧ list.length = historyWindow ∧ ∀ e ∈ list, e.id ≠ m.id))
  | .skip => .isFalse fun h => h
  | .setAck _ _ => .isFalse fun h => h

instance (chat : Bytes) (list : List StoredMessage) (u : Update) :
    Decidable (Evicts chat list u) := decidableEvicts chat list u

def decidableUndisturbed (chat : Bytes) (w : Reading) :
    (st : Step) → Decidable (Undisturbed chat w st)
  | .request _ => .isTrue trivial
  | .event ev => inferInstanceAs
      (Decidable (w.client.cursor ≤ 0 ∨ ¬Evicts chat (log w.logs chat) ev.update))

instance (chat : Bytes) (w : Reading) (st : Step) : Decidable (Undisturbed chat w st) :=
  decidableUndisturbed chat w st

/-! ### Pages -/

theorem pageLimit_pos (q : Query) : 1 ≤ pageLimit q := by
  rw [pageLimit]
  split_ifs <;> omega

/-- What the handler answers for a chat. -/
inductive PageOutcome (q : Query) (list : List StoredMessage) : Option Answer → Prop
  | behind (h : (list.length : ℤ) ≤ q.cursor.getD 0) :
      PageOutcome q list (some (.page q.chat [] (-1)))
  | panics (h : q.cursor.getD 0 < 0) : PageOutcome q list none
  | more {low high : ℕ} (hlow : q.cursor.getD 0 = low) (h : low < high)
      (hhigh : high < list.length) :
      PageOutcome q list (some (.page q.chat ((list.take high).drop low) high))
  | last {low : ℕ} (hlow : q.cursor.getD 0 = low) (h : low < list.length) :
      PageOutcome q list (some (.page q.chat (list.drop low) (-1)))

theorem servePage_outcome (q : Query) (list : List StoredMessage) :
    PageOutcome q list (servePage q list) := by
  rw [servePage]
  dsimp only
  have hlimit := pageLimit_pos q
  by_cases hbehind : (list.length : ℤ) ≤ q.cursor.getD 0
  · rw [if_pos hbehind]
    exact .behind hbehind
  rw [if_neg hbehind]
  by_cases hneg : q.cursor.getD 0 < 0
  · have hpanic : ∀ high, slice list (q.cursor.getD 0) high = none :=
      fun high => if_neg fun h => absurd h.1 (not_le.mpr hneg)
    simp only [hpanic]
    exact .panics hneg
  obtain ⟨low,hlow⟩ := Int.eq_ofNat_of_zero_le (not_lt.mp hneg)
  have hinside : low < list.length := by omega
  by_cases hover : (list.length : ℤ) < q.cursor.getD 0+pageLimit q
  · have hslice : slice list (q.cursor.getD 0) list.length = some (list.drop low) := by
      rw [slice,if_pos (by omega),hlow]
      simp
    simp only [if_pos hover,hslice,if_neg (lt_irrefl _)]
    exact .last hlow hinside
  · obtain ⟨high,hhigh⟩ := Int.eq_ofNat_of_zero_le
      (show 0 ≤ q.cursor.getD 0+pageLimit q by omega)
    have hslice : slice list (q.cursor.getD 0) high = some ((list.take high).drop low) := by
      rw [slice,if_pos (by omega),hlow]
      simp
    simp only [if_neg hover]
    simp only [hhigh,hslice]
    by_cases hmore : (high : ℤ) < list.length
    · rw [if_pos hmore]
      exact .more hlow (by omega) (by omega)
    · have hall : list.take high = list := List.take_of_length_le (by omega)
      rw [if_neg hmore,hall]
      exact .last hlow hinside

/-- The handler answers exactly when the cursor is not negative. -/
theorem servePage_isSome_iff (q : Query) (list : List StoredMessage) :
    (servePage q list).isSome = true ↔ 0 ≤ q.cursor.getD 0 := by
  have hout := servePage_outcome q list
  generalize servePage q list = out at hout
  cases hout with
  | behind h => exact iff_of_true rfl (by omega)
  | panics h => exact iff_of_false (by simp) (by omega)
  | more hlow _ _ => exact iff_of_true rfl (by omega)
  | last hlow _ => exact iff_of_true rfl (by omega)

/-- A message in a list without repetition is in one part of it. -/
theorem countP_mem_flatten {α : Type} [BEq α] [LawfulBEq α] {parts : List (List α)} {a : α}
    (hnodup : parts.flatten.Nodup) (ha : a ∈ parts.flatten) :
    parts.countP (fun part => part.contains a) = 1 := by
  induction parts with
  | nil => cases ha
  | cons part parts ih =>
      rw [List.flatten_cons,List.nodup_append] at hnodup
      rw [List.flatten_cons,List.mem_append] at ha
      by_cases hpart : a ∈ part
      · have hrest : parts.countP (fun part => part.contains a) = 0 := by
          rw [List.countP_eq_zero]
          intro other hother hmem
          have hflat := List.mem_flatten_of_mem hother (List.contains_iff_mem.mp hmem)
          exact hnodup.2.2 a hpart a hflat rfl
        rw [List.countP_cons_of_pos (by simpa using hpart),hrest]
      · rw [List.countP_cons_of_neg (by simpa using hpart)]
        exact ih hnodup.2.1 (ha.resolve_left hpart)

/-! ### Reading -/

/-- The identifiers on the pages, in order. -/
def Client.ids (c : Client) : List Bytes := (c.pages.map (List.map StoredMessage.id)).flatten

theorem Client.complete_of_ids {c : Client} {list : List StoredMessage}
    (hids : c.ids = list.map StoredMessage.id) (hnodup : (list.map StoredMessage.id).Nodup)
    (hlast : list.map StoredMessage.id ∈ c.present) : c.Complete := by
  intro _ i hi
  rw [Client.ids] at hids
  have hcount :
      (c.pages.map (List.map StoredMessage.id)).countP (fun ids => ids.contains i) = 1 := by
    apply countP_mem_flatten
    · rw [hids]
      exact hnodup
    · rw [hids]
      exact hi _ hlast
  rw [List.countP_map] at hcount
  exact hcount

/-- How far the client is. -/
inductive Progress (list : List StoredMessage) (c : Client) : Prop
  | start (hcursor : c.cursor = 0) (hpages : c.pages = [])
  | between {k : ℕ} (hcursor : c.cursor = k) (hpos : 0 < k) (hlt : k < list.length)
      (hids : c.ids = (list.map StoredMessage.id).take k)
  | done (hcursor : c.cursor = -1) (hcomplete : c.Complete)

structure Inv (chat : Bytes) (w : Reading) : Prop where
  logs : LogsOk w.logs
  progress : Progress (log w.logs chat) w.client

theorem ids_of_onlyAck {msgID : Bytes} {before after : List StoredMessage}
    (h : List.Forall₂ (OnlyAck msgID) before after) :
    before.map StoredMessage.id = after.map StoredMessage.id := by
  induction h with
  | nil => rfl
  | cons hone _ ih =>
      rw [List.map_cons,List.map_cons,ih]
      rcases hone with rfl | ⟨-,-,_,rfl⟩ <;> rfl

/-- A log grows at its end, unless something is pushed out. -/
theorem ids_apply {id chat : Bytes} {logs : Logs} (h : LogsOk logs) {u : Update}
    (hu : ¬Evicts chat (log logs chat) u) :
    (log logs chat).map StoredMessage.id <+: (log (apply id logs u) chat).map StoredMessage.id := by
  cases u with
  | skip => exact List.prefix_rfl
  | upsert m =>
      rw [apply,upsertIn]
      split_ifs
      · exact List.prefix_rfl
      rw [log_set]
      split_ifs with hchat
      · subst hchat
        have hout := upsertLog_outcome (h m.chat).length_le m
        generalize hbefore : log logs m.chat = before at hout hu ⊢
        generalize upsertLog before m = after at hout ⊢
        cases hout with
        | replaced hid =>
            simp only [List.map_append,List.map_cons,inPlace,hid]
            exact List.prefix_rfl
        | appended hnew hroom =>
            rw [List.map_append]
            exact List.prefix_append _ _
        | evicted hnew hfull => exact absurd ⟨rfl,hfull,hnew⟩ hu
      · exact List.prefix_rfl
  | setAck msgID ack =>
      rw [apply]
      split_ifs
      · exact List.prefix_rfl
      · have honly := log_ackFirst_onlyAck logs msgID ack logs.keys chat
        rw [ids_of_onlyAck honly]

theorem Client.ids_take (c : Client) (list messages : List StoredMessage) (target : Bytes)
    (next : ℤ) : (c.take list (some (.page target messages next))).ids =
      c.ids++messages.map StoredMessage.id := by
  simp [Client.ids,Client.take]

/-- A request is answered with what follows the pages the client has. -/
theorem Progress.request {list : List StoredMessage} {c : Client} (h : Progress list c)
    (hnodup : (list.map StoredMessage.id).Nodup) (hopen : c.cursor ≠ -1) (chat : Bytes)
    (limit : Option ℤ) :
    Progress list (c.take list (servePage ⟨chat,limit,some c.cursor⟩ list)) := by
  -- the pages so far are the log up to the cursor
  obtain ⟨k,hcursor,hk,hids⟩ : ∃ k : ℕ, c.cursor = k ∧ (k < list.length ∨ list = [] ∧ k = 0) ∧
      c.ids = (list.map StoredMessage.id).take k := by
    cases h with
    | start hcursor hpages =>
        refine ⟨0,hcursor,?_,?_⟩
        · cases list with
          | nil => exact .inr ⟨rfl,rfl⟩
          | cons e list => exact .inl (Nat.succ_pos _)
        · simp [Client.ids,hpages]
    | between hcursor hpos hlt hids => exact ⟨_,hcursor,.inl hlt,hids⟩
    | done hcursor _ => exact absurd hcursor hopen
  have hfinish : ∀ messages : List StoredMessage, messages = list.drop k →
      Progress list (c.take list (some (.page chat messages (-1)))) := by
    intro messages hmessages
    refine .done rfl (Client.complete_of_ids ?_ hnodup ?_)
    · rw [Client.ids_take,hids,hmessages,List.map_drop,List.take_append_drop]
    · exact List.mem_append_right _ List.mem_cons_self
  have hout := servePage_outcome ⟨chat,limit,some c.cursor⟩ list
  generalize servePage ⟨chat,limit,some c.cursor⟩ list = out at hout ⊢
  cases hout with
  | behind hbehind =>
      apply hfinish
      rw [List.drop_of_length_le]
      simp only [Option.getD_some] at hbehind
      omega
  | panics hneg =>
      simp only [Option.getD_some] at hneg
      omega
  | @more low high hlow hlt hhigh =>
      obtain rfl : low = k := by
        simp only [Option.getD_some] at hlow
        omega
      refine .between rfl (by omega) hhigh ?_
      rw [Client.ids_take,hids,List.map_drop,List.map_take]
      have hsplit := List.take_append_drop low ((list.map StoredMessage.id).take high)
      rw [List.take_take,Nat.min_eq_left hlt.le] at hsplit
      exact hsplit
  | @last low hlow hlt =>
      obtain rfl : low = k := by
        simp only [Option.getD_some] at hlow
        omega
      exact hfinish _ rfl

/-- The log changes behind the client. -/
theorem Progress.grow {list list' : List StoredMessage} {c : Client} (h : Progress list c)
    (hgrow : c.cursor ≤ 0 ∨
      list.map StoredMessage.id <+: list'.map StoredMessage.id) : Progress list' c := by
  cases h with
  | start hcursor hpages => exact .start hcursor hpages
  | @between k hcursor hpos hlt hids =>
      have hgrow := hgrow.resolve_left (by omega)
      have hlength := hgrow.length_le
      rw [List.length_map,List.length_map] at hlength
      refine .between hcursor hpos (hlt.trans_le hlength) ?_
      obtain ⟨rest,hrest⟩ := hgrow
      rw [hids,← hrest,List.take_append_of_le_length]
      rw [List.length_map]
      exact hlt.le
  | done hcursor hcomplete => exact .done hcursor hcomplete

theorem Inv.step {id chat : Bytes} {w : Reading} (h : Inv chat w) (st : Step)
    (hst : Undisturbed chat w st) : Inv chat (Reading.step id chat w st) := by
  cases st with
  | request limit =>
      rw [Reading.step]
      split_ifs with hdone
      · exact h
      · exact ⟨h.logs,h.progress.request (h.logs chat).ids hdone chat limit⟩
  | event ev =>
      refine ⟨h.logs.apply id ev.update,h.progress.grow ?_⟩
      exact hst.imp_right fun hstays => ids_apply h.logs hstays

theorem Inv.complete {chat : Bytes} {w : Reading} (h : Inv chat w) : w.client.Complete := by
  cases h.progress with
  | start hcursor _ =>
      intro hdone
      rw [hcursor] at hdone
      cases hdone
  | between hcursor _ _ _ =>
      intro hdone
      omega
  | done _ hcomplete => exact hcomplete

/-! ### Both clients -/

theorem history_window {t : Traced} {id chat : Bytes}
    (h : (loadLocked jsonLogs t id chat).length ≤ historyWindow) :
    history t id chat historyWindow = loadLocked jsonLogs t id chat := by
  rw [history]
  exact if_pos (.inr (Int.ofNat_le.mpr h))

/-- The texts of all messages that come between the requests are valid. -/
def LegibleSteps (steps : List Step) : Prop := ∀ ev, .event ev ∈ steps → Legible ev

/-- The client gets the same pages from the storage and from the map of logs. -/
theorem client_run (id : Bytes) {chat : Bytes} (hchat : chat ≠ []) {steps : List Step}
    (hsteps : LegibleSteps steps) {t : Traced} {logs : Logs}
    (hholds : Holds jsonLogs Utf8 id logs t) (hok : LogsOk logs) (c : Client) :
    (run (Walk.step id chat) steps ⟨t,c⟩).client =
      (run (Reading.step id chat) steps ⟨logs,c⟩).client := by
  induction steps generalizing t logs c with
  | nil => rfl
  | cons st steps ih =>
      have hrest : LegibleSteps steps := fun ev hev => hsteps ev (List.mem_cons_of_mem _ hev)
      cases st with
      | event ev =>
          have hev := (hsteps ev List.mem_cons_self).within
          exact ih hrest (hholds.exec jsonLogs_roundTrips hev) (hok.apply id ev.update) c
      | request limit =>
          have hload := hholds.loadLocked jsonLogs_roundTrips chat
          have hlength : (loadLocked jsonLogs t id chat).length ≤ historyWindow := by
            rw [hload]
            exact (hok chat).length_le
          have hserve : hSessionHistory true t id ⟨chat,limit,some c.cursor⟩ =
              servePage ⟨chat,limit,some c.cursor⟩ (log logs chat) := by
            rw [hSessionHistory,if_neg (by simp),if_neg hchat]
            simp only [history_window hlength,hload]
          show (run (Walk.step id chat) steps
              (Walk.step id chat ⟨t,c⟩ (.request limit))).client =
            (run (Reading.step id chat) steps
              (Reading.step id chat ⟨logs,c⟩ (.request limit))).client
          rw [Walk.step,Reading.step]
          split_ifs with hdone
          · exact ih hrest hholds hok c
          · simp only [hload,hserve]
            exact ih hrest hholds hok _

/-- The handler answers exactly when the cursor is not negative. A client that follows the cursor
gets every message once, if nothing is pushed out of the log between its requests. -/
theorem history_paging (id : Bytes) {chat : Bytes} (hchat : chat ≠ []) :
    (∀ t limit cursor, (hSessionHistory true t id ⟨chat,limit,cursor⟩).isSome = true ↔
      0 ≤ cursor.getD 0) ∧
    ∀ before steps, (∀ ev ∈ before, Legible ev) → LegibleSteps steps →
      Along (Reading.step id chat) (Undisturbed chat) steps ⟨logsAfter id before,{}⟩ →
      ∀ pre, pre <+: steps →
        (run (Walk.step id chat) pre
          ⟨run (handle jsonLogs id) before {},{}⟩).client.Complete := by
  constructor
  · intro t limit cursor
    rw [hSessionHistory,if_neg (by simp),if_neg hchat]
    exact servePage_isSome_iff ⟨chat,limit,cursor⟩ _
  · intro before steps hbefore hsteps halong pre hpre
    have hok := logsAfter_ok id before
    have hholds := holds_run jsonLogs_roundTrips id fun ev hev => (hbefore ev hev).within
    have hpart : LegibleSteps pre := fun ev hev => hsteps ev (hpre.subset hev)
    rw [client_run id hchat hpart hholds hok {}]
    have hinv : Inv chat ⟨logsAfter id before,{}⟩ := ⟨hok,.start rfl rfl⟩
    exact (halong.throughout (fun w st h hst => h.step st hst) hinv pre hpre).complete

def sampleChat : Bytes := text "chat"

/-- Two pages, with a new message and a receipt between the requests. -/
def sampleSteps : List Step :=
  [.request (some 2),.event (sentEvent "m4" "chat"),.event (receiptEvent "m1" "read"),
   .request (some 2)]

def sampleBefore : List Event :=
  [sentEvent "m1" "chat",inboundEvent "m2" "chat",sentEvent "m3" "chat"]

theorem history_paging_sample :
    (run (Reading.step (text "s") sampleChat) sampleSteps
      ⟨logsAfter (text "s") sampleBefore,{}⟩).client.cursor = -1 ∧
    (run (Walk.step (text "s") sampleChat) sampleSteps
      ⟨run (handle jsonLogs (text "s")) sampleBefore {},{}⟩).client.Complete := by
  have hchat : sampleChat ≠ [] := by decide +kernel
  have hsteps : LegibleSteps sampleSteps := by
    intro ev hev
    simp only [sampleSteps,List.mem_cons,Step.event.injEq,reduceCtorEq,List.not_mem_nil,or_false,
      false_or] at hev
    rcases hev with rfl | rfl <;> decide +kernel
  refine ⟨by decide +kernel,?_⟩
  exact (history_paging (text "s") hchat).2 sampleBefore sampleSteps (by decide +kernel) hsteps
    (by decide +kernel) sampleSteps List.prefix_rfl

/-- Two letters for each number. -/
def letters (n : ℕ) : Bytes := [UInt8.ofNat (65+n/16),UInt8.ofNat (65+n%16)]

theorem letters_injective {n k : ℕ} (hn : n < historyWindow) (hk : k < historyWindow)
    (h : letters n = letters k) : n = k := by
  rw [historyWindow] at hn hk
  obtain ⟨hhigh,hlow⟩ := List.cons.inj h
  have hhigh := congrArg UInt8.toNat hhigh
  have hlow := congrArg UInt8.toNat (List.cons.inj hlow).1
  rw [UInt8.toNat_ofNat',UInt8.toNat_ofNat'] at hhigh hlow
  omega

/-- Messages with different identifiers, one after another. -/
def numbered (n : ℕ) : Event := .sent (.message {id := letters n,chat := sampleChat})

def numberedEntry (n : ℕ) : StoredMessage :=
  {id := letters n,chat := sampleChat,fromMe := true,ack := .sent}

theorem numberedEntry_ne {n k : ℕ} (h : n < k) (hk : k < historyWindow) :
    (numberedEntry n).id ≠ (numberedEntry k).id :=
  fun heq => h.ne (letters_injective (h.trans hk) hk heq)

/-- The chat with a log of such messages. -/
def numberedLogs (n : ℕ) : Logs :=
  ⟨[(sampleChat,(List.range n).map numberedEntry)],List.pairwise_singleton _ _⟩

theorem logsAfter_numbered {n : ℕ} (hn : n < historyWindow) :
    logsAfter (text "s") ((List.range (n+1)).map numbered) = numberedLogs (n+1) := by
  induction n with
  | zero =>
      ext1
      decide +kernel
  | succ n ih =>
      have hlast : logsAfter (text "s") ((List.range (n+1+1)).map numbered) =
          upsertIn (logsAfter (text "s") ((List.range (n+1)).map numbered))
            (numberedEntry (n+1)) := by
        rw [List.range_succ,List.map_append]
        exact run_append _ _ _
      have hlog : log (numberedLogs (n+1)) sampleChat = (List.range (n+1)).map numberedEntry := by
        rw [log,Entries.get,numberedLogs,lookup_cons,if_pos rfl]
        rfl
      have hnew : upsertLog ((List.range (n+1)).map numberedEntry) (numberedEntry (n+1)) =
          (List.range (n+1)).map numberedEntry++[numberedEntry (n+1)] := by
        apply upsertLog_new
        · rw [List.length_map,List.length_range]
          exact hn
        · intro e he
          obtain ⟨k,hk,rfl⟩ := List.mem_map.mp he
          exact numberedEntry_ne (List.mem_range.mp hk) hn
      have hchat : (numberedEntry (n+1)).chat = sampleChat := rfl
      have hnamed : sampleChat ≠ [] := by decide +kernel
      rw [hlast,ih (by omega),upsertIn,hchat,if_neg hnamed,hlog,hnew]
      ext1
      simp [Entries.set,numberedLogs,put,List.range_succ (n := n+1)]

def disturbedSteps : List Step :=
  [.request (some 200),.event (sentEvent "m1" "chat"),.request (some 200)]

/-- A negative cursor is a panic. One new message in a full log hides another from a client that
is between its pages: it is in the log at both requests and on no page. -/
theorem history_paging_broken :
    (hSessionHistory true {} (text "s") ⟨sampleChat,none,some (-1)⟩).isSome = false ∧
    let client := (run (Walk.step (text "s") sampleChat) disturbedSteps
      ⟨run (handle jsonLogs (text "s")) ((List.range 256).map numbered) {},{}⟩).client
    client.cursor = -1 ∧ (∀ ids ∈ client.present, text "MI" ∈ ids) ∧
      client.pages.countP (fun page => text "MI" ∈ page.map StoredMessage.id) = 0 := by
  have hchat : sampleChat ≠ [] := by decide +kernel
  have hsteps : LegibleSteps disturbedSteps := by
    intro ev hev
    simp only [disturbedSteps,List.mem_cons,Step.event.injEq,reduceCtorEq,List.not_mem_nil,
      or_false,false_or] at hev
    rw [hev]
    decide +kernel
  have hbefore : ∀ ev ∈ (List.range 256).map numbered, Legible ev := by decide +kernel
  refine ⟨by decide +kernel,?_⟩
  rw [client_run (text "s") hchat hsteps
    (holds_run jsonLogs_roundTrips (text "s") fun ev hev => (hbefore ev hev).within)
    (logsAfter_ok _ _) {},logsAfter_numbered (show 255 < historyWindow by decide)]
  decide +kernel

end BaturWhatsApi.HistoryPaging
