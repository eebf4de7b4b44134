import BaturWhatsApi.Decimal
import BaturWhatsApi.NodeModel
import BaturWhatsApi.SyncRunner

/-!
# The synchronised snapshot

`RunSync` of `api/sync.go`: a run over the contacts and the chats, and after it two
writes of what the run has fetched. A snapshot is kept as its JSON text gives it back: a
byte of a name or of a JID that is not UTF-8 comes back as U+FFFD.

The fetched pages are kept in memory for one call, and the checkpoints in the store for
all of them. A call that goes on from a checkpoint overwrites the snapshot with the
pages after the checkpoint, and a call after a complete run with nothing at all.
-/
namespace BaturWhatsApi.SyncSnapshot
open ByteStrings NodeModel CursorPages SyncRunner Runs Utf8Runes

structure Contact where
  jid : Bytes
  name : Bytes
  updated : ℤ := 0
deriving DecidableEq, Repr

structure ChatSummary where
  jid : Bytes
  unread : ℤ
  lastSync : ℤ := 0
deriving DecidableEq, Repr

/-- The contact that is read back from the JSON text of this one. -/
def Contact.coerced (c : Contact) : Contact := {c with jid := coerce c.jid,name := coerce c.name}

def ChatSummary.coerced (c : ChatSummary) : ChatSummary := {c with jid := coerce c.jid}

/-! ### Decoding a page -/

/-- The loop of `strconv.ParseUint`, which ends at the first number that is too large, whatever
comes after it. -/
def parseUint (n : ℕ) : Bytes → Option ℕ
  | [] => some n
  | b::bs => (Decimal.readDigit b).bind fun d =>
      if 10*n+d < 2^64 then parseUint (10*n+d) bs else some (2^64-1)

/-- The number that `strconv.Atoi` returns, which is 0 with a text that is no number and the
nearest bound with a number that is too large. -/
def atoi (s : Bytes) : ℤ :=
  let digits := match s with
    | 45::cs => cs
    | 43::cs => cs
    | cs => cs
  if digits = [] then 0
  else match parseUint 0 digits with
    | none => 0
    | some n => if s.head? = some 45 then max (-(n : ℤ)) (-2^63) else min (n : ℤ) (2^63-1)

example : atoi (text "-99999999999999999999 chats") = -2^63 ∧ atoi (text "-9 chats") = 0 := by
  decide +kernel

def contactOf (item : Node) : Contact :=
  {jid := item.mustStringAttr (text "jid"),name := item.mustStringAttr (text "name")}

def chatOf (item : Node) : ChatSummary :=
  {jid := item.mustStringAttr (text "jid"),unread := atoi (item.mustStringAttr (text "unread"))}

/-- `reply` is the server's answer to a request that did not fail. -/
def pageFetcher (reply : Bytes → Node) (cursor : Bytes) : Except FetchError (Page Bytes Node) :=
  match (reply cursor).childByTag (text "sync") with
  | none => .error .missingSync
  | some syncNode => .ok ⟨syncNode.children,syncNode.mustStringAttr (text "cursor")⟩

/-! ### The server's directory -/

structure Directory where
  contacts : Feed Bytes Node []
  chats : Feed Bytes Node []

def syncReply (page : Page Bytes Node) : Node :=
  .mk (text "iq") [(text "type",.str (text "result"))]
    (.nodes [.mk (text "sync") [(text "cursor",.str page.cursor)] (.nodes page.items)])

theorem pageFetcher_syncReply (feed : Feed Bytes Node []) (cursor : Bytes) :
    pageFetcher (fun c => syncReply (feed.fetch c)) cursor = .ok (feed.fetch cursor) := by
  unfold pageFetcher
  have hchild : (syncReply (feed.fetch cursor)).childByTag (text "sync") =
      some (.mk (text "sync") [(text "cursor",.str (feed.fetch cursor).cursor)]
        (.nodes (feed.fetch cursor).items)) :=
    List.find?_cons_of_pos (by simp [Node.tag])
  have hattr : ∀ c content, (Node.mk (text "sync") [(text "cursor",.str c)] content).mustStringAttr
      (text "cursor") = c := by
    intro c content
    simp [Node.mustStringAttr,Node.stringAttr,Node.attrs,sprintValue]
  rw [hchild]
  dsimp only
  rw [hattr]
  rfl

/-- The stages of `RunSync` against this directory. -/
def Directory.runner (dir : Directory) : Runner Node where
  stages :=
    [⟨text "contacts",pageFetcher fun c => syncReply (dir.contacts.fetch c)⟩,
     ⟨text "chats",pageFetcher fun c => syncReply (dir.chats.fetch c)⟩]

def Directory.sources (dir : Directory) : List (Source Node) :=
  [⟨text "contacts",dir.contacts⟩,⟨text "chats",dir.chats⟩]

theorem Directory.runner_eq (dir : Directory) :
    dir.runner = ⟨dir.sources.map Source.stage,false⟩ := by
  have hfetch : ∀ feed : Feed Bytes Node [],
      pageFetcher (fun c => syncReply (feed.fetch c)) = fun c => .ok (feed.fetch c) :=
    fun feed => funext (pageFetcher_syncReply feed)
  simp only [runner,sources,hfetch,List.map_cons,List.map_nil,Source.stage]

/-! ### Calls of `RunSync` -/

inductive Phase where
  | idle
  | running
  | saveContacts
  | saveChats
deriving DecidableEq, Repr

structure Api where
  sync : State Node := {}
  phase : Phase := .idle
  now : ℤ := 0
  contactsKey : Option (List Contact) := none
  chatsKey : Option (List ChatSummary) := none
  returned : Option (Except SyncError Unit) := none

inductive Event where
  | runSync (now : ℤ)
  | op (ok : Bool)
  | crash
deriving DecidableEq, Repr

def Api.ended (s : Api) (result : Except SyncError Unit) : Api :=
  {s with phase := .idle,returned := some result}

/-- The contacts that the closure of `RunSync` has collected. -/
def Api.contactsFetched (s : Api) : List Contact :=
  (itemsOf (text "contacts") s.sync.fetched).map fun item => {contactOf item with updated := s.now}

def Api.chatsFetched (s : Api) : List ChatSummary :=
  (itemsOf (text "chats") s.sync.fetched).map fun item => {chatOf item with lastSync := s.now}

def Api.step (dir : Directory) (s : Api) : Event → Api
  | .runSync now =>
      match s.phase with
      | .idle =>
          {s with
           sync := s.sync.step dir.runner .run
           phase := .running
           now := now
           returned := none}
      | _ => s
  | .crash => {s with sync := s.sync.step dir.runner .crash,phase := .idle,returned := none}
  | .op ok =>
      match s.phase with
      | .idle => s
      | .running =>
          let sync := s.sync.step dir.runner (.op ok)
          match sync.pc,sync.returned with
          | .idle,some (.ok _) => {s with sync := sync,phase := .saveContacts}
          | .idle,some (.error e) => Api.ended {s with sync := sync} (.error e)
          | _,_ => {s with sync := sync}
      | .saveContacts =>
          if !ok then s.ended (.error .store)
          else {s with
            phase := .saveChats
            contactsKey := some (s.contactsFetched.map Contact.coerced)}
      | .saveChats =>
          if !ok then s.ended (.error .store)
          else Api.ended {s with chatsKey := some (s.chatsFetched.map ChatSummary.coerced)} (.ok ())

/-- An absent snapshot is an empty list. -/
def Api.contacts (s : Api) : List Contact := s.contactsKey.getD []

def Api.chats (s : Api) : List ChatSummary := s.chatsKey.getD []

/-! ### What a call leaves behind -/

/-- The items before the position of the stored checkpoint, all of them after a complete run. -/
def skipped (name : Bytes) (feed : Feed Bytes Node []) (store : Store) : List Node :=
  feed.before (Source.skip ⟨name,feed⟩ (store name))

/-- The items after it. -/
def fetchedFrom (name : Bytes) (feed : Feed Bytes Node []) (store : Store) : List Node :=
  Source.owed store ⟨name,feed⟩

theorem skipped_append_fetchedFrom (name : Bytes) (feed : Feed Bytes Node []) (store : Store) :
    skipped name feed store++fetchedFrom name feed store = feed.items :=
  Feed.before_append_between _

/-- The fetched items give what all items should give exactly if none was skipped and each one
gives what it should. -/
theorem map_fetchedFrom_iff {β : Type} (f g : Node → β) (name : Bytes) (feed : Feed Bytes Node [])
    (store : Store) : (fetchedFrom name feed store).map f = feed.items.map g ↔
      skipped name feed store = [] ∧ ∀ item ∈ feed.items, f item = g item := by
  have hitems := skipped_append_fetchedFrom name feed store
  constructor
  · intro h
    have hlen := congrArg List.length h
    rw [← hitems,List.length_map,List.length_map,List.length_append] at hlen
    have hskip : skipped name feed store = [] := List.length_eq_zero_iff.mp (by omega)
    rw [hskip,List.nil_append] at hitems
    rw [hitems] at h
    exact ⟨hskip,List.map_inj_left.mp h⟩
  · rintro ⟨hskip,h⟩
    rw [hskip,List.nil_append] at hitems
    rw [hitems]
    exact List.map_inj_left.mpr h

/-- The texts of a contact are UTF-8. -/
def Contact.Utf8 (c : Contact) : Prop := utf8Valid c.jid ∧ utf8Valid c.name

def ChatSummary.Utf8 (c : ChatSummary) : Prop := utf8Valid c.jid

instance (c : Contact) : Decidable c.Utf8 := by
  unfold Contact.Utf8
  infer_instance

instance (c : ChatSummary) : Decidable c.Utf8 := by
  unfold ChatSummary.Utf8
  infer_instance

theorem Contact.coerced_eq_self_iff {c : Contact} : c.coerced = c ↔ c.Utf8 := by
  cases c
  simp only [Contact.coerced,Contact.Utf8,Contact.mk.injEq,coerce_eq_self_iff,and_true]

theorem ChatSummary.coerced_eq_self_iff {c : ChatSummary} : c.coerced = c ↔ c.Utf8 := by
  cases c
  simp only [ChatSummary.coerced,ChatSummary.Utf8,ChatSummary.mk.injEq,coerce_eq_self_iff,and_true]

/-- The cursors of the directory are texts. -/
def Directory.Utf8 (dir : Directory) : Prop :=
  (∀ p ∈ dir.contacts.pages, utf8Valid p.cursor) ∧ ∀ p ∈ dir.chats.pages, utf8Valid p.cursor

instance (dir : Directory) : Decidable dir.Utf8 := by
  unfold Directory.Utf8
  infer_instance

theorem Directory.Utf8.sources {dir : Directory} (h : dir.Utf8) :
    ∀ src ∈ dir.sources, src.Utf8 := by
  intro src hsrc
  rcases List.mem_cons.mp hsrc with rfl | hsrc
  · exact ⟨utf8Valid_text _,h.1⟩
  · rw [List.mem_singleton.mp hsrc]
    exact ⟨utf8Valid_text _,h.2⟩

section
variable {dir : Directory} {s : Api}

theorem names_nodup (dir : Directory) : (dir.sources.map Source.name).Nodup := by
  show [text "contacts",text "chats"].Nodup
  decide +kernel

/-- Between calls the runner is idle. -/
structure Api.Sound (dir : Directory) (s : Api) : Prop where
  inv : ∃ st0, Inv dir.sources st0 False s.sync
  idle : s.phase ≠ .running → s.sync.pc = .idle

theorem Api.Sound.step (h : s.Sound dir) (hutf : dir.Utf8) (ev : Event) :
    (s.step dir ev).Sound dir := by
  have hinv : ∀ ev', ∃ st0, Inv dir.sources st0 False (s.sync.step dir.runner ev') := by
    intro ev'
    rw [dir.runner_eq]
    exact inv_step (names_nodup dir) hutf.sources h.inv ev' fun hf => hf.elim
  cases ev with
  | runSync now =>
      dsimp only [Api.step]
      split
      · exact ⟨hinv .run,fun hne => absurd rfl hne⟩
      · exact h
  | crash => exact ⟨hinv .crash,fun _ => rfl⟩
  | op ok =>
      cases hphase : s.phase with
      | idle =>
          simp only [Api.step,hphase]
          exact h
      | running =>
          simp only [Api.step,hphase]
          split
          · rename_i hpc _
            exact ⟨hinv (.op ok),fun _ => hpc⟩
          · rename_i hpc _
            exact ⟨hinv (.op ok),fun _ => hpc⟩
          · exact ⟨hinv (.op ok),fun hne => absurd rfl hne⟩
      | saveContacts | saveChats =>
          have hpc := h.idle (by rw [hphase]; exact fun hx => (nomatch hx))
          simp only [Api.step,hphase]
          split
          · exact ⟨h.inv,fun _ => hpc⟩
          · exact ⟨h.inv,fun _ => hpc⟩

theorem sound_empty (dir : Directory) : ({} : Api).Sound dir :=
  ⟨inv_empty dir.sources False,fun _ => rfl⟩

section
variable (dir) (st0 : Store) (now : ℤ)

def contactsFrom : List Contact :=
  (fetchedFrom (text "contacts") dir.contacts st0).map fun item =>
    {contactOf item with updated := now}

def chatsFrom : List ChatSummary :=
  (fetchedFrom (text "chats") dir.chats st0).map fun item => {chatOf item with lastSync := now}

/-- A call that began with the store `st0`. -/
def Api.Call (s : Api) : Prop :=
  match s.phase with
  | .running => s.now = now ∧ s.returned = none ∧ Inv dir.sources st0 False s.sync
  | .saveContacts => s.returned = none ∧ s.contactsFetched = contactsFrom dir st0 now ∧
      s.chatsFetched = chatsFrom dir st0 now
  | .saveChats => s.returned = none ∧
      s.contacts = (contactsFrom dir st0 now).map Contact.coerced ∧
      s.chatsFetched = chatsFrom dir st0 now
  | .idle => s.returned = some (.ok ()) →
      s.contacts = (contactsFrom dir st0 now).map Contact.coerced ∧
      s.chats = (chatsFrom dir st0 now).map ChatSummary.coerced

end

variable {st0 : Store} {now : ℤ}

/-- The run has come to its end, so the collected lists are the pages after the checkpoints. -/
theorem collected {s : Api}
    (hitems : ∀ d ∈ dir.sources, itemsOf d.name s.sync.fetched = d.owed st0) :
    s.contactsFetched = contactsFrom dir st0 s.now ∧ s.chatsFetched = chatsFrom dir st0 s.now := by
  have hcontacts := hitems ⟨text "contacts",dir.contacts⟩ List.mem_cons_self
  have hchats := hitems ⟨text "chats",dir.chats⟩ (List.mem_cons_of_mem _ List.mem_cons_self)
  refine ⟨?_,?_⟩
  · rw [Api.contactsFetched,contactsFrom,fetchedFrom,hcontacts]
  · rw [Api.chatsFetched,chatsFrom,fetchedFrom,hchats]

theorem Api.Call.op (h : s.Call dir st0 now) (hutf : dir.Utf8) (ok : Bool) :
    (s.step dir (.op ok)).Call dir st0 now := by
  unfold Api.Call at h
  cases hphase : s.phase with
  | idle =>
      rw [hphase] at h
      simp only [Api.step,Api.Call,hphase]
      exact h
  | running =>
      rw [hphase] at h
      obtain ⟨hnow,hret,hinv⟩ := h
      have hinv' : SyncRunner.Inv dir.sources st0 False (s.sync.step dir.runner (.op ok)) := by
        rw [dir.runner_eq]
        exact inv_op (names_nodup dir) hutf.sources hinv ok fun hf => hf.elim
      simp only [Api.step,hphase]
      split
      · rename_i hpc hok
        unfold SyncRunner.Inv at hinv'
        rw [hpc] at hinv'
        rw [← hnow]
        exact ⟨hret,collected (hinv'.2 hok)⟩
      · intro hx
        cases hx
      · exact ⟨hnow,hret,hinv'⟩
  | saveContacts =>
      rw [hphase] at h
      obtain ⟨hret,hcontacts,hchats⟩ := h
      simp only [Api.step,hphase]
      split
      · intro hx
        cases hx
      · exact ⟨hret,congrArg (List.map Contact.coerced) hcontacts,hchats⟩
  | saveChats =>
      rw [hphase] at h
      obtain ⟨hret,hcontacts,hchats⟩ := h
      simp only [Api.step,hphase]
      split
      · intro hx
        cases hx
      · exact fun _ => ⟨hcontacts,congrArg (List.map ChatSummary.coerced) hchats⟩

theorem Api.Call.ops (h : s.Call dir st0 now) (hutf : dir.Utf8) (oks : List Bool) :
    (run (Api.step dir) (oks.map Event.op) s).Call dir st0 now := by
  induction oks generalizing s with
  | nil => exact h
  | cons ok oks ih => exact ih (h.op hutf ok)

theorem call_runSync (h : s.Sound dir) (hidle : s.phase = .idle) (now : ℤ) :
    (s.step dir (.runSync now)).Call dir s.sync.store now := by
  obtain ⟨st0,hinv⟩ := h.inv
  have hpc := h.idle (by rw [hidle]; exact fun hx => (nomatch hx))
  have hkept : KeptAll dir.sources False s.sync.store := hinv.kept fun hf => hf.elim
  simp only [Api.step,hidle]
  refine ⟨rfl,rfl,?_⟩
  rw [dir.runner_eq]
  exact inv_run hkept hpc

end

/-- A call that returned no error has left the whole directory exactly if the checkpoints it
found skip no item and the names and JIDs of the directory are UTF-8. -/
theorem snapshot_exact_iff (dir : Directory) (hutf : dir.Utf8) (evs : List Event) (now : ℤ)
    (oks : List Bool) :
    let s := run (Api.step dir) evs {}
    let t := run (Api.step dir) (.runSync now::oks.map Event.op) s
    s.phase = .idle → t.returned = some (.ok ()) →
      ((t.contacts = dir.contacts.items.map (fun item => {contactOf item with updated := now}) ∧
        t.chats = dir.chats.items.map (fun item => {chatOf item with lastSync := now})) ↔
      (skipped (text "contacts") dir.contacts s.sync.store = [] ∧
        skipped (text "chats") dir.chats s.sync.store = [] ∧
        (∀ item ∈ dir.contacts.items, (contactOf item).Utf8) ∧
        ∀ item ∈ dir.chats.items, (chatOf item).Utf8)) := by
  intro s t hidle hret
  have hsound : s.Sound dir := run_invariant (fun _ ev h => h.step hutf ev) evs (sound_empty dir)
  have hcall : t.Call dir s.sync.store now := (call_runSync hsound hidle now).ops hutf oks
  have hend : t.contacts = (contactsFrom dir s.sync.store now).map Contact.coerced ∧
      t.chats = (chatsFrom dir s.sync.store now).map ChatSummary.coerced := by
    unfold Api.Call at hcall
    split at hcall
    · cases hcall.2.1.symm.trans hret
    · cases hcall.1.symm.trans hret
    · cases hcall.1.symm.trans hret
    · exact hcall hret
  rw [hend.1,hend.2,contactsFrom,chatsFrom,List.map_map,List.map_map,map_fetchedFrom_iff,
    map_fetchedFrom_iff,and_and_and_comm,and_assoc]
  simp only [Function.comp_apply,Contact.coerced_eq_self_iff,ChatSummary.coerced_eq_self_iff]
  exact Iff.rfl

/-! A directory with one contact, which comes after an empty page, and one chat. -/

def ada : Node :=
  .mk (text "item") [(text "jid",.str (text "1")),(text "name",.str (text "ada"))] .nil

def sampleDirectory : Directory where
  contacts := ⟨[⟨[],text "next"⟩,⟨[ada],[]⟩],by decide +kernel,rfl⟩
  chats := ⟨[⟨[ada],[]⟩],by decide,rfl⟩

/-- The request for the second page fails. -/
def failedCall : List Event := .runSync 4::[true,true,true,false].map Event.op

/-- The next call goes on with this page. -/
theorem snapshot_exact_resumed :
    let s := run (Api.step sampleDirectory) failedCall {}
    let t := run (Api.step sampleDirectory) (.runSync 5::(List.replicate 10 true).map Event.op) s
    s.returned = some (.error (.fetch (text "contacts") .request)) ∧
    t.contacts = [⟨text "1",text "ada",5⟩] ∧ t.chats = [⟨text "1",0,5⟩] := by
  have hexact := (snapshot_exact_iff sampleDirectory (by decide +kernel) failedCall 5
    (List.replicate 10 true) (by decide +kernel) (by decide +kernel)).mpr (by decide +kernel)
  exact ⟨by decide +kernel,hexact⟩

def firstCall : List Event := .runSync 5::(List.replicate 12 true).map Event.op

/-- The second call returns no error and leaves an empty snapshot. -/
theorem snapshot_emptied :
    let t := run (Api.step sampleDirectory)
      (firstCall++.runSync 6::(List.replicate 4 true).map Event.op) {}
    (run (Api.step sampleDirectory) firstCall {}).returned = some (.ok ()) ∧
    t.returned = some (.ok ()) ∧ t.contacts = [] ∧ t.chats = [] ∧
    sampleDirectory.contacts.items.length = 1 := by
  decide +kernel

end BaturWhatsApi.SyncSnapshot
