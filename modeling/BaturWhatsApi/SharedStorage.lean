import BaturWhatsApi.KeyValueStores
import BaturWhatsApi.ChatHistory

/-!
# Sessions over one storage

All sessions of an engine have one storage. Each puts its identifier into its keys, between
slashes, and takes a target, a chat or the name of a stage behind it as it comes. The
credentials are written by the session, the ratchets by `SendText`, the logs by the
history, the checkpoints by the sync runner and the snapshots by `RunSync`. Receipts and
`Reset` look for keys by their beginning.

An identifier may contain slashes. It then lies inside the keys of another session when
it continues the other identifier by the name of one of three families.
-/
namespace BaturWhatsApi.SharedStorage
open ByteStrings OrderedEntries KeyValueStores ChatHistory Runs

/-! ### Keys -/

def credsKey (id : Bytes) : Bytes := text "session/"++(id++text "/credentials")

/-- The keys of a kind with something behind it. -/
def sessionKey (kind : Bytes) (id rest : Bytes) : Bytes := text "session/"++(id++kind++rest)

def e2eKey (id target : Bytes) : Bytes := sessionKey (text "/e2e/") id target

def historyKey (id chat : Bytes) : Bytes := sessionKey (text "/history/") id chat

def runnerKey (id stage : Bytes) : Bytes := sessionKey (text "/sync/") id stage

def snapshotKey (id kind : Bytes) : Bytes := sessionKey (text "/snapshot/") id kind

inductive SnapshotKind where
  | contacts
  | chats

def SnapshotKind.name : SnapshotKind → Bytes
  | .contacts => text "contacts"
  | .chats => text "chats"

/-! ### Operations -/

inductive Access where
  | write (key : Bytes)
  | delete (key : Bytes)
  | listed (key : Bytes)
deriving DecidableEq

def Access.key : Access → Bytes
  | .write key => key
  | .delete key => key
  | .listed key => key

/-- The storage, with a record of what was done to it. -/
structure Traced where
  store : Memory := {}
  accesses : List Access := []

def Traced.set (t : Traced) (key value : Bytes) : Traced :=
  ⟨t.store.set key value,t.accesses++[.write key]⟩

def Traced.delete (t : Traced) (key : Bytes) : Traced :=
  ⟨t.store.delete key,t.accesses++[.delete key]⟩

/-- The keys that were listed are recorded. -/
def Traced.list (t : Traced) (start : Bytes) : List Bytes × Traced :=
  (t.store.list start,{t with accesses := t.accesses++(t.store.list start).map .listed})

section
variable (json : LogCodec)

def loadLocked (t : Traced) (id chat : Bytes) : List StoredMessage :=
  match t.store.get (historyKey id chat) with
  | .error _ => []
  | .ok raw => (json.unmarshal raw).getD []

def saveLocked (t : Traced) (id chat : Bytes) (log : List StoredMessage) : Traced :=
  t.set (historyKey id chat) (json.marshal log)

def upsert (t : Traced) (id : Bytes) (m : StoredMessage) : Traced :=
  if m.chat = [] then t
  else saveLocked json t id m.chat (upsertLog (loadLocked json t id m.chat) m)

/-- The loop of `setAck` over the keys it has listed. It ends at the first log that changes. -/
def setAckIn (t : Traced) (id msgID : Bytes) (ack : AckState) : List Bytes → Traced
  | [] => t
  | k::ks =>
      let chat := k.drop (historyKey id []).length
      match ackLog msgID ack (loadLocked json t id chat) with
      | some log => saveLocked json t id chat log
      | none => setAckIn t id msgID ack ks

def setAck (t : Traced) (id msgID : Bytes) (ack : AckState) : Traced :=
  if id = [] ∨ msgID = [] then t
  else
    let (keys,t) := t.list (historyKey id [])
    setAckIn json t id msgID ack keys

/-- `Runner.Reset`. -/
def reset (t : Traced) (id : Bytes) : Traced :=
  let (keys,t) := t.list (runnerKey id [])
  keys.foldl Traced.delete t

/-- What a session does. A text that is not sent leaves the ratchet as it was. -/
inductive Operation where
  | saveCredentials (raw : Bytes)
  | sendText (target : Bytes) (state : Option Bytes)
  | upsert (m : StoredMessage)
  | setAck (msgID : Bytes) (ack : AckState)
  | saveCheckpoint (stage raw : Bytes)
  | reset
  | saveSnapshot (kind : SnapshotKind) (raw : Bytes)

def Operation.exec (id : Bytes) (t : Traced) : Operation → Traced
  | .saveCredentials raw => t.set (credsKey id) raw
  | .sendText target state =>
      if target = [] then t
      else
        match state with
        | none => t
        | some raw => t.set (e2eKey id target) raw
  | .upsert m => SharedStorage.upsert json t id m
  | .setAck msgID ack => SharedStorage.setAck json t id msgID ack
  | .saveCheckpoint stage raw => t.set (runnerKey id stage) raw
  | .reset => SharedStorage.reset t id
  | .saveSnapshot kind raw => t.set (snapshotKey id kind.name) raw

end

/-- A key that a session has for itself. -/
inductive Uses (id : Bytes) : Bytes → Prop where
  | credentials : Uses id (credsKey id)
  | ratchet (target : Bytes) : target ≠ [] → Uses id (e2eKey id target)
  | history (chat : Bytes) : chat ≠ [] → Uses id (historyKey id chat)
  | checkpoint (stage : Bytes) : Uses id (runnerKey id stage)
  | snapshot (kind : SnapshotKind) : Uses id (snapshotKey id kind.name)

/-- The kinds of keys that go on as they like. -/
def families : List Bytes := [text "/e2e/",text "/history/",text "/sync/"]

/-- Neither identifier continues the other one by the name of a family. -/
def Apart (id id' : Bytes) : Prop :=
  ∀ kind ∈ families, ¬id++kind <+: id'++text "/" ∧ ¬id'++kind <+: id++text "/"

/-! ### What an operation touches -/

/-- What a key of a session has behind the identifier. -/
def Tail (tail : Bytes) : Prop :=
  tail = text "/credentials" ∨ (∃ kind ∈ families, ∃ rest, tail = kind++rest) ∨
    ∃ kind : SnapshotKind, tail = text "/snapshot/"++kind.name

def Touched (id key : Bytes) : Prop := ∃ tail, Tail tail ∧ key = text "session/"++(id++tail)

theorem touched_credentials (id : Bytes) : Touched id (credsKey id) := ⟨_,.inl rfl,rfl⟩

theorem touched_family {kind : Bytes} (hkind : kind ∈ families) (id rest : Bytes) :
    Touched id (sessionKey kind id rest) :=
  ⟨kind++rest,.inr (.inl ⟨kind,hkind,rest,rfl⟩),by rw [sessionKey,List.append_assoc id]⟩

theorem touched_snapshot (id : Bytes) (kind : SnapshotKind) :
    Touched id (snapshotKey id kind.name) :=
  ⟨_,.inr (.inr ⟨kind,rfl⟩),by rw [snapshotKey,sessionKey,List.append_assoc id]⟩

theorem Uses.touched {id key : Bytes} (h : Uses id key) : Touched id key := by
  cases h with
  | credentials => exact touched_credentials id
  | ratchet target _ => exact touched_family (by simp [families]) id target
  | history chat _ => exact touched_family (by simp [families]) id chat
  | checkpoint stage => exact touched_family (by simp [families]) id stage
  | snapshot kind => exact touched_snapshot id kind

/-- What happens between the two is about keys with the property. -/
structure Confined (P : Bytes → Prop) (t t' : Traced) : Prop where
  accesses : ∀ a ∈ t'.accesses, a ∈ t.accesses ∨ P a.key
  others : ∀ k, ¬P k → t'.store.data.get k = t.store.data.get k

section
variable {P : Bytes → Prop} {t u v : Traced}

theorem Confined.refl (t : Traced) : Confined P t t := ⟨fun _ ha => .inl ha,fun _ _ => rfl⟩

theorem Confined.trans (h : Confined P t u) (h' : Confined P u v) : Confined P t v where
  accesses a ha := by
    cases h'.accesses a ha with
    | inl hold => exact h.accesses a hold
    | inr hnew => exact .inr hnew
  others k hk := (h'.others k hk).trans (h.others k hk)

/-- An access that changes its own key at most. -/
theorem confined_access {a : Access} (ha : P a.key) {store : Memory}
    (hothers : ∀ k, k ≠ a.key → store.data.get k = t.store.data.get k) :
    Confined P t ⟨store,t.accesses++[a]⟩ where
  accesses b hb := by
    cases List.mem_append.mp hb with
    | inl hold => exact .inl hold
    | inr hnew => exact .inr (List.mem_singleton.mp hnew ▸ ha)
  others k hk := hothers k fun he => hk (he ▸ ha)

theorem confined_set {key : Bytes} (hkey : P key) (t : Traced) (value : Bytes) :
    Confined P t (t.set key value) := by
  apply confined_access (a := .write key) hkey
  intro k hne
  have hkey : k ≠ key := hne
  simp [Memory.set,hkey]

theorem confined_delete {key : Bytes} (hkey : P key) (t : Traced) :
    Confined P t (t.delete key) := by
  apply confined_access (a := .delete key) hkey
  intro k hne
  have hkey : k ≠ key := hne
  simp [Memory.delete,hkey]

theorem mem_list {m : Memory} {start k : Bytes} (h : k ∈ m.list start) : start <+: k := by
  have := (List.mem_filter.mp h).2
  exact List.isPrefixOf_iff_prefix.mp this

theorem confined_list {start : Bytes} (hstart : ∀ k, start <+: k → P k) (t : Traced) :
    Confined P t (t.list start).2 where
  accesses a ha := by
    cases List.mem_append.mp ha with
    | inl hold => exact .inl hold
    | inr hnew =>
        obtain ⟨k,hk,rfl⟩ := List.mem_map.mp hnew
        exact .inr (hstart k (mem_list hk))
  others _ _ := rfl

theorem confined_deletes {keys : List Bytes} (hkeys : ∀ k ∈ keys, P k) (t : Traced) :
    Confined P t (keys.foldl Traced.delete t) := by
  induction keys generalizing t with
  | nil => exact .refl t
  | cons k keys ih =>
      apply (confined_delete (hkeys k List.mem_cons_self) t).trans
      exact ih (fun k hk => hkeys k (List.mem_cons_of_mem _ hk)) _

end

section
variable (json : LogCodec) (id : Bytes)

/-- A key that begins as the keys of a family do. -/
theorem touched_of_prefix {kind key : Bytes} (hkind : kind ∈ families)
    (h : sessionKey kind id [] <+: key) : Touched id key := by
  obtain ⟨rest,rfl⟩ := h
  have hkey : sessionKey kind id []++rest = sessionKey kind id rest := by simp [sessionKey]
  rw [hkey]
  exact touched_family hkind id rest

theorem confined_setAckIn (msgID : Bytes) (ack : AckState) (keys : List Bytes) (t : Traced) :
    Confined (Touched id) t (setAckIn json t id msgID ack keys) := by
  induction keys with
  | nil => exact .refl t
  | cons k keys ih =>
      rw [setAckIn]
      cases ackLog msgID ack (loadLocked json t id (k.drop (historyKey id []).length)) with
      | none => exact ih
      | some log => exact confined_set (touched_family (by simp [families]) id _) t _

/-- Every operation keeps to the keys of its session. -/
theorem Operation.confined (t : Traced) (op : Operation) :
    Confined (Touched id) t (op.exec json id t) := by
  cases op with
  | saveCredentials raw => exact confined_set (touched_credentials id) t raw
  | sendText target state =>
      dsimp only [Operation.exec]
      split_ifs
      · exact .refl t
      · cases state with
        | none => exact .refl t
        | some raw => exact confined_set (touched_family (by simp [families]) id target) t raw
  | upsert m =>
      dsimp only [Operation.exec,SharedStorage.upsert]
      split_ifs
      · exact .refl t
      · exact confined_set (touched_family (by simp [families]) id m.chat) t _
  | setAck msgID ack =>
      dsimp only [Operation.exec,SharedStorage.setAck]
      split_ifs
      · exact .refl t
      · apply (confined_list (fun k => touched_of_prefix id _) t).trans
          (confined_setAckIn json id msgID ack _ _)
        simp [families]
  | saveCheckpoint stage raw =>
      exact confined_set (touched_family (by simp [families]) id stage) t raw
  | reset =>
      have hsync : ∀ k, runnerKey id [] <+: k → Touched id k :=
        fun k => touched_of_prefix id (by simp [families])
      apply (confined_list hsync t).trans
      exact confined_deletes (fun k hk => hsync k (mem_list hk)) _
  | saveSnapshot kind raw => exact confined_set (touched_snapshot id kind) t raw

end

/-! ### Two sessions -/

def slash : UInt8 := 47

/-- Where a word without a slash ends, seen from another slash. -/
theorem slash_split {w x a b : Bytes} (hw : slash ∉ w) (h : w++slash::x = a++slash::b) :
    (a = w ∧ b = x) ∨ ∃ c, a = w++slash::c ∧ x = c++slash::b := by
  rcases List.append_eq_append_iff.mp h with ⟨e,ha,hx⟩ | ⟨e,hw',hb⟩
  · cases e with
    | nil =>
        rw [List.append_nil] at ha
        exact .inl ⟨ha,(List.cons.inj hx).2.symm⟩
    | cons y e =>
        obtain ⟨rfl,hrest⟩ := List.cons.inj hx
        exact .inr ⟨e,ha,hrest⟩
  · cases e with
    | nil =>
        rw [List.append_nil] at hw'
        exact .inl ⟨hw'.symm,(List.cons.inj hb).2⟩
    | cons y e =>
        obtain ⟨rfl,_⟩ := List.cons.inj hb
        exact absurd (hw' ▸ by simp) hw

/-- The name of a family stands between slashes. -/
theorem families_shape {kind : Bytes} (h : kind ∈ families) :
    ∃ w, slash ∉ w ∧ kind = slash::(w++[slash]) := by
  simp only [families,List.mem_cons,List.not_mem_nil,or_false] at h
  obtain rfl | rfl | rfl := h
  · exact ⟨text "e2e",by decide,by decide⟩
  · exact ⟨text "history",by decide,by decide⟩
  · exact ⟨text "sync",by decide,by decide⟩

theorem Tail.slash {tail : Bytes} (h : Tail tail) : ∃ r, tail = SharedStorage.slash::r := by
  rcases h with rfl | ⟨kind,hkind,rest,rfl⟩ | ⟨kind,rfl⟩
  · exact ⟨text "credentials",by decide⟩
  · obtain ⟨w,_,rfl⟩ := families_shape hkind
    exact ⟨w++[SharedStorage.slash]++rest,rfl⟩
  · exact ⟨text "snapshot/"++kind.name,by cases kind <;> decide⟩

/-- The last part of a snapshot key is not a key by itself. -/
theorem snapshot_not_tail (kind : SnapshotKind) : ¬Tail (slash::kind.name) := by
  rintro (h | ⟨fam,hfam,rest,h⟩ | ⟨kind',h⟩)
  · cases kind <;> exact absurd h (by decide)
  · have hstart : fam <+: slash::kind.name := ⟨rest,h.symm⟩
    simp only [families,List.mem_cons,List.not_mem_nil,or_false] at hfam
    obtain rfl | rfl | rfl := hfam <;> cases kind <;> exact absurd hstart (by decide)
  · cases kind <;> cases kind' <;> exact absurd h (by decide)

/-- One identifier is a part of the other one, and a key of the first is one of the second: the
name of a family lies between. -/
theorem family_between {a tail : Bytes} (ha : a ≠ []) (htail : Tail tail)
    (h : Tail (a++tail)) : ∃ kind ∈ families, kind <+: a++[slash] := by
  obtain ⟨r,hr⟩ := htail.slash
  obtain ⟨q,hq⟩ := h.slash
  obtain ⟨y,a,rfl⟩ := List.exists_cons_of_ne_nil ha
  obtain ⟨rfl,_⟩ := List.cons.inj (List.cons_append.symm.trans hq)
  rw [hr] at htail h
  rcases h with h | ⟨kind,hkind,rest,h⟩ | ⟨kind,h⟩
  · have hsplit : text "/credentials" = slash::text "credentials" := by decide
    rw [hsplit,List.cons_append] at h
    have hmem : slash ∈ text "credentials" := (List.cons.inj h).2 ▸ by simp
    exact absurd hmem (by decide)
  · obtain ⟨w,hw,rfl⟩ := families_shape hkind
    refine ⟨_,hkind,?_⟩
    have hsplit : w++slash::rest = a++slash::r := by simpa using h.symm
    rcases slash_split hw hsplit with ⟨rfl,_⟩ | ⟨c,rfl,_⟩
    · exact List.prefix_rfl
    · exact ⟨c++[slash],by simp⟩
  · have hword : slash ∉ text "snapshot" := by decide
    have hsplit : text "/snapshot/"++kind.name =
        slash::(text "snapshot"++slash::kind.name) := by cases kind <;> decide
    rw [hsplit,List.cons_append] at h
    rcases slash_split hword (List.cons.inj h).2.symm with ⟨_,rfl⟩ | ⟨c,_,hname⟩
    · exact absurd htail (snapshot_not_tail kind)
    · have hmem : slash ∈ kind.name := hname ▸ by simp
      exact absurd hmem (by cases kind <;> decide)

theorem Apart.disjoint {id id' : Bytes} (happart : Apart id id') (hne : id ≠ id') {key : Bytes}
    (h : Touched id key) (h' : Touched id' key) : False := by
  obtain ⟨tail,htail,rfl⟩ := h
  obtain ⟨tail',htail',heq⟩ := h'
  have heq := List.append_cancel_left heq
  rcases List.append_eq_append_iff.mp heq with ⟨a,rfl,rfl⟩ | ⟨a,rfl,rfl⟩
  · have ha : a ≠ [] := by
      rintro rfl
      exact hne (List.append_nil id).symm
    obtain ⟨kind,hkind,hstart⟩ := family_between ha htail' htail
    apply (happart kind hkind).1
    rw [List.append_assoc]
    exact (List.prefix_append_right_inj id).mpr hstart
  · have ha : a ≠ [] := by
      rintro rfl
      exact hne (List.append_nil id')
    obtain ⟨kind,hkind,hstart⟩ := family_between ha htail htail'
    apply (happart kind hkind).2
    rw [List.append_assoc]
    exact (List.prefix_append_right_inj id').mpr hstart

/-- The credentials of a session inside a family of another one. -/
theorem credsKey_inside {id id' kind w : Bytes} (h : id++kind++w = id'++text "/") :
    credsKey id' = sessionKey kind id (w++text "credentials") := by
  have hsplit : text "/credentials" = text "/"++text "credentials" := by decide
  rw [credsKey,sessionKey,hsplit,← List.append_assoc id',← h,List.append_assoc (id++kind)]

/-- A session can write any key of a family. -/
theorem family_written (json : LogCodec) {kind : Bytes} (hkind : kind ∈ families) (id : Bytes)
    {rest : Bytes} (hrest : rest ≠ []) : ∃ op : Operation,
    .write (sessionKey kind id rest) ∈ (op.exec json id {}).accesses := by
  simp only [families,List.mem_cons,List.not_mem_nil,or_false] at hkind
  obtain rfl | rfl | rfl := hkind
  · exact ⟨.sendText rest (some []),by simp [Operation.exec,hrest,Traced.set,e2eKey]⟩
  · exact ⟨.upsert ⟨[],rest,[],[],[],false,.unset,0,none⟩,by
      simp [Operation.exec,SharedStorage.upsert,hrest,saveLocked,Traced.set,historyKey]⟩
  · exact ⟨.saveCheckpoint rest [],by simp [Operation.exec,Traced.set,runnerKey]⟩

theorem family_used {kind : Bytes} (hkind : kind ∈ families) (id : Bytes) {rest : Bytes}
    (hrest : rest ≠ []) : Uses id (sessionKey kind id rest) := by
  simp only [families,List.mem_cons,List.not_mem_nil,or_false] at hkind
  obtain rfl | rfl | rfl := hkind
  · exact .ratchet rest hrest
  · exact .history rest hrest
  · exact .checkpoint rest

/-- No operation of one session touches a key of the other one, exactly when neither identifier
continues the other by the name of a family. -/
theorem sessions_apart_iff (json : LogCodec) {id id' : Bytes} (hne : id ≠ id') :
    (∀ (store : Memory) (op : Operation), ∀ a ∈ (op.exec json id {store := store}).accesses,
      ¬Uses id' a.key) ↔ Apart id id' := by
  constructor
  · intro h kind hkind
    constructor
    · rintro ⟨w,hw⟩
      have hrest : w++text "credentials" ≠ [] := by simp [text_eq_nil]
      obtain ⟨op,hop⟩ := family_written json hkind id hrest
      rw [← credsKey_inside hw] at hop
      exact h {} op _ hop .credentials
    · rintro ⟨w,hw⟩
      have hrest : w++text "credentials" ≠ [] := by simp [text_eq_nil]
      have hused := family_used hkind id' hrest
      rw [← credsKey_inside hw] at hused
      exact h {} (.saveCredentials []) (.write (credsKey id)) (by simp [Operation.exec,Traced.set])
        hused
  · intro happart store op a ha hused
    cases (op.confined json id {store := store}).accesses a ha with
    | inl hold => cases hold
    | inr htouched => exact happart.disjoint hne htouched hused.touched

/-- A codec for the samples. -/
def emptyLogs : LogCodec := ⟨fun _ => [],fun _ => none⟩

theorem sessions_apart_sample : text "a" ≠ text "b" ∧ ∀ (store : Memory) (op : Operation),
    ∀ a ∈ (op.exec emptyLogs (text "a") {store := store}).accesses, ¬Uses (text "b") a.key := by
  have hne : text "a" ≠ text "b" := by decide
  refine ⟨hne,(sessions_apart_iff emptyLogs hne).mpr ?_⟩
  unfold Apart
  decide

/-- A text to the target `credentials` overwrites the credentials of another session. -/
theorem ratchet_overwrites_credentials :
    .write (credsKey (text "a/e2e")) ∈ (Operation.exec emptyLogs (text "a") {}
      (.sendText (text "credentials") (some [1]))).accesses ∧
    Uses (text "a/e2e") (credsKey (text "a/e2e")) := by
  refine ⟨?_,.credentials⟩
  decide

end BaturWhatsApi.SharedStorage
