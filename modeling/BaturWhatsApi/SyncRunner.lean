import BaturWhatsApi.ByteStrings
import BaturWhatsApi.CursorPages
import BaturWhatsApi.Runs
import BaturWhatsApi.Utf8Runes

/-!
# The resumable synchronisation

`Runner.Run` of `sync/sync.go` as a machine that makes one store or server operation
at a time. Every operation can fail, and the process can die between two of them. The
stored checkpoint of a stage is its record as its JSON text gives it back: a byte of
the stage name or of the cursor that is not UTF-8 comes back as U+FFFD.

A page is saved with the cursor of the next one. The last page carries the empty
cursor, which is also the one the stage began with, and that the stage is complete is
saved by a second write. If this write fails, the next run begins the stage again and
adds its items to the ones that were counted. A cursor that is not UTF-8 is another one
after the restart, and the next run goes on wherever that one leads.
-/
namespace BaturWhatsApi.SyncRunner
open ByteStrings CursorPages Runs Utf8Runes

variable {α : Type}

structure Checkpoint where
  stage : Bytes
  cursor : Bytes := []
  items : UInt64 := 0
  complete : Bool := false
deriving DecidableEq, Repr

/-- The checkpoint that is read back from the JSON text of this one. -/
def Checkpoint.coerced (cp : Checkpoint) : Checkpoint :=
  {cp with stage := coerce cp.stage,cursor := coerce cp.cursor}

inductive FetchError where
  | request
  | missingSync
deriving DecidableEq, Repr

inductive SyncError where
  | store
  | fetch (stage : Bytes) (e : FetchError)
deriving DecidableEq, Repr

structure Stage (α : Type) where
  name : Bytes
  fetch : Bytes → Except FetchError (Page Bytes α)

structure Runner (α : Type) where
  stages : List (Stage α)
  forceRestart : Bool := false

abbrev Store := Bytes → Option Checkpoint

/-- The next operation, with the current stage, the stages after it and the checkpoint. -/
inductive Pc (α : Type) where
  | idle
  | load (st : Stage α) (rest : List (Stage α))
  | fetch (st : Stage α) (rest : List (Stage α)) (cp : Checkpoint)
  | save (st : Stage α) (rest : List (Stage α)) (cp : Checkpoint)
  | complete (st : Stage α) (rest : List (Stage α)) (cp : Checkpoint)

/-- `fetched` are the pages of the current run. -/
structure State (α : Type) where
  store : Store := fun _ => none
  pc : Pc α := .idle
  fetched : List (Bytes × Page Bytes α) := []
  returned : Option (Except SyncError Unit) := none

inductive Event where
  | run
  | op (ok : Bool)
  | crash
deriving DecidableEq, Repr

def State.fail (s : State α) (e : SyncError) : State α :=
  {s with pc := .idle,returned := some (.error e)}

/-- The next round of the loop over the stages. -/
def State.advance (s : State α) : List (Stage α) → State α
  | [] => {s with pc := .idle,returned := some (.ok ())}
  | st::rest => {s with pc := .load st rest}

def State.saveCheckpoint (s : State α) (cp : Checkpoint) : State α :=
  {s with store := Function.update s.store cp.stage (some cp.coerced)}

def State.loadStage (r : Runner α) (s : State α) (st : Stage α) (rest : List (Stage α))
    (ok : Bool) : State α :=
  if r.forceRestart then {s with pc := .fetch st rest {stage := st.name}}
  else if !ok then s.fail .store
  else match s.store st.name with
    | none => {s with pc := .fetch st rest {stage := st.name}}
    | some cp => if cp.complete then s.advance rest else {s with pc := .fetch st rest cp}

def State.fetchPage (s : State α) (st : Stage α) (rest : List (Stage α)) (cp : Checkpoint)
    (ok : Bool) : State α :=
  if !ok then s.fail (.fetch st.name .request)
  else match st.fetch cp.cursor with
    | .error e => s.fail (.fetch st.name e)
    | .ok page =>
        {s with
         pc := .save st rest {cp with
           items := cp.items+UInt64.ofNat page.items.length
           cursor := page.cursor}
         fetched := s.fetched++[(st.name,page)]}

def State.savePage (s : State α) (st : Stage α) (rest : List (Stage α)) (cp : Checkpoint)
    (ok : Bool) : State α :=
  if !ok then s.fail .store
  else if cp.cursor = [] then
    {s.saveCheckpoint cp with pc := .complete st rest {cp with complete := true,cursor := []}}
  else {s.saveCheckpoint cp with pc := .fetch st rest cp}

def State.step (r : Runner α) (s : State α) : Event → State α
  | .run =>
      match s.pc with
      | .idle => State.advance {s with fetched := [],returned := none} r.stages
      | _ => s
  | .crash => {s with pc := .idle,returned := none}
  | .op ok =>
      match s.pc with
      | .idle => s
      | .load st rest => s.loadStage r st rest ok
      | .fetch st rest cp => s.fetchPage st rest cp ok
      | .save st rest cp => s.savePage st rest cp ok
      | .complete _ rest cp =>
          if !ok then s.fail .store else (s.saveCheckpoint cp).advance rest

/-- The write that completes a stage does not fail. -/
def State.Steady (s : State α) (ev : Event) : Prop :=
  match s.pc with
  | .complete _ _ _ => ev ≠ .op false ∧ ev ≠ .crash
  | _ => True

/-! ### Stages that serve a feed -/

structure Source (α : Type) where
  name : Bytes
  feed : Feed Bytes α []

def Source.stage (src : Source α) : Stage α := ⟨src.name,fun c => .ok (src.feed.fetch c)⟩

/-- The name and the cursors are texts. -/
def Source.Utf8 (src : Source α) : Prop :=
  utf8Valid src.name ∧ ∀ p ∈ src.feed.pages, utf8Valid p.cursor

instance (src : Source α) : Decidable src.Utf8 := by
  unfold Source.Utf8
  infer_instance

/-- The pages that a stored checkpoint makes the next run skip. -/
def Source.skip (src : Source α) : Option Checkpoint → ℕ
  | none => 0
  | some cp => if cp.complete then src.feed.pages.length else src.feed.position cp.cursor

/-- The items of a stage that a run has fetched. -/
def itemsOf (name : Bytes) (fetched : List (Bytes × Page Bytes α)) : List α :=
  (fetched.filter fun f => f.1 = name).flatMap fun f => f.2.items

theorem itemsOf_append_self (name : Bytes) (fetched : List (Bytes × Page Bytes α))
    (p : Page Bytes α) : itemsOf name (fetched++[(name,p)]) = itemsOf name fetched++p.items := by
  simp [itemsOf]

theorem itemsOf_append_of_ne {name name' : Bytes} (h : name' ≠ name)
    (fetched : List (Bytes × Page Bytes α)) (p : Page Bytes α) :
    itemsOf name (fetched++[(name',p)]) = itemsOf name fetched := by
  simp [itemsOf,h]

/-- A stored checkpoint: its position is one of the feed, and if `sure` holds its count is right. -/
structure Source.Kept (src : Source α) (sure : Prop) (cp : Checkpoint) : Prop where
  stage : cp.stage = src.name
  position : cp.complete = false → src.feed.position cp.cursor < src.feed.pages.length
  counted : sure → cp.complete = false →
    cp.items = UInt64.ofNat (src.feed.before (src.feed.position cp.cursor)).length
  total : sure → cp.complete = true → cp.items = UInt64.ofNat src.feed.items.length

theorem Source.Kept.weaken {src : Source α} {p q : Prop} {cp : Checkpoint} (h : src.Kept p cp)
    (hqp : q → p) : src.Kept q cp :=
  ⟨h.stage,h.position,fun hq => h.counted (hqp hq),fun hq => h.total (hqp hq)⟩

theorem Source.kept_fresh (src : Source α) (sure : Prop) : src.Kept sure {stage := src.name} where
  stage := rfl
  position _ := by
    rw [Feed.position_start]
    exact Feed.length_pos
  counted _ _ := by
    rw [Feed.position_start]
    rfl
  total _ h := by cases h

/-- The checkpoint after page `k`. -/
structure Source.Turned (src : Source α) (sure : Prop) (cp : Checkpoint) (k : ℕ) : Prop where
  stage : cp.stage = src.name
  complete : cp.complete = false
  page : ∃ p, src.feed.pages[k]? = some p ∧ cp.cursor = p.cursor
  counted : sure → cp.items = UInt64.ofNat (src.feed.before (k+1)).length

theorem Source.Turned.coerced {src : Source α} {sure : Prop} {cp : Checkpoint} {k : ℕ}
    (h : src.Turned sure cp k) (hutf : src.Utf8) : cp.coerced = cp := by
  obtain ⟨p,hp,hcp⟩ := h.page
  rw [Checkpoint.coerced,hcp,h.stage,coerce_of_utf8Valid hutf.1,
    coerce_of_utf8Valid (hutf.2 p (List.mem_of_getElem? hp)),← hcp,← h.stage]

/-- The cursor of a complete checkpoint plays no part. -/
theorem Source.Kept.coerced {src : Source α} {sure : Prop} {cp : Checkpoint} (h : src.Kept sure cp)
    (hcomplete : cp.complete = true) (hutf : src.Utf8) : src.Kept sure cp.coerced where
  stage := by rw [Checkpoint.coerced,h.stage,coerce_of_utf8Valid hutf.1]
  position hc := by cases hcomplete.symm.trans hc
  counted _ hc := by cases hcomplete.symm.trans hc
  total hsure _ := h.total hsure hcomplete

/-- A stage is served: the page at the checkpoint's position is counted. -/
theorem Source.Kept.turned {src : Source α} {sure : Prop} {cp : Checkpoint} (h : src.Kept sure cp)
    (hcomplete : cp.complete = false) :
    ∃ p, src.feed.pages[src.feed.position cp.cursor]? = some p ∧ src.feed.fetch cp.cursor = p ∧
      src.Turned sure {cp with items := cp.items+UInt64.ofNat p.items.length,cursor := p.cursor}
        (src.feed.position cp.cursor) := by
  have hp := List.getElem?_eq_getElem (h.position hcomplete)
  refine ⟨_,hp,Feed.fetch_eq hp,h.stage,hcomplete,⟨_,hp,rfl⟩,fun hsure => ?_⟩
  rw [Feed.before_succ hp,List.length_append,UInt64.ofNat_add,h.counted hsure hcomplete]

/-- Before the last page the saved checkpoint stands at the next one. -/
theorem Source.Turned.kept {src : Source α} {sure : Prop} {cp : Checkpoint} {k : ℕ}
    (h : src.Turned sure cp k) (hcursor : cp.cursor ≠ []) :
    src.Kept sure cp ∧ src.feed.position cp.cursor = k+1 := by
  obtain ⟨p,hp,hcp⟩ := h.page
  have hk := (List.getElem?_eq_some_iff.mp hp).1
  have hnext : k+1 < src.feed.pages.length := by
    have hne : k+1 ≠ src.feed.pages.length := by
      rw [hcp] at hcursor
      exact fun hk => hcursor ((Feed.cursor_eq_start_iff hp).mpr hk)
    omega
  have hpos : src.feed.position cp.cursor = k+1 := by rw [hcp,Feed.position_cursor hp hnext]
  refine ⟨⟨h.stage,fun _ => by rw [hpos]; exact hnext,fun hsure _ => ?_,fun _ hc => ?_⟩,hpos⟩
  · rw [hpos]
    exact h.counted hsure
  · cases h.complete.symm.trans hc

/-- After it the checkpoint stands at the beginning with the count of the end. -/
theorem Source.Turned.last {src : Source α} {sure : Prop} {cp : Checkpoint} {k : ℕ}
    (h : src.Turned sure cp k) (hcursor : cp.cursor = []) :
    k+1 = src.feed.pages.length ∧ src.Kept False cp ∧
      src.Kept sure {cp with complete := true,cursor := []} := by
  obtain ⟨p,hp,hcp⟩ := h.page
  have hk : k+1 = src.feed.pages.length := (Feed.cursor_eq_start_iff hp).mp (hcp ▸ hcursor)
  refine ⟨hk,⟨h.stage,fun _ => ?_,fun hf => hf.elim,fun hf => hf.elim⟩,h.stage,
    fun hc => (nomatch hc),fun _ hc => (nomatch hc),fun hsure _ => ?_⟩
  · rw [hcursor,Feed.position_start]
    exact Feed.length_pos
  · have hcount := h.counted hsure
    rwa [hk,Feed.before_length] at hcount

/-! ### The invariant of a run -/

section
variable (sources : List (Source α)) (st0 : Store) (sure : Prop)

def KeptAll (store : Store) : Prop :=
  ∀ src ∈ sources, ∀ cp, store src.name = some cp → src.Kept sure cp

/-- The items that a run from the store `st0` fetches of a stage. -/
def Source.owed (src : Source α) : List α :=
  src.feed.between (src.skip (st0 src.name)) src.feed.pages.length

/-- The run has reached the stage of `src`: the ones before are complete, the ones after it
untouched. -/
structure Standing (s : State α) (st : Stage α) (rest : List (Stage α)) (done : List (Source α))
    (src : Source α) (later : List (Source α)) : Prop where
  split : sources = done++src::later
  stage : st = src.stage
  rest : rest = later.map Source.stage
  done : ∀ d ∈ done, (∃ cp, s.store d.name = some cp ∧ cp.complete = true) ∧
    itemsOf d.name s.fetched = d.owed st0
  later : ∀ d ∈ later, s.store d.name = st0 d.name ∧ itemsOf d.name s.fetched = []

/-- What holds between two operations of a run that began with the store `st0`. -/
def Inv (s : State α) : Prop :=
  match s.pc with
  | .idle => KeptAll sources sure s.store ∧
      (s.returned = some (.ok ()) → ∀ d ∈ sources, itemsOf d.name s.fetched = d.owed st0)
  | .load st rest => KeptAll sources sure s.store ∧ ∃ done src later,
      Standing sources st0 s st rest done src later ∧ s.store src.name = st0 src.name ∧
      itemsOf src.name s.fetched = []
  | .fetch st rest cp => KeptAll sources sure s.store ∧ ∃ done src later,
      Standing sources st0 s st rest done src later ∧ src.Kept sure cp ∧ cp.complete = false ∧
      src.skip (st0 src.name) ≤ src.feed.position cp.cursor ∧ itemsOf src.name s.fetched =
        src.feed.between (src.skip (st0 src.name)) (src.feed.position cp.cursor)
  | .save st rest cp => KeptAll sources sure s.store ∧ ∃ done src later k,
      Standing sources st0 s st rest done src later ∧ src.Turned sure cp k ∧
      src.skip (st0 src.name) ≤ k ∧
      itemsOf src.name s.fetched = src.feed.between (src.skip (st0 src.name)) (k+1)
  | .complete st rest cp => ∃ done src later,
      Standing sources st0 s st rest done src later ∧
      (∀ d ∈ sources, ∀ c, s.store d.name = some c →
        d.Kept (sure ∧ (d.name = src.name → c.complete = true)) c) ∧
      src.Kept sure cp ∧ cp.complete = true ∧ itemsOf src.name s.fetched = src.owed st0

end

section
variable {sources : List (Source α)} {st0 : Store} {sure : Prop} {s : State α} {st : Stage α}
  {rest : List (Stage α)} {done later : List (Source α)} {src : Source α}

/-- The stages around the current one have other names. -/
theorem Standing.name_ne (h : Standing sources st0 s st rest done src later)
    (hnames : (sources.map Source.name).Nodup) : ∀ d ∈ done++later, d.name ≠ src.name := by
  rw [h.split,List.map_append,List.map_cons] at hnames
  have hsrc := (List.nodup_cons.mp (List.nodup_middle.mp hnames)).1
  intro d hd heq
  apply hsrc
  rw [← heq,← List.map_append]
  exact List.mem_map_of_mem hd

theorem Standing.mem (h : Standing sources st0 s st rest done src later) : src ∈ sources := by
  rw [h.split]
  exact List.mem_append_right _ List.mem_cons_self

/-- The other stages do not see what happens to the current one. -/
theorem Standing.transfer (h : Standing sources st0 s st rest done src later)
    (hnames : (sources.map Source.name).Nodup) {t : State α}
    (hstore : ∀ name, name ≠ src.name → t.store name = s.store name)
    (hitems : ∀ name, name ≠ src.name → itemsOf name t.fetched = itemsOf name s.fetched) :
    Standing sources st0 t st rest done src later := by
  have hne := h.name_ne hnames
  refine ⟨h.split,h.stage,h.rest,fun d hd => ?_,fun d hd => ?_⟩
  · have hname := hne d (List.mem_append_left _ hd)
    rw [hstore _ hname,hitems _ hname]
    exact h.done d hd
  · have hname := hne d (List.mem_append_right _ hd)
    rw [hstore _ hname,hitems _ hname]
    exact h.later d hd

theorem Standing.transfer' (h : Standing sources st0 s st rest done src later) {t : State α}
    (hstore : t.store = s.store) (hfetched : t.fetched = s.fetched) :
    Standing sources st0 t st rest done src later :=
  ⟨h.split,h.stage,h.rest,by rw [hstore,hfetched]; exact h.done,
    by rw [hstore,hfetched]; exact h.later⟩

theorem Standing.saveCheckpoint (h : Standing sources st0 s st rest done src later)
    (hnames : (sources.map Source.name).Nodup) {cp : Checkpoint} (hstage : cp.stage = src.name)
    (pc : Pc α) :
    Standing sources st0 {s.saveCheckpoint cp with pc := pc} st rest done src later := by
  refine h.transfer hnames (fun name hne => ?_) fun _ _ => rfl
  show Function.update s.store cp.stage (some cp.coerced) name = _
  rw [hstage,Function.update_of_ne hne]

/-- A checkpoint of the current stage is stored. -/
theorem keptAll_save {p : Prop} (hnames : (sources.map Source.name).Nodup) (hmem : src ∈ sources)
    {store : Store} (hother : ∀ d ∈ sources, d.name ≠ src.name → ∀ c, store d.name = some c →
      d.Kept p c) {name : Bytes} (hstage : name = src.name) (cp : Checkpoint) :
    ∀ d ∈ sources, ∀ c, Function.update store name (some cp) d.name = some c →
      (d.name ≠ src.name ∧ d.Kept p c) ∨ (d = src ∧ c = cp) := by
  intro d hd c hc
  rw [hstage] at hc
  by_cases hname : d.name = src.name
  · rw [hname,Function.update_self] at hc
    exact .inr ⟨List.inj_on_of_nodup_map hnames hd hmem hname,(Option.some.inj hc).symm⟩
  · rw [Function.update_of_ne hname] at hc
    exact .inl ⟨hname,hother d hd hname c hc⟩

/-- The current stage is complete, and the loop goes on. -/
theorem Standing.advance (h : Standing sources st0 s st rest done src later)
    (hkept : KeptAll sources sure s.store)
    (hcomplete : ∃ cp, s.store src.name = some cp ∧ cp.complete = true)
    (hitems : itemsOf src.name s.fetched = src.owed st0) :
    Inv sources st0 sure (s.advance rest) := by
  have hdone : ∀ d ∈ done++[src], (∃ cp, s.store d.name = some cp ∧ cp.complete = true) ∧
      itemsOf d.name s.fetched = d.owed st0 := by
    intro d hd
    rcases List.mem_append.mp hd with hd | hd
    · exact h.done d hd
    · rw [List.mem_singleton.mp hd]
      exact ⟨hcomplete,hitems⟩
  cases later with
  | nil =>
      rw [h.rest]
      refine ⟨hkept,fun _ d hd => (hdone d ?_).2⟩
      rwa [h.split] at hd
  | cons d ds =>
      rw [h.rest]
      obtain ⟨hd,hds⟩ := List.forall_mem_cons.mp h.later
      refine ⟨hkept,done++[src],d,ds,⟨?_,rfl,rfl,hdone,hds⟩,hd⟩
      rw [h.split,List.append_assoc]
      rfl

theorem inv_fail (hkept : KeptAll sources sure s.store) (e : SyncError) :
    Inv sources st0 sure (s.fail e) := ⟨hkept,fun h => by cases h⟩

theorem inv_loadStage (h : Standing sources st0 s st rest done src later)
    (hkept : KeptAll sources sure s.store) (hstore : s.store src.name = st0 src.name)
    (hitems : itemsOf src.name s.fetched = []) (ok : Bool) :
    Inv sources st0 sure (s.loadStage ⟨sources.map Source.stage,false⟩ st rest ok) := by
  unfold State.loadStage
  rw [if_neg Bool.false_ne_true]
  cases ok with
  | false => exact inv_fail hkept _
  | true =>
      have hname : st.name = src.name := by rw [h.stage]; rfl
      rw [if_neg (by decide),hname]
      have hskip : src.skip (s.store src.name) = src.skip (st0 src.name) := by rw [hstore]
      rcases Option.eq_none_or_eq_some (s.store src.name) with hcp | ⟨cp,hcp⟩
      · rw [hcp] at hskip ⊢
        refine ⟨hkept,done,src,later,h.transfer' rfl rfl,src.kept_fresh sure,rfl,?_,?_⟩
        · rw [← hskip]
          exact Nat.zero_le _
        · rw [← hskip,Feed.position_start]
          exact hitems
      · rw [hcp] at hskip ⊢
        have hcpkept := hkept src h.mem cp hcp
        dsimp only
        by_cases hcomplete : cp.complete = true
        · rw [if_pos hcomplete]
          refine h.advance hkept ⟨cp,hcp,hcomplete⟩ ?_
          rw [Source.owed,← hskip,Source.skip,if_pos hcomplete,Feed.between_self,hitems]
        · have hskip' : src.skip (st0 src.name) = src.feed.position cp.cursor := by
            rw [← hskip,Source.skip,if_neg hcomplete]
          rw [if_neg hcomplete]
          refine ⟨hkept,done,src,later,h.transfer' rfl rfl,hcpkept,
            Bool.eq_false_of_not_eq_true hcomplete,hskip'.le,?_⟩
          rw [hskip',Feed.between_self]
          exact hitems

theorem inv_fetchPage (h : Standing sources st0 s st rest done src later)
    (hnames : (sources.map Source.name).Nodup) (hkept : KeptAll sources sure s.store)
    {cp : Checkpoint} (hcp : src.Kept sure cp) (hcomplete : cp.complete = false)
    (hskip : src.skip (st0 src.name) ≤ src.feed.position cp.cursor)
    (hitems : itemsOf src.name s.fetched =
      src.feed.between (src.skip (st0 src.name)) (src.feed.position cp.cursor)) (ok : Bool) :
    Inv sources st0 sure (s.fetchPage st rest cp ok) := by
  unfold State.fetchPage
  cases ok with
  | false => exact inv_fail hkept _
  | true =>
      obtain ⟨p,hp,hfetch,hturned⟩ := hcp.turned hcomplete
      rw [if_neg (by decide)]
      have hserved : st.fetch cp.cursor = .ok p := by
        rw [h.stage,← hfetch]
        rfl
      have hname : st.name = src.name := by rw [h.stage]; rfl
      rw [hserved]
      refine ⟨hkept,done,src,later,_,?_,hturned,hskip,?_⟩
      · refine h.transfer hnames (fun _ _ => rfl) fun name hne => ?_
        rw [hname]
        exact itemsOf_append_of_ne (Ne.symm hne) _ _
      · show itemsOf src.name (s.fetched++[(st.name,p)]) = _
        rw [hname,itemsOf_append_self,hitems,Feed.between_succ hskip hp]

theorem inv_savePage (h : Standing sources st0 s st rest done src later)
    (hnames : (sources.map Source.name).Nodup) (hutf : ∀ d ∈ sources, d.Utf8)
    (hkept : KeptAll sources sure s.store)
    {cp : Checkpoint} {k : ℕ} (hturned : src.Turned sure cp k)
    (hskip : src.skip (st0 src.name) ≤ k)
    (hitems : itemsOf src.name s.fetched = src.feed.between (src.skip (st0 src.name)) (k+1))
    (ok : Bool) : Inv sources st0 sure (s.savePage st rest cp ok) := by
  unfold State.savePage
  cases ok with
  | false => exact inv_fail hkept _
  | true =>
      rw [if_neg (by decide)]
      have hstanding := h.saveCheckpoint hnames hturned.stage
      have hsaved : (s.saveCheckpoint cp).store = Function.update s.store cp.stage (some cp) := by
        rw [State.saveCheckpoint,hturned.coerced (hutf src h.mem)]
      have hcases := keptAll_save hnames h.mem (fun d hd _ => hkept d hd) hturned.stage cp
      rw [← hsaved] at hcases
      by_cases hcursor : cp.cursor = []
      · -- the last page is stored as if nothing had been fetched
        obtain ⟨hk,hbegin,hend⟩ := hturned.last hcursor
        rw [if_pos hcursor]
        refine ⟨done,src,later,hstanding _,fun d hd c hc => ?_,hend,rfl,?_⟩
        · rcases hcases d hd c hc with ⟨_,hd'⟩ | ⟨rfl,rfl⟩
          · exact hd'.weaken And.left
          · exact hbegin.weaken fun hfalse => (nomatch hturned.complete.symm.trans (hfalse.2 rfl))
        · rw [Source.owed,← hk]
          exact hitems
      · obtain ⟨hcp,hpos⟩ := hturned.kept hcursor
        rw [if_neg hcursor]
        refine ⟨fun d hd c hc => ?_,done,src,later,hstanding _,hcp,hturned.complete,?_,?_⟩
        · rcases hcases d hd c hc with ⟨_,hd'⟩ | ⟨rfl,rfl⟩
          · exact hd'
          · exact hcp
        · rw [hpos]
          exact hskip.trans (Nat.le_succ k)
        · rw [hpos]
          exact hitems

theorem inv_complete (h : Standing sources st0 s st rest done src later)
    (hnames : (sources.map Source.name).Nodup) (hutf : ∀ d ∈ sources, d.Utf8)
    (hkept : ∀ d ∈ sources, ∀ c, s.store d.name = some c →
      d.Kept (sure ∧ (d.name = src.name → c.complete = true)) c)
    {cp : Checkpoint} (hcp : src.Kept sure cp) (hcomplete : cp.complete = true)
    (hitems : itemsOf src.name s.fetched = src.owed st0) :
    Inv sources st0 sure ((s.saveCheckpoint cp).advance rest) := by
  have hstanding : Standing sources st0 (s.saveCheckpoint cp) st rest done src later :=
    h.saveCheckpoint hnames hcp.stage s.pc
  have hother : ∀ d ∈ sources, d.name ≠ src.name → ∀ c, s.store d.name = some c →
      d.Kept sure c :=
    fun d hd hne c hc => (hkept d hd c hc).weaken fun hsure => ⟨hsure,fun heq => absurd heq hne⟩
  refine hstanding.advance (fun d hd c hc => ?_) ⟨cp.coerced,?_,hcomplete⟩ hitems
  · rcases keptAll_save hnames h.mem hother hcp.stage cp.coerced d hd c hc with
      ⟨_,hd'⟩ | ⟨rfl,rfl⟩
    · exact hd'
    · exact hcp.coerced hcomplete (hutf d hd)
  · show Function.update s.store cp.stage (some cp.coerced) src.name = _
    rw [hcp.stage,Function.update_self]

theorem inv_op (hnames : (sources.map Source.name).Nodup) (hutf : ∀ d ∈ sources, d.Utf8)
    (h : Inv sources st0 sure s) (ok : Bool) (hsteady : sure → s.Steady (.op ok)) :
    Inv sources st0 sure (s.step ⟨sources.map Source.stage,false⟩ (.op ok)) := by
  unfold Inv at h
  unfold State.Steady at hsteady
  dsimp only [State.step]
  split at h
  · rename_i hpc
    unfold Inv
    rw [hpc]
    exact h
  · obtain ⟨hkept,done,src,later,hstanding,hstore,hitems⟩ := h
    exact inv_loadStage hstanding hkept hstore hitems ok
  · obtain ⟨hkept,done,src,later,hstanding,hcp,hcomplete,hskip,hitems⟩ := h
    exact inv_fetchPage hstanding hnames hkept hcp hcomplete hskip hitems ok
  · obtain ⟨hkept,done,src,later,k,hstanding,hturned,hskip,hitems⟩ := h
    exact inv_savePage hstanding hnames hutf hkept hturned hskip hitems ok
  · rename_i hpc
    rw [hpc] at hsteady
    obtain ⟨done,src,later,hstanding,hkept,hcp,hcomplete,hitems⟩ := h
    cases ok with
    | false =>
        refine inv_fail (fun d hd c hc => ?_) _
        exact (hkept d hd c hc).weaken fun hsure => absurd rfl (hsteady hsure).1
    | true => exact inv_complete hstanding hnames hutf hkept hcp hcomplete hitems

/-- The stored checkpoints are kept, but for the incomplete one of the current stage in the gap
before the completing write. -/
theorem Inv.stored (h : Inv sources st0 sure s) : KeptAll sources sure s.store ∨
    ∃ st rest cp name, s.pc = .complete st rest cp ∧ ∀ d ∈ sources, ∀ c,
      s.store d.name = some c → d.Kept (sure ∧ (d.name = name → c.complete = true)) c := by
  unfold Inv at h
  split at h
  · exact .inl h.1
  · exact .inl h.1
  · exact .inl h.1
  · exact .inl h.1
  · rename_i hpc
    obtain ⟨_,src,_,_,hkept,_⟩ := h
    exact .inr ⟨_,_,_,src.name,hpc,hkept⟩

theorem Inv.kept (h : Inv sources st0 sure s)
    (hgap : sure → ∀ st rest cp, s.pc ≠ .complete st rest cp) : KeptAll sources sure s.store := by
  rcases h.stored with hkept | ⟨st,rest,cp,_,hpc,hkept⟩
  · exact hkept
  · intro d hd c hc
    exact (hkept d hd c hc).weaken fun hsure => absurd hpc (hgap hsure st rest cp)

/-- A complete checkpoint has the right count, also in that gap. -/
theorem Inv.total (h : Inv sources st0 sure s) (hsure : sure) (hsrc : src ∈ sources)
    {cp : Checkpoint} (hcp : s.store src.name = some cp) (hcomplete : cp.complete = true) :
    cp.items = UInt64.ofNat src.feed.items.length := by
  rcases h.stored with hkept | ⟨_,_,_,_,_,hkept⟩
  · exact (hkept src hsrc cp hcp).total hsure hcomplete
  · exact (hkept src hsrc cp hcp).total ⟨hsure,fun _ => hcomplete⟩ hcomplete

/-- A run begins with the store as it is. -/
theorem inv_run (hkept : KeptAll sources sure s.store) (hidle : s.pc = .idle) :
    Inv sources s.store sure (s.step ⟨sources.map Source.stage,false⟩ .run) := by
  dsimp only [State.step]
  rw [hidle]
  cases sources with
  | nil => exact ⟨hkept,fun _ _ hd => (nomatch hd)⟩
  | cons src later =>
      refine ⟨hkept,[],src,later,⟨rfl,rfl,rfl,?_,fun _ _ => ⟨rfl,rfl⟩⟩,rfl,rfl⟩
      intro _ hd
      cases hd

theorem inv_step (hnames : (sources.map Source.name).Nodup) (hutf : ∀ d ∈ sources, d.Utf8)
    (h : ∃ st0, Inv sources st0 sure s) (ev : Event) (hsteady : sure → s.Steady ev) :
    ∃ st0, Inv sources st0 sure (s.step ⟨sources.map Source.stage,false⟩ ev) := by
  obtain ⟨st0,h⟩ := h
  cases ev with
  | op ok => exact ⟨st0,inv_op hnames hutf h ok hsteady⟩
  | crash =>
      refine ⟨st0,h.kept fun hsure st rest cp hpc => ?_,fun hret => (nomatch hret)⟩
      have hsteady' := hsteady hsure
      unfold State.Steady at hsteady'
      rw [hpc] at hsteady'
      exact hsteady'.2 rfl
  | run =>
      by_cases hidle : s.pc = .idle
      · refine ⟨s.store,inv_run (h.kept fun _ st rest cp hpc => ?_) hidle⟩
        rw [hidle] at hpc
        cases hpc
      · refine ⟨st0,?_⟩
        have hstay : s.step ⟨sources.map Source.stage,false⟩ .run = s := by
          dsimp only [State.step]
          split
          · rename_i hpc
            exact absurd hpc hidle
          · rfl
        rw [hstay]
        exact h

theorem inv_empty (sources : List (Source α)) (sure : Prop) :
    ∃ st0, Inv sources st0 sure ({} : State α) :=
  ⟨fun _ => none,fun _ _ _ hc => (nomatch hc),fun hret => (nomatch hret)⟩

end

/-- A stage is begun when the stages before it are complete. Its complete checkpoint counts
every item once, if no completing write has failed. -/
theorem sync_counts_once (sources : List (Source α)) (hnames : (sources.map Source.name).Nodup)
    (hutf : ∀ src ∈ sources, src.Utf8) (evs : List Event) :
    let r : Runner α := ⟨sources.map Source.stage,false⟩
    let s := run (State.step r) evs {}
    (∀ st rest cp, s.pc = .fetch st rest cp → ∃ done src later, sources = done++src::later ∧
      st = src.stage ∧ ∀ d ∈ done, ∃ c, s.store d.name = some c ∧ c.complete = true) ∧
    (Along (State.step r) State.Steady evs {} → ∀ src ∈ sources, ∀ cp,
      s.store src.name = some cp → cp.complete = true → src.feed.items.length < 2^64 →
      cp.items.toNat = src.feed.items.length) := by
  intro r s
  refine ⟨fun st rest cp hpc => ?_,fun hsteady src hsrc cp hcp hcomplete hbound => ?_⟩
  · have hinv := run_invariant (I := fun s => ∃ st0, Inv sources st0 False s)
      (fun _ ev h => inv_step hnames hutf h ev fun hf => hf.elim) evs (inv_empty sources False)
    obtain ⟨st0,hinv⟩ : ∃ st0, Inv sources st0 False s := hinv
    unfold Inv at hinv
    rw [hpc] at hinv
    obtain ⟨_,done,src,later,hstanding,_⟩ := hinv
    exact ⟨done,src,later,hstanding.split,hstanding.stage,fun d hd => (hstanding.done d hd).1⟩
  · have hinv := hsteady.invariant (I := fun s => ∃ st0, Inv sources st0 True s)
      (fun _ ev h hP => inv_step hnames hutf h ev fun _ => hP) (inv_empty sources True)
    obtain ⟨st0,hinv⟩ : ∃ st0, Inv sources st0 True s := hinv
    rw [hinv.total trivial hsrc hcp hcomplete,UInt64.toNat_ofNat_of_lt' hbound]

instance (s : State α) (ev : Event) : Decidable (s.Steady ev) := by
  unfold State.Steady
  split <;> infer_instance

/-! Two stages of two pages. A write and a request fail, and the third run ends. -/

def twoPages (name : String) (items : List ℕ) : Source ℕ :=
  ⟨text name,⟨[⟨items,text "next"⟩,⟨[0],[]⟩],
    show [text "next",[]].Nodup by decide +kernel,rfl⟩⟩

def twoSources : List (Source ℕ) := [twoPages "contacts" [7,8],twoPages "chats" [9]]

def resumedRuns : List Event :=
  [.run,.op true,.op true,.op false,
   .run,.op true,.op true,.op true,.op false,
   .run,.op true,.op true,.op true,.op true,.op true,.op true,.op true,.op true,.op true,.op true]

theorem sync_counts_once_resumed :
    let s := run (State.step ⟨twoSources.map Source.stage,false⟩) resumedRuns {}
    s.returned = some (.ok ()) ∧
    ∃ cp, s.store (text "contacts") = some cp ∧ cp.complete = true ∧ cp.items.toNat = 3 := by
  intro s
  have hcp : s.store (text "contacts") = some ⟨text "contacts",[],3,true⟩ := by decide +kernel
  refine ⟨by decide +kernel,_,hcp,rfl,?_⟩
  exact (sync_counts_once twoSources (by decide +kernel) (by decide +kernel) resumedRuns).2
    (by decide +kernel) (twoPages "contacts" [7,8]) List.mem_cons_self _ hcp rfl (by decide +kernel)

/-! One stage of one page, and one of three pages whose first cursor is stored as its second. -/

def onePage : Source ℕ :=
  ⟨text "contacts",⟨[⟨[7],[]⟩],by decide,rfl⟩⟩

def merging : Source ℕ :=
  ⟨text "contacts",⟨[⟨[7],[0xFF]⟩,⟨[8],[0xEF,0xBF,0xBD]⟩,⟨[9],[]⟩],by decide,rfl⟩⟩

def onlyStage (src : Source ℕ) : Runner ℕ := ⟨[src].map Source.stage,false⟩

/-- The completing write fails once, and the next run counts the page again. In the other stage
the request for the second page fails, and the next run goes on with the third one. -/
theorem sync_counts_twice :
    (run (State.step (onlyStage onePage)) [.run,.op true,.op true,.op true,.op false,
      .run,.op true,.op true,.op true,.op true] {}).store (text "contacts") =
      some ⟨text "contacts",[],2,true⟩ ∧ onePage.feed.items.length = 1 ∧
    (run (State.step (onlyStage merging)) [.run,.op true,.op true,.op true,.op false,
      .run,.op true,.op true,.op true,.op true] {}).store (text "contacts") =
      some ⟨text "contacts",[],2,true⟩ ∧ merging.feed.items.length = 3 := by
  decide +kernel

end BaturWhatsApi.SyncRunner
