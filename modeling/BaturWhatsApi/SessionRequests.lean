import BaturWhatsApi.NodeModel
import BaturWhatsApi.SessionSend

/-!
# Requests and their responses

`Request` and the answering branch of `dispatch` in `session/session.go`. A call
registers a channel under its id, sends, waits, and removes the id when it leaves. The
dispatcher looks the id up under the lock and puts the node into the channel after it
has let go of the lock, so the call may be gone by then.

Inbound nodes are numbered. A number is in one place at most: with the dispatcher, in
the channel of a call, or in the result of the call that took it out.
-/
namespace BaturWhatsApi.SessionRequests
open ByteStrings NodeModel Runs

inductive RequestError where
  | duplicate (id : Bytes)
  | send (e : SessionSend.SendError)
  | timeout
  | context
  | stopped
  | notOnline

inductive Phase where
  | idle
  /-- The id is taken, and the call has returned. -/
  | rejected
  | sending
  | waiting
  /-- The result is there and the id still registered. -/
  | leaving (result : Except RequestError (ℕ × Node))
  | returned (result : Except RequestError (ℕ × Node))

/-- A call with its channel, which holds one node. -/
structure Call where
  id : Bytes := []
  phase : Phase := .idle
  ch : Option (ℕ × Node) := none

/-- What a call has returned. -/
def Call.result (c : Call) : Option (Except RequestError (ℕ × Node)) :=
  match c.phase with
  | .rejected => some (.error (.duplicate c.id))
  | .returned result => some result
  | _ => none

structure Requests where
  requests : Bytes → Option ℕ := fun _ => none
  calls : ℕ → Call := fun _ => {}
  /-- The dispatcher has found the channel of a call. -/
  found : Option (ℕ × ℕ × Node) := none
  inbound : ℕ := 0
  stopped : Bool := false
  broken : Bool := false

inductive Event where
  | request (call : ℕ) (n : Node) (newRequestID : Bytes)
  | sent (call : ℕ) (err : Option SessionSend.SendError)
  | receive (call : ℕ)
  | timeout (call : ℕ)
  | cancel (call : ℕ)
  | seeStopped (call : ℕ)
  | seeBroken (call : ℕ)
  | remove (call : ℕ)
  | dispatch (n : Node)
  | put
  | stop
  | fail

def idKey : Bytes := text "id"
def typeKey : Bytes := text "type"

def requestID (n : Node) (newRequestID : Bytes) : Bytes :=
  if n.mustStringAttr idKey = [] then newRequestID else n.mustStringAttr idKey

/-- The node is an `iq` that answers a request. -/
def isResponse (n : Node) : Bool :=
  n.tag == text "iq" && n.mustStringAttr idKey != [] &&
    (n.mustStringAttr typeKey == text "result" || n.mustStringAttr typeKey == text "error")

def Requests.set (s : Requests) (i : ℕ) (c : Call) : Requests :=
  {s with calls := Function.update s.calls i c}

/-- A call that waits leaves with a result. -/
def Requests.leave (s : Requests) (i : ℕ) (result : Except RequestError (ℕ × Node)) : Requests :=
  match (s.calls i).phase with
  | .waiting => s.set i {s.calls i with phase := .leaving result}
  | _ => s

def Requests.step (s : Requests) : Event → Requests
  | .request i n newRequestID =>
      match (s.calls i).phase with
      | .idle =>
          let id := requestID n newRequestID
          match s.requests id with
          | some _ =>
              s.set i {s.calls i with id := id,phase := .rejected}
          | none =>
              {s.set i {s.calls i with id := id,phase := .sending} with
               requests := Function.update s.requests id (some i)}
      | _ => s
  | .sent i err =>
      match (s.calls i).phase,err with
      | .sending,none => s.set i {s.calls i with phase := .waiting}
      | .sending,some e => s.set i {s.calls i with phase := .leaving (.error (.send e))}
      | _,_ => s
  | .receive i =>
      match (s.calls i).phase,(s.calls i).ch with
      | .waiting,some response =>
          s.set i {s.calls i with phase := .leaving (.ok response),ch := none}
      | _,_ => s
  | .timeout i => s.leave i (.error .timeout)
  | .cancel i => s.leave i (.error .context)
  | .seeStopped i => if s.stopped then s.leave i (.error .stopped) else s
  | .seeBroken i => if s.broken then s.leave i (.error .notOnline) else s
  | .remove i =>
      match (s.calls i).phase with
      | .leaving result =>
          {s.set i {s.calls i with phase := .returned result} with
           requests := Function.update s.requests (s.calls i).id none}
      | _ => s
  | .dispatch n =>
      match s.found with
      | some _ => s
      | none =>
          {s with
           inbound := s.inbound+1
           found :=
            if isResponse n then
              (s.requests (n.mustStringAttr idKey)).map fun i => (i,s.inbound,n)
            else none}
  | .put =>
      match s.found with
      | none => s
      | some (i,k,n) =>
          match (s.calls i).ch with
          | none => {s.set i {s.calls i with ch := some (k,n)} with found := none}
          | some _ => {s with found := none}
  | .stop => {s with stopped := true}
  | .fail => {s with broken := true}

/-! ### Where the inbound nodes are -/

def Phase.inFlight : Phase → Bool
  | .sending => true
  | .waiting => true
  | .leaving _ => true
  | _ => false

def Phase.taken : Phase → List (ℕ × Node)
  | .leaving (.ok response) => [response]
  | .returned (.ok response) => [response]
  | _ => []

/-- The numbered nodes that a call has, in its channel or as its result. -/
def Call.has (c : Call) : List (ℕ × Node) := c.ch.toList++c.phase.taken

/-- The call was never registered. -/
def Phase.blank : Phase → Bool
  | .idle => true
  | .rejected => true
  | _ => false

def Answers (n : Node) (id : Bytes) : Prop := isResponse n = true ∧ n.mustStringAttr idKey = id

structure Requests.Inv (s : Requests) : Prop where
  owner : ∀ id i, s.requests id = some i ↔ (s.calls i).phase.inFlight = true ∧ (s.calls i).id = id
  blank : ∀ i, (s.calls i).phase.blank = true → (s.calls i).has = []
  answers : ∀ i x, x ∈ (s.calls i).has → Answers x.2 (s.calls i).id ∧ x.1 < s.inbound
  unique : ∀ i j x y, x ∈ (s.calls i).has → y ∈ (s.calls j).has → x.1 = y.1 → i = j
  found : ∀ i k n, s.found = some (i,k,n) → Answers n (s.calls i).id ∧ k < s.inbound ∧
    (s.calls i).phase.blank = false ∧ ∀ j y, y ∈ (s.calls j).has → y.1 ≠ k

theorem inv_empty : ({} : Requests).Inv where
  owner _ _ := ⟨fun h => (nomatch h),fun h => (nomatch h.1)⟩
  blank _ _ := rfl
  answers _ _ h := (nomatch h)
  unique _ _ _ _ h := (nomatch h)
  found _ _ _ h := (nomatch h)

section
variable {s : Requests}

theorem set_self (s : Requests) (i : ℕ) (c : Call) : (s.set i c).calls i = c := by
  simp only [Requests.set,Function.update_self]

theorem set_of_ne (s : Requests) {i j : ℕ} (c : Call) (h : j ≠ i) :
    (s.set i c).calls j = s.calls j := by
  simp only [Requests.set,Function.update_of_ne h]

/-- What holds of the new call and held of the others. -/
theorem forall_set {P : ℕ → Call → Prop} {i : ℕ} {c : Call} (hi : P i c)
    (h : ∀ j, j ≠ i → P j (s.calls j)) (j : ℕ) : P j ((s.set i c).calls j) :=
  (Function.forall_update_iff s.calls P).mpr ⟨hi,h⟩ j

theorem Phase.blank_of_inFlight {p : Phase} (h : p.inFlight = true) : p.blank = false := by
  cases p with
  | idle => cases h
  | rejected => cases h
  | _ => rfl

/-- A registered call goes on under its id and with no node it did not have. -/
theorem Requests.Inv.change (h : s.Inv) {i : ℕ} {c : Call} (requests : Bytes → Option ℕ)
    (hid : c.id = (s.calls i).id) (hhas : ∀ x ∈ c.has, x ∈ (s.calls i).has)
    (hblank : c.phase.blank = false)
    (howner : ∀ id j, requests id = some j ↔
      ((s.set i c).calls j).phase.inFlight = true ∧ ((s.set i c).calls j).id = id) :
    Requests.Inv {s.set i c with requests := requests} := by
  have hids : ∀ j, ((s.set i c).calls j).id = (s.calls j).id :=
    forall_set (P := fun j d => d.id = (s.calls j).id) hid fun _ _ => rfl
  have hmem : ∀ j x, x ∈ ((s.set i c).calls j).has → x ∈ (s.calls j).has :=
    forall_set (P := fun j d => ∀ x, x ∈ d.has → x ∈ (s.calls j).has) hhas fun _ _ _ hx => hx
  refine ⟨howner,?_,?_,?_,?_⟩
  · apply forall_set (P := fun _ d => d.phase.blank = true → d.has = [])
    · intro hc
      cases hblank.symm.trans hc
    · exact fun j _ => h.blank j
  · intro j x hx
    show Answers x.2 ((s.set i c).calls j).id ∧ _
    rw [hids]
    exact h.answers j x (hmem j x hx)
  · intro j k x y hx hy
    exact h.unique j k x y (hmem j x hx) (hmem k y hy)
  · intro j k n hfound
    obtain ⟨hanswers,hlt,hregistered,hfree⟩ := h.found j k n hfound
    show Answers n ((s.set i c).calls j).id ∧ _ ∧ ((s.set i c).calls j).phase.blank = false ∧ _
    rw [hids]
    refine ⟨hanswers,hlt,?_,fun l y hy => hfree l y (hmem l y hy)⟩
    by_cases hj : j = i
    · rw [hj,set_self]
      exact hblank
    · rw [set_of_ne s c hj]
      exact hregistered

/-- A call in flight stays in flight. -/
theorem Requests.Inv.proceed (h : s.Inv) {i : ℕ} {c : Call}
    (hflight : (s.calls i).phase.inFlight = true) (hflight' : c.phase.inFlight = true)
    (hid : c.id = (s.calls i).id) (hhas : ∀ x ∈ c.has, x ∈ (s.calls i).has) : (s.set i c).Inv := by
  refine h.change s.requests hid hhas (Phase.blank_of_inFlight hflight') fun id => ?_
  apply forall_set (P := fun j d => s.requests id = some j ↔ d.phase.inFlight = true ∧ d.id = id)
  · rw [h.owner,hflight,hflight',hid]
  · exact fun j _ => h.owner id j

/-- A call begins. -/
theorem Requests.Inv.enter (h : s.Inv) {i : ℕ} {c : Call} (requests : Bytes → Option ℕ)
    (hidle : (s.calls i).phase = .idle) (hhas : c.has = [])
    (howner : ∀ id j, requests id = some j ↔
      ((s.set i c).calls j).phase.inFlight = true ∧ ((s.set i c).calls j).id = id) :
    Requests.Inv {s.set i c with requests := requests} := by
  have hold : ∀ j x, x ∈ ((s.set i c).calls j).has → j ≠ i ∧ x ∈ (s.calls j).has := by
    apply forall_set (P := fun j d => ∀ x, x ∈ d.has → j ≠ i ∧ x ∈ (s.calls j).has)
    · rw [hhas]
      exact fun _ hx => (nomatch hx)
    · exact fun j hj x hx => ⟨hj,hx⟩
  refine ⟨howner,?_,?_,?_,?_⟩
  · exact forall_set (P := fun _ d => d.phase.blank = true → d.has = []) (fun _ => hhas)
      fun j _ => h.blank j
  · intro j x hx
    obtain ⟨hj,hx⟩ := hold j x hx
    show Answers x.2 ((s.set i c).calls j).id ∧ _
    rw [set_of_ne s c hj]
    exact h.answers j x hx
  · intro j k x y hx hy
    exact h.unique j k x y (hold j x hx).2 (hold k y hy).2
  · intro j k n hfound
    obtain ⟨hanswers,hlt,hregistered,hfree⟩ := h.found j k n hfound
    have hj : j ≠ i := by
      rintro rfl
      rw [hidle] at hregistered
      cases hregistered
    show Answers n ((s.set i c).calls j).id ∧ _ ∧ ((s.set i c).calls j).phase.blank = false ∧ _
    rw [set_of_ne s c hj]
    exact ⟨hanswers,hlt,hregistered,fun l y hy => hfree l y (hold l y hy).2⟩

theorem Requests.Inv.request (h : s.Inv) (i : ℕ) (n : Node) (newRequestID : Bytes) :
    (s.step (.request i n newRequestID)).Inv := by
  dsimp only [Requests.step]
  split
  · rename_i hidle
    have hhas : (s.calls i).ch.toList = [] := by
      have hnone := h.blank i (by rw [hidle]; rfl)
      exact (List.append_eq_nil_iff.mp hnone).1
    have hout : ∀ id, s.requests id ≠ some i := by
      intro id hid
      have hflight := ((h.owner id i).mp hid).1
      rw [hidle] at hflight
      cases hflight
    split
    · refine h.enter s.requests hidle ?_ fun id => ?_
      · rw [Call.has,hhas]
        rfl
      · apply forall_set (P := fun j d => s.requests id = some j ↔
          d.phase.inFlight = true ∧ d.id = id)
        · exact ⟨fun hid => absurd hid (hout id),fun hd => (nomatch hd.1)⟩
        · exact fun j _ => h.owner id j
    · rename_i hfree
      refine h.enter _ hidle ?_ fun id => ?_
      · rw [Call.has,hhas]
        rfl
      · apply forall_set (P := fun j d => Function.update s.requests
          (requestID n newRequestID) (some i) id = some j ↔ d.phase.inFlight = true ∧ d.id = id)
        · by_cases hid : id = requestID n newRequestID
          · subst hid
            rw [Function.update_self]
            exact ⟨fun _ => ⟨rfl,rfl⟩,fun _ => rfl⟩
          · rw [Function.update_of_ne hid]
            exact ⟨fun hx => absurd hx (hout id),fun hx => absurd hx.2.symm hid⟩
        · intro j hj
          rw [← h.owner]
          by_cases hid : id = requestID n newRequestID
          · subst hid
            rw [Function.update_self,hfree]
            exact ⟨fun hx => absurd (Option.some.inj hx).symm hj,fun hx => (nomatch hx)⟩
          · rw [Function.update_of_ne hid]
  · exact h

theorem Requests.Inv.leave (h : s.Inv) (i : ℕ) (e : RequestError) : (s.leave i (.error e)).Inv := by
  unfold Requests.leave
  split
  · rename_i hwait
    refine h.proceed (by rw [hwait]; rfl) rfl rfl fun x hx => ?_
    rw [Call.has,hwait]
    exact hx
  · exact h

theorem Requests.Inv.sent (h : s.Inv) (i : ℕ) (err : Option SessionSend.SendError) :
    (s.step (.sent i err)).Inv := by
  dsimp only [Requests.step]
  split
  · rename_i hsending
    refine h.proceed (by rw [hsending]; rfl) rfl rfl fun x hx => ?_
    rw [Call.has,hsending]
    exact hx
  · rename_i hsending
    refine h.proceed (by rw [hsending]; rfl) rfl rfl fun x hx => ?_
    rw [Call.has,hsending]
    exact hx
  · exact h

theorem Requests.Inv.receive (h : s.Inv) (i : ℕ) : (s.step (.receive i)).Inv := by
  dsimp only [Requests.step]
  split
  · rename_i response hwait hch
    refine h.proceed (by rw [hwait]; rfl) rfl rfl fun x hx => ?_
    rw [Call.has,hwait,hch]
    exact hx
  · exact h

theorem Requests.Inv.remove (h : s.Inv) (i : ℕ) : (s.step (.remove i)).Inv := by
  dsimp only [Requests.step]
  split
  · rename_i result hleaving
    have hown : s.requests (s.calls i).id = some i :=
      (h.owner _ i).mpr ⟨by rw [hleaving]; rfl,rfl⟩
    refine h.change _ rfl ?_ rfl fun id => ?_
    · intro x hx
      have htaken : (Phase.leaving result).taken = (Phase.returned result).taken := by
        cases result <;> rfl
      rw [Call.has,hleaving,htaken]
      exact hx
    · apply forall_set (P := fun j d => Function.update s.requests (s.calls i).id none id = some j ↔
        d.phase.inFlight = true ∧ d.id = id)
      · refine ⟨fun hx => ?_,fun hx => (nomatch hx.1)⟩
        by_cases hid : id = (s.calls i).id
        · rw [hid,Function.update_self] at hx
          cases hx
        · rw [Function.update_of_ne hid] at hx
          exact absurd ((h.owner id i).mp hx).2.symm hid
      · intro j hj
        rw [← h.owner]
        by_cases hid : id = (s.calls i).id
        · rw [hid,Function.update_self,hown]
          exact ⟨fun hx => (nomatch hx),fun hx => absurd (Option.some.inj hx).symm hj⟩
        · rw [Function.update_of_ne hid]
  · exact h

theorem Requests.Inv.dispatch (h : s.Inv) (n : Node) : (s.step (.dispatch n)).Inv := by
  dsimp only [Requests.step]
  split
  · exact h
  · refine ⟨h.owner,h.blank,fun i x hx => ?_,h.unique,fun i k m hfound => ?_⟩
    · obtain ⟨hanswers,hlt⟩ := h.answers i x hx
      exact ⟨hanswers,hlt.trans (Nat.lt_succ_self _)⟩
    · dsimp only at hfound
      split_ifs at hfound with hresponse
      obtain ⟨j,hj,heq⟩ := Option.map_eq_some_iff.mp hfound
      cases heq
      obtain ⟨hflight,hid⟩ := (h.owner _ i).mp hj
      refine ⟨⟨hresponse,hid.symm⟩,Nat.lt_succ_self _,Phase.blank_of_inFlight hflight,?_⟩
      intro l y hy
      exact ne_of_lt (h.answers l y hy).2

/-- A response in a channel is the only new node. -/
theorem deposit_has (s : Requests) (i : ℕ) (new : ℕ × Node) : ∀ j x,
    x ∈ ((s.set i {s.calls i with ch := some new}).calls j).has →
      (j = i ∧ x = new) ∨ x ∈ (s.calls j).has := by
  apply forall_set (P := fun j d => ∀ x, x ∈ d.has → (j = i ∧ x = new) ∨ x ∈ (s.calls j).has)
  · intro x hx
    rcases List.mem_cons.mp hx with hx | hx
    · exact .inl ⟨rfl,hx⟩
    · exact .inr (List.mem_append_right _ hx)
  · exact fun j _ x hx => .inr hx

theorem deposit_call (s : Requests) (i : ℕ) (new : ℕ × Node) : ∀ j,
    ((s.set i {s.calls i with ch := some new}).calls j).id = (s.calls j).id ∧
    ((s.set i {s.calls i with ch := some new}).calls j).phase = (s.calls j).phase := by
  apply forall_set (P := fun j d => d.id = (s.calls j).id ∧ d.phase = (s.calls j).phase)
  · exact ⟨rfl,rfl⟩
  · exact fun _ _ => ⟨rfl,rfl⟩

theorem Requests.Inv.put (h : s.Inv) : (s.step .put).Inv := by
  dsimp only [Requests.step]
  split
  · exact h
  · rename_i i k n hfound
    obtain ⟨hanswers,hlt,hregistered,hfree⟩ := h.found i k n hfound
    split
    · have hnew := deposit_has s i (k,n)
      have hcall := deposit_call s i (k,n)
      refine ⟨fun id j => ?_,?_,fun j x hx => ?_,fun j l x y hx hy hxy => ?_,
        fun _ _ _ hx => (nomatch hx)⟩
      · show s.requests id = some j ↔ ((s.set i _).calls j).phase.inFlight = true ∧
          ((s.set i _).calls j).id = id
        rw [(hcall j).1,(hcall j).2]
        exact h.owner id j
      · apply forall_set (P := fun _ d => d.phase.blank = true → d.has = [])
        · intro hblank
          cases hregistered.symm.trans hblank
        · exact fun j _ => h.blank j
      · show Answers x.2 ((s.set i _).calls j).id ∧ _
        rw [(hcall j).1]
        rcases hnew j x hx with ⟨rfl,rfl⟩ | hx
        · exact ⟨hanswers,hlt⟩
        · exact h.answers j x hx
      · rcases hnew j x hx with ⟨hj,hx'⟩ | hx'
        · rcases hnew l y hy with ⟨hl,_⟩ | hy'
          · exact hj.trans hl.symm
          · rw [hx'] at hxy
            exact absurd hxy.symm (hfree l y hy')
        · rcases hnew l y hy with ⟨_,hy'⟩ | hy'
          · rw [hy'] at hxy
            exact absurd hxy (hfree j x hx')
          · exact h.unique j l x y hx' hy' hxy
    · exact ⟨h.owner,h.blank,h.answers,h.unique,fun _ _ _ hx => (nomatch hx)⟩

theorem Requests.Inv.step (h : s.Inv) (ev : Event) : (s.step ev).Inv := by
  cases ev with
  | request i n newRequestID => exact h.request i n newRequestID
  | sent i err => exact h.sent i err
  | receive i => exact h.receive i
  | timeout i => exact h.leave i .timeout
  | cancel i => exact h.leave i .context
  | seeStopped i =>
      dsimp only [Requests.step]
      split
      · exact h.leave i .stopped
      · exact h
  | seeBroken i =>
      dsimp only [Requests.step]
      split
      · exact h.leave i .notOnline
      · exact h
  | remove i => exact h.remove i
  | dispatch n => exact h.dispatch n
  | put => exact h.put
  | stop => exact ⟨h.owner,h.blank,h.answers,h.unique,h.found⟩
  | fail => exact ⟨h.owner,h.blank,h.answers,h.unique,h.found⟩

/-! ### What a call can do to another -/

theorem leave_requests (s : Requests) (j : ℕ) (result : Except RequestError (ℕ × Node)) :
    (s.leave j result).requests = s.requests := by
  unfold Requests.leave
  split <;> rfl

/-- An id is given up by its owner only. -/
theorem Requests.Inv.keeps_owner (h : s.Inv) (ev : Event) {id : Bytes} {i : ℕ}
    (hi : s.requests id = some i) : (s.step ev).requests id = some i ∨ ev = .remove i := by
  cases ev with
  | request j n newRequestID =>
      left
      dsimp only [Requests.step]
      split
      · split
        · exact hi
        · rename_i hfree
          have hid : id ≠ requestID n newRequestID := by
            rintro rfl
            cases hfree.symm.trans hi
          show Function.update s.requests (requestID n newRequestID) (some j) id = some i
          rw [Function.update_of_ne hid,hi]
      · exact hi
  | remove j =>
      dsimp only [Requests.step]
      split
      · rename_i hleaving
        by_cases hid : id = (s.calls j).id
        · right
          have hown := (h.owner id j).mpr ⟨by rw [hleaving]; rfl,hid.symm⟩
          rw [Option.some.inj (hown.symm.trans hi)]
        · left
          show Function.update s.requests (s.calls j).id none id = some i
          rw [Function.update_of_ne hid,hi]
      · exact .inl hi
  | sent
  | receive
  | dispatch =>
      left
      dsimp only [Requests.step]
      split <;> exact hi
  | timeout
  | cancel =>
      left
      rw [Requests.step,leave_requests,hi]
  | seeStopped j
  | seeBroken j =>
      left
      dsimp only [Requests.step]
      split
      · rw [leave_requests,hi]
      · exact hi
  | put =>
      left
      dsimp only [Requests.step]
      split
      · exact hi
      · split <;> exact hi
  | stop
  | fail => exact .inl hi

theorem set_ch (s : Requests) (j : ℕ) (id : Bytes) (phase : Phase) (i : ℕ) :
    ((s.set j ⟨id,phase,(s.calls j).ch⟩).calls i).ch = (s.calls i).ch := by
  apply forall_set (P := fun i d => d.ch = (s.calls i).ch)
  · rfl
  · exact fun _ _ => rfl

theorem leave_ch (s : Requests) (j : ℕ) (result : Except RequestError (ℕ × Node)) (i : ℕ) :
    ((s.leave j result).calls i).ch = (s.calls i).ch := by
  unfold Requests.leave
  split
  · exact set_ch s j _ _ i
  · rfl

/-- A response is taken out by the call whose channel it is in. -/
theorem keeps_response (s : Requests) (ev : Event) {i : ℕ} {x : ℕ × Node}
    (hi : (s.calls i).ch = some x) : ((s.step ev).calls i).ch = some x ∨ ev = .receive i := by
  rw [← hi]
  cases ev with
  | request j n newRequestID =>
      left
      dsimp only [Requests.step]
      split
      · split
        · exact set_ch s j _ _ i
        · exact set_ch s j _ _ i
      · rfl
  | sent j err =>
      left
      dsimp only [Requests.step]
      split
      · exact set_ch s j _ _ i
      · exact set_ch s j _ _ i
      · rfl
  | receive j =>
      by_cases hj : i = j
      · exact .inr (by rw [hj])
      · left
        dsimp only [Requests.step]
        split
        · rw [set_of_ne s _ hj]
        · rfl
  | timeout j
  | cancel j => exact .inl (leave_ch s j _ i)
  | seeStopped j
  | seeBroken j =>
      left
      dsimp only [Requests.step]
      split
      · exact leave_ch s j _ i
      · rfl
  | remove j =>
      left
      dsimp only [Requests.step]
      split
      · exact set_ch s j _ _ i
      · rfl
  | dispatch n => left; dsimp only [Requests.step]; split <;> rfl
  | put =>
      left
      dsimp only [Requests.step]
      split
      · rfl
      · rename_i j k n _
        split
        · rename_i hch
          have hj : i ≠ j := by
            rintro rfl
            cases hch.symm.trans hi
          exact congrArg Call.ch (set_of_ne s _ hj)
        · rfl
  | stop => exact .inl rfl
  | fail => exact .inl rfl

end

/-- Calls and responses of a session fit together. -/
structure Correlated (s : Requests) : Prop where
  answered : ∀ i k n, (s.calls i).result = some (.ok (k,n)) →
    n.mustStringAttr idKey = (s.calls i).id ∧
    (n.mustStringAttr typeKey = text "result" ∨ n.mustStringAttr typeKey = text "error")
  once : ∀ i j k n m, (s.calls i).result = some (.ok (k,n)) →
    (s.calls j).result = some (.ok (k,m)) → i = j
  oneOwner : ∀ i j, (s.calls i).phase.inFlight = true → (s.calls j).phase.inFlight = true →
    (s.calls i).id = (s.calls j).id → i = j
  rejected : ∀ i, (s.calls i).phase = .rejected → (s.calls i).ch = none
  pending : ∀ id, (s.requests id).isSome = true ↔
    ∃ i, (s.calls i).phase.inFlight = true ∧ (s.calls i).id = id
  empty : (∀ i, (s.calls i).phase.inFlight = false) → ∀ id, s.requests id = none

theorem result_has {c : Call} {x : ℕ × Node} (h : c.result = some (.ok x)) : x ∈ c.has := by
  unfold Call.result at h
  split at h
  · cases h
  · rename_i hphase
    cases h
    rw [Call.has,hphase]
    exact List.mem_append_right _ (List.mem_singleton_self x)
  · cases h

theorem Requests.Inv.correlated {s : Requests} (h : s.Inv) : Correlated s where
  answered i k n hi := by
    obtain ⟨⟨hresponse,hid⟩,_⟩ := h.answers i (k,n) (result_has hi)
    refine ⟨hid,?_⟩
    simp only [isResponse,Bool.and_eq_true,Bool.or_eq_true,beq_iff_eq] at hresponse
    exact hresponse.2
  once i j k n m hi hj := h.unique i j (k,n) (k,m) (result_has hi) (result_has hj) rfl
  oneOwner i j hi hj hid := by
    have hri := (h.owner _ i).mpr ⟨hi,rfl⟩
    have hrj := (h.owner _ j).mpr ⟨hj,hid.symm⟩
    exact Option.some.inj (hri.symm.trans hrj)
  rejected i hi := by
    have hnone := h.blank i (by rw [hi]; rfl)
    simpa using (List.append_eq_nil_iff.mp hnone).1
  pending id := by
    rw [Option.isSome_iff_exists]
    exact exists_congr fun i => h.owner id i
  empty hnone id := by
    rcases Option.eq_none_or_eq_some (s.requests id) with hid | ⟨i,hid⟩
    · exact hid
    · cases (hnone i).symm.trans ((h.owner id i).mp hid).1

/-- Whatever the order of calls, responses, timeouts and cancellations, and whatever happens
next: an id stays with its owner and a response in its channel until that call itself takes it. -/
theorem requests_correlated (evs : List Event) :
    let s := run Requests.step evs {}
    Correlated s ∧ ∀ ev,
      (∀ id i, s.requests id = some i → (s.step ev).requests id = some i ∨ ev = .remove i) ∧
      ∀ i x, (s.calls i).ch = some x → ((s.step ev).calls i).ch = some x ∨ ev = .receive i := by
  intro s
  have hinv : s.Inv := run_invariant (fun _ ev h => h.step ev) evs inv_empty
  refine ⟨hinv.correlated,fun ev => ⟨fun id i => hinv.keeps_owner ev,fun i x => ?_⟩⟩
  exact keeps_response s ev

end BaturWhatsApi.SessionRequests
