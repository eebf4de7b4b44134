import BaturWhatsApi.ByteStrings
import BaturWhatsApi.ListCells
import BaturWhatsApi.Runs
import BaturWhatsApi.SessionLifecycle

/-!
# The supervised sessions and their health

`Add`, `Start`, `Remove`, `manageLoop`, `attempt` and `Health` of `supervisor/supervisor.go`.
A registration of an id has its own loop, while the number of retries and the phase are kept
by id. The loop sets the phase and leaves it set when its context ends during the wait, and
nothing resets the retries, so a later registration of the id finds what an earlier one left.

A loop and a call of `Remove` go one atomic operation at a time, as in the model of the
sessions, which take any events of their own in between. How long a loop waits is left to the
schedule.
-/
namespace BaturWhatsApi.FleetHealth
open ByteStrings ListCells Runs StateMachine
open SessionLifecycle (Session Err)

/-- The next operation of a loop. `k` is a session and `j` a call of its methods. -/
inductive Pc where
  | checking
  | creating
  | publishing (k : ℕ)
  | calling (k : ℕ)
  | starting (k j : ℕ)
  | noting (k : ℕ)
  | watching (k : ℕ)
  | stopping (k j : ℕ)
  | ended
  | retrying
  | waiting
  | clearing
  | returned
deriving DecidableEq, Repr

/-- The backoff window lasts until the loop has the lock again to clear the phase. -/
def Pc.inBackoff : Pc → Bool
  | .waiting | .clearing => true
  | _ => false

/-- The next operation of a call of `Remove`. -/
inductive Removing where
  | cancelling (i : ℕ)
  | reading (i : ℕ)
  | stopping (k j : ℕ)
  | returned
deriving DecidableEq, Repr

/-- A registration; it is in the map while `registered` holds. `retried` counts its own retries. -/
structure Managed where
  id : Bytes
  sess : Option ℕ := none
  registered : Bool := true
  cancelled : Bool := false
  loop : Option Pc := none
  retried : ℕ := 0
deriving DecidableEq, Repr

def Managed.inBackoff (m : Managed) : Bool := m.loop.any Pc.inBackoff

/-- No loop of the registration is running. -/
def Managed.ended (m : Managed) : Bool := m.loop.all fun pc => pc = .returned

structure Supervisor where
  managed : List Managed := []
  sessions : List Session := []
  removals : List Removing := []
  running : Bool := false
  runCancelled : Bool := false
  retries : Bytes → ℕ := fun _ => 0
  lastOnline : Bytes → Option ℤ := fun _ => none
  phase : Bytes → Bool := fun _ => false

inductive Failure where
  | idRequired
  | alreadyRegistered (id : Bytes)
  | unknown (id : Bytes)
  | alreadyRunning
  | noSessions
deriving DecidableEq, Repr

def Supervisor.find (s : Supervisor) (id : Bytes) : Option ℕ :=
  s.managed.findIdx? fun m => m.registered && m.id == id

def Supervisor.add (s : Supervisor) (id : Bytes) : Except Failure Supervisor :=
  if id = [] then .error .idRequired
  else if (s.find id).isSome then .error (.alreadyRegistered id)
  else
    let m : Managed := {id := id,loop := if s.running then some .checking else none}
    .ok {s with managed := s.managed++[m]}

def Managed.spawn (m : Managed) : Managed :=
  if m.registered then {m with loop := some .checking} else m

def Supervisor.start (s : Supervisor) : Except Failure Supervisor :=
  if s.running then .error .alreadyRunning
  else if s.managed.all fun m => !m.registered then .error .noSessions
  else .ok {s with running := true,managed := s.managed.map Managed.spawn}

/-- The registration leaves the map; the rest of the call follows without the lock. -/
def Supervisor.remove (s : Supervisor) (id : Bytes) : Except Failure Supervisor :=
  match s.find id with
  | none => .error (.unknown id)
  | some i =>
      .ok {s with
        managed := s.managed.modify i fun m => {m with registered := false}
        removals := s.removals++[.cancelling i]}

/-! ### The loops -/

inductive Op where
  | skip
  | create
  | publish (k : ℕ)
  | start (k : ℕ)
  | stop (k : ℕ)
  | online
  | retry
  | clear
deriving DecidableEq, Repr

inductive Choice where
  | proceed
  | fails
  | ctx
  | dropped
  | stuck
deriving DecidableEq, Repr

/-- The number of the next call of a method of the session. -/
def Supervisor.nextCall (s : Supervisor) (k : ℕ) : ℕ :=
  (s.sessions[k]?.map fun sess => sess.threads.length).getD 0

/-- What a call of a method of the session has returned. -/
def Supervisor.result (s : Supervisor) (k j : ℕ) : Option (Option Err) :=
  match (s.sessions[k]?.bind (·.threads[j]?)).map SessionLifecycle.Thread.pc with
  | some (.returned _ err) => some err
  | _ => none

def Supervisor.broken (s : Supervisor) (k : ℕ) : Bool :=
  s.sessions[k]?.any fun sess => 0 < sess.shared.broken

/-- The states in which `stuckSince` counts. -/
def Supervisor.transient (s : Supervisor) (k : ℕ) : Bool :=
  s.sessions[k]?.any fun sess =>
    [State.starting,.connecting,.authenticating,.syncing].contains sess.shared.mach.state

/-- The operation of a loop and where it goes; `none` if the choice is not ready. -/
def next (s : Supervisor) (dead : Bool) : Pc → Choice → Option (Op × Pc)
  | .checking,_ => if dead then some (.skip,.returned) else some (.skip,.creating)
  | .creating,.proceed => some (.create,.publishing s.sessions.length)
  | .creating,.fails => some (.skip,.ended)
  | .publishing k,_ => some (.publish k,.calling k)
  | .calling k,_ => some (.start k,.starting k (s.nextCall k))
  | .starting k j,_ =>
      match s.result k j with
      | some none => some (.skip,.noting k)
      | some (some _) => some (.skip,.ended)
      | none => none
  | .noting k,_ => some (.online,.watching k)
  | .watching k,.ctx => if dead then some (.stop k,.stopping k (s.nextCall k)) else none
  | .watching k,.dropped => if s.broken k then some (.online,.ended) else none
  | .watching k,.stuck =>
      if s.transient k then some (.stop k,.stopping k (s.nextCall k)) else none
  | .stopping k j,_ => if (s.result k j).isSome then some (.skip,.ended) else none
  | .ended,_ => if dead then some (.skip,.returned) else some (.skip,.retrying)
  | .retrying,_ => some (.retry,.waiting)
  | .waiting,.proceed => some (.skip,.clearing)
  | .waiting,.ctx => if dead then some (.skip,.returned) else none
  | .clearing,_ => some (.clear,.checking)
  | _,_ => none

def Op.onManaged : Op → Managed → Managed
  | .publish k,m => {m with sess := some k}
  | .retry,m => {m with retried := m.retried+1}
  | _,m => m

def Supervisor.apply (s : Supervisor) (id : Bytes) (now : ℤ) : Op → Supervisor
  | .create => {s with sessions := s.sessions++[{}]}
  | .start k => {s with sessions := s.sessions.modify k (·.step .start)}
  | .stop k => {s with sessions := s.sessions.modify k (·.step .stop)}
  | .online => {s with lastOnline := Function.update s.lastOnline id (some now)}
  | .retry =>
      {s with
        retries := Function.update s.retries id (s.retries id+1)
        phase := Function.update s.phase id true}
  | .clear => {s with phase := Function.update s.phase id false}
  | _ => s

def Supervisor.dead (s : Supervisor) (m : Managed) : Bool := s.runCancelled || m.cancelled

def Supervisor.advance (s : Supervisor) (i : ℕ) (m : Managed) (now : ℤ) (op : Op) (pc : Pc) :
    Supervisor :=
  {s.apply m.id now op with managed := s.managed.set i {op.onManaged m with loop := some pc}}

def Supervisor.goLoop (s : Supervisor) (i : ℕ) (choice : Choice) (now : ℤ) : Supervisor :=
  match s.managed[i]? with
  | none => s
  | some m =>
      match m.loop.bind fun pc => next s (s.dead m) pc choice with
      | none => s
      | some (op,pc) => s.advance i m now op pc

/-- The cancel function is there once a loop has been started. -/
def Managed.cancel (m : Managed) : Managed := {m with cancelled := m.loop.isSome}

def Supervisor.goRemoval (s : Supervisor) (r : ℕ) : Supervisor :=
  match s.removals[r]? with
  | some (.cancelling i) =>
      {s with
        managed := s.managed.modify i Managed.cancel
        removals := s.removals.set r (.reading i)}
  | some (.reading i) =>
      match s.managed[i]?.bind Managed.sess with
      | some k =>
          {s with
            sessions := s.sessions.modify k (·.step .stop)
            removals := s.removals.set r (.stopping k (s.nextCall k))}
      | none => {s with removals := s.removals.set r .returned}
  | some (.stopping k j) =>
      if (s.result k j).isSome then {s with removals := s.removals.set r .returned} else s
  | _ => s

/-- `cancelRun` ends the context of `Start`, as `Stop` does too. -/
inductive Event where
  | add (id : Bytes)
  | start
  | remove (id : Bytes)
  | cancelRun
  | goLoop (i : ℕ) (choice : Choice) (now : ℤ)
  | goRemoval (r : ℕ)
  | session (k : ℕ) (ev : SessionLifecycle.Event)
deriving DecidableEq, Repr

def Supervisor.step (s : Supervisor) : Event → Supervisor
  | .add id => (s.add id).toOption.getD s
  | .start => s.start.toOption.getD s
  | .remove id => (s.remove id).toOption.getD s
  | .cancelRun => {s with runCancelled := s.running}
  | .goLoop i choice now => s.goLoop i choice now
  | .goRemoval r => s.goRemoval r
  | .session k ev => {s with sessions := s.sessions.modify k (·.step ev)}

/-! ### Health -/

structure Status where
  id : Bytes
  state : State
  retries : ℕ := 0
  lastOnline : Option ℤ := none
deriving DecidableEq, Repr

def Supervisor.status (s : Supervisor) (m : Managed) : Status :=
  let state? : Option State := if s.phase m.id then some .reconnecting else none
  match m.sess.bind (s.sessions[·]?) with
  | some sess =>
      {id := m.id
       state := state?.getD sess.shared.mach.state
       retries := s.retries m.id
       lastOnline := s.lastOnline m.id}
  | none => {id := m.id,state := state?.getD .stopped}

def Supervisor.current (s : Supervisor) (id : Bytes) : Option Managed :=
  (s.find id).bind (s.managed[·]?)

def Supervisor.health (s : Supervisor) (id : Bytes) : Option Status := (s.current id).map s.status

/-- The loops of the registrations that were removed have ended. -/
def Supervisor.Settled (s : Supervisor) : Prop :=
  ∀ m ∈ s.managed, m.registered = false → m.ended = true

instance (s : Supervisor) : Decidable s.Settled :=
  inferInstanceAs (Decidable (∀ m ∈ s.managed, _ → _))

/-- What the status says is about the registration. -/
structure Status.Truthful (s : Supervisor) (m : Managed) (st : Status) : Prop where
  state : st.state = .reconnecting ↔ m.inBackoff = true
  retries : st.retries = if (m.sess.bind (s.sessions[·]?)).isSome then m.retried else 0

def Truthful (s : Supervisor) : Prop :=
  s.Settled → ∀ id m st, s.current id = some m → s.health id = some st → st.Truthful s m

def Event.added? : Event → Option Bytes
  | .add id => some id
  | _ => none

def Event.ending? : Event → Option ℕ
  | .goLoop i .ctx _ => some i
  | _ => none

/-- An id is registered again only when its earlier registrations have not retried and their loops
have ended. -/
def AddedFresh (s : Supervisor) (ev : Event) : Prop :=
  ∀ id ∈ ev.added?, s.find id = none →
    s.retries id = 0 ∧ ∀ m ∈ s.managed, m.id = id → m.ended = true

/-- The context of a registered session does not end the wait of its loop. -/
def WaitedOut (s : Supervisor) (ev : Event) : Prop :=
  ∀ i ∈ ev.ending?, ∀ m ∈ s.managed[i]?, m.loop = some .waiting → s.dead m = true →
    m.registered = false

instance (s : Supervisor) (ev : Event) : Decidable (AddedFresh s ev) :=
  inferInstanceAs (Decidable (∀ id ∈ ev.added?, _ → _))

instance (s : Supervisor) (ev : Event) : Decidable (WaitedOut s ev) :=
  inferInstanceAs (Decidable (∀ i ∈ ev.ending?, ∀ m ∈ s.managed[i]?, _ → _))

/-! ### Sessions are never RECONNECTING -/

theorem next_reconnecting {sh : SessionLifecycle.Shared} {dead : Bool}
    {pc pc' : SessionLifecycle.Pc} {choice : SessionLifecycle.Choice} {op : SessionLifecycle.Op}
    {started : List SessionLifecycle.Pc}
    (h : SessionLifecycle.next sh dead pc choice = some (op,pc',started)) :
    op ≠ .move .reconnecting ∧ op ≠ .force .reconnecting := by
  revert h
  fun_cases SessionLifecycle.next sh dead pc choice <;> intro h <;> cases h
  all_goals simp

def Own (sess : Session) : Prop := sess.shared.mach.state ≠ .reconnecting

theorem own_apply {sh : SessionLifecycle.Shared} (h : sh.mach.state ≠ .reconnecting)
    {op : SessionLifecycle.Op} (hmove : op ≠ .move .reconnecting)
    (hforce : op ≠ .force .reconnecting) : (sh.apply op).mach.state ≠ .reconnecting := by
  cases op with
  | move target =>
      change (sh.mach.tryMove target).state ≠ _
      rw [state_tryMove]
      split_ifs
      · exact fun htarget => hmove (congrArg _ htarget)
      · exact h
  | force target =>
      change (sh.mach.apply target).state ≠ _
      rw [state_apply]
      exact fun htarget => hforce (congrArg _ htarget)
  | record err =>
      rw [SessionLifecycle.apply_record]
      exact h
  | _ => exact h

theorem own_step {sess : Session} (h : Own sess) (ev : SessionLifecycle.Event) :
    Own (sess.step ev) := by
  have hout := SessionLifecycle.step_outcome sess ev
  generalize sess.step ev = sess' at hout ⊢
  cases hout with
  | stays _ _ | starts | stops | cancels _ => exact h
  | goes i choice t op pc started ht hn =>
      exact own_apply h (next_reconnecting hn).1 (next_reconnecting hn).2

/-- The sessions of the fleet. -/
def Owned (s : Supervisor) : Prop := ∀ sess ∈ s.sessions, Own sess

theorem owned_modify {l : List Session} (h : ∀ sess ∈ l, Own sess) (k : ℕ)
    (ev : SessionLifecycle.Event) : ∀ sess ∈ l.modify k (·.step ev), Own sess := by
  intro sess hsess
  obtain ⟨j,hj⟩ := List.mem_iff_getElem?.mp hsess
  obtain ⟨old,hold,⟨-,rfl⟩ | ⟨-,rfl⟩⟩ := getElem?_modify_cases hj
  · exact own_step (h old (List.mem_of_getElem? hold)) ev
  · exact h sess (List.mem_of_getElem? hold)

theorem Owned.apply {s : Supervisor} (h : Owned s) (id : Bytes) (now : ℤ) (op : Op) :
    Owned (s.apply id now op) := by
  cases op with
  | create =>
      intro sess hsess
      rcases List.mem_append.mp hsess with hsess | hsess
      · exact h sess hsess
      · rw [List.mem_singleton.mp hsess]
        exact State.noConfusion
  | start k => exact owned_modify h k .start
  | stop k => exact owned_modify h k .stop
  | _ => exact h

/-- What a loop does. -/
theorem goLoop_cases (s : Supervisor) (i : ℕ) (choice : Choice) (now : ℤ) :
    s.goLoop i choice now = s ∨ ∃ m pc op pc', s.managed[i]? = some m ∧ m.loop = some pc ∧
      next s (s.dead m) pc choice = some (op,pc') ∧
      s.goLoop i choice now = s.advance i m now op pc' := by
  unfold Supervisor.goLoop
  cases hm : s.managed[i]? with
  | none => exact .inl rfl
  | some m =>
      cases hpc : m.loop with
      | none => exact .inl (by simp only [hpc,Option.bind_none])
      | some pc =>
          cases hn : next s (s.dead m) pc choice with
          | none => exact .inl (by simp only [hpc,Option.bind_some,hn])
          | some r => exact .inr ⟨m,pc,r.1,r.2,rfl,hpc,hn,by simp only [hpc,Option.bind_some,hn]⟩

/-- A call of `Remove` cancels the context or calls a method of the session. -/
theorem goRemoval_cases (s : Supervisor) (r : ℕ) :
    ∃ l, s.goRemoval r = {s with removals := l} ∨
      (∃ i, s.goRemoval r = {s with managed := s.managed.modify i Managed.cancel,removals := l}) ∨
      ∃ k, s.goRemoval r =
        {s with sessions := s.sessions.modify k (·.step .stop),removals := l} := by
  unfold Supervisor.goRemoval
  split
  · exact ⟨_,.inr (.inl ⟨_,rfl⟩)⟩
  · split
    · exact ⟨_,.inr (.inr ⟨_,rfl⟩)⟩
    · exact ⟨_,.inl rfl⟩
  · split_ifs
    · exact ⟨_,.inl rfl⟩
    · exact ⟨s.removals,.inl rfl⟩
  · exact ⟨s.removals,.inl rfl⟩

theorem Owned.step {s : Supervisor} (h : Owned s) (ev : Event) : Owned (s.step ev) := by
  cases ev with
  | add id =>
      simp only [Supervisor.step,Supervisor.add]
      split_ifs <;> exact h
  | start =>
      simp only [Supervisor.step,Supervisor.start]
      split_ifs <;> exact h
  | remove id =>
      simp only [Supervisor.step,Supervisor.remove]
      cases s.find id <;> exact h
  | cancelRun => exact h
  | goLoop i choice now =>
      rcases goLoop_cases s i choice now with hsame | ⟨m,pc,op,pc',-,-,-,hnew⟩
      · rw [Supervisor.step,hsame]
        exact h
      · rw [Supervisor.step,hnew]
        exact h.apply m.id now op
  | goRemoval r =>
      obtain ⟨l,hnew | ⟨i,hnew⟩ | ⟨k,hnew⟩⟩ := goRemoval_cases s r
      · rw [Supervisor.step,hnew]
        exact h
      · rw [Supervisor.step,hnew]
        exact h
      · rw [Supervisor.step,hnew]
        exact owned_modify h k .stop
  | session k ev => exact owned_modify h k ev

/-! ### What the maps say about the registrations -/

/-- While an id is registered no other loop of the id is running, so that the two maps are about
the registration. -/
structure Sound (s : Supervisor) : Prop where
  alone : ∀ (i j : ℕ) (m m' : Managed), s.managed[i]? = some m → s.managed[j]? = some m' →
    m.registered = true → m'.id = m.id → i ≠ j → m'.registered = false ∧ m'.ended = true
  shown : ∀ m ∈ s.managed, m.registered = true →
    s.retries m.id = m.retried ∧ s.phase m.id = m.inBackoff
  counted : ∀ id, s.phase id = true → 0 < s.retries id
  unstarted : s.running = false → ∀ m ∈ s.managed, m.loop = none

theorem sound_new : Sound {} where
  alone := by simp
  shown := by simp
  counted := by simp
  unstarted := by simp

theorem find_none {s : Supervisor} {id : Bytes} (h : s.find id = none) {m : Managed}
    (hm : m ∈ s.managed) (hid : m.id = id) : m.registered = false := by
  have hno := List.findIdx?_eq_none_iff.mp h m hm
  rw [hid] at hno
  simpa using hno

theorem find_some {s : Supervisor} {id : Bytes} {i : ℕ} (h : s.find id = some i) :
    ∃ m, s.managed[i]? = some m ∧ m.registered = true ∧ m.id = id := by
  obtain ⟨hi,hp,-⟩ := List.findIdx?_eq_some_iff_getElem.mp h
  rw [Bool.and_eq_true,beq_iff_eq] at hp
  exact ⟨_,List.getElem?_eq_getElem hi,hp.1,hp.2⟩

/-- Registrations leave the map, and loops that are not in the window start. -/
theorem Sound.fewer {s s' : Supervisor} (h : Sound s)
    (hold : ∀ (j : ℕ) (n : Managed), s'.managed[j]? = some n → ∃ m, s.managed[j]? = some m ∧
      n.id = m.id ∧ (n.registered = true → m.registered = true ∧ n.retried = m.retried ∧
        n.inBackoff = m.inBackoff) ∧
      (m.registered = false → n.registered = false ∧ n.loop = m.loop))
    (hretries : s'.retries = s.retries) (hphase : s'.phase = s.phase)
    (hunstarted : s'.running = false → ∀ n ∈ s'.managed, n.loop = none) : Sound s' := by
  constructor
  · intro j k n n' hn hn' hreg hid hjk
    obtain ⟨m,hm,hmid,hmreg,-⟩ := hold j n hn
    obtain ⟨m',hm',hmid',-,hmout⟩ := hold k n' hn'
    have hout := h.alone j k m m' hm hm' (hmreg hreg).1 (by rw [← hmid,← hmid',hid]) hjk
    obtain ⟨hnreg,hloop⟩ := hmout hout.1
    rw [Managed.ended,hloop]
    exact ⟨hnreg,hout.2⟩
  · intro n hn hreg
    obtain ⟨j,hj⟩ := List.mem_iff_getElem?.mp hn
    obtain ⟨m,hm,hmid,hmreg,-⟩ := hold j n hj
    obtain ⟨hmregistered,hretried,hbackoff⟩ := hmreg hreg
    rw [hretries,hphase,hmid,hretried,hbackoff]
    exact h.shown m (List.mem_of_getElem? hm) hmregistered
  · rw [hretries,hphase]
    exact h.counted
  · exact hunstarted

theorem Sound.same {s s' : Supervisor} (h : Sound s) (hmanaged : s'.managed = s.managed)
    (hretries : s'.retries = s.retries) (hphase : s'.phase = s.phase)
    (hrunning : s'.running = s.running) : Sound s' := by
  refine h.fewer (fun j n hn => ?_) hretries hphase ?_
  · rw [hmanaged] at hn
    exact ⟨n,hn,rfl,fun hreg => ⟨hreg,rfl,rfl⟩,fun hout => ⟨hout,rfl⟩⟩
  · rw [hmanaged,hrunning]
    exact h.unstarted

/-- A running loop changes its registration and the entries of its id. -/
theorem Sound.update {s s' : Supervisor} (h : Sound s) {i : ℕ} {m : Managed} (m' : Managed)
    (retries : ℕ) (phase : Bool) (hm : s.managed[i]? = some m) (hrunning : m.ended = false)
    (hid : m'.id = m.id) (hreg : m'.registered = m.registered)
    (hmanaged : s'.managed = s.managed.set i m')
    (hretries : s'.retries = Function.update s.retries m.id retries)
    (hphase : s'.phase = Function.update s.phase m.id phase) (hrun : s'.running = s.running)
    (hshown : m.registered = true → retries = m'.retried ∧ phase = m'.inBackoff)
    (hcounted : phase = true → 0 < retries) : Sound s' := by
  -- no other registration of the id is in the map
  have hother : ∀ j n, s.managed[j]? = some n → n.registered = true → j ≠ i → n.id ≠ m.id := by
    intro j n hn hnreg hji hnid
    rw [(h.alone j i n m hn hm hnreg hnid.symm hji).2] at hrunning
    cases hrunning
  constructor
  · intro j k n n' hn hn' hnreg hnid hjk
    rw [hmanaged] at hn hn'
    rcases getElem?_set_cases hn with ⟨rfl,rfl⟩ | ⟨hji,hold⟩
    · rcases getElem?_set_cases hn' with ⟨rfl,-⟩ | ⟨-,hn'⟩
      · exact absurd rfl hjk
      · exact h.alone j k m n' hm hn' (hreg ▸ hnreg) (hid ▸ hnid) hjk
    · rcases getElem?_set_cases hn' with ⟨rfl,rfl⟩ | ⟨-,hn'⟩
      · exact absurd (hid.symm.trans hnid).symm (hother j n hold hnreg hji)
      · exact h.alone j k n n' hold hn' hnreg hnid hjk
  · intro n hn hnreg
    obtain ⟨j,hj⟩ := List.mem_iff_getElem?.mp hn
    rw [hmanaged] at hj
    rw [hretries,hphase]
    rcases getElem?_set_cases hj with ⟨rfl,rfl⟩ | ⟨hji,hj⟩
    · rw [hid,Function.update_self,Function.update_self]
      exact hshown (hreg ▸ hnreg)
    · have hne := hother j n hj hnreg hji
      rw [Function.update_of_ne hne,Function.update_of_ne hne]
      exact h.shown n (List.mem_of_getElem? hj) hnreg
  · intro id hset
    rw [hretries]
    rw [hphase] at hset
    by_cases heq : id = m.id
    · rw [heq,Function.update_self] at hset ⊢
      exact hcounted hset
    · rw [Function.update_of_ne heq] at hset ⊢
      exact h.counted id hset
  · intro hstopped
    rw [hrun] at hstopped
    have hnone := h.unstarted hstopped m (List.mem_of_getElem? hm)
    rw [Managed.ended,hnone] at hrunning
    cases hrunning

/-- The operations that leave the two maps alone. -/
def Op.Silent : Op → Prop
  | .retry | .clear => False
  | _ => True

/-- A loop enters the window with the retry and leaves it with the clearing, or when its context
ends. -/
theorem next_cases {s : Supervisor} {dead : Bool} {pc pc' : Pc} {choice : Choice} {op : Op}
    (h : next s dead pc choice = some (op,pc')) :
    pc ≠ .returned ∧
    (op = .retry ∧ pc'.inBackoff = true ∨ op = .clear ∧ pc'.inBackoff = false ∨
      op.Silent ∧ (pc'.inBackoff = pc.inBackoff ∨
        pc = .waiting ∧ choice = .ctx ∧ dead = true)) := by
  revert h
  fun_cases next s dead pc choice <;> intro h <;> cases h
  all_goals simp_all [Op.Silent,Pc.inBackoff]

theorem onManaged_id (op : Op) (m : Managed) : (op.onManaged m).id = m.id := by cases op <;> rfl

theorem onManaged_registered (op : Op) (m : Managed) :
    (op.onManaged m).registered = m.registered := by cases op <;> rfl

theorem Op.Silent.onManaged_retried {op : Op} (h : op.Silent) (m : Managed) :
    (op.onManaged m).retried = m.retried := by
  cases op with
  | retry => exact h.elim
  | _ => rfl

theorem Op.Silent.apply {op : Op} (h : op.Silent) (s : Supervisor) (id : Bytes) (now : ℤ) :
    (s.apply id now op).retries = s.retries ∧ (s.apply id now op).phase = s.phase := by
  cases op with
  | retry | clear => exact h.elim
  | _ => exact ⟨rfl,rfl⟩

theorem apply_running (s : Supervisor) (id : Bytes) (now : ℤ) (op : Op) :
    (s.apply id now op).running = s.running := by cases op <;> rfl

theorem Sound.advance {s : Supervisor} (h : Sound s) {i : ℕ} {m : Managed} {pc pc' : Pc}
    {choice : Choice} {op : Op} {now : ℤ} (hm : s.managed[i]? = some m) (hpc : m.loop = some pc)
    (hn : next s (s.dead m) pc choice = some (op,pc'))
    (hwait : WaitedOut s (.goLoop i choice now)) : Sound (s.advance i m now op pc') := by
  obtain ⟨hlive,hcases⟩ := next_cases hn
  have hrunning : m.ended = false := by
    rw [Managed.ended,hpc]
    exact decide_eq_false hlive
  have hbackoff : m.inBackoff = pc.inBackoff := by rw [Managed.inBackoff,hpc]; rfl
  have hshown := h.shown m (List.mem_of_getElem? hm)
  rcases hcases with ⟨rfl,hin⟩ | ⟨rfl,hout⟩ | ⟨hsilent,hkept⟩
  · refine h.update {Op.retry.onManaged m with loop := some pc'} (s.retries m.id+1) true hm hrunning
      (onManaged_id .retry m) (onManaged_registered .retry m) rfl rfl rfl rfl ?_
      (fun _ => Nat.succ_pos _)
    exact fun hreg => ⟨congrArg _ (hshown hreg).1,hin.symm⟩
  · refine h.update {Op.clear.onManaged m with loop := some pc'} (s.retries m.id) false hm hrunning
      (onManaged_id .clear m) (onManaged_registered .clear m) rfl
      (Function.update_eq_self _ _).symm rfl rfl ?_ (fun hset => Bool.noConfusion hset)
    exact fun hreg => ⟨(hshown hreg).1,hout.symm⟩
  · obtain ⟨hretries,hphase⟩ := hsilent.apply s m.id now
    refine h.update {op.onManaged m with loop := some pc'} (s.retries m.id) (s.phase m.id) hm
      hrunning (onManaged_id op m) (onManaged_registered op m) rfl
      (hretries.trans (Function.update_eq_self _ _).symm)
      (hphase.trans (Function.update_eq_self _ _).symm) (apply_running s m.id now op) ?_
      (h.counted m.id)
    intro hreg
    refine ⟨(hshown hreg).1.trans (hsilent.onManaged_retried m).symm,?_⟩
    rcases hkept with hsame | ⟨rfl,rfl,hdead⟩
    · rw [(hshown hreg).2,hbackoff]
      exact hsame.symm
    · rw [hwait i rfl m hm hpc hdead] at hreg
      cases hreg

theorem add_cases (s : Supervisor) (id : Bytes) :
    s.step (.add id) = s ∨ s.find id = none ∧
      s.step (.add id) = {s with
        managed := s.managed++[{id := id,loop := if s.running then some .checking else none}]} := by
  by_cases hid : id = []
  · exact .inl (by simp only [Supervisor.step,Supervisor.add,if_pos hid]; rfl)
  · cases hfind : s.find id with
    | none =>
        refine .inr ⟨rfl,?_⟩
        simp only [Supervisor.step,Supervisor.add,if_neg hid,hfind]
        rfl
    | some i =>
        refine .inl ?_
        simp only [Supervisor.step,Supervisor.add,if_neg hid,hfind]
        rfl

theorem Sound.add {s : Supervisor} (h : Sound s) {id : Bytes} (hfresh : AddedFresh s (.add id)) :
    Sound (s.step (.add id)) := by
  rcases add_cases s id with hsame | ⟨hnone,hnew⟩
  · rw [hsame]
    exact h
  obtain ⟨hretries,hended⟩ := hfresh id rfl hnone
  have hphase : s.phase id = false := by
    cases hset : s.phase id with
    | false => rfl
    | true => exact absurd (h.counted id hset) (by omega)
  have hidle : Option.any Pc.inBackoff (if s.running then some .checking else none) = false := by
    split_ifs <;> rfl
  rw [hnew]
  constructor
  · intro i j m m' hm hm' hreg hmid hij
    rcases getElem?_append_cases hm' with ⟨rfl,rfl⟩ | hm'
    · rcases getElem?_append_cases hm with ⟨rfl,-⟩ | hm
      · exact absurd rfl hij
      · rw [find_none hnone (List.mem_of_getElem? hm) hmid.symm] at hreg
        cases hreg
    · rcases getElem?_append_cases hm with ⟨rfl,rfl⟩ | hm
      · have hmem := List.mem_of_getElem? hm'
        exact ⟨find_none hnone hmem hmid,hended m' hmem hmid⟩
      · exact h.alone i j m m' hm hm' hreg hmid hij
  · intro m hm hreg
    rcases List.mem_append.mp hm with hm | hm
    · exact h.shown m hm hreg
    · rw [List.mem_singleton.mp hm]
      exact ⟨hretries,hphase.trans hidle.symm⟩
  · exact h.counted
  · intro hstopped m hm
    rcases List.mem_append.mp hm with hm | hm
    · exact h.unstarted hstopped m hm
    · rw [List.mem_singleton.mp hm]
      exact if_neg (Bool.eq_false_iff.mp hstopped)

theorem Sound.start {s : Supervisor} (h : Sound s) : Sound (s.step .start) := by
  simp only [Supervisor.step,Supervisor.start]
  split_ifs with hrunning hempty
  · exact h
  · exact h
  refine h.fewer (fun j n hn => ?_) rfl rfl (fun hstopped => Bool.noConfusion hstopped)
  obtain ⟨m,hm,rfl⟩ := Option.map_eq_some_iff.mp ((List.getElem?_map).symm.trans hn)
  have hnone := h.unstarted (Bool.eq_false_iff.mpr hrunning) m (List.mem_of_getElem? hm)
  unfold Managed.spawn
  split_ifs with hreg
  · refine ⟨m,hm,rfl,fun _ => ⟨hreg,rfl,?_⟩,fun hout => absurd hreg (Bool.eq_false_iff.mp hout)⟩
    rw [Managed.inBackoff,Managed.inBackoff,hnone]
    rfl
  · exact ⟨m,hm,rfl,fun hin => absurd hin hreg,fun hout => ⟨hout,rfl⟩⟩

/-- A registration of which only other fields change, or which leaves the map. -/
theorem Sound.modify {s s' : Supervisor} (h : Sound s) {i : ℕ} {f : Managed → Managed}
    (hf : ∀ m, (f m).id = m.id ∧ (f m).loop = m.loop ∧ (f m).retried = m.retried ∧
      ((f m).registered = true → m.registered = true))
    (hmanaged : s'.managed = s.managed.modify i f) (hretries : s'.retries = s.retries)
    (hphase : s'.phase = s.phase) (hrunning : s'.running = s.running) : Sound s' := by
  have hold : ∀ (j : ℕ) (n : Managed), s'.managed[j]? = some n → ∃ m, s.managed[j]? = some m ∧
      n.id = m.id ∧ n.loop = m.loop ∧ n.retried = m.retried ∧
      (n.registered = true → m.registered = true) := by
    intro j n hn
    rw [hmanaged] at hn
    obtain ⟨m,hm,⟨-,rfl⟩ | ⟨-,rfl⟩⟩ := getElem?_modify_cases hn
    · exact ⟨m,hm,hf m⟩
    · exact ⟨n,hm,rfl,rfl,rfl,fun hreg => hreg⟩
  refine h.fewer (fun j n hn => ?_) hretries hphase fun hstopped n hn => ?_
  · obtain ⟨m,hm,hid,hloop,hretried,hreg⟩ := hold j n hn
    refine ⟨m,hm,hid,fun hin => ⟨hreg hin,hretried,?_⟩,fun hout => ⟨?_,hloop⟩⟩
    · rw [Managed.inBackoff,hloop]
      rfl
    · exact Bool.eq_false_iff.mpr fun hin => Bool.eq_false_iff.mp hout (hreg hin)
  · obtain ⟨j,hj⟩ := List.mem_iff_getElem?.mp hn
    obtain ⟨m,hm,-,hloop,-,-⟩ := hold j n hj
    rw [hloop]
    exact h.unstarted (hrunning ▸ hstopped) m (List.mem_of_getElem? hm)

theorem Sound.remove {s : Supervisor} (h : Sound s) (id : Bytes) : Sound (s.step (.remove id)) := by
  simp only [Supervisor.step,Supervisor.remove]
  cases s.find id with
  | none => exact h
  | some i =>
      exact h.modify (f := fun m => {m with registered := false})
        (fun _ => ⟨rfl,rfl,rfl,fun hin => Bool.noConfusion hin⟩) rfl rfl rfl rfl

theorem Sound.step {s : Supervisor} {ev : Event} (h : Sound s) (hfresh : AddedFresh s ev)
    (hwait : WaitedOut s ev) : Sound (s.step ev) := by
  cases ev with
  | add id => exact h.add hfresh
  | start => exact h.start
  | remove id => exact h.remove id
  | cancelRun => exact h.same rfl rfl rfl rfl
  | goLoop i choice now =>
      rcases goLoop_cases s i choice now with hsame | ⟨m,pc,op,pc',hm,hpc,hn,hnew⟩
      · rw [Supervisor.step,hsame]
        exact h
      · rw [Supervisor.step,hnew]
        exact h.advance hm hpc hn hwait
  | goRemoval r =>
      obtain ⟨l,hnew | ⟨i,hnew⟩ | ⟨k,hnew⟩⟩ := goRemoval_cases s r
      · rw [Supervisor.step,hnew]
        exact h.same rfl rfl rfl rfl
      · rw [Supervisor.step,hnew]
        exact h.modify (f := Managed.cancel) (fun _ => ⟨rfl,rfl,rfl,fun hin => hin⟩) rfl rfl rfl rfl
      · rw [Supervisor.step,hnew]
        exact h.same rfl rfl rfl rfl
  | session k ev => exact h.same rfl rfl rfl rfl

theorem Sound.truthful {s : Supervisor} (h : Sound s) (howned : Owned s) : Truthful s := by
  intro _ id m st hcurrent hhealth
  obtain ⟨i,hfind,hm⟩ := Option.bind_eq_some_iff.mp hcurrent
  obtain ⟨m',hm',hreg,-⟩ := find_some hfind
  cases hm.symm.trans hm'
  obtain ⟨hretries,hphase⟩ := h.shown m (List.mem_of_getElem? hm) hreg
  rw [Supervisor.health,hcurrent] at hhealth
  cases hhealth
  rw [Supervisor.status,hphase,hretries]
  cases hsess : m.sess.bind (s.sessions[·]?) with
  | none =>
      refine ⟨?_,by rw [hsess]; rfl⟩
      cases m.inBackoff with
      | false => exact iff_of_false (fun h => State.noConfusion h) Bool.false_ne_true
      | true => exact iff_of_true rfl rfl
  | some sess =>
      refine ⟨?_,by rw [hsess]; rfl⟩
      obtain ⟨k,-,hk⟩ := Option.bind_eq_some_iff.mp hsess
      have hown := howned sess (List.mem_of_getElem? hk)
      cases m.inBackoff with
      | false => exact iff_of_false hown Bool.false_ne_true
      | true => exact iff_of_true rfl rfl

theorem owned_new : Owned {} := by simp [Owned]

/-- Health is about the current registrations after every part of the run. -/
theorem health_truthful (evs : List Event) (hfresh : Along Supervisor.step AddedFresh evs {})
    (hwait : Along Supervisor.step WaitedOut evs {}) :
    ∀ pre, pre <+: evs → Truthful (run Supervisor.step pre {}) := by
  intro pre hpre
  have hsound : Sound (run Supervisor.step pre {}) :=
    (hfresh.and hwait).throughout (fun s ev hs hev => hs.step hev.1 hev.2) sound_new pre hpre
  exact hsound.truthful (run_invariant (fun s ev hs => hs.step ev) pre owned_new)

/-- A session whose credentials cannot be loaded, up to the wait for the retry. -/
def failingOnce : List Event :=
  [.add (text "a"),.start,.goLoop 0 .proceed 1,.goLoop 0 .proceed 1,.goLoop 0 .proceed 1,
    .goLoop 0 .proceed 1,.session 0 (.go 0 .proceed),.session 0 (.go 0 (.fails false)),
    .goLoop 0 .proceed 2,.goLoop 0 .proceed 2,.goLoop 0 .proceed 2]

/-- It is removed while its loop waits, and registered again. -/
def readded : List Event :=
  failingOnce++[.remove (text "a"),.goRemoval 0,.goLoop 0 .ctx 3,.add (text "a")]

/-- The new loop is before its first attempt and is shown in the backoff of the old one. With its
first session it shows the old retry. -/
theorem readded_not_truthful :
    (run Supervisor.step readded {}).Settled ∧
    (run Supervisor.step readded {}).current (text "a") =
      some {id := text "a",loop := some .checking} ∧
    (run Supervisor.step readded {}).health (text "a") =
      some {id := text "a",state := .reconnecting} ∧
    ((run Supervisor.step (readded++List.replicate 3 (.goLoop 1 .proceed 4)) {}).current
      (text "a")).map Managed.retried = some 0 ∧
    ((run Supervisor.step (readded++List.replicate 3 (.goLoop 1 .proceed 4)) {}).health
      (text "a")).map Status.retries = some 1 ∧
    ¬Truthful (run Supervisor.step readded {}) := by
  have hsettled : (run Supervisor.step readded {}).Settled := by decide +kernel
  have hcurrent : (run Supervisor.step readded {}).current (text "a") =
      some {id := text "a",loop := some .checking} := by decide +kernel
  have hhealth : (run Supervisor.step readded {}).health (text "a") =
      some {id := text "a",state := .reconnecting} := by decide +kernel
  refine ⟨hsettled,hcurrent,hhealth,by decide +kernel,by decide +kernel,fun h => ?_⟩
  exact absurd ((h hsettled _ _ _ hcurrent hhealth).state.mp rfl) (by decide)

/-- The session fails, waits and tries again. -/
theorem health_truthful_sample :
    Along Supervisor.step AddedFresh failingOnce {} ∧
    Along Supervisor.step WaitedOut failingOnce {} ∧
    Truthful (run Supervisor.step failingOnce {}) := by
  have hfresh : Along Supervisor.step AddedFresh failingOnce {} := by decide +kernel
  have hwait : Along Supervisor.step WaitedOut failingOnce {} := by decide +kernel
  exact ⟨hfresh,hwait,health_truthful failingOnce hfresh hwait _ List.prefix_rfl⟩

end BaturWhatsApi.FleetHealth
