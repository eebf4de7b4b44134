import BaturWhatsApi.ListCells
import BaturWhatsApi.Runs
import BaturWhatsApi.StateMachine

/-!
# Start, Stop and the goroutines of a session

`Start`, `Stop`, `connectionTask`, `serveFrames`, `frameConsumer` and `keepAliveLoop` of
`session/session.go`, with `fail`, `shutdownOK` and `abort`, one atomic operation at a time:
a critical section, a channel operation or a call of the state machine. A goroutine's program
says which operation it performs next and where it goes; the operations are on what the
goroutines share. The schedule chooses the goroutine that moves, the case of a `select` and how
a dial, a handshake, a request or a read ends.
-/
namespace BaturWhatsApi.SessionLifecycle
open ListCells StateMachine

/-! ### What is shared -/

inductive Source where
  | stopped
  | credentials
  | transition
  | dial
  | handshake
  | request
  | transport
  | decrypt
  | silence
  | ctx
deriving DecidableEq, Repr

/-- The flag is `errors.Is(err, ErrStopped)`. -/
structure Err where
  source : Source
  isStopped : Bool := false
deriving DecidableEq, Repr

def errStopped : Err := ⟨.stopped,true⟩

/-- A frame that does not open, one with children of which some are acks, and any other. -/
inductive Frame where
  | undecryptable
  | inband (acks : ℕ)
  | other
deriving DecidableEq, Repr

def queueSize : ℕ := 64

/-- Of the channels that are only closed the number of closings is kept; a second one panics.
`conns` says of each connection dialled whether it has been closed. The last three fields are a
record of what has happened: the `connection.error` events, whether a dial, a handshake, the
transport or a decryption has failed or the server was silent, and whether `Stop` was called while
nothing of that had happened. -/
structure Shared where
  mach : Machine := {}
  stopped : Bool := false
  stopping : Bool := false
  stopRequested : Bool := false
  brokenClosed : Bool := false
  breakErr : Option Err := none
  conn : Option ℕ := none
  conns : List Bool := []
  connReady : ℕ := 0
  online : ℕ := 0
  broken : ℕ := 0
  stopC : ℕ := 0
  runErr : Option Err := none
  queues : List (List Frame) := []
  cancelled : List ℕ := []
  errorEvents : ℕ := 0
  failed : Bool := false
  cleanStop : Bool := false
deriving DecidableEq, Repr

inductive Op where
  | skip
  | move (target : State)
  | force (target : State)
  | dial
  | publish (k : ℕ)
  | closeReady
  | closeOnline
  | record (err : Err)
  | emitError
  | markAbort
  | closeStop
  | takeConn
  | closeConn (k : ℕ)
  | markStopped
  | putResult (err : Err)
  | takeResult
  | newQueue
  | enqueue (q : ℕ) (f : Frame)
  | dequeue (q : ℕ)
  | failure
deriving DecidableEq, Repr

/-- `record` is the critical section of `fail` and of `shutdownOK`. A full queue drops. -/
def Shared.apply (s : Shared) : Op → Shared
  | .skip => s
  | .move target => {s with mach := s.mach.tryMove target}
  | .force target => {s with mach := s.mach.force target}
  | .dial => {s with conns := s.conns++[false]}
  | .publish k => {s with conn := some k}
  | .closeReady => {s with connReady := s.connReady+1}
  | .closeOnline => {s with online := s.online+1}
  | .record err =>
      if s.brokenClosed then s
      else {s with brokenClosed := true,breakErr := some err,broken := s.broken+1}
  | .emitError => {s with errorEvents := s.errorEvents+1}
  | .markAbort => {s with stopRequested := true}
  | .closeStop => {s with stopC := s.stopC+1}
  | .takeConn => {s with conn := none}
  | .closeConn k => {s with conns := s.conns.set k true}
  | .markStopped => {s with stopped := true}
  | .putResult err => {s with runErr := some err}
  | .takeResult => {s with runErr := none}
  | .newQueue => {s with queues := s.queues++[[]]}
  | .enqueue q f =>
      {s with queues := s.queues.modify q fun l => if l.length < queueSize then l++[f] else l}
  | .dequeue q => {s with queues := s.queues.modify q List.tail}
  | .failure => {s with failed := true}

/-- `record` changes nothing but the three fields of `broken`. -/
theorem apply_record (s : Shared) (err : Err) : s.apply (.record err) =
    {s with
      brokenClosed := true
      breakErr := if s.brokenClosed then s.breakErr else some err
      broken := if s.brokenClosed then s.broken else s.broken+1} := by
  cases h : s.brokenClosed with
  | true =>
      simp only [Shared.apply,h,if_true]
      cases s
      cases h
      rfl
  | false => simp only [Shared.apply,h,Bool.false_eq_true,if_false]

/-- One if the operation is the given one. -/
def performs (target op : Op) : ℕ := if op = target then 1 else 0

/-! ### The goroutines -/

inductive Role where
  | start
  | task
  | reader
  | consumer
  | keepAlive
  | stop
deriving DecidableEq, Repr

/-- Where `fail` is. -/
inductive Failing where
  | recording
  | moving
  | emitting
deriving DecidableEq, Repr

/-- Where `abort` is. -/
inductive Aborting where
  | flag
  | closing
  | taking
  | dropping (k : ℕ)
deriving DecidableEq, Repr

/-- Who has called `fail` or `shutdownOK`. -/
inductive FailCaller where
  | task (err : Err)
  | reader
  | consumer
  | keepAlive
deriving DecidableEq, Repr

/-- Who has called `abort`. -/
inductive AbortCaller where
  | start
  | task (err : Err)
  | stop
deriving DecidableEq, Repr

/-- The next operation of a goroutine. -/
inductive Pc where
  | checking
  | loading
  | starting
  | launching
  | waiting
  | connecting
  | dialing
  | publishing (k : ℕ)
  | readying (k : ℕ)
  | authenticating (k : ℕ)
  | handshaking (k : ℕ)
  | syncing (k : ℕ)
  | serving (k : ℕ)
  | sendingIQ
  | requesting
  | onlining
  | opening
  | guarding
  | watching
  | leaving (err : Err)
  | result (err : Err)
  | failing (phase : Failing) (err : Err) (caller : FailCaller)
  | shutting (caller : FailCaller)
  | aborting (phase : Aborting) (caller : AbortCaller)
  | receiving (q k : ℕ)
  | readFailed (err : Err)
  | readChecked (err : Err)
  | consuming (q : ℕ)
  | handling (q : ℕ) (f : Frame)
  | acking (q acks : ℕ)
  | lifting (q acks : ℕ)
  | ticking
  | probing
  | timing
  | degrading
  | marking
  | stopMoving
  | stopMovingAgain
  | forcing
  | sending
  | awaiting
  | finishing
  | returned (role : Role) (err : Option Err)
deriving DecidableEq, Repr

def FailCaller.resume : FailCaller → Pc
  | .task err => .aborting .flag (.task err)
  | .reader => .returned .reader none
  | .consumer => .returned .consumer none
  | .keepAlive => .returned .keepAlive none

def AbortCaller.resume : AbortCaller → Pc
  | .start => .returned .start (some ⟨.ctx,false⟩)
  | .task err => .result err
  | .stop => .awaiting

def FailCaller.role : FailCaller → Role
  | .task _ => .task
  | .reader => .reader
  | .consumer => .consumer
  | .keepAlive => .keepAlive

def AbortCaller.role : AbortCaller → Role
  | .start => .start
  | .task _ => .task
  | .stop => .stop

/-- The function that the goroutine executes, or the one that called it. -/
def Pc.role : Pc → Role
  | .checking | .loading | .starting | .launching | .waiting => .start
  | .failing _ _ caller | .shutting caller => caller.role
  | .aborting _ caller => caller.role
  | .receiving _ _ | .readFailed _ | .readChecked _ => .reader
  | .consuming _ | .handling _ _ | .acking _ _ | .lifting _ _ => .consumer
  | .ticking | .probing | .timing | .degrading => .keepAlive
  | .marking | .stopMoving | .stopMovingAgain | .forcing | .sending | .awaiting | .finishing =>
      .stop
  | .returned role _ => role
  | _ => .task

/-- `fails` is a failure of the operation itself; `closed` is the error of an operation on a
connection that the session has closed. -/
inductive Choice where
  | proceed
  | fails (isStopped : Bool)
  | ctx
  | stop
  | broken
  | result
  | timeout
  | closed
  | silent
  | frame (f : Frame)
deriving DecidableEq, Repr

/-- The operation, where the goroutine goes, and the goroutines it starts. `dead` says that its
context is cancelled; `none` that this choice is not ready. -/
def next (s : Shared) (dead : Bool) : Pc → Choice → Option (Op × Pc × List Pc)
  -- Start
  | .checking,_ =>
      if s.stopped || s.stopping then some (.skip,.returned .start (some errStopped),[])
      else some (.skip,.loading,[])
  | .loading,.proceed => some (.skip,.starting,[])
  | .loading,.fails isStopped =>
      some (.skip,.returned .start (some ⟨.credentials,isStopped⟩),[])
  | .starting,_ =>
      if s.mach.can .starting then some (.move .starting,.launching,[])
      else some (.skip,.returned .start (some ⟨.transition,false⟩),[])
  | .launching,_ => some (.skip,.waiting,[.connecting])
  | .waiting,.proceed => if 0 < s.online then some (.skip,.returned .start none,[]) else none
  | .waiting,.result =>
      match s.runErr with
      | some err => some (.takeResult,.returned .start (some err),[])
      | none => none
  | .waiting,.ctx => if dead then some (.skip,.aborting .flag .start,[]) else none
  -- connectionTask
  | .connecting,_ => some (.move .connecting,.dialing,[])
  | .dialing,.proceed => some (.dial,.publishing s.conns.length,[])
  | .dialing,.fails isStopped => some (.failure,.leaving ⟨.dial,isStopped⟩,[])
  | .dialing,.ctx => if dead then some (.skip,.leaving ⟨.ctx,false⟩,[]) else none
  | .publishing k,_ => some (.publish k,.readying k,[])
  | .readying k,_ => some (.closeReady,.authenticating k,[])
  | .authenticating k,_ => some (.move .authenticating,.handshaking k,[])
  | .handshaking k,.proceed => some (.skip,.syncing k,[])
  | .handshaking _,.fails isStopped => some (.failure,.leaving ⟨.handshake,isStopped⟩,[])
  | .handshaking k,.closed =>
      if s.conns.getD k false then some (.skip,.leaving ⟨.handshake,false⟩,[]) else none
  | .handshaking _,.ctx => if dead then some (.skip,.leaving ⟨.ctx,false⟩,[]) else none
  | .syncing k,_ => some (.move .syncing,.serving k,[])
  | .serving k,_ =>
      some (.newQueue,.sendingIQ,[.consuming s.queues.length,.receiving s.queues.length k])
  | .sendingIQ,.proceed =>
      if s.conn = none then some (.skip,.leaving ⟨.request,false⟩,[])
      else some (.skip,.requesting,[])
  | .sendingIQ,.fails isStopped => some (.failure,.leaving ⟨.transport,isStopped⟩,[])
  | .sendingIQ,.ctx => if dead then some (.skip,.leaving ⟨.ctx,false⟩,[]) else none
  | .requesting,.proceed => some (.skip,.onlining,[])
  | .requesting,.timeout => some (.skip,.leaving ⟨.request,false⟩,[])
  | .requesting,.ctx => if dead then some (.skip,.leaving ⟨.ctx,false⟩,[]) else none
  | .requesting,.stop => if 0 < s.stopC then some (.skip,.leaving ⟨.request,true⟩,[]) else none
  | .requesting,.broken =>
      if 0 < s.broken then some (.skip,.leaving ⟨.request,false⟩,[]) else none
  | .onlining,_ =>
      if s.mach.can .online then some (.move .online,.opening,[])
      else some (.skip,.leaving ⟨.transition,false⟩,[])
  | .opening,_ => some (.closeOnline,.guarding,[])
  | .guarding,_ => some (.skip,.watching,[.ticking])
  | .watching,.broken =>
      if 0 < s.broken then some (.skip,.leaving (s.breakErr.getD ⟨.ctx,false⟩),[]) else none
  | .watching,.ctx => if dead then some (.skip,.leaving ⟨.ctx,false⟩,[]) else none
  | .leaving err,_ =>
      if !err.isStopped && !dead then some (.skip,.failing .recording err (.task err),[])
      else some (.skip,.shutting (.task err),[])
  | .result err,_ =>
      if s.runErr = none then some (.putResult err,.returned .task (some err),[]) else none
  -- fail, shutdownOK and abort
  | .failing .recording err caller,_ => some (.record err,.failing .moving err caller,[])
  | .failing .moving err caller,_ => some (.move .error,.failing .emitting err caller,[])
  | .failing .emitting _ caller,_ => some (.emitError,caller.resume,[])
  | .shutting caller,_ => some (.record errStopped,caller.resume,[])
  | .aborting .flag caller,_ =>
      if s.stopRequested then some (.skip,caller.resume,[])
      else some (.markAbort,.aborting .closing caller,[])
  | .aborting .closing caller,_ => some (.closeStop,.aborting .taking caller,[])
  | .aborting .taking caller,_ =>
      match s.conn with
      | some k => some (.takeConn,.aborting (.dropping k) caller,[])
      | none => some (.takeConn,caller.resume,[])
  | .aborting (.dropping k) caller,_ => some (.closeConn k,caller.resume,[])
  -- serveFrames
  | .receiving q k,.frame f => some (.enqueue q f,.receiving q k,[])
  | .receiving _ _,.fails isStopped => some (.failure,.readFailed ⟨.transport,isStopped⟩,[])
  | .receiving _ k,.closed =>
      if s.conns.getD k false then some (.skip,.readFailed ⟨.transport,false⟩,[]) else none
  | .receiving _ _,.ctx => if dead then some (.skip,.readFailed ⟨.ctx,false⟩,[]) else none
  | .readFailed err,_ =>
      if dead then some (.skip,.shutting .reader,[]) else some (.skip,.readChecked err,[])
  | .readChecked err,_ =>
      if s.stopping then some (.skip,.shutting .reader,[])
      else some (.skip,.failing .recording err .reader,[])
  -- frameConsumer
  | .consuming _,.ctx => if dead then some (.skip,.returned .consumer none,[]) else none
  | .consuming _,.stop => if 0 < s.stopC then some (.skip,.returned .consumer none,[]) else none
  | .consuming q,.proceed =>
      match s.queues.getD q [] with
      | f::_ => some (.dequeue q,.handling q f,[])
      | [] => none
  | .handling _ .undecryptable,_ =>
      some (.failure,.failing .recording ⟨.decrypt,false⟩ .consumer,[])
  | .handling q (.inband acks),_ => some (.skip,.acking q acks,[])
  | .handling q .other,_ => some (.skip,.consuming q,[])
  | .acking q 0,_ => some (.skip,.consuming q,[])
  | .acking q (acks+1),_ =>
      if s.mach.state = .degraded then some (.skip,.lifting q acks,[])
      else some (.skip,.acking q acks,[])
  | .lifting q acks,_ => some (.move .online,.acking q acks,[])
  -- keepAliveLoop
  | .ticking,.ctx => if dead then some (.skip,.returned .keepAlive none,[]) else none
  | .ticking,.stop => if 0 < s.stopC then some (.skip,.returned .keepAlive none,[]) else none
  | .ticking,.proceed => some (.skip,.probing,[])
  | .probing,_ =>
      if s.mach.state = .error ∨ s.mach.state = .stopping then
        some (.skip,.returned .keepAlive none,[])
      else if s.mach.state ≠ .online ∧ s.mach.state ≠ .degraded then some (.skip,.ticking,[])
      else some (.skip,.timing,[])
  | .timing,.silent => some (.failure,.degrading,[])
  | .timing,.proceed => some (.skip,.ticking,[])
  | .timing,.fails _ => some (.skip,.returned .keepAlive none,[])
  | .degrading,_ => some (.move .degraded,.failing .recording ⟨.silence,false⟩ .keepAlive,[])
  -- Stop
  | .marking,_ =>
      if s.stopped then some (.skip,.returned .stop none,[])
      else some (.markStopped,.stopMoving,[])
  | .stopMoving,_ => some (.move .stopping,.stopMovingAgain,[])
  | .stopMovingAgain,_ =>
      if s.mach.can .stopping then some (.move .stopping,.sending,[]) else some (.skip,.forcing,[])
  | .forcing,_ => some (.force .stopping,.sending,[])
  | .sending,_ => some (.skip,.aborting .flag .stop,[])
  | .awaiting,.broken => if 0 < s.broken then some (.skip,.finishing,[]) else none
  | .awaiting,.ctx => if dead then some (.skip,.finishing,[]) else none
  | .finishing,_ => some (.move .stopped,.returned .stop none,[])
  | _,_ => none

@[simp] theorem role_resume_fail (caller : FailCaller) : caller.resume.role = caller.role := by
  cases caller <;> rfl

@[simp] theorem role_resume_abort (caller : AbortCaller) : caller.resume.role = caller.role := by
  cases caller <;> rfl

/-- A goroutine stays in its function. -/
theorem next_role {s : Shared} {dead : Bool} {pc pc' : Pc} {choice : Choice} {op : Op}
    {started : List Pc} (h : next s dead pc choice = some (op,pc',started)) :
    pc'.role = pc.role := by
  revert h
  fun_cases next s dead pc choice <;> intro h <;> cases h
  all_goals try simp only [role_resume_fail,role_resume_abort]
  all_goals rfl

/-! ### Runs -/

/-- The context is the one of the call that started the goroutine. -/
structure Thread where
  ctx : ℕ
  pc : Pc
deriving DecidableEq, Repr

structure Session where
  shared : Shared := {}
  threads : List Thread := []
deriving DecidableEq, Repr

inductive Event where
  | start
  | stop
  | cancel (ctx : ℕ)
  | go (i : ℕ) (choice : Choice)
deriving DecidableEq, Repr

def Session.call (s : Session) (pc : Pc) : Session :=
  {s with threads := s.threads++[⟨s.threads.length,pc⟩]}

def Session.advance (s : Session) (i : ℕ) (t : Thread) (op : Op) (pc : Pc) (started : List Pc) :
    Session :=
  { shared := s.shared.apply op
    threads := s.threads.set i ⟨t.ctx,pc⟩++started.map (Thread.mk t.ctx) }

def Session.go (s : Session) (i : ℕ) (choice : Choice) : Session :=
  match s.threads[i]? with
  | none => s
  | some t =>
      match next s.shared (s.shared.cancelled.contains t.ctx) t.pc choice with
      | none => s
      | some (op,pc,started) => s.advance i t op pc started

def Session.step (s : Session) : Event → Session
  | .start => s.call .checking
  | .stop =>
      Session.call
        {s with shared := {s.shared with cleanStop := s.shared.cleanStop || !s.shared.failed}}
        .marking
  | .cancel ctx => {s with shared := {s.shared with cancelled := ctx::s.shared.cancelled}}
  | .go i choice => s.go i choice

/-- The goroutine that the event moves. -/
def mover : Event → Option ℕ
  | .go i _ => some i
  | _ => none

/-- Where the goroutine is that the event moves. -/
def movedPc (s : Session) (ev : Event) : Option Pc :=
  ((mover ev).bind (s.threads[·]?)).map Thread.pc

theorem movedPc_go {s : Session} {i : ℕ} {t : Thread} (ht : s.threads[i]? = some t)
    (choice : Choice) : movedPc s (.go i choice) = some t.pc := by
  simp only [movedPc,mover,Option.bind_some,ht,Option.map_some]

/-- The next operations of a goroutine, if all goes well. -/
def goes (i n : ℕ) : List Event := List.replicate n (.go i .proceed)

/-- What an event does to a session. -/
inductive Outcome (s : Session) : Event → Session → Prop where
  | stays (i : ℕ) (choice : Choice) : Outcome s (.go i choice) s
  | starts : Outcome s .start (s.call .checking)
  | stops : Outcome s .stop (s.step .stop)
  | cancels (ctx : ℕ) : Outcome s (.cancel ctx) (s.step (.cancel ctx))
  | goes (i : ℕ) (choice : Choice) (t : Thread) (op : Op) (pc : Pc) (started : List Pc) :
      s.threads[i]? = some t →
      next s.shared (s.shared.cancelled.contains t.ctx) t.pc choice = some (op,pc,started) →
      Outcome s (.go i choice) (s.advance i t op pc started)

theorem step_outcome (s : Session) (ev : Event) : Outcome s ev (s.step ev) := by
  cases ev with
  | start => exact .starts
  | stop => exact .stops
  | cancel ctx => exact .cancels ctx
  | go i choice =>
      cases ht : s.threads[i]? with
      | none =>
          simp only [Session.step,Session.go,ht]
          exact .stays i choice
      | some t =>
          cases hn : next s.shared (s.shared.cancelled.contains t.ctx) t.pc choice with
          | none =>
              simp only [Session.step,Session.go,ht,hn]
              exact .stays i choice
          | some r =>
              simp only [Session.step,Session.go,ht,hn]
              exact .goes i choice t r.1 r.2.1 r.2.2 ht hn

/-- A goroutine after a step is the one that moved, one that did not, or a new one. -/
theorem advance_thread {s : Session} {i j : ℕ} {t u : Thread} {op : Op} {pc : Pc}
    {started : List Pc} (h : (s.advance i t op pc started).threads[j]? = some u) :
    (j = i ∧ u = ⟨t.ctx,pc⟩) ∨ (j ≠ i ∧ s.threads[j]? = some u) ∨
      s.threads.length ≤ j ∧ u.ctx = t.ctx ∧ u.pc ∈ started := by
  simp only [Session.advance] at h
  by_cases hj : j < s.threads.length
  · rw [List.getElem?_append_left (by simpa using hj)] at h
    rcases getElem?_set_cases h with ⟨hji,hu⟩ | ⟨hji,hu⟩
    · exact .inl ⟨hji,hu⟩
    · exact .inr (.inl ⟨hji,hu⟩)
  · rw [List.getElem?_append_right (by simpa using hj)] at h
    obtain ⟨p,hp,rfl⟩ := List.mem_map.mp (List.mem_of_getElem? h)
    exact .inr (.inr ⟨Nat.le_of_not_lt hj,rfl,hp⟩)

theorem advance_self {s : Session} {i : ℕ} {t : Thread} (ht : s.threads[i]? = some t) (op : Op)
    (pc : Pc) (started : List Pc) :
    (s.advance i t op pc started).threads[i]? = some ⟨t.ctx,pc⟩ := by
  have hi := (List.getElem?_eq_some_iff.mp ht).1
  simp only [Session.advance]
  rw [List.getElem?_append_left (by simpa using hi),List.getElem?_set_self hi]

theorem advance_other {s : Session} {i j : ℕ} {t u : Thread} (hu : s.threads[j]? = some u)
    (hne : j ≠ i) (op : Op) (pc : Pc) (started : List Pc) :
    (s.advance i t op pc started).threads[j]? = some u := by
  have hj := (List.getElem?_eq_some_iff.mp hu).1
  simp only [Session.advance]
  rw [List.getElem?_append_left (by simpa using hj),getElem?_set_of_ne hne,hu]

theorem call_thread {s : Session} {j : ℕ} {u : Thread} {pc : Pc}
    (h : (s.call pc).threads[j]? = some u) :
    s.threads[j]? = some u ∨ j = s.threads.length ∧ u = ⟨s.threads.length,pc⟩ :=
  (getElem?_append_cases h).symm

section
variable (s : Shared) (op : Op)

theorem stopRequested_apply :
    (s.apply op).stopRequested = (s.stopRequested || decide (op = .markAbort)) := by
  cases op with
  | record err => simp [apply_record]
  | _ => simp [Shared.apply]

end

/-- The flag of `abort` is set only while it is not set. -/
theorem next_markAbort {s : Shared} {dead : Bool} {pc pc' : Pc} {choice : Choice}
    {started : List Pc} (h : next s dead pc choice = some (.markAbort,pc',started)) :
    s.stopRequested = false := by
  revert h
  fun_cases next s dead pc choice <;> intro h <;> cases h
  simpa using ‹¬s.stopRequested = true›

/-- How many goroutines are at the places that count. -/
def Session.count (s : Session) (f : Pc → ℕ) : ℕ := tally (fun t => f t.pc) s.threads

theorem count_le_count {f g : Pc → ℕ} (h : ∀ pc, f pc ≤ g pc) (s : Session) :
    s.count f ≤ s.count g := tally_le_tally (fun t : Thread => h t.pc) s.threads

theorem count_add (f g : Pc → ℕ) (s : Session) :
    s.count (fun pc => f pc+g pc) = s.count f+s.count g := tally_add _ _ _

theorem count_pos {s : Session} {f : Pc → ℕ} {t : Thread} (ht : t ∈ s.threads) (hf : 0 < f t.pc) :
    0 < s.count f :=
  Nat.lt_of_lt_of_le hf (List.single_le_sum (by simp) _ (List.mem_map_of_mem ht))

theorem count_call (s : Session) (f : Pc → ℕ) (pc : Pc) : (s.call pc).count f = s.count f+f pc :=
  tally_append _

theorem count_advance {s : Session} {i : ℕ} {t : Thread} (ht : s.threads[i]? = some t) (f : Pc → ℕ)
    (op : Op) (pc : Pc) (started : List Pc) :
    (s.advance i t op pc started).count f+f t.pc = s.count f+f pc+tally f started := by
  have hset := tally_set (fun t : Thread => f t.pc) (b := ⟨t.ctx,pc⟩) ht
  have hstarted : tally (fun t : Thread => f t.pc) (started.map (Thread.mk t.ctx)) =
      tally f started := by
    simp only [tally,List.map_map]
    rfl
  simp only [Session.count,Session.advance,tally_append_list,hstarted] at hset ⊢
  omega

end BaturWhatsApi.SessionLifecycle
