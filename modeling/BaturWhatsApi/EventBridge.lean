import BaturWhatsApi.NodeModel
import BaturWhatsApi.Runs
import BaturWhatsApi.Traces

/-!
# The event bridge

`loop`, `stream` and `wants` of `apiserver/wsbridge.go`. The loop reads commands, changes the
filter under its lock and then writes the result; the stream takes an event, asks the filter and
then writes the event. Between the question and the write the filter can change and the result of
the change be written, so that an event follows the result that should have stopped it.

The trace has the frames as they are written, and a command at the moment it is carried out.
-/
namespace BaturWhatsApi.EventBridge
open ByteStrings NodeModel Runs Traces

/-! ### Events and the filter -/

inductive Data where
  | node (n : Node)
  | message (chat : Bytes)
  | other

structure BusEvent where
  seq : UInt64
  type : Bytes
  session : Bytes
  data : Data

def evChat (ev : BusEvent) : Bytes :=
  match ev.data with
  | .node n => ((n.stringAttr (text "from")).or (n.stringAttr (text "to"))).getD []
  | .message chat => chat
  | .other => []

structure Filter where
  enabled : Bool := false
  session : Bytes := []
  chat : Bytes := []
deriving DecidableEq, Repr

def Filter.wants (f : Filter) (ev : BusEvent) : Bool :=
  if !f.enabled then false
  else if f.session ≠ [] ∧ ev.session ≠ f.session then false
  else if f.chat ≠ [] ∧ evChat ev ≠ f.chat then false
  else true

/-- The event is of the session and the chat, where they are given. -/
def Matches (session chat : Bytes) (ev : BusEvent) : Prop :=
  (session ≠ [] → ev.session = session) ∧ (chat ≠ [] → evChat ev = chat)

theorem wants_iff (f : Filter) (ev : BusEvent) :
    f.wants ev = true ↔ f.enabled = true ∧ Matches f.session f.chat ev := by
  rw [Filter.wants,Matches]
  split_ifs with h₁ h₂ h₃
  · simp_all
  · simp_all
  · simp_all
  · simp_all

/-! ### Commands and frames -/

structure WsCommand where
  op : Bytes
  session : Bytes := []
  dest : Bytes := []
  text : Bytes := []
  jid : Bytes := []

structure WsEnvelope where
  type : Bytes
  op : Bytes := []
  ok : Bool := false
  id : Bytes := []
  session : Bytes := []
  error : Bytes := []
deriving DecidableEq, Repr

def subscribed (session jid : Bytes) : WsEnvelope where
  type := text "result"
  op := text "subscribe"
  ok := true
  id := jid
  session := session

def unsubscribed : WsEnvelope where
  type := text "result"
  op := text "unsubscribe"
  ok := true

def badCommand : WsEnvelope where
  type := text "error"
  error := text "bad command frame"

theorem subscribed_ne_unsubscribed (session jid : Bytes) :
    subscribed session jid ≠ unsubscribed := by
  intro h
  have hop : text "subscribe" = text "unsubscribe" := congrArg WsEnvelope.op h
  exact absurd hop (by decide)

/-- The frame for a command, with what the engine returns for `send` and `sync`. -/
def answer (cmd : WsCommand) (id : Bytes) (err : Option Bytes) : WsEnvelope :=
  if cmd.op = text "ping" then {type := text "pong"}
  else if cmd.op = text "send" then
    if cmd.session = [] ∨ cmd.dest = [] then
      {type := text "result",op := text "send",error := text "session and to required"}
    else {type := text "result",op := text "send",ok := err.isNone,id := id,error := err.getD []}
  else if cmd.op = text "sync" then
    {type := text "result",op := text "sync",ok := err.isNone,error := err.getD []}
  else if cmd.op = text "subscribe" then subscribed cmd.session cmd.jid
  else if cmd.op = text "unsubscribe" then unsubscribed
  else {type := text "error",error := text "unknown op "++cmd.op}

def refilter (f : Filter) (cmd : WsCommand) : Filter :=
  if cmd.op = text "subscribe" then ⟨true,cmd.session,cmd.jid⟩
  else if cmd.op = text "unsubscribe" then {}
  else f

inductive Frame where
  | hello
  | envelope (env : WsEnvelope)
  | event (ev : BusEvent)
  | ping

inductive Entry where
  | frame (f : Frame)
  | command (cmd : WsCommand)

/-! ### The bridge -/

inductive Loop where
  | reading
  /-- There is no command where the frame is not one. -/
  | received (cmd : Option WsCommand)
  | replying (env : WsEnvelope)
  | returned

inductive Stream where
  | starting
  | selecting
  | checking (ev : BusEvent)
  | writing (ev : BusEvent)
  | returned

structure Bridge where
  filter : Filter := {}
  closed : Bool := false
  loop : Loop := .reading
  stream : Stream := .starting
  ch : List BusEvent := []
  trace : List Entry := [.frame .hello]

inductive Event where
  | receive (cmd : Option WsCommand)
  | hangUp
  | act (id : Bytes) (err : Option Bytes)
  | reply (sent : Bool)
  | subscribeBus (ok : Bool)
  | deliver (ev : BusEvent)
  | take
  | check (marshals : Bool)
  | write (sent : Bool)
  | tick (sent : Bool)
  | leave

def Bridge.wrote (b : Bridge) (sent : Bool) (f : Frame) : Bridge :=
  if sent then {b with trace := b.trace++[.frame f]} else b

/-- What does not fit where the loop or the stream is does nothing. -/
def step (b : Bridge) : Event → Bridge
  | .receive cmd =>
      match b.loop with
      | .reading => {b with loop := .received cmd}
      | _ => b
  | .hangUp =>
      match b.loop with
      | .reading => {b with loop := .returned,closed := true}
      | _ => b
  | .act id err =>
      match b.loop with
      | .received cmd =>
          match cmd.filter fun cmd => cmd.op ≠ [] with
          | none => {b with loop := .replying badCommand}
          | some cmd =>
              {b with
                filter := refilter b.filter cmd
                loop := .replying (answer cmd id err)
                trace := b.trace++[.command cmd]}
      | _ => b
  | .reply sent =>
      match b.loop with
      | .replying env => {b.wrote sent (.envelope env) with loop := .reading}
      | _ => b
  | .subscribeBus ok =>
      match b.stream with
      | .starting =>
          if ok then {b with stream := .selecting}
          else {b with stream := .returned,closed := true}
      | _ => b
  -- the handler of the bus
  | .deliver ev =>
      match b.stream with
      | .starting => b
      | _ => if b.ch.length < 256 then {b with ch := b.ch++[ev]} else b
  | .take =>
      match b.stream,b.ch with
      | .selecting,ev::ch => {b with stream := .checking ev,ch := ch}
      | _,_ => b
  | .check marshals =>
      match b.stream with
      | .checking ev =>
          {b with stream := if b.filter.wants ev && marshals then .writing ev else .selecting}
      | _ => b
  | .write sent =>
      match b.stream with
      | .writing ev =>
          {b.wrote sent (.event ev) with stream := if sent then .selecting else .returned}
      | _ => b
  | .tick sent =>
      match b.stream with
      | .selecting => b.wrote sent .ping
      | _ => b
  | .leave =>
      match b.stream with
      | .selecting => if b.closed then {b with stream := .returned} else b
      | _ => b

/-! ### What the client is promised -/

def Subscribes : Entry → Prop
  | .command cmd => cmd.op = text "subscribe"
  | .frame _ => False

/-- A command that changes the filter. -/
def Refilters : Entry → Prop
  | .command cmd => cmd.op = text "subscribe" ∨ cmd.op = text "unsubscribe"
  | .frame _ => False

def written (env : WsEnvelope) : Entry := .frame (.envelope env)

/-- An event may come after the trace: no unsubscription is in force, and a subscription that is
    in force is for such events. -/
def Allowed (trace : List Entry) (e : Entry) : Prop :=
  ∀ ev, e = .frame (.event ev) →
    ¬Since (written unsubscribed) Subscribes trace ∧
    ∀ session jid, Since (written (subscribed session jid)) Refilters trace → Matches session jid ev

def Obeyed (trace : List Entry) : Prop := Checked Allowed trace

/-- What the stream is about to write is still wanted. -/
def Bridge.settled (b : Bridge) : Bool :=
  match b.stream with
  | .writing ev => b.filter.wants ev
  | _ => true

/-- The loop is about to write the result of a change of the filter. -/
def Bridge.refiltered (b : Bridge) : Bool :=
  match b.loop with
  | .replying env => env.op = text "subscribe" || env.op = text "unsubscribe"
  | _ => false

/-- The result of a change of the filter is written when no event that passed an earlier filter
    waits to be written, unless it passes the new one too. -/
def Acknowledges (b : Bridge) : Event → Prop
  | .reply sent => sent = true → b.refiltered = true → b.settled = true
  | _ => True

instance (b : Bridge) (e : Event) : Decidable (Acknowledges b e) :=
  match e with
  | .reply sent =>
      inferInstanceAs (Decidable (sent = true → b.refiltered = true → b.settled = true))
  | .receive _ | .hangUp | .act _ _ | .subscribeBus _ | .deliver _ | .take | .check _ | .write _
  | .tick _ | .leave => .isTrue trivial

/-! ### One step -/

/-- What a step does to the filter, the loop, the stream and the trace. -/
inductive Outcome (b : Bridge) : Event → Bridge → Prop
  /-- Nothing is written, and an event that now waits to be written is wanted. -/
  | silent {e : Event} {b' : Bridge} (hfilter : b'.filter = b.filter) (htrace : b'.trace = b.trace)
      (hloop : ∀ env, b'.loop = .replying env → b.loop = .replying env ∨ env = badCommand)
      (hstream : ∀ ev, b'.stream = .writing ev →
        b.stream = .writing ev ∨ b.filter.wants ev = true) : Outcome b e b'
  | acted {e : Event} (cmd : WsCommand) (id : Bytes) (err : Option Bytes) :
      Outcome b e
        {b with
          filter := refilter b.filter cmd
          loop := .replying (answer cmd id err)
          trace := b.trace++[.command cmd]}
  | replied (env : WsEnvelope) (h : b.loop = .replying env) :
      Outcome b (.reply true) {b with loop := .reading,trace := b.trace++[written env]}
  | wrote {e : Event} (ev : BusEvent) (h : b.stream = .writing ev) :
      Outcome b e {b with stream := .selecting,trace := b.trace++[.frame (.event ev)]}
  | pinged {e : Event} : Outcome b e {b with trace := b.trace++[.frame .ping]}

section
variable {b : Bridge} {e : Event}

theorem Outcome.unchanged : Outcome b e b :=
  .silent rfl rfl (fun _ h => .inl h) (fun _ h => .inl h)

theorem Outcome.looped {l : Loop} {closed : Bool}
    (h : ∀ env, l = .replying env → env = badCommand) :
    Outcome b e {b with loop := l,closed := closed} :=
  .silent rfl rfl (fun env hl => .inr (h env hl)) (fun _ h => .inl h)

theorem Outcome.streamed {st : Stream} {ch : List BusEvent} {closed : Bool}
    (h : ∀ ev, st = .writing ev → b.stream = .writing ev ∨ b.filter.wants ev = true) :
    Outcome b e {b with stream := st,ch := ch,closed := closed} :=
  .silent rfl rfl (fun _ h => .inl h) h

end

theorem step_outcome (b : Bridge) (e : Event) : Outcome b e (step b e) := by
  cases e with
  | receive cmd =>
      rw [step]
      split
      · exact .looped (fun _ h => by cases h)
      · exact .unchanged
  | hangUp =>
      rw [step]
      split
      · exact .looped (fun _ h => by cases h)
      · exact .unchanged
  | act id err =>
      rw [step]
      split
      · split
        · exact .looped (fun _ h => by cases h; rfl)
        · exact .acted _ id err
      · exact .unchanged
  | reply sent =>
      rw [step]
      split
      · rename_i env h
        cases sent with
        | true => exact .replied env h
        | false => exact .looped (fun _ h => by cases h)
      · exact .unchanged
  | subscribeBus ok =>
      rw [step]
      split
      · split
        · exact .streamed (fun _ h => by cases h)
        · exact .streamed (fun _ h => by cases h)
      · exact .unchanged
  | deliver ev =>
      rw [step]
      split
      · exact .unchanged
      · split
        · exact .streamed (fun _ h => .inl h)
        · exact .unchanged
  | take =>
      rw [step]
      split
      · exact .streamed (fun _ h => by cases h)
      · exact .unchanged
  | check marshals =>
      rw [step]
      split
      · rename_i ev h
        refine .streamed fun ev' hev => ?_
        split at hev
        · rename_i hwants
          cases hev
          exact .inr (Bool.and_eq_true _ _ ▸ hwants).1
        · cases hev
      · exact .unchanged
  | write sent =>
      rw [step]
      split
      · rename_i ev h
        cases sent with
        | true => exact .wrote ev h
        | false => exact .streamed (fun _ h => by cases h)
      · exact .unchanged
  | tick sent =>
      rw [step]
      split
      · cases sent with
        | true => exact .pinged
        | false => exact .unchanged
      · exact .unchanged
  | leave =>
      rw [step]
      split
      · split
        · exact .streamed (fun _ h => by cases h)
        · exact .unchanged
      · exact .unchanged

/-! ### Every run -/

/-- The result that the loop is about to write tells of the filter as it is. -/
structure Answers (env : WsEnvelope) (f : Filter) : Prop where
  off : env = unsubscribed → f.enabled = false
  on : ∀ session jid, env = subscribed session jid → f = ⟨true,session,jid⟩

structure Sound (b : Bridge) : Prop where
  answered : ∀ env, b.loop = .replying env → Answers env b.filter
  /-- An unsubscription that is in force. -/
  quiet : Since (written unsubscribed) Subscribes b.trace →
    b.filter.enabled = false ∧ b.settled = true
  /-- A subscription that is in force. -/
  filtered : ∀ session jid, Since (written (subscribed session jid)) Refilters b.trace →
    b.filter = ⟨true,session,jid⟩ ∧ b.settled = true
  obeyed : Obeyed b.trace

/-- Only the commands that change the filter are answered as such. -/
theorem answer_cases (f : Filter) (cmd : WsCommand) (id : Bytes) (err : Option Bytes) :
    cmd.op = text "subscribe" ∧ answer cmd id err = subscribed cmd.session cmd.jid ∧
        refilter f cmd = ⟨true,cmd.session,cmd.jid⟩ ∨
      cmd.op = text "unsubscribe" ∧ answer cmd id err = unsubscribed ∧ refilter f cmd = {} ∨
      ¬Refilters (.command cmd) ∧ (answer cmd id err).op ∉ [text "subscribe",text "unsubscribe"] ∧
        refilter f cmd = f := by
  by_cases hsub : cmd.op = text "subscribe"
  · refine .inl ⟨hsub,?_,if_pos hsub⟩
    rw [answer,hsub,if_neg (by decide),if_neg (by decide),if_neg (by decide),if_pos rfl]
  by_cases hunsub : cmd.op = text "unsubscribe"
  · refine .inr (.inl ⟨hunsub,?_,?_⟩)
    · rw [answer,hunsub,if_neg (by decide),if_neg (by decide),if_neg (by decide),
        if_neg (by decide),if_pos rfl]
    · rw [refilter,if_neg hsub,if_pos hunsub]
  refine .inr (.inr ⟨not_or.mpr ⟨hsub,hunsub⟩,?_,?_⟩)
  · rw [answer,if_neg hsub,if_neg hunsub]
    split_ifs
    all_goals dsimp only
    all_goals decide
  · rw [refilter,if_neg hsub,if_neg hunsub]

theorem answers_of_op {env : WsEnvelope} {f : Filter}
    (h : env.op ∉ [text "subscribe",text "unsubscribe"]) : Answers env f where
  off henv := absurd (henv ▸ List.mem_cons_of_mem _ (List.mem_singleton_self _)) h
  on _ _ henv := absurd (henv ▸ List.mem_cons_self) h

theorem answer_answers (f : Filter) (cmd : WsCommand) (id : Bytes) (err : Option Bytes) :
    Answers (answer cmd id err) (refilter f cmd) := by
  rcases answer_cases f cmd id err with ⟨-,hanswer,hfilter⟩ | ⟨-,hanswer,hfilter⟩ | ⟨-,hop,-⟩
  · rw [hanswer,hfilter]
    constructor
    · intro h
      exact absurd h (subscribed_ne_unsubscribed _ _)
    · intro session jid h
      cases h
      rfl
  · rw [hanswer,hfilter]
    constructor
    · intro _
      rfl
    · intro session jid h
      exact absurd h.symm (subscribed_ne_unsubscribed _ _)
  · exact answers_of_op hop

theorem settled_iff (b : Bridge) :
    b.settled = true ↔ ∀ ev, b.stream = .writing ev → b.filter.wants ev = true := by
  rw [Bridge.settled]
  split
  · rename_i ev h
    simp [h]
  · rename_i h
    exact ⟨fun _ ev hev => absurd hev (h ev),fun _ => rfl⟩

/-- Where nothing is wanted, nothing waits to be written. -/
theorem not_writing {b : Bridge} (hoff : b.filter.enabled = false) (h : b.settled = true)
    (ev : BusEvent) : b.stream ≠ .writing ev := by
  intro hev
  have hon := ((wants_iff b.filter ev).mp ((settled_iff b).mp h ev hev)).1
  rw [hoff] at hon
  cases hon

theorem Sound.acted {b : Bridge} (h : Sound b) (cmd : WsCommand) (id : Bytes)
    (err : Option Bytes) :
    Sound {b with
      filter := refilter b.filter cmd
      loop := .replying (answer cmd id err)
      trace := b.trace++[.command cmd]} where
  answered env henv := by
    cases henv
    exact answer_answers b.filter cmd id err
  quiet hsince := by
    obtain ⟨hsince,hsub⟩ := hsince.old (fun h => by cases h)
    obtain ⟨hoff,hsettled⟩ := h.quiet hsince
    refine ⟨?_,(settled_iff _).mpr fun ev hev => absurd hev (not_writing hoff hsettled ev)⟩
    rcases answer_cases b.filter cmd id err with ⟨hop,-⟩ | ⟨-,-,hfilter⟩ | ⟨-,-,hfilter⟩
    · exact absurd hop hsub
    · exact congrArg Filter.enabled hfilter
    · exact (congrArg Filter.enabled hfilter).trans hoff
  filtered session jid hsince := by
    obtain ⟨hsince,hstays⟩ := hsince.old (fun h => by cases h)
    rcases answer_cases b.filter cmd id err with ⟨hop,-⟩ | ⟨hop,-⟩ | ⟨-,-,hfilter⟩
    · exact absurd (.inl hop) hstays
    · exact absurd (.inr hop) hstays
    · rw [hfilter]
      exact h.filtered session jid hsince
  obeyed := checked_concat h.obeyed (fun _ hev => by cases hev)

theorem Sound.replied {b : Bridge} (h : Sound b) {env : WsEnvelope} (hloop : b.loop = .replying env)
    (hack : b.refiltered = true → b.settled = true) :
    Sound {b with loop := .reading,trace := b.trace++[written env]} where
  answered env henv := by cases henv
  quiet hsince := by
    rcases since_concat.mp hsince with henv | ⟨hsince,-⟩
    · cases henv
      exact ⟨(h.answered _ hloop).off rfl,hack (by rw [Bridge.refiltered,hloop]; rfl)⟩
    · exact h.quiet hsince
  filtered session jid hsince := by
    rcases since_concat.mp hsince with henv | ⟨hsince,-⟩
    · cases henv
      exact ⟨(h.answered _ hloop).on session jid rfl,hack (by rw [Bridge.refiltered,hloop]; rfl)⟩
    · exact h.filtered session jid hsince
  obeyed := checked_concat h.obeyed (fun _ hev => by cases hev)

/-- A frame that is no answer leaves in force what is. -/
theorem Sound.framed {b b' : Bridge} (h : Sound b) {f : Frame} (hf : ∀ env, f ≠ .envelope env)
    (hfilter : b'.filter = b.filter) (hloop : b'.loop = b.loop)
    (hsettled : b.settled = true → b'.settled = true)
    (htrace : b'.trace = b.trace++[.frame f]) (hallowed : Allowed b.trace (.frame f)) :
    Sound b' := by
  have hold : ∀ {env Stops}, Since (written env) Stops b'.trace →
      Since (written env) Stops b.trace := by
    intro env Stops hsince
    rw [htrace] at hsince
    exact (hsince.old fun h => hf env (Entry.frame.inj h)).1
  constructor
  · rw [hloop,hfilter]
    exact h.answered
  · rw [hfilter]
    exact fun hsince => (h.quiet (hold hsince)).imp id hsettled
  · rw [hfilter]
    exact fun session jid hsince => (h.filtered session jid (hold hsince)).imp id hsettled
  · rw [htrace]
    exact checked_concat h.obeyed hallowed

/-- What the stream is about to write may come. -/
theorem Sound.allowed {b : Bridge} (h : Sound b) {ev : BusEvent}
    (hstream : b.stream = .writing ev) : Allowed b.trace (.frame (.event ev)) := by
  intro ev' hev
  cases hev
  constructor
  · intro hsince
    obtain ⟨hoff,hsettled⟩ := h.quiet hsince
    exact not_writing hoff hsettled ev hstream
  · intro session jid hsince
    obtain ⟨hfilter,hsettled⟩ := h.filtered session jid hsince
    have hmatch := ((wants_iff b.filter ev).mp ((settled_iff b).mp hsettled ev hstream)).2
    rwa [hfilter] at hmatch

theorem Sound.step {b : Bridge} {e : Event} (h : Sound b) (hack : Acknowledges b e) :
    Sound (step b e) := by
  have hout := step_outcome b e
  generalize EventBridge.step b e = b' at hout ⊢
  cases hout with
  | silent hfilter htrace hloop hstream =>
      have hsettled : b.settled = true → b'.settled = true := by
        intro hb
        refine (settled_iff b').mpr fun ev hev => ?_
        rw [hfilter]
        rcases hstream ev hev with hev | hwants
        · exact (settled_iff b).mp hb ev hev
        · exact hwants
      constructor
      · intro env henv
        rw [hfilter]
        rcases hloop env henv with henv | rfl
        · exact h.answered env henv
        · exact answers_of_op (by decide)
      · rw [htrace,hfilter]
        exact fun hsince => (h.quiet hsince).imp id hsettled
      · rw [htrace,hfilter]
        exact fun session jid hsince => (h.filtered session jid hsince).imp id hsettled
      · rw [htrace]
        exact h.obeyed
  | acted cmd id err => exact h.acted cmd id err
  | replied env hloop => exact h.replied hloop (hack rfl)
  | wrote ev hstream =>
      refine h.framed (fun _ h => ?_) rfl rfl (fun _ => rfl) rfl (h.allowed hstream)
      cases h
  | pinged =>
      refine h.framed (fun _ h => ?_) rfl rfl (fun hb => hb) rfl (fun _ hev => ?_)
      · cases h
      · cases hev

theorem sound_init : Sound {} where
  answered env henv := by cases henv
  quiet hsince := by cases since_singleton.mp hsince
  filtered session jid hsince := by cases since_singleton.mp hsince
  obeyed := checked_concat checked_nil (fun _ hev => by cases hev)

/-- The client gets what it was promised in every run in which results are written as they
    should be. -/
theorem filters_effective (evs : List Event) (h : Along step Acknowledges evs {}) :
    Obeyed (run step evs {}).trace :=
  (h.invariant (fun _ _ hb hack => hb.step hack) sound_init).obeyed

def greeting : BusEvent := ⟨1,text "message.in",text "main",.message (text "a@s.whatsapp.net")⟩

def subscribing : WsCommand := {op := text "subscribe"}

def unsubscribing : WsCommand := {op := text "unsubscribe"}

/-- An event passes the filter of a subscription. -/
def passing : List Event :=
  [.receive (some subscribing),.act [] none,.reply true,.subscribeBus true,.deliver greeting,
   .take,.check true]

def unsubscription : List Event := [.receive (some unsubscribing),.act [] none,.reply true]

/-- The event that passed is written after the result of the unsubscription. -/
theorem written_after_unsubscribe :
    (run step (passing++unsubscription++[.write true]) {}).trace =
      [.frame .hello,.command subscribing,written (subscribed [] []),.command unsubscribing,
       written unsubscribed,.frame (.event greeting)] ∧
    ¬Obeyed (run step (passing++unsubscription++[.write true]) {}).trace := by
  have htrace : (run step (passing++unsubscription++[.write true]) {}).trace =
      [.frame .hello,.command subscribing,written (subscribed [] []),.command unsubscribing,
       written unsubscribed,.frame (.event greeting)] := rfl
  refine ⟨htrace,fun h => ?_⟩
  rw [htrace] at h
  have hallowed := h [.frame .hello,.command subscribing,written (subscribed [] []),
    .command unsubscribing,written unsubscribed] _ [] rfl greeting rfl
  refine hallowed.1 ⟨[.frame .hello,.command subscribing,written (subscribed [] []),
    .command unsubscribing],[],rfl,fun e he => absurd he List.not_mem_nil⟩

/-- Written before the result, it is where it should be. -/
theorem written_before_unsubscribe :
    Along step Acknowledges (passing++[.write true]++unsubscription) {} ∧
    Obeyed (run step (passing++[.write true]++unsubscription) {}).trace :=
  have h : Along step Acknowledges (passing++[.write true]++unsubscription) {} := by decide +kernel
  ⟨h,filters_effective _ h⟩

end BaturWhatsApi.EventBridge
