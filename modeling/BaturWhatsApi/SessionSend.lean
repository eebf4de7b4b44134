import BaturWhatsApi.NoiseCipher
import BaturWhatsApi.NodeEncoder
import BaturWhatsApi.Runs

/-!
# Concurrent senders

`Send` of `session/session.go` on an online session, over the in-memory pipe of
`transport/pipe.go` or the client side of `transport/ws/ws.go`. Any number of calls
run at the same time and interleave between taking the lock, sealing, and handing the
frame to the transport. The transport accepts a frame, waits, or fails, and only a
failed socket write closes the connection.

Sealing moves the counter of the cipher before the transport has taken the frame. A
frame that is refused leaves a gap, and from then on the peer opens every frame with
another counter than the one it was sealed with.
-/
namespace BaturWhatsApi.SessionSend
open ByteStrings TokenDictionary NodeModel NodeEncoder NoiseCipher Runs

variable {N : NoiseSuite}

/-! ### The transports -/

inductive SendError where
  | closed
  | context
  | frameTooLarge
  | maskKey
  | write
deriving DecidableEq, Repr

inductive Kind where
  | pipe | ws
deriving DecidableEq, Repr

/-- What happens around a call of `SendBinary`. -/
inductive Circumstance where
  | fine
  | contextDone
  | noMaskKey
  | writeFails
deriving DecidableEq, Repr

/-- The accepted frames stand in order, each with the call that sent it. -/
structure Conn where
  kind : Kind
  closed : Bool := false
  wire : List (ℕ × Bytes) := []
  received : ℕ := 0

def pipeCapacity : ℕ := 64

def maxFrameSize : ℕ := 16 <<< 20

def Conn.accept (c : Conn) (call : ℕ) (frame : Bytes) : Conn :=
  {c with wire := c.wire++[(call,frame)]}

/-- There is no outcome while a pipe is full. -/
def Conn.sendBinary (c : Conn) (call : ℕ) (frame : Bytes) (how : Circumstance) :
    Option (Option SendError × Conn) :=
  match c.kind with
  | .pipe =>
      if c.closed then some (some .closed,c)
      else match how with
        | .contextDone => some (some .context,c)
        | _ =>
            if c.wire.length-c.received < pipeCapacity then some (none,c.accept call frame)
            else none
  | .ws =>
      if frame.length > maxFrameSize then some (some .frameTooLarge,c)
      else match how with
        | .noMaskKey => some (some .maskKey,c)
        | .writeFails => some (some .write,{c with closed := true})
        | _ => if c.closed then some (some .write,c) else some (none,c.accept call frame)

def Conn.receive (c : Conn) : Conn := {c with received := min (c.received+1) c.wire.length}

/-- The frame is the next one of an open connection, or it is not on the wire. -/
theorem sendBinary_outcome {c c' : Conn} {call : ℕ} {frame : Bytes} {how : Circumstance}
    {err : Option SendError} (h : c.sendBinary call frame how = some (err,c')) :
    (err = none ∧ c.closed = false ∧ c' = c.accept call frame) ∨
      (err.isSome = true ∧ c'.wire = c.wire) := by
  unfold Conn.sendBinary at h
  split at h
  · split at h
    · cases h
      exact .inr ⟨rfl,rfl⟩
    · rename_i hclosed
      split at h
      · cases h
        exact .inr ⟨rfl,rfl⟩
      · split at h
        · cases h
          exact .inl ⟨rfl,by simpa using hclosed,rfl⟩
        · cases h
  · split at h
    · cases h
      exact .inr ⟨rfl,rfl⟩
    · split at h
      · cases h
        exact .inr ⟨rfl,rfl⟩
      · cases h
        exact .inr ⟨rfl,rfl⟩
      · split at h
        · cases h
          exact .inr ⟨rfl,rfl⟩
        · rename_i hclosed
          cases h
          exact .inl ⟨rfl,by simpa using hclosed,rfl⟩

/-! ### The senders -/

inductive Call where
  | idle
  | marshalled (plain : Bytes)
  | locked (plain : Bytes)
  | sealed (plain ct : Bytes)
  | returned (plain : Bytes) (err : Option SendError)
deriving DecidableEq, Repr

structure Senders (N : NoiseSuite) where
  send : Cipher N
  conn : Conn
  writeMu : Option ℕ
  calls : ℕ → Call
  /-- Some `SendBinary` has failed. -/
  failed : Bool

inductive Event where
  | start (call : ℕ) (n : Node)
  | lock (call : ℕ)
  | sealFrame (call : ℕ)
  | sendBinary (call : ℕ) (how : Circumstance)
  | receive
  | close

def online (key : N.Secret) (kind : Kind) : Senders N :=
  {send := newCipher key,conn := {kind := kind},writeMu := none,calls := fun _ => .idle,
   failed := false}

def Senders.put (s : Senders N) (i : ℕ) (c : Call) : Senders N :=
  {s with calls := Function.update s.calls i c}

def Senders.step (dict : Dictionary) (s : Senders N) : Event → Senders N
  | .start i n =>
      match s.calls i with
      | .idle => s.put i (.marshalled (marshalDict n dict))
      | _ => s
  | .lock i =>
      match s.calls i,s.writeMu with
      | .marshalled plain,none => {s.put i (.locked plain) with writeMu := some i}
      | _,_ => s
  | .sealFrame i =>
      match s.calls i with
      | .locked plain =>
          {s.put i (.sealed plain (s.send.seal plain).1) with send := (s.send.seal plain).2}
      | _ => s
  | .sendBinary i how =>
      match s.calls i with
      | .sealed plain ct =>
          match s.conn.sendBinary i ct how with
          | none => s
          | some (err,conn) =>
              {s.put i (.returned plain err) with
               conn := conn
               writeMu := none
               failed := s.failed || err.isSome}
      | _ => s
  | .receive => {s with conn := s.conn.receive}
  | .close => {s with conn := {s.conn with closed := true}}

/-- Nothing is sent on an open connection after a frame was refused there. -/
def Senders.Steady (s : Senders N) : Event → Prop
  | .sendBinary _ _ => s.failed = true → s.conn.closed = true
  | _ => True

/-- The peer opens one frame after the other. -/
def openAll : Cipher N → List Bytes → List (Option Bytes)
  | _,[] => []
  | c,f::fs => (c.open f).1::openAll (c.open f).2 fs

theorem openAll_getElem (c : Cipher N) (fs : List Bytes) (k : ℕ) :
    (openAll c fs)[k]? = fs[k]?.map fun f => ((c.later k).open f).1 := by
  induction fs generalizing c k with
  | nil => rfl
  | cons f fs ih =>
      cases k with
      | zero => simp only [openAll,List.getElem?_cons_zero,Option.map_some,Cipher.later_zero]
      | succ k =>
          have hnext : (c.open f).2.later k = c.later (k+1) := Cipher.later_next c k
          rw [openAll,List.getElem?_cons_succ,List.getElem?_cons_succ,ih,hnext]

/-! ### The invariant -/

def Call.inside : Call → Bool
  | .locked _ => true
  | .sealed _ _ => true
  | _ => false

/-- What holds in a session whose peer starts with the same cipher `c`. -/
structure Senders.Inv (c : Cipher N) (s : Senders N) : Prop where
  excluded : ∀ i, (s.calls i).inside = true → s.writeMu = some i
  /-- Outside a call that has sealed, the counter is the number of frames on the wire. -/
  counted : s.failed = false → (∀ i plain ct, s.calls i ≠ .sealed plain ct) →
    s.send = c.later s.conn.wire.length
  next : s.failed = false → ∀ i plain ct, s.calls i = .sealed plain ct →
    ct = ((c.later s.conn.wire.length).seal plain).1 ∧ s.send = c.later (s.conn.wire.length+1)
  placed : ∀ i plain, s.calls i = .returned plain none →
    ∃ k, s.conn.wire[k]? = some (i,((c.later k).seal plain).1)

theorem inv_online (key : N.Secret) (kind : Kind) : (online key kind).Inv (newCipher key) where
  excluded _ h := by cases h
  counted _ _ := (Cipher.later_zero _).symm
  next _ _ _ _ h := by cases h
  placed _ _ h := by cases h

theorem put_calls (s : Senders N) (i j : ℕ) (x : Call) :
    (s.put i x).calls j = if j = i then x else s.calls j := by
  simp only [Senders.put,Function.update_apply]

/-- A new state of one call is read off, an old state was there before. -/
theorem put_cases {s : Senders N} {i j : ℕ} {x y : Call} (h : (s.put i x).calls j = y) :
    (j = i ∧ x = y) ∨ (j ≠ i ∧ s.calls j = y) := by
  rw [put_calls] at h
  split_ifs at h with hji
  · exact .inl ⟨hji,h⟩
  · exact .inr ⟨hji,h⟩

section
variable {c : Cipher N} {s : Senders N}

/-- Only the call that holds the lock is inside. -/
theorem Senders.Inv.alone (h : s.Inv c) {i j : ℕ} (hi : (s.calls i).inside = true)
    (hji : j ≠ i) : (s.calls j).inside = false := by
  cases hj : (s.calls j).inside with
  | false => rfl
  | true => exact absurd (Option.some.inj ((h.excluded j hj).symm.trans (h.excluded i hi))) hji

theorem Senders.Inv.unsealed (h : s.Inv c) {i j : ℕ} (hi : (s.calls i).inside = true)
    (hji : j ≠ i) (plain ct : Bytes) : s.calls j ≠ .sealed plain ct := by
  intro hj
  have hout := h.alone hi hji
  rw [hj] at hout
  cases hout

/-- A call that has not sealed goes on without sealing or returning. -/
theorem Senders.Inv.quiet (h : s.Inv c) {i : ℕ} {x : Call} (lock : Option ℕ)
    (hi : ∀ plain ct, s.calls i ≠ .sealed plain ct) (hsealed : ∀ plain ct, x ≠ .sealed plain ct)
    (hreturned : ∀ plain, x ≠ .returned plain none)
    (hlock : ∀ j, ((s.put i x).calls j).inside = true → lock = some j) :
    Senders.Inv c {s.put i x with writeMu := lock} where
  excluded := hlock
  counted hok hnone := by
    apply h.counted hok
    intro j plain ct hj
    apply hnone j plain ct
    have hji : j ≠ i := fun hji => hi plain ct (hji ▸ hj)
    show (s.put i x).calls j = _
    rw [put_calls,if_neg hji,hj]
  next hok j plain ct hj := by
    rcases put_cases hj with ⟨_,hx⟩ | ⟨_,hx⟩
    · exact absurd hx (hsealed plain ct)
    · exact h.next hok j plain ct hx
  placed j plain hj := by
    rcases put_cases hj with ⟨_,hx⟩ | ⟨_,hx⟩
    · exact absurd hx (hreturned plain)
    · exact h.placed j plain hx

theorem Senders.Inv.start (h : s.Inv c) {i : ℕ} (hi : s.calls i = .idle) (plain : Bytes) :
    (s.put i (.marshalled plain)).Inv c := by
  apply h.quiet s.writeMu <;> try simp [hi]
  intro j hj
  rw [put_calls] at hj
  split_ifs at hj
  · cases hj
  · exact h.excluded j hj

theorem Senders.Inv.lock (h : s.Inv c) {i : ℕ} {plain : Bytes} (hi : s.calls i = .marshalled plain)
    (hfree : s.writeMu = none) :
    Senders.Inv c {s.put i (.locked plain) with writeMu := some i} := by
  apply h.quiet (some i) <;> try simp [hi]
  intro j hj
  rw [put_calls] at hj
  split_ifs at hj with hji
  · exact hji.symm
  · cases hfree.symm.trans (h.excluded j hj)

theorem Senders.Inv.seals (h : s.Inv c) {i : ℕ} {plain : Bytes} (hi : s.calls i = .locked plain) :
    Senders.Inv c {s.put i (.sealed plain (s.send.seal plain).1) with
      send := (s.send.seal plain).2} := by
  have hin : (s.calls i).inside = true := by rw [hi]; rfl
  have hsend : s.failed = false → s.send = c.later s.conn.wire.length := by
    intro hok
    apply h.counted hok
    intro j plain' ct hj
    by_cases hji : j = i
    · rw [hji,hi] at hj
      cases hj
    · exact h.unsealed hin hji plain' ct hj
  refine ⟨?_,?_,?_,?_⟩
  · intro j hj
    have hj' : ((s.put i (.sealed plain (s.send.seal plain).1)).calls j).inside = true := hj
    rw [put_calls] at hj'
    split_ifs at hj' with hji
    · rw [hji]
      exact h.excluded i hin
    · exact h.excluded j hj'
  · intro _ hnone
    exact absurd (by rw [put_calls,if_pos rfl] :
      (s.put i (.sealed plain (s.send.seal plain).1)).calls i = _) (hnone i plain _)
  · intro hok j plain' ct hj
    rcases put_cases hj with ⟨_,hx⟩ | ⟨hji,hx⟩
    · cases hx
      show (s.send.seal plain).1 = _ ∧ (s.send.seal plain).2 = _
      rw [hsend hok]
      exact ⟨rfl,c.later_seal _ plain⟩
    · exact absurd hx (h.unsealed hin hji plain' ct)
  · intro j plain' hj
    rcases put_cases hj with ⟨_,hx⟩ | ⟨_,hx⟩
    · cases hx
    · exact h.placed j plain' hx

theorem Senders.Inv.returns (h : s.Inv c) {i : ℕ} {plain ct : Bytes} {how : Circumstance}
    {err : Option SendError} {conn : Conn} (hi : s.calls i = .sealed plain ct)
    (hsteady : s.failed = true → s.conn.closed = true)
    (hsend : s.conn.sendBinary i ct how = some (err,conn)) :
    Senders.Inv c {s.put i (.returned plain err) with
      conn := conn,writeMu := none,failed := s.failed || err.isSome} := by
  have hin : (s.calls i).inside = true := by rw [hi]; rfl
  have hexcluded : ∀ j, ((s.put i (.returned plain err)).calls j).inside = true →
      none = some j := by
    intro j hj
    rw [put_calls] at hj
    split_ifs at hj with hji
    · cases hj
    · rw [h.alone hin hji] at hj
      cases hj
  have hnext : ∀ j plain' ct', (s.put i (.returned plain err)).calls j ≠ .sealed plain' ct' := by
    intro j plain' ct' hj
    rcases put_cases hj with ⟨_,hx⟩ | ⟨hji,hx⟩
    · cases hx
    · exact h.unsealed hin hji plain' ct' hx
  rcases sendBinary_outcome hsend with ⟨rfl,hopen,rfl⟩ | ⟨herr,hwire⟩
  · -- the frame was accepted, so no earlier one was refused
    have hok : s.failed = false := by
      cases hf : s.failed with
      | false => rfl
      | true => cases hopen.symm.trans (hsteady hf)
    obtain ⟨hct,hcount⟩ := h.next hok i plain ct hi
    refine ⟨hexcluded,?_,fun _ j plain' ct' hj => absurd hj (hnext j plain' ct'),?_⟩
    · intro _ _
      show s.send = c.later (s.conn.wire++[(i,ct)]).length
      rw [List.length_append]
      exact hcount
    · intro j plain' hj
      rcases put_cases hj with ⟨rfl,hx⟩ | ⟨_,hx⟩
      · cases hx
        refine ⟨s.conn.wire.length,?_⟩
        show (s.conn.wire++[(j,ct)])[s.conn.wire.length]? = _
        rw [List.getElem?_concat_length,hct]
      · obtain ⟨k,hk⟩ := h.placed j plain' hx
        refine ⟨k,?_⟩
        show (s.conn.wire++[(i,ct)])[k]? = _
        rw [List.getElem?_append_left (List.getElem?_eq_some_iff.mp hk).1,hk]
  · refine ⟨hexcluded,?_,fun _ j plain' ct' hj => absurd hj (hnext j plain' ct'),?_⟩
    · intro hok _
      rw [herr,Bool.or_true] at hok
      cases hok
    · intro j plain' hj
      rcases put_cases hj with ⟨_,hx⟩ | ⟨_,hx⟩
      · cases hx
        cases herr
      · rw [hwire]
        exact h.placed j plain' hx

theorem Senders.Inv.step (h : s.Inv c) (dict : Dictionary) (ev : Event) (hsteady : s.Steady ev) :
    (s.step dict ev).Inv c := by
  cases ev with
  | start i n =>
      dsimp only [Senders.step]
      split
      · rename_i hi
        exact h.start hi _
      · exact h
  | lock i =>
      dsimp only [Senders.step]
      split
      · rename_i hi hfree
        exact h.lock hi hfree
      · exact h
  | sealFrame i =>
      dsimp only [Senders.step]
      split
      · rename_i hi
        exact h.seals hi
      · exact h
  | sendBinary i how =>
      dsimp only [Senders.step]
      split
      · rename_i hi
        split
        · exact h
        · rename_i hsend
          exact h.returns hi hsteady hsend
      · exact h
  | receive => exact ⟨h.excluded,h.counted,h.next,h.placed⟩
  | close => exact ⟨h.excluded,h.counted,h.next,h.placed⟩

end

/-- A frame whose `Send` returned no error is opened by the peer, if nothing is sent after a
refused frame. -/
theorem sent_frames_opened (hN : N.Correct) (dict : Dictionary) (key : N.Secret) (kind : Kind)
    (evs : List Event) (h : Along (Senders.step dict) Senders.Steady evs (online key kind)) :
    let s := run (Senders.step dict) evs (online key kind)
    ∀ i plain, s.calls i = .returned plain none →
      ∃ (k : ℕ) (ct : Bytes), s.conn.wire[k]? = some (i,ct) ∧
        (openAll (newCipher key) (s.conn.wire.map Prod.snd))[k]? = some (some plain) := by
  intro s i plain hi
  have hinv : s.Inv (newCipher key) :=
    h.invariant (fun s ev hI hP => hI.step dict ev hP) (inv_online key kind)
  obtain ⟨k,hk⟩ := hinv.placed i plain hi
  refine ⟨k,_,hk,?_⟩
  rw [openAll_getElem,List.getElem?_map,hk,Option.map_some,Option.map_some,Cipher.open_seal hN]

/-! Two calls that interleave, and two of which the first is refused. -/

instance (s : Senders N) (ev : Event) : Decidable (s.Steady ev) := by
  unfold Senders.Steady
  cases ev <;> infer_instance

def noTokens : Dictionary := ⟨0,[],[],indexSingle [],indexDouble [],rfl,rfl,by decide,by decide⟩

def ping : Node := .mk (text "a") [] .nil

def interleaved : List Event :=
  [.start 0 ping,.start 1 ping,.lock 1,.sealFrame 1,.lock 0,.sendBinary 1 .fine,.lock 0,
    .sealFrame 0,.sendBinary 0 .fine]

def pipeRun (evs : List Event) : Senders symbolic :=
  run (Senders.step noTokens) evs (online (N := symbolic) .nil .pipe)

theorem sent_frames_opened_interleaved : ∃ (k : ℕ) (ct : Bytes),
    (pipeRun interleaved).conn.wire[k]? = some (0,ct) ∧
    (openAll (newCipher (N := symbolic) .nil) ((pipeRun interleaved).conn.wire.map Prod.snd))[k]? =
      some (some (marshalDict ping noTokens)) :=
  sent_frames_opened symbolic_correct noTokens .nil .pipe interleaved
    (by decide +kernel) 0 _ (by decide +kernel)

def expired : List Event :=
  [.start 0 ping,.lock 0,.sealFrame 0,.sendBinary 0 .contextDone,.start 1 ping,.lock 1,.sealFrame 1,
    .sendBinary 1 .fine]

/-- The second call returned no error, and its frame is the only one the peer receives. -/
theorem sent_frame_unopened :
    (pipeRun expired).calls 1 = .returned (marshalDict ping noTokens) none ∧
    ((pipeRun expired).conn.wire.map Prod.fst = [1]) ∧
    openAll (newCipher (N := symbolic) .nil) ((pipeRun expired).conn.wire.map Prod.snd) =
      [none] := by
  decide +kernel

end BaturWhatsApi.SessionSend
