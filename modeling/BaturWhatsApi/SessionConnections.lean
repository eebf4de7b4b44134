import BaturWhatsApi.SingleStart

/-!
# Connections of a session

A dialled connection is held by the connection task until it is published, then by the session,
and then by the call of `abort` that takes it. `abort` runs once only, so a connection that is
published after it has taken what was there is held by nobody, and the connection task does not
wait for an `abort` that another caller has begun. Otherwise every connection is closed when the
task returns.
-/
namespace BaturWhatsApi.SessionConnections
open ListCells Runs StateMachine SessionLifecycle SingleStart

/-- The goroutine has dialled the connection and not yet published it, or `abort` has taken it. -/
def holds (k : ℕ) : Pc → ℕ
  | .publishing j => if j = k then 1 else 0
  | .aborting (.dropping j) _ => if j = k then 1 else 0
  | _ => 0

/-- `abort` has set its flag and not yet taken the connection. -/
def beforeTake : Pc → ℕ
  | .aborting .closing _ | .aborting .taking _ => 1
  | _ => 0

/-- `abort` has set its flag and not yet returned. -/
def clearing : Pc → ℕ
  | .aborting .closing _ | .aborting .taking _ | .aborting (.dropping _) _ => 1
  | _ => 0

/-- A connection may still be dialled. -/
def beforeDial : Pc → ℕ
  | .checking | .loading | .starting | .launching | .connecting | .dialing => 1
  | _ => 0

/-- The connection task is past its own `abort`. -/
def done : Pc → ℕ
  | .result _ | .returned .task _ => 1
  | _ => 0

/-- The connection is the one dialled. -/
def dials (s : Shared) (k : ℕ) (op : Op) : ℕ := if op = .dial ∧ s.conns.length = k then 1 else 0

/-- The connection is the one that `abort` takes. -/
def takes (s : Shared) (k : ℕ) (op : Op) : ℕ := if op = .takeConn ∧ s.conn = some k then 1 else 0

def publishes : Pc → Bool
  | .publishing _ => true
  | _ => false

/-- The connection task comes to its own `abort`. -/
def taskAborts : Pc → Bool
  | .aborting .flag (.task _) => true
  | _ => false

/-! ### One operation -/

section
variable {s : Shared} {op : Op} {k : ℕ}

theorem conn_apply (s : Shared) (op : Op) : (s.apply op).conn = s.conn ∨
    (op = .takeConn ∧ (s.apply op).conn = none) ∨
      ∃ j, op = .publish j ∧ (s.apply op).conn = some j := by
  cases op with
  | record err => exact .inl (by rw [apply_record])
  | takeConn => exact .inr (.inl ⟨rfl,rfl⟩)
  | publish j => exact .inr (.inr ⟨j,rfl,rfl⟩)
  | _ => exact .inl rfl

theorem conns_apply (s : Shared) (op : Op) : (s.apply op).conns = s.conns ∨
    (op = .dial ∧ (s.apply op).conns = s.conns++[false]) ∨
      ∃ j, op = .closeConn j ∧ (s.apply op).conns = s.conns.set j true := by
  cases op with
  | record err => exact .inl (by rw [apply_record])
  | dial => exact .inr (.inl ⟨rfl,rfl⟩)
  | closeConn j => exact .inr (.inr ⟨j,rfl,rfl⟩)
  | _ => exact .inl rfl

theorem length_conns_apply : (s.apply op).conns.length = s.conns.length+performs .dial op := by
  cases op with
  | record err => simp [apply_record,performs]
  | _ => simp [Shared.apply,performs]

/-- An open connection was open before, or has just been dialled. -/
theorem open_apply (h : (s.apply op).conns[k]? = some false) :
    (s.conns[k]? = some false ∧ op ≠ .closeConn k) ∨ op = .dial ∧ k = s.conns.length := by
  rcases conns_apply s op with hsame | ⟨rfl,hdial⟩ | ⟨j,rfl,hclose⟩
  · rw [hsame] at h
    refine .inl ⟨h,?_⟩
    rintro rfl
    have hlt := (List.getElem?_eq_some_iff.mp h).1
    rw [← hsame] at h
    simp [Shared.apply,hlt] at h
  · rw [hdial] at h
    rcases getElem?_append_cases h with ⟨hk,-⟩ | hold
    · exact .inr ⟨rfl,hk⟩
    · exact .inl ⟨hold,Op.noConfusion⟩
  · rw [hclose] at h
    rcases getElem?_set_cases h with ⟨-,hclosed⟩ | ⟨hne,hold⟩
    · cases hclosed
    · refine .inl ⟨hold,?_⟩
      intro heq
      exact hne (Op.closeConn.inj heq).symm

end

/-! ### One step of a program -/

section
variable {s : Shared} {dead : Bool} {pc pc' : Pc} {choice : Choice} {op : Op} {started : List Pc}

theorem holds_fail (k : ℕ) (caller : FailCaller) : holds k caller.resume = 0 := by
  cases caller <;> rfl

theorem holds_abort (k : ℕ) (caller : AbortCaller) : holds k caller.resume = 0 := by
  cases caller <;> rfl

theorem resume_fail (caller : FailCaller) : beforeTake caller.resume = 0 ∧
    clearing caller.resume = 0 ∧ beforeDial caller.resume = 0 ∧ done caller.resume = 0 := by
  cases caller <;> exact ⟨rfl,rfl,rfl,rfl⟩

theorem resume_abort (caller : AbortCaller) : beforeTake caller.resume = 0 ∧
    clearing caller.resume = 0 ∧ beforeDial caller.resume = 0 := by
  cases caller <;> exact ⟨rfl,rfl,rfl⟩

/-- A connection comes to a goroutine by its dial or by `abort`, and leaves it by being published
or closed. -/
theorem next_holds (k : ℕ) (h : next s dead pc choice = some (op,pc',started)) :
    holds k pc'+tally (holds k) started+performs (.publish k) op+performs (.closeConn k) op =
      holds k pc+dials s k op+takes s k op := by
  revert h
  fun_cases next s dead pc choice <;> intro h <;> cases h
  all_goals try simp only [holds_fail,holds_abort]
  all_goals simp_all [holds,performs,dials,takes,tally]

theorem next_publish {k : ℕ} (h : next s dead pc choice = some (.publish k,pc',started)) :
    pc = .publishing k := by
  revert h
  fun_cases next s dead pc choice <;> intro h <;> cases h
  rfl

theorem next_clearing (h : next s dead pc choice = some (op,pc',started)) :
    (performs .dial op+beforeDial pc'+tally beforeDial started ≤ beforeDial pc) ∧
      clearing pc'+tally clearing started ≤ clearing pc+performs .markAbort op ∧
      beforeTake pc'+tally beforeTake started+performs .takeConn op =
        beforeTake pc+performs .markAbort op := by
  revert h
  fun_cases next s dead pc choice <;> intro h <;> cases h
  all_goals try simp only [resume_fail,resume_abort]
  all_goals simp [beforeDial,clearing,beforeTake,performs,tally]

theorem taskAborts_of_done {caller : AbortCaller} (h : 0 < done caller.resume) :
    taskAborts (.aborting .flag caller) = true := by
  cases caller with
  | task err => rfl
  | _ => cases h

/-- The connection task comes past its own `abort` when it finds the flag set or has run it. -/
theorem next_done (h : next s dead pc choice = some (op,pc',started)) :
    tally done started = 0 ∧ (0 < done pc' → 0 < done pc ∨
      (taskAborts pc = true ∧ s.stopRequested = true) ∨
        clearing pc = 1 ∧ clearing pc'+tally clearing started = 0) := by
  revert h
  fun_cases next s dead pc choice <;> intro h <;> cases h
  all_goals try simp only [resume_fail,resume_abort]
  all_goals
    first
    | exact ⟨rfl,fun hdone => .inr (.inl ⟨taskAborts_of_done hdone,‹_›⟩)⟩
    | simp_all [done,clearing,tally]

end

/-! ### Whole runs -/

structure Held (s : Session) : Prop where
  dialled : s.shared.conns.length+s.count beforeDial ≤ 1
  cleared : s.count clearing ≤ s.shared.stopRequested.toNat
  known : ∀ k, 0 < s.count (holds k) ∨ s.shared.conn = some k → k < s.shared.conns.length
  held : ∀ k, s.shared.conns[k]? = some false → 0 < s.count (holds k) ∨
    s.shared.conn = some k ∧ (s.shared.stopRequested = false ∨ 0 < s.count beforeTake)
  finished : 0 < s.count done → s.shared.stopRequested = true ∧ s.count clearing = 0

/-- A dialled connection is published only while no `abort` has taken what was published before,
and the connection task comes to an `abort` that has begun only when it has ended. -/
structure Orderly (s : Session) (ev : Event) : Prop where
  publishes : (movedPc s ev).any publishes = true → s.shared.stopRequested = true →
    0 < s.count beforeTake
  aborts : (movedPc s ev).any taskAborts = true → s.shared.stopRequested = true →
    s.count clearing = 0

instance (s : Session) (ev : Event) : Decidable (Orderly s ev) :=
  decidable_of_iff (_ ∧ _) ⟨fun h => ⟨h.1,h.2⟩,fun h => ⟨h.1,h.2⟩⟩

/-- If the connection task has returned, every connection that was dialled is closed. -/
def ClosedOnReturn (s : Session) : Prop :=
  (∃ t ∈ s.threads, ∃ err, t.pc = .returned .task err) → ∀ closed ∈ s.shared.conns, closed = true

/-- The connection task past its `abort` holds no connection. -/
theorem holds_done (k : ℕ) (pc : Pc) : holds k pc+done pc ≤ clearing pc+life pc := by
  have hlife : (early pc = true ∨ pc.role = .task) → life pc = 1 := fun h => if_pos h
  fun_cases done pc
  · simp [holds,hlife (.inr rfl)]
  · simp [holds,hlife (.inr rfl)]
  · fun_cases holds k pc
    all_goals simp_all [clearing,Pc.role]

theorem Held.closedOnReturn {s : Session} (h : Held s) (hsingle : Single s) : ClosedOnReturn s := by
  rintro ⟨t,ht,err,hpc⟩ closed hclosed
  by_contra hopen
  have hopen : closed = false := by simpa using hopen
  obtain ⟨k,hk⟩ := List.getElem?_of_mem hclosed
  have hdone : 0 < s.count done := count_pos ht (by rw [hpc]; exact Nat.one_pos)
  obtain ⟨hflag,hclear⟩ := h.finished hdone
  have hsum := count_le_count (holds_done k) s
  rw [count_add,count_add] at hsum
  have honce := hsingle.once
  have hbefore : s.count beforeTake ≤ s.count clearing := by
    apply count_le_count
    intro pc
    fun_cases beforeTake pc <;> simp [clearing]
  rcases h.held k (hopen ▸ hk) with hheld | ⟨-,hunset | htake⟩
  · omega
  · rw [hflag] at hunset
    cases hunset
  · omega

section
variable {s : Session} {i : ℕ} {choice : Choice} {t : Thread} {op : Op} {pc : Pc}
  {started : List Pc}

theorem holds_of_publish {k : ℕ} (ht : s.threads[i]? = some t)
    (hnext : next s.shared (s.shared.cancelled.contains t.ctx) t.pc choice =
      some (.publish k,pc,started)) : 0 < s.count (holds k) := by
  apply count_pos (List.mem_of_getElem? ht)
  rw [next_publish hnext]
  simp [holds]

/-- A connection that was held before the step is held after it. -/
theorem Held.held_goes (h : Held s) (ht : s.threads[i]? = some t)
    (hnext : next s.shared (s.shared.cancelled.contains t.ctx) t.pc choice = some (op,pc,started))
    (hpublish : ∀ k, op = .publish k → s.shared.stopRequested = true → 0 < s.count beforeTake)
    {k : ℕ} (hopen : s.shared.conns[k]? = some false) (hne : op ≠ .closeConn k) :
    0 < (s.advance i t op pc started).count (holds k) ∨
      (s.shared.apply op).conn = some k ∧ ((s.shared.apply op).stopRequested = false ∨
        0 < (s.advance i t op pc started).count beforeTake) := by
  have hstep := next_holds k hnext
  have hcount := count_advance ht (holds k) op pc started
  obtain ⟨-,-,htake⟩ := next_clearing hnext
  have hcount' := count_advance ht beforeTake op pc started
  have hkeep : performs (.closeConn k) op = 0 := if_neg hne
  have hflag := stopRequested_apply s.shared op
  have hk := (List.getElem?_eq_some_iff.mp hopen).1
  -- Either the connection is published in this step, or it stays where it was, or is taken.
  by_cases hpub : ∃ j, op = .publish j
  · obtain ⟨j,rfl⟩ := hpub
    have hlt := h.known j (.inl (holds_of_publish ht hnext))
    have hdialled := h.dialled
    have hjk : j = k := by omega
    subst hjk
    refine .inr ⟨rfl,?_⟩
    cases hset : s.shared.stopRequested with
    | false => exact .inl (by simpa [hset] using hflag)
    | true =>
        have hpos := hpublish j rfl hset
        simp only [performs,reduceCtorEq,if_false] at htake
        exact .inr (by omega)
  · have hunpublished : performs (.publish k) op = 0 := if_neg fun heq => hpub ⟨k,heq⟩
    rcases h.held k hopen with hheld | ⟨hconn,hcase⟩
    · exact .inl (by omega)
    · by_cases htaken : op = .takeConn
      · have hone : takes s.shared k op = 1 := if_pos ⟨htaken,hconn⟩
        exact .inl (by omega)
      · have hsame : (s.shared.apply op).conn = s.shared.conn := by
          rcases conn_apply s.shared op with hsame | ⟨heq,-⟩ | ⟨j,heq,-⟩
          · exact hsame
          · exact absurd heq htaken
          · exact absurd ⟨j,heq⟩ hpub
        refine .inr ⟨hsame.trans hconn,?_⟩
        have huntaken : performs .takeConn op = 0 := if_neg htaken
        by_cases hmark : op = .markAbort
        · have hone : performs .markAbort op = 1 := if_pos hmark
          exact .inr (by omega)
        · have hzero : performs .markAbort op = 0 := if_neg hmark
          rcases hcase with hunset | hpos
          · exact .inl (by simpa [hunset,hmark] using hflag)
          · exact .inr (by omega)

theorem Held.known_goes (h : Held s) (ht : s.threads[i]? = some t)
    (hnext : next s.shared (s.shared.cancelled.contains t.ctx) t.pc choice = some (op,pc,started))
    {k : ℕ} (hk : 0 < (s.advance i t op pc started).count (holds k) ∨
      (s.shared.apply op).conn = some k) :
    k < s.shared.conns.length+performs .dial op := by
  have hknown := h.known k
  rcases hk with hcount | hconn
  · have hstep := next_holds k hnext
    have hholds := count_advance ht (holds k) op pc started
    by_cases hbefore : 0 < s.count (holds k)
    · exact Nat.lt_add_right _ (hknown (.inl hbefore))
    · by_cases hdials : op = .dial ∧ s.shared.conns.length = k
      · have hone : performs .dial op = 1 := if_pos hdials.1
        omega
      · have hzero : dials s.shared k op = 0 := if_neg hdials
        have htakes : op = .takeConn ∧ s.shared.conn = some k := by
          by_contra hnot
          have hzero' : takes s.shared k op = 0 := if_neg hnot
          omega
        exact Nat.lt_add_right _ (hknown (.inr htakes.2))
  · rcases conn_apply s.shared op with hsame | ⟨-,hnone⟩ | ⟨j,rfl,hpublished⟩
    · exact Nat.lt_add_right _ (hknown (.inr (hsame.symm.trans hconn)))
    · rw [hnone] at hconn
      cases hconn
    · rw [hpublished] at hconn
      cases hconn
      exact Nat.lt_add_right _ (hknown (.inl (holds_of_publish ht hnext)))

theorem Held.goes (h : Held s) (ht : s.threads[i]? = some t)
    (hnext : next s.shared (s.shared.cancelled.contains t.ctx) t.pc choice = some (op,pc,started))
    (horderly : Orderly s (.go i choice)) : Held (s.advance i t op pc started) := by
  obtain ⟨hdial,hclear,-⟩ := next_clearing hnext
  obtain ⟨hstarted,hdone⟩ := next_done hnext
  have hcount := count_advance ht clearing op pc started
  have hcount' := count_advance ht beforeDial op pc started
  have hcount'' := count_advance ht done op pc started
  have hdialled := h.dialled
  have hcleared := h.cleared
  have hmoved := movedPc_go ht choice
  have hunmarked : s.shared.stopRequested = true → performs .markAbort op = 0 := by
    intro hset
    apply if_neg
    rintro rfl
    rw [next_markAbort hnext] at hset
    cases hset
  have hpublish : ∀ k, op = .publish k → s.shared.stopRequested = true →
      0 < s.count beforeTake := by
    rintro k rfl hset
    apply horderly.publishes _ hset
    rw [hmoved,next_publish hnext]
    rfl
  constructor
  · show (s.shared.apply op).conns.length+_ ≤ 1
    rw [length_conns_apply]
    omega
  · show _ ≤ (s.shared.apply op).stopRequested.toNat
    rw [stopRequested_apply]
    cases hset : s.shared.stopRequested with
    | true =>
        have hzero := hunmarked hset
        rw [hset] at hcleared
        simp only [Bool.true_or]
        omega
    | false =>
        rw [hset,Bool.toNat_false] at hcleared
        by_cases hmark : op = .markAbort
        · have hone : performs .markAbort op = 1 := if_pos hmark
          simp only [hmark,decide_true,Bool.or_true,Bool.toNat_true]
          subst hmark
          omega
        · have hzero : performs .markAbort op = 0 := if_neg hmark
          omega
  · intro k hk
    show k < (s.shared.apply op).conns.length
    rw [length_conns_apply]
    exact h.known_goes ht hnext hk
  · intro k hopen
    rcases open_apply hopen with ⟨hold,hne⟩ | ⟨rfl,rfl⟩
    · exact h.held_goes ht hnext hpublish hold hne
    · have hstep := next_holds s.shared.conns.length hnext
      have hholds := count_advance ht (holds s.shared.conns.length) .dial pc started
      have hone : dials s.shared s.shared.conns.length .dial = 1 := if_pos ⟨rfl,rfl⟩
      simp only [performs,reduceCtorEq,if_false] at hstep
      exact .inl (by omega)
  · intro hpos
    show (s.shared.apply op).stopRequested = true ∧ _
    rw [stopRequested_apply]
    by_cases hbefore : 0 < s.count done
    · obtain ⟨hset,hzero⟩ := h.finished hbefore
      have := hunmarked hset
      exact ⟨by rw [hset,Bool.true_or],by omega⟩
    · rcases hdone (by omega) with hwas | ⟨haborts,hset⟩ | ⟨hone,hzero⟩
      · exact absurd (count_pos (List.mem_of_getElem? ht) hwas) hbefore
      · have hended := horderly.aborts (by rw [hmoved]; exact haborts) hset
        have := hunmarked hset
        exact ⟨by rw [hset,Bool.true_or],by omega⟩
      · have hpositive := count_pos (f := clearing) (List.mem_of_getElem? ht) (by omega)
        have hset : s.shared.stopRequested = true := by
          by_contra hunset
          rw [Bool.eq_false_of_not_eq_true hunset,Bool.toNat_false] at hcleared
          omega
        rw [hset,Bool.toNat_true] at hcleared
        exact ⟨by rw [hset,Bool.true_or],by omega⟩

/-- A call of `Stop` is at none of the places that count. -/
theorem Held.call (h : Held s) {cleanStop : Bool} :
    Held (Session.call {s with shared := {s.shared with cleanStop := cleanStop}} .marking) := by
  constructor
  · rw [count_call]
    exact h.dialled
  · rw [count_call]
    exact h.cleared
  · intro k
    rw [count_call]
    exact h.known k
  · intro k
    rw [count_call,count_call]
    exact h.held k
  · rw [count_call,count_call]
    exact h.finished

theorem Held.outcome {s' : Session} {ev : Event} (h : Held s) (hev : Outcome s ev s')
    (hno : NoStart ev) (horderly : Orderly s ev) : Held s' := by
  cases hev with
  | stays => exact h
  | starts => exact absurd rfl hno
  | stops => exact h.call
  | cancels => exact ⟨h.dialled,h.cleared,h.known,h.held,h.finished⟩
  | goes i choice t op pc started ht hnext => exact h.goes ht hnext horderly

end

theorem Held.started : Held started := by
  constructor
  · decide
  · decide
  · rintro k (hcount | hconn)
    · cases hcount
    · cases hconn
  · intro k hk
    cases hk
  · intro hpos
    cases hpos

/-- One call of `Start`, with any calls of `Stop`, cancellations and schedule that keep to the
order: no connection is open when the connection task has returned. -/
theorem connections_closed_on_return (evs : List Event) (hno : ∀ ev ∈ evs, NoStart ev)
    (h : Along Session.step Orderly evs started) :
    ∀ pre, pre <+: evs → ClosedOnReturn (run Session.step pre started) := by
  intro pre hpre
  have hboth := (along_of_mem hno started).and h
  have hinv := hboth.throughout (I := fun s => Single s ∧ Held s) ?_
    ⟨Single.started,Held.started⟩ pre hpre
  · exact hinv.2.closedOnReturn hinv.1
  · rintro s ev ⟨hsingle,hheld⟩ ⟨hno,horderly⟩
    exact ⟨hsingle.outcome (step_outcome s ev) hno,hheld.outcome (step_outcome s ev) hno horderly⟩

/-- `Start` comes online, and a `Stop` ends the session. -/
def stoppedOnline : List Event :=
  goes 0 4++goes 1 13++[.stop]++goes 5 8++[.go 3 .closed]++goes 3 5++[.go 1 .broken]++goes 1 6

theorem connections_closed_when_stopped :
    Along Session.step Orderly stoppedOnline started ∧
      ∀ pre, pre <+: stoppedOnline → ClosedOnReturn (run Session.step pre started) := by
  have horderly : Along Session.step Orderly stoppedOnline started := by decide +kernel
  exact ⟨horderly,connections_closed_on_return stoppedOnline (by decide +kernel) horderly⟩

/-- A `Stop` takes the connection while the dial is under way. -/
def stoppedDialing : List Event :=
  goes 0 4++goes 1 1++[.stop]++goes 2 7++goes 1 8++[.go 1 .stop]++goes 1 4

/-- The connection task has returned and the connection is open. -/
theorem connection_left_open :
    (∀ ev ∈ stoppedDialing, NoStart ev) ∧
      (run Session.step stoppedDialing started).shared.conns = [false] ∧
      ¬ClosedOnReturn (run Session.step stoppedDialing started) := by
  refine ⟨by decide +kernel,by decide +kernel,?_⟩
  intro h
  have hreturned : ∃ t ∈ (run Session.step stoppedDialing started).threads,
      ∃ err, t.pc = .returned .task err :=
    ⟨⟨0,.returned .task (some ⟨.request,true⟩)⟩,by decide +kernel,_,rfl⟩
  have hclosed := h hreturned false (by decide +kernel)
  cases hclosed

end BaturWhatsApi.SessionConnections
