import BaturWhatsApi.ListCells
import BaturWhatsApi.Runs

/-!
# Upgraded connections at the end of the server

`ListenAndServe`, `trackConn`, `untrackConn` and `closeConnections` of
`apiserver/apiserver.go` with the handlers of `hSessionWS`. A handler takes its connection
away from the HTTP server, answers the upgrade, and only then enters the connection into the
set that is closed at the end. The end of the HTTP server does not wait for a connection that
was taken away, and the set is read once. A handler that enters its connection afterwards
leaves it open for good.

The handlers go one operation at a time, in any order and number. When the peer closes a
connection, and when a loop over the frames ends, is left to the schedule.
-/
namespace BaturWhatsApi.ServerShutdown
open ListCells Runs

/-! ### The handlers -/

/-- The next operation of a handler. -/
inductive Pc where
  | accepted
  | hijacked
  | upgraded
  | tracked
  | serving
  | leaving
  | closing
  | untracking
  | returned
  | refused
deriving DecidableEq, Repr

/-- The handler has called `trackConn`. -/
def Pc.hasTracked : Pc → Bool
  | .accepted | .hijacked | .upgraded | .refused => false
  | _ => true

/-- The handler has taken the connection away and not called `trackConn` yet. -/
def Pc.between : Pc → Bool
  | .hijacked | .upgraded => true
  | _ => false

/-- The connection stands in the set, unless the server has emptied it. -/
def Pc.entered : Pc → Bool
  | .tracked | .serving | .leaving | .closing => true
  | _ => false

structure Handler where
  pc : Pc := .accepted
  closed : Bool := false
deriving DecidableEq, Repr

inductive Action where
  | hijack (ok : Bool)
  | answer (ok : Bool)
  | trackConn
  | hello (ok : Bool)
  | loopEnds
  | streamEnds
  | close
  | untrackConn
  | drop
deriving DecidableEq, Repr

/-- Where an action can happen. -/
def Action.enabled (pc : Pc) : Action → Bool
  | .hijack _ => pc = .accepted
  | .answer _ => pc = .hijacked
  | .trackConn => pc = .upgraded
  | .hello _ => pc = .tracked
  | .loopEnds => pc = .serving
  | .streamEnds => pc = .leaving
  | .close => pc = .closing
  | .untrackConn => pc = .untracking
  | .drop => pc ≠ .accepted

/-- A refused upgrade returns without the set; any other way out closes the connection first. -/
def Action.effect (h : Handler) : Action → Handler
  | .hijack ok => {h with pc := if ok then .hijacked else .refused}
  | .answer ok => if ok then {h with pc := .upgraded} else ⟨.refused,true⟩
  | .trackConn => {h with pc := .tracked}
  | .hello ok => {h with pc := if ok then .serving else .closing}
  | .loopEnds => {h with pc := .leaving}
  | .streamEnds => {h with pc := .closing}
  | .close => ⟨.untracking,true⟩
  | .untrackConn => {h with pc := .returned}
  | .drop => {h with closed := true}

/-- What an action of handler `i` does to the set. -/
def Action.enter (i : ℕ) (conns : List ℕ) : Action → List ℕ
  | .trackConn => conns.insert i
  | .untrackConn => conns.filter (· ≠ i)
  | _ => conns

/-! ### The server -/

/-- The next operation of `ListenAndServe`. `cs` are the connections left to close. -/
inductive Main where
  | selecting
  | shuttingDown
  | reading
  | closing (cs : List ℕ)
  | closed
  | failed
deriving DecidableEq, Repr

structure Server where
  handlers : List Handler := []
  conns : List ℕ := []
  main : Main := .selecting
deriving DecidableEq, Repr

inductive Event where
  | request
  | act (i : ℕ) (a : Action)
  | cancel
  | listenFails
  | shutdownReturns (timedOut : Bool)
  /-- The order in which the map is gone through. -/
  | snapshot (cs : List ℕ)
  | closeNext
deriving DecidableEq, Repr

/-- `Shutdown` waits for the requests of connections it still has, or for its timeout. -/
def Server.step (s : Server) : Event → Server
  | .request =>
      if s.main = .selecting ∨ s.main = .shuttingDown then {s with handlers := s.handlers++[{}]}
      else s
  | .act i a =>
      match s.handlers[i]? with
      | some h =>
          if a.enabled h.pc then
            {s with handlers := s.handlers.set i (a.effect h),conns := a.enter i s.conns}
          else s
      | none => s
  | .cancel => if s.main = .selecting then {s with main := .shuttingDown} else s
  | .listenFails => if s.main = .selecting then {s with main := .failed} else s
  | .shutdownReturns timedOut =>
      if s.main = .shuttingDown ∧ (timedOut ∨ ∀ h ∈ s.handlers, h.pc ≠ .accepted) then
        {s with main := .reading}
      else s
  | .snapshot cs =>
      if s.main = .reading ∧ cs.Perm s.conns then {s with conns := [],main := .closing cs} else s
  | .closeNext =>
      match s.main with
      | .closing [] => {s with main := .closed}
      | .closing (c::cs) =>
          { s with
            handlers := s.handlers.modify c fun h => {h with closed := true}
            main := .closing cs }
      | _ => s

/-- Once the connections are closed and no handler is on its way to the set, every connection
that was entered is closed. -/
def NoneStranded (s : Server) : Prop :=
  s.main = .closed → (∀ h ∈ s.handlers, h.pc.between = false) →
    ∀ h ∈ s.handlers, h.pc.hasTracked = true → h.closed = true

/-- The set has not been read yet. -/
def Main.early : Main → Bool
  | .closing _ | .closed => false
  | _ => true

/-- A connection is entered before the set is read. -/
def Timely (s : Server) : Event → Prop
  | .act _ .trackConn => s.main.early = true
  | _ => True

/-! ### Every open connection is listed -/

/-- The connection is in the set, or among those that are left to close. -/
def Listed (main : Main) (conns : List ℕ) (i : ℕ) : Prop :=
  match main with
  | .closing cs => i ∈ cs
  | .closed => False
  | _ => i ∈ conns

def Safe (main : Main) (conns : List ℕ) (i : ℕ) (h : Handler) : Prop :=
  h.pc.hasTracked = true → h.closed = true ∨ h.pc.entered = true ∧ Listed main conns i

def Inv (s : Server) : Prop := Cells (Safe s.main s.conns) s.handlers

theorem listed_of_early {main : Main} {conns : List ℕ} {i : ℕ} (hmain : main.early = true) :
    Listed main conns i ↔ i ∈ conns := by
  cases main with
  | closing cs => cases hmain
  | closed => cases hmain
  | _ => rfl

theorem Listed.enter {main : Main} {conns : List ℕ} {i j : ℕ} (h : Listed main conns j)
    (hij : j ≠ i) (a : Action) : Listed main (a.enter i conns) j := by
  have hmem : j ∈ conns → j ∈ a.enter i conns := by
    intro hj
    cases a with
    | trackConn => exact List.mem_insert_of_mem hj
    | untrackConn => exact List.mem_filter.mpr ⟨hj,decide_eq_true hij⟩
    | _ => exact hj
  cases main with
  | closing cs => exact h
  | closed => exact h
  | _ => exact hmem h

theorem Safe.listed {main main' : Main} {conns conns' : List ℕ} {i : ℕ} {h : Handler}
    (hs : Safe main conns i h) (hl : Listed main conns i → Listed main' conns' i) :
    Safe main' conns' i h :=
  fun htracked => (hs htracked).imp id fun hentered => ⟨hentered.1,hl hentered.2⟩

theorem Safe.moved {main : Main} {conns : List ℕ} {i : ℕ} {h : Handler}
    (hs : Safe main conns i h) (hbefore : h.pc.hasTracked = true) {pc : Pc}
    (hafter : pc.entered = true) : Safe main conns i {h with pc := pc} :=
  fun _ => (hs hbefore).imp id fun hentered => ⟨hafter,hentered.2⟩

/-- The action of a handler keeps its own connection listed. -/
theorem Action.effect_safe {main : Main} {conns : List ℕ} {i : ℕ} {h : Handler} {a : Action}
    (ha : a.enabled h.pc = true) (hs : Safe main conns i h)
    (htimely : a = .trackConn → main.early = true) :
    Safe main (a.enter i conns) i (a.effect h) := by
  cases a with
  | hijack ok =>
      intro htracked
      cases ok <;> cases htracked
  | answer ok =>
      intro htracked
      cases ok <;> cases htracked
  | trackConn =>
      intro _
      exact .inr ⟨rfl,(listed_of_early (htimely rfl)).mpr List.mem_insert_self⟩
  | hello ok =>
      have hpc : h.pc = .tracked := of_decide_eq_true ha
      apply hs.moved
      · rw [hpc]
        rfl
      · cases ok <;> rfl
  | loopEnds =>
      have hpc : h.pc = .serving := of_decide_eq_true ha
      apply hs.moved
      · rw [hpc]
        rfl
      · rfl
  | streamEnds =>
      have hpc : h.pc = .leaving := of_decide_eq_true ha
      apply hs.moved
      · rw [hpc]
        rfl
      · rfl
  | close =>
      intro _
      exact .inl rfl
  | untrackConn =>
      intro _
      have hpc : h.pc = .untracking := of_decide_eq_true ha
      rcases hs (by rw [hpc]; rfl) with hclosed | ⟨hentered,-⟩
      · exact .inl hclosed
      · rw [hpc] at hentered
        cases hentered
  | drop =>
      intro _
      exact .inl rfl

theorem inv_act {s : Server} (hs : Inv s) (i : ℕ) (a : Action) (htimely : Timely s (.act i a)) :
    Inv (s.step (.act i a)) := by
  rw [Server.step]
  cases hi : s.handlers[i]? with
  | none => exact hs
  | some h =>
      dsimp only
      split_ifs with ha
      · intro j g hj
        rcases getElem?_set_cases hj with ⟨rfl,rfl⟩ | ⟨hji,hj⟩
        · apply Action.effect_safe ha (hs j h hi)
          rintro rfl
          exact htimely
        · exact (hs j g hj).listed fun hl => hl.enter hji a
      · exact hs

/-- The connection that is closed leaves the list. -/
theorem inv_closeNext {s : Server} (hs : Inv s) : Inv (s.step .closeNext) := by
  rw [Server.step]
  cases hmain : s.main with
  | closing cs =>
      rw [Inv,hmain] at hs
      cases cs with
      | nil => exact hs.mono fun i h hsafe => hsafe.listed List.not_mem_nil
      | cons c cs =>
          intro j g hj
          obtain ⟨h,hh,⟨rfl,rfl⟩ | ⟨hjc,rfl⟩⟩ := getElem?_modify_cases hj
          · exact fun _ => .inl rfl
          · exact (hs j g hh).listed fun hl => (List.mem_cons.mp hl).resolve_left hjc
  | _ => exact hs

theorem Timely.inv {s : Server} {ev : Event} (htimely : Timely s ev) (hs : Inv s) :
    Inv (s.step ev) := by
  cases ev with
  | request =>
      rw [Server.step]
      split_ifs
      · apply Cells.append hs
        intro htracked
        cases htracked
      · exact hs
  | act i a => exact inv_act hs i a htimely
  | cancel =>
      rw [Server.step]
      split_ifs with hmain
      · rw [Inv,hmain] at hs
        exact hs
      · exact hs
  | listenFails =>
      rw [Server.step]
      split_ifs with hmain
      · rw [Inv,hmain] at hs
        exact hs
      · exact hs
  | shutdownReturns timedOut =>
      rw [Server.step]
      split_ifs with hmain
      · rw [Inv,hmain.1] at hs
        exact hs
      · exact hs
  | snapshot cs =>
      rw [Server.step]
      split_ifs with hmain
      · rw [Inv,hmain.1] at hs
        exact hs.mono fun i h hsafe => hsafe.listed fun hl => hmain.2.mem_iff.mpr hl
      · exact hs
  | closeNext => exact inv_closeNext hs

theorem Inv.noneStranded {s : Server} (hs : Inv s) : NoneStranded s := by
  intro hmain _ h hh htracked
  obtain ⟨i,hi⟩ := List.mem_iff_getElem?.mp hh
  rw [Inv,hmain] at hs
  exact (hs i h hi htracked).resolve_right fun hentered => hentered.2

/-- In every run in which connections are entered before the set is read, no connection that
was entered is left open at the end, at any moment of the run. -/
theorem noneStranded_of_timely (evs : List Event) (h : Along Server.step Timely evs {}) :
    ∀ pre, pre <+: evs → NoneStranded (run Server.step pre {}) := by
  intro pre hpre
  have hinv := h.throughout (I := Inv) (fun s ev hs hev => hev.inv hs) Cells.nil pre hpre
  exact hinv.noneStranded

/-- A connection is entered, the server ends and closes it. -/
def orderly : List Event :=
  [.request,.act 0 (.hijack true),.act 0 (.answer true),.act 0 .trackConn,.cancel,
   .shutdownReturns false,.snapshot [0],.closeNext,.closeNext]

theorem noneStranded_orderly :
    (run Server.step orderly {}).main = .closed ∧ NoneStranded (run Server.step orderly {}) :=
  ⟨by decide,noneStranded_of_timely orderly ⟨trivial,trivial,trivial,rfl,trivial,trivial,trivial,
    trivial,trivial,trivial⟩ orderly (List.prefix_refl _)⟩

/-- A handler that took its connection away before the end leaves it open, if it is the last one
on its way. -/
theorem stranded_of_late {s : Server} {i : ℕ} {h : Handler} (hmain : s.main = .closed)
    (hi : s.handlers[i]? = some h) (hpc : h.pc = .upgraded) (hopen : h.closed = false)
    (hothers : ∀ j g, j ≠ i → s.handlers[j]? = some g → g.pc.between = false) :
    ¬NoneStranded (s.step (.act i .trackConn)) := by
  have hstep : s.step (.act i .trackConn) = {s with
      handlers := s.handlers.set i {h with pc := .tracked}
      conns := s.conns.insert i} := by
    simp only [Server.step,hi,Action.enabled,hpc,decide_true,if_true,Action.effect,Action.enter]
  have hnew : (s.handlers.set i {h with pc := .tracked})[i]? = some {h with pc := .tracked} := by
    rw [List.getElem?_set_self (List.getElem?_eq_some_iff.mp hi).1]
  rw [hstep]
  intro hnone
  have hclosed := hnone hmain ?_ _ (List.mem_iff_getElem?.mpr ⟨i,hnew⟩) rfl
  · cases hopen.symm.trans hclosed
  · intro g hg
    obtain ⟨j,hj⟩ := List.mem_iff_getElem?.mp hg
    rcases getElem?_set_cases hj with ⟨rfl,rfl⟩ | ⟨hji,hj⟩
    · rfl
    · exact hothers j g hji hj

/-- The set is read between the two steps of a handler. -/
theorem hijacked_stranded : ∃ evs, ¬NoneStranded (run Server.step evs {}) := by
  refine ⟨[.request,.act 0 (.hijack true),.cancel,.shutdownReturns false,.snapshot [],.closeNext,
    .act 0 (.answer true),.act 0 .trackConn],fun h => ?_⟩
  have hclosed := h (by decide) (by decide) ⟨.tracked,false⟩ (by decide) rfl
  cases hclosed

end BaturWhatsApi.ServerShutdown
