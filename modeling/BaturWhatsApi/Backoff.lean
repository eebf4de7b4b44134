import BaturWhatsApi.ByteStrings

/-!
# The delays between two connections

The loop of `supervisor/supervisor.go` over the attempts of one session, with the delay it
computes after each. The delay is doubled behind every wait, raised to its limit by a refused
login and reset by a connection that lasted. The random part is left out, and the end of the
context ends the list of attempts.

The options are completed one by one, so the first delay may exceed the limit. The doubling
goes through floating point numbers, which hold the delays below `2^53` exactly.
-/
namespace BaturWhatsApi.Backoff
open ByteStrings

/-! ### Whole numbers as floating point numbers -/

/-- The multiple of `2^s` that is next to a number, in units of `2^s`. Of two it is the even one. -/
def nearest (n s : ℕ) : ℕ :=
  if n % 2^s*2 < 2^s ∨ (n % 2^s*2 = 2^s ∧ n/2^s % 2 = 0) then n/2^s else n/2^s+1

/-- A number of 53 binary digits. -/
def significant (n : ℕ) : ℕ :=
  if n ≤ 2^53 then n else nearest n (n.log2-52)*2^(n.log2-52)

def float64 (x : ℤ) : ℤ := x.sign*significant x.natAbs

/-- A number out of range becomes the least one, as on the common machines. -/
def truncate (f : ℤ) : ℤ := if -2^63 ≤ f ∧ f < 2^63 then f else -2^63

theorem float64_of_le {x : ℤ} (h : x.natAbs ≤ 2^53) : float64 x = x := by
  rw [float64,significant,if_pos h,Int.sign_mul_natAbs]

/-! ### The loop -/

/-- Durations in nanoseconds. -/
def second : ℤ := 1000000000

structure Options where
  baseBackoff : ℤ := 0
  maxBackoff : ℤ := 0
  stableReset : ℤ := 0
deriving DecidableEq, Repr

def Options.withDefaults (o : Options) : Options :=
  { baseBackoff := if o.baseBackoff ≤ 0 then second else o.baseBackoff
    maxBackoff := if o.maxBackoff ≤ 0 then 60*second else o.maxBackoff
    stableReset := if o.stableReset ≤ 0 then 120*second else o.stableReset }

theorem Options.withDefaults_pos (o : Options) :
    0 < o.withDefaults.baseBackoff ∧ 0 < o.withDefaults.maxBackoff := by
  simp only [withDefaults,second]
  constructor <;> split_ifs <;> omega

/-- How an attempt ends while the context lasts. -/
inductive Outcome where
  | newFails (message : Bytes)
  | startFails (message : Bytes)
  /-- The connection is lost after some time online. -/
  | dropped (online : ℤ)
  | stuck
deriving DecidableEq, Repr

def isFatalAuth (message : Bytes) : Bool :=
  [text "server auth",text "rejected handshake",text "registration"].any
    fun sub => sub <:+: message

structure Retry where
  reason : Bytes
  delay : ℤ
deriving DecidableEq, Repr

/-- The reason for the retry, and the delay as the attempt leaves it. -/
def attempt (o : Options) (backoff : ℤ) : Outcome → Retry
  | .newFails message => ⟨message,backoff⟩
  | .startFails message => ⟨message,if isFatalAuth message then o.maxBackoff else backoff⟩
  | .dropped online =>
      ⟨text "connection dropped",if o.stableReset ≤ online then o.baseBackoff else backoff⟩
  | .stuck => ⟨text "stuck state forced",backoff⟩

def nextBackoff (o : Options) (cur : ℤ) : ℤ :=
  truncate (min (float64 (Int.bmod (cur*2) (2^64))) (float64 o.maxBackoff))

def manageLoop (o : Options) : ℤ → List Outcome → List Retry
  | _,[] => []
  | backoff,out::outs =>
      attempt o backoff out::manageLoop o (nextBackoff o (attempt o backoff out).delay) outs

def retries (o : Options) (outs : List Outcome) : List Retry := manageLoop o o.baseBackoff outs

/-! ### The delays as they are meant -/

def Outcome.fatal : Outcome → Bool
  | .startFails message => isFatalAuth message
  | _ => false

def Outcome.stable (o : Options) : Outcome → Bool
  | .dropped online => o.stableReset ≤ online
  | _ => false

/-- The delay that is waiting to be used: twice the last one, within the limit. -/
def pending (o : Options) (previous : Option ℤ) : ℤ :=
  (previous.map fun d => min (2*d) o.maxBackoff).getD o.baseBackoff

/-- The delay after an attempt, by the delay before it if there was one. -/
def delayAfter (o : Options) (previous : Option ℤ) (out : Outcome) : ℤ :=
  if out.fatal then o.maxBackoff
  else if out.stable o then o.baseBackoff
  else pending o previous

def delaysFrom (o : Options) : Option ℤ → List Outcome → List ℤ
  | _,[] => []
  | previous,out::outs =>
      delayAfter o previous out::delaysFrom o (some (delayAfter o previous out)) outs

/-- The delays of the loop are those, and none is beyond the limit. -/
structure Lawful (o : Options) (outs : List Outcome) : Prop where
  delays : (retries o outs).map Retry.delay = delaysFrom o none outs
  capped : ∀ r ∈ retries o outs, r.delay ≤ o.maxBackoff

/-! ### The loop keeps to them -/

/-- A delay that is exact even when it is doubled. -/
def Exact (d : ℤ) : Prop := 0 < d ∧ d < 2^52

section
variable {o : Options} (hbase : Exact o.baseBackoff) (hmax : Exact o.maxBackoff)

include hmax in
theorem nextBackoff_eq {d : ℤ} (h : Exact d) : nextBackoff o d = min (2*d) o.maxBackoff := by
  obtain ⟨hpos,hlt⟩ := h
  obtain ⟨hmpos,hmlt⟩ := hmax
  have hword : Int.bmod (d*2) (2^64) = d*2 := by
    apply Int.bmod_eq_of_le
    · norm_num
      omega
    · norm_num
      omega
  rw [nextBackoff,hword,float64_of_le (by omega),float64_of_le (by omega),Int.mul_comm,truncate,
    if_pos (by omega)]

theorem attempt_delay (previous : Option ℤ) (out : Outcome) :
    (attempt o (pending o previous) out).delay = delayAfter o previous out := by
  cases out <;> simp [attempt,delayAfter,Outcome.fatal,Outcome.stable]

include hbase hmax

theorem delayAfter_exact {previous : Option ℤ} (h : ∀ d ∈ previous, Exact d) (out : Outcome) :
    Exact (delayAfter o previous out) := by
  rw [delayAfter]
  split_ifs
  · exact hmax
  · exact hbase
  · cases previous with
    | none => exact hbase
    | some d =>
        have hd := h d rfl
        simp only [pending,Option.map_some,Option.getD_some,Exact] at hd hmax ⊢
        omega

theorem manageLoop_delays (outs : List Outcome) {previous : Option ℤ}
    (h : ∀ d ∈ previous, Exact d) :
    (manageLoop o (pending o previous) outs).map Retry.delay = delaysFrom o previous outs := by
  induction outs generalizing previous with
  | nil => rfl
  | cons out outs ih =>
      have hexact := delayAfter_exact hbase hmax h out
      have hnext : ∀ d ∈ some (delayAfter o previous out), Exact d := by
        intro d hd
        cases hd
        exact hexact
      rw [manageLoop,List.map_cons,attempt_delay,nextBackoff_eq hmax hexact,delaysFrom]
      exact congrArg _ (ih hnext)

end

section
variable {o : Options}

theorem Outcome.fatal_of_stable {out : Outcome} (h : out.stable o) : out.fatal = false := by
  cases out with
  | dropped online => rfl
  | _ => cases h

theorem base_mem_of_stable {outs : List Outcome} {out : Outcome} (hmem : out ∈ outs)
    (h : out.stable o) (previous : Option ℤ) : o.baseBackoff ∈ delaysFrom o previous outs := by
  induction outs generalizing previous with
  | nil => cases hmem
  | cons first outs ih =>
      rw [delaysFrom]
      rcases List.mem_cons.mp hmem with rfl | hmem
      · have hdelay : delayAfter o previous out = o.baseBackoff := by
          rw [delayAfter,Outcome.fatal_of_stable h,if_neg Bool.false_ne_true,if_pos h]
        rw [hdelay]
        exact List.mem_cons_self
      · exact List.mem_cons_of_mem _ (ih hmem _)

theorem base_mem_of_first {outs : List Outcome} {out : Outcome} (hfirst : outs.head? = some out)
    (h : out.fatal = false) : o.baseBackoff ∈ delaysFrom o none outs := by
  cases outs with
  | nil => cases hfirst
  | cons first outs =>
      cases hfirst
      have hdelay : delayAfter o none out = o.baseBackoff := by
        rw [delayAfter,h,if_neg Bool.false_ne_true]
        exact ite_self _
      rw [delaysFrom,hdelay]
      exact List.mem_cons_self

/-- Only the base can exceed the limit. -/
theorem delaysFrom_le {outs : List Outcome} {previous : Option ℤ}
    (hstable : ∀ out ∈ outs, out.stable o → o.baseBackoff ≤ o.maxBackoff)
    (hfirst : ∀ out ∈ outs.head?, out.fatal = false → pending o previous ≤ o.maxBackoff) :
    ∀ d ∈ delaysFrom o previous outs, d ≤ o.maxBackoff := by
  induction outs generalizing previous with
  | nil => intro d hd; cases hd
  | cons out outs ih =>
      intro d hd
      rcases List.mem_cons.mp hd with rfl | hd
      · rw [delayAfter]
        split_ifs with hfatal hlong
        · exact le_rfl
        · exact hstable out List.mem_cons_self hlong
        · exact hfirst out rfl (Bool.eq_false_of_not_eq_true hfatal)
      · exact ih (fun out hout => hstable out (List.mem_cons_of_mem _ hout))
          (fun _ _ _ => min_le_right _ _) d hd

/-- The limit holds unless it is below the base and a delay is the base. -/
theorem delaysFrom_le_iff (outs : List Outcome) :
    (∀ d ∈ delaysFrom o none outs, d ≤ o.maxBackoff) ↔ o.baseBackoff ≤ o.maxBackoff ∨
      (∀ out ∈ outs.head?, out.fatal) ∧ ∀ out ∈ outs, ¬out.stable o := by
  constructor
  · intro h
    by_contra hnot
    rw [not_or,not_and_or] at hnot
    obtain ⟨hlarge,hfirst | hstable⟩ := hnot
    · push Not at hfirst
      obtain ⟨out,hout,hfatal⟩ := hfirst
      exact hlarge (h _ (base_mem_of_first hout (Bool.eq_false_of_not_eq_true hfatal)))
    · push Not at hstable
      obtain ⟨out,hout,hlong⟩ := hstable
      exact hlarge (h _ (base_mem_of_stable hout hlong none))
  · rintro (hle | ⟨hfirst,hstable⟩)
    · exact delaysFrom_le (fun _ _ _ => hle) fun _ _ _ => hle
    · apply delaysFrom_le
      · intro out hout hlong
        exact absurd hlong (hstable out hout)
      · intro out hout hfatal
        cases (hfirst out hout).symm.trans hfatal

end

/-- The delays are the prescribed ones whatever the options are, and within the limit exactly if
the base is, or no delay is the base. -/
theorem lawful_iff (o : Options) (outs : List Outcome)
    (hbase : o.withDefaults.baseBackoff < 2^52) (hmax : o.withDefaults.maxBackoff < 2^52) :
    Lawful o.withDefaults outs ↔ o.withDefaults.baseBackoff ≤ o.withDefaults.maxBackoff ∨
      (∀ out ∈ outs.head?, out.fatal) ∧ ∀ out ∈ outs, ¬out.stable o.withDefaults := by
  have hpos := o.withDefaults_pos
  have hnone : ∀ d ∈ (none : Option ℤ), Exact d := by
    intro d hd
    cases hd
  have hdelays : (retries o.withDefaults outs).map Retry.delay =
      delaysFrom o.withDefaults none outs :=
    manageLoop_delays ⟨hpos.1,hbase⟩ ⟨hpos.2,hmax⟩ outs hnone
  rw [← delaysFrom_le_iff,← hdelays]
  constructor
  · intro h d hd
    obtain ⟨r,hr,rfl⟩ := List.mem_map.mp hd
    exact h.capped r hr
  · intro h
    exact ⟨hdelays,fun r hr => h _ (List.mem_map_of_mem hr)⟩

/-- With the defaults every sequence of attempts keeps to them. -/
theorem lawful_default :
    Lawful (Options.withDefaults {}) [.stuck,.startFails (text "server auth: denied"),
      .newFails (text "timeout"),.dropped (300*second),.dropped second] :=
  (lawful_iff {} _ (by decide) (by decide)).mpr (.inl (by decide))

/-- A limit of half a second leaves the default base of one second. -/
theorem retry_over_limit :
    ∃ (o : Options) (outs : List Outcome),
      o.withDefaults.baseBackoff < 2^52 ∧ o.withDefaults.maxBackoff < 2^52 ∧
      (∃ r ∈ retries o.withDefaults outs, o.withDefaults.maxBackoff < r.delay) ∧
      ¬Lawful o.withDefaults outs := by
  have hover : (⟨text "timeout",second⟩ : Retry) ∈
      retries (Options.withDefaults {maxBackoff := 500000000}) [.newFails (text "timeout")] :=
    List.mem_cons_self
  refine ⟨{maxBackoff := 500000000},[.newFails (text "timeout")],by decide,by decide,
    ⟨_,hover,by decide⟩,fun h => ?_⟩
  exact absurd (h.capped _ hover) (by decide)

end BaturWhatsApi.Backoff
