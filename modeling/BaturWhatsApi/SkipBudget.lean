import BaturWhatsApi.RatchetPersistence

/-!
# The budget of skipped keys

An envelope is believed before it is opened: its two counters say how far the receiving
chains are advanced. Both loops stop at a full buffer, and every round of a loop stores under
an index of its own, so that neither runs longer than the buffer is large. To count the keys
that one call derives, every function of the receiving side has a twin that counts.
-/
namespace BaturWhatsApi.SkipBudget
open ByteStrings CipherSuite RatchetModel RatchetSteps SessionSetup SessionAgreement
open RatchetStorage SessionCalls RatchetPersistence
open SendText (sampleSeeds sampleSeeds_lawful)

variable {S : Suite}

/-! ### Counting derivations -/

/-- What a function returns, with the number of message keys it has derived. -/
structure Counted (α : Type) where
  derived : ℕ
  out : α

def skipKeysCounted (pub : Bytes) (pn : UInt32) :
    ℕ → Ratchet S → Counted (Option Failure × Ratchet S)
  | 0,r => ⟨0,none,r⟩
  | n+1,r =>
      if maxSkippedMessageKeys ≤ r.skipped.keys.card then ⟨0,some .skippedExhausted,r⟩
      else
        let rest := skipKeysCounted pub pn n (skipOne pub pn r)
        ⟨1+rest.derived,rest.out⟩

def skipUntilCounted (pub : Bytes) (pn bound : UInt32) (r : Ratchet S) :
    Counted (Option Failure × Ratchet S) :=
  skipKeysCounted pub pn (bound.toNat-r.receivingCounter.toNat) r

def skipOldChainCounted (pn : UInt32) (r : Ratchet S) : Counted (Option Failure × Ratchet S) :=
  if r.recvChain.isSome then skipUntilCounted r.recvPub r.previousCounter pn r else ⟨0,none,r⟩

def recvRatchetStepCounted (pub : Bytes) (pn : UInt32) (r : Ratchet S) :
    Counted (Option Failure × Ratchet S) :=
  let skip := skipOldChainCounted pn r
  match skip.out with
  | (some e,r) => ⟨skip.derived,some e,r⟩
  | (none,r) =>
      let r := retireSendingChain r
      match r.sendingDH with
      | none => ⟨skip.derived,some .noSendingIdentity,r⟩
      | some k =>
          match dh k pub with
          | .error e => ⟨skip.derived,some e,r⟩
          | .ok out => ⟨skip.derived,none,newReceivingChain pub out r⟩

/-- The key after the skipped ones is derived too. -/
def takeKeyCounted (env : Envelope) (pub : Bytes) (r : Ratchet S) :
    Counted (Except Failure S.Secret × Ratchet S) :=
  let idx : ChainIndex := ⟨pub,env.prevCount,env.counter⟩
  match r.skipped.lookup idx with
  | some sk => ⟨0,.ok sk,{r with skipped := r.skipped.erase idx}⟩
  | none =>
      if env.counter < r.receivingCounter then ⟨0,.error .tooOld,r⟩
      else
        let skip := skipUntilCounted pub env.prevCount env.counter r
        match skip.out with
        | (some e,r) => ⟨skip.derived,.error e,r⟩
        | (none,r) => ⟨skip.derived+1,.ok (recvKey r),advance r⟩

def openMessageCounted (env : Envelope) (pub : Bytes) (r : Ratchet S) :
    Counted (Except Failure Bytes × Ratchet S) :=
  let take := takeKeyCounted env pub r
  match take.out with
  | (.error e,r) => ⟨take.derived,.error e,r⟩
  | (.ok k,r) => ⟨take.derived,openWithKey k env,r⟩

def decryptCounted (env : Envelope) (r : Ratchet S) :
    Counted (Except Failure Bytes × Ratchet S) :=
  let pub := copy32 env.ratchetPub
  if stepNeeded env r then
    let step := recvRatchetStepCounted pub env.prevCount r
    match step.out with
    | (some e,r) => ⟨step.derived,.error e,r⟩
    | (none,r) =>
        let opened := openMessageCounted env pub r
        ⟨step.derived+opened.derived,opened.out⟩
  else openMessageCounted env pub r

/-! ### The twins return the same -/

theorem skipKeysCounted_out (pub : Bytes) (pn : UInt32) (n : ℕ) (r : Ratchet S) :
    (skipKeysCounted pub pn n r).out = skipKeys pub pn n r := by
  induction n generalizing r with
  | zero => rfl
  | succ n ih =>
      rw [skipKeysCounted,skipKeys]
      split_ifs
      · rfl
      · exact ih (skipOne pub pn r)

theorem skipOldChainCounted_out (pn : UInt32) (r : Ratchet S) :
    (skipOldChainCounted pn r).out = skipOldChain pn r := by
  rw [skipOldChainCounted,skipOldChain]
  split_ifs
  · exact skipKeysCounted_out _ _ _ r
  · rfl

theorem recvRatchetStepCounted_out (pub : Bytes) (pn : UInt32) (r : Ratchet S) :
    (recvRatchetStepCounted pub pn r).out = recvRatchetStep pub pn r := by
  simp only [recvRatchetStepCounted,recvRatchetStep,skipOldChainCounted_out]
  obtain ⟨failure,r'⟩ := skipOldChain pn r
  cases failure with
  | some e => rfl
  | none =>
      cases hk : (retireSendingChain r').sendingDH with
      | none => simp only [hk]
      | some k =>
          cases hout : dh k pub with
          | error e => simp only [hk,hout]
          | ok out => simp only [hk,hout]

theorem takeKeyCounted_out (env : Envelope) (pub : Bytes) (r : Ratchet S) :
    (takeKeyCounted env pub r).out = takeKey env pub r := by
  have hskip : (skipUntilCounted pub env.prevCount env.counter r).out =
    skipUntil pub env.prevCount env.counter r := skipKeysCounted_out _ _ _ r
  simp only [takeKeyCounted,takeKey,hskip]
  cases r.skipped.lookup ⟨pub,env.prevCount,env.counter⟩ with
  | some sk => rfl
  | none =>
      by_cases hold : env.counter < r.receivingCounter
      · simp only [if_pos hold]
      · simp only [if_neg hold]
        obtain ⟨failure,r'⟩ := skipUntil pub env.prevCount env.counter r
        cases failure <;> rfl

theorem openMessageCounted_out (env : Envelope) (pub : Bytes) (r : Ratchet S) :
    (openMessageCounted env pub r).out = openMessage env pub r := by
  simp only [openMessageCounted,openMessage,takeKeyCounted_out]
  obtain ⟨key,r'⟩ := takeKey env pub r
  cases key <;> rfl

theorem decryptCounted_out (env : Envelope) (r : Ratchet S) :
    (decryptCounted env r).out = decrypt env r := by
  simp only [decryptCounted,decrypt,recvRatchetStepCounted_out]
  by_cases hstep : stepNeeded env r = true
  · simp only [if_pos hstep]
    obtain ⟨failure,r'⟩ := recvRatchetStep (copy32 env.ratchetPub) env.prevCount r
    cases failure with
    | some e => rfl
    | none => exact openMessageCounted_out env _ r'
  · simp only [if_neg hstep]
    exact openMessageCounted_out env _ r

/-! ### How many keys a call derives -/

/-- There is room in the buffer before every round. -/
theorem skipKeysCounted_room (pub : Bytes) (pn : UInt32) (n : ℕ) (r : Ratchet S) :
    ∀ j < (skipKeysCounted pub pn n r).derived,
      size ((skipOne pub pn)^[j] r) < maxSkippedMessageKeys := by
  induction n generalizing r with
  | zero =>
      intro j hj
      exact absurd hj (Nat.not_lt_zero j)
  | succ n ih =>
      intro j hj
      rw [skipKeysCounted] at hj
      split_ifs at hj with hfull
      · exact absurd hj (Nat.not_lt_zero j)
      · cases j with
        | zero => exact not_le.mp hfull
        | succ j =>
            apply ih (skipOne pub pn r)
            dsimp only at hj
            omega

theorem skipUntilCounted_derived (pub : Bytes) (pn bound : UInt32) (r : Ratchet S) :
    (skipUntilCounted pub pn bound r).derived ≤ maxSkippedMessageKeys :=
  rounds_le pub pn (skipKeysCounted_room pub pn _ r)

theorem recvRatchetStepCounted_derived (pub : Bytes) (pn : UInt32) (r : Ratchet S) :
    (recvRatchetStepCounted pub pn r).derived ≤ maxSkippedMessageKeys := by
  have hskip : (skipOldChainCounted pn r).derived ≤ maxSkippedMessageKeys := by
    rw [skipOldChainCounted]
    split_ifs
    · exact skipUntilCounted_derived _ _ _ r
    · exact Nat.zero_le _
  have hsame : (recvRatchetStepCounted pub pn r).derived = (skipOldChainCounted pn r).derived := by
    rw [recvRatchetStepCounted]
    dsimp only
    split
    · rfl
    · split
      · rfl
      · split <;> rfl
  rw [hsame]
  exact hskip

theorem openMessageCounted_derived (env : Envelope) (pub : Bytes) (r : Ratchet S) :
    (openMessageCounted env pub r).derived ≤ maxSkippedMessageKeys+1 := by
  have hskip := skipUntilCounted_derived pub env.prevCount env.counter r
  have htake : (takeKeyCounted env pub r).derived ≤ maxSkippedMessageKeys+1 := by
    rw [takeKeyCounted]
    dsimp only
    split
    · exact Nat.zero_le _
    · split_ifs
      · exact Nat.zero_le _
      · split
        · exact Nat.le_succ_of_le hskip
        · exact Nat.succ_le_succ hskip
  have hsame : (openMessageCounted env pub r).derived = (takeKeyCounted env pub r).derived := by
    rw [openMessageCounted]
    split <;> rfl
  rw [hsame]
  exact htake

/-- The bound needs nothing of the session: it may hold any chains, counters and keys. -/
theorem decryptCounted_derived (env : Envelope) (r : Ratchet S) :
    (decryptCounted env r).derived ≤ 2*maxSkippedMessageKeys+1 := by
  have hstep := recvRatchetStepCounted_derived (copy32 env.ratchetPub) env.prevCount r
  rw [decryptCounted]
  dsimp only
  split_ifs
  · split
    · dsimp only
      omega
    · rename_i r' _
      have hopen := openMessageCounted_derived env (copy32 env.ratchetPub) r'
      dsimp only
      omega
  · have hopen := openMessageCounted_derived env (copy32 env.ratchetPub) r
    omega

/-! ### How many keys are stored -/

/-- The buffer of the session is within its bound. -/
def Bounded (r : Ratchet S) : Prop := size r ≤ maxSkippedMessageKeys

theorem skipKeys_bounded (pub : Bytes) (pn : UInt32) (n : ℕ) {r : Ratchet S} (h : Bounded r) :
    Bounded (skipKeys pub pn n r).2 := by
  induction n generalizing r with
  | zero => exact h
  | succ n ih =>
      rw [skipKeys]
      split_ifs with hfull
      · exact h
      · apply ih
        have hone := iterate_size_le pub pn 1 r
        have hroom : size r < maxSkippedMessageKeys := not_le.mp hfull
        exact hone.trans hroom

theorem skipUntil_bounded (pub : Bytes) (pn bound : UInt32) {r : Ratchet S} (h : Bounded r) :
    Bounded (skipUntil pub pn bound r).2 :=
  skipKeys_bounded pub pn _ h

theorem bounded_receiving : Receiving (Bounded : Ratchet S → Prop) where
  skip pn bound hr _ := skipUntil_bounded _ pn bound hr
  erase := by
    intro r idx hr
    have hsub : (r.skipped.erase idx).keys ⊆ r.skipped.keys := by
      intro j hj
      exact Finmap.mem_keys.mpr (Finmap.mem_erase.mp (Finmap.mem_keys.mp hj)).2
    exact (Finset.card_le_card hsub).trans hr
  advance hr := hr
  retire hr := hr
  receive _ _ hr := hr

theorem encrypt_bounded (fresh : Except Failure S.Priv) (plaintext : Bytes) {r : Ratchet S}
    (h : Bounded r) : Bounded (encrypt fresh plaintext r).2 := by
  rcases encrypt_outcome fresh plaintext r with ⟨r',hr',hout⟩ | ⟨e,hout⟩
  · rw [hout]
    rcases ensureSendingChain_ok hr' with ⟨-,rfl⟩ | ⟨-,nk,out,-,-,rfl⟩
    · exact h
    · exact h
  · rw [hout]
    exact h

theorem exec_bounded {r : Ratchet S} (h : Bounded r) (call : Call S) :
    Bounded (exec r call).2 := by
  cases call with
  | encrypt fresh plaintext => exact encrypt_bounded fresh plaintext h
  | decrypt env => exact bounded_receiving.decrypt env h

/-! ### Stored sessions -/

theorem card_rebuild_le (kvs : List (SkipKV S)) (base : SkippedKeys S) :
    (kvs.foldl (fun m kv => m.insert kv.index kv.v) base).keys.card ≤
      base.keys.card+kvs.length := by
  induction kvs generalizing base with
  | nil => exact Nat.le_refl _
  | cons kv kvs ih =>
      have hsub : (base.insert kv.index kv.v).keys ⊆ insert kv.index base.keys := by
        intro idx hidx
        rw [Finset.mem_insert,Finmap.mem_keys]
        exact Finmap.mem_insert.mp (Finmap.mem_keys.mp hidx)
      have hone := (Finset.card_le_card hsub).trans (Finset.card_insert_le _ _)
      have hrest := ih (base.insert kv.index kv.v)
      rw [List.foldl_cons,List.length_cons]
      omega

/-- The list has at most one entry for every key of the map. -/
theorem length_flatten_le {m : SkippedKeys S} {order : List ChainIndex} (h : Visits order m) :
    (flatten order m).length ≤ m.keys.card := by
  have hkeys : order.toFinset = m.keys := by
    ext idx
    rw [List.mem_toFinset,h.mem_iff,Finmap.mem_keys]
  rw [← hkeys,List.toFinset_card_of_nodup h.nodup]
  exact List.length_filterMap_le _ _

theorem restore_skipped {F : Seeds S} {p : Stored S} {r : Ratchet S} (h : restore F p = .ok r) :
    r.skipped = rebuild p.skipped := by
  rw [restore,restoreRatchet] at h
  split_ifs at h
  · cases h
    rfl
  · split at h
    · cases h
    · cases h
      rfl

theorem restore_bounded {F : Seeds S} {order : List ChainIndex} {r r' : Ratchet S}
    (horder : Visits order r.skipped) (h : restore F (store F order r) = .ok r')
    (hr : Bounded r) : Bounded r' := by
  rw [Bounded,size,restore_skipped h]
  have hcard := card_rebuild_le (flatten order r.skipped) ∅
  have hlength := length_flatten_le horder
  rw [Finmap.keys_empty,Finset.card_empty,Nat.zero_add] at hcard
  exact (hcard.trans hlength).trans hr

/-- Sessions to which a peer can steer: from the two constructors, by calls with any envelopes, and
by storing and restoring between them. -/
inductive Steered (F : Seeds S) : Ratchet S → Prop
  | begun {r : Ratchet S} (h : Begun r) : Steered F r
  | call {r : Ratchet S} (h : Steered F r) (call : Call S) : Steered F (exec r call).2
  | restored {r r' : Ratchet S} (h : Steered F r) {order : List ChainIndex}
      (horder : Visits order r.skipped) (hr : restore F (store F order r) = .ok r') : Steered F r'

theorem begun_bounded {r : Ratchet S} (h : Begun r) : Bounded r := by
  cases h with
  | alice h =>
      obtain ⟨eph,root,chain,-,-,rfl⟩ := aliceSession_ok h
      exact Nat.zero_le _
  | @bob keys env info msg _ h =>
      obtain ⟨-,-,-,root,chain,-,-,hopen⟩ := bobSession_ok h
      have hempty : Bounded (bobRatchet keys env root chain info) := Nat.zero_le _
      have hafter := bounded_receiving.openMessage env hempty
      rw [hopen] at hafter
      exact hafter

theorem Steered.bounded {F : Seeds S} {r : Ratchet S} (h : Steered F r) : Bounded r := by
  induction h with
  | begun h => exact begun_bounded h
  | call _ call ih => exact exec_bounded ih call
  | restored _ horder hr ih => exact restore_bounded horder hr ih

/-- The buffer never exceeds its bound, and no envelope makes a call derive more message keys than
two full buffers and its own. -/
theorem skip_budget {F : Seeds S} {r : Ratchet S} (h : Steered F r) :
    r.skipped.keys.card ≤ maxSkippedMessageKeys ∧
    ∀ env, (decryptCounted env r).out = decrypt env r ∧
      (decryptCounted env r).derived ≤ 2*maxSkippedMessageKeys+1 := by
  refine ⟨h.bounded,fun env => ?_⟩
  exact ⟨decryptCounted_out env r,decryptCounted_derived env r⟩

/-- The sample responder, stored and restored after it has skipped a message. -/
theorem skip_budget_ahead :
    (decryptCounted thirdMessage sampleReceiver).derived = 2 ∧
    ∃ r', restore sampleSeeds (store sampleSeeds [skippedIndex] ahead) = .ok r' ∧
      r'.skipped.keys.card ≤ maxSkippedMessageKeys ∧
      ∀ env, (decryptCounted env r').out = decrypt env r' ∧
        (decryptCounted env r').derived ≤ 2*maxSkippedMessageKeys+1 := by
  have hahead : Steered sampleSeeds ahead :=
    .call (.begun sampleReceiver_begun) (.decrypt thirdMessage)
  have hrestored := restore_store sampleSeeds_lawful ahead_reachable.whole ahead_visits
  exact ⟨by decide +kernel,_,hrestored,skip_budget (.restored hahead ahead_visits hrestored)⟩

end BaturWhatsApi.SkipBudget
