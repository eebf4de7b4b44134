import BaturWhatsApi.RatchetModel

/-!
# What each step of a session can do

A skip loop is an iterate of its body. It stops early exactly when the buffer is
full, and because its indices are distinct it fills the buffer after at most as
many rounds as the buffer has places. Everything but the skipped keys, the
receiving chain and the receiving counter stays as it was.

The other steps are cut into their outcomes: how a message key is found, how a
ratchet step ends, and how a sending chain is made.
-/
namespace BaturWhatsApi.RatchetSteps
open ByteStrings CipherSuite RatchetModel

variable {S : Suite} (pub : Bytes) (pn : UInt32)

abbrev size (r : Ratchet S) : ℕ := r.skipped.keys.card

/-- What the loop leaves alone. -/
structure SameSession (r r' : Ratchet S) : Prop where
  rootKey : r'.rootKey = r.rootKey
  sendingChain : r'.sendingChain = r.sendingChain
  sendingDH : r'.sendingDH = r.sendingDH
  recvPub : r'.recvPub = r.recvPub
  haveRecvPub : r'.haveRecvPub = r.haveRecvPub
  initSent : r'.initSent = r.initSent
  isInitiator : r'.isInitiator = r.isInitiator
  sendingCounter : r'.sendingCounter = r.sendingCounter
  previousCounter : r'.previousCounter = r.previousCounter
  retiredSendCount : r'.retiredSendCount = r.retiredSendCount
  peer : peerIdentity r' = peerIdentity r

theorem SameSession.refl (r : Ratchet S) : SameSession r r :=
  ⟨rfl,rfl,rfl,rfl,rfl,rfl,rfl,rfl,rfl,rfl,rfl⟩

theorem SameSession.trans {r s t : Ratchet S} (h₁ : SameSession r s) (h₂ : SameSession s t) :
    SameSession r t :=
  ⟨h₂.1.trans h₁.1,h₂.2.trans h₁.2,h₂.3.trans h₁.3,h₂.4.trans h₁.4,h₂.5.trans h₁.5,
    h₂.6.trans h₁.6,h₂.7.trans h₁.7,h₂.8.trans h₁.8,h₂.9.trans h₁.9,h₂.10.trans h₁.10,
    h₂.11.trans h₁.11⟩

theorem skipOne_same (r : Ratchet S) : SameSession r (skipOne pub pn r) :=
  ⟨rfl,rfl,rfl,rfl,rfl,rfl,rfl,rfl,rfl,rfl,rfl⟩

theorem skipOne_skipped (r : Ratchet S) : (skipOne pub pn r).skipped =
    (r.skipped.insert ⟨pub,pn,r.receivingCounter⟩ (recvKey r) :
      Finmap fun _ : ChainIndex => S.Secret) := rfl

theorem iterate_same (k : ℕ) (r : Ratchet S) : SameSession r ((skipOne pub pn)^[k] r) := by
  induction k with
  | zero => exact .refl r
  | succ k ih =>
      rw [Function.iterate_succ_apply']
      exact ih.trans (skipOne_same pub pn _)

theorem iterate_counter (k : ℕ) (r : Ratchet S) :
    ((skipOne pub pn)^[k] r).receivingCounter = r.receivingCounter+UInt32.ofNat k := by
  induction k with
  | zero => simp
  | succ k ih =>
      rw [Function.iterate_succ_apply']
      show ((skipOne pub pn)^[k] r).receivingCounter+1 = _
      rw [ih,UInt32.add_assoc,UInt32.ofNat_add]
      rfl

theorem iterate_mem (k : ℕ) (r : Ratchet S) {i : ℕ} (hi : i < k) :
    (⟨pub,pn,r.receivingCounter+UInt32.ofNat i⟩ : ChainIndex) ∈
      ((skipOne pub pn)^[k] r).skipped := by
  induction k with
  | zero => omega
  | succ k ih =>
      rw [Function.iterate_succ_apply']
      show _ ∈ Finmap.insert _ _ _
      rw [Finmap.mem_insert,iterate_counter]
      rcases Nat.lt_succ_iff_lt_or_eq.mp hi with h | rfl
      · exact .inr (ih h)
      · exact .inl rfl

/-- Distinct indices fill the buffer. -/
theorem iterate_size {k : ℕ} (hk : k ≤ 2^32) (r : Ratchet S) :
    k ≤ size ((skipOne pub pn)^[k] r) := by
  have himage : (Finset.range k).image
      (fun i => (⟨pub,pn,r.receivingCounter+UInt32.ofNat i⟩ : ChainIndex)) ⊆
        ((skipOne pub pn)^[k] r).skipped.keys := by
    intro idx hidx
    obtain ⟨i,hi,rfl⟩ := Finset.mem_image.mp hidx
    exact Finmap.mem_keys.mpr (iterate_mem pub pn k r (Finset.mem_range.mp hi))
  have hcard := Finset.card_le_card himage
  rw [Finset.card_image_of_injOn,Finset.card_range] at hcard
  · exact hcard
  · intro i hi j hj hij
    have hi' := Finset.mem_range.mp (Finset.mem_coe.mp hi)
    have hj' := Finset.mem_range.mp (Finset.mem_coe.mp hj)
    exact counter_inj (by omega) (by omega) (congrArg ChainIndex.n hij)

theorem iterate_mem_cases (k : ℕ) {r : Ratchet S} {idx : ChainIndex}
    (h : idx ∈ ((skipOne pub pn)^[k] r).skipped) : idx ∈ r.skipped ∨ idx.ratchet = pub := by
  induction k with
  | zero => exact .inl h
  | succ k ih =>
      rw [Function.iterate_succ_apply'] at h
      rcases Finmap.mem_insert.mp h with rfl | h
      · exact .inr rfl
      · exact ih h

/-- A round adds at most one key. -/
theorem iterate_size_le (k : ℕ) (r : Ratchet S) : size ((skipOne pub pn)^[k] r) ≤ size r+k := by
  induction k with
  | zero => exact Nat.le_refl _
  | succ k ih =>
      rw [Function.iterate_succ_apply']
      set t := (skipOne pub pn)^[k] r with ht
      have hsub : (skipOne pub pn t).skipped.keys ⊆
          insert ⟨pub,pn,t.receivingCounter⟩ t.skipped.keys := by
        intro idx hidx
        rcases Finmap.mem_insert.mp (Finmap.mem_keys.mp hidx) with h | h
        · exact Finset.mem_insert.mpr (.inl h)
        · exact Finset.mem_insert.mpr (.inr (Finmap.mem_keys.mpr h))
      have hcard := (Finset.card_le_card hsub).trans (Finset.card_insert_le _ _)
      show (skipOne pub pn t).skipped.keys.card ≤ r.skipped.keys.card+(k+1)
      have hih : t.skipped.keys.card ≤ r.skipped.keys.card+k := ih
      omega

/-- The rounds touch their own indices only. -/
theorem iterate_lookup_ne (k : ℕ) {r : Ratchet S} {idx : ChainIndex}
    (h : ∀ i < k, idx ≠ ⟨pub,pn,r.receivingCounter+UInt32.ofNat i⟩) :
    ((skipOne pub pn)^[k] r).skipped.lookup idx = r.skipped.lookup idx := by
  induction k with
  | zero => rfl
  | succ k ih =>
      rw [Function.iterate_succ_apply']
      have hne : idx ≠ ⟨pub,pn,((skipOne pub pn)^[k] r).receivingCounter⟩ := by
        rw [iterate_counter]
        exact h k (Nat.lt_succ_self k)
      exact (Finmap.lookup_insert_of_ne _ hne).trans (ih fun i hi => h i (Nat.lt_succ_of_lt hi))

/-- The rounds that ran, and why the loop ended. -/
inductive SkipOutcome (n : ℕ) (r : Ratchet S) : Option Failure × Ratchet S → Prop
  | done (h : ∀ j < n, size ((skipOne pub pn)^[j] r) < maxSkippedMessageKeys) :
      SkipOutcome n r (none,(skipOne pub pn)^[n] r)
  | full {k : ℕ} (hk : k < n) (h : ∀ j < k, size ((skipOne pub pn)^[j] r) < maxSkippedMessageKeys)
      (hfull : maxSkippedMessageKeys ≤ size ((skipOne pub pn)^[k] r)) :
      SkipOutcome n r (some .skippedExhausted,(skipOne pub pn)^[k] r)

theorem skipKeys_outcome (n : ℕ) (r : Ratchet S) :
    SkipOutcome pub pn n r (skipKeys pub pn n r) := by
  induction n generalizing r with
  | zero => exact .done fun j hj => absurd hj (Nat.not_lt_zero j)
  | succ n ih =>
      rw [skipKeys]
      split_ifs with hfull
      · exact .full (k := 0) (Nat.succ_pos n) (fun j hj => absurd hj (Nat.not_lt_zero j)) hfull
      · have hzero : size r < maxSkippedMessageKeys := not_le.mp hfull
        have hstep : ∀ k, (∀ j < k, size ((skipOne pub pn)^[j] (skipOne pub pn r)) <
            maxSkippedMessageKeys) →
            ∀ j < k+1, size ((skipOne pub pn)^[j] r) < maxSkippedMessageKeys := by
          intro k h j hj
          cases j with
          | zero => exact hzero
          | succ j => exact h j (by omega)
        generalize hs : skipKeys pub pn n (skipOne pub pn r) = out
        have hout := ih (skipOne pub pn r)
        rw [hs] at hout
        cases hout with
        | done h => exact .done (hstep n h)
        | full hk h hfull => exact .full (Nat.succ_lt_succ hk) (hstep _ h) hfull

/-- No loop runs longer than the buffer is large. -/
theorem rounds_le {k : ℕ} {r : Ratchet S}
    (h : ∀ j < k, size ((skipOne pub pn)^[j] r) < maxSkippedMessageKeys) :
    k ≤ maxSkippedMessageKeys := by
  by_contra hk
  have hlt := h maxSkippedMessageKeys (not_le.mp hk)
  have hge := iterate_size pub pn (show maxSkippedMessageKeys ≤ 2^32 by decide) r
  omega

theorem iterate_recvChain (k : ℕ) (r : Ratchet S) (h : r.recvChain.isSome) :
    ((skipOne pub pn)^[k] r).recvChain.isSome := by
  cases k with
  | zero => exact h
  | succ k =>
      rw [Function.iterate_succ_apply']
      rfl

theorem iterate_chain (k : ℕ) {r : Ratchet S} {c : S.Secret} (hc : r.recvChain = some c) :
    ((skipOne pub pn)^[k] r).recvChain = some (nextChain^[k] c) := by
  induction k with
  | zero => exact hc
  | succ k ih =>
      rw [Function.iterate_succ_apply',Function.iterate_succ_apply']
      show some (kdfChain (keyInput ((skipOne pub pn)^[k] r).recvChain)).2 = _
      rw [ih]
      rfl

/-- Round `i` stores the key at position `i` of the chain. -/
theorem iterate_lookup_at {k i : ℕ} (hi : i < k) (hk : k ≤ 2^32) {r : Ratchet S} {c : S.Secret}
    (hc : r.recvChain = some c) :
    ((skipOne pub pn)^[k] r).skipped.lookup ⟨pub,pn,r.receivingCounter+UInt32.ofNat i⟩ =
      some (messageKey (nextChain^[i] c)) := by
  induction k with
  | zero => omega
  | succ k ih =>
      rw [Function.iterate_succ_apply']
      rw [skipOne_skipped,iterate_counter]
      rcases Nat.lt_succ_iff_lt_or_eq.mp hi with hlt | rfl
      · have hne : (⟨pub,pn,r.receivingCounter+UInt32.ofNat i⟩ : ChainIndex) ≠
            ⟨pub,pn,r.receivingCounter+UInt32.ofNat k⟩ := by
          intro h
          have := counter_inj (by omega) (by omega) (congrArg ChainIndex.n h)
          omega
        rw [Finmap.lookup_insert_of_ne _ hne]
        exact ih hlt (by omega)
      · rw [Finmap.lookup_insert,recvKey,iterate_chain pub pn _ hc]
        rfl

/-- With room for all its keys a loop runs to its end. -/
theorem skipUntil_of_room {bound : UInt32} {r : Ratchet S}
    (hroom : size r+(bound.toNat-r.receivingCounter.toNat) < maxSkippedMessageKeys) :
    skipUntil pub pn bound r =
      (none,(skipOne pub pn)^[bound.toNat-r.receivingCounter.toNat] r) := by
  have hout := skipKeys_outcome pub pn (bound.toNat-r.receivingCounter.toNat) r
  rw [skipUntil]
  generalize skipKeys pub pn (bound.toNat-r.receivingCounter.toNat) r = out at hout
  cases hout with
  | done _ => rfl
  | @full k hk _ hfull =>
      have hle := iterate_size_le pub pn k r
      omega

/-- A loop with its bound: nothing to do, nothing done, or some rounds done. -/
theorem skipUntil_cases (bound : UInt32) (r : Ratchet S) :
    (bound ≤ r.receivingCounter ∧ skipUntil pub pn bound r = (none,r)) ∨
    (r.receivingCounter < bound ∧ maxSkippedMessageKeys ≤ size r ∧
      skipUntil pub pn bound r = (some .skippedExhausted,r)) ∨
    (r.receivingCounter < bound ∧ size r < maxSkippedMessageKeys ∧
      ∃ k, 0 < k ∧ k ≤ maxSkippedMessageKeys ∧
        (skipUntil pub pn bound r).2 = (skipOne pub pn)^[k] r) := by
  rw [skipUntil]
  rcases Nat.eq_zero_or_pos (bound.toNat-r.receivingCounter.toNat) with hn | hn
  · left
    rw [hn]
    exact ⟨by rw [UInt32.le_iff_toNat_le]; omega,rfl⟩
  · have hlt : r.receivingCounter < bound := by
      rw [UInt32.lt_iff_toNat_lt]
      omega
    right
    generalize hs : skipKeys pub pn _ r = out
    have hout := skipKeys_outcome pub pn (bound.toNat-r.receivingCounter.toNat) r
    rw [hs] at hout
    cases hout with
    | done h => exact .inr ⟨hlt,h 0 hn,_,hn,rounds_le pub pn h,rfl⟩
    | @full k hk h hfull =>
        rcases Nat.eq_zero_or_pos k with rfl | hpos
        · exact .inl ⟨hlt,hfull,rfl⟩
        · exact .inr ⟨hlt,h 0 hpos,k,hpos,rounds_le pub pn h,rfl⟩

/-- Every loop leaves an iterate behind. -/
theorem skipUntil_iterate (bound : UInt32) (r : Ratchet S) :
    ∃ k, (skipUntil pub pn bound r).2 = (skipOne pub pn)^[k] r := by
  rcases skipUntil_cases pub pn bound r with ⟨_,h⟩ | ⟨_,_,h⟩ | ⟨_,_,k,_,_,h⟩
  · exact ⟨0,by rw [h]; rfl⟩
  · exact ⟨0,by rw [h]; rfl⟩
  · exact ⟨k,h⟩

theorem skipUntil_none {bound : UInt32} {r r' : Ratchet S}
    (h : skipUntil pub pn bound r = (none,r')) :
    r' = (skipOne pub pn)^[bound.toNat-r.receivingCounter.toNat] r ∧
      ∀ j < bound.toNat-r.receivingCounter.toNat,
        size ((skipOne pub pn)^[j] r) < maxSkippedMessageKeys := by
  have hout := skipKeys_outcome pub pn (bound.toNat-r.receivingCounter.toNat) r
  rw [skipUntil] at h
  rw [h] at hout
  cases hout with
  | done hs => exact ⟨rfl,hs⟩

theorem skipUntil_same (bound : UInt32) (r : Ratchet S) :
    SameSession r (skipUntil pub pn bound r).2 := by
  obtain ⟨k,hk⟩ := skipUntil_iterate pub pn bound r
  rw [hk]
  exact iterate_same pub pn k r

/-- The ways in which `openMessage` gets its key or fails to. -/
inductive TakeOutcome (env : Envelope) (pub : Bytes) (r : Ratchet S) :
    Except Failure S.Secret × Ratchet S → Prop
  | stored {sk : S.Secret} (h : r.skipped.lookup ⟨pub,env.prevCount,env.counter⟩ = some sk) :
      TakeOutcome env pub r
        (.ok sk,{r with skipped := r.skipped.erase ⟨pub,env.prevCount,env.counter⟩})
  | old (h : r.skipped.lookup ⟨pub,env.prevCount,env.counter⟩ = none)
      (hc : env.counter < r.receivingCounter) : TakeOutcome env pub r (.error .tooOld,r)
  | full (h : r.skipped.lookup ⟨pub,env.prevCount,env.counter⟩ = none)
      (hc : r.receivingCounter < env.counter) {e : Failure} {r' : Ratchet S}
      (hs : skipUntil pub env.prevCount env.counter r = (some e,r')) :
      TakeOutcome env pub r (.error e,r')
  | next (h : r.skipped.lookup ⟨pub,env.prevCount,env.counter⟩ = none)
      (hc : r.receivingCounter ≤ env.counter) {r' : Ratchet S}
      (hs : skipUntil pub env.prevCount env.counter r = (none,r')) :
      TakeOutcome env pub r (.ok (recvKey r'),advance r')

theorem takeKey_outcome (env : Envelope) (pub : Bytes) (r : Ratchet S) :
    TakeOutcome env pub r (takeKey env pub r) := by
  rw [takeKey]
  cases h : r.skipped.lookup ⟨pub,env.prevCount,env.counter⟩ with
  | some sk =>
      exact .stored h
  | none =>
      simp only
      split_ifs with hc
      · exact .old h hc
      · generalize hs : skipUntil pub env.prevCount env.counter r = out
        obtain ⟨o,r'⟩ := out
        cases o with
        | none => exact .next h (UInt32.not_lt.mp hc) hs
        | some e =>
            refine .full h ?_ hs
            rcases skipUntil_cases pub env.prevCount env.counter r with ⟨_,h'⟩ | ⟨h',_⟩ | ⟨h',_⟩
            · rw [h'] at hs
              cases hs
            · exact h'
            · exact h'

theorem takeKey_same (env : Envelope) (pub : Bytes) (r : Ratchet S) :
    SameSession r (takeKey env pub r).2 := by
  have hout := takeKey_outcome env pub r
  generalize takeKey env pub r = out at hout
  cases hout with
  | stored h => exact ⟨rfl,rfl,rfl,rfl,rfl,rfl,rfl,rfl,rfl,rfl,rfl⟩
  | old h hc => exact .refl r
  | full h hc hs => exact congrArg Prod.snd hs ▸ skipUntil_same pub _ _ r
  | next h hc hs =>
      have hsame := skipUntil_same pub env.prevCount env.counter r
      rw [hs] at hsame
      exact hsame.trans ⟨rfl,rfl,rfl,rfl,rfl,rfl,rfl,rfl,rfl,rfl,rfl⟩

theorem takeKey_recvChain (env : Envelope) (pub : Bytes) {r : Ratchet S} (h : r.recvChain.isSome) :
    (takeKey env pub r).2.recvChain.isSome := by
  have hout := takeKey_outcome env pub r
  generalize takeKey env pub r = out at hout
  cases hout with
  | stored _ => exact h
  | old _ _ => exact h
  | full _ _ hs =>
      obtain ⟨k,hk⟩ := skipUntil_iterate pub env.prevCount env.counter r
      rw [hs] at hk
      exact hk ▸ iterate_recvChain pub env.prevCount k r h
  | next _ _ _ => rfl

/-- Without a ratchet step there is a receiving chain already. -/
theorem recvChain_of_stays {env : Envelope} {r : Ratchet S} (h : ¬stepNeeded env r = true) :
    r.recvChain.isSome := by
  simp only [stepNeeded,Bool.or_eq_true,not_or,Bool.not_eq_true,Option.isNone_eq_false_iff] at h
  exact h.1

theorem openMessage_state (env : Envelope) (pub : Bytes) (r : Ratchet S) :
    (openMessage env pub r).2 = (takeKey env pub r).2 := by
  rw [openMessage]
  split
  · rename_i h
    rw [h]
  · rename_i h
    rw [h]

theorem openMessage_of_takeKey {env : Envelope} {pub : Bytes} {r r' : Ratchet S} {k : S.Secret}
    (h : takeKey env pub r = (.ok k,r')) : openMessage env pub r = (openWithKey k env,r') := by
  rw [openMessage,h]

theorem skipOldChain_same (pn : UInt32) (r : Ratchet S) : SameSession r (skipOldChain pn r).2 := by
  rw [skipOldChain]
  split_ifs
  · exact skipUntil_same _ _ _ r
  · exact .refl r

/-- The ways in which a ratchet step succeeds or fails. -/
inductive StepOutcome (pub : Bytes) (pn : UInt32) (r : Ratchet S) :
    Option Failure × Ratchet S → Prop
  | full {e : Failure} {r' : Ratchet S} (h : skipOldChain pn r = (some e,r')) :
      StepOutcome pub pn r (some e,r')
  | noIdentity {r' : Ratchet S} (h : skipOldChain pn r = (none,r')) (hd : r.sendingDH = none) :
      StepOutcome pub pn r (some .noSendingIdentity,retireSendingChain r')
  | refused {r' : Ratchet S} (h : skipOldChain pn r = (none,r')) {k : S.Priv}
      (hd : r.sendingDH = some k) {e : Failure} (he : dh k pub = .error e) :
      StepOutcome pub pn r (some e,retireSendingChain r')
  | stepped {r' : Ratchet S} (h : skipOldChain pn r = (none,r')) {k : S.Priv}
      (hd : r.sendingDH = some k) {out : S.Secret} (ho : dh k pub = .ok out) :
      StepOutcome pub pn r (none,newReceivingChain pub out (retireSendingChain r'))

theorem recvRatchetStep_outcome (pub : Bytes) (pn : UInt32) (r : Ratchet S) :
    StepOutcome pub pn r (recvRatchetStep pub pn r) := by
  rw [recvRatchetStep]
  generalize hs : skipOldChain pn r = out
  obtain ⟨o,r'⟩ := out
  have hsame := skipOldChain_same pn r
  rw [hs] at hsame
  have hDH : (retireSendingChain r').sendingDH = r.sendingDH := hsame.sendingDH
  cases o with
  | some e => exact .full hs
  | none =>
      simp only [hDH]
      cases hd : r.sendingDH with
      | none => exact .noIdentity hs hd
      | some k =>
          cases hk : dh k pub with
          | error e =>
              simp only [hk]
              exact .refused hs hd hk
          | ok out =>
              simp only [hk]
              exact .stepped hs hd hk

/-- The sending chain is there, or a new one is made. -/
theorem ensureSendingChain_ok {fresh : Except Failure S.Priv} {r r' : Ratchet S}
    (h : ensureSendingChain fresh r = .ok r') :
    (r.sendingChain.isSome ∧ r' = r) ∨
    (r.sendingChain = none ∧ ∃ nk out, fresh = .ok nk ∧ dh nk r.recvPub = .ok out ∧
      r' = newSendingChain nk out r) := by
  unfold ensureSendingChain at h
  split_ifs at h with hsome hpub
  · exact .inl ⟨hsome,(Except.ok.inj h).symm⟩
  · refine .inr ⟨Option.not_isSome_iff_eq_none.mp hsome,?_⟩
    cases fresh with
    | error e => cases h
    | ok nk =>
        cases ho : dh nk r.recvPub with
        | error e => simp [ho] at h
        | ok out =>
            simp only [ho,Except.ok.injEq] at h
            exact ⟨nk,out,rfl,ho,h.symm⟩

theorem ensureSendingChain_error {r : Ratchet S} (hc : r.sendingChain = none)
    (hp : r.haveRecvPub = true) (e : Failure) : ensureSendingChain (.error e) r = .error e := by
  unfold ensureSendingChain
  rw [if_neg (by simp [hc]),if_neg (by simp [hp])]

theorem ensureSendingChain_new {r : Ratchet S} (hc : r.sendingChain = none)
    (hp : r.haveRecvPub = true) {nk : S.Priv} {out : S.Secret} (hout : dh nk r.recvPub = .ok out) :
    ensureSendingChain (.ok nk) r = .ok (newSendingChain nk out r) := by
  unfold ensureSendingChain
  rw [if_neg (by simp [hc]),if_neg (by simp [hp])]
  simp only [hout]

/-- A message is sealed, or the call leaves the session alone. -/
theorem encrypt_outcome (fresh : Except Failure S.Priv) (p : Bytes) (r : Ratchet S) :
    (∃ r', ensureSendingChain fresh r = .ok r' ∧
      encrypt fresh p r = (.ok (sealMessage p r'),messageSent r')) ∨
    ∃ e, encrypt fresh p r = (.error e,r) := by
  rw [encrypt]
  cases h : ensureSendingChain fresh r with
  | error e => exact .inr ⟨e,rfl⟩
  | ok r' => exact .inl ⟨r',rfl,rfl⟩

end BaturWhatsApi.RatchetSteps
