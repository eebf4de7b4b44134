import BaturWhatsApi.SessionAgreement

/-!
# What a rejected envelope leaves behind

The body is authenticated last. By then the ratchet step, the skip loops and the
removal of a stored key have happened, and no error path undoes them. The session
is untouched only on the exits that are taken before the first of these updates,
and those exits are decided by the state and the clear fields of the envelope.
-/
namespace BaturWhatsApi.RejectedEnvelopes
open ByteStrings CipherSuite RatchetModel SessionSetup RatchetSteps SessionAgreement

variable {S : Suite}

/-- As if the call had not happened. -/
def Undamaged (r r' : Ratchet S) : Prop :=
  r' = r ∧ ∀ g p, (decrypt g r).1 = .ok p → (decrypt g r').1 = .ok p

/-- The exits of the ratchet step that come before its first update. -/
def QuietStep (env : Envelope) (r : Ratchet S) : Prop :=
  (r.recvChain.isSome ∧ r.receivingCounter < env.prevCount ∧ maxSkippedMessageKeys ≤ size r) ∨
  ((r.recvChain = none ∨ env.prevCount ≤ r.receivingCounter) ∧ r.sendingChain = none ∧
    ∀ k, r.sendingDH = some k → ∃ e, dh k (copy32 env.ratchetPub) = .error e)

/-- The exits of the opening that come before its first update. -/
def QuietOpen (env : Envelope) (r : Ratchet S) : Prop :=
  r.skipped.lookup ⟨copy32 env.ratchetPub,env.prevCount,env.counter⟩ = none ∧
  (env.counter < r.receivingCounter ∨
    (r.receivingCounter < env.counter ∧ maxSkippedMessageKeys ≤ size r))

def Quiet (env : Envelope) (r : Ratchet S) : Prop :=
  if stepNeeded env r then QuietStep env r else QuietOpen env r

theorem undamaged_iff {r r' : Ratchet S} : Undamaged r r' ↔ r' = r := by
  constructor
  · exact And.left
  · rintro rfl
    exact ⟨rfl,fun _ _ h => h⟩

/-- The state after a failed opening differs unless the exit was quiet. -/
theorem openMessage_undamaged_iff {env : Envelope} {r r' : Ratchet S} {e : Failure}
    (h : openMessage env (copy32 env.ratchetPub) r = (.error e,r')) : r' = r ↔ QuietOpen env r := by
  have hstate := openMessage_state env (copy32 env.ratchetPub) r
  rw [h] at hstate
  obtain rfl : r' = _ := hstate
  have hout := takeKey_outcome env (copy32 env.ratchetPub) r
  generalize takeKey env (copy32 env.ratchetPub) r = out at hout
  cases hout with
  | stored hl =>
      -- the stored key is gone although the body was not authentic
      refine iff_of_false (fun heq => ?_) (fun hq => ?_)
      · have hlook := congrArg (fun t => Finmap.lookup
          ⟨copy32 env.ratchetPub,env.prevCount,env.counter⟩ (Ratchet.skipped t)) heq
        rw [show Finmap.lookup _ r.skipped = _ from hl] at hlook
        simp at hlook
      · rw [hq.1] at hl
        cases hl
  | old hl hc => exact iff_of_true rfl ⟨hl,.inl hc⟩
  | full hl hc hs =>
      rcases skipUntil_cases (copy32 env.ratchetPub) env.prevCount env.counter r with
        ⟨hle,_⟩ | ⟨_,hfull,hsame⟩ | ⟨_,hroom,k,hpos,hk,hmoved⟩
      · exact absurd hle (UInt32.not_le.mpr hc)
      · rw [hs] at hsame
        exact iff_of_true (congrArg Prod.snd hsame) ⟨hl,.inr ⟨hc,hfull⟩⟩
      · rw [hs] at hmoved
        refine iff_of_false (fun heq => ?_) (fun hq => ?_)
        · have hcount := congrArg Ratchet.receivingCounter (hmoved.symm.trans heq)
          rw [iterate_counter] at hcount
          exact counter_ne hpos (lt_of_le_of_lt hk (by decide)) hcount
        · rcases hq.2 with hlt | ⟨_,hfull⟩
          · exact absurd (UInt32.lt_trans hlt hc) (UInt32.lt_irrefl _)
          · exact absurd hfull (not_le.mpr hroom)
  | next hl hc hs =>
      -- the chain has moved past the message
      obtain ⟨hr,hsize⟩ := skipUntil_none _ _ hs
      refine iff_of_false (fun heq => ?_) (fun hq => ?_)
      · have hcount := congrArg Ratchet.receivingCounter heq
        rw [hr] at hcount
        change ((skipOne _ _)^[_] r).receivingCounter+1 = _ at hcount
        rw [iterate_counter,UInt32.add_assoc,show (1 : UInt32) = UInt32.ofNat 1 from rfl,
          ← UInt32.ofNat_add] at hcount
        have hle := rounds_le _ _ hsize
        exact counter_ne (Nat.succ_pos _) (lt_of_le_of_lt (Nat.succ_le_succ hle) (by decide)) hcount
      · rcases hq.2 with hlt | ⟨hlt,hfull⟩
        · exact absurd hc (UInt32.not_le.mpr hlt)
        · refine absurd (hsize 0 ?_) (not_lt.mpr hfull)
          rw [UInt32.lt_iff_toNat_lt] at hlt
          omega

/-- The loop over the old chain: untouched, full at once, or moved. -/
theorem skipOldChain_cases (pn : UInt32) (r : Ratchet S) :
    ((r.recvChain = none ∨ pn ≤ r.receivingCounter) ∧ skipOldChain pn r = (none,r)) ∨
    (r.recvChain.isSome ∧ r.receivingCounter < pn ∧ maxSkippedMessageKeys ≤ size r ∧
      skipOldChain pn r = (some .skippedExhausted,r)) ∨
    (r.recvChain.isSome ∧ r.receivingCounter < pn ∧ size r < maxSkippedMessageKeys ∧
      (skipOldChain pn r).2.receivingCounter ≠ r.receivingCounter) := by
  rw [skipOldChain]
  cases hc : r.recvChain with
  | none => exact .inl ⟨.inl rfl,rfl⟩
  | some c =>
      rw [if_pos (show (some c).isSome = true from rfl)]
      rcases skipUntil_cases r.recvPub r.previousCounter pn r with
        ⟨hle,h⟩ | ⟨hlt,hfull,h⟩ | ⟨hlt,hroom,k,hpos,hk,h⟩
      · exact .inl ⟨.inr hle,h⟩
      · exact .inr (.inl ⟨rfl,hlt,hfull,h⟩)
      · refine .inr (.inr ⟨rfl,hlt,hroom,?_⟩)
        rw [h,iterate_counter]
        exact counter_ne hpos (lt_of_le_of_lt hk (by decide))

theorem skipOldChain_full {pn : UInt32} {r : Ratchet S} (hsome : r.recvChain.isSome)
    (hlt : r.receivingCounter < pn) (hfull : maxSkippedMessageKeys ≤ size r) :
    skipOldChain pn r = (some .skippedExhausted,r) := by
  rcases skipOldChain_cases pn r with ⟨hnone | hle,_⟩ | ⟨_,_,_,h⟩ | ⟨_,_,hroom,_⟩
  · rw [hnone] at hsome
    cases hsome
  · exact absurd hle (UInt32.not_le.mpr hlt)
  · exact h
  · exact absurd hfull (not_le.mpr hroom)

/-- A loop with room and something to skip moves the chain. -/
theorem not_quietStep {env : Envelope} {r : Ratchet S} (hsome : r.recvChain.isSome)
    (hlt : r.receivingCounter < env.prevCount) (hroom : size r < maxSkippedMessageKeys) :
    ¬QuietStep env r := by
  rintro (⟨_,_,hfull⟩ | ⟨hnone | hle,_,_⟩)
  · exact absurd hfull (not_le.mpr hroom)
  · rw [hnone] at hsome
    cases hsome
  · exact absurd hle (UInt32.not_le.mpr hlt)

theorem retire_eq_iff {r : Ratchet S} : retireSendingChain r = r ↔ r.sendingChain = none := by
  constructor
  · intro h
    exact (congrArg Ratchet.sendingChain h).symm
  · intro h
    cases r
    simp only [retireSendingChain] at *
    rw [h]
    rfl

/-- A step that fails after its skip loop. -/
theorem retired_undamaged_iff {env : Envelope} {r r' : Ratchet S}
    (hs : skipOldChain env.prevCount r = (none,r'))
    (hk : ∀ k, r.sendingDH = some k → ∃ e, dh k (copy32 env.ratchetPub) = .error e) :
    retireSendingChain r' = r ↔ QuietStep env r := by
  rcases skipOldChain_cases env.prevCount r with ⟨hn,h⟩ | ⟨_,_,_,h⟩ | ⟨hsome,hlt,hroom,hne⟩
  · rw [hs] at h
    obtain rfl : r' = r := congrArg Prod.snd h
    rw [retire_eq_iff]
    refine ⟨fun hnone => .inr ⟨hn,hnone,hk⟩,fun hq => ?_⟩
    rcases hq with ⟨hsome,hlt,_⟩ | ⟨_,hnone,_⟩
    · rcases hn with hnone | hle
      · rw [hnone] at hsome
        cases hsome
      · exact absurd hle (UInt32.not_le.mpr hlt)
    · exact hnone
  · rw [hs] at h
    cases h
  · rw [hs] at hne
    exact iff_of_false
      (fun heq => hne (show (retireSendingChain r').receivingCounter = _ by rw [heq]))
      (not_quietStep hsome hlt hroom)

/-- After a completed step the state has the envelope's key as its remote key. -/
theorem openMessage_recvPub {env : Envelope} {pub : Bytes} {out : S.Secret} {r r' : Ratchet S}
    {res : Except Failure Bytes}
    (h : openMessage env pub (newReceivingChain pub out r) = (res,r')) :
    r'.recvPub = pub ∧ r'.recvChain.isSome := by
  have hstate := openMessage_state env pub (newReceivingChain pub out r)
  rw [h] at hstate
  obtain rfl : r' = _ := hstate
  exact ⟨(takeKey_same env pub _).recvPub,takeKey_recvChain env pub rfl⟩

theorem decrypt_undamaged_iff {env : Envelope} {r r' : Ratchet S} {e : Failure}
    (h : decrypt env r = (.error e,r')) : r' = r ↔ Quiet env r := by
  rw [decrypt] at h
  rw [Quiet]
  by_cases hstep : stepNeeded env r
  · rw [if_pos hstep] at h ⊢
    have hout := recvRatchetStep_outcome (copy32 env.ratchetPub) env.prevCount r
    generalize recvRatchetStep (copy32 env.ratchetPub) env.prevCount r = out at h hout
    cases hout with
    | full hs =>
        obtain rfl := congrArg Prod.snd h
        rcases skipOldChain_cases env.prevCount r with
          ⟨_,h'⟩ | ⟨hsome,hlt,hfull,h'⟩ | ⟨hsome,hlt,hroom,hne⟩
        · rw [hs] at h'
          cases h'
        · rw [hs] at h'
          exact iff_of_true (congrArg Prod.snd h') (.inl ⟨hsome,hlt,hfull⟩)
        · rw [hs] at hne
          exact iff_of_false (fun heq => hne (congrArg Ratchet.receivingCounter heq))
            (not_quietStep hsome hlt hroom)
    | noIdentity hs hd =>
        obtain rfl := congrArg Prod.snd h
        exact retired_undamaged_iff hs fun k hk => by rw [hd] at hk; cases hk
    | refused hs hd he =>
        obtain rfl := congrArg Prod.snd h
        exact retired_undamaged_iff hs fun k hk => ⟨_,by rw [hd] at hk; cases hk; exact he⟩
    | @stepped _ hs k hd _ ho =>
        obtain ⟨hpub,hchain⟩ := openMessage_recvPub h
        refine iff_of_false (fun heq => ?_) (fun hq => ?_)
        · -- the state before the call would not have needed the step
          rw [heq] at hpub hchain
          simp [stepNeeded,hpub,Option.isNone_iff_eq_none,Option.isSome_iff_ne_none.mp hchain] at hstep
        · rcases hq with ⟨hsome,hlt,hfull⟩ | ⟨_,_,herr⟩
          · rw [skipOldChain_full hsome hlt hfull] at hs
            cases hs
          · obtain ⟨e',he'⟩ := herr k hd
            rw [ho] at he'
            cases he'
  · rw [if_neg hstep] at h ⊢
    exact openMessage_undamaged_iff h

/-- A rejected envelope does no damage exactly when its call left before the
first update. -/
theorem decrypt_rejected_undamaged_iff {env : Envelope} {r r' : Ratchet S} {e : Failure}
    (h : decrypt env r = (.error e,r')) : Undamaged r r' ↔ Quiet env r :=
  undamaged_iff.trans (decrypt_undamaged_iff h)

/-- The first message delivered again: it is refused before anything is updated. -/
theorem decrypt_replayed_undamaged :
    (decrypt (sealMessage (text "hello") sampleStart) sampleReceiver).1 = .error .tooOld ∧
    Undamaged sampleReceiver
      (decrypt (sealMessage (text "hello") sampleStart) sampleReceiver).2 := by
  have h : (decrypt (sealMessage (text "hello") sampleStart) sampleReceiver).1 = .error .tooOld := by
    decide +kernel
  refine ⟨h,(decrypt_rejected_undamaged_iff (Prod.ext h rfl)).mpr ?_⟩
  rw [Quiet,if_neg (by decide +kernel)]
  exact ⟨by decide +kernel,.inl (by decide +kernel)⟩

/-- The second message with its body cut off is refused, and then the genuine one
is refused as well. -/
theorem decrypt_forged_then_lost :
    (decrypt (sealMessage (text "second") sampleSender) sampleReceiver).1 = .ok (text "second") ∧
    (decrypt {sealMessage (text "second") sampleSender with body := []} sampleReceiver).1 =
      .error .decryptFailed ∧
    (decrypt (sealMessage (text "second") sampleSender)
      (decrypt {sealMessage (text "second") sampleSender with body := []} sampleReceiver).2).1 =
        .error .tooOld := by
  decide +kernel

end BaturWhatsApi.RejectedEnvelopes
