import BaturWhatsApi.SendText
import BaturWhatsApi.SessionCalls

/-!
# A session that is stored and restored

The skipped keys are stored as a list, in the order in which a range statement visits
the map, and put into a new map one by one. A session that comes from one of the two
constructors by any calls comes back as it was, but for the signing function. That is used for
the first message of the initiator only, so a session that does not have to send it any more
answers every further call as if it had never been stored.
-/
namespace BaturWhatsApi.RatchetPersistence
open ByteStrings CipherSuite RatchetModel RatchetSteps SessionSetup SessionAgreement RatchetStorage
open SessionCalls
open SendText (sampleSeeds sampleSeeds_lawful)

variable {S : Suite}

/-! ### The list of skipped keys -/

abbrev SkippedKeys (S : Suite) := Finmap (fun _ : ChainIndex => S.Secret)

structure SkipKV (S : Suite) where
  key : Bytes
  pn : UInt32
  n : UInt32
  v : S.Secret

def SkipKV.index (kv : SkipKV S) : ChainIndex := ⟨copy32 kv.key,kv.pn,kv.n⟩

/-- The entries in the order in which they are visited. Each holds a slice of its own index: with
the Go version of the module a loop variable is new in every iteration. -/
def flatten (order : List ChainIndex) (m : SkippedKeys S) : List (SkipKV S) :=
  order.filterMap fun idx => (m.lookup idx).map fun v => ⟨idx.ratchet,idx.pn,idx.n,v⟩

def rebuild (kvs : List (SkipKV S)) : SkippedKeys S :=
  kvs.foldl (fun m kv => m.insert kv.index kv.v) ∅

/-- A stored session: the record without its skipped keys, and their list. -/
structure Stored (S : Suite) where
  record : PersistedRatchet S
  skipped : List (SkipKV S)

def store (F : Seeds S) (order : List ChainIndex) (r : Ratchet S) : Stored S :=
  { record := {marshalState F r with skipped := ∅}
    skipped := flatten order r.skipped }

def restore (F : Seeds S) (p : Stored S) : Except Failure (Ratchet S) :=
  restoreRatchet F {p.record with skipped := rebuild p.skipped}

/-- A range statement over the map visits every index once. -/
structure Visits (order : List ChainIndex) (m : SkippedKeys S) : Prop where
  nodup : order.Nodup
  mem_iff : ∀ idx, idx ∈ order ↔ idx ∈ m

theorem length_copy32 (b : Bytes) : (copy32 b).length = 32 := by
  simp only [copy32,List.length_append,List.length_take,List.length_replicate]
  omega

/-- An index with a whole ratchet key comes back as it was. -/
theorem index_entry {idx : ChainIndex} (h : idx.ratchet.length = 32) (v : S.Secret) :
    SkipKV.index (⟨idx.ratchet,idx.pn,idx.n,v⟩ : SkipKV S) = idx := by
  rw [SkipKV.index,copy32_of_length h]

theorem lookup_foldl (kvs : List (SkipKV S)) (m : SkippedKeys S) (idx : ChainIndex)
    (h : ∀ kv ∈ kvs, kv.index ≠ idx) :
    (kvs.foldl (fun m kv => m.insert kv.index kv.v) m).lookup idx = m.lookup idx := by
  induction kvs generalizing m with
  | nil => rfl
  | cons kv kvs ih =>
      rw [List.foldl_cons,ih _ fun kv' hkv' => h kv' (List.mem_cons_of_mem kv hkv')]
      exact Finmap.lookup_insert_of_ne _ (h kv List.mem_cons_self).symm

/-- Every entry that the list has is found again. -/
theorem lookup_rebuild {m : SkippedKeys S} (hlen : ∀ idx ∈ m, idx.ratchet.length = 32)
    (order : List ChainIndex) (base : SkippedKeys S) {idx : ChainIndex} {v : S.Secret}
    (hv : m.lookup idx = some v) (h : idx ∈ order ∨ base.lookup idx = some v) :
    ((flatten order m).foldl (fun m kv => m.insert kv.index kv.v) base).lookup idx = some v := by
  induction order generalizing base with
  | nil => exact h.resolve_left List.not_mem_nil
  | cons i order ih =>
      cases hi : m.lookup i with
      | none =>
          simp only [flatten,List.filterMap_cons,hi,Option.map_none]
          apply ih
          refine h.imp_left fun hmem => ?_
          rcases List.mem_cons.mp hmem with rfl | hmem
          · cases hi.symm.trans hv
          · exact hmem
      | some w =>
          have hindex := index_entry (hlen i (Finmap.mem_of_lookup_eq_some hi)) w
          simp only [flatten,List.filterMap_cons,hi,Option.map_some,List.foldl_cons,hindex]
          apply ih
          by_cases hidx : idx = i
          · subst hidx
            right
            rw [Finmap.lookup_insert,← hi,hv]
          · rw [Finmap.lookup_insert_of_ne _ hidx]
            exact h.imp_left fun hmem => (List.mem_cons.mp hmem).resolve_left hidx

theorem rebuild_flatten {m : SkippedKeys S} (hlen : ∀ idx ∈ m, idx.ratchet.length = 32)
    {order : List ChainIndex} (horder : Visits order m) : rebuild (flatten order m) = m := by
  apply Finmap.ext_lookup
  intro idx
  cases hv : m.lookup idx with
  | some v =>
      exact lookup_rebuild hlen order ∅ hv
        (.inl ((horder.mem_iff idx).mpr (Finmap.mem_of_lookup_eq_some hv)))
  | none =>
      rw [rebuild,lookup_foldl]
      · exact Finmap.lookup_empty idx
      · rintro kv hkv rfl
        obtain ⟨i,-,hi⟩ := List.mem_filterMap.mp hkv
        obtain ⟨w,hw,rfl⟩ := Option.map_eq_some_iff.mp hi
        rw [index_entry (hlen i (Finmap.mem_of_lookup_eq_some hw)) w] at hv
        cases hv.symm.trans hw

/-! ### Calls -/

/-- Sessions that come from the two constructors. A call that fails leaves a session behind too. -/
inductive Reachable : Ratchet S → Prop
  | begun {r : Ratchet S} (h : Begun r) : Reachable r
  | call {r : Ratchet S} (h : Reachable r) (call : Call S) : Reachable (exec r call).2

/-! ### Sessions without a signing function -/

def unsigned (r : Ratchet S) : Ratchet S := {r with signer := none}

/-- The session is a responder's or has sent its first message. -/
def Opened (r : Ratchet S) : Prop := r.isInitiator = false ∨ r.initSent = true

/-- The same, but for the signing function of the session that is left behind. -/
def unsignedAfter {α : Type} (out : α × Ratchet S) : α × Ratchet S := (out.1,unsigned out.2)

theorem skipKeys_unsigned (pub : Bytes) (pn : UInt32) (n : ℕ) (r : Ratchet S) :
    skipKeys pub pn n (unsigned r) = unsignedAfter (skipKeys pub pn n r) := by
  induction n generalizing r with
  | zero => rfl
  | succ n ih =>
      have hsame : (unsigned r).skipped = r.skipped := rfl
      simp only [skipKeys,hsame]
      by_cases hfull : maxSkippedMessageKeys ≤ r.skipped.keys.card
      · rw [if_pos hfull,if_pos hfull]
        rfl
      · rw [if_neg hfull,if_neg hfull]
        exact ih (skipOne pub pn r)

theorem skipUntil_unsigned (pub : Bytes) (pn bound : UInt32) (r : Ratchet S) :
    skipUntil pub pn bound (unsigned r) = unsignedAfter (skipUntil pub pn bound r) :=
  skipKeys_unsigned pub pn _ r

theorem skipOldChain_unsigned (pn : UInt32) (r : Ratchet S) :
    skipOldChain pn (unsigned r) = unsignedAfter (skipOldChain pn r) := by
  have hsame : (unsigned r).recvChain = r.recvChain := rfl
  simp only [skipOldChain,hsame]
  by_cases hchain : r.recvChain.isSome = true
  · rw [if_pos hchain,if_pos hchain]
    exact skipUntil_unsigned _ _ _ r
  · rw [if_neg hchain,if_neg hchain]
    rfl

theorem recvRatchetStep_unsigned (pub : Bytes) (pn : UInt32) (r : Ratchet S) :
    recvRatchetStep pub pn (unsigned r) = unsignedAfter (recvRatchetStep pub pn r) := by
  simp only [recvRatchetStep,skipOldChain_unsigned]
  obtain ⟨failure,r'⟩ := skipOldChain pn r
  cases failure with
  | some e => rfl
  | none =>
      have hsame : (retireSendingChain (unsigned r')).sendingDH =
        (retireSendingChain r').sendingDH := rfl
      simp only [unsignedAfter,hsame]
      cases (retireSendingChain r').sendingDH with
      | none => rfl
      | some k =>
          cases hout : dh k pub with
          | error e => simp only [hout]; rfl
          | ok out => simp only [hout]; rfl

theorem takeKey_unsigned (env : Envelope) (pub : Bytes) (r : Ratchet S) :
    takeKey env pub (unsigned r) = unsignedAfter (takeKey env pub r) := by
  have hskipped : (unsigned r).skipped = r.skipped := rfl
  have hcounter : (unsigned r).receivingCounter = r.receivingCounter := rfl
  simp only [takeKey,skipUntil_unsigned,hskipped,hcounter]
  cases r.skipped.lookup ⟨pub,env.prevCount,env.counter⟩ with
  | some sk => rfl
  | none =>
      by_cases hold : env.counter < r.receivingCounter
      · simp only [if_pos hold]
        rfl
      · simp only [if_neg hold]
        obtain ⟨failure,r'⟩ := skipUntil pub env.prevCount env.counter r
        cases failure <;> rfl

theorem openMessage_unsigned (env : Envelope) (pub : Bytes) (r : Ratchet S) :
    openMessage env pub (unsigned r) = unsignedAfter (openMessage env pub r) := by
  simp only [openMessage,takeKey_unsigned]
  obtain ⟨key,r'⟩ := takeKey env pub r
  cases key <;> rfl

theorem decrypt_unsigned (env : Envelope) (r : Ratchet S) :
    decrypt env (unsigned r) = unsignedAfter (decrypt env r) := by
  have hsame : stepNeeded env (unsigned r) = stepNeeded env r := rfl
  simp only [decrypt,hsame,recvRatchetStep_unsigned]
  by_cases hstep : stepNeeded env r = true
  · simp only [if_pos hstep]
    obtain ⟨failure,r'⟩ := recvRatchetStep (copy32 env.ratchetPub) env.prevCount r
    cases failure with
    | some e => rfl
    | none => exact openMessage_unsigned env _ r'
  · simp only [if_neg hstep]
    exact openMessage_unsigned env _ r

/-- The signing function is used for the first message of an initiator only. -/
theorem sealMessage_unsigned {r : Ratchet S} (h : Opened r) (plaintext : Bytes) :
    sealMessage plaintext (unsigned r) = sealMessage plaintext r := by
  have hhead : envelopeHead (unsigned r) = envelopeHead r := by
    have hlater : ¬(r.isInitiator && !r.initSent) = true := by
      rcases h with h | h <;> simp [h]
    rw [envelopeHead,envelopeHead,if_neg hlater]
    exact if_neg hlater
  simp only [sealMessage,hhead]
  rfl

theorem ensureSendingChain_unsigned (fresh : Except Failure S.Priv) (r : Ratchet S) :
    ensureSendingChain fresh (unsigned r) = (ensureSendingChain fresh r).map unsigned := by
  have hchain : (unsigned r).sendingChain = r.sendingChain := rfl
  have hhave : (unsigned r).haveRecvPub = r.haveRecvPub := rfl
  have hpub : (unsigned r).recvPub = r.recvPub := rfl
  simp only [ensureSendingChain,hchain,hhave,hpub]
  split_ifs
  · rfl
  · rfl
  · cases fresh with
    | error e => rfl
    | ok nk =>
        cases hout : dh nk r.recvPub with
        | error e => simp only [hout]; rfl
        | ok out => simp only [hout]; rfl

theorem ensureSendingChain_opened {fresh : Except Failure S.Priv} {r r' : Ratchet S}
    (h : ensureSendingChain fresh r = .ok r') (hr : Opened r) : Opened r' := by
  rcases ensureSendingChain_ok h with ⟨-,rfl⟩ | ⟨-,nk,out,-,-,rfl⟩
  · exact hr
  · exact hr

theorem encrypt_unsigned {r : Ratchet S} (h : Opened r) (fresh : Except Failure S.Priv)
    (plaintext : Bytes) :
    encrypt fresh plaintext (unsigned r) = unsignedAfter (encrypt fresh plaintext r) := by
  simp only [encrypt,ensureSendingChain_unsigned]
  cases hr : ensureSendingChain fresh r with
  | error e => rfl
  | ok r' =>
      simp only [Except.map,sealMessage_unsigned (ensureSendingChain_opened hr h)]
      rfl

theorem exec_unsigned {r : Ratchet S} (h : Opened r) (call : Call S) :
    exec (unsigned r) call = unsignedAfter (exec r call) := by
  cases call with
  | encrypt fresh plaintext =>
      simp only [exec,encrypt_unsigned h]
      rfl
  | decrypt env =>
      simp only [exec,decrypt_unsigned]
      rfl

/-! ### What calls keep -/

/-- What every part of a decryption keeps. A ratchet key is the one the session has or a copy of one
in an envelope. -/
structure Receiving (I : Ratchet S → Prop) : Prop where
  skip : ∀ {r : Ratchet S} {pub : Bytes} (pn bound : UInt32), I r →
    (pub = r.recvPub ∨ ∃ b, pub = copy32 b) → I (skipUntil pub pn bound r).2
  erase : ∀ {r : Ratchet S} (idx : ChainIndex), I r → I {r with skipped := r.skipped.erase idx}
  advance : ∀ {r : Ratchet S}, I r → I (advance r)
  retire : ∀ {r : Ratchet S}, I r → I (retireSendingChain r)
  receive : ∀ {r : Ratchet S} (b : Bytes) (out : S.Secret), I r →
    I (newReceivingChain (copy32 b) out r)

section
variable {I : Ratchet S → Prop} (h : Receiving I) {r : Ratchet S}
include h

theorem Receiving.openMessage (env : Envelope) (hr : I r) :
    I (openMessage env (copy32 env.ratchetPub) r).2 := by
  have hskip := h.skip env.prevCount env.counter hr (.inr ⟨env.ratchetPub,rfl⟩)
  have hout := takeKey_outcome env (copy32 env.ratchetPub) r
  rw [openMessage_state]
  generalize takeKey env (copy32 env.ratchetPub) r = out at hout ⊢
  cases hout with
  | stored _ => exact h.erase _ hr
  | old _ _ => exact hr
  | full _ _ hs => rw [hs] at hskip; exact hskip
  | next _ _ hs => rw [hs] at hskip; exact h.advance hskip

theorem Receiving.recvRatchetStep (b : Bytes) (pn : UInt32) (hr : I r) :
    I (recvRatchetStep (copy32 b) pn r).2 := by
  have hskip : I (skipOldChain pn r).2 := by
    rw [skipOldChain]
    split_ifs
    · exact h.skip _ _ hr (.inl rfl)
    · exact hr
  have hout := recvRatchetStep_outcome (copy32 b) pn r
  generalize RatchetModel.recvRatchetStep (copy32 b) pn r = out at hout ⊢
  cases hout with
  | full hs => rw [hs] at hskip; exact hskip
  | noIdentity hs _ => rw [hs] at hskip; exact h.retire hskip
  | refused hs _ _ => rw [hs] at hskip; exact h.retire hskip
  | stepped hs _ _ => rw [hs] at hskip; exact h.receive b _ (h.retire hskip)

theorem Receiving.decrypt (env : Envelope) (hr : I r) : I (decrypt env r).2 := by
  rw [RatchetModel.decrypt]
  split_ifs
  · have hstep := h.recvRatchetStep env.ratchetPub env.prevCount hr
    generalize RatchetModel.recvRatchetStep (copy32 env.ratchetPub) env.prevCount r = out at hstep
    obtain ⟨failure,r'⟩ := out
    cases failure with
    | some e => exact hstep
    | none => exact h.openMessage env hstep
  · exact h.openMessage env hr

end

theorem opened_receiving : Receiving (Opened : Ratchet S → Prop) where
  skip := by
    intro r pub pn bound hr _
    have hsame := skipUntil_same pub pn bound r
    exact hr.imp hsame.isInitiator.trans hsame.initSent.trans
  erase _ hr := hr
  advance hr := hr
  retire hr := hr
  receive _ _ hr := hr

theorem exec_opened {r : Ratchet S} (h : Opened r) (call : Call S) : Opened (exec r call).2 := by
  cases call with
  | encrypt fresh plaintext =>
      rcases encrypt_outcome fresh plaintext r with ⟨r',hr',hout⟩ | ⟨e,hout⟩
      · simp only [exec,hout]
        refine (ensureSendingChain_opened hr' h).imp id fun hsent => ?_
        simp only [messageSent,hsent,Bool.true_or]
      · simp only [exec,hout]
        exact h
  | decrypt env => exact opened_receiving.decrypt env h

/-- The two sessions answer every sequence of calls alike. -/
theorem results_unsigned {r : Ratchet S} (h : Opened r) (calls : List (Call S)) :
    results calls (unsigned r) = results calls r := by
  induction calls generalizing r with
  | nil => rfl
  | cons call calls ih =>
      simp only [results,exec_unsigned h]
      exact congrArg _ (ih (exec_opened h call))

/-! ### Whole keys -/

/-- The arrays of the source: ratchet keys of 32 bytes. -/
structure Whole (r : Ratchet S) : Prop where
  recvPub : r.recvPub.length = 32
  skipped : ∀ idx ∈ r.skipped, idx.ratchet.length = 32

theorem whole_receiving : Receiving (Whole : Ratchet S → Prop) where
  skip := by
    intro r pub pn bound hr hpub
    have hlength : pub.length = 32 := by
      rcases hpub with rfl | ⟨b,rfl⟩
      · exact hr.recvPub
      · exact length_copy32 b
    obtain ⟨k,hk⟩ := skipUntil_iterate pub pn bound r
    rw [hk]
    constructor
    · rw [(iterate_same pub pn k r).recvPub]
      exact hr.recvPub
    · intro idx hidx
      rcases iterate_mem_cases pub pn k hidx with hbefore | hnew
      · exact hr.skipped idx hbefore
      · rw [hnew,hlength]
  erase _ hr := ⟨hr.recvPub,fun idx hidx => hr.skipped idx (Finmap.mem_erase.mp hidx).2⟩
  advance hr := ⟨hr.recvPub,hr.skipped⟩
  retire hr := ⟨hr.recvPub,hr.skipped⟩
  receive b _ hr := ⟨length_copy32 b,hr.skipped⟩

theorem Whole.encrypt {r : Ratchet S} (h : Whole r) (fresh : Except Failure S.Priv)
    (plaintext : Bytes) : Whole (encrypt fresh plaintext r).2 := by
  rcases encrypt_outcome fresh plaintext r with ⟨r',hr',hout⟩ | ⟨e,hout⟩
  · rw [hout]
    rcases ensureSendingChain_ok hr' with ⟨-,rfl⟩ | ⟨-,nk,out,-,-,rfl⟩
    · exact ⟨h.recvPub,h.skipped⟩
    · exact ⟨h.recvPub,h.skipped⟩
  · rw [hout]
    exact h

theorem not_mem_empty (idx : ChainIndex) : idx ∉ (∅ : SkippedKeys S) := Finmap.notMem_empty

theorem begun_whole {r : Ratchet S} (h : Begun r) : Whole r := by
  cases h with
  | alice h =>
      obtain ⟨eph,root,chain,-,-,rfl⟩ := aliceSession_ok h
      exact ⟨List.length_replicate,fun idx hidx => absurd hidx (not_mem_empty idx)⟩
  | @bob keys env info msg _ h =>
      obtain ⟨-,-,-,root,chain,-,-,hopen⟩ := bobSession_ok h
      have hwhole : Whole (bobRatchet keys env root chain info) :=
        ⟨length_copy32 _,fun idx hidx => absurd hidx (not_mem_empty idx)⟩
      have hafter := whole_receiving.openMessage env hwhole
      rw [hopen] at hafter
      exact hafter

theorem Reachable.whole {r : Ratchet S} (h : Reachable r) : Whole r := by
  induction h with
  | begun h => exact begun_whole h
  | call _ call ih =>
      cases call with
      | encrypt fresh plaintext => exact ih.encrypt fresh plaintext
      | decrypt env => exact whole_receiving.decrypt env ih

/-! ### Storing and restoring -/

theorem restore_store {F : Seeds S} (hF : F.Lawful) {r : Ratchet S} (h : Whole r)
    {order : List ChainIndex} (horder : Visits order r.skipped) :
    restore F (store F order r) = .ok (unsigned r) := by
  have hrecord : {(store F order r).record with skipped := rebuild (store F order r).skipped} =
      marshalState F r := by
    simp only [store,rebuild_flatten h.skipped horder]
    rfl
  rw [restore,hrecord,restoreRatchet_marshalState hF,restored,copy32_of_length h.recvPub]
  rfl

/-- A session that is stored and restored answers every sequence of calls as it would have. -/
theorem persistence_invisible {F : Seeds S} (hF : F.Lawful) {r : Ratchet S} (hr : Reachable r)
    (hphase : r.isInitiator = false ∨ r.initSent = true) {order : List ChainIndex}
    (horder : Visits order r.skipped) :
    ∃ r', restore F (store F order r) = .ok r' ∧
      ∀ calls : List (Call S), results calls r' = results calls r :=
  ⟨unsigned r,restore_store hF hr.whole horder,results_unsigned hphase⟩

/-! A responder that has read the third message before the second. -/

def secondMessage : Envelope := sealMessage (text "second") sampleSender
def thirdMessage : Envelope := sealMessage (text "third") (messageSent sampleSender)

def ahead : Ratchet SymbolicSuite.suite := (exec sampleReceiver (.decrypt thirdMessage)).2

def skippedIndex : ChainIndex := ⟨copy32 secondMessage.ratchetPub,0,1⟩

theorem ahead_reachable : Reachable ahead :=
  .call (.begun sampleReceiver_begun) (.decrypt thirdMessage)

theorem ahead_visits : Visits [skippedIndex] ahead.skipped := by
  have hkeys : ahead.skipped.keys = {skippedIndex} := by decide +kernel
  constructor
  · exact List.nodup_singleton skippedIndex
  · intro idx
    rw [← Finmap.mem_keys,hkeys,Finset.mem_singleton,List.mem_singleton]

theorem persistence_invisible_ahead :
    (∃ r', restore sampleSeeds (store sampleSeeds [skippedIndex] ahead) = .ok r' ∧
      ∀ calls : List (Call SymbolicSuite.suite), results calls r' = results calls ahead) ∧
    results [.decrypt secondMessage,.decrypt secondMessage] ahead =
      [.opened (.ok (text "second")),.opened (.error .tooOld)] :=
  ⟨persistence_invisible sampleSeeds_lawful ahead_reachable (.inl rfl) ahead_visits,
    by decide +kernel⟩

end BaturWhatsApi.RatchetPersistence
