import BaturWhatsApi.Intruder
import BaturWhatsApi.KeyErasure
import BaturWhatsApi.ReplayFreedom
import BaturWhatsApi.Runs

/-!
# What a stolen session gives away

A session that falls into other hands shows its root key, its two chain keys, the keys put aside
for late messages and the private key of its sending pair. Whoever has them is an intruder with
these secrets, and with private keys and public values from elsewhere as well.

He does not get back to the keys of messages that were sent or opened before, because every key
is erased when the next one is derived from it. And he loses the session again with the first
ratchet step whose agreement he cannot compute: from then on only keys that were put aside before
that step are his.
-/
namespace BaturWhatsApi.SessionSecrecy
open ByteStrings CipherSuite RatchetModel SessionSetup RatchetSteps SessionAgreement DerivedKeys
open SessionCalls ReplayFreedom KeyErasure Runs Fallible Intruder

variable {S : Suite}

inductive Slot where
  | root
  | send
  | recv
  | aside (i : ChainIndex)

/-- The secrets of a session. -/
def slots (r : Ratchet S) : Slot → Option S.Secret
  | .root => some r.rootKey
  | .send => r.sendingChain
  | .recv => r.recvChain
  | .aside i => r.skipped.lookup i

/-- The private key and the public values of a session, with others from elsewhere. -/
def loot (r : Ratchet S) (others : Means S) : Means S where
  keys := {k | r.sendingDH = some k} ∪ others.keys
  points := {r.recvPub,r.selfDH,r.peerIdentityPub} ∪ others.points

/-- What the holder of a session can compute, by other means beside it. -/
def Stolen (r : Ratchet S) (others : Means S) (s : S.Secret) : Prop :=
  Knows {x | ∃ i, slots r i = some x} (loot r others) s

/-- The key a call seals or opens a body with. -/
def used : Call S → Ratchet S → List S.Secret
  | .encrypt fresh _,r =>
      match ensureSendingChain fresh r with
      | .error _ => []
      | .ok r => [sendKey r]
  | .decrypt env,r => (keyFor env r).toList

/-- The session after a sequence of calls. -/
def after (calls : List (Call S)) (r : Ratchet S) : Ratchet S := run (fun r c => c.after r) calls r

/-- The keys of a sequence of calls. -/
def usedKeys : List (Call S) → Ratchet S → List S.Secret
  | [],_ => []
  | c::calls,r => used c r++usedKeys calls (c.after r)

/-! ### The operations of a session -/

/-- The derivations of a session hash under the secret they replace. -/
def keyed (hF : S.Free) : Derivation S.Secret (List (Atom S.Secret)) where
  derive x d := S.hmac [.secret x] d
  injective h := by simpa using hF.hmac_inj h

/-- Nothing is derived from a key that was put aside. -/
def chainSlots : Set Slot := {p | ∀ i, p ≠ .aside i}

abbrev Moved (hF : S.Free) (keys : Set S.Secret) (r r' : Ratchet S) : Prop :=
  Moves (keyed hF) chainSlots keys (slots r) (slots r')

section
variable (hF : S.Free) {r r' : Ratchet S}

theorem moved_step (p : Slot) (writes : List (Slot × List (Atom S.Secret)))
    (used : Set (List (Atom S.Secret))) {x : S.Secret} (hparent : p ∈ chainSlots)
    (hp : slots r p = some x)
    (hs : ∀ j y, slots r' j = some y →
      (∃ d, (j,d) ∈ writes ∧ y = S.hmac [.secret x] d) ∨ (slots r j = some y ∧ j ≠ p))
    (hnodup : (writes.map Prod.snd).Nodup) (hused : ∀ w ∈ writes, w.2 ∉ used) :
    Moved hF (S.hmac [.secret x] '' used) r r' := .step hparent hp hs hnodup hused

/-- A key is put aside, over whatever the index held. -/
theorem moved_skipOne (pub : Bytes) (pn : UInt32) (h : r.recvChain.isSome) :
    Moved hF ∅ r (skipOne pub pn r) := by
  obtain ⟨c,hc⟩ := Option.isSome_iff_exists.mp h
  refine (moved_step hF .recv
    [(.recv,[.byte 2]),(.aside ⟨pub,pn,r.receivingCounter⟩,[.byte 1])] ∅ (by simp [chainSlots]) hc
    ?_ (by simp) fun _ _ hd => hd).mono (Set.empty_subset _)
  rintro (_ | _ | _ | i) y hy
  · exact .inr ⟨hy,by simp⟩
  · exact .inr ⟨hy,by simp⟩
  · simp only [slots,skipOne,advance,hc,keyInput,kdfChain,Option.some.injEq] at hy
    exact .inl ⟨_,by simp,hy.symm⟩
  · simp only [slots,skipOne_skipped] at hy
    by_cases hi : i = ⟨pub,pn,r.receivingCounter⟩
    · subst hi
      rw [Finmap.lookup_insert,recvKey,hc,Option.some.injEq] at hy
      exact .inl ⟨_,by simp,hy.symm⟩
    · rw [Finmap.lookup_insert_of_ne _ hi] at hy
      exact .inr ⟨hy,by simp⟩

theorem moved_iterate (pub : Bytes) (pn : UInt32) (h : r.recvChain.isSome) (k : ℕ) :
    Moved hF ∅ r ((skipOne pub pn)^[k] r) := by
  induction k with
  | zero => exact .refl _
  | succ k ih =>
      rw [Function.iterate_succ_apply']
      exact (ih.trans (moved_skipOne hF pub pn (iterate_recvChain pub pn k r h))).mono (by simp)

theorem moved_skipUntil (pub : Bytes) (pn bound : UInt32) (h : r.recvChain.isSome) :
    Moved hF ∅ r (skipUntil pub pn bound r).2 := by
  obtain ⟨k,hk⟩ := skipUntil_iterate pub pn bound r
  rw [hk]
  exact moved_iterate hF pub pn h k

theorem moved_skipOldChain (pn : UInt32) (r : Ratchet S) : Moved hF ∅ r (skipOldChain pn r).2 := by
  rw [skipOldChain]
  split_ifs with h
  · exact moved_skipUntil hF _ _ _ h
  · exact .refl _

theorem moved_retireSendingChain (r : Ratchet S) : Moved hF ∅ r (retireSendingChain r) := by
  refine Moves.mono (.drop ?_) (Set.empty_subset _)
  rintro (_ | _ | _ | i) y hy
  · exact hy
  · cases hy
  · exact hy
  · exact hy

/-- The root key is replaced, and a chain starts from the old one. -/
theorem moved_newReceivingChain (pub : Bytes) (out : S.Secret) (r : Ratchet S) :
    Moved hF ∅ r (newReceivingChain pub out r) := by
  refine (moved_step hF .root [(.root,[.byte 0x80,.secret out]),(.recv,[.byte 0x07,.secret out])] ∅
    (by simp [chainSlots]) rfl ?_ (by simp) fun _ _ hd => hd).mono (Set.empty_subset _)
  rintro (_ | _ | _ | i) y hy
  · exact .inl ⟨_,by simp,(Option.some.inj hy).symm⟩
  · exact .inr ⟨hy,by simp⟩
  · exact .inl ⟨_,by simp,(Option.some.inj hy).symm⟩
  · exact .inr ⟨hy,by simp⟩

theorem moved_newSendingChain (nk : S.Priv) (out : S.Secret) (r : Ratchet S) :
    Moved hF ∅ r (newSendingChain nk out r) := by
  refine (moved_step hF .root [(.root,[.byte 0x80,.secret out]),(.send,[.byte 0x07,.secret out])] ∅
    (by simp [chainSlots]) rfl ?_ (by simp) fun _ _ hd => hd).mono (Set.empty_subset _)
  rintro (_ | _ | _ | i) y hy
  · exact .inl ⟨_,by simp,(Option.some.inj hy).symm⟩
  · exact .inl ⟨_,by simp,(Option.some.inj hy).symm⟩
  · exact .inr ⟨hy,by simp⟩
  · exact .inr ⟨hy,by simp⟩

/-- The key of a message is handed out. -/
theorem moved_messageSent (h : r.sendingChain.isSome) : Moved hF {sendKey r} r (messageSent r) := by
  obtain ⟨c,hc⟩ := Option.isSome_iff_exists.mp h
  refine (moved_step hF .send [(.send,[.byte 2])] {[.byte 1]} (by simp [chainSlots]) hc ?_ (by simp)
    (by simp)).mono ?_
  · rintro (_ | _ | _ | i) y hy
    · exact .inr ⟨hy,by simp⟩
    · simp only [slots,messageSent,hc,keyInput,kdfChain,Option.some.injEq] at hy
      exact .inl ⟨_,by simp,hy.symm⟩
    · exact .inr ⟨hy,by simp⟩
    · exact .inr ⟨hy,by simp⟩
  · rw [Set.image_singleton,Set.singleton_subset_singleton,sendKey,hc]
    rfl

theorem moved_advance (h : r.recvChain.isSome) : Moved hF {recvKey r} r (advance r) := by
  obtain ⟨c,hc⟩ := Option.isSome_iff_exists.mp h
  refine (moved_step hF .recv [(.recv,[.byte 2])] {[.byte 1]} (by simp [chainSlots]) hc ?_ (by simp)
    (by simp)).mono ?_
  · rintro (_ | _ | _ | i) y hy
    · exact .inr ⟨hy,by simp⟩
    · exact .inr ⟨hy,by simp⟩
    · simp only [slots,advance,hc,keyInput,kdfChain,Option.some.injEq] at hy
      exact .inl ⟨_,by simp,hy.symm⟩
    · exact .inr ⟨hy,by simp⟩
  · rw [Set.image_singleton,Set.singleton_subset_singleton,recvKey,hc]
    rfl

theorem moved_erase {i : ChainIndex} {k : S.Secret} (hi : r.skipped.lookup i = some k) :
    Moved hF {k} r {r with skipped := r.skipped.erase i} := by
  refine Moves.mono (.drop ?_) (Set.singleton_subset_iff.mpr ⟨.aside i,hi,Finmap.lookup_erase i _⟩)
  rintro (_ | _ | _ | j) y hy
  · exact hy
  · exact hy
  · exact hy
  · by_cases hj : j = i
    · subst hj
      simp only [slots,Finmap.lookup_erase] at hy
      cases hy
    · simp only [slots,Finmap.lookup_erase_ne hj] at hy
      exact hy

theorem moved_takeKey (h : r.recvChain.isSome) (env : Envelope) (pub : Bytes) :
    Moved hF {k | (takeKey env pub r).1.toOption = some k} r (takeKey env pub r).2 := by
  have hskip := moved_skipUntil hF pub env.prevCount env.counter h
  have hout := takeKey_outcome env pub r
  generalize takeKey env pub r = out at hout
  cases hout with
  | stored hl => exact (moved_erase hF hl).mono (by simp [Except.toOption])
  | old _ _ => exact (Moves.refl _).mono (by simp [Except.toOption])
  | full _ _ hs =>
      rw [hs] at hskip
      exact hskip.mono (by simp [Except.toOption])
  | @next _ _ r' hs =>
      obtain ⟨k,hk⟩ := skipUntil_iterate pub env.prevCount env.counter r
      rw [hs] at hskip hk
      have hsome : r'.recvChain.isSome := by
        rw [show r' = _ from hk]
        exact iterate_recvChain pub env.prevCount k r h
      exact (hskip.trans (moved_advance hF hsome)).mono (by simp [Except.toOption])

theorem moved_recvRatchetStep (pub : Bytes) (pn : UInt32) (r : Ratchet S) :
    Moved hF ∅ r (recvRatchetStep pub pn r).2 := by
  have hold := moved_skipOldChain hF pn r
  have hout := recvRatchetStep_outcome pub pn r
  generalize recvRatchetStep pub pn r = out at hout
  cases hout with
  | full hs =>
      rw [hs] at hold
      exact hold
  | noIdentity hs _ =>
      rw [hs] at hold
      exact (hold.trans (moved_retireSendingChain hF _)).mono (by simp)
  | refused hs _ _ =>
      rw [hs] at hold
      exact (hold.trans (moved_retireSendingChain hF _)).mono (by simp)
  | stepped hs _ _ =>
      rw [hs] at hold
      exact ((hold.trans (moved_retireSendingChain hF _)).trans
        (moved_newReceivingChain hF pub _ _)).mono (by simp)

theorem moved_encrypt (fresh : Except Failure S.Priv) (p : Bytes) (r : Ratchet S) :
    Moved hF {k | k ∈ used (.encrypt fresh p) r} r (encrypt fresh p r).2 := by
  rw [encrypt]
  cases hens : ensureSendingChain fresh r with
  | error e => exact (Moves.refl _).mono (by simp [used,hens])
  | ok r' =>
      have hkeys : {k | k ∈ used (.encrypt fresh p) r} ⊆ {sendKey r'} := by simp [used,hens]
      rcases ensureSendingChain_ok hens with ⟨hsome,rfl⟩ | ⟨_,nk,out,_,_,rfl⟩
      · exact (moved_messageSent hF hsome).mono hkeys
      · exact ((moved_newSendingChain hF nk out r).trans (moved_messageSent hF rfl)).mono
          (by simpa using hkeys)

theorem moved_decrypt (env : Envelope) (r : Ratchet S) :
    Moved hF {k | k ∈ used (.decrypt env) r} r (decrypt env r).2 := by
  simp only [used,keyFor,decrypt,Option.mem_toList]
  by_cases hstep : stepNeeded env r
  · simp only [hstep,if_true]
    have hmoved := moved_recvRatchetStep hF (copy32 env.ratchetPub) env.prevCount r
    have hout := recvRatchetStep_outcome (copy32 env.ratchetPub) env.prevCount r
    generalize recvRatchetStep (copy32 env.ratchetPub) env.prevCount r = out at *
    cases hout with
    | full _ => exact hmoved.mono (by simp)
    | noIdentity _ _ => exact hmoved.mono (by simp)
    | refused _ _ _ => exact hmoved.mono (by simp)
    | stepped _ _ _ =>
        simp only [openMessage_state]
        exact (hmoved.trans (moved_takeKey hF rfl env _)).mono (by simp)
  · have hsome := recvChain_of_stays hstep
    simp only [hstep,Bool.false_eq_true,if_false,openMessage_state]
    exact moved_takeKey hF hsome env _

theorem moved_call (c : Call S) (r : Ratchet S) : Moved hF {k | k ∈ used c r} r (c.after r) := by
  cases c with
  | encrypt fresh p => exact moved_encrypt hF fresh p r
  | decrypt env => exact moved_decrypt hF env r

theorem moved_run (calls : List (Call S)) (r : Ratchet S) :
    Moved hF {k | k ∈ usedKeys calls r} r (after calls r) := by
  induction calls generalizing r with
  | nil => exact (Moves.refl _).mono (by simp [usedKeys])
  | cons c calls ih =>
      refine ((moved_call hF c r).trans (ih (c.after r))).mono ?_
      intro k hk
      exact List.mem_append.mp hk

end

/-! ### Where a session comes from -/

/-- The agreements behind the initiator's first keys. -/
def initiatorAgreements (identity eph : S.Priv) (bundle : PreKeyBundle) (order : OneTimeKeys) :
    List (S.Priv × Bytes) :=
  [(identity,bundle.identityPub),(eph,bundle.signedPreKeyPub),(identity,bundle.signedPreKeyPub)]++
    (firstKey order).toList.map fun pub => (eph,pub)

def recipientAgreements (keys : BobKeys S) (env : Envelope) : List (S.Priv × Bytes) :=
  [(keys.identity.dhKey,env.identityPub),(keys.signedPreKey,env.ratchetPub),
    (keys.signedPreKey,env.identityPub)]++keys.oneTimeKey.toList.map fun k => (k,env.ratchetPub)

/-- A new session, one of the agreements behind it, and the keys it has used so far. -/
inductive Founded (δ : S.Secret) : Ratchet S → List S.Secret → Prop
  | alice {eph : S.Priv} {bundle : PreKeyBundle} {keyOrder idOrder : OneTimeKeys}
      {identity : Identity S} {info : Bytes} {r : Ratchet S}
      (h : aliceSession (.ok eph) bundle keyOrder idOrder identity info = .ok r)
      {a : S.Priv × Bytes} (ha : a ∈ initiatorAgreements identity.dhKey eph bundle keyOrder)
      (hd : dh a.1 a.2 = .ok δ) : Founded δ r []
  | bob {keys : BobKeys S} {env : Envelope} {info msg : Bytes} {r : Ratchet S}
      (h : bobSession keys env info = .ok (r,msg)) {a : S.Priv × Bytes}
      (ha : a ∈ recipientAgreements keys env) (hd : dh a.1 a.2 = .ok δ) :
      Founded δ r (sessionKey keys env info).toList

theorem x3dhInitiator_input {identity eph : S.Priv} {bundle : PreKeyBundle} {order : OneTimeKeys}
    {info : Bytes} {rc : S.Secret × S.Secret}
    (h : x3dhInitiator identity eph bundle order info = .ok rc) :
    ∃ ikm, rc = x3dhDerive ikm info ∧
      ∀ a ∈ initiatorAgreements identity eph bundle order, ∀ δ, dh a.1 a.2 = .ok δ →
        .secret δ ∈ ikm := by
  obtain ⟨d1,d2,d3,d4,h1,h2,h3,h4,hrc⟩ := x3dhInitiator_ok h
  refine ⟨_,hrc,fun a ha δ hd => ?_⟩
  rcases h4 with ⟨hk,rfl⟩ | ⟨pub,s,hk,rfl,hs⟩
  · simp only [initiatorAgreements,hk] at ha
    fin_cases ha <;> simp_all [x3dhInput]
  · simp only [initiatorAgreements,hk] at ha
    fin_cases ha <;> simp_all [x3dhInput]

theorem x3dhRecipient_input {keys : BobKeys S} {env : Envelope} {info : Bytes}
    {rc : S.Secret × S.Secret}
    (h : x3dhRecipient keys.identity.dhKey keys.signedPreKey env.identityPub env.ratchetPub
      keys.oneTimeKey info = .ok rc) :
    ∃ ikm, rc = x3dhDerive ikm info ∧
      ∀ a ∈ recipientAgreements keys env, ∀ δ, dh a.1 a.2 = .ok δ → .secret δ ∈ ikm := by
  obtain ⟨d1,d2,d3,d4,h1,h2,h3,h4,hrc⟩ := x3dhRecipient_ok h
  refine ⟨_,hrc,fun a ha δ hd => ?_⟩
  rcases h4 with ⟨hk,rfl⟩ | ⟨k,s,hk,rfl,hs⟩
  · simp only [recipientAgreements,hk] at ha
    fin_cases ha <;> simp_all [x3dhInput]
  · simp only [recipientAgreements,hk] at ha
    fin_cases ha <;> simp_all [x3dhInput]

/-- The hash in which the agreements of a key exchange end. -/
def extracted (ikm : List (Atom S.Secret)) : S.Secret := S.hmac (bytesOf x3dhZero) ikm

/-- What was there before the first keys of a session. -/
def ancestors (δ : S.Secret) (ikm : List (Atom S.Secret)) : Set S.Secret := {δ,extracted ikm}

section
variable (hF : S.Free) (hA : Apart S) {δ : S.Secret} {ikm : List (Atom S.Secret)}
  {agreement : S.Priv × Bytes} {gone : Set S.Secret} {r : Ratchet S}
include hF hA

theorem ancestors_underived (hδ : dh agreement.1 agreement.2 = .ok δ) :
    ∀ x ∈ ancestors δ ikm, ∀ y d, x ≠ S.hmac [.secret y] d := by
  rintro x (rfl | rfl) y d h
  · exact hA _ _ _ (ecdh_of_dh hδ) _ _ h
  · exact bytesOf_ne_secret _ y (hF.hmac_inj h).1

/-- The two first keys, in the slots of the initiator or of the responder. -/
theorem erased_derived (hδ : dh agreement.1 agreement.2 = .ok δ) (info : Bytes) (chain : Slot)
    (hs : ∀ i x, slots r i = some x →
      (i = .root ∧ x = (x3dhDerive ikm info).1) ∨ (i = chain ∧ x = (x3dhDerive ikm info).2)) :
    Erased (keyed hF) (ancestors δ ikm) (ancestors δ ikm) (slots r) := by
  refine .start (ancestors_underived hF hA hδ) (x := extracted ikm) (.inr rfl)
    [(.root,bytesOf info++[.byte 1]),
      (chain,.secret (hkdfFirst (extracted ikm) info)::(bytesOf info++[.byte 2]))] ?_ ?_
  · intro i x hx
    rcases hs i x hx with ⟨rfl,rfl⟩ | ⟨rfl,rfl⟩
    · exact ⟨_,List.mem_cons_self,rfl⟩
    · exact ⟨_,List.mem_cons_of_mem _ List.mem_cons_self,rfl⟩
  · cases info <;> simp [bytesOf]

theorem Founded.erased {log : List S.Secret} (h : Founded δ r log) :
    ∃ ikm gone, .secret δ ∈ ikm ∧ δ ∈ gone ∧ {k | k ∈ log} ⊆ gone ∧ (∃ k p, S.ecdh k p = some δ) ∧
      Erased (keyed hF) (ancestors δ ikm) gone (slots r) := by
  cases h with
  | @alice eph bundle keyOrder idOrder identity info _ h a ha hd =>
      obtain ⟨_,root,chain,heph,hx,rfl⟩ := aliceSession_ok h
      obtain rfl := Except.ok.inj heph
      obtain ⟨ikm,hrc,hikm⟩ := x3dhInitiator_input hx
      refine ⟨ikm,_,hikm a ha δ hd,.inl rfl,by simp,⟨_,_,ecdh_of_dh hd⟩,
        erased_derived hF hA hd info .send ?_⟩
      rintro (_ | _ | _ | i) x hi
      · exact .inl ⟨rfl,by rw [← hrc]; exact (Option.some.inj hi).symm⟩
      · exact .inr ⟨rfl,by rw [← hrc]; exact (Option.some.inj hi).symm⟩
      · cases hi
      · cases hi
  | @bob keys env info msg _ h a ha hd =>
      obtain ⟨_,_,_,root,chain,hx,_,ho⟩ := bobSession_ok h
      obtain ⟨ikm,hrc,hikm⟩ := x3dhRecipient_input hx
      have hstart : Erased (keyed hF) (ancestors δ ikm) (ancestors δ ikm)
          (slots (bobRatchet keys env root chain info)) := by
        refine erased_derived hF hA hd info .recv ?_
        rintro (_ | _ | _ | i) x hi
        · exact .inl ⟨rfl,by rw [← hrc]; exact (Option.some.inj hi).symm⟩
        · cases hi
        · exact .inr ⟨rfl,by rw [← hrc]; exact (Option.some.inj hi).symm⟩
        · cases hi
      -- the first message is opened with a key of the new chain
      have hmoved := moved_takeKey hF (r := bobRatchet keys env root chain info) rfl env
        (copy32 env.ratchetPub)
      rw [← openMessage_state,ho] at hmoved
      obtain ⟨gone,hsub,hkeys,_,herased⟩ := hmoved.erased hstart
      refine ⟨ikm,gone,hikm a ha δ hd,hsub (.inl rfl),?_,⟨_,_,ecdh_of_dh hd⟩,herased⟩
      intro k hk
      refine hkeys ?_
      rw [sessionKey,hx] at hk
      exact Option.mem_toList.mp hk

end

/-! ### What cannot be computed -/

section
variable (hF : S.Free) (hA : Apart S) {δ : S.Secret} {ikm : List (Atom S.Secret)}
  {gone : Set S.Secret} {r : Ratchet S} {others : Means S}
include hF hA

/-- Nothing that is gone can be computed while one of the first agreements cannot. -/
theorem gone_not_stolen (h : Erased (keyed hF) (ancestors δ ikm) gone (slots r))
    (hikm : .secret δ ∈ ikm) (hgone : δ ∈ gone) (hagreed : ∃ k p, S.ecdh k p = some δ)
    (hδ : Beyond (loot r others) δ) {s : S.Secret} (hs : Stolen r others s) : s ∉ gone := by
  obtain ⟨k₀,p₀,hagreed⟩ := hagreed
  induction hs with
  | held hi =>
      obtain ⟨i,hi⟩ := hi
      exact h.hidden i _ hi
  | @agree k p s hk hp he =>
      intro hs
      rcases h.grounded s hs with (rfl | rfl) | ⟨y,_,d,rfl⟩
      · exact hδ k hk p hp he
      · exact hA k p _ he _ _ rfl
      · exact hA k p _ he _ _ rfl
  | @hash k d _ _ ihk ihd =>
      intro hs
      rcases h.grounded _ hs with (hb | hb) | ⟨y,hy,e,he⟩
      · exact hA _ _ _ hagreed _ _ hb.symm
      · exact ihd δ ((hF.hmac_inj hb).2 ▸ hikm) hgone
      · refine ihk y ?_ hy
        rw [(hF.hmac_inj he).1]
        exact List.mem_cons_self

theorem label_not_gone (h : Erased (keyed hF) (ancestors δ ikm) gone (slots r))
    (hagreed : ∃ k p, S.ecdh k p = some δ) (d : List (Atom S.Secret)) :
    S.hmac (bytesOf (text "batur-e2e-keys")) d ∉ gone := by
  obtain ⟨k,p,hagreed⟩ := hagreed
  intro hd
  rcases h.grounded _ hd with (hb | hb) | ⟨y,_,e,he⟩
  · exact hA _ _ _ hagreed _ _ hb.symm
  · have hlen := congrArg List.length (hF.hmac_inj hb).1
    rw [bytesOf,bytesOf,List.length_map,List.length_map] at hlen
    exact absurd hlen (by decide)
  · exact bytesOf_ne_secret _ y (hF.hmac_inj he).1

/-- The cipher key of a message needs its message key. -/
theorem expanded_not_stolen (h : Erased (keyed hF) (ancestors δ ikm) gone (slots r))
    (hagreed : ∃ k p, S.ecdh k p = some δ) {mk : S.Secret} (hmk : ¬Stolen r others mk) :
    ¬Stolen r others (expandMessageKey mk).1 := by
  intro hs
  rcases hs.inv with ⟨i,hi⟩ | ⟨k,_,p,_,he⟩ | ⟨k,d,he,hk,_⟩
  · exact label_not_gone hF hA h hagreed _ (h.parent_of_slot hi)
  · exact hA k p _ he _ _ rfl
  · have hprk := hk (S.hmac (bytesOf (text "batur-e2e-keys")) [.secret mk]) (by
      rw [← (hF.hmac_inj he).1]
      exact List.mem_cons_self)
    rcases hprk.inv with ⟨i,hi⟩ | ⟨k',_,p,_,he'⟩ | ⟨k',d',he',_,hd'⟩
    · obtain ⟨y,_,e,hy⟩ := h.child i _ hi
      exact bytesOf_ne_secret _ y (hF.hmac_inj hy).1
    · exact hA k' p _ he' _ _ rfl
    · exact hmk (hd' mk ((hF.hmac_inj he').2 ▸ List.mem_cons_self))

end

/-- Forward secrecy. The session after any calls does not give away a key that was used before,
nor its cipher key, as long as one of the agreements behind the session cannot be recomputed from
the private keys and the public values that the thief has. -/
theorem used_keys_not_stolen (hF : S.Free) (hA : Apart S) {δ : S.Secret} {r : Ratchet S}
    {log : List S.Secret} (h : Founded δ r log) (calls : List (Call S)) {others : Means S}
    (hδ : Beyond (loot (after calls r) others) δ) :
    ∀ mk ∈ log++usedKeys calls r, ¬Stolen (after calls r) others mk ∧
      ¬Stolen (after calls r) others (expandMessageKey mk).1 := by
  obtain ⟨ikm,gone,hikm,hgone,hlog,hagreed,herased⟩ := h.erased hF hA
  obtain ⟨gone',hsub,hkeys,_,herased⟩ := (moved_run hF calls r).erased herased
  intro mk hmk
  have hmem : mk ∈ gone' := by
    rcases List.mem_append.mp hmk with hl | hu
    · exact hsub (hlog hl)
    · exact hkeys hu
  have hnot : ¬Stolen (after calls r) others mk := fun hs =>
    gone_not_stolen hF hA herased hikm (hsub hgone) hagreed hδ hs hmem
  exact ⟨hnot,expanded_not_stolen hF hA herased hagreed hnot⟩

/-! ### The session heals -/

section
variable (hF : S.Free)

/-- What descends from a hash of a root key with a given agreement. -/
def family (root out : S.Secret) : Set S.Secret :=
  {y | ∃ d, .secret out ∈ d ∧ Descends (keyed hF) (S.hmac [.secret root] d) y}

theorem family_closed (root out : S.Secret) :
    ∀ x ∈ family hF root out, ∀ d, (keyed hF).derive x d ∈ family hF root out := by
  rintro x ⟨d,hd,hx⟩ e
  exact ⟨d,hd,hx.derive e⟩

theorem family_hash {root out y : S.Secret} (h : y ∈ family hF root out) :
    ∃ k d, y = S.hmac k d := by
  obtain ⟨d,_,hy⟩ := h
  cases hy with
  | self => exact ⟨_,_,rfl⟩
  | derive _ e => exact ⟨_,_,rfl⟩

variable {hF} (hA : Apart S) {base gone : Set S.Secret} {r s : Ratchet S} {others : Means S}
  {out : S.Secret}
include hA

/-- The holder of an earlier session cannot follow a step whose agreement he cannot compute. -/
theorem family_not_stolen (herased : Erased (keyed hF) base gone (slots s))
    (hkept : ∀ i x, slots r i = some x → x ∈ gone ∨ ∃ j, slots s j = some x)
    (hchild : ∀ i x, slots r i = some x → ∃ k d, x = S.hmac k d)
    (hagreed : ∃ k p, S.ecdh k p = some out)
    (hout : Beyond (loot r others) out) {y : S.Secret} (hy : Stolen r others y) :
    y ≠ out ∧ y ∉ family hF s.rootKey out := by
  obtain ⟨k₀,p₀,hagreed⟩ := hagreed
  induction hy with
  | held hi =>
      obtain ⟨i,hi⟩ := hi
      refine ⟨?_,fun ⟨d,_,hd⟩ => ?_⟩
      · rintro rfl
        obtain ⟨k,d,he⟩ := hchild i _ hi
        exact hA _ _ _ hagreed _ _ he
      · obtain ⟨hgone,hslot⟩ := herased.descends_new (p := .root) rfl hd
        rcases hkept i _ hi with hg | ⟨j,hj⟩
        · exact hgone hg
        · exact hslot j hj
  | @agree k p s hk hp he =>
      refine ⟨fun hs => hout k hk p hp (hs ▸ he),fun hfam => ?_⟩
      obtain ⟨a,d,had⟩ := family_hash hF hfam
      exact hA k p _ he _ _ had
  | @hash k d _ _ ihk ihd =>
      refine ⟨fun hs => hA _ _ _ hagreed _ _ hs.symm,fun ⟨e,hmem,he⟩ => ?_⟩
      generalize hz : S.hmac k d = z at he
      cases he with
      | self => exact (ihd out ((hF.hmac_inj hz).2 ▸ hmem)).1 rfl
      | @derive x hx e' =>
          refine (ihk x ?_).2 ⟨e,hmem,hx⟩
          rw [(hF.hmac_inj hz).1]
          exact List.mem_cons_self

omit hA in
/-- After the step every chain is in the family, and everything else was put aside before. -/
theorem within_stepped {pub : Bytes} {pn : UInt32} {s t : Ratchet S} {k : S.Priv}
    (ht : recvRatchetStep pub pn s = (none,t)) (hk : s.sendingDH = some k)
    (hout : dh k pub = .ok out) :
    Moves.Within chainSlots (family hF s.rootKey out) {x | ∃ i, t.skipped.lookup i = some x}
      (slots t) := by
  have hstep := recvRatchetStep_outcome pub pn s
  rw [ht] at hstep
  cases hstep with
  | @stepped r' hs k' hd out' ho =>
      obtain rfl : k = k' := Option.some.inj (hk.symm.trans hd)
      obtain rfl : out = out' := Except.ok.inj (hout.symm.trans ho)
      have hroot : r'.rootKey = s.rootKey := by
        have hsame := skipOldChain_same pn s
        rw [hs] at hsame
        exact hsame.rootKey
      have hfresh : ∀ b : UInt8, S.hmac [.secret r'.rootKey] [.byte b,.secret out] ∈
          family hF s.rootKey out := by
        intro b
        rw [hroot]
        exact ⟨_,by simp,.self⟩
      have hchain : ∀ i ∈ chainSlots, ∀ x,
          slots (newReceivingChain pub out (retireSendingChain r')) i = some x →
            x ∈ family hF s.rootKey out := by
        rintro (_ | _ | _ | i) hi x hx
        · exact Option.some.inj hx ▸ hfresh 0x80
        · cases hx
        · exact Option.some.inj hx ▸ hfresh 0x07
        · exact absurd rfl (hi i)
      refine ⟨hchain,?_⟩
      rintro (_ | _ | _ | i) x hx
      · exact .inl (hchain .root (by simp [chainSlots]) x hx)
      · cases hx
      · exact .inl (hchain .recv (by simp [chainSlots]) x hx)
      · exact .inr ⟨i,hx⟩

end

/-- Healing. A session is stolen after some calls. Once it takes a ratchet step with an agreement
that the thief cannot compute, the keys used from then on are out of his reach, except those that
were put aside before the step. -/
theorem ratchet_step_heals (hF : S.Free) (hA : Apart S) {δ : S.Secret} {r₀ : Ratchet S}
    {log : List S.Secret} (h : Founded δ r₀ log) (before during later : List (Call S))
    {env : Envelope} {others : Means S} {k : S.Priv} {out : S.Secret} {t : Ratchet S} :
    let r := after before r₀
    let s := after during r
    stepNeeded env s = true → s.sendingDH = some k → dh k (copy32 env.ratchetPub) = .ok out →
    recvRatchetStep (copy32 env.ratchetPub) env.prevCount s = (none,t) →
    Beyond (loot r others) out →
    ∀ mk ∈ usedKeys (.decrypt env::later) s,
      (¬Stolen r others mk ∧ ¬Stolen r others (expandMessageKey mk).1) ∨
        ∃ i, t.skipped.lookup i = some mk := by
  intro r s hneed hk hout ht hsafe mk hmk
  obtain ⟨ikm,gone₀,_,_,_,hagreed,herased₀⟩ := h.erased hF hA
  obtain ⟨gone,_,_,_,herased⟩ := (moved_run hF before r₀).erased herased₀
  obtain ⟨gone',_,_,hkept,herased'⟩ := (moved_run hF during r).erased herased
  have hsome : t.recvChain.isSome := by
    have hstep := recvRatchetStep_outcome (copy32 env.ratchetPub) env.prevCount s
    rw [ht] at hstep
    cases hstep
    rfl
  have hdec : (decrypt env s).2 = (takeKey env (copy32 env.ratchetPub) t).2 := by
    rw [decrypt,if_pos hneed,ht]
    exact openMessage_state env _ t
  have hused : used (.decrypt env) s =
      (takeKey env (copy32 env.ratchetPub) t).1.toOption.toList := by
    rw [used,keyFor,if_pos hneed,ht]
  have hmoved := (moved_takeKey hF hsome env (copy32 env.ratchetPub)).trans
    (moved_run hF later (takeKey env (copy32 env.ratchetPub) t).2)
  have hkeys := (hmoved.within (family_closed hF s.rootKey out) (within_stepped ht hk hout)).1
  have hmem : mk ∈ family hF s.rootKey out ∪ {x | ∃ i, t.skipped.lookup i = some x} := by
    refine hkeys ?_
    rcases List.mem_append.mp hmk with hm | hm
    · rw [hused,Option.mem_toList] at hm
      exact .inl hm
    · change mk ∈ usedKeys later (decrypt env s).2 at hm
      rw [hdec] at hm
      exact .inr hm
  refine hmem.imp_left fun hfam => ?_
  have hnot : ¬Stolen r others mk := by
    intro hs
    refine (family_not_stolen hA herased' hkept ?_ ⟨_,_,ecdh_of_dh hout⟩ hsafe hs).2 hfam
    intro i x hx
    obtain ⟨y,_,d,hd⟩ := herased.child i x hx
    exact ⟨_,_,hd⟩
  exact ⟨hnot,expanded_not_stolen hF hA herased hagreed hnot⟩

/-! ### The sample session -/

/-- The thief has these private keys and every public value. -/
def sampleMeans (keys : Set UInt8) : Means SymbolicSuite.suite where
  keys := keys
  points := Set.univ

/-- The initiator has sent two messages, and the prekeys of the responder are known. -/
theorem used_keys_not_stolen_sample :
    let calls : List (Call SymbolicSuite.suite) :=
      [.encrypt (.error .keyGeneration) (text "hello"),
       .encrypt (.error .keyGeneration) (text "second")]
    (usedKeys calls sampleStart).length = 2 ∧
    ∀ mk ∈ usedKeys calls sampleStart,
      ¬Stolen (after calls sampleStart) (sampleMeans {6,21}) mk := by
  refine ⟨by decide,fun mk hmk => ?_⟩
  have hstart : aliceSession (.ok (5 : UInt8))
      (buildBundle sampleBob (6 : UInt8) 11 (published oneKey)) (published oneKey)
      (published oneKey) sampleAlice sampleInfo = .ok sampleStart := rfl
  have h : Founded (S := SymbolicSuite.suite) (.agreed 1 3) sampleStart [] :=
    .alice hstart (a := ((1 : UInt8),SymbolicSuite.publicOf 3)) List.mem_cons_self rfl
  refine (used_keys_not_stolen SymbolicSuite.suite_free symbolic_apart h
    [.encrypt (.error .keyGeneration) (text "hello"),
     .encrypt (.error .keyGeneration) (text "second")]
    ?_ mk hmk).1
  intro k hk p _ he
  have hpair := SymbolicSuite.agreement_paired (SymbolicSuite.agreement_publicOf 1 3) he
  have hkey : k = (5 : UInt8) ∨ k = (6 : UInt8) ∨ k = (21 : UInt8) := by
    rcases hk with hk | hk | hk
    · exact .inl (Option.some.inj hk).symm
    · exact .inr (.inl hk)
    · exact .inr (.inr hk)
  rcases hkey with rfl | rfl | rfl <;> exact absurd hpair (by decide)

/-- The responder's answer, and the initiator's next message with a new ratchet key. -/
def sampleReply : Envelope :=
  sealMessage (S := SymbolicSuite.suite) (text "reply")
    (newSendingChain (8 : UInt8) (.agreed 5 8) sampleReceiver)

def sampleThird : Envelope :=
  sealMessage (S := SymbolicSuite.suite) (text "third")
    (newSendingChain (9 : UInt8) (.agreed 8 9) (decrypt sampleReply sampleSender).2)

/-- The responder's session is stolen before he answers, together with the initiator's key. -/
theorem ratchet_step_heals_sample :
    let s := after [.encrypt (.ok (8 : UInt8)) (text "reply")] sampleReceiver
    (decrypt sampleThird s).1 = .ok (text "third") ∧
    ∀ mk ∈ usedKeys [.decrypt sampleThird] s, ¬Stolen sampleReceiver (sampleMeans {5}) mk := by
  refine ⟨by decide +kernel,fun mk hmk => ?_⟩
  have h : Founded (S := SymbolicSuite.suite) (.agreed 1 3) sampleReceiver _ :=
    .bob sampleReceiver_session (a := ((3 : UInt8),SymbolicSuite.publicOf 1)) List.mem_cons_self rfl
  have hneed : stepNeeded sampleThird
      (after [.encrypt (.ok (8 : UInt8)) (text "reply")] sampleReceiver) = true := by decide
  have hsafe : Beyond (loot sampleReceiver (sampleMeans {5})) (.agreed 8 9) := by
    rintro k (hk | hk) p _ he
    · cases hk
    · have hpair := SymbolicSuite.agreement_paired (SymbolicSuite.agreement_publicOf 8 9) he
      rw [show k = (5 : UInt8) from hk] at hpair
      exact absurd hpair (by decide)
  rcases ratchet_step_heals SymbolicSuite.suite_free symbolic_apart h []
    [.encrypt (.ok (8 : UInt8)) (text "reply")] [] hneed rfl rfl rfl hsafe mk hmk with hnot | ⟨i,hi⟩
  · exact hnot.1
  · cases hi

end BaturWhatsApi.SessionSecrecy
