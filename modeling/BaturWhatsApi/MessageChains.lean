import BaturWhatsApi.SessionAgreement

/-!
# Both ends of one message chain

An epoch is one sending chain: its key pair, the chain key it starts from, the
root key it leaves behind, the announced length of its predecessor, and the number
of messages sent so far. One party sends in it, the other receives. The receiver
can open a message of its current epoch as long as the message is ahead of its
chain or its key is stored, and opening one message costs no other.
-/
namespace BaturWhatsApi.MessageChains
open ByteStrings CipherSuite RatchetModel RatchetSteps SessionAgreement

variable {S : Suite}

structure Epoch (S : Suite) where
  pair : S.Priv
  chain : S.Secret
  root : S.Secret
  pn : UInt32
  count : ℕ

def Epoch.pub (e : Epoch S) : Bytes := S.publicKey e.pair

def Epoch.key (e : Epoch S) (n : ℕ) : S.Secret := messageKey (nextChain^[n] e.chain)

def Epoch.sentOne (e : Epoch S) : Epoch S := {e with count := e.count+1}

/-- A message of the epoch, with the plaintext it carries. -/
structure Message (e : Epoch S) (m : Envelope × Bytes) : Prop where
  pub : m.1.ratchetPub = e.pub
  pn : m.1.prevCount = e.pn
  below : m.1.counter.toNat < e.count
  opens : openWithKey (e.key m.1.counter.toNat) m.1 = .ok m.2

theorem Message.sentOne {e : Epoch S} {m : Envelope × Bytes} (h : Message e m) :
    Message e.sentOne m :=
  ⟨h.pub,h.pn,Nat.lt_succ_of_lt h.below,h.opens⟩

/-! ### Sending -/

structure Sends (r : Ratchet S) (e : Epoch S) : Prop where
  chain : r.sendingChain = some (nextChain^[e.count] e.chain)
  pair : r.sendingDH = some e.pair
  counter : r.sendingCounter.toNat = e.count
  pn : r.previousCounter = e.pn
  root : r.rootKey = e.root

/-- What a party keeps when it sends. -/
structure SameReceiver (r r' : Ratchet S) : Prop where
  chain : r'.recvChain = r.recvChain
  counter : r'.receivingCounter = r.receivingCounter
  pub : r'.recvPub = r.recvPub
  have_pub : r'.haveRecvPub = r.haveRecvPub
  skipped : r'.skipped = r.skipped

theorem sealMessage_fields (p : Bytes) (r : Ratchet S) :
    (sealMessage p r).ratchetPub = (r.sendingDH.map S.publicKey).getD [] ∧
    (sealMessage p r).prevCount = r.previousCounter ∧
    (sealMessage p r).counter = r.sendingCounter := by
  rw [sealMessage,envelopeHead]
  split_ifs <;> exact ⟨rfl,rfl,rfl⟩

/-- The message that is sealed next. -/
theorem Sends.message (hS : S.Correct) {r : Ratchet S} {e : Epoch S} (h : Sends r e) (p : Bytes) :
    Message e.sentOne (sealMessage p r,p) := by
  obtain ⟨hpub,hpn,hcounter⟩ := sealMessage_fields p r
  have hkey : sendKey r = e.key e.count := by
    rw [sendKey,h.chain]
    rfl
  refine ⟨?_,hpn.trans h.pn,?_,?_⟩
  · rw [hpub,h.pair]
    rfl
  · rw [hcounter,h.counter]
    exact Nat.lt_succ_self _
  · rw [hcounter,h.counter,show e.sentOne.key e.count = sendKey r from hkey.symm]
    exact openWithKey_sealMessage hS p r

theorem Sends.messageSent {r : Ratchet S} {e : Epoch S} (h : Sends r e)
    (hroom : e.count+1 < 2^32) : Sends (messageSent r) e.sentOne := by
  refine ⟨?_,h.pair,?_,h.pn,h.root⟩
  · rw [RatchetModel.messageSent,h.chain]
    exact congrArg some (Function.iterate_succ_apply' nextChain e.count e.chain).symm
  · show (r.sendingCounter+1).toNat = e.count+1
    rw [UInt32.toNat_add,h.counter]
    exact Nat.mod_eq_of_lt hroom

/-- The epoch that a party opens when it answers. -/
def answer (r : Ratchet S) (nk : S.Priv) (out : S.Secret) : Epoch S :=
  {pair := nk,chain := (kdfRoot r.rootKey out).2,root := (kdfRoot r.rootKey out).1,
   pn := r.retiredSendCount,count := 0}

theorem sends_answer (r : Ratchet S) (nk : S.Priv) (out : S.Secret) :
    Sends (newSendingChain nk out r) (answer r nk out) :=
  ⟨rfl,rfl,rfl,rfl,rfl⟩

/-! ### Receiving -/

structure Receives (r : Ratchet S) (e : Epoch S) : Prop where
  chain : r.recvChain = some (nextChain^[r.receivingCounter.toNat] e.chain)
  pub : r.recvPub = e.pub
  have_pub : r.haveRecvPub = true
  /-- The receiver is never ahead of the sender. -/
  bound : r.receivingCounter.toNat ≤ e.count
  ahead : ∀ n, r.receivingCounter ≤ n → r.skipped.lookup ⟨e.pub,e.pn,n⟩ = none

/-- The key of message `n` can still be had. -/
def Awaits (r : Ratchet S) (e : Epoch S) (n : UInt32) : Prop :=
  r.receivingCounter ≤ n ∨ r.skipped.lookup ⟨e.pub,e.pn,n⟩ = some (e.key n.toNat)

theorem Receives.congr {r r' : Ratchet S} {e : Epoch S} (h : Receives r e)
    (hsame : SameReceiver r r') : Receives r' e := by
  refine ⟨?_,hsame.pub.trans h.pub,hsame.have_pub.trans h.have_pub,hsame.counter ▸ h.bound,?_⟩
  · rw [hsame.chain,hsame.counter]
    exact h.chain
  · intro n hn
    rw [hsame.skipped]
    exact h.ahead n (hsame.counter ▸ hn)

theorem Receives.sentOne {r : Ratchet S} {e : Epoch S} (h : Receives r e) :
    Receives r e.sentOne :=
  ⟨h.chain,h.pub,h.have_pub,Nat.le_succ_of_le h.bound,h.ahead⟩

theorem Awaits.congr {r r' : Ratchet S} {e : Epoch S} {n : UInt32} (h : Awaits r e n)
    (hsame : SameReceiver r r') : Awaits r' e n := by
  rw [Awaits,hsame.counter,hsame.skipped]
  exact h

/-- A stored key is used: the others stay. -/
theorem Receives.stored {r : Ratchet S} {e : Epoch S} (h : Receives r e) (n : UInt32) :
    let r' := {r with skipped := r.skipped.erase ⟨e.pub,e.pn,n⟩}
    Receives r' e ∧ ∀ n' ≠ n, Awaits r e n' → Awaits r' e n' := by
  have hne : ∀ n' ≠ n, (r.skipped.erase ⟨e.pub,e.pn,n⟩).lookup ⟨e.pub,e.pn,n'⟩ =
      r.skipped.lookup ⟨e.pub,e.pn,n'⟩ := by
    intro n' hn'
    exact Finmap.lookup_erase_ne fun heq => hn' (congrArg ChainIndex.n heq)
  refine ⟨⟨h.chain,h.pub,h.have_pub,h.bound,fun n' hn' => ?_⟩,fun n' hn' hawait => ?_⟩
  · by_cases heq : n' = n
    · rw [heq]
      exact Finmap.lookup_erase _ _
    · exact (hne n' heq).trans (h.ahead n' hn')
  · exact hawait.imp id fun hstored => (hne n' hn').trans hstored

/-- The loop up to message `n` stores what it passes. -/
theorem Receives.skipped {r : Ratchet S} {e : Epoch S} (h : Receives r e) {n : UInt32}
    (hn : r.receivingCounter ≤ n) :
    let t := (skipOne e.pub e.pn)^[n.toNat-r.receivingCounter.toNat] r
    t.recvChain = some (nextChain^[n.toNat] e.chain) ∧ t.receivingCounter = n ∧
      (∀ n', n ≤ n' → t.skipped.lookup ⟨e.pub,e.pn,n'⟩ = none) ∧
      ∀ n', n' < n → Awaits r e n' → t.skipped.lookup ⟨e.pub,e.pn,n'⟩ = some (e.key n'.toNat) := by
  intro t
  have hn' := UInt32.le_iff_toNat_le.mp hn
  have hlt := n.toNat_lt
  have hout : ∀ n', (n ≤ n' ∨ n' < r.receivingCounter) →
      t.skipped.lookup ⟨e.pub,e.pn,n'⟩ = r.skipped.lookup ⟨e.pub,e.pn,n'⟩ := by
    intro n' hn'
    refine iterate_lookup_ne e.pub e.pn _ fun i hi heq => ?_
    have htoNat : n'.toNat = r.receivingCounter.toNat+i := by
      rw [show n' = _ from congrArg ChainIndex.n heq,UInt32.toNat_add,
        UInt32.toNat_ofNat_of_lt' (show i < 2^32 by omega)]
      exact Nat.mod_eq_of_lt (by omega)
    rw [UInt32.le_iff_toNat_le,UInt32.lt_iff_toNat_lt] at hn'
    omega
  refine ⟨?_,?_,?_,?_⟩
  · have hchain := iterate_chain e.pub e.pn (n.toNat-r.receivingCounter.toNat) h.chain
    rw [← Function.iterate_add_apply,Nat.sub_add_cancel hn'] at hchain
    exact hchain
  · exact (iterate_counter e.pub e.pn _ r).trans (counter_add_sub hn)
  · intro n' hle
    exact (hout n' (.inl hle)).trans (h.ahead n' (UInt32.le_trans hn hle))
  · intro n' hn'lt hawait
    rcases hawait with hge | hstored
    · have hge' := UInt32.le_iff_toNat_le.mp hge
      have hlt' := UInt32.lt_iff_toNat_lt.mp hn'lt
      have hat := iterate_lookup_at e.pub e.pn (i := n'.toNat-r.receivingCounter.toNat)
        (k := n.toNat-r.receivingCounter.toNat) (by omega) (by omega) h.chain
      rw [counter_add_sub hge,← Function.iterate_add_apply,Nat.sub_add_cancel hge'] at hat
      exact hat
    · by_cases hge : r.receivingCounter ≤ n'
      · rw [h.ahead n' hge] at hstored
        cases hstored
      · exact (hout n' (.inr (UInt32.not_le.mp hge))).trans hstored

/-- The key of a message of the current epoch. -/
theorem Receives.takeKey {r : Ratchet S} {e : Epoch S} (h : Receives r e)
    {m : Envelope × Bytes} (hm : Message e m) (hcount : e.count < 2^32)
    (hawait : Awaits r e m.1.counter)
    (hroom : size r+(m.1.counter.toNat-r.receivingCounter.toNat) < maxSkippedMessageKeys) :
    ∃ r', takeKey m.1 e.pub r = (.ok (e.key m.1.counter.toNat),r') ∧ Receives r' e ∧
      (∀ n ≠ m.1.counter, Awaits r e n → Awaits r' e n) ∧
      ∀ idx ∈ r'.skipped, idx ∈ r.skipped ∨ idx.ratchet = e.pub := by
  have hout := takeKey_outcome m.1 e.pub r
  generalize RatchetModel.takeKey m.1 e.pub r = out at hout
  cases hout with
  | @stored sk hl =>
      rw [hm.pn] at hl ⊢
      have hkey : sk = e.key m.1.counter.toNat := by
        rcases hawait with hge | hstored
        · rw [h.ahead _ hge] at hl
          cases hl
        · exact Option.some.inj (hl.symm.trans hstored)
      obtain ⟨hrecv,hothers⟩ := h.stored m.1.counter
      exact ⟨_,by rw [hkey],hrecv,hothers,fun idx hidx => .inl (Finmap.mem_erase.mp hidx).2⟩
  | old hl hc =>
      rw [hm.pn] at hl
      rcases hawait with hge | hstored
      · exact absurd hge (UInt32.not_le.mpr hc)
      · rw [hl] at hstored
        cases hstored
  | full _ _ hs =>
      rw [skipUntil_of_room e.pub m.1.prevCount hroom] at hs
      cases hs
  | next _ hc hs =>
      rw [skipUntil_of_room e.pub m.1.prevCount hroom,hm.pn] at hs
      obtain rfl := congrArg Prod.snd hs
      obtain ⟨hchain,hcounter,hahead,hbehind⟩ := h.skipped hc
      have hsame := iterate_same e.pub e.pn (m.1.counter.toNat-r.receivingCounter.toNat) r
      have hmem : ∀ idx, idx ∈ ((skipOne e.pub e.pn)^[m.1.counter.toNat-r.receivingCounter.toNat]
          r).skipped → idx ∈ r.skipped ∨ idx.ratchet = e.pub :=
        fun _ => iterate_mem_cases e.pub e.pn _
      generalize (skipOne e.pub e.pn)^[m.1.counter.toNat-r.receivingCounter.toNat] r = t at *
      have hnext : (t.receivingCounter+1).toNat = m.1.counter.toNat+1 := by
        have hbelow := hm.below
        rw [hcounter,UInt32.toNat_add]
        exact Nat.mod_eq_of_lt (show m.1.counter.toNat+1 < 2^32 by omega)
      refine ⟨advance t,?_,⟨?_,hsame.recvPub.trans h.pub,hsame.haveRecvPub.trans h.have_pub,?_,?_⟩,
        ?_,fun idx hidx => hmem idx hidx⟩
      · rw [recvKey,hchain]
        rfl
      · show some (kdfChain (keyInput t.recvChain)).2 = some (nextChain^[(t.receivingCounter+1).toNat] _)
        rw [hchain,hnext,Function.iterate_succ_apply']
        rfl
      · exact hnext.trans_le hm.below
      · intro n hn
        refine hahead n ?_
        have hn' : (t.receivingCounter+1).toNat ≤ n.toNat := UInt32.le_iff_toNat_le.mp hn
        rw [UInt32.le_iff_toNat_le]
        omega
      · intro n hne hn
        by_cases hlt : n < m.1.counter
        · exact .inr (hbehind n hlt hn)
        · refine .inl ?_
          show t.receivingCounter+1 ≤ n
          have hne' : n.toNat ≠ m.1.counter.toNat := fun h => hne (UInt32.toNat_inj.mp h)
          rw [UInt32.lt_iff_toNat_lt] at hlt
          rw [UInt32.le_iff_toNat_le]
          omega

/-! ### Delivering -/

/-- The number of keys that a delivery has to put aside. -/
def toSkip (env : Envelope) (r : Ratchet S) : ℕ :=
  if stepNeeded env r then
    (if r.recvChain.isSome then env.prevCount.toNat-r.receivingCounter.toNat else 0)+
      env.counter.toNat
  else env.counter.toNat-r.receivingCounter.toNat

theorem copy32_pub (hS : S.Correct) (e : Epoch S) : copy32 e.pub = e.pub :=
  copy32_of_length (hS.public_length e.pair)

theorem stepNeeded_iff (hS : S.Correct) {r : Ratchet S} {e : Epoch S} {m : Envelope × Bytes}
    (hm : Message e m) : stepNeeded m.1 r = true ↔ r.recvChain = none ∨ e.pub ≠ r.recvPub := by
  rw [stepNeeded,hm.pub,copy32_pub hS]
  simp

/-- A message of the current epoch is read. -/
theorem Receives.decrypt (hS : S.Correct) {r : Ratchet S} {e : Epoch S} (h : Receives r e)
    {m : Envelope × Bytes} (hm : Message e m) (hcount : e.count < 2^32)
    (hawait : Awaits r e m.1.counter) (hroom : size r+toSkip m.1 r < maxSkippedMessageKeys) :
    ∃ r', decrypt m.1 r = (.ok m.2,r') ∧ Receives r' e ∧ SameSession r r' ∧
      (∀ n ≠ m.1.counter, Awaits r e n → Awaits r' e n) ∧
      ∀ idx ∈ r'.skipped, idx ∈ r.skipped ∨ idx.ratchet = e.pub := by
  have hstay : ¬stepNeeded m.1 r = true := by
    rw [stepNeeded_iff hS hm,h.chain,h.pub]
    simp
  rw [toSkip,if_neg hstay] at hroom
  obtain ⟨r',htake,hrecv,hothers,hmem⟩ := h.takeKey hm hcount hawait hroom
  refine ⟨r',?_,hrecv,?_,hothers,hmem⟩
  · rw [RatchetModel.decrypt,if_neg hstay,hm.pub,copy32_pub hS,openMessage_of_takeKey htake,
      hm.opens]
  · have hsame := takeKey_same m.1 e.pub r
    rw [htake] at hsame
    exact hsame

/-- The old chain is left with all its keys stored. -/
theorem skipOldChain_of_room (pn : UInt32) {r : Ratchet S}
    (hroom : size r+(if r.recvChain.isSome then pn.toNat-r.receivingCounter.toNat else 0) <
      maxSkippedMessageKeys) :
    ∃ r', skipOldChain pn r = (none,r') ∧
      size r' ≤ size r+(if r.recvChain.isSome then pn.toNat-r.receivingCounter.toNat else 0) ∧
      ∀ idx ∈ r'.skipped, idx ∈ r.skipped ∨ (idx.ratchet = r.recvPub ∧ r.recvChain.isSome) := by
  rw [skipOldChain]
  by_cases hsome : r.recvChain.isSome
  · simp only [hsome,if_true] at hroom ⊢
    refine ⟨_,skipUntil_of_room r.recvPub r.previousCounter hroom,iterate_size_le _ _ _ r,?_⟩
    intro idx hidx
    exact (iterate_mem_cases r.recvPub r.previousCounter _ hidx).imp id fun h => ⟨h,trivial⟩
  · simp only [hsome]
    exact ⟨r,rfl,Nat.le_refl _,fun idx hidx => .inl hidx⟩

/-- The first message of a new epoch moves the receiver into it. -/
theorem decrypt_new_epoch (hS : S.Correct) {r : Ratchet S} {e : Epoch S} {k : S.Priv}
    {out : S.Secret} {m : Envelope × Bytes} (hm : Message e m) (hcount : e.count < 2^32)
    (hnew : r.recvChain = none ∨ e.pub ≠ r.recvPub)
    (hclean : ∀ idx ∈ r.skipped, idx.ratchet ≠ e.pub)
    (hpair : r.sendingDH = some k) (hdh : dh k e.pub = .ok out)
    (hroot : kdfRoot r.rootKey out = (e.root,e.chain))
    (hroom : size r+toSkip m.1 r < maxSkippedMessageKeys) :
    ∃ r', decrypt m.1 r = (.ok m.2,r') ∧ Receives r' e ∧ r'.rootKey = e.root ∧
      r'.sendingChain = none ∧ r'.sendingDH = some k ∧ (∀ n ≠ m.1.counter, Awaits r' e n) ∧
      ∀ idx ∈ r'.skipped, idx ∈ r.skipped ∨ idx.ratchet = e.pub ∨
        (idx.ratchet = r.recvPub ∧ r.recvChain.isSome) := by
  have hstep : stepNeeded m.1 r = true := (stepNeeded_iff hS hm).mpr hnew
  rw [toSkip,if_pos hstep,← Nat.add_assoc] at hroom
  obtain ⟨r₁,hskip,hsize,hmem₁⟩ := skipOldChain_of_room m.1.prevCount (r := r)
    (Nat.lt_of_le_of_lt (Nat.le_add_right _ _) hroom)
  have hsame := skipOldChain_same m.1.prevCount r
  rw [hskip] at hsame
  set r₂ := newReceivingChain e.pub out (retireSendingChain r₁) with hr₂
  have hstepped : recvRatchetStep e.pub m.1.prevCount r = (none,r₂) := by
    have hDH : (retireSendingChain r₁).sendingDH = some k := hsame.sendingDH.trans hpair
    rw [recvRatchetStep,hskip]
    simp only [hDH,hdh]
    rfl
  have hkeys : ((r₂.rootKey,r₂.recvChain) : S.Secret × Option S.Secret) = (e.root,some e.chain) := by
    show ((kdfRoot r₁.rootKey out).1,some (kdfRoot r₁.rootKey out).2) = _
    rw [hsame.rootKey,hroot]
  obtain ⟨hroot₂,hchain₂⟩ := Prod.mk.inj hkeys
  have hrecv : Receives r₂ e := by
    refine ⟨hchain₂,rfl,rfl,Nat.zero_le _,fun n _ => ?_⟩
    rw [Finmap.lookup_eq_none]
    intro hidx
    rcases hmem₁ _ hidx with hidx | ⟨heq,hsome⟩
    · exact hclean _ hidx rfl
    · rcases hnew with hnone | hne
      · rw [hnone] at hsome
        cases hsome
      · exact hne heq
  have hzero : ∀ n, Awaits r₂ e n := fun n => .inl (UInt32.le_iff_toNat_le.mpr (Nat.zero_le _))
  obtain ⟨r',htake,hrecv',hothers,hmem⟩ := hrecv.takeKey hm hcount (hzero _)
    (show size r₁+(m.1.counter.toNat-0) < _ by omega)
  have hsame' := takeKey_same m.1 e.pub r₂
  rw [htake] at hsame'
  refine ⟨r',?_,hrecv',hsame'.rootKey.trans hroot₂,hsame'.sendingChain,
    hsame'.sendingDH.trans (hsame.sendingDH.trans hpair),fun n hn => hothers n hn (hzero n),?_⟩
  · rw [RatchetModel.decrypt,if_pos hstep,hm.pub,copy32_pub hS,hstepped]
    simp only [openMessage_of_takeKey htake,hm.opens]
  · intro idx hidx
    rcases hmem idx hidx with hidx | hpub
    · exact (hmem₁ idx hidx).imp id .inr
    · exact .inr (.inl hpub)

end BaturWhatsApi.MessageChains
