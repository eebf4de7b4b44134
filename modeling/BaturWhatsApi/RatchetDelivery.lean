import BaturWhatsApi.MessageChains
import BaturWhatsApi.Runs

/-!
# Delivery in a two-party conversation

Two established sessions exchange messages over a network that may delay, reorder
and lose them. The parties take turns in opening epochs: a party answers a new
epoch of its peer by an epoch of its own. So at any time one party is in the newest
epoch, and the other has either not yet seen it and still sends in the one before,
or has seen it and sends in none.

A message of an epoch that its receiver has already left is taken for the start of
a new one, and that is where delivery fails. Every run that has no such delivery
reads all it delivers.
-/
namespace BaturWhatsApi.RatchetDelivery
open ByteStrings CipherSuite RatchetModel SessionSetup RatchetSteps SessionAgreement MessageChains
  Runs

variable {S : Suite}

/-! ### The network -/

inductive Side where
  | alice
  | bob
deriving DecidableEq, Repr

def Side.other : Side → Side
  | .alice => .bob
  | .bob => .alice

/-- One party with the remote keys it has received on and the genuine messages that
are on their way to it, each with the plaintext that was encrypted. -/
structure End (S : Suite) where
  ratchet : Ratchet S
  heard : List Bytes
  flying : List (Envelope × Bytes)

structure System (S : Suite) where
  ends : Side → End S
  /-- The public ratchet keys made so far. -/
  keys : List Bytes

inductive Event (S : Suite) where
  | encrypt (s : Side) (fresh : Except Failure S.Priv) (plaintext : Bytes)
  | deliver (s : Side) (i : ℕ)

def made (fresh : Except Failure S.Priv) : List Bytes :=
  match fresh with
  | .error _ => []
  | .ok nk => [S.publicKey nk]

/-- The party that encrypts. -/
def End.sent (fresh : Except Failure S.Priv) (p : Bytes) (x : End S) : End S :=
  {x with ratchet := (encrypt fresh p x.ratchet).2}

/-- The party the message is for. -/
def End.addressed (res : Except Failure Envelope) (p : Bytes) (y : End S) : End S :=
  match res with
  | .error _ => y
  | .ok env => {y with flying := y.flying++[(env,p)]}

/-- The party that gets its message number `i`. -/
def End.received (i : ℕ) (x : End S) : End S :=
  match x.flying[i]? with
  | none => x
  | some m =>
      {ratchet := (decrypt m.1 x.ratchet).2
       heard := copy32 m.1.ratchetPub::x.heard
       flying := x.flying.eraseIdx i}

def System.step (σ : System S) : Event S → System S
  | .encrypt s fresh p =>
      {ends := Function.update (Function.update σ.ends s ((σ.ends s).sent fresh p)) s.other
         ((σ.ends s.other).addressed (encrypt fresh p (σ.ends s).ratchet).1 p)
       keys := made fresh++σ.keys}
  | .deliver s i => {σ with ends := Function.update σ.ends s ((σ.ends s).received i)}

/-- A delivery returns the plaintext that was encrypted. -/
def System.Reads (σ : System S) : Event S → Prop
  | .encrypt _ _ _ => True
  | .deliver s i => ∀ m ∈ (σ.ends s).flying[i]?, (decrypt m.1 (σ.ends s).ratchet).1 = .ok m.2

/-- Key pairs are fresh, and the receiver has room for the keys it must put aside. -/
def System.Assumed (σ : System S) : Event S → Prop
  | .encrypt _ fresh _ => ∀ nk ∈ fresh.toOption, S.publicKey nk ∉ σ.keys
  | .deliver s i => ∀ m ∈ (σ.ends s).flying[i]?,
      size (σ.ends s).ratchet+toSkip m.1 (σ.ends s).ratchet < maxSkippedMessageKeys

/-- No chain wraps its counter, and no message arrives on a remote key that its
receiver has left for another. -/
def System.Timely (σ : System S) : Event S → Prop
  | .encrypt s _ _ => (σ.ends s).ratchet.sendingChain.isSome →
      (σ.ends s).ratchet.sendingCounter.toNat+1 < 2^32
  | .deliver s i => ∀ m ∈ (σ.ends s).flying[i]?, m.1.ratchetPub ∈ (σ.ends s).heard →
      m.1.ratchetPub = (σ.ends s).ratchet.recvPub

instance (σ : System S) (ev : Event S) : Decidable (σ.Reads ev) :=
  match ev with
  | .encrypt _ _ _ => .isTrue trivial
  | .deliver s i => inferInstanceAs (Decidable (∀ m ∈ (σ.ends s).flying[i]?, _))

instance (σ : System S) (ev : Event S) : Decidable (σ.Assumed ev) :=
  match ev with
  | .encrypt _ fresh _ => inferInstanceAs (Decidable (∀ nk ∈ fresh.toOption, _))
  | .deliver s i => inferInstanceAs (Decidable (∀ m ∈ (σ.ends s).flying[i]?, _))

instance (σ : System S) (ev : Event S) : Decidable (σ.Timely ev) :=
  match ev with
  | .encrypt _ _ _ => inferInstanceAs (Decidable (_ → _))
  | .deliver s i => inferInstanceAs (Decidable (∀ m ∈ (σ.ends s).flying[i]?, _))

/-- A pair of sessions after the init envelope, the responder holding the one-time
key that the initiator used. -/
inductive Established : System S → Prop
  | mk {alice : Identity S} {eph : S.Priv} {keys : BobKeys S}
      {oneTime keyOrder idOrder : OneTimeKeys} {info p : Bytes} {a b : Ratchet S}
      (ho : firstKey keyOrder = keys.oneTimeKey.map S.publicKey)
      (h : establish alice eph keys oneTime keyOrder idOrder info p = .ok (a,b)) :
      Established
        {ends := fun s => match s with
          | .alice => ⟨a,[],[]⟩
          | .bob => ⟨b,[S.publicKey eph],[]⟩
         keys := [S.publicKey eph]}

/-! ### One party listening -/

/-- Two messages that do not compete for a key. -/
def Apart (m m' : Envelope × Bytes) : Prop :=
  m.1.ratchetPub = m'.1.ratchetPub → m.1.counter ≠ m'.1.counter

theorem Apart.symm {m m' : Envelope × Bytes} (h : Apart m m') : Apart m' m :=
  fun heq hc => h heq.symm hc.symm

/-- A message on a remote key that the receiver has left. -/
def Left (x : End S) (m : Envelope × Bytes) : Prop :=
  m.1.ratchetPub ∈ x.heard ∧ m.1.ratchetPub ≠ x.ratchet.recvPub

/-- A party in epoch `cur` of its peer, with an epoch `new` that it has not seen. -/
structure Listens (x : End S) (cur new : Option (Epoch S)) : Prop where
  stored : ∀ idx ∈ x.ratchet.skipped, idx.ratchet ∈ x.heard
  current : ∀ e, cur = some e → Receives x.ratchet e ∧ e.pub ∈ x.heard ∧ e.count < 2^32
  idle : cur = none → x.ratchet.recvChain = none
  unheard : ∀ e, new = some e → e.pub ∉ x.heard ∧ e.count < 2^32
  distinct : x.flying.Pairwise Apart
  flying : ∀ m ∈ x.flying, Left x m ∨
    (∃ e, cur = some e ∧ Message e m ∧ Awaits x.ratchet e m.1.counter) ∨
    ∃ e, new = some e ∧ Message e m

namespace Listens

variable {x : End S} {cur new : Option (Epoch S)} {e : Epoch S} {m : Envelope × Bytes}

/-- Sending does not disturb listening. -/
theorem sending (h : Listens x cur new) {r : Ratchet S} (hsame : SameReceiver x.ratchet r) :
    Listens {x with ratchet := r} cur new where
  stored := hsame.skipped ▸ h.stored
  current e he := ⟨(h.current e he).1.congr hsame,(h.current e he).2⟩
  idle hc := hsame.chain.trans (h.idle hc)
  unheard := h.unheard
  distinct := h.distinct
  flying m hm := by
    rcases h.flying m hm with hleft | ⟨e,he,hme,hawait⟩ | hnew
    · exact .inl ⟨hleft.1,hsame.pub ▸ hleft.2⟩
    · exact .inr (.inl ⟨e,he,hme,hawait.congr hsame⟩)
    · exact .inr (.inr hnew)

/-- Every message of an epoch that is still in use has a smaller number. -/
theorem apart_current (h : Listens x (some e) new) (hm : m.1.ratchetPub = e.pub)
    (hc : m.1.counter.toNat = e.count) : ∀ m' ∈ x.flying, Apart m' m := by
  intro m' hm' hpub hcount
  obtain ⟨hrecv,hheard,_⟩ := h.current e rfl
  have hpub' : m'.1.ratchetPub = e.pub := hpub.trans hm
  rcases h.flying m' hm' with hleft | ⟨_,⟨⟩,hme,_⟩ | ⟨e',he',hme⟩
  · exact hleft.2 (hpub'.trans hrecv.pub.symm)
  · have := hme.below
    rw [hcount] at this
    omega
  · exact (h.unheard e' he').1 (hme.pub ▸ hpub' ▸ hheard)

theorem apart_new (h : Listens x cur (some e)) (hm : m.1.ratchetPub = e.pub)
    (hc : m.1.counter.toNat = e.count) : ∀ m' ∈ x.flying, Apart m' m := by
  intro m' hm' hpub hcount
  have hunheard := (h.unheard e rfl).1
  have hpub' : m'.1.ratchetPub = e.pub := hpub.trans hm
  rcases h.flying m' hm' with hleft | ⟨e',he',hme,_⟩ | ⟨_,⟨⟩,hme⟩
  · exact hunheard (hpub' ▸ hleft.1)
  · exact hunheard (hpub' ▸ hme.pub ▸ (h.current e' he').2.1)
  · have := hme.below
    rw [hcount] at this
    omega

theorem pairwise_sent (h : Listens x cur new) (hapart : ∀ m' ∈ x.flying, Apart m' m) :
    (x.flying++[m]).Pairwise Apart := by
  refine List.pairwise_append.mpr ⟨h.distinct,List.pairwise_singleton _ _,?_⟩
  intro m' hm' m'' hm''
  rw [List.mem_singleton.mp hm'']
  exact hapart m' hm'

/-- A further message of the current epoch sets out. -/
theorem sent_current (h : Listens x (some e) new) (hm : Message e.sentOne m)
    (hc : m.1.counter.toNat = e.count) (hcount : e.count+1 < 2^32) :
    Listens {x with flying := x.flying++[m]} (some e.sentOne) new where
  stored := h.stored
  current := by
    rintro _ ⟨⟩
    obtain ⟨hrecv,hheard,_⟩ := h.current e rfl
    exact ⟨hrecv.sentOne,hheard,hcount⟩
  idle hnone := (nomatch hnone)
  unheard := h.unheard
  distinct := h.pairwise_sent (h.apart_current hm.pub hc)
  flying m' hm' := by
    rcases List.mem_append.mp hm' with hm' | hm'
    · rcases h.flying m' hm' with hleft | ⟨_,⟨⟩,hme,hawait⟩ | hnew
      · exact .inl hleft
      · exact .inr (.inl ⟨_,rfl,hme.sentOne,hawait⟩)
      · exact .inr (.inr hnew)
    · rw [List.mem_singleton.mp hm']
      refine .inr (.inl ⟨_,rfl,hm,.inl ?_⟩)
      rw [UInt32.le_iff_toNat_le,hc]
      exact (h.current e rfl).1.bound

/-- A further message of the unseen epoch sets out. -/
theorem sent_new (h : Listens x cur (some e)) (hm : Message e.sentOne m)
    (hc : m.1.counter.toNat = e.count) (hcount : e.count+1 < 2^32) :
    Listens {x with flying := x.flying++[m]} cur (some e.sentOne) where
  stored := h.stored
  current := h.current
  idle := h.idle
  unheard := by
    rintro _ ⟨⟩
    exact ⟨(h.unheard e rfl).1,hcount⟩
  distinct := h.pairwise_sent (h.apart_new hm.pub hc)
  flying m' hm' := by
    rcases List.mem_append.mp hm' with hm' | hm'
    · rcases h.flying m' hm' with hleft | hcur | ⟨_,⟨⟩,hme⟩
      · exact .inl hleft
      · exact .inr (.inl hcur)
      · exact .inr (.inr ⟨_,rfl,hme.sentOne⟩)
    · rw [List.mem_singleton.mp hm']
      exact .inr (.inr ⟨_,rfl,hm⟩)

/-- The peer opens an epoch. -/
theorem announced (h : Listens x cur none) (hpub : e.pub ∉ x.heard) (hcount : e.count < 2^32) :
    Listens x cur (some e) where
  stored := h.stored
  current := h.current
  idle := h.idle
  unheard := by
    rintro _ ⟨⟩
    exact ⟨hpub,hcount⟩
  distinct := h.distinct
  flying m hm := by
    rcases h.flying m hm with hleft | hcur | ⟨_,hnone,_⟩
    · exact .inl hleft
    · exact .inr (.inl hcur)
    · cases hnone

/-- The messages that stay on their way do not compete with the delivered one. -/
theorem erased (h : Listens x cur new) {i : ℕ} (hi : x.flying[i]? = some m) :
    (x.flying.eraseIdx i).Pairwise Apart ∧
    ∀ m' ∈ x.flying.eraseIdx i, m' ∈ x.flying ∧ Apart m m' := by
  obtain ⟨hlt,hget⟩ := List.getElem?_eq_some_iff.mp hi
  have hsplit : x.flying = x.flying.take i++m::x.flying.drop (i+1) := by
    rw [← hget,List.getElem_cons_drop,List.take_append_drop]
  have hrest : x.flying.eraseIdx i = x.flying.take i++x.flying.drop (i+1) :=
    List.eraseIdx_eq_take_drop_succ _ _
  have hpair := h.distinct
  rw [hsplit,List.pairwise_middle fun hab => Apart.symm hab,List.pairwise_cons] at hpair
  refine ⟨hrest ▸ hpair.2,fun m' hm' => ⟨List.mem_of_mem_eraseIdx hm',hpair.1 m' (hrest ▸ hm')⟩⟩

theorem received_eq {i : ℕ} (hi : x.flying[i]? = some m) {res : Except Failure Bytes}
    {r : Ratchet S} (hdec : decrypt m.1 x.ratchet = (res,r)) :
    x.received i = ⟨r,copy32 m.1.ratchetPub::x.heard,x.flying.eraseIdx i⟩ := by
  rw [End.received]
  simp only [hi,hdec]

/-- A message of the current epoch arrives. -/
theorem deliver_current (hS : S.Correct) (h : Listens x (some e) new) {i : ℕ}
    (hi : x.flying[i]? = some m) (hm : Message e m) (hawait : Awaits x.ratchet e m.1.counter)
    (hroom : size x.ratchet+toSkip m.1 x.ratchet < maxSkippedMessageKeys) :
    (decrypt m.1 x.ratchet).1 = .ok m.2 ∧ SameSession x.ratchet (x.received i).ratchet ∧
      Listens (x.received i) (some e) new ∧ (x.received i).heard = e.pub::x.heard := by
  obtain ⟨hrecv,hheard,hcount⟩ := h.current e rfl
  obtain ⟨r,hdec,hrecv',hsame,hothers,hmem⟩ := hrecv.decrypt hS hm hcount hawait hroom
  obtain ⟨hpair,hrest⟩ := h.erased hi
  rw [received_eq hi hdec,hdec,hm.pub,copy32_pub hS]
  refine ⟨rfl,hsame,⟨?_,?_,fun hnone => (nomatch hnone),?_,hpair,?_⟩,rfl⟩
  · intro idx hidx
    rcases hmem idx hidx with hidx | hidx
    · exact List.mem_cons_of_mem _ (h.stored idx hidx)
    · exact hidx ▸ List.mem_cons_self
  · rintro _ ⟨⟩
    exact ⟨hrecv',List.mem_cons_self,hcount⟩
  · intro e' he'
    obtain ⟨hun,hlt⟩ := h.unheard e' he'
    refine ⟨fun hmem' => ?_,hlt⟩
    rcases List.mem_cons.mp hmem' with heq | hmem'
    · exact hun (heq ▸ hheard)
    · exact hun hmem'
  · intro m' hm'
    obtain ⟨hin,hapart⟩ := hrest m' hm'
    rcases h.flying m' hin with hleft | ⟨_,⟨⟩,hme,hawait'⟩ | hnew
    · exact .inl ⟨List.mem_cons_of_mem _ hleft.1,hsame.recvPub ▸ hleft.2⟩
    · refine .inr (.inl ⟨e,rfl,hme,hothers _ (fun heq => ?_) hawait'⟩)
      exact hapart (hm.pub.trans hme.pub.symm) heq.symm
    · exact .inr (.inr hnew)

/-- The unseen epoch is entered; what is left of the old one stays behind. -/
theorem deliver_new (hS : S.Correct) (h : Listens x cur (some e)) {i : ℕ}
    (hi : x.flying[i]? = some m) (hm : Message e m) {k : S.Priv} {out : S.Secret}
    (hpair : x.ratchet.sendingDH = some k) (hdh : dh k e.pub = .ok out)
    (hroot : kdfRoot x.ratchet.rootKey out = (e.root,e.chain))
    (hroom : size x.ratchet+toSkip m.1 x.ratchet < maxSkippedMessageKeys) :
    (decrypt m.1 x.ratchet).1 = .ok m.2 ∧ (x.received i).ratchet.rootKey = e.root ∧
      (x.received i).ratchet.sendingChain = none ∧ (x.received i).ratchet.sendingDH = some k ∧
      Listens (x.received i) (some e) none ∧ (x.received i).heard = e.pub::x.heard := by
  obtain ⟨hunheard,hcount⟩ := h.unheard e rfl
  have hcurrent : x.ratchet.recvChain.isSome → x.ratchet.recvPub ∈ x.heard := by
    intro hsome
    cases cur with
    | none =>
        rw [h.idle rfl] at hsome
        cases hsome
    | some e' =>
        obtain ⟨hrecv,hheard,_⟩ := h.current e' rfl
        exact hrecv.pub ▸ hheard
  have hnew : x.ratchet.recvChain = none ∨ e.pub ≠ x.ratchet.recvPub := by
    cases hc : x.ratchet.recvChain with
    | none => exact .inl rfl
    | some c => exact .inr fun heq => hunheard (heq ▸ hcurrent (by rw [hc]; rfl))
  obtain ⟨r,hdec,hrecv,hr,hsend,hDH,hothers,hmem⟩ := decrypt_new_epoch hS hm hcount hnew
    (fun idx hidx heq => hunheard (heq ▸ h.stored idx hidx)) hpair hdh hroot hroom
  obtain ⟨hpairwise,hrest⟩ := h.erased hi
  rw [received_eq hi hdec,hdec,hm.pub,copy32_pub hS]
  refine ⟨rfl,hr,hsend,hDH,⟨?_,?_,fun hnone => (nomatch hnone),fun _ hnone => (nomatch hnone),
    hpairwise,?_⟩,rfl⟩
  · intro idx hidx
    rcases hmem idx hidx with hidx | hidx | ⟨hidx,hsome⟩
    · exact List.mem_cons_of_mem _ (h.stored idx hidx)
    · exact hidx ▸ List.mem_cons_self
    · exact List.mem_cons_of_mem _ (hidx ▸ hcurrent hsome)
  · rintro _ ⟨⟩
    exact ⟨hrecv,List.mem_cons_self,hcount⟩
  · intro m' hm'
    obtain ⟨hin,hapart⟩ := hrest m' hm'
    -- whatever was heard before is left behind now
    have hbehind : m'.1.ratchetPub ∈ x.heard →
        Left (⟨r,e.pub::x.heard,x.flying.eraseIdx i⟩ : End S) m' := by
      intro hheard
      refine ⟨List.mem_cons_of_mem _ hheard,fun heq => hunheard ?_⟩
      exact (heq.trans hrecv.pub) ▸ hheard
    rcases h.flying m' hin with hleft | ⟨e',he',hme,_⟩ | ⟨_,⟨⟩,hme⟩
    · exact .inl (hbehind hleft.1)
    · exact .inl (hbehind (hme.pub ▸ (h.current e' he').2.1))
    · refine .inr (.inl ⟨e,rfl,hme,hothers _ fun heq => ?_⟩)
      exact hapart (hm.pub.trans hme.pub.symm) heq.symm

end Listens

/-! ### Two parties -/

/-- A party that has seen the newest epoch and sends in none. -/
structure Rests (r : Ratchet S) (prev : Option (Epoch S)) (root : S.Secret) : Prop where
  chain : r.sendingChain = none
  pair : r.sendingDH = prev.map Epoch.pair
  rootKey : r.rootKey = root

/-- The party `x` is in the newest epoch `e₀`, its peer `y` is not. -/
inductive Phase (keys : List Bytes) (x y : End S) : Prop
  | seen (e₁ : Option (Epoch S)) (e₀ : Epoch S) (top : Sends x.ratchet e₀)
      (low : Rests y.ratchet e₁ e₀.root) (hx : Listens x e₁ none) (hy : Listens y (some e₀) none)
      (kx : x.heard ⊆ keys) (ky : y.heard ⊆ keys)
  | pending (e₂ : Option (Epoch S)) (e₁ e₀ : Epoch S) (top : Sends x.ratchet e₀)
      (low : Sends y.ratchet e₁) {out : S.Secret} (hdh : dh e₁.pair e₀.pub = .ok out)
      (hroot : kdfRoot e₁.root out = (e₀.root,e₀.chain)) (hx : Listens x (some e₁) none)
      (hy : Listens y e₂ (some e₀)) (kx : x.heard ⊆ keys) (ky : y.heard ⊆ keys)
      (k₀ : e₀.pub ∈ keys)

def System.Inv (σ : System S) : Prop := ∃ s, Phase σ.keys (σ.ends s) (σ.ends s.other)

/-- One more message in an epoch. -/
theorem encrypt_sends (hS : S.Correct) {r : Ratchet S} {e : Epoch S} (h : Sends r e)
    (hlim : r.sendingChain.isSome → r.sendingCounter.toNat+1 < 2^32)
    (fresh : Except Failure S.Priv) (p : Bytes) :
    ∃ env, encrypt fresh p r = (.ok env,messageSent r) ∧ Sends (messageSent r) e.sentOne ∧
      Message e.sentOne (env,p) ∧ env.counter.toNat = e.count ∧ e.count+1 < 2^32 ∧
      SameReceiver r (messageSent r) := by
  have hsome : r.sendingChain.isSome := by
    rw [h.chain]
    rfl
  have hcount : e.count+1 < 2^32 := h.counter ▸ hlim hsome
  exact ⟨sealMessage p r,encrypt_of_sending hsome fresh p,h.messageSent hcount,h.message hS p,
    (sealMessage_fields p r).2.2 ▸ h.counter,hcount,rfl,rfl,rfl,rfl,rfl⟩

theorem sends_congr {r r' : Ratchet S} {e : Epoch S} (h : Sends r e) (hsame : SameSession r r') :
    Sends r' e :=
  ⟨hsame.sendingChain.trans h.chain,hsame.sendingDH.trans h.pair,
    (congrArg UInt32.toNat hsame.sendingCounter).trans h.counter,
    hsame.previousCounter.trans h.pn,hsame.rootKey.trans h.root⟩

namespace Phase

variable {keys : List Bytes} {x y : End S}

/-- The party in the newest epoch encrypts. -/
theorem send_top (hS : S.Correct) (h : Phase keys x y)
    (hlim : x.ratchet.sendingChain.isSome → x.ratchet.sendingCounter.toNat+1 < 2^32)
    (fresh : Except Failure S.Priv) (p : Bytes) :
    Phase (made fresh++keys) (x.sent fresh p)
      (y.addressed (encrypt fresh p x.ratchet).1 p) := by
  have hkeys : keys ⊆ made fresh++keys := List.subset_append_right _ _
  cases h with
  | seen e₁ e₀ top low hx hy kx ky =>
      obtain ⟨env,henc,htop,hm,hc,hcount,hsame⟩ := encrypt_sends hS top hlim fresh p
      rw [End.sent,henc]
      exact .seen e₁ e₀.sentOne htop low (hx.sending hsame) (hy.sent_current hm hc hcount)
        (List.Subset.trans kx hkeys) (List.Subset.trans ky hkeys)
  | pending e₂ e₁ e₀ top low hdh hroot hx hy kx ky k₀ =>
      obtain ⟨env,henc,htop,hm,hc,hcount,hsame⟩ := encrypt_sends hS top hlim fresh p
      rw [End.sent,henc]
      exact .pending e₂ e₁ e₀.sentOne htop low hdh hroot (hx.sending hsame)
        (hy.sent_new hm hc hcount) (List.Subset.trans kx hkeys) (List.Subset.trans ky hkeys) (hkeys k₀)

/-- The other party encrypts: in the epoch before, or it opens the next. -/
theorem send_low (hS : S.Correct) (h : Phase keys x y)
    (hlim : y.ratchet.sendingChain.isSome → y.ratchet.sendingCounter.toNat+1 < 2^32)
    (fresh : Except Failure S.Priv) (hfresh : ∀ nk ∈ fresh.toOption, S.publicKey nk ∉ keys)
    (p : Bytes) :
    Phase (made fresh++keys) (x.addressed (encrypt fresh p y.ratchet).1 p) (y.sent fresh p) ∨
    Phase (made fresh++keys) (y.sent fresh p) (x.addressed (encrypt fresh p y.ratchet).1 p) := by
  have hkeys : keys ⊆ made fresh++keys := List.subset_append_right _ _
  cases h with
  | pending e₂ e₁ e₀ top low hdh hroot hx hy kx ky k₀ =>
      left
      obtain ⟨env,henc,hlow,hm,hc,hcount,hsame⟩ := encrypt_sends hS low hlim fresh p
      rw [End.sent,henc]
      exact .pending e₂ e₁.sentOne e₀ top hlow hdh hroot (hx.sent_current hm hc hcount)
        (hy.sending hsame) (List.Subset.trans kx hkeys) (List.Subset.trans ky hkeys) (hkeys k₀)
  | seen e₁ e₀ top low hx hy kx ky =>
      obtain ⟨hrecv,_,_⟩ := hy.current e₀ rfl
      cases fresh with
      | error e =>
          left
          have henc : encrypt (.error e) p y.ratchet = (.error e,y.ratchet) := by
            rw [encrypt,ensureSendingChain_error low.chain hrecv.have_pub]
          rw [End.sent,henc]
          exact .seen e₁ e₀ top low hx hy kx ky
      | ok nk =>
          right
          obtain ⟨out,hout,hback⟩ := dh_honest hS nk e₀.pair
          have hens := ensureSendingChain_new low.chain hrecv.have_pub
            (show dh nk y.ratchet.recvPub = .ok out by rw [hrecv.pub]; exact hout)
          have henc : encrypt (.ok nk) p y.ratchet =
              (.ok (sealMessage p (newSendingChain nk out y.ratchet)),
                messageSent (newSendingChain nk out y.ratchet)) := by
            rw [encrypt,hens]
          have hsends := sends_answer y.ratchet nk out
          have hm := hsends.message hS p
          have hunheard : (answer y.ratchet nk out).pub ∉ x.heard :=
            fun hmem => hfresh nk rfl (kx hmem)
          rw [End.sent,henc]
          refine .pending e₁ e₀ (answer y.ratchet nk out).sentOne
            (hsends.messageSent (show 0+1 < 2^32 by decide)) top hback ?_
            (hy.sending ⟨rfl,rfl,rfl,rfl,rfl⟩)
            ((hx.announced hunheard (show 0 < 2^32 by decide)).sent_new hm ?_
              (show 0+1 < 2^32 by decide))
            (List.Subset.trans ky hkeys) (List.Subset.trans kx hkeys) List.mem_cons_self
          · rw [← low.rootKey]
            rfl
          · rw [(sealMessage_fields p _).2.2]
            rfl

theorem heard_subset {z : End S} {i : ℕ} {b : Bytes} (hz : z.heard ⊆ keys) (hb : b ∈ keys)
    (heq : (z.received i).heard = b::z.heard) : (z.received i).heard ⊆ keys := by
  rw [heq]
  exact List.cons_subset.mpr ⟨hb,hz⟩

/-- The party in the newest epoch gets a message. -/
theorem deliver_top (hS : S.Correct) (h : Phase keys x y) {i : ℕ} {m : Envelope × Bytes}
    (hi : x.flying[i]? = some m)
    (hroom : size x.ratchet+toSkip m.1 x.ratchet < maxSkippedMessageKeys)
    (htimely : m.1.ratchetPub ∈ x.heard → m.1.ratchetPub = x.ratchet.recvPub) :
    (decrypt m.1 x.ratchet).1 = .ok m.2 ∧ Phase keys (x.received i) y := by
  have hmem := List.mem_of_getElem? hi
  cases h with
  | seen e₁ e₀ top low hx hy kx ky =>
      rcases hx.flying m hmem with hleft | ⟨e,rfl,hm,hawait⟩ | ⟨_,hnone,_⟩
      · exact absurd (htimely hleft.1) hleft.2
      · obtain ⟨hread,hsame,hx',hheard⟩ := hx.deliver_current hS hi hm hawait hroom
        exact ⟨hread,.seen (some e) e₀ (sends_congr top hsame) low hx' hy
          (heard_subset kx (kx (hx.current e rfl).2.1) hheard) ky⟩
      · cases hnone
  | pending e₂ e₁ e₀ top low hdh hroot hx hy kx ky k₀ =>
      rcases hx.flying m hmem with hleft | ⟨_,⟨⟩,hm,hawait⟩ | ⟨_,hnone,_⟩
      · exact absurd (htimely hleft.1) hleft.2
      · obtain ⟨hread,hsame,hx',hheard⟩ := hx.deliver_current hS hi hm hawait hroom
        exact ⟨hread,.pending e₂ e₁ e₀ (sends_congr top hsame) low hdh hroot hx' hy
          (heard_subset kx (kx (hx.current e₁ rfl).2.1) hheard) ky k₀⟩
      · cases hnone

/-- The other party gets a message, perhaps the first of the newest epoch. -/
theorem deliver_low (hS : S.Correct) (h : Phase keys x y) {i : ℕ} {m : Envelope × Bytes}
    (hi : y.flying[i]? = some m)
    (hroom : size y.ratchet+toSkip m.1 y.ratchet < maxSkippedMessageKeys)
    (htimely : m.1.ratchetPub ∈ y.heard → m.1.ratchetPub = y.ratchet.recvPub) :
    (decrypt m.1 y.ratchet).1 = .ok m.2 ∧ Phase keys x (y.received i) := by
  have hmem := List.mem_of_getElem? hi
  cases h with
  | seen e₁ e₀ top low hx hy kx ky =>
      rcases hy.flying m hmem with hleft | ⟨_,⟨⟩,hm,hawait⟩ | ⟨_,hnone,_⟩
      · exact absurd (htimely hleft.1) hleft.2
      · obtain ⟨hread,hsame,hy',hheard⟩ := hy.deliver_current hS hi hm hawait hroom
        have hlow : Rests (y.received i).ratchet e₁ e₀.root :=
          ⟨hsame.sendingChain.trans low.chain,hsame.sendingDH.trans low.pair,
            hsame.rootKey.trans low.rootKey⟩
        exact ⟨hread,.seen e₁ e₀ top hlow hx hy' kx
          (heard_subset ky (ky (hy.current e₀ rfl).2.1) hheard)⟩
      · cases hnone
  | pending e₂ e₁ e₀ top low hdh hroot hx hy kx ky k₀ =>
      rcases hy.flying m hmem with hleft | ⟨e,rfl,hm,hawait⟩ | ⟨_,⟨⟩,hm⟩
      · exact absurd (htimely hleft.1) hleft.2
      · obtain ⟨hread,hsame,hy',hheard⟩ := hy.deliver_current hS hi hm hawait hroom
        exact ⟨hread,.pending (some e) e₁ e₀ top (sends_congr low hsame) hdh hroot hx hy' kx
          (heard_subset ky (ky (hy.current e rfl).2.1) hheard) k₀⟩
      · obtain ⟨hread,hr,hsend,hDH,hy',hheard⟩ := hy.deliver_new hS hi hm low.pair hdh
          (low.root.symm ▸ hroot) hroom
        exact ⟨hread,.seen (some e₁) e₀ top ⟨hsend,hDH,hr⟩ hx hy' kx (heard_subset ky k₀ hheard)⟩

end Phase

/-! ### Runs -/

theorem other_ne (s : Side) : s.other ≠ s := by
  cases s <;> decide

theorem other_other (s : Side) : s.other.other = s := by
  cases s <;> rfl

theorem eq_or_eq_other (s t : Side) : t = s ∨ t = s.other := by
  cases s <;> cases t <;> decide

/-- Both ends after a message from `s`. -/
theorem step_encrypt (σ : System S) (s : Side) (fresh : Except Failure S.Priv) (p : Bytes) :
    (σ.step (.encrypt s fresh p)).ends s = (σ.ends s).sent fresh p ∧
    (σ.step (.encrypt s fresh p)).ends s.other =
      (σ.ends s.other).addressed (encrypt fresh p (σ.ends s).ratchet).1 p := by
  constructor
  · show Function.update (Function.update σ.ends s _) s.other _ s = _
    rw [Function.update_of_ne (other_ne s).symm,Function.update_self]
  · exact Function.update_self _ _ _

theorem step_deliver (σ : System S) (s : Side) (i : ℕ) :
    (σ.step (.deliver s i)).ends s = (σ.ends s).received i ∧
    (σ.step (.deliver s i)).ends s.other = σ.ends s.other :=
  ⟨Function.update_self _ _ _,Function.update_of_ne (other_ne s) _ _⟩

/-- Every event that meets the conditions keeps the two parties in step. -/
theorem System.Inv.step (hS : S.Correct) {σ : System S} (h : σ.Inv) {ev : Event S}
    (hassumed : σ.Assumed ev) (htimely : σ.Timely ev) : σ.Reads ev ∧ (σ.step ev).Inv := by
  obtain ⟨s,hphase⟩ := h
  cases ev with
  | encrypt t fresh p =>
      refine ⟨trivial,?_⟩
      obtain ⟨h₁,h₂⟩ := step_encrypt σ t fresh p
      rcases eq_or_eq_other s t with rfl | rfl
      · refine ⟨t,?_⟩
        rw [h₁,h₂]
        exact hphase.send_top hS htimely fresh p
      · rw [other_other] at h₂
        rcases hphase.send_low hS htimely fresh hassumed p with hlow | hnew
        · refine ⟨s,?_⟩
          rw [h₁,h₂]
          exact hlow
        · refine ⟨s.other,?_⟩
          rw [other_other,h₁,h₂]
          exact hnew
  | deliver t i =>
      obtain ⟨h₁,h₂⟩ := step_deliver σ t i
      cases hi : (σ.ends t).flying[i]? with
      | none =>
          have hsame : (σ.ends t).received i = σ.ends t := by
            rw [End.received,hi]
          have hends : (σ.step (.deliver t i)).ends = σ.ends := by
            show Function.update σ.ends t ((σ.ends t).received i) = σ.ends
            rw [hsame,Function.update_eq_self]
          refine ⟨fun m hm => (nomatch hi.symm.trans hm),s,?_⟩
          rw [hends]
          exact hphase
      | some m =>
          have hroom := hassumed m hi
          have hlate := htimely m hi
          have hreads : (decrypt m.1 (σ.ends t).ratchet).1 = .ok m.2 →
              σ.Reads (.deliver t i) := by
            intro hread m' hm'
            obtain rfl := Option.some.inj (hi.symm.trans hm')
            exact hread
          rcases eq_or_eq_other s t with rfl | rfl
          · obtain ⟨hread,hnext⟩ := hphase.deliver_top hS hi hroom hlate
            refine ⟨hreads hread,t,?_⟩
            rw [h₁,h₂]
            exact hnext
          · obtain ⟨hread,hnext⟩ := hphase.deliver_low hS hi hroom hlate
            refine ⟨hreads hread,s,?_⟩
            rw [other_other] at h₂
            rw [h₁,h₂]
            exact hnext

/-- The first epoch is the one of the key agreement. -/
theorem Established.inv (hS : S.Correct) {σ : System S} (h : Established σ) : σ.Inv := by
  cases h with
  | @mk alice eph keys oneTime keyOrder idOrder info p a b ho h =>
      obtain ⟨root,chain,_,hx⟩ := aliceSession_first hS alice keys.identity eph keys.signedPreKey
        keys.signedPreID oneTime keyOrder idOrder keys.oneTimeKey ho info
      have heq := establish_eq hS alice eph keys oneTime keyOrder idOrder info p ho hx
      obtain ⟨rfl,rfl⟩ := Prod.mk.inj (Except.ok.inj (heq.symm.trans h))
      let e₀ : Epoch S := ⟨eph,chain,root,0,1⟩
      have hnone : ∀ idx, idx ∉ (∅ : Finmap fun _ : ChainIndex => S.Secret) :=
        fun _ => Finmap.notMem_empty
      refine ⟨.alice,.seen none e₀ ⟨rfl,rfl,rfl,rfl,rfl⟩ ⟨rfl,rfl,rfl⟩ ?_ ?_ ?_ ?_⟩
      · exact ⟨fun idx hidx => absurd hidx (hnone idx),fun _ hc => (nomatch hc),fun _ => rfl,
          fun _ hc => (nomatch hc),List.Pairwise.nil,fun _ hm => (nomatch hm)⟩
      · refine ⟨fun idx hidx => absurd hidx (hnone idx),?_,fun hc => (nomatch hc),
          fun _ hc => (nomatch hc),List.Pairwise.nil,fun _ hm => (nomatch hm)⟩
        rintro _ ⟨⟩
        exact ⟨⟨rfl,copy32_pub hS e₀,rfl,Nat.le_refl _,fun _ _ => rfl⟩,List.mem_cons_self,
          (by decide : 1 < 2^32)⟩
      · exact List.nil_subset _
      · exact List.Subset.refl _

/-- Over every run of two established sessions without late messages, each delivery
of a genuine message returns the plaintext that was encrypted. -/
theorem genuine_messages_read (hS : S.Correct) {σ : System S} (h : Established σ)
    (evs : List (Event S)) (hassumed : Along System.step System.Assumed evs σ)
    (htimely : Along System.step System.Timely evs σ) : Along System.step System.Reads evs σ := by
  have hinv := h.inv hS
  clear h
  induction evs generalizing σ with
  | nil => trivial
  | cons ev evs ih =>
      obtain ⟨hread,hnext⟩ := hinv.step hS hassumed.1 htimely.1
      exact ⟨hread,ih hassumed.2 htimely.2 hnext⟩

def sampleSystem : System SymbolicSuite.suite :=
  {ends := fun s => match s with
    | .alice => ⟨sampleSender,[],[]⟩
    | .bob => ⟨sampleReceiver,[SymbolicSuite.publicOf 5],[]⟩
   keys := [SymbolicSuite.publicOf 5]}

theorem sampleSystem_established : Established sampleSystem :=
  .mk (S := SymbolicSuite.suite) rfl sample_established

/-- Messages of one chain out of order, an answer, and a message of the next chain
with one of its predecessors lost. -/
def reorderedRun : List (Event SymbolicSuite.suite) :=
  [.encrypt .alice (.error .keyGeneration) (text "one"),
   .encrypt .alice (.error .keyGeneration) (text "two"),.deliver .bob 1,
   .encrypt .bob (.ok (31 : UInt8)) (text "answer"),.deliver .bob 0,.deliver .alice 0,
   .encrypt .alice (.ok (32 : UInt8)) (text "lost"),
   .encrypt .alice (.error .keyGeneration) (text "three"),.deliver .bob 1]

theorem genuine_messages_read_reordered :
    Along System.step System.Reads reorderedRun sampleSystem :=
  genuine_messages_read SymbolicSuite.suite_correct sampleSystem_established reorderedRun
    (by decide +kernel) (by decide +kernel)

/-- A message of the first chain overtaken by one of the second chain. -/
def lateRun : List (Event SymbolicSuite.suite) :=
  [.encrypt .alice (.error .keyGeneration) (text "delayed"),
   .encrypt .bob (.ok (31 : UInt8)) (text "answer"),.deliver .alice 0,
   .encrypt .alice (.ok (32 : UInt8)) (text "next chain"),.deliver .bob 1,.deliver .bob 0,
   .encrypt .alice (.error .keyGeneration) (text "after"),.deliver .bob 0]

/-- The late message is taken for a new chain, and the next genuine one is lost. -/
theorem genuine_message_lost_after_late : Established sampleSystem ∧
    Along System.step System.Assumed lateRun sampleSystem ∧
    ¬Along System.step System.Reads lateRun sampleSystem :=
  ⟨sampleSystem_established,by decide +kernel,by decide +kernel⟩

end BaturWhatsApi.RatchetDelivery
