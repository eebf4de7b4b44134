import BaturWhatsApi.RelayedMessages
import BaturWhatsApi.TextLedger

/-!
# Which texts arrive

A sequence of `SendText` calls to any targets, with the frames that arrive and the sessions that
get stored, relays exactly the texts that the ledger says. So a text is lost after a send that was
not stored, because its number is used again.
-/
namespace BaturWhatsApi.RelayedTexts
open ByteStrings CipherSuite RatchetModel SessionSetup RatchetSteps SessionAgreement MessageChains
open RatchetStorage SendText EnvelopeWire NodeEncoder StringCodec Encodability
open TextRelay RelayedMessages TextLedger Runs

variable {S : Suite}

/-! ### The ledger of a run -/

/-- What the other device is to get. -/
def message (V : Server S) (c : Call S) : HistoryEvents.Message :=
  {id := c.pushID,chat := V.account,sender := V.account,content := c.request.text
   type := text "text",stamp := c.now}

def book (L : Ledger) (c : Call S) : Ledger :=
  if refused c then L else L.step c.request.target c.arrives c.persisted

/-- The text of the call reaches the other device. -/
def relays (V : Server S) (L : Ledger) (c : Call S) : Bool :=
  !refused c && c.arrives && L.reads c.request.target && V.online c.request.target

def expected (V : Server S) : List (Call S) → Ledger → List (Option HistoryEvents.Message)
  | [],_ => []
  | c::cs,L => (if relays V L c then some (message V c) else none)::expected V cs (book L c)

/-! ### The model does what the ledger says -/

/-- The ledger and the model, with the epoch of every session begun. The keys that the server
has put aside, and those it still has to, come from messages that did not arrive. -/
structure Agrees (F : Seeds S) (epochs : ℕ → Epoch S) (L : Ledger) (σ : Link S)
    (losses calls : ℕ) : Prop where
  valid : L.Valid calls
  pn : ∀ s < L.begun, (epochs s).pn = 0
  distinct : ∀ s < L.begun, ∀ s' < L.begun, (epochs s).pub = (epochs s').pub → s = s'
  absent : ∀ t, L.sent t = none → σ.stored t = none
  stored : ∀ t s c, L.sent t = some (s,c) → ∃ p, σ.stored t = some p ∧ Stands F (epochs s) c p
  closed : L.current = none → σ.session = none
  held : ∀ s n, L.current = some (s,n) → ∃ b, σ.session = some b ∧ Waits (epochs s) n b ∧
    size b ≤ losses ∧ ∀ t c, L.sent t = some (s,c) → size b+(c-n) ≤ losses

theorem agrees_empty (F : Seeds S) (epochs : ℕ → Epoch S) :
    Agrees F epochs .empty .empty 0 0 where
  valid := Ledger.valid_empty
  pn s hs := absurd hs (Nat.not_lt_zero s)
  distinct s hs := absurd hs (Nat.not_lt_zero s)
  absent _ _ := rfl
  stored t s c h := by cases h
  closed _ := rfl
  held s n h := by cases h

/-- What the server makes of message `c` of an epoch. -/
structure Served (L : Ledger) (t plain : Bytes) (e : Epoch S) (c losses : ℕ)
    (rt : Option (Ratchet S)) (out : Option (Ratchet S) × Option Bytes) : Prop where
  plain : out.2 = if L.reads t then some plain else none
  reads : L.reads t = true → ∃ b, out.1 = some b ∧ Waits e (c+1) b ∧ size b ≤ losses
  keeps : L.reads t = false → out.1 = rt

section
variable {F : Seeds S} {V : Server S} {σ : Link S} {L : Ledger} {epochs : ℕ → Epoch S}
  {losses calls : ℕ}

/-- A message of a stored session. -/
theorem Agrees.served (hS : S.Correct) (h : Agrees F epochs L σ losses calls) {t : Bytes} {s c : ℕ}
    (hs : L.sent t = some (s,c)) {q : Request S} {f : Sending S} (hf : Hands (epochs s) c q f)
    (htype : f.env.type = envRatchet) (hcount : c+1 < 2^32)
    (hlosses : losses < maxSkippedMessageKeys) :
    Served L t q.text (epochs s) c losses σ.session (relayEnvelope V.keys σ.session f.env) := by
  obtain ⟨hlt,_⟩ := h.valid.stored hs
  cases hcur : L.current with
  | none =>
      have hreads : ¬L.reads t = true := by
        rw [Ledger.reads_of_some hs,hcur]
        simp
      rw [h.closed hcur,relayEnvelope_none htype]
      exact ⟨by rw [if_neg hreads],fun hr => absurd hr hreads,fun _ => rfl⟩
  | some x =>
      obtain ⟨s',n⟩ := x
      obtain ⟨b,hb,hwaits,hsize,hgap⟩ := h.held s' n hcur
      rw [hb,relayEnvelope_decrypt htype]
      by_cases hsame : s' = s
      · subst hsame
        by_cases hn : n ≤ c
        · have hreads : L.reads t = true := (Ledger.reads_of_some hs).mpr ⟨n,hcur,hn⟩
          have hroom := hgap t c hs
          obtain ⟨b',hdec,hwaits',hsize'⟩ := hwaits.read hS hf.message hf.counter hn hcount
            (lt_of_le_of_lt hroom hlosses)
          rw [hdec]
          exact ⟨by rw [if_pos hreads]; rfl,fun _ => ⟨b',rfl,hwaits',hsize'.trans hroom⟩,
            fun hr => absurd hreads (by rw [hr]; decide)⟩
        · have hreads : ¬L.reads t = true := by
            rw [Ledger.reads_of_some hs,hcur]
            rintro ⟨m,hm,hle⟩
            simp only [Option.some.injEq,Prod.mk.injEq,true_and] at hm
            omega
          have hlast : n = c+1 := by
            have := h.valid.behind hcur hs
            omega
          rw [hwaits.reject hS hf.message hf.counter hlast]
          exact ⟨by rw [if_neg hreads]; rfl,fun hr => absurd hr hreads,fun _ => rfl⟩
      · have hreads : ¬L.reads t = true := by
          rw [Ledger.reads_of_some hs,hcur]
          rintro ⟨m,hm,_⟩
          simp only [Option.some.injEq,Prod.mk.injEq] at hm
          exact hsame hm.1
        have hpub : (epochs s).pub ≠ (epochs s').pub := fun heq =>
          hsame (h.distinct s hlt s' (h.valid.current hcur) heq).symm
        rw [hwaits.foreign hS hf.message (h.pn s hlt) hpub]
        exact ⟨by rw [if_neg hreads]; rfl,fun hr => absurd hr hreads,fun _ => rfl⟩

/-- A call that is not refused, with the epochs after it. -/
structure Turn (F : Seeds S) (V : Server S) (epochs epochs' : ℕ → Epoch S) (L : Ledger)
    (σ : Link S) (losses : ℕ) (call : Call S) (f : Sending S) : Prop where
  same : ∀ s < L.begun, epochs' s = epochs s
  new : L.sent call.request.target = none → ephemeralPub call = some (epochs' L.begun).pub
  pn : (epochs' (L.next call.request.target).1).pn = 0
  prepared : call.prepared F σ = .ok f
  hands : Hands (epochs' (L.next call.request.target).1) (L.next call.request.target).2
    call.request f
  served : Served L call.request.target call.request.text
    (epochs' (L.next call.request.target).1) (L.next call.request.target).2 losses σ.session
    (relayEnvelope V.keys σ.session f.env)

theorem Agrees.turn (hS : S.Correct) (hF : F.Lawful) (h : Agrees F epochs L σ losses calls)
    {call : Call S} (hcall : refused call = false) (hproper : Proper F V call)
    (hcount : calls+1 < 2^32) (hlosses : losses < maxSkippedMessageKeys) :
    ∃ epochs' f, Turn F V epochs epochs' L σ losses call f := by
  cases hs : L.sent call.request.target with
  | none =>
      obtain ⟨eph,heph⟩ := hproper.ephemeral
      obtain ⟨root,chain,f,b,hprep,hhands,htype,hbob,hwaits,hsize⟩ :=
        prepared_new hS hcall hproper (h.absent _ hs) heph
      have hread := Ledger.reads_of_none hs
      refine ⟨Function.update epochs L.begun (opening eph root chain),f,?_⟩
      have hnext := Ledger.next_of_none hs
      refine ⟨fun s hlt => Function.update_of_ne (Nat.ne_of_lt hlt) _ _,fun _ => ?_,?_,hprep,?_,?_⟩
      · rw [Function.update_self,ephemeralPub,heph]
        rfl
      · rw [hnext,Function.update_self]
        rfl
      · rw [hnext,Function.update_self]
        exact hhands
      · rw [hnext,Function.update_self,relayEnvelope_init htype hbob]
        exact ⟨by rw [if_pos hread],fun _ => ⟨b,rfl,hwaits,by rw [hsize]; exact Nat.zero_le _⟩,
          fun hr => absurd hread (by rw [hr]; decide)⟩
  | some x =>
      obtain ⟨s,c⟩ := x
      obtain ⟨p,hp,hstands⟩ := h.stored _ s c hs
      obtain ⟨f,hprep,hhands,htype⟩ := prepared_stored hS hF hcall hp hstands
      obtain ⟨hlt,hle⟩ := h.valid.stored hs
      have hnext := Ledger.next_of_some hs
      refine ⟨epochs,f,fun _ _ => rfl,fun hnone => ?_,?_,hprep,?_,?_⟩
      · rw [hs] at hnone
        cases hnone
      · rw [hnext]
        exact h.pn s hlt
      · rw [hnext]
        exact hhands
      · rw [hnext]
        exact h.served hS hs hhands htype (by omega) hlosses

variable {epochs' : ℕ → Epoch S} {call : Call S} {f : Sending S}

/-- The store behind the call. -/
def storedBy (F : Seeds S) (call : Call S) (f : Sending S) (σ : Link S) :
    Bytes → Option (PersistedRatchet S) :=
  if call.persisted then
    Function.update σ.stored call.request.target (some (marshalState F f.ratchet))
  else σ.stored

/-- The sender's session at the server behind the call. -/
def sessionBy (V : Server S) (call : Call S) (f : Sending S) (σ : Link S) : Option (Ratchet S) :=
  if call.arrives then (relayEnvelope V.keys σ.session f.env).1 else σ.session

/-- The link behind the call, and what the other device gets. -/
theorem Turn.step_eq (hd : V.dict.WellFormed) (hproper : Proper F V call) (hfits : Fits F σ call)
    (hturn : Turn F V epochs epochs' L σ losses call f) :
    (σ.step F V call).1 =
      {stored := storedBy F call f σ,session := sessionBy V call f σ} ∧
    (σ.step F V call).2 = if call.arrives && L.reads call.request.target &&
        V.online call.request.target then some (message V call) else none := by
  have hlen : (serialize f.env).length < maxInt32 := hfits f (by rw [hturn.prepared]; rfl)
  have hframe := handleFrame_textNode hd (hproper.encodable_textNode hlen) hturn.hands.checked
    hturn.hands.init call.pushID σ.session
  simp only [Link.step,hturn.prepared,storedBy,sessionBy]
  cases harr : call.arrives with
  | false =>
      simp only [Call.relayed,harr,Bool.false_eq_true,if_false,Bool.false_and]
      exact ⟨trivial,rfl⟩
  | true =>
      simp only [Call.relayed,harr,if_true,hframe,hturn.served.plain,Bool.true_and]
      refine ⟨trivial,?_⟩
      cases hr : L.reads call.request.target with
      | false => rfl
      | true =>
          simp only [if_true,Option.bind_some,Bool.true_and]
          split_ifs
          · exact received_pushedNode hd hproper.encodable_pushedNode call.now
          · rfl

theorem Turn.begun_cases
    (hturn : Turn F V epochs epochs' L σ losses call f) {s : ℕ}
    (hs : s < (L.step call.request.target call.arrives call.persisted).begun) :
    (s < L.begun ∧ epochs' s = epochs s) ∨
    (s = L.begun ∧ L.sent call.request.target = none ∧
      ephemeralPub call = some (epochs' s).pub) := by
  by_cases hlt : s < L.begun
  · exact .inl ⟨hlt,hturn.same s hlt⟩
  · rw [Ledger.step] at hs
    simp only at hs
    split_ifs at hs with hnone
    · have hnone := Option.isNone_iff_eq_none.mp hnone
      obtain rfl : s = L.begun := by omega
      exact .inr ⟨rfl,hnone,hturn.new hnone⟩
    · exact absurd hs hlt

/-- The messages that did not arrive, with this one. -/
def losing (losses : ℕ) (call : Call S) : ℕ := if lost call then losses+1 else losses

theorem le_losing (losses : ℕ) (call : Call S) : losses ≤ losing losses call := by
  rw [losing]
  split_ifs <;> omega

theorem Turn.distinct (h : Agrees F epochs L σ losses calls)
    (hfresh : ∀ s < L.begun, ephemeralPub call ≠ some (epochs s).pub)
    (hturn : Turn F V epochs epochs' L σ losses call f) {s s' : ℕ}
    (hs : s < (L.step call.request.target call.arrives call.persisted).begun)
    (hs' : s' < (L.step call.request.target call.arrives call.persisted).begun)
    (hpub : (epochs' s).pub = (epochs' s').pub) : s = s' := by
  rcases hturn.begun_cases hs with ⟨hlt,heq⟩ | ⟨rfl,_,hnew⟩ <;>
    rcases hturn.begun_cases hs' with ⟨hlt',heq'⟩ | ⟨rfl,_,hnew'⟩
  · rw [heq,heq'] at hpub
    exact h.distinct s hlt s' hlt' hpub
  · rw [← hpub,heq] at hnew'
    exact absurd hnew' (hfresh s hlt)
  · rw [hpub,heq'] at hnew
    exact absurd hnew (hfresh s' hlt')
  · rfl

theorem Turn.absent (h : Agrees F epochs L σ losses calls) {t : Bytes}
    (ht : (L.step call.request.target call.arrives call.persisted).sent t = none) :
    storedBy F call f σ t = none := by
  rw [Ledger.step] at ht
  rw [storedBy]
  simp only at ht
  split_ifs at ht ⊢
  · by_cases heq : t = call.request.target
    · rw [heq,Function.update_self] at ht
      cases ht
    · rw [Function.update_of_ne heq] at ht ⊢
      exact h.absent t ht
  · exact h.absent t ht

theorem Turn.stored (h : Agrees F epochs L σ losses calls) (hcount : calls+1 < 2^32)
    (hturn : Turn F V epochs epochs' L σ losses call f) {t : Bytes} {s c : ℕ}
    (hs : (L.step call.request.target call.arrives call.persisted).sent t = some (s,c)) :
    ∃ p, storedBy F call f σ t = some p ∧ Stands F (epochs' s) c p := by
  rw [storedBy]
  rcases Ledger.sent_step hs with ⟨hp,rfl,he⟩ | ⟨hs,hne⟩
  · obtain ⟨rfl,rfl⟩ := Prod.mk.inj he
    have hnext := Ledger.next_le h.valid call.request.target
    rw [if_pos hp,Function.update_self]
    exact ⟨_,rfl,f.ratchet,rfl,hturn.hands.sends (by omega),hturn.hands.sent⟩
  · obtain ⟨p,hp,hstands⟩ := h.stored t s c hs
    rw [hturn.same s (h.valid.stored hs).1]
    refine ⟨p,?_,hstands⟩
    split_ifs with hpers
    · rw [Function.update_of_ne (hne hpers)]
      exact hp
    · exact hp

theorem Turn.session_kept (hturn : Turn F V epochs epochs' L σ losses call f)
    (hread : (call.arrives && L.reads call.request.target) = false) :
    sessionBy V call f σ = σ.session := by
  rw [sessionBy]
  split_ifs with harr
  · rw [harr,Bool.true_and] at hread
    exact hturn.served.keeps hread
  · rfl

/-- What a stored call adds to the keys the server will have to put aside. -/
theorem Turn.gap (h : Agrees F epochs L σ losses calls)
    (hread : (call.arrives && L.reads call.request.target) = false) {s n : ℕ}
    (hcur : L.current = some (s,n)) {size : ℕ}
    (hgap : ∀ t c, L.sent t = some (s,c) → size+(c-n) ≤ losses) {t : Bytes} {c : ℕ}
    (hs : (L.step call.request.target call.arrives call.persisted).sent t = some (s,c)) :
    size+(c-n) ≤ losing losses call := by
  rcases Ledger.sent_step hs with ⟨hp,_,he⟩ | ⟨hs,_⟩
  · obtain ⟨rfl,rfl⟩ := Prod.mk.inj he
    cases hsent : L.sent call.request.target with
    | none =>
        rw [Ledger.next_of_none hsent] at hcur
        exact absurd (h.valid.current hcur) (Nat.lt_irrefl _)
    | some x =>
        obtain ⟨s',c'⟩ := x
        rw [Ledger.next_of_some hsent] at hcur hgap ⊢
        have hold := hgap _ c' hsent
        have hle := le_losing losses call
        show size+(c'+1-n) ≤ _
        cases harr : call.arrives with
        | false =>
            have hlost : losing losses call = losses+1 := by
              rw [losing,lost,hp,harr]
              rfl
            omega
        | true =>
            -- the number was used: the server is one ahead
            rw [harr,Bool.true_and] at hread
            have hn : ¬n ≤ c' := fun hn =>
              absurd ((Ledger.reads_of_some hsent).mpr ⟨n,hcur,hn⟩) (by rw [hread]; decide)
            omega
  · exact (hgap t c hs).trans (le_losing losses call)

theorem Turn.held (h : Agrees F epochs L σ losses calls)
    (hturn : Turn F V epochs epochs' L σ losses call f) {s n : ℕ}
    (hc : (L.step call.request.target call.arrives call.persisted).current = some (s,n)) :
    ∃ b, sessionBy V call f σ = some b ∧ Waits (epochs' s) n b ∧
      size b ≤ losing losses call ∧ ∀ t c,
        (L.step call.request.target call.arrives call.persisted).sent t = some (s,c) →
          size b+(c-n) ≤ losing losses call := by
  have hle := le_losing losses call
  rcases Ledger.current_step hc with ⟨harr,hread,he⟩ | ⟨hread,hcur⟩
  · obtain ⟨rfl,rfl⟩ := Prod.mk.inj he
    obtain ⟨b,hb,hwaits,hsize⟩ := hturn.served.reads hread
    refine ⟨b,(if_pos harr).trans hb,hwaits,hsize.trans hle,fun t c hs => ?_⟩
    have hc : c ≤ (L.next call.request.target).2+1 := by
      rcases Ledger.sent_step hs with ⟨_,_,he⟩ | ⟨hs,_⟩
      · exact Nat.le_of_eq (Prod.mk.inj he).2
      · rw [(Ledger.own_next h.valid hs).2]
        exact Nat.le_succ _
    omega
  · obtain ⟨b,hb,hwaits,hsize,hgap⟩ := h.held s n hcur
    rw [hturn.same s (h.valid.current hcur)]
    exact ⟨b,(hturn.session_kept hread).trans hb,hwaits,hsize.trans hle,
      fun t c hs => Turn.gap h hread hcur hgap hs⟩

/-- The call advances the ledger and the model together. -/
theorem Turn.agrees (hd : V.dict.WellFormed) (h : Agrees F epochs L σ losses calls)
    (hproper : Proper F V call) (hfits : Fits F σ call)
    (hfresh : ∀ s < L.begun, ephemeralPub call ≠ some (epochs s).pub) (hcount : calls+1 < 2^32)
    (hturn : Turn F V epochs epochs' L σ losses call f) :
    Agrees F epochs' (L.step call.request.target call.arrives call.persisted) (σ.step F V call).1
      (losing losses call) (calls+1) := by
  rw [(hturn.step_eq hd hproper hfits).1]
  refine ⟨h.valid.step _ _ _,fun s hs => ?_,fun s hs s' hs' => hturn.distinct h hfresh hs hs',
    fun t => Turn.absent h,fun t s c => hturn.stored h hcount,fun hc => ?_,
    fun s n => hturn.held h⟩
  · rcases hturn.begun_cases hs with ⟨hlt,heq⟩ | ⟨rfl,hnone,_⟩
    · rw [heq]
      exact h.pn s hlt
    · have hpn := hturn.pn
      rwa [Ledger.next_of_none hnone] at hpn
  · rw [Ledger.step] at hc
    simp only at hc
    split_ifs at hc with hread
    exact (hturn.session_kept (by simpa using hread)).trans (h.closed hc)

end

/-! ### Whole runs -/

section
variable {F : Seeds S} {V : Server S}

/-- What is assumed of a sequence of calls: every call that gets that far has what it needs, no
ephemeral key comes twice, no envelope is too long, and fewer messages get lost than the server
has room for keys. -/
structure Assumed (F : Seeds S) (V : Server S) (calls : List (Call S)) (σ : Link S) : Prop where
  proper : ∀ c ∈ calls, refused c = false → Proper F V c
  fresh : (calls.filter fun c => !refused c).Pairwise fun c c' => ephemeralPub c ≠ ephemeralPub c'
  fits : Along (fun σ c => (σ.step F V c).1) (Fits F) calls σ
  count : calls.length < 2^32
  losses : (calls.filter lost).length < maxSkippedMessageKeys

theorem step_refused {σ : Link S} {c : Call S} (h : refused c = true) :
    σ.step F V c = (σ,none) := by
  obtain ⟨e,he⟩ := prepared_refused (F := F) (σ := σ) h
  rw [Link.step,he]

theorem agrees_run (hS : S.Correct) (hF : F.Lawful) (hd : V.dict.WellFormed)
    (calls : List (Call S)) {epochs : ℕ → Epoch S} {L : Ledger} {σ : Link S} {losses n : ℕ}
    (h : Agrees F epochs L σ losses n)
    (hproper : ∀ c ∈ calls, refused c = false → Proper F V c)
    (hfresh : (calls.filter fun c => !refused c).Pairwise
      fun c c' => ephemeralPub c ≠ ephemeralPub c')
    (hnew : ∀ c ∈ calls, refused c = false → ∀ s < L.begun, ephemeralPub c ≠ some (epochs s).pub)
    (hfits : Along (fun σ c => (σ.step F V c).1) (Fits F) calls σ) (hcount : n+calls.length < 2^32)
    (hlosses : losses+(calls.filter lost).length < maxSkippedMessageKeys) :
    outputs F V calls σ = expected V calls L := by
  induction calls generalizing epochs L σ losses n with
  | nil => rfl
  | cons c calls ih =>
      have hrest : ∀ c' ∈ calls, refused c' = false → Proper F V c' :=
        fun c' hc' => hproper c' (List.mem_cons_of_mem c hc')
      have hkeep : (calls.filter lost).length ≤ ((c::calls).filter lost).length := by
        rw [List.filter_cons]
        split_ifs
        · exact Nat.le_succ _
        · exact Nat.le_refl _
      rw [List.length_cons] at hcount
      cases hr : refused c with
      | true =>
          rw [List.filter_cons_of_neg (by simp [hr])] at hfresh
          rw [Along,step_refused hr] at hfits
          have hout := ih h hrest hfresh
            (fun c' hc' => hnew c' (List.mem_cons_of_mem c hc')) hfits.2 (by omega) (by omega)
          rw [outputs,expected,step_refused hr,show book L c = L from if_pos hr,
            show relays V L c = false by simp [relays,hr],hout]
          rfl
      | false =>
          rw [List.filter_cons_of_pos (by simp [hr]),List.pairwise_cons] at hfresh
          have hmem := List.mem_cons_self (a := c) (l := calls)
          obtain ⟨epochs',f,hturn⟩ := h.turn hS hF hr (hproper c hmem hr) (by omega)
            (lt_of_le_of_lt (Nat.le_add_right _ _) hlosses)
          have hstep := hturn.agrees hd h (hproper c hmem hr) hfits.1 (hnew c hmem hr) (by omega)
          have hafter : book L c = L.step c.request.target c.arrives c.persisted := by
            rw [book,hr]
            rfl
          have hnew' : ∀ c' ∈ calls, refused c' = false → ∀ s < (book L c).begun,
              ephemeralPub c' ≠ some (epochs' s).pub := by
            intro c' hc' hr' s hs
            rw [hafter] at hs
            rcases hturn.begun_cases hs with ⟨hlt,heq⟩ | ⟨_,_,hown⟩
            · rw [heq]
              exact hnew c' (List.mem_cons_of_mem c hc') hr' s hlt
            · rw [← hown]
              exact (hfresh.1 c' (List.mem_filter.mpr ⟨hc',by simp [hr']⟩)).symm
          have hlosing : losing losses c+(calls.filter lost).length =
              losses+((c::calls).filter lost).length := by
            rw [losing,List.filter_cons]
            split_ifs
            · rw [List.length_cons]
              omega
            · rfl
          rw [← hafter] at hstep
          have hout := ih hstep hrest hfresh.2 hnew' hfits.2 (by omega) (by omega)
          rw [outputs,expected,hout,(hturn.step_eq hd (hproper c hmem hr) hfits.1).2]
          simp only [relays,hr,Bool.not_false,Bool.true_and]

end

/-- The other devices get exactly the texts that the ledger relays. -/
theorem texts_relayed {F : Seeds S} {V : Server S} (hS : S.Correct) (hF : F.Lawful)
    (hd : V.dict.WellFormed) (calls : List (Call S)) (h : Assumed F V calls .empty) :
    outputs F V calls .empty = expected V calls .empty := by
  obtain ⟨s,_,_⟩ := dh_honest hS V.keys.identity.dhKey V.keys.identity.dhKey
  refine agrees_run hS hF hd calls (agrees_empty F fun _ => ⟨V.keys.identity.dhKey,s,s,0,0⟩)
    h.proper h.fresh (fun c _ _ s hs => absurd hs (Nat.not_lt_zero s)) h.fits ?_ ?_
  · rw [Nat.zero_add]
    exact h.count
  · rw [Nat.zero_add]
    exact h.losses

/-! ### Calls to two targets -/

def sampleServer : Server SymbolicSuite.suite where
  dict := DefaultTokens.default
  inflate _ := .error ""
  keys := sampleBobKeys
  account := text "62000001001@s.whatsapp.net"
  online _ := true

/-- A call that arrives. -/
def sampleCall (target : String) (eph : UInt8) (message : String) (persisted : Bool) :
    Call SymbolicSuite.suite :=
  {request := {sampleRequest eph message with target := text target}
   msgID := text "AAAAAAAAAAAAAAAA",pushID := text "E2E000001",now := 0,arrives := true
   persisted := persisted}

/-- The second message is not stored, and the fifth begins another session. -/
def sampleCalls : List (Call SymbolicSuite.suite) :=
  [sampleCall "first" 31 "one" true,sampleCall "first" 32 "two" false,
   sampleCall "first" 33 "three" true,sampleCall "first" 34 "four" true,
   sampleCall "second" 35 "five" true,sampleCall "first" 36 "six" true]

theorem sampleCall_proper {target message : String} (ht : (text target).length < maxInt32)
    (hm : (text message).length < maxInt32) (eph : UInt8) (persisted : Bool) :
    Proper sampleSeeds sampleServer (sampleCall target eph message persisted) where
  identity creds hcreds := by
    obtain rfl := Option.some.inj hcreds
    exact ⟨_,rfl⟩
  bundle := ⟨published oneKey,rfl⟩
  oneTime := rfl
  ephemeral := ⟨eph,rfl⟩
  writable s hs := by
    refine writable_of_short ?_
    simp only [List.mem_cons,List.not_mem_nil,or_false] at hs
    rcases hs with rfl | rfl | rfl | rfl | rfl
    · show (text "AAAAAAAAAAAAAAAA").length < maxInt32
      decide
    · show (text "E2E000001").length < maxInt32
      decide
    · exact ht
    · show (text "62000001001@s.whatsapp.net").length < maxInt32
      decide
    · exact hm

theorem sampleCalls_assumed : Assumed sampleSeeds sampleServer sampleCalls .empty := by
  refine ⟨fun c hc _ => ?_,by decide +kernel,by decide +kernel,by decide,by decide⟩
  simp only [sampleCalls,List.mem_cons,List.not_mem_nil,or_false] at hc
  rcases hc with rfl | rfl | rfl | rfl | rfl | rfl <;>
    exact sampleCall_proper (by decide) (by decide) _ _

theorem texts_relayed_sample :
    (outputs sampleSeeds sampleServer sampleCalls .empty).map
      (fun out => out.map HistoryEvents.Message.content) =
      [some (text "one"),some (text "two"),none,some (text "four"),some (text "five"),none] := by
  rw [texts_relayed SymbolicSuite.suite_correct sampleSeeds_lawful DefaultTokens.default_wellFormed
    sampleCalls sampleCalls_assumed]
  decide +kernel

end BaturWhatsApi.RelayedTexts
