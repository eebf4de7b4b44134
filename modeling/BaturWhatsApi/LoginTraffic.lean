import BaturWhatsApi.DefaultTokens
import BaturWhatsApi.LoginCompletion
import BaturWhatsApi.NodeDecoder
import BaturWhatsApi.NodeEncoder
import BaturWhatsApi.SessionFrames

/-!
# Nodes after a login

What follows a login: `Send`, `serveFrames` and `frameConsumer` of `session/session.go`, and
`push`, `sessionLoop` and `handle` of the server in `internal/mockserver/mockserver.go`. Each end
takes its two ciphers from the handshake. A node is marshalled, sealed and handed to the transport,
and a frame that does not open ends the reading of its end. What opens is decoded, and a plaintext
without a node is left out.

The session puts its frames into a queue first, and drops one that finds the queue full. The server
takes each from the transport, and returns after a node that ends the stream or when it is set to
drop the connection.

Over a transport that keeps the order of the frames no end fails as long as the queue has room.
Each handles the nodes of the frames it has taken, in both directions at once and whatever else
happens on the server. The numbers of the two counters have 32 bits and go round together.
-/
namespace BaturWhatsApi.LoginTraffic
open ByteStrings CipherSuite NoiseCipher NoiseHandshake NoiseAgreement TokenDictionary NodeModel
open NodeEncoder NodeDecoder Login LoginTranscripts LoginCompletion Runs
open SessionFrames (queueSize)

variable {N : NoiseSuite} {α : Type}

/-! ### The ends of a connection -/

inductive Party where
  | client (i : ℕ)
  | serving (j : ℕ)
deriving DecidableEq, Repr

/-- The dictionary of both ends, the decompression of the standard library, and after how many
nodes the server severs a connection, where 0 means never. -/
structure Codec where
  inflate : Bytes → Except String Bytes
  dict : Dictionary
  dropAfterRequests : ℕ := 0

def Codec.plain (K : Codec) (n : Node) : Bytes := marshalDict n K.dict

def Codec.read (K : Codec) (plain : Bytes) : Option Node :=
  (decode K.inflate K.dict plain).toOption

/-- The end reads no further after the node, which is its `count`-th: the result of `handle`. A
session goes on after every node. -/
def Codec.quits (K : Codec) : Party → ℕ → Node → Bool
  | .client _,_,_ => false
  | .serving _,count,n => n.tag = text "xmlstreamend" ||
      (decide (0 < K.dropAfterRequests) && count%K.dropAfterRequests = 0)

/-- `sent` are the nodes given to `Send` or `push`, and `frames` what was sealed for the transport.
`queue` are the frames that `frameConsumer` has still to take. `opened` are the plaintexts that
were read, and `handled` the nodes in them. -/
structure Channel (N : NoiseSuite) where
  send : Cipher N
  recv : Cipher N
  sent : List Node := []
  frames : List Bytes := []
  queue : List Bytes := []
  opened : List Bytes := []
  handled : List Node := []
  failed : Bool := false
  returned : Bool := false

def Channel.push (K : Codec) (n : Node) (c : Channel N) : Channel N :=
  let (ct,send) := c.send.seal (K.plain n)
  {c with send := send,sent := c.sent++[n],frames := c.frames++[ct]}

/-- One round of `frameConsumer` or of `sessionLoop`. -/
def Channel.consume (K : Codec) (p : Party) (raw : Bytes) (c : Channel N) : Channel N :=
  if c.failed || c.returned then c
  else match c.recv.open raw with
    | (none,recv) => {c with recv := recv,failed := true}
    | (some plain,recv) =>
        {c with
          recv := recv
          opened := c.opened++[plain]
          handled := c.handled++(K.read plain).toList
          returned := (K.read plain).any (K.quits p (c.handled.length+1))}

/-- A frame comes from the transport, to `serveFrames` or to `sessionLoop`. -/
def Channel.deliver (K : Codec) (raw : Bytes) (c : Channel N) : Party → Channel N
  | .client _ => if c.queue.length < queueSize then {c with queue := c.queue++[raw]} else c
  | .serving j => c.consume K (.serving j) raw

/-- `frameConsumer` takes the next frame. -/
def Channel.take (K : Codec) (i : ℕ) (c : Channel N) : Channel N :=
  match c.failed,c.queue with
  | false,raw::queue => Channel.consume K (.client i) raw {c with queue := queue}
  | _,_ => c

structure Traffic (N : NoiseSuite) (α : Type) where
  login : World N α := {}
  channels : Party → Option (Channel N) := fun _ => none

/-- The ciphers of an end that has come to the end of its handshake. -/
def ciphers (W : World N α) : Party → Option (Cipher N × Cipher N)
  | .client i => do
      let c ← W.clients[i]?
      let f ← c.finished
      f.xx.sendCipher.toOption
  | .serving j => do
      let v ← W.servings[j]?
      let t ← v.accepted
      t.xx.sendCipher.toOption

inductive Event (N : NoiseSuite) (α : Type) where
  | login (ev : Login.Event N α)
  | connect (p : Party)
  | send (p : Party) (n : Node)
  | deliver (p : Party) (raw : Bytes)
  | take (i : ℕ)

/-- One end goes on to another state, if it is up. -/
def Traffic.modify (T : Traffic N α) (p : Party) (f : Channel N → Channel N) : Traffic N α :=
  {T with channels := Function.update T.channels p ((T.channels p).map f)}

theorem Traffic.modify_channels (T : Traffic N α) (p q : Party) (f : Channel N → Channel N) :
    (T.modify q f).channels p = if p = q then (T.channels p).map f else T.channels p := by
  rw [Traffic.modify]
  dsimp only
  split_ifs with h
  · subst h
    rw [Function.update_self]
  · rw [Function.update_of_ne h]

def Traffic.step (E : Setting N) (K : Codec) (T : Traffic N α) : Event N α → Traffic N α
  | .login ev => {T with login := T.login.step E ev}
  | .connect p =>
      match T.channels p with
      | some _ => T
      | none =>
          {T with
            channels := Function.update T.channels p
              ((ciphers T.login p).map fun k => {send := k.1,recv := k.2})}
  | .send p n => T.modify p (Channel.push K n)
  | .deliver p raw => T.modify p fun c => c.deliver K raw p
  | .take i => T.modify (.client i) (Channel.take K i)

def Traffic.sent (T : Traffic N α) (p : Party) : List Node := (T.channels p).elim [] Channel.sent

def Traffic.frames (T : Traffic N α) (p : Party) : List Bytes :=
  (T.channels p).elim [] Channel.frames

def Traffic.queue (T : Traffic N α) (p : Party) : List Bytes :=
  (T.channels p).elim [] Channel.queue

def Traffic.opened (T : Traffic N α) (p : Party) : List Bytes :=
  (T.channels p).elim [] Channel.opened

def Traffic.handled (T : Traffic N α) (p : Party) : List Node :=
  (T.channels p).elim [] Channel.handled

def Traffic.failed (T : Traffic N α) (p : Party) : Bool :=
  (T.channels p).elim false Channel.failed

def Traffic.returned (T : Traffic N α) (p : Party) : Bool :=
  (T.channels p).elim false Channel.returned

/-! ### What an event does to an end -/

section
variable {E : Setting N} {K : Codec} {T : Traffic N α} {ev : Event N α} {p : Party}
  {c : Channel N}

/-- What an event makes of an end that is up. -/
def Channel.after (K : Codec) (p : Party) : Event N α → Channel N → Channel N
  | .send q n,c => if p = q then c.push K n else c
  | .deliver q raw,c => if p = q then c.deliver K raw p else c
  | .take i,c => if p = .client i then c.take K i else c
  | _,c => c

theorem step_channel (E : Setting N) (K : Codec) (ev : Event N α) (h : T.channels p = some c) :
    (T.step E K ev).channels p = some (c.after K p ev) := by
  cases ev with
  | login ev => exact h
  | connect q =>
      rw [Traffic.step]
      split
      · exact h
      · rename_i hnone
        have hq : p ≠ q := by
          rintro rfl
          rw [h] at hnone
          cases hnone
        dsimp only
        rw [Function.update_of_ne hq]
        exact h
  | send q n =>
      rw [Traffic.step,Traffic.modify_channels,h,Option.map_some,Channel.after]
      split_ifs <;> rfl
  | deliver q raw =>
      rw [Traffic.step,Traffic.modify_channels,h,Option.map_some,Channel.after]
      split_ifs with hq
      · rw [hq]
      · rfl
  | take i =>
      rw [Traffic.step,Traffic.modify_channels,h,Option.map_some,Channel.after]
      split_ifs <;> rfl

/-- An end that is up was up before, or it takes the keys of its login. -/
theorem channel_before (h : (T.step E K ev).channels p = some c) :
    (∃ c₀, T.channels p = some c₀ ∧ c = c₀.after K p ev) ∨
    ∃ k, ciphers T.login p = some k ∧ c = {send := k.1,recv := k.2} := by
  cases hp : T.channels p with
  | some c₀ =>
      rw [step_channel E K ev hp] at h
      exact .inl ⟨c₀,rfl,(Option.some.inj h).symm⟩
  | none =>
      have hmodify : ∀ q f, (T.modify q f).channels p ≠ some c := by
        intro q f hx
        rw [Traffic.modify_channels,hp] at hx
        split_ifs at hx
        cases hx
      cases ev with
      | login ev => cases hp.symm.trans h
      | connect q =>
          rw [Traffic.step] at h
          split at h
          · cases hp.symm.trans h
          · dsimp only at h
            by_cases hq : p = q
            · subst hq
              rw [Function.update_self] at h
              obtain ⟨k,hk,rfl⟩ := Option.map_eq_some_iff.mp h
              exact .inr ⟨k,hk,rfl⟩
            · rw [Function.update_of_ne hq] at h
              cases hp.symm.trans h
      | send q n => exact absurd h (hmodify _ _)
      | deliver q raw => exact absurd h (hmodify _ _)
      | take i => exact absurd h (hmodify _ _)

/-- The nodes that an end is given to send. -/
def Event.gives (p : Party) : Event N α → List Node
  | .send q n => if p = q then [n] else []
  | _ => []

/-- What an event can make of an end: it sends, puts a frame into its queue, or reads the frame
that it is brought or the first one of its queue. -/
inductive Channel.Does (K : Codec) (p : Party) (ev : Event N α) (c : Channel N) :
    Channel N → Prop where
  | stays (hgives : ev.gives p = []) : c.Does K p ev c
  | sends (n : Node) (hgives : ev.gives p = [n]) : c.Does K p ev (c.push K n)
  | queues (i : ℕ) (raw : Bytes) (hp : p = .client i) (hev : ev = .deliver p raw) :
      c.Does K p ev {c with queue := c.queue++[raw]}
  | reads (raw : Bytes) (queue : List Bytes) (hgives : ev.gives p = [])
      (hsource : (ev = .deliver p raw ∧ queue = c.queue) ∨
        (∃ i, p = .client i) ∧ c.queue = raw::queue) :
      c.Does K p ev (Channel.consume K p raw {c with queue := queue})

theorem after_does (K : Codec) (p : Party) (ev : Event N α) (c : Channel N) :
    c.Does K p ev (c.after K p ev) := by
  cases ev with
  | login ev => exact .stays rfl
  | connect q => exact .stays rfl
  | send q n =>
      rw [Channel.after]
      split_ifs with hq
      · exact .sends n (if_pos hq)
      · exact .stays (if_neg hq)
  | deliver q raw =>
      rw [Channel.after]
      split_ifs with hq
      · subst hq
        cases p with
        | client i =>
            rw [Channel.deliver]
            split_ifs
            · exact .queues i raw rfl rfl
            · exact .stays rfl
        | serving j => exact .reads raw c.queue rfl (.inl ⟨rfl,rfl⟩)
      · exact .stays rfl
  | take i =>
      rw [Channel.after]
      split_ifs with hp
      · subst hp
        unfold Channel.take
        split
        · rename_i raw queue _ hqueue
          exact .reads raw queue rfl (.inr ⟨⟨i,rfl⟩,hqueue⟩)
        · exact .stays rfl
      · exact .stays rfl

theorem consume_sent (K : Codec) (p : Party) (raw : Bytes) (c : Channel N) :
    (c.consume K p raw).sent = c.sent := by
  unfold Channel.consume
  split_ifs
  · rfl
  · split <;> rfl

theorem after_sent (K : Codec) (p : Party) (ev : Event N α) (c : Channel N) :
    (c.after K p ev).sent = c.sent++ev.gives p := by
  have hdoes := after_does K p ev c
  generalize c.after K p ev = c' at hdoes ⊢
  cases hdoes with
  | stays hgives => rw [hgives,List.append_nil]
  | sends n hgives => rw [hgives,Channel.push]
  | queues i raw hp hev =>
      rw [hev]
      exact (List.append_nil _).symm
  | reads raw queue hgives _ => rw [hgives,List.append_nil,consume_sent]

/-- An end that is up has sent what it was given. -/
theorem sent_run (E : Setting N) (K : Codec) (evs : List (Event N α)) (h : T.channels p = some c) :
    (run (Traffic.step E K) evs T).sent p = c.sent++evs.flatMap (Event.gives p) := by
  induction evs generalizing T c with
  | nil =>
      rw [List.flatMap_nil,List.append_nil]
      exact (congrArg (Option.elim · [] Channel.sent) h).trans (Option.elim_some ..)
  | cons ev evs ih =>
      rw [List.flatMap_cons,← List.append_assoc,← after_sent K p ev c]
      exact ih (step_channel E K ev h)

theorem ciphers_step (E : Setting N) {W : World N α} (ev : Login.Event N α) {p : Party}
    {k : Cipher N × Cipher N} (h : ciphers W p = some k) : ciphers (W.step E ev) p = some k := by
  cases p with
  | client i =>
      simp only [ciphers,Option.bind_eq_bind,Option.bind_eq_some_iff] at h ⊢
      obtain ⟨c,hc,f,hf,hk⟩ := h
      obtain ⟨c',hc',_,hkept⟩ := client_kept E W ev hc
      exact ⟨c',hc',f,hkept f hf,hk⟩
  | serving j =>
      simp only [ciphers,Option.bind_eq_bind,Option.bind_eq_some_iff] at h ⊢
      obtain ⟨v,hv,t,ht,hk⟩ := h
      obtain ⟨v',hv',_,_,hkept⟩ := serving_kept E W ev hv
      exact ⟨v',hv',t,hkept t ht,hk⟩

theorem ciphers_kept (E : Setting N) (K : Codec) (ev : Event N α) {k : Cipher N × Cipher N}
    (h : ciphers T.login p = some k) : ciphers (T.step E K ev).login p = some k := by
  cases ev with
  | login ev => exact ciphers_step E ev h
  | connect q =>
      rw [Traffic.step]
      split <;> exact h
  | send q n => exact h
  | deliver q raw => exact h
  | take i => exact h

end

/-! ### The state of an end -/

/-- The frame of a node with its number. -/
def frame (K : Codec) (key : N.Secret) (m : ℕ) (n : Node) : Bytes :=
  N.aeadSeal [.secret key] (iv (UInt32.ofNat m)) (K.plain n) []

/-- An end with these two keys has numbered its frames, in both directions. It has returned when
its last node made it, and no node before that one did. -/
structure Channel.Keyed (K : Codec) (p : Party) (c : Channel N) (send recv : N.Secret) :
    Prop where
  seals : c.send = (newCipher send).later c.sent.length
  frames : c.frames = c.sent.mapIdx (frame K send)
  opens : c.failed = false → c.recv = (newCipher recv).later c.opened.length
  handled : c.handled = c.opened.filterMap K.read
  returned : c.returned = c.handled.getLast?.any (K.quits p c.handled.length)
  goes : ∀ k n, c.handled[k]? = some n → k+1 < c.handled.length → K.quits p (k+1) n = false
  queue : ∀ j, p = .serving j → c.queue = []

theorem later_counter (key : N.Secret) (n : ℕ) :
    ((newCipher key).later n).counter = UInt32.ofNat n := by
  simp [Cipher.later,newCipher]

section
variable {K : Codec} {p : Party} {c : Channel N} {send recv : N.Secret}

theorem Channel.keyed_new (K : Codec) (p : Party) (send recv : N.Secret) :
    Channel.Keyed K p {send := newCipher send,recv := newCipher recv} send recv where
  seals := (Cipher.later_zero _).symm
  frames := rfl
  opens _ := (Cipher.later_zero _).symm
  handled := rfl
  returned := rfl
  goes k n h := by simp at h
  queue _ _ := rfl

theorem Channel.Keyed.push (h : c.Keyed K p send recv) (n : Node) :
    (c.push K n).Keyed K p send recv where
  seals := by
    rw [Channel.push,h.seals]
    dsimp only
    rw [Cipher.later_seal,List.length_append,List.length_singleton]
  frames := by
    have hct : (c.send.seal (K.plain n)).1 = frame K send c.sent.length n := by
      rw [h.seals,Cipher.seal,later_counter]
      rfl
    rw [Channel.push]
    dsimp only
    rw [hct,h.frames,List.mapIdx_append]
    simp
  opens := h.opens
  handled := h.handled
  returned := h.returned
  goes := h.goes
  queue := h.queue

/-- A session never returns. -/
theorem Channel.Keyed.client_returned {i : ℕ} (h : c.Keyed K (.client i) send recv) :
    c.returned = false := by
  rw [h.returned]
  cases c.handled.getLast? <;> rfl

/-- No node that an end has handled made it return, as long as it has not returned. -/
theorem Channel.Keyed.goes_on (h : c.Keyed K p send recv) (hret : c.returned = false) {k : ℕ}
    {n : Node} (hn : c.handled[k]? = some n) : K.quits p (k+1) n = false := by
  have hk := (List.getElem?_eq_some_iff.mp hn).1
  by_cases hlast : k+1 < c.handled.length
  · exact h.goes k n hn hlast
  · have hlength : c.handled.length = k+1 := by omega
    have hret' := h.returned
    rw [hret,List.getLast?_eq_getElem?,hlength,Nat.add_sub_cancel,hn,Option.any_some] at hret'
    exact hret'.symm

/-- The queue of a session is not bound to anything. -/
theorem Channel.Keyed.requeue {i : ℕ} (h : c.Keyed K (.client i) send recv) (queue : List Bytes) :
    Channel.Keyed K (.client i) {c with queue := queue} send recv :=
  ⟨h.seals,h.frames,h.opens,h.handled,h.returned,h.goes,nofun⟩

theorem Channel.Keyed.consume (h : c.Keyed K p send recv) (raw : Bytes) :
    (c.consume K p raw).Keyed K p send recv := by
  unfold Channel.consume
  split_ifs with hstopped
  · exact h
  obtain ⟨hfailed,hret⟩ : c.failed = false ∧ c.returned = false := by simpa using hstopped
  split
  · exact ⟨h.seals,h.frames,nofun,h.handled,h.returned,h.goes,h.queue⟩
  rename_i plain recv' hopen
  have hnext := congrArg Prod.snd hopen
  refine ⟨h.seals,h.frames,fun _ => ?_,?_,?_,?_,h.queue⟩
  · dsimp only at hnext ⊢
    rw [← hnext,h.opens hfailed,List.length_append,List.length_singleton]
    exact Cipher.later_seal _ _ []
  · have hnew : [plain].filterMap K.read = (K.read plain).toList := by
      cases hread : K.read plain <;> simp [hread]
    dsimp only
    rw [h.handled,List.filterMap_append,hnew]
  · dsimp only
    cases K.read plain with
    | none =>
        rw [Option.toList_none,List.append_nil,← h.returned,hret]
        rfl
    | some n =>
        rw [Option.toList_some,List.getLast?_concat,List.length_append,List.length_singleton]
  · dsimp only
    cases K.read plain with
    | none =>
        rw [Option.toList_none,List.append_nil]
        exact h.goes
    | some n' =>
        intro k n hk hlt
        rw [Option.toList_some,List.length_append,List.length_singleton] at hlt
        rcases ListCells.getElem?_append_cases hk with ⟨rfl,_⟩ | hk
        · exact absurd hlt (Nat.lt_irrefl _)
        · exact h.goes_on hret hk

theorem Channel.Keyed.after (h : c.Keyed K p send recv) (ev : Event N α) :
    (c.after K p ev).Keyed K p send recv := by
  have hdoes := after_does K p ev c
  generalize c.after K p ev = c' at hdoes ⊢
  cases hdoes with
  | stays _ => exact h
  | sends n _ => exact h.push n
  | queues i raw hp _ =>
      subst hp
      exact h.requeue _
  | reads raw queue _ hsource =>
      obtain ⟨_,rfl⟩ | ⟨⟨i,rfl⟩,_⟩ := hsource
      · exact h.consume raw
      · exact (h.requeue queue).consume raw

/-- A plaintext that is new was opened with the next number. -/
theorem consume_opened {raw plain : Bytes} {k : ℕ} (h : c.Keyed K p send recv)
    (hk : (c.consume K p raw).opened[k]? = some plain) : c.opened[k]? = some plain ∨
      N.aeadOpen [.secret recv] (iv (UInt32.ofNat k)) raw [] = some plain := by
  unfold Channel.consume at hk
  split_ifs at hk with hstopped
  · exact .inl hk
  obtain ⟨hfailed,_⟩ : c.failed = false ∧ c.returned = false := by simpa using hstopped
  split at hk
  · exact .inl hk
  rename_i plain' recv' hopen
  rcases ListCells.getElem?_append_cases hk with ⟨rfl,rfl⟩ | hk
  · have hopen := congrArg Prod.fst hopen
    rw [h.opens hfailed,Cipher.open,later_counter] at hopen
    exact .inr hopen
  · exact .inl hk

/-- It comes with the event or from the queue. -/
theorem after_opened {ev : Event N α} {plain : Bytes} {k : ℕ} (h : c.Keyed K p send recv)
    (hk : (c.after K p ev).opened[k]? = some plain) : c.opened[k]? = some plain ∨
      ∃ raw, (ev = .deliver p raw ∨ raw ∈ c.queue) ∧
        N.aeadOpen [.secret recv] (iv (UInt32.ofNat k)) raw [] = some plain := by
  have hdoes := after_does K p ev c
  generalize c.after K p ev = c' at hdoes hk
  cases hdoes with
  | stays _ => exact .inl hk
  | sends n _ => exact .inl hk
  | queues i raw _ _ => exact .inl hk
  | reads raw queue _ hsource =>
      obtain ⟨hev,rfl⟩ | ⟨⟨i,rfl⟩,hqueue⟩ := hsource
      · exact (consume_opened h hk).imp_right fun hopen => ⟨raw,.inl hev,hopen⟩
      · refine (consume_opened (h.requeue queue) hk).imp_right fun hopen => ⟨raw,.inr ?_,hopen⟩
        rw [hqueue]
        exact List.mem_cons_self

theorem consume_queue (K : Codec) (p : Party) (raw : Bytes) (c : Channel N) :
    (c.consume K p raw).queue = c.queue := by
  unfold Channel.consume
  split_ifs
  · rfl
  · split <;> rfl

theorem after_queue {ev : Event N α} {raw : Bytes} (h : raw ∈ (c.after K p ev).queue) :
    raw ∈ c.queue ∨ ev = .deliver p raw := by
  have hdoes := after_does K p ev c
  generalize c.after K p ev = c' at hdoes h
  cases hdoes with
  | stays _ => exact .inl h
  | sends n _ => exact .inl h
  | queues i raw' _ hev =>
      rcases List.mem_append.mp h with h | h
      · exact .inl h
      · rw [List.mem_singleton.mp h]
        exact .inr hev
  | reads raw' queue _ hsource =>
      rw [consume_queue] at h
      obtain ⟨_,rfl⟩ | ⟨_,hqueue⟩ := hsource
      · exact .inl h
      · rw [hqueue]
        exact .inl (List.mem_cons_of_mem _ h)

end

/-- The keys are those of the login. -/
def Wired (K : Codec) (T : Traffic N α) : Prop :=
  ∀ p c, T.channels p = some c → ∃ send recv,
    ciphers T.login p = some (newCipher send,newCipher recv) ∧ c.Keyed K p send recv

theorem ciphers_new {W : World N α} {p : Party} {k : Cipher N × Cipher N}
    (h : ciphers W p = some k) : ∃ send recv, k = (newCipher send,newCipher recv) := by
  have hxx : ∀ xx : XX N, xx.sendCipher.toOption = some k →
      ∃ send recv, k = (newCipher send,newCipher recv) := by
    intro xx hk
    unfold XX.sendCipher at hk
    split_ifs at hk
    · cases hk
    · cases hk
      exact ⟨_,_,rfl⟩
  cases p with
  | client i =>
      simp only [ciphers,Option.bind_eq_bind,Option.bind_eq_some_iff] at h
      obtain ⟨c,_,f,_,hk⟩ := h
      exact hxx f.xx hk
  | serving j =>
      simp only [ciphers,Option.bind_eq_bind,Option.bind_eq_some_iff] at h
      obtain ⟨v,_,t,_,hk⟩ := h
      exact hxx t.xx hk

theorem Wired.step {E : Setting N} {K : Codec} {T : Traffic N α} (h : Wired K T)
    (ev : Event N α) : Wired K (T.step E K ev) := by
  intro p c hc
  rcases channel_before hc with ⟨c₀,hc₀,rfl⟩ | ⟨k,hk,rfl⟩
  · obtain ⟨send,recv,hkeys,hkeyed⟩ := h p c₀ hc₀
    exact ⟨send,recv,ciphers_kept E K ev hkeys,hkeyed.after ev⟩
  · obtain ⟨send,recv,rfl⟩ := ciphers_new hk
    exact ⟨send,recv,ciphers_kept E K ev hk,Channel.keyed_new K p send recv⟩

/-- The frames of the ends are sealed without associated data. -/
theorem Wired.frame {K : Codec} {T : Traffic N α} (h : Wired K T) {q : Party} {c : Channel N}
    {raw : Bytes} (hc : T.channels q = some c) (hraw : raw ∈ c.frames) :
    ∃ send recv m n, ciphers T.login q = some (newCipher send,newCipher recv) ∧
      c.sent[m]? = some n ∧ raw = LoginTraffic.frame K send m n := by
  obtain ⟨send,recv,hkeys,hkeyed⟩ := h q c hc
  rw [hkeyed.frames] at hraw
  obtain ⟨m,hm⟩ := List.mem_iff_getElem?.mp hraw
  rw [List.getElem?_mapIdx] at hm
  obtain ⟨n,hn,rfl⟩ := Option.map_eq_some_iff.mp hm
  exact ⟨send,recv,m,n,hkeys,hn,rfl⟩

/-! ### A transport that keeps the order -/

/-- The frame is the next one of the other end, and the queue has room for it. -/
def Next (T : Traffic N α) (p q : Party) (raw : Bytes) : Prop :=
  (T.queue p).length < queueSize ∧
    (T.frames q)[(T.opened p).length+(T.queue p).length]? = some raw

/-- Two ends get each other's frames in order, as long as they read. Anything can happen to the
others. -/
def InOrder (p q : Party) (T : Traffic N α) : Event N α → Prop
  | .deliver r raw => (r = p → T.returned p = true ∨ Next T p q raw) ∧
      (r = q → T.returned q = true ∨ Next T q p raw)
  | _ => True

def Event.brings (p : Party) : Event N α → Bool
  | .deliver q _ => q = p
  | _ => false

/-- The end has opened the first frames of these nodes and has the next ones in its queue. They are
`n` together, as long as it reads. -/
structure Channel.Heard (K : Codec) (nodes : List Node) (recv : N.Secret) (n : ℕ)
    (c : Channel N) : Prop where
  sound : c.failed = false
  count : c.returned = false → c.opened.length+c.queue.length = n
  heard : c.opened <+: nodes.map K.plain
  queued {m : ℕ} {raw : Bytes} : c.queue[m]? = some raw → ∃ node,
    nodes[c.opened.length+m]? = some node ∧ frame K recv (c.opened.length+m) node = raw

theorem Channel.Heard.mono {K : Codec} {nodes nodes' : List Node} {recv : N.Secret} {n : ℕ}
    {c : Channel N} (h : c.Heard K nodes recv n) (hnodes : nodes <+: nodes') :
    c.Heard K nodes' recv n := by
  refine ⟨h.sound,h.count,h.heard.trans (hnodes.map _),fun hm => ?_⟩
  obtain ⟨node,hnode,hframe⟩ := h.queued hm
  refine ⟨node,?_,hframe⟩
  obtain ⟨more,rfl⟩ := hnodes
  rw [List.getElem?_append_left (List.getElem?_eq_some_iff.mp hnode).1]
  exact hnode

/-- An end that follows what another one sends. -/
structure Hears (K : Codec) (T : Traffic N α) (p q : Party) (send recv : N.Secret) (n : ℕ)
    (c : Channel N) : Prop extends c.Heard K (T.sent q) recv n where
  channel : T.channels p = some c
  keyed : c.Keyed K p send recv

section
variable {K : Codec} {T : Traffic N α} {p q : Party} {k l : N.Secret} {n m : ℕ} {c d : Channel N}

theorem Hears.sent (h : Hears K T p q k l n c) : T.sent p = c.sent := by
  rw [Traffic.sent,h.channel,Option.elim_some]

theorem Hears.returned (h : Hears K T p q k l n c) : T.returned p = c.returned := by
  rw [Traffic.returned,h.channel,Option.elim_some]

theorem Hears.next_iff (h : Hears K T p q k l n c) (h' : Hears K T q p l k m d) {raw : Bytes} :
    Next T p q raw ↔ c.queue.length < queueSize ∧ ∃ node,
      (T.sent q)[c.opened.length+c.queue.length]? = some node ∧
        frame K l (c.opened.length+c.queue.length) node = raw := by
  rw [Next,Traffic.queue,Traffic.frames,Traffic.opened,h'.channel,h.channel,Option.elim_some,
    Option.elim_some,Option.elim_some,h'.keyed.frames,h'.sent,List.getElem?_mapIdx]
  exact and_congr_right fun _ => Option.map_eq_some_iff

/-- What is said of an end at the end of a run: it has missed nothing of the other one's nodes,
and has read all frames that it was brought, unless one of the nodes made it return. -/
structure Follows (K : Codec) (T : Traffic N α) (p : Party) (nodes : List Node) (brought : ℕ) :
    Prop where
  opens : T.failed p = false
  handled : T.handled p =
    (nodes.take (T.opened p).length).filterMap fun node => K.read (K.plain node)
  count : T.returned p = false → (T.opened p).length+(T.queue p).length = brought
  returned : T.returned p = (T.handled p).getLast?.any (K.quits p (T.handled p).length)
  goes : ∀ k n, (T.handled p)[k]? = some n → k+1 < (T.handled p).length →
    K.quits p (k+1) n = false
  queue : ∀ j, p = .serving j → T.queue p = []

theorem Hears.follows (h : Hears K T p q k l n c) : Follows K T p (T.sent q) n := by
  have hopened : c.opened = ((T.sent q).take c.opened.length).map K.plain := by
    rw [List.map_take]
    exact List.prefix_iff_eq_take.mp h.heard
  have hhandled : c.handled =
      ((T.sent q).take c.opened.length).filterMap fun node => K.read (K.plain node) := by
    rw [h.keyed.handled]
    conv_lhs => rw [hopened]
    rw [List.filterMap_map]
    rfl
  constructor
  all_goals
    simp only [Traffic.failed,Traffic.handled,Traffic.opened,Traffic.queue,Traffic.returned,
      h.channel,Option.elim_some]
  · exact h.sound
  · exact hhandled
  · exact h.count
  · exact h.keyed.returned
  · exact h.keyed.goes
  · exact h.keyed.queue

variable (hC : N.Correct)
include hC

/-- The next frame of the other end opens. -/
theorem consume_frame (h : c.Keyed K p k l) (hsound : c.failed = false)
    (hret : c.returned = false) (n : Node) :
    (c.consume K p (frame K l c.opened.length n)).failed = false ∧
      (c.consume K p (frame K l c.opened.length n)).opened = c.opened++[K.plain n] := by
  have hopen : (c.recv.open (frame K l c.opened.length n)).1 = some (K.plain n) := by
    rw [h.opens hsound,Cipher.open,later_counter]
    exact hC.open_seal _ _ _ _
  unfold Channel.consume
  rw [if_neg (by simp [hsound,hret])]
  split
  · rename_i hnone
    rw [hnone] at hopen
    cases hopen
  · rename_i hsome
    rw [hsome] at hopen
    cases hopen
    exact ⟨hsound,rfl⟩

variable {E : Setting N}

/-- A frame comes to an end in its turn. -/
theorem Hears.deliver (h : Hears K T p q k l n c) (h' : Hears K T q p l k m d) {raw : Bytes}
    (hraw : T.returned p = true ∨ Next T p q raw) :
    (c.deliver K raw p).Heard K (T.sent q) l (n+1) := by
  rw [h.returned,h.next_iff h'] at hraw
  cases p with
  | client i =>
      obtain hret | ⟨hroom,node,hnode,rfl⟩ := hraw
      · rw [h.keyed.client_returned] at hret
        cases hret
      rw [Channel.deliver,if_pos hroom]
      refine ⟨h.sound,fun hret => ?_,h.heard,fun hm => ?_⟩
      · rw [List.length_append,List.length_singleton,← Nat.add_assoc,h.count hret]
      · rcases ListCells.getElem?_append_cases hm with ⟨rfl,rfl⟩ | hm
        · exact ⟨node,hnode,rfl⟩
        · exact h.queued hm
  | serving j =>
      have hqueue := h.keyed.queue j rfl
      cases hret : c.returned with
      | true =>
          have hsame : c.consume K (.serving j) raw = c := by
            rw [Channel.consume,if_pos (by simp [hret])]
          rw [Channel.deliver,hsame]
          refine ⟨h.sound,fun hx => ?_,h.heard,h.queued⟩
          rw [hret] at hx
          cases hx
      | false =>
          have hcount := h.count hret
          rw [hqueue,List.length_nil,Nat.add_zero] at hraw hcount
          obtain hx | ⟨_,node,hnode,rfl⟩ := hraw
          · rw [hret] at hx
            cases hx
          obtain ⟨hfailed,hopened⟩ := consume_frame hC h.keyed h.sound hret node
          rw [Channel.deliver]
          refine ⟨hfailed,fun _ => ?_,?_,fun hm => ?_⟩
          · rw [hopened,consume_queue,hqueue,List.length_append,hcount]
            rfl
          · rw [hopened]
            refine ListCells.concat_prefix h.heard ?_
            rw [List.getElem?_map,hnode,Option.map_some]
          · rw [consume_queue,hqueue] at hm
            cases hm

/-- A session takes the next frame out of its queue. -/
theorem Hears.take {i : ℕ} (h : Hears K T (.client i) q k l n c) :
    (c.take K i).Heard K (T.sent q) l n ∧ (c.take K i).queue = c.queue.tail := by
  have hret := h.keyed.client_returned
  cases hqueue : c.queue with
  | nil =>
      have hsame : c.take K i = c := by simp [Channel.take,hqueue]
      rw [hsame]
      exact ⟨h.toHeard,hqueue⟩
  | cons raw queue =>
      obtain ⟨node,hnode,rfl⟩ := h.queued (m := 0) (by rw [hqueue]; rfl)
      rw [Nat.add_zero] at hnode
      have htake : c.take K i = Channel.consume K (.client i)
          (frame K l c.opened.length node) {c with queue := queue} := by
        simp [Channel.take,hqueue,h.sound]
      obtain ⟨hfailed,hopened⟩ := consume_frame hC (h.keyed.requeue queue) h.sound hret node
      have hcount := h.count hret
      rw [hqueue,List.length_cons] at hcount
      rw [htake]
      refine ⟨⟨hfailed,fun _ => ?_,?_,fun hm => ?_⟩,consume_queue ..⟩
      · rw [hopened,consume_queue,List.length_append,List.length_singleton]
        dsimp only
        omega
      · rw [hopened]
        refine ListCells.concat_prefix h.heard ?_
        rw [List.getElem?_map,hnode,Option.map_some]
      · rw [consume_queue] at hm
        rw [hopened,List.length_append,List.length_singleton,Nat.add_assoc,Nat.add_comm 1]
        exact h.queued (by rw [hqueue]; exact hm)

theorem Hears.step (h : Hears K T p q k l n c) (h' : Hears K T q p l k m d) (ev : Event N α)
    (hev : ∀ raw, ev = .deliver p raw → T.returned p = true ∨ Next T p q raw) :
    Hears K (T.step E K ev) p q k l (n+(ev.brings p).toNat) (c.after K p ev) := by
  have hsent : T.sent q <+: (T.step E K ev).sent q := by
    rw [Traffic.sent,Traffic.sent,step_channel E K ev h'.channel,h'.channel,Option.elim_some,
      Option.elim_some,after_sent]
    exact List.prefix_append _ _
  refine ⟨Channel.Heard.mono ?_ hsent,step_channel E K ev h.channel,h.keyed.after ev⟩
  cases ev with
  | login ev => exact h.toHeard
  | connect r => exact h.toHeard
  | send r node =>
      rw [Channel.after]
      split_ifs
      · exact ⟨h.sound,h.count,h.heard,h.queued⟩
      · exact h.toHeard
  | deliver r raw =>
      rw [Channel.after,Event.brings]
      split_ifs with hr
      · subst hr
        rw [decide_eq_true rfl]
        exact h.deliver hC h' (hev raw rfl)
      · rw [decide_eq_false (Ne.symm hr)]
        exact h.toHeard
  | take i =>
      rw [Channel.after]
      split_ifs with hp
      · subst hp
        exact (h.take hC).1
      · exact h.toHeard

/-- Both ends go on opening what they are brought. -/
theorem hears_run {evs : List (Event N α)}
    (hrun : Along (Traffic.step E K) (InOrder p q) evs T) (h : Hears K T p q k l n c)
    (h' : Hears K T q p l k m d) :
    let T' := run (Traffic.step E K) evs T
    Hears K T' p q k l (n+evs.countP (Event.brings p)) (run (fun c ev => c.after K p ev) evs c) ∧
      Hears K T' q p l k (m+evs.countP (Event.brings q))
        (run (fun c ev => c.after K q ev) evs d) := by
  induction evs generalizing T n m c d with
  | nil => exact ⟨h,h'⟩
  | cons ev evs ih =>
      have hleft : ∀ raw, ev = .deliver p raw → T.returned p = true ∨ Next T p q raw := by
        rintro raw rfl
        exact hrun.1.1 rfl
      have hright : ∀ raw, ev = .deliver q raw → T.returned q = true ∨ Next T q p raw := by
        rintro raw rfl
        exact hrun.1.2 rfl
      have hboth := ih hrun.2 (h.step hC h' ev hleft) (h'.step hC h ev hright)
      have hcount : ∀ r, (ev.brings r).toNat+evs.countP (Event.brings r) =
          (ev::evs).countP (Event.brings r) := by
        intro r
        rw [List.countP_cons]
        cases ev.brings r <;> simp [Nat.add_comm]
      rw [Nat.add_assoc,Nat.add_assoc,hcount,hcount] at hboth
      exact hboth

/-- The queue of a session is empty after as many rounds of `frameConsumer` as it has frames. -/
theorem Hears.drains {i : ℕ} (h : Hears K T (.client i) q k l n c)
    (h' : Hears K T q (.client i) l k m d) {rounds : ℕ} (hrounds : c.queue.length ≤ rounds) :
    (run (Traffic.step E K) (List.replicate rounds (.take i)) T).queue (.client i) = [] := by
  induction rounds generalizing T n m c d with
  | zero =>
      rw [List.replicate_zero,run,List.foldl_nil,Traffic.queue,h.channel,Option.elim_some]
      exact List.eq_nil_of_length_eq_zero (Nat.le_zero.mp hrounds)
  | succ rounds ih =>
      refine ih (h.step (E := E) hC h' (.take i) (by simp)) (h'.step hC h (.take i) (by simp)) ?_
      rw [Channel.after,if_pos rfl,(h.take hC).2,List.length_tail]
      omega

/-- A node that is brought as soon as it is sent, when nothing is under way. -/
theorem inOrder_exchange (hpq : p ≠ q) (h : Hears K T p q k l n c) (h' : Hears K T q p l k m d)
    (hroom : c.queue.length < queueSize) {i : ℕ} (hnum : c.opened.length+c.queue.length = i)
    (hall : (T.sent q).length = i) (node : Node) : Along (Traffic.step E K) (InOrder p q)
      [.send q node,.deliver p (frame K l i node)] T := by
  have hc := h.step (E := E) hC h' (.send q node) (by simp)
  have hd := h'.step (E := E) hC h (.send q node) (by simp)
  have hsame : c.after K p (.send (N := N) (α := α) q node) = c := by
    rw [Channel.after,if_neg hpq]
  rw [hsame] at hc
  refine ⟨trivial,⟨fun _ => .inr ((hc.next_iff hd).mpr ⟨hroom,node,?_,by rw [hnum]⟩),
    fun hx => (hpq hx).elim⟩,trivial⟩
  rw [hd.sent,after_sent,Event.gives,if_pos rfl,hnum,← hall,h'.sent]
  exact List.getElem?_concat_length

end

/-! ### From the login to the last node -/

/-- The events of a login after which both ends are up. -/
def opening (W : World N α) (s : Session N α) (v : Service N) (hello : Bytes) (a : Answered N)
    (f : Finished N) : List (Event N α) :=
  (loginEvents W s v hello a f).map .login ++
    [.connect (.client W.clients.length),.connect (.serving W.servings.length)]

theorem run_logins (E : Setting N) (K : Codec) (evs : List (Login.Event N α)) (T : Traffic N α) :
    run (Traffic.step E K) (evs.map .login) T =
      {T with login := run (World.step E) evs T.login} := by
  induction evs generalizing T with
  | nil => rfl
  | cons ev evs ih => exact ih (T.step E K (.login ev))

/-- Two ends that have just come up. -/
theorem hears_opening {E : Setting N} (K : Codec) {s : Session N α} {v : Service N} {hello : Bytes}
    {xx : XX N} {a : Answered N} {f : Finished N} {t : Accepted N}
    (h : Completes E s v hello xx a f t) (W : World N α) :
    let T := run (Traffic.step E K) (opening W s v hello a f) {login := W}
    ∃ k l, Hears K T (.client W.clients.length) (.serving W.servings.length) k l 0
        {send := newCipher k,recv := newCipher l} ∧
      Hears K T (.serving W.servings.length) (.client W.clients.length) l k 0
        {send := newCipher l,recv := newCipher k} := by
  obtain ⟨k,l,hclient,hserver⟩ := h.joined.keys
  have hleft : ciphers (loggedIn W s v xx a f t) (.client W.clients.length) =
      some (newCipher k,newCipher l) := by
    simp [ciphers,loggedIn,hclient,Except.toOption]
  have hright : ciphers (loggedIn W s v xx a f t) (.serving W.servings.length) =
      some (newCipher l,newCipher k) := by
    simp [ciphers,loggedIn,hserver,Except.toOption]
  refine ⟨k,l,⟨⟨rfl,fun _ => rfl,List.nil_prefix,by simp⟩,?_,Channel.keyed_new K _ k l⟩,
    ⟨⟨rfl,fun _ => rfl,List.nil_prefix,by simp⟩,?_,Channel.keyed_new K _ l k⟩⟩
  all_goals
    rw [opening,run_append,run_logins,run_login h]
    simp [run,Traffic.step,hleft,hright]

/-- After a login that nobody disturbs the two ends talk to each other for as long as their frames
keep their order and find room in the queue of the session. No frame fails to open, and each end
handles the nodes of the frames it has taken. The session takes all of its queue in time. The server
takes all frames until one of the nodes makes it return. -/
theorem conversation_completes (hC : N.Correct)
    (hseal : ∀ k n p ad, 0 < (N.aeadSeal k n p ad).length) {E : Setting N} {s : Session N α}
    {v : Service N} {static eph eph' : N.Priv} (h : Ready E s v static eph eph')
    (hfit : framesFit E s v = true) (K : Codec) (W : World N α) :
    let p := Party.client W.clients.length
    let q := Party.serving W.servings.length
    ∃ hello xx a f t, Completes E s v hello xx a f t ∧
      ∀ evs, Along (Traffic.step E K) (InOrder p q) evs
        (run (Traffic.step E K) (opening W s v hello a f) {login := W}) →
      let T := run (Traffic.step E K) (opening W s v hello a f++evs) {login := W}
      Follows K T p (evs.flatMap (Event.gives q)) (evs.countP (Event.brings p)) ∧
      Follows K T q (evs.flatMap (Event.gives p)) (evs.countP (Event.brings q)) ∧
      (run (Traffic.step E K) (List.replicate (T.queue p).length (.take W.clients.length))
        T).queue p = [] := by
  obtain ⟨hello,xx,a,f,t,hcompletes⟩ := h.completes hC hseal hfit
  refine ⟨hello,xx,a,f,t,hcompletes,fun evs hrun => ?_⟩
  obtain ⟨k,l,hc,hd⟩ := hears_opening K hcompletes W
  obtain ⟨hc',hd'⟩ := hears_run hC hrun hc hd
  have hleft := hc'.follows
  have hright := hd'.follows
  rw [Nat.zero_add,sent_run E K evs hd.channel] at hleft
  rw [Nat.zero_add,sent_run E K evs hc.channel] at hright
  rw [run_append]
  refine ⟨hleft,hright,hc'.drains hC hd' ?_⟩
  rw [Traffic.queue,hc'.channel,Option.elim_some]

/-! One node in each direction. -/

def sampleCodec : Codec where
  inflate _ := .error ""
  dict := DefaultTokens.default

def sampleNode : Node := .mk (text "message") [] .nil

theorem sampleNode_read : sampleCodec.read (sampleCodec.plain sampleNode) = some sampleNode := by
  have hplain : sampleCodec.plain sampleNode = [0,list8,1,19] := by decide +kernel
  rw [hplain]
  rfl

/-- The first serving sends the node to the first session, which takes it and sends it back. -/
def sampleTalk (k l : N.Secret) : List (Event N α) :=
  [.send (.serving 0) sampleNode,.deliver (.client 0) (frame sampleCodec l 0 sampleNode)]++
    [.take 0,.send (.client 0) sampleNode,.deliver (.serving 0) (frame sampleCodec k 0 sampleNode)]

theorem InOrder.symm {p q : Party} {T : Traffic N α} {ev : Event N α} (h : InOrder p q T ev) :
    InOrder q p T ev := by
  cases ev with
  | deliver r raw => exact ⟨h.2,h.1⟩
  | _ => trivial

theorem sampleTalk_inOrder (hC : N.Correct) (E : Setting N) {T : Traffic N α} {k l : N.Secret}
    (hc : Hears sampleCodec T (.client 0) (.serving 0) k l 0
      {send := newCipher k,recv := newCipher l})
    (hd : Hears sampleCodec T (.serving 0) (.client 0) l k 0
      {send := newCipher l,recv := newCipher k}) :
    Along (Traffic.step E sampleCodec) (InOrder (.client 0) (.serving 0)) (sampleTalk k l) T := by
  have hthere := inOrder_exchange hC (E := E) (by simp) hc hd (Nat.succ_pos _) (i := 0) rfl
    (congrArg List.length hd.sent) sampleNode
  have htaken : ∀ T', Along (Traffic.step (α := α) E sampleCodec)
      (InOrder (.client 0) (.serving 0)) [.take 0] T' := fun _ => ⟨trivial,trivial⟩
  obtain ⟨hc',hd'⟩ := hears_run hC (hthere.append (htaken _)) hc hd
  have hback := inOrder_exchange hC (E := E) (by simp) hd' hc' (Nat.succ_pos _) (i := 0) rfl
    (by rw [sent_run E sampleCodec _ hc.channel]; rfl) sampleNode
  exact hthere.append ⟨trivial,hback.mono fun _ _ => InOrder.symm⟩

theorem sampleTalk_queue (k l : N.Secret) :
    (run (fun c ev => Channel.after (N := N) (α := α) sampleCodec (.client 0) ev c) (sampleTalk k l)
      {send := newCipher k,recv := newCipher l}).queue = [] := by
  simp [sampleTalk,run,Channel.after,Channel.deliver,Channel.take,Channel.push,queueSize,
    consume_queue]

/-- The node is handled by an end that has taken its one frame. -/
theorem sampleTalk_handled {T : Traffic N α} {p : Party}
    (h : Follows sampleCodec T p [sampleNode] 1) (hqueue : T.queue p = [])
    (hquits : sampleCodec.quits p 1 sampleNode = false) : T.handled p = [sampleNode] := by
  have hhandled : ∀ n, ([sampleNode].take n).filterMap
      (fun node => sampleCodec.read (sampleCodec.plain node)) = [sampleNode].take n := by
    intro n
    cases n <;> simp [sampleNode_read]
  have hreturned : T.returned p = false := by
    rw [h.returned,h.handled,hhandled]
    cases (T.opened p).length with
    | zero => rfl
    | succ n =>
        rw [List.take_succ_cons,List.take_nil]
        exact hquits
  have hcount := h.count hreturned
  rw [hqueue,List.length_nil,Nat.add_zero] at hcount
  rw [h.handled,hhandled,hcount]
  rfl

theorem conversation_completes_sample : ∃ evs : List (Event TranscriptSuite.suite Unit),
    (run (Traffic.step sampleSetting sampleCodec) evs {}).handled (.client 0) = [sampleNode] ∧
    (run (Traffic.step sampleSetting sampleCodec) evs {}).handled (.serving 0) = [sampleNode] := by
  obtain ⟨hello,xx,a,f,t,hcompletes,hall⟩ := conversation_completes TranscriptSuite.suite_correct
    TranscriptSuite.sealed_length sample_ready sample_fits sampleCodec {}
  obtain ⟨k,l,hc,hd⟩ := hears_opening sampleCodec hcompletes {}
  have htalk := sampleTalk_inOrder TranscriptSuite.suite_correct sampleSetting hc hd
  obtain ⟨hleft,hright,_⟩ := hall _ htalk
  refine ⟨_,sampleTalk_handled hleft ?_ rfl,sampleTalk_handled hright (hright.queue 0 rfl) ?_⟩
  · have hc' := (hears_run TranscriptSuite.suite_correct htalk hc hd).1
    rw [run_append,Traffic.queue,hc'.channel,Option.elim_some]
    exact sampleTalk_queue k l
  · decide +kernel

end BaturWhatsApi.LoginTraffic
