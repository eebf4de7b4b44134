import BaturWhatsApi.SessionCalls

/-!
# No message key opens twice

The keys a session opens bodies with come from its receiving chains, directly or
through the buffer of skipped keys. Every chain starts from the root key of its
ratchet step, and every step replaces the root key by a hash of it, so no chain
starts twice. The envelopes are arbitrary: the index of a skipped key contains
unauthenticated fields, entries may be overwritten, and old ratchet keys may be
presented again.
-/
namespace BaturWhatsApi.ReplayFreedom
open ByteStrings CipherSuite RatchetModel SessionSetup RatchetSteps SessionAgreement KeyChains
open DerivedKeys SessionCalls

variable {S : Suite}

/-- The key with which `decrypt` opens the body, if it gets that far. -/
def keyFor (env : Envelope) (r : Ratchet S) : Option S.Secret :=
  let pub := copy32 env.ratchetPub
  if stepNeeded env r then
    match recvRatchetStep pub env.prevCount r with
    | (some _,_) => none
    | (none,r) => (takeKey env pub r).1.toOption
  else (takeKey env pub r).1.toOption

/-- The attempt of one call to open a body. -/
def opening : Call S → Ratchet S → List (Envelope × S.Secret)
  | .encrypt _ _,_ => []
  | .decrypt env,r => (keyFor env r).toList.map fun k => (env,k)

/-- All attempts of a sequence of calls, with the key of each. -/
def openings : List (Call S) → Ratchet S → List (Envelope × S.Secret)
  | [],_ => []
  | c::calls,r => opening c r++openings calls (c.after r)

/-- The envelopes that a sequence of calls decrypts. -/
def decrypted : List (Call S) → Ratchet S → List Envelope
  | [],_ => []
  | .encrypt fresh p::calls,r => decrypted calls (encrypt fresh p r).2
  | .decrypt env::calls,r =>
      if (decrypt env r).1.isOk then env::decrypted calls (decrypt env r).2
      else decrypted calls (decrypt env r).2

/-- The key with which the responder opens the init envelope. -/
def sessionKey (keys : BobKeys S) (env : Envelope) (info : Bytes) : Option S.Secret :=
  match x3dhRecipient keys.identity.dhKey keys.signedPreKey env.identityPub env.ratchetPub
      keys.oneTimeKey info with
  | .error _ => none
  | .ok (root,chain) =>
      (takeKey env (copy32 env.ratchetPub) (bobRatchet keys env root chain info)).1.toOption

/-- A new session with what it has opened so far. -/
inductive Start : Ratchet S → List (Envelope × S.Secret) → Prop
  | alice {fresh : Except Failure S.Priv} {bundle : PreKeyBundle} {keyOrder idOrder : OneTimeKeys}
      {identity : Identity S} {info : Bytes} {r : Ratchet S}
      (h : aliceSession fresh bundle keyOrder idOrder identity info = .ok r) : Start r []
  | bob {keys : BobKeys S} {env : Envelope} {info msg : Bytes} {r : Ratchet S}
      (h : bobSession keys env info = .ok (r,msg)) :
      Start r ((sessionKey keys env info).toList.map fun k => (env,k))

/-! ### The chains of the ratchet -/

/-- Where a chain may have started: at a root key older than the present one, or
in the key agreement. -/
def Old (rank : S.Secret → ℕ) (root o : S.Secret) : Prop :=
  (∃ ρ δ, o = (kdfRoot ρ δ).2 ∧ rank ρ < rank root) ∨ ∃ k s l, o = S.hmac k (.secret s::l)

section
variable (hF : S.Free) {rank : S.Secret → ℕ}

theorem old_origin {root o : S.Secret} (h : Old rank root o) : (chains hF).Origin o := by
  rcases h with ⟨ρ,δ,rfl,_⟩ | ⟨k,s,l,rfl⟩
  · exact kdfRoot_origin hF ρ δ
  · exact secret_origin hF k s l

theorem old_mono {root root' o : S.Secret} (hle : rank root ≤ rank root') (h : Old rank root o) :
    Old rank root' o := by
  rcases h with ⟨ρ,δ,ho,hlt⟩ | h
  · exact .inl ⟨ρ,δ,ho,lt_of_lt_of_le hlt hle⟩
  · exact .inr h

include hF in
/-- The chain of a step that is only being taken has not been seen. -/
theorem not_old_kdfRoot (root out : S.Secret) : ¬Old rank root (kdfRoot root out).2 := by
  rintro (⟨ρ,δ,ho,hlt⟩ | ⟨k,s,l,ho⟩)
  · have hroot : root = ρ := by simpa using (hF.hmac_inj ho).1
    rw [hroot] at hlt
    exact lt_irrefl _ hlt
  · have := (hF.hmac_inj ho).2
    simp at this

/-- What a session has spent, and that it cannot come back. -/
def Inv (rank : S.Secret → ℕ) (used : List S.Secret) (r : Ratchet S) : Prop :=
  Consumed (chains hF) (Old rank r.rootKey) used (fun i => r.skipped.lookup i) r.recvChain

variable {hF} {used : List S.Secret} {r r' : Ratchet S}

/-- Only the root key, the stored keys and the receiving chain matter. -/
theorem Inv.congr (h : Inv hF rank used r) (hroot : r'.rootKey = r.rootKey)
    (hskipped : r'.skipped = r.skipped) (hchain : r'.recvChain = r.recvChain) :
    Inv hF rank used r' := by
  rw [Inv,hroot,hskipped,hchain]
  exact h

theorem Inv.at_chain (h : Inv hF rank used r) {c : S.Secret} (hc : r.recvChain = some c) :
    Consumed (chains hF) (Old rank r.rootKey) used (fun i => r.skipped.lookup i) (some c) := by
  rw [Inv,hc] at h
  exact h

theorem lookup_insert_eq {m : Finmap fun _ : ChainIndex => S.Secret} (i : ChainIndex)
    (k : S.Secret) : (fun j => (m.insert i k).lookup j) =
      Function.update (fun j => m.lookup j) i (some k) := by
  funext j
  by_cases hj : j = i
  · subst hj
    rw [Function.update_self,Finmap.lookup_insert]
  · rw [Function.update_of_ne hj,Finmap.lookup_insert_of_ne _ hj]

theorem lookup_erase_eq {m : Finmap fun _ : ChainIndex => S.Secret} (i : ChainIndex) :
    (fun j => (m.erase i).lookup j) = Function.update (fun j => m.lookup j) i none := by
  funext j
  by_cases hj : j = i
  · subst hj
    rw [Function.update_self,Finmap.lookup_erase]
  · rw [Function.update_of_ne hj,Finmap.lookup_erase_ne hj]

theorem Inv.skipOne (h : Inv hF rank used r) (hsome : r.recvChain.isSome) (pub : Bytes)
    (pn : UInt32) : Inv hF rank used (skipOne pub pn r) := by
  obtain ⟨c,hc⟩ := Option.isSome_iff_exists.mp hsome
  have hskip := (h.at_chain hc).skip ⟨pub,pn,r.receivingCounter⟩
  rw [← lookup_insert_eq] at hskip
  rw [Inv,RatchetModel.skipOne,advance,recvKey,hc]
  exact hskip

theorem Inv.iterate (h : Inv hF rank used r) (hsome : r.recvChain.isSome) (pub : Bytes)
    (pn : UInt32) (k : ℕ) : Inv hF rank used ((RatchetModel.skipOne pub pn)^[k] r) := by
  induction k with
  | zero => exact h
  | succ k ih =>
      rw [Function.iterate_succ_apply']
      exact ih.skipOne (iterate_recvChain pub pn k r hsome) pub pn

theorem Inv.skipUntil (h : Inv hF rank used r) (hsome : r.recvChain.isSome) (pub : Bytes)
    (pn bound : UInt32) : Inv hF rank used (skipUntil pub pn bound r).2 := by
  obtain ⟨k,hk⟩ := skipUntil_iterate pub pn bound r
  rw [hk]
  exact h.iterate hsome pub pn k

theorem Inv.skipOldChain (h : Inv hF rank used r) (pn : UInt32) :
    Inv hF rank used (skipOldChain pn r).2 := by
  rw [RatchetModel.skipOldChain]
  split_ifs with hsome
  · exact h.skipUntil hsome _ _ _
  · exact h

/-- The root key of the step is replaced, so its chain is new. -/
theorem Inv.newReceivingChain (hrank : Ranked rank) (h : Inv hF rank used r) (pub : Bytes)
    (out : S.Secret) : Inv hF rank used (newReceivingChain pub out r) := by
  have hlt : rank r.rootKey < rank (kdfRoot r.rootKey out).1 :=
    hrank _ _ _ (.inl List.mem_cons_self)
  exact Consumed.restart h (fun o ho => old_mono hlt.le ho) (fun o ho => old_origin hF ho)
    (.inl ⟨r.rootKey,out,rfl,hlt⟩) (not_old_kdfRoot hF _ _)

theorem Inv.recvRatchetStep (hrank : Ranked rank) (h : Inv hF rank used r) (pub : Bytes)
    (pn : UInt32) : Inv hF rank used (recvRatchetStep pub pn r).2 := by
  have hold := h.skipOldChain pn
  have hout := recvRatchetStep_outcome pub pn r
  generalize RatchetModel.recvRatchetStep pub pn r = out at hout
  cases hout with
  | full hs =>
      rw [hs] at hold
      exact hold
  | noIdentity hs _ =>
      rw [hs] at hold
      exact hold.congr rfl rfl rfl
  | refused hs _ _ =>
      rw [hs] at hold
      exact hold.congr rfl rfl rfl
  | stepped hs _ _ =>
      rw [hs] at hold
      have hret : Inv hF rank used (retireSendingChain _) := hold.congr rfl rfl rfl
      exact hret.newReceivingChain hrank pub _

/-- The key that is handed out joins the used ones. -/
theorem Inv.takeKey (h : Inv hF rank used r) (hsome : r.recvChain.isSome) (env : Envelope)
    (pub : Bytes) : Inv hF rank (used++(takeKey env pub r).1.toOption.toList)
      (takeKey env pub r).2 := by
  have hout := takeKey_outcome env pub r
  generalize RatchetModel.takeKey env pub r = out at hout
  cases hout with
  | stored hl =>
      have htake := Consumed.take h hl
      rw [← lookup_erase_eq] at htake
      exact htake
  | old _ _ =>
      simp only [Except.toOption,Option.toList_none,List.append_nil]
      exact h
  | full _ _ hs =>
      simp only [Except.toOption,Option.toList_none,List.append_nil]
      have hskip := h.skipUntil hsome pub env.prevCount env.counter
      rw [hs] at hskip
      exact hskip
  | @next _ _ r' hs =>
      have hskip := h.skipUntil hsome pub env.prevCount env.counter
      obtain ⟨k,hk⟩ := skipUntil_iterate pub env.prevCount env.counter r
      rw [hs] at hskip hk
      obtain rfl : r' = _ := hk
      obtain ⟨c,hc⟩ := Option.isSome_iff_exists.mp
        (iterate_recvChain pub env.prevCount k r hsome)
      have hadv := (Inv.at_chain hskip hc).advance
      rw [Inv,RatchetModel.advance,recvKey,hc]
      exact hadv

/-- A new sending chain replaces the root key as well. -/
theorem Inv.encrypt (hrank : Ranked rank) (h : Inv hF rank used r)
    (fresh : Except Failure S.Priv) (p : Bytes) : Inv hF rank used (encrypt fresh p r).2 := by
  rcases encrypt_outcome fresh p r with ⟨r',hens,henc⟩ | ⟨e,henc⟩
  · rw [henc]
    have hr' : Inv hF rank used r' := by
      rcases ensureSendingChain_ok hens with ⟨_,rfl⟩ | ⟨_,nk,out,_,_,rfl⟩
      · exact h
      · have hlt : rank r.rootKey < rank (kdfRoot r.rootKey out).1 :=
          hrank _ _ _ (.inl List.mem_cons_self)
        exact Consumed.weaken h (fun o ho => old_mono hlt.le ho) (fun o ho => old_origin hF ho)
    exact hr'.congr rfl rfl rfl
  · rw [henc]
    exact h

end

/-! ### Whole runs -/

/-- The body is opened with that key, or the call fails before. -/
theorem decrypt_keyFor (env : Envelope) (r : Ratchet S) :
    (∃ k, keyFor env r = some k ∧ (decrypt env r).1 = openWithKey k env) ∨
    (keyFor env r = none ∧ ∃ e, (decrypt env r).1 = .error e) := by
  have hopen : ∀ r : Ratchet S,
      (∃ k, (takeKey env (copy32 env.ratchetPub) r).1.toOption = some k ∧
        (openMessage env (copy32 env.ratchetPub) r).1 = openWithKey k env) ∨
      ((takeKey env (copy32 env.ratchetPub) r).1.toOption = none ∧
        ∃ e, (openMessage env (copy32 env.ratchetPub) r).1 = .error e) := by
    intro r
    rw [openMessage]
    generalize takeKey env (copy32 env.ratchetPub) r = out
    obtain ⟨res,r'⟩ := out
    cases res with
    | error e => exact .inr ⟨rfl,e,rfl⟩
    | ok k => exact .inl ⟨k,rfl,rfl⟩
  rw [keyFor,decrypt]
  by_cases hstep : stepNeeded env r
  · simp only [hstep,if_true]
    generalize recvRatchetStep (copy32 env.ratchetPub) env.prevCount r = out
    obtain ⟨o,r'⟩ := out
    cases o with
    | some e => exact .inr ⟨rfl,e,rfl⟩
    | none => exact hopen r'
  · simp only [hstep]
    exact hopen r

section
variable {hF : S.Free} {rank : S.Secret → ℕ} {used : List S.Secret} {r : Ratchet S}

theorem Inv.decrypt (hrank : Ranked rank) (h : Inv hF rank used r) (env : Envelope) :
    Inv hF rank (used++(keyFor env r).toList) (decrypt env r).2 := by
  rw [keyFor,RatchetModel.decrypt]
  by_cases hstep : stepNeeded env r
  · simp only [hstep,if_true]
    have hinv := h.recvRatchetStep hrank (copy32 env.ratchetPub) env.prevCount
    have hout := recvRatchetStep_outcome (copy32 env.ratchetPub) env.prevCount r
    generalize RatchetModel.recvRatchetStep (copy32 env.ratchetPub) env.prevCount r = out at *
    cases hout with
    | full _ => simpa using hinv
    | noIdentity _ _ => simpa using hinv
    | refused _ _ _ => simpa using hinv
    | stepped _ _ _ =>
        simp only [openMessage_state]
        exact Inv.takeKey hinv rfl env _
  · have hsome := recvChain_of_stays hstep
    simp only [hstep,Bool.false_eq_true,if_false,openMessage_state]
    exact h.takeKey hsome env _

theorem Inv.call (hrank : Ranked rank) (h : Inv hF rank used r) (c : Call S) :
    Inv hF rank (used++(opening c r).map Prod.snd) (c.after r) := by
  cases c with
  | encrypt fresh p =>
      rw [opening,List.map_nil,List.append_nil]
      exact h.encrypt hrank fresh p
  | decrypt env =>
      rw [opening,List.map_map,show Prod.snd ∘ (fun k : S.Secret => (env,k)) = id from rfl,
        List.map_id]
      exact h.decrypt hrank env

theorem Inv.run (hrank : Ranked rank) (h : Inv hF rank used r) (calls : List (Call S)) :
    (used++(openings calls r).map Prod.snd).Nodup := by
  induction calls generalizing used r with
  | nil =>
      rw [openings,List.map_nil,List.append_nil]
      exact Consumed.nodup h
  | cons c calls ih =>
      rw [openings,List.map_append,← List.append_assoc]
      exact ih (h.call hrank c)

theorem inv_aliceRatchet (hF : S.Free) (rank : S.Secret → ℕ) (eph : S.Priv) (bundle : PreKeyBundle)
    (idOrder : OneTimeKeys) (identity : Identity S) (root chain : S.Secret) (info : Bytes) :
    Inv hF rank [] (aliceRatchet eph bundle idOrder identity root chain info) :=
  Consumed.start (fun _ ho => old_origin hF ho) (fun _ hc => (nomatch hc))

/-- The responder's first chain comes from the key agreement. -/
theorem inv_bobRatchet (hF : S.Free) (rank : S.Secret → ℕ) (keys : BobKeys S) (env : Envelope)
    {root chain : S.Secret} {ikm : List (Atom S.Secret)} {info : Bytes}
    (hrc : (root,chain) = x3dhDerive ikm info) :
    Inv hF rank [] (bobRatchet keys env root chain info) := by
  refine Consumed.start (fun _ ho => old_origin hF ho) (fun c hc => ?_)
  obtain rfl := Option.some.inj hc
  exact .inr ⟨_,_,_,congrArg Prod.snd hrc⟩

theorem Start.inv (hF : S.Free) (rank : S.Secret → ℕ) {log : List (Envelope × S.Secret)}
    (h : Start r log) : Inv hF rank (log.map Prod.snd) r := by
  cases h with
  | @alice fresh bundle keyOrder idOrder identity info _ h =>
      obtain ⟨eph,root,chain,_,_,rfl⟩ := aliceSession_ok h
      exact inv_aliceRatchet hF rank eph bundle idOrder identity root chain info
  | @bob keys env info msg _ h =>
      obtain ⟨_,_,_,root,chain,hx,_,ho⟩ := bobSession_ok h
      obtain ⟨d1,d2,d3,d4,_,_,_,_,hrc⟩ := x3dhRecipient_ok hx
      have htake := (inv_bobRatchet hF rank keys env hrc).takeKey rfl env (copy32 env.ratchetPub)
      rw [← openMessage_state,ho] at htake
      rw [List.map_map,show Prod.snd ∘ (fun k : S.Secret => (env,k)) = id from rfl,List.map_id,
        sessionKey,hx]
      exact htake

end

/-- A successful opening. -/
def Opens (x : Envelope × S.Secret) : Bool := (openWithKey x.2 x.1).isOk

/-- The decrypted envelopes are those whose opening succeeded. -/
theorem decrypted_eq (calls : List (Call S)) (r : Ratchet S) :
    decrypted calls r = ((openings calls r).filter Opens).map Prod.fst := by
  induction calls generalizing r with
  | nil => rfl
  | cons c calls ih =>
      cases c with
      | encrypt fresh p => exact ih _
      | decrypt env =>
          rw [decrypted,openings,opening,List.filter_append,List.map_append,ih]
          rcases decrypt_keyFor env r with ⟨k,hk,hres⟩ | ⟨hk,e,hres⟩
          · rw [hk,hres]
            by_cases hok : (openWithKey k env).isOk
            · rw [if_pos hok]
              simp [Opens,hok,Call.after,exec]
            · rw [if_neg hok]
              simp [Opens,hok,Call.after,exec]
          · rw [hk,hres]
            rfl

/-- A body opens under one message key only. -/
theorem opens_unique (hF : S.Free) (hI : S.IdealSeal) {env : Envelope} {k k' : S.Secret}
    (h : Opens (env,k) = true) (h' : Opens (env,k') = true) : k = k' := by
  have key : ∀ {k}, Opens (env,k) = true → ∃ p, env.body =
      S.gcmSeal (expandMessageKey k).1 (expandMessageKey k).2 p (envAAD env) := by
    intro k h
    rw [Opens,openWithKey,aesGCMDecrypt] at h
    cases ho : S.gcmOpen (expandMessageKey k).1 (expandMessageKey k).2 env.body (envAAD env) with
    | none =>
        rw [ho] at h
        cases h
    | some p => exact ⟨p,hI.opened ho⟩
  obtain ⟨p,hp⟩ := key h
  obtain ⟨p',hp'⟩ := key h'
  exact expandMessageKey_injective hF (hI.seal_key (hp.symm.trans hp'))

/-- The log of a new session holds successful openings. -/
theorem Start.opens {r : Ratchet S} {log : List (Envelope × S.Secret)} (h : Start r log) :
    log.filter Opens = log := by
  cases h with
  | alice _ => rfl
  | @bob keys env info msg _ h =>
      obtain ⟨_,_,_,root,chain,hx,_,ho⟩ := bobSession_ok h
      rw [sessionKey,hx]
      rw [openMessage] at ho
      show (((takeKey env (copy32 env.ratchetPub)
        (bobRatchet keys env root chain info)).1.toOption).toList.map fun k => (env,k)).filter Opens =
          ((takeKey env (copy32 env.ratchetPub)
            (bobRatchet keys env root chain info)).1.toOption).toList.map fun k => (env,k)
      generalize takeKey env (copy32 env.ratchetPub) (bobRatchet keys env root chain info) = out
        at ho ⊢
      obtain ⟨res,r'⟩ := out
      cases res with
      | error e => cases ho
      | ok k =>
          have hk : Opens (env,k) = true := by
            rw [Opens,(Prod.mk.inj ho).1]
            rfl
          simp [Except.toOption,hk]

/-- Over any sequence of calls with arbitrary envelopes, no two bodies are opened
with one message key, and no envelope is decrypted twice. -/
theorem message_keys_opened_once (hF : S.Free) (hI : S.IdealSeal) {r : Ratchet S}
    {log : List (Envelope × S.Secret)} (h : Start r log) (calls : List (Call S)) :
    ((log++openings calls r).map Prod.snd).Nodup ∧ (log.map Prod.fst++decrypted calls r).Nodup := by
  obtain ⟨rank,hrank⟩ := hF.acyclic
  have hkeys : ((log++openings calls r).map Prod.snd).Nodup := by
    rw [List.map_append]
    exact (h.inv hF rank).run hrank calls
  refine ⟨hkeys,?_⟩
  rw [decrypted_eq,← h.opens,← List.map_append,← List.filter_append]
  refine List.Nodup.map_on ?_ (hkeys.of_map.filter _)
  rintro ⟨env,k⟩ hx ⟨env',k'⟩ hy (rfl : env = env')
  rw [opens_unique hF hI (List.mem_filter.mp hx).2 (List.mem_filter.mp hy).2]

/-- The sample responder gets the second message, its replay, and the first again. -/
theorem message_keys_opened_once_sample :
    let calls : List (Call SymbolicSuite.suite) :=
      [.decrypt (sealMessage (text "second") sampleSender),
       .decrypt (sealMessage (text "second") sampleSender),
       .encrypt (.ok (8 : UInt8)) (text "reply"),
       .decrypt (sealMessage (text "hello") sampleStart)]
    decrypted calls sampleReceiver = [sealMessage (text "second") sampleSender] ∧
    ((openings calls sampleReceiver).map Prod.snd).Nodup := by
  refine ⟨by decide +kernel,?_⟩
  have h := (message_keys_opened_once SymbolicSuite.suite_free SymbolicSuite.suite_ideal
    (.bob sampleReceiver_session) [.decrypt (sealMessage (text "second") sampleSender),
     .decrypt (sealMessage (text "second") sampleSender),.encrypt (.ok (8 : UInt8)) (text "reply"),
     .decrypt (sealMessage (text "hello") sampleStart)]).1
  rw [List.map_append] at h
  exact h.of_append_right

end BaturWhatsApi.ReplayFreedom
