import BaturWhatsApi.KeyValueStores
import BaturWhatsApi.Base64

/-!
# Sealed values

`storage/secure.go`. A value is sealed under a master key, with its key in the store as
associated data, and written behind a mark as base64. Reading goes the other way.

The cipher is ideal: it keeps a record of what it was asked to seal, and opens exactly
that. Anyone may rewrite the store below, also with records that were sealed for another
key or under another master key. What is read under a master key was set under it, on
the same key.
-/
namespace BaturWhatsApi.SecureStore
open ByteStrings OrderedEntries KeyValueStores Runs

/-! ### The cipher -/

/-- `NewSecureKV` takes no other length. -/
structure Master where
  bytes : Bytes
  length : bytes.length = 32
deriving DecidableEq

structure Nonce where
  bytes : Bytes
  length : bytes.length = 12
deriving DecidableEq

/-- A sealed value determines the value, for a given key, nonce and associated data. -/
structure Aead where
  sealWith : Master → Bytes → Bytes → Bytes → Bytes
  sealWith_inj : ∀ mk nonce ad, Function.Injective (sealWith mk nonce ad)

/-- A call of `Seal`. -/
structure Sealing where
  master : Master
  nonce : Bytes
  ad : Bytes
  plain : Bytes
deriving DecidableEq

def Sealing.cipher (aead : Aead) (e : Sealing) : Bytes :=
  aead.sealWith e.master e.nonce e.ad e.plain

/-- `Open` of the ideal cipher, given the calls of `Seal` so far. -/
def openWith (aead : Aead) (sealed : List Sealing) (mk : Master) (nonce ad ct : Bytes) :
    Option Bytes :=
  (sealed.find? fun e => e.master = mk ∧ e.nonce = nonce ∧ e.ad = ad ∧ e.cipher aead = ct).map
    Sealing.plain

/-! ### The store -/

inductive SecureError where
  | notFound
  | notSealed
  | wrongKey
deriving DecidableEq

def sealPrefix : Bytes := text "bseal1:"

/-- `strings.TrimPrefix` -/
def trimStart (start s : Bytes) : Bytes := if start.isPrefixOf s then s.drop start.length else s

/-- The bytes that are stored for a sealing. -/
def sealedRecord (aead : Aead) (e : Sealing) : Bytes :=
  sealPrefix++Base64.encode (e.nonce++e.cipher aead)

def unsealValue (aead : Aead) (sealed : List Sealing) (mk : Master) (key stored : Bytes) :
    Except SecureError Bytes :=
  let raw := trimStart sealPrefix stored
  if raw = stored then .error .notSealed
  else
    match Base64.decode raw with
    | none => .error .notSealed
    | some buf =>
        if buf.length < 12 then .error .notSealed
        else
          match openWith aead sealed mk (buf.take 12) key (buf.drop 12) with
          | none => .error .wrongKey
          | some plain => .ok plain

/-- The store below, and what has been sealed. -/
structure State where
  backend : Memory := {}
  sealed : List Sealing := []

/-- Each call is made on a store with a master key of its own, over the same store below. The
random source gives a nonce or fails. `rewrite` is anyone else's doing. -/
inductive Event where
  | set (mk : Master) (key value : Bytes) (nonce : Option Nonce)
  | delete (mk : Master) (key : Bytes)
  | get (mk : Master) (key : Bytes)
  | rewrite (backend : Memory)

section
variable (aead : Aead)

def State.get (s : State) (mk : Master) (key : Bytes) : Except SecureError Bytes :=
  match s.backend.get key with
  | .error _ => .error .notFound
  | .ok stored => unsealValue aead s.sealed mk key stored

def State.set (s : State) (mk : Master) (key value : Bytes) : Option Nonce → State
  | none => s
  | some nonce =>
      let e : Sealing := ⟨mk,nonce.bytes,key,value⟩
      {backend := s.backend.set key (sealedRecord aead e),sealed := s.sealed++[e]}

def State.step (s : State) : Event → State
  | .set master key value nonce => s.set aead master key value nonce
  | .delete _ key => {s with backend := s.backend.delete key}
  | .get _ _ => s
  | .rewrite backend => {s with backend := backend}

end

/-! ### What is read was set -/

section
variable {aead : Aead}

theorem openWith_mem {sealed : List Sealing} {mk : Master} {nonce ad ct plain : Bytes}
    (h : openWith aead sealed mk nonce ad ct = some plain) :
    ∃ e ∈ sealed, e.master = mk ∧ e.ad = ad ∧ e.plain = plain := by
  obtain ⟨e,he,rfl⟩ := Option.map_eq_some_iff.mp h
  have hmatch := List.find?_some he
  simp only [decide_eq_true_eq] at hmatch
  exact ⟨e,List.mem_of_find?_eq_some he,hmatch.1,hmatch.2.2.1,rfl⟩

/-- A sealing is opened as it was made. -/
theorem openWith_cipher {sealed : List Sealing} {e : Sealing} (he : e ∈ sealed) :
    openWith aead sealed e.master e.nonce e.ad (e.cipher aead) = some e.plain := by
  cases hfind : sealed.find? fun e' => decide (e'.master = e.master ∧ e'.nonce = e.nonce ∧
      e'.ad = e.ad ∧ e'.cipher aead = e.cipher aead) with
  | none =>
      have hnone := List.find?_eq_none.mp hfind e he
      simp at hnone
  | some e' =>
      have hmatch := List.find?_some hfind
      simp only [decide_eq_true_eq] at hmatch
      obtain ⟨hmaster,hnonce,had,hcipher⟩ := hmatch
      rw [Sealing.cipher,Sealing.cipher,hmaster,hnonce,had] at hcipher
      rw [openWith,hfind,Option.map_some,aead.sealWith_inj _ _ _ hcipher]

theorem unsealValue_mem {sealed : List Sealing} {mk : Master} {key stored plain : Bytes}
    (h : unsealValue aead sealed mk key stored = .ok plain) :
    ∃ e ∈ sealed, e.master = mk ∧ e.ad = key ∧ e.plain = plain := by
  unfold unsealValue at h
  dsimp only at h
  split_ifs at h
  split at h
  · cases h
  · split_ifs at h
    split at h
    · cases h
    · rename_i hopen
      cases h
      exact openWith_mem hopen

theorem trimStart_append (start s : Bytes) : trimStart start (start++s) = s := by
  rw [trimStart,if_pos (by simp),List.drop_left]

theorem unsealValue_sealedRecord {sealed : List Sealing} {e : Sealing} (he : e ∈ sealed)
    (hnonce : e.nonce.length = 12) :
    unsealValue aead sealed e.master e.ad (sealedRecord aead e) = .ok e.plain := by
  have hne : ∀ s, s ≠ sealPrefix++s := by
    intro s hs
    have := congrArg List.length hs
    rw [List.length_append] at this
    have hlength : sealPrefix.length = 7 := by decide +kernel
    omega
  have hlength : ¬(e.nonce++e.cipher aead).length < 12 := by
    rw [List.length_append]
    omega
  have hopen : openWith aead sealed e.master e.nonce e.ad (e.cipher aead) = some e.plain :=
    openWith_cipher he
  unfold unsealValue
  simp only [sealedRecord,trimStart_append,hne,if_false,Base64.decode_encode,hlength]
  rw [← hnonce,List.take_left,List.drop_left,hopen]

/-- Every sealing comes from a call. -/
theorem sealed_set (evs : List Event) (s : State) {e : Sealing}
    (he : e ∈ (run (State.step aead) evs s).sealed) :
    e ∈ s.sealed ∨ ∃ nonce, .set e.master e.ad e.plain nonce ∈ evs := by
  induction evs generalizing s with
  | nil => exact .inl he
  | cons ev evs ih =>
      rcases ih _ he with hold | ⟨nonce,hlater⟩
      · cases ev with
        | set mk key value nonce =>
            cases nonce with
            | none => exact .inl hold
            | some nonce =>
                rcases List.mem_append.mp hold with hold | hnew
                · exact .inl hold
                · rw [List.mem_singleton.mp hnew]
                  exact .inr ⟨some nonce,List.mem_cons_self⟩
        | delete mk key => exact .inl hold
        | get mk key => exact .inl hold
        | rewrite backend => exact .inl hold
      · exact .inr ⟨nonce,List.mem_cons_of_mem ev hlater⟩

/-! ### The last value -/

/-- What the events leave at a key. A call without a nonce fails. -/
def Event.leaves (key : Bytes) (cur : Option (Master × Bytes)) : Event → Option (Master × Bytes)
  | .set mk k value (some _) => if k = key then some (mk,value) else cur
  | .delete _ k => if k = key then none else cur
  | _ => cur

def lastSet (evs : List Event) (key : Bytes) : Option (Master × Bytes) :=
  evs.foldl (Event.leaves key) none

def Event.tampers : Event → Bool
  | .rewrite _ => true
  | _ => false

/-- At a key stands the record for the value that was left there. -/
def Kept (aead : Aead) (s : State) (key : Bytes) : Option (Master × Bytes) → Prop
  | none => s.backend.data.get key = none
  | some (mk,value) => ∃ nonce : Nonce, ⟨mk,nonce.bytes,key,value⟩ ∈ s.sealed ∧
      s.backend.data.get key = some (sealedRecord aead ⟨mk,nonce.bytes,key,value⟩)

theorem Kept.mono {s s' : State} {key : Bytes} {cur : Option (Master × Bytes)}
    (h : Kept aead s key cur) (hsealed : s.sealed ⊆ s'.sealed)
    (hbackend : s'.backend.data.get key = s.backend.data.get key) : Kept aead s' key cur := by
  cases cur with
  | none => exact hbackend.trans h
  | some p =>
      obtain ⟨nonce,hmem,hget⟩ := h
      exact ⟨nonce,hsealed hmem,hbackend.trans hget⟩

theorem Kept.step {s : State} {key : Bytes} {cur : Option (Master × Bytes)} {ev : Event}
    (h : Kept aead s key cur) (hev : ev.tampers = false) :
    Kept aead (s.step aead ev) key (ev.leaves key cur) := by
  cases ev with
  | set mk k value nonce =>
      cases nonce with
      | none => exact h
      | some nonce =>
          dsimp only [Event.leaves]
          split_ifs with hk
          · subst hk
            refine ⟨nonce,List.mem_append_right _ (List.mem_singleton_self _),?_⟩
            simp [State.step,State.set,Memory.set]
          · apply h.mono (List.subset_append_left _ _)
            simp [State.step,State.set,Memory.set,Ne.symm hk]
  | delete mk k =>
      dsimp only [Event.leaves]
      split_ifs with hk
      · simp [Kept,State.step,Memory.delete,hk]
      · refine h.mono (fun _ he => he) ?_
        simp [State.step,Memory.delete,Ne.symm hk]
  | get mk k => exact h
  | rewrite backend => cases hev

theorem kept_run {evs : List Event} (hevs : ∀ ev ∈ evs, ev.tampers = false) (key : Bytes) :
    Kept aead (run (State.step aead) evs {}) key (lastSet evs key) := by
  induction evs using List.reverseRecOn with
  | nil => rfl
  | append_singleton evs ev ih =>
      rw [run_append,lastSet,List.foldl_append]
      apply (ih fun ev hev => hevs ev (List.mem_append_left _ hev)).step
      exact hevs ev (by simp)

theorem Kept.get {s : State} {key : Bytes} {cur : Option (Master × Bytes)}
    (h : Kept aead s key cur) : (cur = none → ∀ mk, s.get aead mk key = .error .notFound) ∧
    ∀ mk value, cur = some (mk,value) → s.get aead mk key = .ok value := by
  constructor
  · rintro rfl mk
    have hget : s.backend.data.get key = none := h
    simp only [State.get,Memory.get,hget,found]
  · rintro mk value rfl
    obtain ⟨nonce,hmem,hget⟩ := h
    simp only [State.get,Memory.get,hget,found]
    exact unsealValue_sealedRecord hmem nonce.length

end

/-- Whatever is done to the store below, what is read under a master key was set under it on the
same key; and if nothing is done to it, the value that was set last is read. -/
theorem sealed_values (aead : Aead) (evs : List Event) (mk : Master) (key : Bytes) :
    (∀ value, (run (State.step aead) evs {}).get aead mk key = .ok value →
      ∃ nonce, .set mk key value nonce ∈ evs) ∧
    ((∀ ev ∈ evs, ev.tampers = false) →
      (lastSet evs key = none →
        (run (State.step aead) evs {}).get aead mk key = .error .notFound) ∧
      ∀ value, lastSet evs key = some (mk,value) →
        (run (State.step aead) evs {}).get aead mk key = .ok value) := by
  constructor
  · intro value h
    unfold State.get at h
    split at h
    · cases h
    · obtain ⟨e,he,rfl,rfl,rfl⟩ := unsealValue_mem h
      cases sealed_set evs {} he with
      | inl hnone => cases hnone
      | inr hset => exact hset
  · intro hevs
    have hkept : Kept aead (run (State.step aead) evs {}) key (lastSet evs key) :=
      kept_run hevs key
    obtain ⟨hnone,hsome⟩ := hkept.get
    exact ⟨fun h => hnone h mk,hsome mk⟩

/-- A cipher for the samples: the bytes are masked, and the rest of the call is appended. -/
def sampleAead : Aead where
  sealWith mk nonce ad plain := plain.map (mk.bytes.headD 0 ^^^ ·)++(nonce++ad)
  sealWith_inj mk nonce ad p q h := by
    have hmasked := List.append_cancel_right h
    refine List.map_injective_iff.mpr ?_ hmasked
    intro x y hxy
    simpa [← UInt8.xor_assoc] using congrArg (mk.bytes.headD 0 ^^^ ·) hxy

def sampleMaster : Master := ⟨List.replicate 32 5,rfl⟩

def sampleNonce (b : UInt8) : Nonce := ⟨List.replicate 12 b,List.length_replicate⟩

/-- One of two keys is set again, and the other one is deleted. -/
def sampleEvents : List Event :=
  [.set sampleMaster (text "k") [7] (some (sampleNonce 0)),
   .set sampleMaster (text "j") [8] (some (sampleNonce 1)),.delete sampleMaster (text "j"),
   .set sampleMaster (text "k") [9] (some (sampleNonce 2)),
   .set sampleMaster (text "k") [10] none]

/-- The first record of the key. -/
def oldRecord : Bytes :=
  sealedRecord sampleAead ⟨sampleMaster,(sampleNonce 0).bytes,text "k",[7]⟩

/-- The values are those that were left, and an old record is read as what it was set to. -/
theorem sealed_values_sample :
    let s := run (State.step sampleAead) sampleEvents {}
    s.get sampleAead sampleMaster (text "k") = .ok [9] ∧
    s.get sampleAead sampleMaster (text "j") = .error .notFound ∧
    let tampered := sampleEvents++[.rewrite (s.backend.set (text "k") oldRecord)]
    (run (State.step sampleAead) tampered {}).get sampleAead sampleMaster (text "k") = .ok [7] ∧
    ∃ nonce, .set sampleMaster (text "k") [7] nonce ∈ tampered := by
  have hevs : ∀ ev ∈ sampleEvents, ev.tampers = false := by simp [sampleEvents,Event.tampers]
  intro s
  have hk := (sealed_values sampleAead sampleEvents sampleMaster (text "k")).2 hevs
  have hj := (sealed_values sampleAead sampleEvents sampleMaster (text "j")).2 hevs
  refine ⟨hk.2 [9] rfl,hj.1 rfl,?_⟩
  intro tampered
  have hold : (run (State.step sampleAead) tampered {}).get sampleAead sampleMaster (text "k") =
      .ok [7] := by
    decide +kernel
  exact ⟨hold,(sealed_values sampleAead tampered sampleMaster (text "k")).1 [7] hold⟩

/-- A record that is copied to another key is refused. -/
example : let s := run (State.step sampleAead) sampleEvents {}
    (s.step sampleAead (.rewrite (s.backend.set (text "j") oldRecord))).get sampleAead sampleMaster
      (text "j") = .error .wrongKey := by
  decide +kernel

end BaturWhatsApi.SecureStore
