import BaturWhatsApi.SymbolicSuite

/-!
# The transport ciphers

The primitives of `security/noise/noise.go` and its `Cipher`. The plain hash and the
authenticated cipher join the primitives of the end-to-end layer. Their inputs mix
plain bytes and hash values in the same way: a cipher key is the protocol name at
first and a derived key later, and the associated data is a hash value.

The vector of a message is the counter of its cipher, 32 bits at the end of twelve
bytes. It comes back to its first value after `2^32` messages.
-/
namespace BaturWhatsApi.NoiseCipher
open ByteStrings CipherSuite

structure NoiseSuite extends Suite where
  sha256 : List (Atom Secret) → Secret
  /-- Key, vector, plaintext and associated data. -/
  aeadSeal : List (Atom Secret) → Bytes → Bytes → List (Atom Secret) → Bytes
  aeadOpen : List (Atom Secret) → Bytes → Bytes → List (Atom Secret) → Option Bytes

/-- Honest keys agree, and a sealed message opens. -/
structure NoiseSuite.Correct (N : NoiseSuite) : Prop where
  public_length : ∀ k, (N.publicKey k).length = 32
  ecdh_honest : ∀ a b, ∃ s, N.ecdh a (N.publicKey b) = some s ∧ N.ecdh b (N.publicKey a) = some s
  open_seal : ∀ k n p ad, N.aeadOpen k n (N.aeadSeal k n p ad) ad = some p

/-- Hashes determine their inputs, and a sealed message opens only under the key, the
vector and the data it was sealed under. -/
structure NoiseSuite.Ideal (N : NoiseSuite) : Prop where
  sha256_inj : ∀ {l m}, N.sha256 l = N.sha256 m → l = m
  hmac_inj : ∀ {k d k' d'}, N.hmac k d = N.hmac k' d' → k = k' ∧ d = d'
  opened : ∀ {k n ad p k' n' ad' p'}, N.aeadOpen k n (N.aeadSeal k' n' p' ad') ad = some p →
    k = k' ∧ n = n' ∧ ad = ad' ∧ p = p'

variable {N : NoiseSuite}

def iv (counter : UInt32) : Bytes :=
  List.replicate 8 (0 : UInt8)++
    [UInt8.ofNat (counter.toNat >>> 24),UInt8.ofNat (counter.toNat >>> 16),
     UInt8.ofNat (counter.toNat >>> 8),UInt8.ofNat counter.toNat]

theorem iv_injective : Function.Injective iv := by
  intro a b h
  have hnum := congrArg bigEndian (List.append_cancel_left h)
  rw [bigEndian_four a.toNat_lt,bigEndian_four b.toNat_lt] at hnum
  exact UInt32.toNat_inj.mp hnum

structure Cipher (N : NoiseSuite) where
  key : N.Secret
  counter : UInt32

def newCipher (key : N.Secret) : Cipher N := ⟨key,0⟩

def Cipher.seal (c : Cipher N) (plaintext : Bytes) : Bytes × Cipher N :=
  (N.aeadSeal [.secret c.key] (iv c.counter) plaintext [],{c with counter := c.counter+1})

/-- The counter moves on even when the message is refused. -/
def Cipher.open (c : Cipher N) (ciphertext : Bytes) : Option Bytes × Cipher N :=
  (N.aeadOpen [.secret c.key] (iv c.counter) ciphertext [],{c with counter := c.counter+1})

theorem Cipher.open_seal (hN : N.Correct) (c : Cipher N) (p : Bytes) :
    c.open (c.seal p).1 = (some p,(c.seal p).2) := by
  rw [Cipher.open,Cipher.seal,hN.open_seal]

/-- A cipher after a number of messages. -/
def Cipher.later (c : Cipher N) (n : ℕ) : Cipher N := {c with counter := c.counter+UInt32.ofNat n}

theorem Cipher.later_zero (c : Cipher N) : c.later 0 = c := by
  simp [later]

theorem Cipher.later_next (c : Cipher N) (n : ℕ) :
    Cipher.later {c with counter := c.counter+1} n = c.later (n+1) := by
  simp only [later,UInt32.ofNat_add,UInt32.add_assoc,UInt32.add_comm (UInt32.ofNat n)]
  rfl

theorem Cipher.later_seal (c : Cipher N) (n : ℕ) (p : Bytes) :
    ((c.later n).seal p).2 = c.later (n+1) := by
  simp only [later,Cipher.seal,UInt32.ofNat_add,UInt32.add_assoc]
  rfl

/-- The vectors of a sequence of sealed messages. -/
def Cipher.ivs : Cipher N → List Bytes → List Bytes
  | _,[] => []
  | c,p::ps => iv c.counter::ivs (c.seal p).2 ps

theorem Cipher.ivs_eq (c : Cipher N) (ps : List Bytes) :
    c.ivs ps = (List.range ps.length).map fun i => iv (c.later i).counter := by
  induction ps generalizing c with
  | nil => rfl
  | cons p ps ih =>
      have hnext : ∀ i, (c.seal p).2.later i = c.later (i+1) := c.later_next
      rw [ivs,ih,List.length_cons,List.range_succ_eq_map,List.map_cons,later_zero,List.map_map]
      simp only [hnext,Function.comp_def,Nat.succ_eq_add_one]

theorem Cipher.ivs_getElem {c : Cipher N} {ps : List Bytes} {i : ℕ} (hi : i < ps.length) :
    (c.ivs ps)[i]? = some (iv (c.later i).counter) := by
  rw [c.ivs_eq,List.getElem?_map,List.getElem?_range hi,Option.map_some]

/-- After `2^32` messages the counter is where it was. -/
theorem Cipher.later_round (c : Cipher N) : c.later (2^32) = c := by
  simp [later]

/-- The vectors of one cipher are different exactly as long as its counter has not
come round. -/
theorem seal_ivs_nodup_iff (c : Cipher N) (ps : List Bytes) :
    (c.ivs ps).Nodup ↔ ps.length ≤ 2^32 := by
  rw [c.ivs_eq]
  constructor
  · intro h
    by_contra hlen
    have hmem : ∀ i, i < ps.length → i ∈ List.range ps.length := fun i hi => List.mem_range.mpr hi
    have hsame : iv (c.later 0).counter = iv (c.later (2^32)).counter := by
      rw [c.later_zero,c.later_round]
    have hzero := List.inj_on_of_nodup_map h (hmem 0 (by omega)) (hmem (2^32) (by omega)) hsame
    cases hzero
  · intro hlen
    refine (List.nodup_map_iff_inj_on List.nodup_range).mpr ?_
    intro i hi j hj hij
    rw [List.mem_range] at hi hj
    exact counter_inj (by omega) (by omega) (iv_injective hij)

/-! The symbolic suite with its hash and cipher. -/

def symbolic : NoiseSuite where
  toSuite := SymbolicSuite.suite
  sha256 l := SymbolicSuite.input l
  aeadSeal k n p ad := SymbolicSuite.stamp (SymbolicSuite.input k) n (SymbolicSuite.input ad).code++p
  aeadOpen k n c ad := SymbolicSuite.opened (SymbolicSuite.input k) n c (SymbolicSuite.input ad).code

theorem symbolic_correct : symbolic.Correct where
  public_length := SymbolicSuite.suite_correct.public_length
  ecdh_honest := SymbolicSuite.suite_correct.ecdh_honest
  open_seal _ _ _ _ := SymbolicSuite.opened_iff.mpr rfl

theorem symbolic_ideal : symbolic.Ideal where
  sha256_inj h := SymbolicSuite.input_injective h
  hmac_inj h := SymbolicSuite.suite_free.hmac_inj h
  opened h := by
    obtain ⟨hk,hn,had,hp⟩ := SymbolicSuite.stamp_append (SymbolicSuite.opened_iff.mp h)
    have hcode : ∀ {s t : SymbolicSuite.Term}, s.code = t.code → s = t := by
      intro s t hst
      exact (SymbolicSuite.Term.code_append (u := []) (v := []) (by rw [hst])).1
    exact ⟨(SymbolicSuite.input_injective hk).symm,hn.symm,
      (SymbolicSuite.input_injective (hcode had)).symm,hp.symm⟩

/-- The message after `2^32` others has the vector of the first. -/
theorem seal_iv_repeated :
    ((newCipher (N := symbolic) .nil).ivs (List.replicate (2^32+1) []))[0]? = some (iv 0) ∧
    ((newCipher (N := symbolic) .nil).ivs (List.replicate (2^32+1) []))[2^32]? = some (iv 0) := by
  refine ⟨?_,?_⟩
  · rw [Cipher.ivs_getElem (by rw [List.length_replicate]; omega),Cipher.later_zero]
    rfl
  · rw [Cipher.ivs_getElem (by rw [List.length_replicate]; omega),Cipher.later_round]
    rfl

end BaturWhatsApi.NoiseCipher
