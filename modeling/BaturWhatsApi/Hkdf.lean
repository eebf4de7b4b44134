import BaturWhatsApi.CipherSuite

/-!
# Key derivation in blocks

`security/hkdf/hkdf.go` with its loop over a one-byte counter and one reused hash object. The
keyed hash is a function with an output of fixed length. The other side is the recursive
definition of RFC 5869: a block hashes the block before it, the context and its own number.

The limit on the length is the one at which the counter still has not come round: after the
last block it wraps, but it is not written any more.

The sessions and the handshake take two blocks, as hashes over opaque secrets. With secrets
that are byte strings these are the bytes that the loop returns.
-/
namespace BaturWhatsApi.Hkdf
open ByteStrings CipherSuite

def hashSize : ℕ := 32

/-- The keyed hash of a key and a message. -/
structure Hmac where
  tag : Bytes → Bytes → Bytes
  length_tag : ∀ key msg, (tag key msg).length = hashSize

/-- A hash object: its key and what was written since the last reset. -/
structure Mac where
  key : Bytes
  written : Bytes := []

def Mac.reset (m : Mac) : Mac := {m with written := []}
def Mac.write (m : Mac) (p : Bytes) : Mac := {m with written := m.written++p}
def Mac.sum (H : Hmac) (m : Mac) : Bytes := H.tag m.key m.written

/-- The second one is the panic of a slice with a negative bound. -/
inductive HkdfError where
  | outputTooLong
  | bounds
deriving DecidableEq, Repr

section
variable (H : Hmac)

/-- A salt that is absent is filled with zeros. -/
def extract (secret : Bytes) (salt : Option Bytes) : Bytes :=
  (Mac.write ⟨salt.getD (List.replicate hashSize 0),[]⟩ secret).sum H

/-- The hash object after the three writes of one round. -/
def Mac.load (m : Mac) (previous info : Bytes) (counter : UInt8) : Mac :=
  ((m.reset.write previous).write info).write [counter]

/-- The loop of `Expand`. Beside the output it returns the counters that were written. -/
def expandLoop (info : Bytes) (length : ℤ) (m : Mac) (out previous : Bytes) (counter : UInt8) :
    Bytes × List UInt8 :=
  if (out.length : ℤ) < length then
    let block := (m.load previous info counter).sum H
    let r := expandLoop info length (m.load previous info counter) (out++block) block (counter+1)
    (r.1,counter::r.2)
  else (out,[])
termination_by (length-out.length).toNat
decreasing_by
  rw [List.length_append,Mac.sum,H.length_tag,hashSize]
  omega

def expand (prk info : Bytes) (length : ℤ) : Except HkdfError Bytes :=
  if 255*hashSize < length then .error .outputTooLong
  else
    let out := (expandLoop H info length ⟨prk,[]⟩ [] [] 1).1
    if length < 0 then .error .bounds else .ok (out.take length.toNat)

def derive (secret : Bytes) (salt : Option Bytes) (info : Bytes) (length : ℤ) :
    Except HkdfError Bytes :=
  expand H (extract H secret salt) info length

/-- The product is one of machine words. -/
def keys (secret : Bytes) (salt : Option Bytes) (info : Bytes) (n : ℤ) :
    Except HkdfError (Bytes × Bytes) :=
  match derive H secret salt info (Int.bmod (2*n) (2^64)) with
  | .error e => .error e
  | .ok out => if n < 0 then .error .bounds else .ok (out.take n.toNat,out.drop n.toNat)

/-! ### The blocks of the RFC -/

def block (prk info : Bytes) : ℕ → Bytes
  | 0 => []
  | i+1 => H.tag prk (block prk info i++info++[UInt8.ofNat (i+1)])

/-- The first `n` blocks behind each other. -/
def blocks (prk info : Bytes) : ℕ → Bytes
  | 0 => []
  | n+1 => blocks prk info n++block H prk info (n+1)

/-- The pseudorandom key. -/
def pseudorandom (secret : Bytes) (salt : Option Bytes) : Bytes :=
  H.tag (salt.getD (List.replicate hashSize 0)) secret

/-- The number of blocks for an output of this length. -/
def rounds (length : ℕ) : ℕ := (length+31)/32

end

section
variable (H : Hmac) (prk info : Bytes)

theorem length_block (i : ℕ) : (block H prk info (i+1)).length = 32 := H.length_tag _ _

theorem length_blocks (n : ℕ) : (blocks H prk info n).length = 32*n := by
  induction n with
  | zero => rfl
  | succ n ih => rw [blocks,List.length_append,ih,length_block,Nat.mul_succ]

theorem blocks_append {m n : ℕ} (h : m ≤ n) :
    ∃ rest, blocks H prk info n = blocks H prk info m++rest := by
  induction n, h using Nat.le_induction with
  | base => exact ⟨[],(List.append_nil _).symm⟩
  | succ n _ ih =>
      obtain ⟨rest,hrest⟩ := ih
      exact ⟨rest++block H prk info (n+1),by rw [blocks,hrest,List.append_assoc]⟩

/-- The beginning of the output does not depend on the number of blocks. -/
theorem take_blocks {length m n : ℕ} (h : m ≤ n) (hm : length ≤ 32*m) :
    (blocks H prk info n).take length = (blocks H prk info m).take length := by
  obtain ⟨rest,hrest⟩ := blocks_append H prk info h
  rw [hrest,List.take_append_of_le_length]
  rw [length_blocks]
  exact hm

/-- A round of the loop computes the next block. -/
theorem sum_load {m : Mac} (hkey : m.key = prk) (i : ℕ) :
    (m.load (block H prk info i) info (UInt8.ofNat (i+1))).sum H = block H prk info (i+1) := by
  rw [block,← hkey]
  rfl

/-- After block `k` the loop appends the `d` blocks that are left, under the numbers after `k`. -/
theorem expandLoop_blocks {length : ℕ} (k d : ℕ) (hd : rounds length = k+d) (m : Mac)
    (hkey : m.key = prk) :
    expandLoop H info length m (blocks H prk info k) (block H prk info k) (UInt8.ofNat (k+1)) =
      (blocks H prk info (k+d),(List.range' (k+1) d).map UInt8.ofNat) := by
  rw [rounds] at hd
  induction d generalizing k m with
  | zero =>
      rw [expandLoop,if_neg]
      · rfl
      · rw [length_blocks]
        omega
  | succ d ih =>
      have hcounter : UInt8.ofNat (k+1)+1 = UInt8.ofNat (k+1+1) := (UInt8.ofNat_add _ _).symm
      have hround := ih (k+1) (by omega) (m.load (block H prk info k) info (UInt8.ofNat (k+1))) hkey
      rw [expandLoop,if_pos]
      · dsimp only
        rw [sum_load H prk info hkey,hcounter,← blocks,hround,List.range'_succ,List.map_cons,
          Nat.add_assoc,Nat.add_comm 1 d]
      · rw [length_blocks]
        omega

theorem expandLoop_start (length : ℕ) :
    expandLoop H info length ⟨prk,[]⟩ [] [] 1 =
      (blocks H prk info (rounds length),(List.range' 1 (rounds length)).map UInt8.ofNat) := by
  have h := expandLoop_blocks H prk info 0 (rounds length) (Nat.zero_add _).symm ⟨prk,[]⟩ rfl
  rw [Nat.zero_add,Nat.zero_add] at h
  exact h

theorem rounds_le {length : ℕ} (h : length ≤ 255*hashSize) : rounds length ≤ 255 := by
  rw [hashSize] at h
  rw [rounds]
  omega

/-- The counters that the expansion to a length writes. -/
def counters (length : ℤ) : List UInt8 := (expandLoop H info length ⟨prk,[]⟩ [] [] 1).2

/-- Up to the limit the counters are the numbers of the blocks: none wraps. -/
theorem counters_toNat {length : ℕ} (h : length ≤ 255*hashSize) :
    (counters H prk info length).map UInt8.toNat = List.range' 1 (rounds length) := by
  have hrounds := rounds_le h
  rw [counters,expandLoop_start,List.map_map]
  conv_rhs => rw [← List.map_id (List.range' 1 (rounds length))]
  apply List.map_congr_left
  intro i hi
  have hle := (List.mem_range'_1.mp hi).2
  rw [Function.comp_apply,UInt8.toNat_ofNat',Nat.mod_eq_of_lt (by omega)]
  rfl

theorem expand_eq {length n : ℕ} (h : length ≤ 255*hashSize) (hn : length ≤ 32*n) :
    expand H prk info length = .ok ((blocks H prk info n).take length) := by
  have hlimit : ¬(255*hashSize : ℤ) < length := by omega
  have hrounds : rounds length ≤ n ∧ length ≤ 32*rounds length := by
    rw [rounds]
    omega
  rw [expand,if_neg hlimit]
  dsimp only
  rw [if_neg (by omega),expandLoop_start,Int.toNat_natCast,
    take_blocks H prk info hrounds.1 hrounds.2]

theorem expand_tooLong {length : ℤ} (h : 255*hashSize < length) :
    expand H prk info length = .error .outputTooLong := by
  rw [expand,if_pos h]

end

/-- The derivation is the one of the RFC. Any number of blocks that is long enough gives the same
bytes, so they are the beginning of the endless sequence. -/
theorem derive_eq_blocks (H : Hmac) (secret : Bytes) (salt : Option Bytes) (info : Bytes) :
    (∀ length n : ℕ, length ≤ 255*hashSize → length ≤ 32*n →
      derive H secret salt info length =
        .ok ((blocks H (pseudorandom H secret salt) info n).take length)) ∧
    (∀ length : ℕ, length ≤ 255*hashSize → rounds length ≤ 255 ∧
      (counters H (extract H secret salt) info length).map UInt8.toNat =
        List.range' 1 (rounds length)) ∧
    (∀ length : ℤ, 255*hashSize < length →
      derive H secret salt info length = .error .outputTooLong) ∧
    ∀ short long : ℕ, short ≤ long → long ≤ 255*hashSize → ∃ a b,
      derive H secret salt info short = .ok a ∧ derive H secret salt info long = .ok b ∧
        a <+: b := by
  refine ⟨fun length n h hn => expand_eq H _ info h hn,
    fun length h => ⟨rounds_le h,counters_toNat H _ info h⟩,
    fun length h => expand_tooLong H _ info h,fun short long h hlong => ?_⟩
  have hlimit : long ≤ 32*255 := hlong
  have hshort := expand_eq H (extract H secret salt) info (h.trans hlong) (h.trans hlimit)
  exact ⟨_,_,hshort,expand_eq H _ info hlong hlimit,List.take_prefix_take_left h⟩

/-- A keyed hash for the samples. -/
def sampleHmac : Hmac where
  tag key msg := (List.range hashSize).map fun i =>
    (key++msg).foldl (fun acc b => 31*acc+b) (UInt8.ofNat i)
  length_tag key msg := by rw [List.length_map,List.length_range]

theorem derive_eq_blocks_sample :
    derive sampleHmac [1,2,3] (some [9]) (text "info") 40 =
      .ok ((blocks sampleHmac (pseudorandom sampleHmac [1,2,3] (some [9]))
        (text "info") 2).take 40) ∧
    derive sampleHmac [1,2,3] none (text "info") 8161 = .error .outputTooLong ∧
    (counters sampleHmac (extract sampleHmac [1,2,3] none) (text "info") 70).map UInt8.toNat =
      [1,2,3] := by
  have hsalted := derive_eq_blocks sampleHmac [1,2,3] (some [9]) (text "info")
  have hplain := derive_eq_blocks sampleHmac [1,2,3] none (text "info")
  exact ⟨hsalted.1 40 2 (by decide) (by decide),hplain.2.2.1 8161 (by decide),
    (hplain.2.1 70 (by decide)).2⟩

/-! ### The two blocks of the sessions and of the handshake -/

/-- A hash input with the bytes of its secrets. -/
def input {κ : Type} (bytes : κ → Bytes) (l : List (Atom κ)) : Bytes :=
  l.flatMap fun
    | .byte b => [b]
    | .secret s => bytes s

/-- The secrets of a suite are byte strings, hashed by `H`. -/
structure Realization (H : Hmac) (S : Suite) where
  bytes : S.Secret → Bytes
  hmac : ∀ key data, bytes (S.hmac key data) = H.tag (input bytes key) (input bytes data)
  nonce : ∀ s, S.nonce s = (bytes s).take 12

/-- A suite in which the keyed hash is `H` and nothing else is of use. -/
def hashSuite (H : Hmac) : Suite where
  Priv := Unit
  Secret := Bytes
  SignKey := Unit
  publicKey _ := []
  ecdh _ _ := none
  hmac key data := H.tag (input id key) (input id data)
  nonce s := s.take 12
  gcmSeal _ _ _ _ := []
  gcmOpen _ _ _ _ := none
  cbcEncrypt _ _ := []
  cbcDecrypt _ _ := []
  signPublic _ := []
  sign _ _ := []
  verify _ _ _ := false

def hashSuite_realization (H : Hmac) : Realization H (hashSuite H) where
  bytes := id
  hmac _ _ := rfl
  nonce _ := rfl

section
variable {H : Hmac} {S : Suite} (R : Realization H S)

theorem input_append {κ : Type} (bytes : κ → Bytes) (l l' : List (Atom κ)) :
    input bytes (l++l') = input bytes l++input bytes l' := List.flatMap_append

theorem input_secret {κ : Type} (bytes : κ → Bytes) (s : κ) :
    input bytes [.secret s] = bytes s := List.append_nil _

theorem input_bytesOf (bytes : S.Secret → Bytes) (b : Bytes) : input bytes (bytesOf b) = b := by
  induction b with
  | nil => rfl
  | cons c b ih =>
      rw [bytesOf,List.map_cons,← List.singleton_append,input_append]
      exact congrArg (c::·) ih

theorem Realization.bytes_block (prk : S.Secret) (info : Bytes) (n : ℕ) :
    input R.bytes (hkdfBlock prk info n) = block H (R.bytes prk) info n := by
  induction n with
  | zero => rfl
  | succ n ih =>
      rw [hkdfBlock,input_secret,R.hmac,input_secret,input_append,input_append,ih,input_bytesOf]
      rfl

theorem Realization.bytes_first (prk : S.Secret) (info : Bytes) :
    R.bytes (hkdfFirst prk info) = block H (R.bytes prk) info 1 := by
  rw [← R.bytes_block,hkdfBlock_one,input_secret]

theorem Realization.bytes_second (prk : S.Secret) (info : Bytes) :
    R.bytes (hkdfSecond prk info) = block H (R.bytes prk) info 2 := by
  rw [← R.bytes_block,hkdfBlock_two,input_secret]

/-- Two blocks, as far as they are asked for. -/
theorem derive_two {secret : Bytes} {salt : Option Bytes} {info : Bytes} {prk : S.Secret}
    (hprk : R.bytes prk = pseudorandom H secret salt) {length : ℕ} (h : length ≤ 64) :
    derive H secret salt info length =
      .ok ((R.bytes (hkdfFirst prk info)++R.bytes (hkdfSecond prk info)).take length) := by
  have hlimit : length ≤ 255*hashSize := by
    rw [hashSize]
    omega
  have htwo : length ≤ 32*2 := h
  rw [derive,expand_eq H _ info hlimit htwo,R.bytes_first,R.bytes_second,hprk]
  rfl

theorem Realization.length_bytes_first (prk : S.Secret) (info : Bytes) :
    (R.bytes (hkdfFirst prk info)).length = 32 := by
  rw [R.bytes_first,length_block]

/-- The keys of a new session. -/
theorem x3dhDerive_bytes (ikm : List (Atom S.Secret)) (info : Bytes) :
    derive H (input R.bytes ikm) (some x3dhZero) info 64 =
      .ok (R.bytes (x3dhDerive ikm info).1++R.bytes (x3dhDerive ikm info).2) := by
  have hprk : R.bytes (S.hmac (bytesOf x3dhZero) ikm) =
      pseudorandom H (input R.bytes ikm) (some x3dhZero) := by
    rw [R.hmac,input_bytesOf]
    rfl
  rw [show (64 : ℤ) = (64 : ℕ) from rfl,derive_two R hprk le_rfl,List.take_of_length_le]
  · rfl
  · rw [List.length_append,R.length_bytes_first,R.bytes_second,length_block]

/-- The key and the nonce of a message. -/
theorem expandMessageKey_bytes (msgKey : S.Secret) :
    derive H (R.bytes msgKey) (some (text "batur-e2e-keys")) (text "msg") 44 =
      .ok (R.bytes (expandMessageKey msgKey).1++(expandMessageKey msgKey).2) := by
  have hprk : R.bytes (S.hmac (bytesOf (text "batur-e2e-keys")) [.secret msgKey]) =
      pseudorandom H (R.bytes msgKey) (some (text "batur-e2e-keys")) := by
    rw [R.hmac,input_bytesOf,input_secret]
    rfl
  rw [show (44 : ℤ) = (44 : ℕ) from rfl,derive_two R hprk (by decide),List.take_append,
    R.length_bytes_first,List.take_of_length_le,← R.nonce]
  · rfl
  · rw [R.length_bytes_first]
    decide

/-- The two keys that the handshake mixes in. -/
theorem keys_bytes (ck secret : List (Atom S.Secret)) (info : Bytes) :
    keys H (input R.bytes secret) (some (input R.bytes ck)) info 32 =
      .ok (R.bytes (hkdfFirst (S.hmac ck secret) info),
        R.bytes (hkdfSecond (S.hmac ck secret) info)) := by
  have hprk : R.bytes (S.hmac ck secret) =
      pseudorandom H (input R.bytes secret) (some (input R.bytes ck)) := R.hmac ck secret
  have hfirst := R.length_bytes_first (S.hmac ck secret) info
  have hsecond : (R.bytes (hkdfSecond (S.hmac ck secret) info)).length = 32 := by
    rw [R.bytes_second,length_block]
  rw [keys,show Int.bmod (2*32) (2^64) = (64 : ℕ) from rfl,derive_two R hprk le_rfl,
    List.take_of_length_le (by rw [List.length_append,hfirst,hsecond])]
  dsimp only
  rw [if_neg (by decide),show Int.toNat 32 = 32 from rfl,List.take_append_of_le_length hfirst.ge,
    List.take_of_length_le hfirst.le,← hfirst,List.drop_left]

end

end BaturWhatsApi.Hkdf
