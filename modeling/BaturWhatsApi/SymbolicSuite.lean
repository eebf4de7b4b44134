import BaturWhatsApi.CipherSuite

/-!
# A symbolic suite

One instance of the primitives on which the model runs and for which every law
holds. Secrets are terms, the hash is a term constructor, private keys and
signing keys are named by a byte, and a ciphertext is the plaintext behind the
written-out key, nonce and associated data. A public key that belongs to no
private key is refused by the key agreement.
-/
namespace BaturWhatsApi.SymbolicSuite
open ByteStrings CipherSuite

inductive Term where
  | nil
  | byte (b : UInt8)
  | agreed (x y : UInt8)
  | pair (l r : Term)
deriving DecidableEq, Repr

def Term.size : Term → ℕ
  | .nil => 0
  | .byte _ => 0
  | .agreed _ _ => 0
  | .pair l r => l.size+r.size+1

/-- A hash input as one term. -/
def input : List (Atom Term) → Term
  | [] => .nil
  | .byte b::l => .pair (.byte b) (input l)
  | .secret s::l => .pair (.pair s .nil) (input l)

theorem input_injective {l m : List (Atom Term)} (h : input l = input m) : l = m := by
  induction l generalizing m with
  | nil =>
      cases m with
      | nil => rfl
      | cons a m => cases a <;> cases h
  | cons a l ih =>
      cases m with
      | nil => cases a <;> cases h
      | cons b m =>
          cases a <;> cases b <;> simp only [input,Term.pair.injEq,reduceCtorEq,false_and] at h
          · rw [Term.byte.inj h.1,ih h.2]
          · rw [h.1.1,ih h.2]

theorem size_input {s : Term} {l : List (Atom Term)} (h : .secret s ∈ l) :
    s.size < (input l).size := by
  induction l with
  | nil => cases h
  | cons a l ih =>
      rcases List.mem_cons.mp h with rfl | hl
      · simp only [input,Term.size]
        omega
      · have := ih hl
        cases a <;> simp only [input,Term.size] <;> omega

/-- A prefix code for terms. -/
def Term.code : Term → Bytes
  | .nil => [0]
  | .byte b => [1,b]
  | .agreed x y => [2,x,y]
  | .pair l r => 3::(l.code++r.code)

theorem Term.code_append {s t : Term} {u v : Bytes} (h : s.code++u = t.code++v) :
    s = t ∧ u = v := by
  induction s generalizing t u v with
  | nil =>
      cases t <;> simp [code] at h
      exact ⟨rfl,h⟩
  | byte b =>
      cases t <;> simp [code] at h
      exact ⟨by rw [h.1],h.2⟩
  | agreed x y =>
      cases t <;> simp [code] at h
      exact ⟨by rw [h.1,h.2.1],h.2.2⟩
  | pair l r ihl ihr =>
      cases t <;> simp [code] at h
      obtain ⟨rfl,hr⟩ := ihl h
      obtain ⟨rfl,hu⟩ := ihr hr
      exact ⟨rfl,hu⟩

/-- A prefix code for byte strings. -/
def quoted : Bytes → Bytes
  | [] => [0]
  | b::l => 1::b::quoted l

theorem quoted_append {a b u v : Bytes} (h : quoted a++u = quoted b++v) : a = b ∧ u = v := by
  induction a generalizing b with
  | nil =>
      cases b <;> simp [quoted] at h
      exact ⟨rfl,h⟩
  | cons x a ih =>
      cases b with
      | nil => simp [quoted] at h
      | cons y b =>
          simp only [quoted,List.cons_append,List.cons.injEq,true_and] at h
          obtain ⟨hab,huv⟩ := ih h.2
          exact ⟨by rw [h.1,hab],huv⟩

/-- Everything an opening has to match. -/
def stamp (k : Term) (n ad : Bytes) : Bytes := k.code++(quoted n++quoted ad)

theorem stamp_append {k k' : Term} {n n' ad ad' u v : Bytes}
    (h : stamp k n ad++u = stamp k' n' ad'++v) : k = k' ∧ n = n' ∧ ad = ad' ∧ u = v := by
  simp only [stamp,List.append_assoc] at h
  obtain ⟨hk,h⟩ := Term.code_append h
  obtain ⟨hn,h⟩ := quoted_append h
  obtain ⟨had,h⟩ := quoted_append h
  exact ⟨hk,hn,had,h⟩

def publicOf (k : UInt8) : Bytes := k::List.replicate 31 0

def agreement (a : UInt8) (peer : Bytes) : Option Term :=
  match peer with
  | [] => none
  | b::l => if l = List.replicate 31 0 then some (.agreed (min a b) (max a b)) else none

def opened (k : Term) (n c ad : Bytes) : Option Bytes :=
  if stamp k n ad <+: c then some (c.drop (stamp k n ad).length) else none

def verified (pub msg sig : Bytes) : Bool :=
  match sig with
  | [] => false
  | k::l => pub = publicOf k ∧ l = msg

def suite : Suite where
  Priv := UInt8
  Secret := Term
  SignKey := UInt8
  publicKey := publicOf
  ecdh := agreement
  hmac k d := .pair (input k) (input d)
  nonce s := s.code.take 12
  gcmSeal k n p ad := stamp k n ad++p
  gcmOpen := opened
  cbcEncrypt _ b := b
  cbcDecrypt _ b := b
  signPublic := publicOf
  sign k m := k::m
  verify := verified

theorem agreement_publicOf (a b : UInt8) :
    agreement a (publicOf b) = some (.agreed (min a b) (max a b)) := by
  simp [agreement,publicOf]

theorem agreement_comm (a b : UInt8) :
    agreement a (publicOf b) = agreement b (publicOf a) := by
  rw [agreement_publicOf,agreement_publicOf,min_comm,max_comm]

theorem agreement_injective {a b c : UInt8}
    (h : agreement a (publicOf b) = agreement a (publicOf c)) : b = c := by
  rw [agreement_publicOf,agreement_publicOf,Option.some.injEq,Term.agreed.injEq] at h
  rcases le_total a b with hb | hb <;> rcases le_total a c with hc | hc <;> simp_all

/-- A secret is agreed with one of its two names only. -/
theorem agreement_paired {a b x : UInt8} {peer : Bytes} {s : Term}
    (hab : agreement a (publicOf b) = some s) (hx : agreement x peer = some s) : x = a ∨ x = b := by
  rw [agreement_publicOf] at hab
  cases peer with
  | nil => cases hx
  | cons y l =>
      rw [agreement] at hx
      split_ifs at hx
      rw [← hab,Option.some.injEq,Term.agreed.injEq] at hx
      rcases le_total x y with hxy | hxy
      · rw [min_eq_left hxy] at hx
        exact hx.1 ▸ min_choice a b
      · rw [max_eq_left hxy] at hx
        exact hx.2 ▸ max_choice a b

theorem verified_cons {k j : UInt8} {m l : Bytes} (h : verified (publicOf k) m (j::l) = true) :
    k = j ∧ l = m := by
  simpa [verified,publicOf] using h

theorem opened_iff {k : Term} {n c ad p : Bytes} :
    opened k n c ad = some p ↔ c = stamp k n ad++p := by
  rw [opened]
  constructor
  · intro h
    split_ifs at h with hp
    obtain ⟨t,rfl⟩ := hp
    rw [List.drop_left,Option.some.injEq] at h
    rw [h]
  · rintro rfl
    rw [if_pos (List.prefix_append _ _),List.drop_left]

theorem suite_correct : suite.Correct where
  public_length _ := rfl
  ecdh_honest a b :=
    ⟨_,agreement_publicOf a b,(agreement_comm b a).trans (agreement_publicOf a b)⟩
  open_seal _ _ _ _ := opened_iff.mpr rfl
  cbc_length _ _ := rfl
  cbc_inverse _ _ _ := rfl
  verify_sign k m := by
    show verified (publicOf k) m (k::m) = true
    simp [verified]
  signPublic_length _ := rfl

theorem suite_free : suite.Free where
  hmac_inj h := by
    obtain ⟨hk,hd⟩ := Term.pair.inj h
    exact ⟨input_injective hk,input_injective hd⟩
  acyclic := by
    refine ⟨Term.size,fun k d s hs => ?_⟩
    show s.size < (input k).size+(input d).size+1
    rcases hs with hs | hs
    · have := size_input hs
      omega
    · have := size_input hs
      omega

theorem suite_ideal : suite.IdealSeal where
  opened h := opened_iff.mp h
  seal_key h := (stamp_append h).1

end BaturWhatsApi.SymbolicSuite
