import Mathlib.Data.Set.Basic
import BaturWhatsApi.SymbolicSuite

/-!
# What an intruder can compute

An intruder hashes and agrees as he likes, with the secrets, the private keys and the public
values that he has. A secret comes from nowhere else: it is one that he has, an agreement of one
of his keys with one of his values, or a hash of secrets that he can compute and of bytes, which
are all his. An agreed secret is no hash value, so a hash gives its inputs away to nobody who has
not computed it from them.

The public values are a set, and not all byte strings. On a curve every agreed secret is one of
any given private key with some value, which nobody finds without knowing the secret.
-/
namespace BaturWhatsApi.Intruder
open ByteStrings CipherSuite

variable {S : Suite}

/-- An agreed secret is no hash value. -/
def Apart (S : Suite) : Prop := ∀ k p s, S.ecdh k p = some s → ∀ a d, s ≠ S.hmac a d

/-- The private keys and the public values that somebody has. -/
structure Means (S : Suite) where
  keys : Set S.Priv
  points : Set Bytes

/-- No key that he has makes the agreement with a value that he has. -/
def Beyond (M : Means S) (δ : S.Secret) : Prop :=
  ∀ k ∈ M.keys, ∀ p ∈ M.points, S.ecdh k p ≠ some δ

/-- What can be computed from some secrets and by these means. -/
inductive Knows (secrets : Set S.Secret) (M : Means S) : S.Secret → Prop
  | held {s : S.Secret} (h : s ∈ secrets) : Knows secrets M s
  | agree {k : S.Priv} {p : Bytes} {s : S.Secret} (hk : k ∈ M.keys) (hp : p ∈ M.points)
      (h : S.ecdh k p = some s) : Knows secrets M s
  | hash {k d : List (Atom S.Secret)} (hk : ∀ s, .secret s ∈ k → Knows secrets M s)
      (hd : ∀ s, .secret s ∈ d → Knows secrets M s) : Knows secrets M (S.hmac k d)

theorem Knows.inv {secrets : Set S.Secret} {M : Means S} {s : S.Secret} (h : Knows secrets M s) :
    s ∈ secrets ∨ (∃ k ∈ M.keys, ∃ p ∈ M.points, S.ecdh k p = some s) ∨
    ∃ k d, s = S.hmac k d ∧ (∀ x, .secret x ∈ k → Knows secrets M x) ∧
      ∀ x, .secret x ∈ d → Knows secrets M x := by
  cases h with
  | held h => exact .inl h
  | agree hk hp h => exact .inr (.inl ⟨_,hk,_,hp,h⟩)
  | hash hk hd => exact .inr (.inr ⟨_,_,rfl,hk,hd⟩)

/-- An agreement that is beyond his means stays unknown, when nobody has given it to him. -/
theorem Beyond.not_knows (hA : Apart S) {secrets : Set S.Secret} {M : Means S} {k : S.Priv}
    {p : Bytes} {δ : S.Secret} (h : Beyond M δ) (hδ : S.ecdh k p = some δ) (hnot : δ ∉ secrets) :
    ¬Knows secrets M δ := by
  intro hknown
  rcases hknown.inv with hheld | ⟨x,hx,q,hq,hagree⟩ | ⟨a,d,rfl,_⟩
  · exact hnot hheld
  · exact h x hx q hq hagree
  · exact hA k p _ hδ a d rfl

theorem bytesOf_ne_secret (b : Bytes) (y : S.Secret) : bytesOf b ≠ [.secret y] := by
  cases b <;> simp [bytesOf]

/-! The symbolic suite. -/

theorem agreement_agreed {a : UInt8} {peer : Bytes} {s : SymbolicSuite.Term}
    (h : SymbolicSuite.agreement a peer = some s) : ∃ x y, s = .agreed x y := by
  cases peer with
  | nil => cases h
  | cons b l =>
      rw [SymbolicSuite.agreement] at h
      split_ifs at h
      exact ⟨_,_,(Option.some.inj h).symm⟩

theorem symbolic_apart : Apart SymbolicSuite.suite := by
  intro k p s hs a d h
  obtain ⟨x,y,rfl⟩ := agreement_agreed hs
  cases h

end BaturWhatsApi.Intruder
