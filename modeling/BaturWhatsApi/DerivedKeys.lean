import BaturWhatsApi.CipherSuite
import BaturWhatsApi.KeyChains

/-!
# The derived keys when the hash is free

With a hash that determines its inputs, the chain step is a chain of keys, the
chains of ratchet steps and of key agreements are told apart by their origins, and
each derivation determines what it was derived from.
-/
namespace BaturWhatsApi.DerivedKeys
open ByteStrings CipherSuite KeyChains

variable {S : Suite}

/-- A measure that grows with every hash. -/
abbrev Ranked (rank : S.Secret → ℕ) : Prop :=
  ∀ k d s, (Atom.secret s ∈ k ∨ Atom.secret s ∈ d) → rank s < rank (S.hmac k d)

theorem rank_lt_iterate {rank : S.Secret → ℕ} (hrank : Ranked rank) (c : S.Secret) (n : ℕ) :
    rank c < rank (nextChain^[n+1] c) := by
  induction n with
  | zero => exact hrank _ _ c (.inl List.mem_cons_self)
  | succ n ih =>
      rw [Function.iterate_succ_apply']
      exact ih.trans (hrank _ _ _ (.inl List.mem_cons_self))

/-- The two outputs of the chain step. -/
def chains (hF : S.Free) : Chains S.Secret where
  next := nextChain
  key := messageKey
  next_injective c d h := by simpa using (hF.hmac_inj h).1
  key_injective c d h := by simpa using (hF.hmac_inj h).1
  acyclic c n h := by
    obtain ⟨rank,hrank⟩ := hF.acyclic
    exact absurd (congrArg rank h) (ne_of_gt (rank_lt_iterate hrank c n))

section
variable (hF : S.Free)
include hF

/-- The chain of a ratchet step is no chain's successor. -/
theorem kdfRoot_origin (ρ δ : S.Secret) : (chains hF).Origin (kdfRoot ρ δ).2 := by
  intro c hc
  have := (hF.hmac_inj hc).2
  simp at this

/-- Neither is a hash whose data starts with a secret. -/
theorem secret_origin (k : List (Atom S.Secret)) (s : S.Secret) (l : List (Atom S.Secret)) :
    (chains hF).Origin (S.hmac k (.secret s::l)) := by
  intro c hc
  have := (hF.hmac_inj hc).2
  simp at this

theorem x3dhDerive_origin (ikm : List (Atom S.Secret)) (info : Bytes) :
    (chains hF).Origin (x3dhDerive ikm info).2 := secret_origin hF _ _ _

theorem kdfRoot_ne_x3dhDerive (ρ δ : S.Secret) (ikm : List (Atom S.Secret)) (info : Bytes) :
    (kdfRoot ρ δ).2 ≠ (x3dhDerive ikm info).2 := by
  intro h
  have := (hF.hmac_inj h).2
  simp at this

theorem expandMessageKey_injective {k k' : S.Secret}
    (h : (expandMessageKey k).1 = (expandMessageKey k').1) : k = k' := by
  have hprk := (hF.hmac_inj h).1
  simp only [List.cons.injEq,Atom.secret.injEq,and_true] at hprk
  simpa using (hF.hmac_inj hprk).2

/-- Equal root keys come from equal inputs. -/
theorem x3dhDerive_injective {l m : List (Atom S.Secret)} {info info' : Bytes}
    (h : (x3dhDerive l info).1 = (x3dhDerive m info').1) : l = m := by
  have hprk := (hF.hmac_inj h).1
  simp only [List.cons.injEq,Atom.secret.injEq,and_true] at hprk
  exact (hF.hmac_inj hprk).2

/-- So do equal chain keys. -/
theorem x3dhDerive_chain_injective {l m : List (Atom S.Secret)} {info info' : Bytes}
    (h : (x3dhDerive l info).2 = (x3dhDerive m info').2) : l = m := by
  have hprk := (hF.hmac_inj h).1
  simp only [List.cons.injEq,Atom.secret.injEq,and_true] at hprk
  exact (hF.hmac_inj hprk).2

end

end BaturWhatsApi.DerivedKeys
