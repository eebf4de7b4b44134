import BaturWhatsApi.NoiseCipher
import BaturWhatsApi.SeparatedRecords

/-!
# A suite of written-out secrets

Another instance of the primitives for which every law holds, with short secrets. A secret is the
byte string that it was computed from, with its parts behind their lengths, so the hash of a long
conversation is not much longer than the conversation. The first byte of a secret says whether it
is an agreement, a keyed hash or a digest.
-/
namespace BaturWhatsApi.TranscriptSuite
open ByteStrings CipherSuite NoiseCipher SeparatedRecords

/-! ### Strings behind their lengths -/

/-- One more, in digits below 255 with the lowest first. -/
def inc : Bytes → Bytes
  | [] => [1]
  | d::ds => if d < 254 then (d+1)::ds else 0::inc ds

def tally : Bytes → Bytes
  | [] => []
  | _::l => inc (tally l)

def value : Bytes → ℕ
  | [] => 0
  | d::ds => d.toNat+255*value ds

/-- A string with its length before it. -/
def counted (s : Bytes) : Bytes := tally s++255::s

theorem value_inc {ds : Bytes} (h : (255 : UInt8) ∉ ds) :
    value (inc ds) = value ds+1 ∧ (255 : UInt8) ∉ inc ds := by
  induction ds with
  | nil => decide
  | cons d ds ih =>
      obtain ⟨hd,hds⟩ := not_or.mp fun hmem => h (List.mem_cons.mpr hmem)
      rw [inc]
      split_ifs with hlt
      · have hnat : d.toNat < 254 := hlt
        have hone : (d+1).toNat = d.toNat+1 := by
          rw [UInt8.toNat_add]
          exact Nat.mod_eq_of_lt (by simp; omega)
        refine ⟨by rw [value,value,hone]; omega,?_⟩
        refine List.not_mem_cons_of_ne_of_not_mem (fun he => ?_) hds
        have := congrArg UInt8.toNat he
        rw [hone] at this
        simp at this
        omega
      · have hnat : d.toNat = 254 := by
          have hle : 254 ≤ d.toNat := UInt8.not_lt.mp hlt
          have hne : d.toNat ≠ 255 := fun he => hd (UInt8.toNat_inj.mp he.symm)
          have := d.toNat_lt
          omega
        obtain ⟨hvalue,hnot⟩ := ih hds
        refine ⟨?_,List.not_mem_cons_of_ne_of_not_mem (by decide) hnot⟩
        rw [value,value,hvalue,hnat]
        simp
        omega

theorem value_tally (s : Bytes) : value (tally s) = s.length ∧ (255 : UInt8) ∉ tally s := by
  induction s with
  | nil => exact ⟨rfl,List.not_mem_nil⟩
  | cons b s ih =>
      obtain ⟨hvalue,hnot⟩ := value_inc ih.2
      exact ⟨by rw [tally,hvalue,ih.1,List.length_cons],hnot⟩

theorem counted_append {s t u v : Bytes} (h : counted s++u = counted t++v) : s = t ∧ u = v := by
  simp only [counted,List.append_assoc,List.cons_append] at h
  have hcut := cut_append (value_tally s).2 (s++u)
  rw [h,cut_append (value_tally t).2 (t++v)] at hcut
  obtain ⟨htally,hrest⟩ := Prod.mk.inj (Option.some.inj hcut)
  have hlen : s.length = t.length := by
    rw [← (value_tally s).1,← (value_tally t).1,htally]
  exact List.append_inj hrest.symm hlen

/-! ### The suite -/

/-- A byte stands for itself, except the one that marks a secret. -/
def written : List (Atom Bytes) → Bytes
  | [] => []
  | .byte b::l => if b = 255 then 255::0::written l else b::written l
  | .secret s::l => 255::1::(counted s++written l)

theorem written_injective {l m : List (Atom Bytes)} (h : written l = written m) : l = m := by
  induction l generalizing m with
  | nil =>
      rcases m with _ | ⟨_ | _,m⟩ <;> simp only [written] at h
      · rfl
      · split_ifs at h
      · cases h
  | cons a l ih =>
      rcases a with b | s <;> rcases m with _ | ⟨b' | s',m⟩ <;> simp only [written] at h
      · split_ifs at h
      · split_ifs at h with hb hb' hb'
        · rw [hb,hb',ih (List.cons.inj (List.cons.inj h).2).2]
        · exact absurd (List.cons.inj h).1.symm hb'
        · exact absurd (List.cons.inj h).1 hb
        · rw [(List.cons.inj h).1,ih (List.cons.inj h).2]
      · split_ifs at h with hb
        · exact absurd (List.cons.inj (List.cons.inj h).2).1 (by decide)
        · exact absurd (List.cons.inj h).1 hb
      · cases h
      · split_ifs at h with hb
        · exact absurd (List.cons.inj (List.cons.inj h).2).1 (by decide)
        · exact absurd (List.cons.inj h).1.symm hb
      · obtain ⟨rfl,hl⟩ := counted_append (List.cons.inj (List.cons.inj h).2).2
        rw [ih hl]

/-- A ciphertext has everything that it was made from. -/
def boxed (k n ad p : Bytes) : Bytes := counted k++(counted n++(counted ad++p))

def unboxed (k n ad c : Bytes) : Option Bytes :=
  if boxed k n ad [] <+: c then some (c.drop (boxed k n ad []).length) else none

theorem boxed_eq_append (k n ad p : Bytes) : boxed k n ad p = boxed k n ad []++p := by
  simp only [boxed,List.append_nil,List.append_assoc]

theorem unboxed_boxed (k n ad p : Bytes) : unboxed k n ad (boxed k n ad p) = some p := by
  rw [unboxed,boxed_eq_append k n ad p,if_pos (List.prefix_append _ _),List.drop_left]

theorem boxed_injective {k n ad p k' n' ad' p' : Bytes} (h : boxed k n ad p = boxed k' n' ad' p') :
    k = k' ∧ n = n' ∧ ad = ad' ∧ p = p' := by
  obtain ⟨hk,h⟩ := counted_append h
  obtain ⟨hn,h⟩ := counted_append h
  obtain ⟨had,h⟩ := counted_append h
  exact ⟨hk,hn,had,h⟩

theorem unboxed_iff {k n ad c p : Bytes} : unboxed k n ad c = some p ↔ c = boxed k n ad p := by
  constructor
  · intro h
    rw [unboxed] at h
    split_ifs at h with hp
    obtain ⟨t,rfl⟩ := hp
    rw [List.drop_left,Option.some.injEq] at h
    rw [h,boxed_eq_append k n ad p]
  · rintro rfl
    exact unboxed_boxed k n ad p

def suite : NoiseSuite where
  Priv := UInt8
  Secret := Bytes
  SignKey := UInt8
  publicKey := SymbolicSuite.publicOf
  ecdh a peer := (SymbolicSuite.agreement a peer).map SymbolicSuite.Term.code
  hmac k d := 3::(counted (written k)++written d)
  nonce s := s.take 12
  gcmSeal k n p ad := boxed k n ad p
  gcmOpen k n c ad := unboxed k n ad c
  cbcEncrypt _ b := b
  cbcDecrypt _ b := b
  signPublic := SymbolicSuite.publicOf
  sign k m := k::m
  verify := SymbolicSuite.verified
  sha256 l := 4::written l
  aeadSeal k n p ad := boxed (written k) n (written ad) p
  aeadOpen k n c ad := unboxed (written k) n (written ad) c

theorem suite_correct : suite.Correct where
  public_length _ := rfl
  ecdh_honest a b := by
    refine ⟨_,congrArg (Option.map _) (SymbolicSuite.agreement_publicOf a b),?_⟩
    exact congrArg (Option.map _)
      ((SymbolicSuite.agreement_comm b a).trans (SymbolicSuite.agreement_publicOf a b))
  open_seal _ _ _ _ := unboxed_boxed _ _ _ _

theorem suite_ideal : suite.Ideal where
  sha256_inj h := written_injective (List.cons.inj h).2
  hmac_inj h := by
    obtain ⟨hk,hd⟩ := counted_append (List.cons.inj h).2
    exact ⟨written_injective hk,written_injective hd⟩
  opened h := by
    obtain ⟨hk,hn,had,hp⟩ := boxed_injective (unboxed_iff.mp h)
    exact ⟨(written_injective hk).symm,hn.symm,(written_injective had).symm,hp.symm⟩

theorem sealed_length (k n p ad) : 0 < (suite.aeadSeal k n p ad).length := by
  show 0 < (boxed _ _ _ _).length
  simp only [boxed,counted,List.length_append,List.length_cons]
  omega

/-- An agreement names its two keys. -/
theorem ecdh_agreed {a : UInt8} {peer s : Bytes} (h : suite.ecdh a peer = some s) :
    ∃ t, SymbolicSuite.agreement a peer = some t ∧ s = t.code :=
  (Option.map_eq_some_iff.mp h).imp fun _ ht => ⟨ht.1,ht.2.symm⟩

end BaturWhatsApi.TranscriptSuite
