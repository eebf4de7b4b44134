import BaturWhatsApi.ByteStrings

/-!
# The X25519 function

A scalar is clamped and then multiplied with a point of the curve, given by its first
coordinate, by the Montgomery ladder modulo `2^255-19`.
-/
namespace BaturWhatsApi.X25519
open ByteStrings

def p : ℕ := 2^255-19

def littleEndian (bs : Bytes) : ℕ := bs.foldr (fun b v => b.toNat+256*v) 0

def toBytes (v : ℕ) : Bytes := (List.range 32).map fun i => UInt8.ofNat (v >>> (8*i))

/-- The three low bits and the top bit are cleared, the bit below the top one is set. -/
def clamp (scalar : Bytes) : Bytes :=
  (scalar.modify 0 (· &&& 248)).modify 31 fun b => b &&& 127 ||| 64

/-- Bits from 254 down to zero. -/
def bits (v : ℕ) : List Bool := ((List.range 255).map v.testBit).reverse

def sub (x y : ℕ) : ℕ := (x+(p-y%p))%p

def pow (x e : ℕ) : ℕ :=
  (bits e).foldl (fun acc bit => if bit then acc*acc*x%p else acc*acc%p) 1

structure Ladder where
  x₂ : ℕ
  z₂ : ℕ
  x₃ : ℕ
  z₃ : ℕ

def Ladder.swap (l : Ladder) (bit : Bool) : Ladder :=
  if bit then ⟨l.x₃,l.z₃,l.x₂,l.z₂⟩ else l

/-- One doubling and one differential addition. -/
def Ladder.double (x₁ : ℕ) (l : Ladder) : Ladder :=
  let a := (l.x₂+l.z₂)%p
  let aa := a*a%p
  let b := sub l.x₂ l.z₂
  let bb := b*b%p
  let e := sub aa bb
  let da := sub l.x₃ l.z₃*a%p
  let cb := (l.x₃+l.z₃)*b%p
  { x₂ := aa*bb%p
    z₂ := e*((aa+121665*e)%p)%p
    x₃ := (da+cb)*(da+cb)%p
    z₃ := x₁*(sub da cb*sub da cb%p)%p }

def Ladder.step (x₁ : ℕ) (l : Ladder) (bit : Bool) : Ladder :=
  ((l.swap bit).double x₁).swap bit

def scalarMult (scalar : Bytes) (x₁ : ℕ) : Bytes :=
  let l := (bits (littleEndian (clamp scalar))).foldl (Ladder.step x₁) ⟨1,0,x₁,1⟩
  toBytes (l.x₂*pow l.z₂ (p-2)%p)

/-- A private key has thirty-two bytes; its public key is its multiple of the base point. -/
def publicKey (seed : Bytes) : Option Bytes :=
  if seed.length = 32 then some (scalarMult seed 9) else none

theorem publicKey_eq_of_clamp {seed seed' : Bytes} (hlen : seed.length = seed'.length)
    (h : clamp seed = clamp seed') : publicKey seed = publicKey seed' := by
  simp only [publicKey,scalarMult,hlen,h]

theorem length_of_publicKey {seed pub : Bytes} (h : publicKey seed = some pub) :
    seed.length = 32 := by
  by_contra hlen
  simp only [publicKey,if_neg hlen] at h
  cases h

end BaturWhatsApi.X25519
