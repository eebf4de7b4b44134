import Mathlib.Logic.Function.Basic
import BaturWhatsApi.ByteStrings

/-!
# A ledger of texts

What becomes of a sequence of sends, without any key in it. Sessions are numbered as they begin.
The store has for every target a session and the number of its next message, and the server has
one session and the number of the message it waits for. A message is read if it begins a session,
or if it belongs to the session the server holds and is not behind.

A session belongs to one target, and the server is at most one message ahead of the store.
-/
namespace BaturWhatsApi.TextLedger
open ByteStrings

structure Ledger where
  sent : Bytes → Option (ℕ × ℕ)
  current : Option (ℕ × ℕ)
  begun : ℕ

def Ledger.empty : Ledger := ⟨fun _ => none,none,0⟩

/-- The session and the number of the next message to a target. -/
def Ledger.next (L : Ledger) (t : Bytes) : ℕ × ℕ := (L.sent t).getD (L.begun,0)

def Ledger.reads (L : Ledger) (t : Bytes) : Bool :=
  match L.sent t,L.current with
  | none,_ => true
  | some (s,c),some (s',n) => s = s' && n ≤ c
  | some _,none => false

def Ledger.step (L : Ledger) (t : Bytes) (arrives persisted : Bool) : Ledger where
  sent := if persisted then Function.update L.sent t (some ((L.next t).1,(L.next t).2+1))
    else L.sent
  current := if arrives && L.reads t then some ((L.next t).1,(L.next t).2+1) else L.current
  begun := if (L.sent t).isNone then L.begun+1 else L.begun

/-- A session belongs to one target, and the server is at most one message ahead of the store. -/
structure Ledger.Valid (L : Ledger) (calls : ℕ) : Prop where
  stored : ∀ {t s c}, L.sent t = some (s,c) → s < L.begun ∧ c ≤ calls
  current : ∀ {s n}, L.current = some (s,n) → s < L.begun
  own : ∀ {t t' s c c'}, L.sent t = some (s,c) → L.sent t' = some (s,c') → t = t'
  behind : ∀ {t s c n}, L.current = some (s,n) → L.sent t = some (s,c) → n ≤ c+1

namespace Ledger

variable {L : Ledger} {t t' : Bytes} {s c n calls : ℕ}

theorem valid_empty : Valid empty 0 where
  stored h := by cases h
  current h := by cases h
  own h := by cases h
  behind h := by cases h

theorem next_of_none (h : L.sent t = none) : L.next t = (L.begun,0) := by
  rw [next,h]
  rfl

theorem next_of_some (h : L.sent t = some (s,c)) : L.next t = (s,c) := by
  rw [next,h]
  rfl

theorem reads_of_none (h : L.sent t = none) : L.reads t = true := by
  rw [reads,h]

theorem reads_of_some (h : L.sent t = some (s,c)) :
    L.reads t = true ↔ ∃ n, L.current = some (s,n) ∧ n ≤ c := by
  rw [reads,h]
  cases hc : L.current with
  | none => simp
  | some x =>
      obtain ⟨s',n⟩ := x
      simp only [Bool.and_eq_true,decide_eq_true_eq,Option.some.injEq,Prod.mk.injEq]
      constructor
      · rintro ⟨rfl,hn⟩
        exact ⟨n,⟨rfl,rfl⟩,hn⟩
      · rintro ⟨_,⟨rfl,rfl⟩,hn⟩
        exact ⟨rfl,hn⟩

theorem next_lt (h : L.Valid calls) (arrives persisted : Bool) :
    (L.next t).1 < (L.step t arrives persisted).begun := by
  cases hs : L.sent t with
  | none => simp [next_of_none hs,step,hs]
  | some x =>
      simp only [next_of_some hs,step,hs]
      exact (h.stored hs).1

theorem begun_le (arrives persisted : Bool) : L.begun ≤ (L.step t arrives persisted).begun := by
  show L.begun ≤ if (L.sent t).isNone then L.begun+1 else L.begun
  split_ifs
  · exact Nat.le_succ _
  · exact Nat.le_refl _

/-- Where an entry of the store comes from. -/
theorem sent_step {arrives persisted : Bool}
    (h : (L.step t arrives persisted).sent t' = some (s,c)) :
    (persisted = true ∧ t' = t ∧ (s,c) = ((L.next t).1,(L.next t).2+1)) ∨
    (L.sent t' = some (s,c) ∧ (persisted = true → t' ≠ t)) := by
  rw [step] at h
  simp only at h
  split_ifs at h with hp
  · by_cases ht : t' = t
    · subst ht
      rw [Function.update_self,Option.some.injEq] at h
      exact .inl ⟨hp,rfl,h.symm⟩
    · rw [Function.update_of_ne ht] at h
      exact .inr ⟨h,fun _ => ht⟩
  · exact .inr ⟨h,fun h => absurd h hp⟩

theorem current_step {arrives persisted : Bool}
    (h : (L.step t arrives persisted).current = some (s,n)) :
    (arrives = true ∧ L.reads t = true ∧ (s,n) = ((L.next t).1,(L.next t).2+1)) ∨
    ((arrives && L.reads t) = false ∧ L.current = some (s,n)) := by
  rw [step] at h
  simp only at h
  split_ifs at h with ha
  · obtain ⟨ha,hr⟩ := Bool.and_eq_true_iff.mp ha
    exact .inl ⟨ha,hr,(Option.some.inj h).symm⟩
  · exact .inr ⟨by simpa using ha,h⟩

/-- The session of the next message is nobody else's. -/
theorem own_next (h : L.Valid calls) (ht : L.sent t' = some ((L.next t).1,c)) :
    t' = t ∧ L.next t = ((L.next t).1,c) := by
  cases hs : L.sent t with
  | none =>
      rw [next_of_none hs] at ht
      exact absurd (h.stored ht).1 (Nat.lt_irrefl _)
  | some x =>
      rw [next_of_some hs] at ht ⊢
      obtain rfl := h.own ht hs
      rw [hs,Option.some.injEq] at ht
      exact ⟨rfl,ht⟩

theorem next_le (h : L.Valid calls) (t : Bytes) : (L.next t).2 ≤ calls := by
  cases hs : L.sent t with
  | none =>
      rw [next_of_none hs]
      exact Nat.zero_le _
  | some x =>
      rw [next_of_some hs]
      exact (h.stored hs).2

theorem Valid.step (h : L.Valid calls) (t : Bytes) (arrives persisted : Bool) :
    (L.step t arrives persisted).Valid (calls+1) where
  stored hs := by
    rcases sent_step hs with ⟨_,_,he⟩ | ⟨hs,_⟩
    · obtain ⟨rfl,rfl⟩ := Prod.mk.inj he
      exact ⟨next_lt h arrives persisted,Nat.succ_le_succ (next_le h t)⟩
    · exact ⟨lt_of_lt_of_le (h.stored hs).1 (begun_le arrives persisted),
        Nat.le_succ_of_le (h.stored hs).2⟩
  current hc := by
    rcases current_step hc with ⟨_,_,he⟩ | ⟨_,hc⟩
    · obtain ⟨rfl,rfl⟩ := Prod.mk.inj he
      exact next_lt h arrives persisted
    · exact lt_of_lt_of_le (h.current hc) (begun_le arrives persisted)
  own h₁ h₂ := by
    rcases sent_step h₁ with ⟨_,ht,he⟩ | ⟨h₁,_⟩ <;> rcases sent_step h₂ with ⟨_,ht',he'⟩ | ⟨h₂,_⟩
    · exact ht.trans ht'.symm
    · obtain ⟨rfl,rfl⟩ := Prod.mk.inj he
      exact ht.trans (own_next h h₂).1.symm
    · obtain ⟨rfl,rfl⟩ := Prod.mk.inj he'
      exact (own_next h h₁).1.trans ht'.symm
    · exact h.own h₁ h₂
  behind hc hs := by
    rcases current_step hc with ⟨_,_,he⟩ | ⟨_,hc⟩ <;> rcases sent_step hs with ⟨_,_,he'⟩ | ⟨hs,_⟩
    · obtain ⟨rfl,rfl⟩ := Prod.mk.inj he
      have := (Prod.mk.inj he').2
      omega
    · obtain ⟨rfl,rfl⟩ := Prod.mk.inj he
      rw [(own_next h hs).2]
    · obtain ⟨rfl,rfl⟩ := Prod.mk.inj he'
      cases hn : L.sent t with
      | none =>
          rw [next_of_none hn] at hc
          exact absurd (h.current hc) (Nat.lt_irrefl _)
      | some x =>
          rw [next_of_some hn] at hc ⊢
          exact Nat.le_succ_of_le (h.behind hc hn)
    · exact h.behind hc hs

end Ledger

end BaturWhatsApi.TextLedger
