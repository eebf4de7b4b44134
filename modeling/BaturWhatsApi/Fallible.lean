import Mathlib.Data.Option.Basic

/-!
# Computations that can fail

When a computation that is put together from others succeeds, and with what.
-/
namespace BaturWhatsApi.Fallible

variable {ε ε' α β : Type}

theorem bind_eq_ok {x : Except ε α} {f : α → Except ε β} {b : β} :
    x >>= f = .ok b ↔ ∃ a, x = .ok a ∧ f a = .ok b := by
  constructor
  · intro h
    cases x with
    | error e => cases h
    | ok a => exact ⟨a,rfl,h⟩
  · intro ⟨a,hx,h⟩
    rw [hx]
    exact h

theorem pure_eq_ok {a b : α} : (pure a : Except ε α) = .ok b ↔ a = b :=
  ⟨fun h => Except.ok.inj h,fun h => congrArg _ h⟩

theorem map_eq_ok {x : Except ε α} {f : α → β} {b : β} :
    x.map f = .ok b ↔ ∃ a, x = .ok a ∧ f a = b := by
  cases x with
  | error e => simp [Except.map]
  | ok a => simp [Except.map]

theorem mapError_eq_ok {x : Except ε α} {f : ε → ε'} {a : α} :
    x.mapError f = .ok a ↔ x = .ok a := by
  cases x with
  | error e => simp [Except.mapError]
  | ok a => simp [Except.mapError]

theorem elim_eq_ok {o : Option α} {e : ε} {a : α} :
    o.elim (.error e) .ok = Except.ok a ↔ o = some a := by
  cases o with
  | none => simp
  | some b => simp

end BaturWhatsApi.Fallible
