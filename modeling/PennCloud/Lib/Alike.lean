import Mathlib.Init

/-!
# Computations that end alike

A fallible computation taken up in two related states ends `Alike` when it fails
in the same way in both, or returns related results. The relation goes through
`bind`, so a program has it from what the program calls.
-/

namespace Lib

variable {ε α β γ δ : Type} {R : α → β → Prop} {S : γ → δ → Prop}

/-- The same failure, or results in relation. -/
inductive Alike (R : α → β → Prop) : Except ε α → Except ε β → Prop
  | ok {a : α} {b : β} (h : R a b) : Alike R (.ok a) (.ok b)
  | error (e : ε) : Alike R (.error e) (.error e)

namespace Alike

theorem of_ok {x : Except ε α} {b : β} (h : Alike R x (.ok b)) : ∃ a, x = .ok a ∧ R a b := by
  cases h with
  | ok h => exact ⟨_, rfl, h⟩

theorem bind {x : Except ε α} {y : Except ε β} {f : α → Except ε γ} {g : β → Except ε δ}
    (h : Alike R x y) (hf : ∀ a b, R a b → Alike S (f a) (g b)) :
      Alike S (x.bind f) (y.bind g) := by
  cases h with
  | ok h => exact hf _ _ h
  | error e => exact .error e

/-- What does not depend on the state. -/
theorem bind_self (x : Except ε α) {f : α → Except ε γ} {g : α → Except ε δ}
    (hf : ∀ a, Alike S (f a) (g a)) : Alike S (x.bind f) (x.bind g) := by
  cases x with
  | ok a => exact hf a
  | error e => exact .error e

theorem map_self (x : Except ε α) {f : α → γ} {g : α → δ} (hf : ∀ a, S (f a) (g a)) :
    Alike S (x.map f) (x.map g) := by
  cases x with
  | ok a => exact .ok (hf a)
  | error e => exact .error e

end Alike

end Lib
