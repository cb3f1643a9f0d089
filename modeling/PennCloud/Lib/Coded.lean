import Mathlib.Data.List.Basic

/-!
# Texts written letter by letter in a code

`Coded R s t` says that `t` is `s` with each letter written in one of the codes
that `R` allows for it. A letter may have several codes, so there are many texts
`t` for one `s`. A decoder that takes one code off the front of whatever text it
stands before decodes all of them, whatever comes behind: `Coded.decode`.
-/

namespace Lib

variable {α β γ : Type}

inductive Coded (R : α → List β → Prop) : List α → List β → Prop
  | nil : Coded R [] []
  | cons {c : α} {s : List α} {u t : List β} : R c u → Coded R s t → Coded R (c :: s) (u ++ t)

variable {R : α → List β → Prop}

/-- **A decoder that takes one code off the front decodes the whole text.** -/
theorem Coded.decode {D : List β → γ} {f : α → γ → γ}
    (hcode : ∀ c u, R c u → ∀ rest, D (u ++ rest) = f c (D rest)) {s : List α} {t : List β}
    (h : Coded R s t) (rest : List β) : D (t ++ rest) = s.foldr f (D rest) := by
  induction h with
  | nil => rfl
  | cons hc _ ih => rw [List.append_assoc, hcode _ _ hc, ih, List.foldr_cons]

theorem Coded.mono {R' : α → List β → Prop} (hcode : ∀ c u, R c u → R' c u) {s : List α}
    {t : List β} (h : Coded R s t) : Coded R' s t := by
  induction h with
  | nil => exact .nil
  | cons hc _ ih => exact .cons (hcode _ _ hc) ih

/-- Each letter written as itself. -/
theorem Coded.refl {R : α → List α → Prop} {s : List α} (h : ∀ c ∈ s, R c [c]) : Coded R s s := by
  induction s with
  | nil => exact .nil
  | cons c s ih =>
      obtain ⟨hc, hs⟩ := List.forall_mem_cons.mp h
      exact .cons hc (ih hs)

end Lib
