import Mathlib.Data.Nat.Basic
import Mathlib.Algebra.BigOperators.Group.List.Basic
import Mathlib.Algebra.GroupWithZero.Nat
import Mathlib.Order.Lattice

/-!
# Counters that are kept level

`Least xs i m` says that `m`, at position `i`, is the first of the smallest
entries of a list. A list of counters is `Level` when no two of them are more than
one apart; raising the least by one keeps it so (`Level.raise`), which is what
handing each new item to the least loaded place comes down to.
-/

namespace Lib

section Least

variable {α : Type} [LinearOrder α] {xs : List α} {i : Nat} {m : α}

/-- The first of the smallest entries. -/
structure Least (xs : List α) (i : Nat) (m : α) : Prop where
  entry : xs[i]? = some m
  le : ∀ z ∈ xs, m ≤ z
  first : ∀ j < i, ∀ z, xs[j]? = some z → m < z

theorem Least.lt_length (h : Least xs i m) : i < xs.length :=
  (List.getElem?_eq_some_iff.mp h.entry).1

theorem least_singleton (x : α) : Least [x] 0 x where
  entry := rfl
  le := fun _ hz => le_of_eq (List.mem_singleton.mp hz).symm
  first := fun _ hj => absurd hj (Nat.not_lt_zero _)

/-- A smaller entry behind the list takes over. -/
theorem Least.append_lt (h : Least xs i m) {x : α} (hx : x < m) :
    Least (xs ++ [x]) xs.length x where
  entry := List.getElem?_concat_length
  le := by
    intro z hz
    rcases List.mem_append.mp hz with hz | hz
    · exact le_of_lt (lt_of_lt_of_le hx (h.le z hz))
    · exact le_of_eq (List.mem_singleton.mp hz).symm
  first := by
    intro j hj z hz
    rw [List.getElem?_append_left hj] at hz
    exact lt_of_lt_of_le hx (h.le z (List.mem_of_getElem? hz))

/-- No other entry behind the list does. -/
theorem Least.append_le (h : Least xs i m) {x : α} (hx : ¬ x < m) : Least (xs ++ [x]) i m where
  entry := by
    rw [List.getElem?_append_left h.lt_length]
    exact h.entry
  le := by
    intro z hz
    rcases List.mem_append.mp hz with hz | hz
    · exact h.le z hz
    · rw [List.mem_singleton.mp hz]
      exact le_of_not_gt hx
  first := by
    intro j hj z hz
    rw [List.getElem?_append_left (Nat.lt_trans hj h.lt_length)] at hz
    exact h.first j hj z hz

end Least

/-! ## Counters -/

variable {xs : List Nat} {i m : Nat}

/-- No two entries are more than one apart. -/
def Level (xs : List Nat) : Prop := ∀ a ∈ xs, ∀ b ∈ xs, a ≤ b + 1

theorem level_replicate (n k : Nat) : Level (List.replicate n k) := by
  intro a ha b hb
  rw [List.eq_of_mem_replicate ha, List.eq_of_mem_replicate hb]
  exact Nat.le_succ k

/-- **Raising the least entry keeps the entries level.** -/
theorem Level.raise (h : Level xs) (hi : Least xs i m) : Level (xs.set i (m + 1)) := by
  have hm : m ∈ xs := List.mem_of_getElem? hi.entry
  intro a ha b hb
  rcases List.mem_or_eq_of_mem_set ha with ha | rfl
  · rcases List.mem_or_eq_of_mem_set hb with hb | rfl
    · exact h a ha b hb
    · have := h a ha m hm
      omega
  · rcases List.mem_or_eq_of_mem_set hb with hb | rfl
    · have := hi.le b hb
      omega
    · exact Nat.le_succ _

/-- An entry that is replaced changes the sum by what it changes itself. -/
theorem sum_replace {x : Nat} (y : Nat) (hx : xs[i]? = some x) :
    (xs.set i y).sum + x = xs.sum + y := by
  obtain ⟨hi, rfl⟩ := List.getElem?_eq_some_iff.mp hx
  have hsplit := List.sum_take_add_sum_drop xs i
  rw [List.drop_eq_getElem_cons hi, List.sum_cons] at hsplit
  rw [List.sum_set, if_pos hi]
  omega

end Lib
