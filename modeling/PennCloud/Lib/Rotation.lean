import Mathlib.Data.List.Rotate
import Mathlib.Data.List.Count

/-!
# Serving from the front of a rotating list

`fronts l n` is what a server of the front that puts it to the back delivers in
`n` turns. Any `l.length` turns in a row deliver the list, rotated by the turns
before (`window_fronts`), so an element comes in them as often as the list holds
it.
-/

namespace Lib

variable {α : Type}

/-- The fronts of `l`, each put to the back for the next one. -/
def fronts : List α → Nat → List α
  | [], _ => []
  | _ :: _, 0 => []
  | x :: l, n + 1 => x :: fronts (l ++ [x]) n
termination_by _ n => n

@[simp] theorem fronts_zero (l : List α) : fronts l 0 = [] := by
  cases l <;> rw [fronts]

theorem fronts_cons (x : α) (l : List α) (n : Nat) :
    fronts (x :: l) (n + 1) = x :: fronts (l ++ [x]) n := by rw [fronts]

theorem mem_of_mem_fronts {n : Nat} : ∀ {l : List α} {x : α}, x ∈ fronts l n → x ∈ l := by
  induction n with
  | zero =>
      intro l x h
      rw [fronts_zero] at h
      exact absurd h List.not_mem_nil
  | succ n ih =>
      intro l x h
      cases l with
      | nil =>
          rw [fronts] at h
          exact absurd h List.not_mem_nil
      | cons y l =>
          rw [fronts_cons] at h
          rcases List.mem_cons.mp h with rfl | h
          · exact List.mem_cons_self
          · rcases List.mem_append.mp (ih h) with h | h
            · exact List.mem_cons_of_mem _ h
            · rw [List.mem_singleton.mp h]
              exact List.mem_cons_self

theorem length_fronts {n : Nat} : ∀ {l : List α}, l ≠ [] → (fronts l n).length = n := by
  induction n with
  | zero =>
      intro l _
      rw [fronts_zero, List.length_nil]
  | succ n ih =>
      intro l hne
      obtain ⟨x, l, rfl⟩ := List.exists_cons_of_ne_nil hne
      rw [fronts_cons, List.length_cons, ih (List.concat_ne_nil x l)]

/-- The first turns leave the rotated list to the others. -/
theorem drop_fronts (k : Nat) : ∀ (l : List α) (n : Nat),
    (fronts l (k + n)).drop k = fronts (l.rotate k) n := by
  induction k with
  | zero =>
      intro l n
      rw [Nat.zero_add, List.drop_zero, List.rotate_zero]
  | succ k ih =>
      intro l n
      cases l with
      | nil => rw [List.rotate_nil, fronts, List.drop_nil, fronts]
      | cons x l =>
          rw [Nat.add_right_comm, fronts_cons, List.drop_succ_cons, ih, List.rotate_cons_succ]

/-- As many turns as a front part is long deliver that part. -/
theorem take_fronts (a : List α) : ∀ (b : List α) (n : Nat), a.length ≤ n →
    (fronts (a ++ b) n).take a.length = a := by
  induction a with
  | nil => exact fun b n _ => List.take_zero
  | cons x a ih =>
      intro b n h
      obtain ⟨m, rfl⟩ := Nat.exists_eq_add_of_le' (Nat.lt_of_lt_of_le (Nat.succ_pos _) h)
      rw [List.cons_append, fronts_cons, List.length_cons, List.take_succ_cons, List.append_assoc,
        ih _ m (Nat.le_of_succ_le_succ h)]

/-- **Any round of turns delivers the list**, rotated. -/
theorem window_fronts {l : List α} {k n : Nat} (h : k + l.length ≤ n) :
    ((fronts l n).drop k).take l.length = l.rotate k := by
  obtain ⟨m, rfl⟩ := Nat.exists_eq_add_of_le (Nat.le_of_add_right_le h)
  have hround := take_fronts (l.rotate k) [] m (by rw [List.length_rotate]; omega)
  rw [List.append_nil, List.length_rotate] at hround
  rw [drop_fronts, hround]

end Lib
