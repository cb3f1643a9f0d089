import PennCloud.Lib.Search

/-!
# Marks of two letters

Where a mark `[x, y]` occurs in a text that is put together from parts: within a
part, or across the seam of two. A text that has the mark can be split at the
first one, and at the last.
-/

namespace Lib

variable {α : Type} {x y : α}

theorem pair_infix_cons {z : α} {l : List α} :
    [x, y] <:+: z :: l ↔ z = x ∧ l.head? = some y ∨ [x, y] <:+: l := by
  rw [List.infix_cons_iff, List.cons_prefix_cons]
  refine or_congr_left (and_congr eq_comm ?_)
  cases l with
  | nil => simp
  | cons w l => simp [List.cons_prefix_cons, eq_comm]

/-- **A mark is in one of the parts, or across the seam.** -/
theorem pair_infix_append {p q : List α} : [x, y] <:+: p ++ q ↔
    [x, y] <:+: p ∨ [x, y] <:+: q ∨ p.getLast? = some x ∧ q.head? = some y := by
  induction p with
  | nil => simp
  | cons z p ih =>
      rw [List.cons_append, pair_infix_cons, pair_infix_cons, ih]
      cases p with
      | nil => simp [or_comm]
      | cons w p =>
          rw [List.cons_append, List.head?_cons, List.head?_cons, List.getLast?_cons_cons]
          tauto

theorem pair_infix_nil : ¬ [x, y] <:+: ([] : List α) := by simp

theorem not_pair_of_notMem {l : List α} (h : x ∉ l) : ¬ [x, y] <:+: l := fun hin =>
  h (hin.subset List.mem_cons_self)

/-- A split at the last mark. -/
theorem pair_last {l : List α} (h : [x, y] <:+: l) :
    ∃ p q, l = p ++ [x, y] ++ q ∧ ¬ [x, y] <:+: q := by
  induction l with
  | nil => exact absurd h pair_infix_nil
  | cons z l ih =>
      by_cases hl : [x, y] <:+: l
      · obtain ⟨p, q, rfl, hq⟩ := ih hl
        exact ⟨z :: p, q, rfl, hq⟩
      · obtain ⟨rfl, hhead⟩ := (pair_infix_cons.mp h).resolve_right hl
        cases l with
        | nil => cases hhead
        | cons w l =>
            cases hhead
            exact ⟨[], l, rfl, fun hin => hl (hin.trans (List.suffix_cons ..).isInfix)⟩

/-- A split at the first mark. -/
theorem pair_first [DecidableEq α] {l : List α} (h : [x, y] <:+: l) :
    ∃ p q, l = p ++ [x, y] ++ q ∧ ¬ [x, y] <:+: p := by
  obtain ⟨i, hi⟩ := firstIdx_isSome h
  obtain ⟨p, q, rfl, rfl⟩ := firstIdx_split hi
  refine ⟨p, q, rfl, ?_⟩
  have hno := not_infix_take hi (by simp)
  rwa [List.append_assoc, List.take_left] at hno

end Lib
