import Mathlib.Data.List.Basic

/-!
# Index loops with checked reads

A hand-written scanner steps an index over a text and stops at a letter it expects
to find. `gather` is that loop with every read checked: its answer is what it went
over and where it stopped, and there is none if it came to an index outside the
text. The lemmas are about a cursor that stands behind some text `pre`: the loop
finds what is there and runs out of the text if it is not, so that such a loop is
within bounds exactly if the letter is there.
-/

namespace Lib

variable {α : Type}

/-- `while (!stop(s[i])) res.push_back(s[i++])`. -/
def gather (stop : α → Bool) (s : List α) (i : Nat) : Option (List α × Nat) :=
  match h : s[i]? with
  | none => none
  | some c =>
    if stop c then some ([], i) else (gather stop s (i + 1)).map fun r => (c :: r.1, r.2)
termination_by s.length - i
decreasing_by
  obtain ⟨hlt, -⟩ := List.getElem?_eq_some_iff.mp h
  omega

/-- `while (!stop(s[i])) i++`, the same loop with nothing kept. -/
def scanTo (stop : α → Bool) (s : List α) (i : Nat) : Option Nat := (gather stop s i).map Prod.snd

/-- No letter of a text is one that is not in it. -/
theorem beq_notMem [DecidableEq α] {c : α} {a : List α} (ha : c ∉ a) : ∀ x ∈ a, (x == c) = false :=
  fun _ hx => beq_false_of_ne fun he => ha (he ▸ hx)

variable {stop : α → Bool}

theorem gather_end (pre : List α) : gather stop pre pre.length = none := by
  have hend : pre[pre.length]? = none := List.getElem?_eq_none (Nat.le_refl _)
  rw [gather]
  split
  · rfl
  · rename_i h
    rw [hend] at h
    cases h

theorem gather_cons (pre : List α) (c : α) (b : List α) :
    gather stop (pre ++ c :: b) pre.length
      = if stop c then some ([], pre.length)
        else (gather stop (pre ++ [c] ++ b) (pre ++ [c]).length).map fun r => (c :: r.1, r.2) := by
  have hread : (pre ++ c :: b)[pre.length]? = some c := by simp
  rw [gather, ← List.append_cons, List.length_append, List.length_singleton]
  split
  · rename_i h
    rw [hread] at h
    cases h
  · rename_i d h
    rw [hread] at h
    obtain rfl := Option.some.inj h
    rfl

/-- The loop keeps the letters in front of the one it looks for. -/
theorem gather_found (pre : List α) {a : List α} {c : α} (b : List α) (ha : ∀ x ∈ a, stop x = false)
    (hc : stop c = true) :
    gather stop (pre ++ (a ++ c :: b)) pre.length = some (a, (pre ++ a).length) := by
  induction a generalizing pre with
  | nil => rw [List.nil_append, gather_cons, if_pos hc, List.append_nil]
  | cons x a ih =>
      obtain ⟨hx, ha⟩ := List.forall_mem_cons.mp ha
      rw [List.cons_append, gather_cons, hx, if_neg Bool.false_ne_true, ih _ ha, ← List.append_cons]
      rfl

/-- Without that letter it runs out of the text. -/
theorem gather_none (pre : List α) {a : List α} (ha : ∀ x ∈ a, stop x = false) :
    gather stop (pre ++ a) pre.length = none := by
  induction a generalizing pre with
  | nil => rw [List.append_nil, gather_end]
  | cons x a ih =>
      obtain ⟨hx, ha⟩ := List.forall_mem_cons.mp ha
      rw [gather_cons, hx, if_neg Bool.false_ne_true, ih _ ha]
      rfl

theorem scanTo_found (pre : List α) {a : List α} {c : α} (b : List α) (ha : ∀ x ∈ a, stop x = false)
    (hc : stop c = true) : scanTo stop (pre ++ (a ++ c :: b)) pre.length
      = some (pre ++ a).length := by
  rw [scanTo, gather_found pre b ha hc]
  rfl

theorem scanTo_none (pre : List α) {a : List α} (ha : ∀ x ∈ a, stop x = false) :
    scanTo stop (pre ++ a) pre.length = none := by
  rw [scanTo, gather_none pre ha]
  rfl

end Lib
