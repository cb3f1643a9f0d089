import Mathlib.Logic.Function.Basic

/-!
# Logs of key updates

A log is a list of assignments to the keys of a map, and `replay` makes them in
order. The value of a key afterwards is that of its last assignment, or the old
one if it has none: `replay_congr` and `replay_of_notMem`. So a log can be
replayed over a map that already has its effects, whole or from any point on.
-/

namespace Lib

variable {κ ν : Type} [DecidableEq κ]

/-- Make the assignments in order. -/
def replay : (κ → ν) → List (κ × ν) → κ → ν
  | m, [] => m
  | m, u :: us => replay (Function.update m u.1 u.2) us

@[simp] theorem replay_nil (m : κ → ν) : replay m [] = m := rfl

theorem replay_append (m : κ → ν) (us vs : List (κ × ν)) :
    replay m (us ++ vs) = replay (replay m us) vs := by
  induction us generalizing m with
  | nil => rfl
  | cons u us ih => exact ih _

/-- A key the log does not assign keeps its value. -/
theorem replay_of_notMem {us : List (κ × ν)} {k : κ} (hk : k ∉ us.map Prod.fst) (m : κ → ν) :
    replay m us k = m k := by
  induction us generalizing m with
  | nil => rfl
  | cons u us ih =>
      rw [List.map_cons, List.mem_cons, not_or] at hk
      rw [replay, ih hk.2, Function.update_of_ne hk.1]

/-- A key the log assigns forgets where the log was started from. -/
theorem replay_congr {us : List (κ × ν)} {k : κ} (hk : k ∈ us.map Prod.fst) (m m' : κ → ν) :
    replay m us k = replay m' us k := by
  induction us generalizing m m' with
  | nil => simp at hk
  | cons u us ih =>
      rw [replay, replay]
      by_cases hmem : k ∈ us.map Prod.fst
      · exact ih hmem _ _
      · have hku : k = u.1 := by simpa [hmem] using hk
        rw [replay_of_notMem hmem, replay_of_notMem hmem, hku, Function.update_self,
          Function.update_self]

/-- Only the assignments to a key matter to it. -/
theorem replay_filter (us : List (κ × ν)) (k : κ) (m : κ → ν) :
    replay m us k = replay m (us.filter (·.1 = k)) k := by
  induction us generalizing m with
  | nil => rfl
  | cons u us ih =>
      by_cases hu : u.1 = k
      · rw [List.filter_cons_of_pos (by simpa using hu), replay, replay, ih]
      · rw [List.filter_cons_of_neg (by simpa using hu), replay, ih]
        by_cases hmem : k ∈ (us.filter (·.1 = k)).map Prod.fst
        · exact replay_congr hmem _ _
        · rw [replay_of_notMem hmem, replay_of_notMem hmem, Function.update_of_ne (Ne.symm hu)]

/-- **A log may be replayed again**, from any point of it on. -/
theorem replay_again (m : κ → ν) (us vs : List (κ × ν)) :
    replay (replay m (us ++ vs)) vs = replay m (us ++ vs) := by
  funext k
  by_cases hk : k ∈ vs.map Prod.fst
  · rw [replay_append, replay_congr hk]
  · rw [replay_of_notMem hk]

/-- A log whose assignments to a key agree gives it that value. -/
theorem replay_of_agree {us : List (κ × ν)} {u : κ × ν} (hu : u ∈ us)
    (hagree : ∀ v ∈ us, v.1 = u.1 → v.2 = u.2) (m : κ → ν) : replay m us u.1 = u.2 := by
  induction us generalizing m with
  | nil => cases hu
  | cons v us ih =>
      rw [replay]
      by_cases hmem : u.1 ∈ us.map Prod.fst
      · obtain ⟨w, hw, hwu⟩ := List.mem_map.mp hmem
        have hwu' : w = u :=
          Prod.ext hwu (hagree w (List.mem_cons_of_mem _ hw) hwu)
        subst hwu'
        exact ih hw (fun v hv => hagree v (List.mem_cons_of_mem _ hv)) _
      · have huv : u = v := by
          rcases List.mem_cons.mp hu with h | h
          · exact h
          · exact absurd (List.mem_map_of_mem h) hmem
        rw [replay_of_notMem hmem, huv, Function.update_self]

end Lib
