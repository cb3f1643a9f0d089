import Mathlib.Data.List.Basic

/-!
# Reading until a test answers

A reader appends what each `read` brings to what it has, and asks a test of all of
it whether it is done. The first answer ends the reading. What it has then is a
front of the text: the first reads of a cut, put together.
-/

namespace Lib

variable {α ρ : Type} {test : List α → Option ρ} {acc : List α} {reads : List (List α)} {x : ρ}

/-- Append a read and test; `none` when the reads run out. -/
def readUntil (test : List α → Option ρ) : List α → List (List α) → Option ρ
  | _, [] => none
  | acc, r :: reads =>
    match test (acc ++ r) with
    | some x => some x
    | none => readUntil test (acc ++ r) reads

/-- **What is read is the first answer.** -/
theorem readUntil_eq_some : readUntil test acc reads = some x ↔
    ∃ n, 0 < n ∧ n ≤ reads.length ∧ test (acc ++ (reads.take n).flatten) = some x ∧
      ∀ k, 0 < k → k < n → test (acc ++ (reads.take k).flatten) = none := by
  induction reads generalizing acc with
  | nil =>
      refine iff_of_false (fun h => by cases h) ?_
      rintro ⟨n, hpos, hle, -⟩
      exact absurd hpos (Nat.not_lt.mpr hle)
  | cons r reads ih =>
      have hone : acc ++ ((r :: reads).take 1).flatten = acc ++ r := by simp
      rw [readUntil]
      cases htest : test (acc ++ r) with
      | some y =>
          constructor
          · rintro ⟨⟩
            exact ⟨1, Nat.one_pos, by simp, hone ▸ htest, fun k hk hlt => by omega⟩
          · rintro ⟨n, hpos, -, hx, hquiet⟩
            rcases Nat.lt_or_eq_of_le hpos with hlt | rfl
            · have hnone := hquiet 1 Nat.one_pos hlt
              rw [hone, htest] at hnone
              cases hnone
            · rw [hone, htest] at hx
              exact hx
      | none =>
          have hstep : ∀ n, acc ++ ((r :: reads).take (n + 1)).flatten
              = acc ++ r ++ (reads.take n).flatten := fun n => by simp
          simp only [ih]
          constructor
          · rintro ⟨n, hpos, hle, hx, hquiet⟩
            refine ⟨n + 1, Nat.succ_pos n, Nat.succ_le_succ hle, (hstep n).symm ▸ hx,
              fun k hk hlt => ?_⟩
            obtain ⟨j, rfl⟩ := Nat.exists_eq_succ_of_ne_zero (Nat.ne_of_gt hk)
            rcases Nat.eq_zero_or_pos j with rfl | hj
            · exact hone ▸ htest
            · exact (hstep j).symm ▸ hquiet j hj (Nat.lt_of_succ_lt_succ hlt)
          · rintro ⟨n, hpos, hle, hx, hquiet⟩
            obtain ⟨m, rfl⟩ := Nat.exists_eq_succ_of_ne_zero (Nat.ne_of_gt hpos)
            have hm : 0 < m := by
              refine Nat.pos_of_ne_zero fun hzero => ?_
              subst hzero
              rw [hone, htest] at hx
              cases hx
            refine ⟨m, hm, Nat.le_of_succ_le_succ hle, hstep m ▸ hx, fun k hk hlt => ?_⟩
            exact hstep k ▸ hquiet (k + 1) (Nat.succ_pos k) (Nat.succ_lt_succ hlt)

/-- Where no front before the whole is answered, the whole is. -/
theorem readUntil_whole (hne : reads ≠ [])
    (hquiet : ∀ k, 0 < k → k < reads.length → test (acc ++ (reads.take k).flatten) = none) :
    readUntil test acc reads = test (acc ++ reads.flatten) := by
  have hpos : 0 < reads.length := List.length_pos_iff.mpr hne
  cases hx : test (acc ++ reads.flatten) with
  | some x =>
      exact readUntil_eq_some.mpr ⟨_, hpos, Nat.le_refl _, by rwa [List.take_length], hquiet⟩
  | none =>
      rw [Option.eq_none_iff_forall_ne_some]
      intro x h
      obtain ⟨n, hn, hle, htest, -⟩ := readUntil_eq_some.mp h
      rcases Nat.lt_or_eq_of_le hle with hlt | rfl
      · rw [hquiet n hn hlt] at htest
        cases htest
      · rw [List.take_length, hx] at htest
        cases htest

/-- A reading with an answer at its end ends somewhere. -/
theorem readUntil_isSome (hne : reads ≠ []) {y : ρ} (h : test (acc ++ reads.flatten) = some y) :
    ∃ x, readUntil test acc reads = some x := by
  by_contra hno
  have hnone : ∀ k, 0 < k → k ≤ reads.length → test (acc ++ (reads.take k).flatten) = none := by
    intro k
    induction k using Nat.strongRecOn with
    | ind k ih =>
        intro hk hle
        cases hx : test (acc ++ (reads.take k).flatten) with
        | none => rfl
        | some x =>
            refine absurd ⟨x, readUntil_eq_some.mpr ⟨k, hk, hle, hx, fun j hj hlt => ?_⟩⟩ hno
            exact ih j hlt hj (Nat.le_of_lt (Nat.lt_of_lt_of_le hlt hle))
  have hlast := hnone reads.length (List.length_pos_iff.mpr hne) (Nat.le_refl _)
  rw [List.take_length, h] at hlast
  cases hlast

/-- The first reads make a front of the text, and a proper one if a read is left. -/
theorem take_flatten_prefix (reads : List (List α)) (n : Nat) :
    (reads.take n).flatten <+: reads.flatten :=
  ⟨(reads.drop n).flatten, by rw [← List.flatten_append, List.take_append_drop]⟩

theorem length_take_flatten_lt {n : Nat} (hne : [] ∉ reads) (hn : n < reads.length) :
    (reads.take n).flatten.length < reads.flatten.length := by
  have hcat : reads.flatten = (reads.take n).flatten ++ (reads.drop n).flatten := by
    rw [← List.flatten_append, List.take_append_drop]
  obtain ⟨r, hr⟩ : ∃ r, r ∈ reads.drop n := by
    refine ⟨reads[n], List.mem_drop_iff_getElem.mpr ⟨0, by omega, by simp⟩⟩
  have hpos : 0 < r.length := by
    refine List.length_pos_iff.mpr ?_
    rintro rfl
    exact hne (List.mem_of_mem_drop hr)
  have hle := (List.sublist_flatten_of_mem hr).length_le
  rw [hcat, List.length_append]
  omega

end Lib
