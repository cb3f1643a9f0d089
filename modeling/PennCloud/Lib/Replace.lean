import PennCloud.Lib.Search

/-!
# Replacing every occurrence

`cuts pat s` are the pieces of a text between the occurrences of a pattern, found
from left to right without overlap, and `substitute pat r s` joins them with a
replacement. The lemmas go from one occurrence to the next. `LeftmostCuts` says
without a search what the pieces are.
-/

namespace Lib

/-- The pieces when a text is cut, again and again, at the leftmost occurrence in what is left. -/
inductive LeftmostCuts {α : Type} (pat : List α) : List α → List (List α) → Prop
  | last {s : List α} : ¬ pat <:+: s → LeftmostCuts pat s [s]
  | cut {a b : List α} {ps : List (List α)} :
      (∀ u v, a ++ pat ++ b = u ++ pat ++ v → a.length ≤ u.length) → LeftmostCuts pat b ps →
      LeftmostCuts pat (a ++ pat ++ b) (a :: ps)

theorem LeftmostCuts.ne_nil {α : Type} {pat s : List α} {ps : List (List α)}
    (h : LeftmostCuts pat s ps) :
    ps ≠ [] := by
  cases h <;> exact List.cons_ne_nil _ _

variable {α : Type} [DecidableEq α]

/-- The pieces between the occurrences of `pat`; the empty pattern cuts nothing. -/
def cuts (pat : List α) (s : List α) : List (List α) :=
  if _hpat : pat = [] then [s]
  else match _h : firstIdx pat s with
    | none => [s]
    | some i => s.take i :: cuts pat (s.drop (i + pat.length))
termination_by s.length
decreasing_by
  obtain ⟨a, b, hs, rfl⟩ := firstIdx_split _h
  have hpos := List.length_pos_of_ne_nil _hpat
  have hlen := congrArg List.length hs
  simp only [List.length_append, List.length_drop] at hlen ⊢
  omega

/-- The text with `r` in the place of every occurrence of `pat`. -/
def substitute (pat r s : List α) : List α := r.intercalate (cuts pat s)

variable {pat r s : List α}

theorem cuts_ne_nil (pat s : List α) : cuts pat s ≠ [] := by
  rw [cuts]
  split
  · exact List.cons_ne_nil _ _
  · split
    · exact List.cons_ne_nil _ _
    · exact List.cons_ne_nil _ _

theorem cuts_none (h : ¬ pat <:+: s) : cuts pat s = [s] := by
  rw [cuts]
  split
  · rfl
  · split
    · rfl
    · rename_i i hi
      obtain ⟨a, b, hs, -⟩ := firstIdx_split hi
      exact absurd ⟨a, b, hs.symm⟩ h

theorem cuts_found {a b : List α} (hpat : pat ≠ [])
    (h : firstIdx pat (a ++ pat ++ b) = some a.length) :
    cuts pat (a ++ pat ++ b) = a :: cuts pat b := by
  rw [cuts, dif_neg hpat]
  split
  · rename_i hnone
    rw [h] at hnone
    cases hnone
  · rename_i i hi
    obtain rfl := Option.some.inj (h.symm.trans hi)
    have htake : (a ++ pat ++ b).take a.length = a := by rw [List.append_assoc, List.take_left]
    have hdrop : (a ++ pat ++ b).drop (a.length + pat.length) = b := by
      rw [← List.length_append, List.drop_left]
    rw [htake, hdrop]

/-- A text without the pattern stays as it is. -/
theorem substitute_none (r : List α) (h : ¬ pat <:+: s) : substitute pat r s = s := by
  rw [substitute, cuts_none h, List.intercalate_singleton]

/-- **The first occurrence** is replaced, and then those behind it. -/
theorem substitute_found {a b : List α} (r : List α) (hpat : pat ≠ [])
    (h : firstIdx pat (a ++ pat ++ b) = some a.length) :
    substitute pat r (a ++ pat ++ b) = a ++ r ++ substitute pat r b := by
  rw [substitute, cuts_found hpat h]
  obtain ⟨l, ls, hls⟩ := List.exists_cons_of_ne_nil (cuts_ne_nil pat b)
  rw [substitute, hls, List.intercalate_cons_cons]

/-- A text with the pattern, cut at its first occurrence. -/
theorem first_cut (h : pat <:+: s) :
    ∃ a b, s = a ++ pat ++ b ∧ firstIdx pat (a ++ pat ++ b) = some a.length := by
  obtain ⟨i, hi⟩ := firstIdx_isSome h
  obtain ⟨a, b, rfl, rfl⟩ := firstIdx_split hi
  exact ⟨a, b, rfl, hi⟩

/-- The search finds the leftmost occurrence. -/
theorem firstIdx_leftmost {a b : List α} : firstIdx pat (a ++ pat ++ b) = some a.length ↔
    ∀ u v, a ++ pat ++ b = u ++ pat ++ v → a.length ≤ u.length := by
  constructor
  · intro h u v he
    rw [he] at h
    exact firstIdx_le h
  · intro h
    obtain ⟨i, hi⟩ := firstIdx_isSome (show pat <:+: a ++ pat ++ b from ⟨a, b, rfl⟩)
    obtain ⟨u, v, he, hlen⟩ := firstIdx_split hi
    have hge := h u v he
    have hle := firstIdx_le hi
    rw [hi, show i = a.length by omega]

/-- **Every text is cut so.** The induction over the cuts, one occurrence after the other. -/
theorem leftmost_cuts (hpat : pat ≠ []) (s : List α) : LeftmostCuts pat s (cuts pat s) := by
  induction hn : s.length using Nat.strong_induction_on generalizing s with
  | _ n ih =>
      by_cases hin : pat <:+: s
      · obtain ⟨a, b, rfl, hfirst⟩ := first_cut hin
        have hpos := List.length_pos_of_ne_nil hpat
        -- what is left is shorter by the pattern at least
        have hlt : b.length < n := by
          rw [← hn, List.length_append, List.length_append]
          omega
        rw [cuts_found hpat hfirst]
        exact .cut (firstIdx_leftmost.mp hfirst) (ih _ hlt b rfl)
      · rw [cuts_none hin]
        exact .last hin

/-- There is no other way. -/
theorem leftmostCuts_iff (hpat : pat ≠ []) {s : List α} {ps : List (List α)} :
    LeftmostCuts pat s ps ↔ ps = cuts pat s := by
  constructor
  · intro h
    induction h with
    | last hnone => exact (cuts_none hnone).symm
    | cut hfirst _ ih => rw [cuts_found hpat (firstIdx_leftmost.mpr hfirst), ih]
  · rintro rfl
    exact leftmost_cuts hpat s

/-- A pattern replaced by itself. -/
theorem substitute_self (hpat : pat ≠ []) (s : List α) : substitute pat pat s = s := by
  have hcuts := leftmost_cuts hpat s
  generalize cuts pat s = ps at hcuts
  induction hcuts with
  | last hnone => exact substitute_none pat hnone
  | cut hfirst _ ih => rw [substitute_found pat hpat (firstIdx_leftmost.mpr hfirst), ih]

/-- The lengths: each occurrence takes away the pattern and brings the replacement. -/
theorem length_substitute (r : List α) (hpat : pat ≠ []) (s : List α) :
    (substitute pat r s).length + ((cuts pat s).length - 1) * pat.length
      = s.length + ((cuts pat s).length - 1) * r.length := by
  have hcuts := leftmost_cuts hpat s
  generalize cuts pat s = ps at hcuts ⊢
  induction hcuts with
  | last hnone =>
      rw [substitute_none r hnone, List.length_singleton, Nat.sub_self, Nat.zero_mul, Nat.zero_mul]
  | cut hfirst hrest ih =>
      rename_i a b ps
      obtain ⟨p, ps, rfl⟩ := List.exists_cons_of_ne_nil hrest.ne_nil
      rw [substitute_found r hpat (firstIdx_leftmost.mpr hfirst), List.length_cons,
        List.length_cons]
      rw [List.length_cons] at ih
      simp only [List.length_append, Nat.add_sub_cancel, Nat.add_mul, Nat.one_mul] at ih ⊢
      omega

/-- **A text that a replacement leaves as it was** does not hold the pattern, or the pattern stands
for itself. -/
theorem eq_of_substitute (hpat : pat ≠ []) (hin : pat <:+: s) (h : substitute pat r s = s) :
    r = pat := by
  obtain ⟨a, b, rfl, hfirst⟩ := first_cut hin
  have hlen := length_substitute r hpat (a ++ pat ++ b)
  rw [h, cuts_found hpat hfirst, List.length_cons, Nat.add_sub_cancel,
    Nat.add_left_cancel_iff] at hlen
  have hpos := List.length_pos_of_ne_nil (cuts_ne_nil pat b)
  have hsame : r.length = pat.length := (Nat.eq_of_mul_eq_mul_left hpos hlen).symm
  rw [substitute_found r hpat hfirst, List.append_assoc, List.append_assoc] at h
  exact (List.append_inj (List.append_cancel_left h) hsame).1

end Lib
