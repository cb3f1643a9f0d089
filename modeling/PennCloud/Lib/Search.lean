import Mathlib.Data.List.Infix

/-!
# The first occurrence of one list in another

`firstIdx pat s` is the position at which `pat` first occurs in `s`. The lemmas
are the ones text protocols lean on: what is found in a prefix is found at the
same place in the whole, a stretch that cannot hold the first letter of the
pattern only shifts the answer, and a separator, or a pattern none of whose ends
is also its beginning, is found right after the first stretch free of it.
-/

namespace Lib

variable {α : Type} [DecidableEq α]

/-- The first position at which `pat` occurs. -/
def firstIdx (pat : List α) : List α → Option Nat
  | [] => if pat = [] then some 0 else none
  | x :: xs => if pat <+: x :: xs then some 0 else (firstIdx pat xs).map (· + 1)

theorem firstIdx_zero {pat s : List α} (h : pat <+: s) : firstIdx pat s = some 0 := by
  cases s with
  | nil => rw [List.prefix_nil] at h; simp [firstIdx, h]
  | cons x xs => simp [firstIdx, h]

/-- An occurrence found is an occurrence, and the text splits there. -/
theorem firstIdx_split {pat : List α} : ∀ {s : List α} {i : Nat}, firstIdx pat s = some i →
    ∃ a b, s = a ++ pat ++ b ∧ a.length = i
  | [], i, h => by
      by_cases hp : pat = []
      · subst hp; simp [firstIdx] at h; exact ⟨[], [], by simp, h⟩
      · simp [firstIdx, hp] at h
  | x :: xs, i, h => by
      unfold firstIdx at h
      split at h
      · rename_i hp
        obtain ⟨b, hb⟩ := hp
        exact ⟨[], b, by simp [hb], by simpa using h⟩
      · obtain ⟨j, hj, rfl⟩ := Option.map_eq_some_iff.mp h
        obtain ⟨a, b, hs, hl⟩ := firstIdx_split hj
        exact ⟨x :: a, b, by rw [hs]; simp, by simp [hl]⟩

/-- Nothing found means no occurrence. -/
theorem firstIdx_eq_none {pat : List α} : ∀ {s : List α}, firstIdx pat s = none ↔ ¬ pat <:+: s
  | [] => by simp [firstIdx]
  | x :: xs => by
      rw [List.infix_cons_iff, firstIdx]
      by_cases hp : pat <+: x :: xs
      · simp [hp]
      · simp [hp, firstIdx_eq_none (s := xs)]

theorem firstIdx_isSome {pat s : List α} (h : pat <:+: s) : ∃ i, firstIdx pat s = some i := by
  cases hf : firstIdx pat s with
  | none => exact absurd h (firstIdx_eq_none.mp hf)
  | some i => exact ⟨i, rfl⟩

/-- What is found in a text is found at the same place after more text arrives. -/
theorem firstIdx_append {pat : List α} : ∀ {s : List α} {i : Nat} (t : List α),
    firstIdx pat s = some i → firstIdx pat (s ++ t) = some i
  | [], i, t, h => by
      by_cases hp : pat = []
      · simp [firstIdx, hp] at h; subst h; exact firstIdx_zero (by simp [hp])
      · simp [firstIdx, hp] at h
  | x :: xs, i, t, h => by
      unfold firstIdx at h
      split at h
      · rename_i hp
        rw [Option.some.inj h.symm]
        exact firstIdx_zero (hp.trans (List.prefix_append _ _))
      · rename_i hp
        obtain ⟨j, hj, rfl⟩ := Option.map_eq_some_iff.mp h
        have hlen : pat.length ≤ (x :: xs).length := by
          obtain ⟨a, b, hs, -⟩ := firstIdx_split hj
          simp [hs]; omega
        have hnp : ¬ pat <+: x :: (xs ++ t) := fun hpre =>
          hp (List.prefix_of_prefix_length_le hpre (List.prefix_append (x :: xs) t) hlen)
        rw [List.cons_append, firstIdx, if_neg hnp, firstIdx_append t hj]
        rfl

/-- A stretch without the pattern's first letter only shifts the answer. -/
theorem firstIdx_skip {c : α} {pat : List α} : ∀ {a : List α} (s : List α), c ∉ a →
    firstIdx (c :: pat) (a ++ s) = (firstIdx (c :: pat) s).map (a.length + ·)
  | [], s, _ => by simp
  | x :: a, s, h => by
      have hx : c ≠ x := fun he => h (by simp [he])
      have hnp : ¬ c :: pat <+: x :: (a ++ s) := fun hp => hx (List.cons_prefix_cons.mp hp).1
      rw [List.cons_append, firstIdx, if_neg hnp,
        firstIdx_skip s (fun hc => h (List.mem_cons_of_mem _ hc)), Option.map_map]
      congr 1
      funext n
      simp only [Function.comp_apply, List.length_cons]
      omega

/-- A separator is found right after the first stretch free of it. -/
theorem firstIdx_sep {c : α} {a : List α} (b : List α) (h : c ∉ a) :
    firstIdx [c] (a ++ c :: b) = some a.length := by
  rw [firstIdx_skip _ h, firstIdx_zero (by simp)]
  rfl

theorem firstIdx_sep_none {c : α} {a : List α} (h : c ∉ a) : firstIdx [c] a = none := by
  rw [firstIdx_eq_none]
  rintro ⟨u, v, rfl⟩
  exact h (by simp)

omit [DecidableEq α] in
/-- A letter the pattern does not have cuts the text in two. -/
theorem infix_mid {pat a b : List α} {c : α} (hc : c ∉ pat) :
    pat <:+: a ++ c :: b ↔ pat <:+: a ∨ pat <:+: b := by
  constructor
  · induction a with
    | nil =>
        intro h
        rcases List.infix_cons_iff.mp h with h | h
        · cases pat with
          | nil => exact Or.inl (List.nil_infix)
          | cons p pat => exact absurd (List.cons_prefix_cons.mp h).1 (fun he => hc (by simp [he]))
        · exact Or.inr h
    | cons x a ih =>
        intro h
        rcases List.infix_cons_iff.mp h with h | h
        · -- a prefix reaching past `c` would contain it
          rcases Nat.le_total pat.length (x :: a).length with hl | hl
          · exact Or.inl (List.prefix_of_prefix_length_le h (List.prefix_append _ _) hl).isInfix
          · have hp := List.prefix_of_prefix_length_le (List.prefix_append (x :: a) (c :: b)) h hl
            obtain ⟨t, rfl⟩ := hp
            have ht : t <+: c :: b := (List.prefix_append_right_inj (x :: a)).mp h
            cases t with
            | nil => exact Or.inl (by simp)
            | cons y t =>
                exact absurd (List.cons_prefix_cons.mp ht).1 (fun he => hc (by simp [he]))
        · exact (ih h).imp (fun h => h.trans (List.infix_cons List.infix_rfl)) id
  · rintro (h | h)
    · exact h.trans (List.infix_append' [] a (c :: b) |>.trans (by simp))
    · exact h.trans ⟨a ++ [c], [], by simp⟩

/-- The first occurrence lies before any other. -/
theorem firstIdx_le {pat : List α} : ∀ {a b : List α} {i : Nat},
    firstIdx pat (a ++ pat ++ b) = some i → i ≤ a.length
  | [], b, i, h => by
      rw [firstIdx_zero (by simp)] at h
      simp at h; omega
  | x :: a, b, i, h => by
      rw [List.cons_append, List.cons_append, firstIdx] at h
      split at h
      · simp at h; omega
      · obtain ⟨j, hj, rfl⟩ := Option.map_eq_some_iff.mp h
        have := firstIdx_le hj
        simp only [List.length_cons]
        omega

/-- Before the first occurrence there is none. -/
theorem not_infix_take {pat s : List α} {i : Nat} (h : firstIdx pat s = some i) (hpat : pat ≠ []) :
    ¬ pat <:+: s.take i := by
  rintro ⟨a, b, hab⟩
  have hs : s = a ++ pat ++ (b ++ s.drop i) := by
    rw [← List.append_assoc, hab, List.take_append_drop]
  have hle := firstIdx_le (hs ▸ h)
  have hlen := congrArg List.length hab
  have hpos := List.length_pos_iff.mpr hpat
  simp only [List.length_append, List.length_take] at hlen
  omega

/-- A stretch free of the pattern and a letter the pattern does not have only shift the answer. -/
theorem firstIdx_mid {pat : List α} {c : α} (hc : c ∉ pat) (hpat : pat ≠ []) :
    ∀ {a : List α} (b : List α), ¬ pat <:+: a →
      firstIdx pat (a ++ c :: b) = (firstIdx pat b).map (a.length + 1 + ·)
  | [], b, _ => by
      have hnp : ¬ pat <+: c :: b := by
        intro hp
        cases pat with
        | nil => exact hpat rfl
        | cons p pat => exact hc (by simp [(List.cons_prefix_cons.mp hp).1])
      rw [List.nil_append, firstIdx, if_neg hnp]
      congr 1
      funext n
      simp only [List.length_nil]
      omega
  | x :: a, b, ha => by
      have hnp : ¬ pat <+: x :: (a ++ c :: b) := by
        intro hp
        rcases Nat.le_total pat.length (x :: a).length with hle | hle
        · exact ha (List.prefix_of_prefix_length_le hp (List.prefix_append (x :: a) _) hle).isInfix
        · -- the pattern would reach the letter
          obtain ⟨t, rfl⟩ := List.prefix_of_prefix_length_le (List.prefix_append (x :: a) _) hp hle
          cases t with
          | nil => exact ha (by simp)
          | cons y t =>
              rw [← List.cons_append, List.prefix_append_right_inj] at hp
              exact hc (by simp [(List.cons_prefix_cons.mp hp).1])
      rw [List.cons_append, firstIdx, if_neg hnp,
        firstIdx_mid hc hpat b (fun h => ha (h.trans (List.suffix_cons x a).isInfix)),
        Option.map_map]
      congr 1
      funext n
      simp only [Function.comp_apply, List.length_cons]
      omega

omit [DecidableEq α] in
/-- Of two beginnings of one text the shorter is a beginning of the longer. -/
theorem prefix_of_append_eq {a b w z : List α} (h : a ++ w = b ++ z) (hlen : a.length ≤ b.length) :
    a <+: b :=
  List.prefix_of_prefix_length_le ⟨w, h⟩ (List.prefix_append b z) hlen

/-- A pattern is found where it has been put unless what is before it and all but its last letter
have it. -/
theorem firstIdx_length_iff {pat a : List α} (hpat : pat ≠ []) (b : List α) :
    firstIdx pat (a ++ pat ++ b) = some a.length ↔ ¬ pat <:+: a ++ pat.dropLast := by
  have hlen : pat.dropLast.length + 1 = pat.length := by
    rw [List.length_dropLast, Nat.sub_add_cancel (List.length_pos_iff.mpr hpat)]
  have hcat : a ++ pat ++ b = a ++ pat.dropLast ++ ([pat.getLast hpat] ++ b) := by
    rw [List.append_assoc, List.append_assoc, ← List.append_assoc pat.dropLast,
      List.dropLast_append_getLast]
  constructor
  · intro hfirst hin
    obtain ⟨i, hi⟩ := firstIdx_isSome hin
    have hwhole := firstIdx_append ([pat.getLast hpat] ++ b) hi
    rw [← hcat, hfirst] at hwhole
    obtain ⟨u, v, huv, hu⟩ := firstIdx_split hi
    have hlong := congrArg List.length huv
    have hij := Option.some.inj hwhole
    simp only [List.length_append] at hlong
    omega
  · intro hno
    obtain ⟨i, hi⟩ := firstIdx_isSome (show pat <:+: a ++ pat ++ b from ⟨a, b, rfl⟩)
    obtain ⟨u, v, huv, rfl⟩ := firstIdx_split hi
    rcases Nat.lt_or_eq_of_le (firstIdx_le hi) with hlt | heq
    · -- an earlier match would end before the pattern does
      rw [hcat] at huv
      have hpre : u ++ pat <+: a ++ pat.dropLast :=
        prefix_of_append_eq huv.symm (by rw [List.length_append, List.length_append]; omega)
      exact absurd ((List.suffix_append u pat).isInfix.trans hpre.isInfix) hno
    · rw [hi, heq]

/-- A front that ends before the first occurrence does has none. -/
theorem not_infix_front {pat s a : List α} {i : Nat} (h : firstIdx pat s = some i) (hpre : a <+: s)
    (hlt : a.length < i + pat.length) : ¬ pat <:+: a := by
  intro hin
  obtain ⟨j, hj⟩ := firstIdx_isSome hin
  obtain ⟨u, v, rfl, rfl⟩ := firstIdx_split hj
  obtain ⟨b, rfl⟩ := hpre
  have hij := Option.some.inj (h.symm.trans (firstIdx_append b hj))
  simp only [List.length_append] at hlt
  omega

/-- No end of the pattern is also its beginning. -/
def Unbordered (pat : List α) : Prop := ∀ n < pat.length, 0 < n → ¬ pat.drop n <+: pat

instance (pat : List α) : Decidable (Unbordered pat) := by unfold Unbordered; infer_instance

/-- Such a pattern is found right after the first stretch free of it. -/
theorem firstIdx_unbordered {pat a : List α} (hpat : Unbordered pat) (b : List α)
    (ha : ¬ pat <:+: a) : firstIdx pat (a ++ pat ++ b) = some a.length := by
  obtain ⟨i, hi⟩ := firstIdx_isSome (show pat <:+: a ++ pat ++ b from ⟨a, b, rfl⟩)
  obtain ⟨u, v, huv, rfl⟩ := firstIdx_split hi
  rcases Nat.lt_or_eq_of_le (firstIdx_le hi) with hlt | heq
  · -- an earlier match would start in `a`
    exfalso
    rw [List.append_assoc, List.append_assoc] at huv
    rcases List.append_eq_append_iff.mp huv with ⟨r, rfl, -⟩ | ⟨r, rfl, hr⟩
    · simp only [List.length_append] at hlt
      omega
    · have hpos : 0 < r.length := by
        simp only [List.length_append] at hlt
        omega
      rcases Nat.lt_or_ge r.length pat.length with hshort | hlong
      · refine hpat r.length hshort hpos ?_
        have hdrop := congrArg (List.drop r.length) hr
        rw [List.drop_append_of_le_length (Nat.le_of_lt hshort), List.drop_left] at hdrop
        have hlater : pat.drop r.length <+: pat ++ b := ⟨v, hdrop⟩
        refine List.prefix_of_prefix_length_le hlater (List.prefix_append pat b) ?_
        rw [List.length_drop]
        omega
      · have hearly : pat <+: r ++ (pat ++ b) := ⟨v, hr⟩
        obtain ⟨t, ht⟩ :=
          List.prefix_of_prefix_length_le hearly (List.prefix_append r (pat ++ b)) hlong
        exact ha ⟨u, t, by rw [List.append_assoc, ht]⟩
  · rw [hi, heq]

/-- A two-letter terminator is found after the first stretch free of it. -/
theorem firstIdx_pair {x y : α} (hxy : x ≠ y) {a : List α} (b : List α) (h : ¬ [x, y] <:+: a) :
    firstIdx [x, y] (a ++ [x, y] ++ b) = some a.length := by
  refine firstIdx_unbordered (fun n hn hpos hp => ?_) b h
  obtain rfl : n = 1 := by
    rw [List.length_cons, List.length_singleton] at hn
    omega
  exact hxy (List.cons_prefix_cons.mp hp).1.symm

end Lib
