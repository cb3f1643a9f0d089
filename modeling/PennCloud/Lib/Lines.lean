import PennCloud.Lib.Search
import Mathlib.Data.List.Basic

/-!
# Line-oriented files

`lines nl s` is what repeated `getline` calls deliver. `foldBlocks` is the common
replay loop over them: lines pile up, with their terminator put back, until a
line equal to `stop` has been added, and the pile is then handed to `f`.
`foldBlocks_block` is its specification: a block whose lines differ from `stop`
reaches `f` whole, and the rest of the file is replayed after it. `firstIdx_stop`
is for parsers that search the block for the `stop` line once more.
-/

namespace Lib

variable {α σ : Type} [DecidableEq α]

/-- The lines of a text; a last line without terminator counts, an empty rest does not. -/
def lines (nl : α) : List α → List (List α)
  | [] => []
  | x :: xs =>
    if x = nl then [] :: lines nl xs
    else match lines nl xs with
      | [] => [[x]]
      | l :: ls => (x :: l) :: ls

/-- A text made of whole lines. -/
def Terminated (nl : α) (s : List α) : Prop := s = [] ∨ ∃ t, s = t ++ [nl]

@[simp] theorem lines_nil (nl : α) : lines nl [] = [] := rfl

theorem lines_line {nl : α} : ∀ {l : List α} (t : List α), nl ∉ l →
    lines nl (l ++ nl :: t) = l :: lines nl t
  | [], t, _ => by simp [lines]
  | x :: l, t, h => by
      have hx : x ≠ nl := fun he => h (by simp [he])
      rw [List.cons_append, lines, if_neg hx,
        lines_line t (fun hm => h (List.mem_cons_of_mem _ hm))]

/-- Lines that are written are read. -/
theorem lines_flatMap {nl : α} {ls : List (List α)} (h : ∀ l ∈ ls, nl ∉ l) :
    lines nl (ls.flatMap (· ++ [nl])) = ls := by
  induction ls with
  | nil => rfl
  | cons l ls ih =>
      obtain ⟨hl, hls⟩ := List.forall_mem_cons.mp h
      rw [List.flatMap_cons, List.append_assoc, List.singleton_append, lines_line _ hl, ih hls]

omit [DecidableEq α] in
/-- A terminated text ends with its own first letter or has a terminated rest. -/
theorem Terminated.cases {nl x : α} {s : List α} (h : Terminated nl (x :: s)) :
    (s = [] ∧ x = nl) ∨ (s ≠ [] ∧ Terminated nl s) := by
  obtain ⟨u, hu⟩ := h.resolve_left (by simp)
  cases u with
  | nil => simp at hu; exact Or.inl ⟨hu.2, hu.1⟩
  | cons y u =>
      have hs : s = u ++ [nl] := by simpa using (List.cons.inj hu).2
      exact Or.inr ⟨by simp [hs], Or.inr ⟨u, hs⟩⟩

theorem lines_ne_nil {nl : α} {s : List α} (h : s ≠ []) : lines nl s ≠ [] := by
  cases s with
  | nil => exact absurd rfl h
  | cons y s =>
      unfold lines
      split
      · simp
      · split <;> simp

/-- Whole lines and what follows them are split independently. -/
theorem lines_append {nl : α} : ∀ {s : List α} (t : List α), Terminated nl s →
    lines nl (s ++ t) = lines nl s ++ lines nl t
  | [], t, _ => rfl
  | x :: s, t, h => by
      rcases h.cases with ⟨rfl, rfl⟩ | ⟨hs, hrest⟩
      · simp [lines]
      · rw [List.cons_append, lines, lines_append t hrest, lines]
        split
        · rfl
        · cases hl : lines nl s with
          | nil => exact absurd hl (lines_ne_nil hs)
          | cons l ls => rfl

/-- No line holds the terminator. -/
theorem nl_notMem_of_mem_lines {nl : α} : ∀ {s l : List α}, l ∈ lines nl s → nl ∉ l
  | [], l, h => by simp at h
  | x :: s, l, h => by
      unfold lines at h
      split at h
      · rcases List.mem_cons.mp h with rfl | h
        · simp
        · exact nl_notMem_of_mem_lines h
      · rename_i hx
        split at h
        · simp only [List.mem_singleton] at h
          subst h
          simpa using Ne.symm hx
        · rename_i m ms hm
          rcases List.mem_cons.mp h with rfl | h
          · have hml : m ∈ lines nl s := by rw [hm]; exact List.mem_cons_self ..
            rw [List.mem_cons, not_or]
            exact ⟨Ne.symm hx, nl_notMem_of_mem_lines hml⟩
          · have hml : l ∈ lines nl s := by rw [hm]; exact List.mem_cons_of_mem _ h
            exact nl_notMem_of_mem_lines hml

/-- Putting the terminators back gives the text. -/
theorem flatMap_lines {nl : α} : ∀ {s : List α}, Terminated nl s →
    (lines nl s).flatMap (· ++ [nl]) = s
  | [], _ => rfl
  | x :: s, h => by
      rcases h.cases with ⟨rfl, rfl⟩ | ⟨hs, hrest⟩
      · simp [lines]
      · have ih := flatMap_lines hrest
        unfold lines
        split
        · rename_i hx; simp [ih, hx]
        · cases hl : lines nl s with
          | nil => rw [hl] at ih; exact absurd ih.symm hs
          | cons l ls => rw [hl] at ih; simpa using ih

/-- The replay loop: pile lines up to and including `stop`, then apply `f` to the pile. -/
def foldBlocks (nl : α) (stop : List α) (f : σ → List α → σ) :
    List (List α) → List α → σ → σ
  | [], _, s => s
  | l :: ls, pile, s =>
    if l ≠ stop then foldBlocks nl stop f ls (pile ++ l ++ [nl]) s
    else foldBlocks nl stop f ls [] (f s (pile ++ l ++ [nl]))

theorem foldBlocks_pile {nl : α} {stop : List α} {f : σ → List α → σ} :
    ∀ {ls : List (List α)} (rest : List (List α)) (pile : List α) (s : σ), stop ∉ ls →
    foldBlocks nl stop f (ls ++ rest) pile s
      = foldBlocks nl stop f rest (pile ++ ls.flatMap (· ++ [nl])) s
  | [], rest, pile, s, _ => by simp
  | l :: ls, rest, pile, s, h => by
      have hl : l ≠ stop := fun he => h (by simp [he])
      rw [List.cons_append, foldBlocks, if_pos hl,
        foldBlocks_pile rest _ s (fun hm => h (List.mem_cons_of_mem _ hm))]
      simp

/-- **A block free of `stop` lines reaches `f` whole.** -/
theorem foldBlocks_block {nl : α} {stop body : List α} {f : σ → List α → σ} (rest : List α)
    (s : σ) (hbody : Terminated nl body) (hstop : nl ∉ stop) (hfree : stop ∉ lines nl body) :
    foldBlocks nl stop f (lines nl (body ++ stop ++ nl :: rest)) [] s
      = foldBlocks nl stop f (lines nl rest) [] (f s (body ++ stop ++ [nl])) := by
  rw [List.append_assoc, lines_append _ hbody, lines_line rest hstop,
    foldBlocks_pile _ _ _ hfree, flatMap_lines hbody, foldBlocks, if_neg (by simp)]
  simp

/-- A `stop` line behind a text without one is where the search finds it. -/
theorem firstIdx_stop {nl : α} {stop d : List α} (hstop : nl ∉ stop)
    (hfree : stop ∉ lines nl (d ++ [nl])) :
    firstIdx (nl :: stop ++ [nl]) (d ++ (nl :: stop ++ [nl])) = some d.length := by
  have hin : nl :: stop ++ [nl] <:+: d ++ (nl :: stop ++ [nl]) := (List.suffix_append _ _).isInfix
  obtain ⟨i, hi⟩ := firstIdx_isSome hin
  have hle : i ≤ d.length := firstIdx_le (b := []) (by simpa using hi)
  obtain ⟨a, b, hab, ha⟩ := firstIdx_split hi
  rcases Nat.lt_or_eq_of_le hle with hlt | heq
  · -- an earlier match would leave a `stop` line within `d`
    exfalso
    obtain ⟨r, rfl⟩ : ∃ r, d = a ++ r :=
      ⟨d.drop i, by
        have htake := congrArg (List.take i) hab
        rw [List.take_append_of_le_length hle, List.append_assoc,
          List.take_append_of_le_length (by omega), ← ha, List.take_length] at htake
        rw [← htake, ← ha, List.take_append_drop]⟩
    have hr : r ++ (nl :: stop ++ [nl]) = nl :: stop ++ [nl] ++ b := by
      simpa [List.append_assoc] using hab
    cases r with
    | nil => simp at hlt; omega
    | cons x r =>
        obtain ⟨rfl, hr⟩ : x = nl ∧ r ++ (nl :: stop ++ [nl]) = stop ++ nl :: b := by
          simpa using hr
        have hsplit : lines x (r ++ [x]) ++ lines x (stop ++ [x]) = stop :: lines x b := by
          rw [← lines_append _ (Or.inr ⟨r, rfl⟩), ← lines_line b hstop, ← hr]
          simp
        have hmem : stop ∈ lines x (r ++ [x]) := by
          cases hl : lines x (r ++ [x]) with
          | nil => exact absurd hl (lines_ne_nil (by simp))
          | cons l ls =>
              rw [hl] at hsplit
              rw [(List.cons.inj hsplit).1]
              exact List.mem_cons_self ..
        refine hfree ?_
        rw [show a ++ x :: r ++ [x] = (a ++ [x]) ++ (r ++ [x]) by simp,
          lines_append _ (Or.inr ⟨a, rfl⟩)]
        exact List.mem_append_right _ hmem
  · rw [hi, heq]

end Lib
