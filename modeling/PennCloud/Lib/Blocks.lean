import PennCloud.Lib.Lines

/-!
# Files as blocks

A file of lines is cut behind every line equal to `stop`. `foldBlocks` is a fold
over these blocks (`foldBlocks_eq`). A text that ends with such a line is made of
whole blocks: it is cut independently of what follows it (`blocks_append`), and its
blocks are all of it (`flatten_blocks`). Lines put in front of it, none of them
`stop`, go to its first block (`blocks_prepend`).
-/

namespace Lib

variable {α σ : Type} [DecidableEq α] {nl : α} {stop : List α}

/-- The blocks among some lines; `pile` is what the first of them has so far. -/
def cutBlocks (nl : α) (stop : List α) : List (List α) → List α → List (List α)
  | [], _ => []
  | l :: ls, pile =>
    if l ≠ stop then cutBlocks nl stop ls (pile ++ l ++ [nl])
    else (pile ++ l ++ [nl]) :: cutBlocks nl stop ls []

/-- The blocks of a text. -/
def blocks (nl : α) (stop s : List α) : List (List α) := cutBlocks nl stop (lines nl s) []

/-- The text ends with a `stop` line, or is empty. -/
def Whole (nl : α) (stop s : List α) : Prop := s = [] ∨ ∃ t, Terminated nl t ∧ s = t ++ stop ++ [nl]

/-- A block: lines that are not `stop`, and one that is. -/
def IsBlock (nl : α) (stop b : List α) : Prop :=
  ∃ body, Terminated nl body ∧ stop ∉ lines nl body ∧ b = body ++ stop ++ [nl]

/-- **The replay loop is a fold over the blocks.** -/
theorem foldBlocks_eq {f : σ → List α → σ} (ls : List (List α)) (pile : List α) (s : σ) :
    foldBlocks nl stop f ls pile s = (cutBlocks nl stop ls pile).foldl f s := by
  induction ls generalizing pile s with
  | nil => rfl
  | cons l ls ih =>
      rw [foldBlocks, cutBlocks]
      split
      · exact ih ..
      · exact ih ..

/-- What has been piled up is the front of the first block. -/
theorem cutBlocks_pile (ls : List (List α)) (pile : List α) :
    cutBlocks nl stop ls pile = (cutBlocks nl stop ls []).modifyHead (pile ++ ·) := by
  induction ls generalizing pile with
  | nil => rfl
  | cons l ls ih =>
      rw [cutBlocks, cutBlocks]
      split
      · rw [ih, ih ([] ++ l ++ [nl]), List.modifyHead_modifyHead]
        congr 1
        funext b
        simp
      · simp

/-- Lines before a `stop` line are piled up. -/
theorem cutBlocks_lines {ls : List (List α)} (hls : stop ∉ ls) (rest : List (List α))
    (pile : List α) :
    cutBlocks nl stop (ls ++ rest) pile
      = cutBlocks nl stop rest (pile ++ ls.flatMap (· ++ [nl])) := by
  induction ls generalizing pile with
  | nil => simp
  | cons l ls ih =>
      rw [List.mem_cons, not_or] at hls
      rw [List.cons_append, cutBlocks, if_pos (Ne.symm hls.1), ih hls.2]
      simp

/-- Behind a `stop` line the cutting starts anew. -/
theorem cutBlocks_stop (ls rest : List (List α)) (pile : List α) :
    cutBlocks nl stop (ls ++ [stop] ++ rest) pile
      = cutBlocks nl stop (ls ++ [stop]) pile ++ cutBlocks nl stop rest [] := by
  induction ls generalizing pile with
  | nil => simp [cutBlocks]
  | cons l ls ih =>
      simp only [List.cons_append, cutBlocks]
      split
      · exact ih _
      · rw [ih, List.cons_append]

theorem flatten_cutBlocks (ls : List (List α)) (pile : List α) :
    (cutBlocks nl stop (ls ++ [stop]) pile).flatten = pile
      ++ (ls ++ [stop]).flatMap (· ++ [nl]) := by
  induction ls generalizing pile with
  | nil => simp [cutBlocks]
  | cons l ls ih =>
      rw [List.cons_append, cutBlocks]
      split
      · rw [ih]
        simp
      · rw [List.flatten_cons, ih]
        simp

omit [DecidableEq α] in
theorem terminated_flatMap (ls : List (List α)) : Terminated nl (ls.flatMap (· ++ [nl])) := by
  rcases List.eq_nil_or_concat ls with rfl | ⟨init, l, rfl⟩
  · exact Or.inl rfl
  · exact Or.inr ⟨init.flatMap (· ++ [nl]) ++ l, by simp⟩

theorem isBlock_of_mem_cutBlocks {ls : List (List α)} (hls : ∀ l ∈ ls, nl ∉ l) (ps : List (List α))
    (hps : ∀ l ∈ ps, nl ∉ l) (hstop : stop ∉ ps) {b : List α}
    (hb : b ∈ cutBlocks nl stop ls (ps.flatMap (· ++ [nl]))) : IsBlock nl stop b := by
  induction ls generalizing ps with
  | nil => cases hb
  | cons l ls ih =>
      obtain ⟨hl, hls⟩ := List.forall_mem_cons.mp hls
      rw [cutBlocks] at hb
      split at hb
      · rename_i hne
        refine ih hls (ps ++ [l]) ?_ ?_ (by simpa using hb)
        · intro m hm
          rcases List.mem_append.mp hm with hm | hm
          · exact hps m hm
          · rw [List.mem_singleton.mp hm]
            exact hl
        · rw [List.mem_append, List.mem_singleton, not_or]
          exact ⟨hstop, Ne.symm hne⟩
      · rename_i heq
        rcases List.mem_cons.mp hb with rfl | hb
        · rw [not_not.mp heq]
          exact ⟨_, terminated_flatMap ps, by rwa [lines_flatMap hps], rfl⟩
        · exact ih hls [] nofun nofun hb

/-! ## Texts -/

theorem isBlock_of_mem {s b : List α} (h : b ∈ blocks nl stop s) : IsBlock nl stop b :=
  isBlock_of_mem_cutBlocks (fun _ hl => nl_notMem_of_mem_lines hl) [] nofun nofun h

theorem Whole.lines (hnl : nl ∉ stop) {s : List α} (hs : Whole nl stop s) (hne : s ≠ []) :
    ∃ ls, Lib.lines nl s = ls ++ [stop] := by
  obtain ⟨t, ht, rfl⟩ := hs.resolve_left hne
  refine ⟨Lib.lines nl t, ?_⟩
  rw [List.append_assoc, lines_append _ ht, lines_line _ hnl, lines_nil]

omit [DecidableEq α] in
theorem Whole.terminated {s : List α} (hs : Whole nl stop s) : Terminated nl s := by
  rcases hs with rfl | ⟨t, -, rfl⟩
  · exact Or.inl rfl
  · exact Or.inr ⟨t ++ stop, rfl⟩

/-- **A text of whole blocks is cut independently of what follows it.** -/
theorem blocks_append (hnl : nl ∉ stop) {s : List α} (hs : Whole nl stop s) (t : List α) :
    blocks nl stop (s ++ t) = blocks nl stop s ++ blocks nl stop t := by
  by_cases hne : s = []
  · rw [hne]
    rfl
  · obtain ⟨ls, hls⟩ := hs.lines hnl hne
    rw [blocks, blocks, blocks, lines_append t hs.terminated, hls, cutBlocks_stop]

/-- **The blocks of a text of whole blocks are all of it.** -/
theorem flatten_blocks (hnl : nl ∉ stop) {s : List α} (hs : Whole nl stop s) :
    (blocks nl stop s).flatten = s := by
  by_cases hne : s = []
  · rw [hne]
    rfl
  · obtain ⟨ls, hls⟩ := hs.lines hnl hne
    rw [blocks, hls, flatten_cutBlocks, ← hls, List.nil_append]
    exact flatMap_lines hs.terminated

/-- Lines that are not `stop` go to the first block. -/
theorem blocks_prepend {pre : List α} (hpre : Terminated nl pre) (hfree : stop ∉ lines nl pre)
    (s : List α) : blocks nl stop (pre ++ s) = (blocks nl stop s).modifyHead (pre ++ ·) := by
  rw [blocks, lines_append s hpre, cutBlocks_lines hfree, cutBlocks_pile, flatMap_lines hpre]
  rfl

omit [DecidableEq α] in
theorem Whole.append {s t : List α} (hs : Whole nl stop s) (ht : Whole nl stop t) :
    Whole nl stop (s ++ t) := by
  rcases ht with rfl | ⟨u, hu, rfl⟩
  · rwa [List.append_nil]
  · refine Or.inr ⟨s ++ u, ?_, by simp⟩
    rcases hu with rfl | ⟨v, rfl⟩
    · rw [List.append_nil]
      exact hs.terminated
    · exact Or.inr ⟨s ++ v, by simp⟩

omit [DecidableEq α] in
theorem Whole.flatMap {ι : Type} {is : List ι} {f : ι → List α}
    (h : ∀ i ∈ is, Whole nl stop (f i)) :
    Whole nl stop (is.flatMap f) := by
  induction is with
  | nil => exact Or.inl rfl
  | cons i is ih =>
      obtain ⟨hi, his⟩ := List.forall_mem_cons.mp h
      exact hi.append (ih his)

end Lib
