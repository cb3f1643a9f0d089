import PennCloud.Lib.Blocks
import PennCloud.Lib.Guarded
import PennCloud.Proof.Durability

/-!
# A log replayed over its own result

Recovery replays logs that overlap: the local one and then the primary's, or a log
over a checkpoint that is newer. As blocks, a log is a list of puts and of erasures
with a guard, for `replayLogCommand` looks whether (row, column) is there and erases
(row, row). Guards of other keys are never erased themselves, so `Lib.Guarded` says
exactly when such a log may be replayed again.
-/

namespace PennCloud

open Str

/-- What `replayLogCommand` reads in a block: its key, and the data of a `PUT`. -/
def readEntry (str : Str) : Lib.Entry Key Str :=
  let isDelete := str.substr 0 (str.find [' ']) = kwDELETE
  let pos := str.find ['\n']
  let putLine := str.substr 0 pos
  let row := angled putLine
  let col := angled (pastAngled putLine)
  let str := str.substr (pos + 1)
  let pos := str.find ['\n']
  if isDelete then .erase (row, col) (row, row)
  else
    let str := str.substr (pos + 1)
    .put (row, col) (str.substr 0 (str.find dotNl))

/-- The entries of a log file. -/
def readEntries (s : Str) : List (Lib.Entry Key Str) := (Lib.blocks '\n' dot s).map readEntry

/-- The record was written by a primary. -/
def LogRecord.ByPrimary : LogRecord → Prop
  | .put .. | .delete .. => True
  | .replicaPut .. => False

instance : DecidablePred LogRecord.ByPrimary
  | .put .. | .delete .. => .isTrue trivial
  | .replicaPut .. => .isFalse id

/-! ## The log as entries -/

/-- **A block does to the contents what is read in it.** -/
theorem view_replayLogCommand (t : Bmap) (b : Str) :
    (replayLogCommand t b).view = (readEntry b).on t.view := by
  rw [replayLogCommand, readEntry]
  simp only
  split
  · rename_i hdelete
    rw [Lib.Entry.on]
    show (if _ then _ else t).view = if (t.at? _ _).isSome then _ else t.view
    cases hat : t.at? (angled (b.substr 0 (b.find ['\n'])))
        (angled (pastAngled (b.substr 0 (b.find ['\n'])))) with
    | none => rw [Option.isSome_none, Bool.and_false, if_neg (by decide), if_neg (by decide)]
    | some d =>
        rw [Nested.hasRow_of_at? hat, Option.isSome_some, Bool.and_self, if_pos rfl, if_pos rfl,
          Nested.view_eraseCol]
        rfl
  · exact Nested.view_set ..

theorem view_recoverLog (s : Str) (t : Bmap) :
    (recoverLog s t).view = Lib.redo t.view (readEntries s) := by
  rw [recoverLog, Lib.foldBlocks_eq, readEntries, Lib.blocks, Lib.redo]
  generalize Lib.cutBlocks '\n' dot (Lib.lines '\n' s) [] = bs
  induction bs generalizing t with
  | nil => rfl
  | cons b bs ih => rw [List.foldl_cons, ih, List.map_cons, List.foldl_cons, view_replayLogCommand]

/-- **Only keys named twice by their row are erased, and no others are guards of others.** -/
theorem apart_readEntries (s : Str) : Lib.Apart (fun k : Key => k.1 ≠ k.2) (readEntries s) := by
  intro guard k hmem
  obtain ⟨b, -, hb⟩ := List.mem_map.mp hmem
  rw [readEntry] at hb
  simp only at hb
  split at hb
  · cases hb
    refine ⟨?_, fun h => h rfl⟩
    by_cases heq : angled (b.substr 0 (b.find ['\n']))
      = angled (pastAngled (b.substr 0 (b.find ['\n'])))
    · exact Or.inl (Prod.ext rfl heq.symm)
    · exact Or.inr heq
  · cases hb

/-- The records of a primary are whole blocks. -/
theorem LogRecord.ByPrimary.whole {r : LogRecord} (hr : r.ByPrimary) :
    Lib.Whole '\n' dot r.text := by
  cases r with
  | put seq row col data =>
      exact Or.inr ⟨_, Or.inr ⟨header kwPUT row col ('\n' :: (decimal seq ++ '\n' :: data)),
        by simp [LogRecord.body, header]⟩, rfl⟩
  | replicaPut => exact hr.elim
  | delete seq row col =>
      exact Or.inr ⟨_, Or.inr ⟨header kwDELETE row col ('\n' :: decimal seq),
        by simp [LogRecord.body, header]⟩, rfl⟩

theorem readEntries_append {log : List LogRecord} (log' : List LogRecord)
    (hlog : ∀ r ∈ log, r.ByPrimary) :
    readEntries ((log ++ log').flatMap LogRecord.text)
      = readEntries (log.flatMap LogRecord.text) ++ readEntries (log'.flatMap LogRecord.text) := by
  have hwhole : Lib.Whole '\n' dot (log.flatMap LogRecord.text) :=
    Lib.Whole.flatMap fun r hr => (hlog r hr).whole
  rw [List.flatMap_append, readEntries, Lib.blocks_append (by decide) hwhole, List.map_append]
  rfl

/-- What a request adds to the log. -/
theorem Did.byPrimary {s : Server} {q : Request} {r : Reaction} (h : Did s q r)
    (hs : ∀ r ∈ s.log, r.ByPrimary) : ∀ r' ∈ r.server.log, r'.ByPrimary :=
  h.log_forall hs (fun _ _ _ _ _ => trivial) fun _ _ _ _ => trivial

/-- **A primary's log has records of a primary**, in every state. -/
theorem byPrimary_run {as : List PrimaryAction} {s : Primary}
    (hr : Lib.run Primary.step Primary.start as = some s) : ∀ r ∈ s.server.log, r.ByPrimary := by
  have hinv : s.server.primary = true ∧ ∀ r ∈ s.server.log, r.ByPrimary := by
    refine Lib.inv_of_run (I := fun s : Primary => s.server.primary = true ∧
      ∀ r ∈ s.server.log, r.ByPrimary) (fun s a t hs h => ?_) ⟨rfl, fun r hr => (by cases hr)⟩ hr
    obtain ⟨hp, hlog⟩ := hs
    cases a with
    | request q =>
        obtain ⟨-, r, hh, rfl⟩ := step_request h
        have hdid := handle_request_cases hp hh
        exact ⟨hdid.frame.1.trans hp, hdid.byPrimary hlog⟩
    | writeTemp =>
        rw [Primary.step] at h
        split at h
        · cases h
          exact ⟨hp, hlog⟩
        · cases h
    | rename =>
        rw [Primary.step] at h
        split at h
        · cases h
          exact ⟨hp, hlog⟩
        · cases h
    | truncateLog =>
        rw [Primary.step] at h
        split at h
        · cases h
          exact ⟨hp, fun r hr => (by cases hr)⟩
        · cases h
  exact hinv.2

/--
**A log may be replayed again, whole or from any record on, if and only if** it has
no `DELETE` of an absent (row, column) that comes before a `PUT` of it, while
(row, row) is there and is neither put nor erased from then on.
-/
theorem replay_again_iff {log : List LogRecord} (hlog : ∀ r ∈ log, r.ByPrimary) (t : Bmap) :
    (∀ before after, log = before ++ after →
      (recoverLog (after.flatMap LogRecord.text) (recoverLog (log.flatMap LogRecord.text) t)).view
        = (recoverLog (log.flatMap LogRecord.text) t).view) ↔
    ¬ Lib.Overtaken t.view (readEntries (log.flatMap LogRecord.text)) := by
  constructor
  · intro hagain hover
    have hsame := hagain [] log rfl
    rw [view_recoverLog, view_recoverLog] at hsame
    exact Lib.redo_overtaken (apart_readEntries _) hover (fun _ _ => id) hsame
  · rintro hnot before after rfl
    have happend := readEntries_append after fun r hr => hlog r (List.mem_append_left _ hr)
    have hapart := apart_readEntries ((before ++ after).flatMap LogRecord.text)
    rw [happend] at hnot hapart
    rw [view_recoverLog, view_recoverLog, happend]
    exact Lib.redo_suffix hapart hnot

/-- Two puts and a `DELETE` that is carried out, and one of an absent key. -/
def calmLog : List LogRecord :=
  [.put 1 ['a'] ['x'] ['1', '\r', '\n'], .delete 2 ['a'] ['x'], .delete 3 ['a'] ['y'],
   .put 4 ['b'] ['b'] []]

theorem calmLog_again :
    ¬ Lib.Overtaken (∅ : Bmap).view (readEntries (calmLog.flatMap LogRecord.text)) ∧
    ∀ before after, calmLog = before ++ after →
      (recoverLog (after.flatMap LogRecord.text)
        (recoverLog (calmLog.flatMap LogRecord.text) ∅)).view
        = (recoverLog (calmLog.flatMap LogRecord.text) ∅).view := by
  have hcalm : ¬ Lib.Overtaken (∅ : Bmap).view (readEntries (calmLog.flatMap LogRecord.text)) := by
    decide
  exact ⟨hcalm, (replay_again_iff (by decide) ∅).mpr hcalm⟩

/-- A refused `DELETE` of a column that is made later, in a row with a column of its own name. -/
def earlyDelete : List Request :=
  [.put ['a'] ['a'] ['1', '\r', '\n'], .delete ['a'] ['b'],
   .cput ['a'] ['b'] oldNULL ['2', '\r', '\n']]

/-- Replayed twice, the `DELETE` of `earlyDelete` finds its column and erases the other one. -/
theorem earlyDelete_not_again :
    ∃ s, Lib.run Primary.step Primary.start (earlyDelete.map .request) = some s ∧
      (recoverLog s.server.logText ∅).view (['a'], ['a']) = some ['1', '\r', '\n'] ∧
      (recoverLog s.server.logText (recoverLog s.server.logText ∅)).view (['a'], ['a']) = none ∧
      (recoverLog s.server.logText (recoverLog s.server.logText ∅)).view
        ≠ (recoverLog s.server.logText ∅).view := by
  refine ⟨_, rfl, by decide, by decide, fun h => ?_⟩
  exact absurd (congrFun h (['a'], ['a'])) (by decide)

end PennCloud
