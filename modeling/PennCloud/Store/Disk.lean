import PennCloud.Lib.Lines
import PennCloud.Lib.Updates
import PennCloud.Store.Server

/-!
# The two files of a server, and how they are read back

`checkpointing.cc`: the text `writeToDisk` prints, and the replay loops that read
`checkpoint.txt` and `log.txt` back into a table. Both loops pile up lines until
one that is just a dot and hand the pile to a command parser; the parsers look
for `"\n.\n"` and `<..>` in it once more.
-/

namespace PennCloud

open Str

/-- A line with a lone dot. -/
def dot : Str := ['.']

/-- `"\n.\n"`. -/
def dotNl : Str := ['\n', '.', '\n']

/-! ## `writeToDisk` -/

/-- One cell, as `writeToDisk` prints it. -/
def cellText (row col data : Str) : Str := header kwPUT row col ['\n'] ++ data ++ dotNl

/-- The cells of a table in the order of its iterators. -/
def Bmap.cells (t : Bmap) : List (Str × Str × Str) :=
  t.toList.flatMap fun r => r.2.toList.map fun c => (r.1, c.1, c.2)

def versionHead : Str := "Version number: <".toList

/-- The first line of a checkpoint file. -/
def versionLine (version : Int) : Str := versionHead ++ decimal version ++ ['>']

namespace Checkpoint

/-- The contents of a checkpoint file. -/
def text (c : Checkpoint) : Str :=
  versionLine c.version ++ '\n' :: c.table.cells.flatMap fun p => cellText p.1 p.2.1 p.2.2

end Checkpoint

/-! ## Reading them back -/

/-- `replyCheckpointCommand`. -/
def replyCheckpointCommand (table : Bmap) (str : Str) : Bmap :=
  let pos := str.find ['\n']
  let putLine := str.substr 0 pos
  let row := angled putLine
  let col := angled (pastAngled putLine)
  let data := str.substr (pos + 1) (str.find dotNl - pos - 1)
  table.set row col data

/-- `replayLogCommand`. A `DELETE` erases the column named `row`. -/
def replayLogCommand (table : Bmap) (str : Str) : Bmap :=
  let isDelete := str.substr 0 (str.find [' ']) = kwDELETE
  let pos := str.find ['\n']
  let putLine := str.substr 0 pos
  let row := angled putLine
  let col := angled (pastAngled putLine)
  let str := str.substr (pos + 1)
  let pos := str.find ['\n']
  if isDelete then
    if table.hasRow row && (table.at? row col).isSome then table.eraseCol row row else table
  else
    let str := str.substr (pos + 1)
    let data := str.substr 0 (str.find dotNl)
    table.set row col data

/-- `recoverCheckpoint`, from the file's contents: the first line is skipped. -/
def recoverCheckpoint (contents : Str) (table : Bmap) : Bmap :=
  Lib.foldBlocks '\n' dot replyCheckpointCommand (Lib.lines '\n' contents).tail [] table

/-- `recoverLog`, from the file's contents. -/
def recoverLog (contents : Str) (table : Bmap) : Bmap :=
  Lib.foldBlocks '\n' dot replayLogCommand (Lib.lines '\n' contents) [] table

/-- What is on a server's disk. -/
def Server.logText (s : Server) : Str := s.log.flatMap LogRecord.text

/-- The table that `recoverCheckpoint` and `recoverLog` build on an empty one. -/
def Server.recovered (s : Server) : Bmap :=
  recoverLog s.logText
    (match s.checkpoint with
      | none => ∅
      | some c => recoverCheckpoint c.text ∅)

/-! ## What survives the framing -/

/-- A row or column that fits a command line of the files. -/
def FileName (s : Str) : Prop := '\n' ∉ s ∧ '>' ∉ s

/-- Contents without a line that is just a dot. -/
def DotFree (d : Str) : Prop := dot ∉ Lib.lines '\n' (d ++ ['\n'])

instance : DecidablePred FileName := fun _ => inferInstanceAs (Decidable (_ ∧ _))
instance : DecidablePred DotFree := fun _ => inferInstanceAs (Decidable (¬ _))

/-- The command line of a record or a cell is read back as it was printed. -/
theorem readLine_header {kw row col : Str} (tail : Str)
    (hkw : ∀ c ∈ kw, c ≠ '\n' ∧ c ≠ '<' ∧ c ≠ '>')
    (hr : FileName row) (hc : FileName col) :
    let str := header kw row col ('\n' :: tail)
    str.find ['\n'] = (header kw row col []).length ∧
      angled (str.substr 0 (str.find ['\n'])) = row ∧
      angled (pastAngled (str.substr 0 (str.find ['\n']))) = col ∧
      str.substr (str.find ['\n'] + 1) = tail := by
  intro str
  have hstr : str = header kw row col [] ++ '\n' :: tail := by simp [str, header]
  have hnl : '\n' ∉ header kw row col [] := by
    have hk : '\n' ∉ kw := fun h => (hkw _ h).1 rfl
    simp [header, hk, hr.1, hc.1]
  have hlt : '<' ∉ kw ++ [' '] := by
    have hk : '<' ∉ kw := fun h => (hkw _ h).2.1 rfl
    simp [hk]
  have hgt : '>' ∉ kw ++ [' '] := by
    have hk : '>' ∉ kw := fun h => (hkw _ h).2.2 rfl
    simp [hk]
  have hfind : str.find ['\n'] = (header kw row col []).length := by
    rw [hstr]
    exact find_sep _ hnl
  have hline : str.substr 0 (str.find ['\n']) = header kw row col [] := by
    rw [hfind, hstr]
    exact substr_middle [] _ _ rfl rfl
  refine ⟨hfind, ?_, ?_, ?_⟩
  · rw [hline, header]
    exact angled_field _ hlt hgt hr.2
  · rw [hline, header, pastAngled_field _ hgt hr.2]
    exact angled_field _ (by decide) (by decide) hc.2
  · rw [hfind, hstr]
    exact substr_after (header kw row col []) '\n' tail

theorem keyword_plain {kw : Str} (h : kw = kwPUT ∨ kw = kwDELETE) :
    ∀ c ∈ kw, c ≠ '\n' ∧ c ≠ '<' ∧ c ≠ '>' := by
  rcases h with rfl | rfl <;> simp [kwPUT, kwDELETE]

/-- A printed cell sets what it was printed from. -/
theorem replyCheckpointCommand_cell {row col data : Str} (hr : FileName row) (hc : FileName col)
    (hd : DotFree data) (t : Bmap) :
    replyCheckpointCommand t (cellText row col data) = t.set row col data := by
  have htext : cellText row col data = header kwPUT row col ('\n' :: (data ++ dotNl)) := by
    simp [cellText, header]
  obtain ⟨hfind, hrow, hcol, -⟩ :=
    readLine_header (data ++ dotNl) (keyword_plain (Or.inl rfl)) hr hc
  rw [← htext] at hfind hrow hcol
  have hsplit : cellText row col data
      = header kwPUT row col [] ++ ('\n' :: data ++ ('\n' :: dot ++ ['\n'])) := by
    simp [cellText, header, dotNl, dot]
  have hnl : '\n' ∉ header kwPUT row col [] := by simp [header, kwPUT, hr.1, hc.1]
  have hstop : (cellText row col data).find dotNl
      = (header kwPUT row col [] ++ '\n' :: data).length := by
    rw [List.length_append]
    refine find_of_firstIdx ?_
    have hfree : dot ∉ Lib.lines '\n' ('\n' :: data ++ ['\n']) := by
      rw [List.cons_append, Lib.lines, if_pos rfl, List.mem_cons, not_or]
      exact ⟨by decide, hd⟩
    rw [hsplit, dotNl, Lib.firstIdx_skip _ hnl]
    show (Lib.firstIdx ('\n' :: dot ++ ['\n']) _).map _ = _
    rw [Lib.firstIdx_stop (by decide) hfree]
    rfl
  have hdata : (cellText row col data).substr ((cellText row col data).find ['\n'] + 1)
      ((cellText row col data).find dotNl - (cellText row col data).find ['\n'] - 1) = data := by
    rw [hstop, hfind, Int.sub_sub, show cellText row col data
      = header kwPUT row col [] ++ '\n' :: data ++ dotNl by simp [cellText, header]]
    exact substr_between (header kwPUT row col []) '\n' data dotNl
  simp only [replyCheckpointCommand, hrow, hcol, hdata]

/-! ## Log records -/

namespace LogRecord

/-- The record keeps to the framing of the log. -/
def Clean : LogRecord → Prop
  | put _ row col data => FileName row ∧ FileName col ∧ DotFree data
  | replicaPut _ row col data =>
      FileName row ∧ FileName col ∧ ∃ d, data = d ++ ['\n'] ∧ DotFree d
  | delete _ row col => FileName row ∧ FileName col

instance : DecidablePred Clean := fun r =>
  match r with
  | put .. => inferInstanceAs (Decidable (_ ∧ _ ∧ _))
  | delete .. => inferInstanceAs (Decidable (_ ∧ _))
  | replicaPut _ row col data =>
    decidable_of_iff (FileName row ∧ FileName col ∧ data.getLast? = some '\n' ∧
        DotFree data.dropLast) <| by
      refine and_congr_right fun _ => and_congr_right fun _ => ⟨fun h => ?_, ?_⟩
      · exact ⟨data.dropLast, (List.dropLast_append_getLast? _ h.1).symm, h.2⟩
      · rintro ⟨d, rfl, hd⟩
        rw [List.dropLast_concat]
        exact ⟨by simp, hd⟩

/-- What a clean record does to the table when it is replayed. -/
def replayOn (t : Bmap) : LogRecord → Bmap
  | put _ row col data => t.set row col data
  | replicaPut _ row col data => t.set row col data.dropLast
  | delete _ row col => if (t.at? row col).isSome then t.eraseCol row row else t

end LogRecord

/-- The data of a `PUT` record is what comes before the first `"\n.\n"` behind its two lines. -/
theorem replayLogCommand_rest {row col : Str} (hr : FileName row) (hc : FileName col) (seq : Int)
    (rest : Str) (t : Bmap) :
    replayLogCommand t (header kwPUT row col ('\n' :: (decimal seq ++ '\n' :: rest)))
      = t.set row col (rest.substr 0 (rest.find dotNl)) := by
  obtain ⟨hfind, hrow, hcol, hrest⟩ := readLine_header (decimal seq ++ '\n' :: rest)
    (keyword_plain (Or.inl rfl)) hr hc
  have hkind : (header kwPUT row col ('\n' :: (decimal seq ++ '\n' :: rest))).substr 0
      ((header kwPUT row col ('\n' :: (decimal seq ++ '\n' :: rest))).find [' ']) ≠ kwDELETE := by
    show ['P', 'U', 'T'] ≠ _
    decide
  have hseq : '\n' ∉ decimal seq := notMem_decimal (by decide) (by decide)
  have hdata : (decimal seq ++ '\n' :: rest).substr
      ((decimal seq ++ '\n' :: rest).find ['\n'] + 1) = rest := by
    rw [find_sep _ hseq]
    exact substr_after (decimal seq) '\n' rest
  simp only [replayLogCommand, hrow, hcol, hrest, if_neg hkind, hdata]

theorem replayLogCommand_put {row col : Str} (hr : FileName row) (hc : FileName col) (seq : Int)
    {d : Str} (hd : DotFree d) (t : Bmap) :
    replayLogCommand t (header kwPUT row col ('\n' :: (decimal seq ++ '\n' :: (d ++ dotNl))))
      = t.set row col d := by
  have hstop : (d ++ dotNl).find dotNl = d.length :=
    find_of_firstIdx (show Lib.firstIdx ('\n' :: dot ++ ['\n']) _ = _ from
      Lib.firstIdx_stop (by decide) hd)
  have hcut : (d ++ dotNl).substr 0 d.length = d := substr_middle [] _ _ rfl rfl
  rw [replayLogCommand_rest hr hc, hstop, hcut]

theorem replayLogCommand_delete {row col : Str} (hr : FileName row) (hc : FileName col) (seq : Int)
    (t : Bmap) :
    replayLogCommand t (LogRecord.delete seq row col).text
      = (LogRecord.delete seq row col).replayOn t := by
  have htext : (LogRecord.delete seq row col).text
      = header kwDELETE row col ('\n' :: (decimal seq ++ ['\n', '.', '\n'])) := by
    simp [LogRecord.text, LogRecord.body, header]
  obtain ⟨hfind, hrow, hcol, hrest⟩ := readLine_header (decimal seq ++ ['\n', '.', '\n'])
    (keyword_plain (Or.inr rfl)) hr hc
  have hkind : (header kwDELETE row col ('\n' :: (decimal seq ++ ['\n', '.', '\n']))).substr 0
      ((header kwDELETE row col ('\n' :: (decimal seq ++ ['\n', '.', '\n']))).find [' '])
        = kwDELETE := rfl
  have hpresent : (t.hasRow row && (t.at? row col).isSome) = (t.at? row col).isSome := by
    cases hat : t.at? row col with
    | none => simp
    | some v => simp [Nested.hasRow_of_at? hat]
  rw [htext]
  simp only [replayLogCommand, hrow, hcol, if_pos hkind, hpresent, LogRecord.replayOn]

/-- **A clean record is replayed as its kind says.** -/
theorem replayLogCommand_record {r : LogRecord} (hr : r.Clean) (t : Bmap) :
    replayLogCommand t r.text = r.replayOn t := by
  cases r with
  | put seq row col data =>
      rw [LogRecord.replayOn, ← replayLogCommand_put hr.1 hr.2.1 seq hr.2.2 t]
      simp [LogRecord.text, LogRecord.body, header, dotNl]
  | replicaPut seq row col data =>
      obtain ⟨hrow, hcol, d, rfl, hd⟩ := hr
      rw [LogRecord.replayOn, List.dropLast_concat, ← replayLogCommand_put hrow hcol seq hd t]
      simp [LogRecord.text, LogRecord.body, header, dotNl]
  | delete seq row col => exact replayLogCommand_delete hr.1 hr.2 seq t

/-! ## Whole files -/

theorem header_ne_dot (kw row col : Str) : header kw row col [] ≠ dot := by
  intro h
  have hlen := congrArg List.length h
  simp [header, dot] at hlen
  omega

theorem decimal_ne_dot (seq : Int) : decimal seq ≠ dot := by
  intro h
  exact notMem_decimal (n := seq) (c := '.') (by decide) (by decide) (by rw [h]; decide)

/-- The lines of a command line and what follows it. -/
theorem dot_notMem_header {kw row col tail : Str} (hkw : ∀ c ∈ kw, c ≠ '\n' ∧ c ≠ '<' ∧ c ≠ '>')
    (hr : FileName row) (hc : FileName col) (htail : dot ∉ Lib.lines '\n' tail) :
    dot ∉ Lib.lines '\n' (header kw row col ('\n' :: tail)) := by
  have hk : '\n' ∉ kw := fun h => (hkw _ h).1 rfl
  have hnl : '\n' ∉ header kw row col [] := by simp [header, hk, hr.1, hc.1]
  rw [show header kw row col ('\n' :: tail) = header kw row col [] ++ '\n' :: tail by simp [header],
    Lib.lines_line _ hnl, List.mem_cons, not_or]
  exact ⟨(header_ne_dot kw row col).symm, htail⟩

theorem dot_notMem_seq {tail : Str} (seq : Int) (htail : dot ∉ Lib.lines '\n' tail) :
    dot ∉ Lib.lines '\n' (decimal seq ++ '\n' :: tail) := by
  rw [Lib.lines_line _ (notMem_decimal (by decide) (by decide)), List.mem_cons, not_or]
  exact ⟨(decimal_ne_dot seq).symm, htail⟩

/-- A clean record is one block of the log. -/
theorem LogRecord.Clean.block {r : LogRecord} (hr : r.Clean) :
    Lib.Terminated '\n' r.body ∧ dot ∉ Lib.lines '\n' r.body := by
  cases r with
  | put seq row col data =>
      refine ⟨Or.inr ⟨header kwPUT row col ('\n' :: (decimal seq ++ '\n' :: data)), ?_⟩, ?_⟩
      · simp [LogRecord.body, header]
      · exact dot_notMem_header (keyword_plain (Or.inl rfl)) hr.1 hr.2.1 (dot_notMem_seq seq hr.2.2)
  | replicaPut seq row col data =>
      obtain ⟨hrow, hcol, d, rfl, hd⟩ := hr
      refine ⟨Or.inr ⟨header kwPUT row col ('\n' :: (decimal seq ++ '\n' :: d)), ?_⟩, ?_⟩
      · simp [LogRecord.body, header]
      · exact dot_notMem_header (keyword_plain (Or.inl rfl)) hrow hcol (dot_notMem_seq seq hd)
  | delete seq row col =>
      refine ⟨Or.inr ⟨header kwDELETE row col ('\n' :: decimal seq), ?_⟩, ?_⟩
      · simp [LogRecord.body, header]
      · exact dot_notMem_header (keyword_plain (Or.inr rfl)) hr.1 hr.2
          (dot_notMem_seq seq (by simp))

/-- **A log of clean records is replayed record by record.** -/
theorem recoverLog_records {log : List LogRecord} (hlog : ∀ r ∈ log, r.Clean) (t : Bmap) :
    recoverLog (log.flatMap LogRecord.text) t = log.foldl LogRecord.replayOn t := by
  induction log generalizing t with
  | nil => rfl
  | cons r log ih =>
      have hr := hlog r (List.mem_cons_self ..)
      obtain ⟨hterm, hfree⟩ := hr.block
      have htext : r.text ++ log.flatMap LogRecord.text
          = r.body ++ dot ++ '\n' :: log.flatMap LogRecord.text := by
        simp [LogRecord.text, dot]
      have hblock := Lib.foldBlocks_block (f := replayLogCommand) (log.flatMap LogRecord.text) t
        hterm (show '\n' ∉ dot by decide) hfree
      rw [List.flatMap_cons, recoverLog, htext, hblock, List.foldl_cons]
      show recoverLog _ (replayLogCommand t r.text) = _
      rw [replayLogCommand_record hr]
      exact ih (fun r h => hlog r (List.mem_cons_of_mem _ h)) _

/-! ## Tables -/

/-- All of a table's keys and contents keep to the framing of the files. -/
def Bmap.Clean (t : Bmap) : Prop :=
  ∀ row col data, t.at? row col = some data → FileName row ∧ FileName col ∧ DotFree data

theorem Bmap.mem_cells {t : Bmap} {row col data : Str} :
    (row, col, data) ∈ t.cells ↔ t.at? row col = some data := by
  simp only [Bmap.cells, List.mem_flatMap, List.mem_map, Prod.mk.injEq]
  constructor
  · rintro ⟨⟨r, m⟩, hm, ⟨c, d⟩, hd, rfl, rfl, rfl⟩
    rw [Std.TreeMap.mem_toList_iff_getElem?_eq_some] at hm hd
    rw [Nested.at?, hm]
    exact hd
  · intro h
    rw [Nested.at?, Option.bind_eq_some_iff] at h
    obtain ⟨m, hm, hd⟩ := h
    exact ⟨(row, m), Std.TreeMap.mem_toList_iff_getElem?_eq_some.mpr hm, (col, data),
      Std.TreeMap.mem_toList_iff_getElem?_eq_some.mpr hd, rfl, rfl, rfl⟩

instance : DecidablePred Bmap.Clean := fun t =>
  decidable_of_iff (∀ p ∈ t.cells, FileName p.1 ∧ FileName p.2.1 ∧ DotFree p.2.2)
    ⟨fun h _ _ _ hat => h _ (Bmap.mem_cells.mpr hat), fun h _ hp => h _ _ _ (Bmap.mem_cells.mp hp)⟩

/-- The cells of a clean table are replayed cell by cell. -/
theorem recoverCheckpoint_cells {cells : List (Str × Str × Str)}
    (hcells : ∀ p ∈ cells, FileName p.1 ∧ FileName p.2.1 ∧ DotFree p.2.2) (t : Bmap) :
    Lib.foldBlocks '\n' dot replyCheckpointCommand
        (Lib.lines '\n' (cells.flatMap fun p => cellText p.1 p.2.1 p.2.2)) [] t
      = cells.foldl (fun t p => t.set p.1 p.2.1 p.2.2) t := by
  induction cells generalizing t with
  | nil => rfl
  | cons p cells ih =>
      obtain ⟨hr, hc, hd⟩ := hcells p (List.mem_cons_self ..)
      have htext : cellText p.1 p.2.1 p.2.2 ++ (cells.flatMap fun p => cellText p.1 p.2.1 p.2.2)
          = header kwPUT p.1 p.2.1 ('\n' :: (p.2.2 ++ ['\n'])) ++ dot
            ++ '\n' :: (cells.flatMap fun p => cellText p.1 p.2.1 p.2.2) := by
        simp [cellText, header, dot, dotNl]
      have hterm : Lib.Terminated '\n' (header kwPUT p.1 p.2.1 ('\n' :: (p.2.2 ++ ['\n']))) :=
        Or.inr ⟨header kwPUT p.1 p.2.1 ('\n' :: p.2.2), by simp [header]⟩
      have hblock := Lib.foldBlocks_block (f := replyCheckpointCommand)
        (cells.flatMap fun p => cellText p.1 p.2.1 p.2.2) t hterm (show '\n' ∉ dot by decide)
        (dot_notMem_header (keyword_plain (Or.inl rfl)) hr hc hd)
      have hcell : header kwPUT p.1 p.2.1 ('\n' :: (p.2.2 ++ ['\n'])) ++ dot ++ ['\n']
          = cellText p.1 p.2.1 p.2.2 := by
        simp [cellText, header, dot, dotNl]
      rw [List.flatMap_cons, htext, hblock, hcell, replyCheckpointCommand_cell hr hc hd]
      exact ih (fun p h => hcells p (List.mem_cons_of_mem _ h)) _

theorem view_foldl_set (cells : List (Str × Str × Str)) (t : Bmap) :
    (cells.foldl (fun t p => t.set p.1 p.2.1 p.2.2) t).view
      = Lib.replay t.view (cells.map fun p => ((p.1, p.2.1), some p.2.2)) := by
  induction cells generalizing t with
  | nil => rfl
  | cons p cells ih =>
      rw [List.foldl_cons, ih, List.map_cons, Lib.replay, Nested.view_set]
      rfl

theorem noNl_versionLine (version : Int) : '\n' ∉ versionLine version := by
  have hhead : '\n' ∉ versionHead := by decide
  have hdec : '\n' ∉ decimal version := notMem_decimal (by decide) (by decide)
  rw [versionLine, List.mem_append, List.mem_append, not_or, not_or]
  exact ⟨⟨hhead, hdec⟩, by decide⟩

/-- **A clean table comes back from its checkpoint.** -/
theorem recoverCheckpoint_text {c : Checkpoint} (hc : c.table.Clean) :
    (recoverCheckpoint c.text ∅).view = c.table.view := by
  have hnl := noNl_versionLine c.version
  rw [recoverCheckpoint, Checkpoint.text, Lib.lines_line _ hnl, List.tail_cons,
    recoverCheckpoint_cells (fun p hp => hc _ _ _ (Bmap.mem_cells.mp hp)), view_foldl_set]
  funext k
  obtain ⟨row, col⟩ := k
  cases hat : c.table.at? row col with
  | none =>
      rw [Lib.replay_of_notMem]
      · rw [Nested.view_empty, Nested.view, hat]
        rfl
      · -- no cell of the table has this key
        intro hk
        simp only [List.map_map, List.mem_map, Function.comp_apply, Prod.mk.injEq] at hk
        obtain ⟨⟨r, c', d⟩, hp, rfl, rfl⟩ := hk
        rw [Bmap.mem_cells.mp hp] at hat
        cases hat
  | some d =>
      have hmem : ((row, col), some d)
          ∈ c.table.cells.map fun p => ((p.1, p.2.1), some p.2.2) :=
        List.mem_map.mpr ⟨(row, col, d), Bmap.mem_cells.mpr hat, rfl⟩
      have hagree : ∀ v ∈ c.table.cells.map fun p => ((p.1, p.2.1), some p.2.2),
          v.1 = (row, col) → v.2 = some d := by
        intro v hv hk
        obtain ⟨⟨r, c', d'⟩, hp, rfl⟩ := List.mem_map.mp hv
        obtain ⟨rfl, rfl⟩ := Prod.mk.inj hk
        have hat' := Bmap.mem_cells.mp hp
        rw [hat] at hat'
        exact hat'.symm
      rw [Nested.view, hat]
      exact Lib.replay_of_agree hmem hagree _

/-! ## Records as assignments -/

namespace LogRecord

/-- A clean record that is not a `DELETE` of a column other than its row's namesake. -/
def Faithful (r : LogRecord) : Prop :=
  r.Clean ∧ ∀ seq row col, r = delete seq row col → row = col

instance : DecidablePred Faithful := fun r =>
  match r with
  | put .. | replicaPut .. =>
      decidable_of_iff (Clean _) ⟨fun h => ⟨h, fun _ _ _ he => by cases he⟩, And.left⟩
  | delete seq row col =>
    decidable_of_iff ((delete seq row col).Clean ∧ row = col) <|
      and_congr_right fun _ => ⟨fun h _ _ _ he => by cases he; exact h, fun h => h _ _ _ rfl⟩

/-- The assignment a faithful record stands for. -/
def update : LogRecord → Key × Option Str
  | put _ row col data => ((row, col), some data)
  | replicaPut _ row col data => ((row, col), some data.dropLast)
  | delete _ row col => ((row, col), none)

theorem view_replayOn {r : LogRecord} (hr : r.Faithful) (t : Bmap) :
    (r.replayOn t).view = Function.update t.view r.update.1 r.update.2 := by
  cases r with
  | put seq row col data => exact Nested.view_set ..
  | replicaPut seq row col data => exact Nested.view_set ..
  | delete seq row col =>
      obtain rfl : row = col := hr.2 _ _ _ rfl
      rw [replayOn]
      cases hat : t.at? row row with
      | none => exact (Function.update_eq_self_iff.mpr hat.symm).symm
      | some d => exact Nested.view_eraseCol ..

end LogRecord

/-- What the files of a server stand for, as long as they are faithful. -/
def Server.onDisk (s : Server) : Contents :=
  Lib.replay ((s.checkpoint.map fun c => c.table.view).getD Contents.empty)
    (s.log.map LogRecord.update)

theorem view_foldl_replayOn {log : List LogRecord} (hlog : ∀ r ∈ log, r.Faithful) (t : Bmap) :
    (log.foldl LogRecord.replayOn t).view = Lib.replay t.view (log.map LogRecord.update) := by
  induction log generalizing t with
  | nil => rfl
  | cons r log ih =>
      rw [List.foldl_cons, ih (fun r h => hlog r (List.mem_cons_of_mem _ h)), List.map_cons,
        Lib.replay, LogRecord.view_replayOn (hlog r (List.mem_cons_self ..))]

/-- **Faithful files are read back as what they stand for.** -/
theorem recovered_view {s : Server} (hlog : ∀ r ∈ s.log, r.Faithful)
    (hckpt : ∀ c ∈ s.checkpoint, c.table.Clean) : s.recovered.view = s.onDisk := by
  rw [Server.recovered, Server.logText, recoverLog_records (fun r h => (hlog r h).1),
    view_foldl_replayOn hlog, Server.onDisk]
  cases hc : s.checkpoint with
  | none => rw [Nested.view_empty]; rfl
  | some c =>
      show Lib.replay (recoverCheckpoint c.text ∅).view _ = _
      rw [recoverCheckpoint_text (hckpt c hc)]
      rfl

end PennCloud
