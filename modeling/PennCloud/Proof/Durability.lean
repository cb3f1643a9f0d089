import PennCloud.Lib.Runs
import PennCloud.Store.Disk
import PennCloud.Store.Handlers

/-!
# The primary's table survives a crash

A primary handles requests and writes checkpoints; after a crash
`recoverCheckpoint` and `recoverLog` read its files into an empty table.
`writeToDisk` is three file operations, and no request is handled between them
(it holds the map lock), but a crash can come there.

The invariant is that the log, as a list of assignments, replayed over the
checkpoint gives the table. It does not mind a checkpoint that is newer than the
log it is replayed with: a log may be replayed over its own result
(`Lib.replay_again`). What it does need is that the files can be read back. Names
and contents must keep to the framing, and a `DELETE` must be of a column named
like its row, because `replayLogCommand` erases the column named `row`.
-/

namespace PennCloud

open Str

/-- How far `writeToDisk` has got. -/
inductive CheckpointPhase
  | idle
  /-- The temporary file is written. -/
  | written
  /-- It has been renamed to `checkpoint.txt`; the log is still there. -/
  | renamed
  deriving DecidableEq, Repr

/-- A primary with its files. -/
structure Primary where
  server : Server
  /-- The temporary file `tem.txt`. -/
  temp : Option Checkpoint := none
  phase : CheckpointPhase := .idle

/-- What a primary does, one file operation of `writeToDisk` at a time. -/
inductive PrimaryAction
  | request (q : Request)
  | writeTemp
  | rename
  | truncateLog

namespace Primary

/-- A primary with an empty table and no files. -/
def start : Primary := { server := { primary := true } }

/-- One action; a request waits for `writeToDisk` to release the map lock. -/
def step (s : Primary) : PrimaryAction → Option Primary
  | .request q =>
    if s.phase = .idle then
      (s.server.handle q.call).toOption.map fun r => { s with server := r.server }
    else none
  | .writeTemp =>
    if s.phase = .idle then
      some { s with
        temp := some { version := s.server.seqID, table := s.server.table }, phase := .written }
    else none
  | .rename =>
    if s.phase = .written then
      some { s with
        server := { s.server with checkpoint := s.temp }, temp := none, phase := .renamed }
    else none
  | .truncateLog =>
    if s.phase = .renamed then
      some { s with server := { s.server with log := [] }, phase := .idle }
    else none

end Primary

/-- The request leaves a log record that `recoverLog` understands. -/
def DurableSafe (s : Server) : Request → Prop
  | .put row col data => FileName row ∧ FileName col ∧ DotFree data
  | .cput row col oldData newData =>
      CputHolds s.table.view (row, col) oldData → FileName row ∧ FileName col ∧ DotFree newData
  | .get .. => True
  | .delete row col => FileName row ∧ FileName col ∧ row = col

instance (s : Server) : DecidablePred (DurableSafe s)
  | .put row col data => inferInstanceAs (Decidable (FileName row ∧ FileName col ∧ DotFree data))
  | .cput row col oldData newData => inferInstanceAs (Decidable
      (CputHolds s.table.view (row, col) oldData → FileName row ∧ FileName col ∧ DotFree newData))
  | .get .. => .isTrue trivial
  | .delete row col => inferInstanceAs (Decidable (FileName row ∧ FileName col ∧ row = col))

theorem DurableSafe.delete {s : Server} {row col : Str} (h : DurableSafe s (.delete row col))
    (seq : Int) : (LogRecord.delete seq row col).Faithful := by
  obtain ⟨hrow, hcol, rfl⟩ := h
  refine ⟨⟨hrow, hcol⟩, fun _ _ _ he => ?_⟩
  cases he
  rfl

/-- The condition on an action of the primary. -/
def PrimaryAction.Durable (s : Primary) : PrimaryAction → Prop
  | .request q => DurableSafe s.server q
  | _ => True

instance (s : Primary) : DecidablePred (PrimaryAction.Durable s) := fun a => by
  cases a <;> (unfold PrimaryAction.Durable; infer_instance)

/-- The log, as assignments, replayed over the checkpoint gives the table; also one under way. -/
structure Primary.Stands (s : Primary) : Prop where
  role : s.server.primary = true
  onDisk : s.server.onDisk = s.server.table.view
  written : s.phase = .written → ∃ c, s.temp = some c ∧ c.table = s.server.table
  renamed : s.phase = .renamed → ∃ c, s.server.checkpoint = some c ∧ c.table = s.server.table

/-- The files of a server can be read back. -/
structure Server.Readable (s : Server) : Prop where
  records : ∀ r ∈ s.log, r.Faithful
  cells : s.table.Clean
  checkpoint : ∀ c ∈ s.checkpoint, c.table.Clean

/-- The invariant: the files stand for the table, and can be read back. -/
structure Primary.Inv (s : Primary) : Prop where
  stands : s.Stands
  readable : s.server.Readable

/-! ## What one step keeps -/

theorem Bmap.Clean.set {t : Bmap} (ht : t.Clean) {row col data : Str} (hr : FileName row)
    (hc : FileName col) (hd : DotFree data) : Bmap.Clean (t.set row col data) := by
  intro r c d h
  rw [Nested.at?_set] at h
  split at h
  · rename_i hkey
    obtain ⟨rfl, rfl⟩ := hkey
    cases h
    exact ⟨hr, hc, hd⟩
  · exact ht r c d h

theorem Bmap.Clean.eraseCol {t : Bmap} (ht : t.Clean) (row col : Str) :
    Bmap.Clean (t.eraseCol row col) := by
  intro r c d h
  rw [Nested.at?_eraseCol] at h
  split at h
  · cases h
  · exact ht r c d h

/-- More records are more assignments. -/
theorem onDisk_append {s t : Server} {rs : List LogRecord} (hlog : t.log = s.log ++ rs)
    (hckpt : t.checkpoint = s.checkpoint) :
    t.onDisk = Lib.replay s.onDisk (rs.map LogRecord.update) := by
  rw [Server.onDisk, Server.onDisk, hlog, hckpt, List.map_append, Lib.replay_append]

/-- **What a request changes is what it logs**: records that stand for its table change. -/
theorem Did.records {s : Server} {q : Request} {r : Reaction} (h : Did s q r) :
    ∃ rs : List LogRecord, r.server.log = s.log ++ rs ∧
      r.server.table.view = Lib.replay s.table.view (rs.map LogRecord.update) ∧
      (DurableSafe s q → s.table.Clean → (∀ r ∈ rs, r.Faithful) ∧ r.server.table.Clean) := by
  cases h with
  | stored row col data hw hnull hcput hr =>
      subst hr
      refine ⟨[.put (s.seqID + 1) row col data], rfl, Nested.view_set .., fun hq hclean => ?_⟩
      have hnames : FileName row ∧ FileName col ∧ DotFree data := by
        cases q with
        | put row' col' data' => cases hw; exact hq
        | cput row' col' oldData newData => cases hw; exact hq (hcput _ rfl)
        | get row' col' => cases hw
        | delete row' col' => cases hw
      refine ⟨fun r hr => ?_, hclean.set hnames.1 hnames.2.1 hnames.2.2⟩
      rw [List.mem_singleton.mp hr]
      exact ⟨hnames, fun _ _ _ he => by cases he⟩
  | erased row col d hreq hat hr =>
      subst hreq hr
      refine ⟨[.delete (s.seqID + 1) row col], rfl, Nested.view_eraseCol .., fun hq hclean => ?_⟩
      refine ⟨fun r hr => ?_, hclean.eraseCol row col⟩
      rw [List.mem_singleton.mp hr]
      exact hq.delete _
  | missed row col hreq hat hserver =>
      subst hreq
      rw [hserver]
      refine ⟨[.delete (s.seqID + 1) row col], rfl,
        (Function.update_eq_self_iff.mpr hat.symm).symm, fun hq hclean => ⟨fun r hr => ?_, hclean⟩⟩
      rw [List.mem_singleton.mp hr]
      exact hq.delete _
  | kept hreq hserver =>
      rw [hserver]
      exact ⟨[], by simp, rfl, fun _ hclean => ⟨fun r hr => (by cases hr), hclean⟩⟩

/-! ## Whole runs -/

/-- A request that a primary takes has been handled. -/
theorem step_request {s t : Primary} {q : Request} (h : s.step (.request q) = some t) :
    s.phase = .idle ∧ ∃ r, s.server.handle q.call = .ok r ∧ t = { s with server := r.server } := by
  rw [Primary.step] at h
  split at h
  · rename_i hidle
    obtain ⟨r, hh, rfl⟩ := map_toOption_some h
    exact ⟨hidle, r, hh, rfl⟩
  · cases h

/-- **The files stand for the table after every action**, whatever it is. -/
theorem stands_step {s t : Primary} {a : PrimaryAction} (hs : s.Stands) (h : s.step a = some t) :
    t.Stands := by
  cases a with
  | request q =>
      obtain ⟨hidle, r, hh, rfl⟩ := step_request h
      have hdid := handle_request_cases hs.role hh
      obtain ⟨hrole, hckpt⟩ := hdid.frame
      obtain ⟨rs, hlog, hview, -⟩ := hdid.records
      refine ⟨hrole.trans hs.role, ?_, fun hw => ?_, fun hw => ?_⟩
      · rw [onDisk_append hlog hckpt, hs.onDisk, hview]
      · exact (by cases hidle.symm.trans hw)
      · exact (by cases hidle.symm.trans hw)
  | writeTemp =>
      rw [Primary.step] at h
      split at h
      · cases h
        exact ⟨hs.role, hs.onDisk, fun _ => ⟨_, rfl, rfl⟩, fun hw => (by cases hw)⟩
      · cases h
  | rename =>
      rw [Primary.step] at h
      split at h
      · rename_i hwritten
        cases h
        obtain ⟨c, hc, htable⟩ := hs.written hwritten
        -- the log is now replayed over its own result
        refine ⟨hs.role, ?_, fun hw => (by cases hw), fun _ => ⟨c, hc, htable⟩⟩
        have hview := hs.onDisk
        show Lib.replay ((s.temp.map fun c => c.table.view).getD _) _ = s.server.table.view
        rw [hc, Option.map_some, Option.getD_some, htable, ← hview, Server.onDisk]
        exact Lib.replay_again _ [] _
      · cases h
  | truncateLog =>
      rw [Primary.step] at h
      split at h
      · rename_i hrenamed
        cases h
        obtain ⟨c, hc, htable⟩ := hs.renamed hrenamed
        refine ⟨hs.role, ?_, fun hw => (by cases hw), fun hw => (by cases hw)⟩
        show Lib.replay ((s.server.checkpoint.map fun c => c.table.view).getD _) [] = _
        rw [hc, Option.map_some, Option.getD_some, htable, Lib.replay_nil]
      · cases h

theorem stands_start : Primary.start.Stands :=
  ⟨rfl, Nested.view_empty.symm, fun hw => (by cases hw), fun hw => (by cases hw)⟩

/-- One action keeps the invariant under its condition. -/
theorem inv_step {s t : Primary} {a : PrimaryAction} (hs : s.Inv) (ha : a.Durable s)
    (h : s.step a = some t) : t.Inv := by
  refine ⟨stands_step hs.stands h, ?_⟩
  have hread := hs.readable
  cases a with
  | request q =>
      obtain ⟨-, r, hh, rfl⟩ := step_request h
      have hdid := handle_request_cases hs.stands.role hh
      obtain ⟨rs, hlog, -, hsafe⟩ := hdid.records
      obtain ⟨hrs, hcells⟩ := hsafe ha hread.cells
      refine ⟨fun q hq => ?_, hcells, fun c hc => hread.checkpoint c (hdid.frame.2 ▸ hc)⟩
      rcases List.mem_append.mp (hlog ▸ hq) with hq | hq
      · exact hread.records q hq
      · exact hrs q hq
  | writeTemp =>
      rw [Primary.step] at h
      split at h
      · cases h; exact hread
      · cases h
  | rename =>
      rw [Primary.step] at h
      split at h
      · rename_i hwritten
        cases h
        obtain ⟨c, hc, htable⟩ := hs.stands.written hwritten
        refine ⟨hread.records, hread.cells, fun c' hc' => ?_⟩
        rw [show c' = c from Option.some.inj (hc'.symm.trans hc), htable]
        exact hread.cells
      · cases h
  | truncateLog =>
      rw [Primary.step] at h
      split at h
      · cases h
        exact ⟨fun r hr => (by cases hr), hread.cells, hread.checkpoint⟩
      · cases h

theorem inv_start : Primary.start.Inv := by
  refine ⟨stands_start, fun r hr => (by cases hr), fun r c d h => ?_, fun c hc => (by cases hc)⟩
  rw [show Primary.start.server.table = (∅ : Bmap) from rfl, Nested.at?_empty] at h
  cases h

/--
**A crash loses nothing and brings nothing back.** In every state that a primary
reaches by requests and file operations that meet the condition, what
`recoverCheckpoint` and `recoverLog` would rebuild from its files is its table.
-/
theorem recovered_eq_table {as : List PrimaryAction} {t : Primary}
    (hg : Lib.Guarded Primary.step PrimaryAction.Durable Primary.start as)
    (hr : Lib.run Primary.step Primary.start as = some t) :
    t.server.recovered.view = t.server.table.view := by
  have hinv : t.Inv := Lib.inv_of_guarded (fun _ _ _ => inv_step) inv_start hg hr
  rw [recovered_view hinv.readable.records hinv.readable.checkpoint, hinv.stands.onDisk]

/-- Dots within lines, an empty cell, a deletion, and a checkpoint caught before its truncation. -/
def durableHistory : List PrimaryAction :=
  [.request (.put ['a'] ['x'] ['.', '\r', '\n', 'b', '.', '\n', '\r', '\n']), .writeTemp, .rename,
   .truncateLog, .request (.cput ['b'] ['b'] oldNULL []), .request (.put ['a'] ['x'] ['c']),
   .request (.delete ['b'] ['b']), .writeTemp, .rename]

theorem durableHistory_recovered :
    ∃ t, Lib.run Primary.step Primary.start durableHistory = some t ∧
      t.server.recovered.view = t.server.table.view :=
  ⟨_, rfl, recovered_eq_table (by decide : Lib.Guarded Primary.step PrimaryAction.Durable
    Primary.start durableHistory) rfl⟩

/-- A cell stored and deleted, its column not named like its row. -/
def deletedHistory : List PrimaryAction :=
  [.request (.put ['a'] ['b'] ['x', '\r', '\n']), .request (.delete ['a'] ['b'])]

/-- The deleted cell of `deletedHistory` comes back after a crash. -/
theorem deletedHistory_comes_back :
    ∃ t, Lib.run Primary.step Primary.start deletedHistory = some t ∧
      t.server.table.view (['a'], ['b']) = none ∧
      t.server.recovered.view (['a'], ['b']) = some ['x', '\r', '\n'] :=
  ⟨_, rfl, by decide, by decide⟩

end PennCloud
