import PennCloud.Concurrent.ReplicationOrder
import PennCloud.Proof.Durability

/-!
# Rows of a replica and of its primary

A table keeps a row when its last column is erased. `view` does not show it, but
the presence test of `parse_PUT` does, so two tables with one view need not react
alike. A replica can do what its primary has done as long as it has no row that
the primary has not (`moves_view`); no operation takes a row away, so this is kept
by everything that a replica does with its primary's commands and files.
-/

namespace PennCloud

/-- The rows a replay of the record may make. -/
def LogRecord.makes : LogRecord → List Str
  | put _ row _ _ | replicaPut _ row _ _ => [row]
  | delete .. => []

/-- The row a command may make. -/
def Forward.makes : Forward → List Str
  | .put row _ _ _ => [row]
  | .delete .. => []

/-- Every row of the server, in its table or its files, is one of `u`. -/
structure Server.Within (s : Server) (u : Bmap) : Prop where
  table : s.table.Within u
  log : ∀ r ∈ s.log, ∀ row ∈ r.makes, u.hasRow row = true
  checkpoint : ∀ c ∈ s.checkpoint, c.table.Within u

/-- And in the temporary file. -/
structure Primary.Within (s : Primary) (u : Bmap) : Prop where
  server : s.server.Within u
  temp : ∀ c ∈ s.temp, c.table.Within u

section Within

variable {s : Server} {t u v : Bmap}

theorem Server.Within.mono (h : s.Within u) (huv : u.Within v) : s.Within v :=
  ⟨h.table.trans huv, fun r hr row hrow => huv row (h.log r hr row hrow),
    fun c hc => (h.checkpoint c hc).trans huv⟩

theorem Primary.Within.mono {s : Primary} (h : s.Within u) (huv : u.Within v) : s.Within v :=
  ⟨h.server.mono huv, fun c hc => (h.temp c hc).trans huv⟩

theorem Server.Within.append (h : s.Within u) {s' : Server} {r : LogRecord}
    (hlog : s'.log = s.log ++ [r]) (hr : ∀ row ∈ r.makes, u.hasRow row = true)
    (hckpt : s'.checkpoint = s.checkpoint) (htable : s'.table.Within u) : s'.Within u := by
  refine ⟨htable, fun q hq => ?_, fun c hc => h.checkpoint c (hckpt ▸ hc)⟩
  rcases List.mem_append.mp (hlog ▸ hq) with hq | hq
  · exact h.log q hq
  · rw [List.mem_singleton.mp hq]
    exact hr

/-! ## Replays -/

theorem replayOn_within {r : LogRecord} (ht : t.Within u)
    (hr : ∀ row ∈ r.makes, u.hasRow row = true) : Nested.Within (r.replayOn t) u := by
  cases r with
  | put seq row col data => exact ht.set (hr row (List.mem_singleton.mpr rfl)) col data
  | replicaPut seq row col data => exact ht.set (hr row (List.mem_singleton.mpr rfl)) col _
  | delete seq row col =>
      rw [LogRecord.replayOn]
      cases hat : t.at? row col with
      | none => exact ht
      | some d => exact ht.eraseCol (Nested.hasRow_of_at? hat) row

theorem foldl_replayOn_within {log : List LogRecord} (ht : t.Within u)
    (hlog : ∀ r ∈ log, ∀ row ∈ r.makes, u.hasRow row = true) :
    Nested.Within (log.foldl LogRecord.replayOn t) u :=
  List.foldlRecOn (motive := fun t : Bmap => t.Within u) log _ ht fun _ ht r hr =>
    replayOn_within ht (hlog r hr)

theorem foldl_set_within {cells : List (Str × Str × Str)} (ht : t.Within u)
    (hcells : ∀ p ∈ cells, u.hasRow p.1 = true) :
    Nested.Within (cells.foldl (fun t p => t.set p.1 p.2.1 p.2.2) t) u :=
  List.foldlRecOn (motive := fun t : Bmap => t.Within u) cells _ ht fun _ ht p hp =>
    ht.set (hcells p hp) p.2.1 p.2.2

theorem recoverCheckpoint_within {c : Checkpoint} (hc : c.table.Clean) (h : c.table.Within u) :
    Nested.Within (recoverCheckpoint c.text ∅) u := by
  rw [recoverCheckpoint, Checkpoint.text, Lib.lines_line _ (noNl_versionLine c.version),
    List.tail_cons, recoverCheckpoint_cells fun p hp => hc _ _ _ (Bmap.mem_cells.mp hp)]
  exact foldl_set_within (Nested.empty_within u) fun p hp =>
    h _ (Nested.hasRow_of_at? (Bmap.mem_cells.mp hp))

/-! ## Steps -/

/-- A request of the primary makes the row it needs. -/
theorem Did.within {q : Request} {r : Reaction} (h : Did s q r) (hs : s.Within s.table) :
    s.table.Within r.server.table ∧ r.server.Within r.server.table := by
  cases h with
  | stored row col data hw hnull hcput hr =>
      subst hr
      have hgrow := Nested.within_set s.table row col data
      refine ⟨hgrow, (hs.mono hgrow).append rfl (fun r hr => ?_) rfl (Nested.Within.refl _)⟩
      rw [List.mem_singleton.mp hr]
      exact (Nested.hasRow_set ..).trans (by simp)
  | erased row col d hq hat hr =>
      subst hr
      have hgrow := Nested.within_eraseCol s.table row col
      exact ⟨hgrow, (hs.mono hgrow).append rfl (fun r hr => (by cases hr)) rfl
        (Nested.Within.refl _)⟩
  | missed row col hq hat hserver =>
      rw [hserver]
      exact ⟨Nested.Within.refl _, hs.append rfl (fun r hr => (by cases hr)) rfl hs.table⟩
  | kept hq hserver =>
      rw [hserver]
      exact ⟨Nested.Within.refl _, hs⟩

theorem Forward.Moves.makes {f : Forward} (hf : f.Moves t u) :
    ∀ row ∈ f.makes, u.hasRow row = true := by
  cases f with
  | put row col data seq =>
      intro r hr
      rw [show u = t.set row col data from hf, List.mem_singleton.mp hr]
      exact (Nested.hasRow_set ..).trans (by simp)
  | delete row col seq => exact fun r hr => (by cases hr)

/-- A replica makes no other rows than its commands ask for. -/
theorem follow_within {s' : Server} {f : Forward} (hs : s.Within u)
    (hf : ∀ row ∈ f.makes, u.hasRow row = true) (h : s.follow f = some s') : s'.Within u := by
  obtain ⟨r, hh, rfl⟩ := map_toOption_some h
  cases handle_forward_cases hh with
  | stored row col data seq he ht =>
      subst he
      rw [ht]
      have hrow := hf row (List.mem_singleton.mpr rfl)
      exact hs.append (r := .replicaPut seq row col data) rfl hf rfl (hs.table.set hrow col data)
  | erased row col d seq he hat ht =>
      subst he
      rw [ht]
      exact hs.append (r := .delete seq row col) rfl hf rfl
        (hs.table.eraseCol (Nested.hasRow_of_at? hat) col)
  | missed row col seq he hat ht =>
      subst he
      rw [ht]
      exact hs.append (r := .delete seq row col) rfl hf rfl hs.table

/-- The file operations of `writeToDisk` make no rows. -/
theorem disk_within {s s' : Primary} {a : PrimaryAction} (ha : ∀ q, a ≠ .request q)
    (hs : s.Within u) (h : s.step a = some s') : s'.Within u := by
  cases a with
  | request q => exact absurd rfl (ha q)
  | writeTemp =>
      rw [Primary.step] at h
      split at h
      · cases h
        refine ⟨hs.server, fun c hc => ?_⟩
        cases hc
        exact hs.server.table
      · cases h
  | rename =>
      rw [Primary.step] at h
      split at h
      · cases h
        exact ⟨⟨hs.server.table, hs.server.log, hs.temp⟩, fun c hc => (by cases hc)⟩
      · cases h
  | truncateLog =>
      rw [Primary.step] at h
      split at h
      · cases h
        exact ⟨⟨hs.server.table, fun r hr => (by cases hr), hs.server.checkpoint⟩, hs.temp⟩
      · cases h

/-- A file operation of `writeToDisk` leaves the table alone. -/
theorem disk_table {s s' : Primary} {a : PrimaryAction} (ha : ∀ q, a ≠ .request q)
    (h : s.step a = some s') : s'.server.table = s.server.table := by
  cases a with
  | request q => exact absurd rfl (ha q)
  | _ =>
      rw [Primary.step] at h
      split at h
      · cases h; rfl
      · cases h

/-- **A table with the primary's view and none but its rows moves as the primary's does.** -/
theorem moves_view {p p' : Bmap} {f : Forward} (hview : t.view = p.view) (hrows : t.Within p)
    (hf : f.Moves p p') (hnull : ¬ f.Null p) :
    ∃ t', f.Moves t t' ∧ ¬ f.Null t ∧ t'.view = p'.view ∧ t'.Within p' := by
  cases f with
  | put row col data seq =>
      obtain rfl : p' = p.set row col data := hf
      refine ⟨t.set row col data, rfl, ?_, ?_, ?_⟩
      · rintro ⟨hrow, hcol, hat⟩
        refine hnull ⟨hrows row hrow, hrows col hcol, ?_⟩
        rw [← hat]
        exact (congrFun hview (row, col)).symm
      · rw [Nested.view_set, Nested.view_set, hview]
      · exact (hrows.trans (Nested.within_set p row col data)).set
          ((Nested.hasRow_set ..).trans (by simp)) col data
  | delete row col seq =>
      obtain ⟨hsome, rfl⟩ := hf
      have hat : t.at? row col = p.at? row col := congrFun hview (row, col)
      obtain ⟨d, hd⟩ := Option.isSome_iff_exists.mp hsome
      refine ⟨t.eraseCol row col, ⟨by rw [hat]; exact hsome, rfl⟩, id, ?_, ?_⟩
      · rw [Nested.view_eraseCol, Nested.view_eraseCol, hview]
      · exact (hrows.trans (Nested.within_eraseCol p row col)).eraseCol
          (Nested.hasRow_of_at? (hat.trans hd)) col

end Within

end PennCloud
