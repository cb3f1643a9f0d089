import PennCloud.Lib.Blocks
import PennCloud.Proof.SeqNumbers
import PennCloud.Store.Transfer

/-!
# Files read back in blocks

Both files are read in blocks that end with a dot line, and a record or a cell is
always a whole number of them. Its first block binds its key to what comes before
the dot line, without the line break in front of that. So the contents come back
only from a text that has `"\n.\n"` behind them and no dot line in them: the
replica's `putToLog` writes `".\n"` behind them, and nothing keeps a client from
putting a dot line with a bare line break into its data.
-/

namespace PennCloud

open Str

/-! ## Blocks -/

/-- What the two parsers take for the data. -/
def dataOf (b : Str) : Str := b.substr 0 (b.find dotNl)

/-- A block is a lone dot line, or has a line break in front of its dot line. -/
theorem isBlock_cases {b : Str} (hb : Lib.IsBlock '\n' dot b) :
    b = ['.', '\n'] ∨ ∃ e, b = e ++ dotNl ∧ DotFree e := by
  obtain ⟨body, hbody, hfree, rfl⟩ := hb
  rcases hbody with rfl | ⟨e, rfl⟩
  · exact Or.inl rfl
  · exact Or.inr ⟨e, by simp [dot, dotNl], hfree⟩

theorem find_dotNl {e : Str} (he : DotFree e) : (e ++ dotNl).find dotNl = e.length :=
  find_of_firstIdx (show Lib.firstIdx ('\n' :: dot ++ ['\n']) _ = _ from
    Lib.firstIdx_stop (by decide) he)

theorem dataOf_dot : dataOf ['.', '\n'] = ['.', '\n'] := by decide

theorem dataOf_free {e : Str} (he : DotFree e) : dataOf (e ++ dotNl) = e := by
  rw [dataOf, find_dotNl he]
  exact substr_middle [] _ _ rfl rfl

theorem length_dataOf {b : Str} (hb : Lib.IsBlock '\n' dot b) :
    (b = ['.', '\n'] ∧ dataOf b = ['.', '\n']) ∨ (dataOf b).length + 3 = b.length := by
  rcases isBlock_cases hb with rfl | ⟨e, rfl, he⟩
  · exact Or.inl ⟨rfl, dataOf_dot⟩
  · right
    rw [dataOf_free he]
    simp [dotNl]

theorem two_le_length {b : Str} (hb : Lib.IsBlock '\n' dot b) : 2 ≤ b.length := by
  rcases length_dataOf hb with ⟨rfl, -⟩ | hshort
  · exact Nat.le_refl 2
  · omega

/-- A text with a line break in it is its first line and the rest. -/
theorem split_firstLine {s : Str} (hs : '\n' ∈ s) : ∃ a b : Str, s = a ++ '\n' :: b ∧ '\n' ∉ a ∧
    s.find ['\n'] = a.length ∧ s.substr 0 (s.find ['\n']) = a ∧
    s.substr (s.find ['\n'] + 1) = b := by
  obtain ⟨a, b, rfl, ha⟩ := List.eq_append_cons_of_mem hs
  have hfind := find_sep b ha
  refine ⟨a, b, rfl, ha, hfind, ?_, ?_⟩
  · rw [hfind]
    exact substr_middle [] a _ rfl rfl
  · rw [hfind]
    exact substr_after a '\n' b

/-! ## What one block can do -/

section Block

variable {b D : Str} {k : Key} (t : Bmap)

/-- A key whose names do not fit one line is no block's. -/
def Key.Broken (k : Key) : Prop := '\n' ∈ k.1 ∨ '\n' ∈ k.2

/-- **A block of the log erases, or binds a key of one line to something shorter than itself.** -/
theorem replayLogCommand_cases (hb : '\n' ∈ b) :
    replayLogCommand t b = t ∨
    (∃ row, '\n' ∉ row ∧ replayLogCommand t b = t.eraseCol row row) ∨
    ∃ row col data, ¬ Key.Broken (row, col) ∧ data.length < b.length ∧
      replayLogCommand t b = t.set row col data := by
  obtain ⟨a, rest, hcat, ha, -, hline, hrest⟩ := split_firstLine hb
  have hnames : ¬ Key.Broken (angled a, angled (pastAngled a)) := by
    rintro (h | h)
    · exact ha (mem_substr h)
    · exact ha (mem_substr (mem_substr h))
  rw [replayLogCommand, hline, hrest]
  simp only
  split
  · split
    · exact Or.inr (Or.inl ⟨angled a, fun h => hnames (Or.inl h), rfl⟩)
    · exact Or.inl rfl
  · refine Or.inr (Or.inr ⟨_, _, _, hnames, ?_, rfl⟩)
    have h1 := length_substr_le (rest.substr (rest.find ['\n'] + 1)) 0
      (find (rest.substr (rest.find ['\n'] + 1)) dotNl)
    have h2 := length_substr_le rest (rest.find ['\n'] + 1) npos
    have hlen := congrArg List.length hcat
    simp only [List.length_append, List.length_cons] at hlen
    omega

/-- A key that is bound to something else than long contents stays so. -/
theorem replayLogCommand_ne (hb : '\n' ∈ b) (hlen : b.length ≤ D.length) (h : t.view k ≠ some D) :
    (replayLogCommand t b).view k ≠ some D := by
  rcases replayLogCommand_cases t hb with he | ⟨row, -, he⟩ | ⟨row, col, data, -, hdata, he⟩
  · rwa [he]
  · rw [he, Nested.view_eraseCol, Contents.unbind, Function.update_apply]
    split
    · exact fun hnone => (by cases hnone)
    · exact h
  · rw [he, Nested.view_set, Contents.bind, Function.update_apply]
    split
    · intro hsome
      rw [Option.some.inj hsome] at hdata
      omega
    · exact h

/-- Nor do blocks that are no longer bring them back. -/
theorem foldl_replay_ne {bs : List Str} (hbs : ∀ b ∈ bs, '\n' ∈ b ∧ b.length ≤ D.length)
    (h : t.view k ≠ some D) : Nested.view (bs.foldl replayLogCommand t) k ≠ some D :=
  List.foldlRecOn (motive := fun u : Bmap => u.view k ≠ some D) bs replayLogCommand h
    fun u hu b hb =>
    replayLogCommand_ne u (hbs b hb).1 (hbs b hb).2 hu

/-- A key whose names do not fit one line is left alone. -/
theorem replayLogCommand_broken (hb : '\n' ∈ b) (hk : k.Broken) :
    (replayLogCommand t b).view k = t.view k := by
  rcases replayLogCommand_cases t hb with he | ⟨row, hrow, he⟩ | ⟨row, col, data, hnot, -, he⟩
  · rw [he]
  · rw [he, Nested.view_eraseCol]
    refine Contents.unbind_of_ne _ fun hkey => ?_
    rw [hkey] at hk
    exact hk.elim hrow hrow
  · rw [he, Nested.view_set]
    refine Contents.bind_of_ne _ _ fun hkey => ?_
    rw [hkey] at hk
    exact hnot hk

end Block

theorem nl_mem_block {b : Str} (hb : Lib.IsBlock '\n' dot b) : '\n' ∈ b := by
  obtain ⟨body, -, -, rfl⟩ := hb
  simp

theorem recoverLog_eq (s : Str) (t : Bmap) :
    recoverLog s t = (Lib.blocks '\n' dot s).foldl replayLogCommand t := Lib.foldBlocks_eq ..

/-- Whole blocks are replayed before what follows them. -/
theorem recoverLog_append {s : Str} (hs : Lib.Whole '\n' dot s) (s' : Str) (t : Bmap) :
    recoverLog (s ++ s') t = recoverLog s' (recoverLog s t) := by
  rw [recoverLog_eq, recoverLog_eq, recoverLog_eq, Lib.blocks_append (by decide) hs,
    List.foldl_append]

theorem recoverLog_broken (s : Str) (t : Bmap) {k : Key} (hk : k.Broken) :
    (recoverLog s t).view k = t.view k := by
  rw [recoverLog_eq]
  refine List.foldlRecOn (motive := fun u : Bmap => u.view k = t.view k) _ _ rfl fun u hu b hb => ?_
  rw [replayLogCommand_broken u (nl_mem_block (Lib.isBlock_of_mem hb)) hk, hu]

/-! ## The log of a replica -/

/-- A `PUT` from the primary. -/
structure ReplicaPut where
  row : Str
  col : Str
  data : Str
  seq : Int

namespace ReplicaPut

/-- As `BackStore::push` writes it. -/
def command (p : ReplicaPut) : Forward := .put p.row p.col p.data p.seq

/-- As the replica logs it. -/
def record (p : ReplicaPut) : LogRecord := .replicaPut p.seq p.row p.col p.data

/-- The part of its record before the data. -/
def heading (p : ReplicaPut) : Str := header kwPUT p.row p.col ('\n' :: (decimal p.seq ++ ['\n']))

theorem record_text (p : ReplicaPut) : p.record.text = p.heading ++ (p.data ++ ['.', '\n']) := by
  simp [record, heading, LogRecord.text, LogRecord.body, header]

end ReplicaPut

/-- Data ends with a line break, as far as there is any. -/
theorem Payload.terminated {d : Str} (hd : Payload d) : Lib.Terminated '\n' d := by
  rcases hd.ends with rfl | ⟨e, rfl⟩
  · exact Or.inl rfl
  · exact Or.inr ⟨e ++ ['\r'], by simp [crlf]⟩

theorem whole_data {d : Str} (hd : Payload d) : Lib.Whole '\n' dot (d ++ ['.', '\n']) :=
  Or.inr ⟨d, hd.terminated, by simp [dot]⟩

theorem heading_terminated (p : ReplicaPut) : Lib.Terminated '\n' p.heading :=
  Or.inr ⟨header kwPUT p.row p.col ('\n' :: decimal p.seq), by simp [ReplicaPut.heading, header]⟩

theorem whole_record {p : ReplicaPut} (hd : Payload p.data) : Lib.Whole '\n' dot p.record.text := by
  refine Or.inr ⟨p.heading ++ p.data, ?_, by rw [p.record_text]; simp [dot]⟩
  rcases hd.terminated with hnil | ⟨e, he⟩
  · rw [hnil, List.append_nil]
    exact heading_terminated p
  · exact Or.inr ⟨p.heading ++ e, by rw [he, List.append_assoc]⟩

/-- A text of whole blocks has a first one, if it is not empty. -/
theorem first_block {s : Str} (hs : Lib.Whole '\n' dot s) (hne : s ≠ []) :
    ∃ b bs, Lib.blocks '\n' dot s = b :: bs ∧ Lib.IsBlock '\n' dot b ∧
      (∀ b' ∈ bs, Lib.IsBlock '\n' dot b' ∧ b.length + b'.length ≤ s.length) ∧
      b.length ≤ s.length := by
  have hflat := Lib.flatten_blocks (by decide) hs
  cases hblocks : Lib.blocks '\n' dot s with
  | nil =>
      rw [hblocks] at hflat
      exact absurd hflat.symm hne
  | cons b bs =>
      have hall : ∀ b' ∈ b :: bs, Lib.IsBlock '\n' dot b' := by
        rw [← hblocks]
        exact fun b' => Lib.isBlock_of_mem
      rw [hblocks, List.flatten_cons] at hflat
      have hlen := congrArg List.length hflat
      rw [List.length_append] at hlen
      refine ⟨b, bs, rfl, hall b List.mem_cons_self, fun b' hb' => ?_, by omega⟩
      have hle := (List.sublist_flatten_of_mem hb').length_le
      exact ⟨hall b' (List.mem_cons_of_mem _ hb'), by omega⟩

/-- **A replica's own record binds its key to something else than was sent.** -/
theorem recoverLog_record_ne {p : ReplicaPut} (hrow : FileName p.row) (hcol : FileName p.col)
    (hd : Payload p.data) (t : Bmap) :
    (recoverLog p.record.text t).view (p.row, p.col) ≠ some p.data := by
  obtain ⟨b, bs, hblocks, hb, hbs, hlen⟩ := first_block (whole_data hd) (by simp)
  have hfree : dot ∉ Lib.lines '\n' p.heading :=
    dot_notMem_header (keyword_plain (Or.inl rfl)) hrow hcol (dot_notMem_seq p.seq (by simp))
  have hfirst : replayLogCommand t (p.heading ++ b) = t.set p.row p.col (dataOf b) := by
    rw [dataOf, ← replayLogCommand_rest hrow hcol p.seq b t]
    simp [ReplicaPut.heading, header]
  rw [List.length_append] at hlen hbs
  simp only [List.length_cons, List.length_nil] at hlen hbs
  -- the first block drops the line break before the dot, or takes the dot line itself
  have hne : dataOf b ≠ p.data := by
    intro heq
    rcases length_dataOf hb with ⟨-, hdot⟩ | hshort
    · rw [heq] at hdot
      rcases hd.ends with hnil | ⟨e, hend⟩
      · rw [hdot] at hnil
        cases hnil
      · have hlast := congrArg List.reverse (hdot.symm.trans hend)
        simp [crlf] at hlast
    · rw [heq] at hshort
      omega
  have hstart : (t.set p.row p.col (dataOf b)).view (p.row, p.col) ≠ some p.data := by
    rw [Nested.view_set, Contents.bind_self]
    exact fun h => hne (Option.some.inj h)
  have hb2 := two_le_length hb
  have hrest : ∀ b' ∈ bs, '\n' ∈ b' ∧ b'.length ≤ p.data.length := fun b' hb' =>
    ⟨nl_mem_block (hbs b' hb').1, by have := (hbs b' hb').2; omega⟩
  rw [recoverLog_eq, ReplicaPut.record_text,
    Lib.blocks_prepend (heading_terminated p) hfree, hblocks, List.modifyHead_cons,
    List.foldl_cons, hfirst]
  exact foldl_replay_ne _ hrest hstart

/-- The commands reach the replica, one after the other. -/
def Server.take (s : Server) (ps : List ReplicaPut) : Option Server :=
  Lib.run Server.act s (ps.map fun p => .replicated p.command)

/-- What the replica has logged since `s`, replayed over the table of `s`, gives its contents. -/
def Server.Rereads (s t : Server) : Prop :=
  (recoverLog ((t.log.drop s.log.length).flatMap LogRecord.text) s.table).view = t.table.view

section Taken

variable {s t : Server} {p : ReplicaPut} {ps : List ReplicaPut}

theorem act_put (h : s.act (.replicated p.command) = some t) :
    t.log = s.log ++ [p.record] ∧ t.table = s.table.set p.row p.col p.data := by
  cases (act_replicated h).2 with
  | stored row col data seq hf ht =>
      cases hf
      subst ht
      exact ⟨rfl, rfl⟩
  | erased row col d seq hf => cases hf
  | missed row col seq hf => cases hf

theorem take_spec (h : s.take ps = some t) : t.log = s.log ++ ps.map ReplicaPut.record ∧
    t.table = ps.foldl (fun table p => table.set p.row p.col p.data) s.table := by
  induction ps generalizing s with
  | nil =>
      cases h
      exact ⟨(List.append_nil _).symm, rfl⟩
  | cons p ps ih =>
      obtain ⟨u, hu, hrest⟩ := Lib.run_cons h
      obtain ⟨hlog, htable⟩ := act_put hu
      obtain ⟨hlog', htable'⟩ := ih hrest
      rw [hlog', htable', hlog, htable]
      exact ⟨by simp, rfl⟩

theorem take_log (h : s.take ps = some t) :
    t.log.drop s.log.length = ps.map ReplicaPut.record := by
  rw [(take_spec h).1, List.drop_left]

/-- Cells that are there already are overwritten without a fault. -/
theorem take_present (hs : s.primary = false)
    (hall : ∀ p ∈ ps, (s.table.at? p.row p.col).isSome = true) : ∃ t, s.take ps = some t := by
  induction ps generalizing s with
  | nil => exact ⟨s, rfl⟩
  | cons p ps ih =>
      obtain ⟨hp, hps⟩ := List.forall_mem_cons.mp hall
      have hnull : ¬ NullPut s.table p.row p.col := by
        rintro ⟨-, -, hnone⟩
        rw [hnone] at hp
        cases hp
      have hact : s.act (.replicated p.command) = some { (s.updateSeq p.seq).putToLogAt p.seq p.data
          p.row p.col with table := s.table.set p.row p.col p.data } := by
        rw [Server.act, if_neg (by rw [hs]; decide), ReplicaPut.command,
          Forward.call, Server.handle, parsePUTReplica_eq p.seq p.data hnull]
        rfl
      obtain ⟨t, ht⟩ := ih (s := { (s.updateSeq p.seq).putToLogAt p.seq p.data
          p.row p.col with table := s.table.set p.row p.col p.data }) hs fun q hq => by
        show (Nested.at? (s.table.set p.row p.col p.data) q.row q.col).isSome = true
        rw [Nested.at?_set]
        split
        · rfl
        · exact hps q hq
      refine ⟨t, ?_⟩
      rw [Server.take, List.map_cons, Lib.run, hact]
      exact ht

/-- **Whatever is logged last is not read back**, if its names fit a line or it was a change. -/
theorem not_rereads (h : s.take (ps ++ [p]) = some t) (hwf : ∀ q ∈ ps ++ [p], q.command.WF)
    (hlast : FileName p.row ∧ FileName p.col ∨ s.table.view (p.row, p.col) ≠ some p.data) :
    ¬ s.Rereads t := by
  intro hsame
  have hview : t.table.view (p.row, p.col) = some p.data := by
    rw [(take_spec h).2, List.foldl_append]
    show Nested.view (Nested.set _ p.row p.col p.data) (p.row, p.col) = _
    rw [Nested.view_set, Contents.bind_self]
  have hkey := congrFun hsame (p.row, p.col)
  rw [take_log h, hview] at hkey
  by_cases hbroken : Key.Broken (p.row, p.col)
  · -- no block binds such a key
    rw [recoverLog_broken _ _ hbroken] at hkey
    refine hlast.elim (fun hnames => ?_) fun hchange => hchange hkey
    exact hbroken.elim hnames.1.1 hnames.2.1
  · obtain ⟨hrow, hcol, hd⟩ := hwf p (List.mem_append_right _ (List.mem_singleton_self p))
    have hnames : FileName p.row ∧ FileName p.col :=
      ⟨⟨fun h => hbroken (Or.inl h), hrow.noAngle⟩, ⟨fun h => hbroken (Or.inr h), hcol.noAngle⟩⟩
    have hwhole : Lib.Whole '\n' dot ((ps.map ReplicaPut.record).flatMap LogRecord.text) := by
      refine Lib.Whole.flatMap fun r hr => ?_
      obtain ⟨q, hq, rfl⟩ := List.mem_map.mp hr
      exact whole_record (hwf q (List.mem_append_left _ hq)).2.2
    rw [List.map_append, List.flatMap_append, recoverLog_append hwhole, List.map_singleton,
      List.flatMap_singleton] at hkey
    exact recoverLog_record_ne hnames.1 hnames.2 hd _ hkey

end Taken

/-- Cells that are all bound to the same. -/
theorem at?_foldl_set {ps : List ReplicaPut} {d row col : Str} (t : Bmap)
    (h : t.at? row col = some d ∨ ∃ q ∈ ps, q.row = row ∧ q.col = col) :
    Nested.at? (ps.foldl (fun table q => table.set q.row q.col d) t) row col = some d := by
  induction ps generalizing t with
  | nil => exact h.resolve_right fun ⟨_, hq, _⟩ => (by cases hq)
  | cons p ps ih =>
      refine ih _ ?_
      rw [Nested.at?_set]
      split
      · exact Or.inl rfl
      · rename_i hkey
        refine h.imp id fun ⟨q, hq, hrow, hcol⟩ => ?_
        rcases List.mem_cons.mp hq with rfl | hq
        · exact absurd ⟨hrow.symm, hcol.symm⟩ hkey
        · exact ⟨q, hq, hrow, hcol⟩

/-- Any commands can be taken by a replica that has other contents under all of their keys. -/
theorem exists_changed (ps : List ReplicaPut) : ∃ s t : Server, s.primary = false ∧
    s.take ps = some t ∧ ∀ p ∈ ps.getLast?, s.table.view (p.row, p.col) ≠ some p.data := by
  -- contents that are longer than those of the last command
  let long : Str := (ps.getLast?.map ReplicaPut.data).getD [] ++ ['.']
  let table : Bmap := ps.foldl (fun table q => table.set q.row q.col long) ∅
  have hkeys : ∀ q ∈ ps, table.at? q.row q.col = some long := fun q hq =>
    at?_foldl_set ∅ (Or.inr ⟨q, hq, rfl, rfl⟩)
  obtain ⟨t, ht⟩ := take_present (s := { primary := false, table := table }) rfl fun q hq => by
    show (Nested.at? table q.row q.col).isSome = true
    rw [hkeys q hq]
    rfl
  refine ⟨_, t, rfl, ht, fun p hp => ?_⟩
  show Nested.at? table p.row p.col ≠ some p.data
  rw [hkeys p (List.mem_of_getLast? hp)]
  simp [long, Option.mem_def.mp hp]

/--
**A replica's log is read back as its table, whatever the table was, only when it is
empty.** The same holds table by table when the last command's names fit a line of
the file, or when that command changed what its key was bound to.
-/
theorem rereads_iff_nil {ps : List ReplicaPut} (hwf : ∀ p ∈ ps, p.command.WF) :
    ((∀ s t : Server, s.primary = false → s.take ps = some t → s.Rereads t) ↔ ps = []) ∧
    ∀ s t : Server, s.take ps = some t →
      (∀ p ∈ ps.getLast?, FileName p.row ∧ FileName p.col ∨
        s.table.view (p.row, p.col) ≠ some p.data) →
      (s.Rereads t ↔ ps = []) := by
  have hempty : ∀ s t : Server, s.take [] = some t → s.Rereads t := by
    intro s t h
    cases h
    rw [Server.Rereads, List.drop_length]
    rfl
  have hany : ∀ s t : Server, s.take ps = some t → (∀ p ∈ ps.getLast?,
      FileName p.row ∧ FileName p.col ∨ s.table.view (p.row, p.col) ≠ some p.data) →
      (s.Rereads t ↔ ps = []) := by
    intro s t h hlast
    rcases List.eq_nil_or_concat ps with rfl | ⟨init, p, rfl⟩
    · exact iff_of_true (hempty s t h) rfl
    · rw [List.concat_eq_append] at *
      refine iff_of_false (not_rereads h hwf (hlast p ?_)) (by simp)
      rw [List.getLast?_concat]
      rfl
  refine ⟨⟨fun hall => ?_, fun hnil s t _ h => hempty s t (hnil ▸ h)⟩, hany⟩
  obtain ⟨s, t, hs, ht, hchanged⟩ := exists_changed ps
  exact (hany s t ht fun p hp => Or.inr (hchanged p hp)).mp (hall s t hs ht)

/-- One command with data of one line, and one without data. -/
def sentPut : ReplicaPut := ⟨['a'], ['x'], ['1', '\r', '\n'], 1⟩
def sentEmpty : ReplicaPut := ⟨['b'], ['x'], [], 2⟩

instance : DecidablePred fun p : ReplicaPut => p.command.WF := fun p =>
  inferInstanceAs (Decidable (Name p.row ∧ Name p.col ∧ Payload p.data))

theorem sentPuts_not_reread :
    ¬ ∀ s t : Server, s.primary = false → s.take [sentPut, sentEmpty] = some t → s.Rereads t :=
  fun h => absurd ((rereads_iff_nil (by decide)).1.mp h) (by simp)

/-- The value comes back without its last byte, and a `CPUT` that asks for it is refused. -/
theorem sentPut_loses_byte :
    ∃ t, Server.take { primary := false } [sentPut] = some t ∧
      t.table.view (['a'], ['x']) = some ['1', '\r', '\n'] ∧
      (recoverLog t.logText ∅).view (['a'], ['x']) = some ['1', '\r'] ∧
      ¬ Server.Rereads { primary := false } t := by
  refine ⟨_, rfl, by decide, by decide, fun h => ?_⟩
  exact absurd (congrFun h (['a'], ['x'])) (by decide)

/-- No data is read back as the dot line. -/
example : (recoverLog sentEmpty.record.text ∅).view (['b'], ['x']) = some ['.', '\n'] := by decide

/-! ## Checkpoint files -/

/-- **A block of a checkpoint binds a key to something short.** -/
theorem replyCheckpointCommand_cases {b : Str} (hb : Lib.IsBlock '\n' dot b) (t : Bmap) :
    ∃ row col data, (data.length ≤ 2 ∨ data.length + 2 ≤ b.length) ∧
      replyCheckpointCommand t b = t.set row col data := by
  refine ⟨_, _, _, ?_, rfl⟩
  rcases isBlock_cases hb with rfl | ⟨e, rfl, he⟩
  · exact Or.inl (by decide)
  · obtain ⟨a, rest, hcat, ha, hfind, -, -⟩ := split_firstLine (nl_mem_block hb)
    rw [find_dotNl he, hfind]
    have hlen := congrArg List.length hcat
    simp only [List.length_append, List.length_cons, dotNl, List.length_nil] at hlen
    -- the first line break is not behind the one before the dot line
    have hle : a.length ≤ e.length := by
      by_contra hlt
      have hget := congrArg (fun s : Str => s[e.length]?) hcat
      rw [dotNl, List.getElem?_append_right (Nat.le_refl _), Nat.sub_self,
        List.getElem?_append_left (by omega)] at hget
      exact ha (List.mem_of_getElem? hget.symm)
    rcases Nat.lt_or_eq_of_le hle with hlt | heq
    · have := length_substr_le_count (e ++ dotNl) (a.length + 1)
        (n := (e.length : Int) - a.length - 1) (by omega)
      simp only [List.length_append, dotNl, List.length_cons, List.length_nil] at this ⊢
      omega
    · have := length_substr_le (e ++ dotNl) (a.length + 1) ((e.length : Int) - a.length - 1)
      simp only [List.length_append, dotNl, List.length_cons, List.length_nil] at this ⊢
      omega

/-- Blocks bring no contents back that are longer than what they can bind. -/
theorem foldl_reply_ne {bs : List Str} {D : Str} {k : Key} {t : Bmap} (hD : 2 < D.length)
    (hbs : ∀ b ∈ bs, Lib.IsBlock '\n' dot b ∧ b.length ≤ D.length + 1) (h : t.view k ≠ some D) :
    Nested.view (bs.foldl replyCheckpointCommand t) k ≠ some D := by
  refine List.foldlRecOn (motive := fun u : Bmap => u.view k ≠ some D) bs _ h fun u hu b hb => ?_
  obtain ⟨hblock, hlen⟩ := hbs b hb
  obtain ⟨row, col, data, hshort, he⟩ := replyCheckpointCommand_cases hblock u
  rw [he, Nested.view_set, Contents.bind, Function.update_apply]
  split
  · intro hsome
    rw [Option.some.inj hsome] at hshort
    omega
  · exact hu

/-- There is more in data with a dot line than a line break. -/
theorem long_of_not_dotFree {d : Str} (hd : Payload d) (hdot : ¬ DotFree d) : 2 < d.length := by
  rcases hd.ends with rfl | ⟨e, rfl⟩
  · exact absurd (by decide : DotFree []) hdot
  · cases e with
    | nil => exact absurd (by decide : DotFree crlf) hdot
    | cons x e => simp [crlf]

/-- The first block of a cell binds its key to what comes before the dot line. -/
theorem replyCheckpointCommand_first {row col b : Str} (hr : FileName row) (hc : FileName col)
    (hb : Lib.IsBlock '\n' dot b) (t : Bmap) :
    replyCheckpointCommand t (header kwPUT row col ['\n'] ++ b) = t.set row col (dataOf b) := by
  rcases isBlock_cases hb with rfl | ⟨e, rfl, he⟩
  · have htext : header kwPUT row col ['\n'] ++ ['.', '\n']
        = header kwPUT row col ('\n' :: ['.', '\n']) := by simp [header]
    obtain ⟨hfind, hrow, hcol, -⟩ := readLine_header ['.', '\n'] (keyword_plain (Or.inl rfl)) hr hc
    have hnl : '\n' ∉ header kwPUT row col [] := by simp [header, kwPUT, hr.1, hc.1]
    have hstr : header kwPUT row col ('\n' :: ['.', '\n']) = header kwPUT row col [] ++ dotNl := by
      simp [header, dotNl]
    -- the line break of the command line is the one before the dot
    have hstop : (header kwPUT row col ('\n' :: ['.', '\n'])).find dotNl
        = (header kwPUT row col []).length := by
      refine find_of_firstIdx ?_
      rw [hstr, dotNl, Lib.firstIdx_skip _ hnl, Lib.firstIdx_zero (List.prefix_refl _)]
      rfl
    have hdata : (header kwPUT row col ('\n' :: ['.', '\n'])).substr
        ((header kwPUT row col []).length + 1)
        ((header kwPUT row col []).length - (header kwPUT row col []).length - 1)
          = ['.', '\n'] := by
      rw [hstr, dotNl, List.append_cons]
      exact substr_wrap _ _ (by simp) (by omega)
    rw [hfind] at hrow hcol
    rw [htext, dataOf_dot]
    simp only [replyCheckpointCommand, hrow, hcol, hstop, hfind, hdata]
  · rw [dataOf_free he, ← replyCheckpointCommand_cell hr hc he t, cellText, List.append_assoc]

/-- The part of `recoverCheckpoint` behind the first line. -/
def recoverCells (s : Str) (t : Bmap) : Bmap :=
  (Lib.blocks '\n' dot s).foldl replyCheckpointCommand t

theorem recoverCells_append {s : Str} (hs : Lib.Whole '\n' dot s) (s' : Str) (t : Bmap) :
    recoverCells (s ++ s') t = recoverCells s' (recoverCells s t) := by
  rw [recoverCells, recoverCells, recoverCells, Lib.blocks_append (by decide) hs, List.foldl_append]

theorem recoverCheckpoint_eq (c : Checkpoint) (t : Bmap) :
    recoverCheckpoint c.text t
      = recoverCells (c.table.cells.flatMap fun p => cellText p.1 p.2.1 p.2.2) t := by
  rw [recoverCheckpoint, Checkpoint.text, Lib.lines_line _ (noNl_versionLine c.version),
    List.tail_cons, Lib.foldBlocks_eq]
  rfl

theorem whole_cell (row col data : Str) : Lib.Whole '\n' dot (cellText row col data) :=
  Or.inr ⟨header kwPUT row col ['\n'] ++ data ++ ['\n'], Or.inr ⟨_, rfl⟩,
    by simp [cellText, dot, dotNl]⟩

/-- **A cell with a dot line in it is read back as something else.** -/
theorem recoverCells_ne {row col data : Str} (hr : FileName row) (hc : FileName col)
    (hd : Payload data) (hdot : ¬ DotFree data) (t : Bmap) :
    (recoverCells (cellText row col data) t).view (row, col) ≠ some data := by
  have hwhole : Lib.Whole '\n' dot (data ++ dotNl) :=
    Or.inr ⟨data ++ ['\n'], Or.inr ⟨data, rfl⟩, by simp [dot, dotNl]⟩
  obtain ⟨b, bs, hblocks, hb, hbs, -⟩ := first_block hwhole (by simp [dotNl])
  have hpre : Lib.Terminated '\n' (header kwPUT row col ['\n']) :=
    Or.inr ⟨header kwPUT row col [], by simp [header]⟩
  have hfree : dot ∉ Lib.lines '\n' (header kwPUT row col ['\n']) :=
    dot_notMem_header (keyword_plain (Or.inl rfl)) hr hc (by simp)
  have hlong := long_of_not_dotFree hd hdot
  have hne : dataOf b ≠ data := by
    intro heq
    rcases isBlock_cases hb with rfl | ⟨e, rfl, he⟩
    · rw [← heq, dataOf_dot] at hlong
      simp at hlong
    · rw [dataOf_free he] at heq
      exact hdot (heq ▸ he)
  have hstart : (t.set row col (dataOf b)).view (row, col) ≠ some data := by
    rw [Nested.view_set, Contents.bind_self]
    exact fun h => hne (Option.some.inj h)
  have hb2 := two_le_length hb
  have hrest : ∀ b' ∈ bs, Lib.IsBlock '\n' dot b' ∧ b'.length ≤ data.length + 1 := by
    intro b' hb'
    obtain ⟨hblock, hlen⟩ := hbs b' hb'
    simp only [List.length_append, dotNl, List.length_cons, List.length_nil] at hlen
    exact ⟨hblock, by omega⟩
  rw [recoverCells, cellText, List.append_assoc, Lib.blocks_prepend hpre hfree, hblocks,
    List.modifyHead_cons, List.foldl_cons, replyCheckpointCommand_first hr hc hb]
  exact foldl_reply_ne hlong hrest hstart

/-- The last of the elements that fail. -/
theorem exists_last_not {α : Type} {P : α → Prop} {l : List α} (h : ¬ ∀ x ∈ l, P x) :
    ∃ before x after, l = before ++ x :: after ∧ ¬ P x ∧ ∀ y ∈ after, P y := by
  induction l with
  | nil => exact absurd nofun h
  | cons x l ih =>
      by_cases hl : ∀ y ∈ l, P y
      · refine ⟨[], x, l, rfl, fun hx => h ?_, hl⟩
        exact List.forall_mem_cons.mpr ⟨hx, hl⟩
      · obtain ⟨before, y, after, rfl, hy, hafter⟩ := ih hl
        exact ⟨x :: before, y, after, rfl, hy, hafter⟩

/-- Everything in the table has been accepted, under names that fit a line of the file. -/
def Bmap.Accepted (t : Bmap) : Prop :=
  ∀ row col data, t.at? row col = some data → FileName row ∧ FileName col ∧ Payload data

instance : DecidablePred Bmap.Accepted := fun t =>
  decidable_of_iff (∀ p ∈ t.cells, FileName p.1 ∧ FileName p.2.1 ∧ Payload p.2.2)
    ⟨fun h _ _ _ hat => h _ (Bmap.mem_cells.mpr hat), fun h _ hp => h _ _ _ (Bmap.mem_cells.mp hp)⟩

/-- **The last cell with a dot line in it is not read back.** -/
theorem recoverCheckpoint_ne {c : Checkpoint} (hc : c.table.Accepted)
    {before after : List (Str × Str × Str)}
    {row col data : Str} (hsplit : c.table.cells = before ++ (row, col, data) :: after)
    (hdot : ¬ DotFree data) (hafter : ∀ p ∈ after, DotFree p.2.2) :
    (recoverCheckpoint c.text ∅).view (row, col) ≠ c.table.view (row, col) := by
  have hmem : ∀ p ∈ after, p ∈ c.table.cells := fun p hp => by
    rw [hsplit]
    exact List.mem_append_right _ (List.mem_cons_of_mem _ hp)
  have hat : c.table.at? row col = some data := Bmap.mem_cells.mp (by rw [hsplit]; simp)
  obtain ⟨hr, hcl, hd⟩ := hc row col data hat
  -- the cells behind it have other keys
  have hkey : (row, col) ∉ (after.map fun p => ((p.1, p.2.1), some p.2.2)).map Prod.fst := by
    rw [List.map_map]
    intro hk
    obtain ⟨⟨r, c', d⟩, hp, heq⟩ := List.mem_map.mp hk
    obtain ⟨rfl, rfl⟩ := Prod.mk.inj heq
    have hsame := (Bmap.mem_cells.mp (hmem _ hp)).symm.trans hat
    exact hdot (Option.some.inj hsame ▸ hafter _ hp)
  have hclean : ∀ p ∈ after, FileName p.1 ∧ FileName p.2.1 ∧ DotFree p.2.2 := fun p hp =>
    have hnames := hc _ _ _ (Bmap.mem_cells.mp (hmem p hp))
    ⟨hnames.1, hnames.2.1, hafter p hp⟩
  have hwhole : Lib.Whole '\n' dot (before.flatMap fun p => cellText p.1 p.2.1 p.2.2) :=
    Lib.Whole.flatMap fun p _ => whole_cell ..
  have htail : ∀ u, recoverCells (after.flatMap fun p => cellText p.1 p.2.1 p.2.2) u
      = after.foldl (fun t p => t.set p.1 p.2.1 p.2.2) u := by
    intro u
    rw [← recoverCheckpoint_cells hclean u, Lib.foldBlocks_eq]
    rfl
  rw [recoverCheckpoint_eq, hsplit, List.flatMap_append, recoverCells_append hwhole,
    List.flatMap_cons, recoverCells_append (whole_cell ..), htail, view_foldl_set,
    Lib.replay_of_notMem hkey]
  exact fun hread => recoverCells_ne hr hcl hd hdot _ (hread.trans hat)

/--
**A checkpoint file gives the table and its version back if and only if** no cell of
the table has a line that is just a dot.
-/
theorem checkpoint_roundTrip_iff {c : Checkpoint} (hc : c.table.Accepted) :
    ((recoverCheckpoint c.text ∅).view = c.table.view ∧
      findVersionNum (some c.text) = some c.version)
      ↔ ∀ row col data, c.table.at? row col = some data → DotFree data := by
  constructor
  · rintro ⟨hview, -⟩
    have hcells : ∀ p ∈ c.table.cells, DotFree p.2.2 := by
      by_contra hnot
      obtain ⟨before, p, after, hsplit, hdot, hafter⟩ := exists_last_not hnot
      exact recoverCheckpoint_ne hc hsplit hdot hafter (congrFun hview (p.1, p.2.1))
    exact fun row col data hat => hcells (row, col, data) (Bmap.mem_cells.mpr hat)
  · intro hfree
    refine ⟨recoverCheckpoint_text fun row col data hat => ?_, findVersionNum_text c⟩
    have hnames := hc row col data hat
    exact ⟨hnames.1, hnames.2.1, hfree row col data hat⟩

/-- Two cells, one of them empty. -/
def twoCells : Checkpoint :=
  { version := 2, table := (Nested.set ∅ ['a'] ['x'] ['1', '\r', '\n']).set ['a'] ['y'] [] }

theorem twoCells_roundTrip : (recoverCheckpoint twoCells.text ∅).view = twoCells.table.view ∧
    findVersionNum (some twoCells.text) = some 2 := by
  have haccepted : twoCells.table.Accepted := by decide
  have hclean : twoCells.table.Clean := by decide
  exact (checkpoint_roundTrip_iff haccepted).mpr fun row col data hat =>
    (hclean row col data hat).2.2

/-- Data with a dot line that ends in a bare line break. -/
def bareDot : Checkpoint :=
  { version := 1, table := Nested.set ∅ ['a'] ['x'] ['1', '\n', '.', '\n', '2', '\r', '\n'] }

/-- What comes behind the dot line is lost, and gives a key of its own. -/
theorem dotLine_lost : bareDot.table.Accepted ∧
    (recoverCheckpoint bareDot.text ∅).view (['a'], ['x']) = some ['1'] ∧
    (recoverCheckpoint bareDot.text ∅).view (['2', '\r'], ['2', '\r']) = some [] ∧
    (recoverCheckpoint bareDot.text ∅).view ≠ bareDot.table.view := by
  refine ⟨by decide, by decide, by decide, fun h => ?_⟩
  exact absurd (congrFun h (['a'], ['x'])) (by decide)

end PennCloud
