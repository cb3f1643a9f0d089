import PennCloud.Store.Transfer

/-!
# When a transfer is exact

`receiveCheckpoint` and `receiveLog` look for the end mark in what the last
`do_read` brought, and `do_read` returns whenever a line break has come. So the
mark is seen only if a group of reads holds all of it, and it is taken for the end
also where the file itself has it.
-/

namespace PennCloud

open Str

/-- The reads that one `do_read` of a transfer puts together. -/
structure TransferGroup (g : List Str) : Prop where
  ends : crlf <:+: g.flatten
  first : ¬ crlf <:+: g.dropLast.flatten
  fits : g.flatten.length < rlenTransfer

instance : DecidablePred TransferGroup := fun g =>
  decidable_of_iff (crlf <:+: g.flatten ∧ ¬ crlf <:+: g.dropLast.flatten ∧
    g.flatten.length < rlenTransfer)
    ⟨fun h => ⟨h.1, h.2.1, h.2.2⟩, fun h => ⟨h.ends, h.first, h.fits⟩⟩

/-- The reads are such groups, and the whole mark is in the last of them. -/
def CutWell (mark : Str) (reads : List Str) : Prop :=
  ∃ gs last, reads = (gs ++ [last]).flatten ∧ (∀ g ∈ gs ++ [last], TransferGroup g) ∧
    mark ++ crlf <:+: last.flatten

section Group

variable {mark text data buffer : Str} {g : List Str} {gs : List (List Str)} {reads : List Str}

theorem TransferGroup.ne_nil (hg : TransferGroup g) : g ≠ [] := by
  rintro rfl
  exact absurd hg.ends (by decide)

theorem TransferGroup.read (hg : TransferGroup g) (hnul : '\x00' ∉ g.flatten) (rest : List Str) :
    doRead rlenTransfer ((g ++ rest).map .data) = .ok (g.flatten, rest.map .data) := by
  have hgroup := readInto_group (b := []) rest hg.ne_nil hnul hg.ends hg.first hg.fits
  rwa [List.nil_append] at hgroup

/-- One round of the loop. -/
theorem receive_group (mark buffer : Str) (hg : TransferGroup g) (hnul : '\x00' ∉ g.flatten)
    (n : Nat) (rest : List Str) :
    receive mark (n + 1) buffer ((g ++ rest).map .data) =
      if mark ++ crlf <:+: g.flatten then
        .ok ((buffer ++ g.flatten).substr 0 ((buffer ++ g.flatten).find mark), rest.map .data)
      else receive mark n (buffer ++ g.flatten) (rest.map .data) := by
  rw [receive, hg.read hnul]
  simp only [bind, Except.bind, pure, Except.pure, cstr_eq hnul]
  by_cases hin : mark ++ crlf <:+: g.flatten
  · rw [if_pos (find_ne_npos.mpr hin), if_pos hin]
  · rw [if_neg fun h => hin (find_ne_npos.mp h), if_neg hin]

/-- **Groups without the mark are passed over**, and the one that has it is the last. -/
theorem receive_groups {last : List Str} (hgs : ∀ g ∈ gs ++ [last], TransferGroup g)
    (hnul : ∀ g ∈ gs ++ [last], '\x00' ∉ g.flatten) (hno : ∀ g ∈ gs, ¬ mark ++ crlf <:+: g.flatten)
    (hlast : mark ++ crlf <:+: last.flatten) {n : Nat} (hn : gs.length < n) :
    receive mark n buffer ((gs ++ [last]).flatten.map .data) =
      .ok ((buffer ++ (gs ++ [last]).flatten.flatten).substr 0
        ((buffer ++ (gs ++ [last]).flatten.flatten).find mark), []) := by
  induction gs generalizing buffer n with
  | nil =>
      obtain ⟨n, rfl⟩ : ∃ m, n = m + 1 := ⟨n - 1, by simp at hn; omega⟩
      have hg := hgs last (by simp)
      simp only [List.nil_append, List.flatten_singleton]
      have hround := receive_group mark buffer hg (hnul last (by simp)) n []
      rw [List.append_nil, if_pos hlast] at hround
      exact hround
  | cons g gs ih =>
      obtain ⟨n, rfl⟩ : ∃ m, n = m + 1 := ⟨n - 1, by simp at hn; omega⟩
      obtain ⟨hg, hgs⟩ := List.forall_mem_cons.mp hgs
      obtain ⟨hnog, hno⟩ := List.forall_mem_cons.mp hno
      obtain ⟨hnulg, hnul⟩ := List.forall_mem_cons.mp hnul
      rw [List.cons_append, List.flatten_cons, receive_group mark buffer hg hnulg, if_neg hnog,
        ih hgs hnul hno (by simpa using hn)]
      simp

/-- **What the loop returns has come in groups**, the last of which has the whole mark. -/
theorem receive_cut {n : Nat} (hnul : '\x00' ∉ reads.flatten)
    (h : receive mark n buffer (reads.map .data) = .ok (data, [])) :
    CutWell mark reads ∧
      data = (buffer ++ reads.flatten).substr 0 ((buffer ++ reads.flatten).find mark) := by
  induction n generalizing buffer reads with
  | zero => cases h
  | succ n ih =>
      obtain ⟨⟨buf, task⟩, hread, -⟩ := bind_ok h
      obtain ⟨g, rest, rfl, -, rfl, -, hends, hfirst, hfits⟩ :=
        readInto_ok (by simp) hnul (by decide) hread
      have hg : TransferGroup g := ⟨hends, hfirst, hfits⟩
      rw [List.flatten_append, List.mem_append, not_or] at hnul
      rw [receive_group mark buffer hg hnul.1] at h
      split at h
      · rename_i hmark
        obtain ⟨rfl, hrest⟩ := Prod.mk.inj (Except.ok.inj h)
        obtain rfl := List.map_eq_nil_iff.mp hrest
        refine ⟨⟨[], g, by simp, by simpa using hg, hmark⟩, by simp⟩
      · obtain ⟨⟨gs, last, rfl, hgs, hlast⟩, rfl⟩ := ih hnul.2 h
        refine ⟨⟨g :: gs, last, by simp, List.forall_mem_cons.mpr ⟨hg, hgs⟩, hlast⟩, ?_⟩
        simp only [List.flatten_append, List.append_assoc]

/-- There are no more groups than reads. -/
theorem length_le_flatten {α : Type} {gs : List (List α)} (h : ∀ g ∈ gs, g ≠ []) :
    gs.length ≤ gs.flatten.length := by
  induction gs with
  | nil => exact Nat.le_refl 0
  | cons g gs ih =>
      obtain ⟨hg, hgs⟩ := List.forall_mem_cons.mp h
      have hpos := List.length_pos_iff.mpr hg
      have hrest := ih hgs
      rw [List.flatten_cons, List.length_append, List.length_cons]
      omega

/-- A mark that holds all of itself is found behind the file. -/
theorem not_mark_before {g : Str} (rest before : Str) (hmark : Lib.Unbordered mark)
    (htext : ¬ mark <:+: text)
    (hcat : before ++ g ++ rest = text ++ mark ++ crlf) (hlong : mark ++ crlf <:+: rest) :
    ¬ mark ++ crlf <:+: g := by
  rintro ⟨a, b, rfl⟩
  have hidx := Lib.firstIdx_unbordered hmark crlf htext
  have hsplit : text ++ mark ++ crlf = (before ++ a) ++ mark ++ (crlf ++ b ++ rest) := by
    rw [← hcat]
    simp
  have hle := Lib.firstIdx_le (hsplit ▸ hidx)
  have hlen := congrArg List.length hsplit
  have hlong' := hlong.length_le
  simp only [List.length_append, crlf, List.length_cons, List.length_nil] at hle hlen hlong'
  omega

/--
**A transfer is exact if and only if** the file does not have the mark in it, and the
reads make groups of less than 1000 bytes, the last of which has the whole mark.
-/
theorem receive_exact_iff (hmark : mark = logEnd ∨ mark = checkpointEnd) (hnul : '\x00' ∉ text)
    (hreads : reads.flatten = text ++ mark ++ crlf) :
    receive mark (reads.length + 1) [] (reads.map .data) = .ok (text, []) ↔
      ¬ mark <:+: text ∧ CutWell mark reads := by
  have hunbordered : Lib.Unbordered mark := by rcases hmark with rfl | rfl <;> decide
  have hnul' : '\x00' ∉ reads.flatten := by
    rw [hreads]
    rcases hmark with rfl | rfl <;> simp [hnul, logEnd, checkpointEnd, crlf]
  constructor
  · intro h
    obtain ⟨hcut, hdata⟩ := receive_cut hnul' h
    refine ⟨fun hin => ?_, hcut⟩
    rw [List.nil_append, hreads] at hdata
    -- the result ends where the first mark begins
    obtain ⟨i, hi⟩ := Lib.firstIdx_isSome hin
    obtain ⟨a, b, hab, ha⟩ := Lib.firstIdx_split hi
    have hpos : 0 < mark.length := by rcases hmark with rfl | rfl <;> decide
    have hlen := congrArg List.length hab
    have hcut := length_substr_le_count (text ++ mark ++ crlf) 0 (n := (i : Int)) (by omega)
    rw [List.append_assoc, find_append _ hi, ← List.append_assoc] at hdata
    rw [← hdata, Int.toNat_natCast] at hcut
    simp only [List.length_append] at hlen
    omega
  · rintro ⟨htext, gs, last, rfl, hgs, hlast⟩
    have hno : ∀ g ∈ gs, ¬ mark ++ crlf <:+: g.flatten := by
      intro g hg
      obtain ⟨u, v, rfl⟩ := List.append_of_mem hg
      refine not_mark_before (v.flatten.flatten ++ last.flatten) u.flatten.flatten hunbordered htext
        ?_ (hlast.trans (List.suffix_append ..).isInfix)
      rw [← hreads]
      simp
    have hgroups : ∀ g ∈ gs ++ [last], '\x00' ∉ g.flatten := fun g hg hmem => by
      refine hnul' (List.mem_flatten.mpr ?_)
      obtain ⟨r, hr, hc⟩ := List.mem_flatten.mp hmem
      exact ⟨r, List.mem_flatten.mpr ⟨g, hg, hr⟩, hc⟩
    have hcount : gs.length < (gs ++ [last]).flatten.length + 1 :=
      Nat.lt_succ_of_le (Nat.le_trans (by simp) (length_le_flatten fun g hg => (hgs g hg).ne_nil))
    rw [receive_groups hgs hgroups hno hlast hcount, List.nil_append, hreads,
      find_of_firstIdx (Lib.firstIdx_unbordered hunbordered crlf htext), List.append_assoc]
    exact congrArg (fun data => Except.ok (data, [])) (substr_middle [] text (mark ++ crlf) rfl rfl)

end Group

/-- A log of one record. -/
def sentLog : Str := (LogRecord.put 1 ['a'] ['x'] ['1', '\r', '\n']).text

/-- Cut within the data's line break, and not within the mark. -/
theorem sentLog_exact :
    receive logEnd 4 [] ([sentLog.take 16, sentLog.drop 16, logEnd ++ crlf].map .data)
      = .ok (sentLog, []) :=
  (receive_exact_iff (Or.inl rfl) (by decide)
    (show [sentLog.take 16, sentLog.drop 16, logEnd ++ crlf].flatten
    = sentLog ++ logEnd ++ crlf by decide)).mpr ⟨by decide, [[sentLog.take 16, sentLog.drop 16]],
    [logEnd ++ crlf],
      rfl, by decide, by decide⟩

/-- A read that ends within the mark: the rest of it comes alone, and the loop waits for more. -/
theorem cutMark_waits :
    receive logEnd 3 [] ([sentLog ++ logEnd.take 4, logEnd.drop 4 ++ crlf].map .data)
      = .error .blocked ∧
    (sentLog ++ logEnd.take 4) ++ (logEnd.drop 4 ++ crlf) = sentLog ++ logEnd ++ crlf :=
  ⟨by decide +kernel, by decide⟩

end PennCloud
