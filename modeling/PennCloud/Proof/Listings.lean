import PennCloud.Storage.Calls
import Mathlib.Algebra.GroupWithZero.Nat

/-!
# When a listing is read back

The name is the one field of an entry that a user chooses, and it is put between
the double bars as it is. The loop of `parse_string_to_class` looks at every pair
of letters, also at one that overlaps with bars it has just cut at, so a name is
read back if there is no double bar in it and no bar at its edges; and it must not
be empty, for then the bars on both sides of it meet.
-/

namespace PennCloud

open Str

/-- The id, the time and the size are what `upload_file` or `create_folder` is given. -/
structure FileInfo.Made (e : FileInfo) : Prop where
  id : ∃ now : Clock, e.id = now.id
  time : ∃ created : Clock, e.time = created.time
  size : e.size = ['0'] ∨ ∃ n, e.size = contentSize n

/-- A name that is read back. -/
structure Readable (name : Str) : Prop where
  line : '\n' ∉ name
  unbarred : Unbarred name

instance : DecidablePred Readable := fun name =>
  decidable_of_iff ('\n' ∉ name ∧ Unbarred name) ⟨fun h => ⟨h.1, h.2⟩, fun h =>
    ⟨h.line, h.unbarred⟩⟩

section Entry

variable {e : FileInfo} {es : List FileInfo}

theorem FileInfo.Made.isField_id (h : e.Made) : IsField e.id := by
  obtain ⟨now, hid⟩ := h.id
  exact hid ▸ now.isField_id

theorem FileInfo.Made.isField_time (h : e.Made) : IsField e.time := by
  obtain ⟨created, htime⟩ := h.time
  exact htime ▸ created.isField_time

theorem FileInfo.Made.isField_size (h : e.Made) : IsField e.size := by
  rcases h.size with hsize | ⟨n, hsize⟩
  · rw [hsize]
    decide
  · exact hsize ▸ isField_contentSize n

/-- What the two calls append. -/
theorem made_newFile (name content : Str) (now created : Clock) :
    (Storage.newFile name content now created).Made :=
  ⟨⟨now, rfl⟩, ⟨created, rfl⟩, Or.inr ⟨content.length, rfl⟩⟩

theorem made_newFolder (name : Str) (now created : Clock) :
    (Storage.newFolder name now created).Made := ⟨⟨now, rfl⟩, ⟨created, rfl⟩, Or.inl rfl⟩

/-- And `rename_file` changes nothing of it. -/
theorem FileInfo.Made.renamed (h : e.Made) (isFile : Bool) (oldName newName : Str) :
    (e.renamed isFile oldName newName).Made := by
  unfold FileInfo.renamed
  split
  · exact ⟨h.id, h.time, h.size⟩
  · exact h

/-! ## One entry -/

/-- What is cut out as the name: from behind the first bars to the next ones, seen from their
second bar on. -/
theorem barFields_second (hid : IsField e.id) : ∃ j rest,
    Lib.firstIdx bars ('|' :: e.name ++ bars ++ (e.time ++ (bars ++ e.size))) = some j ∧
      barFields (e.text.drop 2) (e.text.length - 3) 0 0
        = e.id :: substr (e.text.drop 2) ((e.id.length + 2 : Nat) : Int)
          ((j : Int) - 1) :: rest := by
  let tail : Str := e.name ++ (bars ++ (e.time ++ (bars ++ e.size)))
  have htext : e.text.drop 2 = e.id ++ (bars ++ tail) := e.drop_text
  have hlen := e.length_text
  have hin : bars <:+: '|' :: e.name ++ bars ++ (e.time ++ (bars ++ e.size)) :=
    ⟨'|' :: e.name, _, rfl⟩
  obtain ⟨j, hj⟩ := Lib.firstIdx_isSome hin
  have hle := Lib.firstIdx_le hj
  rw [List.length_cons] at hle
  have hfirst : Lib.firstIdx bars ((e.text.drop 2).drop 0) = some e.id.length := by
    rw [List.drop_zero, htext, ← List.append_assoc]
    exact (Lib.firstIdx_length_iff (by decide) tail).mpr hid.unbarred.inner
  have hsecond : Lib.firstIdx bars ((e.text.drop 2).drop (0 + e.id.length + 1)) = some j := by
    have hcat : e.id ++ (bars ++ tail) = (e.id ++ ['|']) ++ ('|' :: tail) := by simp [bars]
    rw [htext, hcat, List.drop_left' (by rw [List.length_append, Nat.zero_add]; rfl)]
    simpa [tail] using hj
  have hcut : substr (e.text.drop 2) ((0 : Nat) : Int)
    (((0 + e.id.length : Nat) : Int) - (0 : Nat)) = e.id := by
    rw [htext, ← List.nil_append e.id, List.append_assoc, ← List.append_assoc [] e.id]
    exact substr_middle [] e.id _ rfl (by simp)
  have hcount : ((0 + e.id.length + 1 + j : Nat) : Int) - ((0 + e.id.length + 2 : Nat) : Int)
    = (j : Int) - 1 := by
    omega
  rw [barFields_bars hfirst (by omega), hcut, barFields_bars hsecond (by omega),
    hcount, Nat.zero_add]
  exact ⟨j, _, hj, rfl⟩

/-- **An entry is read back if and only if** its name is unbarred. -/
theorem parse_text_iff (h : e.Made) : parseStringToClass e.text = some e ↔ Unbarred e.name := by
  refine ⟨fun hparse => ?_, fun hname =>
    FileInfo.parse_text h.isField_id hname h.isField_time h.isField_size⟩
  obtain ⟨j, rest, hj, hfields⟩ := barFields_second h.isField_id
  have hlen := e.length_text
  rw [parseStringToClass, if_neg (by omega), hfields] at hparse
  -- what has been cut out is the name
  have hname : substr (e.text.drop 2) ((e.id.length + 2 : Nat) : Int) ((j : Int) - 1) = e.name := by
    split at hparse
    · rename_i id name time size rest' hcons
      obtain ⟨-, hcons⟩ := List.cons.inj hcons
      obtain ⟨hname, -⟩ := List.cons.inj hcons
      rw [hname]
      exact congrArg FileInfo.name (Option.some.inj hparse)
    · cases hparse
  have hle := Lib.firstIdx_le hj
  rw [List.length_cons] at hle
  have hlast : j = e.name.length + 1 := by
    cases j with
    | zero =>
        -- the count wraps: all that follows is taken
        have hwrap := congrArg List.length hname
        rw [substr, if_pos (by omega), Int.toNat_natCast, List.length_drop,
          List.length_drop] at hwrap
        omega
    | succ j =>
        have hcount := length_substr_le_count (e.text.drop 2) ((e.id.length + 2 : Nat) : Int)
          (n := ((j + 1 : Nat) : Int) - 1) (by omega)
        rw [hname] at hcount
        omega
  rw [hlast] at hj
  exact (Lib.firstIdx_length_iff (by decide) _).mp hj

/-! ## A listing -/

/-- The lines are as many as the line breaks. -/
theorem length_fileNames (text : Str) : (parseContentFileNames text).length = text.count '\n' := by
  have hfrom : ∀ l : Str, (fileNamesFrom l text).length = text.count '\n' := by
    induction text with
    | nil => exact fun l => rfl
    | cons c text ih =>
        intro l
        rw [fileNamesFrom]
        by_cases hc : c = '\n'
        · rw [if_pos hc, hc, List.count_cons_self, List.length_cons, ih]
        · rw [if_neg hc, List.count_cons_of_ne hc, ih]
  exact hfrom []

theorem count_listingText (es : List FileInfo) :
    (listingText es).count '\n' = (es.map fun e => e.text.count '\n').sum + es.length := by
  induction es with
  | nil => rfl
  | cons e es ih =>
      rw [listingText_cons, List.count_append, List.count_cons_self, ih,
        List.map_cons, List.sum_cons, List.length_cons]
      omega

/-- Each line is read on its own. -/
theorem mapM_parse_iff {ls : List Str} {fs : List FileInfo} :
    ls.mapM parseStringToClass = some fs ↔
    List.Forall₂ (fun l f => parseStringToClass l = some f) ls fs := by
  induction ls generalizing fs with
  | nil => simp [List.mapM_nil, eq_comm]
  | cons l ls ih =>
      rw [List.mapM_cons, List.forall₂_cons_left_iff]
      constructor
      · intro h
        obtain ⟨f, hf, h⟩ := Option.bind_eq_some_iff.mp h
        obtain ⟨rest, hrest, h⟩ := Option.bind_eq_some_iff.mp h
        cases h
        exact ⟨f, rest, hf, ih.mp hrest, rfl⟩
      · rintro ⟨f, rest, hf, hrest, rfl⟩
        rw [hf, ih.mpr hrest]
        rfl

theorem FileInfo.Made.line_iff (h : e.Made) : '\n' ∉ e.text ↔ '\n' ∉ e.name := by
  refine ⟨fun hno hin => hno ?_, fun hname => ?_⟩
  · simp [FileInfo.text, hin]
  · exact notMem_text (by decide) h.isField_id.line hname h.isField_time.line h.isField_size.line

/--
**A listing is read back if and only if** each of its names is readable: there is
no line break in it, no double bar, no bar at its edges, and it is not empty.
-/
theorem listing_roundTrip_iff (h : ∀ e ∈ es, e.Made) :
    Storage.files (listingText es) = some es ↔ ∀ e ∈ es, Readable e.name := by
  have hsame : (∀ e ∈ es, '\n' ∉ e.text) →
      (Storage.files (listingText es) = some es ↔ ∀ e ∈ es, Unbarred e.name) := by
    intro hline
    rw [Storage.files, fileNames_lines hline, mapM_parse_iff, List.forall₂_map_left_iff,
      List.forall₂_same]
    exact forall₂_congr fun e he => parse_text_iff (h e he)
  constructor
  · intro hread
    have hlen := (mapM_parse_iff.mp hread).length_eq
    rw [length_fileNames, count_listingText] at hlen
    -- a line break in a name would make a line more
    have hline : ∀ e ∈ es, '\n' ∉ e.text := by
      intro e he
      have hsum : (es.map fun e => e.text.count '\n').sum = 0 := by omega
      exact List.count_eq_zero.mp
        (List.sum_eq_zero_iff_forall_eq_nat.mp hsum _ (List.mem_map_of_mem he))
    exact fun e he => ⟨(h e he).line_iff.mp (hline e he), (hsame hline).mp hread e he⟩
  · intro hnames
    exact (hsame fun e he => (h e he).line_iff.mpr (hnames e he).line).mpr fun e he =>
      (hnames e he).unbarred

end Entry

/-- Midnight. -/
def midnight : Clock := ⟨2020, 1, 1, 0, 0, 0, 0⟩

/-- A file and a folder, with a single bar within a name. -/
def barredFolder : List FileInfo :=
  [Storage.newFile "a|b".toList ['x'] midnight midnight,
    Storage.newFolder "c d".toList midnight midnight]

theorem barredFolder_read : Storage.files (listingText barredFolder) = some barredFolder := by
  refine (listing_roundTrip_iff fun e he => ?_).mpr (by decide)
  rcases List.mem_cons.mp he with rfl | he
  · exact made_newFile _ _ _ _
  · exact List.mem_singleton.mp he ▸ made_newFolder _ _ _

/-- A bar at the end of a name is taken for one of the next two, and an empty name for no field. -/
theorem edgeNames_lost :
    Storage.files (listingText [Storage.newFolder "a|".toList midnight midnight])
      ≠ some [Storage.newFolder "a|".toList midnight midnight] ∧
    Storage.files (listingText [Storage.newFolder [] midnight midnight])
      ≠ some [Storage.newFolder [] midnight midnight] := by decide +kernel

end PennCloud
