import PennCloud.Text

/-!
# Folder listings

The cell `<id>:content` of a folder holds a line for each file or folder in it:
`f:` or `o:`, then the id, the name, the time and the size between double bars.
`Storage` reads such a text with `parse_content_fileNames` and
`parse_string_to_class` and writes it by concatenation; a name is put there as it
is. On a listing whose lines parse, each of its rewritings does to the ids what it
should: `scanDelete` takes one off, `scanRename` keeps them, and a line that is
appended adds its own.
-/

namespace PennCloud

open Str

/-- `file_info`. -/
structure FileInfo where
  id : Str
  name : Str
  isFile : Bool
  time : Str
  size : Str
  deriving DecidableEq, Repr

def bars : Str := ['|', '|']

/-- What is written of it: `"f:" + id + "||" + name + "||" + time + "||" + size`. -/
def FileInfo.text (f : FileInfo) : Str :=
  (if f.isFile then 'f' else 'o') :: ':'
    :: (f.id ++ bars ++ f.name ++ bars ++ f.time ++ bars ++ f.size)

/-- Its line in a listing. -/
def FileInfo.line (f : FileInfo) : Str := f.text ++ ['\n']

/-- The loop of `parse_string_to_class`, `n` rounds before its end. -/
def barFields (nameId : Str) : Nat → Nat → Nat → List Str
  | 0, _, previous => [nameId.substr previous]
  | n + 1, i, previous =>
    if nameId[i]? = some '|' ∧ nameId[i + 1]? = some '|' then
      nameId.substr previous ((i : Int) - previous) :: barFields nameId n (i + 1) (i + 2)
    else barFields nameId n (i + 1) previous

/-- `parse_string_to_class`; `none` where it throws or reads past its fields. -/
def parseStringToClass (str : Str) : Option FileInfo :=
  if str.length ≤ 2 then none
  else match barFields (str.drop 2) (str.length - 3) 0 0 with
    | id :: name :: time :: size :: _ =>
      some { id := id, name := name, isFile := str.take 1 = ['f'], time := time, size := size }
    | _ => none

/-- The loop of `parse_content_fileNames`: the lines that are ended, behind the part `l` of one. -/
def fileNamesFrom (l : Str) : Str → List Str
  | [] => []
  | c :: str => if c = '\n' then l :: fileNamesFrom [] str else fileNamesFrom (l ++ [c]) str

/-- `parse_content_fileNames`. -/
def parseContentFileNames (str : Str) : List Str := fileNamesFrom [] str

/-- `exist_same_fileName`. -/
def existSameFileName (filename : Str) : List Str → Option Bool
  | [] => some false
  | name :: names => (parseStringToClass name).bind fun f =>
    if f.name = filename then some true else existSameFileName filename names

/-- The scan of `send_cput_command_delete`: the new content, and whether the id was there. -/
def scanDelete (deleteName : Str) : List Str → Option (Str × Bool)
  | [] => some ([], false)
  | name :: names => (parseStringToClass name).bind fun f =>
    (scanDelete deleteName names).map fun r =>
      if f.id ≠ deleteName then (name ++ '\n' :: r.1, r.2) else (r.1, true)

/-- The scan of `rename_file`: every entry of the old name gets the new one. -/
def scanRename (isFile : Bool) (oldName newName : Str) : List Str → Option Str
  | [] => some []
  | name :: names => (parseStringToClass name).bind fun f =>
    (scanRename isFile oldName newName names).map fun r =>
      if f.name ≠ oldName then name ++ '\n' :: r
      else { f with name := newName, isFile := isFile }.line ++ r

/-- The ids in a listing. -/
def idsIn (text : Str) : List Str :=
  (parseContentFileNames text).filterMap fun name => (parseStringToClass name).map FileInfo.id

/-- A line: no line break in it, and no zero byte. -/
structure IsEntry (l : Str) : Prop where
  line : '\n' ∉ l
  noNul : '\x00' ∉ l

/-- A listing: lines that parse. -/
inductive IsListing : Str → Prop
  | nil : IsListing []
  | cons {l text : Str} {f : FileInfo} : IsEntry l → parseStringToClass l = some f →
      IsListing text → IsListing (l ++ '\n' :: text)

/-- The text of an entry makes one line, and is read back under its id. -/
structure FileInfo.Plain (e : FileInfo) : Prop where
  entry : IsEntry e.text
  id : (parseStringToClass e.text).map FileInfo.id = some e.id

instance (e : FileInfo) : Decidable e.Plain :=
  decidable_of_iff (('\n' ∉ e.text ∧ '\x00' ∉ e.text) ∧
      (parseStringToClass e.text).map FileInfo.id = some e.id)
    ⟨fun h => ⟨⟨h.1.1, h.1.2⟩, h.2⟩, fun h => ⟨⟨h.entry.line, h.entry.noNul⟩, h.id⟩⟩

/-- The columns of a folder or file. -/
def nameCol (id : Str) : Str := id ++ ":name".toList
def contentCol (id : Str) : Str := id ++ ":content".toList

theorem nameCol_inj {f g : Str} : nameCol f = nameCol g ↔ f = g := List.append_left_inj _

theorem contentCol_inj {f g : Str} : contentCol f = contentCol g ↔ f = g := List.append_left_inj _

theorem nameCol_ne_contentCol (f g : Str) : nameCol f ≠ contentCol g := by
  intro he
  have hlast := congrArg List.getLast? he
  rw [nameCol, contentCol, List.getLast?_append, List.getLast?_append] at hlast
  exact absurd (show some 'e' = some 't' from hlast) (by decide)

/-! ## Listings line by line -/

variable {l text : Str} {f : FileInfo}

theorem fileNamesFrom_line (hl : '\n' ∉ l) (a text : Str) :
    fileNamesFrom a (l ++ '\n' :: text) = (a ++ l) :: fileNamesFrom [] text := by
  induction l generalizing a with
  | nil => simp [fileNamesFrom]
  | cons c l ih =>
      rw [List.mem_cons, not_or] at hl
      rw [List.cons_append, fileNamesFrom, if_neg (Ne.symm hl.1), ih hl.2, List.append_assoc]
      rfl

@[simp] theorem parseContentFileNames_nil : parseContentFileNames [] = [] := rfl

theorem parseContentFileNames_cons (hl : '\n' ∉ l) (text : Str) :
    parseContentFileNames (l ++ '\n' :: text) = l :: parseContentFileNames text :=
  fileNamesFrom_line hl [] text

theorem idsIn_cons (hl : '\n' ∉ l) (hf : parseStringToClass l = some f) (text : Str) :
    idsIn (l ++ '\n' :: text) = f.id :: idsIn text := by
  rw [idsIn, parseContentFileNames_cons hl, List.filterMap_cons, hf]
  rfl

/-- An appended line adds its id. -/
theorem IsListing.append {e : FileInfo} (h : IsListing text) (he : e.Plain) :
    IsListing (text ++ e.line) ∧ idsIn (text ++ e.line) = idsIn text ++ [e.id] := by
  obtain ⟨g, hg, hid⟩ := Option.map_eq_some_iff.mp he.id
  induction h with
  | nil =>
      refine ⟨.cons he.entry hg .nil, ?_⟩
      exact (idsIn_cons he.entry.line hg []).trans (by rw [hid]; rfl)
  | @cons l text f hl hf _ ih =>
      have hassoc : l ++ '\n' :: text ++ e.line = l ++ '\n' :: (text ++ e.line) := by simp
      rw [hassoc]
      exact ⟨.cons hl hf ih.1, by rw [idsIn_cons hl.line hf, ih.2, idsIn_cons hl.line hf]; rfl⟩

/-- **The scan takes exactly the one id off the listing.** -/
theorem IsListing.scanDelete (h : IsListing text) (id : Str) : ∃ new,
    scanDelete id (parseContentFileNames text) = some (new, decide (id ∈ idsIn text)) ∧
      IsListing new ∧ idsIn new = (idsIn text).filter (· ≠ id) := by
  induction h with
  | nil => exact ⟨[], rfl, .nil, rfl⟩
  | @cons l text f hl hf _ ih =>
      obtain ⟨new, hscan, hnew, hids⟩ := ih
      rw [parseContentFileNames_cons hl.line, idsIn_cons hl.line hf, PennCloud.scanDelete, hf,
        Option.bind_some, hscan, Option.map_some]
      by_cases hid : f.id = id
      · refine ⟨new, ?_, hnew, ?_⟩
        · rw [if_neg (not_not_intro hid)]
          simp [hid]
        · rw [hids, List.filter_cons_of_neg (by simp [hid])]
      · refine ⟨l ++ '\n' :: new, ?_, .cons hl hf hnew, ?_⟩
        · rw [if_pos hid]
          simp [Ne.symm hid]
        · rw [idsIn_cons hl.line hf, hids, List.filter_cons_of_pos (by simp [hid])]

/-- The renamed entries of a listing are plain. -/
def RenamesPlain (isFile : Bool) (oldName newName text : Str) : Prop :=
  ∀ l ∈ parseContentFileNames text, ∀ f ∈ parseStringToClass l, f.name = oldName →
    { f with name := newName, isFile := isFile : FileInfo }.Plain

/-- **Renaming keeps the ids of a listing.** -/
theorem IsListing.scanRename {isFile : Bool} {oldName newName : Str} (h : IsListing text)
    (hp : RenamesPlain isFile oldName newName text) : ∃ new,
    scanRename isFile oldName newName (parseContentFileNames text) = some new ∧
      IsListing new ∧ idsIn new = idsIn text := by
  induction h with
  | nil => exact ⟨[], rfl, .nil, rfl⟩
  | @cons l text f hl hf _ ih =>
      rw [RenamesPlain, parseContentFileNames_cons hl.line] at hp
      obtain ⟨new, hscan, hnew, hids⟩ := ih fun l hl => hp l (List.mem_cons_of_mem _ hl)
      rw [parseContentFileNames_cons hl.line, idsIn_cons hl.line hf, PennCloud.scanRename, hf,
        Option.bind_some, hscan, Option.map_some]
      by_cases hname : f.name = oldName
      · have hplain := hp l List.mem_cons_self f hf hname
        obtain ⟨g, hg, hid⟩ := Option.map_eq_some_iff.mp hplain.id
        refine ⟨_, rfl, ?_⟩
        rw [if_neg (not_not_intro hname), FileInfo.line, List.append_assoc]
        exact ⟨.cons hplain.entry hg hnew, by
          rw [List.cons_append, List.nil_append, idsIn_cons hplain.entry.line hg, hid, hids]⟩
      · refine ⟨_, rfl, ?_⟩
        rw [if_pos hname]
        exact ⟨.cons hl hf hnew, by rw [idsIn_cons hl.line hf, hids]⟩

instance (isFile : Bool) (oldName newName text : Str) :
    Decidable (RenamesPlain isFile oldName newName text) :=
  inferInstanceAs (Decidable (∀ l ∈ parseContentFileNames text, ∀ f ∈ parseStringToClass l,
    f.name = oldName → { f with name := newName, isFile := isFile : FileInfo }.Plain))

/-- The lines of a listing parse, so the search for a name comes to an end. -/
theorem IsListing.existSameFileName (h : IsListing text) (filename : Str) :
    ∃ found, existSameFileName filename (parseContentFileNames text) = some found := by
  induction h with
  | nil => exact ⟨false, rfl⟩
  | @cons l text f hl hf _ ih =>
      rw [parseContentFileNames_cons hl.line, PennCloud.existSameFileName, hf, Option.bind_some]
      split
      · exact ⟨true, rfl⟩
      · exact ih

theorem IsListing.noNul (h : IsListing text) : '\x00' ∉ text := by
  induction h with
  | nil => exact List.not_mem_nil
  | @cons l text f hl _ _ ih =>
      intro hmem
      rcases List.mem_append.mp hmem with hmem | hmem
      · exact hl.noNul hmem
      · exact ih ((List.mem_cons.mp hmem).resolve_left (by decide))

/-- A listing ends with a line break, if it is not empty. -/
theorem IsListing.ends (h : IsListing text) : text = [] ∨ '\n' ∈ text := by
  cases h with
  | nil => exact Or.inl rfl
  | cons hl hf h => exact Or.inr (by simp)

end PennCloud
