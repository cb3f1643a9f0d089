import PennCloud.Lib.Reach
import PennCloud.Storage.Session

/-!
# The folders as a tree

What the `:content` and `:name` cells of a user are for: an id is absent, or a
folder with entries, or a file. `Dir.Shows` connects such a `Tree` with the cells.
The fields of its entries are free of what a listing is punctuated with, so each
line is read back as the entry it was written for, and each scan of `Storage` does
to the list of entries what it should.

Behind that a call that runs alone is a change of the tree, or none.
-/

namespace PennCloud

open Str

/-! ## Entries that are read back -/

/-- A field of an entry: not empty, and without a bar, a line break or a zero byte. -/
structure IsField (x : Str) : Prop where
  ne_nil : x ≠ []
  noBar : '|' ∉ x
  line : '\n' ∉ x
  noNul : '\x00' ∉ x

instance : DecidablePred IsField := fun x =>
  decidable_of_iff (x ≠ [] ∧ '|' ∉ x ∧ '\n' ∉ x ∧ '\x00' ∉ x)
    ⟨fun h => ⟨h.1, h.2.1, h.2.2.1, h.2.2.2⟩, fun h => ⟨h.ne_nil, h.noBar, h.line, h.noNul⟩⟩

/-- A name that makes no double bar with the bars on both sides of it. -/
def Unbarred (x : Str) : Prop := ¬ bars <:+: '|' :: (x ++ ['|'])

instance (x : Str) : Decidable (Unbarred x) := inferInstanceAs (Decidable (¬ _))

/-- An entry all of whose fields are fields. -/
structure FileInfo.Clean (e : FileInfo) : Prop where
  id : IsField e.id
  name : IsField e.name
  time : IsField e.time
  size : IsField e.size

section Parsing

variable {x a rest s : Str} {e : FileInfo} {n p : Nat}

theorem bars_prefix_iff : bars <+: s.drop p ↔ s[p]? = some '|' ∧ s[p + 1]? = some '|' := by
  rw [← List.head?_drop, ← List.head?_drop, ← List.tail_drop]
  cases s.drop p with
  | nil => exact iff_of_false (by decide) fun h => by cases h.1
  | cons c t =>
      rw [bars, List.cons_prefix_cons, List.tail_cons]
      cases t with
      | nil => exact iff_of_false (by simp) fun h => by cases h.2
      | cons d t => simp [List.cons_prefix_cons, eq_comm]

/-- **The loop of `parse_string_to_class` goes on to the next double bar**, and one letter
behind it. -/
theorem barFields_bars {j : Nat} (hj : Lib.firstIdx bars (s.drop p) = some j) (hn : j < n)
    (previous : Nat) : barFields s n p previous =
      s.substr previous (((p + j : Nat) : Int) - previous) :: barFields s (n - (j + 1)) (p + j + 1)
        (p + j + 2) := by
  induction j generalizing p n with
  | zero =>
      obtain ⟨n, rfl⟩ : ∃ m, n = m + 1 := ⟨n - 1, by omega⟩
      obtain ⟨u, v, huv, hu⟩ := Lib.firstIdx_split hj
      rw [List.length_eq_zero_iff.mp hu] at huv
      rw [barFields, if_pos (bars_prefix_iff.mp ⟨v, huv.symm⟩)]
      rfl
  | succ j ih =>
      obtain ⟨n, rfl⟩ : ∃ m, n = m + 1 := ⟨n - 1, by omega⟩
      have hno : ¬ bars <+: s.drop p := by
        intro h
        rw [Lib.firstIdx_zero h] at hj
        cases hj
      have hnext : Lib.firstIdx bars (s.drop (p + 1)) = some j := by
        rw [← List.tail_drop]
        cases hs : s.drop p with
        | nil =>
            rw [hs] at hj
            cases hj
        | cons c t =>
            rw [hs] at hj hno
            rw [Lib.firstIdx, if_neg hno] at hj
            obtain ⟨i, hi, hij⟩ := Option.map_eq_some_iff.mp hj
            rw [List.tail_cons, hi, Nat.succ.inj hij]
      rw [barFields, if_neg fun h => hno (bars_prefix_iff.mpr h), ih hnext (by omega)]
      rw [show p + 1 + j = p + (j + 1) by omega, Nat.add_sub_add_right]

/-- Behind the last double bar is the last field. -/
theorem barFields_none (hno : ¬ bars <:+: s.drop p) (previous : Nat) :
    barFields s n p previous = [s.substr previous] := by
  induction n generalizing p with
  | zero => rfl
  | succ n ih =>
      have hnext : ¬ bars <:+: s.drop (p + 1) := fun h =>
        hno (h.trans (List.tail_drop ▸ List.tail_suffix (s.drop p)).isInfix)
      rw [barFields, if_neg fun h => hno (bars_prefix_iff.mpr h).isInfix, ih hnext]

/-- **A field and the bars behind it**: the loop puts the field down, and goes on behind them. -/
theorem barFields_field (hx : ¬ bars <:+: x ++ ['|']) (hrest : rest.head? ≠ some '|') :
    barFields (a ++ (x ++ (bars ++ rest))) (x.length + 2 + n) a.length a.length
      = x :: barFields (a ++ (x ++ (bars ++ rest))) n (a.length + x.length + 2)
        (a.length + x.length + 2) := by
  have hfirst : Lib.firstIdx bars ((a ++ (x ++ (bars ++ rest))).drop a.length) = some x.length := by
    rw [List.drop_left, ← List.append_assoc]
    exact (Lib.firstIdx_length_iff (by decide) rest).mpr hx
  have hcut : Str.substr (a ++ (x ++ (bars ++ rest))) a.length
      (((a.length + x.length : Nat) : Int) - a.length) = x := by
    rw [← List.append_assoc]
    exact substr_middle a x _ rfl (by omega)
  -- the second bar is not the first of two
  have hdrop : (a ++ (x ++ (bars ++ rest))).drop (a.length + x.length + 1) = '|' :: rest := by
    rw [show a ++ (x ++ (bars ++ rest)) = (a ++ x ++ ['|']) ++ '|' :: rest by simp [bars]]
    exact List.drop_left' (by rw [List.length_append, List.length_append]; rfl)
  have hsecond : ¬ bars <+: (a ++ (x ++ (bars ++ rest))).drop (a.length + x.length + 1) := by
    rw [hdrop]
    intro h
    obtain ⟨t, ht⟩ := (List.cons_prefix_cons.mp h).2
    exact hrest (ht ▸ rfl)
  rw [barFields_bars hfirst (by omega), hcut, show x.length + 2 + n - (x.length + 1)
    = n + 1 by omega, barFields, if_neg fun h => hsecond (bars_prefix_iff.mpr h)]

theorem barFields_last (hx : '|' ∉ x) : barFields (a ++ x) n a.length a.length = [x] := by
  have hno : ¬ bars <:+: (a ++ x).drop a.length := by
    rw [List.drop_left]
    exact fun h => hx (h.subset (by simp [bars]))
  rw [barFields_none hno, substr_rest a x rfl]

theorem IsField.head (hx : IsField x) (rest : Str) : (x ++ rest).head? ≠ some '|' := by
  cases x with
  | nil => exact absurd rfl hx.ne_nil
  | cons c x =>
      intro h
      exact hx.noBar (Option.some.inj h ▸ List.mem_cons_self)

theorem Unbarred.inner (hx : Unbarred x) : ¬ bars <:+: x ++ ['|'] := fun h =>
  hx (h.trans (List.suffix_cons _ _).isInfix)

theorem Unbarred.head (hx : Unbarred x) (rest : Str) : (x ++ (bars ++ rest)).head? ≠ some '|' := by
  intro h
  have hlast : (x ++ ['|']).head? = some '|' := by
    cases x with
    | nil => rfl
    | cons c x => exact h
  obtain ⟨t, ht⟩ := List.head?_eq_some_iff.mp hlast
  exact hx (List.IsPrefix.isInfix ⟨t, by rw [ht]; rfl⟩)

theorem IsField.unbarred (hx : IsField x) : Unbarred x := by
  intro h
  rcases List.infix_cons_iff.mp h with h | h
  · obtain ⟨t, ht⟩ := (List.cons_prefix_cons.mp h).2
    exact hx.head ['|'] (ht ▸ rfl)
  · have hcount := h.sublist.count_le '|'
    rw [List.count_append, List.count_eq_zero.mpr hx.noBar] at hcount
    exact absurd hcount (by decide)

/-- What the loop of `parse_string_to_class` goes over. -/
theorem FileInfo.drop_text (e : FileInfo) :
    e.text.drop 2 = e.id ++ (bars ++ (e.name ++ (bars ++ (e.time ++ (bars ++ e.size))))) := by
  simp [FileInfo.text]

theorem FileInfo.length_text (e : FileInfo) : e.text.length =
    2 + e.id.length + 2 + e.name.length + 2 + e.time.length + 2 + e.size.length := by
  simp only [FileInfo.text, bars, List.length_cons, List.length_append, List.length_nil]
  omega

theorem FileInfo.take_text (e : FileInfo) : decide (e.text.take 1 = ['f']) = e.isFile := by
  rw [FileInfo.text]
  cases e.isFile <;> rfl

/-- **An entry is read back**, if its name keeps clear of the bars. -/
theorem FileInfo.parse_text (hid : IsField e.id) (hname : Unbarred e.name) (htime : IsField e.time)
    (hsize : IsField e.size) : parseStringToClass e.text = some e := by
  have hpos : 1 ≤ e.size.length := List.length_pos_iff.mpr hsize.ne_nil
  have hlen := e.length_text
  have hrounds : e.text.length - 3 = e.id.length + 2 + (e.name.length + 2 + (e.time.length + 2
      + (e.size.length - 1))) := by omega
  have hid' := barFields_field (a := []) (n := e.name.length + 2 + (e.time.length + 2
    + (e.size.length - 1))) hid.unbarred.inner (hname.head (e.time ++ (bars ++ e.size)))
  have hname' := barFields_field (a := e.id ++ bars) (n := e.time.length + 2 + (e.size.length - 1))
    hname.inner (htime.head (bars ++ e.size))
  have htime' := barFields_field (a := e.id ++ bars ++ e.name ++ bars) (n := e.size.length - 1)
    htime.unbarred.inner (by simpa using hsize.head [])
  have hlast := barFields_last (a := e.id ++ bars ++ e.name ++ bars ++ e.time ++ bars)
    (n := e.size.length - 1) hsize.noBar
  simp only [List.append_assoc, List.nil_append, List.length_append, List.length_nil, Nat.zero_add,
    show bars.length = 2 from rfl, Nat.add_assoc] at hid' hname' htime' hlast
  rw [parseStringToClass, if_neg (by omega), e.drop_text, hrounds]
  simp only [Nat.add_assoc, hid', hname', htime', hlast, e.take_text]

theorem FileInfo.Clean.parse (h : e.Clean) : parseStringToClass e.text = some e :=
  parse_text h.id h.name.unbarred h.time h.size

end Parsing

/-! ## Listings of entries -/

/-- The text of a listing. -/
def listingText (es : List FileInfo) : Str := es.flatMap FileInfo.line

section Listings

variable {es : List FileInfo} {e : FileInfo}

/-- What is in the text of an entry: its fields, and the punctuation. -/
theorem notMem_text {c : Char} (hc : c ∉ ['f', 'o', ':', '|']) (hid : c ∉ e.id) (hname : c ∉ e.name)
    (htime : c ∉ e.time) (hsize : c ∉ e.size) : c ∉ e.text := by
  intro h
  simp only [FileInfo.text, bars, List.mem_cons, List.mem_append, List.not_mem_nil] at h hc
  split at h <;> tauto

theorem FileInfo.Clean.entry (h : e.Clean) : IsEntry e.text where
  line := notMem_text (by decide) h.id.line h.name.line h.time.line h.size.line
  noNul := notMem_text (by decide) h.id.noNul h.name.noNul h.time.noNul h.size.noNul

theorem listingText_cons (e : FileInfo) (es : List FileInfo) :
    listingText (e :: es) = e.text ++ '\n' :: listingText es := by
  rw [listingText, List.flatMap_cons, FileInfo.line, List.append_assoc]
  rfl

theorem listingText_concat (es : List FileInfo) (e : FileInfo) :
    listingText (es ++ [e]) = listingText es ++ e.line := by
  simp [listingText]

/-- A listing of clean entries is one whose lines parse. -/
theorem isListing_text (h : ∀ e ∈ es, e.Clean) : IsListing (listingText es) := by
  induction es with
  | nil => exact .nil
  | cons e es ih =>
      have he := h e List.mem_cons_self
      rw [listingText_cons]
      exact .cons he.entry he.parse (ih fun e' he' => h e' (List.mem_cons_of_mem _ he'))

theorem listingText_eq_nil : listingText es = [] ↔ es = [] := by
  cases es with
  | nil => exact iff_of_true rfl rfl
  | cons e es =>
      rw [listingText_cons]
      exact iff_of_false (by simp) (List.cons_ne_nil e es)

theorem fileNames_lines (h : ∀ e ∈ es, '\n' ∉ e.text) :
    parseContentFileNames (listingText es) = es.map FileInfo.text := by
  induction es with
  | nil => rfl
  | cons e es ih =>
      obtain ⟨he, hes⟩ := List.forall_mem_cons.mp h
      rw [listingText_cons, parseContentFileNames_cons he, ih hes]
      rfl

theorem fileNames_text (h : ∀ e ∈ es, e.Clean) :
    parseContentFileNames (listingText es) = es.map FileInfo.text :=
  fileNames_lines fun e he => (h e he).entry.line

theorem files_text (h : ∀ e ∈ es, e.Clean) : Storage.files (listingText es) = some es := by
  rw [Storage.files, fileNames_text h]
  induction es with
  | nil => rfl
  | cons e es ih =>
      rw [List.map_cons, List.mapM_cons, (h e List.mem_cons_self).parse,
        ih fun e' he' => h e' (List.mem_cons_of_mem _ he')]
      rfl

theorem existSameFileName_text (h : ∀ e ∈ es, e.Clean) (name : Str) :
    existSameFileName name (parseContentFileNames (listingText es))
      = some (decide (name ∈ es.map FileInfo.name)) := by
  rw [fileNames_text h]
  induction es with
  | nil => rfl
  | cons e es ih =>
      rw [List.map_cons, existSameFileName, (h e List.mem_cons_self).parse, Option.bind_some,
        ih fun e' he' => h e' (List.mem_cons_of_mem _ he')]
      by_cases hname : e.name = name
      · rw [if_pos hname, List.map_cons, decide_eq_true (List.mem_cons.mpr (Or.inl hname.symm))]
      · rw [if_neg hname, List.map_cons]
        simp [Ne.symm hname]

theorem scanDelete_text (h : ∀ e ∈ es, e.Clean) (id : Str) :
    scanDelete id (parseContentFileNames (listingText es))
      = some (listingText (es.filter (·.id ≠ id)), decide (id ∈ es.map FileInfo.id)) := by
  rw [fileNames_text h]
  induction es with
  | nil => rfl
  | cons e es ih =>
      rw [List.map_cons, scanDelete, (h e List.mem_cons_self).parse, Option.bind_some,
        ih fun e' he' => h e' (List.mem_cons_of_mem _ he'), Option.map_some]
      by_cases hid : e.id = id
      · rw [if_neg (not_not_intro hid), List.filter_cons_of_neg (by simp [hid])]
        simp [hid]
      · rw [if_pos hid, List.filter_cons_of_pos (by simp [hid]), listingText_cons]
        simp [Ne.symm hid]

/-- What `rename_file` makes of an entry. -/
def FileInfo.renamed (isFile : Bool) (oldName newName : Str) (e : FileInfo) : FileInfo :=
  if e.name = oldName then { e with name := newName, isFile := isFile } else e

theorem scanRename_text (h : ∀ e ∈ es, e.Clean) (isFile : Bool) (oldName newName : Str) :
    scanRename isFile oldName newName (parseContentFileNames (listingText es))
      = some (listingText (es.map (FileInfo.renamed isFile oldName newName))) := by
  rw [fileNames_text h]
  induction es with
  | nil => rfl
  | cons e es ih =>
      rw [List.map_cons, scanRename, (h e List.mem_cons_self).parse, Option.bind_some,
        ih fun e' he' => h e' (List.mem_cons_of_mem _ he'), Option.map_some, List.map_cons,
        FileInfo.renamed]
      by_cases hname : e.name = oldName
      · rw [if_neg (not_not_intro hname), if_pos hname]
        rfl
      · rw [if_pos hname, if_neg hname, listingText_cons]

theorem FileInfo.Clean.renamed (h : e.Clean) (isFile : Bool) (oldName : Str) {newName : Str}
    (hnew : IsField newName) : (e.renamed isFile oldName newName).Clean := by
  unfold FileInfo.renamed
  split
  · exact ⟨h.id, hnew, h.time, h.size⟩
  · exact h

@[simp] theorem FileInfo.renamed_id (isFile : Bool) (oldName newName : Str) (e : FileInfo) :
    (e.renamed isFile oldName newName).id = e.id := by
  unfold FileInfo.renamed
  split <;> rfl

end Listings

/-! ## The tree -/

/-- What a `:content` cell holds: a folder with its entries, or a file that is not empty. -/
inductive Content
  | folder (es : List FileInfo)
  | file (content : Str)

namespace Content

def text : Content → Str
  | folder es => listingText es
  | file content => convertBinaryToStr content

def entries : Content → List FileInfo
  | folder es => es
  | file _ => []

/-- The cell of an empty file is that of an empty folder. -/
def ofFile (content : Str) : Content := if content = [] then folder [] else file content

/-- The entries are clean, and there is something in the file. -/
def Clean : Content → Prop
  | folder es => ∀ e ∈ es, e.Clean
  | file content => content ≠ []

end Content

/-- A user's files and folders by id, and their `:name` cells. -/
structure Tree where
  contents : Str → Option Content
  names : Str → Option Str

namespace Tree

variable (A : Tree) (f id : Str)

/-- The entries of a folder. -/
def entries : List FileInfo := (A.contents f).elim [] Content.entries

/-- The ids in a folder. -/
def ids : List Str := (A.entries f).map FileInfo.id

/-- The content of an id is put. -/
def setContent (c : Content) : Tree := { A with contents := Function.update A.contents f (some c) }

/-- The entries of a folder are put. -/
def setFolder (es : List FileInfo) : Tree := A.setContent f (.folder es)

/-- The name of an id is put. -/
def setName (name : Str) : Tree :=
  { A with names := Function.update A.names id (some (name ++ crlf)) }

/-- The name and content of an id are deleted. -/
def drop : Tree where
  contents := Function.update A.contents id none
  names := Function.update A.names id none

variable {A f id}

@[simp] theorem contents_setContent {c : Content} (g : Str) :
    (A.setContent f c).contents g = if g = f then some c else A.contents g :=
  Function.update_apply A.contents f (some c) g

@[simp] theorem names_setContent {c : Content} : (A.setContent f c).names = A.names := rfl

@[simp] theorem contents_setFolder {es : List FileInfo} (g : Str) :
    (A.setFolder f es).contents g = if g = f then some (.folder es) else A.contents g :=
  contents_setContent g

@[simp] theorem names_setFolder {es : List FileInfo} : (A.setFolder f es).names = A.names := rfl

@[simp] theorem contents_setName {name : Str} : (A.setName id name).contents = A.contents := rfl

@[simp] theorem names_setName {name : Str} (g : Str) :
    (A.setName id name).names g = if g = id then some (name ++ crlf) else A.names g :=
  Function.update_apply A.names id _ g

@[simp] theorem contents_drop (g : Str) :
    (A.drop id).contents g = if g = id then none else A.contents g :=
  Function.update_apply A.contents id none g

@[simp] theorem names_drop (g : Str) : (A.drop id).names g = if g = id then none else A.names g :=
  Function.update_apply A.names id none g

end Tree

/-- The cell of a name. -/
def Dir.nameCell (row : Str) (s : Dir) (f : Str) : Option Str := s.server.table.at? row (nameCol f)

/-- The cells of a user show the tree. -/
structure Dir.Shows (row : Str) (s : Dir) (A : Tree) : Prop where
  cell : ∀ f, s.cell row f = (A.contents f).map fun c => c.text ++ crlf
  clean : ∀ f c, A.contents f = some c → c.Clean
  names : ∀ f, s.nameCell row f = A.names f

/-! ## What a request does to the tree -/

section Texts

variable {content : Str}

theorem mem_convertBinaryToStr {c : Char} (h : c ∈ convertBinaryToStr content) :
    c ≠ '\n' ∧ c ≠ '\x00' ∧ c ≠ '-' := by
  have hdigit : ∀ n < 16, Nat.digitChar n ≠ '\n' ∧ Nat.digitChar n ≠ '\x00' ∧
    Nat.digitChar n ≠ '-' := by
    decide
  obtain ⟨b, -, hc⟩ := List.mem_flatMap.mp h
  rcases List.mem_cons.mp hc with rfl | hc
  · exact hdigit _ (by omega)
  · rw [List.mem_singleton.mp hc]
    exact hdigit _ (by omega)

theorem convertBinaryToStr_eq_nil (h : convertBinaryToStr content = []) : content = [] := by
  cases content with
  | nil => rfl
  | cons c content => cases h

theorem fileNamesFrom_none {l text : Str} (h : '\n' ∉ text) : fileNamesFrom l text = [] := by
  induction text generalizing l with
  | nil => rfl
  | cons c text ih =>
      rw [List.mem_cons, not_or] at h
      rw [fileNamesFrom, if_neg (Ne.symm h.1), ih h.2]

theorem Content.Clean.noNul {c : Content} (h : c.Clean) : '\x00' ∉ c.text := by
  cases c with
  | folder es => exact (isListing_text h).noNul
  | file content => exact fun hmem => (mem_convertBinaryToStr hmem).2.1 rfl

theorem Content.Clean.ne_null {c : Content} (h : c.Clean) : c.text ≠ nullReply := by
  cases c with
  | folder es => exact (isListing_text h).ne_nullReply
  | file content =>
      intro he
      have hmem : '-' ∈ convertBinaryToStr content := by
        rw [show convertBinaryToStr content = nullReply from he]
        decide
      exact (mem_convertBinaryToStr hmem).2.2 rfl

/-- The entries that a `GET` of the cell brings. -/
theorem Content.Clean.files {c : Content} (h : c.Clean) :
    Storage.files c.text = some c.entries := by
  cases c with
  | folder es => exact files_text h
  | file content =>
      have hnone : parseContentFileNames (convertBinaryToStr content) = [] :=
        fileNamesFrom_none fun hmem => (mem_convertBinaryToStr hmem).1 rfl
      rw [Storage.files, Content.text, hnone]
      rfl

end Texts

section Requests

variable {row : Str} {s t : Dir} {A : Tree} {f id response : Str} {es new : List FileInfo}

/-- **A `GET`** reads the tree. -/
theorem Dir.Shows.get (hs : s.Shows row A) (h : s.get row f = some (response, t)) :
    t = s ∧ response = (A.contents f).elim nullReply Content.text := by
  obtain ⟨hnull, hdata⟩ := Dir.get_reads h
  refine ⟨get_same h, ?_⟩
  have hcell := hs.cell f
  cases hc : A.contents f with
  | none =>
      rw [hc] at hcell
      exact hnull hcell
  | some c =>
      rw [hc] at hcell
      exact hdata c.text (hs.clean f c hc).noNul hcell

theorem sendUpdate_accepted {v w : Server} {col old new' : Str}
    (h : v.sendUpdate (.cput row col old new') = some (response, w))
    (hold : v.table.at? row col = some (old ++ crlf)) : response = replyOK ∧
      ∀ r c, w.table.at? r c = if r = row ∧ c = col then some (new' ++ crlf)
        else v.table.at? r c := by
  have hr : v.handle (Update.cput row col old new').request.call =
      .ok (v.parseCPUT row col (old ++ crlf) (new' ++ crlf)) := rfl
  have hok : readPutReply [] [replyOK] = replyOK := by decide
  rw [Server.sendUpdate, hr, parseCPUT_eq] at h
  simp only [if_pos (show CputHolds v.table.view (row, col) (old ++ crlf) from Or.inr hold), hok,
    if_neg (show replyOK ≠ serverCrash by decide)] at h
  cases h
  exact ⟨rfl, Nested.at?_set v.table row col (new' ++ crlf)⟩

/-- What putting a content does to the cells. -/
theorem Dir.Shows.set {c : Content} (hs : s.Shows row A) (hc : c.Clean)
    (hat : ∀ col, t.server.table.at? row col
      = if col = contentCol f then some (c.text ++ crlf) else s.server.table.at? row col) :
    t.Shows row (A.setContent f c) where
  cell g := by
    show t.server.table.at? row (contentCol g) = _
    rw [hat, Tree.contents_setContent]
    by_cases hg : g = f
    · rw [if_pos hg, if_pos (contentCol_inj.mpr hg)]
      rfl
    · rw [if_neg hg, if_neg fun h => hg (contentCol_inj.mp h)]
      exact hs.cell g
  clean g c' hg := by
    rw [Tree.contents_setContent] at hg
    split at hg
    · cases hg
      exact hc
    · exact hs.clean g c' hg
  names g := by
    show t.server.table.at? row (nameCol g) = _
    rw [hat, if_neg (nameCol_ne_contentCol g f)]
    exact hs.names g

/-- **A `CPUT`** of a listing that is as it was got puts the new one. -/
theorem Dir.Shows.cput (hs : s.Shows row A) (hf : A.contents f = some (.folder es))
    (hnew : ∀ e ∈ new, e.Clean)
    (h : s.update (.cput row (contentCol f) (listingText es) (listingText new))
      = some (response, t)) :
    response = replyOK ∧ t.Shows row (A.setFolder f new) := by
  obtain ⟨⟨r, v⟩, hsend, he⟩ := Option.map_eq_some_iff.mp h
  cases he
  have hcell := hs.cell f
  rw [hf] at hcell
  obtain ⟨hok, hat⟩ := sendUpdate_accepted hsend hcell
  exact ⟨hok, hs.set (c := .folder new) hnew fun col => by
    simpa [Content.text] using hat row col⟩

/-- **A `PUT` of a content.** -/
theorem Dir.Shows.putContent {c : Content} (hs : s.Shows row A) (hc : c.Clean)
    (h : s.update (.put row (contentCol f) c.text) = some (response, t)) :
    t.Shows row (A.setContent f c) := by
  obtain ⟨⟨r, v⟩, hsend, he⟩ := Option.map_eq_some_iff.mp h
  cases he
  obtain ⟨reply, hask⟩ := sendUpdate_ask hsend
  exact hs.set hc fun col => by simpa using ask_put hask row col

/-- **A `PUT` of a name.** -/
theorem Dir.Shows.putName {name : Str} (hs : s.Shows row A)
    (h : s.update (.put row (nameCol id) name) = some (response, t)) :
      t.Shows row (A.setName id name) := by
  obtain ⟨⟨r, v⟩, hsend, he⟩ := Option.map_eq_some_iff.mp h
  cases he
  obtain ⟨reply, hask⟩ := sendUpdate_ask hsend
  have hat : ∀ col, v.table.at? row col = if col = nameCol id then some (name ++ crlf)
      else s.server.table.at? row col := fun col => by simpa using ask_put hask row col
  refine ⟨fun g => ?_, hs.clean, fun g => ?_⟩
  · show v.table.at? row (contentCol g) = _
    rw [hat, if_neg (Ne.symm (nameCol_ne_contentCol id g))]
    exact hs.cell g
  · show v.table.at? row (nameCol g) = _
    rw [hat, Tree.names_setName]
    by_cases hg : g = id
    · rw [if_pos hg, if_pos (congrArg nameCol hg)]
    · rw [if_neg hg, if_neg fun h => hg (nameCol_inj.mp h)]
      exact hs.names g

/-- **The two `DELETE`s** of an id. -/
theorem Dir.Shows.delete {u : Dir} {response' : Str} (hs : s.Shows row A)
    (hname : s.update (.delete row (nameCol id)) = some (response, t))
    (hcontent : t.update (.delete row (contentCol id)) = some (response', u)) :
      u.Shows row (A.drop id) := by
  obtain ⟨⟨r, v⟩, hsend, he⟩ := Option.map_eq_some_iff.mp hname
  cases he
  obtain ⟨⟨r', w⟩, hsend', he'⟩ := Option.map_eq_some_iff.mp hcontent
  cases he'
  obtain ⟨reply, hask⟩ := sendUpdate_ask hsend
  obtain ⟨reply', hask'⟩ := sendUpdate_ask hsend'
  have hat : ∀ col, w.table.at? row col = if col = contentCol id then none
      else if col = nameCol id then none else s.server.table.at? row col := by
    intro col
    have hfirst := ask_delete hask row col
    have hsecond := ask_delete hask' row col
    simp only [true_and] at hfirst hsecond
    rw [hsecond, hfirst]
  refine ⟨fun g => ?_, fun g c hg => ?_, fun g => ?_⟩
  · show w.table.at? row (contentCol g) = _
    rw [hat, Tree.contents_drop]
    by_cases hg : g = id
    · rw [if_pos hg, if_pos (contentCol_inj.mpr hg)]
      rfl
    · rw [if_neg hg, if_neg fun h => hg (contentCol_inj.mp h),
        if_neg (Ne.symm (nameCol_ne_contentCol id g))]
      exact hs.cell g
  · rw [Tree.contents_drop] at hg
    split at hg
    · cases hg
    · exact hs.clean g c hg
  · show w.table.at? row (nameCol g) = _
    rw [hat, if_neg (nameCol_ne_contentCol g id), Tree.names_drop]
    by_cases hg : g = id
    · rw [if_pos hg, if_pos (congrArg nameCol hg)]
    · rw [if_neg hg, if_neg fun h => hg (nameCol_inj.mp h)]
      exact hs.names g

end Requests

end PennCloud
