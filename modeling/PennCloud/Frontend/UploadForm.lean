import PennCloud.Frontend.Routes

/-!
# The upload form

A browser sends the form of the upload page as one part between two boundary lines:
the part's headers, a blank line, the file, a line break and the boundary once
more. `find_filename` takes what stands in the quotes behind the first `filename=`.
`find_file_content` starts behind the first blank line and ends in front of the
next six dashes; it never looks at the boundary itself.

A boundary is a line of its own and has no quotes in it, but `=` and letters it may
have, so that the first `filename=` can stand in the boundary.
-/

namespace PennCloud

open Str Lib

def sixDashes : Str := List.replicate 6 '-'

/-- The part's header up to the file name. -/
def disposition : Str :=
  "Content-Disposition: form-data; name=".toList ++ '"' :: "uploadedfile".toList
  ++ '"' :: "; ".toList

def filenameKey : Str := "filename=".toList

/-- What the user uploads and what the browser adds to it. -/
structure UploadForm where
  /-- The boundary line, with the two dashes that every boundary line begins with. -/
  boundary : Str
  filename : Str
  type : Str
  content : Str
  dashes : sixDashes <+: boundary
  boundary_line : '\r' ∉ boundary ∧ '\n' ∉ boundary ∧ '"' ∉ boundary
  filename_line : '\r' ∉ filename ∧ '\n' ∉ filename ∧ '"' ∉ filename
  type_line : '\r' ∉ type ∧ '\n' ∉ type

namespace UploadForm

variable (f : UploadForm)

/-- What comes behind the file. -/
def closing : Str := crlf ++ f.boundary ++ ['-', '-'] ++ crlf

/-- What comes behind the name. -/
def afterName : Str :=
  crlf ++ ("Content-Type: ".toList ++ f.type ++ crlf ++ crlf ++ (f.content ++ f.closing))

/-- The body of the request. -/
def body : Str :=
  f.boundary ++ crlf ++ disposition ++ filenameKey ++ '"' :: (f.filename ++ '"' :: f.afterName)

end UploadForm

/-! ## The content -/

/-- What `find_file_content` makes of the text behind the blank line. -/
def upToDashes (s : Str) : Option Str :=
  let stop := (firstIdx sixDashes s).getD s.length
  if stop < 2 then none else some (s.take (stop - 2))

theorem findFileContent_eq (message : Str) :
    findFileContent message
      = (firstIdx (crlf ++ crlf) message).bind fun i => upToDashes (message.drop (i + 4)) := rfl

/-- A line in front of another line is skipped. -/
theorem findFileContent_line {l : Str} (hl : '\r' ∉ l) {c : Char} (hc : c ≠ '\r') (s : Str) :
    findFileContent (l ++ crlf ++ c :: s) = findFileContent (c :: s) := by
  have hshift : firstIdx (crlf ++ crlf) (l ++ crlf ++ c :: s)
      = (firstIdx (crlf ++ crlf) (c :: s)).map fun i => (l ++ crlf).length + i := by
    rw [List.append_assoc]
    show firstIdx ('\r' :: ['\n', '\r', '\n']) (l ++ '\r' :: '\n' :: c :: s) = _
    rw [firstIdx_skip _ hl, firstIdx, if_neg (by simp [Ne.symm hc]), firstIdx,
      if_neg (by simp), Option.map_map, Option.map_map]
    refine congrArg (fun g => Option.map g _) (funext fun i => ?_)
    simp only [Function.comp_apply, List.length_append, crlf, List.length_cons, List.length_nil]
    omega
  rw [findFileContent_eq, hshift, Option.bind_map, findFileContent_eq]
  refine congrArg (Option.bind _) (funext fun i => ?_)
  show upToDashes ((l ++ crlf ++ c :: s).drop ((l ++ crlf).length + i + 4)) = _
  rw [Nat.add_assoc, ← List.drop_drop, List.drop_left]

/-- The content begins behind the line that a blank one follows. -/
theorem findFileContent_blank {l : Str} (hl : '\r' ∉ l) (s : Str) :
    findFileContent (l ++ crlf ++ crlf ++ s) = upToDashes s := by
  have hfirst : firstIdx (crlf ++ crlf) (l ++ crlf ++ crlf ++ s) = some l.length := by
    rw [List.append_assoc, List.append_assoc]
    show firstIdx ('\r' :: ['\n', '\r', '\n']) (l ++ ('\r' :: ['\n', '\r', '\n'] ++ s)) = _
    rw [firstIdx_skip _ hl, firstIdx_zero (List.prefix_append _ _)]
    rfl
  have hdrop : (l ++ crlf ++ crlf ++ s).drop (l.length + 4) = s := by
    rw [List.append_assoc, List.append_assoc, ← List.drop_drop, List.drop_left]
    rfl
  rw [findFileContent_eq, hfirst, Option.bind_some, hdrop]

/-- **The content is cut off at its first six dashes**, and comes back whole if it has none. -/
theorem upToDashes_iff (content rest : Str) :
    upToDashes (content ++ crlf ++ (sixDashes ++ rest)) = some content ↔
    ¬ sixDashes <:+: content := by
  have hat : firstIdx sixDashes (content ++ crlf ++ (sixDashes ++ rest)) = some (content.length + 2)
      ↔ ¬ sixDashes <:+: content := by
    have hlen : (content ++ crlf).length = content.length + 2 := by simp [crlf]
    rw [← hlen, ← List.append_assoc, firstIdx_length_iff (by decide), crlf, List.append_cons,
      List.append_assoc, List.singleton_append, infix_mid (by decide), infix_mid (by decide)]
    have hnone : ¬ sixDashes <:+: [] := by decide
    have hfive : ¬ sixDashes <:+: sixDashes.dropLast := by decide
    simp only [hnone, hfive, or_false]
  rw [← hat]
  obtain ⟨stop, hstop⟩ := firstIdx_isSome
    (show sixDashes <:+: content ++ crlf ++ (sixDashes ++ rest) from
      ⟨content ++ crlf, rest, by simp only [List.append_assoc]⟩)
  have hle : stop ≤ (content ++ crlf).length :=
    firstIdx_le (by rw [← List.append_assoc] at hstop; exact hstop)
  have hlen : (content ++ crlf).length = content.length + 2 := by simp [crlf]
  rw [upToDashes, hstop, Option.getD_some]
  constructor
  · intro h
    split at h
    · cases h
    · rename_i hlong
      have htake := congrArg List.length (Option.some.inj h)
      rw [List.length_take, List.length_append] at htake
      exact congrArg some (by omega)
  · rintro ⟨⟩
    rw [if_neg (by omega), Nat.add_sub_cancel, List.append_assoc, List.take_left]

/-! ## The name -/

/-- The name is what stands between the letter behind the first `filename=`, whatever it is, and the
next quote. -/
theorem findFilename_at {a q : Str} (x : Char) (rest : Str)
    (hfirst : firstIdx filenameKey (a ++ filenameKey ++ x :: (q ++ '"' :: rest)) = some a.length)
    (hq : '"' ∉ q) : findFilename (a ++ filenameKey ++ x :: (q ++ '"' :: rest)) = some q := by
  have hkey : filenameKey.length = 9 := by decide
  have hsplit : a ++ filenameKey ++ x :: (q ++ '"' :: rest)
      = a ++ filenameKey ++ [x] ++ q ++ '"' :: rest := by simp
  have hpos : ((a.length : Int) + 10) = (a ++ filenameKey ++ [x]).length := by
    simp [hkey]
  have hdrop : (a ++ filenameKey ++ x :: (q ++ '"' :: rest)).drop ((a.length : Int) + 10).toNat
      = q ++ '"' :: rest := by
    rw [hpos, Int.toNat_natCast, hsplit, List.append_assoc _ q, List.drop_left]
  show (if _ < find _ filenameKey + 10 then none else
    some (substr _ (find _ filenameKey + 10)
      (find (List.drop (find _ filenameKey + 10).toNat _) ['"']))) = _
  rw [find_of_firstIdx hfirst, if_neg, hdrop, find_sep _ hq, hsplit, substr_middle _ _ _ hpos rfl]
  rw [hsplit, hpos]
  simp only [List.length_append]
  omega

/-- What a wrong name ends in. -/
def dispositionFront : Str := "Content-Disposition: form-data; name=".toList

theorem disposition_eq : ∃ rest, disposition = dispositionFront ++ '"' :: rest := by
  refine ⟨"uploadedfile".toList ++ '"' :: "; ".toList, ?_⟩
  decide

namespace UploadForm

variable (f : UploadForm)

/-- Before the quotes of the name there is no `filename=` but one in the boundary. -/
theorem filenameKey_infix :
    filenameKey <:+: f.boundary ++ crlf ++ disposition ++ filenameKey.dropLast
      ↔ filenameKey <:+: f.boundary := by
  have hrest : ¬ filenameKey <:+: '\n' :: (disposition ++ filenameKey.dropLast) := by decide
  have hsplit : f.boundary ++ crlf ++ disposition ++ filenameKey.dropLast
      = f.boundary ++ '\r' :: '\n' :: (disposition ++ filenameKey.dropLast) := by
    simp [crlf]
  rw [hsplit, infix_mid (by decide)]
  simp only [hrest, or_false]

/-- A name that begins in the boundary has the line break behind it. -/
theorem findFilename_boundary (h : filenameKey <:+: f.boundary) :
    ∃ q, findFilename f.body = some q ∧ '\n' ∈ q := by
  obtain ⟨i, hi⟩ := firstIdx_isSome h
  obtain ⟨u, v, hb, rfl⟩ := firstIdx_split hi
  obtain ⟨w, hw⟩ := disposition_eq
  have hquote : '"' ∉ v := fun hv => f.boundary_line.2.2 (by rw [hb]; simp [hv])
  have hfront : '"' ∉ dispositionFront := by decide
  -- the letter that is skipped is the last of the boundary's or the `\r` behind it
  obtain ⟨x, q, hq, hvq, hnl⟩ : ∃ x q, '"' ∉ q ∧ v ++ '\r' :: '\n' :: dispositionFront = x :: q
      ∧ '\n' ∈ q := by
    cases v with
    | nil => exact ⟨'\r', '\n' :: dispositionFront, by simp [hfront], rfl, by simp⟩
    | cons y v =>
        refine ⟨y, v ++ '\r' :: '\n' :: dispositionFront, ?_, rfl, by simp⟩
        simp only [List.mem_cons, not_or] at hquote
        simp [hquote.2, hfront]
  have hbody : f.body = u ++ filenameKey ++ x :: (q ++ '"' :: (w ++ (filenameKey
      ++ '"' :: (f.filename ++ '"' :: f.afterName)))) := by
    have hfold : ∀ z : Str, v ++ (crlf ++ (dispositionFront ++ '"' :: z)) = x :: q ++ '"' :: z := by
      intro z
      rw [← hvq]
      simp [crlf]
    rw [body, hb, hw]
    simp only [List.append_assoc, List.cons_append] at hfold ⊢
    rw [hfold]
  have hfirst : firstIdx filenameKey f.body = some u.length := by
    rw [body]
    simp only [List.append_assoc]
    exact firstIdx_append _ hi
  rw [hbody] at hfirst
  exact ⟨q, by rw [hbody]; exact findFilename_at x _ hfirst hq, hnl⟩

/-- **The name is found exactly if the boundary does not have a `filename=` of its own.** -/
theorem findFilename_iff :
    findFilename f.body = some f.filename ↔ ¬ filenameKey <:+: f.boundary := by
  constructor
  · intro h hin
    obtain ⟨q, hq, hnl⟩ := f.findFilename_boundary hin
    rw [← Option.some.inj (h.symm.trans hq)] at hnl
    exact f.filename_line.2.1 hnl
  · intro hno
    refine findFilename_at '"' _ ?_ f.filename_line.2.2
    rw [firstIdx_length_iff (by decide), filenameKey_infix]
    exact hno

/-- The three lines in front of the content. -/
theorem body_content : findFileContent f.body = upToDashes (f.content ++ f.closing) := by
  have hdisp : '\r' ∉ disposition ∧ '\r' ∉ filenameKey := by decide
  have hname : '\r' ∉ disposition ++ filenameKey ++ '"' :: (f.filename ++ ['"']) := by
    simp [hdisp, f.filename_line.1]
  have htype : '\r' ∉ "Content-Type: ".toList ++ f.type := by
    have hfront : '\r' ∉ "Content-Type: ".toList := by decide
    rw [List.mem_append, not_or]
    exact ⟨hfront, f.type_line.1⟩
  have hdispC : disposition = 'C' :: disposition.tail := by decide
  have htypeC : "Content-Type: ".toList = 'C' :: "Content-Type: ".toList.tail := by decide
  calc findFileContent f.body
      = findFileContent (f.boundary ++ crlf ++ 'C' :: (disposition.tail ++ filenameKey
          ++ '"' :: (f.filename ++ '"' :: f.afterName))) := by
        rw [body, hdispC]
        simp only [List.append_assoc, List.cons_append, List.tail_cons]
    _ = findFileContent ('C' :: (disposition.tail ++ filenameKey
          ++ '"' :: (f.filename ++ '"' :: f.afterName))) :=
        findFileContent_line f.boundary_line.1 (by decide) _
    _ = findFileContent (disposition ++ filenameKey ++ '"' :: (f.filename ++ ['"']) ++ crlf
          ++ 'C' :: ("Content-Type: ".toList.tail ++ f.type ++ crlf ++ crlf
            ++ (f.content ++ f.closing))) := by
        rw [afterName, htypeC, hdispC]
        simp only [List.append_assoc, List.cons_append, List.nil_append, List.tail_cons]
    _ = findFileContent ('C' :: ("Content-Type: ".toList.tail ++ f.type ++ crlf ++ crlf
          ++ (f.content ++ f.closing))) :=
        findFileContent_line hname (by decide) _
    _ = findFileContent ("Content-Type: ".toList ++ f.type ++ crlf ++ crlf
          ++ (f.content ++ f.closing)) := by
        rw [htypeC]
        simp only [List.append_assoc, List.cons_append, List.tail_cons]
    _ = upToDashes (f.content ++ f.closing) := findFileContent_blank htype _

/-- **An uploaded file is extracted exactly if there are no six dashes in it and no `filename=` in
the boundary.** -/
theorem extracted_iff :
    (findFilename f.body = some f.filename ∧ findFileContent f.body = some f.content)
      ↔ ¬ sixDashes <:+: f.content ∧ ¬ filenameKey <:+: f.boundary := by
  obtain ⟨rest, hrest⟩ := f.dashes
  have hclosing : f.content ++ f.closing
      = f.content ++ crlf ++ (sixDashes ++ (rest ++ ['-', '-'] ++ crlf)) := by
    rw [closing, ← hrest]
    simp only [List.append_assoc]
  rw [findFilename_iff, body_content, hclosing, upToDashes_iff, and_comm]

/-- A text with a ruled line in it. -/
def ruledForm : UploadForm where
  boundary := sixDashes ++ ['b']
  filename := ['a']
  type := "text/plain".toList
  content := "x\n------\ny".toList
  dashes := List.prefix_append _ _
  boundary_line := by decide
  filename_line := by decide
  type_line := by decide

theorem ruledForm_cut : ¬ ruledForm.boundary <:+: ruledForm.content
    ∧ findFileContent ruledForm.body ≠ some ruledForm.content := by
  rw [body_content]
  decide

end UploadForm

end PennCloud
