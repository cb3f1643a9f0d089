import PennCloud.Lib.Coded
import PennCloud.Frontend.Routes

/-!
# The form and path decoders undo the encodings

A browser writes a byte of a form field as itself, a blank as `+`, and any byte it
is not sure of as `%` and two hex digits. `parse_email` has one decoding loop for
each of three fields, and they share one index: each loop has to stop exactly in
front of the separator, with whole escapes consumed. `parse_path` knows escapes
only.

Both decoders take one code off the front of the text, so that they decode every
text written letter by letter (`Lib.Coded.decode`). An `&` or `=` is never a code,
which is what separates the fields.

The decoders' `int` indices are unbounded here: `request` walks over the message
with an `int` of its own before they are called.
-/

namespace PennCloud

open Str Lib

/-- `parse_path`, which makes a string of the two characters behind a `%` without looking whether
there are two. -/
def parsePath : Str → Option Str
  | [] => some []
  | '%' :: a :: b :: s => (parsePath s).map (convertHexToChar a b :: ·)
  | '%' :: _ => none
  | c :: s => (parsePath s).map (c :: ·)

/-! ## The encodings -/

/-- The ways to write a hex digit. -/
def hexForms (n : Nat) : List Char := [n.digitChar, n.digitChar.toUpper]

/-- A byte as `%` and its two hex digits. -/
def Escape (c : Char) (u : Str) : Prop :=
  c.toNat < 256 ∧ ∃ a ∈ hexForms (c.toNat / 16), ∃ b ∈ hexForms (c.toNat % 16), u = ['%', a, b]

/-- A byte of a path: itself, unless it is a `%`, or escaped. -/
def PathCode (c : Char) (u : Str) : Prop := (c ≠ '%' ∧ u = [c]) ∨ Escape c u

/-- The bytes that mean something else in a form field; a browser escapes more than these. -/
def reserved : List Char := ['%', '+', '&']

/-- A byte of a form field. -/
def FormCode (c : Char) (u : Str) : Prop :=
  (c ∉ reserved ∧ u = [c]) ∨ (c = ' ' ∧ u = ['+']) ∨ Escape c u

/-- The body of the mail form, with the field names of the page. -/
def mailForm (recipient subject content : Str) : Str :=
  "recipent=".toList ++ recipient ++ "&subject=".toList ++ subject ++ "&message=".toList ++ content

/-! ## One code -/

theorem hexValue_forms : ∀ n < 16, ∀ c ∈ hexForms n, hexValue c = some n := by
  intro n hn c hc
  have hall : ∀ m < 16, ((hexForms m).all fun c => hexValue c = some m) = true := by decide
  exact of_decide_eq_true (List.all_eq_true.mp (hall n hn) c hc)

theorem hexForms_plain : ∀ n < 16, ∀ c ∈ hexForms n, isspace c = false ∧ c ≠ '+' ∧ c ≠ '-' := by
  intro n hn c hc
  have hall : ∀ m < 16, ((hexForms m).all fun c => isspace c = false ∧ c ≠ '+' ∧
    c ≠ '-') = true := by
    decide
  exact of_decide_eq_true (List.all_eq_true.mp (hall n hn) c hc)

/-- `ss >> hex` reads the two digits of a byte back. -/
theorem convertHexToChar_escape {c a b : Char} (hc : c.toNat < 256)
    (ha : a ∈ hexForms (c.toNat / 16)) (hb : b ∈ hexForms (c.toNat % 16)) :
    convertHexToChar a b = c := by
  have hhigh : c.toNat / 16 < 16 := by omega
  have hlow : c.toNat % 16 < 16 := Nat.mod_lt _ (by decide)
  obtain ⟨hspace, hplus, hminus⟩ := hexForms_plain _ hhigh a ha
  have hsum : 16 * (c.toNat / 16) + c.toNat % 16 = c.toNat := Nat.div_add_mod _ _
  simp [convertHexToChar, hspace, hplus, hminus, hexValue_forms _ hhigh a ha,
    hexValue_forms _ hlow b hb, hsum]

theorem parsePath_plain {c : Char} (h : c ≠ '%') (s : Str) :
    parsePath (c :: s) = (parsePath s).map (c :: ·) := by
  simp [parsePath, h]

/-- A letter of a path and what `parse_path` reads it from, whatever stands behind a `%`. -/
def PathReads (c : Char) (u : Str) : Prop :=
  (c ≠ '%' ∧ u = [c]) ∨ ∃ a b, u = ['%', a, b] ∧ c = convertHexToChar a b

theorem PathCode.reads {c : Char} {u : Str} (h : PathCode c u) : PathReads c u := by
  rcases h with h | ⟨hc, a, ha, b, hb, rfl⟩
  · exact Or.inl h
  · exact Or.inr ⟨a, b, rfl, (convertHexToChar_escape hc ha hb).symm⟩

theorem parsePath_code {c : Char} {u : Str} (h : PathReads c u) (rest : Str) :
    parsePath (u ++ rest) = (parsePath rest).map (c :: ·) := by
  rcases h with ⟨hc, rfl⟩ | ⟨a, b, rfl, rfl⟩
  · exact parsePath_plain hc rest
  · rfl

theorem formField_escape {c : Char} {u : Str} (h : Escape c u) (rest : Str) :
    formField (u ++ rest) = (formField rest).map fun r => (c :: r.1, r.2) := by
  obtain ⟨hc, a, ha, b, hb, rfl⟩ := h
  show (formField rest).map (fun r => (convertHexToChar a b :: r.1, r.2)) = _
  rw [convertHexToChar_escape hc ha hb]

theorem formContent_escape {c : Char} {u : Str} (h : Escape c u) (rest : Str) :
    formContent (u ++ rest) = (formContent rest).map (c :: ·) := by
  obtain ⟨hc, a, ha, b, hb, rfl⟩ := h
  show (formContent rest).map (convertHexToChar a b :: ·) = _
  rw [convertHexToChar_escape hc ha hb]

theorem notReserved {c : Char} (h : c ∉ reserved) : c ≠ '%' ∧ c ≠ '+' ∧ c ≠ '&' := by
  simpa [reserved] using h

theorem formField_plain {c : Char} (h : c ∉ reserved) (s : Str) :
    formField (c :: s) = (formField s).map fun r => (c :: r.1, r.2) := by
  obtain ⟨hpercent, hplus, hand⟩ := notReserved h
  simp [formField, hpercent]

theorem formContent_plain {c : Char} (hpercent : c ≠ '%') (hplus : c ≠ '+') (s : Str) :
    formContent (c :: s) = (formContent s).map (c :: ·) := by
  simp [formContent, hpercent]

theorem formField_code {c : Char} {u : Str} (h : FormCode c u) (rest : Str) :
    formField (u ++ rest) = (formField rest).map fun r => (c :: r.1, r.2) := by
  rcases h with ⟨hc, rfl⟩ | ⟨rfl, rfl⟩ | h
  · exact formField_plain hc rest
  · rfl
  · exact formField_escape h rest

theorem formContent_code {c : Char} {u : Str} (h : FormCode c u) (rest : Str) :
    formContent (u ++ rest) = (formContent rest).map (c :: ·) := by
  rcases h with ⟨hc, rfl⟩ | ⟨rfl, rfl⟩ | h
  · obtain ⟨hpercent, hplus, -⟩ := notReserved hc
    exact formContent_plain hpercent hplus rest
  · rfl
  · exact formContent_escape h rest

/-! ## Whole texts -/

/-- The bytes taken off one after the other pile up in front of what the rest decodes to. -/
theorem foldr_map_cons (s r : Str) :
    s.foldr (fun c (x : Option Str) => x.map (c :: ·)) (some r) = some (s ++ r) := by
  induction s with
  | nil => rfl
  | cons c s ih => rw [List.foldr_cons, ih]; rfl

theorem foldr_map_field (s : Str) (r : Str × Str) :
    s.foldr (fun c (x : Option (Str × Str)) => x.map fun r => (c :: r.1, r.2)) (some r)
      = some (s ++ r.1, r.2) := by
  induction s with
  | nil => rfl
  | cons c s ih => rw [List.foldr_cons, ih]; rfl

theorem parsePath_reads {p t : Str} (h : Coded PathReads p t) : parsePath t = some p := by
  have hdecode := h.decode (fun _ _ hc => parsePath_code hc) []
  rw [List.append_nil] at hdecode
  rw [hdecode]
  show p.foldr _ (some []) = _
  rw [foldr_map_cons, List.append_nil]

theorem formContent_coded {p t : Str} (h : Coded FormCode p t) : formContent t = some p := by
  have hdecode := h.decode (fun _ _ hc => formContent_code hc) []
  rw [List.append_nil] at hdecode
  rw [hdecode]
  show p.foldr _ (some []) = _
  rw [foldr_map_cons, List.append_nil]

/-- A field is decoded up to the separator behind it. -/
theorem formField_coded {p t : Str} (h : Coded FormCode p t) (rest : Str) :
    formField (t ++ '&' :: rest) = some (p, '&' :: rest) := by
  rw [h.decode fun _ _ hc => formField_code hc]
  show p.foldr _ (some ([], '&' :: rest)) = _
  rw [foldr_map_field, List.append_nil]

theorem behind_sep {c : Char} {a : Str} (h : c ∉ a) (s : Str) :
    behind c (a ++ c :: s) = some s := by
  have hall : ∀ d ∈ a, (decide (d ≠ c)) = true := fun d hd =>
    decide_eq_true fun he => h (he ▸ hd)
  rw [behind, if_pos (List.mem_append_right _ (List.mem_cons_self ..)),
    List.dropWhile_append_of_pos hall]
  simp

/-- The three loops of `parse_email` on the three fields of the form. -/
theorem parseEmail_coded {recipient subject content r s m : Str} (hr : Coded FormCode recipient r)
    (hs : Coded FormCode subject s) (hm : Coded FormCode content m) :
    parseEmail (mailForm r s m) = some (recipient, content, subject) := by
  have hform : mailForm r s m = "recipent".toList ++ '=' :: (r ++ '&' ::
      ("subject".toList ++ '=' :: (s ++ '&' :: ("message".toList ++ '=' :: m)))) := by
    unfold mailForm
    rw [show "recipent=".toList = "recipent".toList ++ ['='] by decide,
      show "&subject=".toList = ['&'] ++ "subject".toList ++ ['='] by decide,
      show "&message=".toList = ['&'] ++ "message".toList ++ ['='] by decide]
    simp only [List.append_assoc, List.cons_append, List.nil_append]
  rw [hform, parseEmail, behind_sep (by decide), Option.bind_some, formField_coded hr,
    Option.bind_some, List.drop_one, List.tail_cons, behind_sep (by decide), Option.bind_some,
    formField_coded hs, Option.bind_some, List.drop_one, List.tail_cons, behind_sep (by decide),
    Option.bind_some, formContent_coded hm]
  rfl

/-- **Form decoding inverts form encoding, and path decoding any percent-encoding.** -/
theorem decoders_invert {recipient subject content r s m p t : Str}
    (hr : Coded FormCode recipient r) (hs : Coded FormCode subject s)
    (hm : Coded FormCode content m) (hp : Coded PathCode p t) :
    parseEmail (mailForm r s m) = some (recipient, content, subject) ∧ parsePath t = some p :=
  ⟨parseEmail_coded hr hs hm, parsePath_reads (hp.mono fun _ _ => PathCode.reads)⟩

theorem decoders_invert_mail :
    parseEmail (mailForm ['b', 'o', 'b'] ['a', '+', '%', '2', '6'] ['%', '3', 'd', '%', '3', 'D'])
        = some (['b', 'o', 'b'], ['=', '='], ['a', ' ', '&'])
      ∧ parsePath ['/', 'a', '&', '%', '2', '5'] = some ['/', 'a', '&', '%'] := by
  have hr : Coded FormCode ['b', 'o', 'b'] ['b', 'o', 'b'] :=
    Coded.refl fun c hc => Or.inl ⟨by revert c; simp [reserved], rfl⟩
  have hs : Coded FormCode ['a', ' ', '&'] ['a', '+', '%', '2', '6'] :=
    .cons (u := ['a']) (Or.inl ⟨by decide, rfl⟩) <|
    .cons (u := ['+']) (Or.inr (Or.inl ⟨rfl, rfl⟩)) <|
    .cons (u := ['%', '2', '6'])
      (Or.inr (Or.inr ⟨by decide, '2', by decide, '6', by decide, rfl⟩)) .nil
  have hm : Coded FormCode ['=', '='] ['%', '3', 'd', '%', '3', 'D'] :=
    .cons (u := ['%', '3', 'd'])
      (Or.inr (Or.inr ⟨by decide, '3', by decide, 'd', by decide, rfl⟩)) <|
    .cons (u := ['%', '3', 'D'])
      (Or.inr (Or.inr ⟨by decide, '3', by decide, 'D', by decide, rfl⟩)) .nil
  have hp : Coded PathCode ['/', 'a', '&', '%'] ['/', 'a', '&', '%', '2', '5'] :=
    .cons (u := ['/']) (Or.inl ⟨by decide, rfl⟩) <|
    .cons (u := ['a']) (Or.inl ⟨by decide, rfl⟩) <|
    .cons (u := ['&']) (Or.inl ⟨by decide, rfl⟩) <|
    .cons (u := ['%', '2', '5']) (Or.inr ⟨by decide, '2', by decide, '5', by decide, rfl⟩) .nil
  exact decoders_invert hr hs hm hp

end PennCloud
