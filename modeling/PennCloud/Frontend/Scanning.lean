import PennCloud.Lib.Scan
import PennCloud.Frontend.Links

/-!
# Scanning a request within its bounds

The handlers take a path or a body apart with index loops that stop at a `=`, `?` or
`&` and do not look where the text ends. Here the loops are written with their
indices and every read is checked: there is no result where one leaves the text or
where `at` or `substr` throws, and that is the end of the process.

A `std::string` may be read at its length, where it has a zero; a loop that comes
there goes on to the next position, which it may not read. `message` is a vector in
`parse_email`, and `at` throws at its length.

`getScan` and `postScan` are the dispatch of `handle_get` and `handle_post` down to
which scanner runs; what the scanner yields is what `getRoute` and `postRoute` hand
on.
-/

namespace PennCloud

open Str Lib

/-! ## The loops -/

/-- `while (s[index] != c) index++; index++;` -/
def skipPast (c : Char) (s : Str) (index : Nat) : Option Nat :=
  (scanTo (· == c) (s ++ ['\x00']) index).map (· + 1)

/-- `while (s[index] != c) res.push_back(s[index++]);` -/
def copyTo (c : Char) (s : Str) (index : Nat) : Option (Str × Nat) :=
  gather (· == c) (s ++ ['\x00']) index

/-- `while (message->at(index) != c) index++; index++;` -/
def skipPastAt (c : Char) (message : Str) (index : Nat) : Option Nat :=
  (scanTo (· == c) message index).map (· + 1)

/-- `s.substr(pos, s.size() - pos)`. -/
def substrFrom (s : Str) (pos : Nat) : Option Str :=
  if pos ≤ s.length then some (s.drop pos) else none

/-- A decoding loop from `index` on: up to a `stop`, which has to come, or to the end of
the text. -/
def decodeAt (plus : Bool) (stop : Option Char) (s : Str) (index : Nat) : Option (Str × Nat) :=
  if h : index < s.length then
    if some s[index] = stop then some ([], index)
    else if plus = true ∧ s[index] = '+' then
      (decodeAt plus stop s (index + 1)).map fun r => (' ' :: r.1, r.2)
    else if s[index] = '%' then
      -- the two letters behind it are copied from the positions `index + 1` and `index + 2`
      if h' : index + 2 < s.length then
        (decodeAt plus stop s (index + 3)).map fun r =>
          (convertHexToChar s[index + 1] s[index + 2] :: r.1, r.2)
      else none
    else (decodeAt plus stop s (index + 1)).map fun r => (s[index] :: r.1, r.2)
  else if stop = none then some ([], index) else none
termination_by s.length - index

/-! ## The functions -/

/-- `parse_path`. -/
def parsePathAt (prePath : Str) : Option Str := (decodeAt false none prePath 0).map Prod.fst

/-- `handle_delete` and `handle_open_directory`; the loop over the rest stops at the end. -/
def nameAt (path : Str) : Option Str := (skipPast '?' path 0).map fun index => path.drop index

/-- `handle_back`, and the four handlers that stop or start a server: the digits of the index. -/
def digitsAt (path : Str) : Option Str := (skipPast '=' path 0).map fun index => path.drop index

/-- `parse_mailid`, whose second loop looks for the end too. -/
def mailidAt (path : Str) : Option Str := (digitsAt path).map fun s => s.takeWhile (· ≠ '?')

/-- `handle_move_file`. -/
def moveArgsAt (path : Str) (isFile : Bool) : Option (Str × Str) :=
  (substrFrom path (if isFile then 22 else 24)).bind fun info =>
    (skipPast '=' info 0).bind fun index => (copyTo '&' info index).bind fun filename =>
      (skipPast '=' info filename.2).map fun index => (filename.1, info.drop index)

/-- `handle_rename`. -/
def renameArgsAt (message : Str) : Option (Str × Str) :=
  (skipPast '=' message 0).bind fun index => (copyTo '&' message index).bind fun newname =>
    (skipPast '=' message (newname.2 + 1)).map fun index => (message.drop index, newname.1)

/-- `parse_email`. -/
def parseEmailAt (message : Str) : Option (Str × Str × Str) :=
  (skipPastAt '=' message 0).bind fun index => (decodeAt true (some '&') message index).bind
    fun recipient =>
    (skipPastAt '=' message (recipient.2 + 1)).bind fun index =>
      (decodeAt true (some '&') message index).bind fun subject =>
        (skipPastAt '=' message (subject.2 + 1)).bind fun index =>
          (decodeAt true none message index).map fun content => (recipient.1, content.1, subject.1)

/-! ## The dispatch -/

/-- What scans the path of a GET request. -/
inductive GetScan
  | none
  /-- `/download?`, `/movefile` and `/movefolder`: the path from a fixed position on. -/
  | from (pos : Nat)
  | move (isFile : Bool)
  | digits
  | name
  | mailid
  /-- What stands behind the first `=`, or the whole path. -/
  | hash
  deriving DecidableEq

/-- What scans the body of a POST request. -/
inductive PostScan
  | none
  | email
  | createFolder
  | rename
  deriving DecidableEq

/-- `handle_get`, which tests the paths in this order. -/
def getScan (path : Str) : GetScan :=
  if strcasecmp path "/".toList then .none
  else if strcasecmp path "/css/signin.css".toList then .none
  else if strcasecmp path "/newemail".toList then .none
  else if strcasecmp path "/files".toList then .none
  else if strcasecmp path "/upload".toList then .none
  else if startsCase path "/download?".toList then .from 10
  else if startsCase path "/movefile".toList then .from 10
  else if startsCase path "/movefolder".toList then .from 12
  else if strcasecmp path "/logout".toList then .none
  else if strcasecmp path "/signup".toList then .none
  else if startsCase path "/filemove".toList then .move true
  else if startsCase path "/foldermove".toList then .move false
  else if startsCase path "/back".toList then .digits
  else if strcasecmp path "/admin".toList then .none
  else if startsCase path "/stopserver".toList then .digits
  else if strcasecmp path "/kill".toList then .none
  else if startsCase path "/startserver".toList then .digits
  else if startsCase path "/delete".toList then .name
  else if startsCase path "/opendir".toList then .name
  else if strcasecmp path "/email".toList then .none
  else if startsCase path "/showinbox".toList then .mailid
  else if startsCase path "/showsent".toList then .mailid
  else if startsCase path "/reply".toList then .mailid
  else if startsCase path "/forward".toList then .mailid
  else if startsCase path "/removeinbox".toList then .hash
  else if startsCase path "/removeoutbox".toList then .hash
  else if startsCase path "/stopbackend".toList then .digits
  else if startsCase path "/startbackend".toList then .digits
  else .none

/-- `handle_post`. -/
def postScan (path : Str) : PostScan :=
  if strcasecmp path "/newemail".toList then .email
  else if strcasecmp path "/createFolder".toList then .createFolder
  else if strcasecmp path "/rename".toList then .rename
  else .none

/-- The texts a scanner takes out of a path. -/
def GetScan.run (path : Str) : GetScan → Option (List Str)
  | .none => some []
  | .from pos => (substrFrom path pos).map fun s => [s]
  | .move isFile => (moveArgsAt path isFile).map fun a => [a.1, a.2]
  | .digits => (digitsAt path).map fun s => [s]
  | .name => (nameAt path).map fun s => [s]
  | .mailid => (mailidAt path).map fun s => [s]
  | .hash => (substrFrom path (path.find ['='] + 1).toNat).map fun s => [s]

/-- The texts a scanner takes out of a body. -/
def PostScan.run (message : Str) : PostScan → Option (List Str)
  | .none => some []
  | .email => (parseEmailAt message).map fun m => [m.1, m.2.1, m.2.2]
  | .createFolder => (substrFrom message 11).map fun s => [s]
  | .rename => (renameArgsAt message).map fun a => [a.1, a.2]

/-- `response::response`. -/
def scanRequest (method prePath message : Str) : Option (List Str) :=
  (parsePathAt prePath).bind fun path =>
    if strcasecmp method "get".toList then (getScan path).run path
    else if strcasecmp method "post".toList then (postScan path).run message
    else some []

/-! ## One loop -/

section Loops

variable {c : Char} (hc : c ≠ '\x00') (pre : Str)

theorem skipPast_found {a : Str} (ha : c ∉ a) (b : Str) :
    skipPast c (pre ++ (a ++ c :: b)) pre.length = some (pre ++ a ++ [c]).length := by
  have hbuf : pre ++ (a ++ c :: b) ++ ['\x00'] = pre ++ (a ++ c :: (b ++ ['\x00'])) := by simp
  rw [skipPast, hbuf, scanTo_found pre _ (beq_notMem ha) (beq_self_eq_true c)]
  simp [Nat.add_assoc]

/-- The first loop of a scanner starts at the beginning. -/
theorem skipPast_start {a : Str} (ha : c ∉ a) (b : Str) :
    skipPast c (a ++ c :: b) 0 = some (a ++ [c]).length := skipPast_found [] ha b

include hc in
theorem skipPast_none {s : Str} (hs : c ∉ s) : skipPast c (pre ++ s) pre.length = none := by
  have hbuf : c ∉ s ++ ['\x00'] := by simp [hs, hc]
  rw [skipPast, List.append_assoc, scanTo_none pre (beq_notMem hbuf)]
  rfl

include hc in
theorem skipPast_start_none {s : Str} (hs : c ∉ s) : skipPast c s 0 = none := skipPast_none hc [] hs

theorem copyTo_found {a : Str} (ha : c ∉ a) (b : Str) :
    copyTo c (pre ++ (a ++ c :: b)) pre.length = some (a, (pre ++ a).length) := by
  have hbuf : pre ++ (a ++ c :: b) ++ ['\x00'] = pre ++ (a ++ c :: (b ++ ['\x00'])) := by simp
  rw [copyTo, hbuf, gather_found pre _ (beq_notMem ha) (beq_self_eq_true c)]

include hc in
theorem copyTo_none {s : Str} (hs : c ∉ s) : copyTo c (pre ++ s) pre.length = none := by
  have hbuf : c ∉ s ++ ['\x00'] := by simp [hs, hc]
  rw [copyTo, List.append_assoc, gather_none pre (beq_notMem hbuf)]

theorem skipPastAt_found {a : Str} (ha : c ∉ a) (b : Str) :
    skipPastAt c (pre ++ (a ++ c :: b)) pre.length = some (pre ++ a ++ [c]).length := by
  rw [skipPastAt, scanTo_found pre _ (beq_notMem ha) (beq_self_eq_true c)]
  simp [Nat.add_assoc]

theorem skipPastAt_none {s : Str} (hs : c ∉ s) : skipPastAt c (pre ++ s) pre.length = none := by
  rw [skipPastAt, scanTo_none pre (beq_notMem hs)]
  rfl

end Loops

/-! ## The scanners yield what the routes hand on -/

theorem behind_none {c : Char} {s : Str} (h : c ∉ s) : behind c s = none := by rw [behind, if_neg h]

/-- A letter is there, at a first place, or it is not. -/
theorem sep_cases (c : Char) (s : Str) : c ∉ s ∨ ∃ a b, c ∉ a ∧ s = a ++ c :: b := by
  by_cases h : c ∈ s
  · obtain ⟨a, b, rfl, ha⟩ := List.eq_append_cons_of_mem h
    exact Or.inr ⟨a, b, ha, rfl⟩
  · exact Or.inl h

/-- What is behind the letter, if the loop started at the beginning. -/
theorem skipPast_drop {c : Char} (hc : c ≠ '\x00') (s : Str) :
    ((skipPast c s 0).map fun index => s.drop index) = behind c s := by
  rcases sep_cases c s with hs | ⟨a, b, ha, rfl⟩
  · rw [skipPast_start_none hc hs, behind_none hs]
    rfl
  · rw [skipPast_start ha, behind_sep ha, Option.map_some, List.append_cons a c b, List.drop_left]

theorem nameAt_eq (path : Str) : nameAt path = behind '?' path := skipPast_drop (by decide) path

theorem digitsAt_eq (path : Str) : digitsAt path = behind '=' path := skipPast_drop (by decide) path

theorem moveArgsAt_eq (path : Str) (isFile : Bool) :
    moveArgsAt path isFile = moveArgs path isFile := by
  simp only [moveArgsAt, moveArgs, substrFrom, ← Nat.not_lt]
  generalize (if isFile = true then 22 else 24) = n
  by_cases hlen : path.length < n
  · rw [if_neg (not_not.mpr hlen), if_pos hlen]
    rfl
  rw [if_pos hlen, if_neg hlen, Option.bind_some]
  generalize path.drop n = info
  rcases sep_cases '=' info with hs | ⟨a, s, ha, rfl⟩
  · rw [skipPast_start_none (by decide) hs, behind_none hs]
    rfl
  rw [skipPast_start ha, behind_sep ha, Option.bind_some, Option.bind_some, List.append_cons]
  rcases sep_cases '&' s with hs | ⟨f, t, hf, rfl⟩
  · rw [copyTo_none (by decide) _ hs, if_neg hs]
    rfl
  rw [copyTo_found _ hf, if_pos (by simp), (takeWhile_sep hf t).1, (takeWhile_sep hf t).2,
    Option.bind_some, ← List.append_assoc]
  rcases sep_cases '=' ('&' :: t) with hs | ⟨b, d, hb, hd⟩
  · rw [skipPast_none (by decide) _ hs, behind_none hs]
    rfl
  · rw [hd, skipPast_found _ hb, behind_sep hb, Option.map_some, Option.map_some,
      show a ++ ['='] ++ f ++ (b ++ '=' :: d) = a ++ ['='] ++ f ++ b ++ ['='] ++ d by simp,
      List.drop_left]

theorem renameArgsAt_eq (message : Str) : renameArgsAt message = renameArgs message := by
  rw [renameArgsAt, renameArgs]
  rcases sep_cases '=' message with hs | ⟨a, s, ha, rfl⟩
  · rw [skipPast_start_none (by decide) hs, behind_none hs]
    rfl
  rw [skipPast_start ha, behind_sep ha, Option.bind_some, Option.bind_some, List.append_cons]
  rcases sep_cases '&' s with hs | ⟨f, t, hf, rfl⟩
  · rw [copyTo_none (by decide) _ hs, behind_none hs]
    rfl
  rw [copyTo_found _ hf, behind_sep hf, Option.bind_some, Option.bind_some, (takeWhile_sep hf t).1,
    show a ++ ['='] ++ (f ++ '&' :: t) = a ++ ['='] ++ f ++ ['&'] ++ t by simp,
    show (a ++ ['='] ++ f).length + 1 = (a ++ ['='] ++ f ++ ['&']).length by simp [Nat.add_assoc]]
  rcases sep_cases '=' t with hs | ⟨b, d, hb, rfl⟩
  · rw [skipPast_none (by decide) _ hs, behind_none hs]
    rfl
  · rw [skipPast_found _ hb, behind_sep hb, Option.map_some, Option.map_some,
      show ∀ u : Str, u ++ (b ++ '=' :: d) = u ++ b ++ ['='] ++ d by simp, List.drop_left]

/-! ## The decoding loops -/

section Decoding

variable {plus : Bool} {stop : Option Char} (pre : Str)

theorem decodeAt_end :
    decodeAt plus stop pre pre.length = if stop = none then some ([], pre.length) else none := by
  rw [decodeAt, dif_neg (Nat.lt_irrefl _)]

theorem decodeAt_stop (c : Char) (s : Str) :
    decodeAt plus (some c) (pre ++ c :: s) pre.length = some ([], pre.length) := by
  have hlt : pre.length < (pre ++ c :: s).length := by simp
  rw [decodeAt, dif_pos hlt, if_pos (by simp)]

/-- One letter that is neither a `%` nor the end of the field. -/
theorem decodeAt_letter {c : Char} (hstop : some c ≠ stop) (hpercent : c ≠ '%') (s : Str) :
    decodeAt plus stop (pre ++ c :: s) pre.length
      = (decodeAt plus stop (pre ++ [c] ++ s) (pre ++ [c]).length).map fun r =>
          ((if plus = true ∧ c = '+' then ' ' else c) :: r.1, r.2) := by
  have hlt : pre.length < (pre ++ c :: s).length := by simp
  have hread : (pre ++ c :: s)[pre.length] = c := by simp
  rw [decodeAt, dif_pos hlt, hread, if_neg hstop, if_neg hpercent, ← List.append_cons,
    List.length_append, List.length_singleton]
  split <;> rfl

theorem decodeAt_escape (hstop : some '%' ≠ stop) (a b : Char) (s : Str) :
    decodeAt plus stop (pre ++ '%' :: a :: b :: s) pre.length
      = (decodeAt plus stop (pre ++ ['%', a, b] ++ s) (pre ++ ['%', a, b]).length).map fun r =>
          (convertHexToChar a b :: r.1, r.2) := by
  have hlt : pre.length < (pre ++ '%' :: a :: b :: s).length := by simp
  have hlt' : pre.length + 2 < (pre ++ '%' :: a :: b :: s).length := by simp
  have hread : (pre ++ '%' :: a :: b :: s)[pre.length] = '%' := by simp
  rw [decodeAt, dif_pos hlt, hread, if_neg hstop, if_neg (by simp), if_pos rfl, dif_pos hlt']
  simp

theorem decodeAt_cut (hstop : some '%' ≠ stop) {s : Str} (hs : s.length < 2) :
    decodeAt plus stop (pre ++ '%' :: s) pre.length = none := by
  have hlt : pre.length < (pre ++ '%' :: s).length := by simp
  have hcut : ¬ pre.length + 2 < (pre ++ '%' :: s).length := by
    rw [List.length_append, List.length_cons]
    omega
  have hread : (pre ++ '%' :: s)[pre.length] = '%' := by simp
  rw [decodeAt, dif_pos hlt, hread, if_neg hstop, if_neg (by simp), if_pos rfl, dif_neg hcut]

end Decoding

section Cut

variable {s : Str} (h : ∀ a b t, s = a :: b :: t → False)

include h

/-- What is behind a `%` too close to the end. -/
theorem short_cases : s = [] ∨ ∃ c, s = [c] := by
  match s, h with
  | [], _ => exact Or.inl rfl
  | [c], _ => exact Or.inr ⟨c, rfl⟩
  | a :: b :: t, h => exact (h a b t rfl).elim

theorem length_lt_two : s.length < 2 := by
  obtain rfl | ⟨c, rfl⟩ := short_cases h
  · decide
  · exact Nat.lt_succ_self 1

theorem parsePath_cut : parsePath ('%' :: s) = none := by
  obtain rfl | ⟨c, rfl⟩ := short_cases h
  · rfl
  · rfl

theorem formContent_cut : formContent ('%' :: s) = none := by
  obtain rfl | ⟨c, rfl⟩ := short_cases h
  · rfl
  · rfl

theorem formField_cut : formField ('%' :: s) = none := by
  obtain rfl | ⟨c, rfl⟩ := short_cases h
  · rfl
  · rfl

end Cut

theorem decodeAt_path (pre s : Str) :
    decodeAt false none (pre ++ s) pre.length
      = (parsePath s).map fun p => (p, (pre ++ s).length) := by
  induction s using parsePath.induct generalizing pre with
  | case1 =>
      rw [List.append_nil, decodeAt_end]
      rfl
  | case2 a b s ih =>
      rw [decodeAt_escape pre (by simp), ih, parsePath, Option.map_map, Option.map_map]
      simp [Function.comp_def]
  | case3 s hshort =>
      rw [decodeAt_cut pre (by simp) (length_lt_two hshort), parsePath_cut hshort]
      rfl
  | case4 c s hescape hpercent ih =>
      have hc : c ≠ '%' := fun h => hpercent h
      rw [decodeAt_letter pre (by simp) hc, ih, parsePath_plain hc, Option.map_map, Option.map_map]
      simp [Function.comp_def]

theorem parsePathAt_eq (prePath : Str) : parsePathAt prePath = parsePath prePath := by
  have hpath := decodeAt_path [] prePath
  rw [List.nil_append, List.length_nil] at hpath
  rw [parsePathAt, hpath, Option.map_map]
  exact Option.map_id' ..

theorem decodeAt_content (pre s : Str) :
    decodeAt true none (pre ++ s) pre.length
      = (formContent s).map fun p => (p, (pre ++ s).length) := by
  induction s using formContent.induct generalizing pre with
  | case1 =>
      rw [List.append_nil, decodeAt_end]
      rfl
  | case2 s ih =>
      rw [decodeAt_letter pre (by simp) (by decide), ih, formContent,
        Option.map_map, Option.map_map]
      simp [Function.comp_def]
  | case3 a b s ih =>
      rw [decodeAt_escape pre (by simp), ih, formContent, Option.map_map, Option.map_map]
      simp [Function.comp_def]
  | case4 s hshort =>
      rw [decodeAt_cut pre (by simp) (length_lt_two hshort), formContent_cut hshort]
      rfl
  | case5 c s hplus hescape hpercent ih =>
      have hc : c ≠ '%' := fun h => hpercent h
      have hp : c ≠ '+' := fun h => hplus h
      rw [decodeAt_letter pre (by simp) hc, ih, formContent_plain hc hp, Option.map_map,
        Option.map_map]
      simp [Function.comp_def, hp]

/-- The loop stands at the `&` that ends the field, with the field decoded. -/
def FieldRead (pre s : Str) : Prop :=
  ∃ v p t, s = v ++ '&' :: t ∧ formField s = some (p, '&' :: t)
    ∧ decodeAt true (some '&') (pre ++ s) pre.length = some (p, (pre ++ v).length)

/-- One code more in front of a field. -/
theorem FieldRead.cons {pre u s : Str} {c : Char} (h : FieldRead (pre ++ u) s)
    (hfield : formField (u ++ s) = (formField s).map fun r => (c :: r.1, r.2))
    (hloop : decodeAt true (some '&') (pre ++ (u ++ s)) pre.length
      = (decodeAt true (some '&') (pre ++ u ++ s) (pre ++ u).length).map fun r => (c :: r.1, r.2)) :
    FieldRead pre (u ++ s) := by
  obtain ⟨v, p, t, rfl, hp, hread⟩ := h
  refine ⟨u ++ v, c :: p, t, by rw [List.append_assoc], ?_, ?_⟩
  · rw [hfield, hp]
    rfl
  · rw [hloop, hread, ← List.append_assoc]
    rfl

theorem decodeAt_field (pre s : Str) :
    (formField s = none ∧ decodeAt true (some '&') (pre ++ s) pre.length = none) ∨
    FieldRead pre s := by
  induction s using formField.induct generalizing pre with
  | case1 =>
      refine Or.inl ⟨rfl, ?_⟩
      rw [List.append_nil, decodeAt_end]
      rfl
  | case2 s => exact Or.inr ⟨[], [], s, rfl, rfl, by rw [decodeAt_stop, List.append_nil]⟩
  | case3 s ih =>
      have hloop : decodeAt true (some '&') (pre ++ '+' :: s) pre.length = _ :=
        decodeAt_letter pre (by simp) (by decide) s
      rcases ih (pre ++ ['+']) with ⟨hnone, hread⟩ | h
      · exact Or.inl ⟨by rw [formField, hnone]; rfl, by rw [hloop, hread]; rfl⟩
      · exact Or.inr (h.cons (u := ['+']) rfl hloop)
  | case4 a b s ih =>
      have hloop : decodeAt true (some '&') (pre ++ '%' :: a :: b :: s) pre.length = _ :=
        decodeAt_escape pre (by simp) a b s
      rcases ih (pre ++ ['%', a, b]) with ⟨hnone, hread⟩ | h
      · exact Or.inl ⟨by rw [formField, hnone]; rfl, by rw [hloop, hread]; rfl⟩
      · exact Or.inr (h.cons (u := ['%', a, b]) rfl hloop)
  | case5 s hshort =>
      exact Or.inl ⟨formField_cut hshort, decodeAt_cut pre (by simp) (length_lt_two hshort)⟩
  | case6 c s hand hplus hescape hpercent ih =>
      have hc : c ≠ '%' := fun h => hpercent h
      have hp : c ≠ '+' := fun h => hplus h
      have ha : c ≠ '&' := fun h => hand h
      have hplain := formField_plain (show c ∉ reserved by simp [reserved, hc, hp, ha]) s
      have hloop : decodeAt true (some '&') (pre ++ c :: s) pre.length = _ :=
        decodeAt_letter pre (by simp [ha]) hc s
      rw [if_neg (by simp [hp])] at hloop
      rcases ih (pre ++ [c]) with ⟨hnone, hread⟩ | h
      · exact Or.inl ⟨by rw [hplain, hnone]; rfl, by rw [hloop, hread]; rfl⟩
      · exact Or.inr (h.cons (u := [c]) hplain hloop)

/-- A name and its `=` skipped with `at`, up to the value. -/
theorem skipPastAt_cases (pre s : Str) :
    (behind '=' s = none ∧ skipPastAt '=' (pre ++ s) pre.length = none)
      ∨ ∃ u t, pre ++ s = u ++ t ∧ behind '=' s = some t
        ∧ skipPastAt '=' (pre ++ s) pre.length = some u.length := by
  rcases sep_cases '=' s with hs | ⟨a, t, ha, rfl⟩
  · exact Or.inl ⟨behind_none hs, skipPastAt_none pre hs⟩
  · exact Or.inr ⟨pre ++ a ++ ['='], t, by simp, behind_sep ha t, skipPastAt_found pre ha t⟩

/-- A value decoded up to the `&`, and where the next name begins. -/
theorem field_cases (pre s : Str) :
    (formField s = none ∧ decodeAt true (some '&') (pre ++ s) pre.length = none)
      ∨ ∃ u p q t, pre ++ s = u ++ t ∧ formField s = some (p, '&' :: t)
        ∧ decodeAt true (some '&') (pre ++ s) pre.length = some (p, q) ∧ q + 1 = u.length := by
  rcases decodeAt_field pre s with h | ⟨v, p, t, rfl, hp, hread⟩
  · exact Or.inl h
  · exact Or.inr ⟨pre ++ v ++ ['&'], p, _, t, by simp, hp, hread, by simp [Nat.add_assoc]⟩

theorem parseEmailAt_eq (message : Str) : parseEmailAt message = parseEmail message := by
  rw [parseEmailAt, parseEmail]
  rcases skipPastAt_cases [] message with ⟨hn, hi⟩ | ⟨u, s, hu, hn, hi⟩
  · rw [hn, show skipPastAt '=' message 0 = none from hi]
    rfl
  rw [hn, show skipPastAt '=' message 0 = some u.length from hi, Option.bind_some, Option.bind_some]
  obtain rfl : message = u ++ s := hu
  rcases field_cases u s with ⟨hf, hd⟩ | ⟨v, r, q, t, hv, hf, hd, hq⟩
  · rw [hf, hd]
    rfl
  rw [hf, hd, Option.bind_some, Option.bind_some, List.drop_one, List.tail_cons, hq, hv]
  rcases skipPastAt_cases v t with ⟨hn, hi⟩ | ⟨u, s, hu, hn, hi⟩
  · rw [hn, hi]
    rfl
  rw [hn, hi, Option.bind_some, Option.bind_some, hu]
  rcases field_cases u s with ⟨hf, hd⟩ | ⟨v, b, q, t, hv, hf, hd, hq⟩
  · rw [hf, hd]
    rfl
  rw [hf, hd, Option.bind_some, Option.bind_some, List.drop_one, List.tail_cons, hq, hv]
  rcases skipPastAt_cases v t with ⟨hn, hi⟩ | ⟨u, s, hu, hn, hi⟩
  · rw [hn, hi]
    rfl
  rw [hn, hi, Option.bind_some, Option.bind_some, hu, decodeAt_content, Option.map_map]
  rfl

/-! ## What has to be there -/

/-- Letters, of which none is in `sep`, and whole escapes. -/
inductive WholeEscapes (sep : List Char) : Str → Prop
  | nil : WholeEscapes sep []
  | letter {c : Char} {s : Str} : c ≠ '%' → c ∉ sep → WholeEscapes sep s → WholeEscapes sep (c :: s)
  | escape {a b : Char} {s : Str} : WholeEscapes sep s → WholeEscapes sep ('%' :: a :: b :: s)

/-- Three fields, two of them ended by an `&`. -/
def EmailFits (message : Str) : Prop :=
  ∃ a r b s d t, message = a ++ '=' :: (r ++ '&' :: (b ++ '=' :: (s ++ '&' :: (d ++ '=' :: t))))
    ∧ '=' ∉ a ∧ '=' ∉ b ∧ '=' ∉ d ∧ WholeEscapes ['&'] r ∧ WholeEscapes ['&'] s ∧ WholeEscapes [] t

/-- What a scanner of a path relies on. -/
def GetScan.Fits (path : Str) : GetScan → Prop
  | .none | .hash => True
  | .from pos => pos ≤ path.length
  | .move isFile => (if isFile then 22 else 24) ≤ path.length
      ∧ ['=', '&', '='].Sublist (path.drop (if isFile then 22 else 24))
  | .digits | .mailid => '=' ∈ path
  | .name => '?' ∈ path

/-- What a scanner of a body relies on. -/
def PostScan.Fits (message : Str) : PostScan → Prop
  | .none => True
  | .email => EmailFits message
  | .createFolder => 11 ≤ message.length
  | .rename => ['=', '&', '='].Sublist message

/-- What the scanners rely on, `path` being the decoded path. -/
def RequestFits (method path message : Str) : Prop :=
  if strcasecmp method "get".toList then (getScan path).Fits path
  else if strcasecmp method "post".toList then (postScan path).Fits message
  else True

theorem parsePath_iff {p s : Str} : parsePath s = some p ↔ Coded PathReads p s := by
  constructor
  · intro h
    induction s using parsePath.induct generalizing p with
    | case1 =>
        obtain rfl := Option.some.inj h
        exact .nil
    | case2 a b s ih =>
        obtain ⟨q, hq, rfl⟩ := Option.map_eq_some_iff.mp (show (parsePath s).map _ = some p from h)
        exact .cons (u := ['%', a, b]) (Or.inr ⟨a, b, rfl, rfl⟩) (ih hq)
    | case3 s hshort =>
        rw [parsePath_cut hshort] at h
        cases h
    | case4 c s hescape hpercent ih =>
        have hc : c ≠ '%' := fun h => hpercent h
        rw [parsePath_plain hc] at h
        obtain ⟨q, hq, rfl⟩ := Option.map_eq_some_iff.mp h
        exact .cons (u := [c]) (Or.inl ⟨hc, rfl⟩) (ih hq)
  · exact parsePath_reads

theorem formContent_iff (s : Str) : (formContent s).isSome ↔ WholeEscapes [] s := by
  constructor
  · intro h
    induction s using formContent.induct with
    | case1 => exact .nil
    | case2 s ih =>
        rw [formContent, Option.isSome_map] at h
        exact .letter (by decide) List.not_mem_nil (ih h)
    | case3 a b s ih =>
        rw [formContent, Option.isSome_map] at h
        exact .escape (ih h)
    | case4 s hshort =>
        rw [formContent_cut hshort] at h
        cases h
    | case5 c s hplus hescape hpercent ih =>
        rw [formContent_plain (fun h => hpercent h) (fun h => hplus h), Option.isSome_map] at h
        exact .letter (fun h => hpercent h) List.not_mem_nil (ih h)
  · intro h
    induction h with
    | nil => rfl
    | @letter c s hc _ _ ih =>
        by_cases hp : c = '+'
        · subst hp
          rw [formContent, Option.isSome_map, ih]
        · rw [formContent_plain hc hp, Option.isSome_map, ih]
    | escape _ ih => rw [formContent, Option.isSome_map, ih]

theorem formField_whole {v : Str} (h : WholeEscapes ['&'] v) (t : Str) :
    ∃ p, formField (v ++ '&' :: t) = some (p, '&' :: t) := by
  induction h with
  | nil => exact ⟨[], rfl⟩
  | @letter c s hc hsep _ ih =>
      obtain ⟨p, hp⟩ := ih
      have ha : c ≠ '&' := fun he => hsep (by simp [he])
      by_cases hplus : c = '+'
      · subst hplus
        exact ⟨' ' :: p, by rw [List.cons_append, formField, hp]; rfl⟩
      · have hplain := formField_plain (show c ∉ reserved by simp [reserved, hc, hplus, ha])
        exact ⟨c :: p, by rw [List.cons_append, hplain, hp]; rfl⟩
  | @escape a b s _ ih =>
      obtain ⟨p, hp⟩ := ih
      exact ⟨convertHexToChar a b :: p, by
        rw [List.cons_append, List.cons_append, List.cons_append, formField, hp]; rfl⟩

theorem whole_formField {s : Str} {r : Str × Str} (h : formField s = some r) :
    ∃ v t, WholeEscapes ['&'] v ∧ s = v ++ '&' :: t := by
  induction s using formField.induct generalizing r with
  | case1 => cases h
  | case2 s => exact ⟨[], s, .nil, rfl⟩
  | case3 s ih =>
      obtain ⟨q, hq, -⟩ := Option.map_eq_some_iff.mp (show (formField s).map _ = some r from h)
      obtain ⟨v, t, hv, rfl⟩ := ih hq
      exact ⟨'+' :: v, t, .letter (by decide) (by decide) hv, rfl⟩
  | case4 a b s ih =>
      obtain ⟨q, hq, -⟩ := Option.map_eq_some_iff.mp (show (formField s).map _ = some r from h)
      obtain ⟨v, t, hv, rfl⟩ := ih hq
      exact ⟨'%' :: a :: b :: v, t, .escape hv, rfl⟩
  | case5 s hshort =>
      rw [formField_cut hshort] at h
      cases h
  | case6 c s hand hplus hescape hpercent ih =>
      have hc : c ≠ '%' := fun h => hpercent h
      have hp : c ≠ '+' := fun h => hplus h
      have ha : c ≠ '&' := fun h => hand h
      rw [formField_plain (show c ∉ reserved by simp [reserved, hc, hp, ha])] at h
      obtain ⟨q, hq, -⟩ := Option.map_eq_some_iff.mp h
      obtain ⟨v, t, hv, rfl⟩ := ih hq
      exact ⟨c :: v, t, .letter hc (by simp [ha]) hv, rfl⟩

/-- A loop that looks for a letter leaves the others behind it to the next loop. -/
theorem sublist_behind {c : Char} {l s : Str} :
    (c :: l).Sublist s ↔ ∃ t, behind c s = some t ∧ l.Sublist t := by
  rcases sep_cases c s with hs | ⟨a, b, ha, rfl⟩
  · rw [behind_none hs]
    refine ⟨fun h => absurd (h.subset (List.mem_cons_self ..)) hs, ?_⟩
    rintro ⟨t, ht, -⟩
    cases ht
  · rw [behind_sep ha]
    constructor
    · intro h
      refine ⟨b, rfl, ?_⟩
      induction a with
      | nil => exact List.cons_sublist_cons.mp h
      | cons x a ih =>
          rw [List.mem_cons, not_or] at ha
          rw [List.cons_append] at h
          cases h with
          | cons _ h => exact ih ha.2 h
          | cons_cons _ _ => exact absurd rfl ha.1
    · rintro ⟨_, ⟨⟩, h⟩
      exact (h.cons_cons c).trans (List.sublist_append_right a _)

theorem behind_isSome {c : Char} {s : Str} : (behind c s).isSome ↔ c ∈ s := by
  rw [behind]
  split <;> simp_all

theorem moveArgs_isSome (path : Str) (isFile : Bool) :
    (moveArgs path isFile).isSome ↔ (GetScan.move isFile).Fits path := by
  show _ ↔ (if isFile then 22 else 24) ≤ path.length ∧ _
  simp only [moveArgs]
  generalize (if isFile = true then 22 else 24) = n
  by_cases hlen : path.length < n
  · rw [if_pos hlen]
    exact ⟨fun h => Bool.noConfusion h, fun h => absurd h.1 (Nat.not_le.mpr hlen)⟩
  rw [if_neg hlen, sublist_behind, and_iff_right (Nat.not_lt.mp hlen)]
  cases behind '=' (path.drop n) with
  | none => simp
  | some s =>
      rcases sep_cases '&' s with hs | ⟨f, t, hf, rfl⟩
      · simp [hs, sublist_behind, behind_none hs]
      · rw [Option.bind_some, if_pos (by simp), (takeWhile_sep hf t).2, Option.isSome_map,
          behind_isSome]
        simp [sublist_behind, behind_sep hf]

theorem renameArgs_isSome (message : Str) :
    (renameArgs message).isSome ↔ PostScan.rename.Fits message := by
  show _ ↔ ['=', '&', '='].Sublist message
  rw [renameArgs, sublist_behind]
  cases behind '=' message with
  | none => simp
  | some s =>
      cases hand : behind '&' s with
      | none => simp [sublist_behind, hand]
      | some t => simp [sublist_behind, hand, behind_isSome]

theorem formField_cases (s : Str) :
    formField s = none
      ∨ ∃ v p t, WholeEscapes ['&'] v ∧ s = v ++ '&' :: t ∧ formField s = some (p, '&' :: t) := by
  cases h : formField s with
  | none => exact Or.inl rfl
  | some r =>
      obtain ⟨v, t, hv, rfl⟩ := whole_formField h
      obtain ⟨p, hp⟩ := formField_whole hv t
      exact Or.inr ⟨v, p, t, hv, rfl, h ▸ hp⟩

theorem parseEmail_isSome (message : Str) : (parseEmail message).isSome ↔ EmailFits message := by
  constructor
  · intro h
    rw [parseEmail] at h
    rcases sep_cases '=' message with hs | ⟨a, s, ha, rfl⟩
    · rw [behind_none hs] at h
      cases h
    rw [behind_sep ha, Option.bind_some] at h
    rcases formField_cases s with hs | ⟨r, p, s, hr, rfl, hs⟩
    · rw [hs] at h
      cases h
    rw [hs, Option.bind_some, List.drop_one, List.tail_cons] at h
    rcases sep_cases '=' s with hs | ⟨b, s, hb, rfl⟩
    · rw [behind_none hs] at h
      cases h
    rw [behind_sep hb, Option.bind_some] at h
    rcases formField_cases s with hs | ⟨v, q, s, hv, rfl, hs⟩
    · rw [hs] at h
      cases h
    rw [hs, Option.bind_some, List.drop_one, List.tail_cons] at h
    rcases sep_cases '=' s with hs | ⟨d, s, hd, rfl⟩
    · rw [behind_none hs] at h
      cases h
    rw [behind_sep hd, Option.bind_some, Option.isSome_map, formContent_iff] at h
    exact ⟨a, r, b, v, d, s, rfl, ha, hb, hd, hr, hv, h⟩
  · rintro ⟨a, r, b, s, d, t, rfl, ha, hb, hd, hr, hs, ht⟩
    obtain ⟨p, hp⟩ := formField_whole hr (b ++ '=' :: (s ++ '&' :: (d ++ '=' :: t)))
    obtain ⟨q, hq⟩ := formField_whole hs (d ++ '=' :: t)
    rw [parseEmail, behind_sep ha, Option.bind_some, hp, Option.bind_some, List.drop_one,
      List.tail_cons, behind_sep hb, Option.bind_some, hq, Option.bind_some, List.drop_one,
      List.tail_cons, behind_sep hd, Option.bind_some, Option.isSome_map, formContent_iff]
    exact ht

theorem substrFrom_isSome (s : Str) (pos : Nat) : (substrFrom s pos).isSome ↔ pos ≤ s.length := by
  rw [substrFrom]
  split <;> simp_all

/-- What `find` returns, or `npos`, has a position behind it. -/
theorem behind_find_le (s : Str) (c : Char) : (s.find [c] + 1).toNat ≤ s.length := by
  rcases sep_cases c s with hs | ⟨a, b, ha, rfl⟩
  · rw [find_sep_none hs]
    exact Nat.zero_le _
  · rw [find_sep b ha, List.length_append, List.length_cons]
    omega

theorem GetScan.run_isSome (path : Str) (g : GetScan) : (g.run path).isSome ↔ g.Fits path := by
  cases g with
  | none => exact ⟨fun _ => trivial, fun _ => rfl⟩
  | «from» pos => rw [run, Option.isSome_map, substrFrom_isSome, Fits]
  | move isFile => rw [run, Option.isSome_map, moveArgsAt_eq, moveArgs_isSome]
  | digits => rw [run, Option.isSome_map, digitsAt_eq, behind_isSome, Fits]
  | name => rw [run, Option.isSome_map, nameAt_eq, behind_isSome, Fits]
  | mailid =>
      rw [run, Option.isSome_map, mailidAt, Option.isSome_map, digitsAt_eq, behind_isSome, Fits]
  | hash =>
      rw [run, Option.isSome_map, substrFrom_isSome]
      exact ⟨fun _ => trivial, fun _ => behind_find_le path '='⟩

theorem PostScan.run_isSome (message : Str) (g : PostScan) :
    (g.run message).isSome ↔ g.Fits message := by
  cases g with
  | none => exact ⟨fun _ => trivial, fun _ => rfl⟩
  | email => rw [run, Option.isSome_map, parseEmailAt_eq, parseEmail_isSome, Fits]
  | createFolder => rw [run, Option.isSome_map, substrFrom_isSome, Fits]
  | rename => rw [run, Option.isSome_map, renameArgsAt_eq, renameArgs_isSome]

/-- **The scanners stay within bounds exactly if each finds the separators, the length and the whole
escapes it relies on.** -/
theorem scanRequest_iff (method prePath message : Str) :
    (scanRequest method prePath message).isSome
      ↔ ∃ path, Coded PathReads path prePath ∧ RequestFits method path message := by
  rw [scanRequest, parsePathAt_eq]
  simp only [← parsePath_iff, RequestFits]
  cases parsePath prePath with
  | none => simp
  | some path =>
      rw [Option.bind_some]
      split
      · simp [GetScan.run_isSome]
      · split
        · simp [PostScan.run_isSome]
        · simp

/-- A breadcrumb link without its index. -/
theorem bareBack_runsOut : scanRequest "GET".toList "/back".toList [] = none := by
  have hpath : parsePath "/back".toList = some "/back".toList := by decide
  have hscan : getScan "/back".toList = .digits := by decide
  rw [scanRequest, parsePathAt_eq, hpath, Option.bind_some, if_pos (by decide), hscan, GetScan.run,
    digitsAt_eq]
  decide

/-! ## The routes -/

/-- A route of a path that is scanned in one way: it has no action where the scanner leaves
the text. -/
def Stops (path : Str) (r : Route) (g : GetScan) : Prop :=
  g.run path = none → r = .unchecked none ∨ r = .plain

theorem Stops.branch {path : Str} {p : Prop} [Decidable p] {r r' : Route} {g g' : GetScan}
    (h : p → Stops path r g) (h' : Stops path r' g') :
    Stops path (if p then r else r') (if p then g else g') := by
  split
  · exact h ‹p›
  · exact h'

/-- The scanner finds what it relies on. -/
theorem Stops.of_fits {path : Str} {r : Route} {g : GetScan} (h : g.Fits path) :
    Stops path r g := by
  intro hnone
  have hsome := (GetScan.run_isSome path g).mpr h
  rw [hnone] at hsome
  cases hsome

theorem Stops.unscanned {path : Str} {r : Route} : Stops path r .none := .of_fits trivial

theorem Stops.plain {path : Str} {g : GetScan} : Stops path .plain g := fun _ => Or.inr rfl

/-- The handler gets nothing out of the scan. -/
theorem Stops.unchecked {path : Str} {α : Type} {x : Option α} {f : α → Action} {g : GetScan}
    (h : g.run path = none → x = none) : Stops path (.unchecked (x.map f)) g := by
  intro hnone
  rw [h hnone]
  exact Or.inl rfl

theorem Stops.mailid {path : Str} (box : Box) :
    Stops path (.unchecked ((parseMailid path).map (.showMail box))) .mailid :=
  .unchecked fun h => by
    rw [GetScan.run, mailidAt, digitsAt_eq] at h
    rw [parseMailid, Option.map_eq_none_iff.mp (Option.map_eq_none_iff.mp h), Option.bind_none]

theorem Stops.name {path : Str} (f : Str → Action) :
    Stops path (.unchecked ((behind '?' path).map f)) .name :=
  .unchecked fun h => by rwa [GetScan.run, nameAt_eq, Option.map_eq_none_iff] at h

/-- The scan of a hash never leaves the text. -/
theorem Stops.hash {path : Str} {r : Route} : Stops path r .hash := .of_fits trivial

/-- A fixed position of the path. -/
theorem Stops.position {path : Str} {pos : Nat} (f : Str → Action) :
    Stops path (.unchecked (if path.length < pos then none else some (f (path.drop pos))))
      (.from pos) := by
  by_cases hshort : path.length < pos
  · exact fun _ => Or.inl (by rw [if_pos hshort])
  · exact .of_fits (Nat.not_lt.mp hshort)

theorem Stops.download {path : Str} (h : startsCase path "/download?".toList = true) (r : Route) :
    Stops path r (.from 10) :=
  .of_fits (show 10 ≤ path.length from of_decide_eq_true (Bool.and_eq_true_iff.mp h).1)

/-- **Where a scanner leaves the path, its handler has nothing to act on.** -/
theorem getRoute_stops (path : Str) : Stops path (getRoute path) (getScan path) := by
  unfold getRoute getScan
  refine .branch (fun _ => .unscanned) <| .branch (fun _ => .unscanned) <|
    .branch (fun _ => .unscanned) <| .branch (fun _ => .unscanned) <|
    .branch (fun _ => .unscanned) <| .branch (fun h => .download h _) <|
    .branch (fun _ => .position _) <| .branch (fun _ => .position _) <|
    .branch (fun _ => .unscanned) <|
    .branch (fun _ => .unscanned) <| .branch (fun _ => ?move) <| .branch (fun _ => ?moveFolder) <|
    .branch (fun _ => ?back) <| .branch (fun _ => .unscanned) <| .branch (fun _ => .plain) <|
    .branch (fun _ => .unscanned) <| .branch (fun _ => .plain) <| .branch (fun _ => .name _) <|
    .branch (fun _ => .name _) <| .branch (fun _ => .unscanned) <| .branch (fun _ => .mailid _) <|
    .branch (fun _ => .mailid _) <| .branch (fun _ => .mailid _) <| .branch (fun _ => .mailid _) <|
    .branch (fun _ => .hash) <| .branch (fun _ => .hash) .plain
  case move =>
    exact .unchecked fun h => by rwa [GetScan.run, moveArgsAt_eq, Option.map_eq_none_iff] at h
  case moveFolder =>
    exact .unchecked fun h => by rwa [GetScan.run, moveArgsAt_eq, Option.map_eq_none_iff] at h
  case back =>
    refine .unchecked fun h => ?_
    rw [GetScan.run, digitsAt_eq, Option.map_eq_none_iff] at h
    rw [backIndex, h, Option.bind_none]

end PennCloud
