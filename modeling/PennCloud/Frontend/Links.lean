import PennCloud.Frontend.Decoding

/-!
# The links of the move page

`parse_folder` makes a link for each folder a file can be moved to and puts the
names of the file and the folder into it as they are. `parse_path` and
`handle_move_file` take the link apart again: the first decodes escapes, the
second takes the file to end at the first `&` and the folder to begin behind the
next `=`.

A name with a `%` is decoded although it was never encoded, and every escape makes
the link shorter by two letters: that is why no other names come out right by
accident.
-/

namespace PennCloud

open Str

/-- What a link begins with, one `href` for files and one for folders. -/
def moveHref (isFile : Bool) : Str :=
  (if isFile then "/filemove".toList else "/foldermove".toList) ++ "choosefolder?move=".toList

/-- The link of `parse_folder` for `filename` and one of the folders. -/
def moveLink (isFile : Bool) (filename folder : Str) : Str :=
  moveHref isFile ++ filename ++ "&to=".toList ++ folder

/-- What `handle_move_file` gets when the link comes back as the path of a request. -/
def followMove (isFile : Bool) (link : Str) : Option (Str × Str) :=
  (parsePath link).bind fun path => moveArgs path isFile

/-! ## What `parse_path` does to a text -/

theorem parsePath_plain_append {a : Str} (h : '%' ∉ a) (s : Str) :
    parsePath (a ++ s) = (parsePath s).map (a ++ ·) := by
  induction a with
  | nil => simp
  | cons c a ih =>
      rw [List.mem_cons, not_or] at h
      rw [List.cons_append, parsePath_plain (Ne.symm h.1), ih h.2, Option.map_map]
      rfl

theorem parsePath_self {a : Str} (h : '%' ∉ a) : parsePath a = some a := by
  have happend := parsePath_plain_append h []
  rwa [List.append_nil, show parsePath [] = some [] from rfl, Option.map_some,
    List.append_nil] at happend

/-- What a `%` and the two characters behind it become. -/
theorem parsePath_percent {s p : Str} (h : parsePath ('%' :: s) = some p) :
    ∃ a b t q, s = a :: b :: t ∧ parsePath t = some q ∧ p = convertHexToChar a b :: q := by
  match s, h with
  | a :: b :: t, h =>
      obtain ⟨q, hq, rfl⟩ := Option.map_eq_some_iff.mp (show (parsePath t).map _ = some p from h)
      exact ⟨a, b, t, q, rfl, hq, rfl⟩

theorem parsePath_length {s p : Str} (h : parsePath s = some p) :
    p.length ≤ s.length ∧ ('%' ∈ s → p.length < s.length) := by
  induction s using parsePath.induct generalizing p with
  | case1 =>
      obtain rfl := Option.some.inj h
      exact ⟨Nat.le_refl _, fun hmem => absurd hmem List.not_mem_nil⟩
  | case2 a b s ih =>
      obtain ⟨_, _, _, q, hs, hq, rfl⟩ := parsePath_percent h
      obtain ⟨rfl, rfl, rfl⟩ : _ ∧ _ ∧ _ := by simpa using hs
      have hle := (ih hq).1
      simp only [List.length_cons]
      omega
  | case3 s hshort =>
      obtain ⟨a, b, t, _, rfl, -⟩ := parsePath_percent h
      exact absurd rfl (hshort a b t)
  | case4 c s hescape hpercent ih =>
      rw [parsePath_plain (fun hc => hpercent hc)] at h
      obtain ⟨q, hq, rfl⟩ := Option.map_eq_some_iff.mp h
      obtain ⟨hle, hlt⟩ := ih hq
      refine ⟨Nat.succ_le_succ hle, fun hmem => Nat.succ_lt_succ (hlt ?_)⟩
      exact (List.mem_cons.mp hmem).resolve_left fun hc => hpercent hc.symm

/-! ## What `handle_move_file` does to a path -/

theorem behind_some {c : Char} {s t : Str} (h : behind c s = some t) :
    ∃ u, c ∉ u ∧ s = u ++ c :: t := by
  by_cases hmem : c ∈ s
  · obtain ⟨u, v, rfl, hu⟩ := List.eq_append_cons_of_mem hmem
    obtain rfl := Option.some.inj ((behind_sep hu v).symm.trans h)
    exact ⟨u, hu, rfl⟩
  · rw [behind, if_neg hmem] at h
    cases h

/-- The prefix length of `handle_move_file` leaves the `move=` of the link. -/
theorem drop_moveHref (isFile : Bool) (q : Str) :
    (moveHref isFile ++ q).drop (if isFile then 22 else 24) = "move".toList ++ '=' :: q := by
  have hhref : moveHref isFile
      = (moveHref isFile).take (if isFile then 22 else 24) ++ ("move".toList ++ ['=']) := by
    cases isFile <;> decide
  have hlen : ((moveHref isFile).take (if isFile then 22 else 24)).length
      = if isFile then 22 else 24 := by
    cases isFile <;> decide
  rw [hhref, List.append_assoc, List.drop_left' hlen, List.append_assoc]
  rfl

/-- Behind the prefix, the file ends at the first `&` and the folder begins behind the next `=`. -/
theorem moveArgs_href (isFile : Bool) (q : Str) :
    moveArgs (moveHref isFile ++ q) isFile
      = if '&' ∈ q then
          (behind '=' (q.dropWhile (· ≠ '&'))).map fun folder => (q.takeWhile (· ≠ '&'), folder)
        else none := by
  have hlong : ¬ (moveHref isFile ++ q).length < if isFile then 22 else 24 := by
    have hhref : (if isFile then 22 else 24) ≤ (moveHref isFile).length := by
      cases isFile <;> decide
    rw [List.length_append]
    omega
  simp only [moveArgs]
  rw [if_neg hlong, drop_moveHref, behind_sep (by decide)]
  rfl

theorem takeWhile_sep {c : Char} {a : Str} (h : c ∉ a) (b : Str) :
    (a ++ c :: b).takeWhile (· ≠ c) = a ∧ (a ++ c :: b).dropWhile (· ≠ c) = c :: b := by
  have hall : ∀ d ∈ a, (decide (d ≠ c)) = true := fun d hd =>
    decide_eq_true fun he => h (he ▸ hd)
  rw [List.takeWhile_append_of_pos hall, List.dropWhile_append_of_pos hall]
  simp

theorem moveArgs_some {isFile : Bool} {q f d : Str}
    (h : moveArgs (moveHref isFile ++ q) isFile = some (f, d)) :
    '&' ∉ f ∧ ∃ u, q = f ++ '&' :: (u ++ '=' :: d) := by
  rw [moveArgs_href] at h
  by_cases hmem : '&' ∈ q
  · obtain ⟨a, b, rfl, ha⟩ := List.eq_append_cons_of_mem hmem
    rw [if_pos hmem, (takeWhile_sep ha b).1, (takeWhile_sep ha b).2] at h
    obtain ⟨folder, hfolder, heq⟩ := Option.map_eq_some_iff.mp h
    obtain ⟨rfl, rfl⟩ := Prod.mk.inj heq
    obtain ⟨u, -, hu⟩ := behind_some hfolder
    -- the `&` itself is not the `=`
    cases u with
    | nil => exact absurd (List.cons.inj hu).1 (by decide)
    | cons x u =>
        obtain ⟨rfl, rfl⟩ := List.cons.inj hu
        exact ⟨ha, u, rfl⟩
  · rw [if_neg hmem] at h
    cases h

theorem moveArgs_names (isFile : Bool) {f : Str} (d : Str) (h : '&' ∉ f) :
    moveArgs (moveHref isFile ++ (f ++ '&' :: (['t', 'o'] ++ '=' :: d))) isFile = some (f, d) := by
  rw [moveArgs_href, if_pos (by simp), (takeWhile_sep h _).1, (takeWhile_sep h _).2,
    ← List.cons_append, behind_sep (by decide)]
  rfl

/-! ## The link that comes back -/

theorem moveLink_eq (isFile : Bool) (filename folder : Str) :
    moveLink isFile filename folder
      = moveHref isFile ++ (filename ++ '&' :: (['t', 'o'] ++ '=' :: folder)) := by
  unfold moveLink
  rw [show "&to=".toList = ['&', 't', 'o', '='] by decide]
  simp only [List.append_assoc, List.cons_append, List.nil_append]

theorem followMove_eq (isFile : Bool) (filename folder : Str) :
    followMove isFile (moveLink isFile filename folder)
      = (parsePath (filename ++ '&' :: (['t', 'o'] ++ '=' :: folder))).bind fun q =>
          moveArgs (moveHref isFile ++ q) isFile := by
  have hplain : '%' ∉ moveHref isFile := by cases isFile <;> decide
  rw [followMove, moveLink_eq, parsePath_plain_append hplain, Option.bind_map]
  rfl

/-- An escape in the file name: one letter of `&to=` would have to be another. -/
theorem filename_plain {isFile : Bool} {filename folder : Str}
    (h : followMove isFile (moveLink isFile filename folder) = some (filename, folder)) :
    '%' ∉ filename := by
  intro hmem
  obtain ⟨a, f, rfl, ha⟩ := List.eq_append_cons_of_mem hmem
  rw [followMove_eq, List.append_assoc, parsePath_plain_append ha, Option.bind_map] at h
  obtain ⟨q, hq, hargs⟩ := Option.bind_eq_some_iff.mp h
  obtain ⟨-, u, hu⟩ := moveArgs_some hargs
  rw [List.cons_append] at hq
  obtain ⟨x, y, z, r, hz, hr, rfl⟩ := parsePath_percent hq
  rw [List.append_assoc, List.append_right_inj] at hu
  obtain ⟨-, rfl⟩ : _ ∧ r = f ++ '&' :: (u ++ '=' :: folder) := List.cons.inj hu
  -- two letters are gone, and only the `to` could be missing
  have hlen := congrArg List.length hz
  obtain ⟨hle, hlt⟩ := parsePath_length hr
  simp only [List.length_append, List.length_cons, List.length_nil] at hlen hle hlt
  obtain rfl : u = [] := List.length_eq_zero_iff.mp (by omega)
  have hplain : '%' ∉ z := fun hp => by have hshort := hlt hp; omega
  obtain rfl := Option.some.inj ((parsePath_self hplain).symm.trans hr)
  have htails : f ++ ['&', 't'] ++ ('o' :: '=' :: folder) = x :: y :: f
    ++ ('&' :: '=' :: folder) := by
    simpa using hz
  exact absurd (List.cons.inj (List.append_inj_right' htails (by simp))).1 (by decide)

theorem filename_noAnd {isFile : Bool} {filename folder : Str}
    (h : followMove isFile (moveLink isFile filename folder) = some (filename, folder)) :
    '&' ∉ filename := by
  rw [followMove_eq] at h
  obtain ⟨q, -, hargs⟩ := Option.bind_eq_some_iff.mp h
  exact (moveArgs_some hargs).1

/-- An escape in the folder name leaves a shorter one. -/
theorem folder_plain {isFile : Bool} {filename folder : Str}
    (h : followMove isFile (moveLink isFile filename folder) = some (filename, folder)) :
    '%' ∉ folder := by
  intro hmem
  have hand := filename_noAnd h
  have hf := filename_plain h
  rw [followMove_eq, parsePath_plain_append hf, parsePath_plain (by decide),
    parsePath_plain_append (by decide), parsePath_plain (by decide), Option.map_map, Option.map_map,
    Option.map_map, Option.bind_map] at h
  obtain ⟨q, hq, hargs⟩ := Option.bind_eq_some_iff.mp h
  obtain ⟨-, rfl⟩ := Prod.mk.inj (Option.some.inj ((moveArgs_names isFile q hand).symm.trans hargs))
  exact absurd ((parsePath_length hq).2 hmem) (Nat.lt_irrefl _)

/-- **A move link names the file and the folder it was made for exactly if there is no separator or
escape in the way.** -/
theorem followMove_iff (isFile : Bool) (filename folder : Str) :
    followMove isFile (moveLink isFile filename folder) = some (filename, folder)
      ↔ '&' ∉ filename ∧ '%' ∉ filename ∧ '%' ∉ folder := by
  constructor
  · intro h
    exact ⟨filename_noAnd h, filename_plain h, folder_plain h⟩
  · rintro ⟨hand, hf, hd⟩
    have hplain : '%' ∉ filename ++ '&' :: (['t', 'o'] ++ '=' :: folder) := by simp [hf, hd]
    rw [followMove_eq, parsePath_self hplain, Option.bind_some, moveArgs_names _ _ hand]

/-- The link for `a&b` names the file `a`. -/
theorem ampersand_misread :
    followMove true (moveLink true ['a', '&', 'b'] ['d', 'o', 'c', 's'])
      ≠ some (['a', '&', 'b'], ['d', 'o', 'c', 's']) := by decide

end PennCloud
