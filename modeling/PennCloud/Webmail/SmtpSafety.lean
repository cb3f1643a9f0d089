import PennCloud.Lib.Scan
import PennCloud.Webmail.SmtpReplies

/-!
# What a client can break

`parse_mailbox` looks for its brackets without looking where the line ends, and
copies what is between them into fifty bytes; `handle_from` compares from where an
`@` was found, and `handle_data` cuts the title from where the subject was found,
whether it was found or not. Here each of these accesses is checked.
`Session.inBounds_iff` says for which lines they are all good, and `inBounds_run`
that a session, however its bytes are cut into reads, comes to no harm exactly if
it comes to no other lines.
-/

namespace PennCloud

open Str

/-- `parse_mailbox`, its reads checked against the line and its writes against the array. -/
def parseMailboxAt (line : Str) : Option Str :=
  (Lib.scanTo (· == '<') line 0).bind fun i =>
    (Lib.gather (· == '>') line (i + 1)).bind fun r =>
      -- the letters go to `dest[0]` and on, and a zero behind them
      if r.1.length < mailboxSize then some r.1 else none

/-- `s.substr(pos, ..)` does not throw. -/
def substrInside (s : Str) (pos : Int) : Bool := decide (0 ≤ pos ∧ pos ≤ s.length)

namespace Session

/-- The `substr` calls of `handle_data`: for the title, the sender and each recipient. -/
def substrs (s : Session) : Bool :=
  substrInside s.data (s.data.find subjectMark + 9) && substrInside s.sender 0 &&
    s.rcpts.toList.all fun r => substrInside r 0 && substrInside r (r.find ['@'] + 1)

/-- The handler of the line stays within its texts and its array. -/
def inBounds (s : Session) (end' : Nat) : Bool :=
  let line := (cstr s.buff).take end'
  let command := (cstr s.buff).take cmdSize
  if s.state = 4 then if cstr s.buff = dotCrlf then s.substrs else true
  else if sameCase command "mail ".toList then
    if s.state = 1 then ((parseMailboxAt line).bind fromLastAt).isSome else true
  else if sameCase command "rcpt ".toList then
    if s.state = 2 ∨ s.state = 3 then (parseMailboxAt line).isSome else true
  else true

/-- The line has what its handler takes to be there. -/
def Fair (s : Session) (end' : Nat) : Prop :=
  let line := (cstr s.buff).take end'
  let command := (cstr s.buff).take cmdSize
  if s.state = 4 then
    cstr s.buff = dotCrlf → subjectMark <:+: s.data ∨ 8 ≤ s.data.length
  else if sameCase command "mail ".toList then
    s.state = 1 → ∃ m, Bracketed line m ∧ '@' ∈ m
  else if sameCase command "rcpt ".toList then
    s.state = 2 ∨ s.state = 3 → ∃ m, Bracketed line m
  else True

end Session

/-- A read that fills the array has `strstr` search behind it. -/
def Visit.InBounds : Visit → Prop
  | .line s end' => s.inBounds end' = true
  | .unterminated => False

def Visit.Fair : Visit → Prop
  | .line s end' => s.Fair end'
  | .unterminated => False

instance : DecidablePred Visit.InBounds
  | .line s end' => inferInstanceAs (Decidable (s.inBounds end' = true))
  | .unterminated => .isFalse id

/-! ## The accesses -/

/-- **The loops of `parse_mailbox` stay in bounds** exactly if the line has a short mailbox. -/
theorem parseMailboxAt_iff {line m : Str} : parseMailboxAt line = some m ↔ Bracketed line m := by
  have hfound : ∀ {a c : Str}, '<' ∉ a → parseMailboxAt (a ++ '<' :: c)
      = (Lib.gather (· == '>') (a ++ ['<'] ++ c) (a ++ ['<']).length).bind fun r =>
          if r.1.length < mailboxSize then some r.1 else none := by
    intro a c ha
    have hscan : Lib.scanTo (· == '<') (a ++ '<' :: c) 0 = some a.length :=
      Lib.scanTo_found [] c (Lib.beq_notMem ha) (beq_self_eq_true '<')
    rw [parseMailboxAt, hscan, Option.bind_some, List.append_cons, List.length_append,
      List.length_singleton]
  constructor
  · intro h
    by_cases hopen : '<' ∈ line
    · obtain ⟨a, c, rfl, ha⟩ := List.eq_append_cons_of_mem hopen
      rw [hfound ha] at h
      by_cases hclose : '>' ∈ c
      · obtain ⟨x, b, rfl, hx⟩ := List.eq_append_cons_of_mem hclose
        rw [Lib.gather_found _ b (Lib.beq_notMem hx) (beq_self_eq_true '>'), Option.bind_some] at h
        split at h
        · rename_i hshort
          obtain rfl := Option.some.inj h
          exact ⟨a, b, rfl, ha, hx, hshort⟩
        · cases h
      · rw [Lib.gather_none _ (Lib.beq_notMem hclose)] at h
        cases h
    · have hnone : Lib.scanTo (· == '<') line 0 = none := Lib.scanTo_none [] (Lib.beq_notMem hopen)
      rw [parseMailboxAt, hnone] at h
      cases h
  · rintro ⟨a, b, rfl, ha, hm, hshort⟩
    rw [hfound ha, Lib.gather_found _ b (Lib.beq_notMem hm) (beq_self_eq_true '>'),
      Option.bind_some, if_pos hshort]

/-- A position that `find` gives is in the text. -/
theorem find_lt {s pat : Str} (hpat : pat ≠ []) :
    0 ≤ s.find pat ∧ s.find pat < s.length ∨ s.find pat = npos := by
  cases hi : Lib.firstIdx pat s with
  | none => exact Or.inr (find_of_none hi)
  | some i =>
      obtain ⟨a, b, hs, rfl⟩ := Lib.firstIdx_split hi
      have hpos : 0 < pat.length := List.length_pos_of_ne_nil hpat
      rw [find_of_firstIdx hi, hs, List.length_append, List.length_append]
      exact Or.inl (by omega)

/-- The title is cut from a text with a subject, or long enough to have had one. -/
theorem substrInside_title (data : Str) : substrInside data (data.find subjectMark + 9) = true ↔
    subjectMark <:+: data ∨ 8 ≤ data.length := by
  rw [substrInside, decide_eq_true_eq]
  cases hi : Lib.firstIdx subjectMark data with
  | none =>
      have hnot := Lib.firstIdx_eq_none.mp hi
      rw [find_of_none hi, npos]
      constructor
      · rintro ⟨-, h⟩
        exact Or.inr (by omega)
      · intro h
        have hlen := h.resolve_left hnot
        omega
  | some i =>
      obtain ⟨a, b, hdata, rfl⟩ := Lib.firstIdx_split hi
      have hmark : subjectMark.length = 9 := by decide
      refine iff_of_true ?_ (Or.inl ⟨a, b, hdata.symm⟩)
      rw [find_of_firstIdx hi, hdata, List.length_append, List.length_append, hmark]
      omega

/-- **No other `substr` of `handle_data` can throw.** -/
theorem substrs_iff (s : Session) :
    s.substrs = true ↔ subjectMark <:+: s.data ∨ 8 ≤ s.data.length := by
  have hzero : ∀ t : Str, substrInside t 0 = true := fun t => decide_eq_true (by omega)
  have hbehind : ∀ r : Str, substrInside r (r.find ['@'] + 1) = true := by
    intro r
    refine decide_eq_true ?_
    rcases find_lt (s := r) (List.cons_ne_nil '@' []) with h | h
    · omega
    · rw [h, npos]
      omega
  have hall : (s.rcpts.toList.all fun r => substrInside r 0 && substrInside r (r.find ['@'] + 1))
    = true :=
    List.all_eq_true.mpr fun r _ => by rw [hzero, hbehind, Bool.and_self]
  rw [Session.substrs, hall, hzero, Bool.and_true, Bool.and_true, substrInside_title]

/-! ## A line and a session -/

namespace Session

/-- **A handler stays in bounds** exactly if the line is fair. -/
theorem inBounds_iff (s : Session) (end' : Nat) : s.inBounds end' = true ↔ s.Fair end' := by
  simp only [inBounds, Fair]
  split
  · split
    · rename_i hdot
      rw [substrs_iff]
      exact ⟨fun h _ => h, fun h => h hdot⟩
    · rename_i hdot
      exact iff_of_true rfl fun h => absurd h hdot
  split
  · split
    · rename_i hone
      rw [Option.isSome_iff_exists]
      constructor
      · rintro ⟨found, h⟩ -
        obtain ⟨m, hm, hfound⟩ := Option.bind_eq_some_iff.mp h
        exact ⟨m, parseMailboxAt_iff.mp hm, exists_fromLastAt.mp ⟨found, hfound⟩⟩
      · intro h
        obtain ⟨m, hm, hat⟩ := h hone
        rw [parseMailboxAt_iff.mpr hm]
        exact exists_fromLastAt.mpr hat
    · rename_i hone
      exact iff_of_true rfl fun h => absurd h hone
  split
  · split
    · rename_i htwo
      rw [Option.isSome_iff_exists]
      constructor
      · rintro ⟨m, hm⟩ -
        exact ⟨m, parseMailboxAt_iff.mp hm⟩
      · intro h
        obtain ⟨m, hm⟩ := h htwo
        exact ⟨m, parseMailboxAt_iff.mpr hm⟩
    · rename_i htwo
      exact iff_of_true rfl fun h => absurd h htwo
  · exact iff_of_true rfl trivial

/-- A mailbox in the line is the one the handlers take, whatever is behind it in the buffer. -/
theorem parseMailbox_of_bracketed {s : Session} {end' : Nat} {m : Str}
    (h : Bracketed ((cstr s.buff).take end') m) : parseMailbox s.buff = some m := by
  have hnul : '\x00' ∉ (cstr s.buff).take end' := fun hmem =>
    cstr_noNul _ (List.mem_of_mem_take hmem)
  obtain ⟨rest, hrest⟩ := (List.take_prefix end' (cstr s.buff)).trans (List.takeWhile_prefix _)
  rw [← hrest]
  exact parseMailbox_append ((parseMailbox_iff hnul).mpr h) rest

theorem handleFrom_done {u : Session}
    (h : u.state = 1 → ∃ m, parseMailbox u.buff = some m ∧ '@' ∈ m) :
      ∃ t, u.handleFrom = some t := by
  by_cases hone : u.state = 1
  · obtain ⟨m, hm, hat⟩ := h hone
    obtain ⟨found, hfound⟩ := exists_fromLastAt.mpr hat
    rw [handleFrom_found hone, hm, Option.bind_some, hfound]
    exact ⟨_, rfl⟩
  · exact ⟨_, handleFrom_refused hone⟩

theorem handleTo_done {u : Session}
    (h : u.state = 2 ∨ u.state = 3 → ∃ m, parseMailbox u.buff = some m) :
      ∃ t, u.handleTo = some t := by
  by_cases htwo : u.state = 2 ∨ u.state = 3
  · obtain ⟨m, hm⟩ := h htwo
    rw [handleTo_found htwo, hm]
    exact ⟨_, rfl⟩
  · exact ⟨_, handleTo_refused htwo⟩

/-- **A line in bounds comes back.** -/
theorem line_of_inBounds {s : Session} {end' : Nat} (h : s.inBounds end' = true) :
    ∃ t, s.line end' = some t := by
  have hfair := (s.inBounds_iff end').mp h
  simp only [Fair] at hfair
  by_cases hfour : s.state = 4
  · rw [line_four hfour]
    by_cases hdot : cstr s.buff = dotCrlf
    · rw [if_pos hfour] at hfair
      have htitle := (substrInside_title s.data).mpr (hfair hdot)
      rw [substrInside, decide_eq_true_eq] at htitle
      exact handleData_dot hfour hdot (if_neg (Int.not_lt.mpr htitle.2))
    · exact ⟨_, handleData_text hfour hdot⟩
  rw [if_neg hfour] at hfair
  have hstate : (s.note end').state ≠ 4 := hfour
  simp only [line, if_neg hfour]
  split
  · rw [show s.note end' = (s.note end').load s.buff from rfl, handleData_command hstate]
    split
    · exact ⟨_, rfl⟩
    · exact ⟨_, rfl⟩
  split
  · exact ⟨_, rfl⟩
  split
  · rename_i hmail
    rw [if_pos hmail] at hfair
    refine handleFrom_done fun hone => ?_
    obtain ⟨m, hm, hat⟩ := hfair hone
    exact ⟨m, parseMailbox_of_bracketed hm, hat⟩
  rename_i hmail
  rw [if_neg hmail] at hfair
  split
  · rename_i hrcpt
    rw [if_pos hrcpt] at hfair
    refine handleTo_done fun htwo => ?_
    obtain ⟨m, hm⟩ := hfair htwo
    exact ⟨m, parseMailbox_of_bracketed hm⟩
  split
  · exact ⟨_, rfl⟩
  split
  · exact ⟨_, rfl⟩
  split
  · exact ⟨_, rfl⟩
  · exact ⟨_, rfl⟩

end Session

/--
**No line of a session leads a handler out of its texts** exactly if all of them are
fair, whatever the client sends and however it is cut into reads.
-/
theorem inBounds_run (reads : List Str) :
    (∀ v ∈ Session.visitsAll {} reads, v.InBounds) ↔ ∀ v ∈ Session.visitsAll {} reads, v.Fair := by
  refine forall₂_congr fun v _ => ?_
  cases v with
  | line s end' => exact s.inBounds_iff end'
  | unterminated => exact Iff.rfl

/-- A session whose lines are all in bounds does not fail. -/
theorem turns_of_inBounds {reads : List Str} (h : ∀ v ∈ Session.visitsAll {} reads, v.InBounds) :
    Turn.fails ∉ Session.turns {} reads ∧ Turn.unterminated ∉ Session.turns {} reads := by
  have hdone : ∀ v : Visit, v.InBounds → ∃ t, v.turn = .done t := by
    intro v hv
    cases v with
    | line s end' =>
        obtain ⟨t, ht⟩ := Session.line_of_inBounds hv
        exact ⟨_, by rw [Visit.turn, ht, Option.elim_some]⟩
    | unterminated => exact hv.elim
  have hturns : ∀ r ∈ Session.turns {} reads, ∃ t, r = .done t := by
    intro r hr
    obtain ⟨v, hv, rfl⟩ := List.mem_map.mp hr
    exact hdone v (h v hv)
  constructor
  · intro hmem
    obtain ⟨t, ht⟩ := hturns _ hmem
    cases ht
  · intro hmem
    obtain ⟨t, ht⟩ := hturns _ hmem
    cases ht

/-- `MAIL` without brackets. -/
def bareMail : List Str := [heloLine, "MAIL FROM:bob@localhost\r\n".toList]

/-- The first loop of `parse_mailbox` leaves the line. -/
theorem bareMail_leaves : ¬ ∀ v ∈ Session.visitsAll {} bareMail, v.InBounds := by
  decide +kernel

end PennCloud
