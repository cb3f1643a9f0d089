import PennCloud.Webmail.SmtpSteps

/-!
# Packet boundaries

A client's bytes reach `worker_thread` in reads of any size, and its handlers look
at the front of a buffer that may hold later lines. Two of them look too far:
`handle_data` compares the whole buffer with the dot line, and `parse_mailbox`
searches for its brackets past the end of the line. `Session.Own` says that what
such a search finds belongs to the line, and `sameTurns_iff` that a session goes as
it does line by line exactly if this is so at each of its lines, and no read fills
the array.
-/

namespace PennCloud

open Str

/-- The lines of a stream, behind the part `l` of one. -/
def lineReadsFrom (l : Str) : Str → List Str
  | [] => if l = [] then [] else [l]
  | c :: b =>
    if crlf <:+ l ++ [c] then (l ++ [c]) :: lineReadsFrom [] b else lineReadsFrom (l ++ [c]) b

/-- The reads of a stream that comes one line at a time. -/
def lineReads (b : Str) : List Str := lineReadsFrom [] b

/-- Where a session comes to. -/
inductive Visit
  /-- A line is about to be handled: the first `end'` bytes of the buffer. -/
  | line (s : Session) (end' : Nat)
  /-- A read has left no zero byte in the array. -/
  | unterminated

/-- What comes of it. -/
inductive Turn
  /-- The session behind the line, but for its buffer. -/
  | done (s : Session)
  /-- The handler does not return: it throws, or leaves its array. -/
  | fails
  | unterminated

namespace Session

/-- The lines the inner loop comes to. -/
def visits : Nat → Session → List Visit
  | 0, _ => []
  | fuel + 1, s =>
    match Lib.firstIdx crlf (cstr s.buff) with
    | none => []
    | some i => .line s (i + 2) :: match s.line (i + 2) with
      | none => []
      | some t => if t.quit then [] else visits fuel (t.load (clearBuffer t.buff (i + 2)))

/-- The lines a session comes to. What is sent after `QUIT` is not read. -/
def visitsAll : Session → List Str → List Visit
  | _, [] => []
  | s, bytes :: reads =>
    if s.quit then []
    else if (cstr (fill s.buff bytes)).length < buffSize then
      visits (cstr (fill s.buff bytes)).length (s.load (fill s.buff bytes)) ++
        (s.read bytes).elim [] (visitsAll · reads)
    else [.unterminated]

end Session

def Visit.turn : Visit → Turn
  | .line s end' => (s.line end').elim .fails fun t => .done (t.load [])
  | .unterminated => .unterminated

/-- What a session does: after each line its state, its replies and all it has handed over. -/
def Session.turns (s : Session) (reads : List Str) : List Turn := (s.visitsAll reads).map Visit.turn

/-- The mailbox that a handler is going to take from a text. -/
def Session.mailboxIn (s : Session) (text : Str) : Option Str :=
  if s.state = 1 ∧ sameCase (text.take cmdSize) "mail ".toList then
    (parseMailbox text).filter fun m => decide ('@' ∈ m)
  else if (s.state = 2 ∨ s.state = 3) ∧ sameCase (text.take cmdSize) "rcpt ".toList then
    parseMailbox text
  else none

/-- What a handler finds in the buffer is in the line itself. -/
structure Session.Own (s : Session) (end' : Nat) : Prop where
  /-- A dot line in the text of a message is all there is. -/
  dot : s.state = 4 → s.buff.take end' = dotCrlf → cstr s.buff = dotCrlf
  mailbox : s.mailboxIn (cstr s.buff) = s.mailboxIn (s.buff.take end')

def Visit.Own : Visit → Prop
  | .line s end' => s.Own end'
  | .unterminated => False

/-! ## The lines of a stream -/

section Lines

variable {l a b : Str}

theorem lineReadsFrom_line : ∀ {a l : Str}, a ≠ [] → IsLine (l ++ a) →
    lineReadsFrom l (a ++ b) = (l ++ a) :: lineReads b
  | [], _, hne, _ => absurd rfl hne
  | c :: a, l, _, h => by
      obtain ⟨t, ht, hfree⟩ := h
      rw [List.cons_append, lineReadsFrom]
      cases a with
      | nil =>
          rw [if_pos ⟨t, ht.symm⟩]
          rfl
      | cons d a =>
          rw [List.append_cons] at ht
          have hnot : ¬ crlf <:+ l ++ [c] := by
            -- the line would end before its end
            rintro ⟨u, hu⟩
            have hlen := congrArg List.length ht
            simp only [List.length_append, List.length_cons, List.length_nil, crlf] at hlen
            have hpre : l ++ [c] <+: t ++ ['\r'] := by
              refine List.prefix_of_prefix_length_le ⟨d :: a, ht⟩ ⟨['\n'], by simp [crlf]⟩ ?_
              simp only [List.length_append, List.length_cons, List.length_nil]
              omega
            rcases List.prefix_concat_iff.mp hpre with heq | hin
            · have hlast := congrArg List.getLast? (hu.trans heq)
              simp [crlf] at hlast
            · exact hfree (List.IsInfix.trans ⟨u, [], by rw [hu, List.append_nil]⟩ hin.isInfix)
          rw [if_neg hnot, lineReadsFrom_line (List.cons_ne_nil d a) ⟨t, ht, hfree⟩,
            ← List.append_cons]

/-- A line comes first. -/
theorem lineReads_line (h : IsLine l) : lineReads (l ++ b) = l :: lineReads b := by
  have hne : l ≠ [] := by
    rintro rfl
    obtain ⟨t, ht, -⟩ := h
    simp [crlf] at ht
  have hline : IsLine ([] ++ l) := h
  exact lineReadsFrom_line hne hline

theorem lineReadsFrom_part {a l : Str} (h : ¬ crlf <:+: l ++ a) (hne : l ++ a ≠ []) :
    lineReadsFrom l a = [l ++ a] := by
  induction a generalizing l with
  | nil =>
      rw [List.append_nil] at hne ⊢
      exact if_neg hne
  | cons c a ih =>
      rw [List.append_cons] at h
      have hnot : ¬ crlf <:+ l ++ [c] := fun hs =>
        h (hs.isInfix.trans (List.prefix_append _ _).isInfix)
      rw [lineReadsFrom, if_neg hnot, ih h (by simp), ← List.append_cons]

/-- A text without a line break is one read, if it is any. -/
theorem lineReads_part (h : ¬ crlf <:+: a) : lineReads a = if a = [] then [] else [a] := by
  by_cases ha : a = []
  · rw [if_pos ha, ha]
    rfl
  · rw [if_neg ha]
    exact lineReadsFrom_part h ha

/-- A text has no line break, or begins with a line. -/
theorem line_or_part (b : Str) : ¬ crlf <:+: b ∨ ∃ l b', b = l ++ b' ∧ IsLine l := by
  by_cases h : crlf <:+: b
  · obtain ⟨i, hi⟩ := Lib.firstIdx_isSome h
    obtain ⟨a, b', rfl, rfl⟩ := Lib.firstIdx_split hi
    refine Or.inr ⟨a ++ crlf, b', rfl, a, rfl, ?_⟩
    have htake := Lib.not_infix_take hi (by decide)
    rwa [List.append_assoc, List.take_left] at htake
  · exact Or.inl h

end Lines

/-! ## A line with more behind it -/

namespace Session

section Behind

variable {u : Session} {l x z z' : Str}

/-- A keyword is found at the front of the buffer exactly if it is in the line. -/
theorem sameCase_front {n : Nat} {m kw : Str} (x : Str) (hm : '\n' ∈ m)
    (hkw : '\n' ∉ kw.map Char.toLower) :
    sameCase ((m ++ x).take n) kw = sameCase (m.take n) kw := by
  have hno : ∀ {a : Str}, '\n' ∈ a → sameCase a kw = false := by
    intro a ha
    rw [sameCase, beq_eq_false_iff_ne]
    intro he
    exact hkw (he ▸ List.mem_map_of_mem (f := Char.toLower) ha)
  rcases Nat.lt_or_ge m.length n with hlt | hge
  · have hle : m.length ≤ n := Nat.le_of_lt hlt
    rw [List.take_of_length_le hle, hno hm, hno]
    exact List.mem_of_mem_take (i := m.length) (by rw [List.take_take]; simpa [hle] using hm)
  · rw [List.take_append_of_le_length hge]

theorem isLine_newline (h : IsLine l) : ∃ a, l = a ++ ['\n'] ∧ '\n' ∈ l := by
  obtain ⟨t, rfl, -⟩ := h
  exact ⟨t ++ ['\r'], by simp [crlf], by simp [crlf]⟩

/-- A line that is longer than `k` has its end behind `k`. -/
theorem newline_drop {k : Nat} (h : IsLine l) (hk : k < l.length) : '\n' ∈ l.drop k := by
  obtain ⟨a, rfl, -⟩ := isLine_newline h
  rw [List.length_append, List.length_singleton] at hk
  rw [List.drop_append_of_le_length (by omega)]
  simp

/-- A line that begins with a keyword of five letters is longer than that. -/
theorem length_of_command {kw : Str} (h : IsLine l) (hkw : '\n' ∉ kw.map Char.toLower)
    (hlen : kw.length = cmdSize) (hc : sameCase (l.take cmdSize) kw = true) :
    cmdSize < l.length := by
  rw [sameCase, beq_iff_eq] at hc
  have hfive := congrArg List.length hc
  rw [List.length_map, List.length_map, List.length_take, hlen] at hfive
  rcases Nat.lt_or_eq_of_le (show cmdSize ≤ l.length by omega) with hlt | heq
  · exact hlt
  · -- the line break would be in the keyword
    obtain ⟨a, -, hmem⟩ := isLine_newline h
    rw [heq, List.take_length] at hc
    exact absurd (hc ▸ List.mem_map_of_mem (f := Char.toLower) hmem) hkw

theorem load_note (u : Session) (l b : Str) : (u.load (l ++ b)).note l.length
    = Session.load { u with handled := u.handled ++ [.command l] } (l ++ b) := by
  rw [note, load_buff, List.take_left]
  rfl

/-- What `handle_from` and `handle_to` make of the mailbox they find. -/
theorem handleFrom_found (h : u.state = 1) : u.handleFrom = (parseMailbox u.buff).bind fun m =>
    (fromLastAt m).map fun found =>
      let v := u.expect (sameCase (((cstr u.buff).drop cmdSize).take 5) "from:".toList) unknownCmd
      if found.take 10 ≠ "@localhost".toList then v.reply syntaxErr
      else { v with state := 2, sender := m }.reply mailOK := by
  obtain ⟨replies, hs⟩ := expect_eq u
    (sameCase (((cstr u.buff).drop cmdSize).take 5) "from:".toList) unknownCmd
  rw [handleFrom, hs]
  exact if_neg (not_not_intro h)

theorem handleTo_found (h : u.state = 2 ∨ u.state = 3) :
    u.handleTo = (parseMailbox u.buff).map fun m =>
    let v := u.expect (sameCase (((cstr u.buff).drop cmdSize).take 3) "to:".toList) unknownCmd
    { v with state := 3, rcpts := v.rcpts.insert m }.reply mailOK := by
  obtain ⟨replies, hs⟩ := expect_eq u
    (sameCase (((cstr u.buff).drop cmdSize).take 3) "to:".toList) unknownCmd
  have hseq : ¬ (u.state < 2 ∨ 3 < u.state) := by omega
  rw [handleTo, hs]
  exact if_neg hseq

/-- A mailbox in the line is found with anything behind it. -/
theorem parseMailbox_append {m : Str} (h : parseMailbox l = some m) (b : Str) :
    parseMailbox (l ++ b) = some m := by
  obtain ⟨i, hi, h⟩ := Option.bind_eq_some_iff.mp h
  obtain ⟨j, hj, h⟩ := Option.bind_eq_some_iff.mp h
  obtain ⟨a, c, hl, rfl⟩ := Lib.firstIdx_split hi
  have hle : a.length + 1 ≤ l.length := by
    rw [hl]
    simp
  have hdrop : (l ++ b).drop (a.length + 1) = l.drop (a.length + 1) ++ b :=
    List.drop_append_of_le_length hle
  obtain ⟨d, e, hd, rfl⟩ := Lib.firstIdx_split hj
  rw [parseMailbox, Lib.firstIdx_append b hi, Option.bind_some, hdrop, Lib.firstIdx_append b hj,
    Option.bind_some, ← h, List.take_append_of_le_length (by rw [hd]; simp)]

/-- Zeros bring no mailbox. -/
theorem parseMailbox_zero (hz : Zero z) : parseMailbox (l ++ z) = parseMailbox l := by
  have hfind : ∀ {c : Char} (a : Str), c ≠ '\x00' →
      Lib.firstIdx [c] (a ++ z) = Lib.firstIdx [c] a := by
    intro c a hc
    cases ha : Lib.firstIdx [c] a with
    | some i => exact Lib.firstIdx_append z ha
    | none =>
        have hnot : c ∉ a ++ z := by
          rw [List.mem_append, not_or]
          refine ⟨fun hmem => ?_, fun hmem => hc (hz c hmem)⟩
          exact Lib.firstIdx_eq_none.mp ha ((List.singleton_infix_iff c a).mpr hmem)
        exact Lib.firstIdx_sep_none hnot
  rw [parseMailbox, parseMailbox, hfind l (by decide)]
  cases hi : Lib.firstIdx ['<'] l with
  | none => rfl
  | some i =>
      obtain ⟨a, c, hl, rfl⟩ := Lib.firstIdx_split hi
      have hle : a.length + 1 ≤ l.length := by
        rw [hl]
        simp
      rw [Option.bind_some, Option.bind_some, List.drop_append_of_le_length hle,
        hfind (l.drop (a.length + 1)) (by decide)]
      cases hj : Lib.firstIdx ['>'] (l.drop (a.length + 1)) with
      | none => rfl
      | some j =>
          obtain ⟨d, e, hd, rfl⟩ := Lib.firstIdx_split hj
          rw [Option.bind_some, Option.bind_some, List.take_append_of_le_length (by rw [hd]; simp)]

theorem expect_load (u : Session) (b : Str) (ok : Bool) (text : Str) :
    (u.load b).expect ok text = (u.expect ok text).load b := by
  cases ok <;> rfl

/-- The `DATA` command does not look at the buffer. -/
theorem handleData_command {end' : Nat} (h : u.state ≠ 4) (b : Str) :
    (u.load b).handleData end'
      = (if u.state = 3 then some (Session.reply { u with state := 4 } startMail)
      else some (u.reply badSeq)).map (·.load b) := by
  have hstate : (u.load b).state = u.state := rfl
  by_cases hthree : u.state = 3
  · rw [if_pos hthree, handleData, if_neg (by omega), if_pos (hstate.trans hthree)]
    rfl
  · rw [if_neg hthree, handleData, if_pos (by omega)]
    rfl

theorem handleRset_load (u : Session) (b : Str) : (u.load b).handleRset = u.handleRset.load b := by
  by_cases hzero : u.state = 0
  · rw [handleRset, handleRset, if_pos hzero, if_pos (show (u.load b).state = 0 from hzero)]
    rfl
  · rw [handleRset, handleRset, if_neg hzero, if_neg (show ¬ (u.load b).state = 0 from hzero)]
    rfl

theorem handleFrom_refused (h : u.state ≠ 1) : u.handleFrom = some
    ((u.expect (sameCase (((cstr u.buff).drop cmdSize).take 5) "from:".toList) unknownCmd).reply
      badSeq) := by
  obtain ⟨replies, hs⟩ := expect_eq u
    (sameCase (((cstr u.buff).drop cmdSize).take 5) "from:".toList) unknownCmd
  rw [handleFrom, hs]
  exact if_pos h

theorem handleTo_refused (h : ¬ (u.state = 2 ∨ u.state = 3)) : u.handleTo = some
    ((u.expect (sameCase (((cstr u.buff).drop cmdSize).take 3) "to:".toList) unknownCmd).reply
      badSeq) := by
  obtain ⟨replies, hs⟩ := expect_eq u
    (sameCase (((cstr u.buff).drop cmdSize).take 3) "to:".toList) unknownCmd
  rw [handleTo, hs]
  exact if_pos (by show u.state < 2 ∨ 3 < u.state; omega)

/-- The end of a message hands it over. -/
theorem handleData_over {s : Session} {end' : Nat} (hstate : s.state = 4)
    (hdot : cstr s.buff = dotCrlf) : s.handleData end' = (mailTitle s.data).map fun _ =>
      { s.expect (s.data.find subjectMark ≠ npos) noSubject with
        state := 5
        handled := s.handled ++ [Handled.mail s.sender s.rcpts.toList s.data]
        data := [], sender := [], rcpts := ∅ : Session }.reply mailOK := by
  obtain ⟨replies, hs⟩ := expect_eq s (s.data.find subjectMark ≠ npos) noSubject
  rw [handleData, if_neg (by omega), if_neg (by omega), if_neg (not_not_intro hdot), hs]

/-- Only one keyword begins a line. -/
theorem sameCase_other {c kw : Str} (kw' : Str) (hc : sameCase c kw = true)
    (hne : sameCase kw kw' = false) :
    sameCase c kw' = false := by
  rw [sameCase, beq_iff_eq] at hc
  rwa [sameCase, hc]

/-- A line of a session with `x` behind it, and the same line alone. -/
structure Fronts (l x z z' : Str) : Prop where
  isLine : IsLine l
  noNul : '\x00' ∉ l ++ x
  zero : Zero z
  zero' : Zero z'

namespace Fronts

variable (h : Fronts l x z z')

include h

theorem cstr_long : cstr (l ++ (x ++ z)) = l ++ x := by
  rw [← List.append_assoc]
  exact cstr_row h.noNul h.zero

theorem cstr_short : cstr (l ++ z') = l :=
  cstr_row (fun hm => h.noNul (List.mem_append_left x hm)) h.zero'

/-- What is looked for at the same place of both is the same. -/
theorem sameCase_drop {k n : Nat} (kw : Str) (hk : k < l.length)
    (hkw : '\n' ∉ kw.map Char.toLower) :
    sameCase (((l ++ x).drop k).take n) kw = sameCase ((l.drop k).take n) kw := by
  rw [List.drop_append_of_le_length (Nat.le_of_lt hk)]
  exact sameCase_front x (newline_drop h.isLine hk) hkw

/-- A mailbox found in the line is found in the buffer. -/
theorem parseMailbox_of_line {m : Str} (hm : parseMailbox (l ++ z') = some m) :
    parseMailbox (l ++ (x ++ z)) = some m :=
  parseMailbox_append ((parseMailbox_zero h.zero').symm.trans hm) _

theorem handleFrom_iff (hlen : cmdSize < l.length) (hstate : u.state = 1) :
    (((u.load (l ++ (x ++ z))).handleFrom.elim .fails fun t => Turn.done (t.load []))
      = (u.load (l ++ z')).handleFrom.elim .fails fun t => .done (t.load [])) ↔
    (parseMailbox (l ++ (x ++ z))).filter (fun m => decide ('@' ∈ m))
      = (parseMailbox (l ++ z')).filter fun m => decide ('@' ∈ m) := by
  have hone : ∀ b, (u.load b).state = 1 := fun _ => hstate
  have hsame := h.sameCase_drop (n := 5) "from:".toList hlen (by decide)
  rw [handleFrom_found (hone _), handleFrom_found (hone _)]
  simp only [load_buff, h.cstr_long, h.cstr_short, hsame]
  generalize sameCase ((l.drop cmdSize).take 5) "from:".toList = ok
  have hsub := fun m => h.parseMailbox_of_line (m := m)
  generalize parseMailbox (l ++ (x ++ z)) = p at hsub ⊢
  cases hq : parseMailbox (l ++ z') with
  | some m =>
      obtain rfl := hsub m hq
      refine iff_of_true ?_ rfl
      simp only [Option.bind_some]
      cases fromLastAt m with
      | none => rfl
      | some found => cases ok <;> simp only [Option.map_some, Option.elim_some] <;> split <;> rfl
  | none =>
      cases p with
      | none => exact iff_of_true rfl rfl
      | some m =>
          by_cases hat : '@' ∈ m
          · rw [Option.bind_some, fromLastAt, if_pos hat, Option.filter_some,
              if_pos (decide_eq_true hat)]
            exact iff_of_false (fun he => by cases he) (fun he => by cases he)
          · rw [Option.bind_some, fromLastAt, if_neg hat, Option.filter_some,
              if_neg (by simpa using hat)]
            exact iff_of_true rfl rfl

theorem handleTo_iff (hlen : cmdSize < l.length) (hstate : u.state = 2 ∨ u.state = 3) :
    (((u.load (l ++ (x ++ z))).handleTo.elim .fails fun t => Turn.done (t.load []))
      = (u.load (l ++ z')).handleTo.elim .fails fun t => .done (t.load [])) ↔
    parseMailbox (l ++ (x ++ z)) = parseMailbox (l ++ z') := by
  have htwo : ∀ b, (u.load b).state = 2 ∨ (u.load b).state = 3 := fun _ => hstate
  have hsame := h.sameCase_drop (n := 3) "to:".toList hlen (by decide)
  rw [handleTo_found (htwo _), handleTo_found (htwo _)]
  simp only [load_buff, h.cstr_long, h.cstr_short, hsame]
  generalize sameCase ((l.drop cmdSize).take 3) "to:".toList = ok
  have hsub := fun m => h.parseMailbox_of_line (m := m)
  generalize parseMailbox (l ++ (x ++ z)) = p at hsub ⊢
  cases hq : parseMailbox (l ++ z') with
  | some m =>
      obtain rfl := hsub m hq
      exact iff_of_true (by cases ok <;> rfl) rfl
  | none =>
      cases p with
      | none => exact iff_of_true rfl rfl
      | some m => exact iff_of_false (fun he => by cases he) (fun he => by cases he)

/-- In state 4 a line ends the message, or not, by what is behind it. -/
theorem text_iff (hfour : u.state = 4) :
    (Visit.line (u.load (l ++ (x ++ z))) l.length).turn
      = (Visit.line (u.load (l ++ z')) l.length).turn ↔ (l = dotCrlf → x = []) := by
  have hstate : ∀ b, (u.load b).state = 4 := fun _ => hfour
  have hlong := h.cstr_long
  have hshort := h.cstr_short
  rw [Visit.turn, Visit.turn, line_four (hstate _), line_four (hstate _)]
  by_cases hdot : l = dotCrlf
  · rw [handleData_over (s := u.load (l ++ z')) (hstate _) (hshort.trans hdot)]
    by_cases hx : x = []
    · refine iff_of_true ?_ fun _ => hx
      rw [hx, List.append_nil, hdot] at hlong
      rw [hx, handleData_over (s := u.load (l ++ ([] ++ z))) (hstate _) (hdot ▸ hlong)]
      simp only [load_data, expect_load]
      cases mailTitle u.data with
      | none => rfl
      | some title => rfl
    · refine iff_of_false (fun he => ?_) fun hempty => hx (hempty hdot)
      have hne : cstr (u.load (l ++ (x ++ z))).buff ≠ dotCrlf := by
        rw [load_buff, hlong, hdot]
        exact fun heq => hx (List.append_cancel_left (heq.trans (List.append_nil _).symm))
      rw [handleData_text (hstate _) hne] at he
      -- the state tells the two apart
      cases htitle : mailTitle (u.load (l ++ z')).data with
      | none =>
          rw [htitle] at he
          cases he
      | some title =>
          rw [htitle] at he
          have hfive : u.state = 5 := congrArg Session.state (Turn.done.inj he)
          omega
  · refine iff_of_true ?_ fun he => absurd he hdot
    have hne : cstr (u.load (l ++ z')).buff ≠ dotCrlf := fun he => hdot (hshort.symm.trans he)
    have hne' : cstr (u.load (l ++ (x ++ z))).buff ≠ dotCrlf := fun he =>
      hdot (line_unique h.isLine isLine_dot (show l ++ x = dotCrlf ++ [] from
        hlong.symm.trans (he.trans (List.append_nil _).symm)))
    rw [handleData_text (hstate _) hne, handleData_text (hstate _) hne', load_buff, load_buff,
      List.take_left, List.take_left]
    rfl

/-- The command a line begins with is the one it begins with alone. -/
theorem sameCase_command (kw : Str) (hkw : '\n' ∉ kw.map Char.toLower) :
    sameCase ((l ++ x).take cmdSize) kw = sameCase (l.take cmdSize) kw :=
  sameCase_front x (isLine_newline h.isLine).choose_spec.2 hkw

theorem mailboxIn_mail (hmail : sameCase (l.take cmdSize) "mail ".toList = true)
    (hstate : u.state = 1) :
    u.mailboxIn (l ++ x) = (parseMailbox (l ++ (x ++ z))).filter (fun m => decide ('@' ∈ m)) ∧
    u.mailboxIn l = (parseMailbox (l ++ z')).filter (fun m => decide ('@' ∈ m)) := by
  have hlong := h.sameCase_command "mail ".toList (by decide)
  rw [hmail] at hlong
  rw [mailboxIn, if_pos ⟨hstate, hlong⟩, mailboxIn, if_pos ⟨hstate, hmail⟩, ← List.append_assoc,
    parseMailbox_zero h.zero, parseMailbox_zero h.zero']
  exact ⟨rfl, rfl⟩

theorem mailboxIn_rcpt (hrcpt : sameCase (l.take cmdSize) "rcpt ".toList = true)
    (hstate : u.state = 2 ∨ u.state = 3) :
    u.mailboxIn (l ++ x) = parseMailbox (l ++ (x ++ z)) ∧
    u.mailboxIn l = parseMailbox (l ++ z') := by
  have hlong := h.sameCase_command "rcpt ".toList (by decide)
  rw [hrcpt] at hlong
  have hnot : ∀ p : Prop, ¬ (u.state = 1 ∧ p) := fun _ hc => by omega
  rw [mailboxIn, if_neg (hnot _), if_pos ⟨hstate, hlong⟩, mailboxIn, if_neg (hnot _),
    if_pos ⟨hstate, hrcpt⟩, ← List.append_assoc, parseMailbox_zero h.zero,
    parseMailbox_zero h.zero']
  exact ⟨rfl, rfl⟩

/-- The other lines have no mailbox to look for. -/
theorem mailboxIn_other
    (hmail : u.state = 1 → sameCase (l.take cmdSize) "mail ".toList = false)
    (hrcpt : u.state = 2 ∨ u.state = 3 → sameCase (l.take cmdSize) "rcpt ".toList = false) :
    u.mailboxIn (l ++ x) = none ∧ u.mailboxIn l = none := by
  have hlong := h.sameCase_command "mail ".toList (by decide)
  have hlong' := h.sameCase_command "rcpt ".toList (by decide)
  have hnot : ¬ (u.state = 1 ∧ sameCase (l.take cmdSize) "mail ".toList = true) := fun hc =>
    absurd (hmail hc.1) (by rw [hc.2]; decide)
  have hnot' : ¬ ((u.state = 2 ∨ u.state = 3) ∧ sameCase (l.take cmdSize) "rcpt ".toList = true) :=
    fun hc => absurd (hrcpt hc.1) (by rw [hc.2]; decide)
  constructor
  · rw [mailboxIn, hlong, hlong', if_neg hnot, if_neg hnot']
  · rw [mailboxIn, if_neg hnot, if_neg hnot']

theorem own_iff : (u.load (l ++ (x ++ z))).Own l.length ↔
    (u.state = 4 → l = dotCrlf → x = []) ∧ u.mailboxIn (l ++ x) = u.mailboxIn l := by
  have hcstr : cstr (u.load (l ++ (x ++ z))).buff = l ++ x := h.cstr_long
  have htake : (u.load (l ++ (x ++ z))).buff.take l.length = l := List.take_left
  have hdot : l = dotCrlf → (l ++ x = dotCrlf ↔ x = []) := fun hl => by
    rw [hl]
    exact List.append_right_eq_self
  constructor
  · rintro ⟨hd, hm⟩
    rw [hcstr, htake] at hd hm
    exact ⟨fun hstate hl => (hdot hl).mp (hd hstate hl), hm⟩
  · rintro ⟨hd, hm⟩
    refine ⟨fun hstate hl => ?_, ?_⟩
    · rw [htake] at hl
      exact hcstr.trans ((hdot hl).mpr (hd hstate hl))
    · rw [hcstr, htake]
      exact hm

/-- Nor has a line that begins with another keyword. -/
theorem mailboxIn_keyword {kw : Str} (hkw : sameCase (l.take cmdSize) kw = true)
    (hmail : sameCase kw "mail ".toList = false) (hrcpt : sameCase kw "rcpt ".toList = false) :
    u.mailboxIn (l ++ x) = u.mailboxIn l := by
  obtain ⟨hlong, hshort⟩ := h.mailboxIn_other (u := u)
    (fun _ => sameCase_other "mail ".toList hkw hmail) fun _ =>
      sameCase_other "rcpt ".toList hkw hrcpt
  exact hlong.trans hshort.symm

/-! One lemma for each command that looks at the buffer. -/

theorem handleHelo_same (hhelo : sameCase (l.take cmdSize) "helo ".toList = true) :
    (u.load (l ++ (x ++ z))).handleHelo.load [] = (u.load (l ++ z')).handleHelo.load [] := by
  have hlen := length_of_command h.isLine (by decide) rfl hhelo
  have hlen' : cmdSize < (l ++ x).length := by
    rw [List.length_append]
    omega
  simp only [handleHelo, load_buff, h.cstr_long, h.cstr_short, hlen, hlen', expect, decide_true,
    if_true, load_state]
  split <;> rfl

theorem handleFrom_same_iff (hmail : sameCase (l.take cmdSize) "mail ".toList = true) :
    (((u.load (l ++ (x ++ z))).handleFrom.elim .fails fun t => Turn.done (t.load []))
      = (u.load (l ++ z')).handleFrom.elim .fails fun t => .done (t.load [])) ↔
    u.mailboxIn (l ++ x) = u.mailboxIn l := by
  have hlen := length_of_command h.isLine (by decide) rfl hmail
  by_cases hone : u.state = 1
  · obtain ⟨hlong, hshort⟩ := h.mailboxIn_mail hmail hone
    rw [h.handleFrom_iff hlen hone, hlong, hshort]
  · obtain ⟨hlong, hshort⟩ := h.mailboxIn_other (u := u) (fun hstate => absurd hstate hone)
      fun _ => sameCase_other "rcpt ".toList hmail (by decide)
    have hrefused : ∀ b, (u.load b).state ≠ 1 := fun _ => hone
    refine iff_of_true ?_ (hlong.trans hshort.symm)
    rw [handleFrom_refused (hrefused _), handleFrom_refused (hrefused _)]
    simp only [load_buff, h.cstr_long, h.cstr_short,
      h.sameCase_drop (n := 5) "from:".toList hlen (by decide), expect_load]
    rfl

theorem handleTo_same_iff (hrcpt : sameCase (l.take cmdSize) "rcpt ".toList = true) :
    (((u.load (l ++ (x ++ z))).handleTo.elim .fails fun t => Turn.done (t.load []))
      = (u.load (l ++ z')).handleTo.elim .fails fun t => .done (t.load [])) ↔
    u.mailboxIn (l ++ x) = u.mailboxIn l := by
  have hlen := length_of_command h.isLine (by decide) rfl hrcpt
  by_cases htwo : u.state = 2 ∨ u.state = 3
  · obtain ⟨hlong, hshort⟩ := h.mailboxIn_rcpt hrcpt htwo
    rw [h.handleTo_iff hlen htwo, hlong, hshort]
  · obtain ⟨hlong, hshort⟩ := h.mailboxIn_other (u := u)
      (fun _ => sameCase_other "mail ".toList hrcpt (by decide)) fun hstate => absurd hstate htwo
    have hrefused : ∀ b, ¬ ((u.load b).state = 2 ∨ (u.load b).state = 3) := fun _ => htwo
    refine iff_of_true ?_ (hlong.trans hshort.symm)
    rw [handleTo_refused (hrefused _), handleTo_refused (hrefused _)]
    simp only [load_buff, h.cstr_long, h.cstr_short,
      h.sameCase_drop (n := 3) "to:".toList hlen (by decide), expect_load]
    rfl

/-- **A line does what it does alone exactly if it finds its own.** -/
theorem turn_iff : (Visit.line (u.load (l ++ (x ++ z))) l.length).turn
    = (Visit.line (u.load (l ++ z')) l.length).turn ↔ (u.load (l ++ (x ++ z))).Own l.length := by
  rw [h.own_iff]
  by_cases hfour : u.state = 4
  · rw [h.text_iff hfour]
    have hboth := h.mailboxIn_other (u := u) (fun _ => by omega) (fun _ => by omega)
    rw [hboth.1, hboth.2]
    exact ⟨fun hx => ⟨fun _ => hx, rfl⟩, fun hx => hx.1 hfour⟩
  · have hdot : u.state = 4 → l = dotCrlf → x = [] := fun h4 => absurd h4 hfour
    rw [and_iff_right hdot, Visit.turn, Visit.turn, Session.line, Session.line]
    simp only [load_state, load_buff, load_note, if_neg hfour, h.cstr_long, h.cstr_short]
    rw [h.sameCase_command "data\r".toList (by decide),
      h.sameCase_command "helo ".toList (by decide),
      h.sameCase_command "mail ".toList (by decide),
      h.sameCase_command "rcpt ".toList (by decide),
      h.sameCase_command "rset\r".toList (by decide),
      h.sameCase_command "noop\r".toList (by decide),
      h.sameCase_command "quit\r".toList (by decide)]
    -- what has been noted makes no difference
    obtain ⟨v, hv, hstate, hmailbox⟩ : ∃ v : Session,
        v = { u with handled := u.handled ++ [.command l] } ∧ v.state = u.state ∧
          ∀ y, v.mailboxIn y = u.mailboxIn y := ⟨_, rfl, rfl, fun _ => rfl⟩
    rw [← hv, ← hmailbox, ← hmailbox]
    by_cases hdata : sameCase (l.take cmdSize) "data\r".toList = true
    · have hfour' : v.state ≠ 4 := hstate ▸ hfour
      refine iff_of_true ?_ (h.mailboxIn_keyword hdata (by decide) (by decide))
      rw [if_pos hdata, if_pos hdata, handleData_command hfour', handleData_command hfour']
      split <;> rfl
    rw [if_neg hdata, if_neg hdata]
    by_cases hhelo : sameCase (l.take cmdSize) "helo ".toList = true
    · refine iff_of_true ?_ (h.mailboxIn_keyword hhelo (by decide) (by decide))
      rw [if_pos hhelo, if_pos hhelo]
      exact congrArg Turn.done (h.handleHelo_same hhelo)
    rw [if_neg hhelo, if_neg hhelo]
    by_cases hmail : sameCase (l.take cmdSize) "mail ".toList = true
    · rw [if_pos hmail, if_pos hmail]
      exact h.handleFrom_same_iff hmail
    rw [if_neg hmail, if_neg hmail]
    by_cases hrcpt : sameCase (l.take cmdSize) "rcpt ".toList = true
    · rw [if_pos hrcpt, if_pos hrcpt]
      exact h.handleTo_same_iff hrcpt
    rw [if_neg hrcpt, if_neg hrcpt]
    obtain ⟨hlong, hshort⟩ := h.mailboxIn_other (u := v) (fun _ => by simpa using hmail)
      fun _ => by simpa using hrcpt
    refine iff_of_true ?_ (hlong.trans hshort.symm)
    -- the other commands do not look at the buffer
    split
    · rw [handleRset_load, handleRset_load]
      rfl
    split
    · rfl
    split
    · rfl
    · rfl

end Fronts

end Behind

/-! ## From line to line -/

section Runs

variable {s t : Session} {l x z b : Str} {reads : List Str}

theorem fill_eq (bytes : Str) {w z : Str} (hnul : '\x00' ∉ w) (hz : Zero z) :
    ∃ z', Zero z' ∧ fill (w ++ z) bytes = w ++ bytes ++ z' := by
  refine ⟨z.drop bytes.length, hz.drop _, ?_⟩
  rw [fill, cstr_row hnul hz, List.take_left, List.drop_length_add_append]

/-- What is left behind a line when the buffer has been cleared. -/
theorem clearBuffer_eq (hnul : '\x00' ∉ l ++ x) (hz : Zero z) :
    ∃ z', Zero z' ∧ clearBuffer (l ++ (x ++ z)) l.length = x ++ z' := by
  have hcstr : cstr (l ++ (x ++ z)) = l ++ x := by
    rw [← List.append_assoc]
    exact cstr_row hnul hz
  refine ⟨List.replicate l.length '\x00' ++ z, zero_append.mpr ⟨zero_replicate _, hz⟩, ?_⟩
  rw [clearBuffer, hcstr, List.drop_left, List.append_assoc,
    ← List.append_assoc l x z, List.drop_left]

/-- What the inner loop and the reads behind it come to. -/
def visitsFrom (fuel : Nat) (s : Session) (reads : List Str) : List Visit :=
  visits fuel s ++ (drain fuel s).elim [] (visitsAll · reads)

theorem visitsAll_quit (hq : s.quit = true) (reads : List Str) : s.visitsAll reads = [] := by
  cases reads with
  | nil => rfl
  | cons bytes reads => exact if_pos hq

theorem visitsFrom_line (reads : List Str) (hl : IsLine l) (hnul : '\x00' ∉ l ++ x) (hz : Zero z)
    (hs : s.buff = l ++ (x ++ z)) (fuel : Nat) : visitsFrom (fuel + 1) s reads =
      .line s l.length :: (s.line l.length).elim [] fun t =>
        if t.quit then [] else visitsFrom fuel (t.load (clearBuffer t.buff l.length)) reads := by
  have hcstr : cstr s.buff = l ++ x := by
    rw [hs, ← List.append_assoc]
    exact cstr_row hnul hz
  obtain ⟨i, hi, hlen⟩ := hl.firstIdx x
  rw [← hcstr] at hi
  simp only [visitsFrom, drain_line hi, visits, hi, hlen]
  cases s.line (i + 2) with
  | none => rfl
  | some t =>
      simp only [Option.elim_some, Option.bind_some]
      split
      · rename_i hq
        rw [Option.elim_some, visitsAll_quit hq, List.append_nil]
      · rfl

theorem visitsFrom_part (hx : ¬ crlf <:+: x) (hnul : '\x00' ∉ x) (hz : Zero z)
    (hs : s.buff = x ++ z) (fuel : Nat) : visitsFrom fuel s reads = s.visitsAll reads := by
  have hcstr : cstr s.buff = x := by
    rw [hs]
    exact cstr_row hnul hz
  have hi : Lib.firstIdx crlf (cstr s.buff) = none := by
    rw [hcstr]
    exact Lib.firstIdx_eq_none.mpr hx
  cases fuel with
  | zero => rfl
  | succ fuel =>
      simp only [visitsFrom, visits, drain, hi]
      rfl

/-- A read that leaves a zero byte in the array. -/
theorem visitsAll_read (w bytes : Str) (reads : List Str) (hs : s.buff = w ++ z) (hz : Zero z)
    (hq : s.quit = false)
    (hnul : '\x00' ∉ w ++ bytes) (hlen : (w ++ bytes).length < buffSize) :
    ∃ z', Zero z' ∧ s.visitsAll (bytes :: reads)
      = visitsFrom (w ++ bytes).length (s.load (w ++ bytes ++ z')) reads := by
  have hw : '\x00' ∉ w := fun hm => hnul (List.mem_append_left _ hm)
  obtain ⟨z', hz', hfilled⟩ := fill_eq bytes hw hz
  rw [← hs] at hfilled
  have hcstr : cstr (fill s.buff bytes) = w ++ bytes := by
    rw [hfilled]
    exact cstr_row hnul hz'
  have hcurr : cstr s.buff = w := by
    rw [hs]
    exact cstr_row hw hz
  have hread : s.read bytes = drain (w ++ bytes).length (s.load (w ++ bytes ++ z')) := by
    have hfits : s.quit = false ∧ (cstr s.buff).length + bytes.length ≤ buffSize ∧
        (cstr (fill s.buff bytes)).length < buffSize := by
      rw [hcstr, hcurr]
      rw [List.length_append] at hlen ⊢
      exact ⟨hq, Nat.le_of_lt hlen, hlen⟩
    have hdrain : s.read bytes = drain (cstr (fill s.buff bytes)).length
      (s.load (fill s.buff bytes)) :=
      if_pos hfits
    rw [hdrain, hcstr, hfilled]
  refine ⟨z', hz', ?_⟩
  rw [visitsAll, hq, if_neg (by decide), hcstr, if_pos hlen, hread, hfilled]
  rfl

/-- A read that leaves none. -/
theorem visitsAll_full {w bytes : Str} (reads : List Str) (hs : s.buff = w ++ z) (hz : Zero z)
    (hq : s.quit = false) (hnul : '\x00' ∉ w ++ bytes) (hlen : ¬ (w ++ bytes).length < buffSize) :
    s.visitsAll (bytes :: reads) = [.unterminated] := by
  have hw : '\x00' ∉ w := fun hm => hnul (List.mem_append_left _ hm)
  obtain ⟨z', hz', hfilled⟩ := fill_eq bytes hw hz
  rw [← hs] at hfilled
  rw [visitsAll, hq, if_neg (by decide), hfilled, cstr_row hnul hz', if_neg hlen]

/-- A line that is read alone into the empty buffer. -/
theorem visitsAll_line (ls : List Str) (hl : IsLine l) (hnul : '\x00' ∉ l)
    (hlen : l.length < buffSize)
    (hz : Zero s.buff) (hq : s.quit = false) : ∃ z z', Zero z ∧ Zero z' ∧ s.visitsAll (l :: ls) =
      .line (s.load (l ++ z)) l.length :: ((s.load (l ++ z)).line l.length).elim [] fun t =>
        if t.quit then [] else (t.load z').visitsAll ls := by
  obtain ⟨z, hzero, hread⟩ := visitsAll_read [] l ls rfl hz hq hnul hlen
  obtain ⟨i, -, hi⟩ := hl.firstIdx []
  obtain ⟨z', hz', hclear⟩ := clearBuffer_eq (x := []) (by simpa using hnul) hzero
  have hstep := visitsFrom_line (s := s.load (l ++ z)) (x := []) ls hl (by simpa using hnul)
    hzero rfl (i + 1)
  rw [show i + 1 + 1 = l.length from hi.symm] at hstep
  refine ⟨z, z', hzero, hz', ?_⟩
  rw [hread, List.nil_append, hstep]
  congr 1
  cases ht : (s.load (l ++ z)).line l.length with
  | none => rfl
  | some t =>
      have hbuff : clearBuffer t.buff l.length = z' := by
        rw [(line_cases ht).1]
        exact hclear
      rw [Option.elim_some, Option.elim_some, hbuff]
      split
      · rfl
      · exact visitsFrom_part (s := t.load z') (x := []) (z := z') (by decide) (by simp) hz' rfl _

/-- A text without a line break gives nothing to do. -/
theorem visitsAll_part {w : Str} (hw : ¬ crlf <:+: w) (hnul : '\x00' ∉ w)
    (hlen : ∀ l ∈ lineReads w, l.length < buffSize) (hz : Zero s.buff) (hq : s.quit = false) :
    s.visitsAll (lineReads w) = [] := by
  rw [lineReads_part hw] at hlen ⊢
  by_cases hempty : w = []
  · rw [if_pos hempty]
    rfl
  · rw [if_neg hempty] at hlen ⊢
    obtain ⟨z, hzero, hread⟩ := visitsAll_read [] w [] rfl hz hq hnul
      (hlen w List.mem_cons_self)
    rw [hread, visitsFrom_part (x := w) (z := z) hw hnul hzero rfl]
    rfl

/-- Line by line the array always has a zero byte. -/
theorem terminated_lines : ∀ (n : Nat) {b : Str} {s : Session}, b.length ≤ n → '\x00' ∉ b →
    (∀ l ∈ lineReads b, l.length < buffSize) → Zero s.buff → s.quit = false →
    Turn.unterminated ∉ s.turns (lineReads b) := by
  intro n
  induction n with
  | zero =>
      intro b s hb _ _ _ _ hmem
      rw [List.eq_nil_of_length_eq_zero (Nat.le_zero.mp hb)] at hmem
      cases hmem
  | succ n ih =>
      intro b s hb hnul hlen hz hq hmem
      rcases line_or_part b with hpart | ⟨l, b, rfl, hl⟩
      · rw [turns, visitsAll_part hpart hnul hlen hz hq] at hmem
        cases hmem
      · rw [lineReads_line hl] at hlen hmem
        rw [List.mem_append, not_or] at hnul
        obtain ⟨i, -, hi⟩ := hl.firstIdx []
        obtain ⟨z, z', -, hz', hvisits⟩ := visitsAll_line (lineReads b) hl hnul.1
          (hlen l List.mem_cons_self) hz hq
        rw [turns, hvisits, List.map_cons] at hmem
        cases ht : (s.load (l ++ z)).line l.length with
        | none => simp [Visit.turn, ht] at hmem
        | some t =>
            simp only [Visit.turn, ht, Option.elim_some, List.mem_cons, reduceCtorEq,
              false_or] at hmem
            split at hmem
            · cases hmem
            · rename_i hrun
              rw [List.length_append] at hb
              exact ih (by omega) hnul.2 (fun l hl => hlen l (List.mem_cons_of_mem _ hl)) hz'
                (by simpa using hrun) hmem

/-- A session `s` with the text `w` in its buffer, and one that has nothing in it. -/
structure Beside (s s' : Session) (w : Str) : Prop where
  same : s'.load [] = s.load []
  buff : ∃ z, Zero z ∧ s.buff = w ++ z
  empty : Zero s'.buff
  quit : s.quit = false

theorem Beside.quit' {s s' : Session} {w : Str} (h : s.Beside s' w) : s'.quit = false :=
  (congrArg Session.quit h.same).trans h.quit

/-- A stream without zero bytes whose lines fit into the array. -/
structure Fits (b : Str) : Prop where
  noNul : '\x00' ∉ b
  short : ∀ l ∈ lineReads b, l.length < buffSize

theorem Fits.line {l b : Str} (h : Fits (l ++ b)) (hl : IsLine l) :
    '\x00' ∉ l ∧ l.length < buffSize ∧ Fits b := by
  have hshort := h.short
  rw [lineReads_line hl] at hshort
  have hnul := h.noNul
  rw [List.mem_append, not_or] at hnul
  exact ⟨hnul.1, hshort l List.mem_cons_self, hnul.2,
    fun l' hl' => hshort l' (List.mem_cons_of_mem _ hl')⟩

/-- A line does in the session what it does alone in the one beside it, if it finds its own. -/
theorem Beside.turn_iff {l x z z' : Str} (hs : s.Beside s' (l ++ x))
    (hbuff : s.buff = l ++ (x ++ z))
    (hfronts : Fronts l x z z') : (Visit.line s l.length).turn
      = (Visit.line (s'.load (l ++ z')) l.length).turn ↔ (Visit.line s l.length).Own := by
  have hlong : s.load (l ++ (x ++ z)) = s := by
    rw [← hbuff]
    rfl
  have hshort : s.load (l ++ z') = s'.load (l ++ z') := congrArg (·.load (l ++ z')) hs.same.symm
  have hiff := hfronts.turn_iff (u := s)
  rwa [hlong, hshort] at hiff

/-- Lines that do the same fail both, or leave the same session but for the buffer. -/
theorem done_of_turn {o o' : Option Session} (h : (o.elim .fails fun t => Turn.done (t.load []))
      = o'.elim .fails fun t => .done (t.load [])) :
    o = none ∧ o' = none ∨ ∃ t t', o = some t ∧ o' = some t' ∧ t.load [] = t'.load [] := by
  cases o with
  | none =>
      cases o' with
      | none => exact Or.inl ⟨rfl, rfl⟩
      | some t' => cases h
  | some t =>
      cases o' with
      | none => cases h
      | some t' => exact Or.inr ⟨t, t', rfl, rfl, Turn.done.inj h⟩

/-- The lines in the buffer, and what comes behind them. -/
theorem visitsFrom_iff {b : Str} {reads : List Str}
    (ih : ∀ {s s' : Session} {w : Str}, s.Beside s' w → ¬ crlf <:+: w → Fits (w ++ b) →
      (s.turns reads = s'.turns (lineReads (w ++ b)) ↔ ∀ v ∈ s.visitsAll reads, v.Own)) :
    ∀ (fuel : Nat) {s s' : Session} {x : Str}, x.length ≤ fuel → s.Beside s' x → Fits (x ++ b) →
      ((visitsFrom fuel s reads).map Visit.turn = s'.turns (lineReads (x ++ b)) ↔
        ∀ v ∈ visitsFrom fuel s reads, v.Own) := by
  intro fuel
  induction fuel with
  | zero =>
      intro s s' x hx hs hfits
      obtain rfl := List.eq_nil_of_length_eq_zero (Nat.le_zero.mp hx)
      exact ih hs (by decide) hfits
  | succ fuel hrec =>
      intro s s' x hx hs hfits
      obtain ⟨z, hz, hbuff⟩ := hs.buff
      rcases line_or_part x with hpart | ⟨l, x, rfl, hl⟩
      · -- no line is left in what was read, so the next read joins it
        have hnul : '\x00' ∉ x := fun hm => hfits.noNul (List.mem_append_left _ hm)
        rw [visitsFrom_part hpart hnul hz hbuff]
        exact ih hs hpart hfits
      · rw [List.append_assoc] at hbuff hfits ⊢
        obtain ⟨hlnul, hlen, hrest⟩ := hfits.line hl
        have hnul : '\x00' ∉ l ++ x := by
          rw [List.mem_append, not_or]
          exact ⟨hlnul, fun hm => hrest.noNul (List.mem_append_left _ hm)⟩
        obtain ⟨z1, z2, hz1, hz2, hvisits⟩ := visitsAll_line (lineReads (x ++ b)) hl hlnul hlen
          hs.empty hs.quit'
        rw [turns, lineReads_line hl, hvisits,
          visitsFrom_line reads hl hnul hz hbuff, List.map_cons, List.map_cons, List.cons_eq_cons,
          List.forall_mem_cons, ← hs.turn_iff hbuff ⟨hl, hnul, hz, hz1⟩]
        -- the first turn is the same, so the two sessions stand beside each other again
        refine and_congr_right fun hhead => ?_
        rcases done_of_turn hhead with ⟨ht, ht'⟩ | ⟨t, t', ht, ht', hsame⟩
        · rw [ht, ht']
          exact iff_of_true rfl fun v hv => absurd hv List.not_mem_nil
        · have hquit : (t.load []).quit = (t'.load []).quit := congrArg Session.quit hsame
          rw [ht, ht', Option.elim_some, Option.elim_some, show t'.quit = t.quit from hquit.symm]
          by_cases hq : t.quit = true
          · rw [if_pos hq, if_pos hq]
            exact iff_of_true rfl fun v hv => absurd hv List.not_mem_nil
          · rw [if_neg hq, if_neg hq]
            obtain ⟨z3, hz3, hclear⟩ := clearBuffer_eq hnul hz
            have hbuff' : clearBuffer t.buff l.length = x ++ z3 := by
              rw [(line_cases ht).1, hbuff]
              exact hclear
            obtain ⟨i, -, hi⟩ := hl.firstIdx []
            rw [List.length_append] at hx
            refine hrec (by omega) ⟨hsame.symm, ⟨z3, hz3, hbuff'⟩, hz2, ?_⟩ hrest
            simpa using hq

/-- **From any point on**: a session goes on as it does line by line, if it finds its own. -/
theorem turns_iff : ∀ (reads : List Str) {s s' : Session} {w : Str}, s.Beside s' w →
    ¬ crlf <:+: w → Fits (w ++ reads.flatten) →
    (s.turns reads = s'.turns (lineReads (w ++ reads.flatten)) ↔
      ∀ v ∈ s.visitsAll reads, v.Own) := by
  intro reads
  induction reads with
  | nil =>
      intro s s' w hs hw hfits
      rw [List.flatten_nil, List.append_nil] at hfits ⊢
      refine iff_of_true ?_ fun v hv => absurd hv List.not_mem_nil
      rw [turns, turns, visitsAll_part hw hfits.noNul hfits.short hs.empty hs.quit']
      rfl
  | cons bytes reads ih =>
      intro s s' w hs hw hfits
      obtain ⟨z, hz, hbuff⟩ := hs.buff
      rw [List.flatten_cons, ← List.append_assoc] at hfits ⊢
      have hnul : '\x00' ∉ w ++ bytes := fun hm => hfits.noNul (List.mem_append_left _ hm)
      by_cases hlen : (w ++ bytes).length < buffSize
      · obtain ⟨z', hz', hread⟩ := visitsAll_read _ _ reads hbuff hz hs.quit hnul hlen
        rw [turns, hread]
        exact visitsFrom_iff ih _ (Nat.le_refl _)
          ⟨hs.same, ⟨z', hz', rfl⟩, hs.empty, hs.quit⟩ hfits
      · -- the array is full, which does not happen line by line
        have hfull := visitsAll_full reads hbuff hz hs.quit hnul hlen
        have hlines := terminated_lines _ (Nat.le_refl _) hfits.noNul hfits.short hs.empty hs.quit'
        rw [turns, hfull]
        refine iff_of_false (fun he => hlines ?_) fun hall => hall _ List.mem_cons_self
        rw [← he]
        exact List.mem_cons_self

/-- The turns of a session end where its reads leave it. -/
theorem drain_turns : ∀ (fuel : Nat) {s : Session}, drain fuel s = some t →
    ((visits fuel s).map Visit.turn).getLastD (.done (s.load [])) = .done (t.load []) := by
  intro fuel
  induction fuel with
  | zero =>
      intro s h
      cases h
      rfl
  | succ fuel ih =>
      intro s h
      cases hi : Lib.firstIdx crlf (cstr s.buff) with
      | none =>
          simp only [drain, hi, Option.some.injEq] at h
          subst h
          simp only [visits, hi]
          rfl
      | some i =>
          rw [drain_line hi] at h
          obtain ⟨u, hu, h⟩ := Option.bind_eq_some_iff.mp h
          simp only [visits, hi, hu, List.map_cons, List.getLastD_cons, Visit.turn,
            Option.elim_some]
          split at h
          · rename_i hq
            cases h
            rw [if_pos hq]
            rfl
          · rename_i hq
            rw [if_neg hq]
            exact ih h

theorem readAll_turns {reads : List Str} {s : Session} (h : s.readAll reads = some t) :
    (s.turns reads).getLastD (.done (s.load [])) = .done (t.load []) := by
  induction reads generalizing s with
  | nil =>
      cases h
      rfl
  | cons bytes reads ih =>
      obtain ⟨u, hu, hrest⟩ := Option.bind_eq_some_iff.mp h
      have hlater := ih hrest
      have hfits : s.quit = false ∧ (cstr s.buff).length + bytes.length ≤ buffSize ∧
          (cstr (fill s.buff bytes)).length < buffSize := by
        by_contra hnot
        have hnone : s.read bytes = none := if_neg hnot
        rw [hu] at hnone
        cases hnone
      have hdrain : drain (cstr (fill s.buff bytes)).length (s.load (fill s.buff bytes)) = some u :=
        (if_pos hfits).symm.trans hu
      have hfirst := drain_turns _ hdrain
      rw [turns, visitsAll, hfits.1, if_neg (by decide), if_pos hfits.2.2, hu, List.map_append,
        Option.elim_some]
      rw [turns] at hlater
      cases hv : (u.visitsAll reads).map Visit.turn with
      | nil =>
          rw [hv] at hlater
          rw [List.append_nil, ← hlater]
          exact hfirst
      | cons v vs =>
          rw [hv] at hlater
          rw [← hlater]
          simp [List.getLast?_cons]

end Runs

end Session

/-- **A session goes as it does line by line** exactly if at each of its lines it finds its own. -/
theorem sameTurns_iff {reads : List Str} (hnul : '\x00' ∉ reads.flatten)
    (hshort : ∀ l ∈ lineReads reads.flatten, l.length < buffSize) :
    Session.turns {} reads = Session.turns {} (lineReads reads.flatten) ↔
      ∀ v ∈ Session.visitsAll {} reads, v.Own :=
  Session.turns_iff reads (w := [])
    ⟨rfl, ⟨[], Session.zero_nil, rfl⟩, fun _ hc => absurd hc List.not_mem_nil, rfl⟩
    (by decide) ⟨hnul, hshort⟩

instance : DecidablePred Visit.Own
  | .line s end' => decidable_of_iff
      ((s.state = 4 → s.buff.take end' = dotCrlf → cstr s.buff = dotCrlf) ∧
        s.mailboxIn (cstr s.buff) = s.mailboxIn (s.buff.take end'))
      ⟨fun h => ⟨h.1, h.2⟩, fun h => ⟨h.dot, h.mailbox⟩⟩
  | .unterminated => .isFalse id

/-- Commands sent ahead, and a cut within one of them. -/
def sentAhead : List Str :=
  ["HELO x\r\nMA".toList,
   "IL FROM:<bob@localhost>\r\nRCPT TO:<amy@localhost>\r\nDATA\r\nSubject: x\r\nhi\r\n".toList,
   ".\r\n".toList, "QUIT\r\n".toList]

theorem sentAhead_same :
    Session.turns {} sentAhead = Session.turns {} (lineReads sentAhead.flatten) :=
  (sameTurns_iff (by decide) (by decide +kernel)).mpr (by decide +kernel)

/-- The state behind a line. -/
def Turn.state : Turn → Option Nat
  | .done s => some s.state
  | .fails | .unterminated => none

/-- The end of the message comes with the next command. -/
def dotAhead : List Str :=
  ["HELO x\r\n".toList, "MAIL FROM:<bob@localhost>\r\n".toList,
    "RCPT TO:<amy@localhost>\r\n".toList,
   "DATA\r\n".toList, "Subject: x\r\n".toList, ".\r\nQUIT\r\n".toList]

/-- Then the dot and the command become part of the message, which does not end. -/
theorem dotAhead_differs : (Session.readAll {} dotAhead).isSome = true ∧
    '\x00' ∉ dotAhead.flatten ∧ (∀ l ∈ lineReads dotAhead.flatten, l.length < buffSize) ∧
    Session.turns {} dotAhead ≠ Session.turns {} (lineReads dotAhead.flatten) := by
  refine ⟨by decide +kernel, by decide, by decide +kernel, fun he => ?_⟩
  have hstates : (Session.turns {} dotAhead).map Turn.state = [1, 2, 3, 4, 4, 4, 4].map some := by
    decide +kernel
  have hlines : (Session.turns {} (lineReads dotAhead.flatten)).map Turn.state
      = [1, 2, 3, 4, 4, 5, 6].map some := by decide +kernel
  rw [he, hlines] at hstates
  exact absurd hstates (by decide)

end PennCloud
