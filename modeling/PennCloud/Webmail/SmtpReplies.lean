import PennCloud.Lib.Runs
import PennCloud.Webmail.Delivery
import PennCloud.Webmail.Packets

/-!
# One reply to a command

A client that sends a line and waits counts on one reply to each command, and on
an error reply that has changed nothing. The handlers of `MAIL` and `RCPT` go on
behind their syntax error, and so does the end of a message without a subject:
the client gets a second reply, and the command may be carried out all the same.
`Session.Hears` says for which lines this does not happen, and `oneReply_run` that a
session answers as it should as long as it gets no others.
-/

namespace PennCloud

open Str

def mailboxNA : Str := "550 Requested action not taken: mailbox unavailable\r\n".toList

/--
A line that a client sends in one write, and what `ask_master` answers about the
recipients of a message while the line is handled. The data servers take the mails.
-/
structure ClientLine where
  bytes : Str
  node : Str → Str
  isLine : IsLine bytes

/-- The loop over the recipients has no node to deliver to. -/
def ClientLine.unknown (l : ClientLine) (rcpt : Str) : Bool :=
  isLocal rcpt && l.node rcpt == "NULL".toList

/-- What is written back while a message is delivered. -/
def Handled.refusals (l : ClientLine) : Handled → List Str
  | .mail _ rcpts _ => (rcpts.filter l.unknown).map fun _ => mailboxNA
  | _ => []

/-- The line holds a mailbox that `parse_mailbox` has room for. -/
def Bracketed (line m : Str) : Prop :=
  ∃ a b, line = a ++ '<' :: (m ++ '>' :: b) ∧ '<' ∉ a ∧ '>' ∉ m ∧ m.length < mailboxSize

namespace Session

/-- One turn of the session, for a line that comes in one read. -/
def turn (s : Session) (l : ClientLine) : Option Session := s.read l.bytes

/-- What is written back between two states; refusals come before the reply to the dot line. -/
def answers (l : ClientLine) (s t : Session) : List Str :=
  let new := t.replies.drop s.replies.length
  new.dropLast ++ (t.handled.drop s.handled.length).flatMap (Handled.refusals l) ++
    new.drop (new.length - 1)

/-- The line is text of a message. -/
def TakesText (s : Session) (l : ClientLine) : Prop := s.state = 4 ∧ l.bytes ≠ dotCrlf

/-- The codes of the errors a client makes. -/
def errorCodes : List Str := ["500".toList, "501".toList, "503".toList]

/-- The commands that have to do with a message. -/
def mailCmds : List Str :=
  ["helo ".toList, "mail ".toList, "rcpt ".toList, "rset\r".toList, "data\r".toList]

/-- The line is one of these commands. -/
def TakesMailCmd (s : Session) (l : ClientLine) : Prop :=
  s.state ≠ 4 ∧ ∃ c ∈ mailCmds, sameCase (l.bytes.take cmdSize) c = true

/-- A command has no effect on the message. -/
structure SameMail (s t : Session) : Prop where
  state : t.state = s.state
  sender : t.sender = s.sender
  rcpts : t.rcpts = s.rcpts
  data : t.data = s.data

/-- **The line is answered once**, or not at all if it is text, and an error leaves the message
as it was. -/
def OneReply (s : Session) (l : ClientLine) : Prop :=
  s.quit = false → ∃ t, s.turn l = some t ∧
    (s.TakesText l → answers l s t = []) ∧
    (¬ s.TakesText l → (answers l s t).length = 1) ∧
    (s.TakesMailCmd l → ∀ r ∈ answers l s t, r.take 3 ∈ errorCodes → s.SameMail t)

/-- The handlers find nothing wrong with the line that they do not stop at. -/
def Heeds (s : Session) (l : ClientLine) : Prop :=
  let command := l.bytes.take cmdSize
  if s.state = 4 then l.bytes = dotCrlf →
    subjectMark <:+: s.data ∧ ∀ r ∈ s.rcpts.toList, l.unknown r = false
  else if sameCase command "mail ".toList then
    sameCase ((l.bytes.drop cmdSize).take 5) "from:".toList = true ∧
      (s.state = 1 → ∃ m, Bracketed l.bytes m ∧ '@' ∈ m)
  else if sameCase command "rcpt ".toList then
    sameCase ((l.bytes.drop cmdSize).take 3) "to:".toList = true ∧
      (s.state = 2 ∨ s.state = 3 → ∃ m, Bracketed l.bytes m)
  else True

end Session

/-! ## What the handlers look for -/

/-- **`parse_mailbox` takes what is in brackets.** -/
theorem parseMailbox_iff {line m : Str} (hnul : '\x00' ∉ line) :
    parseMailbox line = some m ↔ Bracketed line m := by
  constructor
  · intro h
    obtain ⟨i, hi, h⟩ := Option.bind_eq_some_iff.mp h
    obtain ⟨j, hj, h⟩ := Option.bind_eq_some_iff.mp h
    obtain ⟨a, c, hline, rfl⟩ := Lib.firstIdx_split hi
    have hdrop : line.drop (a.length + 1) = c := by
      rw [hline, List.append_assoc, List.drop_length_add_append]
      rfl
    rw [hdrop] at hj h
    obtain ⟨x, b, hc, rfl⟩ := Lib.firstIdx_split hj
    have htake : c.take x.length = x := by
      rw [hc, List.append_assoc, List.take_left]
    rw [htake] at h
    split at h
    · rename_i hshort
      have hx : '\x00' ∉ x := fun hmem => hnul (by rw [hline, hc]; simp [hmem])
      rw [cstr_eq hx] at h
      cases h
      have ha : '<' ∉ a := fun hmem => by
        have hnot := Lib.not_infix_take hi (by simp)
        rw [hline, List.append_assoc, List.take_left] at hnot
        exact hnot ((List.singleton_infix_iff _ _).mpr hmem)
      have hm : '>' ∉ m := fun hmem => by
        have hnot := Lib.not_infix_take hj (by simp)
        rw [htake] at hnot
        exact hnot ((List.singleton_infix_iff _ _).mpr hmem)
      exact ⟨a, b, by rw [hline, hc]; simp, ha, hm, hshort⟩
    · cases h
  · rintro ⟨a, b, rfl, ha, hm, hshort⟩
    have hdrop : (a ++ '<' :: (m ++ '>' :: b)).drop (a.length + 1) = m ++ '>' :: b := by
      rw [List.drop_length_add_append]
      rfl
    have hmnul : '\x00' ∉ m := fun hmem => hnul (by simp [hmem])
    rw [parseMailbox, Lib.firstIdx_sep _ ha, Option.bind_some, hdrop, Lib.firstIdx_sep _ hm,
      Option.bind_some, if_pos hshort, List.take_left, cstr_eq hmnul]

/-- `find_last_of` finds an `@` that is there. -/
theorem exists_fromLastAt {m : Str} : (∃ found, fromLastAt m = some found) ↔ '@' ∈ m := by
  rw [fromLastAt]
  split
  · rename_i hat
    exact iff_of_true ⟨_, rfl⟩ hat
  · rename_i hat
    refine iff_of_false ?_ hat
    rintro ⟨found, h⟩
    cases h

/-- A text with a subject mark has a title. -/
theorem mailTitle_subject {data : Str} (h : subjectMark <:+: data) :
    ∃ title, mailTitle data = some title := by
  obtain ⟨i, hi⟩ := Lib.firstIdx_isSome h
  obtain ⟨a, b, hdata, rfl⟩ := Lib.firstIdx_split hi
  have hlen : ¬ (data.length : Int) < data.find subjectMark + 9 := by
    have hmark : subjectMark.length = 9 := by decide
    rw [find_of_firstIdx hi, hdata, List.length_append, List.length_append, hmark]
    omega
  exact ⟨_, if_neg hlen⟩

namespace Session

variable {s t u : Session} {l : ClientLine}

theorem expect_true (s : Session) (text : Str) : s.expect true text = s := rfl

theorem expect_false (s : Session) (text : Str) : s.expect false text = s.reply text := rfl

/-- What a command writes back is what it adds to the replies. -/
theorem answers_of {rs : List Str} (hreplies : t.replies = s.replies ++ rs)
    (hhandled : ∀ x ∈ t.handled.drop s.handled.length, x.refusals l = []) :
    answers l s t = rs := by
  have hnone : (t.handled.drop s.handled.length).flatMap (Handled.refusals l) = [] :=
    List.flatMap_eq_nil_iff.mpr hhandled
  have hnew : t.replies.drop s.replies.length = rs := by rw [hreplies, List.drop_left]
  rw [answers, hnone, hnew, List.append_nil, List.dropLast_eq_take, List.take_append_drop]

/-! ## A command -/

/-- The session when a handler gets the line, zeros behind it. -/
def atCommand (s : Session) (l : ClientLine) (z : Str) : Session :=
  Session.load { s with handled := s.handled ++ [.command l.bytes] } (l.bytes ++ z)

/-- And when the line is done. -/
def cleared (z : Str) (t : Session) : Session := if t.quit then t else t.load z

/-- A handler comes back, having written `rs`. -/
structure Returns (s : Session) (l : ClientLine) (t : Session) (rs : List Str) : Prop where
  replies : t.replies = s.replies ++ rs
  handled : t.handled = s.handled ++ [.command l.bytes]

theorem Returns.cleared {rs : List Str} (h : s.Returns l t rs) (z : Str) :
    s.Returns l (cleared z t) rs := by
  unfold Session.cleared
  split
  · exact h
  · exact ⟨h.replies, h.handled⟩

theorem Returns.answers {rs : List Str} (h : s.Returns l t rs) : answers l s t = rs := by
  refine answers_of h.replies fun x hx => ?_
  rw [h.handled, List.drop_left, List.mem_singleton] at hx
  rw [hx]
  rfl

theorem SameMail.cleared (h : s.SameMail t) (z : Str) : s.SameMail (cleared z t) := by
  unfold Session.cleared
  split
  · exact h
  · exact ⟨h.state, h.sender, h.rcpts, h.data⟩

/-- One reply, and no effect if it is an error. -/
theorem oneReply_of_returns {z r : Str} {o : Option Session} (hturn : s.turn l = o.map (cleared z))
    (hstate : s.state ≠ 4) (ho : o = some t) (h : s.Returns l t [r])
    (hsame : r.take 3 ∈ errorCodes → s.SameMail t) : s.OneReply l := by
  rw [ho, Option.map_some] at hturn
  have hanswers := (h.cleared z).answers
  refine fun _ => ⟨_, hturn, fun htext => absurd htext.1 hstate, fun _ => ?_, fun _ x hx herr => ?_⟩
  · rw [hanswers]
    rfl
  · rw [hanswers, List.mem_singleton] at hx
    exact (hsame (hx ▸ herr)).cleared z

/-- A handler that comes back with two replies, or not at all. -/
theorem not_oneReply {z : Str} {o : Option Session} (hturn : s.turn l = o.map (cleared z))
    (hquit : s.quit = false) (hstate : s.state ≠ 4)
    (h : ∀ t, o = some t → ∃ a b, s.Returns l t [a, b]) : ¬ s.OneReply l := by
  intro hone
  obtain ⟨v, hv, -, hcount, -⟩ := hone hquit
  obtain ⟨t, ho, rfl⟩ := Option.map_eq_some_iff.mp (hturn.symm.trans hv)
  obtain ⟨a, b, hreturns⟩ := h t ho
  have hlen := hcount fun htext => hstate htext.1
  rw [(hreturns.cleared z).answers] at hlen
  exact absurd hlen (by simp)

section Commands

variable {z z' : Str}

/-- A handler that has changed nothing when it replies. -/
theorem oneReply_of_reply {r : Str} {o : Option Session} (hturn : s.turn l = o.map (cleared z'))
    (hstate : s.state ≠ 4) (ho : o = some ((s.atCommand l z).reply r)) : s.OneReply l :=
  oneReply_of_returns hturn hstate ho ⟨rfl, rfl⟩ fun _ => ⟨rfl, rfl, rfl, rfl⟩

/-- A handler that goes on behind its syntax error replies twice. -/
theorem Returns.twice {r : Str} (hreplies : t.replies
      = ((s.atCommand l z).expect false unknownCmd).replies ++ [r])
    (hhandled : t.handled = s.handled ++ [.command l.bytes]) : s.Returns l t [unknownCmd, r] := by
  refine ⟨hreplies.trans ?_, hhandled⟩
  rw [expect_false]
  exact List.append_assoc ..

/-- Out of sequence it is the syntax that counts. -/
theorem oneReply_refused_iff {ok : Bool} {o : Option Session}
    (hturn : s.turn l = o.map (cleared z'))
    (hquit : s.quit = false) (hstate : s.state ≠ 4)
    (ho : o = some (((s.atCommand l z).expect ok unknownCmd).reply badSeq)) :
    s.OneReply l ↔ ok = true := by
  cases ok with
  | false =>
      refine iff_of_false (not_oneReply hturn hquit hstate fun t ht => ?_) Bool.false_ne_true
      obtain rfl := Option.some.inj (ho.symm.trans ht)
      exact ⟨unknownCmd, badSeq, .twice rfl rfl⟩
  | true => exact iff_of_true (oneReply_of_reply hturn hstate ho) rfl

/-- `MAIL` in state 1 needs a mailbox with an `@` besides. -/
theorem oneReply_from_found {ok : Bool} {o : Option Session} (hturn : s.turn l = o.map (cleared z'))
    (hquit : s.quit = false) (hstate : s.state ≠ 4) (hnul : '\x00' ∉ l.bytes)
    (ho : o = (parseMailbox l.bytes).bind fun m => (fromLastAt m).map fun found =>
      let v := (s.atCommand l z).expect ok unknownCmd
      if found.take 10 ≠ "@localhost".toList then v.reply syntaxErr
      else { v with state := 2, sender := m }.reply mailOK) :
    s.OneReply l ↔ ok = true ∧ ∃ m, Bracketed l.bytes m ∧ '@' ∈ m := by
  cases ok with
  | false =>
      refine iff_of_false (not_oneReply hturn hquit hstate fun t ht => ?_) fun h => by cases h.1
      obtain ⟨m, -, ht⟩ := Option.bind_eq_some_iff.mp (ho.symm.trans ht)
      obtain ⟨found, -, rfl⟩ := Option.map_eq_some_iff.mp ht
      dsimp only
      split
      · exact ⟨unknownCmd, syntaxErr, .twice rfl rfl⟩
      · exact ⟨unknownCmd, mailOK, .twice rfl rfl⟩
  | true =>
      constructor
      · intro h
        refine ⟨rfl, ?_⟩
        by_contra hnone
        refine not_oneReply hturn hquit hstate (fun t ht => ?_) h
        obtain ⟨m, hm, ht⟩ := Option.bind_eq_some_iff.mp (ho.symm.trans ht)
        obtain ⟨found, hfound, -⟩ := Option.map_eq_some_iff.mp ht
        have hat : '@' ∈ m := exists_fromLastAt.mp ⟨found, hfound⟩
        exact absurd ⟨m, (parseMailbox_iff hnul).mp hm, hat⟩ hnone
      · rintro ⟨-, m, hm, hat⟩
        obtain ⟨found, hfound⟩ := exists_fromLastAt.mpr hat
        rw [(parseMailbox_iff hnul).mpr hm, Option.bind_some, hfound, Option.map_some] at ho
        dsimp only [expect_true] at ho
        split at ho
        · exact oneReply_of_reply hturn hstate ho
        · exact oneReply_of_returns hturn hstate ho ⟨rfl, rfl⟩ fun herr => absurd herr (by decide)

/-- `RCPT` in state 2 or 3 needs a mailbox besides. -/
theorem oneReply_to_found {ok : Bool} {o : Option Session} (hturn : s.turn l = o.map (cleared z'))
    (hquit : s.quit = false) (hstate : s.state ≠ 4) (hnul : '\x00' ∉ l.bytes)
    (ho : o = (parseMailbox l.bytes).map fun m =>
      let v := (s.atCommand l z).expect ok unknownCmd
      { v with state := 3, rcpts := v.rcpts.insert m }.reply mailOK) :
    s.OneReply l ↔ ok = true ∧ ∃ m, Bracketed l.bytes m := by
  cases ok with
  | false =>
      refine iff_of_false (not_oneReply hturn hquit hstate fun t ht => ?_) fun h => by cases h.1
      obtain ⟨m, -, rfl⟩ := Option.map_eq_some_iff.mp (ho.symm.trans ht)
      exact ⟨unknownCmd, mailOK, .twice rfl rfl⟩
  | true =>
      constructor
      · intro h
        refine ⟨rfl, ?_⟩
        by_contra hnone
        refine not_oneReply hturn hquit hstate (fun t ht => ?_) h
        obtain ⟨m, hm, -⟩ := Option.map_eq_some_iff.mp (ho.symm.trans ht)
        exact absurd ⟨m, (parseMailbox_iff hnul).mp hm⟩ hnone
      · rintro ⟨-, m, hm⟩
        rw [(parseMailbox_iff hnul).mpr hm, Option.map_some] at ho
        exact oneReply_of_returns hturn hstate ho ⟨rfl, rfl⟩ fun herr => absurd herr (by decide)

theorem oneReply_from_iff (hturn : s.turn l = (s.atCommand l z).handleFrom.map (cleared z'))
    (hquit : s.quit = false) (hstate : s.state ≠ 4) (hz : Zero z) (hnul : '\x00' ∉ l.bytes) :
    s.OneReply l ↔ sameCase ((l.bytes.drop cmdSize).take 5) "from:".toList = true ∧
      (s.state = 1 → ∃ m, Bracketed l.bytes m ∧ '@' ∈ m) := by
  have hcstr : cstr (s.atCommand l z).buff = l.bytes := cstr_row hnul hz
  have hparse : parseMailbox (s.atCommand l z).buff = parseMailbox l.bytes := parseMailbox_zero hz
  by_cases hone : s.state = 1
  · have hfound := handleFrom_found (u := s.atCommand l z) hone
    rw [hcstr, hparse] at hfound
    rw [oneReply_from_found hturn hquit hstate hnul hfound]
    exact and_congr_right fun _ => (imp_iff_right hone).symm
  · have hrefused := handleFrom_refused (u := s.atCommand l z) hone
    rw [hcstr] at hrefused
    rw [oneReply_refused_iff hturn hquit hstate hrefused]
    exact ⟨fun h => ⟨h, fun hstate => absurd hstate hone⟩, And.left⟩

theorem oneReply_to_iff (hturn : s.turn l = (s.atCommand l z).handleTo.map (cleared z'))
    (hquit : s.quit = false) (hstate : s.state ≠ 4) (hz : Zero z) (hnul : '\x00' ∉ l.bytes) :
    s.OneReply l ↔ sameCase ((l.bytes.drop cmdSize).take 3) "to:".toList = true ∧
      (s.state = 2 ∨ s.state = 3 → ∃ m, Bracketed l.bytes m) := by
  have hcstr : cstr (s.atCommand l z).buff = l.bytes := cstr_row hnul hz
  have hparse : parseMailbox (s.atCommand l z).buff = parseMailbox l.bytes := parseMailbox_zero hz
  by_cases htwo : s.state = 2 ∨ s.state = 3
  · have hfound := handleTo_found (u := s.atCommand l z) htwo
    rw [hcstr, hparse] at hfound
    rw [oneReply_to_found hturn hquit hstate hnul hfound]
    exact and_congr_right fun _ => (imp_iff_right htwo).symm
  · have hrefused := handleTo_refused (u := s.atCommand l z) htwo
    rw [hcstr] at hrefused
    rw [oneReply_refused_iff hturn hquit hstate hrefused]
    exact ⟨fun h => ⟨h, fun hstate => absurd hstate htwo⟩, And.left⟩

theorem heeds_from (hstate : s.state ≠ 4)
    (hmail : sameCase (l.bytes.take cmdSize) "mail ".toList = true) :
    s.Heeds l ↔ sameCase ((l.bytes.drop cmdSize).take 5) "from:".toList = true ∧
      (s.state = 1 → ∃ m, Bracketed l.bytes m ∧ '@' ∈ m) := by
  simp only [Heeds, if_neg hstate, hmail, if_true]

theorem heeds_to (hstate : s.state ≠ 4)
    (hrcpt : sameCase (l.bytes.take cmdSize) "rcpt ".toList = true) :
    s.Heeds l ↔ sameCase ((l.bytes.drop cmdSize).take 3) "to:".toList = true ∧
      (s.state = 2 ∨ s.state = 3 → ∃ m, Bracketed l.bytes m) := by
  have hmail := sameCase_other "mail ".toList hrcpt (by decide)
  simp only [Heeds, if_neg hstate, hmail, hrcpt, if_true, Bool.false_eq_true, if_false]

/-- The other commands have nothing to go wrong. -/
theorem heeds_other (hstate : s.state ≠ 4)
    (hmail : sameCase (l.bytes.take cmdSize) "mail ".toList = false)
    (hrcpt : sameCase (l.bytes.take cmdSize) "rcpt ".toList = false) : s.Heeds l := by
  simp only [Heeds, if_neg hstate, hmail, hrcpt, Bool.false_eq_true, if_false]

theorem heeds_keyword {kw : Str} (hstate : s.state ≠ 4)
    (hkw : sameCase (l.bytes.take cmdSize) kw = true) (hmail : sameCase kw "mail ".toList = false)
    (hrcpt : sameCase kw "rcpt ".toList = false) : s.Heeds l :=
  heeds_other hstate (sameCase_other _ hkw hmail) (sameCase_other _ hkw hrcpt)

theorem handleData_answer (u : Session) (b : Str) (end' : Nat) (h : u.state ≠ 4) :
    (u.load b).handleData end' = some ((u.load b).reply badSeq) ∨
    (u.load b).handleData end' = some ({ u.load b with state := 4 }.reply startMail) := by
  rw [handleData_command h]
  split
  · exact Or.inr rfl
  · exact Or.inl rfl

/-- `HELO` with a line break is long enough. -/
theorem handleHelo_answer (hlen : cmdSize < (cstr u.buff).length) : u.handleHelo =
    if u.state > 1 then u.reply badSeq else { u with state := 1 }.reply heloOK := by
  rw [handleHelo, decide_eq_true hlen, expect_true]

/-- **Outside the text** a line is answered once exactly if it heeds the handlers. -/
theorem oneReply_command_iff (hturn : s.turn l
      = ((s.load (l.bytes ++ z)).line l.bytes.length).map (cleared z'))
    (hquit : s.quit = false) (hstate : s.state ≠ 4) (hz : Zero z) (hrow : IsLine l.bytes)
    (hnul : '\x00' ∉ l.bytes) : s.OneReply l ↔ s.Heeds l := by
  rw [line_command hstate hnul hz rfl, load_note] at hturn
  dsimp only at hturn
  split at hturn
  · rename_i hdata
    refine iff_of_true ?_ (heeds_keyword hstate hdata (by decide) (by decide))
    rcases handleData_answer { s with handled := s.handled ++ [.command l.bytes] } (l.bytes ++ z)
      l.bytes.length hstate with h | h
    · exact oneReply_of_reply hturn hstate h
    · exact oneReply_of_returns hturn hstate h ⟨rfl, rfl⟩ fun herr => absurd herr (by decide)
  split at hturn
  · rename_i hhelo
    refine iff_of_true ?_ (heeds_keyword hstate hhelo (by decide) (by decide))
    have hlen : cmdSize < (cstr (s.atCommand l z).buff).length :=
      (cstr_row hnul hz).symm ▸ length_of_command hrow (by decide) rfl hhelo
    have hanswer := congrArg some (handleHelo_answer hlen)
    split at hanswer
    · exact oneReply_of_reply hturn hstate hanswer
    · exact oneReply_of_returns hturn hstate hanswer ⟨rfl, rfl⟩ fun herr => absurd herr (by decide)
  split at hturn
  · rename_i hmail
    rw [heeds_from hstate hmail]
    exact oneReply_from_iff hturn hquit hstate hz hnul
  split at hturn
  · rename_i hrcpt
    rw [heeds_to hstate hrcpt]
    exact oneReply_to_iff hturn hquit hstate hz hnul
  rename_i hmail hrcpt
  refine iff_of_true ?_ (heeds_other hstate ((Bool.not_eq_true _).mp hmail)
    ((Bool.not_eq_true _).mp hrcpt))
  split at hturn
  · by_cases hzero : s.state = 0
    · exact oneReply_of_reply (z := z) (r := badSeq) hturn hstate (congrArg some (if_pos hzero))
    · exact oneReply_of_returns (r := mailOK) hturn hstate (congrArg some (if_neg hzero)) ⟨rfl, rfl⟩
        fun herr => absurd herr (by decide)
  split at hturn
  · exact oneReply_of_reply (z := z) hturn hstate rfl
  split at hturn
  · exact oneReply_of_returns (r := serviceClose) hturn hstate rfl ⟨rfl, rfl⟩
      fun herr => absurd herr (by decide)
  · exact oneReply_of_reply (z := z) hturn hstate rfl

/-! ## The text of a message -/

/-- Text is collected without a word. -/
theorem oneReply_text (hturn : s.turn l = ((s.load (l.bytes ++ z)).handleData l.bytes.length).map
      (cleared z')) (hquit : s.quit = false) (hstate : s.state = 4) (hdot : l.bytes ≠ dotCrlf)
    (hz : Zero z) (hnul : '\x00' ∉ l.bytes) : s.OneReply l := by
  have hcstr : cstr (s.load (l.bytes ++ z)).buff ≠ dotCrlf := (cstr_row hnul hz).symm ▸ hdot
  rw [handleData_text (s := s.load (l.bytes ++ z)) hstate hcstr, Option.map_some] at hturn
  refine fun _ => ⟨_, hturn, fun _ => ?_, fun htext => absurd ⟨hstate, hdot⟩ htext,
    fun hcmd => absurd hstate hcmd.1⟩
  rw [cleared, if_neg (by simp [hquit])]
  refine answers_of (List.append_nil _).symm fun x hx => ?_
  simp only [load_handled, List.drop_left, List.mem_singleton] at hx
  rw [hx]
  rfl

/-- The replies to the dot line: one for a missing subject, and one for each mailbox that is
not there. -/
theorem answers_dot (fault : List Str) (hreplies : t.replies = s.replies ++ (fault ++ [mailOK]))
    (hhandled : t.handled = s.handled ++ [.mail s.sender s.rcpts.toList s.data]) :
    (answers l s t).length
      = fault.length + ((s.rcpts.toList.filter l.unknown).length + 1) := by
  have hnew : t.replies.drop s.replies.length = fault ++ [mailOK] := by
    rw [hreplies, List.drop_left]
  have hmail : t.handled.drop s.handled.length = [.mail s.sender s.rcpts.toList s.data] := by
    rw [hhandled, List.drop_left]
  rw [answers, hnew, hmail]
  simp [Handled.refusals]

/-- The session behind a dot line. -/
theorem turn_dot (hturn : s.turn l = ((s.load (l.bytes ++ z)).handleData l.bytes.length).map
      (cleared z')) (hstate : s.state = 4) (hdot : l.bytes = dotCrlf) (hz : Zero z)
    (hnul : '\x00' ∉ l.bytes) (ht : s.turn l = some t) :
    t.replies = (s.expect (s.data.find subjectMark ≠ npos) noSubject).replies ++ [mailOK] ∧
    t.handled = s.handled ++ [.mail s.sender s.rcpts.toList s.data] := by
  have hcstr : cstr (s.load (l.bytes ++ z)).buff = dotCrlf := (cstr_row hnul hz).trans hdot
  rw [handleData_over (s := s.load (l.bytes ++ z)) hstate hcstr, load_data, expect_load] at hturn
  obtain ⟨v, hv, rfl⟩ := Option.map_eq_some_iff.mp (hturn.symm.trans ht)
  obtain ⟨title, -, rfl⟩ := Option.map_eq_some_iff.mp hv
  unfold cleared
  split
  · exact ⟨rfl, rfl⟩
  · exact ⟨rfl, rfl⟩

theorem turn_dot_some {title : Str} (hturn : s.turn l
      = ((s.load (l.bytes ++ z)).handleData l.bytes.length).map (cleared z')) (hstate : s.state = 4)
    (hdot : l.bytes = dotCrlf) (hz : Zero z) (hnul : '\x00' ∉ l.bytes)
    (htitle : mailTitle s.data = some title) : ∃ t, s.turn l = some t := by
  have hcstr : cstr (s.load (l.bytes ++ z)).buff = dotCrlf := (cstr_row hnul hz).trans hdot
  have hdone : ∃ t, (s.load (l.bytes ++ z)).handleData l.bytes.length = some t :=
    handleData_dot hstate hcstr htitle
  obtain ⟨t, ht⟩ := hdone
  exact ⟨_, hturn.trans (congrArg (Option.map (cleared z')) ht)⟩

/-- **The dot line** is answered once if the message has a subject and all its mailboxes
are there. -/
theorem oneReply_dot_iff (hturn : s.turn l = ((s.load (l.bytes ++ z)).handleData l.bytes.length).map
      (cleared z')) (hquit : s.quit = false) (hstate : s.state = 4) (hdot : l.bytes = dotCrlf)
    (hz : Zero z) (hnul : '\x00' ∉ l.bytes) : s.OneReply l ↔
      subjectMark <:+: s.data ∧ ∀ r ∈ s.rcpts.toList, l.unknown r = false := by
  have hnot : ¬ s.TakesText l := fun htext => htext.2 hdot
  constructor
  · intro hone
    obtain ⟨t, ht, -, hcount, -⟩ := hone hquit
    obtain ⟨hreplies, hhandled⟩ := turn_dot hturn hstate hdot hz hnul ht
    by_cases hsubject : s.data.find subjectMark ≠ npos
    · rw [decide_eq_true hsubject, expect_true] at hreplies
      have hnone := (answers_dot [] hreplies hhandled).symm.trans (hcount hnot)
      rw [List.length_nil, Nat.zero_add, Nat.add_eq_right, List.length_eq_zero_iff,
        List.filter_eq_nil_iff] at hnone
      exact ⟨find_ne_npos.mp hsubject, fun r hr => (Bool.not_eq_true _).mp (hnone r hr)⟩
    · rw [decide_eq_false hsubject, expect_false, reply, List.append_assoc] at hreplies
      have htwo := (answers_dot [noSubject] hreplies hhandled).symm.trans (hcount hnot)
      rw [List.length_singleton] at htwo
      omega
  · rintro ⟨hsubject, hknown⟩
    obtain ⟨title, htitle⟩ := mailTitle_subject hsubject
    obtain ⟨t, ht⟩ := turn_dot_some hturn hstate hdot hz hnul htitle
    obtain ⟨hreplies, hhandled⟩ := turn_dot hturn hstate hdot hz hnul ht
    rw [decide_eq_true (find_ne_npos.mpr hsubject), expect_true] at hreplies
    refine fun _ => ⟨t, ht, fun htext => absurd htext hnot, fun _ => ?_,
      fun hcmd => absurd hstate hcmd.1⟩
    rw [answers_dot [] hreplies hhandled,
      List.filter_eq_nil_iff.mpr fun r hr => (Bool.not_eq_true _).mpr (hknown r hr)]
    rfl

end Commands

/-! ## Whole sessions -/

/-- The session waits for a line, or has ended. -/
def Open (s : Session) : Prop := s.quit = false → Zero s.buff

/-- A line that the session takes in and heeds. -/
def Hears (s : Session) (l : ClientLine) : Prop :=
  s.quit = false → '\x00' ∉ l.bytes ∧ l.bytes.length < buffSize ∧ s.Heeds l

/-- **A line without zero bytes** is answered once exactly if it is heard. -/
theorem oneReply_iff (hs : s.Open) (hnul : '\x00' ∉ l.bytes) : s.OneReply l ↔ s.Hears l := by
  cases hquit : s.quit with
  | true => exact iff_of_true (fun h => by simp [hquit] at h) fun h => by simp [hquit] at h
  | false =>
      have hwaits : s.Waits s.state := ⟨rfl, hquit, hs hquit⟩
      rcases Nat.lt_or_ge l.bytes.length buffSize with hlen | hlong
      · obtain ⟨z, z', hz, -, hturn⟩ := read_line hwaits l.isLine hnul hlen
        have hheeds : s.OneReply l ↔ s.Heeds l := by
          by_cases hstate : s.state = 4
          · rw [line_four (s := s.load (l.bytes ++ z)) hstate] at hturn
            simp only [Heeds, if_pos hstate]
            by_cases hdot : l.bytes = dotCrlf
            · rw [oneReply_dot_iff hturn hquit hstate hdot hz hnul]
              exact ⟨fun h _ => h, fun h => h hdot⟩
            · exact iff_of_true (oneReply_text hturn hquit hstate hdot hz hnul)
                fun h => absurd h hdot
          · exact oneReply_command_iff hturn hquit hstate hz l.isLine hnul
        exact hheeds.trans ⟨fun h _ => ⟨hnul, hlen, h⟩, fun h => (h hquit).2.2⟩
      · refine iff_of_false (fun hone => ?_) fun h => Nat.not_lt.mpr hlong (h hquit).2.1
        obtain ⟨t, ht, -⟩ := hone hquit
        rw [turn, read_long hwaits hnul hlong] at ht
        cases ht

/-- And the session waits again. -/
theorem open_turn (hs : s.Open) (h : s.Hears l) (ht : s.turn l = some t) : t.Open := by
  cases hquit : s.quit with
  | true => simp [turn, read, hquit] at ht
  | false =>
      have hwaits : s.Waits s.state := ⟨rfl, hquit, hs hquit⟩
      obtain ⟨hnul, hlen, -⟩ := h hquit
      obtain ⟨z, z', -, hz', hturn⟩ := read_line hwaits l.isLine hnul hlen
      obtain ⟨v, -, rfl⟩ := Option.map_eq_some_iff.mp (hturn.symm.trans ht)
      intro hopen
      split at hopen
      · rename_i hv
        exact absurd hopen (by simp [hv])
      · rename_i hv
        rw [if_neg hv]
        exact hz'

/--
**A session answers every line as it should** as long as it hears each of them;
and if no line has a zero byte, only then.
-/
theorem oneReply_run (lines : List ClientLine) :
    (Lib.Guarded turn Hears {} lines → Lib.Guarded turn OneReply {} lines) ∧
    ((∀ l ∈ lines, '\x00' ∉ l.bytes) →
      Lib.Guarded turn OneReply {} lines → Lib.Guarded turn Hears {} lines) := by
  have hopen : Open {} := fun _ c hc => absurd hc List.not_mem_nil
  constructor
  · refine Lib.Guarded.imp (fun s l _ hs h => ⟨fun hquit => ?_, fun t => open_turn hs h⟩) hopen
    exact (oneReply_iff hs (h hquit).1).mpr h hquit
  · refine fun hnul => Lib.Guarded.imp (fun s l hl hs h => ?_) hopen
    have hhears := (oneReply_iff hs (hnul l hl)).mp h
    exact ⟨hhears, fun t => open_turn hs hhears⟩

/-- `MAIL` with a slip in `FROM:`, behind `HELO`. -/
def slip : List ClientLine :=
  [⟨heloLine, fun _ => [], ⟨"HELO tester".toList, rfl, by decide⟩⟩,
    ⟨"MAIL FRM:<a@localhost>\r\n".toList, fun _ => [],
      ⟨"MAIL FRM:<a@localhost>".toList, rfl, by decide⟩⟩]

/-- The client is told 500 and 250 at once, and the sender is set. -/
theorem slip_twice : ¬ Lib.Guarded turn OneReply {} slip ∧
    (Lib.run turn {} slip).map (fun t => (t.replies.drop 2, t.state, t.sender))
      = some ([unknownCmd, mailOK], 2, "a@localhost".toList) := by
  refine ⟨fun h => ?_, by decide +kernel⟩
  have hstart : Waits {} 0 := ⟨rfl, rfl, zero_nil⟩
  obtain ⟨s, hs, hwaits, -⟩ := read_helo hstart
  have hone := (h.2 s hs).1
  have hclean : s.Open := fun _ => hwaits.clean
  have hheeds := (((oneReply_iff hclean (by decide)).mp hone) hwaits.quit).2.2
  rw [heeds_from (by rw [hwaits.state]; decide) (by decide)] at hheeds
  exact absurd hheeds.1 (by decide)

end Session

end PennCloud
