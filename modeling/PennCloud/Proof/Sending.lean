import PennCloud.Webmail.Dialogue

/-!
# A mail is sent

The server follows everything `sendto_smpt_server` writes for a mail from a local
sender to plain mailboxes, if no line of the text is a dot, has a zero byte or is
longer than the buffer. So the mail is handed over once, as it was passed in,
however the bytes of both sides are cut and whoever is faster; and the client
returns, unless a line end of an answer comes in two reads.
-/

namespace PennCloud

open Str

/-! ## What is written back -/

namespace Session

variable {s t u : Session}

/-- The session has gone on from `s`, and written back answers only. -/
def Speaks (s t : Session) : Prop := ∃ rs, t.replies = s.replies ++ rs ∧ ∀ r ∈ rs, IsAnswer r

theorem Speaks.of_eq (h : t.replies = s.replies) : s.Speaks t :=
  ⟨[], h.trans (List.append_nil _).symm, nofun⟩

theorem Speaks.trans (h : s.Speaks t) (h' : t.Speaks u) : s.Speaks u := by
  obtain ⟨rs, hrs, hall⟩ := h
  obtain ⟨rs', hrs', hall'⟩ := h'
  refine ⟨rs ++ rs', by rw [hrs', hrs, List.append_assoc], fun r hr => ?_⟩
  exact (List.mem_append.mp hr).elim (hall r) (hall' r)

theorem Speaks.reply {r : Str} (h : s.Speaks t) (hr : IsAnswer r) : s.Speaks (t.reply r) :=
  h.trans ⟨[r], rfl, fun _ hx => List.mem_singleton.mp hx ▸ hr⟩

theorem Speaks.expect {ok : Bool} {r : Str} (h : s.Speaks t) (hr : IsAnswer r) :
    s.Speaks (t.expect ok r) := by
  cases ok with
  | true => exact h
  | false => exact h.reply hr

theorem isAnswer_of {a : Str} (h : '\r' ∉ a ∧ '\n' ∉ a ∧ '\x00' ∉ a ∧ a.length + 2 < commSize) :
    IsAnswer (a ++ crlf) := ⟨a, rfl, h⟩

theorem isAnswer_unknownCmd : IsAnswer unknownCmd :=
  isAnswer_of (a := "500 Syntax error, command unrecognized".toList) (by decide)

theorem isAnswer_syntaxErr : IsAnswer syntaxErr :=
  isAnswer_of (a := "501 Syntax error in parameters or arguments".toList) (by decide)

theorem isAnswer_badSeq : IsAnswer badSeq :=
  isAnswer_of (a := "503 Bad sequence of commands".toList) (by decide)

theorem isAnswer_mailOK : IsAnswer mailOK := isAnswer_of (a := "250 OK".toList) (by decide)

theorem isAnswer_heloOK : IsAnswer heloOK := isAnswer_of (a := "250 localhost".toList) (by decide)

theorem isAnswer_startMail : IsAnswer startMail :=
  isAnswer_of (a := "354 Start mail input; end with <CRLF>.".toList) (by decide)

theorem isAnswer_noSubject : IsAnswer noSubject :=
  isAnswer_of (a := "email content must include Subject: ".toList) (by decide)

theorem isAnswer_serviceClose : IsAnswer serviceClose :=
  isAnswer_of (a := "221 localhost service closing transmission channel".toList) (by decide)

theorem speaks_data {end' : Nat} (h : s.handleData end' = some t) : s.Speaks t := by
  simp only [handleData] at h
  split at h
  · cases h
    exact (Speaks.of_eq rfl).reply isAnswer_badSeq
  split at h
  · cases h
    exact (Speaks.of_eq rfl).reply isAnswer_startMail
  split at h
  · cases h
    exact .of_eq rfl
  · have hfirst : s.Speaks (s.expect (s.data.find subjectMark ≠ npos) noSubject) :=
      (Speaks.of_eq rfl).expect isAnswer_noSubject
    obtain ⟨title, -, rfl⟩ := Option.map_eq_some_iff.mp h
    exact (hfirst.trans (.of_eq rfl)).reply isAnswer_mailOK

theorem speaks_helo (s : Session) : s.Speaks s.handleHelo := by
  have hfirst : s.Speaks (s.expect (cmdSize < (cstr s.buff).length) syntaxErr) :=
    (Speaks.of_eq rfl).expect isAnswer_syntaxErr
  simp only [handleHelo]
  split
  · exact hfirst.reply isAnswer_badSeq
  · exact (hfirst.trans (.of_eq rfl)).reply isAnswer_heloOK

theorem speaks_from (h : s.handleFrom = some t) : s.Speaks t := by
  have hfirst :
    s.Speaks (s.expect (sameCase (((cstr s.buff).drop cmdSize).take 5) "from:".toList)
    unknownCmd) :=
    (Speaks.of_eq rfl).expect isAnswer_unknownCmd
  simp only [handleFrom] at h
  split at h
  · cases h
    exact hfirst.reply isAnswer_badSeq
  · obtain ⟨domain, -, h⟩ := Option.bind_eq_some_iff.mp h
    obtain ⟨found, -, rfl⟩ := Option.map_eq_some_iff.mp h
    split
    · exact hfirst.reply isAnswer_syntaxErr
    · exact (hfirst.trans (.of_eq rfl)).reply isAnswer_mailOK

theorem speaks_to (h : s.handleTo = some t) : s.Speaks t := by
  have hfirst :
    s.Speaks (s.expect (sameCase (((cstr s.buff).drop cmdSize).take 3) "to:".toList) unknownCmd) :=
    (Speaks.of_eq rfl).expect isAnswer_unknownCmd
  simp only [handleTo] at h
  split at h
  · cases h
    exact hfirst.reply isAnswer_badSeq
  · obtain ⟨mailbox, -, rfl⟩ := Option.map_eq_some_iff.mp h
    exact (hfirst.trans (.of_eq rfl)).reply isAnswer_mailOK

theorem speaks_rset (s : Session) : s.Speaks s.handleRset := by
  unfold handleRset
  split
  · exact (Speaks.of_eq rfl).reply isAnswer_badSeq
  · exact (Speaks.trans (.of_eq rfl) (.of_eq rfl)).reply isAnswer_mailOK

/-- **Whatever a line is**, what is written back are answers. -/
theorem speaks_line {end' : Nat} (h : s.line end' = some t) : s.Speaks t := by
  have hnote : s.Speaks (s.note end') := .of_eq rfl
  simp only [line] at h
  split at h
  · exact speaks_data h
  split at h
  · exact hnote.trans (speaks_data h)
  split at h
  · exact Option.some.inj h ▸ hnote.trans (speaks_helo _)
  split at h
  · exact hnote.trans (speaks_from h)
  split at h
  · exact hnote.trans (speaks_to h)
  split at h
  · exact Option.some.inj h ▸ hnote.trans (speaks_rset _)
  split at h
  · exact Option.some.inj h ▸ hnote.reply isAnswer_mailOK
  split at h
  · exact Option.some.inj h ▸ (hnote.trans (.of_eq rfl)).reply isAnswer_serviceClose
  · exact Option.some.inj h ▸ hnote.reply isAnswer_unknownCmd

theorem speaks_read {bytes : Str} (h : s.read bytes = some t) : s.Speaks t := by
  have hall : s.readAll [bytes] = some t := by rw [readAll, h, Option.bind_some, readAll]
  refine readAll_keeps (P := fun u => s.Speaks u)
    (fun u b hu => hu.trans (.of_eq rfl)) ?_ (.of_eq rfl) hall
  exact fun u v i _ hu hv => hu.trans (speaks_line hv)

/-- **A line is heard** if the session would answer it once. -/
theorem heard_of_oneReply {l : ClientLine} {answered : Bool} (hquit : s.quit = false)
    (hnul : '\x00' ∉ l.bytes) (hlen : l.bytes.length < buffSize) (ht : s.read l.bytes = some t)
    (hknown : ∀ r, l.unknown r = false) (hone : s.OneReply l)
    (htakes : s.TakesText l ↔ answered = false) :
    s.Heard t ⟨l.bytes, answered⟩ := by
  obtain ⟨t', ht', htext, hcmd, -⟩ := hone hquit
  obtain rfl : t = t' := Option.some.inj (ht.symm.trans ht')
  obtain ⟨rs, hrs, hall⟩ := speaks_read ht
  have hnew : t.replies.drop s.replies.length = rs := by rw [hrs, List.drop_left]
  have hanswers : answers l s t = rs := answers_of hrs fun x _ => by
    cases x with
    | mail a b c => simp [Handled.refusals, hknown]
    | command l => rfl
    | text => rfl
  refine ⟨l.isLine, hnul, hlen, ht, ?_⟩
  cases answered with
  | false =>
      obtain ⟨hstate, hdot⟩ := htakes.mpr rfl
      have hnone := htext ⟨hstate, hdot⟩
      rw [hanswers] at hnone
      exact ⟨by rw [hrs, hnone, List.append_nil], hstate, hdot⟩
  | true =>
      have hcount := hcmd fun h => absurd (htakes.mp h) (by decide)
      rw [hanswers] at hcount
      obtain ⟨r, rfl⟩ := List.length_eq_one_iff.mp hcount
      exact ⟨r, hall r List.mem_cons_self, hrs⟩

/-! ## The server follows the client -/

theorem heard_of_heeds {n : Nat} {c : ClientWrite} (hs : s.Waits n) (hline : IsLine c.bytes)
    (hnul : '\x00' ∉ c.bytes) (hlen : c.bytes.length < buffSize) (ht : s.read c.bytes = some t)
    (hheeds : s.Heeds ⟨c.bytes, fun _ => [], hline⟩)
    (htakes : n = 4 ∧ c.bytes ≠ dotCrlf ↔ c.answered = false) : s.Heard t c := by
  have hopen : s.Open := fun _ => hs.clean
  have hone := (oneReply_iff (l := ⟨c.bytes, fun _ => [], hline⟩) hopen hnul).mpr fun _ =>
    ⟨hnul, hlen, hheeds⟩
  refine heard_of_oneReply hs.quit hnul hlen ht (fun r => ?_) hone ?_
  · simp [ClientLine.unknown]
  · rw [TakesText, hs.state]
    exact htakes

/-- A command: in another state than 4, and answered. -/
theorem heard_command {n : Nat} {line : Str} (hs : s.Waits n) (hn : n ≠ 4) (hline : IsLine line)
    (hnul : '\x00' ∉ line) (hlen : line.length < buffSize) (ht : s.read line = some t)
    (hheeds : s.Heeds ⟨line, fun _ => [], hline⟩) : s.Heard t ⟨line, true⟩ :=
  heard_of_heeds hs hline hnul hlen ht hheeds (iff_of_false (fun h => hn h.1) (by simp))

theorem Waits.follows {n : Nat} {c : ClientWrite} {xs : List ClientWrite} (hs : s.Waits n)
    (h : s.Heard t c) (ht : t.Follows xs) : s.Follows (c :: xs) :=
  ⟨⟨rfl, hs.quit, hs.clean⟩, t, h, ht⟩

/-- `QUIT` ends the session. -/
theorem closing_quits (hs : s.Waits 5) (h : s.read closing = some t) : t.quit = true := by
  obtain ⟨z, z', hz, -, hread⟩ := read_line hs isLine_closing (by decide) (by decide)
  have hstate : s.state ≠ 4 := by
    rw [hs.state]
    decide
  rw [line_command hstate (by decide) hz rfl] at hread
  dsimp only at hread
  rw [if_neg (by decide), if_neg (by decide), if_neg (by decide), if_neg (by decide),
    if_neg (by decide), if_neg (by decide), if_pos (by decide)] at hread
  obtain rfl := Option.some.inj (h.symm.trans hread)
  rfl

theorem follows_closing (hs : s.Waits 5) : s.Follows [⟨closing, true⟩] := by
  have hquit : sameCase (closing.take cmdSize) "quit\r".toList = true := by decide
  obtain ⟨t, ht, -⟩ := read_closing hs
  have hstate : s.state ≠ 4 := by
    rw [hs.state]
    decide
  exact hs.follows (heard_command hs (by decide) isLine_closing (by decide) (by decide) ht
    (heeds_keyword hstate hquit (by decide) (by decide))) (closing_quits hs ht)

theorem follows_dot (hs : s.Waits 4) (hsubject : subjectMark <:+: s.data) :
    s.Follows [⟨dotCrlf, true⟩, ⟨closing, true⟩] := by
  obtain ⟨title, htitle⟩ := mailTitle_subject hsubject
  obtain ⟨t, ht⟩ := read_dot_ok hs htitle
  have hheeds : s.Heeds ⟨dotCrlf, fun _ => [], isLine_dot⟩ := by
    simp only [Heeds, if_pos hs.state]
    exact fun _ => ⟨hsubject, fun r _ => by simp [ClientLine.unknown]⟩
  exact hs.follows (heard_of_heeds hs isLine_dot (by decide) (by decide) ht hheeds (by simp))
    (follows_closing (read_dot hs ht).1)

/-- **The lines of a message** are collected one by one, up to the dot. -/
theorem follows_text : ∀ (lines : List Str) {s : Session}, s.Waits 4 →
    (∀ line ∈ lines, IsLine line ∧ Plain line) → subjectMark <:+: s.data ++ lines.flatten →
    s.Follows (lines.map (⟨·, false⟩) ++ [⟨dotCrlf, true⟩, ⟨closing, true⟩])
  | [], s, hs, _, hsubject =>
      follows_dot hs (by rwa [List.flatten_nil, List.append_nil] at hsubject)
  | line :: lines, s, hs, hlines, hsubject => by
      obtain ⟨hline, hdot, hnul, hlen⟩ := hlines line List.mem_cons_self
      obtain ⟨t, ht, hwaits, hdata, -⟩ := read_text hs hline hnul hlen hdot
      have hheeds : s.Heeds ⟨line, fun _ => [], hline⟩ := by
        simp only [Heeds, if_pos hs.state]
        exact fun h => absurd h hdot
      refine hs.follows (heard_of_heeds hs hline hnul hlen ht hheeds (by simp [hdot]))
        (follows_text lines hwaits (fun l hl => hlines l (List.mem_cons_of_mem _ hl)) ?_)
      rw [hdata, List.append_assoc]
      exact hsubject

theorem follows_data {lines : List Str} (hs : s.Waits 3)
    (hlines : ∀ line ∈ lines, IsLine line ∧ Plain line)
    (hsubject : subjectMark <:+: s.data ++ lines.flatten) :
    s.Follows (⟨dataLine, true⟩
      :: (lines.map (⟨·, false⟩) ++ [⟨dotCrlf, true⟩, ⟨closing, true⟩])) := by
  obtain ⟨t, ht, hwaits, htook⟩ := read_data hs
  have hstate : s.state ≠ 4 := by
    rw [hs.state]
    decide
  have hline : IsLine dataLine := ⟨"DATA".toList, rfl, by decide⟩
  have hdata : sameCase (dataLine.take cmdSize) "data\r".toList = true := by decide
  refine hs.follows (heard_command hs (by decide) hline (by decide) (by decide) ht
    (heeds_keyword hstate hdata (by decide) (by decide)))
    (follows_text lines hwaits hlines ?_)
  rwa [htook.data]

theorem bracketed_mailbox {kw m : Str} (hkw : '<' ∉ kw) (hm : PlainMailbox m) :
    Bracketed (mailboxLine kw m) m :=
  ⟨kw, crlf, rfl, hkw, hm.noBracket, hm.short⟩

theorem follows_rcpt {m : Str} {n : Nat} {xs : List ClientWrite} (hs : s.Waits n)
    (hn : n = 2 ∨ n = 3)
    (hm : PlainMailbox m) (hxs : ∀ t : Session, t.Waits 3 → t.data = s.data → t.Follows xs) :
    s.Follows (⟨mailboxLine "RCPT TO:".toList m, true⟩ :: xs) := by
  obtain ⟨t, ht, hwaits, htook⟩ := read_to hs hn hm
  have hstate : s.state ≠ 4 := by
    rw [hs.state]
    omega
  refine hs.follows (heard_command hs (by omega) (isLine_mailbox (by decide) hm)
    (noNul_mailbox (by decide) hm) (length_mailbox (by decide) hm) ht ?_) (hxs t hwaits htook.data)
  have hrcpt : sameCase ((mailboxLine "RCPT TO:".toList m).take cmdSize)
    "rcpt ".toList = true := rfl
  have hto : sameCase (((mailboxLine "RCPT TO:".toList m).drop cmdSize).take 3)
    "to:".toList = true := rfl
  exact (heeds_to hstate hrcpt).mpr ⟨hto, fun _ => ⟨m, bracketed_mailbox (by decide) hm⟩⟩

theorem follows_rcpts {xs : List ClientWrite} : ∀ (rcpts : List Str) {s : Session}, s.Waits 3 →
    (∀ m ∈ rcpts, PlainMailbox m) → (∀ t : Session, t.Waits 3 → t.data = s.data → t.Follows xs) →
    s.Follows ((rcpts.map (mailboxLine "RCPT TO:".toList)).map (⟨·, true⟩) ++ xs)
  | [], s, hs, _, hxs => hxs s hs rfl
  | m :: rcpts, _, hs, hrcpts, hxs =>
      follows_rcpt hs (Or.inr rfl) (hrcpts m List.mem_cons_self) fun _ ht hdata =>
        follows_rcpts rcpts ht (fun m hm => hrcpts m (List.mem_cons_of_mem _ hm)) fun u hu hdata' =>
          hxs u hu (hdata'.trans hdata)

end Session

section Mail

variable {user subject content : Str} {rcpts : List Str}

/-- **The server follows the client** through a whole mail. -/
theorem follows_clientWrites (huser : Session.PlainMailbox (user ++ Session.atLocalhost))
    (hrcpts : ∀ m ∈ rcpts, Session.PlainMailbox m) (hne : rcpts ≠ [])
    (hplain : ∀ line ∈ messageLines (mailText subject content), Session.Plain line) :
    Session.Follows {} (clientWrites (user ++ Session.atLocalhost) rcpts
      (mailText subject content)) := by
  obtain ⟨m, rcpts, rfl⟩ := List.exists_cons_of_ne_nil hne
  obtain ⟨hflat, hrows⟩ := messageLines_spec (rows_mailText subject content)
  have hsubject : subjectMark <:+: (messageLines (mailText subject content)).flatten := by
    rw [hflat, mailText, List.append_assoc, List.append_assoc, List.append_assoc]
    exact (List.prefix_append _ _).isInfix
  have hstart : Session.Waits {} 0 := ⟨rfl, rfl, Session.zero_nil⟩
  obtain ⟨s, hs, hwaits, htook⟩ := Session.read_helo hstart
  obtain ⟨t, ht, hwaits', htook'⟩ := Session.read_from hwaits huser
  have hhelo : IsLine heloLine := ⟨"HELO tester".toList, rfl, by decide⟩
  have hkw : sameCase (heloLine.take cmdSize) "helo ".toList = true := by decide
  have hzero : ({} : Session).state ≠ 4 := by decide
  have hstate : s.state ≠ 4 := by
    rw [hwaits.state]
    decide
  have hmail :
    sameCase ((mailboxLine "MAIL FROM:".toList (user ++ Session.atLocalhost)).take cmdSize)
      "mail ".toList = true := rfl
  have hfrom :
    sameCase (((mailboxLine "MAIL FROM:".toList (user ++ Session.atLocalhost)).drop cmdSize).take 5)
      "from:".toList = true := rfl
  have hheeds : s.Heeds ⟨mailboxLine "MAIL FROM:".toList (user ++ Session.atLocalhost), fun _ => [],
      Session.isLine_mailbox (by decide) huser⟩ :=
    (Session.heeds_from hstate hmail).mpr ⟨hfrom, fun _ =>
      ⟨_, Session.bracketed_mailbox (by decide) huser, List.mem_append_right _ (by decide)⟩⟩
  have hwrites : clientWrites (user ++ Session.atLocalhost) (m :: rcpts)
    (mailText subject content) =
      ⟨heloLine, true⟩ :: ⟨mailboxLine "MAIL FROM:".toList (user ++ Session.atLocalhost), true⟩ ::
      ⟨mailboxLine "RCPT TO:".toList m, true⟩ ::
      ((rcpts.map (mailboxLine "RCPT TO:".toList)).map (⟨·, true⟩) ++ (⟨dataLine, true⟩ ::
        ((messageLines (mailText subject content)).map (⟨·, false⟩) ++
          [⟨dotCrlf, true⟩, ⟨closing, true⟩]))) := by
    simp [clientWrites, opening]
  rw [hwrites]
  refine hstart.follows (Session.heard_command hstart (by decide) hhelo (by decide) (by decide) hs
    (Session.heeds_keyword hzero hkw (by decide) (by decide))) ?_
  refine hwaits.follows (Session.heard_command hwaits (by decide)
    (Session.isLine_mailbox (by decide) huser)
    (Session.noNul_mailbox (by decide) huser)
      (Session.length_mailbox (by decide) huser) ht hheeds) ?_
  refine Session.follows_rcpt hwaits' (Or.inl rfl) (hrcpts m List.mem_cons_self)
    fun u hu hdata => ?_
  refine Session.follows_rcpts rcpts hu (fun m hm => hrcpts m (List.mem_cons_of_mem _ hm))
    fun v hv hdata' => ?_
  refine Session.follows_data hv (fun line hl => ⟨hrows line hl, hplain line hl⟩) ?_
  rw [hdata', hdata, htook'.data, htook.data]
  exact hsubject

/-- What the server makes of the mail: the commands, the lines of the text, and the mail, once. -/
def sentRecord (sender : Str) (rcpts : List Str) (text : Str) : List Handled :=
  (opening sender rcpts).map .command ++ List.replicate (messageLines text).length .text ++
    [.mail sender (rcpts.foldl (·.insert ·) (∅ : Std.TreeSet Str compare)).toList text,
      .command closing]

/-- So it does line by line. -/
theorem sent_alone (huser : Session.PlainMailbox (user ++ Session.atLocalhost))
    (hrcpts : ∀ m ∈ rcpts, Session.PlainMailbox m) (hne : rcpts ≠ [])
    (hplain : ∀ line ∈ messageLines (mailText subject content), Session.Plain line) :
    ∃ t, Session.readAll {} (dialogue (user ++ Session.atLocalhost) rcpts
      (mailText subject content)) = some t ∧
      t.handled = sentRecord (user ++ Session.atLocalhost) rcpts (mailText subject content) := by
  obtain ⟨s, hs, hready, hsender, hset, hhandled⟩ := Session.opening_ready huser hrcpts hne
  obtain ⟨hflat, hrows⟩ := messageLines_spec (rows_mailText subject content)
  obtain ⟨title, htitle⟩ := mailTitle_mailText subject content
  obtain ⟨u, hu, hwaits, hdata, hhandled', hsender', hset'⟩ :=
    Session.readAll_text (messageLines (mailText subject content)) s hready.waits
      fun l hl => ⟨hrows l hl, hplain l hl⟩
  rw [hready.data, List.nil_append, hflat] at hdata
  obtain ⟨v, hv⟩ := Session.read_dot_ok hwaits (hdata.symm ▸ htitle)
  obtain ⟨hwaits', hmail⟩ := Session.read_dot hwaits hv
  obtain ⟨t, ht, hclosed⟩ := Session.read_closing hwaits'
  refine ⟨t, ?_, ?_⟩
  · rw [dialogue, List.append_assoc, Session.readAll_append, hs, Option.bind_some,
      Session.readAll_append, hu, Option.bind_some, Session.readAll, hv, Option.bind_some,
      Session.readAll, ht]
    rfl
  · rw [hclosed, hmail, hhandled', hhandled, hsender', hset', hsender, hset, hdata, sentRecord]
    simp only [List.append_assoc, List.cons_append, List.nil_append]

theorem clientWrites_last (sender : Str) (rcpts : List Str) (data : Str) :
    ∀ c ∈ (clientWrites sender rcpts data).getLast?, c.answered = true := by
  intro c hc
  rw [clientWrites, List.getLast?_append] at hc
  obtain rfl := Option.some.inj hc
  rfl

/--
**A mail is handed over once, and as it was passed in**, in whatever order the two
sides come on and wherever their bytes are cut, if the greeting comes whole: what the
server has handled is the beginning of its record, and all of it when the client returns.
-/
theorem mail_sent (huser : Session.PlainMailbox (user ++ Session.atLocalhost))
    (hrcpts : ∀ m ∈ rcpts, Session.PlainMailbox m) (hne : rcpts ≠ [])
    (hplain : ∀ line ∈ messageLines (mailText subject content), Session.Plain line)
    {as : List DialogueAction} {d : Dialogue}
    (hgreeted : Lib.Guarded Dialogue.step Dialogue.Greeted
      (Dialogue.start (clientWrites (user ++ Session.atLocalhost) rcpts (mailText subject content)))
        as)
    (hrun : Lib.run Dialogue.step
      (Dialogue.start (clientWrites (user ++ Session.atLocalhost) rcpts (mailText subject content)))
        as = some d) :
    d.server.handled <+: sentRecord (user ++ Session.atLocalhost) rcpts (mailText subject content) ∧
      (d.Finished →
        d.server.handled = sentRecord (user ++ Session.atLocalhost) rcpts
          (mailText subject content)) := by
  obtain ⟨t, ht, hrecord⟩ := sent_alone huser hrcpts hne hplain
  rw [← clientWrites_bytes] at ht
  rw [← hrecord]
  exact Dialogue.handled_of_run (follows_clientWrites huser hrcpts hne hplain)
    (clientWrites_last _ _ _) ht hgreeted hrun

/--
**The client returns exactly if no line end of an answer is cut**: as long as none
has been, the dialogue can come to its end and has only so many steps to go, and when one
has been, it cannot.
-/
theorem client_returns_iff (huser : Session.PlainMailbox (user ++ Session.atLocalhost))
    (hrcpts : ∀ m ∈ rcpts, Session.PlainMailbox m) (hne : rcpts ≠ [])
    (hplain : ∀ line ∈ messageLines (mailText subject content), Session.Plain line)
    {as : List DialogueAction} {d : Dialogue}
    (hgreeted : Lib.Guarded Dialogue.step Dialogue.Greeted
      (Dialogue.start (clientWrites (user ++ Session.atLocalhost) rcpts (mailText subject content)))
        as)
    (hrun : Lib.run Dialogue.step
      (Dialogue.start (clientWrites (user ++ Session.atLocalhost) rcpts (mailText subject content)))
        as = some d) :
    ((∃ bs t, Lib.run Dialogue.step d bs = some t ∧ t.Finished) ↔
      Lib.Guarded Dialogue.step Dialogue.Uncut
        (Dialogue.start (clientWrites (user ++ Session.atLocalhost) rcpts
          (mailText subject content))) as) ∧
      (Lib.Guarded Dialogue.step Dialogue.Uncut
        (Dialogue.start (clientWrites (user ++ Session.atLocalhost) rcpts
          (mailText subject content))) as →
        as.length ≤ (Dialogue.start
          (clientWrites (user ++ Session.atLocalhost) rcpts
            (mailText subject content))).remaining) :=
  Dialogue.ends_iff (follows_clientWrites huser hrcpts hne hplain) hgreeted hrun

end Mail

/-! ## Runs -/

open Dialogue

/-- A text with command-like lines and a line that begins with a dot. -/
def greetings : Str := mailText "hi".toList "QUIT\r\n..\r\nDATA".toList

/-- What the client writes for it, from Bob to Amy. -/
def greetingsWrites : List ClientWrite :=
  clientWrites ("bob".toList ++ Session.atLocalhost) ["amy@localhost".toList] greetings

/-- Reads of both sides end within lines, and some lines of the text come together. -/
def greetingsRun : List DialogueAction :=
  [.reply 33, .write, .serve 5, .serve 8, .reply 3, .reply 12, .write, .serve 27, .reply 8,
    .write, .serve 10, .serve 15, .reply 8, .write, .serve 6, .reply 40, .write, .write, .serve 16,
    .write, .serve 5, .write, .write, .serve 8, .serve 3, .reply 1, .reply 7, .write,
    .serve 6, .reply 52]

theorem amys_plain : ∀ m ∈ ["amy@localhost".toList], Session.PlainMailbox m := fun _ hm =>
  List.mem_singleton.mp hm ▸ ⟨by decide, by decide, by decide, by decide⟩

theorem bobs_plain : Session.PlainMailbox ("bob".toList ++ Session.atLocalhost) :=
  ⟨by decide, by decide, by decide, by decide⟩

theorem greetingsRun_sent :
    ∃ d, Lib.run step (start greetingsWrites) greetingsRun = some d ∧ d.Finished ∧
    d.server.handled
      = sentRecord ("bob".toList ++ Session.atLocalhost) ["amy@localhost".toList] greetings := by
  have hruns : (Lib.run step (start greetingsWrites) greetingsRun).map Dialogue.client
    = some (.writing []) := by
    decide +kernel
  obtain ⟨d, hrun, hfin⟩ := Option.map_eq_some_iff.mp hruns
  have hsent := mail_sent bobs_plain amys_plain (by simp) (by decide +kernel)
    (by decide +kernel) hrun
  exact ⟨d, hrun, hfin, hsent.2 hfin⟩

/-- While the first line of the text is on its way. -/
theorem greetingsRun_returns :
    ∃ d, Lib.run step (start greetingsWrites) (greetingsRun.take 17) = some d ∧
    (∃ bs t, Lib.run step d bs = some t ∧ t.Finished) ∧
    (greetingsRun.take 17).length ≤ (start greetingsWrites).remaining := by
  have hruns : (Lib.run step (start greetingsWrites) (greetingsRun.take 17)).isSome := by
    decide +kernel
  obtain ⟨d, hrun⟩ := Option.isSome_iff_exists.mp hruns
  have huncut : Lib.Guarded step Dialogue.Uncut (start greetingsWrites)
    (greetingsRun.take 17) := by decide +kernel
  have hreturns := client_returns_iff bobs_plain amys_plain (by simp) (by decide +kernel)
    (by decide +kernel) hrun
  exact ⟨d, hrun, hreturns.1.mpr huncut, hreturns.2 huncut⟩

/-- The greeting comes in two reads, and the dot line with `QUIT` behind it. -/
def earlyRun : List DialogueAction :=
  [.reply 10, .write, .reply 23, .serve 13, .write, .reply 15, .serve 27, .write, .reply 8,
    .serve 25, .write, .reply 8, .serve 6, .write, .write, .write, .write, .serve 29, .write,
    .reply 40, .write, .serve 9]

/-- The client has been an answer ahead: the dot was taken for text, and it waits for an
answer to it. -/
theorem earlyRun_stuck : ∃ d, Lib.run step (start greetingsWrites) earlyRun = some d ∧
    Lib.Guarded step Dialogue.Uncut (start greetingsWrites) earlyRun ∧ (∀ a, d.step a = none) ∧
    ∀ sender rcpts text, .mail sender rcpts text ∉ d.server.handled := by
  have hruns : (Lib.run step (start greetingsWrites) earlyRun).map
      (fun d => (d.client, d.up, d.down, d.server.handled.drop 4)) =
        some (.waiting [] 0 [], [], [], List.replicate 6 .text) := by decide +kernel
  have hfirst : (Lib.run step (start greetingsWrites) earlyRun).map (fun d =>
    d.server.handled.take 4) =
      some ((opening ("bob".toList ++ Session.atLocalhost) ["amy@localhost".toList]).map
        .command) := by
    decide +kernel
  obtain ⟨⟨client, up, server, down⟩, hrun, heq⟩ := Option.map_eq_some_iff.mp hruns
  obtain ⟨rfl, rfl, rfl, hlast⟩ : client = .waiting [] 0 [] ∧ up = [] ∧ down = [] ∧
      server.handled.drop 4 = List.replicate 6 .text := by simpa using heq
  rw [hrun, Option.map_some, Option.some.injEq] at hfirst
  refine ⟨_, hrun, by decide +kernel, fun a => ?_, fun sender rcpts text hm => ?_⟩
  · cases a with
    | write => rfl
    | reply n => exact if_neg fun hn => by simp at hn; omega
    | serve n => exact if_neg fun hn => by simp at hn; omega
  · rw [← List.take_append_drop 4 server.handled, hfirst, hlast] at hm
    rcases List.mem_append.mp hm with hm | hm
    · obtain ⟨l, -, hl⟩ := List.mem_map.mp hm
      cases hl
    · cases List.eq_of_mem_replicate hm

end PennCloud
