import PennCloud.Frontend.Decoding
import PennCloud.Frontend.Sessions
import PennCloud.Lib.Pairs
import PennCloud.Proof.Retrieval
import PennCloud.Proof.Sending
import PennCloud.Webmail.Headers

/-!
# From the form to the inbox

A mail goes through every part of the webmail: the form of the page, the SMTP client,
the SMTP server, the mailboxes, and the page of the recipient. Each of them takes
apart what the one before has put together. `mail_posted` follows one mail of plain
lines all the way: the client and the server come on in any order, their bytes are
cut anywhere but in the greeting, and other mails are delivered before and after.
-/

namespace PennCloud

open Str

/-- A mail as a user writes it in the form. -/
structure Note where
  user : Str
  recipient : Str
  subject : Str
  content : Str
  user_plain : Session.PlainMailbox (user ++ Session.atLocalhost)
  recipient_plain : Session.PlainMailbox recipient
  /-- Each line fits the server's buffer and is not a dot. -/
  text_plain : ∀ line ∈ messageLines (mailText subject content), Session.Plain line
  subject_line : ¬ crlf <:+: subject
  /-- The fields of a header are parted by bars. -/
  noBar : '|' ∉ user ∧ '|' ∉ recipient ∧ '|' ∉ subject

/-- What `handle_send_email` has `sendto_smpt_server` write: the user's address is the sender. -/
def Touch.writes : Touch → List ClientWrite
  | .send owner recipient content => clientWrites (owner ++ Session.atLocalhost) [recipient] content
  | .storage _ _ _ | .receive _ _ _ | .showMail _ _ _ | .deleteMail _ _ _ | .close _ => []

/-- The form as it is posted. -/
def mailRequest (body : Str) (cookies : List (Str × Str)) : HttpRequest where
  method := "POST".toList
  path := "/newemail".toList
  message := body
  cookies := cookies

/-- The end of a message. -/
def Handled.isMail : Handled → Bool
  | .mail _ _ _ => true
  | .command _ | .text => false

namespace Note

variable (l : Note)

def sender : Str := l.user ++ Session.atLocalhost

def text : Str := mailText l.subject l.content

/-- The body that a browser makes of the form. -/
def Form (body : Str) : Prop :=
  ∃ r s m, Lib.Coded FormCode l.recipient r ∧ Lib.Coded FormCode l.subject s ∧
    Lib.Coded FormCode l.content m ∧
    body = mailForm r s m

/-- What the form asks for. -/
def sent : Touch := .send l.user l.recipient l.text

/-- The message of the mail, handed over at `time`. -/
def IsTransaction (time : Str) (t : Transaction) : Prop :=
  t.sender = l.sender ∧ t.rcpts = [l.recipient] ∧ t.data = l.text ∧ t.time = time

/--
However many other mails come before and after, the recipient's inbox shows the mail
with the fields and the content of the form, if no later text has the same digest.
-/
def Shown (md5 : Str → Nat → Fin 256) (time : Str) (t : Transaction) : Prop :=
  ∀ (c c' : Cloud) (before after : List Transaction), c.Kept →
    handleMails md5 (before ++ t :: after) c = some c' →
    (∀ t' ∈ after, hashMD5 md5 t'.data ≠ hashMD5 md5 t.data) →
    ∃ mails, c'.recvfrom md5 (userOf l.recipient) .inbox = some mails ∧ ∃ e ∈ mails,
      Response.parseHeader e.header = (l.sender, l.recipient, l.subject, time) ∧
      e.content = l.content ++ crlf

end Note

/-! ## The form -/

/-- A form is sent for the global user. -/
theorem Note.form_sent (l : Note) {s : Frontend} {body : Str} (hbody : l.Form body)
    (huser : s.username = l.user)
    (cookies : List (Str × Str)) {a : Answer} (ha : a.fails = false) :
    s.handle (mailRequest body cookies) a = some (s, [l.sent]) := by
  obtain ⟨r, u, m, hr, hu, hm, rfl⟩ := hbody
  have hroute : (mailRequest (mailForm r u m) cookies).route
      = .unchecked (some (.sendEmail l.recipient (mailText l.subject l.content))) := by
    have hparse := parseEmail_coded hr hu hm
    have hpost : (mailRequest (mailForm r u m) cookies).route
      = postRoute "/newemail".toList (mailForm r u m) := rfl
    have hsend : postRoute "/newemail".toList (mailForm r u m)
        = .unchecked ((parseEmail (mailForm r u m)).map fun m => .sendEmail m.1
          ("Subject: ".toList ++ m.2.2 ++ crlf ++ m.2.1 ++ crlf)) := rfl
    rw [hpost, hsend, hparse]
    rfl
  rw [Frontend.handle, hroute, sent, ← huser]
  exact survived_eq_some.mpr ⟨ha, rfl⟩

/-! ## The message -/

/-- A dot line in a text of whole lines is one of them. -/
theorem dot_mem_of_dotLine {lines : List Str} (hlines : ∀ l ∈ lines, IsLine l)
    (h : dotLine <:+: crlf ++ lines.flatten) : dotCrlf ∈ lines := by
  induction lines with
  | nil => exact absurd h.length_le (by decide)
  | cons l lines ih =>
      obtain ⟨hl, hrest⟩ := List.forall_mem_cons.mp hlines
      obtain ⟨a, rfl, ha⟩ := id hl
      have hsplit : crlf ++ ((a ++ crlf) :: lines).flatten = '\r'
        :: ('\n' :: a ++ (crlf ++ lines.flatten)) := by
        simp [crlf]
      rw [hsplit] at h
      rcases List.infix_cons_iff.mp h with ⟨v, hv⟩ | hin
      · -- at the front
        have hfront : dotCrlf ++ v = a ++ crlf ++ lines.flatten := by
          simpa [dotLine, dotCrlf, crlf] using hv
        have hdot : IsLine dotCrlf := ⟨['.'], rfl, by decide⟩
        exact List.mem_cons.mpr (Or.inl (line_unique hdot hl hfront))
      · -- behind the line
        have hopen : ¬ crlf <:+: '\n' :: a := by
          rw [List.infix_cons_iff, not_or]
          exact ⟨fun hpre => absurd (List.cons_prefix_cons.mp hpre).1 (by decide), ha⟩
        exact List.mem_cons_of_mem _ (ih hrest (dotLine_header hopen hin))

namespace Note

variable (l : Note)

theorem dot_notMem : ¬ dotLine <:+: crlf ++ l.text := by
  obtain ⟨hflat, hrows⟩ := messageLines_spec (rows_mailText l.subject l.content)
  intro h
  rw [text, ← hflat] at h
  exact (l.text_plain _ (dot_mem_of_dotLine hrows h)).1 rfl

theorem name_of_plain {m : Str} (h : Session.PlainMailbox m) : Name m :=
  ⟨h.noBracket, fun hin => h.noCr (hin.subset (by decide))⟩

/-- There is such a message, whatever the time. -/
theorem exists_transaction {time : Str} (htime : ¬ crlf <:+: time) : ∃ t, l.IsTransaction time t :=
  ⟨{ sender := l.sender
     rcpts := [l.recipient]
     data := l.text
     time := time
     sender_name := name_of_plain l.user_plain
     rcpts_name := fun _ hr => List.mem_singleton.mp hr ▸ name_of_plain l.recipient_plain
     data_rows := rows_mailText l.subject l.content
     data_dot := l.dot_notMem
     time_line := htime }, rfl, rfl, rfl, rfl⟩

/-- **The server hands over one mail**, the one that was written. -/
theorem mails_sent {as : List DialogueAction} {d : Dialogue}
    (hgreeted : Lib.Guarded Dialogue.step Dialogue.Greeted (Dialogue.start l.sent.writes) as)
    (hrun : Lib.run Dialogue.step (Dialogue.start l.sent.writes) as = some d)
    (hfin : d.Finished) : d.server.handled.filter Handled.isMail
      = [.mail l.sender [l.recipient] l.text] := by
  have hrcpts : ∀ m ∈ [l.recipient], Session.PlainMailbox m := fun m hm =>
    List.mem_singleton.mp hm ▸ l.recipient_plain
  obtain ⟨t, ht, hrecord⟩ := sent_alone l.user_plain hrcpts (by simp) l.text_plain
  rw [← clientWrites_bytes] at ht
  have hfollows := follows_clientWrites l.user_plain hrcpts (by simp) l.text_plain
  have hhandled :=
    (Dialogue.handled_of_run hfollows (clientWrites_last _ _ _) ht hgreeted hrun).2 hfin
  rw [hhandled, hrecord, sentRecord]
  have hcommands : ∀ xs : List Str, (xs.map Handled.command).filter Handled.isMail
    = [] := fun xs => by
    simp [List.filter_map, Function.comp_def, Handled.isMail]
  have htexts : ∀ n, (List.replicate n Handled.text).filter Handled.isMail = [] := fun n => by
    simp [Handled.isMail]
  rw [List.filter_append, List.filter_append, hcommands, htexts]
  rfl

/-! ## The inbox -/

variable {l} {md5 : Str → Nat → Fin 256} {time : Str} {t : Transaction}

theorem mailTitle_text (l : Note) : mailTitle l.text = some l.subject := by
  have htitle := mailTitle_data
    { sender := l.sender, rcpts := [l.recipient], title := l.subject, text := l.content
      ++ crlf, time := []
      rcpts_ne := by simp, title_line := l.subject_line }
  rwa [Letter.data, ← List.append_assoc] at htitle

/-- What is stored in the inbox. -/
def stored (l : Note) (time : Str) : Str :=
  inboxHeader l.sender l.recipient l.subject time ++ crlf ++ l.text

/-- **The mail is stored.** -/
theorem holds_own (ht : l.IsTransaction time t) (hlocal : isLocal l.recipient = true)
    {c c' : Cloud} (hc : c.Kept)
    (h : handleMail md5 t c = some c') :
    c'.Holds (userOf l.recipient) .inbox (hashMD5 md5 t.data) (· = l.stored time) := by
  obtain ⟨hsender, hrcpts, hdata, htime⟩ := ht
  obtain ⟨title, htitle, h⟩ := Option.bind_eq_some_iff.mp h
  obtain ⟨w, hw, h⟩ := Option.bind_eq_some_iff.mp h
  have hkept := Cloud.kept_deliver hc (headerMark_outbox _ _ _ _ _) hw
  rw [hdata, mailTitle_text] at htitle
  obtain rfl := Option.some.inj htitle
  rw [hrcpts, deliverAll, if_pos hlocal] at h
  obtain ⟨v, hv, h⟩ := Option.bind_eq_some_iff.mp h
  obtain rfl := Option.some.inj h
  refine Cloud.holds_delivered hkept ?_ hv
  rw [stored, hsender, hdata, htime]

/-- **It stays** when messages with other digests are delivered. -/
theorem holds_others {after : List Transaction} {c c' : Cloud} {user : Str} {h : Hash}
    {P : Str → Prop}
    (hother : ∀ t' ∈ after, hashMD5 md5 t'.data ≠ h) (hc : c.Kept) (hold : c.Holds user .inbox h P)
    (hrun : handleMails md5 after c = some c') : c'.Holds user .inbox h P := by
  induction after generalizing c with
  | nil => exact Option.some.inj hrun ▸ hold
  | cons t' after ih =>
      obtain ⟨hne, hother⟩ := List.forall_mem_cons.mp hother
      obtain ⟨u, hu, hrun⟩ := Option.bind_eq_some_iff.mp hrun
      have hkept := kept_handleMail hc hu
      obtain ⟨title, -, hu⟩ := Option.bind_eq_some_iff.mp hu
      obtain ⟨v, hv, hu⟩ := Option.bind_eq_some_iff.mp hu
      have hfirst := Cloud.kept_deliver hc (headerMark_outbox _ _ _ _ _) hv
      have hstill := Cloud.holds_deliver hc hold (fun _ hbox _ => by cases hbox) hv
      refine ih hother hkept (deliverAll_keeps (J := fun c => c.Kept ∧ c.Holds user .inbox h P) ?_
        ⟨hfirst, hstill⟩ hu).2 hrun
      intro r _ _ c c' hJ hd
      exact ⟨Cloud.kept_deliver hJ.1 (headerMark_inboxMail t'.sender r title t'.time t'.data) hd,
        Cloud.holds_deliver hJ.1 hJ.2 (fun _ _ hhash => absurd hhash.symm hne) hd⟩

/-- **It is read as it was written.** -/
theorem extract_stored (md5 : Str → Nat → Fin 256) (l : Note) (htime : ¬ crlf <:+: time) :
    ∃ e, extractEmail md5 (l.stored time) = some e ∧
      Response.parseHeader e.header = (l.sender, l.recipient, l.subject, time) ∧
      e.content = l.content ++ crlf := by
  have hline : ¬ crlf <:+: subjectMark ++ l.subject := by
    intro h
    rcases Lib.pair_infix_append.mp h with h | h | ⟨h, -⟩
    · exact absurd h (by decide)
    · exact l.subject_line h
    · exact absurd h (by decide)
  have hheader : ¬ crlf <:+: inboxHeader l.sender l.recipient l.subject time :=
    inboxHeader_line (name_of_plain l.user_plain).noCrlf
      (name_of_plain l.recipient_plain).noCrlf l.subject_line
      htime
  have hextract :=
    extractEmail_mail md5 (headerMark_inbox l.sender l.recipient l.subject time) hheader hline
    (l.content ++ crlf)
  have htext : subjectMark ++ l.subject ++ crlf ++ (l.content ++ crlf) = l.text := by
    rw [text, mailText, List.append_assoc _ l.content]
  rw [htext] at hextract
  obtain ⟨huser, hrecipient, hsubject⟩ := l.noBar
  have hsender : '|' ∉ l.sender := by
    rw [sender, List.mem_append, not_or]
    exact ⟨huser, by decide⟩
  have hread := ((reads_headerOf_iff (serverOf l.recipient) l.sender l.recipient l.subject time).mpr
    ⟨fun hbar => hrecipient (mem_substr hbar), hsender, hrecipient, hsubject⟩ []).1
  rw [← inboxHeader_eq, List.append_nil, List.append_nil] at hread
  exact ⟨_, hextract, hread, rfl⟩

theorem shown (ht : l.IsTransaction time t) (hlocal : isLocal l.recipient = true)
    (htime : ¬ crlf <:+: time) :
    l.Shown md5 time t := by
  intro c c' before after hc hrun hother
  rw [handleMails_append] at hrun
  obtain ⟨u, hbefore, hrun⟩ := Option.bind_eq_some_iff.mp hrun
  obtain ⟨v, hown, hafter⟩ := Option.bind_eq_some_iff.mp hrun
  have hu := kept_handleMails hc hbefore
  have hv := kept_handleMail hu hown
  have hstill := holds_others hother hv (holds_own ht hlocal hu hown) hafter
  obtain ⟨mails, mail, rfl, hmails, hall⟩ := recvfrom_holds md5 (kept_handleMails hv hafter) hstill
  obtain ⟨e, he, hread⟩ := extract_stored md5 l htime
  exact ⟨mails, hmails, e, hall e he, hread⟩

end Note

/--
**A mail arrives as it was written.** The form is taken apart for the global user, and
what the SMTP client then writes, however its dialogue with the server goes, ends
in one mail being handed over; and when that has been delivered, the recipient's
inbox shows it with the sender, the recipient, the subject and the content of the form.
-/
theorem mail_posted (md5 : Str → Nat → Fin 256) (l : Note)
    (hlocal : isLocal l.recipient = true) {body : Str}
    (hbody : l.Form body) {s : Frontend} (huser : s.username = l.user) (cookies : List (Str × Str))
    {a : Answer} (ha : a.fails = false) :
    s.handle (mailRequest body cookies) a = some (s, [l.sent]) ∧
      ∀ (as : List DialogueAction) (d : Dialogue),
        Lib.Guarded Dialogue.step Dialogue.Greeted (Dialogue.start l.sent.writes) as →
        Lib.run Dialogue.step (Dialogue.start l.sent.writes) as = some d → d.Finished →
        d.server.handled.filter Handled.isMail = [.mail l.sender [l.recipient] l.text] ∧
        ∀ time, ¬ crlf <:+: time → ∃ t, l.IsTransaction time t ∧ l.Shown md5 time t := by
  refine ⟨l.form_sent hbody huser cookies ha, fun as d hgreeted hrun hfin => ?_⟩
  refine ⟨l.mails_sent hgreeted hrun hfin, fun time htime => ?_⟩
  obtain ⟨t, ht⟩ := l.exists_transaction htime
  exact ⟨t, ht, Note.shown ht hlocal htime⟩

/-- Bob's greetings to amy. -/
def bobsNote : Note where
  user := "bob".toList
  recipient := "amy@localhost".toList
  subject := "hi".toList
  content := "QUIT\r\n..\r\nDATA".toList
  user_plain := bobs_plain
  recipient_plain := amys_plain _ List.mem_cons_self
  text_plain := by decide +kernel
  subject_line := by decide
  noBar := by decide

theorem bobsNote_posted : ∃ d c mails,
    Frontend.handle
      (mailRequest (mailForm bobsNote.recipient bobsNote.subject bobsNote.content) []) {}
      { username := "bob".toList } = some ({ username := "bob".toList }, [bobsNote.sent]) ∧
    Lib.run Dialogue.step (Dialogue.start bobsNote.sent.writes) greetingsRun = some d ∧ d.Finished ∧
    d.server.handled.filter Handled.isMail
      = [.mail bobsNote.sender [bobsNote.recipient] bobsNote.text] ∧
    Cloud.recvfrom (fun _ _ => 0) c "amy".toList .inbox = some mails ∧ ∃ e ∈ mails,
      Response.parseHeader e.header = (bobsNote.sender, bobsNote.recipient,
        bobsNote.subject, "Mon".toList) ∧
      e.content = bobsNote.content ++ crlf := by
  have hplain : ∀ s : Str, (∀ c ∈ s, c ∉ reserved) → Lib.Coded FormCode s s := fun s hs =>
    Lib.Coded.refl fun c hc => Or.inl ⟨hs c hc, rfl⟩
  have hform : bobsNote.Form (mailForm bobsNote.recipient bobsNote.subject bobsNote.content) :=
    ⟨_, _, _, hplain _ (by simp [bobsNote, reserved]), hplain _ (by simp [bobsNote, reserved]),
      hplain _ (by simp [bobsNote, reserved]), rfl⟩
  obtain ⟨hsent, hposted⟩ := mail_posted (fun _ _ => 0) bobsNote (by decide) hform
    (s := { username := "bob".toList }) rfl [] (a := {}) rfl
  have hruns : (Lib.run Dialogue.step (Dialogue.start bobsNote.sent.writes) greetingsRun).map
    Dialogue.client
      = some (.writing []) := by decide +kernel
  obtain ⟨d, hrun, hfin⟩ := Option.map_eq_some_iff.mp hruns
  have hgreeted : Lib.Guarded Dialogue.step Dialogue.Greeted (Dialogue.start bobsNote.sent.writes)
    greetingsRun := by
    decide +kernel
  obtain ⟨hmails, hshown⟩ := hposted greetingsRun d hgreeted hrun hfin
  obtain ⟨t, ⟨hsender, hrcpts, hdata, htime⟩, hshown⟩ := hshown "Mon".toList (by decide)
  obtain ⟨sender, rcpts, data, time, hname, hnames, hrows, hdot, hline⟩ := t
  cases hsender
  cases hrcpts
  cases hdata
  cases htime
  have hdelivers : (handleMails (fun _ _ => 0) ([annsNote] ++
      { sender := bobsNote.sender, rcpts := [bobsNote.recipient], data := bobsNote.text,
        time := "Mon".toList
        sender_name := Note.name_of_plain bobs_plain
        rcpts_name :=
          fun _ hr => List.mem_singleton.mp hr ▸ Note.name_of_plain bobsNote.recipient_plain
        data_rows := rows_mailText bobsNote.subject bobsNote.content
        data_dot := bobsNote.dot_notMem
        time_line := annsNote.time_line } :: []) newCloud).isSome = true := by
    decide +kernel
  obtain ⟨c, hc⟩ := Option.isSome_iff_exists.mp hdelivers
  obtain ⟨mails, hreceived, hmail⟩ := hshown newCloud c [annsNote] [] newCloud_kept hc
    fun _ h => absurd h List.not_mem_nil
  have hamy : userOf bobsNote.recipient = "amy".toList := by decide
  rw [hamy] at hreceived
  exact ⟨d, c, mails, hsent, hrun, hfin, hmails, hreceived, hmail⟩

end PennCloud
