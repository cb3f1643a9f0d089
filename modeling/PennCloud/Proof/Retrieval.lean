import PennCloud.Proof.MailText
import PennCloud.Webmail.Delivery

/-!
# Delivered mail can be read back

While messages are delivered one at a time and none is deleted, every list names
mails that are there, and a mail stays as it was stored until a message with the
same text reaches the same mailbox. The column of a mail being the hash of its
text, such a message is stored in the very cell: it leaves the mailbox with one
mail, under the header of the later sender. What `extract_email` returns as the
content of a mail is its text without the first line.
-/

namespace PennCloud

open Str

/-! ## The requests of a delivery -/

theorem userOf_name {m : Str} (h : Name m) : Name (userOf m) := by
  have hin : userOf m <:+: m := by
    rw [userOf, substr]
    split
    · exact (List.drop_suffix _ _).isInfix
    · exact (List.take_prefix _ _).isInfix.trans (List.drop_suffix _ _).isInfix
  exact ⟨fun hc => h.noAngle (hin.subset hc), fun hc => h.noCrlf (hc.trans hin)⟩

theorem mailCol_name (box : Box) (h : Hash) : Name (box.mailCol h.text) := by
  have hpath : '>' ∉ box.path ∧ '\r' ∉ box.path := by cases box <;> decide
  have hnot : ∀ c ∈ ['>', '\r'], c ∉ box.mailCol h.text := by
    intro c hc hmem
    rcases List.mem_append.mp hmem with hmem | hmem
    · rcases List.mem_pair.mp hc with rfl | rfl
      · exact hpath.1 hmem
      · exact hpath.2 hmem
    · rcases List.mem_pair.mp hc with rfl | rfl
      · exact h.notMem (by decide) hmem
      · exact h.cr_notMem hmem
  exact ⟨hnot _ (by simp), fun hin => hnot '\r' (by simp) (hin.subset (by simp [crlf]))⟩

/-- Rows without a dot line among them are what a body can carry. -/
theorem payload_of_rows {d : Str} (hd : Rows d) (hdot : ¬ dotLine <:+: crlf ++ d) : Payload d := by
  obtain ⟨x, hx⟩ : crlf <:+ crlf ++ d := by
    rcases hd with rfl | h
    · exact List.suffix_refl _
    · exact h.trans (List.suffix_append _ _)
  have hlen : x.length = d.length := by
    have hlen := congrArg List.length hx
    simp only [List.length_append] at hlen
    omega
  have htext : crlf ++ d ++ ['.', '\r', '\n'] = x ++ dotLine ++ [] := by
    rw [← hx]
    simp [dotLine, crlf]
  rw [Payload, htext, ← hlen]
  obtain ⟨i, hi⟩ := Lib.firstIdx_isSome (show dotLine <:+: x ++ dotLine ++ [] from ⟨x, [], rfl⟩)
  obtain ⟨u, v, huv, rfl⟩ := Lib.firstIdx_split hi
  rcases Nat.lt_or_eq_of_le (Lib.firstIdx_le hi) with hlt | heq
  · -- an earlier dot line lies within the text, or overlaps the last one
    exfalso
    rw [List.append_nil, List.append_assoc] at huv
    obtain ⟨r, rfl⟩ : ∃ r, x = u ++ r := by
      rcases List.append_eq_append_iff.mp huv with ⟨r, rfl, -⟩ | ⟨r, hr, -⟩
      · simp only [List.length_append] at hlt
        omega
      · exact ⟨r, hr⟩
    rw [List.append_assoc] at huv
    have hr : r ++ dotLine = dotLine ++ v := List.append_cancel_left huv
    rcases r with _ | ⟨a, _ | ⟨b, _ | ⟨c, r⟩⟩⟩
    · rw [List.append_nil] at hlt
      exact Nat.lt_irrefl _ hlt
    · simp [dotLine] at hr
    · simp [dotLine] at hr
    · have hrest : r ++ dotLine = crlf ++ v := by
        simp only [dotLine, crlf, List.cons_append, List.nil_append, List.cons.injEq] at hr ⊢
        exact hr.2.2.2
      have hfront : [a, b, c] = ['\r', '\n', '.'] := by
        simp only [dotLine, List.cons_append, List.nil_append, List.cons.injEq] at hr
        simp [hr.1, hr.2.1, hr.2.2.1]
      have hpre : crlf <+: r ++ crlf := by
        refine Lib.prefix_of_append_eq (w := v) (z := ['.', '\r', '\n']) ?_ (by simp)
        rw [← hrest]
        simp [dotLine, crlf]
      obtain ⟨w, hw⟩ := hpre
      refine hdot ⟨u, w, ?_⟩
      have hcut : a :: b :: c :: r ++ crlf = dotLine ++ w := by
        have happ : a :: b :: c :: r ++ crlf = [a, b, c] ++ (r ++ crlf) := rfl
        rw [happ, hfront, ← hw]
        rfl
      rw [← hx, List.append_assoc u dotLine w, List.append_assoc u _ crlf, hcut]
  · rw [hi, heq]

/-- Lines without the dot line stay so behind a header line. -/
theorem dotLine_header {data : Str} : ∀ {header : Str}, ¬ crlf <:+: header →
    dotLine <:+: header ++ (crlf ++ data) → dotLine <:+: crlf ++ data
  | [], _, h => h
  | c :: header, hline, h => by
      rcases List.infix_cons_iff.mp h with hpre | hin
      · -- the line break would begin in the header
        exfalso
        have hcr := (List.cons_prefix_cons.mp hpre).1
        have hnext := (List.cons_prefix_cons.mp hpre).2
        cases header with
        | nil => exact absurd (List.cons_prefix_cons.mp hnext).1 (by decide)
        | cons d header =>
            have hnl := (List.cons_prefix_cons.mp hnext).1
            exact hline ⟨[], header, by rw [← hcr, ← hnl]; rfl⟩
      · exact dotLine_header (fun hc => hline (hc.trans (List.suffix_cons c header).isInfix)) hin

/-- **The `PUT` of a mail is a well-formed request.** -/
theorem put_wf (t : Transaction) {m header : Str} (box : Box) (h : Hash) (hm : Name m)
    (hmark : headerMark <+: header) (hheader : ¬ crlf <:+: header) :
    (Request.put (userOf m) (box.mailCol h.text) (header ++ crlf ++ t.data)).WF := by
  refine ⟨userOf_name hm, mailCol_name box h, payload_of_rows ?_ fun hdot => ?_⟩
  · rcases t.data_rows with hnil | hends
    · rw [hnil, List.append_nil]
      exact Or.inr (List.suffix_append _ _)
    · exact Or.inr (hends.trans (List.suffix_append _ _))
  · obtain ⟨tail, rfl⟩ : ∃ tail, header = 'H' :: tail := by
      obtain ⟨u, rfl⟩ := hmark
      exact ⟨"eader |".toList ++ u, rfl⟩
    have hopens : dotLine <:+: 'H' :: tail ++ (crlf ++ t.data) := by
      rw [← List.append_assoc]
      rcases List.infix_cons_iff.mp hdot with hpre | hin
      · exact absurd hpre (by simp [dotLine])
      · rcases List.infix_cons_iff.mp hin with hpre | hin
        · exact absurd hpre (by simp [dotLine])
        · exact hin
    exact t.data_dot (dotLine_header hheader hopens)

/-- So is the `CPUT` of its list. -/
theorem cput_wf {m : Str} (box : Box) (hs gs : List Hash) (hm : Name m) :
    (Request.cput (userOf m) box.listCol (listText hs) (listText gs)).WF := by
  have hlist : ∀ l : List Hash, Payload (listText l) := by
    intro l
    refine payload_of_rows (Or.inr ?_) fun hdot => ?_
    · exact (show crlf <:+ listMark from ⟨['l', 'i', 's', 't'], rfl⟩).trans (List.suffix_append _ _)
    · -- a list has no dot at all
      have hmem : '.' ∈ crlf ++ listText l := hdot.subset (by decide)
      rcases List.mem_append.mp hmem with hmem | hmem
      · exact absurd hmem (by decide)
      · rcases List.mem_append.mp hmem with hmem | hmem
        · obtain ⟨h, -, hin⟩ := List.mem_flatMap.mp hmem
          rcases List.mem_append.mp hin with hin | hin
          · exact h.notMem (by decide) hin
          · exact absurd hin (by decide)
        · exact absurd hmem (by decide)
  have hcol : Name box.listCol := by cases box <;> decide
  exact ⟨userOf_name hm, hcol, hlist hs, hlist gs⟩

theorem infix_serverOf (m : Str) : serverOf m <:+: m := by
  rw [serverOf, substr, if_pos (by decide)]
  exact (List.drop_suffix _ _).isInfix

/-- The header in an inbox is one line, if its fields are. -/
theorem inboxHeader_line {sender rcpt title time : Str} (hsender : ¬ crlf <:+: sender)
    (hrcpt : ¬ crlf <:+: rcpt) (htitle : ¬ crlf <:+: title) (htime : ¬ crlf <:+: time) :
    ¬ crlf <:+: inboxHeader sender rcpt title time := by
  have hserver : ¬ crlf <:+: serverOf rcpt := fun h => hrcpt (h.trans (infix_serverOf rcpt))
  have hsplit : inboxHeader sender rcpt title time = "Header ".toList ++ '|' :: (serverOf rcpt ++
      '|' :: (sender ++ '|' :: (rcpt ++ '|' :: (title ++ '|' :: time)))) := by
    have hmark : headerMark = "Header ".toList ++ ['|'] := by decide
    rw [inboxHeader, hmark, List.append_assoc, List.append_assoc]
    rfl
  rw [hsplit]
  simp only [Lib.infix_mid (show '|' ∉ crlf by decide), not_or]
  exact ⟨by decide, hserver, hsender, hrcpt, htitle, htime⟩

/-! ## What a message makes of the mailboxes -/

theorem headerMark_inboxMail (sender rcpt title time data : Str) :
    headerMark <+: inboxHeader sender rcpt title time ++ crlf ++ data := by
  rw [List.append_assoc]
  exact (headerMark_inbox sender rcpt title time).trans (List.prefix_append _ _)

theorem headerMark_outbox (sender : Str) (rcpts : List Str) (title time data : Str) :
    headerMark <+: outboxHeader sender rcpts title time ++ crlf ++ data := by
  have hlast : (headerMark ++ "localhost|".toList ++ sender ++ '|'
    :: rcpts.flatMap (· ++ [','])).dropLast
      = headerMark ++ ("localhost|".toList ++ sender ++ '|'
        :: rcpts.flatMap (· ++ [','])).dropLast := by
    rw [← List.dropLast_append_of_ne_nil (by simp)]
    simp only [List.append_assoc]
  rw [outboxHeader, hlast, List.append_assoc, List.append_assoc, List.append_assoc]
  exact List.prefix_append _ _

section Deliveries

variable {md5 : Str → Nat → Fin 256} {t : Transaction} {J : Cloud → Prop} {title : Str}

/-- What every delivery to a recipient keeps. -/
theorem deliverAll_keeps : ∀ {rcpts : List Str} {c c' : Cloud},
    (∀ r ∈ rcpts, isLocal r = true → ∀ c c', J c → c.deliver (userOf r) .inbox (hashMD5 md5 t.data)
      (inboxHeader t.sender r title t.time ++ crlf ++ t.data) = some c' → J c') →
    J c → deliverAll md5 t title rcpts c = some c' → J c'
  | [], c, c', _, hc, h => Option.some.inj h ▸ hc
  | rcpt :: rcpts, c, c', hkeep, hc, h => by
      rw [deliverAll] at h
      obtain ⟨u, hu, h⟩ := Option.bind_eq_some_iff.mp h
      refine deliverAll_keeps (fun r hr => hkeep r (List.mem_cons_of_mem _ hr)) ?_ h
      split at hu
      · rename_i hlocal
        exact hkeep rcpt List.mem_cons_self hlocal c u hc hu
      · exact Option.some.inj hu ▸ hc

theorem kept_deliverAll {rcpts : List Str} {c c' : Cloud} (hc : c.Kept)
    (h : deliverAll md5 t title rcpts c = some c') : c'.Kept :=
  deliverAll_keeps (fun r _ _ _ _ hu hd =>
    Cloud.kept_deliver hu (headerMark_inboxMail t.sender r title t.time t.data) hd) hc h

theorem kept_handleMail {c c' : Cloud} (hc : c.Kept) (h : handleMail md5 t c = some c') :
    c'.Kept := by
  obtain ⟨title, -, h⟩ := Option.bind_eq_some_iff.mp h
  obtain ⟨u, hu, h⟩ := Option.bind_eq_some_iff.mp h
  exact kept_deliverAll (Cloud.kept_deliver hc (headerMark_outbox _ _ _ _ _) hu) h

theorem kept_handleMails : ∀ {ts : List Transaction} {c c' : Cloud}, c.Kept →
    handleMails md5 ts c = some c' → c'.Kept
  | [], _, _, hc, h => Option.some.inj h ▸ hc
  | t :: ts, c, c', hc, h => by
      obtain ⟨u, hu, h⟩ := Option.bind_eq_some_iff.mp h
      exact kept_handleMails (kept_handleMail hc hu) h

/-- A mail in the inbox of `user` as `t` puts it there, for one of the user's addresses. -/
def Transaction.IsMail (t : Transaction) (user title mail : Str) : Prop :=
  ∃ rcpt time, userOf rcpt = user ∧ Name rcpt ∧ ¬ crlf <:+: time ∧
    mail = inboxHeader t.sender rcpt title time ++ crlf ++ t.data

variable {user : Str} {c c' : Cloud}

/-- A message to the user puts its mail there, for every local address. -/
theorem holds_own {r : Str} (hlocal : isLocal r = true) : ∀ {rcpts : List Str} {c c' : Cloud},
    (∀ m ∈ rcpts, Name m) → r ∈ rcpts → c.Kept → deliverAll md5 t title rcpts c = some c' →
    c'.Holds (userOf r) .inbox (hashMD5 md5 t.data) (t.IsMail (userOf r) title)
  | [], _, _, _, hr, _, _ => absurd hr List.not_mem_nil
  | rcpt :: rcpts, c, c', hnames, hr, hc, h => by
      have hmail : ∀ m ∈ rcpt :: rcpts, userOf m = userOf r →
          t.IsMail (userOf r) title (inboxHeader t.sender m title t.time ++ crlf ++ t.data) :=
        fun m hm he => ⟨m, t.time, he, hnames m hm, t.time_line, rfl⟩
      rw [deliverAll] at h
      obtain ⟨u, hu, hrest⟩ := Option.bind_eq_some_iff.mp h
      have hkept : u.Kept := by
        split at hu
        · exact Cloud.kept_deliver hc (headerMark_inboxMail t.sender rcpt title t.time t.data) hu
        · exact Option.some.inj hu ▸ hc
      rcases List.mem_cons.mp hr with rfl | hr
      · rw [if_pos hlocal] at hu
        have hown := Cloud.holds_delivered hc (hmail r List.mem_cons_self rfl) hu
        refine (deliverAll_keeps (J := fun c => c.Kept ∧ c.Holds (userOf r) .inbox
          (hashMD5 md5 t.data) (t.IsMail (userOf r) title)) ?_ ⟨hkept, hown⟩ hrest).2
        intro m hm _ c c' hJ hd
        exact ⟨Cloud.kept_deliver hJ.1 (headerMark_inboxMail t.sender m title t.time t.data) hd,
          Cloud.holds_deliver hJ.1 hJ.2
            (fun hrow _ _ => hmail m (List.mem_cons_of_mem _ hm) hrow.symm) hd⟩
      · exact holds_own hlocal (fun m hm => hnames m (List.mem_cons_of_mem _ hm)) hr hkept hrest

/-- A later message leaves the mail there, or writes one of the same sender over it. -/
theorem holds_handleMail {t' : Transaction} (htitle : mailTitle t.data = some title)
    (hcoll : hashMD5 md5 t'.data = hashMD5 md5 t.data → t'.data = t.data)
    (hsame : t'.data = t.data →
      (∃ r ∈ t'.rcpts, isLocal r = true ∧ userOf r = user) → t'.sender = t.sender)
    (hc : c.Kept) (hold : c.Holds user .inbox (hashMD5 md5 t.data) (t.IsMail user title))
    (h : handleMail md5 t' c = some c') :
    c'.Holds user .inbox (hashMD5 md5 t.data) (t.IsMail user title) := by
  obtain ⟨title', htitle', h⟩ := Option.bind_eq_some_iff.mp h
  obtain ⟨u, hu, h⟩ := Option.bind_eq_some_iff.mp h
  have hkept := Cloud.kept_deliver hc (headerMark_outbox _ _ _ _ _) hu
  have hstill := Cloud.holds_deliver hc hold (fun _ hbox _ => by cases hbox) hu
  refine (deliverAll_keeps (J := fun c => c.Kept ∧ c.Holds user .inbox (hashMD5 md5 t.data)
    (t.IsMail user title)) ?_ ⟨hkept, hstill⟩ h).2
  intro r hr hlocal c c' hJ hd
  refine ⟨Cloud.kept_deliver hJ.1 (headerMark_inboxMail t'.sender r title' t'.time t'.data) hd,
    Cloud.holds_deliver hJ.1 hJ.2 ?_ hd⟩
  intro hrow _ hhash
  have hdata := hcoll hhash.symm
  have hsender := hsame hdata ⟨r, hr, hlocal, hrow.symm⟩
  obtain rfl : title = title' := by
    rw [hdata, htitle] at htitle'
    exact Option.some.inj htitle'
  exact ⟨r, t'.time, hrow.symm, t'.rcpts_name r hr, t'.time_line, by rw [hdata, hsender]⟩

theorem holds_handleMails (htitle : mailTitle t.data = some title) :
    ∀ {after : List Transaction} {c c' : Cloud},
    (∀ t' ∈ after, hashMD5 md5 t'.data = hashMD5 md5 t.data → t'.data = t.data) →
    (∀ t' ∈ after, t'.data = t.data →
      (∃ r ∈ t'.rcpts, isLocal r = true ∧ userOf r = user) → t'.sender = t.sender) →
    c.Kept → c.Holds user .inbox (hashMD5 md5 t.data) (t.IsMail user title) →
    handleMails md5 after c = some c' →
    c'.Holds user .inbox (hashMD5 md5 t.data) (t.IsMail user title)
  | [], _, _, _, _, _, hold, h => Option.some.inj h ▸ hold
  | t' :: after, c, c', hcoll, hsame, hc, hold, h => by
      obtain ⟨u, hu, h⟩ := Option.bind_eq_some_iff.mp h
      exact holds_handleMails htitle (fun s hs => hcoll s (List.mem_cons_of_mem _ hs))
        (fun s hs => hsame s (List.mem_cons_of_mem _ hs)) (kept_handleMail hc hu)
        (holds_handleMail htitle (hcoll t' List.mem_cons_self) (hsame t' List.mem_cons_self) hc
          hold hu) h

theorem handleMails_append (before after : List Transaction) (c : Cloud) :
    handleMails md5 (before ++ after) c
      = (handleMails md5 before c).bind (handleMails md5 after) := by
  induction before generalizing c with
  | nil => rfl
  | cons t before ih =>
      rw [List.cons_append, handleMails, handleMails]
      cases handleMail md5 t c with
      | none => rfl
      | some u => exact ih u

end Deliveries

/-! ## Reading a mailbox back -/

/-- The title of a text with a subject is of one line. -/
theorem mailTitle_line {data title : Str} (hsubject : subjectMark <:+: data)
    (htitle : mailTitle data = some title) : ¬ crlf <:+: title := by
  obtain ⟨i, hi⟩ := Lib.firstIdx_isSome hsubject
  obtain ⟨a, b, rfl, rfl⟩ := Lib.firstIdx_split hi
  have hmark : subjectMark = 'S' :: "ubject: ".toList := by decide
  have hlen : (a ++ subjectMark).length = a.length + 9 := by
    rw [List.length_append, show subjectMark.length = 9 by decide]
  have hrest : (a ++ subjectMark ++ b).drop (a.length + 9) = b := by rw [← hlen, List.drop_left]
  have hnext : findFrom (a ++ subjectMark ++ b) crlf ((a.length : Int) + 1)
      = (Lib.firstIdx crlf b).elim npos fun j => (a.length : Int) + 9 + j := by
    have hpos : ((a.length : Int) + 1).toNat = a.length + 1 := by omega
    have hdrop : (a ++ subjectMark ++ b).drop (a.length + 1) = "ubject: ".toList ++ b := by
      rw [hmark, List.append_assoc, List.cons_append, List.drop_length_add_append]
      rfl
    have hskip : Lib.firstIdx crlf ("ubject: ".toList ++ b)
        = (Lib.firstIdx crlf b).map (8 + ·) := Lib.firstIdx_skip b (by decide)
    rw [findFrom, hpos, hdrop, hskip]
    cases Lib.firstIdx crlf b with
    | none => rfl
    | some j =>
        simp only [Option.map_some, Option.elim_some]
        omega
  rw [mailTitle, find_of_firstIdx hi] at htitle
  split at htitle
  · cases htitle
  · have hstart : ((a.length : Int) + 9).toNat = a.length + 9 := by omega
    have htext := Option.some.inj htitle
    rw [hnext] at htext
    cases hj : Lib.firstIdx crlf b with
    | none =>
        -- the title reaches to the end
        have hneg : npos - (a.length : Int) - 9 < 0 := by
          rw [npos]
          omega
        simp only [hj, Option.elim_none, substr, if_pos hneg, hstart, hrest] at htext
        exact htext ▸ Lib.firstIdx_eq_none.mp hj
    | some j =>
        have hcount : (a.length : Int) + 9 + j - a.length - 9 = j := by omega
        have hnot : ¬ (j : Int) < 0 := by omega
        simp only [hj, Option.elim_some, hcount, substr, if_neg hnot, hstart, hrest,
          Int.toNat_natCast] at htext
        exact htext ▸ Lib.not_infix_take hj (by decide)

/-- The end of a line, looked for from its beginning. -/
theorem findFrom_line (pre rest : Str) {l : Str} (hl : ¬ crlf <:+: l) {i : Int}
    (hi : i = pre.length) :
    findFrom (pre ++ (l ++ crlf ++ rest)) crlf i = pre.length + l.length := by
  have hpos : i.toNat = pre.length := by omega
  have hidx : Lib.firstIdx crlf (l ++ crlf ++ rest) = some l.length :=
    Lib.firstIdx_pair (by decide) rest hl
  rw [findFrom, hpos, List.drop_left, hidx]

/-- A stored mail comes back as its header and its text without the first line. -/
theorem extractEmail_mail (md5 : Str → Nat → Fin 256) {header line : Str}
    (hmark : headerMark <+: header) (hheader : ¬ crlf <:+: header) (hline : ¬ crlf <:+: line)
    (rest : Str) :
    extractEmail md5 (header ++ crlf ++ (line ++ crlf ++ rest)) = some
      { header := header, content := rest, hash := hashMD5 md5 (line ++ crlf ++ rest) } := by
  obtain ⟨tail, rfl⟩ : ∃ tail, header = 'H' :: tail := by
    obtain ⟨u, rfl⟩ := hmark
    exact ⟨"eader |".toList ++ u, rfl⟩
  have hfirst : find ('H' :: tail ++ crlf ++ (line ++ crlf ++ rest)) "Header ".toList = 0 := by
    refine find_of_firstIdx (Lib.firstIdx_zero ?_)
    have hpre : "Header ".toList <+: headerMark := ⟨['|'], by decide⟩
    rw [List.append_assoc]
    exact (hpre.trans hmark).trans (List.prefix_append _ _)
  have htail : ¬ crlf <:+: tail := fun h => hheader (h.trans (List.suffix_cons 'H' tail).isInfix)
  have hsecond : findFrom ('H' :: tail ++ crlf ++ (line ++ crlf ++ rest)) crlf 1
      = (tail.length : Int) + 1 := by
    have hend := findFrom_line ['H'] (line ++ crlf ++ rest) htail (i := 1) rfl
    rwa [Int.add_comm] at hend
  have hnl : ¬ crlf <:+: '\n' :: line := by
    rw [List.infix_cons_iff, not_or]
    exact ⟨fun h => absurd (List.cons_prefix_cons.mp h).1 (by decide), hline⟩
  have hthird : findFrom ('H' :: tail ++ crlf ++ (line ++ crlf ++ rest)) crlf
    ((tail.length : Int) + 1 + 1)
      = (tail.length : Int) + line.length + 3 := by
    have hsplit : 'H' :: tail ++ crlf ++ (line ++ crlf ++ rest)
        = ('H' :: tail ++ ['\r']) ++ ('\n' :: line ++ crlf ++ rest) := by simp [crlf]
    rw [hsplit, findFrom_line _ rest hnl (by simp)]
    simp only [List.length_append, List.length_cons, List.length_nil]
    omega
  have hheaderText : substr ('H' :: tail ++ crlf ++ (line ++ crlf ++ rest)) 0
    ((tail.length : Int) + 1 - 0)
      = 'H' :: tail := by
    have happ : 'H' :: tail ++ crlf ++ (line ++ crlf ++ rest)
        = [] ++ 'H' :: tail ++ (crlf ++ (line ++ crlf ++ rest)) := by simp
    rw [happ]
    refine substr_middle _ _ _ rfl ?_
    rw [List.length_cons]
    omega
  have htextFrom : substr ('H' :: tail ++ crlf ++ (line ++ crlf ++ rest))
    ((tail.length : Int) + 1 + 2)
      = line ++ crlf ++ rest := by
    refine substr_rest _ _ ?_
    simp only [List.length_append, List.length_cons, crlf, List.length_nil]
    omega
  have hcontent : substr ('H' :: tail ++ crlf ++ (line ++ crlf ++ rest))
      ((tail.length : Int) + line.length + 3 + 2) = rest := by
    rw [← List.append_assoc]
    refine substr_rest _ _ ?_
    simp only [List.length_append, List.length_cons, crlf, List.length_nil]
    omega
  have hfound : ¬ (0 : Int) = npos := by decide
  simp only [extractEmail, hfirst, Int.zero_add, hsecond, hthird, hheaderText, htextFrom, hcontent,
    if_neg hfound]

/-- Whatever begins like a header is taken for a mail. -/
theorem extractEmail_isSome (md5 : Str → Nat → Fin 256) (rest : Str) :
    ∃ e, extractEmail md5 (headerMark ++ rest) = some e := by
  have hfirst : find (headerMark ++ rest) "Header ".toList = 0 := by
    refine find_of_firstIdx (Lib.firstIdx_zero ?_)
    have hpre : "Header ".toList <+: headerMark := ⟨['|'], by decide⟩
    exact hpre.trans (List.prefix_append _ _)
  have hfound : ¬ (0 : Int) = npos := by decide
  simp only [extractEmail, hfirst, if_neg hfound]
  exact ⟨_, rfl⟩

theorem ask_get_some {s : Server} {row col d : Str} (h : s.table.at? row col = some d) :
    s.ask (.get row col) = some (d, s) := by
  obtain ⟨reply, v, hask⟩ : ∃ reply v, s.ask (.get row col) = some (reply, v) := ⟨_, _, rfl⟩
  obtain ⟨rfl, hat | ⟨hnone, -⟩⟩ := ask_get hask
  · rw [hask, Option.some.inj (h.symm.trans hat)]
  · exact absurd (h.symm.trans hnone) (by simp)

/-- Where every call returns, so does the loop, and with all they returned. -/
theorem mapM_returns {α β : Type} {f : α → Option β} : ∀ {as : List α},
    (∀ a ∈ as, ∃ b, f a = some b) →
    ∃ bs, as.mapM f = some bs ∧ ∀ a ∈ as, ∀ b, f a = some b → b ∈ bs
  | [], _ => ⟨[], rfl, fun _ ha => absurd ha List.not_mem_nil⟩
  | a :: as, h => by
      obtain ⟨b, hb⟩ := h a List.mem_cons_self
      obtain ⟨bs, hbs, hall⟩ := mapM_returns fun x hx => h x (List.mem_cons_of_mem _ hx)
      refine ⟨b :: bs, by simp [List.mapM_cons, hb, hbs], fun x hx c hc => ?_⟩
      rcases List.mem_cons.mp hx with rfl | hx
      · exact Option.some.inj (hb.symm.trans hc) ▸ List.mem_cons_self
      · exact List.mem_cons_of_mem _ (hall x hx c hc)

/-- **Every mail of a kept mailbox is shown.** -/
theorem recvfrom_holds (md5 : Str → Nat → Fin 256) {c : Cloud} {user : Str} {box : Box} {h : Hash}
    {P : Str → Prop} (hc : c.Kept) (hh : c.Holds user box h P) :
    ∃ mails mail, P mail ∧ c.recvfrom md5 user box = some mails ∧
      ∀ e, extractEmail md5 mail = some e → e ∈ mails := by
  obtain ⟨hs, hlist, hmem, mail, hcell, hP⟩ := hh
  obtain ⟨gs, hg, hmails⟩ := hc user box
  obtain rfl := Cloud.listIs_inj hg hlist
  have hlisted : c.cell user box.listCol = some (listText gs) := by
    rcases hlist with ⟨-, rfl⟩ | hsome
    · exact absurd hmem List.not_mem_nil
    · exact hsome
  have hfetch : ∀ g : Hash, ∀ m, c.cell user (box.mailCol g.text) = some m →
      ((c.node (c.home user)).ask (.get user (box.mailCol g.text))).bind
        (fun r => extractEmail md5 r.1) = extractEmail md5 m := by
    intro g m hm
    rw [ask_get_some hm]
    rfl
  have hreturns : ∀ hash ∈ gs.map Hash.text, ∃ mail,
      (((c.node (c.home user)).ask (.get user (box.mailCol hash))).bind
        fun r => extractEmail md5 r.1) = some mail := by
    intro text htext
    obtain ⟨g, hg, rfl⟩ := List.mem_map.mp htext
    obtain ⟨rest, hrest⟩ := hmails g hg
    rw [hfetch g _ hrest]
    exact extractEmail_isSome md5 rest
  obtain ⟨mails, hmap, hall⟩ := mapM_returns hreturns
  refine ⟨mails, mail, hP, ?_, fun e he => ?_⟩
  · simp only [Cloud.recvfrom, ask_get_some hlisted, Option.bind_some, Mailbox.compare1_listText,
      Bool.false_eq_true, if_false, recvHashes_listText]
    exact hmap
  · exact hall h.text (List.mem_map_of_mem hmem) e ((hfetch h mail hcell).trans he)

/--
**A mail for a local recipient can be read back** as long as no other sender's
message with the same text has come to the same user: under a header that names
its sender and title, and with its text but for the first line.
-/
theorem mail_retrievable (md5 : Str → Nat → Fin 256) {c c' : Cloud} {before after :
    List Transaction}
    {t : Transaction} {r : Str} (hc : c.Kept)
    (hrun : handleMails md5 (before ++ t :: after) c = some c')
    (hr : r ∈ t.rcpts) (hlocal : isLocal r = true) (hsubject : subjectMark <:+: t.data)
    (hcoll : ∀ t' ∈ after, hashMD5 md5 t'.data = hashMD5 md5 t.data → t'.data = t.data)
    (hsame : ∀ t' ∈ after, t'.data = t.data →
      (∃ m ∈ t'.rcpts, isLocal m = true ∧ userOf m = userOf r) → t'.sender = t.sender) :
    ∃ mails, c'.recvfrom md5 (userOf r) .inbox = some mails ∧
      ∃ e ∈ mails, ∃ rcpt title time line, userOf rcpt = userOf r ∧ mailTitle t.data = some title ∧
        e.header = inboxHeader t.sender rcpt title time ∧
        t.data = line ++ crlf ++ e.content ∧ ¬ crlf <:+: line := by
  rw [handleMails_append] at hrun
  obtain ⟨u, hbefore, hrun⟩ := Option.bind_eq_some_iff.mp hrun
  obtain ⟨v, hown, hafter⟩ := Option.bind_eq_some_iff.mp hrun
  have hu := kept_handleMails hc hbefore
  have hv := kept_handleMail hu hown
  obtain ⟨title, htitle, hown⟩ := Option.bind_eq_some_iff.mp hown
  obtain ⟨w, hw, hown⟩ := Option.bind_eq_some_iff.mp hown
  have hput := holds_own hlocal t.rcpts_name hr
    (Cloud.kept_deliver hu (headerMark_outbox _ _ _ _ _) hw) hown
  have hstill := holds_handleMails htitle hcoll hsame hv hput hafter
  obtain ⟨mails, mail, ⟨rcpt, time, huser, hname, htime, rfl⟩, hmails, hall⟩ :=
    recvfrom_holds md5 (kept_handleMails hv hafter) hstill
  obtain ⟨line, rest, hdata, hline⟩ := Rows.first t.data_rows (fun hnil => by
    rw [hnil, List.infix_nil] at hsubject
    exact absurd hsubject (by decide))
  have hmark : headerMark <+: inboxHeader t.sender rcpt title time := by
    rw [inboxHeader, List.append_assoc]
    exact List.prefix_append _ _
  have hextract := extractEmail_mail md5 hmark (inboxHeader_line t.sender_name.noCrlf hname.noCrlf
    (mailTitle_line hsubject htitle) htime) hline rest
  rw [← hdata] at hextract
  exact ⟨mails, hmails, _, hall _ hextract, rcpt, title, time, line, huser, htitle,
    rfl, hdata, hline⟩

def noteText : Str := "Subject: x\r\nhi\r\n".toList
def otherText : Str := "Subject: y\r\nho\r\n".toList

/-- The digests of the two texts. -/
def noteDigests (text : Str) (i : Nat) : Fin 256 :=
  (if text = noteText then
    [69, 106, 96, 157, 79, 124, 111, 127, 216, 41, 178, 218, 25, 242, 217, 8]
  else if text = otherText then
    [104, 56, 44, 69, 80, 132, 114, 59, 136, 255, 2, 190, 142, 152, 118, 241]
  else ([] : List UInt8)).getD i 0 |>.toFin

def annsNote : Transaction where
  sender := "ann@localhost".toList
  rcpts := ["bob@localhost".toList]
  data := noteText
  time := "Mon".toList
  sender_name := by decide
  rcpts_name := by decide
  data_rows := by decide
  data_dot := by decide
  time_line := by decide

/-- The same text from another sender. -/
def catsNote : Transaction :=
  { annsNote with sender := "cat@localhost".toList, sender_name := by decide }

def catsOther : Transaction :=
  { catsNote with data := otherText, data_rows := by decide, data_dot := by decide }

/-- One server, and no mail yet. -/
def newCloud : Cloud := { home := fun _ => 0, node := fun _ => { primary := true } }

theorem newCloud_kept : newCloud.Kept := fun row box =>
  ⟨[], Or.inl ⟨by simp [Cloud.cell, newCloud], rfl⟩, fun _ h => absurd h List.not_mem_nil⟩

theorem annsNote_retrievable : ∃ c mails,
    handleMails noteDigests ([catsOther] ++ annsNote :: [catsOther, annsNote]) newCloud = some c ∧
    c.recvfrom noteDigests "bob".toList .inbox = some mails ∧
    ∃ e ∈ mails, ∃ rcpt title time line, userOf rcpt = "bob".toList ∧
      mailTitle noteText = some title ∧
      e.header = inboxHeader "ann@localhost".toList rcpt title time ∧
      noteText = line ++ crlf ++ e.content ∧ ¬ crlf <:+: line := by
  have hrun : (handleMails noteDigests ([catsOther] ++ annsNote :: [catsOther, annsNote])
      newCloud).isSome = true := by decide +kernel
  obtain ⟨c, hc⟩ := Option.isSome_iff_exists.mp hrun
  have hretrievable := mail_retrievable noteDigests newCloud_kept hc List.mem_cons_self (by decide)
    (by decide) (by decide +kernel) (by decide +kernel)
  have huser : userOf "bob@localhost".toList = "bob".toList := by decide
  rw [huser] at hretrievable
  obtain ⟨mails, hmails, hmail⟩ := hretrievable
  exact ⟨c, mails, hc, hmails, hmail⟩

/-- Two senders of one text: the inbox shows the later one's mail, and no subject line. -/
theorem catsNote_only : ∃ c mails,
    handleMails noteDigests [annsNote, catsNote] newCloud = some c ∧
    c.recvfrom noteDigests "bob".toList .inbox = some mails ∧
    ∀ e ∈ mails, ¬ annsNote.sender <:+: e.header ∧ e.content ≠ noteText := by
  have hrun : ((handleMails noteDigests [annsNote, catsNote] newCloud).bind fun c =>
      (c.recvfrom noteDigests "bob".toList .inbox).map (·.map fun e => (e.header, e.content)))
      = some [(inboxHeader "cat@localhost".toList "bob@localhost".toList "x".toList "Mon".toList,
        "hi\r\n".toList)] := by decide +kernel
  obtain ⟨c, hc, hmap⟩ := Option.bind_eq_some_iff.mp hrun
  obtain ⟨mails, hmails, hshown⟩ := Option.map_eq_some_iff.mp hmap
  refine ⟨c, mails, hc, hmails, fun e he => ?_⟩
  have hmem := List.mem_map_of_mem (f := fun e : Email => (e.header, e.content)) he
  rw [hshown, List.mem_singleton, Prod.mk.injEq] at hmem
  rw [hmem.1, hmem.2]
  decide

end PennCloud
