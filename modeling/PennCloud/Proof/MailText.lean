import PennCloud.Webmail.SmtpSteps

/-!
# What becomes of a message text

`sendto_smpt_server` writes a text line by line and ends it with a dot line, and
`handle_data` ends a message at the first line that is a dot. Neither doubles a
leading dot, so the two agree on the end of a text exactly when no line of it is a
dot by itself; a line that does not fit the buffer, or has a zero byte, does not
get through either.

The client's loop cuts the text into its lines and drops nothing of it, so both
directions are inductions on these lines.
-/

namespace PennCloud

open Str

/-! ## The lines of a text -/

/-- A text of whole lines. -/
def Rows (text : Str) : Prop := text = [] ∨ crlf <:+ text

/-- Behind the first line of such a text is such a text. -/
theorem Rows.rest {l b : Str} (h : Rows (l ++ crlf ++ b)) : Rows b := by
  have hsuffix : crlf <:+ l ++ crlf ++ b := h.resolve_left (by simp [crlf])
  rcases Nat.lt_or_ge b.length 2 with hlt | hge
  · cases b with
    | nil => exact Or.inl rfl
    | cons c b =>
        -- two line breaks cannot overlap in one letter
        exfalso
        have hb : b = [] := List.length_eq_zero_iff.mp (by rw [List.length_cons] at hlt; omega)
        subst hb
        obtain ⟨u, hu⟩ := hsuffix
        have hcat : u ++ ['\r'] ++ ['\n'] = l ++ ['\r'] ++ ['\n'] ++ [c] := by
          simpa [crlf] using hu
        have hcr := List.append_inj' (List.append_inj' hcat rfl).1 rfl
        exact absurd hcr.2 (by decide)
  · exact Or.inr (List.suffix_of_suffix_length_le hsuffix (List.suffix_append _ b) hge)

/-- A text of whole lines begins with one. -/
theorem Rows.first {text : Str} (h : Rows text) (hne : text ≠ []) :
    ∃ l b, text = l ++ crlf ++ b ∧ ¬ crlf <:+: l := by
  obtain ⟨i, hi⟩ := Lib.firstIdx_isSome (h.resolve_left hne).isInfix
  obtain ⟨l, b, rfl, hl⟩ := Lib.firstIdx_split hi
  refine ⟨l, b, rfl, fun hin => ?_⟩
  obtain ⟨j, hj⟩ := Lib.firstIdx_isSome hin
  obtain ⟨u, v, huv, hu⟩ := Lib.firstIdx_split hj
  have hij := Lib.firstIdx_append (crlf ++ b) hj
  rw [← List.append_assoc, hi] at hij
  have hlen := congrArg List.length huv
  simp only [List.length_append, crlf, List.length_cons, List.length_nil] at hlen
  have := Option.some.inj hij
  omega

/-- The client's loop, from where it stands in the text. -/
theorem sendLines_spec : ∀ (fuel : Nat) (a text : Str) (prev : Int), (a.length : Int) = prev + 2 →
    Rows text → text.length ≤ fuel → (sendLines (a ++ text) fuel prev).flatten = text ∧
      ∀ line ∈ sendLines (a ++ text) fuel prev, IsLine line
  | 0, a, text, prev, _, _, hfuel => by
      obtain rfl := List.length_eq_zero_iff.mp (Nat.le_zero.mp hfuel)
      exact ⟨rfl, fun _ h => absurd h List.not_mem_nil⟩
  | fuel + 1, a, text, prev, hprev, htext, hfuel => by
      have hdrop : (a ++ text).drop (prev + 2).toNat = text := by
        rw [← hprev, Int.toNat_natCast, List.drop_left]
      by_cases hne : text = []
      · subst hne
        have hnext : findFrom (a ++ []) crlf (prev + 2) = npos := by
          rw [findFrom, hdrop]
          rfl
        rw [sendLines, hnext, if_pos rfl]
        exact ⟨rfl, fun _ h => absurd h List.not_mem_nil⟩
      · obtain ⟨l, b, rfl, hl⟩ := htext.first hne
        have hnext : findFrom (a ++ (l ++ crlf ++ b)) crlf (prev + 2) = a.length + l.length := by
          have hfirst : Lib.firstIdx crlf (l ++ crlf ++ b) = some l.length :=
            Lib.firstIdx_pair (by decide) b hl
          simp only [findFrom, hdrop, hfirst]
          omega
        have hline : (a ++ (l ++ crlf ++ b)).substr (prev + 2) (a.length + l.length - prev)
            = l ++ crlf := by
          rw [← List.append_assoc]
          exact substr_middle _ _ _ hprev.symm (by simp [crlf]; omega)
        have hfound : ¬ ((a.length : Int) + l.length = npos) := by
          rw [npos]
          omega
        obtain ⟨hflat, hrows⟩ := sendLines_spec fuel (a ++ (l ++ crlf)) b (a.length + l.length)
          (by simp [crlf]; omega) htext.rest (by simp [crlf] at hfuel; omega)
        rw [sendLines, hnext, if_neg hfound, hline]
        rw [List.append_assoc a (l ++ crlf) b] at hflat hrows
        refine ⟨by rw [List.flatten_cons, hflat], fun line hmem => ?_⟩
        rcases List.mem_cons.mp hmem with rfl | hmem
        · exact ⟨l, rfl, hl⟩
        · exact hrows line hmem

/-- **The client sends the text line by line and drops nothing of it.** -/
theorem messageLines_spec {text : Str} (h : Rows text) :
    (messageLines text).flatten = text ∧ ∀ line ∈ messageLines text, IsLine line :=
  sendLines_spec text.length [] text (-2) (by simp) h (Nat.le_refl _)

theorem rows_mailText (subject content : Str) : Rows (mailText subject content) :=
  Or.inr (List.suffix_append _ _)

/-- The title of a message of `handle_send_email` is there. -/
theorem mailTitle_mailText (subject content : Str) :
    ∃ title, mailTitle (mailText subject content) = some title := by
  have hfirst : Lib.firstIdx subjectMark (mailText subject content) = some 0 := by
    rw [mailText, List.append_assoc, List.append_assoc, List.append_assoc]
    exact Lib.firstIdx_zero (List.prefix_append _ _)
  have hlen : ¬ ((mailText subject content).length : Int) < (0 : Nat) + 9 := by
    have hmark : subjectMark.length = 9 := by decide
    simp only [mailText, List.length_append, hmark]
    omega
  rw [mailTitle, find_of_firstIdx hfirst, if_neg hlen]
  exact ⟨_, rfl⟩

/--
**The text arrives as it was passed in.** Every line of it is collected as text,
the client's dot line ends the message and hands over exactly the text, and the
next command is the client's `QUIT`.
-/
def DeliveredUnchanged (sender : Str) (rcpts : List Str) (s : Session) (text : Str) : Prop :=
  ∃ t, Session.readAll {} (dialogue sender rcpts text) = some t ∧
    t.handled = s.handled ++ List.replicate (messageLines text).length .text ++
      [.mail s.sender s.rcpts.toList text, .command closing]

/-- **A text arrives unchanged exactly when every line of it is plain.** -/
theorem deliveredUnchanged_iff (sender : Str) (rcpts : List Str) {s : Session}
    (hopen : Session.readAll {} (opening sender rcpts) = some s) (hs : s.Ready)
    (subject content : Str) :
    DeliveredUnchanged sender rcpts s (mailText subject content) ↔
      ∀ line ∈ messageLines (mailText subject content), Session.Plain line := by
  obtain ⟨hflat, hrows⟩ := messageLines_spec (rows_mailText subject content)
  obtain ⟨title, htitle⟩ := mailTitle_mailText subject content
  generalize mailText subject content = text at hflat hrows htitle ⊢
  have hsplit : ∀ {t : Session}, Session.readAll {} (dialogue sender rcpts text) = some t ↔
      s.readAll (messageLines text ++ [dotCrlf, closing]) = some t := by
    intro t
    rw [dialogue, List.append_assoc, Session.readAll_append, hopen, Option.bind_some]
  constructor
  · rintro ⟨t, ht, hhandled⟩
    have hnul : '\x00' ∉ text := by
      have hstart : Session.NoNul {} :=
        ⟨List.not_mem_nil, fun _ _ _ h => absurd h List.not_mem_nil⟩
      refine (Session.readAll_noNul hstart ht).2 s.sender s.rcpts.toList text ?_
      rw [hhandled]
      simp
    refine Session.plain_of_collected _ _ s t hs.waits (fun line hl =>
      ⟨hrows line hl, fun hmem => ?_⟩)
      (hsplit.mp ht) (hhandled ▸ List.prefix_append _ _)
    exact hnul (hflat ▸ List.mem_flatten.mpr ⟨line, hl, hmem⟩)
  · intro hplain
    obtain ⟨u, hu, hwaits, hdata, hhandled, hsender, hrcpts⟩ :=
      Session.readAll_text (messageLines text) s hs.waits fun l hl => ⟨hrows l hl, hplain l hl⟩
    rw [hs.data, List.nil_append, hflat] at hdata
    obtain ⟨v, hv⟩ := Session.read_dot_ok hwaits (hdata.symm ▸ htitle)
    obtain ⟨hwaits', hhandled'⟩ := Session.read_dot hwaits hv
    obtain ⟨t, ht, hclosed⟩ := Session.read_closing hwaits'
    refine ⟨t, hsplit.mpr ?_, ?_⟩
    · rw [Session.readAll_append, hu, Option.bind_some, Session.readAll, hv, Option.bind_some,
        Session.readAll, ht]
      rfl
    · rw [hclosed, hhandled', hhandled, hsender, hrcpts, hdata]
      simp

/-- A text with command-like lines and lines that begin with a dot. -/
def quotedText : Str := mailText "hi".toList "QUIT\r\n..\r\nDATA".toList

theorem amy_plain : Session.PlainMailbox "amy@localhost".toList :=
  ⟨by decide, by decide, by decide, by decide⟩

theorem bob_plain : Session.PlainMailbox ("bob".toList ++ Session.atLocalhost) :=
  ⟨by decide, by decide, by decide, by decide⟩

theorem quotedText_delivered : ∃ s,
    Session.readAll {} (opening ("bob".toList ++ Session.atLocalhost) ["amy@localhost".toList])
      = some s ∧
    DeliveredUnchanged ("bob".toList ++ Session.atLocalhost) ["amy@localhost".toList] s
      quotedText := by
  obtain ⟨s, hs, hready, -⟩ := Session.opening_ready bob_plain
    (fun m hm => List.mem_singleton.mp hm ▸ amy_plain) (by simp)
  exact ⟨s, hs, (deliveredUnchanged_iff _ _ hs hready _ _).mpr (by decide +kernel)⟩

/-- A text with a line that is a dot, and a command behind it. -/
def dottedText : Str := mailText "hi".toList "a\r\n.\r\nRSET".toList

/-- What the session makes of it: the message ends at that line, and `RSET` is executed. -/
def dottedRecord : List Handled :=
  (opening ("bob".toList ++ Session.atLocalhost) ["amy@localhost".toList]).map .command ++
    [.text, .text, .mail ("bob".toList ++ Session.atLocalhost) ["amy@localhost".toList]
      "Subject: hi\r\na\r\n".toList,
     .command "RSET\r\n".toList, .command dotCrlf, .command closing]

theorem dottedText_cut : ∃ s t,
    Session.readAll {} (opening ("bob".toList ++ Session.atLocalhost) ["amy@localhost".toList])
      = some s ∧ s.Ready ∧
    Session.readAll {} (dialogue ("bob".toList ++ Session.atLocalhost) ["amy@localhost".toList]
      dottedText) = some t ∧ t.handled = dottedRecord ∧
    ¬ DeliveredUnchanged ("bob".toList ++ Session.atLocalhost) ["amy@localhost".toList] s
      dottedText := by
  obtain ⟨s, hs, hready, -, -, hhandled⟩ := Session.opening_ready bob_plain
    (fun m hm => List.mem_singleton.mp hm ▸ amy_plain) (by simp)
  have hrun : (Session.readAll {} (dialogue ("bob".toList ++ Session.atLocalhost)
      ["amy@localhost".toList] dottedText)).map (·.handled) = some dottedRecord := by decide +kernel
  obtain ⟨t, ht, hrecord⟩ := Option.map_eq_some_iff.mp hrun
  refine ⟨s, t, hs, hready, ht, hrecord, ?_⟩
  rintro ⟨u, hu, hdelivered⟩
  obtain rfl : t = u := Option.some.inj (ht.symm.trans hu)
  rw [hrecord, hhandled, List.append_assoc] at hdelivered
  have hlines : List.replicate (messageLines dottedText).length Handled.text
      = List.replicate 4 .text := by decide +kernel
  rw [hlines] at hdelivered
  -- the third of the four lines is not among the text
  cases List.append_cancel_left hdelivered

end PennCloud
