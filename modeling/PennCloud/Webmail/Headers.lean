import PennCloud.Webmail.Delivery

/-!
# Reading a mail header

A header line is `Header |host|sender|recipients|title|time`. `handle_data` writes
it for the outbox, the inbox and the outgoing queue, the frontend takes it apart for
its pages and the relay for the next host, each with a chain of `find("|")`. The
fields are what a client has sent, and no bar in them is escaped: a reader takes it
for the end of the field.
-/

namespace PennCloud

open Str

/-- `parse_header` of the frontend: sender, recipients, title and time. -/
def Response.parseHeader (header : Str) : Str × Str × Str × Str :=
  let p1 := header.find ['|']
  let p2 := findFrom header ['|'] (p1 + 1)
  let p3 := findFrom header ['|'] (p2 + 1)
  let p4 := findFrom header ['|'] (p3 + 1)
  let p5 := findFrom header ['|'] (p4 + 1)
  (header.substr (p2 + 1) (p3 - p2 - 1), header.substr (p3 + 1) (p4 - p3 - 1),
    header.substr (p4 + 1) (p5 - p4 - 1), header.substr (p5 + 1))

/-- `parse_header` of the relay: host, sender and recipient. -/
def Deliver.parseHeader (header : Str) : List Str :=
  let f1 := header.find ['|']
  let f2 := findFrom header ['|'] (f1 + 1)
  let f3 := findFrom header ['|'] (f2 + 1)
  let f4 := findFrom header ['|'] (f3 + 1)
  [header.substr (f1 + 1) (f2 - f1 - 1), header.substr (f2 + 1) (f3 - f2 - 1),
    header.substr (f3 + 1) (f4 - f3 - 1)]

def headerTag : Str := "Header ".toList
def localhost : Str := "localhost".toList

theorem headerMark_eq : headerMark = headerTag ++ ['|'] := by decide

theorem localhost_bar : "localhost|".toList = localhost ++ ['|'] := by decide

/-- A header line of these fields. -/
def headerOf (host sender rcpts title time : Str) : Str :=
  headerTag ++ '|' :: (host ++ '|' :: (sender ++ '|' :: (rcpts ++ '|' :: (title ++ '|' :: time))))

/-- The recipients in an outbox header. -/
def joined (rcpts : List Str) : Str := [','].intercalate rcpts

/-- A message for the mailboxes, its subject line at its start. -/
structure Letter where
  sender : Str
  rcpts : List Str
  title : Str
  text : Str
  time : Str
  /-- Without a `RCPT` there is no `DATA`. -/
  rcpts_ne : rcpts ≠ []
  title_line : ¬ crlf <:+: title

def Letter.data (l : Letter) : Str := subjectMark ++ l.title ++ crlf ++ l.text

/-- Both readers find the fields, whatever line end they have left behind the time. -/
def Reads (header host sender rcpts title time : Str) : Prop :=
  ∀ ending, Response.parseHeader (header ++ ending) = (sender, rcpts, title, time ++ ending) ∧
    Deliver.parseHeader (header ++ ending) = [host, sender, rcpts]

/-- Every header that `handle_data` builds for the message is read as it was written. -/
def Letter.ReadBack (l : Letter) : Prop :=
  ∃ title, mailTitle l.data = some title ∧
    Reads (outboxHeader l.sender l.rcpts title l.time) localhost l.sender (joined l.rcpts)
      l.title l.time ∧
    ∀ r ∈ l.rcpts, Reads (inboxHeader l.sender r title l.time)
      (serverOf r) l.sender r l.title l.time

/-! ## What is written -/

theorem inboxHeader_eq (sender rcpt title time : Str) :
    inboxHeader sender rcpt title time = headerOf (serverOf rcpt) sender rcpt title time := by
  rw [inboxHeader, headerOf, headerMark_eq]
  simp only [List.append_assoc, List.cons_append, List.nil_append]

theorem flatMap_comma {rcpts : List Str} (h : rcpts ≠ []) :
    rcpts.flatMap (· ++ [',']) = joined rcpts ++ [','] := by
  induction rcpts with
  | nil => exact absurd rfl h
  | cons r rcpts ih =>
      cases rcpts with
      | nil => simp [joined]
      | cons r' rcpts =>
          rw [List.flatMap_cons, ih (List.cons_ne_nil r' rcpts), joined, joined,
            List.intercalate_cons_cons]
          simp only [List.append_assoc]

/-- The comma that is taken off is the last one. -/
theorem outboxHeader_eq {rcpts : List Str} (h : rcpts ≠ []) (sender title time : Str) :
    outboxHeader sender rcpts title time
      = headerOf localhost sender (joined rcpts) title time := by
  have hfront : headerMark ++ "localhost|".toList ++ sender ++ '|' :: (joined rcpts ++ [','])
      = (headerTag ++ '|' :: (localhost ++ '|' :: (sender ++ '|' :: joined rcpts))) ++ [','] := by
    rw [headerMark_eq, localhost_bar]
    simp only [List.append_assoc, List.cons_append, List.nil_append]
  rw [outboxHeader, flatMap_comma h, hfront, List.dropLast_concat, headerOf]
  simp only [List.append_assoc, List.cons_append]

theorem headerOf_append (host sender rcpts title time ending : Str) :
    headerOf host sender rcpts title time ++ ending
      = headerOf host sender rcpts title (time ++ ending) := by
  simp only [headerOf, List.append_assoc, List.cons_append]

/-- The title of the message is its subject line. -/
theorem mailTitle_data (l : Letter) : mailTitle l.data = some l.title := by
  have hlen : subjectMark.length = 9 := by decide
  have hfirst : Lib.firstIdx subjectMark l.data = some 0 := by
    rw [Letter.data, List.append_assoc, List.append_assoc]
    exact Lib.firstIdx_zero (List.prefix_append _ _)
  have hdrop : l.data.drop 1 = "ubject: ".toList ++ (l.title ++ crlf ++ l.text) := by
    rw [Letter.data, List.append_assoc, List.append_assoc, ← List.append_assoc l.title]
    exact List.drop_append_of_le_length (by decide)
  have hend : Lib.firstIdx crlf (l.data.drop 1) = some (8 + l.title.length) := by
    have hskip : ∀ s, Lib.firstIdx crlf ("ubject: ".toList ++ s)
      = (Lib.firstIdx crlf s).map (8 + ·) :=
      fun s => Lib.firstIdx_skip s (by decide)
    have hfound : Lib.firstIdx crlf (l.title ++ crlf ++ l.text) = some l.title.length :=
      Lib.firstIdx_pair (by decide) _ l.title_line
    rw [hdrop, hskip, hfound, Option.map_some]
  have hnext : findFrom l.data crlf ((0 : Nat) + 1) = (1 : Nat) + (8 + l.title.length : Nat) := by
    have hpos : (((0 : Nat) : Int) + 1).toNat = 1 := rfl
    rw [findFrom, hpos, hend]
  have hlong : ¬ (l.data.length : Int) < (0 : Nat) + 9 := by
    simp only [Letter.data, List.length_append, hlen]
    omega
  rw [mailTitle, find_of_firstIdx hfirst, hnext, if_neg hlong, Option.some.injEq, Letter.data,
    List.append_assoc]
  exact substr_middle _ _ _ (by rw [hlen]; rfl) (by push_cast; omega)

/-! ## What is read -/

/-- The next bar, where the field before it has none. -/
theorem next_bar {a f b : Str} (hf : '|' ∉ f) :
    findFrom (a ++ '|' :: (f ++ '|' :: b)) ['|'] (a.length + 1) = (a ++ '|' :: f).length := by
  have hpos : ((a.length : Int) + 1).toNat = a.length + 1 := by omega
  have hdrop : (a ++ '|' :: (f ++ '|' :: b)).drop (a.length + 1) = f ++ '|' :: b := by
    rw [List.drop_length_add_append]
    rfl
  rw [findFrom, hpos, hdrop, Lib.firstIdx_sep b hf, List.length_append, List.length_cons]
  simp only
  omega

/-- And the field between the two. -/
theorem field_between (a f b : Str) : (a ++ '|' :: (f ++ '|' :: b)).substr (a.length + 1)
    ((a ++ '|' :: f).length - a.length - 1) = f := by
  have hfield := substr_between a '|' f ('|' :: b)
  rw [List.append_assoc, List.cons_append, ← Int.sub_sub] at hfield
  exact hfield

/-- **Fields without a bar are found**, whatever stands behind the last bar. -/
theorem parseHeader_fields {h f₁ f₂ f₃ f₄ : Str} (rest : Str) (hh : '|' ∉ h) (h₁ : '|' ∉ f₁)
    (h₂ : '|' ∉ f₂) (h₃ : '|' ∉ f₃) (h₄ : '|' ∉ f₄) {header : Str}
    (hheader : header = h ++ '|'
      :: (f₁ ++ '|' :: (f₂ ++ '|' :: (f₃ ++ '|' :: (f₄ ++ '|' :: rest))))) :
    Response.parseHeader header = (f₂, f₃, f₄, rest) ∧
    Deliver.parseHeader header = [f₁, f₂, f₃] := by
  -- the same line, cut at each bar
  have hcut₂ : header = (h ++ '|' :: f₁) ++ '|'
    :: (f₂ ++ '|' :: (f₃ ++ '|' :: (f₄ ++ '|' :: rest))) := by
    rw [hheader, List.append_assoc, List.cons_append]
  have hcut₃ : header = (h ++ '|' :: f₁ ++ '|' :: f₂) ++ '|'
    :: (f₃ ++ '|' :: (f₄ ++ '|' :: rest)) := by
    rw [hcut₂, List.append_assoc _ ('|' :: f₂), List.cons_append]
  have hcut₄ : header = (h ++ '|' :: f₁ ++ '|' :: f₂ ++ '|' :: f₃) ++ '|'
    :: (f₄ ++ '|' :: rest) := by
    rw [hcut₃, List.append_assoc _ ('|' :: f₃), List.cons_append]
  have hcut₅ : header = (h ++ '|' :: f₁ ++ '|' :: f₂ ++ '|' :: f₃ ++ '|' :: f₄) ++ '|' :: rest := by
    rw [hcut₄, List.append_assoc _ ('|' :: f₄), List.cons_append]
  have hp₁ : header.find ['|'] = h.length := by rw [hheader, find_sep _ hh]
  have hp₂ := next_bar (a := h) (b := f₂ ++ '|' :: (f₃ ++ '|' :: (f₄ ++ '|' :: rest))) h₁
  have hf₁ := field_between h f₁ (f₂ ++ '|' :: (f₃ ++ '|' :: (f₄ ++ '|' :: rest)))
  rw [← hheader] at hp₂ hf₁
  have hp₃ := next_bar (a := h ++ '|' :: f₁) (b := f₃ ++ '|' :: (f₄ ++ '|' :: rest)) h₂
  have hf₂ := field_between (h ++ '|' :: f₁) f₂ (f₃ ++ '|' :: (f₄ ++ '|' :: rest))
  rw [← hcut₂] at hp₃ hf₂
  have hp₄ := next_bar (a := h ++ '|' :: f₁ ++ '|' :: f₂) (b := f₄ ++ '|' :: rest) h₃
  have hf₃ := field_between (h ++ '|' :: f₁ ++ '|' :: f₂) f₃ (f₄ ++ '|' :: rest)
  rw [← hcut₃] at hp₄ hf₃
  have hp₅ := next_bar (a := h ++ '|' :: f₁ ++ '|' :: f₂ ++ '|' :: f₃) (b := rest) h₄
  have hf₄ := field_between (h ++ '|' :: f₁ ++ '|' :: f₂ ++ '|' :: f₃) f₄ rest
  rw [← hcut₄] at hp₅ hf₄
  have hrest := substr_after (h ++ '|' :: f₁ ++ '|' :: f₂ ++ '|' :: f₃ ++ '|' :: f₄) '|' rest
  rw [← hcut₅] at hrest
  constructor
  · simp only [Response.parseHeader, hp₁, hp₂, hp₃, hp₄, hp₅, hf₂, hf₃, hf₄, hrest]
  · simp only [Deliver.parseHeader, hp₁, hp₂, hp₃, hp₄, hf₁, hf₂, hf₃]

/-- The text up to the first bar. -/
theorem exists_bar {s : Str} {n : Nat} (h : n + 1 ≤ s.count '|') :
    ∃ f r, s = f ++ '|' :: r ∧ '|' ∉ f ∧ n ≤ r.count '|' := by
  obtain ⟨f, r, rfl, hf⟩ :=
    List.eq_append_cons_of_mem (List.count_pos_iff.mp (Nat.lt_of_lt_of_le n.succ_pos h))
  rw [List.count_append, List.count_eq_zero.mpr hf, List.count_cons_self] at h
  exact ⟨f, r, rfl, hf, by omega⟩

/-- No reader returns a field with a bar in it, but for the time. -/
theorem parseHeader_free {header : Str} (h : 5 ≤ header.count '|') :
    ∃ f₁ f₂ f₃ f₄ rest, Response.parseHeader header = (f₂, f₃, f₄, rest) ∧
      Deliver.parseHeader header = [f₁, f₂, f₃] ∧ '|' ∉ f₁ ∧ '|' ∉ f₂ ∧ '|' ∉ f₃ ∧ '|' ∉ f₄ := by
  obtain ⟨a, r, rfl, ha, h⟩ := exists_bar h
  obtain ⟨f₁, r, rfl, h₁, h⟩ := exists_bar h
  obtain ⟨f₂, r, rfl, h₂, h⟩ := exists_bar h
  obtain ⟨f₃, r, rfl, h₃, h⟩ := exists_bar h
  obtain ⟨f₄, r, rfl, h₄, -⟩ := exists_bar h
  obtain ⟨hresponse, hdeliver⟩ := parseHeader_fields r ha h₁ h₂ h₃ h₄ rfl
  exact ⟨f₁, f₂, f₃, f₄, r, hresponse, hdeliver, h₁, h₂, h₃, h₄⟩

/-- **A header is read as it was written exactly when no field but the time has a bar.** -/
theorem reads_headerOf_iff (host sender rcpts title time : Str) :
    Reads (headerOf host sender rcpts title time) host sender rcpts title time ↔
      '|' ∉ host ∧ '|' ∉ sender ∧ '|' ∉ rcpts ∧ '|' ∉ title := by
  constructor
  · intro h
    have hcount : 5 ≤ (headerOf host sender rcpts title time).count '|' := by
      simp only [headerOf, List.count_append, List.count_cons_self]
      omega
    obtain ⟨hresponse, hdeliver⟩ := h []
    rw [List.append_nil] at hresponse hdeliver
    obtain ⟨f₁, f₂, f₃, f₄, rest, hresponse', hdeliver', h₁, h₂, h₃, h₄⟩ := parseHeader_free hcount
    rw [hresponse', List.append_nil] at hresponse
    rw [hdeliver'] at hdeliver
    cases hresponse
    cases hdeliver
    exact ⟨h₁, h₂, h₃, h₄⟩
  · rintro ⟨h₁, h₂, h₃, h₄⟩ ending
    rw [headerOf_append]
    exact parseHeader_fields _ (by decide) h₁ h₂ h₃ h₄ rfl

/-! ## All headers of a message -/

theorem bar_joined {rcpts : List Str} : '|' ∉ joined rcpts ↔ ∀ r ∈ rcpts, '|' ∉ r := by
  by_cases h : rcpts = []
  · subst h
    exact iff_of_true (by decide) nofun
  · have hcomma : '|' ∉ joined rcpts ↔ '|' ∉ rcpts.flatMap (· ++ [',']) := by
      rw [flatMap_comma h, List.mem_append, not_or]
      exact (and_iff_left (by decide)).symm
    rw [hcomma, List.mem_flatMap]
    constructor
    · exact fun hno r hr hbar => hno ⟨r, hr, List.mem_append_left _ hbar⟩
    · rintro hno ⟨r, hr, hbar⟩
      rcases List.mem_append.mp hbar with hbar | hbar
      · exact hno r hr hbar
      · exact absurd hbar (by decide)

/-- **Mail headers are read as they were written** exactly when there is no bar in the sender, in a
recipient or in the title. -/
theorem readBack_iff (l : Letter) : l.ReadBack ↔
    '|' ∉ l.sender ∧ (∀ r ∈ l.rcpts, '|' ∉ r) ∧ '|' ∉ l.title := by
  rw [Letter.ReadBack]
  simp only [mailTitle_data, Option.some.injEq, exists_eq_left', outboxHeader_eq l.rcpts_ne,
    inboxHeader_eq, reads_headerOf_iff, bar_joined]
  constructor
  · exact fun h => h.1.2
  · exact fun h => ⟨⟨by decide, h⟩, fun r hr =>
      ⟨fun hbar => h.2.1 r hr (mem_substr hbar), h.1, h.2.1 r hr, h.2.2⟩⟩

/-- A sender with a bar. -/
def barLetter : Letter where
  sender := "a|b@localhost".toList
  rcpts := ["c@localhost".toList]
  title := "T|U".toList
  text := "t\r\n".toList
  time := "Mon".toList
  rcpts_ne := List.cons_ne_nil _ _
  title_line := by decide

/-- `MAIL` and `RCPT` take it, and its parts end in the wrong fields. -/
theorem barLetter_misread :
    (∃ t, Session.handleFrom
      { state := 1, buff := mailboxLine "MAIL FROM:".toList barLetter.sender } = some t ∧
      t.state = 2 ∧ t.sender = barLetter.sender) ∧
    ¬ barLetter.ReadBack ∧
    Response.parseHeader (outboxHeader barLetter.sender barLetter.rcpts barLetter.title
      barLetter.time) =
      ("a".toList, "b@localhost".toList, "c@localhost".toList, "T|U|Mon".toList) ∧
    Deliver.parseHeader (inboxHeader barLetter.sender "c@localhost".toList barLetter.title
      barLetter.time) =
      [localhost, "a".toList, "b@localhost".toList] := by
  have hparse : Response.parseHeader
      (outboxHeader barLetter.sender barLetter.rcpts barLetter.title barLetter.time) =
      ("a".toList, "b@localhost".toList, "c@localhost".toList, "T|U|Mon".toList) := by
        decide +kernel
  have hfrom : (Session.handleFrom
      { state := 1, buff := mailboxLine "MAIL FROM:".toList barLetter.sender }).map
        (fun t => (t.state, t.sender)) = some (2, barLetter.sender) := by decide +kernel
  obtain ⟨t, ht, he⟩ := Option.map_eq_some_iff.mp hfrom
  obtain ⟨hstate, hsender⟩ := Prod.mk.inj he
  refine ⟨⟨t, ht, hstate, hsender⟩, ?_, hparse, by decide +kernel⟩
  rintro ⟨title, htitle, hread, -⟩
  rw [mailTitle_data, Option.some.injEq] at htitle
  obtain rfl := htitle
  have hresponse := (hread []).1
  rw [List.append_nil, hparse] at hresponse
  exact absurd (Prod.mk.inj hresponse).1 (by decide)

end PennCloud
