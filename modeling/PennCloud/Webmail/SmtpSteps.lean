import PennCloud.Store.Protocol
import PennCloud.Webmail.Smtp

/-!
# The session, read by read

What `worker_thread` does with a line read whole into its empty buffer: in state 4
it collects the line or ends the message, and the commands of a client that opens
a message move it from state to state. `line_cases` sums up what any line can do,
and `readAll_keeps` is the induction over runs of reads: what every line keeps,
every run keeps.
-/

namespace PennCloud

open Str

/-! ## The session at a line -/

namespace Session

/-- The bytes are all zero. -/
def Zero (buff : Str) : Prop := ∀ c ∈ buff, c = '\x00'

theorem Zero.cstr {buff : Str} (h : Zero buff) : Str.cstr buff = [] := by
  cases buff with
  | nil => rfl
  | cons c buff =>
      obtain rfl := h c List.mem_cons_self
      rfl

theorem Zero.drop {buff : Str} (h : Zero buff) (n : Nat) : Zero (buff.drop n) := fun c hc =>
  h c (List.mem_of_mem_drop hc)

theorem zero_nil : Zero [] := fun _ hc => absurd hc List.not_mem_nil

theorem zero_replicate (n : Nat) : Zero (List.replicate n '\x00') :=
  fun _ hc => List.eq_of_mem_replicate hc

theorem zero_append {a b : Str} : Zero (a ++ b) ↔ Zero a ∧ Zero b := by
  simp only [Session.Zero, List.mem_append, or_imp, forall_and]

/-- A session that has read everything and waits, in state `n`. -/
structure Waits (s : Session) (n : Nat) : Prop where
  state : s.state = n
  quit : s.quit = false
  clean : Zero s.buff

variable {s t : Session} {line : Str}

/-- A text of C string, line break and zeros is one line. -/
theorem cstr_row {z : Str} (hnul : '\x00' ∉ line) (hz : Zero z) : cstr (line ++ z) = line := by
  rw [cstr_append hnul, hz.cstr, List.append_nil]

/-- A read goes to the front of an empty array. -/
theorem fill_zero {buff : Str} (hz : Zero buff) (bytes : Str) :
    fill buff bytes = bytes ++ buff.drop bytes.length := by
  rw [fill, hz.cstr, List.length_nil, List.take_zero, List.nil_append, Nat.zero_add]

/-- A line that fills the buffer leaves no session. -/
theorem read_long {n : Nat} (hs : s.Waits n) (hnul : '\x00' ∉ line)
    (hlen : buffSize ≤ line.length) :
    s.read line = none := by
  refine if_neg ?_
  rintro ⟨-, -, hfits⟩
  rw [fill_zero hs.clean, cstr_row hnul (hs.clean.drop _)] at hfits
  omega

/-- What every command leaves alone. -/
structure Keeps (s t : Session) : Prop where
  buff : t.buff = s.buff
  handled : t.handled = s.handled
  data : t.data = s.data ∨ t.data = []

theorem Keeps.refl (s : Session) : s.Keeps s := ⟨rfl, rfl, Or.inl rfl⟩

theorem Keeps.reply {text : Str} (h : s.Keeps t) :
    s.Keeps (t.reply text) := ⟨h.buff, h.handled, h.data⟩

/-- A check changes the replies at most. -/
theorem expect_eq (s : Session) (ok : Bool) (text : Str) :
    ∃ replies, s.expect ok text = { s with replies := replies } := by
  cases ok with
  | true => exact ⟨s.replies, rfl⟩
  | false => exact ⟨_, rfl⟩

theorem Keeps.expect (s : Session) (ok : Bool) (text : Str) : s.Keeps (s.expect ok text) := by
  obtain ⟨replies, hs⟩ := expect_eq s ok text
  rw [hs]
  exact ⟨rfl, rfl, Or.inl rfl⟩

theorem keeps_helo (s : Session) : s.Keeps s.handleHelo := by
  have hfirst := Keeps.expect s (cmdSize < (cstr s.buff).length) syntaxErr
  simp only [handleHelo]
  split
  · exact hfirst.reply
  · exact ⟨hfirst.buff, hfirst.handled, hfirst.data⟩

theorem keeps_rset (s : Session) : s.Keeps s.handleRset := by
  unfold handleRset
  split
  · exact (Keeps.refl s).reply
  · exact ⟨rfl, rfl, Or.inr rfl⟩

theorem keeps_from (h : s.handleFrom = some t) : s.Keeps t := by
  have hfirst := Keeps.expect s (sameCase (((cstr s.buff).drop cmdSize).take 5) "from:".toList)
    unknownCmd
  simp only [handleFrom] at h
  split at h
  · cases h
    exact hfirst.reply
  · obtain ⟨domain, -, h⟩ := Option.bind_eq_some_iff.mp h
    obtain ⟨found, -, rfl⟩ := Option.map_eq_some_iff.mp h
    split
    · exact hfirst.reply
    · exact ⟨hfirst.buff, hfirst.handled, hfirst.data⟩

theorem keeps_to (h : s.handleTo = some t) : s.Keeps t := by
  have hfirst := Keeps.expect s (sameCase (((cstr s.buff).drop cmdSize).take 3) "to:".toList)
    unknownCmd
  simp only [handleTo] at h
  split at h
  · cases h
    exact hfirst.reply
  · obtain ⟨mailbox, -, rfl⟩ := Option.map_eq_some_iff.mp h
    exact ⟨hfirst.buff, hfirst.handled, hfirst.data⟩

/-- In state 4 a line is added to the text, or hands it over. -/
theorem handleData_cases {end' : Nat} (h : s.handleData end' = some t) :
    (s.state = 4 ∧ cstr s.buff ≠ dotCrlf ∧
      t = { s with data := s.data ++ s.buff.take end', handled := s.handled ++ [.text] }) ∨
    (s.state = 4 ∧ cstr s.buff = dotCrlf ∧ t.state = 5 ∧ t.quit = s.quit ∧ t.buff = s.buff ∧
      t.data = [] ∧ t.handled = s.handled ++ [.mail s.sender s.rcpts.toList s.data]) ∨
    (s.state ≠ 4 ∧ s.Keeps t) := by
  simp only [handleData] at h
  split at h
  · cases h
    exact Or.inr (Or.inr ⟨by omega, (Keeps.refl s).reply⟩)
  · split at h
    · cases h
      exact Or.inr (Or.inr ⟨by omega, ⟨rfl, rfl, Or.inl rfl⟩⟩)
    · split at h
      · rename_i hdot
        cases h
        exact Or.inl ⟨by omega, hdot, rfl⟩
      · rename_i hdot
        obtain ⟨replies, hs⟩ := expect_eq s (s.data.find subjectMark ≠ npos) noSubject
        rw [hs] at h
        obtain ⟨title, -, rfl⟩ := Option.map_eq_some_iff.mp h
        exact Or.inr (Or.inl ⟨by omega, of_not_not hdot, rfl, rfl, rfl, rfl, rfl⟩)

theorem line_four {end' : Nat} (hstate : s.state = 4) : s.line end' = s.handleData end' :=
  if_pos hstate

theorem handleData_text {end' : Nat} (hstate : s.state = 4) (hdot : cstr s.buff ≠ dotCrlf) :
    s.handleData end' = some
      { s with data := s.data ++ s.buff.take end', handled := s.handled ++ [.text] } := by
  rw [handleData, if_neg (by omega), if_neg (by omega), if_pos hdot]

theorem handleData_dot {end' : Nat} (hstate : s.state = 4) (hdot : cstr s.buff = dotCrlf)
    {title : Str} (htitle : mailTitle s.data = some title) : ∃ t, s.handleData end' = some t := by
  obtain ⟨replies, hs⟩ := expect_eq s (s.data.find subjectMark ≠ npos) noSubject
  rw [handleData, if_neg (by omega), if_neg (by omega), if_neg (not_not_intro hdot)]
  simp only [hs, htitle]
  exact ⟨_, rfl⟩

/-- **What a line does to buffer, text and record.** -/
theorem line_cases {end' : Nat} (h : s.line end' = some t) : t.buff = s.buff ∧
    (∃ x, t.handled = s.handled ++ [x] ∧ ∀ a b d, x = .mail a b d → d = s.data) ∧
    (t.data = s.data ∨ t.data = s.data ++ s.buff.take end' ∨ t.data = []) := by
  have hcommand : ∀ {u : Session}, (s.note end').Keeps u → u.buff = s.buff ∧
      (∃ x, u.handled = s.handled ++ [x] ∧ ∀ a b d, x = .mail a b d → d = s.data) ∧
      (u.data = s.data ∨ u.data = s.data ++ s.buff.take end' ∨ u.data = []) := by
    intro u hu
    exact ⟨hu.buff, ⟨_, hu.handled, fun a b d he => by cases he⟩, hu.data.imp_right Or.inr⟩
  simp only [line] at h
  split at h
  · rename_i hstate
    rcases handleData_cases h with ⟨-, -, rfl⟩ | ⟨-, -, -, -, hbuff, hdata, hhandled⟩ | ⟨hne, -⟩
    · exact ⟨rfl, ⟨_, rfl, fun a b d he => by cases he⟩, Or.inr (Or.inl rfl)⟩
    · exact ⟨hbuff, ⟨_, hhandled, fun a b d he => by cases he; rfl⟩, Or.inr (Or.inr hdata)⟩
    · exact absurd hstate hne
  · rename_i hstate
    split at h
    · rcases handleData_cases h with ⟨hfour, -⟩ | ⟨hfour, -⟩ | ⟨-, hkeeps⟩
      · exact absurd hfour hstate
      · exact absurd hfour hstate
      · exact hcommand hkeeps
    split at h
    · cases h
      exact hcommand (keeps_helo _)
    split at h
    · exact hcommand (keeps_from h)
    split at h
    · exact hcommand (keeps_to h)
    split at h
    · cases h
      exact hcommand (keeps_rset _)
    split at h
    · cases h
      exact hcommand (Keeps.refl _).reply
    split at h
    · cases h
      exact hcommand ⟨rfl, rfl, Or.inl rfl⟩
    · cases h
      exact hcommand (Keeps.refl _).reply

theorem drain_zero (hs : Zero s.buff) (fuel : Nat) : drain fuel s = some s := by
  cases fuel with
  | zero => rfl
  | succ fuel =>
      have hnone : Lib.firstIdx crlf (cstr s.buff) = none := by
        rw [hs.cstr]
        rfl
      simp only [drain, hnone]

theorem drain_line {i fuel : Nat} (hi : Lib.firstIdx crlf (cstr s.buff) = some i) :
    drain (fuel + 1) s = (s.line (i + 2)).bind fun t =>
      if t.quit then some t else drain fuel (t.load (clearBuffer t.buff (i + 2))) := by
  rw [drain, hi]

/-- **A line read into the empty buffer** is handled, and leaves it empty. -/
theorem read_line {n : Nat} (hs : s.Waits n) (hrow : IsLine line) (hnul : '\x00' ∉ line)
    (hlen : line.length < buffSize) : ∃ z z', Zero z ∧ Zero z' ∧
    s.read line = ((s.load (line ++ z)).line line.length).map
      fun t : Session => if t.quit then t else t.load z' := by
  obtain ⟨i, hi, hend⟩ := hrow.firstIdx []
  rw [List.append_nil] at hi
  have hz : Zero (s.buff.drop line.length) := hs.clean.drop _
  have hcstr := cstr_row hnul hz
  have hcleared : Zero (clearBuffer (line ++ s.buff.drop line.length) line.length) := by
    rw [clearBuffer, hcstr, List.drop_length, List.nil_append, List.drop_left]
    exact zero_append.mpr ⟨zero_replicate _, hz⟩
  refine ⟨_, _, hz, hcleared, ?_⟩
  have hfits : s.quit = false ∧ line.length ≤ buffSize ∧ line.length < buffSize :=
    ⟨hs.quit, Nat.le_of_lt hlen, hlen⟩
  rw [read, fill_zero hs.clean, hs.clean.cstr, List.length_nil, Nat.zero_add, hcstr, if_pos hfits]
  have hfirst : Lib.firstIdx crlf (cstr (s.load (line ++ s.buff.drop line.length)).buff) = some i :=
    hcstr.symm ▸ hi
  have hdrain := (congrArg (drain · (s.load (line ++ s.buff.drop line.length))) hend).trans
    (drain_line hfirst)
  rw [← hend] at hdrain
  rw [hdrain]
  cases ht : (s.load (line ++ s.buff.drop line.length)).line line.length with
  | none => rfl
  | some t =>
      rw [Option.bind_some, Option.map_some, (line_cases ht).1]
      split
      · rfl
      · exact drain_zero hcleared _

/-- In state 4 the session takes a line for text, unless it is the dot. -/
theorem read_text (hs : s.Waits 4) (hrow : IsLine line) (hnul : '\x00' ∉ line)
    (hlen : line.length < buffSize) (hdot : line ≠ dotCrlf) : ∃ t, s.read line = some t ∧
    t.Waits 4 ∧ t.data = s.data ++ line ∧ t.handled = s.handled ++ [.text] ∧
    t.sender = s.sender ∧ t.rcpts = s.rcpts := by
  obtain ⟨z, z', hz, hz', hread⟩ := read_line hs hrow hnul hlen
  have hcstr : cstr (s.load (line ++ z)).buff ≠ dotCrlf := (cstr_row hnul hz).symm ▸ hdot
  have hfour : (s.load (line ++ z)).state = 4 := hs.state
  rw [line_four hfour, handleData_text hfour hcstr, load_buff, List.take_left,
    Option.map_some] at hread
  simp only [load_quit, hs.quit, Bool.false_eq_true, if_false] at hread
  exact ⟨_, hread, ⟨hs.state, rfl, hz'⟩, rfl, rfl, rfl, rfl⟩

theorem isLine_dot : IsLine dotCrlf := ⟨['.'], rfl, by decide⟩

theorem isLine_closing : IsLine closing := ⟨['Q', 'U', 'I', 'T'], rfl, by decide⟩

/-- The dot line hands the text over. -/
theorem read_dot (hs : s.Waits 4) (h : s.read dotCrlf = some t) :
    t.Waits 5 ∧ t.handled = s.handled ++ [.mail s.sender s.rcpts.toList s.data] := by
  obtain ⟨z, z', hz, hz', hread⟩ := read_line hs isLine_dot (by decide) (by decide)
  obtain ⟨u, hu, rfl⟩ := Option.map_eq_some_iff.mp (hread.symm.trans h)
  have hfour : (s.load (dotCrlf ++ z)).state = 4 := hs.state
  rw [line_four hfour] at hu
  rcases handleData_cases hu with ⟨-, hne, -⟩ | ⟨-, -, hstate, hquit, -, -, hhandled⟩ | ⟨hne, -⟩
  · exact absurd (cstr_row (by decide) hz) hne
  · rw [hquit, load_quit, hs.quit]
    exact ⟨⟨hstate, hquit.trans hs.quit, hz'⟩, hhandled⟩
  · exact absurd hfour hne

/-- And the session goes on if the text has a title. -/
theorem read_dot_ok (hs : s.Waits 4) {title : Str} (htitle : mailTitle s.data = some title) :
    ∃ t, s.read dotCrlf = some t := by
  obtain ⟨z, z', hz, -, hread⟩ := read_line hs isLine_dot (by decide) (by decide)
  have hcstr : cstr (s.load (dotCrlf ++ z)).buff = dotCrlf := cstr_row (by decide) hz
  have hfour : (s.load (dotCrlf ++ z)).state = 4 := hs.state
  obtain ⟨u, hu⟩ := handleData_dot hfour hcstr htitle
  rw [line_four hfour, hu] at hread
  exact ⟨_, hread⟩

/-- `QUIT` behind a message. -/
theorem read_closing (hs : s.Waits 5) :
    ∃ t, s.read closing = some t ∧ t.handled = s.handled ++ [.command closing] := by
  obtain ⟨z, z', hz, -, hread⟩ := read_line hs isLine_closing (by decide) (by decide)
  have hline : ∃ u, (s.load (closing ++ z)).line closing.length = some u ∧
      u.handled = s.handled ++ [.command closing] ∧ u.quit = true := by
    have hcstr : cstr (closing ++ z) = closing := cstr_row (by decide) hz
    have hstate : ¬ s.state = 4 := by rw [hs.state]; decide
    have htake : (closing ++ z).take closing.length = closing := List.take_left
    simp only [Session.line, load_state, load_buff, hcstr, if_neg hstate]
    rw [if_neg (by decide), if_neg (by decide), if_neg (by decide), if_neg (by decide),
      if_neg (by decide), if_neg (by decide), if_pos (by decide)]
    exact ⟨_, rfl, by simp only [note, reply, load_handled, load_buff, htake], rfl⟩
  obtain ⟨u, hu, hhandled, hquit⟩ := hline
  rw [hu, Option.map_some, hquit, if_pos rfl] at hread
  exact ⟨u, hread, hhandled⟩

/-! ## Runs of reads -/

theorem readAll_append (s : Session) (as bs : List Str) :
    s.readAll (as ++ bs) = (s.readAll as).bind (readAll · bs) := by
  induction as generalizing s with
  | nil => rfl
  | cons a as ih =>
      rw [List.cons_append, readAll, readAll]
      cases s.read a with
      | none => rfl
      | some t => exact ih t

/-- What every line keeps, whatever is loaded into the buffer, every run of reads keeps. -/
theorem readAll_keeps {P : Session → Prop} (hload : ∀ s b, P s → P (s.load b))
    (hline : ∀ s t i, Lib.firstIdx crlf (cstr s.buff) = some i → P s →
      s.line (i + 2) = some t → P t)
    {reads : List Str} (hs : P s) (h : s.readAll reads = some t) : P t := by
  have hdrain : ∀ (fuel : Nat) (s t : Session), P s → drain fuel s = some t → P t := by
    intro fuel
    induction fuel with
    | zero =>
        intro s t hs h
        exact Option.some.inj h ▸ hs
    | succ fuel ih =>
        intro s t hs h
        cases hi : Lib.firstIdx crlf (cstr s.buff) with
        | none =>
            rw [drain, hi] at h
            exact Option.some.inj h ▸ hs
        | some i =>
            rw [drain_line hi] at h
            obtain ⟨u, hu, h⟩ := Option.bind_eq_some_iff.mp h
            have hP := hline s u i hi hs hu
            split at h
            · exact Option.some.inj h ▸ hP
            · exact ih _ t (hload u _ hP) h
  induction reads generalizing s with
  | nil => exact Option.some.inj h ▸ hs
  | cons bytes reads ih =>
      obtain ⟨u, hu, h⟩ := Option.bind_eq_some_iff.mp h
      refine ih ?_ h
      simp only [read] at hu
      split at hu
      · exact hdrain _ _ u (hload s _ hs) hu
      · cases hu

/-- The record only grows. -/
theorem readAll_handled {reads : List Str} (h : s.readAll reads = some t) :
    s.handled <+: t.handled := by
  refine readAll_keeps (P := fun u => s.handled <+: u.handled) (fun _ _ hu => hu) ?_
    (List.prefix_refl _) h
  intro u v i _ hu hv
  obtain ⟨-, ⟨x, hx, -⟩, -⟩ := line_cases hv
  exact hx ▸ hu.trans (List.prefix_append _ _)

/-- No text that is collected or handed over has a zero byte. -/
def NoNul (s : Session) : Prop :=
  '\x00' ∉ s.data ∧ ∀ a b d, Handled.mail a b d ∈ s.handled → '\x00' ∉ d

theorem readAll_noNul {reads : List Str} (hs : s.NoNul)
    (h : s.readAll reads = some t) : t.NoNul := by
  refine readAll_keeps (fun _ _ hu => hu) ?_ hs h
  intro u v i hi hu hv
  obtain ⟨-, ⟨x, hx, hmail⟩, hdata⟩ := line_cases hv
  -- the line is found within the C string
  have hline : '\x00' ∉ u.buff.take (i + 2) := by
    obtain ⟨a, b, hab, hlen⟩ := Lib.firstIdx_split hi
    have hpre : u.buff.take (i + 2) <+: cstr u.buff := by
      refine List.prefix_of_prefix_length_le (List.take_prefix _ _) (List.takeWhile_prefix _) ?_
      have hcut := congrArg List.length hab
      simp only [List.length_append, crlf, List.length_cons, List.length_nil] at hcut
      rw [List.length_take]
      omega
    exact fun hmem => cstr_noNul u.buff (hpre.subset hmem)
  refine ⟨?_, fun a b d hmem => ?_⟩
  · rcases hdata with hdata | hdata | hdata
    · exact hdata ▸ hu.1
    · rw [hdata, List.mem_append, not_or]
      exact ⟨hu.1, hline⟩
    · exact hdata ▸ List.not_mem_nil
  · rw [hx, List.mem_append, List.mem_singleton] at hmem
    rcases hmem with hmem | rfl
    · exact hu.2 a b d hmem
    · exact hmail a b d rfl ▸ hu.1

/-- A line that gets through: no dot line, no zero byte, shorter than the buffer. -/
def Plain (line : Str) : Prop := line ≠ dotCrlf ∧ '\x00' ∉ line ∧ line.length < buffSize

instance : DecidablePred Plain := fun line =>
  inferInstanceAs (Decidable (line ≠ dotCrlf ∧ '\x00' ∉ line ∧ line.length < buffSize))

/-- **Plain lines are collected one by one.** -/
theorem readAll_text : ∀ (lines : List Str) (s : Session), s.Waits 4 →
    (∀ line ∈ lines, IsLine line ∧ Plain line) → ∃ t, s.readAll lines = some t ∧ t.Waits 4 ∧
      t.data = s.data ++ lines.flatten ∧
      t.handled = s.handled ++ List.replicate lines.length .text ∧
      t.sender = s.sender ∧ t.rcpts = s.rcpts
  | [], s, hs, _ => ⟨s, rfl, hs, by simp, by simp, rfl, rfl⟩
  | line :: lines, s, hs, hlines => by
      obtain ⟨hrow, hdot, hnul, hlen⟩ := hlines line List.mem_cons_self
      obtain ⟨u, hu, hwaits, hdata, hhandled, hsender, hrcpts⟩ := read_text hs hrow hnul hlen hdot
      obtain ⟨t, ht, hwaits', hdata', hhandled', hsender', hrcpts'⟩ :=
        readAll_text lines u hwaits fun l hl => hlines l (List.mem_cons_of_mem _ hl)
      refine ⟨t, by rw [readAll, hu, Option.bind_some, ht], hwaits', ?_, ?_, hsender'.trans hsender,
        hrcpts'.trans hrcpts⟩
      · rw [hdata', hdata, List.flatten_cons, List.append_assoc]
      · rw [hhandled', hhandled, List.length_cons, List.replicate_succ, List.append_assoc]
        rfl

/-- Lines that were all collected were plain. -/
theorem plain_of_collected : ∀ (lines rest : List Str) (s t : Session), s.Waits 4 →
    (∀ line ∈ lines, IsLine line ∧ '\x00' ∉ line) → s.readAll (lines ++ rest) = some t →
    s.handled ++ List.replicate lines.length .text <+: t.handled → ∀ line ∈ lines, Plain line
  | [], _, _, _, _, _, _, _ => fun _ h => absurd h List.not_mem_nil
  | line :: lines, rest, s, t, hs, hlines, h, hpre => by
      obtain ⟨hrow, hnul⟩ := hlines line List.mem_cons_self
      obtain ⟨u, hu, hrest⟩ := Option.bind_eq_some_iff.mp h
      rw [List.length_cons, List.replicate_succ, List.append_cons] at hpre
      have hlen : line.length < buffSize := by
        refine Nat.lt_of_not_le fun hle => ?_
        rw [read_long hs hnul hle] at hu
        cases hu
      have hdot : line ≠ dotCrlf := by
        rintro rfl
        -- the record would have the end of a message in this place
        have hmail := (read_dot hs hu).2
        have hgrown := readAll_handled hrest
        rw [hmail] at hgrown
        have hboth := List.prefix_of_prefix_length_le hgrown
          ((List.prefix_append _ _).trans hpre) (by simp)
        have heq := hboth.eq_of_length (by simp)
        cases (List.cons.inj (List.append_cancel_left heq)).1
      obtain ⟨v, hv, hwaits, -, hhandled, -, -⟩ := read_text hs hrow hnul hlen hdot
      obtain rfl : u = v := Option.some.inj (hu.symm.trans hv)
      intro l hl
      rcases List.mem_cons.mp hl with rfl | hl
      · exact ⟨hdot, hnul, hlen⟩
      · exact plain_of_collected lines rest u t hwaits
          (fun l hl => hlines l (List.mem_cons_of_mem _ hl)) hrest (hhandled ▸ hpre) l hl

/-! ## The commands before a message -/

/-- A mailbox that the commands can carry. -/
structure PlainMailbox (m : Str) : Prop where
  noBracket : '>' ∉ m
  noNul : '\x00' ∉ m
  noCr : '\r' ∉ m
  short : m.length < mailboxSize

def atLocalhost : Str := "@localhost".toList

theorem parseMailbox_eq {a m : Str} (b : Str) (ha : '<' ∉ a) (hm : PlainMailbox m) :
    parseMailbox (a ++ '<' :: (m ++ '>' :: b)) = some m := by
  have hdrop : (a ++ '<' :: (m ++ '>' :: b)).drop (a.length + 1) = m ++ '>' :: b := by
    rw [List.drop_length_add_append]
    rfl
  rw [parseMailbox, Lib.firstIdx_sep _ ha, Option.bind_some, hdrop, Lib.firstIdx_sep _ hm.noBracket,
    Option.bind_some, if_pos hm.short, List.take_left, cstr_eq hm.noNul]

theorem fromLastAt_localhost (user : Str) :
    fromLastAt (user ++ atLocalhost) = some atLocalhost := by
  have hrev : ((user ++ atLocalhost).reverse.takeWhile (· ≠ '@')).reverse = "localhost".toList := by
    rw [List.reverse_append]
    rfl
  have hmem : '@' ∈ user ++ atLocalhost := List.mem_append_right _ (by decide)
  rw [fromLastAt, if_pos hmem, hrev]
  rfl

/-- What a command of the opening leaves: a new state, the command noted, the text as it was. -/
structure Took (s t : Session) (line : Str) (n : Nat) (sender : Str)
    (rcpts : Std.TreeSet Str compare) : Prop where
  state : t.state = n
  quit : t.quit = false
  data : t.data = s.data
  sender : t.sender = sender
  rcpts : t.rcpts = rcpts
  handled : t.handled = s.handled ++ [.command line]

theorem read_command {n m : Nat} {sender : Str} {rcpts : Std.TreeSet Str compare} (hs : s.Waits n)
    (hrow : IsLine line) (hnul : '\x00' ∉ line) (hlen : line.length < buffSize)
    (hline : ∀ z, Zero z → ∃ t, (s.load (line ++ z)).line line.length = some t ∧
      Took s t line m sender rcpts) :
    ∃ t, s.read line = some t ∧ t.Waits m ∧ Took s t line m sender rcpts := by
  obtain ⟨z, z', hz, hz', hread⟩ := read_line hs hrow hnul hlen
  obtain ⟨t, ht, htook⟩ := hline z hz
  rw [ht, Option.map_some, htook.quit] at hread
  exact ⟨_, hread, ⟨htook.state, htook.quit, hz'⟩, htook.state, htook.quit,
    htook.data, htook.sender, htook.rcpts, htook.handled⟩

/-- The line at the front of the buffer is executed as the command it begins with. -/
theorem line_command {z : Str} (hstate : s.state ≠ 4) (hnul : '\x00' ∉ line) (hz : Zero z)
    {c : Str} (hc : line.take cmdSize = c) :
    (s.load (line ++ z)).line line.length =
      let u := (s.load (line ++ z)).note line.length
      if sameCase c "data\r".toList then u.handleData line.length
      else if sameCase c "helo ".toList then some u.handleHelo
      else if sameCase c "mail ".toList then u.handleFrom
      else if sameCase c "rcpt ".toList then u.handleTo
      else if sameCase c "rset\r".toList then some u.handleRset
      else if sameCase c "noop\r".toList then some (u.reply mailOK)
      else if sameCase c "quit\r".toList then
        some ({ u with state := 6, quit := true }.reply serviceClose)
      else some (u.reply unknownCmd) := by
  simp only [Session.line, load_state, load_buff, cstr_row hnul hz, hc, if_neg hstate]

theorem note_handled (s : Session) (line z : Str) :
    ((s.load (line ++ z)).note line.length).handled = s.handled ++ [.command line] := by
  rw [note, load_buff, List.take_left]
  rfl

theorem handleHelo_eq (h : s.state ≤ 1) :
    ∃ replies, s.handleHelo = { s with state := 1, replies := replies } := by
  obtain ⟨replies, hs⟩ := expect_eq s (cmdSize < (cstr s.buff).length) syntaxErr
  rw [handleHelo, hs]
  exact ⟨_, if_neg (Nat.not_lt.mpr h)⟩

theorem handleFrom_eq {m : Str} (h : s.state = 1)
    (hm : parseMailbox s.buff = some (m ++ atLocalhost)) :
    ∃ replies, s.handleFrom
      = some { s with state := 2, sender := m ++ atLocalhost, replies := replies } := by
  obtain ⟨replies, hs⟩ := expect_eq s
    (sameCase (((cstr s.buff).drop cmdSize).take 5) "from:".toList) unknownCmd
  rw [handleFrom, hs]
  simp only [h, hm, ne_eq, not_true_eq_false, if_false, Option.bind_some, fromLastAt_localhost,
    Option.map_some]
  rw [if_neg (by decide)]
  exact ⟨_, rfl⟩

theorem handleTo_eq {m : Str} (h : s.state = 2 ∨ s.state = 3) (hm : parseMailbox s.buff = some m) :
    ∃ replies, s.handleTo
      = some { s with state := 3, rcpts := s.rcpts.insert m, replies := replies } := by
  obtain ⟨replies, hs⟩ := expect_eq s
    (sameCase (((cstr s.buff).drop cmdSize).take 3) "to:".toList) unknownCmd
  have hseq : ¬ (s.state < 2 ∨ 3 < s.state) := by omega
  rw [handleTo, hs]
  simp only [if_neg hseq, hm, Option.map_some]
  exact ⟨_, rfl⟩

theorem read_helo (hs : s.Waits 0) : ∃ t, s.read heloLine = some t ∧ t.Waits 1 ∧
    Took s t heloLine 1 s.sender s.rcpts := by
  have hnul : '\x00' ∉ heloLine := by decide
  refine read_command hs ⟨"HELO tester".toList, rfl, by decide⟩ hnul (by decide) fun z hz => ?_
  have hstate : s.state ≠ 4 := by rw [hs.state]; decide
  have hlow : ((s.load (heloLine ++ z)).note heloLine.length).state ≤ 1 :=
    hs.state.trans_le (Nat.zero_le 1)
  obtain ⟨replies, hhelo⟩ := handleHelo_eq hlow
  rw [line_command hstate hnul hz rfl, if_neg (by decide), if_pos (by decide), hhelo]
  exact ⟨_, rfl, rfl, hs.quit, rfl, rfl, rfl, note_handled s _ z⟩

theorem read_data (hs : s.Waits 3) : ∃ t, s.read dataLine = some t ∧ t.Waits 4 ∧
    Took s t dataLine 4 s.sender s.rcpts := by
  have hnul : '\x00' ∉ dataLine := by decide
  refine read_command hs ⟨"DATA".toList, rfl, by decide⟩ hnul (by decide) fun z hz => ?_
  have hstate : s.state ≠ 4 := by rw [hs.state]; decide
  have hthree : ((s.load (dataLine ++ z)).note dataLine.length).state = 3 := hs.state
  rw [line_command hstate hnul hz rfl, if_pos (by decide), handleData, if_neg (by omega),
    if_pos hthree]
  exact ⟨_, rfl, rfl, hs.quit, rfl, rfl, rfl, note_handled s _ z⟩

section MailboxLine

variable {keyword m z : Str}

/-- A command with a mailbox is a line the session reads in one piece. -/
theorem isLine_mailbox (hcr : '\r' ∉ keyword) (hm : PlainMailbox m) :
    IsLine (mailboxLine keyword m) := by
  refine ⟨keyword ++ '<' :: (m ++ ['>']), by simp [mailboxLine], fun hin => ?_⟩
  have hmem : '\r' ∈ keyword ++ '<' :: (m ++ ['>']) := hin.subset (by simp [crlf])
  simp [hcr, hm.noCr] at hmem

theorem noNul_mailbox (hnul : '\x00' ∉ keyword) (hm : PlainMailbox m) :
    '\x00' ∉ mailboxLine keyword m := by
  simp [mailboxLine, crlf, hnul, hm.noNul]

theorem length_mailbox (hlen : keyword.length < 20) (hm : PlainMailbox m) :
    (mailboxLine keyword m).length < buffSize := by
  have hshort := hm.short
  simp only [mailboxLine, crlf, mailboxSize, buffSize, List.length_append, List.length_cons,
    List.length_nil] at hshort ⊢
  omega

theorem parse_mailboxLine (hangle : '<' ∉ keyword) (hm : PlainMailbox m) :
    parseMailbox (mailboxLine keyword m ++ z) = some m := by
  rw [← parseMailbox_eq (crlf ++ z) hangle hm]
  simp [mailboxLine]

end MailboxLine

theorem read_from {user : Str} (hs : s.Waits 1) (hm : PlainMailbox (user ++ atLocalhost)) :
    ∃ t, s.read (mailboxLine "MAIL FROM:".toList (user ++ atLocalhost)) = some t ∧ t.Waits 2 ∧
      Took s t (mailboxLine "MAIL FROM:".toList (user ++ atLocalhost)) 2 (user ++ atLocalhost)
        s.rcpts := by
  have hnul := noNul_mailbox (by decide : '\x00' ∉ "MAIL FROM:".toList) hm
  refine read_command hs (isLine_mailbox (by decide) hm) hnul (length_mailbox (by decide) hm)
    fun z hz => ?_
  have hstate : s.state ≠ 4 := by rw [hs.state]; decide
  generalize hline : mailboxLine "MAIL FROM:".toList (user ++ atLocalhost) = line at hnul ⊢
  have hone : ((s.load (line ++ z)).note line.length).state = 1 := hs.state
  have hparse : parseMailbox ((s.load (line ++ z)).note line.length).buff
      = some (user ++ atLocalhost) := hline ▸ parse_mailboxLine (by decide) hm
  obtain ⟨replies, hfrom⟩ := handleFrom_eq hone hparse
  rw [line_command (c := "MAIL ".toList) hstate hnul hz (hline ▸ rfl), if_neg (by decide),
    if_neg (by decide), if_pos (by decide), hfrom]
  exact ⟨_, rfl, rfl, hs.quit, rfl, rfl, rfl, note_handled s _ z⟩

theorem read_to {m : Str} {n : Nat} (hs : s.Waits n) (hn : n = 2 ∨ n = 3) (hm : PlainMailbox m) :
    ∃ t, s.read (mailboxLine "RCPT TO:".toList m) = some t ∧ t.Waits 3 ∧
      Took s t (mailboxLine "RCPT TO:".toList m) 3 s.sender (s.rcpts.insert m) := by
  have hnul := noNul_mailbox (by decide : '\x00' ∉ "RCPT TO:".toList) hm
  refine read_command hs (isLine_mailbox (by decide) hm) hnul (length_mailbox (by decide) hm)
    fun z hz => ?_
  have hstate : s.state ≠ 4 := by rw [hs.state]; omega
  generalize hline : mailboxLine "RCPT TO:".toList m = line at hnul ⊢
  have htwo : ((s.load (line ++ z)).note line.length).state = 2 ∨
      ((s.load (line ++ z)).note line.length).state = 3 := hs.state.symm ▸ hn
  have hparse : parseMailbox ((s.load (line ++ z)).note line.length).buff = some m :=
    hline ▸ parse_mailboxLine (by decide) hm
  obtain ⟨replies, hto⟩ := handleTo_eq htwo hparse
  rw [line_command (c := "RCPT ".toList) hstate hnul hz (hline ▸ rfl), if_neg (by decide),
    if_neg (by decide), if_neg (by decide), if_pos (by decide), hto]
  exact ⟨_, rfl, rfl, hs.quit, rfl, rfl, rfl, note_handled s _ z⟩

/-- A session that has accepted `DATA` and nothing since. -/
structure Ready (s : Session) : Prop where
  waits : s.Waits 4
  data : s.data = []

/-- Recipients, one after the other. -/
theorem read_rcpts : ∀ (rcpts : List Str) (s : Session), s.Waits 3 →
    (∀ m ∈ rcpts, PlainMailbox m) →
    ∃ t, s.readAll (rcpts.map (mailboxLine "RCPT TO:".toList)) = some t ∧ t.Waits 3 ∧
      t.data = s.data ∧ t.sender = s.sender ∧ t.rcpts = rcpts.foldl (·.insert ·) s.rcpts ∧
      t.handled = s.handled ++ rcpts.map fun m => .command (mailboxLine "RCPT TO:".toList m)
  | [], s, hs, _ => ⟨s, rfl, hs, rfl, rfl, rfl, by simp⟩
  | m :: rcpts, s, hs, hrcpts => by
      obtain ⟨u, hu, hwaits, htook⟩ := read_to hs (Or.inr rfl) (hrcpts m List.mem_cons_self)
      obtain ⟨t, ht, hwaits', hdata, hsender, hset, hhandled⟩ :=
        read_rcpts rcpts u hwaits fun m hm => hrcpts m (List.mem_cons_of_mem _ hm)
      refine ⟨t, ?_, hwaits', hdata.trans htook.data, hsender.trans htook.sender, ?_, ?_⟩
      · rw [List.map_cons, readAll, hu, Option.bind_some, ht]
      · rw [hset, htook.rcpts, List.foldl_cons]
      · rw [hhandled, htook.handled, List.map_cons, List.append_assoc]
        rfl

/-- **The server accepts what comes before a message** from a local sender to plain mailboxes. -/
theorem opening_ready {user : Str} {rcpts : List Str} (huser : PlainMailbox (user ++ atLocalhost))
    (hrcpts : ∀ m ∈ rcpts, PlainMailbox m) (hne : rcpts ≠ []) :
    ∃ s, readAll {} (opening (user ++ atLocalhost) rcpts) = some s ∧ s.Ready ∧
      s.sender = user ++ atLocalhost ∧ s.rcpts = rcpts.foldl (·.insert ·) ∅ ∧
      s.handled = (opening (user ++ atLocalhost) rcpts).map .command := by
  obtain ⟨m, rcpts, rfl⟩ := List.exists_cons_of_ne_nil hne
  have hstart : Waits {} 0 := ⟨rfl, rfl, zero_nil⟩
  obtain ⟨s1, h1, hwaits1, htook1⟩ := read_helo hstart
  obtain ⟨s2, h2, hwaits2, htook2⟩ := read_from hwaits1 huser
  obtain ⟨s3, h3, hwaits3, htook3⟩ := read_to hwaits2 (Or.inl rfl) (hrcpts m List.mem_cons_self)
  obtain ⟨s4, h4, hwaits4, hdata4, hsender4, hset4, hhandled4⟩ :=
    read_rcpts rcpts s3 hwaits3 fun m hm => hrcpts m (List.mem_cons_of_mem _ hm)
  obtain ⟨s5, h5, hwaits5, htook5⟩ := read_data hwaits4
  refine ⟨s5, ?_, ⟨hwaits5, ?_⟩, ?_, ?_, ?_⟩
  · rw [opening, List.map_cons, List.cons_append, List.cons_append, List.cons_append, readAll, h1,
      Option.bind_some, readAll, h2, Option.bind_some, readAll, h3, Option.bind_some,
      readAll_append, h4, Option.bind_some, readAll, h5]
    rfl
  · rw [htook5.data, hdata4, htook3.data, htook2.data, htook1.data]
  · rw [htook5.sender, hsender4, htook3.sender, htook2.sender]
  · rw [htook5.rcpts, hset4, htook3.rcpts, htook2.rcpts, htook1.rcpts, List.foldl_cons]
  · rw [htook5.handled, hhandled4, htook3.handled, htook2.handled, htook1.handled]
    simp [opening]

end Session

end PennCloud
