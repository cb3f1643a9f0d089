import PennCloud.Webmail.MailQueue

/-!
# The queue file under a relay

`read_mqueue` puts a `\r\n` behind every line that `getline` returns, as if the
lines of the file ended with `\n` alone. They end with the `\r\n` of `handle_data`,
and `getline` leaves the `\r`. So whatever is in the queue is read with a byte more
to a line and written back so.
-/

namespace PennCloud

open Str

namespace QueueMail

/-- The header line, as it is appended. -/
def header (m : QueueMail) : Str := inboxHeader m.sender m.rcpt m.title m.time ++ crlf

/-- What is appended behind it. -/
def body (m : QueueMail) : Str :=
  ("From: ".toList ++ userOf m.sender ++ " <".toList ++ m.sender ++ ">\r\n".toList) ++
    ("To: ".toList ++ userOf m.rcpt ++ " <".toList ++ m.rcpt ++ ">\r\n".toList) ++
    ("Date: ".toList ++ m.time ++ crlf) ++ m.data

theorem text_eq (m : QueueMail) : m.text = m.header ++ m.body := by
  have hassoc : ∀ a b c d e : Str, a ++ b ++ c ++ d ++ e = a ++ (b ++ c ++ d ++ e) := by
    intro a b c d e
    simp only [List.append_assoc]
  exact hassoc _ _ _ _ _

end QueueMail

/-- The file in which messages have been appended. -/
def queueFile (ms : List QueueMail) : Str := ms.flatMap QueueMail.text

/-- The messages `i` with `deleted i` are marked. -/
def mark (deleted : Nat → Bool) (messages : List Message) : List Message :=
  messages.mapIdx fun i m => { m with deleted := deleted i }

/-- What is to be left of the file then. -/
def unmarked (deleted : Nat → Bool) (ms : List QueueMail) : Str :=
  (ms.zipIdx.filter fun e => !deleted e.2).flatMap fun e => e.1.text

/-- The messages are read as they were appended. -/
def ReadsQueue (ms : List QueueMail) : Prop :=
  readMqueue (queueFile ms) = ms.map fun m => { header := m.header, data := m.body }

/-- A relay that forwards nothing leaves the file as it is. -/
def KeepsQueue (ms : List QueueMail) : Prop :=
  updateMqueue (readMqueue (queueFile ms)) = queueFile ms

/-- The file survives a relay pass: what has been forwarded is gone, and nothing else is changed. -/
structure QueueSurvives (ms : List QueueMail) : Prop where
  reads : ReadsQueue ms
  keeps : KeepsQueue ms
  drops : ∀ deleted, updateMqueue (mark deleted (readMqueue (queueFile ms))) = unmarked deleted ms

/-! ## The first line -/

/-- The loop only adds to what it has. -/
theorem readLoop_extends (messages headers ls : List Str) (data : Str) : ∃ ms hs,
    (readLoop messages headers data ls).1 = messages ++ ms ∧
      (readLoop messages headers data ls).2.1 = headers ++ hs := by
  induction ls generalizing messages headers data with
  | nil => exact ⟨[], [], (List.append_nil _).symm, (List.append_nil _).symm⟩
  | cons l ls ih =>
      rw [readLoop]
      split
      · obtain ⟨ms, hs, hmessages, hheaders⟩ := ih (messages ++ [data]) (headers ++ [l ++ crlf]) []
        exact ⟨data :: ms, (l ++ crlf) :: hs, by rw [hmessages, List.append_assoc]; rfl,
          by rw [hheaders, List.append_assoc]; rfl⟩
      · exact ih _ _ _

/-- The first header is the first line of the file, with a line end behind it. -/
theorem readMqueue_first {file l : Str} {ls : List Str} (hlines : Lib.lines '\n' file = l :: ls)
    (hl : headerWord <+: l) : ∃ data rest,
    readMqueue file = { header := l ++ crlf, data := data } :: rest := by
  obtain ⟨ms, hs, hmessages, hheaders⟩ := readLoop_extends [[]] [l ++ crlf] ls []
  have hloop : readLoop [] [] [] (l :: ls) = readLoop [[]] [l ++ crlf] [] ls := by
    rw [readLoop, if_pos hl]
    rfl
  rw [readMqueue, hlines, hloop]
  simp only [hmessages, hheaders, List.cons_append, List.nil_append]
  cases ms with
  | nil => exact ⟨_, _, rfl⟩
  | cons m ms => exact ⟨_, _, rfl⟩

/-- A line and its end. -/
theorem lines_prefix {s l : Str} {ls : List Str} (hs : Lib.Terminated '\n' s)
    (hlines : Lib.lines '\n' s = l :: ls) : l ++ ['\n'] <+: s := by
  have htext := Lib.flatMap_lines hs
  rw [hlines, List.flatMap_cons] at htext
  exact ⟨_, htext⟩

/-- A line end with a `\r` is not one without, behind the same line. -/
theorem not_both {l s : Str} (hnl : l ++ ['\n'] <+: s) (hcr : l ++ crlf <+: s) : False := by
  obtain ⟨t, rfl⟩ := hnl
  rw [List.append_assoc, List.prefix_append_right_inj] at hcr
  obtain ⟨he, -⟩ := List.cons_prefix_cons.mp hcr
  exact absurd he (by decide)

/-- The first line of the queue. -/
theorem queueFile_first (m : QueueMail) (ms : List QueueMail) : ∃ l ls,
    Lib.lines '\n' (queueFile (m :: ms)) = l :: ls ∧ headerWord <+: l ∧
      l ++ ['\n'] <+: m.header ∧ m.header <+: queueFile (m :: ms) := by
  have hended : Lib.Terminated '\n' m.header := terminated_append (List.suffix_refl _)
  have hmark : headerWord <+: m.header :=
    (headerWord_inbox _ _ _ _).trans (List.prefix_append _ _)
  have hfile : queueFile (m :: ms) = m.header ++ (m.body ++ queueFile ms) := by
    rw [queueFile, List.flatMap_cons, m.text_eq, List.append_assoc]
    rfl
  obtain ⟨l, ls, hlines, hl⟩ := first_header hmark hended
  refine ⟨l, ls ++ Lib.lines '\n' (m.body ++ queueFile ms), ?_, hl, lines_prefix hended hlines, ?_⟩
  · rw [hfile, Lib.lines_append _ hended, hlines, List.cons_append]
  · rw [hfile]
    exact List.prefix_append _ _

/-! ## A message in the queue -/

theorem not_reads (m : QueueMail) (ms : List QueueMail) : ¬ ReadsQueue (m :: ms) := by
  obtain ⟨l, ls, hlines, hl, hnl, -⟩ := queueFile_first m ms
  obtain ⟨data, rest, hread⟩ := readMqueue_first hlines hl
  intro h
  rw [ReadsQueue, hread, List.map_cons] at h
  have hheader : l ++ crlf = m.header := congrArg Message.header (List.cons.inj h).1
  exact not_both hnl (hheader ▸ List.prefix_refl _)

theorem not_keeps (m : QueueMail) (ms : List QueueMail) : ¬ KeepsQueue (m :: ms) := by
  obtain ⟨l, ls, hlines, hl, hnl, hfile⟩ := queueFile_first m ms
  obtain ⟨data, rest, hread⟩ := readMqueue_first hlines hl
  intro h
  rw [KeepsQueue, hread, updateMqueue, List.filter_cons_of_pos (by rfl), List.map_cons,
    List.flatten_cons, Message.text, List.append_assoc] at h
  exact not_both (hnl.trans hfile) ⟨_, h⟩

/-- **The queue file survives a relay pass** only without a message: a message is read with a
`\r` more at the ends of its lines, and written back so. -/
theorem queueSurvives_iff (ms : List QueueMail) :
    (ReadsQueue ms ↔ ms = []) ∧ (KeepsQueue ms ↔ ms = []) ∧ (QueueSurvives ms ↔ ms = []) := by
  cases ms with
  | nil =>
      exact ⟨iff_of_true rfl rfl, iff_of_true rfl rfl, iff_of_true ⟨rfl, rfl, fun _ => rfl⟩ rfl⟩
  | cons m ms =>
      have hne : m :: ms ≠ [] := List.cons_ne_nil m ms
      exact ⟨iff_of_false (not_reads m ms) hne, iff_of_false (not_keeps m ms) hne,
        iff_of_false (fun h => not_keeps m ms h.keeps) hne⟩

/-- One message, in the queue since the last pass. -/
theorem oneMail_grows : ¬ QueueSurvives [mailTo "bob@x".toList] ∧
    updateMqueue (readMqueue (queueFile [mailTo "bob@x".toList]))
      ≠ queueFile [mailTo "bob@x".toList] ∧
    (updateMqueue (readMqueue (queueFile [mailTo "bob@x".toList]))).length =
      (queueFile [mailTo "bob@x".toList]).length + 5 := by
  have hkeeps : ¬ KeepsQueue [mailTo "bob@x".toList] := not_keeps _ _
  exact ⟨fun h => hkeeps h.keeps, hkeeps, by decide +kernel⟩

end PennCloud
