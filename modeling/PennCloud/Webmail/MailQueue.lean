import PennCloud.Lib.Lines
import PennCloud.Lib.Threads
import PennCloud.Webmail.Delivery
import Mathlib.Data.List.DropRight

/-!
# The outgoing mail queue

A message to another host is appended to one text file, under `MUTEX`, and every
`mail_relay` reads that file, tries to forward what it has read, and then writes
the file anew, without the lock. A line that begins with `Header ` starts a
message, also where it stands within one. `getline` leaves the `\r` of a line end
and `read_mqueue` adds another one, so a message grows in the queue; `bare` is
what stays.
-/

namespace PennCloud

open Str

/-- What a message in the queue begins with. -/
def headerWord : Str := "Header ".toList

/-- A message for another host, as `handle_data` appends it. -/
structure QueueMail where
  sender : Str
  rcpt : Str
  title : Str
  time : Str
  data : Str
  /-- The session has collected whole lines. -/
  data_rows : data = [] ∨ crlf <:+ data

/-- `header << from << to << date << data`. -/
def QueueMail.text (m : QueueMail) : Str :=
  inboxHeader m.sender m.rcpt m.title m.time ++ crlf ++
    ("From: ".toList ++ userOf m.sender ++ " <".toList ++ m.sender ++ ">\r\n".toList) ++
    ("To: ".toList ++ userOf m.rcpt ++ " <".toList ++ m.rcpt ++ ">\r\n".toList) ++
    ("Date: ".toList ++ m.time ++ crlf) ++ m.data

/-- A `Message` with its header. -/
structure Message where
  header : Str
  data : Str
  deleted : Bool := false
  deriving DecidableEq

/-- What `update_mqueue` writes of it. -/
def Message.text (m : Message) : Str := m.header ++ m.data

/-- The loop of `read_mqueue`: the texts and headers of the messages so far, and the text since. -/
def readLoop : List Str → List Str → Str → List Str → List Str × List Str × Str
  | messages, headers, data, [] => (messages, headers, data)
  | messages, headers, data, line :: rest =>
    if headerWord <+: line then readLoop (messages ++ [data]) (headers ++ [line ++ crlf]) [] rest
    else readLoop messages headers (data ++ (line ++ crlf)) rest

/-- `read_mqueue`. -/
def readMqueue (file : Str) : List Message :=
  let r := readLoop [] [] [] (Lib.lines '\n' file)
  let messages := if r.1 = [] then [] else r.1.drop 1 ++ [r.2.2]
  List.zipWith (fun header data => { header := header, data := data }) r.2.1 messages

/-- `update_mqueue`, the file it leaves. -/
def updateMqueue (messages : List Message) : Str :=
  ((messages.filter fun m => !m.deleted).map Message.text).flatten

/-- The queue, and what has been put there and forwarded. -/
structure MailQueue where
  file : Str := []
  appended : List Str := []
  forwarded : List Str := []

/-- Where a worker or a relay stands. -/
inductive QueuePc
  /-- About to append a message. -/
  | append (m : QueueMail)
  /-- `mail_relay`, about to read the queue; `sent i` says how its attempt `i` goes. -/
  | read (sent : Nat → Bool)
  /-- About to attempt message `i`, or to write the queue behind the last. -/
  | loop (sent : Nat → Bool) (i : Nat) (messages : List Message)
  | done

inductive QueueCall
  | append (m : QueueMail)
  | relay (sent : Nat → Bool)

def QueueCall.start : QueueCall → QueuePc
  | append m => .append m
  | relay sent => .read sent

namespace MailQueue

/-- The next step of a worker or relay. -/
def next (s : MailQueue) : QueuePc → Option (MailQueue × QueuePc)
  | .append m => some ({ s with file := s.file ++ m.text, appended := m.text :: s.appended }, .done)
  | .read sent => some (s, .loop sent 0 (readMqueue s.file))
  | .loop sent i messages =>
    match messages[i]? with
    | some m =>
      if sent i then some ({ s with forwarded := m.text :: s.forwarded },
        .loop sent (i + 1) (messages.set i { m with deleted := true }))
      else some (s, .loop sent (i + 1) messages)
    | none => some ({ s with file := updateMqueue messages }, .done)
  | .done => none

abbrev step : Lib.Threads MailQueue QueuePc → Lib.Turn QueueCall →
    Option (Lib.Threads MailQueue QueuePc) := Lib.Threads.step QueueCall.start next

end MailQueue

/-- The lines of a message without the `\r`s at their ends. -/
def bare (text : Str) : List Str :=
  (Lib.lines '\n' text).map fun l => l.rdropWhile fun c => decide (c = '\r')

/-- Every message that has been appended has been forwarded, or is in the queue. -/
def MailQueue.NothingLost (s : MailQueue) : Prop :=
  ∀ m ∈ s.appended, (∃ f ∈ s.forwarded, bare f = bare m) ∨
    ∃ q ∈ readMqueue s.file, bare q.text = bare m

/-- No other line of a message begins like a header. -/
def QueueMail.OneHeader (m : QueueMail) : Prop :=
  ∀ l ∈ (Lib.lines '\n' m.text).tail, ¬ headerWord <+: l

/--
What a message and a relay need: one header line in the message, and when the
relay writes the queue nothing there but what it has read itself, or what has
been forwarded.
-/
def MailQueue.Rewrites (s : MailQueue) : QueuePc → Prop
  | .append m => m.OneHeader
  | .loop _ i messages => messages.length ≤ i → ∀ q ∈ readMqueue s.file,
      (∃ m ∈ messages, bare m.text = bare q.text) ∨ ∃ f ∈ s.forwarded, bare f = bare q.text
  | _ => True

/-! ## Reading the queue -/

/-- The text of a message: whole lines, the first and only the first like a header. -/
structure Block (b : Str) : Prop where
  ended : Lib.Terminated '\n' b
  lines : ∃ l ls, Lib.lines '\n' b = l :: ls ∧ headerWord <+: l ∧ ∀ m ∈ ls, ¬ headerWord <+: m

/-- What `read_mqueue` makes of a message's text. -/
def messageOf (b : Str) : Message where
  header := ((Lib.lines '\n' b).head?.map (· ++ crlf)).getD []
  data := (Lib.lines '\n' b).tail.flatMap (· ++ crlf)

theorem readLoop_data {messages headers ls : List Str} (data : Str) (rest : List Str)
    (h : ∀ l ∈ ls, ¬ headerWord <+: l) : readLoop messages headers data (ls ++ rest)
      = readLoop messages headers (data ++ ls.flatMap (· ++ crlf)) rest := by
  induction ls generalizing data with
  | nil => simp
  | cons l ls ih =>
      rw [List.cons_append, readLoop, if_neg (h l List.mem_cons_self),
        ih _ fun m hm => h m (List.mem_cons_of_mem _ hm), List.flatMap_cons,
        List.append_assoc]

/-- A message is read whole. -/
theorem readLoop_block {b : Str} (hb : Block b) (messages headers : List Str) (data : Str)
    (rest : List Str) : readLoop messages headers data (Lib.lines '\n' b ++ rest)
      = readLoop (messages ++ [data]) (headers ++ [(messageOf b).header])
        (messageOf b).data rest := by
  obtain ⟨l, ls, hlines, hl, hls⟩ := hb.lines
  rw [messageOf, hlines, List.cons_append, readLoop, if_pos hl, readLoop_data _ rest hls]
  rfl

/-- So are several, the text of the last one being left. -/
theorem readLoop_blocks : ∀ {bs : List Str} (messages headers : List Str) (data : Str),
    (∀ b ∈ bs, Block b) → ∃ r, readLoop messages headers data (Lib.lines '\n' bs.flatten) = r ∧
      r.1 ++ [r.2.2] = messages ++ data :: bs.map (fun b => (messageOf b).data) ∧
      r.2.1 = headers ++ bs.map fun b => (messageOf b).header := by
  intro bs
  induction bs with
  | nil => exact fun messages headers data _ => ⟨_, rfl, rfl, by simp [readLoop]⟩
  | cons b bs ih =>
      intro messages headers data h
      have hb := h b List.mem_cons_self
      obtain ⟨r, hr, hmessages, hheaders⟩ := ih (messages ++ [data])
        (headers ++ [(messageOf b).header]) (messageOf b).data
        fun c hc => h c (List.mem_cons_of_mem _ hc)
      refine ⟨r, ?_, ?_, ?_⟩
      · rw [List.flatten_cons, Lib.lines_append _ hb.ended, readLoop_block hb, hr]
      · rw [hmessages, List.append_assoc]
        rfl
      · rw [hheaders, List.append_assoc]
        rfl

/-- **The queue is read message by message.** -/
theorem readMqueue_blocks {bs : List Str} (h : ∀ b ∈ bs, Block b) :
    readMqueue bs.flatten = bs.map messageOf := by
  obtain ⟨r, hr, hmessages, hheaders⟩ := readLoop_blocks [] [] [] h
  have htexts : (if r.1 = [] then [] else r.1.drop 1 ++ [r.2.2]) = bs.map fun b =>
    (messageOf b).data := by
    cases hfirst : r.1 with
    | nil =>
        rw [hfirst] at hmessages
        rw [if_pos rfl]
        exact (List.cons.inj hmessages).2
    | cons m ms =>
        rw [hfirst] at hmessages
        rw [if_neg (List.cons_ne_nil m ms)]
        exact (List.cons.inj hmessages).2
  have hzip : ∀ cs : List Str, List.zipWith (fun header data => ({ header, data } : Message))
      (cs.map fun b => (messageOf b).header) (cs.map fun b => (messageOf b).data)
        = cs.map messageOf := by
    intro cs
    induction cs with
    | nil => rfl
    | cons c cs ih =>
        rw [List.map_cons, List.map_cons, List.zipWith_cons_cons, ih]
        rfl
  rw [readMqueue, hr]
  simp only [htexts, hheaders, List.nil_append]
  exact hzip bs

theorem text_messageOf {b : Str} (hb : Block b) :
    (messageOf b).text = (Lib.lines '\n' b).flatMap (· ++ crlf) := by
  obtain ⟨l, ls, hlines, -⟩ := hb.lines
  rw [messageOf, Message.text, hlines]
  rfl

theorem lines_rows {ls : List Str} (h : ∀ l ∈ ls, '\n' ∉ l) :
    Lib.lines '\n' (ls.flatMap (· ++ crlf)) = ls.map (· ++ ['\r']) := by
  induction ls with
  | nil => rfl
  | cons l ls ih =>
      have hl : '\n' ∉ l ++ ['\r'] := by
        rw [List.mem_append, not_or]
        exact ⟨h l List.mem_cons_self, by decide⟩
      have hsplit : l ++ crlf ++ ls.flatMap (· ++ crlf) = (l ++ ['\r']) ++ '\n'
        :: ls.flatMap (· ++ crlf) := by
        simp [crlf]
      rw [List.flatMap_cons, hsplit, Lib.lines_line _ hl,
        ih fun m hm => h m (List.mem_cons_of_mem _ hm)]
      rfl

theorem terminated_rows (ls : List Str) : Lib.Terminated '\n' (ls.flatMap (· ++ crlf)) := by
  induction ls with
  | nil => exact Or.inl rfl
  | cons l ls ih =>
      refine Or.inr ?_
      rcases ih with hnil | ⟨t, ht⟩
      · exact ⟨l ++ ['\r'], by rw [List.flatMap_cons, hnil]; simp [crlf]⟩
      · exact ⟨l ++ crlf ++ t, by rw [List.flatMap_cons, ht, ← List.append_assoc]⟩

/-- What has been read and written back has the same lines, but for a `\r` more at each end. -/
theorem lines_messageOf {b : Str} (hb : Block b) :
    Lib.lines '\n' (messageOf b).text = (Lib.lines '\n' b).map (· ++ ['\r']) := by
  rw [text_messageOf hb]
  exact lines_rows fun _ => Lib.nl_notMem_of_mem_lines

theorem bare_messageOf {b : Str} (hb : Block b) : bare (messageOf b).text = bare b := by
  rw [bare, lines_messageOf hb, List.map_map, bare]
  refine List.map_congr_left fun l _ => ?_
  exact List.rdropWhile_concat_pos _ _ _ (by decide)

theorem headerWord_cr (l : Str) : headerWord <+: l ++ ['\r'] ↔ headerWord <+: l := by
  rw [List.prefix_concat_iff]
  refine or_iff_right fun he => ?_
  have hlast := congrArg List.getLast? he
  rw [List.getLast?_concat] at hlast
  exact absurd hlast (by decide)

/-- And is a message again. -/
theorem block_messageOf {b : Str} (hb : Block b) : Block (messageOf b).text := by
  obtain ⟨l, ls, hlines, hl, hls⟩ := hb.lines
  have hrows := lines_messageOf hb
  rw [hlines, List.map_cons] at hrows
  refine ⟨?_, _, _, hrows, (headerWord_cr l).mpr hl, ?_⟩
  · rw [text_messageOf hb]
    exact terminated_rows _
  · intro m hm
    obtain ⟨k, hk, rfl⟩ := List.mem_map.mp hm
    exact fun hpre => hls k hk ((headerWord_cr k).mp hpre)

theorem terminated_append {x y : Str} (hy : crlf <:+ y) : Lib.Terminated '\n' (x ++ y) := by
  obtain ⟨t, rfl⟩ := hy
  exact Or.inr ⟨x ++ (t ++ ['\r']), by simp [crlf]⟩

/-- A text ends with its last line. -/
theorem QueueMail.terminated_text (m : QueueMail) : Lib.Terminated '\n' m.text := by
  rcases m.data_rows with hnil | hdata
  · rw [QueueMail.text, hnil, List.append_nil]
    exact terminated_append (List.suffix_append _ _)
  · exact terminated_append hdata

theorem headerWord_inbox (sender rcpt title time : Str) :
    headerWord <+: inboxHeader sender rcpt title time :=
  (show headerWord <+: headerMark by decide).trans (headerMark_inbox sender rcpt title time)

theorem header_of_head {text l : Str} {ls : List Str} (hmark : headerWord <+: text)
    (hended : Lib.Terminated '\n' text) (hlines : Lib.lines '\n' text = l :: ls) :
    headerWord <+: l := by
  have htext := Lib.flatMap_lines hended
  rw [hlines, List.flatMap_cons, List.append_assoc] at htext
  have hl : l <+: text := ⟨_, htext⟩
  rcases List.prefix_or_prefix_of_prefix hmark hl with hpre | ⟨t, ht⟩
  · exact hpre
  · -- else the line would end within the word, which has no line break
    cases t with
    | nil => exact ⟨[], by rw [List.append_nil, ← ht, List.append_nil]⟩
    | cons c t =>
        have hword : l ++ c :: t <+: l ++ (['\n'] ++ ls.flatMap (· ++ ['\n'])) := by
          rw [ht, htext]
          exact hmark
        obtain ⟨rfl, -⟩ := List.cons_prefix_cons.mp ((List.prefix_append_right_inj l).mp hword)
        have hmem : '\n' ∈ headerWord := by
          rw [← ht]
          exact List.mem_append_right _ List.mem_cons_self
        exact absurd hmem (by decide)

/-- A text that begins like a header has a first line that does. -/
theorem first_header {text : Str} (hmark : headerWord <+: text)
    (hended : Lib.Terminated '\n' text) :
    ∃ l ls, Lib.lines '\n' text = l :: ls ∧ headerWord <+: l := by
  cases hlines : Lib.lines '\n' text with
  | nil =>
      obtain ⟨t, rfl⟩ := hmark
      exact absurd hlines (Lib.lines_ne_nil (List.cons_ne_nil _ _))
  | cons l ls => exact ⟨l, ls, rfl, header_of_head hmark hended hlines⟩

/-- What is appended is a message, if it has no other line like a header. -/
theorem block_appended {m : QueueMail} (h : m.OneHeader) : Block m.text := by
  have hmark : headerWord <+: m.text := by
    simp only [QueueMail.text, List.append_assoc]
    exact (headerWord_inbox _ _ _ _).trans (List.prefix_append _ _)
  obtain ⟨l, ls, hlines, hl⟩ := first_header hmark m.terminated_text
  rw [QueueMail.OneHeader, hlines] at h
  exact ⟨m.terminated_text, l, ls, hlines, hl, h⟩

/-! ## Appending, reading and writing back -/

/-- The queue is a list of messages, each of them known. -/
def MailQueue.Inv (s : MailQueue) : Prop :=
  (∃ bs : List Str, s.file = bs.flatten ∧ ∀ b ∈ bs, Block b) ∧ s.NothingLost

/-- A relay holds messages, and those it has marked have been forwarded. -/
def MailQueue.Held (s : MailQueue) : QueuePc → Prop
  | .loop _ _ messages => ∀ m ∈ messages, Block m.text ∧ (m.deleted = true →
      ∃ f ∈ s.forwarded, bare f = bare m.text)
  | _ => True

theorem mem_readMqueue {bs : List Str} (h : ∀ b ∈ bs, Block b) {q : Message} :
    q ∈ readMqueue bs.flatten ↔ ∃ b ∈ bs, messageOf b = q := by
  rw [readMqueue_blocks h, List.mem_map]

/-- What is in the queue as a text is in it as a message. -/
theorem exists_read {bs : List Str} (h : ∀ b ∈ bs, Block b) (m : Str) :
    (∃ q ∈ readMqueue bs.flatten, bare q.text = bare m) ↔ ∃ b ∈ bs, bare b = bare m := by
  constructor
  · rintro ⟨q, hq, he⟩
    obtain ⟨b, hb, rfl⟩ := (mem_readMqueue h).mp hq
    exact ⟨b, hb, (bare_messageOf (h b hb)).symm.trans he⟩
  · rintro ⟨b, hb, he⟩
    exact ⟨messageOf b, (mem_readMqueue h).mpr ⟨b, hb, rfl⟩, (bare_messageOf (h b hb)).trans he⟩

/-- What a relay leaves in the queue. -/
theorem blocks_updateMqueue {messages : List Message} (h : ∀ m ∈ messages, Block m.text) :
    ∃ bs : List Str, updateMqueue messages = bs.flatten ∧ (∀ b ∈ bs, Block b) ∧
      ∀ m ∈ messages, m.deleted = false → m.text ∈ bs := by
  refine ⟨_, rfl, fun b hb => ?_, fun m hm hdeleted => ?_⟩
  · obtain ⟨m, hm, rfl⟩ := List.mem_map.mp hb
    exact h m (List.mem_of_mem_filter hm)
  · refine List.mem_map_of_mem (List.mem_filter.mpr ⟨hm, ?_⟩)
    rw [hdeleted]
    rfl

namespace MailQueue

variable {s : MailQueue}

/-- A message is put behind the others. -/
theorem inv_append (hs : s.Inv) {m : QueueMail} (hm : m.OneHeader) :
    Inv { s with file := s.file ++ m.text, appended := m.text :: s.appended } := by
  obtain ⟨⟨bs, hfile, hbs⟩, hlost⟩ := hs
  have hblocks : ∀ b ∈ bs ++ [m.text], Block b := by
    intro b hb
    rcases List.mem_append.mp hb with hb | hb
    · exact hbs b hb
    · rw [List.mem_singleton.mp hb]
      exact block_appended hm
  have hfile' : s.file ++ m.text = (bs ++ [m.text]).flatten := by
    rw [List.flatten_append, hfile, List.flatten_singleton]
  refine ⟨⟨_, hfile', hblocks⟩, fun k hk => ?_⟩
  rw [hfile', exists_read hblocks]
  rcases List.mem_cons.mp hk with rfl | hk
  · exact Or.inr ⟨m.text, List.mem_append_right _ (List.mem_singleton_self _), rfl⟩
  · refine (hlost k hk).imp_right fun hq => ?_
    rw [hfile, exists_read hbs] at hq
    obtain ⟨b, hb, he⟩ := hq
    exact ⟨b, List.mem_append_left _ hb, he⟩

/-- A message is forwarded. -/
theorem inv_forward (hs : s.Inv) (text : Str) :
    Inv { s with forwarded := text :: s.forwarded } := by
  refine ⟨hs.1, fun k hk => ?_⟩
  refine (hs.2 k hk).imp_left ?_
  rintro ⟨f, hf, he⟩
  exact ⟨f, List.mem_cons_of_mem _ hf, he⟩

/-- The queue is written anew. -/
theorem inv_update (hs : s.Inv) {messages : List Message}
    (hheld : s.Held (.loop (fun _ => true) 0 messages))
    (hread : ∀ q ∈ readMqueue s.file, (∃ m ∈ messages, bare m.text = bare q.text) ∨
      ∃ f ∈ s.forwarded, bare f = bare q.text) : Inv { s with file := updateMqueue messages } := by
  obtain ⟨bs, hfile, hbs, hkept⟩ := blocks_updateMqueue fun m hm => (hheld m hm).1
  refine ⟨⟨bs, hfile, hbs⟩, fun k hk => ?_⟩
  rw [hfile, exists_read hbs]
  rcases hs.2 k hk with hforwarded | ⟨q, hq, hqk⟩
  · exact Or.inl hforwarded
  · rcases hread q hq with ⟨m, hm, hmq⟩ | ⟨f, hf, hfq⟩
    · cases hdeleted : m.deleted with
      | true =>
          obtain ⟨f, hf, hfm⟩ := (hheld m hm).2 hdeleted
          exact Or.inl ⟨f, hf, hfm.trans (hmq.trans hqk)⟩
      | false => exact Or.inr ⟨m.text, hkept m hm hdeleted, hmq.trans hqk⟩
    · exact Or.inl ⟨f, hf, hfq.trans hqk⟩

/-- More may be forwarded, whatever a relay holds. -/
theorem Held.mono {t : MailQueue} (hsub : s.forwarded ⊆ t.forwarded) {p : QueuePc}
    (h : s.Held p) : t.Held p := by
  cases p with
  | loop sent i messages =>
      intro m hm
      refine ⟨(h m hm).1, fun hdeleted => ?_⟩
      obtain ⟨f, hf, he⟩ := (h m hm).2 hdeleted
      exact ⟨f, hsub hf, he⟩
  | append m => trivial
  | read sent => trivial
  | done => trivial

/-- What a relay has read. -/
theorem held_read (hs : s.Inv) (sent : Nat → Bool) : s.Held (.loop sent 0 (readMqueue s.file)) := by
  obtain ⟨⟨bs, hfile, hbs⟩, -⟩ := hs
  intro m hm
  rw [hfile] at hm
  obtain ⟨b, hb, rfl⟩ := (mem_readMqueue hbs).mp hm
  exact ⟨block_messageOf (hbs b hb), fun hdeleted => absurd hdeleted Bool.false_ne_true⟩

/-- What a step does. -/
theorem next_cases {p q : QueuePc} {t : MailQueue} (h : s.next p = some (t, q)) :
    (∃ m, p = .append m ∧ q = .done ∧
      t = { s with file := s.file ++ m.text, appended := m.text :: s.appended }) ∨
    (∃ sent, p = .read sent ∧ q = .loop sent 0 (readMqueue s.file) ∧ t = s) ∨
    (∃ sent i messages m, p = .loop sent i messages ∧ messages[i]? = some m ∧
      q = .loop sent (i + 1) (messages.set i { m with deleted := true }) ∧
      t = { s with forwarded := m.text :: s.forwarded }) ∨
    (∃ sent i messages, p = .loop sent i messages ∧ q = .loop sent (i + 1) messages ∧ t = s) ∨
    ∃ sent i messages, p = .loop sent i messages ∧ messages.length ≤ i ∧ q = .done ∧
      t = { s with file := updateMqueue messages } := by
  cases p with
  | append m =>
      cases h
      exact Or.inl ⟨m, rfl, rfl, rfl⟩
  | read sent =>
      cases h
      exact Or.inr (Or.inl ⟨sent, rfl, rfl, rfl⟩)
  | loop sent i messages =>
      refine Or.inr (Or.inr ?_)
      rw [next] at h
      cases hm : messages[i]? with
      | none =>
          rw [hm] at h
          cases h
          exact Or.inr (Or.inr ⟨sent, i, messages, rfl, List.getElem?_eq_none_iff.mp hm, rfl, rfl⟩)
      | some m =>
          rw [hm] at h
          cases hsent : sent i with
          | true =>
              simp only [hsent, if_true] at h
              cases h
              exact Or.inl ⟨sent, i, messages, m, rfl, hm, rfl, rfl⟩
          | false =>
              simp only [hsent, Bool.false_eq_true, if_false] at h
              cases h
              exact Or.inr (Or.inl ⟨sent, i, messages, rfl, rfl, rfl⟩)
  | done => cases h

/-- A step keeps the queue, and what the worker or relay that makes it holds. -/
theorem held_next {p q : QueuePc} {t : MailQueue} (hs : s.Inv) (hp : s.Held p) (hc : s.Rewrites p)
    (h : s.next p = some (t, q)) : t.Inv ∧ t.Held q := by
  rcases next_cases h with ⟨m, rfl, rfl, rfl⟩ | ⟨sent, rfl, rfl, rfl⟩ |
      ⟨sent, i, messages, m, rfl, hm, rfl, rfl⟩ | ⟨sent, i, messages, rfl, rfl, rfl⟩ |
      ⟨sent, i, messages, rfl, hi, rfl, rfl⟩
  · exact ⟨inv_append hs hc, trivial⟩
  · exact ⟨hs, held_read hs sent⟩
  · refine ⟨inv_forward hs m.text, fun k hk => ?_⟩
    rcases List.mem_or_eq_of_mem_set hk with hk | rfl
    · exact Held.mono (List.subset_cons_self _ _) hp k hk
    · exact ⟨(hp m (List.mem_of_getElem? hm)).1, fun _ => ⟨m.text, List.mem_cons_self, rfl⟩⟩
  · exact ⟨hs, hp⟩
  · exact ⟨inv_update hs hp (hc hi), trivial⟩

theorem forwarded_next {p q : QueuePc} {t : MailQueue} (h : s.next p = some (t, q)) :
    s.forwarded ⊆ t.forwarded := by
  rcases next_cases h with ⟨m, -, -, rfl⟩ | ⟨sent, -, -, rfl⟩
    | ⟨sent, i, messages, m, -, -, -, rfl⟩ |
      ⟨sent, i, messages, -, -, rfl⟩ | ⟨sent, i, messages, -, -, -, rfl⟩
  · exact fun _ hf => hf
  · exact fun _ hf => hf
  · exact List.subset_cons_self _ _
  · exact fun _ hf => hf
  · exact fun _ hf => hf

/-- The empty queue, with nobody at work. -/
theorem holds_start : Lib.Threads.Holds Inv Held { shared := {} } := by
  refine ⟨⟨⟨[], rfl, fun b hb => absurd hb List.not_mem_nil⟩, fun m hm => ?_⟩, fun p hp => ?_⟩
  · exact absurd hm List.not_mem_nil
  · exact absurd hp List.not_mem_nil

/-- **One step loses nothing, unless it writes over what it has not read.** -/
theorem holds_step {s t : Lib.Threads MailQueue QueuePc} {a : Lib.Turn QueueCall}
    (hs : s.Holds Inv Held) (ha : s.Meets Rewrites a) (h : step s a = some t) :
    t.Holds Inv Held := by
  refine Lib.Threads.holds_step ?_ ?_ ?_ hs ha h
  · intro _ k _
    cases k <;> trivial
  · exact fun _ _ _ _ hJ hP hC h => held_next hJ hP hC h
  · exact fun _ _ _ _ _ _ _ h _ hR => hR.mono (forwarded_next h)

instance (m : QueueMail) : Decidable m.OneHeader :=
  inferInstanceAs (Decidable (∀ l ∈ (Lib.lines '\n' m.text).tail, ¬ headerWord <+: l))

instance : ∀ (s : MailQueue) (p : QueuePc), Decidable (s.Rewrites p)
  | _, .append m => inferInstanceAs (Decidable m.OneHeader)
  | _, .read _ => .isTrue trivial
  | s, .loop _ i messages => inferInstanceAs (Decidable (messages.length ≤ i →
      ∀ q ∈ readMqueue s.file, (∃ m ∈ messages, bare m.text = bare q.text) ∨
        ∃ f ∈ s.forwarded, bare f = bare q.text))
  | _, .done => .isTrue trivial

instance (s : MailQueue) : Decidable s.NothingLost :=
  inferInstanceAs (Decidable (∀ m ∈ s.appended, (∃ f ∈ s.forwarded, bare f = bare m) ∨
    ∃ q ∈ readMqueue s.file, bare q.text = bare m))

end MailQueue

/-! ## Any number of workers and relays -/

/--
**The queue loses nothing**: where each relay writes over messages it has read
itself or that have been forwarded, and no line within a message begins like a
header, every message appended has been forwarded or is in the queue.
-/
theorem nothingLost_of_rewrites {turns : List (Lib.Turn QueueCall)}
    {u : Lib.Threads MailQueue QueuePc}
    (hg : Lib.Guarded MailQueue.step (Lib.Threads.Meets MailQueue.Rewrites) { shared := {} } turns)
    (hr : Lib.run MailQueue.step { shared := {} } turns = some u) : u.shared.NothingLost :=
  (Lib.inv_of_guarded (fun _ _ _ hs ha h => MailQueue.holds_step hs ha h) MailQueue.holds_start
    hg hr).shared.2

/-- A message for another host. -/
def mailTo (rcpt : Str) : QueueMail where
  sender := "ann@localhost".toList
  rcpt := rcpt
  title := "T".toList
  time := "Mon".toList
  data := "Subject: T\r\n".toList
  data_rows := Or.inr ⟨"Subject: T".toList, by decide⟩

/-- A message is appended, read, not forwarded, and written back; then a second one comes and is
forwarded. -/
def queueRun : List (Lib.Turn QueueCall) :=
  [.enter (.append (mailTo "bob@x".toList)), .enter (.relay fun _ => false), .next 0, .next 1,
    .next 1, .next 1, .enter (.append (mailTo "eve@y".toList)), .next 2,
    .enter (.relay fun i => i = 1), .next 3, .next 3, .next 3, .next 3]

theorem queueRun_nothingLost : ∃ u, Lib.run MailQueue.step { shared := {} } queueRun = some u ∧
    u.shared.appended.length = 2 ∧ u.shared.forwarded.length = 1 ∧ u.shared.NothingLost := by
  have hlen : ((Lib.run MailQueue.step { shared := {} } queueRun).map fun u =>
      (u.shared.appended.length, u.shared.forwarded.length)) = some (2, 1) := by decide +kernel
  obtain ⟨u, hr, hu⟩ := Option.map_eq_some_iff.mp hlen
  obtain ⟨happended, hforwarded⟩ := Prod.mk.inj hu
  exact ⟨u, hr, happended, hforwarded, nothingLost_of_rewrites (by decide +kernel) hr⟩

/-- The second message comes while a relay is about to attempt the first. -/
def overwrittenRun : List (Lib.Turn QueueCall) :=
  [.enter (.append (mailTo "bob@x".toList)), .enter (.append (mailTo "eve@y".toList)),
    .enter (.relay fun _ => false), .next 0, .next 2, .next 1, .next 2, .next 2]

/-- It is neither forwarded nor in the queue afterwards. -/
theorem appended_overwritten : ∃ turns u, Lib.run MailQueue.step { shared := {} } turns = some u ∧
    ¬ u.shared.NothingLost := by
  have hlost : ((Lib.run MailQueue.step { shared := {} } overwrittenRun).map fun u =>
      decide u.shared.NothingLost) = some false := by decide +kernel
  obtain ⟨u, hr, hu⟩ := Option.map_eq_some_iff.mp hlost
  exact ⟨overwrittenRun, u, hr, of_decide_eq_false hu⟩

end PennCloud
