import PennCloud.Proof.MailText
import PennCloud.Webmail.ClearBuffer
import PennCloud.Webmail.Mailbox
import PennCloud.Webmail.Packets

/-!
# The mail client's reader

`do_read` keeps what it has read of a backend's reply in an array, as a C string,
and takes the lines off its front until one ends the reply. A line that is not data
is copied to `command`, an array of six bytes, and a zero is put behind these six.
What is there is for the compiler to say; where it is the array itself the line
loses its first byte, a status line for good. The `DATA` line is cleared away
in any case but one: with nothing behind it yet `clear_buffer` takes the array
for empty, and its other bytes come back if the next read does not cover them.

A `read` may bring as many bytes as the array has room for, and then no zero is left
in it: `strstr` runs out of the array. As long as neither happens the whole reply is
read, however it is cut.
-/

namespace PennCloud

open Str

/-- The `BUFF_SIZE` of `do_read`. -/
def replyBuffSize : Nat := 5000

/-- `DATA\r\n`. -/
def dataHead : Str := ['D', 'A', 'T', 'A', '\r', '\n']
def errWord : Str := ['-', 'E', 'R', 'R']
def okWord : Str := ['+', 'O', 'K']
def serverWord : Str := ['S', 'E', 'R', 'V', 'E', 'R']

/-- The variables of `do_read`. -/
structure Reader where
  response : Str := []
  /-- `DATA`. -/
  data : Bool := false
  quit : Bool := false
  /-- The bytes of `buff`; behind them it is zero. -/
  buff : Str := []

/-- What the compiler has put behind the two arrays of `do_read`. -/
structure Reader.Frame where
  /-- `command[6]` is `buff[0]`; else it is a byte that `do_read` does not use. -/
  overlaps : Bool
  /-- The byte behind `buff` is a zero; else nothing is known of it. -/
  ended : Bool

namespace Reader

/-- `buff` when `command[6]` has been set. -/
def Frame.store (f : Frame) (buff : Str) : Str := if f.overlaps then buff.set 0 '\x00' else buff

/-- The body of the inner loop, before `clear_buffer`. -/
def line (f : Frame) (s : Reader) (end' : Nat) : Reader :=
  if s.data then
    -- `strcmp` looks at all that is in the buffer
    if cstr s.buff ≠ dotCrlf then { s with response := s.response ++ s.buff.take end' }
    else { s with quit := true }
  else
    let command := (cstr s.buff).take 6
    -- `command[6] = '\0'`, which is behind the array
    let buff := f.store s.buff
    let s := { s with buff := buff }
    if sameCase command dataHead then { s with data := true }
    else if sameCase (command.take 4) errWord then
      { s with response := buff.take end', quit := true }
    else if sameCase (command.take 3) okWord then
      { s with response := buff.take end', quit := true }
    else if sameCase command serverWord then { s with response := buff.take end', quit := true }
    else s

/-- The inner loop; each line takes at least two bytes off the buffer. -/
def drain (f : Frame) : Nat → Reader → Option Reader
  | 0, s => some s
  | fuel + 1, s =>
    match Lib.firstIdx crlf (cstr s.buff) with
    | none => some s
    | some i =>
      let t := s.line f (i + 2)
      if t.quit then some t
      else (cleared t.buff (i + 2)).bind fun buff => drain f fuel { t with buff := buff }

/--
One turn of the outer loop. Where a read leaves no zero in the array, nor one is behind it,
there is no reader after it.
-/
def read (f : Frame) (s : Reader) (bytes : Str) : Option Reader :=
  let buff := fill s.buff bytes
  if (cstr s.buff).length + bytes.length ≤ replyBuffSize ∧
      (f.ended = true ∨ (cstr buff).length < replyBuffSize) then
    drain f (cstr buff).length { s with buff := buff }
  else none

/-- `do_read` on the reads that come: what it returns, and the reads it has left. -/
def doRead (f : Frame) : Reader → List Str → Option (Str × List Str)
  | _, [] => none
  | s, bytes :: reads => (s.read f bytes).bind fun t =>
    if t.quit then some (t.response, reads) else doRead f t reads

end Reader

/-! ## Replies and cuts -/

/-- A line that is a reply of its own. -/
structure IsStatus (l : Str) : Prop where
  line : IsLine l
  word : errWord <+: l ∨ okWord <+: l ∨ serverWord <+: l

/-- What is stored in a cell: whole lines, none of them a dot. -/
structure StoredRows (text : Str) : Prop where
  rows : Rows text
  dot : ¬ dotLine <:+: crlf ++ text

/-- A reply of the data server or the master, and what `do_read` is to return. -/
inductive IsReply : Str → Str → Prop
  | status {line : Str} : IsStatus line → '\x00' ∉ line → IsReply line line
  | contents {rows : Str} :
      StoredRows rows → '\x00' ∉ rows → IsReply (dataHead ++ (rows ++ dotCrlf)) rows

/-- What of a text stays in the buffer when its lines have been taken off. -/
def unfinished (text : Str) : Str :=
  ((lineReads text).getLast?.filter fun l => ¬ crlf <:+ l).getD []

/-- The reads take the buffer, which has `w` in it, to `limit` bytes at most. -/
def Room (limit : Nat) : Str → List Str → Prop
  | _, [] => True
  | w, r :: reads => w.length + r.length ≤ limit ∧ Room limit (unfinished (w ++ r)) reads

instance Room.decidable (limit : Nat) : ∀ w reads, Decidable (Room limit w reads)
  | _, [] => .isTrue trivial
  | w, r :: reads =>
    have := Room.decidable limit (unfinished (w ++ r)) reads
    inferInstanceAs (Decidable (w.length + r.length ≤ limit ∧
      Room limit (unfinished (w ++ r)) reads))

/--
A read that begins behind the `DATA` line, `w` having been read, has as many bytes as are
still there of it.
-/
def HeadCovered : Str → List Str → Prop
  | _, [] => True
  | w, r :: reads => (w = dataHead → dataHead.length ≤ r.length) ∧ HeadCovered (w ++ r) reads

instance HeadCovered.decidable : ∀ w reads, Decidable (HeadCovered w reads)
  | _, [] => .isTrue trivial
  | w, r :: reads =>
    have := HeadCovered.decidable (w ++ r) reads
    inferInstanceAs (Decidable ((w = dataHead → dataHead.length ≤ r.length) ∧
      HeadCovered (w ++ r) reads))

variable {l x y z w b e result rows reply : Str} {reads : List Str}

/-- Behind the line, or where there is none, no read begins there. -/
theorem headCovered_of (h : ¬ w <+: dataHead) : HeadCovered w reads := by
  induction reads generalizing w with
  | nil => trivial
  | cons r reads ih =>
      exact ⟨fun hw => absurd (hw ▸ List.prefix_refl w) h,
        ih fun hw => h ((List.prefix_append w r).trans hw)⟩

/-- Behind the line there is no other read at its end. -/
theorem headCovered_head {r : Str} (hr : r ≠ []) :
    HeadCovered dataHead (r :: reads) ↔ dataHead.length ≤ r.length := by
  have hpast : ¬ dataHead ++ r <+: dataHead := fun hp => by
    have hle := hp.length_le
    have hpos := List.length_pos_iff.mpr hr
    rw [List.length_append] at hle
    omega
  exact ⟨fun hall => hall.1 rfl, fun hle => ⟨fun _ => hle, headCovered_of hpast⟩⟩

theorem unfinished_line (hl : IsLine l) : unfinished (l ++ b) = unfinished b := by
  rw [unfinished, lineReads_line hl, unfinished]
  cases hb : lineReads b with
  | nil =>
      have hends : crlf <:+ l := by
        obtain ⟨a, rfl, -⟩ := hl
        exact List.suffix_append a crlf
      simp [Option.filter, hends]
  | cons l' ls => rw [List.getLast?_cons_cons]

theorem unfinished_part (h : ¬ crlf <:+: w) : unfinished w = w := by
  rw [unfinished, lineReads_part h]
  by_cases hw : w = []
  · rw [if_pos hw, hw]
    rfl
  · have hends : ¬ crlf <:+ w := fun hs => h hs.isInfix
    simp [hw, Option.filter, hends]

/-- What is unfinished is the end of the text, and has no line in it. -/
theorem unfinished_spec : ∀ (n : Nat) {w : Str}, w.length ≤ n →
    unfinished w <:+ w ∧ ¬ crlf <:+: unfinished w := by
  intro n
  induction n with
  | zero =>
      intro w hw
      rw [List.eq_nil_of_length_eq_zero (Nat.le_zero.mp hw)]
      decide
  | succ n ih =>
      intro w hw
      rcases line_or_part w with hpart | ⟨l, b, rfl, hl⟩
      · rw [unfinished_part hpart]
        exact ⟨List.suffix_refl w, hpart⟩
      · obtain ⟨i, -, hi⟩ := hl.firstIdx []
        rw [List.length_append] at hw
        obtain ⟨hsuffix, hno⟩ := ih (w := b) (by omega)
        rw [unfinished_line hl]
        exact ⟨hsuffix.trans (List.suffix_append l b), hno⟩

/-! ## A line -/

/-- The first line of what is stored, and of the dot line behind it. -/
theorem StoredRows.first (h : StoredRows rows) (hl : IsLine l) (he : rows ++ dotCrlf = l ++ y) :
    (rows = [] ∧ l = dotCrlf ∧ y = []) ∨
    ∃ rows', rows = l ++ rows' ∧ y = rows' ++ dotCrlf ∧ StoredRows rows' ∧ l ≠ dotCrlf := by
  by_cases hnil : rows = []
  · subst hnil
    have hdot : l = dotCrlf :=
      (line_unique Session.isLine_dot hl (y := []) (by simpa using he)).symm
    subst hdot
    exact Or.inl ⟨rfl, rfl, List.append_right_eq_self.mp he.symm⟩
  · obtain ⟨a, rows', rfl, ha⟩ := h.rows.first hnil
    obtain rfl : a ++ crlf = l := line_unique (y := rows' ++ dotCrlf) ⟨a, rfl, ha⟩ hl
      (by rw [← List.append_assoc]; exact he)
    refine Or.inr ⟨rows', rfl, ?_, ⟨h.rows.rest, fun hin => h.dot ?_⟩, fun hdot => h.dot ?_⟩
    · rw [List.append_assoc] at he
      exact (List.append_cancel_left he).symm
    · refine hin.trans (List.IsSuffix.isInfix ⟨crlf ++ a, ?_⟩)
      simp only [List.append_assoc]
    · rw [hdot]
      exact ⟨[], rows', rfl⟩

namespace Reader

open Session (Zero cstr_row zero_append zero_replicate)

variable {f : Frame} {s t u : Reader}

theorem sameCase_ne {c d : Char} {a b : Str} (h : c.toLower ≠ d.toLower) :
    sameCase (c :: a) (d :: b) = false := by
  rw [sameCase, List.map_cons, List.map_cons, beq_eq_false_iff_ne]
  exact fun he => h (List.cons.inj he).1

theorem Frame.store_take (f : Frame) (buff : Str) (n : Nat) :
    (f.store buff).take n = f.store (buff.take n) := by
  cases hf : f.overlaps <;> simp [Frame.store, hf, List.take_set]

theorem line_status (hdata : s.data = false) (hl : IsStatus l) (hcstr : cstr s.buff = l)
    (htake : s.buff.take l.length = l) : s.line f l.length
      = { s with buff := f.store s.buff, response := f.store l, quit := true } := by
  rw [line, hdata, if_neg (by decide)]
  simp only [Frame.store_take, htake, hcstr]
  rcases hl.word with ⟨rest, rfl⟩ | ⟨rest, rfl⟩ | ⟨rest, rfl⟩
  · have hhead : sameCase ((errWord ++ rest).take 6) dataHead = false := sameCase_ne (by decide)
    simp only [hhead, Bool.false_eq_true, if_false]
    exact if_pos rfl
  · have hhead : sameCase ((okWord ++ rest).take 6) dataHead = false := sameCase_ne (by decide)
    have herr : sameCase (((okWord ++ rest).take 6).take 4) errWord = false :=
      sameCase_ne (by decide)
    simp only [hhead, herr, Bool.false_eq_true, if_false]
    exact if_pos rfl
  · have hhead : sameCase ((serverWord ++ rest).take 6) dataHead = false := sameCase_ne (by decide)
    have herr : sameCase (((serverWord ++ rest).take 6).take 4) errWord = false :=
      sameCase_ne (by decide)
    have hok : sameCase (((serverWord ++ rest).take 6).take 3) okWord = false :=
      sameCase_ne (by decide)
    simp only [hhead, herr, hok, Bool.false_eq_true, if_false]
    exact if_pos rfl

theorem line_head (hdata : s.data = false) (hcstr : cstr s.buff = dataHead ++ x) (end' : Nat) :
    s.line f end' = { s with buff := f.store s.buff, data := true } := by
  have hhead : sameCase ((dataHead ++ x).take 6) dataHead = true := by
    rw [show (dataHead ++ x).take 6 = dataHead from rfl]
    decide
  rw [line, hdata, if_neg (by decide), hcstr]
  simp only [hhead, if_true]

theorem line_row (hdata : s.data = true) (hcstr : cstr s.buff ≠ dotCrlf) (end' : Nat) :
    s.line f end' = { s with response := s.response ++ s.buff.take end' } := by
  rw [line, hdata, if_pos rfl, if_pos hcstr]

theorem line_dot (hdata : s.data = true) (hcstr : cstr s.buff = dotCrlf) (end' : Nat) :
    s.line f end' = { s with quit := true } := by
  rw [line, hdata, if_pos rfl, if_neg (not_not_intro hcstr)]

/-- The text `e` is yet to be taken off the buffer or read, and `result` is to be returned then. -/
inductive Expects (f : Frame) (s : Reader) : Str → Str → Prop
  | status {l : Str} : s.data = false → s.quit = false → IsStatus l → Expects f s l (f.store l)
  | head {rows : Str} : s.data = false → s.quit = false → s.response = [] → StoredRows rows →
      Expects f s (dataHead ++ (rows ++ dotCrlf)) rows
  | contents {rows : Str} : s.data = true → s.quit = false → StoredRows rows →
      Expects f s (rows ++ dotCrlf) (s.response ++ rows)

theorem Expects.quit (h : s.Expects f e result) : s.quit = false := by
  cases h <;> assumption

/-- What is in the buffer does not matter. -/
theorem Expects.load (h : s.Expects f e result) (buff : Str) :
    Expects f { s with buff := buff } e result := by
  cases h with
  | status hdata hquit hl => exact .status hdata hquit hl
  | head hdata hquit hresponse hrows => exact .head hdata hquit hresponse hrows
  | contents hdata hquit hrows => exact .contents hdata hquit hrows

/-- What is expected ends with a line. -/
theorem Expects.ends (h : s.Expects f e result) : crlf <:+ e := by
  have hdot : crlf <:+ dotCrlf := ⟨['.'], rfl⟩
  cases h with
  | status _ _ hl =>
      obtain ⟨a, ha, -⟩ := hl.line
      exact ⟨a, ha.symm⟩
  | head => exact (hdot.trans (List.suffix_append _ _)).trans (List.suffix_append _ _)
  | contents => exact hdot.trans (List.suffix_append _ _)

/-- Of what comes behind the `DATA` line only the dot line is not returned. -/
theorem Expects.length (h : s.Expects f e result) (hdata : s.data = true) :
    result.length + dotCrlf.length = s.response.length + e.length := by
  cases h with
  | status hno => exact absurd (hdata.symm.trans hno) (by decide)
  | head hno => exact absurd (hdata.symm.trans hno) (by decide)
  | contents =>
      simp only [List.length_append]
      omega

/-- **A line is taken off.** The last one ends the reading, any other leaves the rest expected. -/
theorem Expects.line (h : s.Expects f e result) (hl : IsLine l) (he : e = l ++ (x ++ b))
    (hs : s.buff = l ++ (x ++ z)) (hz : Zero z) (hnul : '\x00' ∉ e) :
    (x ++ b = [] ∧ (s.line f l.length).quit = true ∧ (s.line f l.length).response = result) ∨
    (x ++ b ≠ [] ∧ (s.line f l.length).Expects f (x ++ b) result ∧ (s.line f l.length).data = true ∧
      (s.data = true ∧ (s.line f l.length).buff = s.buff ∨
        s.data = false ∧ l = dataHead ∧ (s.line f l.length).buff = f.store s.buff)) := by
  have hcstr : cstr s.buff = l ++ x := by
    rw [hs, ← List.append_assoc]
    refine cstr_row (fun hm => hnul ?_) hz
    rw [he, ← List.append_assoc]
    exact List.mem_append_left _ hm
  have htake : s.buff.take l.length = l := by rw [hs, List.take_left]
  cases h with
  | status hdata hquit hstatus =>
      obtain rfl : e = l := line_unique hstatus.line hl (y := [])
        (by rw [List.append_nil]; exact he)
      have hrest : x ++ b = [] := List.append_right_eq_self.mp he.symm
      obtain ⟨rfl, rfl⟩ := List.append_eq_nil_iff.mp hrest
      rw [List.append_nil] at hcstr
      rw [line_status hdata hstatus hcstr htake]
      exact Or.inl ⟨rfl, rfl, rfl⟩
  | head hdata hquit hresponse hrows =>
      obtain rfl : dataHead = l := line_unique ⟨"DATA".toList, by decide, by decide⟩ hl he
      rw [line_head hdata hcstr]
      have hrest := List.append_cancel_left he
      rw [← hrest]
      refine Or.inr ⟨by simp [dotCrlf], ?_, rfl, Or.inr ⟨hdata, rfl, rfl⟩⟩
      have hcontents : Expects f { s with buff := f.store s.buff, data := true }
          (result ++ dotCrlf) (s.response ++ result) := .contents rfl hquit hrows
      have hnone : s.response ++ result = result := by rw [hresponse, List.nil_append]
      rwa [hnone] at hcontents
  | contents hdata hquit hrows =>
      rename_i rows
      rcases hrows.first hl he with ⟨rfl, rfl, hrest⟩ | ⟨rows', rfl, hrest, hrows', hne⟩
      · obtain ⟨rfl, rfl⟩ := List.append_eq_nil_iff.mp hrest
        rw [List.append_nil] at hcstr
        rw [line_dot hdata hcstr]
        exact Or.inl ⟨rfl, rfl, (List.append_nil _).symm⟩
      · have hdot : cstr s.buff ≠ dotCrlf := by
          rw [hcstr]
          intro hdot
          have hsame : l ++ x = dotCrlf ++ [] := by rw [hdot, List.append_nil]
          exact hne (line_unique hl Session.isLine_dot hsame)
        rw [line_row hdata hdot, htake, hrest]
        refine Or.inr ⟨by simp [dotCrlf], ?_, hdata, Or.inl ⟨hdata, rfl⟩⟩
        have hcontents : Expects f { s with response := s.response ++ l } (rows' ++ dotCrlf)
            (s.response ++ l ++ rows') := .contents hdata hquit hrows'
        rwa [List.append_assoc] at hcontents

/-! ## A read -/

/-- A buffer without a whole line in it is left as it is. -/
theorem drain_part (hpart : ¬ crlf <:+: cstr s.buff) (fuel : Nat) : drain f fuel s = some s := by
  cases fuel with
  | zero => rfl
  | succ fuel => rw [drain, Lib.firstIdx_eq_none.mpr hpart]

/-- The first line of the buffer is looked at, and taken out if it does not end the reading. -/
theorem drain_line (hl : IsLine l) (hs : s.buff = l ++ (x ++ z))
    (hnul : '\x00' ∉ l ++ x) (hz : Zero z)
    (fuel : Nat) : drain f (fuel + 1) s = if (s.line f l.length).quit then some (s.line f l.length)
      else (cleared (s.line f l.length).buff l.length).bind fun buff =>
        drain f fuel { s.line f l.length with buff := buff } := by
  have hcstr : cstr s.buff = l ++ x := by
    rw [hs, ← List.append_assoc]
    exact cstr_row hnul hz
  obtain ⟨i, hi, hlen⟩ := hl.firstIdx x
  simp only [drain, hcstr, hi, hlen]

section Cleared

variable (hl : IsLine l) (hnul : '\x00' ∉ l ++ x) (hz : Zero z)

include hl hnul hz

/-- A line that is taken out leaves what is behind it. -/
theorem cleared_line : ∃ z', Zero z' ∧ cleared (l ++ (x ++ z)) l.length = some (x ++ z') := by
  have hcstr : cstr (l ++ (x ++ z)) = l ++ x := by
    rw [← List.append_assoc]
    exact cstr_row hnul hz
  obtain ⟨i, -, hlen⟩ := hl.firstIdx x
  obtain ⟨z', hz', hclear⟩ := Session.clearBuffer_eq hnul hz
  refine ⟨z', hz', ?_⟩
  rw [cleared_string (by omega) (by rw [hcstr, List.length_append]; omega), hclear]

/-- So does one that has lost its first byte, if it is not the only one there. -/
theorem cleared_store (hx : f.overlaps = true → x ≠ []) :
    ∃ z', Zero z' ∧ cleared (f.store (l ++ (x ++ z))) l.length = some (x ++ z') := by
  obtain ⟨z', hz', hclear⟩ := cleared_line hl hnul hz
  refine ⟨z', hz', ?_⟩
  cases hf : f.overlaps with
  | false => rw [Frame.store, hf, if_neg (by decide), hclear]
  | true =>
      have hcstr : cstr (l ++ (x ++ z)) = l ++ x := by
        rw [← List.append_assoc]
        exact cstr_row hnul hz
      obtain ⟨i, -, hlen⟩ := hl.firstIdx x
      have hmore : 0 < x.length := List.length_pos_iff.mpr (hx hf)
      rw [cleared_string (by omega) (by rw [hcstr, List.length_append]; omega)] at hclear
      rw [Frame.store, hf, if_pos rfl,
        cleared_front (by omega) (by rw [hcstr, List.length_append]; omega), hclear]

end Cleared

/-- The `DATA` line alone in the buffer stays there, without its first byte. -/
theorem cleared_head (hf : f.overlaps = true) (hz : Zero z) :
    f.store (dataHead ++ z) = dataHead.set 0 '\x00' ++ z ∧
      cleared (f.store (dataHead ++ z)) dataHead.length = some (f.store (dataHead ++ z)) := by
  have hcstr : dataHead.length = (cstr (dataHead ++ z)).length := by rw [cstr_row (by decide) hz]
  rw [Frame.store, hf, if_pos rfl]
  exact ⟨rfl, cleared_stuck (by decide) hcstr⟩

/-- What the lines in the buffer have left, when `x` of the reply has been there. -/
inductive Leaves (f : Frame) (s t : Reader) (x : Str) : Prop
  /-- What is unfinished; there was no line outside the data. -/
  | same {z : Str} : Zero z → t.buff = unfinished x ++ z → t.data = s.data →
      (s.data = false → ¬ crlf <:+: x) → Leaves f s t x
  /-- What is unfinished behind the `DATA` line. -/
  | begun {z : Str} : Zero z → t.buff = unfinished x ++ z → t.data = true →
      (f.overlaps = true → ¬ x <+: dataHead) → Leaves f s t x
  /-- The `DATA` line, without its first byte. -/
  | stuck {z : Str} : Zero z → t.buff = dataHead.set 0 '\x00' ++ z → t.data = true →
      f.overlaps = true → s.data = false → x = dataHead → Leaves f s t x

/-- A line in front, with which the data may begin. -/
theorem Leaves.line (h : Leaves f t u x) (hl : IsLine l) (hdata : t.data = true)
    (hlong : s.data = false → f.overlaps = true → ¬ l ++ x <+: dataHead) :
    Leaves f s u (l ++ x) := by
  have hclean : ∀ {z : Str}, Zero z → u.buff = unfinished x ++ z → u.data = true →
      Leaves f s u (l ++ x) := by
    intro z hz hbuff hu
    rw [← unfinished_line hl] at hbuff
    cases hs : s.data with
    | true =>
        exact .same hz hbuff (hu.trans hs.symm) fun hno => absurd (hs.symm.trans hno) (by decide)
    | false => exact .begun hz hbuff hu (hlong hs)
  cases h with
  | same hz hbuff hsame _ => exact hclean hz hbuff (hsame.trans hdata)
  | begun hz hbuff hu _ => exact hclean hz hbuff hu
  | stuck _ _ _ _ hno _ => exact absurd (hdata.symm.trans hno) (by decide)

/-- **The lines in the buffer.** The last line of what is expected ends the reading. -/
theorem drain_expects : ∀ (fuel : Nat) {s : Reader} {x z : Str}, x.length ≤ fuel →
    s.Expects f (x ++ b) result → s.buff = x ++ z → Zero z → '\x00' ∉ x ++ b →
    ∃ t, drain f fuel s = some t ∧ (b = [] → t.quit = true ∧ t.response = result) ∧
      (b ≠ [] → t.Expects f (unfinished x ++ b) result ∧ Leaves f s t x) := by
  intro fuel
  induction fuel with
  | zero =>
      intro s x z hx h hs hz hnul
      obtain rfl := List.eq_nil_of_length_eq_zero (Nat.le_zero.mp hx)
      refine ⟨s, rfl, fun hb => ?_, fun _ => ⟨h, .same hz hs rfl fun _ => by decide⟩⟩
      subst hb
      exact absurd h.ends (by decide)
  | succ fuel ih =>
      intro s x z hx h hs hz hnul
      rcases line_or_part x with hpart | ⟨l, x, rfl, hl⟩
      · have hcstr : cstr s.buff = x := by
          rw [hs]
          exact cstr_row (fun hm => hnul (List.mem_append_left _ hm)) hz
        rw [drain_part (by rw [hcstr]; exact hpart)]
        refine ⟨s, rfl, fun hb => ?_, fun _ => ?_⟩
        · subst hb
          have hends := h.ends
          rw [List.append_nil] at hends
          exact absurd hends.isInfix hpart
        · refine ⟨?_, .same hz ?_ rfl fun _ => hpart⟩
          · rwa [unfinished_part hpart]
          · rwa [unfinished_part hpart]
      · have hnul' : '\x00' ∉ l ++ x := fun hm => hnul (List.mem_append_left _ hm)
        rw [List.append_assoc] at h hs hnul
        rw [drain_line hl hs hnul' hz]
        rcases h.line hl rfl hs hz hnul with ⟨hrest, hquit, hresponse⟩
          | ⟨hrest, hexpects, hdata, hbuff⟩
        · obtain ⟨rfl, rfl⟩ := List.append_eq_nil_iff.mp hrest
          rw [if_pos hquit]
          exact ⟨_, rfl, fun _ => ⟨hquit, hresponse⟩, fun hb => absurd rfl hb⟩
        · rw [hexpects.quit, if_neg (by decide)]
          obtain ⟨i, -, hlen⟩ := hl.firstIdx x
          rw [List.length_append] at hx
          -- the line is out, and the rest is at the front of the array
          have hclean : ∀ z' : Str, Zero z' →
              cleared (s.line f l.length).buff l.length = some (x ++ z') →
              (s.data = false → f.overlaps = true → ¬ l ++ x <+: dataHead) →
              ∃ t, ((cleared (s.line f l.length).buff l.length).bind fun buff =>
                  drain f fuel { s.line f l.length with buff := buff }) = some t ∧
                (b = [] → t.quit = true ∧ t.response = result) ∧
                (b ≠ [] → t.Expects f (unfinished (l ++ x) ++ b) result ∧
                  Leaves f s t (l ++ x)) := by
            intro z' hz' hclear hlong
            obtain ⟨t, ht, hlast, hmore⟩ := ih (by omega) (hexpects.load (x ++ z')) rfl hz'
              fun hm => hnul (List.mem_append_right _ hm)
            refine ⟨t, by rw [hclear, Option.bind_some, ht], hlast, fun hb => ?_⟩
            obtain ⟨hrest, hleaves⟩ := hmore hb
            rw [unfinished_line hl]
            exact ⟨hrest, hleaves.line hl hdata hlong⟩
          rcases hbuff with ⟨hdata', hbuff⟩ | ⟨hdata', rfl, hbuff⟩
          · obtain ⟨z', hz', hclear⟩ := cleared_line hl hnul' hz
            rw [← hs, ← hbuff] at hclear
            exact hclean z' hz' hclear fun hno => absurd (hdata'.symm.trans hno) (by decide)
          · by_cases hx' : f.overlaps = true → x ≠ []
            · obtain ⟨z', hz', hclear⟩ := cleared_store hl hnul' hz hx'
              rw [← hs, ← hbuff] at hclear
              refine hclean z' hz' hclear fun _ hf hp => hx' hf ?_
              have hle := hp.length_le
              rw [List.length_append] at hle
              exact List.eq_nil_of_length_eq_zero (by omega)
            · obtain ⟨hf, hnil⟩ : f.overlaps = true ∧ x = [] := by simpa using hx'
              subst hnil
              obtain ⟨hfront, hstuck⟩ := cleared_head hf hz
              rw [hs, List.nil_append] at hbuff
              rw [← hbuff] at hfront hstuck
              have hpart : ¬ crlf <:+: cstr (s.line f dataHead.length).buff := by
                rw [hfront]
                exact (by decide : ¬ crlf <:+: ([] : Str))
              rw [hstuck, Option.bind_some, List.append_nil]
              refine ⟨_, drain_part hpart fuel, fun hb => ?_, fun _ => ⟨hexpects, ?_⟩⟩
              · exact absurd (by rw [hb]; rfl) hrest
              · exact .stuck hz hfront hdata hf hdata' rfl

/-- A read that leaves a zero in the array, or finds one behind it. -/
theorem read_short {bytes : Str} (hs : s.buff = w ++ z) (hz : Zero z) (hnul : '\x00' ∉ w ++ bytes)
    (hlen : w.length + bytes.length ≤ replyBuffSize)
    (hend : f.ended = true ∨ w.length + bytes.length < replyBuffSize) : ∃ z', Zero z' ∧
    s.read f bytes = drain f (w ++ bytes).length { s with buff := w ++ bytes ++ z' } := by
  have hw : '\x00' ∉ w := fun hm => hnul (List.mem_append_left _ hm)
  obtain ⟨z', hz', hfill⟩ := Session.fill_eq bytes hw hz
  refine ⟨z', hz', ?_⟩
  rw [read, hs, hfill, cstr_row hw hz, cstr_row hnul hz', if_pos]
  rw [List.length_append]
  exact ⟨hlen, hend⟩

/-- **A read that leaves none.** -/
theorem read_full {bytes : Str} (hs : s.buff = w ++ z) (hz : Zero z) (hnul : '\x00' ∉ w ++ bytes)
    (hlen : ¬ (f.ended = true ∨ w.length + bytes.length < replyBuffSize)) :
    s.read f bytes = none := by
  have hw : '\x00' ∉ w := fun hm => hnul (List.mem_append_left _ hm)
  obtain ⟨z', hz', hfill⟩ := Session.fill_eq bytes hw hz
  refine if_neg fun hfits => hlen ?_
  have hshort := hfits.2
  rwa [hs, hfill, cstr_row hnul hz', List.length_append] at hshort

/-! ## What stands in the way -/

section Stuck

variable {r : Str} {out : Str}

/-- A read that covers the line goes on as in an empty array. -/
theorem read_covered (hs : s.buff = dataHead.set 0 '\x00' ++ z) (hr : dataHead.length ≤ r.length) :
    s.read f r = { s with buff := List.replicate dataHead.length '\x00' ++ z }.read f r := by
  have hfree : cstr (dataHead.set 0 '\x00' ++ z) = [] := rfl
  have hzero : cstr (List.replicate dataHead.length '\x00' ++ z) = [] := rfl
  have hfill : fill s.buff r = fill (List.replicate dataHead.length '\x00' ++ z) r := by
    have hline : (dataHead.set 0 '\x00').drop r.length = [] := List.drop_eq_nil_of_le hr
    have hzeros : (List.replicate dataHead.length '\x00').drop r.length = [] :=
      List.drop_eq_nil_of_le hr
    rw [hs, fill, fill, hfree, hzero, List.length_nil, List.take_zero, List.take_zero, Nat.zero_add,
      List.drop_append, List.drop_append, hline, hzeros]
    rfl
  have hcurr : cstr s.buff = cstr (List.replicate dataHead.length '\x00' ++ z) := by
    rw [hs, hfree, hzero]
  simp only [read, hfill, hcurr]

/-- No byte of the data is lost from the lines in the buffer. -/
theorem drain_length : ∀ (fuel : Nat) {s t : Reader} {x z : Str}, s.data = true → s.quit = false →
    s.buff = x ++ z → Zero z → '\x00' ∉ x → drain f fuel s = some t →
    (t.quit = true ∧ t.response.length + dotCrlf.length = s.response.length + x.length) ∨
    (t.quit = false ∧ t.data = true ∧ ∃ x' z', t.buff = x' ++ z' ∧ Zero z' ∧ '\x00' ∉ x' ∧
      t.response.length + x'.length = s.response.length + x.length) := by
  intro fuel
  induction fuel with
  | zero =>
      rintro s t x z hdata hquit hs hz hnul ⟨⟩
      exact Or.inr ⟨hquit, hdata, x, z, hs, hz, hnul, rfl⟩
  | succ fuel ih =>
      intro s t x z hdata hquit hs hz hnul h
      have hcstr : cstr s.buff = x := by
        rw [hs]
        exact cstr_row hnul hz
      rcases line_or_part x with hpart | ⟨l, x, rfl, hl⟩
      · rw [drain_part (by rw [hcstr]; exact hpart)] at h
        cases h
        exact Or.inr ⟨hquit, hdata, x, z, hs, hz, hnul, rfl⟩
      · rw [List.append_assoc] at hs
        rw [drain_line hl hs hnul hz] at h
        by_cases hdot : cstr s.buff = dotCrlf
        · rw [line_dot hdata hdot, if_pos rfl] at h
          cases h
          refine Or.inl ⟨rfl, ?_⟩
          rw [← hcstr, hdot]
        · rw [line_row hdata hdot, if_neg (by rw [hquit]; decide), hs, List.take_left] at h
          obtain ⟨z', hz', hclear⟩ := cleared_line hl hnul hz
          rw [hclear, Option.bind_some] at h
          have hrest :=
            ih (s := { s with response := s.response ++ l, buff := x ++ z' }) hdata hquit
            rfl hz' (fun hm => hnul (List.mem_append_right _ hm)) h
          simp only [List.length_append, ← Nat.add_assoc] at hrest ⊢
          exact hrest

/-- No byte of the data is lost in one read. -/
theorem read_length (hdata : s.data = true) (hquit : s.quit = false)
    (hfill : fill s.buff r = x ++ z)
    (hz : Zero z) (hnul : '\x00' ∉ x) (h : s.read f r = some t) :
    (t.quit = true ∧ t.response.length + dotCrlf.length = s.response.length + x.length) ∨
    (t.quit = false ∧ t.data = true ∧ ∃ x' z', t.buff = x' ++ z' ∧ Zero z' ∧ '\x00' ∉ x' ∧
      t.response.length + x'.length = s.response.length + x.length) := by
  rw [read, hfill] at h
  split at h
  · exact drain_length _ (s := { s with buff := x ++ z }) hdata hquit rfl hz hnul h
  · cases h

/-- No byte of the data is lost in all the reads that are left. -/
theorem doRead_length : ∀ (reads : List Str) {s : Reader} {r x z : Str}, s.data = true →
    s.quit = false → fill s.buff r = x ++ z → Zero z → '\x00' ∉ x ++ reads.flatten →
    s.doRead f (r :: reads) = some (out, []) →
    out.length + dotCrlf.length = s.response.length + (x ++ reads.flatten).length := by
  intro reads
  induction reads with
  | nil =>
      intro s r x z hdata hquit hfill hz hnul h
      rw [List.flatten_nil, List.append_nil] at hnul ⊢
      obtain ⟨t, ht, hrest⟩ := Option.bind_eq_some_iff.mp h
      rcases read_length hdata hquit hfill hz hnul ht with ⟨hq, hlen⟩ | ⟨hq, -⟩
      · rw [hq, if_pos rfl, Option.some.injEq, Prod.mk.injEq] at hrest
        rw [← hrest.1, hlen]
      · rw [hq, if_neg (by decide)] at hrest
        cases hrest
  | cons r' reads ih =>
      intro s r x z hdata hquit hfill hz hnul h
      rw [List.flatten_cons] at hnul ⊢
      obtain ⟨t, ht, hrest⟩ := Option.bind_eq_some_iff.mp h
      rcases read_length hdata hquit hfill hz (fun hm => hnul (List.mem_append_left _ hm)) ht with
        ⟨hq, -⟩ | ⟨hq, hdata', x', z', hs', hz', hnul', hlen⟩
      · rw [hq, if_pos rfl, Option.some.injEq, Prod.mk.injEq] at hrest
        exact absurd hrest.2 (List.cons_ne_nil r' reads)
      · rw [hq, if_neg (by decide)] at hrest
        obtain ⟨z'', hz'', hfill'⟩ := Session.fill_eq r' hnul' hz'
        rw [← hs'] at hfill'
        have hrun := ih hdata' hq hfill' hz'' (fun hm => ?_) hrest
        · simp only [List.length_append] at hrun ⊢
          omega
        · rw [List.append_assoc, List.mem_append] at hm
          rcases hm with hm | hm
          · exact hnul' hm
          · exact hnul (List.mem_append_right _ hm)

/-- **A read that does not cover the line**: the end of the line is taken for data. -/
theorem doRead_stuck (h : s.Expects f (r ++ reads.flatten) result) (hdata : s.data = true)
    (hs : s.buff = dataHead.set 0 '\x00' ++ z) (hz : Zero z) (hr : r ≠ [])
    (hshort : r.length < dataHead.length) (hnul : '\x00' ∉ r ++ reads.flatten) :
    s.doRead f (r :: reads) ≠ some (result, []) := by
  have hfill : fill s.buff r = r ++ dataHead.drop r.length ++ z := by
    have hfree : cstr (dataHead.set 0 '\x00' ++ z) = [] := rfl
    have hline : (dataHead.set 0 '\x00').drop r.length = dataHead.drop r.length :=
      List.drop_set_of_lt (List.length_pos_iff.mpr hr)
    rw [hs, fill, hfree, List.length_nil, List.take_zero, List.nil_append, Nat.zero_add,
      List.drop_append_of_le_length (by rw [List.length_set]; exact Nat.le_of_lt hshort), hline,
      List.append_assoc]
  have hhead : '\x00' ∉ dataHead := by decide
  intro hrun
  have hlen := doRead_length reads hdata h.quit hfill hz (fun hm => ?_) hrun
  · have hall := h.length hdata
    simp only [List.length_append, List.length_drop] at hlen hall
    omega
  · simp only [List.mem_append] at hm hnul
    rcases hm with (hm | hm) | hm
    · exact hnul (Or.inl hm)
    · exact hhead (List.mem_of_mem_drop hm)
    · exact hnul (Or.inr hm)

end Stuck

/-! ## All reads -/

/-- A read that leaves room puts off the question of a full array to the next one. -/
theorem room_rest {r : Str} (reads : List Str)
    (h : f.ended = true ∨ w.length + r.length < replyBuffSize) :
    f.ended = true ∨ Room (replyBuffSize - 1) w (r :: reads) ↔
      f.ended = true ∨ Room (replyBuffSize - 1) (unfinished (w ++ r)) reads := by
  rcases h with hended | hlen
  · exact iff_of_true (Or.inl hended) (Or.inl hended)
  · have hle : w.length + r.length ≤ replyBuffSize - 1 := Nat.le_sub_one_of_lt hlen
    rw [Room, and_iff_right hle]

/-- A read that fills the array settles it. -/
theorem not_room {r : Str} (h : ¬ (f.ended = true ∨ w.length + r.length < replyBuffSize)) :
    ¬ (f.ended = true ∨ Room (replyBuffSize - 1) w (r :: reads)) := by
  rintro (hended | ⟨hfirst, -⟩)
  · exact h (Or.inl hended)
  · have hpos : 0 < replyBuffSize := by decide
    exact h (Or.inr (by omega))

/-- The reading from where it stands, with `w` in the buffer. -/
theorem doRead_expects : ∀ (reads : List Str) {s : Reader} {w z : Str},
    s.Expects f (w ++ reads.flatten) result → s.buff = w ++ z → Zero z → ¬ crlf <:+: w →
    '\x00' ∉ w ++ reads.flatten → [] ∉ reads → Room replyBuffSize w reads →
    ((f.overlaps = true → s.data = false → HeadCovered w reads) → s.doRead f reads
      = if f.ended = true ∨ Room (replyBuffSize - 1) w reads then some (result, []) else none) ∧
    (¬ (f.overlaps = true → s.data = false → HeadCovered w reads) →
      s.doRead f reads ≠ some (result, [])) := by
  intro reads
  induction reads with
  | nil =>
      intro s w z h _ _ hw _ _ _
      rw [List.flatten_nil, List.append_nil] at h
      exact absurd h.ends.isInfix hw
  | cons r reads ih =>
      intro s w z h hs hz hw hnul hne hroom
      rw [List.flatten_cons, ← List.append_assoc] at h hnul
      have hnul' : '\x00' ∉ w ++ r := fun hm => hnul (List.mem_append_left _ hm)
      rw [List.mem_cons, not_or] at hne
      -- no part of a line is the `DATA` line
      have hhead : w ≠ dataHead := fun he => hw (by rw [he]; decide)
      rw [HeadCovered, and_iff_right fun he => absurd he hhead]
      by_cases hlen : f.ended = true ∨ w.length + r.length < replyBuffSize
      · have hfirst := room_rest reads hlen
        obtain ⟨z', hz', hread⟩ := read_short hs hz hnul' hroom.1 hlen
        obtain ⟨t, ht, hlast, hmore⟩ :=
          drain_expects (w ++ r).length (Nat.le_refl _) (h.load (w ++ r ++ z')) rfl hz' hnul
        rw [doRead, hread, ht, Option.bind_some]
        by_cases hreads : reads.flatten = []
        · obtain ⟨hquit, hresponse⟩ := hlast hreads
          have hnil : reads = [] := by
            cases reads with
            | nil => rfl
            | cons r' reads =>
                obtain ⟨rfl, -⟩ := List.append_eq_nil_iff.mp (List.flatten_cons ▸ hreads)
                exact absurd List.mem_cons_self hne.2
          subst hnil
          rw [hquit, if_pos rfl, hresponse, if_pos (hfirst.mpr (Or.inr trivial))]
          exact ⟨fun _ => rfl, fun hno => absurd (fun _ _ => trivial) hno⟩
        · obtain ⟨hrest, hleaves⟩ := hmore hreads
          obtain ⟨hsuffix, hno⟩ := unfinished_spec (w ++ r).length (Nat.le_refl _)
          have hfree : '\x00' ∉ unfinished (w ++ r) ++ reads.flatten := fun hm => by
            rcases List.mem_append.mp hm with hm | hm
            · exact hnul' (hsuffix.subset hm)
            · exact hnul (List.mem_append_right _ hm)
          rw [hrest.quit, if_neg (by decide), if_congr hfirst rfl rfl]
          cases hleaves with
          | same hz'' hbuff hdata hline =>
              obtain ⟨hall, hnot⟩ := ih hrest hbuff hz'' hno hfree hne.2 hroom.2
              have hcover : (f.overlaps = true → s.data = false → HeadCovered (w ++ r) reads) ↔
                  (f.overlaps = true → t.data = false →
                    HeadCovered (unfinished (w ++ r)) reads) := by
                rw [hdata]
                refine forall_congr' fun _ => forall_congr' fun hs' => ?_
                rw [unfinished_part (hline hs')]
              rw [hcover]
              exact ⟨hall, hnot⟩
          | begun hz'' hbuff hdata hlong =>
              obtain ⟨hall, -⟩ := ih hrest hbuff hz'' hno hfree hne.2 hroom.2
              refine ⟨fun _ => hall fun _ hno =>
                absurd (hdata.symm.trans hno) (by decide), fun hno => ?_⟩
              exact absurd (fun hf _ => headCovered_of (hlong hf)) hno
          | @stuck z'' hz'' hbuff hdata hf hs' hx =>
              cases reads with
              | nil => exact absurd rfl hreads
              | cons r' reads =>
                  have hroom' := hroom.2
                  rw [hx] at hrest hfree hroom' ⊢
                  have hne' : r' ≠ [] := fun he => hne.2 (he ▸ List.mem_cons_self)
                  have hcover : (f.overlaps = true → s.data = false →
                      HeadCovered dataHead (r' :: reads)) ↔ dataHead.length ≤ r'.length := by
                    rw [← headCovered_head hne']
                    exact ⟨fun hall => hall hf hs', fun hall _ _ => hall⟩
                  rw [hcover]
                  constructor
                  · intro hle
                    have hrun : t.doRead f (r' :: reads) =
                        { t with buff := List.replicate dataHead.length '\x00' ++ z'' }.doRead f
                          (r' :: reads) := by
                      rw [doRead, doRead, read_covered hbuff hle]
                    have hzero := zero_append.mpr ⟨zero_replicate dataHead.length, hz''⟩
                    rw [hrun]
                    exact (ih (hrest.load _) rfl hzero (by decide) hfree hne.2 hroom').1
                      fun _ hno => absurd (hdata.symm.trans hno) (by decide)
                  · intro hlt
                    exact doRead_stuck hrest hdata hbuff hz'' hne' (Nat.not_le.mp hlt) hfree
      · rw [doRead, read_full hs hz hnul' hlen, if_neg (not_room hlen)]
        exact ⟨fun _ => rfl, fun _ he => by cases he⟩

end Reader

theorem IsReply.noNul (h : IsReply reply result) : '\x00' ∉ reply := by
  cases h with
  | status _ hnul => exact hnul
  | contents _ hnul =>
      intro hm
      rcases List.mem_append.mp hm with hm | hm
      · exact absurd hm (by decide)
      · rcases List.mem_append.mp hm with hm | hm
        · exact hnul hm
        · exact absurd hm (by decide)

/-- A status line is not a `DATA` line. -/
theorem IsStatus.first (h : IsStatus l) : ∃ c rest, l = c :: rest ∧ c ≠ 'D' ∧ c ≠ '\x00' := by
  rcases h.word with ⟨rest, rfl⟩ | ⟨rest, rfl⟩ | ⟨rest, rfl⟩
  · exact ⟨_, _, rfl, by decide, by decide⟩
  · exact ⟨_, _, rfl, by decide, by decide⟩
  · exact ⟨_, _, rfl, by decide, by decide⟩

/-- No part of a status line is a `DATA` line. -/
theorem IsStatus.covered (h : IsStatus reads.flatten) (hne : [] ∉ reads) :
    HeadCovered [] reads := by
  cases reads with
  | nil => trivial
  | cons r reads =>
      rw [List.mem_cons, not_or] at hne
      refine ⟨fun he => absurd he (by decide), headCovered_of fun hp => ?_⟩
      obtain ⟨c, rest, hl, hc, -⟩ := h.first
      obtain ⟨d, r, rfl⟩ := List.exists_cons_of_ne_nil (Ne.symm hne.1)
      obtain ⟨rfl, -⟩ := List.cons.inj (List.flatten_cons ▸ hl)
      exact hc (List.cons_prefix_cons.mp hp).1

/--
**A reply is read completely, with its last byte,** exactly when no read takes the array
to its last byte, unless a zero is behind it, and when `command[6]` is not `buff[0]`,
unless the reply is a `DATA` reply and its `DATA` line is covered by what comes next.
-/
theorem doRead_iff (f : Reader.Frame) (hreply : IsReply reply result) (hcut : reads.flatten = reply)
    (hne : [] ∉ reads) (hfits : Room replyBuffSize [] reads) :
    Reader.doRead f {} reads = some (result, []) ↔
      (f.ended = true ∨ Room (replyBuffSize - 1) [] reads) ∧
      (f.overlaps = true → dataHead <+: reply ∧ HeadCovered [] reads) := by
  have hnul := hreply.noNul
  rw [← hcut] at hnul
  cases hreply with
  | status hl _ =>
      subst hcut
      have hexpects : Reader.Expects f {} ([] ++ reads.flatten) (f.store reads.flatten) :=
        .status rfl rfl hl
      obtain ⟨hall, -⟩ :=
        Reader.doRead_expects reads hexpects rfl (z := []) nofun (by decide) hnul hne hfits
      rw [hall fun _ _ => hl.covered hne]
      obtain ⟨c, rest, hfirst, hD, hzero⟩ := hl.first
      cases hf : f.overlaps with
      | false =>
          have hstore : f.store reads.flatten = reads.flatten := by
            rw [Reader.Frame.store, hf, if_neg Bool.false_ne_true]
          rw [hstore, and_iff_left fun he => absurd he Bool.false_ne_true]
          simp only [ite_eq_left_iff, reduceCtorEq, imp_false, not_not]
      | true =>
          refine iff_of_false (fun he => ?_) fun h => ?_
          · split at he
            · rw [Option.some.injEq, Prod.mk.injEq, Reader.Frame.store, hf,
                if_pos rfl, hfirst] at he
              exact hzero (List.cons.inj he.1).1.symm
            · cases he
          · have hhead := (h.2 rfl).1
            rw [hfirst] at hhead
            exact hD (List.cons_prefix_cons.mp hhead).1.symm
  | contents hrows _ =>
      have hexpects : Reader.Expects f {} ([] ++ reads.flatten) result := by
        rw [List.nil_append, hcut]
        exact .head rfl rfl rfl hrows
      obtain ⟨hall, hnot⟩ :=
        Reader.doRead_expects reads hexpects rfl (z := []) nofun (by decide) hnul hne hfits
      simp only [and_iff_right (List.prefix_append dataHead _)]
      by_cases hcover : f.overlaps = true → HeadCovered [] reads
      · rw [hall fun hf _ => hcover hf, and_iff_left hcover]
        simp only [ite_eq_left_iff, reduceCtorEq, imp_false, not_not]
      · exact iff_of_false (hnot fun h => hcover fun hf => h hf rfl) fun h => hcover h.2

/-- What the mailboxes' clients are said to make of a reply is what `do_read` returns. -/
theorem response_reply (hreply : IsReply reply result) : response reply = result := by
  cases hreply with
  | status hl =>
      refine if_neg fun hdata => ?_
      rcases hl.word with hword | hword | hword
      all_goals
        obtain ⟨rest, rfl⟩ := hword
        obtain ⟨he, -⟩ := List.cons_prefix_cons.mp hdata
        exact absurd he (by decide)
  | contents hrows =>
      have hresponse := response_data result
      rw [List.append_assoc] at hresponse
      exact hresponse

/-- Two lines of data, cut in the middle. -/
def cutRows : Str := ['a', '\r', '\n', '.', 'b', '\r', '\n']

/-- With `command` in front of `buff`, and a zero behind it. -/
theorem cutRows_read : Reader.doRead ⟨true, true⟩ {}
    ["DATA\r".toList, "\na\r\n.".toList, "b\r\n.\r\n".toList] = some (cutRows, []) :=
  (doRead_iff ⟨true, true⟩ (.contents
    ⟨Or.inr ⟨['a', '\r', '\n', '.', 'b'], rfl⟩, by decide⟩ (by decide))
    (by decide) (by decide) (by decide)).mpr (by decide)

/-- A line that fills the array. -/
def longRow : Str := List.replicate 4998 'a' ++ crlf

theorem isLine_longRow : IsLine longRow := by
  refine ⟨_, rfl, fun hin => ?_⟩
  have hmem : '\r' ∈ List.replicate 4998 'a' := hin.subset (by decide)
  exact absurd (List.eq_of_mem_replicate hmem) (by decide)

theorem length_longRow : longRow.length = 5000 := by
  rw [longRow, List.length_append, List.length_replicate]
  rfl

theorem longRow_free {c : Char} (ha : c ≠ 'a') (hc : c ∉ crlf) : c ∉ longRow := by
  intro hm
  rcases List.mem_append.mp hm with hm | hm
  · exact ha (List.eq_of_mem_replicate hm)
  · exact hc hm

theorem storedRows_longRow : StoredRows longRow := by
  refine ⟨Or.inr (List.suffix_append _ _), fun hin => ?_⟩
  have hdot : '.' ∈ crlf ++ longRow := hin.subset (by decide)
  exact longRow_free (by decide) (by decide) ((List.mem_append.mp hdot).resolve_left (by decide))

/-- The reply to a `PUT`. -/
def okReply : Str := ['+', 'O', 'K', '\r', '\n']

/--
**Replies that are not read.** Where `command[6]` is `buff[0]`: a status line, whose first
byte is gone, and an empty cell whose dot line comes alone, behind which the end of the
`DATA` line is taken for data. Where it is not, and no zero is behind `buff`: a line that comes
in one read, and fills the array.
-/
theorem replies_misread :
    (∀ ended, IsReply okReply okReply ∧
      Reader.doRead ⟨true, ended⟩ {} [okReply] = some (okReply.set 0 '\x00', [])) ∧
    (∀ ended, IsReply (dataHead ++ dotCrlf) [] ∧
      Reader.doRead ⟨true, ended⟩ {} [dataHead, dotCrlf] = none) ∧
    ∃ reads, IsReply reads.flatten longRow ∧ [] ∉ reads ∧ Room replyBuffSize [] reads ∧
      Reader.doRead ⟨false, false⟩ {} reads = none := by
  refine ⟨fun ended => ⟨?_, ?_⟩, fun ended => ⟨?_, ?_⟩,
    [dataHead, longRow, dotCrlf], ?_, ?_, ?_, ?_⟩
  · exact .status ⟨⟨['+', 'O', 'K'], rfl, by decide⟩, Or.inr (Or.inl ⟨crlf, rfl⟩)⟩ (by decide)
  · cases ended <;> decide +kernel
  · exact .contents ⟨Or.inl rfl, by decide⟩ (by decide)
  · cases ended <;> decide +kernel
  · exact .contents storedRows_longRow (longRow_free (by decide) (by decide))
  · have hne : [] ≠ longRow := fun he => absurd (congrArg List.length he)
      (by rw [length_longRow]; decide)
    simp only [List.mem_cons, not_or]
    exact ⟨by decide, hne, by decide, List.not_mem_nil⟩
  · have hhead : unfinished ([] ++ dataHead) = [] := by decide
    have hrow : unfinished ([] ++ longRow) = [] := by
      rw [List.nil_append, ← List.append_nil longRow, unfinished_line isLine_longRow]
      rfl
    refine ⟨by decide, ?_, ?_, trivial⟩
    · rw [hhead, length_longRow]
      decide
    · rw [hhead, hrow]
      decide
  · have hread : Reader.read ⟨false, false⟩ {} dataHead
        = some { data := true, buff := List.replicate 6 '\x00' } := rfl
    have hfull : Reader.read ⟨false, false⟩
        { data := true, buff := List.replicate 6 '\x00' } longRow = none := by
      have hz := Session.zero_replicate 6
      refine Reader.read_full (w := []) rfl hz (longRow_free (by decide) (by decide)) ?_
      rw [length_longRow]
      decide
    rw [Reader.doRead, hread, Option.bind_some, if_neg (by decide), Reader.doRead, hfull]
    rfl

end PennCloud
