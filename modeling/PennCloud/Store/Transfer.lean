import PennCloud.Address
import PennCloud.Store.Disk
import PennCloud.Store.Protocol

/-!
# What a recovering replica and its primary say to each other

`recoverProcess` sends the number of its last log record and its address in a
`RECOVERY` line. `parse_RECOVERY` takes the words the other way round: it looks
for a replica whose address is the number, finds none, and compares the version
of its checkpoint with the number at the front of the address, its first octet.

The two files come over as text up to a mark, and are read in groups as by
`do_read`, into an array of 1000 bytes. What has no mark in it arrives whole,
however it is cut (`receive_text`).
-/

namespace PennCloud

namespace Str

/-- `s.rfind(pat, pos)`: the last occurrence that starts at `pos` or before. -/
def rfindFrom (s pat : Str) (pos : Nat) : Int :=
  match (List.range (pos + 1)).reverse.find? fun i => decide (pat <+: s.drop i) with
  | some i => i
  | none => npos

end Str

open Str

/-! ## What is looked up in the files -/

/-- `lastLogSeq`, from the log's contents; `none` when `std::stol` throws. -/
def lastLogSeq (contents : Str) : Option Int :=
  let pos := contents.rfindFrom ['>', '\n'] contents.length
  if pos ≠ npos then
    let pos2 := contents.rfindFrom ['.', '\n'] pos.toNat
    let pos := if pos2 ≠ npos then contents.findFrom ['>', '\n'] pos2
      else contents.find ['>', '\n']
    let seqStr := contents.substr (pos + 2)
    stol (seqStr.substr 0 (seqStr.find ['\n']))
  else some 0

/-- `findVersionNum`, from the checkpoint's contents if there is one. -/
def findVersionNum (contents : Option Str) : Option Int :=
  match contents with
  | none => some 0
  | some contents =>
    let versionNumLine : Str := (Lib.lines '\n' contents).headD []
    let pos := versionNumLine.find ['<'] + 1
    stol (versionNumLine.substr pos (versionNumLine.find ['>'] - pos))

/-! ## The two lines -/

def kwRECOVERY : Str := ['R', 'E', 'C', 'O', 'V', 'E', 'R', 'Y']
def kwREADY : Str := ['R', 'E', 'A', 'D', 'Y']

/-- What `recoverProcess` asks with. -/
def recoveryLine (seq : Int) (x : Addr) : Str :=
  kwRECOVERY ++ ' ' :: (decimal seq ++ ' ' :: (ipToString x ++ crlf))

/-- What it reports with. -/
def readyLine (x : Addr) : Str := kwREADY ++ ' ' :: (ipToString x ++ crlf)

/-- The word `parse_RECOVERY` hands to `BackStore::recover`. -/
def recoveryAddr (command : Str) : Str :=
  let command := command.substr (command.find [' '] + 1)
  command.substr 0 (command.find [' '])

/-- The word it reads its `startSeq` from. -/
def recoverySeq (command : Str) : Str :=
  let command := command.substr (command.find [' '] + 1)
  let command := command.substr (command.find [' '] + 1)
  command.substr 0 (command.find [' '])

/-- The word `parse_READY` hands to `BackStore::reconnect`. -/
def readyAddr (command : Str) : Str :=
  let pos := command.find [' '] + 1
  command.substr pos (command.find crlf - pos)

def replyTransferLog : Str := ['+', 'O', 'K'] ++ ' ' :: "tansfering log\r\n".toList
def replyTransferCheckpoint : Str :=
  ['-', 'E', 'R', 'R'] ++ ' ' :: "tansfering checkpoint file\r\n".toList

/-- The answer of `parse_RECOVERY`; `none` when a `std::stol` throws. -/
def answerRECOVERY (checkpoint : Option Str) (command : Str) : Option Str := do
  let startSeq ← stol (recoverySeq command)
  let versionNum ← findVersionNum checkpoint
  return if versionNum ≤ startSeq then replyTransferLog else replyTransferCheckpoint

/-- What `recoverProcess` makes of the answer: whether its own files will do. -/
def transfersLog (response : Str) : Bool :=
  response.substr 0 (response.find [' ']) = ['+', 'O', 'K']

section Lines

variable (seq : Int) (x : Addr)

theorem noSpace_ipToString : ' ' ∉ ipToString x := notMem_ipToString (by decide) (by decide)
  (by decide) (by decide)

theorem recoveryLine_rest (s : Str) {kw : Str} (hkw : ' ' ∉ kw) :
    (kw ++ ' ' :: s).substr ((kw ++ ' ' :: s).find [' '] + 1) = s := by
  rw [find_sep s hkw]
  exact substr_after kw ' ' s

/-- **The address is looked for under the number.** -/
theorem recoveryAddr_line : recoveryAddr (recoveryLine seq x) = decimal seq := by
  have hdec : ' ' ∉ decimal seq := notMem_decimal (by decide) (by decide)
  rw [recoveryAddr, recoveryLine, recoveryLine_rest _ (by decide), find_sep _ hdec]
  exact substr_middle [] _ _ rfl rfl

/-- **The number is the first octet of the address.** -/
theorem recoverySeq_line : stol (recoverySeq (recoveryLine seq x)) = some (x.a : Int) := by
  have hdec : ' ' ∉ decimal seq := notMem_decimal (by decide) (by decide)
  have hlast : ' ' ∉ ipToString x ++ crlf := by
    rw [List.mem_append, not_or]
    exact ⟨noSpace_ipToString x, by decide⟩
  rw [recoverySeq, recoveryLine, recoveryLine_rest _ (by decide), recoveryLine_rest _ hdec,
    find_sep_none hlast, substr_zero_npos]
  exact stol_ipToString x crlf

/-- No replica has a number for its address. -/
theorem decimal_ne_ipToString : decimal seq ≠ ipToString x := by
  intro h
  have hdot : '.' ∉ decimal seq := notMem_decimal (by decide) (by decide)
  rw [h] at hdot
  simp [ipToString] at hdot

theorem readyAddr_line : readyAddr (readyLine x) = ipToString x := by
  have hcr : '\r' ∉ kwREADY ++ ' ' :: ipToString x := by
    have hx : '\r' ∉ ipToString x := notMem_ipToString (by decide) (by decide)
      (by decide) (by decide)
    simp [kwREADY, hx]
  have hline : readyLine x = kwREADY ++ ' ' :: ipToString x ++ crlf := by simp [readyLine]
  have hend : (readyLine x).find crlf = (kwREADY ++ ' ' :: ipToString x).length := by
    refine find_of_firstIdx ?_
    rw [hline, crlf, Lib.firstIdx_skip _ hcr, Lib.firstIdx_zero (List.prefix_refl _)]
    rfl
  have hspace : (readyLine x).find [' '] = kwREADY.length := find_sep _ (by decide)
  rw [readyAddr, hspace, hend, hline]
  exact substr_between kwREADY ' ' (ipToString x) crlf

end Lines

theorem findVersionNum_text (c : Checkpoint) : findVersionNum (some c.text) = some c.version := by
  let head : Str := "Version number: ".toList
  have hdec : '>' ∉ decimal c.version := notMem_decimal (by decide) (by decide)
  have hline : versionLine c.version = [] ++ head ++ '<' :: decimal c.version ++ '>' :: [] := rfl
  have hfirst : (Lib.lines '\n' c.text).headD [] = versionLine c.version := by
    rw [Checkpoint.text, Lib.lines_line _ (noNl_versionLine c.version), List.headD_cons]
  have hlt : (versionLine c.version).find ['<'] = head.length := by
    rw [hline, List.append_assoc]
    exact find_sep _ (by decide)
  have hgt : (versionLine c.version).find ['>'] = (head ++ '<' :: decimal c.version).length := by
    rw [hline]
    exact find_sep _ (by
      rw [List.nil_append, List.mem_append, List.mem_cons, not_or, not_or]
      exact ⟨by decide, by decide, hdec⟩)
  have hnum : (versionLine c.version).substr (head.length + 1)
      ((head ++ '<' :: decimal c.version).length - (head.length + 1)) = decimal c.version := by
    rw [hline, List.nil_append]
    exact substr_between head '<' (decimal c.version) ['>']
  show stol (substr ((Lib.lines '\n' c.text).headD []) _ _) = _
  rw [hfirst, hlt, hgt, hnum]
  exact stol_line c.version

/-- The answer is a comparison of the checkpoint's version with the octet. -/
theorem answerRECOVERY_line (checkpoint : Option Checkpoint) (seq : Int) (x : Addr) :
    answerRECOVERY (checkpoint.map Checkpoint.text) (recoveryLine seq x)
      = some (if (checkpoint.map Checkpoint.version).getD 0 ≤ (x.a : Int) then replyTransferLog
          else replyTransferCheckpoint) := by
  have hversion : findVersionNum (checkpoint.map Checkpoint.text)
      = some ((checkpoint.map Checkpoint.version).getD 0) := by
    cases checkpoint with
    | none => rfl
    | some c => exact findVersionNum_text c
  rw [answerRECOVERY, recoverySeq_line, hversion]
  rfl

theorem isLine_answer : IsLine replyTransferLog ∧ IsLine replyTransferCheckpoint :=
  ⟨⟨replyTransferLog.dropLast.dropLast, by decide, by decide⟩,
    ⟨replyTransferCheckpoint.dropLast.dropLast, by decide, by decide⟩⟩

/-! ## Transfers -/

/-- The `rlen` of `dataserver.cc`. -/
def rlenTransfer : Nat := 1000

/-- `contactServer`, its request written: the answer, as a C string. -/
def contactServer (task : List Read) : Except Stop (Str × List Read) := do
  let (buf, task) ← doRead rlenTransfer task
  return (cstr buf, task)

/--
`receiveCheckpoint` and `receiveLog`, which differ in their mark: reads go to the
buffer until a group holds the mark's line. Each group takes at least one read,
so as many rounds as there are reads are enough.
-/
def receive (mark : Str) : Nat → Str → List Read → Except Stop (Str × List Read)
  | 0, _, _ => .error .blocked
  | n + 1, buffer, task => do
    let (buf, task) ← doRead rlenTransfer task
    let buffer := buffer ++ cstr buf
    if (cstr buf).find (mark ++ crlf) ≠ npos then
      return (buffer.substr 0 (buffer.find mark), task)
    else receive mark n buffer task

def logEnd : Str := ['L', 'O', 'G', ' ', 'E', 'N', 'D']
def checkpointEnd : Str := ['C', 'H', 'E', 'C', 'K', 'P', 'O', 'I', 'N', 'T', ' ', 'E', 'N', 'D']

/-- An answer of one line is taken whole. -/
theorem contactServer_line {l response : Str} {reads : List Str} (hl : IsLine l)
    (hnul : '\x00' ∉ l) (hreads : reads.flatten <+: l)
    (h : contactServer (reads.map .data) = .ok (response, [])) :
    response = l ∧ reads.flatten = l := by
  obtain ⟨⟨buf, task⟩, hread, h⟩ := bind_ok h
  obtain ⟨rfl, rfl⟩ := Prod.mk.inj (Except.ok.inj h)
  obtain ⟨more, hmore⟩ := hreads
  have hnul' : '\x00' ∉ reads.flatten := fun hmem => hnul (hmore ▸ List.mem_append_left _ hmem)
  obtain ⟨g, rest, rfl, hrest, rfl, -, hends, -, -⟩ := readInto_ok (by simp) hnul' (by decide) hread
  obtain rfl := List.map_eq_nil_iff.mp hrest.symm
  rw [List.append_nil] at hmore hnul' ⊢
  rw [List.nil_append] at hends ⊢
  rw [cstr_eq hnul']
  -- a line ends with its first line break
  rcases line_split hl (z := []) (by rw [hmore, List.append_nil]) with ⟨-, x, hx, hnil⟩ | ⟨hno, -⟩
  · rw [(List.append_eq_nil_iff.mp hnil.symm).1, List.append_nil] at hx
    exact ⟨hx, hx⟩
  · exact absurd hends hno

section Receive

variable {mark text data : Str} {task : List Read} {reads : List Str}

/-- What `receive` returns lies before the first mark in what it has read. -/
theorem receive_ok : ∀ {n : Nat} {buffer : Str} {reads : List Str}, '\x00' ∉ reads.flatten →
    receive mark n buffer (reads.map .data) = .ok (data, task) →
    ∃ g rest, reads = g ++ rest ∧ task = rest.map .data ∧ mark ++ crlf <:+: buffer ++ g.flatten ∧
      data = (buffer ++ g.flatten).substr 0 ((buffer ++ g.flatten).find mark)
  | 0, _, _, _, h => by cases h
  | n + 1, buffer, reads, hnul, h => by
      obtain ⟨⟨buf, task'⟩, hread, h⟩ := bind_ok h
      obtain ⟨g, rest, rfl, rfl, rfl, -, -, -, -⟩ := readInto_ok (by simp) hnul (by decide) hread
      rw [List.flatten_append, List.mem_append, not_or] at hnul
      simp only [List.nil_append, cstr_eq hnul.1] at h
      split at h
      · rename_i hfound
        obtain ⟨rfl, rfl⟩ := Prod.mk.inj (Except.ok.inj h)
        exact ⟨g, rest, rfl, rfl,
          (find_ne_npos.mp hfound).trans (List.suffix_append ..).isInfix, rfl⟩
      · obtain ⟨g', rest, rfl, rfl, hends, rfl⟩ := receive_ok hnul.2 h
        refine ⟨g ++ g', rest, by rw [List.append_assoc], rfl, ?_, ?_⟩ <;>
          rw [List.flatten_append, ← List.append_assoc]
        exact hends

/-- **A text without the mark arrives whole**, and nothing else does. -/
theorem receive_text {n : Nat} (hmark : Lib.Unbordered mark) (htext : ¬ mark <:+: text)
    (hnul : '\x00' ∉ text ++ mark ++ crlf) (hreads : reads.flatten <+: text ++ mark ++ crlf)
    (h : receive mark n [] (reads.map .data) = .ok (data, [])) :
    data = text ∧ reads.flatten = text ++ mark ++ crlf := by
  obtain ⟨more, hmore⟩ := hreads
  obtain ⟨g, rest, rfl, hrest, ⟨a, b, hab⟩, rfl⟩ :=
    receive_ok (fun hmem => hnul (hmore ▸ List.mem_append_left _ hmem)) h
  obtain rfl := List.map_eq_nil_iff.mp hrest.symm
  rw [List.nil_append, List.append_nil] at *
  have hidx := Lib.firstIdx_unbordered hmark crlf htext
  -- the mark that ends the loop is the one behind the text
  have hfirst : Lib.firstIdx mark (a ++ mark ++ (crlf ++ b ++ more)) = some text.length := by
    rw [← hidx, ← hmore, ← hab]
    simp
  have hle := Lib.firstIdx_le hfirst
  have hlen := congrArg List.length hmore
  rw [← hab] at hlen
  simp only [List.length_append, crlf, List.length_cons, List.length_nil] at hlen
  obtain rfl : more = [] := List.length_eq_zero_iff.mp (by omega)
  rw [List.append_nil] at hmore
  refine ⟨?_, hmore⟩
  rw [hmore, find_of_firstIdx hidx]
  exact (by rw [List.append_assoc]; exact substr_middle [] text (mark ++ crlf) rfl rfl)

end Receive

end PennCloud
