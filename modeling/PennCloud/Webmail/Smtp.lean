import PennCloud.Webmail.MailList
import Std.Data.TreeSet

/-!
# The SMTP session of the mail server

`worker_thread` keeps what it has read in one character array and takes the lines
off its front: a command, or in state 4 a line of the message text, until the
array holds nothing but a dot line. The array is kept here as its bytes up to
where it is zero for good. A session starts with zeros only, as a new stack has
them; `worker_thread` does not clear the array itself. A read that leaves no zero byte
in the array, a mailbox that is longer than its array or has no bracket to end
it, and a `substr` past the end have no session after them. The stores of
`command`, `extra` and `send` one byte behind their arrays are left out.
-/

namespace PennCloud

open Str

def buffSize : Nat := 5000
def cmdSize : Nat := 5
def mailboxSize : Nat := 50

def serverReady : Str := "220 localhost smtp server ready\r\n".toList
def serviceClose : Str := "221 localhost service closing transmission channel\r\n".toList
def heloOK : Str := "250 localhost\r\n".toList
def mailOK : Str := "250 OK\r\n".toList
def startMail : Str := "354 Start mail input; end with <CRLF>.\r\n".toList
def unknownCmd : Str := "500 Syntax error, command unrecognized\r\n".toList
def syntaxErr : Str := "501 Syntax error in parameters or arguments\r\n".toList
def badSeq : Str := "503 Bad sequence of commands\r\n".toList
def noSubject : Str := "email content must include Subject: \r\n".toList

def subjectMark : Str := "Subject: ".toList

/-- The line that ends a message. -/
def dotCrlf : Str := ['.', '\r', '\n']

/-- `strcasecmp(a, b) == 0`. -/
def sameCase (a b : Str) : Bool := a.map Char.toLower == b.map Char.toLower

/-- What a line was taken for. -/
inductive Handled
  /-- Executed as a command. -/
  | command (line : Str)
  /-- Added to the message text. -/
  | text
  /-- The end of a message, which is handed to delivery. -/
  | mail (sender : Str) (rcpts : List Str) (data : Str)
  deriving DecidableEq, Repr

/-- The variables of `worker_thread`. -/
structure Session where
  state : Nat := 0
  /-- The bytes of `buff`; behind them it is zero. -/
  buff : Str := []
  quit : Bool := false
  sender : Str := []
  rcpts : Std.TreeSet Str compare := ∅
  data : Str := []
  /-- Everything written back, but for mailboxes that are not there. -/
  replies : List Str := [serverReady]
  /-- What the lines were taken for. -/
  handled : List Handled := []

/-- `clear_buffer(buff, buff + end)`. -/
def clearBuffer (buff : Str) (end' : Nat) : Str :=
  (cstr buff).drop end' ++ List.replicate end' '\x00' ++ buff.drop (cstr buff).length

/-- The array when a read has put `bytes` where its string ends. -/
def fill (buff bytes : Str) : Str :=
  buff.take (cstr buff).length ++ bytes ++ buff.drop ((cstr buff).length + bytes.length)

/-- `parse_mailbox`, its result read as a C string. -/
def parseMailbox (src : Str) : Option Str :=
  (Lib.firstIdx ['<'] src).bind fun i =>
    (Lib.firstIdx ['>'] (src.drop (i + 1))).bind fun j =>
      if j < mailboxSize then some (cstr ((src.drop (i + 1)).take j)) else none

/-- `domain.substr(domain.find_last_of("@"))`, the text `compare` looks at. -/
def fromLastAt (domain : Str) : Option Str :=
  if '@' ∈ domain then some ('@' :: (domain.reverse.takeWhile (· ≠ '@')).reverse) else none

/-- The title `handle_data` takes from a message; `none` where `substr` throws. -/
def mailTitle (data : Str) : Option Str :=
  let f1 := data.find subjectMark
  let f2 := findFrom data crlf (f1 + 1)
  if (data.length : Int) < f1 + 9 then none else some (data.substr (f1 + 9) (f2 - f1 - 9))

namespace Session

/-- The session with other bytes in its buffer. -/
def load (s : Session) (buff : Str) : Session := { s with buff := buff }

@[simp] theorem load_state (s : Session) (b : Str) : (s.load b).state = s.state := rfl
@[simp] theorem load_buff (s : Session) (b : Str) : (s.load b).buff = b := rfl
@[simp] theorem load_quit (s : Session) (b : Str) : (s.load b).quit = s.quit := rfl
@[simp] theorem load_sender (s : Session) (b : Str) : (s.load b).sender = s.sender := rfl
@[simp] theorem load_rcpts (s : Session) (b : Str) : (s.load b).rcpts = s.rcpts := rfl
@[simp] theorem load_data (s : Session) (b : Str) : (s.load b).data = s.data := rfl
@[simp] theorem load_handled (s : Session) (b : Str) : (s.load b).handled = s.handled := rfl

/-- `handle_response`. -/
def reply (s : Session) (text : Str) : Session := { s with replies := s.replies ++ [text] }

/-- A check that replies when it fails; the handler goes on either way. -/
def expect (s : Session) (ok : Bool) (text : Str) : Session := if ok then s else s.reply text

def handleHelo (s : Session) : Session :=
  let s := s.expect (cmdSize < (cstr s.buff).length) syntaxErr
  if s.state > 1 then s.reply badSeq else { s with state := 1 }.reply heloOK

def handleFrom (s : Session) : Option Session :=
  let extra := ((cstr s.buff).drop cmdSize).take 5
  let s := s.expect (sameCase extra "from:".toList) unknownCmd
  if s.state ≠ 1 then some (s.reply badSeq)
  else (parseMailbox s.buff).bind fun domain => (fromLastAt domain).map fun found =>
    if found.take 10 ≠ "@localhost".toList then s.reply syntaxErr
    else { s with state := 2, sender := domain }.reply mailOK

def handleTo (s : Session) : Option Session :=
  let extra := ((cstr s.buff).drop cmdSize).take 3
  let s := s.expect (sameCase extra "to:".toList) unknownCmd
  if s.state < 2 ∨ 3 < s.state then some (s.reply badSeq)
  else (parseMailbox s.buff).map fun mailbox =>
    { s with state := 3, rcpts := s.rcpts.insert mailbox }.reply mailOK

def handleRset (s : Session) : Session :=
  if s.state = 0 then s.reply badSeq
  else { s with state := 1, data := [], sender := [], rcpts := ∅ }.reply mailOK

/-- `handle_data` at the line `buff .. end`. -/
def handleData (s : Session) (end' : Nat) : Option Session :=
  if s.state < 3 ∨ 4 < s.state then some (s.reply badSeq)
  else if s.state = 3 then some ({ s with state := 4 }.reply startMail)
  -- `strcmp` looks at all that is in the buffer
  else if cstr s.buff ≠ dotCrlf then
    some { s with data := s.data ++ s.buff.take end', handled := s.handled ++ [.text] }
  else
    let s := s.expect (s.data.find subjectMark ≠ npos) noSubject
    (mailTitle s.data).map fun _ =>
      { s with
        state := 5
        handled := s.handled ++ [Handled.mail s.sender s.rcpts.toList s.data]
        data := [], sender := [], rcpts := ∅ }.reply mailOK

/-- Note that a line is executed as a command. -/
def note (s : Session) (end' : Nat) : Session :=
  { s with handled := s.handled ++ [.command (s.buff.take end')] }

/-- The body of the inner loop, before `clear_buffer`. -/
def line (s : Session) (end' : Nat) : Option Session :=
  let command := (cstr s.buff).take cmdSize
  if s.state = 4 then s.handleData end'
  else if sameCase command "data\r".toList then (s.note end').handleData end'
  else if sameCase command "helo ".toList then some (s.note end').handleHelo
  else if sameCase command "mail ".toList then (s.note end').handleFrom
  else if sameCase command "rcpt ".toList then (s.note end').handleTo
  else if sameCase command "rset\r".toList then some (s.note end').handleRset
  else if sameCase command "noop\r".toList then some ((s.note end').reply mailOK)
  else if sameCase command "quit\r".toList then
    some ({ s.note end' with state := 6, quit := true }.reply serviceClose)
  else some ((s.note end').reply unknownCmd)

/-- The inner loop; each line takes at least two bytes off the buffer. -/
def drain : Nat → Session → Option Session
  | 0, s => some s
  | fuel + 1, s =>
    match Lib.firstIdx crlf (cstr s.buff) with
    | none => some s
    | some i => (s.line (i + 2)).bind fun t =>
      if t.quit then some t else drain fuel (t.load (clearBuffer t.buff (i + 2)))

/-- One turn of the outer loop: a read, and the lines it completes. -/
def read (s : Session) (bytes : Str) : Option Session :=
  let buff := fill s.buff bytes
  if s.quit = false ∧ (cstr s.buff).length + bytes.length ≤ buffSize ∧
      (cstr buff).length < buffSize then
    drain (cstr buff).length (s.load buff)
  else none

/-- Reads, one after the other. -/
def readAll : Session → List Str → Option Session
  | s, [] => some s
  | s, bytes :: reads => (s.read bytes).bind (readAll · reads)

end Session

/-! ## The client -/

/-- The lines `sendto_smpt_server` sends of a message, `data` from `prev + 2` on. -/
def sendLines (data : Str) : Nat → Int → List Str
  | 0, _ => []
  | fuel + 1, prev =>
    let next := findFrom data crlf (prev + 2)
    if next = npos then [] else data.substr (prev + 2) (next - prev) :: sendLines data fuel next

/-- All of them. -/
def messageLines (data : Str) : List Str := sendLines data data.length (-2)

def heloLine : Str := "HELO tester\r\n".toList
def dataLine : Str := "DATA\r\n".toList

/-- `keyword + "<" + mailbox + ">\r\n"`. -/
def mailboxLine (keyword mailbox : Str) : Str := keyword ++ '<' :: (mailbox ++ '>' :: crlf)

/-- The commands before a message. -/
def opening (sender : Str) (rcpts : List Str) : List Str :=
  heloLine :: mailboxLine "MAIL FROM:".toList sender ::
    rcpts.map (mailboxLine "RCPT TO:".toList) ++ [dataLine]

/-- The command after it. -/
def closing : Str := "QUIT\r\n".toList

/-- Everything `sendto_smpt_server` writes, write by write. -/
def dialogue (sender : Str) (rcpts : List Str) (data : Str) : List Str :=
  opening sender rcpts ++ messageLines data ++ [dotCrlf, closing]

/-- The message `handle_send_email` passes on. -/
def mailText (subject content : Str) : Str := subjectMark ++ subject ++ crlf ++ content ++ crlf

end PennCloud
