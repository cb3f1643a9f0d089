import PennCloud.Webmail.Delivery

/-!
# What a request asks of the frontend

`handle_get` and `handle_post` choose the handler by the path, which they compare
without regard to case: the whole of it, or its beginning. A handler takes its
arguments from the rest of the path or from the body. `getRoute` and `postRoute`
are these two functions up to the point where the handler looks at the session or
at somebody's data.

Where a handler runs past the end of the text, or is not able to go on for another
reason, the process dies; then there is no action.
-/

namespace PennCloud

open Str

/-- `strcasecmp(s, kw) == 0`. -/
def strcasecmp (s kw : Str) : Bool := (cstr s).map Char.toLower == kw.map Char.toLower

/-- `path.size() >= n && strcasecmp(path.substr(0, n).c_str(), kw) == 0`, `n` being the length
of `kw`. -/
def startsCase (path kw : Str) : Bool :=
  decide (kw.length ≤ path.length) && strcasecmp (path.take kw.length) kw

/-! ## Arguments -/

/-- What is behind the first `c`; the search for it does not stop at the end. -/
def behind (c : Char) (s : Str) : Option Str :=
  if c ∈ s then some ((s.dropWhile (· ≠ c)).drop 1) else none

/-- An `int` that has come out of an addition or a multiplication; none where it overflows. -/
def asInt (n : Int) : Option Int := if -2147483648 ≤ n ∧ n ≤ 2147483647 then some n else none

/-- `id * 10 + path[index] - '0'`. -/
def appendDigit (id : Int) (c : Char) : Option Int :=
  (asInt (id * 10)).bind fun tens => (asInt (tens + c.toNat)).bind fun sum => asInt (sum - 48)

/-- `id += id * 10 + path[index++] - '0'`. -/
def addDigit (id : Int) (c : Char) : Option Int := (appendDigit id c).bind fun n => asInt (id + n)

/-- A digit loop of a handler. -/
def digitLoop (step : Int → Char → Option Int) : Int → Str → Option Int
  | id, [] => some id
  | id, c :: s => (step id c).bind fun n => digitLoop step n s

/-- `parse_mailid`. -/
def parseMailid (path : Str) : Option Int :=
  (behind '=' path).bind fun s => digitLoop appendDigit 0 (s.takeWhile (· ≠ '?'))

/-- The index of `handle_back`, which adds to `id` where it should assign. -/
def backIndex (path : Str) : Option Int := (behind '=' path).bind (digitLoop addDigit 0)

/-- The hash in the path of a mail to be deleted, its last character taken off. -/
def hashOf (path : Str) : Option Str :=
  let hash := path.substr (path.find ['='] + 1)
  if hash = [] then none else some hash.dropLast

/-- The file and the folder in the path of `handle_move_file`. -/
def moveArgs (path : Str) (isFile : Bool) : Option (Str × Str) :=
  let n := if isFile then 22 else 24
  if path.length < n then none
  else (behind '=' (path.drop n)).bind fun s =>
    if '&' ∈ s then
      (behind '=' (s.dropWhile (· ≠ '&'))).map fun folder => (s.takeWhile (· ≠ '&'), folder)
    else none

/-- The old and the new name in the body of `handle_rename`. -/
def renameArgs (message : Str) : Option (Str × Str) :=
  (behind '=' message).bind fun s => (behind '&' s).bind fun t =>
    (behind '=' t).map fun prename => (prename, s.takeWhile (· ≠ '&'))

/-- `strtok`: the next token, and what is behind it. -/
def strtok (delim s : Str) : Option (Str × Str) :=
  let s := s.dropWhile (· ∈ delim)
  if s = [] then none else some (s.takeWhile (· ∉ delim), (s.dropWhile (· ∉ delim)).drop 1)

/-- The second token of a field, behind its `=`. -/
def fieldValue (field : Str) : Option Str :=
  (strtok ['='] field).bind fun r => (strtok ['='] r.2).map Prod.fst

/-- The user name and password in the body of a sign-in or sign-up, which is copied to 256 bytes. -/
def credentials (message : Str) : Option (Str × Str) :=
  let info := cstr message
  if 256 ≤ info.length then none
  else (strtok ['&'] info).bind fun r => (strtok [' ', '&'] r.2).bind fun r' =>
    (fieldValue r.1).bind fun user => (fieldValue r'.1).map fun password => (user, password)

def hexValue (c : Char) : Option Nat :=
  if c.isDigit then some (c.toNat - '0'.toNat)
  else if 'a' ≤ c ∧ c ≤ 'f' then some (c.toNat - 'a'.toNat + 10)
  else if 'A' ≤ c ∧ c ≤ 'F' then some (c.toNat - 'A'.toNat + 10)
  else none

/-- `convert_hex_to_char` on two characters, read by `ss >> hex` as a number. -/
def convertHexToChar (a b : Char) : Char :=
  let one := (hexValue b).getD 0
  if isspace a ∨ a = '+' then Char.ofNat one
  else if a = '-' then Char.ofNat ((256 - one) % 256)
  else match hexValue a, hexValue b with
    | some x, some y => Char.ofNat (16 * x + y)
    | some x, none => if a = '0' ∧ (b = 'x' ∨ b = 'X') then Char.ofNat 0 else Char.ofNat x
    | none, _ => Char.ofNat 0

/-- A field of the mail form, decoded up to the `&`, and what is from there on. -/
def formField : Str → Option (Str × Str)
  | [] => none
  | '&' :: s => some ([], '&' :: s)
  | '+' :: s => (formField s).map fun r => (' ' :: r.1, r.2)
  | '%' :: a :: b :: s => (formField s).map fun r => (convertHexToChar a b :: r.1, r.2)
  | '%' :: _ => none
  | c :: s => (formField s).map fun r => (c :: r.1, r.2)

/-- The last field, decoded to the end. -/
def formContent : Str → Option Str
  | [] => some []
  | '+' :: s => (formContent s).map (' ' :: ·)
  | '%' :: a :: b :: s => (formContent s).map (convertHexToChar a b :: ·)
  | '%' :: _ => none
  | c :: s => (formContent s).map (c :: ·)

/-- `parse_email`: the recipient, the content and the subject. -/
def parseEmail (message : Str) : Option (Str × Str × Str) :=
  (behind '=' message).bind fun s => (formField s).bind fun recipient =>
    (behind '=' (recipient.2.drop 1)).bind fun s => (formField s).bind fun subject =>
      (behind '=' (subject.2.drop 1)).bind fun s => (formContent s).map fun content =>
        (recipient.1, content, subject.1)

/-- `find_filename`. -/
def findFilename (message : Str) : Option Str :=
  let index := message.find "filename=".toList + 10
  if (message.length : Int) < index then none
  else some (message.substr index (find (message.drop index.toNat) ['"']))

/-- `find_file_content`: from the first blank line to the line break before the next six dashes. -/
def findFileContent (message : Str) : Option Str :=
  (Lib.firstIdx (crlf ++ crlf) message).bind fun i =>
    let s := message.drop (i + 4)
    let stop := (Lib.firstIdx "------".toList s).getD s.length
    if stop < 2 then none else some (s.take (stop - 2))

/-- The size that `handle_upload` writes down. -/
def contentSize (n : Nat) : Str :=
  if n < 1024 then decimal n ++ ['B']
  else if n < 1000000 then decimal (n / 1024 : Nat) ++ "KB".toList
  else decimal (n / 900000 : Nat) ++ ".00MB".toList

/-! ## Routes -/

/-- What a handler that does not call `is_logged_in` is about to do. -/
inductive Action
  | download (filename : Str)
  | movingPath (filename : Str)
  | moveFile (folder filename : Str)
  | goBack (index : Int)
  | delete (filename : Str)
  | openFolder (foldername : Str)
  /-- The pages that show a mail or answer it. -/
  | showMail (box : Box) (id : Int)
  | deleteMail (box : Box) (hash : Str)
  | upload (filename content size : Str)
  | createFolder (foldername : Str)
  | rename (prename newname : Str)
  | sendEmail (recipient content : Str)
  | logout
  deriving DecidableEq

inductive Route
  /-- Neither the session nor a user's data is looked at. -/
  | plain
  /-- A page that calls `is_logged_in` and shows no data. -/
  | page
  /-- The list of files, behind `is_logged_in`. -/
  | files
  /-- The lists of mails, behind `is_logged_in`. -/
  | email
  | signIn (credentials : Option (Str × Str))
  | signUp (credentials : Option (Str × Str))
  /-- No call of `is_logged_in`. -/
  | unchecked (action : Option Action)
  /-- `raise(SIGINT)`. -/
  | kill
  deriving DecidableEq

/-- `response::handle_get`. -/
def getRoute (path : Str) : Route :=
  if strcasecmp path "/".toList then .page
  else if strcasecmp path "/css/signin.css".toList then .plain
  else if strcasecmp path "/newemail".toList then .page
  else if strcasecmp path "/files".toList then .files
  else if strcasecmp path "/upload".toList then .page
  else if startsCase path "/download?".toList then .unchecked (some (.download (path.drop 10)))
  else if startsCase path "/movefile".toList then
    .unchecked (if path.length < 10 then none else some (.movingPath (path.drop 10)))
  else if startsCase path "/movefolder".toList then
    .unchecked (if path.length < 12 then none else some (.movingPath (path.drop 12)))
  else if strcasecmp path "/logout".toList then .unchecked (some .logout)
  else if strcasecmp path "/signup".toList then .page
  else if startsCase path "/filemove".toList then
    .unchecked ((moveArgs path true).map fun a => .moveFile a.2 a.1)
  else if startsCase path "/foldermove".toList then
    .unchecked ((moveArgs path false).map fun a => .moveFile a.2 a.1)
  else if startsCase path "/back".toList then .unchecked ((backIndex path).map .goBack)
  else if strcasecmp path "/admin".toList then .plain
  else if startsCase path "/stopserver".toList then .plain
  else if strcasecmp path "/kill".toList then .kill
  else if startsCase path "/startserver".toList then .plain
  else if startsCase path "/delete".toList then .unchecked ((behind '?' path).map .delete)
  else if startsCase path "/opendir".toList then .unchecked ((behind '?' path).map .openFolder)
  else if strcasecmp path "/email".toList then .email
  else if startsCase path "/showinbox".toList then
    .unchecked ((parseMailid path).map (.showMail .inbox))
  else if startsCase path "/showsent".toList then
    .unchecked ((parseMailid path).map (.showMail .outbox))
  else if startsCase path "/reply".toList then
    .unchecked ((parseMailid path).map (.showMail .inbox))
  else if startsCase path "/forward".toList then
    .unchecked ((parseMailid path).map (.showMail .inbox))
  else if startsCase path "/removeinbox".toList then
    .unchecked ((hashOf path).map (.deleteMail .inbox))
  else if startsCase path "/removeoutbox".toList then
    .unchecked ((hashOf path).map (.deleteMail .outbox))
  -- `/stopbackend`, `/startbackend`, and paths that nobody handles
  else .plain

/-- `response::handle_post`. -/
def postRoute (path message : Str) : Route :=
  if strcasecmp path "/".toList then .signIn (credentials message)
  else if strcasecmp path "/upload".toList then
    .unchecked ((findFilename message).bind fun filename =>
      (findFileContent message).map fun content =>
      .upload filename content (contentSize content.length))
  else if strcasecmp path "/newemail".toList then
    .unchecked ((parseEmail message).map fun m => .sendEmail m.1
      ("Subject: ".toList ++ m.2.2 ++ crlf ++ m.2.1 ++ crlf))
  else if strcasecmp path "/signup".toList then .signUp (credentials message)
  else if strcasecmp path "/createFolder".toList then
    .unchecked (if message.length < 11 then none else some (.createFolder (message.drop 11)))
  else if strcasecmp path "/rename".toList then
    .unchecked ((renameArgs message).map fun a => .rename a.1 a.2)
  else .plain

/-- A request as `request` has read it, the path decoded by `parse_path`. -/
structure HttpRequest where
  method : Str
  path : Str
  message : Str := []
  cookies : List (Str × Str) := []
  deriving DecidableEq

/-- `response::response`. -/
def HttpRequest.route (q : HttpRequest) : Route :=
  if strcasecmp q.method "get".toList then getRoute q.path
  else if strcasecmp q.method "post".toList then postRoute q.path q.message
  else .plain

/-- `cookies["username"]`. -/
def HttpRequest.cookie (q : HttpRequest) : Option Str := q.cookies.lookup "username".toList

end PennCloud
