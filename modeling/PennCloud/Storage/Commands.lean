import PennCloud.Store.Protocol

/-!
# The commands a client writes

The frontend's `Storage` and the mail programs are the clients of the data
servers. Both build a request by concatenation: the keyword, the row and column in
angle brackets, and for a body its heading line, the data and the dot line, with
no escaping anywhere. The texts are those of `Request.text`, so `intended` is the
request a sender means; whether a worker reads that very request is another
question.
-/

namespace PennCloud

open Str

/-- `Storage::command_parser`. -/
def commandParser (userName columnName : Str) : Str :=
  '<' :: userName ++ '>' :: ' ' :: '<' :: columnName ++ '>' :: crlf

/-- What `send_get_command` writes. -/
def getText (index : Str) : Str := kwGET ++ ' ' :: index

/-- What `send_put_command` writes. -/
def putText (index data : Str) : Str :=
  kwPUT ++ ' ' :: index ++ ("DATA".toList ++ crlf ++ data ++ dotLine)

/-- What `send_cput_command` writes. -/
def cputText (index oldData newData : Str) : Str :=
  kwCPUT ++ ' ' :: index ++ ("OLD".toList ++ crlf ++ oldData ++ dotLine)
    ++ ("NEW".toList ++ crlf ++ newData ++ dotLine)

/-- What `send_delete_command` writes. -/
def deleteText (index : Str) : Str := kwDELETE ++ ' ' :: index

/-- A call of one of the senders of `Storage`, its index made by `command_parser`. -/
inductive Command
  | get (row col : Str)
  | put (row col data : Str)
  | cput (row col oldData newData : Str)
  | delete (row col : Str)
  deriving DecidableEq, Repr

namespace Command

/-- The bytes written. -/
def text : Command → Str
  | get row col => getText (commandParser row col)
  | put row col data => putText (commandParser row col) data
  | cput row col oldData newData => cputText (commandParser row col) oldData newData
  | delete row col => deleteText (commandParser row col)

/-- The request meant: a body is stored with the line break before the dot line. -/
def intended : Command → Request
  | get row col => .get row col
  | put row col data => .put row col (data ++ crlf)
  | cput row col oldData newData => .cput row col (oldData ++ crlf) (newData ++ crlf)
  | delete row col => .delete row col

/-- **The senders write the text of the request they mean.** -/
theorem text_eq (c : Command) : c.text = c.intended.text := by
  cases c <;>
    simp [text, intended, Request.text, Request.line, Request.rest, getText, putText, cputText,
      deleteText, commandParser, header, dotLine, crlf]

end Command

end PennCloud
