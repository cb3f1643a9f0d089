import PennCloud.Store.Table

/-!
# The request handlers of a data server

The handlers of `Worker.cc` from the point where the arguments have been read
off the connection (`Store/Worker.lean` does that part): sequence number, log
record, table update, reply, and the command handed to `BackStore` for the
replicas. The log file is kept record by record, as the log writers append it;
`LogRecord.text` is the text each of them writes. `checkpoint.txt` is likewise
kept as what `writeToDisk` printed into it.
-/

namespace PennCloud

open Str

/-- What keeps a handler from replying. -/
inductive Stop
  /-- `read` waits for bytes that have not arrived. -/
  | blocked
  /-- A read filled its array, which is then used without a terminating zero. -/
  | overrun
  /-- `std::stol` found no number; nothing catches it. -/
  | stolThrow
  /-- A `Cell*` that `operator[]` has just inserted as null is read through. -/
  | nullDeref
  /-- The session is over: `QUIT` has cleared `run_flag`. -/
  | signedOff
  /-- The command line asks for none of the four data handlers. -/
  | notData
  deriving DecidableEq, Repr

/-- `kw <row> <col>` and what follows. -/
def header (kw row col rest : Str) : Str :=
  (kw ++ [' ']) ++ '<' :: row ++ '>' :: ([' '] ++ '<' :: col ++ '>' :: rest)

def kwPUT : Str := ['P', 'U', 'T']
def kwCPUT : Str := ['C', 'P', 'U', 'T']
def kwGET : Str := ['G', 'E', 'T']
def kwDELETE : Str := ['D', 'E', 'L', 'E', 'T', 'E']
def kwLIST : Str := ['L', 'I', 'S', 'T']

/-! ## The log -/

/-- One record of `log.txt`, by the overload that wrote it. -/
inductive LogRecord
  /-- `putToLog(data, row, col)`, the primary's. -/
  | put (seq : Int) (row col data : Str)
  /-- `putToLog(seq, data, row, col)`, the replica's. -/
  | replicaPut (seq : Int) (row col data : Str)
  /-- Both overloads of `deleteToLog`. -/
  | delete (seq : Int) (row col : Str)
  deriving DecidableEq, Repr

namespace LogRecord

def seq : LogRecord → Int
  | put seq _ _ _ => seq
  | replicaPut seq _ _ _ => seq
  | delete seq _ _ => seq

/-- Everything of a record before its `".\n"`. -/
def body : LogRecord → Str
  | put seq row col data =>
      header kwPUT row col ('\n' :: (decimal seq ++ '\n' :: (data ++ ['\n'])))
  | replicaPut seq row col data => header kwPUT row col ('\n' :: (decimal seq ++ '\n' :: data))
  | delete seq row col => header kwDELETE row col ('\n' :: (decimal seq ++ ['\n']))

/-- The text appended to the log. -/
def text (r : LogRecord) : Str := r.body ++ ['.'] ++ ['\n']

end LogRecord

/-- What `writeToDisk` prints into the checkpoint file. -/
structure Checkpoint where
  version : Int
  table : Bmap

/-- One data server and its two files. -/
structure Server where
  /-- `ServerState::primary`. -/
  primary : Bool
  seqID : Int := 0
  table : Bmap := ∅
  log : List LogRecord := []
  checkpoint : Option Checkpoint := none

/-- A command for the replicas. -/
inductive Forward
  /-- `BackStore::push`. -/
  | put (row col data : Str) (seq : Int)
  /-- `BackStore::poll`. -/
  | delete (row col : Str) (seq : Int)
  deriving DecidableEq, Repr

namespace Forward

def seq : Forward → Int
  | put _ _ _ seq => seq
  | delete _ _ seq => seq

/-- The first line of the command. -/
def line : Forward → Str
  | put row col _ _ => header kwPUT row col crlf
  | delete row col _ => header kwDELETE row col crlf

/-- What follows it: the sequence number and the data. -/
def rest : Forward → Str
  | put _ _ data seq => decimal seq ++ crlf ++ data ++ ['.', '\r', '\n']
  | delete _ _ seq => decimal seq ++ crlf

/-- The bytes written to a replica's connection. -/
def text (f : Forward) : Str := f.line ++ f.rest

end Forward

/-- A call of one of the four data handlers, with the arguments its role reads. -/
inductive Call
  | put (row col data : Str)
  | replicaPut (row col : Str) (seq : Int) (data : Str)
  | cput (row col oldData newData : Str)
  | get (row col : Str)
  | delete (row col : Str)
  | replicaDelete (row col : Str) (seq : Int)
  deriving DecidableEq, Repr

/-- What a handler leaves behind. -/
structure Reaction where
  server : Server
  /-- Everything written back to the client, in one piece. -/
  reply : Str
  /-- The commands handed to the `BackStore`. -/
  forwarded : List Forward := []

def replyOK : Str := ['+', 'O', 'K', '\r', '\n']
def replyDeleted : Str := ['+', 'O', 'K', ' '] ++ "deleted\r\n".toList
def replyErr : Str := ['-', 'E', 'R', 'R', '\r', '\n']
def replyNullRow : Str := ['-', 'E', 'R', 'R', ' '] ++ "NULL row\r\n".toList
def replyNullCol : Str := ['-', 'E', 'R', 'R', ' '] ++ "NULL colmn\r\n".toList

/-- The `OLD` that asks for an absent key. -/
def oldNULL : Str := ['N', 'U', 'L', 'L', '\r', '\n']

namespace Server

/-- `ServerState::updateSeq`. -/
def updateSeq (s : Server) (seq : Int) : Server := { s with seqID := max s.seqID seq }

/-- `putToLog(data, row, col)`; the number is `ServerState::increseSeq`'s. -/
def putToLog (s : Server) (data row col : Str) : Server × Int :=
  ({ s with seqID := s.seqID + 1, log := s.log ++ [.put (s.seqID + 1) row col data] },
    s.seqID + 1)

/-- `putToLog(seq, data, row, col)`. -/
def putToLogAt (s : Server) (seq : Int) (data row col : Str) : Server :=
  { s with log := s.log ++ [.replicaPut seq row col data] }

/-- `deleteToLog(row, col)`. -/
def deleteToLog (s : Server) (row col : Str) : Server × Int :=
  ({ s with seqID := s.seqID + 1, log := s.log ++ [.delete (s.seqID + 1) row col] }, s.seqID + 1)

/-- `deleteToLog(seq, row, col)`. -/
def deleteToLogAt (s : Server) (seq : Int) (row col : Str) : Server :=
  { s with log := s.log ++ [.delete seq row col] }

/--
The table update of `parse_PUT`. The presence test asks for a *row* named `col`;
when it passes, `table[row][col]->contents` is overwritten through the pointer
that `operator[]` returns, which is null if the cell was not there.
-/
def storePUT (s : Server) (row col data : Str) : Except Stop Server :=
  if !s.table.hasRow row || !s.table.hasRow col then
    .ok { s with table := s.table.set row col data }
  else match s.table.at? row col with
    | none => .error .nullDeref
    | some _ => .ok { s with table := s.table.set row col data }

/-- `parse_PUT` on a primary, its data read. -/
def parsePUT (s : Server) (row col data : Str) : Except Stop Reaction := do
  let (s, primarySeq) := s.putToLog data row col
  let s ← s.storePUT row col data
  return { server := s, reply := replyOK, forwarded := [.put row col data primarySeq] }

/-- `parse_PUT` on a replica, its sequence number and data read. -/
def parsePUTReplica (s : Server) (row col : Str) (seq : Int) (data : Str) :
    Except Stop Reaction := do
  let s := (s.updateSeq seq).putToLogAt seq data row col
  let s ← s.storePUT row col data
  return { server := s, reply := replyOK }

/-- `parse_GET`. -/
def parseGET (s : Server) (row col : Str) : Reaction :=
  if !s.table.hasRow row then { server := s, reply := replyNullRow }
  else match s.table.at? row col with
    | none => { server := s, reply := replyNullCol }
    | some data =>
        { server := s, reply := "DATA\r\n".toList ++ data ++ ['.', '\r', '\n'] }

/-- `parse_DELE` after its log record: the same on both roles. -/
def eraseDELE (s : Server) (row col : Str) (forwarded : List Forward) : Reaction :=
  if !s.table.hasRow row then { server := s, reply := replyNullRow }
  else match s.table.at? row col with
    | none => { server := s, reply := replyNullCol }
    | some _ =>
        { server := { s with table := s.table.eraseCol row col }, reply := replyDeleted,
          forwarded := forwarded }

/-- `parse_DELE` on a primary. -/
def parseDELE (s : Server) (row col : Str) : Reaction :=
  let (s, primarySeq) := s.deleteToLog row col
  s.eraseDELE row col [.delete row col primarySeq]

/-- `parse_DELE` on a replica, its sequence number read. -/
def parseDELEReplica (s : Server) (row col : Str) (seq : Int) : Reaction :=
  (s.deleteToLogAt seq row col).eraseDELE row col []

/-- The accepting branches of `parse_CPUT`: log, write, forward if primary. -/
def acceptCPUT (s : Server) (row col newData : Str) : Reaction :=
  let (s, primarySeq) := s.putToLog newData row col
  { server := { s with table := s.table.set row col newData }, reply := replyOK,
    forwarded := if s.primary then [.put row col newData primarySeq] else [] }

/-- `parse_CPUT`, its two bodies read, with no other worker in between. -/
def parseCPUT (s : Server) (row col oldData newData : Str) : Reaction :=
  if !s.table.hasRow row || (s.table.at? row col).isNone then
    if oldData = oldNULL then s.acceptCPUT row col newData
    else { server := s, reply := replyErr }
  else if s.table.at? row col = some oldData then s.acceptCPUT row col newData
  else { server := s, reply := replyErr }

/-- Run a call to its end, no other worker in between. -/
def handle (s : Server) : Call → Except Stop Reaction
  | .put row col data => s.parsePUT row col data
  | .replicaPut row col seq data => s.parsePUTReplica row col seq data
  | .cput row col oldData newData => .ok (s.parseCPUT row col oldData newData)
  | .get row col => .ok (s.parseGET row col)
  | .delete row col => .ok (s.parseDELE row col)
  | .replicaDelete row col seq => .ok (s.parseDELEReplica row col seq)

end Server

end PennCloud
