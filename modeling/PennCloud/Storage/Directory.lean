import PennCloud.Lib.Threads
import PennCloud.Storage.Failover
import PennCloud.Storage.Listing
import PennCloud.Webmail.Mailbox

/-!
# Moves, deletions, uploads and renamings in a user's folders

`Storage` changes a listing with a `GET` and a `CPUT`, repeated until the `CPUT`
is accepted. `send_cput_command_delete` takes an id off a listing in that way, for
a move or a deletion; `send_cput_command_add` puts a line on one, for a move, for
an upload, or to undo a move. `move_file` calls first the one and then the other,
and in between the file is in no listing at all.

The calls of any number of sessions run here as threads, a request of theirs
being one step. What a session has cached of its folder comes in as the arguments
of its calls.
-/

namespace PennCloud

open Str

/-- What `read_get_data` returns for an absent cell. -/
def nullReply : Str := "-ERR NULL".toList

/-- What a round of `Storage::read_get_data` makes of all it has read; `none` reads on. -/
def readGetRound (complete : Str) : Option Str :=
  if shuttingDown <:+: complete then some serverCrash
  else if "DATA\r\n".toList <:+: complete ∧ dotLine <:+: complete then
    some (if complete.length ≤ 11 then [] else complete.substr 6 (complete.length - 11))
  else if nullReply <:+: complete ∧ crlf <:+: complete then some nullReply
  else none

namespace Server

/-- `send_get_command`, the request handled as one step; `none` where it does not return. -/
def sendGet (s : Server) (row col : Str) : Option (Str × Server) :=
  match s.handle (Command.get row col).intended.call with
  | .error _ => none
  | .ok r => (readGetRound (cstr r.reply)).bind fun response =>
    if response = serverCrash then none else some (response, r.server)

/-- The three other senders, likewise. -/
def sendUpdate (s : Server) (u : Update) : Option (Str × Server) :=
  match s.handle u.request.call with
  | .error _ => none
  | .ok r =>
    if readPutReply [] [r.reply] = serverCrash then none
    else some (readPutReply [] [r.reply], r.server)

end Server

/-! ## The calls -/

/-- `move_file`, with what the session has cached. -/
structure Move where
  /-- The folder the session is in, and the one moved to. -/
  old : Str
  new : Str
  file : FileInfo
  deriving DecidableEq

/-- `delete_file`. -/
structure Deletion where
  path : Str
  id : Str
  deriving DecidableEq

/-- `upload_file`: the entry with its new id, and the content. -/
structure Upload where
  path : Str
  file : FileInfo
  content : Str
  deriving DecidableEq

/-- `rename_file`. -/
structure Renaming where
  path : Str
  id : Str
  isFile : Bool
  oldName : Str
  newName : Str
  deriving DecidableEq

inductive DirCall
  | move (m : Move)
  | delete (d : Deletion)
  | upload (u : Upload)
  | rename (r : Renaming)
  deriving DecidableEq

/-- The folder whose listing the call gets first. -/
def DirCall.path : DirCall → Str
  | move m => m.old
  | delete d => d.path
  | upload u => u.path
  | rename r => r.path

/-- What `send_cput_command_delete` runs for. -/
inductive Removal
  | move (m : Move)
  | delete (d : Deletion)
  deriving DecidableEq

namespace Removal

def path : Removal → Str
  | move m => m.old
  | delete d => d.path

def id : Removal → Str
  | move m => m.file.id
  | delete d => d.id

end Removal

/-- What `send_cput_command_add` runs for. -/
inductive Addition
  | move (m : Move)
  /-- `recover_old_path`. -/
  | recover (m : Move)
  | upload (u : Upload)
  deriving DecidableEq

namespace Addition

def path : Addition → Str
  | move m => m.new
  | recover m => m.old
  | upload u => u.path

def file : Addition → FileInfo
  | move m => m.file
  | recover m => m.file
  | upload u => u.file

end Addition

/-- Where a call stands: before the request that it sends next. -/
inductive DirPc
  | start (c : DirCall)
  /-- `send_cput_command_delete`, about to compare and put; has the id been missing so far? -/
  | remove (r : Removal) (oldData newData : Str) (hasDeleted : Bool)
  /-- Refused with `response`: about to get the listing again. -/
  | removeAgain (r : Removal) (response : Str) (hasDeleted : Bool)
  /-- `move_file` has taken the file off, and gets the listing of the new folder. -/
  | target (m : Move)
  /-- `send_cput_command_add`, about to compare and put. -/
  | add (a : Addition) (oldData : Str)
  | addAgain (a : Addition) (response : Str)
  /-- `recover_old_path`, about to get the listing of the old folder. -/
  | recover (m : Move)
  /-- `rename_file`, about to compare and put. -/
  | rewrite (r : Renaming) (oldData newData : Str)
  | rewriteAgain (r : Renaming)
  /-- The name of the renamed file is put. -/
  | putNewName (r : Renaming)
  /-- The name and content of an uploaded file are put. -/
  | putName (u : Upload)
  | putContent (u : Upload)
  /-- The name and content of a deleted file are deleted. -/
  | deleteName (d : Deletion)
  | deleteContent (d : Deletion)
  /-- `refresh_upload` at the end of a move. -/
  | refresh (m : Move)
  /-- The call has returned. -/
  | done (c : DirCall) (result : Bool)
  deriving DecidableEq

/-- What has happened to an id in a listing. -/
inductive DirEvent
  /-- The move has put its file there. -/
  | moved (m : Move)
  /-- A move or deletion has taken it off. -/
  | took (path id : Str)
  deriving DecidableEq

/-- The data server of a user's folders, and what moves and deletions have done, the
latest first. -/
structure Dir where
  server : Server
  log : List DirEvent := []

/-! ## Between the requests -/

/-- What follows `send_cput_command_delete`. -/
def Removal.after (hasDeleted : Bool) (response : Str) : Removal → DirPc
  | move m =>
    if hasDeleted then .done (.move m) false
    else if "+OK".toList <:+: response then .target m
    else .done (.move m) false
  | delete d =>
    if hasDeleted then .done (.delete d) false
    else if (response.take 3).map Char.toUpper = "+OK".toList then .deleteName d
    else .done (.delete d) false

/-- The scan of a listing before the `CPUT`: the flag is cleared when the id is found. -/
def Removal.scan (r : Removal) (content : Str) (hasDeleted : Bool) : Option DirPc :=
  (scanDelete r.id (parseContentFileNames content)).map fun s =>
    .remove r content s.1 (hasDeleted && !s.2)

/-- What follows `send_cput_command_add`. -/
def Addition.after (response : Str) : Addition → DirPc
  | move m => if "-ERR".toList <:+: response then .recover m else .refresh m
  -- what `recover_old_path` returns is not looked at
  | recover m => .done (.move m) false
  | upload u => if "+OK".toList <:+: response then .putName u else .done (.upload u) false

/-- The test for the name before the `CPUT`; `conflict` is the response where it is taken. -/
def Addition.check (a : Addition) (conflict oldData : Str) : Option DirPc :=
  if oldData = [] then some (.add a oldData)
  else (existSameFileName a.file.name (parseContentFileNames oldData)).map fun exist =>
    if exist then a.after conflict else .add a oldData

/-- The rewriting of a listing by `rename_file`. -/
def Renaming.scan (r : Renaming) (content : Str) : Option DirPc :=
  (scanRename r.isFile r.oldName r.newName (parseContentFileNames content)).map fun new =>
    .rewrite r content new

/-- A call that has got the listing of its folder. -/
def DirCall.begin (content : Str) : DirCall → Option DirPc
  | move m =>
    if content = nullReply ∨ content = [] then some (.done (.move m) false)
    else (Removal.move m).scan content true
  | delete d =>
    if content = nullReply ∨ content = [] then some (.done (.delete d) false)
    else (Removal.delete d).scan content true
  | upload u =>
    if content = nullReply then some (.done (.upload u) false)
    else if parseContentFileNames content = [] then (Addition.upload u).check "-ERR".toList []
    else (existSameFileName u.file.name (parseContentFileNames content)).bind fun exist =>
      if exist then some (.done (.upload u) false)
      else (Addition.upload u).check "-ERR".toList content
  | rename r =>
    if content = nullReply ∨ content = [] then some (.done (.rename r) false)
    else r.scan content

namespace Dir

/-- A `GET` of a folder's listing. -/
def get (row path : Str) (s : Dir) : Option (Str × Dir) :=
  (s.server.sendGet row (contentCol path)).map fun r => (r.1, { s with server := r.2 })

/-- An update. -/
def update (u : Update) (s : Dir) : Option (Str × Dir) :=
  (s.server.sendUpdate u).map fun r => (r.1, { s with server := r.2 })

/-- The next request of a call in the folders of the user `row`. -/
def next (row : Str) (s : Dir) : DirPc → Option (Dir × DirPc)
  | .start c => (s.get row c.path).bind fun r => (c.begin r.1).map (r.2, ·)
  | .remove c oldData newData hasDeleted =>
    (s.update (.cput row (contentCol c.path) oldData newData)).map fun r =>
      if "-ERR".toList <:+: r.1 then (r.2, .removeAgain c r.1 hasDeleted)
      else (if c.id ∈ idsIn oldData then { r.2 with log := .took c.path c.id :: r.2.log } else r.2,
        c.after hasDeleted r.1)
  | .removeAgain c response hasDeleted => (s.get row c.path).bind fun r =>
    if r.1 = nullReply ∨ r.1 = [] then some (r.2, c.after hasDeleted response)
    else (c.scan r.1 hasDeleted).map (r.2, ·)
  | .target m => (s.get row m.new).bind fun r =>
    if nullReply <:+: r.1 then some (r.2, .recover m)
    else ((Addition.move m).check "-ERR".toList r.1).map (r.2, ·)
  | .add a oldData =>
    (s.update (.cput row (contentCol a.path) oldData (oldData ++ a.file.line))).map fun r =>
      if "-ERR".toList <:+: r.1 then (r.2, .addAgain a r.1)
      else (match a with
        | .move m => { r.2 with log := .moved m :: r.2.log }
        | _ => r.2, a.after r.1)
  | .addAgain a response => (s.get row a.path).bind fun r =>
    if r.1 = nullReply then some (r.2, a.after response)
    -- a name that is there now leaves the response cleared
    else (a.check [] r.1).map (r.2, ·)
  | .recover m => (s.get row m.old).bind fun r =>
    if r.1 = nullReply then some (r.2, .done (.move m) false)
    else ((Addition.recover m).check "-ERR".toList r.1).map (r.2, ·)
  | .rewrite c oldData newData =>
    (s.update (.cput row (contentCol c.path) oldData newData)).map fun r =>
      (r.2, if "-ERR".toList <:+: r.1 then .rewriteAgain c
        else if (r.1.take 3).map Char.toUpper = "+OK".toList then .putNewName c
        else .done (.rename c) false)
  | .rewriteAgain c => (s.get row c.path).bind fun r =>
    if r.1 = nullReply ∨ r.1 = [] then some (r.2, .done (.rename c) false)
    else (c.scan r.1).map (r.2, ·)
  | .putNewName c => (s.update (.put row (nameCol c.id) c.newName)).map fun r =>
    (r.2, .done (.rename c) true)
  | .putName u => (s.update (.put row (nameCol u.file.id) u.file.name)).map fun r =>
    (r.2, .putContent u)
  | .putContent u => (s.update (.put row (contentCol u.file.id) u.content)).map fun r =>
    (r.2, .done (.upload u) true)
  | .deleteName d => (s.update (.delete row (nameCol d.id))).map fun r => (r.2, .deleteContent d)
  | .deleteContent d => (s.update (.delete row (contentCol d.id))).map fun r =>
    (r.2, .done (.delete d) true)
  | .refresh m => (s.get row m.old).bind fun r =>
    ((if r.1 = nullReply then [] else parseContentFileNames r.1).mapM parseStringToClass).map
      fun _ => (r.2, .done (.move m) true)
  | .done _ _ => none

/-- A call begins, or sends its next request. -/
abbrev step (row : Str) :
    Lib.Threads Dir DirPc → Lib.Turn DirCall → Option (Lib.Threads Dir DirPc) :=
  Lib.Threads.step DirPc.start (next row)

/-! ## The listings -/

/-- The cell of a folder's listing. -/
def cell (row : Str) (s : Dir) (f : Str) : Option Str := s.server.table.at? row (contentCol f)

/-- The listing: the cell without the line break that the dot line brought. -/
def text (row : Str) (s : Dir) (f : Str) : Str :=
  match s.cell row f with
  | none => []
  | some d => d.take (d.length - 2)

/-- The ids listed in a folder. -/
def ids (row : Str) (s : Dir) (f : Str) : List Str := idsIn (s.text row f)

/-- The cell of a folder is absent or holds a listing. -/
def Listed (row : Str) (s : Dir) (f : Str) : Prop :=
  s.cell row f = none ∨ ∃ text, IsListing text ∧ s.cell row f = some (text ++ crlf)

end Dir

/-! ## What a request does to a listing -/

section Requests

variable {row : Str} {s t : Dir} {f g response : Str}

theorem text_of_cell {d : Str} (h : s.cell row f = some (d ++ crlf)) : s.text row f = d := by
  rw [Dir.text, h]
  simp [crlf]

/-- Nothing but its line break is cut off a listing that is read. -/
theorem readGetRound_data {d : Str} (hd : '\x00' ∉ d)
    (h : readGetRound (cstr ("DATA\r\n".toList ++ (d ++ crlf) ++ ['.', '\r', '\n']))
      = some response)
    (hresponse : response ≠ serverCrash) : response = d := by
  have hcstr : cstr ("DATA\r\n".toList ++ (d ++ crlf) ++ ['.', '\r', '\n'])
      = "DATA\r\n".toList ++ (d ++ dotLine) := by
    rw [cstr_eq]
    · simp [crlf, dotLine]
    · simp only [List.mem_append, not_or]
      exact ⟨⟨by decide, hd, by decide⟩, by decide⟩
  have hlen : ("DATA\r\n".toList ++ (d ++ dotLine)).length = d.length + 11 := by
    rw [List.length_append, List.length_append]
    show 6 + (d.length + 5) = d.length + 11
    omega
  have hdata : "DATA\r\n".toList <:+: "DATA\r\n".toList ++ (d ++ dotLine) :=
    (List.prefix_append _ _).isInfix
  have hdot : dotLine <:+: "DATA\r\n".toList ++ (d ++ dotLine) :=
    ((List.suffix_append d _).trans (List.suffix_append _ _)).isInfix
  rw [hcstr, readGetRound] at h
  by_cases hdown : shuttingDown <:+: "DATA\r\n".toList ++ (d ++ dotLine)
  · rw [if_pos hdown] at h
    exact absurd (Option.some.inj h).symm hresponse
  · rw [if_neg hdown, if_pos ⟨hdata, hdot⟩, hlen] at h
    by_cases hle : d.length + 11 ≤ 11
    · rw [if_pos hle] at h
      rw [← Option.some.inj h, List.eq_nil_of_length_eq_zero (show d.length = 0 by omega)]
    · rw [if_neg hle] at h
      rw [← Option.some.inj h, ← List.append_assoc]
      exact substr_middle _ d dotLine rfl (by omega)

/-- A `GET` changes nothing. -/
theorem sendGet_same {v w : Server} {col : Str}
    (h : v.sendGet row col = some (response, w)) : w = v := by
  obtain ⟨r, -, hread⟩ := Option.bind_eq_some_iff.mp h
  split at hread
  · cases hread
  · cases hread
    show (v.parseGET row col).server = v
    unfold Server.parseGET
    split
    · rfl
    · split <;> rfl

theorem get_same (h : s.get row f = some (response, t)) : t = s := by
  obtain ⟨⟨g, v⟩, hget, he⟩ := Option.map_eq_some_iff.mp h
  obtain rfl := sendGet_same hget
  cases he
  rfl

/-- What a `GET` returns of an absent cell, and of one without a zero byte. -/
theorem Dir.get_reads (h : s.get row f = some (response, t)) :
    (s.cell row f = none → response = nullReply) ∧
      ∀ d, '\x00' ∉ d → s.cell row f = some (d ++ crlf) → response = d := by
  obtain ⟨⟨g, v⟩, hget, he⟩ := Option.map_eq_some_iff.mp h
  obtain ⟨r, hround, hread⟩ := Option.bind_eq_some_iff.mp hget
  split at hread
  · cases hread
  rename_i hcrash
  cases hread
  cases he
  have hcell : s.cell row f = s.server.table.at? row (contentCol f) := rfl
  unfold Server.parseGET at hround
  split at hround
  · rename_i hrow
    have hnone : s.cell row f = none := Nested.at?_of_not_hasRow _ (by simpa using hrow)
    refine ⟨fun _ => ?_, fun d _ hsome => ?_⟩
    · exact (Option.some.inj (hround.symm.trans (by decide : readGetRound (cstr replyNullRow) = _)))
    · rw [hnone] at hsome
      cases hsome
  · rw [← hcell] at hround
    refine ⟨fun hnone => ?_, fun d hd hsome => ?_⟩
    · rw [hnone] at hround
      exact (Option.some.inj (hround.symm.trans (by decide : readGetRound (cstr replyNullCol) = _)))
    · rw [hsome] at hround
      exact readGetRound_data hd hround hcrash

/-- **A `GET` returns the listing**, or says that there is none. -/
theorem Dir.get_cases (hs : s.Listed row f) (h : s.get row f = some (response, t)) : t = s ∧
    (s.cell row f = none ∧ response = nullReply ∨
      IsListing response ∧ s.cell row f = some (response ++ crlf)) := by
  obtain ⟨hnull, hdata⟩ := Dir.get_reads h
  refine ⟨get_same h, ?_⟩
  rcases hs with hnone | ⟨d, hd, hsome⟩
  · exact Or.inl ⟨hnone, hnull hnone⟩
  · obtain rfl := hdata d hd.noNul hsome
    exact Or.inr ⟨hd, hsome⟩

/-- What a listing says that a `GET` returns is not the text of an absent one. -/
theorem IsListing.ne_nullReply {d : Str} (h : IsListing d) : d ≠ nullReply := by
  rintro rfl
  rcases h.ends with hnil | hmem
  · exact absurd hnil (by decide)
  · exact absurd hmem (by decide)

theorem sendUpdate_ask {v w : Server} {u : Update} (h : v.sendUpdate u = some (response, w)) :
    ∃ reply, v.ask u.request = some (reply, w) := by
  cases hr : v.handle u.request.call with
  | error e => simp [Server.sendUpdate, hr] at h
  | ok r =>
      simp only [Server.sendUpdate, hr] at h
      split at h
      · cases h
      · cases h
        exact ⟨_, by rw [Server.ask, hr]⟩

/-- A `CPUT` binds its cell, or is refused. -/
theorem sendUpdate_cput {v w : Server} {col old new : Str}
    (h : v.sendUpdate (.cput row col old new) = some (response, w)) :
    (CputHolds v.table.view (row, col) (old ++ crlf) ∧ response = replyOK ∧
      ∀ r c, w.table.at? r c = if r = row ∧ c = col then some (new ++ crlf) else v.table.at? r c) ∨
    (response = replyErr ∧ w = v) := by
  have hr : v.handle (Update.cput row col old new).request.call =
      .ok (v.parseCPUT row col (old ++ crlf) (new ++ crlf)) := rfl
  have hok : readPutReply [] [replyOK] = replyOK := by decide
  have herr : readPutReply [] [replyErr] = replyErr := by decide
  rw [Server.sendUpdate, hr, parseCPUT_eq] at h
  by_cases hholds : CputHolds v.table.view (row, col) (old ++ crlf)
  · simp only [if_pos hholds, hok, if_neg (show replyOK ≠ serverCrash by decide)] at h
    cases h
    exact Or.inl ⟨hholds, rfl, Nested.at?_set v.table row col (new ++ crlf)⟩
  · simp only [if_neg hholds, herr, if_neg (show replyErr ≠ serverCrash by decide)] at h
    cases h
    exact Or.inr ⟨rfl, rfl⟩

/-- The listing `new` is put in the folder `f`, and nothing else is changed. -/
structure Dir.Puts (row : Str) (s t : Dir) (f new : Str) : Prop where
  log : t.log = s.log
  cell : ∀ g, t.cell row g = if g = f then some (new ++ crlf) else s.cell row g

/-- **A `CPUT` of a listing** puts the new one for the very one given, or is refused. -/
theorem Dir.cput_cases {old new : Str} (hold : IsListing old)
    (h : s.update (.cput row (contentCol f) old new) = some (response, t)) :
    (s.cell row f = some (old ++ crlf) ∧ response = replyOK ∧ Puts row s t f new) ∨
      (response = replyErr ∧ t = s) := by
  obtain ⟨⟨r, v⟩, hsend, he⟩ := Option.map_eq_some_iff.mp h
  cases he
  rcases sendUpdate_cput hsend with ⟨hholds, hok, hat⟩ | ⟨herr, rfl⟩
  · refine Or.inl ⟨?_, hok, rfl, fun g => ?_⟩
    · rcases hholds with ⟨-, hnull⟩ | hsome
      · -- `NULL` is not a listing
        have hold' : old = "NULL".toList := List.append_cancel_right (hnull.trans (by decide))
        rcases hold.ends with hnil | hmem
        · exact absurd (hold'.symm.trans hnil) (by decide)
        · exact absurd (hold' ▸ hmem) (by decide)
      · exact hsome
    · have hg := hat row (contentCol g)
      simp only [true_and, contentCol_inj] at hg
      exact hg
  · exact Or.inr ⟨herr, rfl⟩

theorem update_log {u : Update} (h : s.update u = some (response, t)) : t.log = s.log := by
  obtain ⟨r, -, he⟩ := Option.map_eq_some_iff.mp h
  cases he
  rfl

theorem Dir.put_other {col data : Str} (hcol : contentCol f ≠ col)
    (h : s.update (.put row col data) = some (response, t)) : t.cell row f = s.cell row f := by
  obtain ⟨⟨r, v⟩, hsend, he⟩ := Option.map_eq_some_iff.mp h
  cases he
  obtain ⟨reply, hask⟩ := sendUpdate_ask hsend
  exact (ask_put hask row (contentCol f)).trans (if_neg fun hc => hcol hc.2)

theorem Dir.cput_other {col old new : Str} (hcol : contentCol f ≠ col)
    (h : s.update (.cput row col old new) = some (response, t)) : t.cell row f = s.cell row f := by
  obtain ⟨⟨r, v⟩, hsend, he⟩ := Option.map_eq_some_iff.mp h
  cases he
  rcases sendUpdate_cput hsend with ⟨-, -, hat⟩ | ⟨-, rfl⟩
  · exact (hat row (contentCol f)).trans (if_neg fun hc => hcol hc.2)
  · rfl

theorem Dir.delete_other {col : Str} (hcol : contentCol f ≠ col)
    (h : s.update (.delete row col) = some (response, t)) : t.cell row f = s.cell row f := by
  obtain ⟨⟨r, v⟩, hsend, he⟩ := Option.map_eq_some_iff.mp h
  cases he
  obtain ⟨reply, hask⟩ := sendUpdate_ask hsend
  exact (ask_delete hask row (contentCol f)).trans (if_neg fun hc => hcol hc.2)

/-- A deleted folder has no listing. -/
theorem Dir.delete_cell (h : s.update (.delete row (contentCol f)) = some (response, t)) :
    t.cell row f = none := by
  obtain ⟨⟨r, v⟩, hsend, he⟩ := Option.map_eq_some_iff.mp h
  cases he
  obtain ⟨reply, hask⟩ := sendUpdate_ask hsend
  exact (ask_delete hask row (contentCol f)).trans (if_pos ⟨rfl, rfl⟩)

end Requests

end PennCloud
