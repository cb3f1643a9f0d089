import PennCloud.Proof.Served
import PennCloud.Storage.Commands
import PennCloud.Storage.Listing
import PennCloud.Webmail.Delivery

/-!
# User-controlled text on the way to the data servers

Everything that the frontend and the mail server write to a data server on behalf
of a user: for a sign-in or sign-up, for an upload, a new folder or a rename, and
for a message. User names are rows, passwords and file names are data, and so are
the lines of listings and the mails; all are put between the same brackets and dot
lines. `decoded_iff` says of each of these writes for which texts the worker reads
the one request that is meant.
-/

namespace PennCloud

open Str

/-- What `handle_data` writes for a mailbox. -/
inductive MailCommand
  | getList (row : Str) (box : Box)
  | putList (row : Str) (box : Box)
  | cputList (row : Str) (box : Box) (hash : Hash) (response : Str)
  | putMail (row : Str) (box : Box) (hash : Hash) (header data : Str)

namespace MailCommand

/-- The bytes written. -/
def text : MailCommand → Str
  | getList row box => kwGET ++ ' ' :: commandParser row box.listCol
  | putList row box => kwPUT ++ ' ' :: commandParser row box.listCol
      ++ "DATA".toList ++ crlf ++ listMark ++ ['.', '\r', '\n']
  | cputList row box hash response => kwCPUT ++ ' ' :: commandParser row box.listCol
      ++ "OLD".toList ++ crlf ++ response ++ ['.', '\r', '\n']
      ++ "NEW".toList ++ crlf ++ prependHash hash.text response ++ ['.', '\r', '\n']
  | putMail row box hash header data => kwPUT ++ ' ' :: commandParser row (box.mailCol hash.text)
      ++ "DATA".toList ++ crlf ++ header ++ data ++ ['.', '\r', '\n']

/-- The request meant. -/
def intended : MailCommand → Request
  | getList row box => .get row box.listCol
  | putList row box => .put row box.listCol listMark
  | cputList row box hash response =>
      .cput row box.listCol response (prependHash hash.text response)
  | putMail row box hash header data => .put row (box.mailCol hash.text) (header ++ data)

theorem text_eq (m : MailCommand) : m.text = m.intended.text := by
  cases m <;>
    simp [text, intended, Request.text, Request.line, Request.rest, commandParser, header]

end MailCommand

/-- One write to a data server. -/
inductive Outgoing
  | storage (c : Command)
  | mail (m : MailCommand)

namespace Outgoing

def bytes : Outgoing → Str
  | storage c => c.text
  | mail m => m.text

def intended : Outgoing → Request
  | storage c => c.intended
  | mail m => m.intended

theorem bytes_eq (o : Outgoing) : o.bytes = o.intended.text := by
  cases o with
  | storage c => exact c.text_eq
  | mail m => exact m.text_eq

end Outgoing

/-- What a user has a say in, and what the servers have answered so far. -/
inductive UserText
  | signIn (user password : Str)
  | signUp (user password : Str)
  /-- An entry of the folder `path`, which had the content `old`. -/
  | upload (user path : Str) (e : FileInfo) (old content : Str)
  | createFolder (user path : Str) (e : FileInfo) (old : Str)
  | rename (user path fileID : Str) (isFile : Bool) (oldName newName old : Str)
  /-- A message, the mailbox lists being `response`. -/
  | message (sender : Str) (rcpts : List Str) (data time response : Str)

def passwordCol : Str := "password".toList

/-- `Storage::sign_in`, and `open_folder` after it. -/
def signInCommands (user : Str) : List Command :=
  [.get user passwordCol, .get user (contentCol "storage".toList)]

/-- `Storage::resgister`, and `open_folder` after it. -/
def resgisterCommands (user password : Str) : List Command :=
  [.get user passwordCol, .cput user passwordCol "NULL".toList password,
   .put user (nameCol "storage".toList) "storage".toList,
   .put user (contentCol "storage".toList) [], .get user (nameCol "storage".toList),
   .get user (contentCol "storage".toList)]

/-- `Storage::upload_file` and `create_folder`, which puts no content. -/
def entryCommands (user path : Str) (e : FileInfo) (old content : Str) : List Command :=
  [.get user (contentCol path), .cput user (contentCol path) old (old ++ e.line),
   .put user (nameCol e.id) e.name, .put user (contentCol e.id) content]

/-- `Storage::rename_file`. -/
def renameCommands (user path fileID : Str) (isFile : Bool) (oldName newName old : Str) :
    List Command :=
  .get user (contentCol path) ::
    ((scanRename isFile oldName newName (parseContentFileNames old)).toList.map
      fun new => .cput user (contentCol path) old new) ++
    [.put user (nameCol fileID) newName]

/-- The writes of `handle_data` to one mailbox. -/
def mailCommands (row : Str) (box : Box) (hash : Hash) (header data response : Str) :
    List MailCommand :=
  [.getList row box, .putList row box, .cputList row box hash response,
   .putMail row box hash header data]

namespace UserText

/-- Everything written on account of it. -/
def sends (md5 : Str → Nat → Fin 256) : UserText → List Outgoing
  | signIn user _ => (signInCommands user).map .storage
  | signUp user password => (resgisterCommands user password).map .storage
  | upload user path e old content => (entryCommands user path e old content).map .storage
  | createFolder user path e old => (entryCommands user path e old []).map .storage
  | rename user path fileID isFile oldName newName old =>
      (renameCommands user path fileID isFile oldName newName old).map .storage
  | message sender rcpts data time response =>
      (mailTitle data).toList.flatMap fun title =>
        (mailCommands (userOf sender) .outbox (hashMD5 md5 data)
          (outboxHeader sender rcpts title time ++ crlf) data response ++
        (rcpts.filter isLocal).flatMap fun rcpt =>
          mailCommands (userOf rcpt) .inbox (hashMD5 md5 data)
            (inboxHeader sender rcpt title time ++ crlf) data response).map .mail

/-- The rows it may go to. -/
def rows : UserText → List Str
  | signIn user _ | signUp user _ | upload user _ _ _ _ | createFolder user _ _ _
  | rename user _ _ _ _ _ _ => [user]
  | message sender rcpts _ _ _ => userOf sender :: rcpts.map userOf

end UserText

/-! ## Columns are the program's -/

theorem suffix_noCr {s t : Str} (ht : '\r' ∉ t) (hlen : 2 ≤ t.length) : ¬ crlf <:+ s ++ t := by
  intro h
  have hsuf := List.suffix_of_suffix_length_le h (List.suffix_append s t) hlen
  exact ht (hsuf.subset (by simp [crlf]))

theorem nameCol_end (id : Str) : ¬ crlf <:+ nameCol id := suffix_noCr (by decide) (by decide)

theorem contentCol_end (id : Str) : ¬ crlf <:+ contentCol id := suffix_noCr (by decide) (by decide)

theorem listCol_end (box : Box) : ¬ crlf <:+ box.listCol := suffix_noCr (by decide) (by decide)

theorem mailCol_end (box : Box) (h : Hash) : ¬ crlf <:+ box.mailCol h.text :=
  suffix_noCr h.cr_notMem (by rw [h.length]; decide)

theorem passwordCol_end : ¬ crlf <:+ passwordCol := by decide

/-- A mailbox's commands go to its row, in columns that do not end like a line. -/
theorem mailCommands_target {row : Str} {box : Box} {hash : Hash} {header data response : Str}
    {m : MailCommand} (hm : m ∈ mailCommands row box hash header data response) :
    m.intended.row = row ∧ ¬ crlf <:+ m.intended.col := by
  simp only [mailCommands, List.mem_cons, List.not_mem_nil, or_false] at hm
  rcases hm with rfl | rfl | rfl | rfl
  · exact ⟨rfl, listCol_end box⟩
  · exact ⟨rfl, listCol_end box⟩
  · exact ⟨rfl, listCol_end box⟩
  · exact ⟨rfl, mailCol_end box hash⟩

/-- The writes of an upload or a new folder. -/
theorem entryCommands_target {user path : Str} {e : FileInfo} {old content : Str} {c : Command}
    (hc : c ∈ entryCommands user path e old content) :
    c.intended.row = user ∧ ¬ crlf <:+ c.intended.col := by
  simp only [entryCommands, List.mem_cons, List.not_mem_nil, or_false] at hc
  rcases hc with rfl | rfl | rfl | rfl
  · exact ⟨rfl, contentCol_end path⟩
  · exact ⟨rfl, contentCol_end path⟩
  · exact ⟨rfl, nameCol_end e.id⟩
  · exact ⟨rfl, contentCol_end e.id⟩

/-- **Every write goes to a row of the user or the mailbox it is for.** -/
theorem sends_target {md5 : Str → Nat → Fin 256} {u : UserText} {o : Outgoing}
    (ho : o ∈ u.sends md5) : o.intended.row ∈ u.rows ∧ ¬ crlf <:+ o.intended.col := by
  cases u with
  | signIn user password =>
      obtain ⟨c, hc, rfl⟩ := List.mem_map.mp ho
      simp only [signInCommands, List.mem_cons, List.not_mem_nil, or_false] at hc
      rcases hc with rfl | rfl
      · exact ⟨List.mem_cons_self, passwordCol_end⟩
      · exact ⟨List.mem_cons_self, contentCol_end _⟩
  | signUp user password =>
      obtain ⟨c, hc, rfl⟩ := List.mem_map.mp ho
      simp only [resgisterCommands, List.mem_cons, List.not_mem_nil, or_false] at hc
      rcases hc with rfl | rfl | rfl | rfl | rfl | rfl
      · exact ⟨List.mem_cons_self, passwordCol_end⟩
      · exact ⟨List.mem_cons_self, passwordCol_end⟩
      · exact ⟨List.mem_cons_self, nameCol_end _⟩
      · exact ⟨List.mem_cons_self, contentCol_end _⟩
      · exact ⟨List.mem_cons_self, nameCol_end _⟩
      · exact ⟨List.mem_cons_self, contentCol_end _⟩
  | upload user path e old content =>
      obtain ⟨c, hc, rfl⟩ := List.mem_map.mp ho
      obtain ⟨hrow, hcol⟩ := entryCommands_target hc
      exact ⟨List.mem_singleton.mpr hrow, hcol⟩
  | createFolder user path e old =>
      obtain ⟨c, hc, rfl⟩ := List.mem_map.mp ho
      obtain ⟨hrow, hcol⟩ := entryCommands_target hc
      exact ⟨List.mem_singleton.mpr hrow, hcol⟩
  | rename user path fileID isFile oldName newName old =>
      obtain ⟨c, hc, rfl⟩ := List.mem_map.mp ho
      rcases List.mem_append.mp hc with hc | hc
      · rcases List.mem_cons.mp hc with rfl | hc
        · exact ⟨List.mem_cons_self, contentCol_end path⟩
        · obtain ⟨new, -, rfl⟩ := List.mem_map.mp hc
          exact ⟨List.mem_cons_self, contentCol_end path⟩
      · rw [List.mem_singleton.mp hc]
        exact ⟨List.mem_cons_self, nameCol_end fileID⟩
  | message sender rcpts data time response =>
      obtain ⟨title, -, ho⟩ := List.mem_flatMap.mp ho
      obtain ⟨m, hm, rfl⟩ := List.mem_map.mp ho
      rcases List.mem_append.mp hm with hm | hm
      · obtain ⟨hrow, hcol⟩ := mailCommands_target hm
        exact ⟨hrow ▸ List.mem_cons_self, hcol⟩
      · obtain ⟨rcpt, hrcpt, hm⟩ := List.mem_flatMap.mp hm
        obtain ⟨hrow, hcol⟩ := mailCommands_target hm
        exact ⟨hrow ▸ List.mem_cons_of_mem _ (List.mem_map_of_mem (List.mem_of_mem_filter hrcpt)),
          hcol⟩

/--
**What is decoded of a user's text.** However the bytes of a write are cut into
reads, the worker makes of them the one request that is meant, on a row of the
user or mailbox, exactly when its fields keep to the framing and the reads suit it.
-/
theorem decoded_iff (md5 : Str → Nat → Fin 256) (u : UserText) {o : Outgoing} (ho : o ∈ u.sends md5)
    {reads : List Str} (hcat : reads.flatten = o.bytes) (hne : ∀ r ∈ reads, r ≠ []) :
    (o.intended.row ∈ u.rows ∧ Serves true (Worker.fresh reads) [.call o.intended.call]) ↔
      o.intended.WF ∧ '\x00' ∉ o.bytes ∧ Cut o.intended reads := by
  obtain ⟨hrow, hcol⟩ := sends_target ho
  rw [o.bytes_eq] at hcat ⊢
  rw [← requestServed_iff o.intended hcol hcat hne]
  exact and_iff_right hrow

/-- The `CPUT` of a sign-up, in the three writes of `send_cput_command`. -/
def signUpReads : List Str :=
  ["CPUT <bob> <password>\r\n".toList, "OLD\r\nNULL\r\n.\r\n".toList,
   "NEW\r\nsecret\r\n.\r\n".toList]

/-- The reads end where the command line and each of the two bodies end. -/
theorem signUp_cut :
    Cut (.cput "bob".toList passwordCol "NULL".toList "secret".toList) signUpReads := by
  have hold : Fetched [] (signUpReads.drop 1) "OLD\r\nNULL\r\n.\r\n".toList (signUpReads.drop 2) :=
    ⟨by decide +kernel, Or.inr ⟨by decide, signUpReads.extract 1 2, rfl, by decide +kernel, rfl⟩⟩
  have hnew : Fetched "\r\n".toList (signUpReads.drop 2) "\r\nNEW\r\nsecret\r\n.\r\n".toList [] :=
    ⟨by decide +kernel, Or.inr ⟨by decide, signUpReads.drop 2, rfl, by decide +kernel, by decide⟩⟩
  have hi : Lib.firstIdx dotLine "OLD\r\nNULL\r\n.\r\n".toList = some 9 := by decide +kernel
  have hj : Lib.firstIdx dotLine "\r\nNEW\r\nsecret\r\n.\r\n".toList = some 13 := by decide +kernel
  exact ⟨signUpReads.take 1, signUpReads.drop 1, [], rfl, by decide +kernel, by decide +kernel,
    _, _, 9, hold, hi, _, _, 13, hnew, hj, rfl⟩

theorem signUpReads_flatten : signUpReads.flatten =
    (Outgoing.storage (.cput "bob".toList passwordCol "NULL".toList "secret".toList)).bytes := by
  decide +kernel

theorem signUp_decoded :
    (.storage (.cput "bob".toList passwordCol "NULL".toList "secret".toList)) ∈
      (UserText.signUp "bob".toList "secret".toList).sends (fun _ _ => 0) ∧
    Serves true (Worker.fresh signUpReads)
      [.call (.cput "bob".toList passwordCol "NULL\r\n".toList "secret\r\n".toList)] := by
  have hmem : (.storage (.cput "bob".toList passwordCol "NULL".toList "secret".toList)) ∈
      (UserText.signUp "bob".toList "secret".toList).sends (fun _ _ => 0) :=
    List.mem_map_of_mem (List.mem_cons_of_mem _ List.mem_cons_self)
  refine ⟨hmem, ((decoded_iff _ _ hmem signUpReads_flatten (by decide +kernel)).mpr
    ⟨by decide +kernel, by decide +kernel, signUp_cut⟩).2⟩

/-- A message text with a dot line in it, behind that a byte to be dropped, and a command. -/
def smuggledText : Str := "Subject: x\r\n.\r\n_DELETE <amy> <password>\r\n".toList

/-- Its digest. -/
def smuggledDigest (_ : Str) (i : Nat) : Fin 256 :=
  ([58, 247, 158, 164, 205, 20, 89, 177, 143, 147, 87, 145, 44, 101, 3, 214] : List UInt8).getD i 0
    |>.toFin

/-- A session in which the text arrives in one read. -/
def smugglingSession : List Str :=
  ["HELO x\r\n".toList, "MAIL FROM:<eve@localhost>\r\n".toList,
    "RCPT TO:<bob@localhost>\r\n".toList,
   "DATA\r\n".toList, smuggledText, ".\r\n".toList]

/-- The mail that is then stored for the recipient. -/
def smuggledMail : Outgoing :=
  .mail (.putMail "bob".toList .inbox (hashMD5 smuggledDigest smuggledText)
    (inboxHeader "eve@localhost".toList "bob@localhost".toList "x".toList "Mon".toList ++ crlf)
    smuggledText)

/-- The worker behind the one read that it gets, and what is behind the first dot line of it. -/
def smuggledWorker (w : StringStream) : Worker := { w := w, task := [] }

def smuggledRest : Str := "DELETE <amy> <password>\r\n.\r\n".toList

/-- **A mail deletes a third user's password**: the worker decodes two requests from its bytes. -/
theorem smuggled_delete : ∃ t data, Session.readAll {} smugglingSession = some t ∧
    .mail "eve@localhost".toList ["bob@localhost".toList] smuggledText ∈ t.handled ∧
    smuggledMail ∈ (UserText.message "eve@localhost".toList ["bob@localhost".toList] smuggledText
      "Mon".toList listMark).sends smuggledDigest ∧
    Serves true (Worker.fresh [smuggledMail.bytes])
      [.call (.put "bob".toList smuggledMail.intended.col data),
       .call (.delete "amy".toList passwordCol), .unsupported] ∧
    ¬ Serves true (Worker.fresh [smuggledMail.bytes]) [.call smuggledMail.intended.call] := by
  have hrun : (Session.readAll {} smugglingSession).map (·.handled.contains
      (.mail "eve@localhost".toList ["bob@localhost".toList] smuggledText)) = some true := by
    decide +kernel
  obtain ⟨t, ht, hmail⟩ := Option.map_eq_some_iff.mp hrun
  have htitle : mailTitle smuggledText = some "x".toList := by decide +kernel
  have hmem : smuggledMail ∈ (UserText.message "eve@localhost".toList ["bob@localhost".toList]
      smuggledText "Mon".toList listMark).sends smuggledDigest := by
    rw [UserText.sends, htitle]
    refine List.mem_flatMap.mpr ⟨_, List.mem_singleton.mpr rfl, List.mem_map_of_mem ?_⟩
    refine List.mem_append_right _ (List.mem_flatMap.mpr ⟨"bob@localhost".toList, by decide, ?_⟩)
    have huser : userOf "bob@localhost".toList = "bob".toList := by decide
    rw [huser]
    simp [mailCommands]
  have hread : (Worker.fresh [smuggledMail.bytes]).step true
      = .ok (none, smuggledWorker ⟨smuggledMail.bytes, smuggledMail.bytes.length⟩) := by
        decide +kernel
  have hput : (smuggledWorker ⟨smuggledMail.bytes, smuggledMail.bytes.length⟩).step true
      = .ok (some (.call (.put "bob".toList smuggledMail.intended.col
          (inboxHeader "eve@localhost".toList "bob@localhost".toList "x".toList "Mon".toList ++ crlf
            ++ "Subject: x\r\n".toList))),
            smuggledWorker (.setStr smuggledRest)) := by decide +kernel
  have hdelete : (smuggledWorker (.setStr smuggledRest)).step true
      = .ok (some (.call (.delete "amy".toList passwordCol)),
          smuggledWorker (.setStr ".\r\n".toList)) := by decide +kernel
  have hdot : (smuggledWorker (.setStr ".\r\n".toList)).step true
      = .ok (some .unsupported, smuggledWorker (.setStr [])) := by decide +kernel
  have hwaits : (smuggledWorker (.setStr [])).step true = .error .blocked := by decide +kernel
  have hserves := Serves.reads hread (.serves hput (.serves hdelete (.serves hdot (.waits hwaits))))
  refine ⟨t, _, ht, List.contains_iff_mem.mp hmail, hmem, hserves, fun h => ?_⟩
  exact absurd (congrArg List.length (hserves.unique h)) (by decide)

end PennCloud
