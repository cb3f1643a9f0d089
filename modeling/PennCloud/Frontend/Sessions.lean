import PennCloud.Frontend.Routes
import Mathlib.Logic.Function.Basic

/-!
# The frontend's sessions

A frontend keeps for each user a `Storage` and the mails it has fetched, and in
`sessions` who is signed in. The user whose request it is handling is a global
variable, `username`. A sign-in or sign-up sets it, whether it succeeds or not,
and so does `is_logged_in` for a cookie that names a session; everything else goes
by what it finds there.

A `Storage` is what has been called on it so far. What the data servers, the mail
server and the `Storage` methods answer comes in with each request, and so does
whether they take the process down.
-/

namespace PennCloud

open Str

/-- A call of a method of `Storage`, with the arguments that the frontend passes. -/
inductive StorageCall
  | refreshUpload
  | downloadFile (userName filename : Str)
  | getAccessibleMovingPath (filename : Str)
  | moveFile (newPathname filename : Str)
  | goBack (index : Int)
  /-- In the folder that the `Storage` has open, as in the two below. -/
  | deleteFile (userName filename : Str)
  | openFolder (userName foldername : Str)
  | uploadFile (userName filename content size : Str)
  | createFolder (userName folderName : Str)
  | renameFile (userName oldName newName : Str)
  deriving DecidableEq

/-- The user named in the call. -/
def StorageCall.userName : StorageCall → Option Str
  | refreshUpload | getAccessibleMovingPath _ | moveFile _ _ | goBack _ => none
  | downloadFile u _ | deleteFile u _ | openFolder u _ | uploadFile u _ _ _ | createFolder u _
  | renameFile u _ _ => some u

/-- A `Storage`: the user it was made for, and the calls since then. -/
structure StorageObject where
  userName : Str
  calls : List StorageCall := []
  deriving DecidableEq

/-- What a handler reads or writes of a user's data, with the data read. -/
inductive Touch
  | storage (owner : Str) (object : StorageObject) (call : StorageCall)
  /-- `recvfrom_backend`; the mails are kept. -/
  | receive (owner : Str) (box : Box) (mails : List Email)
  | showMail (owner : Str) (box : Box) (mail : Email)
  /-- `update_backend`. -/
  | deleteMail (owner : Str) (box : Box) (hash : Str)
  /-- `sendto_smpt_server`, from the owner's address. -/
  | send (owner recipient content : Str)
  /-- The session and the `Storage` are dropped. -/
  | close (owner : Str)
  deriving DecidableEq

/-- The users whose data it is. -/
def Touch.users : Touch → List Str
  | storage owner object call => owner :: object.userName :: call.userName.toList
  | receive owner _ _ => [owner]
  | showMail owner _ _ => [owner]
  | deleteMail owner _ _ => [owner]
  | send owner _ _ => [owner]
  | close owner => [owner]

/-- What the other servers and the `Storage` methods answer while a request is handled. -/
structure Answer where
  /-- What `sign_in`, `resgister` or `rename_file` returns. -/
  accepted : Bool := true
  mails : Box → List Email := fun _ => []
  /-- A function that the handler calls takes the process down: a `Storage` method follows a null
  pointer, finds `path` empty or returns null, a mail or a reply cannot be taken apart, an
  administrator's number is in no list. -/
  fails : Bool := false

/-- `r`, unless a function called before has taken the process down. -/
def Answer.survived {α : Type} (a : Answer) (r : Option α) : Option α := if a.fails then none else r

theorem survived_eq_some {α : Type} {a : Answer} {o : Option α} {r : α} :
    a.survived o = some r ↔ a.fails = false ∧ o = some r := by
  unfold Answer.survived
  cases a.fails <;> simp

@[simp] theorem isSome_survived {α : Type} {a : Answer} {o : Option α} :
    (a.survived o).isSome = true ↔ a.fails = false ∧ o.isSome = true := by
  unfold Answer.survived
  cases a.fails <;> simp

/-- A request that has been handled. -/
structure HandledRequest where
  /-- The user named by the cookie, if there is a session. -/
  user : Option Str
  /-- The user on whose behalf it was handled. -/
  actor : Option Str
  touches : List Touch
  deriving DecidableEq

structure Frontend where
  sessions : Str → Bool := fun _ => false
  username : Str := []
  storages : Str → Option StorageObject := fun _ => none
  mails : Box → Str → List Email := fun _ _ => []
  log : List HandledRequest := []

/-- The user whom the cookie names and `sessions` knows. -/
def HttpRequest.sessionUser (q : HttpRequest) (s : Frontend) : Option Str :=
  q.cookie.filter s.sessions

/-- On whose behalf a request is handled: a sign-in that is no log-in yet, and any sign-up, on that
of the user named in the body. -/
def HttpRequest.actor (q : HttpRequest) (s : Frontend) : Option Str :=
  match q.route with
  | .signIn c => (q.sessionUser s).or (c.map Prod.fst)
  | .signUp c => c.map Prod.fst
  | _ => q.cookie

namespace Frontend

/-- `is_logged_in`, which sets the global user. -/
def isLoggedIn (q : HttpRequest) (s : Frontend) : Bool × Frontend :=
  match q.sessionUser s with
  | some u => (true, { s with username := u })
  | none => (false, s)

/-- A call on `all_storages[username]`; a null pointer there ends the process, as one in the method
does. -/
def call (a : Answer) (c : StorageCall) (s : Frontend) : Option (Frontend × List Touch) :=
  (a.survived (s.storages s.username)).map fun object =>
    let called := { object with calls := object.calls ++ [c] }
    ({ s with storages := Function.update s.storages s.username (some called) },
      [.storage s.username object c])

/-- Calls one after the other. -/
def calls (a : Answer) : List StorageCall → Frontend → Option (Frontend × List Touch)
  | [], s => some (s, [])
  | c :: cs, s =>
    (s.call a c).bind fun r => (calls a cs r.1).map fun r' => (r'.1, r.2 ++ r'.2)

/-- What a handler without `is_logged_in` does. -/
def perform (a : Answer) (s : Frontend) : Action → Option (Frontend × List Touch)
  | .download filename => s.calls a [.downloadFile s.username filename]
  | .movingPath filename => s.calls a [.getAccessibleMovingPath filename]
  | .moveFile folder filename => s.calls a [.moveFile folder filename]
  | .goBack index => s.calls a [.goBack index]
  | .delete filename => s.calls a [.deleteFile s.username filename]
  | .openFolder foldername => s.calls a [.openFolder s.username foldername]
  | .showMail box id =>
    -- `at(id)` throws where there is no such mail
    (a.survived (if 0 ≤ id then (s.mails box s.username)[id.toNat]? else none)).map fun mail =>
      (s, [.showMail s.username box mail])
  | .deleteMail box hash => a.survived (some (s, [.deleteMail s.username box hash]))
  | .upload filename content size =>
    s.calls a [.uploadFile s.username filename content size, .refreshUpload]
  | .createFolder foldername => s.calls a [.createFolder s.username foldername, .refreshUpload]
  | .rename prename newname =>
    s.calls a
      (.renameFile s.username prename newname :: if a.accepted then [.refreshUpload] else [])
  | .sendEmail recipient content => a.survived (some (s, [.send s.username recipient content]))
  | .logout =>
    some ({ s with
        sessions := Function.update s.sessions s.username false
        storages := Function.update s.storages s.username none }, [.close s.username])

/-- The end of a sign-in or sign-up: `insert` leaves a `Storage` that is there. -/
def enter (a : Answer) (user : Str) (s : Frontend) : Frontend :=
  if a.accepted then
    { s with
      username := user
      sessions := Function.update s.sessions user true
      storages := Function.update s.storages user
        (some ((s.storages user).getD { userName := user })) }
  else { s with username := user }

/-- `handle_get` and `handle_post`; `none` where the process dies. -/
def handle (q : HttpRequest) (a : Answer) (s : Frontend) : Option (Frontend × List Touch) :=
  match q.route with
  | .plain => a.survived (some (s, []))
  | .page => some ((s.isLoggedIn q).2, [])
  | .files =>
    if (s.isLoggedIn q).1 then (s.isLoggedIn q).2.call a .refreshUpload
    else some ((s.isLoggedIn q).2, [])
  | .email =>
    if (s.isLoggedIn q).1 then
      let s := (s.isLoggedIn q).2
      a.survived (some (
        { s with mails := fun box => Function.update (s.mails box) s.username (a.mails box) },
        [.receive s.username .inbox (a.mails .inbox),
          .receive s.username .outbox (a.mails .outbox)]))
    else some ((s.isLoggedIn q).2, [])
  | .signIn credentials =>
    if (s.isLoggedIn q).1 then some ((s.isLoggedIn q).2, [])
    else a.survived (credentials.map fun c => (s.enter a c.1, []))
  | .signUp credentials => a.survived (credentials.map fun c => (s.enter a c.1, []))
  | .unchecked action => action.bind (s.perform a)
  | .kill => none

/-- A request with the answers it meets. -/
structure Event where
  request : HttpRequest
  answer : Answer := {}

/-- The next request. -/
def step (s : Frontend) (e : Event) : Option Frontend :=
  (s.handle e.request e.answer).map fun r =>
    { r.1 with log := s.log ++
        [{ user := e.request.sessionUser s, actor := e.request.actor s, touches := r.2 }] }

end Frontend

end PennCloud
