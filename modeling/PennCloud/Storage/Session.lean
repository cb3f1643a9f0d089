import PennCloud.Frontend.Routes
import PennCloud.Storage.Directory
import Mathlib.Data.List.AList

/-!
# One session's `Storage`

What the frontend calls for a signed-in user: the folder that is open (`path`),
its entries by name (`files_in_path`), and the calls that change folders. They run
here one at a time. A call sends the requests of `Dir.next` one after the other
until it returns; around that, `files_in_path` answers for the names, and is
filled anew, or changed in one place, or left as it is.

`path` is kept with the open folder first.
-/

namespace PennCloud

open Str

/-! ## Ids, times and contents -/

/-- `printf("%0*ld", width, n)`. -/
def padded (width n : Nat) : Str :=
  List.replicate (width - (decimal n).length) '0' ++ decimal n

/-- A reading of `gettimeofday`, as `localtime` has it. -/
structure Clock where
  year : Nat
  month : Nat
  day : Nat
  hour : Nat
  min : Nat
  sec : Nat
  msec : Nat
  deriving DecidableEq, Repr

/-- `getTime_as_ID`. -/
def Clock.id (c : Clock) : Str :=
  padded 4 c.year ++ ':' :: padded 2 c.month ++ ':' :: padded 2 c.day ++ ':' :: padded 2 c.hour
    ++ ':' :: padded 2 c.min ++ ':' :: padded 2 c.sec ++ '.' :: padded 6 c.msec

/-- `create_time`. -/
def Clock.time (c : Clock) : Str :=
  padded 4 c.year ++ '-' :: padded 2 c.month ++ '-' :: padded 2 c.day ++ ' ' :: padded 2 c.hour
    ++ ':' :: padded 2 c.min ++ ':' :: padded 2 c.sec

/-- `convert_binary_to_str`: two hexadecimal digits for a byte. -/
def convertBinaryToStr (content : Str) : Str :=
  content.flatMap fun c => [Nat.digitChar (c.toNat % 256 / 16), Nat.digitChar (c.toNat % 16)]

/-! ## The map of names -/

/-- `files_in_path`. -/
abbrev NameMap := AList fun _ : Str => FileInfo

namespace NameMap

/-- `insert(make_pair(name, f))`: a name that is there keeps its entry. -/
def insertNew (m : NameMap) (name : Str) (f : FileInfo) : NameMap :=
  if name ∈ m then m else m.insert name f

/-- The loop of `open_folder` and `refresh_upload`, into a cleared map. -/
def fill (files : List FileInfo) : NameMap := files.foldl (fun m f => insertNew m f.name f) ∅

/-- The ids of the entries. -/
def ids (m : NameMap) : List Str := m.entries.map fun e => e.2.id

end NameMap

/-! ## Calls -/

/-- The end of a call; a move stops before its last request, which fills `files_in_path`. -/
def DirPc.ended : DirPc → Bool
  | .done _ _ | .refresh _ => true
  | _ => false

/-- The requests of a call that runs alone. -/
def Dir.finish (row : Str) : Nat → Dir → DirPc → Option (Dir × DirPc)
  | 0, s, p => if p.ended then some (s, p) else none
  | n + 1, s, p =>
    if p.ended then some (s, p) else (s.next row p).bind fun r => finish row n r.1 r.2

/-- What a call that has come to its end returns. -/
def DirPc.result : DirPc → Bool
  | .done _ result => result
  | .refresh _ => true
  | _ => false

/-- `create_folder`, once it has the listing: it goes on as an upload without content. -/
def Upload.beginFolder (u : Upload) (content : Str) : Option DirPc :=
  if content = nullReply then some (.done (.upload u) false)
  else if content = [] then (Addition.upload u).check "-ERR".toList content
  else (existSameFileName u.file.name (parseContentFileNames content)).bind fun exist =>
    if exist then some (.done (.upload u) false)
    else (Addition.upload u).check "-ERR".toList content

/-- A `Storage`, and the data server it is connected to. -/
structure Storage where
  path : List FileInfo := []
  filesInPath : NameMap := ∅
  dir : Dir
  /-- What `getTime_as_ID` has returned so far. -/
  generated : List Str := []

/-- The id and the name of the outermost folder. -/
def storageFolder : Str := "storage".toList

/-- The calls, with what the clock says where it is asked. -/
inductive SessionCall
  | upload (name content : Str) (now created : Clock)
  | createFolder (name : Str) (now created : Clock)
  | rename (oldName newName : Str)
  | move (newPathname filename : Str)
  | delete (filename : Str)
  | openFolder (foldername : Str)
  | goBack (index : Int)
  /-- `refresh_upload`, as the pages call it. -/
  | refresh
  deriving DecidableEq, Repr

namespace Storage

/-- As the constructor leaves it. -/
def connect (dir : Dir) : Storage where
  filesInPath :=
    NameMap.insertNew ∅ storageFolder ⟨storageFolder, storageFolder, false, ['0'], ['0']⟩
  dir := dir

variable (row : Str) (fuel : Nat) (s : Storage)

/-- The files of a listing that has been got. -/
def files (content : Str) : Option (List FileInfo) :=
  (parseContentFileNames content).mapM parseStringToClass

/-- `refresh_upload`; with `false` for the null pointer. -/
def refreshUpload : Option (Storage × Bool) :=
  s.path.head?.bind fun folder => (s.dir.get row folder.id).bind fun r =>
    if r.1 = nullReply then some ({ s with dir := r.2 }, false)
    else (files r.1).map fun fs => ({ s with dir := r.2, filesInPath := NameMap.fill fs }, true)

/-- `open_folder`; with `false` for the null pointer. -/
def openFolder (foldername : Str) : Option (Storage × Bool) :=
  (s.filesInPath.lookup foldername).bind fun f => (s.dir.get row f.id).bind fun r =>
    if r.1 = nullReply then some ({ s with dir := r.2 }, false)
    else (files r.1).map fun fs => ({ s with
      dir := r.2
      path := ⟨f.id, foldername, false, f.time, f.size⟩ :: s.path
      filesInPath := NameMap.fill fs }, true)

/-- `goBack`: `index` is a position in the vector, from its front. -/
def goBack (index : Int) : Option (Storage × Bool) :=
  refreshUpload row { s with path := s.path.drop (s.path.length - (index + 1).toNat) }

/-- `upload_file`. -/
def uploadFile (name content : Str) (now created : Clock) : Option (Storage × Bool) :=
  s.path.head?.bind fun folder =>
    let file : FileInfo := ⟨now.id, name, true, created.time, contentSize content.length⟩
    let u : Upload := ⟨folder.id, file, convertBinaryToStr content⟩
    (s.dir.finish row fuel (.start (.upload u))).map fun r => ({ s with
      dir := r.1
      filesInPath := if r.2.result then s.filesInPath.insertNew name file else s.filesInPath
      generated := now.id :: s.generated }, r.2.result)

/-- `create_folder`. -/
def createFolder (name : Str) (now created : Clock) : Option (Storage × Bool) :=
  s.path.head?.bind fun folder =>
    let file : FileInfo := ⟨now.id, name, false, created.time, ['0']⟩
    let u : Upload := ⟨folder.id, file, []⟩
    (s.dir.get row folder.id).bind fun r => (u.beginFolder r.1).bind fun p =>
      (r.2.finish row fuel p).bind fun q =>
        let t := { s with dir := q.1, generated := now.id :: s.generated }
        if q.2.result then
          -- what `refresh_upload` returns is not looked at
          (refreshUpload row { t with filesInPath := s.filesInPath.insertNew name file }).map
            fun r => (r.1, true)
        else some (t, false)

/-- `rename_file`. -/
def renameFile (oldName newName : Str) : Option (Storage × Bool) :=
  match s.filesInPath.lookup oldName with
  | none => some (s, false)
  | some f => s.path.head?.bind fun folder =>
    (s.dir.finish row fuel (.start (.rename ⟨folder.id, f.id, f.isFile, oldName, newName⟩))).map
      fun r => ({ s with dir := r.1 }, r.2.result)

/-- `move_file`. -/
def moveFile (newPathname filename : Str) : Option (Storage × Bool) :=
  s.path.head?.bind fun folder => (s.filesInPath.lookup newPathname).bind fun new =>
    (s.filesInPath.lookup filename).bind fun f =>
      let m : Move := ⟨folder.id, new.id, { f with name := filename }⟩
      (s.dir.finish row fuel (.start (.move m))).bind fun r =>
        if r.2.result then (refreshUpload row { s with dir := r.1 }).map fun r => (r.1, true)
        else some ({ s with dir := r.1 }, false)

/-- `delete_file`, in the folder that is open. -/
def deleteFile (filename : Str) : Option (Storage × Bool) :=
  s.path.head?.bind fun folder => (s.filesInPath.lookup filename).bind fun f =>
    (s.dir.finish row fuel (.start (.delete ⟨folder.id, f.id⟩))).map fun r => ({ s with
      dir := r.1
      filesInPath := if r.2.result then s.filesInPath.erase filename
        else s.filesInPath }, r.2.result)

/-- One call and what it returns; `none` where it does not return, or through a null pointer. -/
def call : SessionCall → Option (Storage × Bool)
  | .upload name content now created => s.uploadFile row fuel name content now created
  | .createFolder name now created => s.createFolder row fuel name now created
  | .rename oldName newName => s.renameFile row fuel oldName newName
  | .move newPathname filename => s.moveFile row fuel newPathname filename
  | .delete filename => s.deleteFile row fuel filename
  | .openFolder foldername => s.openFolder row foldername
  | .goBack index => s.goBack row index
  | .refresh => s.refreshUpload row

/-- `resgister`, for a `Storage` that has just been made. -/
def resgister (password : Str) : Option (Storage × Bool) :=
  (s.dir.server.sendGet row "password".toList).bind fun r =>
    if r.1 = nullReply then
      (Dir.update (.cput row "password".toList "NULL".toList password)
        { s.dir with server := r.2 }).bind fun r =>
        if "-ERR".toList <:+: r.1 then some ({ s with dir := r.2 }, false)
        else (r.2.update (.put row (nameCol storageFolder) storageFolder)).bind fun r =>
          (r.2.update (.put row (contentCol storageFolder) [])).bind fun r =>
            (r.2.server.sendGet row (nameCol storageFolder)).bind fun g =>
              -- what `open_folder` returns is not looked at
              (openFolder row { s with dir := { r.2 with server := g.2 } } storageFolder).map
                fun r => (r.1, true)
    else some ({ s with dir := { s.dir with server := r.2 } }, false)

end Storage

end PennCloud
