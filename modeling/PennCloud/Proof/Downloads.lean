import PennCloud.Proof.Names
import PennCloud.Storage.FileHandler

/-!
# A user's files

What the cells of a user's files are for: a map from ids to contents. An upload
puts a content, a deletion takes it away, and nothing else that a session does, be
it a renaming, a move or a new folder, changes one. `UserFiles` runs this map
beside the session. The file of an entry that is shown is then downloaded as it
was uploaded, whatever its name and wherever it has been moved to since.

A file without content has the cell of an empty folder, and is not in the map.
-/

namespace PennCloud

open Str

/-- The bytes of a file that is not empty. -/
def Content.bytes? : Content → Option Str
  | folder _ => none
  | file content => some content

/-- The file with the id. -/
def Tree.fileAt (A : Tree) (id : Str) : Option Str := (A.contents id).bind Content.bytes?

namespace Storage

/-- What a call that returns true does to a user's files. -/
def keeps (s : Storage) (m : Str → Option Str) : SessionCall → Str → Option Str
  | .upload _ content now _ => Function.update m now.id ((Content.ofFile content).bytes?)
  | .delete filename => (s.filesInPath.lookup filename).elim m fun f => Function.update m f.id none
  | .createFolder _ _ _ | .rename _ _ | .move _ _ | .openFolder _ | .goBack _ | .refresh => m

end Storage

/-- A session, and the files of its user. -/
structure UserFiles where
  storage : Storage
  files : Str → Option Str := fun _ => none

namespace UserFiles

/-- A call of the session, and what it does to the files. -/
def step (row : Str) (fuel : Nat) (s : UserFiles) (call : SessionCall) : Option UserFiles :=
  (s.storage.call row fuel call).map fun r =>
    ⟨r.1, if r.2 then s.storage.keeps s.files call else s.files⟩

/-- **The cells are those of the files.** -/
structure Kept (row : Str) (s : UserFiles) : Prop where
  cell : ∀ id content, s.files id = some content →
    s.storage.dir.cell row id = some (convertBinaryToStr content ++ crlf)
  /-- Every other cell is a listing, or absent. -/
  listing : ∀ id, s.files id = none → s.storage.dir.HoldsListing row id
  /-- What is shown is downloaded as it was uploaded. -/
  download : ∀ garbage filename f bytes, s.storage.filesInPath.lookup filename = some f →
    s.files f.id = some (asText bytes) → bytes.length < 2 ^ 30 →
    s.storage.downloadFile row garbage filename = some (s.storage, some (.ok (asText bytes)))

end UserFiles

/-! ## What a call does to the files -/

section Files

variable {row : Str} {fuel : Nat} {A B : Tree} {s t : Storage} {f g : Str} {es : List FileInfo}
  {c : Content} {e : FileInfo} {content : Str}

theorem Tree.fileAt_of_contents (h : A.contents f = some c) : A.fileAt f = c.bytes? := by
  rw [fileAt, h]
  rfl

theorem Tree.fileAt_none (h : A.contents f = none) : A.fileAt f = none := by
  rw [fileAt, h]
  rfl

theorem Tree.fileAt_eq_some : A.fileAt f = some content ↔ A.contents f = some (.file content) := by
  rw [fileAt]
  constructor
  · intro h
    obtain ⟨c, hc, hbytes⟩ := Option.bind_eq_some_iff.mp h
    cases c with
    | folder es => cases hbytes
    | file content' => rw [hc, Option.some.inj hbytes]
  · intro h
    rw [h]
    rfl

theorem Tree.fileAt_setContent :
    (A.setContent f c).fileAt g = if g = f then c.bytes? else A.fileAt g := by
  rw [fileAt, contents_setContent]
  split
  · rfl
  · rfl

/-- A folder that is written anew is no file, as before. -/
theorem Tree.fileAt_setFolder (h : A.contents f = some (.folder es)) (es' : List FileInfo) :
    (A.setFolder f es').fileAt = A.fileAt := by
  funext g
  rw [setFolder, fileAt_setContent]
  split
  · rename_i hg
    rw [hg, fileAt_of_contents h]
    rfl
  · rfl

theorem Tree.fileAt_added (h : A.contents f = some (.folder es)) :
    (A.added f es e c).fileAt = Function.update A.fileAt e.id c.bytes? := by
  funext g
  rw [added, fileAt_setContent, Function.update_apply]
  split
  · rfl
  · exact congrFun (fileAt_setFolder h _) g

theorem Tree.fileAt_drop : (A.drop f).fileAt = Function.update A.fileAt f none := by
  funext g
  rw [fileAt, contents_drop, Function.update_apply]
  split
  · rfl
  · rfl

/-- A deletion that returns true has deleted the content. -/
theorem Storage.deleteFile_cell (hs : s.Sane row A) {filename : Str}
    (h : s.deleteFile row fuel filename = some (t, true))
    (hf : s.filesInPath.lookup filename = some e) :
    t.dir.cell row e.id = none := by
  obtain ⟨folder, hfolder, h⟩ := Option.bind_eq_some_iff.mp h
  obtain ⟨f, hf', h⟩ := Option.bind_eq_some_iff.mp h
  obtain rfl : f = e := Option.some.inj (hf'.symm.trans hf)
  obtain ⟨⟨d, q⟩, hfinish, he⟩ := Option.map_eq_some_iff.mp h
  obtain ⟨rfl, hresult⟩ := Prod.mk.inj he
  obtain ⟨-, -, es, hc, -⟩ := hs.lookup hf
  rw [← here_eq hfolder] at hfinish
  rcases finish_delete hs.shows hc hfinish with ⟨hfalse, -⟩ | ⟨-, -, hshows⟩
  · cases hfalse.symm.trans hresult
  · rw [hshows.cell, Tree.contents_drop, if_pos rfl]
    rfl

/-- An upload that returns true has put the content. -/
theorem Storage.uploadFile_put {name : Str} {now created : Clock}
    (h : s.uploadFile row fuel name content now created = some (t, true)) :
    t.dir.cell row now.id ≠ none := by
  obtain ⟨folder, -, h⟩ := Option.bind_eq_some_iff.mp h
  obtain ⟨⟨d, q⟩, hfinish, he⟩ := Option.map_eq_some_iff.mp h
  obtain ⟨rfl, hresult⟩ := Prod.mk.inj he
  have hcell := finish_content (Or.inl (.start (u := ⟨folder.id,
      ⟨now.id, name, true, created.time, contentSize content.length⟩,
      convertBinaryToStr content⟩))) (fun he => by cases he) hfinish hresult
  rw [hcell]
  exact Option.some_ne_none _

/-- **The files after a call.** -/
theorem Storage.fileAt_did {call : SessionCall} {ok : Bool} (hs : s.Sane row A)
    (hfit : Fits row s call)
    (h : s.call row fuel call = some (t, ok)) (ht : t.dir.Shows row B)
    (hdid : Did s t A call ok B) :
    B.fileAt = if ok then s.keeps A.fileAt call else A.fileAt := by
  have habsent : ∀ {now : Clock}, now.id ∉ s.generated → A.contents now.id = none := fun hnew =>
    (hs.forest.absent (Clock.id_ne_storage _) hnew).1
  cases hdid with
  | kept hpath hmap => rfl
  | uploaded hc hname hpath hmap => exact Tree.fileAt_added hc
  | created hc hname hpath hmap =>
      obtain ⟨-, hnew, -⟩ := hfit
      exact (Tree.fileAt_added hc).trans
        (Function.update_eq_self_iff.mpr (Tree.fileAt_none (habsent hnew)).symm)
  | renamed hf hc hpath hmap => exact Tree.fileAt_setFolder hc _
  | deleted hf hc hid hpath hmap =>
      rw [Tree.fileAt_drop, Tree.taken, Tree.fileAt_setFolder hc, if_pos rfl, keeps, hf]
      rfl
  | moved hg hf hc hid htarget hname hpath hmap =>
      exact (Tree.fileAt_setFolder htarget _).trans (Tree.fileAt_setFolder hc _)
  | restored hf hc hid hname hpath hmap =>
      exact (Tree.fileAt_setFolder (Tree.contents_taken ..) _).trans (Tree.fileAt_setFolder hc _)
  | lost hf hc hname hpath hmap => exact Tree.fileAt_setFolder hc _
  | opened hf hc hpath hmap => rfl
  | shown hpath hne hc hmap =>
      -- only `goBack` and `refresh_upload` leave the tree as it is
      cases call with
      | upload name content now created =>
          refine absurd ?_ (uploadFile_put h)
          rw [ht.cell, habsent hfit.2.1]
          rfl
      | delete filename =>
          obtain ⟨folder, -, h'⟩ := Option.bind_eq_some_iff.mp h
          obtain ⟨f, hf, -⟩ := Option.bind_eq_some_iff.mp h'
          rw [if_pos rfl, keeps, hf]
          refine (Function.update_eq_self_iff.mpr ?_).symm
          have hcell := deleteFile_cell hs h hf
          rw [ht.cell, Option.map_eq_none_iff] at hcell
          exact (Tree.fileAt_none hcell).symm
      | createFolder | rename | move | openFolder | goBack | refresh => rfl

/-- **The files are in their cells**, and are downloaded from there. -/
theorem UserFiles.kept_of_fileAt {w : UserFiles} (hs : w.storage.Sane row A)
    (hfiles : w.files = A.fileAt) :
    w.Kept row := by
  have hcell : ∀ id content, w.files id = some content →
      w.storage.dir.cell row id = some (convertBinaryToStr content ++ crlf) := by
    intro id content h
    rw [hfiles, Tree.fileAt_eq_some] at h
    rw [hs.shows.cell, h]
    rfl
  refine ⟨hcell, fun id h => ?_, fun garbage filename f bytes hf h hlen => ?_⟩
  · rw [Dir.HoldsListing, hs.shows.text_eq]
    cases hc : A.contents id with
    | none => exact Or.inl rfl
    | some c =>
        cases c with
        | folder es =>
            cases es using List.reverseRecOn with
            | nil => exact Or.inl rfl
            | append_singleton es e =>
                refine Or.inr ?_
                show (listingText (es ++ [e])).getLast? = _
                rw [listingText_concat, FileInfo.line, ← List.append_assoc, List.getLast?_concat]
        | file content =>
            rw [hfiles, Tree.fileAt_of_contents hc] at h
            cases h
  · have hne : bytes ≠ [] := by
      rintro rfl
      rw [hfiles, Tree.fileAt_eq_some] at h
      exact hs.shows.clean _ _ h rfl
    refine downloadFile_hexText hne hlen hf ?_
    rw [hcell _ _ h, convertBinaryToStr_asText]

end Files

/-! ## Runs of a session -/

section Sessions

variable {row password : Str} {fuel : Nat} {d : Dir} {s : Storage} {t : UserFiles}
  {calls : List SessionCall}

/--
**A file is downloaded as it was uploaded**, in every state that a freshly
registered user's session comes to by calls with arguments that fit.
-/
theorem downloads_kept (hfresh : ∀ f, d.cell row f = none)
    (hregistered : (Storage.connect d).resgister row password = some (s, true))
    (hguarded : Lib.Guarded (UserFiles.step row fuel)
      (fun s call => s.storage.Fits row call ∧ s.storage.Unmistaken row call) ⟨s,
        fun _ => none⟩ calls)
    (hrun : Lib.run (UserFiles.step row fuel) ⟨s, fun _ => none⟩ calls = some t) : t.Kept row := by
  obtain ⟨A, hs, hcontents, -, -⟩ := Storage.resgister_sane hfresh hregistered
  have hnone : (fun _ => none) = A.fileAt := by
    funext f
    rw [Tree.fileAt, hcontents]
    split <;> rfl
  have hstep : ∀ (s : UserFiles) call t, (∃ A, s.storage.Sane row A ∧ s.files = A.fileAt) →
      s.storage.Fits row call ∧ s.storage.Unmistaken row call → s.step row fuel call = some t →
        ∃ B, t.storage.Sane row B ∧ t.files = B.fileAt := by
    rintro s call t ⟨A, hs, hfiles⟩ ⟨hfit, hmistake⟩ ht
    obtain ⟨⟨u, ok⟩, hcall, he⟩ := Option.map_eq_some_iff.mp ht
    cases he
    obtain ⟨B, hu, hdid⟩ := Storage.sane_call hs hfit (Or.inr hmistake) hcall
    refine ⟨B, hu, ?_⟩
    rw [Storage.fileAt_did hs hfit hcall hu.shows hdid, ← hfiles]
  obtain ⟨B, ht, hfiles⟩ := Lib.inv_of_guarded hstep ⟨A, hs, hnone⟩ hguarded hrun
  exact UserFiles.kept_of_fileAt ht hfiles

end Sessions

/-- Two files are uploaded; one is renamed and moved, and the other deleted. -/
def movedSession : List SessionCall :=
  [.createFolder ['f'] (clockAt 1) (clockAt 1),
    .upload ['a'] (asText [0, 255]) (clockAt 2) (clockAt 2),
   .upload ['b'] (asText [7]) (clockAt 3) (clockAt 3), .rename ['a'] ['c'], .refresh,
   .move ['f'] ['c'], .delete ['b'], .openFolder ['f']]

theorem movedSession_kept : ∃ s t,
    (Storage.connect emptyDir).resgister ['u'] ['p'] = some (s, true) ∧
      Lib.run (UserFiles.step ['u'] 6) ⟨s, fun _ => none⟩ movedSession = some t ∧ t.Kept ['u'] ∧
      t.storage.downloadFile ['u'] (fun _ => 0)
        ['c'] = some (t.storage, some (.ok (asText [0, 255]))) := by
  have hrun : ((Storage.connect emptyDir).resgister ['u'] ['p']).map (fun r => (r.2,
      decide (Lib.Guarded (UserFiles.step ['u'] 6)
        (fun s call => s.storage.Fits ['u'] call ∧ s.storage.Unmistaken ['u'] call)
        ⟨r.1, fun _ => none⟩ movedSession),
      (Lib.run (UserFiles.step ['u'] 6) ⟨r.1, fun _ => none⟩ movedSession).bind fun t =>
        (t.storage.filesInPath.lookup ['c']).bind fun f => t.files f.id))
      = some (true, true, some (asText [0, 255])) := by
    decide +kernel
  obtain ⟨⟨s, ok⟩, hregistered, he⟩ := Option.map_eq_some_iff.mp hrun
  obtain ⟨rfl, hguarded, hfile⟩ : ok = true ∧ _ ∧ _ := by
    simpa only [Prod.mk.injEq, decide_eq_true_eq] using he
  obtain ⟨t, ht, hfile⟩ := Option.bind_eq_some_iff.mp hfile
  obtain ⟨f, hf, hbytes⟩ := Option.bind_eq_some_iff.mp hfile
  have hkept := downloads_kept (emptyDir_fresh ['u']) hregistered hguarded ht
  exact ⟨s, t, hregistered, ht, hkept, hkept.download _ _ f _ hf hbytes (by decide)⟩

end PennCloud
