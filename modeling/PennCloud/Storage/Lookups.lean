import PennCloud.Lib.Runs
import PennCloud.Storage.FileHandler
import PennCloud.Storage.Forest

/-!
# Entries that requests look up

`files_in_path[name]` makes an entry for a name that is not there, with a null
pointer in it, and all the operations but `rename_file` use what they get. The page
of files uses what `refresh_upload` returns, which is null when the folder that is
open has been deleted. Here any number of sessions of one user send requests, each
to its own `Storage` and all to one data server, and a session whose frontend has
used a null pointer is gone.

The pages of uploads, new folders and renamings are requests for the page behind
the call; those of the others are asked for by the browser.
-/

namespace PennCloud

open Str

/-- What a session is asked for. -/
inductive FileRequest
  | call (c : SessionCall)
  | download (filename : Str)
  /-- The page of files. -/
  | page
  deriving DecidableEq

/-- The names whose entries are used without a test. -/
def FileRequest.names : FileRequest → List Str
  | .call (.openFolder foldername) => [foldername]
  | .call (.delete filename) => [filename]
  | .call (.move newPathname filename) => [newPathname, filename]
  | .download filename => [filename]
  | _ => []

/-- What becomes of a request. -/
inductive Outcome
  /-- A null pointer has been used. -/
  | missing
  | done (s : Storage) (ok : Bool)

namespace Storage

variable (row : Str) (fuel : Nat) (garbage : Nat → Nat) (s : Storage)

/-- `sign_in`, for a `Storage` that has just been made. -/
def signIn (password : Str) : Option (Storage × Bool) :=
  (s.dir.server.sendGet row "password".toList).bind fun r =>
    let t := { s with dir := { s.dir with server := r.2 } }
    if r.1 = password then
      -- what `open_folder` returns is not looked at
      (openFolder row t storageFolder).map fun r => (r.1, true)
    else some (t, false)

/-- The entries are used, and then `k` is done. -/
def uses (names : List Str) (k : Option Outcome) : Option Outcome :=
  if ∀ name ∈ names, name ∈ s.filesInPath then k else some .missing

/-- A call's result. -/
def outcome (r : Storage × Bool) : Outcome := .done r.1 r.2

/-- One request; `none` where it does not return. -/
def handle : FileRequest → Option Outcome
  | .call (.openFolder foldername) =>
      s.uses [foldername] ((s.openFolder row foldername).map outcome)
  | .call (.delete filename) => s.path.head?.bind fun _ =>
    s.uses [filename] ((s.deleteFile row fuel filename).map outcome)
  | .call (.move newPathname filename) => s.path.head?.bind fun _ =>
    s.uses [newPathname, filename] ((s.moveFile row fuel newPathname filename).map outcome)
  | .call c => (s.call row fuel c).map outcome
  | .download filename => s.uses [filename] ((s.downloadFile row garbage filename).bind fun r =>
    match r.2 with
    | none => some (.done r.1 false)
    | some (.ok _) => some (.done r.1 true)
    | some (.error _) => none)
  | .page => (s.refreshUpload row).map fun r => if r.2 then .done r.1 true else .missing

end Storage

/-- The sessions of a user; nothing is left of one whose frontend has used a null pointer. -/
structure UserSessions where
  dir : Dir
  sessions : List (Option Storage) := []

/-- What the browsers of a user do. -/
inductive FileAction
  | signIn (password : Str)
  /-- A request of session `i`. -/
  | request (i : Nat) (r : FileRequest)
  deriving DecidableEq

namespace UserSessions

/-- Session `i`, with the data server as it is now. -/
def session (w : UserSessions) (i : Nat) : Option Storage :=
  (w.sessions[i]?.bind id).map fun s => { s with dir := w.dir }

/-- A sign-in, or a request of a session that is there. -/
def step (row : Str) (fuel : Nat) (garbage : Nat → Nat) (w : UserSessions) :
    FileAction → Option UserSessions
  | .signIn password => ((Storage.connect w.dir).signIn row password).map fun r =>
    { dir := r.1.dir, sessions := if r.2 then w.sessions ++ [some r.1] else w.sessions }
  | .request i r => (w.session i).bind fun s => (s.handle row fuel garbage r).map fun
    | .missing => { w with sessions := w.sessions.set i none }
    | .done t _ => { dir := t.dir, sessions := w.sessions.set i (some t) }

/-- No session has used a null pointer. -/
def AllThere (w : UserSessions) : Prop := none ∉ w.sessions

instance (w : UserSessions) : Decidable w.AllThere :=
  decidable_of_iff (∀ s ∈ w.sessions, s.isSome = true)
    ⟨fun h hnone => Bool.noConfusion (h none hnone), fun h s hs => by
      cases s with
      | none => exact absurd hs h
      | some s => rfl⟩

end UserSessions

/-- A `GET` of the listing is answered that there is none. -/
def Gone (row : Str) (d : Dir) (f : Str) : Prop := (d.get row f).map Prod.fst = some nullReply

instance (row : Str) (d : Dir) (f : Str) : Decidable (Gone row d f) :=
  inferInstanceAs (Decidable (_ = _))

/-- The entries of a request are there, and the listing of the folder that is to be shown. -/
structure Found (row : Str) (s : Storage) (r : FileRequest) : Prop where
  names : ∀ name ∈ r.names, name ∈ s.filesInPath
  folder : r = .page → ∀ folder ∈ s.path.head?, ¬ Gone row s.dir folder.id

instance (row : Str) (s : Storage) (r : FileRequest) : Decidable (Found row s r) :=
  decidable_of_iff ((∀ name ∈ r.names, name ∈ s.filesInPath) ∧
      (r = .page → ∀ folder ∈ s.path.head?, ¬ Gone row s.dir folder.id))
    ⟨fun h => ⟨h.1, h.2⟩, fun h => ⟨h.names, h.folder⟩⟩

/-- The request of an action is made where its entries are. -/
def UserSessions.Finds (row : Str) (w : UserSessions) : FileAction → Prop
  | .signIn _ => True
  | .request i r => ∀ s ∈ w.session i, Found row s r

instance (row : Str) (w : UserSessions) : DecidablePred (w.Finds row)
  | .signIn _ => .isTrue trivial
  | .request i r => inferInstanceAs (Decidable (∀ s ∈ w.session i, Found row s r))

/-! ## One request -/

variable {row : Str} {fuel : Nat} {garbage : Nat → Nat} {s t : Storage} {r : FileRequest}

/-- For a cell that is a listing, gone means absent. -/
theorem gone_iff {d : Dir} {f : Str} (hd : d.Listed row f) :
    Gone row d f ↔ d.cell row f = none := by
  constructor
  · intro h
    obtain ⟨⟨response, e⟩, hget, rfl⟩ := Option.map_eq_some_iff.mp h
    obtain ⟨-, ⟨hnone, -⟩ | ⟨hlist, -⟩⟩ := Dir.get_cases hd hget
    · exact hnone
    · exact absurd rfl hlist.ne_nullReply
  · intro h
    have hnone : d.server.table.at? row (contentCol f) = none := h
    have hreply := parseGET_null hnone
    have hround : readGetRound (cstr (d.server.parseGET row (contentCol f)).reply)
      = some nullReply := by
      rcases hreply with h | h
      · rw [h]
        decide
      · rw [h]
        decide
    have hsend : (d.server.sendGet row (contentCol f)).map Prod.fst = some nullReply := by
      show ((readGetRound (cstr (d.server.parseGET row (contentCol f)).reply)).bind _).map _ = _
      rw [hround, Option.bind_some, if_neg (show nullReply ≠ serverCrash by decide)]
      rfl
    rw [Gone, Dir.get, Option.map_map]
    exact hsend

theorem uses_missing_iff {names : List Str} {k : Option Outcome} {o : Outcome}
    (hk : ∀ o', k = some o' → o' ≠ .missing) (h : s.uses names k = some o) :
    o = .missing ↔ ¬ ∀ name ∈ names, name ∈ s.filesInPath := by
  rw [Storage.uses] at h
  split at h
  · rename_i hall
    exact iff_of_false (hk o h) (not_not_intro hall)
  · rename_i hnot
    exact iff_of_true (Option.some.inj h).symm hnot

theorem outcome_ne_missing {x : Option (Storage × Bool)} (o : Outcome)
    (h : x.map Storage.outcome = some o) : o ≠ .missing := by
  obtain ⟨r, -, rfl⟩ := Option.map_eq_some_iff.mp h
  exact fun he => by cases he

/-- `refresh_upload` returns null when there is no listing. -/
theorem refreshUpload_false_iff {ok : Bool} (h : s.refreshUpload row = some (t, ok)) :
    ok = false ↔ ∃ folder ∈ s.path.head?, Gone row s.dir folder.id := by
  obtain ⟨folder, hfolder, h⟩ := Option.bind_eq_some_iff.mp h
  obtain ⟨⟨response, d⟩, hget, h⟩ := Option.bind_eq_some_iff.mp h
  have hgone : Gone row s.dir folder.id ↔ response = nullReply := by
    rw [Gone, hget]
    exact ⟨Option.some.inj, congrArg some⟩
  have hex : (∃ folder ∈ s.path.head?, Gone row s.dir folder.id) ↔ response = nullReply := by
    rw [← hgone]
    simp only [hfolder, Option.mem_def, Option.some.injEq, exists_eq_left']
  rw [hex]
  split at h
  · rename_i hnull
    cases h
    exact iff_of_true rfl hnull
  · rename_i hnull
    obtain ⟨fs, -, he⟩ := Option.map_eq_some_iff.mp h
    cases he
    exact iff_of_false Bool.noConfusion hnull

/-- **A request uses a null pointer exactly when something of it is not found.** -/
theorem handle_missing_iff {o : Outcome} (h : s.handle row fuel garbage r = some o) :
    o = .missing ↔ ¬ Found row s r := by
  have hnames : (r = .page → False) → (Found row s r ↔ ∀ name ∈ r.names, name ∈ s.filesInPath) :=
    fun hr => ⟨Found.names, fun hn => ⟨hn, fun he => (hr he).elim⟩⟩
  cases r with
  | page =>
      obtain ⟨⟨u, ok⟩, hrefresh, rfl⟩ := Option.map_eq_some_iff.mp h
      have hfound : Found row s .page ↔ ¬ ∃ folder ∈ s.path.head?, Gone row s.dir folder.id := by
        refine ⟨fun hf hex => ?_, fun hno =>
          ⟨fun _ hn => absurd hn List.not_mem_nil, fun _ folder hf hg =>
          hno ⟨folder, hf, hg⟩⟩⟩
        obtain ⟨folder, hmem, hgone⟩ := hex
        exact hf.folder rfl folder hmem hgone
      rw [hfound, not_not, ← refreshUpload_false_iff hrefresh]
      cases ok with
      | true => exact iff_of_false (fun he => by cases he) Bool.noConfusion
      | false => exact iff_of_true rfl rfl
  | download filename =>
      rw [hnames fun he => by cases he]
      refine uses_missing_iff (fun o' ho' => ?_) h
      obtain ⟨⟨u, c⟩, -, ho'⟩ := Option.bind_eq_some_iff.mp ho'
      rcases c with _ | _ | c
      · cases ho'
        exact fun he => by cases he
      · cases ho'
      · cases ho'
        exact fun he => by cases he
  | call c =>
      rw [hnames fun he => by cases he]
      cases c with
      | openFolder foldername => exact uses_missing_iff outcome_ne_missing h
      | delete filename =>
          obtain ⟨folder, -, h⟩ := Option.bind_eq_some_iff.mp h
          exact uses_missing_iff outcome_ne_missing h
      | move newPathname filename =>
          obtain ⟨folder, -, h⟩ := Option.bind_eq_some_iff.mp h
          exact uses_missing_iff outcome_ne_missing h
      -- the other calls test what they use
      | _ =>
          exact iff_of_false (outcome_ne_missing o h) (not_not_intro fun _ hn => by cases hn)

/-- The folder and its entries are as they were. -/
def Unchanged (s t : Storage) : Prop := t.path = s.path ∧ t.filesInPath = s.filesInPath

theorem openFolder_failed {foldername : Str} (h : s.openFolder row foldername = some (t, false)) :
    Unchanged s t := by
  obtain ⟨f, -, h⟩ := Option.bind_eq_some_iff.mp h
  obtain ⟨⟨response, d⟩, -, h⟩ := Option.bind_eq_some_iff.mp h
  split at h
  · cases h
    exact ⟨rfl, rfl⟩
  · obtain ⟨fs, -, he⟩ := Option.map_eq_some_iff.mp h
    cases he

theorem deleteFile_failed {filename : Str} (h : s.deleteFile row fuel filename = some (t, false)) :
    Unchanged s t := by
  obtain ⟨folder, -, h⟩ := Option.bind_eq_some_iff.mp h
  obtain ⟨f, -, h⟩ := Option.bind_eq_some_iff.mp h
  obtain ⟨⟨d, q⟩, -, he⟩ := Option.map_eq_some_iff.mp h
  obtain ⟨rfl, hresult⟩ := Prod.mk.inj he
  exact ⟨rfl, if_neg fun hq => Bool.noConfusion (hq.symm.trans hresult)⟩

theorem moveFile_failed {newPathname filename : Str}
    (h : s.moveFile row fuel newPathname filename = some (t, false)) : Unchanged s t := by
  obtain ⟨folder, -, h⟩ := Option.bind_eq_some_iff.mp h
  obtain ⟨new, -, h⟩ := Option.bind_eq_some_iff.mp h
  obtain ⟨f, -, h⟩ := Option.bind_eq_some_iff.mp h
  obtain ⟨⟨d, q⟩, -, h⟩ := Option.bind_eq_some_iff.mp h
  split at h
  · obtain ⟨u, -, he⟩ := Option.map_eq_some_iff.mp h
    cases he
  · cases h
    exact ⟨rfl, rfl⟩

theorem uses_done {names : List Str} {k : Option Outcome} {ok : Bool}
    (h : s.uses names k = some (.done t ok)) : k = some (.done t ok) := by
  rw [Storage.uses] at h
  split at h
  · exact h
  · cases h

theorem outcome_done {x : Option (Storage × Bool)} {ok : Bool}
    (h : x.map Storage.outcome = some (.done t ok)) : x = some (t, ok) := by
  obtain ⟨⟨u, ok'⟩, hu, he⟩ := Option.map_eq_some_iff.mp h
  cases he
  exact hu

/-- **A request that uses entries and fails leaves the folder and its entries as they were.** -/
theorem handle_failed (hr : r.names ≠ []) (h : s.handle row fuel garbage r = some (.done t false)) :
    Unchanged s t := by
  cases r with
  | page => exact absurd rfl hr
  | download filename =>
      obtain ⟨⟨u, c⟩, hdown, hdone⟩ := Option.bind_eq_some_iff.mp (uses_done h)
      obtain ⟨f, -, hdown⟩ := Option.bind_eq_some_iff.mp hdown
      obtain ⟨⟨response, d⟩, -, hdown⟩ := Option.bind_eq_some_iff.mp hdown
      split at hdown
      · cases hdown
        cases hdone
        exact ⟨rfl, rfl⟩
      · obtain ⟨content, -, he⟩ := Option.map_eq_some_iff.mp hdown
        cases he
        rcases content with fault | content
        · cases hdone
        · cases hdone
  | call c =>
      cases c with
      | openFolder foldername => exact openFolder_failed (outcome_done (uses_done h))
      | delete filename =>
          obtain ⟨folder, -, h⟩ := Option.bind_eq_some_iff.mp h
          exact deleteFile_failed (outcome_done (uses_done h))
      | move newPathname filename =>
          obtain ⟨folder, -, h⟩ := Option.bind_eq_some_iff.mp h
          exact moveFile_failed (outcome_done (uses_done h))
      | _ => exact absurd rfl hr

/-- What is in a listing is found in the map that is filled from it. -/
theorem mem_fillInto_names {f : FileInfo} : ∀ (es : List FileInfo) (m : NameMap),
    f.name ∈ m ∨ f ∈ es → f.name ∈ m.fillInto es := by
  intro es
  induction es with
  | nil => exact fun m h => h.resolve_right List.not_mem_nil
  | cons e es ih =>
      intro m h
      refine ih (m.insertNew e.name e) ?_
      rw [NameMap.insertNew]
      rcases h with h | h
      · refine Or.inl ?_
        split
        · exact h
        · exact (AList.mem_insert m).mpr (Or.inr h)
      · rcases List.mem_cons.mp h with rfl | h
        · refine Or.inl ?_
          split
          · assumption
          · exact (AList.mem_insert m).mpr (Or.inl rfl)
        · exact Or.inr h

/-- **The entries of a page that has been shown are found**, until the next change. -/
theorem page_found (h : s.handle row fuel garbage .page = some (.done t true)) :
    ∃ folder ∈ s.path.head?, ∃ content fs, s.dir.get row folder.id = some (content, t.dir) ∧
      Storage.files content = some fs ∧ ∀ f ∈ fs, f.name ∈ t.filesInPath := by
  obtain ⟨⟨u, ok⟩, hrefresh, he⟩ := Option.map_eq_some_iff.mp h
  cases ok with
  | false => cases he
  | true =>
      cases he
      obtain ⟨folder, hfolder, hrefresh⟩ := Option.bind_eq_some_iff.mp hrefresh
      obtain ⟨⟨content, d⟩, hget, hrefresh⟩ := Option.bind_eq_some_iff.mp hrefresh
      split at hrefresh
      · cases hrefresh
      · obtain ⟨fs, hfs, he⟩ := Option.map_eq_some_iff.mp hrefresh
        cases he
        exact ⟨folder, hfolder, content, fs, hget, hfs, fun f hf =>
          mem_fillInto_names fs ∅ (Or.inr hf)⟩

/-! ## Runs -/

variable {w v : UserSessions} {as : List FileAction}

/-- **A step loses no session exactly when what it asks for is found.** -/
theorem step_allThere_iff {a : FileAction} (hw : w.AllThere)
    (h : w.step row fuel garbage a = some v) : v.AllThere ↔ w.Finds row a := by
  cases a with
  | signIn password =>
      obtain ⟨⟨t, ok⟩, -, rfl⟩ := Option.map_eq_some_iff.mp h
      refine iff_of_true ?_ trivial
      cases ok with
      | true =>
          intro hnone
          rcases List.mem_append.mp hnone with hnone | hnone
          · exact hw hnone
          · exact absurd (List.mem_singleton.mp hnone) (fun he => by cases he)
      | false => exact hw
  | request i r =>
      obtain ⟨s, hs, h⟩ := Option.bind_eq_some_iff.mp h
      obtain ⟨o, ho, he⟩ := Option.map_eq_some_iff.mp h
      have hfinds : w.Finds row (.request i r) ↔ Found row s r := by
        simp only [UserSessions.Finds, hs, Option.mem_def, Option.some.injEq, forall_eq']
      have hlt : i < w.sessions.length := by
        obtain ⟨s', hs', -⟩ := Option.map_eq_some_iff.mp hs
        obtain ⟨x, hx, -⟩ := Option.bind_eq_some_iff.mp hs'
        exact (List.getElem?_eq_some_iff.mp hx).1
      rw [hfinds, ← not_iff_not, ← handle_missing_iff ho]
      cases o with
      | missing =>
          cases he
          exact iff_of_true (fun hall => hall (List.mem_set hlt none)) rfl
      | done t ok =>
          cases he
          refine iff_of_false (not_not_intro fun hnone => ?_) (fun he => by cases he)
          rcases List.mem_or_eq_of_mem_set hnone with hnone | hnone
          · exact hw hnone
          · cases hnone

/--
**No session uses a null pointer** in a run exactly when each open, download, delete
or move request names entries that its session has, and each page is asked for while
the folder that is open has a listing. One that fails where they are found leaves the
path and the entries as they were.
-/
theorem entries_found_iff (hw : w.AllThere)
    (hrun : Lib.run (UserSessions.step row fuel garbage) w as = some v) :
    (Lib.Always (UserSessions.step row fuel garbage) UserSessions.AllThere w as ↔
      Lib.Guarded (UserSessions.step row fuel garbage) (UserSessions.Finds row) w as) ∧
    ∀ (s t : Storage) (r : FileRequest), r.names ≠ [] →
      s.handle row fuel garbage r = some (.done t false) →
      t.path = s.path ∧ t.filesInPath = s.filesInPath :=
  ⟨Lib.always_iff_guarded (fun _ _ _ hw h => step_allThere_iff hw h) hw hrun,
    fun _ _ _ hr h => handle_failed hr h⟩

def plansFolder : FileInfo := ⟨['1'], ['d'], false, ['t'], ['0']⟩
def plansFile : FileInfo := ⟨['2'], ['a'], true, ['t'], ['1', 'B']⟩

/-- A user with a folder and a file, who has not signed in. -/
def atHome : UserSessions where
  dir :=
    { server :=
        { primary := true
          table := (((Nested.set ∅ ['u'] "password".toList ['p', '\r', '\n']).set ['u']
            (contentCol storageFolder) (plansFolder.line ++ plansFile.line ++ crlf)).set ['u']
            (contentCol ['1']) crlf).set ['u'] (contentCol ['2']) ['7', '8', '\r', '\n'] } }

/-- A page, a download and a deletion. -/
def readAndDelete : List FileAction :=
  [.signIn ['p'], .request 0 .page, .request 0 (.download ['a']),
   .request 0 (.call (.delete ['a'])), .request 0 .page]

theorem readAndDelete_found : ∃ v,
    Lib.run (UserSessions.step ['u'] 6 fun _ => 0) atHome readAndDelete = some v ∧
    Lib.Always (UserSessions.step ['u'] 6 fun _ => 0) UserSessions.AllThere atHome
      readAndDelete := by
  have hrun : (Lib.run (UserSessions.step ['u'] 6 fun _ => 0) atHome readAndDelete).isSome
    = true := by
    decide +kernel
  have hguarded : Lib.Guarded (UserSessions.step ['u'] 6 fun _ => 0) (UserSessions.Finds ['u'])
      atHome readAndDelete := by decide +kernel
  obtain ⟨v, hv⟩ := Option.isSome_iff_exists.mp hrun
  exact ⟨v, hv, (entries_found_iff (by decide) hv).1.mpr hguarded⟩

/-- The delete link is clicked twice. -/
def deleteTwice : List FileAction :=
  [.signIn ['p'], .request 0 (.call (.delete ['a'])), .request 0 (.call (.delete ['a']))]

/-- One session deletes the folder that another has open, and the other looks at it again. -/
def deleteOpened : List FileAction :=
  [.signIn ['p'], .signIn ['p'], .request 0 (.call (.openFolder ['d'])),
   .request 1 (.call (.delete ['d'])), .request 0 .page]

/-- Both end a frontend. -/
theorem missing_used :
    (∃ v, Lib.run (UserSessions.step ['u'] 6 fun _ => 0) atHome deleteTwice = some v ∧
      ¬ v.AllThere) ∧
    ∃ v, Lib.run (UserSessions.step ['u'] 6 fun _ => 0) atHome deleteOpened = some v ∧
      ¬ v.AllThere := by
  have htwice : (Lib.run (UserSessions.step ['u'] 6 fun _ => 0) atHome deleteTwice).map
      (fun v => decide v.AllThere) = some false := by decide +kernel
  have hopened : (Lib.run (UserSessions.step ['u'] 6 fun _ => 0) atHome deleteOpened).map
      (fun v => decide v.AllThere) = some false := by decide +kernel
  obtain ⟨v, hv, hlost⟩ := Option.map_eq_some_iff.mp htwice
  obtain ⟨u, hu, hlost'⟩ := Option.map_eq_some_iff.mp hopened
  exact ⟨⟨v, hv, of_decide_eq_false hlost⟩, u, hu, of_decide_eq_false hlost'⟩

end PennCloud
