import PennCloud.Proof.Folders

/-!
# One entry to a name

In a folder of one session no two entries have the same name: uploads, new folders
and moves look through the listing first, and deletions only take entries away. So
`files_in_path` has an entry for every line. `rename_file` does not look, and it
leaves the old name in the map. `guarded_onePerName` says that nothing else gives a
name twice.
-/

namespace PennCloud

open Str

/-! ## The listings -/

namespace Tree

variable {A : Tree} {f g x : Str} {es es' : List FileInfo} {e : FileInfo} {c : Content}

/-- No folder has two entries of one name. -/
def NamedOnce (A : Tree) : Prop := ∀ f, ((A.entries f).map FileInfo.name).Nodup

theorem NamedOnce.set (h : A.NamedOnce) (hc : (c.entries.map FileInfo.name).Nodup) :
    (A.setContent f c).NamedOnce := by
  intro g
  rw [entries_setContent]
  split
  · exact hc
  · exact h g

theorem NamedOnce.append (h : A.NamedOnce) (hf : A.contents f = some (.folder es))
    (hname : e.name ∉ es.map FileInfo.name) : (A.setFolder f (es ++ [e])).NamedOnce := by
  have hes : (es.map FileInfo.name).Nodup := by
    have hf' := h f
    rwa [entries_eq hf] at hf'
  refine h.set (c := .folder (es ++ [e])) ?_
  rw [Content.entries, List.map_append, List.nodup_append]
  refine ⟨hes, List.nodup_singleton _, fun a ha b hb hab => hname ?_⟩
  rw [List.map_cons, List.map_nil, List.mem_singleton] at hb
  exact hb ▸ hab ▸ ha

theorem NamedOnce.added (h : A.NamedOnce) (hf : A.contents f = some (.folder es))
    (hname : e.name ∉ es.map FileInfo.name) (hc : c.entries = []) :
      (A.added f es e c).NamedOnce := by
  have hnames : ((A.setFolder f (es ++ [e])).setName e.id e.name).NamedOnce := h.append hf hname
  exact hnames.set (hc ▸ List.nodup_nil)

theorem NamedOnce.taken (h : A.NamedOnce) (hf : A.contents f = some (.folder es)) :
    (A.taken f es x).NamedOnce := by
  have hes := h f
  rw [entries_eq hf] at hes
  exact h.set (c := .folder (es.filter (·.id ≠ x))) (hes.sublist (List.filter_sublist.map _))

theorem NamedOnce.drop (h : A.NamedOnce) : (A.drop x).NamedOnce := by
  intro g
  rw [entries_drop]
  split
  · exact List.nodup_nil
  · exact h g

/-- **A renaming** keeps the names apart, if nothing else has the new name. -/
theorem NamedOnce.renamed {isFile : Bool} {oldName newName : Str} (h : A.NamedOnce)
    (hf : A.contents f = some (.folder es))
    (hfree : oldName ∈ es.map FileInfo.name → newName = oldName ∨ newName ∉ es.map FileInfo.name) :
    ((A.setFolder f (es.map (FileInfo.renamed isFile oldName newName))).setName x
      newName).NamedOnce := by
  have hes := h f
  rw [entries_eq hf, Content.entries] at hes
  have hnames : (es.map (FileInfo.renamed isFile oldName newName)).map FileInfo.name
      = (es.map FileInfo.name).map fun name => if name = oldName then newName else name := by
    rw [List.map_map, List.map_map]
    refine List.map_congr_left fun e _ => ?_
    rw [Function.comp_apply, Function.comp_apply, FileInfo.renamed]
    split <;> rfl
  have hdistinct : ((es.map (FileInfo.renamed isFile oldName newName)).map
    FileInfo.name).Nodup := by
    rw [hnames]
    refine List.Nodup.map_on (fun a ha b hb hab => ?_) hes
    -- the new name is in the listing only as the old one
    by_cases haold : a = oldName
    · by_cases hbold : b = oldName
      · rw [haold, hbold]
      · rw [if_pos haold, if_neg hbold] at hab
        rcases hfree (haold ▸ ha) with hsame | hnew
        · exact haold.trans (hsame.symm.trans hab)
        · exact absurd (hab ▸ hb) hnew
    · by_cases hbold : b = oldName
      · rw [if_neg haold, if_pos hbold] at hab
        rcases hfree (hbold ▸ hb) with hsame | hnew
        · exact hab.trans (hsame.trans hbold.symm)
        · exact absurd (hab ▸ ha) hnew
      · rwa [if_neg haold, if_neg hbold] at hab
  exact h.set (c := .folder _) hdistinct

/-- Where the names are apart, a map that is filled with a listing has each of its ids. -/
theorem NamedOnce.filled (h : A.NamedOnce)
    (f : Str) : (NameMap.fill (A.entries f)).ids.Perm (A.ids f) := by
  rw [NameMap.ids_fill_of_distinct (h f)]
  exact List.reverse_perm _

end Tree

/-! ## The map of the open folder -/

namespace Storage

variable {row : Str} {A B : Tree} {s t : Storage} {fuel : Nat} {ok : Bool}

/-- Every listing has each name once, and `files_in_path` an entry for each line of the open one. -/
structure OnePerName (row : Str) (s : Storage) : Prop where
  names : ∀ f, ∃ fs, files (s.dir.text row f) = some fs ∧ (fs.map FileInfo.name).Nodup
  map : s.filesInPath.ids.Perm ((s.dir.entries row s.here).map FileInfo.id)

theorem OnePerName.entries (h : s.OnePerName row) (f : Str) :
    ((s.dir.entries row f).map FileInfo.name).Nodup := by
  obtain ⟨fs, hfs, hnodup⟩ := h.names f
  rwa [Dir.entries, hfs]

/-- In terms of the tree. -/
theorem Sane.onePerName (hs : s.Sane row A) :
    s.OnePerName row ↔ A.NamedOnce ∧ s.filesInPath.ids.Perm (A.ids s.here) := by
  have hentries : (s.dir.entries row s.here).map FileInfo.id = A.ids s.here := by
    rw [hs.shows.entries_eq]
    rfl
  constructor
  · rintro ⟨hnames, hmap⟩
    refine ⟨fun f => ?_, hentries ▸ hmap⟩
    obtain ⟨fs, hfs, hnodup⟩ := hnames f
    rw [hs.shows.files_eq] at hfs
    cases hfs
    exact hnodup
  · rintro ⟨hnames, hmap⟩
    exact ⟨fun f => ⟨A.entries f, hs.shows.files_eq f, hnames f⟩, hentries ▸ hmap⟩

/-- A new name is not in the folder, and an old one not left in the map. -/
def NamesFree (row : Str) (s : Storage) : SessionCall → Prop
  | .upload name _ _ _ => name ∈ s.filesInPath → name ∈ (s.dir.entries row s.here).map FileInfo.name
  | .rename oldName newName => oldName ∈ s.filesInPath →
      oldName ∈ (s.dir.entries row s.here).map FileInfo.name →
        newName = oldName ∨ newName ∉ (s.dir.entries row s.here).map FileInfo.name
  | .move newPathname filename => Unmistaken row s (.move newPathname filename)
  | .createFolder _ _ _ | .delete _ | .openFolder _ | .goBack _ | .refresh => True

/-- The ids that are left when an entry is taken off a folder. -/
theorem Sane.taken_perm {f : FileInfo} {filename : Str} (hs : s.Sane row A)
    (hperm : s.filesInPath.ids.Perm (A.ids s.here)) (hf : s.filesInPath.lookup filename = some f) :
    (NameMap.ids (s.filesInPath.erase filename)).Perm ((A.ids s.here).filter (· ≠ f.id)) := by
  have hcons := (NameMap.ids_erase hf).symm.trans hperm
  have herase := hcons.erase f.id
  rw [List.erase_cons_head, (hs.forest.nodup s.here).erase_eq_filter] at herase
  refine herase.trans (List.Perm.of_eq (List.filter_congr fun x _ => ?_))
  by_cases hx : x = f.id
  · simp [hx]
  · simp [hx]

/-- The map takes a new file, as it has none of the name. -/
theorem Sane.uploaded_perm {name content : Str} {now created : Clock} {es : List FileInfo}
    (hs : s.Sane row A)
    (hperm : s.filesInPath.ids.Perm (A.ids s.here)) (hc : A.contents s.here = some (.folder es))
    (hid : now.id ∉ s.generated) (hnew : name ∉ s.filesInPath) :
    (NameMap.ids (s.filesInPath.insertNew name (newFile name content now created))).Perm
      ((A.added s.here es (newFile name content now created) (.ofFile content)).ids s.here) := by
  obtain ⟨hnone, -⟩ := hs.forest.absent now.id_ne_storage hid
  have hids :=
    Tree.ids_added (e := newFile name content now created) hc hnone (Content.ofFile_entries content)
  rw [NameMap.ids, NameMap.entries_insertNew hnew, hids, if_pos rfl]
  exact (hperm.cons now.id).trans (List.perm_append_singleton _ _).symm

/-- Its line is the last one when a file has been put back, and the map is as it was. -/
theorem Sane.restored_perm {filename : Str} {f e : FileInfo} {es : List FileInfo}
    (hs : s.Sane row A)
    (hperm : s.filesInPath.ids.Perm (A.ids s.here)) (hf : s.filesInPath.lookup filename = some f)
    (hc : A.contents s.here = some (.folder es)) (he : e.id = f.id) :
    s.filesInPath.ids.Perm
      (((A.taken s.here es f.id).setFolder s.here (es.filter (·.id ≠ f.id) ++ [e])).ids
        s.here) := by
  have hback := ((hs.taken_perm hperm hf).cons f.id).trans (List.perm_append_singleton _ _).symm
  rw [Tree.ids_append (Tree.contents_taken ..), if_pos rfl, Tree.ids_taken hc, if_pos rfl, he]
  exact (NameMap.ids_erase hf).trans hback

/-- **What a call does, keeps the names apart**, and the map in step with them. -/
theorem onePerName_did {call : SessionCall} (hs : s.Sane row A) (ht : t.Sane row B)
    (hdid : Did s t A call ok B) (hfit : Fits row s call) (hfree : NamesFree row s call)
    (hone : A.NamedOnce) (hperm : s.filesInPath.ids.Perm (A.ids s.here)) :
    B.NamedOnce ∧ t.filesInPath.ids.Perm (B.ids t.here) := by
  have hstay : t.path = s.path → t.here = s.here := fun hpath => by rw [here, hpath, here]
  cases hdid with
  | kept hpath hmap => exact ⟨hone, by rwa [hmap, hstay hpath]⟩
  | @uploaded name content now created es hc hname hpath hmap =>
      refine ⟨hone.added hc hname (Content.ofFile_entries _), ?_⟩
      have hnew : name ∉ s.filesInPath := by
        intro hmem
        have hname' := hfree hmem
        rw [hs.shows.entries_eq, Tree.entries_eq hc] at hname'
        exact hname hname'
      obtain ⟨-, hid, -⟩ := hfit
      rw [hmap, hstay hpath]
      exact hs.uploaded_perm hperm hc hid hnew
  | @created name now created es hc hname hpath hmap =>
      have hnames := hone.added (e := newFolder name now created) (c := .folder []) hc hname rfl
      exact ⟨hnames, by rw [hmap, hstay hpath]; exact hnames.filled s.here⟩
  | @renamed oldName newName f es hf hc hpath hmap =>
      refine ⟨hone.renamed hc ?_, ?_⟩
      · have hfree' := hfree (AList.lookup_isSome.mp (hf ▸ rfl))
        rwa [hs.shows.entries_eq, Tree.entries_eq hc] at hfree'
      · rwa [hmap, hstay hpath, Tree.ids_renamed f.isFile oldName newName hc]
  | deleted hf hc hid hpath hmap =>
      refine ⟨(hone.taken hc).drop, ?_⟩
      rw [hmap, hstay hpath, Tree.ids_drop, if_neg (hs.here_ne (hs.lookup_mem hf)),
        Tree.ids_taken hc, if_pos rfl]
      exact hs.taken_perm hperm hf
  | @moved newPathname filename g f es es' hg hf hc hid htarget hname hpath hmap =>
      have hnames := (hone.taken hc).append (e := { f with name := filename }) htarget hname
      exact ⟨hnames, by rw [hmap, hstay hpath]; exact hnames.filled s.here⟩
  | @restored newPathname filename f es hf hc hid hname hpath hmap =>
      refine ⟨(hone.taken hc).append (Tree.contents_taken ..) hname, ?_⟩
      rw [hmap, hstay hpath]
      exact hs.restored_perm hperm hf hc rfl
  | @lost newPathname filename f es hf hc hname hpath hmap =>
      have hmistake : Unmistaken row s (.move newPathname filename) := hfree
      exact absurd hname (hs.not_lost hmistake hf hc)
  | @opened foldername f c hf hc hpath hmap =>
      have hhere : t.here = f.id := by
        rw [here, hpath]
        rfl
      rw [hmap, hhere, ← Tree.entries_eq hc]
      exact ⟨hone, hone.filled f.id⟩
  | shown hpath hne hc hmap =>
      rw [hmap, ← Tree.entries_eq hc]
      exact ⟨hone, hone.filled t.here⟩

theorem NamesFree.unmistaken {call : SessionCall}
    (h : NamesFree row s call) : Unmistaken row s call := by
  cases call with
  | move newPathname filename => exact h
  | _ => trivial

/-- **What a call keeps**, whether it succeeds or not. -/
theorem onePerName_call {call : SessionCall} (hs : s.Sane row A) (hone : s.OnePerName row)
    (hfit : Fits row s call) (hfree : NamesFree row s call)
    (h : s.call row fuel call = some (t, ok)) :
    ∃ B, t.Sane row B ∧ t.OnePerName row := by
  obtain ⟨B, ht, hdid⟩ := sane_call hs hfit (Or.inr hfree.unmistaken) h
  obtain ⟨hnames, hperm⟩ := hs.onePerName.mp hone
  exact ⟨B, ht, ht.onePerName.mpr (onePerName_did hs ht hdid hfit hfree hnames hperm)⟩

/-! ## Sessions -/

instance (row : Str) (s : Storage) : DecidablePred (NamesFree row s)
  | .upload _ _ _ _ => inferInstanceAs (Decidable (_ → _))
  | .rename _ _ => inferInstanceAs (Decidable (_ → _ → _ ∨ _))
  | .move newPathname filename =>
      inferInstanceAs (Decidable (Unmistaken row s (.move newPathname filename)))
  | .createFolder _ _ _ | .delete _ | .openFolder _ | .goBack _ | .refresh => isTrue trivial

/-- A call of the session, whatever it returns. -/
def step (row : Str) (fuel : Nat) (s : Storage) (call : SessionCall) : Option Storage :=
  (s.call row fuel call).map Prod.fst

end Storage

section Sessions

variable {row password : Str} {fuel : Nat} {d : Dir} {s t : Storage} {calls : List SessionCall}

/-- **A session whose calls keep to new names** has one entry to a name. -/
theorem guarded_onePerName (hfresh : ∀ f, d.cell row f = none)
    (hregistered : (Storage.connect d).resgister row password = some (s, true))
    (hguarded : Lib.Guarded (Storage.step row fuel)
      (fun s call => s.Fits row call ∧ s.NamesFree row call) s calls)
    (hrun : Lib.run (Storage.step row fuel) s calls = some t) : t.OnePerName row := by
  obtain ⟨A, hs, hcontents, hhere, hmap⟩ := Storage.resgister_sane hfresh hregistered
  have hempty := Storage.entries_first hcontents
  have hone : s.OnePerName row := by
    refine hs.onePerName.mpr ⟨fun f => ?_, ?_⟩
    · rw [hempty]
      exact List.nodup_nil
    · rw [hmap, Tree.ids, hempty]
      exact List.Perm.refl _
  have hstep : ∀ s call t, (∃ A, s.Sane row A ∧ s.OnePerName row) →
      s.Fits row call ∧ s.NamesFree row call → Storage.step row fuel s call = some t →
        ∃ B, t.Sane row B ∧ t.OnePerName row := by
    rintro s call t ⟨A, hs, hone⟩ ⟨hfit, hfree⟩ ht
    obtain ⟨⟨t, ok⟩, hcall, rfl⟩ := Option.map_eq_some_iff.mp ht
    exact Storage.onePerName_call hs hone hfit hfree hcall
  obtain ⟨-, -, h⟩ := Lib.inv_of_guarded hstep ⟨A, hs, hone⟩ hguarded hrun
  exact h

end Sessions

/-! ## A renaming to a name that is there -/

/-- A data server that has nothing. -/
def emptyDir : Dir where
  server := { primary := true, table := ∅ }

/-- The clock, so many milliseconds after some second. -/
def clockAt (msec : Nat) : Clock := ⟨2019, 12, 10, 8, 30, 0, msec⟩

theorem emptyDir_fresh (row f : Str) : emptyDir.cell row f = none := rfl

/-- A file is renamed, moved into a folder, renamed there and deleted. -/
def tidySession : List SessionCall :=
  [.createFolder ['f'] (clockAt 1) (clockAt 1), .upload ['a'] ['x'] (clockAt 2) (clockAt 2),
   .upload ['b'] [] (clockAt 3) (clockAt 3), .rename ['a'] ['c'], .refresh, .move ['f'] ['c'],
   .openFolder ['f'], .rename ['c'] ['b'], .goBack 0, .delete ['b'], .openFolder ['f']]

theorem tidySession_onePerName : ∃ s t,
    (Storage.connect emptyDir).resgister ['u'] ['p'] = some (s, true) ∧
      Lib.run (Storage.step ['u'] 5) s tidySession = some t ∧ t.OnePerName ['u'] := by
  have hrun : ((Storage.connect emptyDir).resgister ['u'] ['p']).map (fun r => (r.2,
      decide (Lib.Guarded (Storage.step ['u'] 5)
        (fun s call => s.Fits ['u'] call ∧ s.NamesFree ['u'] call) r.1 tidySession),
      (Lib.run (Storage.step ['u'] 5) r.1 tidySession).isSome)) = some (true, true, true) := by
    decide +kernel
  obtain ⟨⟨s, ok⟩, hregistered, he⟩ := Option.map_eq_some_iff.mp hrun
  obtain ⟨rfl, hguarded, ht⟩ : ok = true ∧ _ ∧ _ := by simpa using he
  obtain ⟨t, ht⟩ := Option.isSome_iff_exists.mp ht
  exact ⟨s, t, hregistered, ht,
    guarded_onePerName (emptyDir_fresh ['u']) hregistered hguarded ht⟩

/-- One of two files is given the name of the other. -/
def renamedOver : List SessionCall :=
  [.upload ['a'] ['x'] (clockAt 1) (clockAt 1), .upload ['b'] ['y'] (clockAt 2) (clockAt 2),
   .rename ['a'] ['b'], .refresh]

/-- The listing has the name twice then, and the map once. -/
theorem renamedOver_twice : ∃ s t,
    (Storage.connect emptyDir).resgister ['u'] ['p'] = some (s, true) ∧
      Lib.run (Storage.step ['u'] 5) s renamedOver = some t ∧
      (t.dir.entries ['u'] storageFolder).map FileInfo.name = [['b'], ['b']] ∧
      t.filesInPath.ids = [(clockAt 1).id] ∧ ¬ t.OnePerName ['u'] := by
  have hrun : ((Storage.connect emptyDir).resgister ['u'] ['p']).map (fun r => (r.2,
      (Lib.run (Storage.step ['u'] 5) r.1 renamedOver).map fun t =>
        ((t.dir.entries ['u'] storageFolder).map FileInfo.name, t.filesInPath.ids)))
      = some (true, some ([['b'], ['b']], [(clockAt 1).id])) := by decide +kernel
  obtain ⟨⟨s, ok⟩, hregistered, he⟩ := Option.map_eq_some_iff.mp hrun
  obtain ⟨rfl, ht⟩ := Prod.mk.inj he
  obtain ⟨t, ht, he⟩ := Option.map_eq_some_iff.mp ht
  obtain ⟨hnames, hids⟩ := Prod.mk.inj he
  refine ⟨s, t, hregistered, ht, hnames, hids, fun hone => ?_⟩
  have hnodup := hone.entries storageFolder
  rw [hnames] at hnodup
  exact absurd hnodup (by decide)

end PennCloud
