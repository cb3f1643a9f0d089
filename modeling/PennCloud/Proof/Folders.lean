import PennCloud.Storage.Forest

/-!
# A session and its folders

Each call of a session has one of the outcomes of `Storage.Did`, and every one of
them keeps `Storage.Sane`: the folders are a forest, the open ones are a walk in it
from the outermost one, and `files_in_path` answers with entries of the folder that
is open. An id in the folder that is open is on no walk there, so a deletion or a
move takes nothing away that is open.
-/

namespace PennCloud

open Str

namespace Storage

/-- What every call keeps. -/
structure Sane (row : Str) (s : Storage) (A : Tree) : Prop where
  shows : s.dir.Shows row A
  forest : A.Forest s.generated
  walk : Lib.Walk (fun a b => b ∈ A.ids a) storageFolder (s.path.map FileInfo.id)
  present : ∀ p ∈ s.path, A.contents p.id ≠ none
  /-- A file that is there has its entry, but not under each of its names. -/
  entry : ∀ e ∈ s.filesInPath.entries, e.2.Clean ∧ e.2.name = e.1 ∧ e.2.id ∈ A.ids s.here
  nodup : s.filesInPath.ids.Nodup

end Storage

/-! ## The calls, one by one -/

section Calls

variable {row f : Str} {d : Dir} {A : Tree} {s t : Storage} {fuel : Nat} {ok : Bool} {c : Content}

theorem Dir.Shows.text_eq (hs : d.Shows row A)
    (f : Str) : d.text row f = (A.contents f).elim [] Content.text := by
  have hcell := hs.cell f
  cases hc : A.contents f with
  | none =>
      rw [hc] at hcell
      rw [Dir.text, hcell]
      rfl
  | some c =>
      rw [hc] at hcell
      exact text_of_cell hcell

/-- What a listing is read as. -/
theorem Dir.Shows.files_eq (hs : d.Shows row A) (f : Str) :
    Storage.files (d.text row f) = some (A.entries f) := by
  rw [hs.text_eq]
  cases hc : A.contents f with
  | none =>
      rw [Tree.entries_none hc]
      rfl
  | some c =>
      rw [Tree.entries_eq hc]
      exact (hs.clean f c hc).files

theorem Dir.Shows.entries_eq (hs : d.Shows row A) (f : Str) : d.entries row f = A.entries f := by
  rw [Dir.entries, hs.files_eq]
  rfl

/-- What holds a listing is a folder. -/
theorem Dir.Shows.folder (hs : d.Shows row A) (hc : A.contents f = some c)
    (h : d.HoldsListing row f) :
    ∃ es, c = .folder es := by
  cases c with
  | folder es => exact ⟨es, rfl⟩
  | file content =>
      have htext := hs.text_eq f
      rw [hc, Option.elim, Content.text] at htext
      rw [Dir.HoldsListing, htext] at h
      rcases h with h | h
      · exact absurd (convertBinaryToStr_eq_nil h) (hs.clean f _ hc)
      · exact absurd rfl (mem_convertBinaryToStr (List.mem_of_getLast? h)).1

namespace Storage

theorem here_eq {folder : FileInfo} (h : s.path.head? = some folder) : s.here = folder.id := by
  rw [here, h]
  rfl

/-- A session has a folder open. -/
theorem Sane.open (hs : s.Sane row A) :
    ∃ folder, s.path.head? = some folder ∧ ∃ c, A.contents s.here = some c := by
  cases hpath : s.path with
  | nil =>
      have hwalk := hs.walk
      rw [hpath] at hwalk
      cases hwalk
  | cons p ps =>
      refine ⟨p, rfl, ?_⟩
      rw [here_eq (hpath ▸ rfl : s.path.head? = some p)]
      exact Option.ne_none_iff_exists'.mp (hs.present p (hpath ▸ List.mem_cons_self))

/-- What `refresh_upload` does. -/
theorem refresh_shown (h : s.refreshUpload row = some (t, ok)) (hs : s.dir.Shows row A)
    (hc : A.contents s.here = some c) :
    ok = true ∧ t = { s with filesInPath := NameMap.fill c.entries } := by
  obtain ⟨folder, hfolder, h⟩ := Option.bind_eq_some_iff.mp h
  obtain ⟨⟨response, d⟩, hget, h⟩ := Option.bind_eq_some_iff.mp h
  obtain ⟨rfl, rfl⟩ := hs.get hget
  have hclean := hs.clean _ _ hc
  rw [here_eq hfolder] at hc
  simp only [hc, Option.elim, if_neg hclean.ne_null, hclean.files, Option.map_some,
    Option.some.injEq, Prod.mk.injEq] at h
  exact ⟨h.2.symm, h.1.symm⟩

theorem openFolder_did (hs : s.Sane row A) {foldername : Str}
    (h : s.openFolder row foldername = some (t, ok)) :
    t.dir.Shows row A ∧ Did s t A (.openFolder foldername) ok A ∧ t.generated = s.generated := by
  obtain ⟨f, hf, h⟩ := Option.bind_eq_some_iff.mp h
  obtain ⟨⟨response, d⟩, hget, h⟩ := Option.bind_eq_some_iff.mp h
  obtain ⟨rfl, rfl⟩ := hs.shows.get hget
  cases hc : A.contents f.id with
  | none =>
      simp only [hc, Option.elim, if_pos, Option.some.injEq, Prod.mk.injEq] at h
      obtain ⟨rfl, rfl⟩ := h
      exact ⟨hs.shows, .kept rfl rfl, rfl⟩
  | some c =>
      have hclean := hs.shows.clean _ _ hc
      simp only [hc, Option.elim, if_neg hclean.ne_null, hclean.files, Option.map_some,
        Option.some.injEq, Prod.mk.injEq] at h
      obtain ⟨rfl, rfl⟩ := h
      exact ⟨hs.shows, .opened hf hc rfl rfl, rfl⟩

theorem goBack_did (hs : s.Sane row A) {index : Int} (h : s.goBack row index = some (t, ok)) :
    t.dir.Shows row A ∧ Did s t A (.goBack index) ok A ∧ t.generated = s.generated := by
  rw [goBack] at h
  obtain ⟨folder, hfolder, -⟩ := Option.bind_eq_some_iff.mp h
  have hmem : folder ∈ s.path := List.mem_of_mem_drop (List.mem_of_mem_head? hfolder)
  obtain ⟨c, hc⟩ := Option.ne_none_iff_exists'.mp (hs.present folder hmem)
  rw [← here_eq hfolder] at hc
  obtain ⟨rfl, rfl⟩ := refresh_shown h hs.shows hc
  refine ⟨hs.shows, .shown rfl (fun h => ?_) hc rfl, rfl⟩
  rw [h] at hfolder
  cases hfolder

theorem refresh_did (hs : s.Sane row A) (h : s.refreshUpload row = some (t, ok)) :
    t.dir.Shows row A ∧ Did s t A .refresh ok A ∧ t.generated = s.generated := by
  obtain ⟨folder, hfolder, c, hc⟩ := hs.open
  obtain ⟨rfl, rfl⟩ := refresh_shown h hs.shows hc
  exact ⟨hs.shows, .shown (n := 0) rfl (fun h => by rw [h] at hfolder; cases hfolder) hc rfl, rfl⟩

theorem uploadFile_did (hs : s.Sane row A) {name content : Str} {now created : Clock}
    (hfit : Fits row s (.upload name content now created))
    (h : s.uploadFile row fuel name content now created = some (t, ok)) :
    ∃ B, t.dir.Shows row B ∧ Did s t A (.upload name content now created) ok B ∧
      t.generated = now.id :: s.generated := by
  obtain ⟨hname, -, hlisting⟩ := hfit
  obtain ⟨folder, hfolder, c, hc⟩ := hs.open
  obtain ⟨es, rfl⟩ := hs.shows.folder hc hlisting
  rw [uploadFile, hfolder, Option.bind_some] at h
  obtain ⟨⟨d, q⟩, hfinish, he⟩ := Option.map_eq_some_iff.mp h
  cases he
  rw [← here_eq hfolder] at hfinish
  rcases finish_upload hs.shows hc (newFile_clean hname content now created)
    (Content.ofFile_clean content) (Content.ofFile_text content).symm hfinish with ⟨hresult, rfl, -⟩
      | ⟨hresult, hfree, hshows⟩
  · rw [hresult]
    exact ⟨A, hs.shows, .kept rfl rfl, rfl⟩
  · rw [hresult]
    exact ⟨_, hshows, .uploaded hc hfree rfl rfl, rfl⟩

theorem createFolder_did (hs : s.Sane row A) {name : Str} {now created : Clock}
    (hfit : Fits row s (.createFolder name now created))
    (h : s.createFolder row fuel name now created = some (t, ok)) :
    ∃ B, t.dir.Shows row B ∧ Did s t A (.createFolder name now created) ok B ∧
      t.generated = now.id :: s.generated := by
  obtain ⟨hname, hnew, hlisting⟩ := hfit
  obtain ⟨folder, hfolder, c, hc⟩ := hs.open
  obtain ⟨es, rfl⟩ := hs.shows.folder hc hlisting
  have hclean := hs.shows.clean _ _ hc
  rw [createFolder, hfolder, Option.bind_some] at h
  obtain ⟨⟨response, d⟩, hget, h⟩ := Option.bind_eq_some_iff.mp h
  obtain ⟨rfl, rfl⟩ := hs.shows.get hget
  rw [← here_eq hfolder, hc, Option.elim, Content.text, begin_folder hclean, Option.bind_some] at h
  obtain ⟨⟨d, q⟩, hfinish, h⟩ := Option.bind_eq_some_iff.mp h
  by_cases hexist : name ∈ es.map FileInfo.name
  · rw [if_pos hexist] at hfinish
    obtain ⟨rfl, rfl⟩ := Dir.finish_ended rfl hfinish
    cases h
    exact ⟨A, hs.shows, .kept rfl rfl, rfl⟩
  · rw [if_neg hexist] at hfinish
    obtain ⟨hresult, hshows⟩ : q.result = true ∧
        d.Shows row (A.added s.here es (newFolder name now created) (.folder [])) :=
      finish_add (u := ⟨s.here, newFolder name now created, []⟩) (c := .folder []) hs.shows hc
        (newFolder_clean hname now created) (fun e he => absurd he List.not_mem_nil) rfl hfinish
    rw [hresult, if_pos rfl] at h
    -- the call fills the map from the listing that has the new line
    obtain ⟨⟨u, ok'⟩, hrefresh, he⟩ := Option.map_eq_some_iff.mp h
    cases he
    have hpresent := (Tree.present_added (e := newFolder name now created) (c := .folder []) hc
      s.here).mpr (Or.inl (hc ▸ Option.some_ne_none _))
    obtain ⟨c, hhere⟩ := Option.ne_none_iff_exists'.mp hpresent
    obtain ⟨-, rfl⟩ := refresh_shown hrefresh hshows hhere
    exact ⟨_, hshows, .created hc hexist rfl
      (congrArg NameMap.fill (Tree.entries_eq hhere).symm), rfl⟩

/-- What a name stands for: an entry of the folder that is open. -/
theorem Sane.lookup (hs : s.Sane row A) {name : Str} {f : FileInfo}
    (h : s.filesInPath.lookup name = some f) :
    f.Clean ∧ f.name = name ∧
      ∃ es, A.contents s.here = some (.folder es) ∧ f.id ∈ es.map FileInfo.id := by
  obtain ⟨hclean, hname, hmem⟩ := hs.entry _ (NameMap.mem_of_lookup h)
  refine ⟨hclean, hname, ?_⟩
  obtain ⟨-, -, c, hc⟩ := hs.open
  rw [Tree.ids, Tree.entries_eq hc] at hmem
  cases c with
  | folder es => exact ⟨es, hc, hmem⟩
  | file content => cases hmem

theorem renameFile_did (hs : s.Sane row A) {oldName newName : Str} (hfit : IsField newName)
    (h : s.renameFile row fuel oldName newName = some (t, ok)) :
    ∃ B, t.dir.Shows row B ∧ Did s t A (.rename oldName newName) ok B ∧
    t.generated = s.generated := by
  rw [renameFile] at h
  cases hf : s.filesInPath.lookup oldName with
  | none =>
      rw [hf] at h
      cases h
      exact ⟨A, hs.shows, .kept rfl rfl, rfl⟩
  | some f =>
      rw [hf] at h
      obtain ⟨folder, hfolder, h⟩ := Option.bind_eq_some_iff.mp h
      obtain ⟨⟨d, q⟩, hfinish, he⟩ := Option.map_eq_some_iff.mp h
      cases he
      obtain ⟨-, -, es, hc, -⟩ := hs.lookup hf
      rw [← here_eq hfolder] at hfinish
      rcases finish_rename hs.shows hc hfit hfinish with ⟨hresult, rfl⟩ | ⟨hresult, hshows⟩
      · rw [hresult]
        exact ⟨A, hs.shows, .kept rfl rfl, rfl⟩
      · rw [hresult]
        exact ⟨_, hshows, .renamed hf hc rfl rfl, rfl⟩

theorem deleteFile_did (hs : s.Sane row A) {filename : Str}
    (h : s.deleteFile row fuel filename = some (t, ok)) :
    ∃ B, t.dir.Shows row B ∧ Did s t A (.delete filename) ok B ∧ t.generated = s.generated := by
  obtain ⟨folder, hfolder, h⟩ := Option.bind_eq_some_iff.mp h
  obtain ⟨f, hf, h⟩ := Option.bind_eq_some_iff.mp h
  obtain ⟨⟨d, q⟩, hfinish, he⟩ := Option.map_eq_some_iff.mp h
  cases he
  obtain ⟨-, -, es, hc, -⟩ := hs.lookup hf
  rw [← here_eq hfolder] at hfinish
  rcases finish_delete hs.shows hc hfinish with ⟨hresult, hshows⟩ | ⟨hresult, hid, hshows⟩
  · rw [hresult]
    exact ⟨A, hshows, .kept rfl rfl, rfl⟩
  · rw [hresult]
    exact ⟨_, hshows, .deleted hf hc hid rfl rfl, rfl⟩

theorem moveFile_did (hs : s.Sane row A) {newPathname filename : Str}
    (hfit : Fits row s (.move newPathname filename))
    (h : s.moveFile row fuel newPathname filename = some (t, ok)) :
    ∃ B, t.dir.Shows row B ∧ Did s t A (.move newPathname filename) ok B ∧
    t.generated = s.generated := by
  obtain ⟨folder, hfolder, h⟩ := Option.bind_eq_some_iff.mp h
  obtain ⟨g, hg, h⟩ := Option.bind_eq_some_iff.mp h
  obtain ⟨f, hf, h⟩ := Option.bind_eq_some_iff.mp h
  obtain ⟨hclean, rfl, es, hc, -⟩ := hs.lookup hf
  obtain ⟨⟨d, q⟩, hfinish, h⟩ := Option.bind_eq_some_iff.mp h
  -- the target is a folder, or not there any more
  have hnew : ∀ content, A.contents g.id ≠ some (.file content) := fun content hfile => by
    obtain ⟨es', he⟩ := hs.shows.folder hfile (hfit g hg)
    cases he
  rw [← here_eq hfolder] at hfinish
  rcases finish_move (m := ⟨s.here, g.id, f⟩) hs.shows hc hclean hnew hfinish with
    ⟨hresult, hshows⟩ | ⟨hid, ⟨hresult, es', hc', hname, hshows⟩ | ⟨hresult, hname, hshows⟩
      | ⟨hresult, hname, hshows⟩⟩
  · rw [hresult] at h
    cases h
    exact ⟨A, hshows, .kept rfl rfl, rfl⟩
  · rw [hresult, if_pos rfl] at h
    obtain ⟨⟨u, ok'⟩, hrefresh, he⟩ := Option.map_eq_some_iff.mp h
    cases he
    have hpresent := (Tree.present_setFolder (es' ++ [f]) hc' s.here).mpr
      ((Tree.present_taken hc s.here).mpr (hc ▸ Option.some_ne_none _))
    obtain ⟨c, hhere⟩ := Option.ne_none_iff_exists'.mp hpresent
    obtain ⟨-, rfl⟩ := refresh_shown hrefresh hshows hhere
    exact ⟨_, hshows, .moved hg hf hc hid hc' hname rfl
      (congrArg NameMap.fill (Tree.entries_eq hhere).symm), rfl⟩
  · rw [hresult] at h
    cases h
    exact ⟨_, hshows, .lost hf hc hname rfl rfl, rfl⟩
  · rw [hresult] at h
    cases h
    exact ⟨_, hshows, .restored hf hc hid hname rfl rfl, rfl⟩

/-- **What a call does.** -/
theorem call_did (hs : s.Sane row A) {call : SessionCall} (hfit : Fits row s call)
    (h : s.call row fuel call = some (t, ok)) :
    ∃ B, t.dir.Shows row B ∧ Did s t A call ok B ∧ t.generated = newIds call ++ s.generated := by
  cases call with
  | upload name content now created => exact uploadFile_did hs hfit h
  | createFolder name now created => exact createFolder_did hs hfit h
  | rename oldName newName => exact renameFile_did hs hfit h
  | move newPathname filename => exact moveFile_did hs hfit h
  | delete filename => exact deleteFile_did hs h
  | openFolder foldername => exact ⟨A, openFolder_did hs h⟩
  | goBack index => exact ⟨A, goBack_did hs h⟩
  | refresh => exact ⟨A, refresh_did hs h⟩

/-! ## What every call keeps -/

/-- The name stands for no other entry of the folder. -/
def Unmistaken (row : Str) (s : Storage) : SessionCall → Prop
  | .move _ filename => ∀ f ∈ s.filesInPath.lookup filename, ∀ e ∈ s.dir.entries row s.here,
      e.name = filename → e.id = f.id
  | _ => True

instance (row : Str) (s : Storage) : DecidablePred (Unmistaken row s)
  | .move _ filename => inferInstanceAs (Decidable (∀ f ∈ s.filesInPath.lookup filename,
      ∀ e ∈ s.dir.entries row s.here, e.name = filename → e.id = f.id))
  | .upload _ _ _ _ | .createFolder _ _ _ | .rename _ _ | .delete _ | .openFolder _ | .goBack _
  | .refresh => isTrue trivial

theorem Sane.lookup_mem (hs : s.Sane row A) {name : Str} {f : FileInfo}
    (h : s.filesInPath.lookup name = some f) : f.id ∈ A.ids s.here :=
  (hs.entry _ (NameMap.mem_of_lookup h)).2.2

/-- **What is in the folder that is open, is not open.** -/
theorem Sane.off_path (hs : s.Sane row A) {x : Str}
    (hx : x ∈ A.ids s.here) : ∀ p ∈ s.path, p.id ≠ x := by
  rintro p hp rfl
  obtain ⟨folder, hfolder, -⟩ := hs.open
  have hapart := (hs.walk.apart (fun a b y => hs.forest.once a b y) hs.forest.root).2
  refine hapart folder.id ?_ p.id (List.mem_map_of_mem hp) (here_eq hfolder ▸ hx)
  rw [List.head?_map, hfolder]
  rfl

theorem Sane.here_ne (hs : s.Sane row A) {x : Str} (hx : x ∈ A.ids s.here) : s.here ≠ x := by
  obtain ⟨folder, hfolder, -⟩ := hs.open
  exact here_eq hfolder ▸ hs.off_path hx folder (List.mem_of_mem_head? hfolder)

/-- The walk to the folder that is open is kept with the ids on it. -/
theorem Sane.walk_mono {B : Tree} (hs : s.Sane row A)
    (h : ∀ a, ∀ p ∈ s.path, p.id ∈ A.ids a → p.id ∈ B.ids a) :
    Lib.Walk (fun a b => b ∈ B.ids a) storageFolder (s.path.map FileInfo.id) := by
  refine hs.walk.mono fun a b hb hab => ?_
  obtain ⟨p, hp, rfl⟩ := List.mem_map.mp hb
  exact h a p hp hab

/-- What a listing fills the map with. -/
theorem filled {used : List Str} (hs : d.Shows row A) (hforest : A.Forest used) (f : Str) :
    (∀ e ∈ (NameMap.fill (A.entries f)).entries, e.2.Clean ∧ e.2.name = e.1 ∧ e.2.id ∈ A.ids f) ∧
      (NameMap.fill (A.entries f)).ids.Nodup := by
  constructor
  · intro e he
    obtain ⟨hmem, hname⟩ := NameMap.mem_fill he
    refine ⟨?_, hname, List.mem_map_of_mem hmem⟩
    cases hc : A.contents f with
    | none =>
        rw [Tree.entries_none hc] at hmem
        cases hmem
    | some c =>
        rw [Tree.entries_eq hc] at hmem
        cases c with
        | folder es => exact hs.clean f _ hc _ hmem
        | file content => cases hmem
  · exact (List.nodup_reverse.mpr (hforest.nodup f)).sublist NameMap.ids_fill

/-- Where the open folders stay open, with what is on the walk to them. -/
theorem Sane.stay {B : Tree} (hs : s.Sane row A) (hpath : t.path = s.path)
    (hshows : t.dir.Shows row B)
    (hforest : B.Forest t.generated) (hids : ∀ a, ∀ p ∈ s.path, p.id ∈ A.ids a → p.id ∈ B.ids a)
    (hpresent : ∀ p ∈ s.path, A.contents p.id ≠ none → B.contents p.id ≠ none)
    (hentry : ∀ e ∈ t.filesInPath.entries, e.2.Clean ∧ e.2.name = e.1 ∧ e.2.id ∈ B.ids s.here)
    (hnodup : t.filesInPath.ids.Nodup) : t.Sane row B where
  shows := hshows
  forest := hforest
  walk := hpath ▸ hs.walk_mono hids
  present := fun p hp => hpresent p (hpath ▸ hp) (hs.present p (hpath ▸ hp))
  entry := by
    rw [here, hpath]
    exact hentry
  nodup := hnodup

/-- An id that is not on the map's folder is not on the map. -/
theorem Sane.notMem_ids (hs : s.Sane row A) {x : Str}
    (hx : x ∉ A.ids s.here) : x ∉ s.filesInPath.ids := by
  intro hmem
  obtain ⟨e, he, rfl⟩ := List.mem_map.mp hmem
  exact hx (hs.entry e he).2.2

/-- **A new entry** keeps the walk; `insertNew` and `fill` both keep the map. -/
theorem Sane.added {es : List FileInfo} {e : FileInfo} (hs : s.Sane row A)
    (hc : A.contents s.here = some (.folder es)) (hnew : e.id ∉ s.generated)
    (hroot : e.id ≠ storageFolder)
    (hentries : c.entries = []) (hpath : t.path = s.path) (hgen : t.generated = e.id :: s.generated)
    (hshows : t.dir.Shows row (A.added s.here es e c))
    (hmap : (t.filesInPath = s.filesInPath.insertNew e.name e ∧ e.Clean) ∨
      t.filesInPath = NameMap.fill ((A.added s.here es e c).entries s.here)) :
    t.Sane row (A.added s.here es e c) := by
  obtain ⟨hnone, hnowhere⟩ := hs.forest.absent hroot hnew
  have hforest : (A.added s.here es e c).Forest t.generated :=
    hgen ▸ hs.forest.added hc hnone hnowhere hroot hentries
  have hmem := Tree.mem_ids_put (Tree.ids_added hc hnone hentries)
  have hids : ∀ a x, x ∈ A.ids a → x ∈ (A.added s.here es e c).ids a := fun a x hx =>
    (hmem a x).mpr (Or.inl hx)
  have hpresent : ∀ p : FileInfo, A.contents p.id ≠ none →
    (A.added s.here es e c).contents p.id ≠ none :=
    fun p hp => (Tree.present_added hc p.id).mpr (Or.inl hp)
  rcases hmap with ⟨hmap, hclean⟩ | hmap
  · -- `insertNew`: a name that is there keeps its entry
    have hhere : e.id ∈ (A.added s.here es e c).ids s.here :=
      (hmem s.here e.id).mpr (Or.inr ⟨rfl, rfl⟩)
    have hold : ∀ x ∈ s.filesInPath.entries, x.2.Clean ∧ x.2.name = x.1 ∧
        x.2.id ∈ (A.added s.here es e c).ids s.here := fun x hx =>
      ⟨(hs.entry x hx).1, (hs.entry x hx).2.1, hids _ _ (hs.entry x hx).2.2⟩
    refine hs.stay hpath hshows hforest (fun a p _ => hids a p.id) (fun p _ => hpresent p) ?_ ?_
    · by_cases hname : e.name ∈ s.filesInPath
      · rw [hmap, NameMap.insertNew_of_mem hname]
        exact hold
      · rw [hmap, NameMap.entries_insertNew hname]
        exact List.forall_mem_cons.mpr ⟨⟨hclean, rfl, hhere⟩, hold⟩
    · by_cases hname : e.name ∈ s.filesInPath
      · rw [hmap, NameMap.insertNew_of_mem hname]
        exact hs.nodup
      · rw [hmap, NameMap.ids, NameMap.entries_insertNew hname]
        exact List.nodup_cons.mpr ⟨hs.notMem_ids (hnowhere s.here), hs.nodup⟩
  · -- `fill`
    obtain ⟨hentry, hnodup⟩ := filled hshows hforest s.here
    exact hs.stay hpath hshows hforest (fun a p _ => hids a p.id)
      (fun p _ => hpresent p) (hmap ▸ hentry)
      (hmap ▸ hnodup)

/-- What is on the walk is in no folder that is in the open one. -/
theorem Sane.off_below (hs : s.Sane row A) {x : Str} (hx : x ∈ A.ids s.here) :
    ∀ p ∈ s.path, p.id ∉ A.ids x := by
  intro p hp hmem
  rcases hs.walk.parent p.id (List.mem_map_of_mem hp) with hroot | ⟨z, hz, hzp⟩
  · exact hs.forest.root x (hroot ▸ hmem)
  · obtain ⟨p', hp', rfl⟩ := List.mem_map.mp hz
    exact hs.off_path hx p' hp' (hs.forest.once _ _ _ hzp hmem)

/-- **A deletion** of an entry of the open folder takes nothing away that is open. -/
theorem Sane.deleted {es : List FileInfo} {filename : Str} {e : FileInfo} (hs : s.Sane row A)
    (hf : s.filesInPath.lookup filename = some e) (hc : A.contents s.here = some (.folder es))
    (hpath : t.path = s.path) (hgen : t.generated = s.generated)
    (hmap : t.filesInPath = s.filesInPath.erase filename)
    (hshows : t.dir.Shows row ((A.taken s.here es e.id).drop e.id)) :
    t.Sane row ((A.taken s.here es e.id).drop e.id) := by
  have hmem := hs.lookup_mem hf
  have hperm := NameMap.ids_erase hf
  have hnodup := hperm.nodup_iff.mp hs.nodup
  rw [List.nodup_cons] at hnodup
  have htaken := (hs.forest.taken hc hmem).1
  have hhere := hs.here_ne hmem
  have hids : ∀ a x, x ≠ e.id → a ≠ e.id → x ∈ A.ids a →
      x ∈ ((A.taken s.here es e.id).drop e.id).ids a := by
    intro a x hx ha hxa
    rw [Tree.ids_drop, if_neg ha]
    exact (hs.forest.mem_taken hc hmem a x).mpr ⟨hxa, hx⟩
  refine hs.stay hpath hshows ?_ (fun a p hp hpa => ?_) (fun p hp hpresent => ?_)
    (fun x hx => ?_) ?_
  · rw [hgen]
    refine htaken.shrink (fun g => ?_) fun g hg => ?_
    · rw [Tree.ids_drop]
      split
      · exact List.nil_sublist _
      · exact List.Sublist.refl _
    · rw [Tree.contents_drop] at hg
      split at hg
      · exact absurd rfl hg
      · exact hg
  · -- the folder above `p` is open itself, so it is not the one that is deleted
    refine hids a p.id (hs.off_path hmem p hp) (fun ha => ?_) hpa
    exact hs.off_below hmem p hp (ha ▸ hpa)
  · rw [Tree.contents_drop, if_neg (hs.off_path hmem p hp)]
    exact (Tree.present_taken hc p.id).mpr hpresent
  · rw [hmap] at hx
    obtain ⟨hclean, hname, hin⟩ := hs.entry x (NameMap.mem_of_erase hx)
    refine ⟨hclean, hname, hids s.here x.2.id (fun hid => hnodup.1 ?_) hhere hin⟩
    exact hid ▸ List.mem_map_of_mem hx
  · rw [hmap]
    exact hnodup.2

/-- **A file that has been put into another folder**, or back into its own. -/
theorem Sane.put {es es' : List FileInfo} {filename target : Str} {e : FileInfo} (hs : s.Sane row A)
    (hf : s.filesInPath.lookup filename = some e) (hc : A.contents s.here = some (.folder es))
    (htarget : (A.taken s.here es e.id).contents target = some (.folder es'))
    (hpath : t.path = s.path)
    (hgen : t.generated = s.generated)
    (hshows : t.dir.Shows row
      ((A.taken s.here es e.id).setFolder target (es' ++ [{ e with name := filename }])))
    (hmap : (t.filesInPath = s.filesInPath ∧ target = s.here) ∨ t.filesInPath = NameMap.fill
      (((A.taken s.here es e.id).setFolder target (es' ++ [{ e with name := filename }])).entries
        s.here)) :
    t.Sane row ((A.taken s.here es e.id).setFolder target
      (es' ++ [{ e with name := filename }])) := by
  have hmem := hs.lookup_mem hf
  obtain ⟨htaken, hnowhere⟩ := hs.forest.taken hc hmem
  have hforest :
    ((A.taken s.here es e.id).setFolder target (es' ++ [{ e with name := filename }])).Forest
      t.generated := hgen ▸ htaken.append (e := { e with name := filename }) htarget hnowhere
    (fun h => hs.forest.root s.here (h ▸ hmem)) (hs.forest.listed s.here e.id hmem)
  have hput := Tree.mem_ids_put (Tree.ids_append (e := { e with name := filename }) htarget)
  have hids : ∀ a x, x ≠ e.id → x ∈ A.ids a → x ∈ ((A.taken s.here es e.id).setFolder target
      (es' ++ [{ e with name := filename }])).ids a := fun a x hx hxa =>
    (hput a x).mpr (Or.inl ((hs.forest.mem_taken hc hmem a x).mpr ⟨hxa, hx⟩))
  refine hs.stay hpath hshows hforest (fun a p hp => hids a p.id (hs.off_path hmem p hp))
    (fun p _ hpresent => ?_) ?_ ?_
  · exact (Tree.present_setFolder _ htarget p.id).mpr ((Tree.present_taken hc p.id).mpr hpresent)
  · rcases hmap with ⟨hmap, rfl⟩ | hmap
    · rw [hmap]
      intro x hx
      obtain ⟨hclean, hname, hin⟩ := hs.entry x hx
      refine ⟨hclean, hname, ?_⟩
      by_cases hid : x.2.id = e.id
      · exact (hput _ _).mpr (Or.inr ⟨rfl, hid⟩)
      · exact hids _ _ hid hin
    · exact hmap ▸ (filled hshows hforest s.here).1
  · rcases hmap with ⟨hmap, -⟩ | hmap
    · exact hmap ▸ hs.nodup
    · exact hmap ▸ (filled hshows hforest s.here).2

/-- A listing in which names have been changed. -/
theorem Sane.renamed {es : List FileInfo} {f : FileInfo} {oldName newName : Str} (hs : s.Sane row A)
    (hc : A.contents s.here = some (.folder es)) (hpath : t.path = s.path)
    (hmap : t.filesInPath = s.filesInPath) (hgen : t.generated = s.generated)
    (hshows : t.dir.Shows row
      ((A.setFolder s.here (es.map (FileInfo.renamed f.isFile oldName newName))).setName
        f.id newName)) :
    t.Sane row
      ((A.setFolder s.here (es.map (FileInfo.renamed f.isFile oldName newName))).setName
        f.id newName) := by
  have hids := Tree.ids_renamed (x := f.id) f.isFile oldName newName hc
  have hpresent := Tree.present_setFolder (es.map (FileInfo.renamed f.isFile oldName newName)) hc
  refine hs.stay hpath hshows ?_ (fun a p _ => (hids a).symm ▸ id)
    (fun p _ => (hpresent p.id).mpr) ?_ ?_
  · rw [hgen]
    exact hs.forest.shrink (fun g => hids g ▸ List.Sublist.refl _) fun g => (hpresent g).mp
  · rw [hmap, hids]
    exact hs.entry
  · exact hmap ▸ hs.nodup

/-- The walk goes on to an entry of the folder that was open. -/
theorem Sane.opened {f : FileInfo} {foldername : Str} {c : Content} (hs : s.Sane row A)
    (hf : s.filesInPath.lookup foldername = some f) (hc : A.contents f.id = some c)
    (hpath : t.path = ⟨f.id, foldername, false, f.time, f.size⟩ :: s.path)
    (hmap : t.filesInPath = NameMap.fill c.entries) (hgen : t.generated = s.generated)
    (hshows : t.dir.Shows row A) : t.Sane row A := by
  obtain ⟨-, -, hmem⟩ := hs.entry _ (NameMap.mem_of_lookup hf)
  obtain ⟨folder, hfolder, -⟩ := hs.open
  have hhere : t.here = f.id := by
    rw [here, hpath]
    rfl
  have hforest : A.Forest t.generated := hgen ▸ hs.forest
  obtain ⟨hentry, hnodup⟩ := filled hshows hforest f.id
  rw [Tree.entries_eq hc, ← hmap] at hentry hnodup
  refine ⟨hshows, hforest, ?_, fun p hp => ?_, hhere ▸ hentry, hnodup⟩
  · have hwalk := hs.walk
    obtain ⟨ps, hps⟩ := List.head?_eq_some_iff.mp hfolder
    rw [here_eq hfolder] at hmem
    rw [hps, List.map_cons] at hwalk
    rw [hpath, hps, List.map_cons, List.map_cons]
    exact .step hwalk hmem
  · rw [hpath] at hp
    rcases List.mem_cons.mp hp with rfl | hp
    · rw [hc]
      exact Option.some_ne_none _
    · exact hs.present p hp

/-- The walk goes back to a folder on it, and is read again there. -/
theorem Sane.shown {k : Nat} {c : Content} (hs : s.Sane row A) (hpath : t.path = s.path.drop k)
    (hne : t.path ≠ []) (hc : A.contents t.here = some c)
    (hmap : t.filesInPath = NameMap.fill c.entries)
    (hforest : A.Forest t.generated) (hshows : t.dir.Shows row A) : t.Sane row A := by
  obtain ⟨hentry, hnodup⟩ := filled hshows hforest t.here
  rw [Tree.entries_eq hc, ← hmap] at hentry hnodup
  refine ⟨hshows, hforest, ?_, fun p hp => ?_, hentry, hnodup⟩
  · rw [hpath, List.map_drop]
    refine hs.walk.drop _ fun h => hne ?_
    rw [← List.map_drop, List.map_eq_nil_iff] at h
    rw [hpath, h]
  · exact hs.present p (List.mem_of_mem_drop (hpath ▸ hp))

/-- A file whose name stands for no other entry finds no entry of its name when it is put back. -/
theorem Sane.not_lost {newPathname filename : Str} {f : FileInfo} {es : List FileInfo}
    (hs : s.Sane row A)
    (hmistake : Unmistaken row s (.move newPathname filename))
    (hf : s.filesInPath.lookup filename = some f)
    (hc : A.contents s.here = some (.folder es)) :
    filename ∉ (es.filter (·.id ≠ f.id)).map FileInfo.name := by
  intro hname
  obtain ⟨e, he, hname⟩ := List.mem_map.mp hname
  obtain ⟨hmem, hid⟩ := List.mem_filter.mp he
  have hentry : e ∈ s.dir.entries row s.here := by
    rw [hs.shows.entries_eq, Tree.entries_eq hc]
    exact hmem
  exact absurd (hmistake f hf e hentry hname) (of_decide_eq_true hid)

/-- **Every call keeps it**, unless it loses a file. -/
theorem sane_did {B : Tree} {call : SessionCall} (hs : s.Sane row A) (hfit : Fits row s call)
    (hmistake : ok = true ∨ Unmistaken row s call) (hshows : t.dir.Shows row B)
    (hdid : Did s t A call ok B) (hgen : t.generated = newIds call ++ s.generated) :
      t.Sane row B := by
  cases hdid with
  | kept hpath hmap =>
      refine hs.stay hpath hshows (hs.forest.mono ?_) (fun _ _ _ h => h) (fun _ _ h => h)
        (hmap ▸ hs.entry)
        (hmap ▸ hs.nodup)
      rw [hgen]
      exact List.subset_append_right _ _
  | uploaded hc hname hpath hmap =>
      obtain ⟨hfield, hnew, -⟩ := hfit
      exact hs.added hc hnew (Clock.id_ne_storage _) (Content.ofFile_entries _) hpath hgen hshows
        (Or.inl ⟨hmap, newFile_clean hfield _ _ _⟩)
  | created hc hname hpath hmap =>
      obtain ⟨-, hnew, -⟩ := hfit
      exact hs.added hc hnew (Clock.id_ne_storage _) rfl hpath hgen hshows (Or.inr hmap)
  | renamed hf hc hpath hmap => exact hs.renamed hc hpath hmap hgen hshows
  | deleted hf hc hid hpath hmap => exact hs.deleted hf hc hpath hgen hmap hshows
  | moved hg hf hc hid htarget hname hpath hmap =>
      exact hs.put hf hc htarget hpath hgen hshows (Or.inr hmap)
  | restored hf hc hid hname hpath hmap =>
      exact hs.put hf hc (Tree.contents_taken ..) hpath hgen hshows (Or.inl ⟨hmap, rfl⟩)
  | lost hf hc hname hpath hmap =>
      exact absurd hname (hs.not_lost (hmistake.resolve_left Bool.false_ne_true) hf hc)
  | opened hf hc hpath hmap => exact hs.opened hf hc hpath hmap hgen hshows
  | shown hpath hne hc hmap =>
      exact hs.shown hpath hne hc hmap (hs.forest.mono (hgen ▸ List.subset_append_right _ _)) hshows

/-- **What every call keeps, and what it does.** -/
theorem sane_call {call : SessionCall} (hs : s.Sane row A) (hfit : Fits row s call)
    (hmistake : ok = true ∨ Unmistaken row s call) (h : s.call row fuel call = some (t, ok)) :
    ∃ B, t.Sane row B ∧ Did s t A call ok B := by
  obtain ⟨B, hshows, hdid, hgen⟩ := call_did hs hfit h
  exact ⟨B, sane_did hs hfit hmistake hshows hdid hgen, hdid⟩

/-! ## A user who has just been registered -/

/-- Nothing is listed anywhere yet. -/
theorem entries_first (h : ∀ f, A.contents f = if f = storageFolder
    then some (.folder []) else none)
    (f : Str) : A.entries f = [] := by
  rw [Tree.entries, h]
  split <;> rfl

theorem password_ne_contentCol (f : Str) : contentCol f ≠ "password".toList := by
  intro he
  have hlast := congrArg List.getLast? he
  rw [contentCol, List.getLast?_append] at hlast
  exact absurd (show some 't' = some 'd' from hlast) (by decide)

/-- **Registered where there are no contents**, a user has the outermost folder open, and it
is empty. -/
theorem resgister_sane {password : Str} (hfresh : ∀ f, d.cell row f = none)
    (h : (connect d).resgister row password = some (s, true)) : ∃ A : Tree, s.Sane row A ∧
      (∀ f, A.contents f = if f = storageFolder then some (.folder []) else none) ∧
      s.here = storageFolder ∧ s.filesInPath = ∅ := by
  obtain ⟨⟨r₁, v₁⟩, hpassword, h⟩ := Option.bind_eq_some_iff.mp h
  obtain rfl := sendGet_same hpassword
  -- a password that is there already ends the call
  split at h
  swap
  · cases h
  obtain ⟨⟨r₂, d₂⟩, hcput, h⟩ := Option.bind_eq_some_iff.mp h
  split at h
  · cases h
  obtain ⟨⟨r₃, d₃⟩, hname, h⟩ := Option.bind_eq_some_iff.mp h
  obtain ⟨⟨r₄, d₄⟩, hcontent, h⟩ := Option.bind_eq_some_iff.mp h
  obtain ⟨⟨r₅, v₅⟩, hget, h⟩ := Option.bind_eq_some_iff.mp h
  obtain rfl := sendGet_same hget
  obtain ⟨⟨u, ok⟩, hopen, he⟩ := Option.map_eq_some_iff.mp h
  cases he
  have hbefore : d₂.Shows row ⟨fun _ => none, d₂.nameCell row⟩ :=
    ⟨fun f => (Dir.cput_other (password_ne_contentCol f) hcput).trans (hfresh f),
      fun f c hf => (by cases hf), fun _ => rfl⟩
  have hshows := (hbefore.putName hname).putContent (c := .folder [])
    (fun e he => absurd he List.not_mem_nil) hcontent
  -- `open_folder` finds the entry that the constructor has made
  obtain ⟨f, hf, hopen⟩ := Option.bind_eq_some_iff.mp hopen
  obtain rfl : ⟨storageFolder, storageFolder, false, ['0'], ['0']⟩ = f := Option.some.inj hf
  obtain ⟨⟨response, d₆⟩, hlisting, hopen⟩ := Option.bind_eq_some_iff.mp hopen
  obtain ⟨rfl, rfl⟩ := hshows.get hlisting
  cases hopen
  refine ⟨_, ⟨hshows, ?_, .root, fun p hp => ?_, fun e he => absurd he List.not_mem_nil,
    List.nodup_nil⟩, fun f => ?_, rfl, rfl⟩
  · have hids : ∀ f, (Tree.setContent (Tree.setName ⟨fun _ => none, d₂.nameCell row⟩ storageFolder
        storageFolder) storageFolder (.folder [])).ids f = [] := by
      intro f
      rw [Tree.ids_setContent]
      split
      · rfl
      · rfl
    refine ⟨fun f => hids f ▸ List.nodup_nil, fun f g x hf => ?_, fun f hf => ?_, fun f x hf => ?_,
      fun f hf => Or.inl ?_⟩
    · rw [hids] at hf
      cases hf
    · rw [hids] at hf
      cases hf
    · rw [hids] at hf
      cases hf
    · rw [Tree.contents_setContent] at hf
      split at hf
      · assumption
      · exact absurd rfl hf
  · rw [List.mem_singleton.mp hp, Tree.contents_setContent, if_pos rfl]
    exact Option.some_ne_none _
  · rw [Tree.contents_setContent]
    rfl

end Storage

end Calls

end PennCloud
