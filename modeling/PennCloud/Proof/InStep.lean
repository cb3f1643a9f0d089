import PennCloud.Proof.Names

/-!
# Cells and listings in step

The ids that have a `:content` cell are those that are reached from the outermost
folder through the listings, each of them is listed once, and its `:name` cell
has the name that it is listed with. An upload or a new folder adds a leaf, and a
move takes an entry to a folder beside it. Three calls may break this: a deletion
of a folder with something in it leaves that behind, a move into itself takes a
folder out of reach, and a renaming puts one `:name` cell for all entries of the
old name. `guarded_inStep` says that nothing else does.
-/

namespace PennCloud

open Str Relation

/-! ## The tree -/

namespace Tree

variable {A : Tree} {f g x y : Str} {es es' : List FileInfo} {e : FileInfo} {c : Content}
  {used : List Str}

/-- What the listings lead to, from the outermost folder. -/
def Reached (A : Tree) (x : Str) : Prop := ReflTransGen (fun a b => b ∈ A.ids a) storageFolder x

/-- There is a content for what is reached, and the names are those of the listings. -/
structure InStep (A : Tree) : Prop where
  cells : ∀ x, A.contents x ≠ none ↔ A.Reached x
  names : ∀ f, ∀ e ∈ A.entries f, A.names e.id = some (e.name ++ crlf)

/-- **A new entry** is a leaf. -/
theorem InStep.added (h : A.InStep) (hf : A.contents f = some (.folder es))
    (hnew : A.contents e.id = none)
    (hx : ∀ g, e.id ∉ A.ids g) (hc : c.entries = []) : (A.added f es e c).InStep where
  cells x := by
    have hleaf : ∀ b, b ∉ A.ids e.id := by
      rw [ids, entries_none hnew]
      exact fun b => List.not_mem_nil
    have hreach : A.Reached f := (h.cells f).mp (by rw [hf]; exact Option.some_ne_none _)
    rw [Reached, Lib.reach_addLeaf (mem_ids_put (ids_added hf hnew hc)) hleaf hreach,
      present_added hf, h.cells]
    rfl
  names g e' he' := by
    have hkept : ∀ g, e' ∈ A.entries g →
      (A.added f es e c).names e'.id = some (e'.name ++ crlf) := by
      intro g he'
      have hne : e'.id ≠ e.id := fun hid => hx g (hid ▸ List.mem_map_of_mem he')
      rw [Tree.added, names_setContent, names_setName, if_neg hne]
      exact h.names g e' he'
    rw [entries_added hf hnew hc] at he'
    split at he'
    · rcases List.mem_append.mp he' with he' | he'
      · refine hkept f ?_
        rw [entries_eq hf]
        exact he'
      · rw [List.mem_singleton.mp he', Tree.added, names_setContent, names_setName, if_pos rfl]
    · exact hkept g he'

/-- What is in a folder after an entry has been taken off it. -/
theorem mem_entries_taken (hf : A.contents f = some (.folder es))
    (he : e ∈ (A.taken f es x).entries g) :
    e ∈ A.entries g ∧ (g = f → e.id ≠ x) := by
  rw [taken, entries_setFolder] at he
  split at he
  · rename_i hg
    obtain ⟨hmem, hid⟩ := List.mem_filter.mp he
    rw [hg, entries_eq hf]
    exact ⟨hmem, fun _ => of_decide_eq_true hid⟩
  · exact ⟨he, fun hg => absurd hg ‹_›⟩

/-- **A deletion of what has no entries** takes a leaf away. -/
theorem InStep.deleted (h : A.InStep) (hforest : A.Forest used)
    (hf : A.contents f = some (.folder es))
    (hx : x ∈ A.ids f) (hleaf : A.entries x = []) : ((A.taken f es x).drop x).InStep where
  cells y := by
    have hnone : ∀ b, b ∉ A.ids x := by
      rw [ids, hleaf]
      exact fun b => List.not_mem_nil
    have hstep : ∀ a b, b ∈ ((A.taken f es x).drop x).ids a ↔ b ∈ A.ids a ∧ b ≠ x := by
      intro a b
      -- the listing of `x` goes too, and there was nothing in it
      rw [ids_drop]
      split
      · rename_i ha
        exact iff_of_false List.not_mem_nil fun hb => hnone b (ha ▸ hb.1)
      · exact hforest.mem_taken hf hx a b
    have hroot : x ≠ storageFolder := by
      rintro rfl
      exact hforest.root f hx
    rw [Reached, Lib.reach_dropLeaf hstep hnone hroot, contents_drop]
    by_cases hy : y = x
    · rw [if_pos hy]
      exact iff_of_false (fun hne => hne rfl) fun hreach => hreach.2 hy
    · rw [if_neg hy, present_taken hf, and_iff_left hy]
      exact h.cells y
  names g e he := by
    rw [entries_drop] at he
    split at he
    · cases he
    · obtain ⟨hmem, hid⟩ := mem_entries_taken hf he
      have hne : e.id ≠ x :=
        fun hex => hid (hforest.once g f x (hex ▸ List.mem_map_of_mem hmem) hx) hex
      rw [names_drop, if_neg hne]
      exact h.names g e hmem

/-- **A move to a folder beside it** keeps an id in reach. -/
theorem InStep.moved (h : A.InStep) (hforest : A.Forest used)
    (hf : A.contents f = some (.folder es))
    (hx : e.id ∈ A.ids f) (hg : g ∈ A.ids f) (hne : g ≠ e.id)
    (htarget : (A.taken f es e.id).contents g = some (.folder es'))
    (hname : A.names e.id = some (e.name ++ crlf)) :
    ((A.taken f es e.id).setFolder g (es' ++ [e])).InStep where
  cells y := by
    have hstep : ∀ a b, b ∈ ((A.taken f es e.id).setFolder g (es' ++ [e])).ids a ↔
        b ∈ A.ids a ∧ b ≠ e.id ∨ a = g ∧ b = e.id := by
      intro a b
      rw [mem_ids_put (ids_append htarget), hforest.mem_taken hf hx]
    have hreach : A.Reached f := (h.cells f).mp (by rw [hf]; exact Option.some_ne_none _)
    rw [Reached, Lib.reach_move hstep (fun a ha => hforest.once a f e.id ha hx) hx hg hne hreach,
      present_setFolder _ htarget, present_taken hf]
    exact h.cells y
  names a e' he' := by
    rw [names_setFolder, taken, names_setFolder]
    rw [entries_setFolder] at he'
    split at he'
    · rcases List.mem_append.mp he' with he' | he'
      · refine h.names g e' (mem_entries_taken (x := e.id) hf ?_).1
        rw [entries_eq htarget]
        exact he'
      · rw [List.mem_singleton.mp he']
        exact hname
    · exact h.names a e' (mem_entries_taken hf he').1

/-- **A renaming of the one entry** that has the old name. -/
theorem InStep.renamed {isFile : Bool} {oldName newName : Str} (h : A.InStep)
    (hforest : A.Forest used)
    (hf : A.contents f = some (.folder es)) (hx : x ∈ A.ids f)
    (hone : ∀ e ∈ es, (e.id = x → e.name = oldName ∨ e.name = newName) ∧
      (e.id ≠ x → e.name = oldName → newName = oldName)) :
    ((A.setFolder f (es.map (FileInfo.renamed isFile oldName newName))).setName x newName).InStep
      where
  cells y := by
    rw [Reached]
    simp only [ids_renamed isFile oldName newName hf]
    rw [contents_setName, present_setFolder _ hf]
    exact h.cells y
  names g e' he' := by
    rw [names_setName]
    rw [entries_setName, entries_setFolder] at he'
    split at he'
    · obtain ⟨e, he, rfl⟩ := List.mem_map.mp he'
      have hname := h.names f e (by rw [entries_eq hf]; exact he)
      rw [FileInfo.renamed_id]
      -- the `:name` cell that is put is that of `x`, the lines are those of the old name
      by_cases hid : e.id = x
      · rw [if_pos hid, FileInfo.renamed]
        split
        · rfl
        · rw [((hone e he).1 hid).resolve_left ‹_›]
      · rw [if_neg hid, names_setFolder, FileInfo.renamed]
        split
        · rename_i hold
          rw [hname, hold, (hone e he).2 hid hold]
        · exact hname
    · rename_i hg
      have hid : e'.id ≠ x := fun hid => hg (hforest.once g f x (hid ▸ List.mem_map_of_mem he') hx)
      rw [if_neg hid, names_setFolder]
      exact h.names g e' he'

end Tree

/-! ## The cells -/

/-- The folder `a` lists `b`. -/
def Dir.Lists (row : Str) (d : Dir) (a b : Str) : Prop := b ∈ (d.entries row a).map FileInfo.id

/-- What the listings lead to, from the outermost folder. -/
def Dir.Reaches (row : Str) (d : Dir) (x : Str) : Prop := ReflTransGen (d.Lists row) storageFolder x

/-- **A user's cells are in step with the listings.** -/
structure Dir.InStep (row : Str) (d : Dir) : Prop where
  parses : ∀ f, (Storage.files (d.text row f)).isSome
  /-- The ids with contents are those that are reached. -/
  cells : ∀ x, d.cell row x ≠ none ↔ d.Reaches row x
  /-- Each is listed once, but for the outermost one. -/
  once : ∀ x, d.Reaches row x → x ≠ storageFolder →
    ∃ f, ((d.entries row f).map FileInfo.id).count x = 1 ∧ ∀ g, d.Lists row g x → g = f
  /-- A listing has the name that the name cell has. -/
  names : ∀ f, ∀ e ∈ d.entries row f, d.nameCell row e.id = some (e.name ++ crlf)

namespace Storage

variable {row : Str} {A B : Tree} {s t : Storage} {fuel : Nat} {call : SessionCall}

/-- In terms of the tree. -/
theorem Sane.inStep (hs : s.Sane row A) : s.dir.InStep row ↔ A.InStep := by
  have hentries : ∀ f, s.dir.entries row f = A.entries f := hs.shows.entries_eq
  have hlists : s.dir.Lists row = fun a b => b ∈ A.ids a := by
    funext a b
    rw [Dir.Lists, hentries]
    rfl
  have hreaches : ∀ x, s.dir.Reaches row x ↔ A.Reached x := fun x => by
    rw [Dir.Reaches, hlists]
    rfl
  have hcell : ∀ x, s.dir.cell row x ≠ none ↔ A.contents x ≠ none := by
    intro x
    rw [hs.shows.cell, ne_eq, Option.map_eq_none_iff]
  constructor
  · intro h
    refine ⟨fun x => ?_, fun f e he => ?_⟩
    · rw [← hcell, h.cells, hreaches]
    · rw [← hs.shows.names]
      exact h.names f e (hentries f ▸ he)
  · intro h
    refine ⟨fun f => ?_, fun x => ?_, fun x hx hroot => ?_, fun f e he => ?_⟩
    · rw [hs.shows.files_eq]
      rfl
    · rw [hcell, h.cells, hreaches]
    · -- the last listing on the way there
      obtain hx | ⟨f, -, hf⟩ := ReflTransGen.cases_tail ((hreaches x).mp hx)
      · exact absurd hx hroot
      · refine ⟨f, ?_, fun g hg => hs.forest.once g f x ?_ hf⟩
        · rw [hentries]
          exact List.count_eq_one_of_mem (hs.forest.nodup f) hf
        · rw [Dir.Lists, hentries] at hg
          exact hg
    · rw [hs.shows.names]
      exact h.names f e (hentries f ▸ he)

/-- Nothing is deleted that has entries, nothing is moved into itself, and a name stands for the one
entry that has it. -/
def KeepsStep (row : Str) (s : Storage) : SessionCall → Prop
  | .delete filename => ∀ f ∈ s.filesInPath.lookup filename, s.dir.entries row f.id = []
  | .move newPathname filename => ∀ f ∈ s.filesInPath.lookup filename,
      (∀ g ∈ s.filesInPath.lookup newPathname, g.id ≠ f.id) ∧
        ∀ e ∈ s.dir.entries row s.here, e.id = f.id → e.name = filename
  | .rename oldName newName => ∀ f ∈ s.filesInPath.lookup oldName, ∀ e ∈ s.dir.entries row s.here,
      (e.id = f.id → e.name = oldName ∨ e.name = newName) ∧
        (e.id ≠ f.id → e.name = oldName → newName = oldName)
  | .upload _ _ _ _ | .createFolder _ _ _ | .openFolder _ | .goBack _ | .refresh => True

instance (row : Str) (s : Storage) : DecidablePred (KeepsStep row s)
  | .delete filename => inferInstanceAs
      (Decidable (∀ f ∈ s.filesInPath.lookup filename, s.dir.entries row f.id = []))
  | .move newPathname filename => inferInstanceAs (Decidable (∀ f ∈ s.filesInPath.lookup filename,
      (∀ g ∈ s.filesInPath.lookup newPathname, g.id ≠ f.id) ∧
        ∀ e ∈ s.dir.entries row s.here, e.id = f.id → e.name = filename))
  | .rename oldName newName => inferInstanceAs (Decidable (∀ f ∈ s.filesInPath.lookup oldName,
      ∀ e ∈ s.dir.entries row s.here, (e.id = f.id → e.name = oldName ∨ e.name = newName) ∧
        (e.id ≠ f.id → e.name = oldName → newName = oldName)))
  | .upload _ _ _ _ | .createFolder _ _ _ | .openFolder _ | .goBack _ | .refresh => isTrue trivial

/-- **What a call that succeeds does**, keeps the tree in step. -/
theorem inStep_did (hs : s.Sane row A) (hdid : Did s t A call true B) (hfit : Fits row s call)
    (hkeeps : KeepsStep row s call) (hstep : A.InStep) : B.InStep := by
  cases hdid with
  | uploaded hc hname hpath hmap =>
      obtain ⟨-, hid, -⟩ := hfit
      obtain ⟨hnone, hnowhere⟩ := hs.forest.absent (Clock.id_ne_storage _) hid
      exact hstep.added hc hnone hnowhere (Content.ofFile_entries _)
  | created hc hname hpath hmap =>
      obtain ⟨-, hid, -⟩ := hfit
      obtain ⟨hnone, hnowhere⟩ := hs.forest.absent (Clock.id_ne_storage _) hid
      exact hstep.added hc hnone hnowhere rfl
  | @renamed oldName newName f es hf hc hpath hmap =>
      have hmem := hs.lookup_mem hf
      refine hstep.renamed hs.forest hc hmem fun e he => hkeeps f hf e ?_
      rw [hs.shows.entries_eq, Tree.entries_eq hc]
      exact he
  | @deleted filename f es hf hc hid hpath hmap =>
      have hleaf := hkeeps f hf
      rw [hs.shows.entries_eq] at hleaf
      exact hstep.deleted hs.forest hc (hs.lookup_mem hf) hleaf
  | @moved newPathname filename g f es es' hg hf hc hid htarget hname hpath hmap =>
      obtain ⟨hother, hnamed⟩ := hkeeps f hf
      have hmem := hs.lookup_mem hf
      refine hstep.moved (e := { f with name := filename }) hs.forest hc hmem
        (hs.lookup_mem hg) (hother g hg) htarget ?_
      obtain ⟨e, he, hef⟩ := Tree.mem_ids.mp hmem
      have hfilename : e.name = filename := hnamed e (by rwa [hs.shows.entries_eq]) hef
      have hcell := hstep.names s.here e he
      rwa [hef, hfilename] at hcell
  | opened hf hc hpath hmap => exact hstep
  | shown hpath hne hc hmap => exact hstep

/-- A call that succeeds. -/
def succeed (row : Str) (fuel : Nat) (s : Storage) (call : SessionCall) : Option Storage :=
  (s.call row fuel call).bind fun r => if r.2 then some r.1 else none

end Storage

/-! ## Sessions -/

section Sessions

variable {row password : Str} {fuel : Nat} {d : Dir} {s t : Storage} {calls : List SessionCall}

/-- **A session that keeps to this** has its cells in step with the listings. -/
theorem guarded_inStep (hfresh : ∀ f, d.cell row f = none)
    (hregistered : (Storage.connect d).resgister row password = some (s, true))
    (hguarded : Lib.Guarded (Storage.succeed row fuel)
      (fun s call => s.Fits row call ∧ s.KeepsStep row call) s calls)
    (hrun : Lib.run (Storage.succeed row fuel) s calls = some t) : t.dir.InStep row := by
  obtain ⟨A, hs, hcontents, -, -⟩ := Storage.resgister_sane hfresh hregistered
  have hempty := Storage.entries_first hcontents
  -- after registration the root folder is all there is
  have hinit : s.dir.InStep row := by
    refine hs.inStep.mpr ⟨fun x => ?_, fun f e he => ?_⟩
    · have hids : ∀ a b, b ∉ A.ids a := fun a b => by
        rw [Tree.ids, hempty]
        exact List.not_mem_nil
      rw [hcontents]
      split
      · rename_i hx
        rw [hx]
        exact iff_of_true (Option.some_ne_none _) .refl
      · rename_i hx
        refine iff_of_false (fun h => h rfl) fun h => ?_
        obtain h | ⟨a, -, ha⟩ := ReflTransGen.cases_tail h
        · exact hx h
        · exact hids a x ha
    · rw [hempty] at he
      cases he
  have hstep : ∀ s call t, (∃ A, s.Sane row A ∧ s.dir.InStep row) →
      s.Fits row call ∧ s.KeepsStep row call → Storage.succeed row fuel s call = some t →
        ∃ B, t.Sane row B ∧ t.dir.InStep row := by
    rintro s call t ⟨A, hs, hstep⟩ ⟨hfit, hkeeps⟩ ht
    obtain ⟨⟨u, ok⟩, hcall, ht⟩ := Option.bind_eq_some_iff.mp ht
    split at ht
    · rename_i hok
      obtain rfl : ok = true := hok
      cases ht
      obtain ⟨B, ht, hdid⟩ := Storage.sane_call hs hfit (Or.inl rfl) hcall
      exact ⟨B, ht, ht.inStep.mpr (Storage.inStep_did hs hdid hfit hkeeps (hs.inStep.mp hstep))⟩
    · cases ht
  obtain ⟨-, -, h⟩ := Lib.inv_of_guarded hstep ⟨A, hs, hinit⟩ hguarded hrun
  exact h

end Sessions

/-- A file is renamed, moved into a folder and deleted there, and then the folder. -/
def emptiedSession : List SessionCall :=
  [.createFolder ['f'] (clockAt 1) (clockAt 1), .upload ['a'] ['x'] (clockAt 2) (clockAt 2),
   .rename ['a'] ['c'], .refresh, .move ['f'] ['c'], .openFolder ['f'],
   .upload ['b'] [] (clockAt 3) (clockAt 3), .delete ['c'], .delete ['b'], .goBack 0, .delete ['f']]

theorem emptiedSession_inStep : ∃ s t,
    (Storage.connect emptyDir).resgister ['u'] ['p'] = some (s, true) ∧
      Lib.run (Storage.succeed ['u'] 6) s emptiedSession = some t ∧ t.dir.InStep ['u'] := by
  have hrun : ((Storage.connect emptyDir).resgister ['u'] ['p']).map (fun r => (r.2,
      decide (Lib.Guarded (Storage.succeed ['u'] 6)
        (fun s call => s.Fits ['u'] call ∧ s.KeepsStep ['u'] call) r.1 emptiedSession),
      (Lib.run (Storage.succeed ['u'] 6) r.1 emptiedSession).isSome)) = some (true,
      true, true) := by
    decide +kernel
  obtain ⟨⟨s, ok⟩, hregistered, he⟩ := Option.map_eq_some_iff.mp hrun
  obtain ⟨rfl, hguarded, ht⟩ : ok = true ∧ _ ∧ _ := by simpa using he
  obtain ⟨t, ht⟩ := Option.isSome_iff_exists.mp ht
  exact ⟨s, t, hregistered, ht, guarded_inStep (emptyDir_fresh ['u']) hregistered hguarded ht⟩

/-- A folder is deleted with a file in it. -/
def deletedFull : List SessionCall :=
  [.createFolder ['f'] (clockAt 1) (clockAt 1), .openFolder ['f'],
   .upload ['a'] ['x'] (clockAt 2) (clockAt 2), .goBack 0, .delete ['f']]

/-- A folder is moved into itself. -/
def movedIntoItself : List SessionCall :=
  [.createFolder ['f'] (clockAt 1) (clockAt 1), .move ['f'] ['f']]

/-- Where the outermost folder is empty, nothing else may have a content. -/
theorem not_inStep_of_stray {row x : Str} {d : Dir} (hempty : d.entries row storageFolder = [])
    (hx : x ≠ storageFolder) (hcell : d.cell row x ≠ none) : ¬ d.InStep row := by
  intro hstep
  obtain he | ⟨b, hb, -⟩ := ReflTransGen.cases_head ((hstep.cells x).mp hcell)
  · exact hx he.symm
  · rw [Dir.Lists, hempty] at hb
    cases hb

/-- The file of the one and the folder of the other have their contents still, and nothing
leads there. -/
theorem strays_not_inStep : ∃ s t u,
    (Storage.connect emptyDir).resgister ['u'] ['p'] = some (s, true) ∧
      Lib.run (Storage.succeed ['u'] 5) s deletedFull = some t ∧
      Lib.run (Storage.succeed ['u'] 5) s movedIntoItself = some u ∧
      ¬ t.dir.InStep ['u'] ∧ ¬ u.dir.InStep ['u'] := by
  have hruns : ((Storage.connect emptyDir).resgister ['u'] ['p']).map (fun r => (r.2,
      (Lib.run (Storage.succeed ['u'] 5) r.1 deletedFull).map fun t =>
        (t.dir.entries ['u'] storageFolder, (t.dir.cell ['u'] (clockAt 2).id).isSome),
      (Lib.run (Storage.succeed ['u'] 5) r.1 movedIntoItself).map fun t =>
        (t.dir.entries ['u'] storageFolder, (t.dir.cell ['u'] (clockAt 1).id).isSome)))
      = some (true, some ([], true), some ([], true)) := by decide +kernel
  obtain ⟨⟨s, ok⟩, hregistered, he⟩ := Option.map_eq_some_iff.mp hruns
  obtain ⟨rfl, ht, hu⟩ : ok = true ∧ _ ∧ _ := by simpa only [Prod.mk.injEq] using he
  obtain ⟨t, ht, he⟩ := Option.map_eq_some_iff.mp ht
  obtain ⟨u, hu, he'⟩ := Option.map_eq_some_iff.mp hu
  obtain ⟨hempty, hcell⟩ := Prod.mk.inj he
  obtain ⟨hempty', hcell'⟩ := Prod.mk.inj he'
  exact ⟨s, t, u, hregistered, ht, hu,
    not_inStep_of_stray hempty (Clock.id_ne_storage _) (Option.isSome_iff_ne_none.mp hcell),
    not_inStep_of_stray hempty' (Clock.id_ne_storage _) (Option.isSome_iff_ne_none.mp hcell')⟩

end PennCloud
