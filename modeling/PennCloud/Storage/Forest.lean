import PennCloud.Storage.Calls

/-!
# The folders as a forest

Each id is in at most one folder, the outermost one in none, and nothing is there
that has not been generated (`Tree.Forest`). A new entry keeps this, and so does
an entry that is taken off one folder and put on another. The map that `open_folder`
fills from a listing has the ids of the listing, each at most once.
-/

namespace PennCloud

/-! ## What a listing and its map have in common -/

namespace NameMap

variable {m : NameMap} {es : List FileInfo} {f : FileInfo} {name : Str}

theorem entries_insertNew (hname : name ∉ m) :
    (m.insertNew name f).entries = ⟨name, f⟩ :: m.entries := by
  rw [insertNew, if_neg hname, AList.entries_insert_of_notMem hname]

theorem insertNew_of_mem (hname : name ∈ m) : m.insertNew name f = m := if_pos hname

/-- The loop of `open_folder`, into a map. -/
def fillInto (m : NameMap) (es : List FileInfo) : NameMap :=
  es.foldl (fun m f => insertNew m f.name f) m

theorem ids_fillInto : ∀ (es : List FileInfo) (m : NameMap),
    (m.fillInto es).ids.Sublist ((es.map FileInfo.id).reverse ++ m.ids) := by
  intro es
  induction es with
  | nil => exact fun m => List.Sublist.refl _
  | cons f es ih =>
      intro m
      have hrest := ih (m.insertNew f.name f)
      rw [List.map_cons, List.reverse_cons, List.append_assoc]
      refine hrest.trans (List.Sublist.append_left ?_ _)
      by_cases hname : f.name ∈ m
      · rw [insertNew_of_mem hname]
        exact List.sublist_cons_self _ _
      · rw [ids, entries_insertNew hname]
        exact List.Sublist.refl _

/-- **Where the names are distinct, every entry gets its place.** -/
theorem ids_fillInto_of_distinct : ∀ (es : List FileInfo) (m : NameMap),
    (es.map FileInfo.name).Nodup → (∀ e ∈ es, e.name ∉ m) →
      (m.fillInto es).ids = (es.map FileInfo.id).reverse ++ m.ids := by
  intro es
  induction es with
  | nil => exact fun m _ _ => rfl
  | cons f es ih =>
      intro m hnodup hm
      rw [List.map_cons, List.nodup_cons] at hnodup
      have hf : f.name ∉ m := hm f List.mem_cons_self
      have hnext : ∀ e ∈ es, e.name ∉ m.insertNew f.name f := by
        intro e he
        rw [insertNew, if_neg hf, AList.mem_insert, not_or]
        exact ⟨fun h => hnodup.1 (h ▸ List.mem_map_of_mem he), hm e (List.mem_cons_of_mem _ he)⟩
      have hrest := ih (m.insertNew f.name f) hnodup.2 hnext
      rw [List.map_cons, List.reverse_cons, List.append_assoc]
      refine hrest.trans ?_
      rw [ids, entries_insertNew hf]
      rfl

theorem ids_fill : (fill es).ids.Sublist (es.map FileInfo.id).reverse := by
  have h := ids_fillInto es ∅
  rwa [show ids ∅ = [] from rfl, List.append_nil] at h

theorem ids_fill_of_distinct (h : (es.map FileInfo.name).Nodup) :
    (fill es).ids = (es.map FileInfo.id).reverse := by
  have hids := ids_fillInto_of_distinct es ∅ h fun e _ => AList.notMem_empty e.name
  rwa [show ids ∅ = [] from rfl, List.append_nil] at hids

theorem mem_fillInto {e : (_ : Str) × FileInfo} : ∀ (es : List FileInfo) (m : NameMap),
    e ∈ (m.fillInto es).entries → e ∈ m.entries ∨ (e.2 ∈ es ∧ e.2.name = e.1) := by
  intro es
  induction es with
  | nil => exact fun m h => Or.inl h
  | cons f es ih =>
      intro m h
      rcases ih (m.insertNew f.name f) h with h | ⟨h, hname⟩
      · by_cases hname : f.name ∈ m
        · rw [insertNew_of_mem hname] at h
          exact Or.inl h
        · rw [entries_insertNew hname] at h
          rcases List.mem_cons.mp h with rfl | h
          · exact Or.inr ⟨List.mem_cons_self, rfl⟩
          · exact Or.inl h
      · exact Or.inr ⟨List.mem_cons_of_mem _ h, hname⟩

/-- An entry of the map is one of the listing, under its name. -/
theorem mem_fill {e : (_ : Str) × FileInfo}
    (h : e ∈ (fill es).entries) : e.2 ∈ es ∧ e.2.name = e.1 :=
  (mem_fillInto es ∅ h).resolve_left List.not_mem_nil

theorem mem_of_lookup (h : m.lookup name = some f) : (⟨name, f⟩ : (_ :
    Str) × FileInfo) ∈ m.entries :=
  List.mem_dlookup_iff m.nodupKeys |>.mp h

/-- An entry that is erased takes its id with it. -/
theorem ids_erase (h : m.lookup name = some f) : m.ids.Perm (f.id :: ids (m.erase name)) := by
  have hmem := mem_of_lookup h
  obtain ⟨f', l₁, l₂, -, hl, herase⟩ := List.exists_of_kerase (List.mem_keys_of_mem hmem)
  have hf : (⟨name, f'⟩ : (_ : Str) × FileInfo) ∈ m.entries := by
    rw [hl]
    exact List.mem_append_right _ List.mem_cons_self
  have hsame : some f' = some f := ((AList.mem_lookup_iff).mpr hf).symm.trans h
  cases hsame
  rw [ids, ids, show (m.erase name).entries = l₁ ++ l₂ from herase, hl, List.map_append,
    List.map_append, List.map_cons]
  exact List.perm_middle

theorem mem_of_erase {e : (_ : Str) × FileInfo} (h : e ∈ (m.erase name).entries) : e ∈ m.entries :=
  (List.kerase_sublist name m.entries).subset h

end NameMap

/-! ## Forests -/

namespace Tree

variable {A B : Tree} {used : List Str} {f g id x : Str} {es : List FileInfo}
  {e : FileInfo} {c : Content}

/-- Each id is listed at most once, the outermost folder nowhere, and only what has been
generated. -/
structure Forest (A : Tree) (used : List Str) : Prop where
  nodup : ∀ f, (A.ids f).Nodup
  once : ∀ f g x, x ∈ A.ids f → x ∈ A.ids g → f = g
  root : ∀ f, storageFolder ∉ A.ids f
  listed : ∀ f x, x ∈ A.ids f → x ∈ used
  present : ∀ f, A.contents f ≠ none → f = storageFolder ∨ f ∈ used

theorem entries_eq (h : A.contents f = some c) : A.entries f = c.entries := by rw [entries, h]; rfl

theorem entries_none (h : A.contents f = none) : A.entries f = [] := by rw [entries, h]; rfl

@[simp] theorem entries_setContent (g : Str) :
    (A.setContent f c).entries g = if g = f then c.entries else A.entries g := by
  rw [entries, contents_setContent]
  split <;> rfl

@[simp] theorem entries_setFolder (g : Str) :
    (A.setFolder f es).entries g = if g = f then es else A.entries g := entries_setContent g

@[simp] theorem entries_setName {name : Str}
    (g : Str) : (A.setName id name).entries g = A.entries g := rfl

@[simp] theorem entries_drop (g : Str) :
    (A.drop id).entries g = if g = id then [] else A.entries g := by
  rw [entries, contents_drop]
  split <;> rfl

@[simp] theorem ids_setContent (g : Str) :
    (A.setContent f c).ids g = if g = f then c.entries.map FileInfo.id else A.ids g := by
  rw [ids, entries_setContent]
  split <;> rfl

@[simp] theorem ids_setFolder (g : Str) :
    (A.setFolder f es).ids g = if g = f then es.map FileInfo.id else A.ids g := ids_setContent g

@[simp] theorem ids_setName {name : Str} (g : Str) : (A.setName id name).ids g = A.ids g := rfl

@[simp] theorem ids_drop (g : Str) : (A.drop id).ids g = if g = id then [] else A.ids g := by
  rw [ids, entries_drop]
  split <;> rfl

theorem ids_eq (h : A.contents f = some (.folder es)) : A.ids f = es.map FileInfo.id := by
  rw [ids, entries_eq h]
  rfl

theorem ids_taken (h : A.contents f = some (.folder es)) (g : Str) :
    (A.taken f es x).ids g = if g = f then (A.ids f).filter (· ≠ x) else A.ids g := by
  rw [taken, ids_setFolder, ids_eq h, List.filter_map]
  rfl

theorem ids_append (h : A.contents f = some (.folder es)) (g : Str) :
    (A.setFolder f (es ++ [e])).ids g = if g = f then A.ids f ++ [e.id] else A.ids g := by
  rw [ids_setFolder, ids_eq h, List.map_append]
  rfl

theorem ids_renamed (isFile : Bool) (oldName newName : Str) (h : A.contents f = some (.folder es))
    (g : Str) :
    ((A.setFolder f (es.map (FileInfo.renamed isFile oldName newName))).setName x newName).ids g
      = A.ids g := by
  rw [ids_setName, ids_setFolder]
  split
  · rename_i hg
    rw [hg, ids_eq h, List.map_map]
    exact List.map_congr_left fun e _ => FileInfo.renamed_id _ _ _ e
  · rfl

/-- An id that is new has no entries before or after: those of the others are what they were. -/
theorem entries_added (h : A.contents f = some (.folder es)) (hnew : A.contents e.id = none)
    (hc : c.entries = []) (g : Str) :
    (A.added f es e c).entries g = if g = f then es ++ [e] else A.entries g := by
  rw [added, entries_setContent, entries_setName, entries_setFolder, hc]
  by_cases hg : g = e.id
  · have hgf : g ≠ f := by
      rintro rfl
      rw [hg, hnew] at h
      cases h
    rw [if_pos hg, if_neg hgf, hg, entries_none hnew]
  · rw [if_neg hg]

theorem ids_added (h : A.contents f = some (.folder es)) (hnew : A.contents e.id = none)
    (hc : c.entries = []) (g : Str) :
    (A.added f es e c).ids g = if g = f then A.ids f ++ [e.id] else A.ids g := by
  rw [ids, entries_added h hnew hc, ids_eq h]
  split
  · rw [List.map_append]
    rfl
  · rfl

/-- Where one folder has got one entry more. -/
theorem mem_ids_put (hids : ∀ g, B.ids g = if g = f then A.ids f ++ [x] else A.ids g) (g y : Str) :
    y ∈ B.ids g ↔ y ∈ A.ids g ∨ g = f ∧ y = x := by
  rw [hids]
  by_cases hg : g = f
  · rw [if_pos hg, hg, List.mem_append, List.mem_singleton]
    simp
  · rw [if_neg hg]
    simp [hg]

/-! What is there after a change. -/

theorem present_setContent (g : Str) :
    (A.setContent f c).contents g ≠ none ↔ g = f ∨ A.contents g ≠ none := by
  rw [contents_setContent]
  by_cases hg : g = f
  · rw [if_pos hg]
    exact iff_of_true (Option.some_ne_none c) (Or.inl hg)
  · rw [if_neg hg, or_iff_right hg]

/-- A folder that is written anew is there as before. -/
theorem present_setFolder (es : List FileInfo) (h : A.contents f = some c) (g : Str) :
    (A.setFolder f es).contents g ≠ none ↔ A.contents g ≠ none := by
  refine (present_setContent g).trans (or_iff_right_of_imp ?_)
  rintro rfl
  rw [h]
  exact Option.some_ne_none c

theorem present_taken (h : A.contents f = some (.folder es)) (g : Str) :
    (A.taken f es x).contents g ≠ none ↔ A.contents g ≠ none := present_setFolder _ h g

theorem present_added (h : A.contents f = some (.folder es)) (g : Str) :
    (A.added f es e c).contents g ≠ none ↔ A.contents g ≠ none ∨ g = e.id := by
  rw [added, present_setContent, contents_setName, present_setFolder _ h, or_comm]

theorem mem_ids : x ∈ A.ids f ↔ ∃ e ∈ A.entries f, e.id = x := List.mem_map

/-- Without some of its entries, and without some contents. -/
theorem Forest.shrink (h : A.Forest used) (hids : ∀ f, (B.ids f).Sublist (A.ids f))
    (hpresent : ∀ f, B.contents f ≠ none → A.contents f ≠ none) : B.Forest used where
  nodup f := (h.nodup f).sublist (hids f)
  once f g x hf hg := h.once f g x ((hids f).subset hf) ((hids g).subset hg)
  root f hf := h.root f ((hids f).subset hf)
  listed f x hf := h.listed f x ((hids f).subset hf)
  present f hf := h.present f (hpresent f hf)

/-- With an id in one folder that has been in none. -/
theorem Forest.put (h : A.Forest used) (hx : ∀ f, x ∉ A.ids f) (hroot : x ≠ storageFolder)
    (hused : x ∈ used)
    (hids : ∀ f, B.ids f = if f = g then A.ids g ++ [x] else A.ids f)
    (hpresent : ∀ f, B.contents f ≠ none → A.contents f ≠ none ∨ f = x) : B.Forest used := by
  have hmem : ∀ {f y}, y ∈ B.ids f → y ∈ A.ids f ∨ f = g ∧ y = x := fun {f y} =>
    (mem_ids_put hids f y).mp
  constructor
  · intro f
    rw [hids]
    split
    · exact List.nodup_append.mpr ⟨h.nodup g, List.nodup_singleton x, fun a ha b hb hab =>
        hx g (List.mem_singleton.mp hb ▸ hab ▸ ha)⟩
    · exact h.nodup f
  · intro f f' y hf hf'
    rcases hmem hf with hf | ⟨rfl, rfl⟩
    · rcases hmem hf' with hf' | ⟨rfl, rfl⟩
      · exact h.once f f' y hf hf'
      · exact absurd hf (hx f)
    · rcases hmem hf' with hf' | ⟨rfl, -⟩
      · exact absurd hf' (hx f')
      · rfl
  · intro f hf
    rcases hmem hf with hf | ⟨-, hf⟩
    · exact h.root f hf
    · exact hroot hf.symm
  · intro f y hf
    rcases hmem hf with hf | ⟨-, rfl⟩
    · exact h.listed f y hf
    · exact hused
  · intro f hf
    rcases hpresent f hf with hf | rfl
    · exact h.present f hf
    · exact Or.inr hused

theorem Forest.mono {used' : List Str} (h : A.Forest used)
    (hsub : used ⊆ used') : A.Forest used' where
  nodup := h.nodup
  once := h.once
  root := h.root
  listed f x hf := hsub (h.listed f x hf)
  present f hf := (h.present f hf).imp_right (@hsub f)

/-- A new entry keeps the forest. -/
theorem Forest.added (h : A.Forest used) (hf : A.contents f = some (.folder es))
    (hnew : A.contents e.id = none) (hx : ∀ f, e.id ∉ A.ids f) (hroot : e.id ≠ storageFolder)
    (hc : c.entries = []) : (A.added f es e c).Forest (e.id :: used) :=
  (h.mono (List.subset_cons_self _ _)).put (g := f) hx hroot List.mem_cons_self
    (ids_added hf hnew hc)
    fun g => (present_added hf g).mp

/-- An id is taken off the one folder that has it. -/
theorem Forest.mem_taken (h : A.Forest used) (hf : A.contents f = some (.folder es))
    (hx : x ∈ A.ids f)
    (g y : Str) : y ∈ (A.taken f es x).ids g ↔ y ∈ A.ids g ∧ y ≠ x := by
  rw [ids_taken hf]
  split
  · rename_i hg
    rw [hg, List.mem_filter, decide_eq_true_iff]
  · rename_i hg
    refine ⟨fun hy => ⟨hy, ?_⟩, And.left⟩
    rintro rfl
    exact hg (h.once g f y hy hx)

/-- An id that is taken off its folder is in none. -/
theorem Forest.taken (h : A.Forest used) (hf : A.contents f = some (.folder es))
    (hx : x ∈ A.ids f) :
    (A.taken f es x).Forest used ∧ ∀ g, x ∉ (A.taken f es x).ids g := by
  refine ⟨h.shrink (fun g => ?_) fun g => (present_taken hf g).mp, fun g hg => ?_⟩
  · rw [ids_taken hf]
    split
    · rename_i hgf
      exact hgf ▸ List.filter_sublist
    · exact List.Sublist.refl _
  · exact ((h.mem_taken hf hx g x).mp hg).2 rfl

/-- An entry whose id is in no folder may be put behind any listing. -/
theorem Forest.append (h : A.Forest used) (hf : A.contents f = some (.folder es))
    (hx : ∀ g, e.id ∉ A.ids g)
    (hroot : e.id ≠ storageFolder) (hused : e.id ∈ used) :
      (A.setFolder f (es ++ [e])).Forest used :=
  h.put (g := f) hx hroot hused (ids_append hf) fun g hg =>
    Or.inl ((present_setFolder _ hf g).mp hg)

/-- An id that has not been generated is nowhere. -/
theorem Forest.absent (h : A.Forest used) (hroot : x ≠ storageFolder) (hused : x ∉ used) :
    A.contents x = none ∧ ∀ f, x ∉ A.ids f := by
  refine ⟨?_, fun f hf => hused (h.listed f x hf)⟩
  by_contra hx
  rcases h.present x hx with hx | hx
  · exact hroot hx
  · exact hused hx

end Tree

end PennCloud
