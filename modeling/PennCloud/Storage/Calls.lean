import PennCloud.Storage.Tree

/-!
# What each call does to the tree

A call that runs alone finds every listing as it has got it, so each `CPUT` is
accepted at once, and the loops of `send_cput_command_add` and
`send_cput_command_delete` make no second round. `finish_upload`, `finish_rename`,
`finish_delete` and `finish_move` say what is left then. A move may fail when the
file is off its folder already; it is put back, unless the folder has got another
entry of that name.

`Storage.Did` lists the outcomes of the calls of a session, with what they leave
in `path` and `files_in_path`.
-/

namespace PennCloud

open Str

namespace Tree

/-- A new entry, and its own two cells. -/
def added (A : Tree) (path : Str) (es : List FileInfo) (e : FileInfo) (c : Content) : Tree :=
  ((A.setFolder path (es ++ [e])).setName e.id e.name).setContent e.id c

/-- An entry is taken off a folder. -/
def taken (A : Tree) (path : Str) (es : List FileInfo) (id : Str) : Tree :=
  A.setFolder path (es.filter (·.id ≠ id))

theorem contents_taken (A : Tree) (path : Str) (es : List FileInfo) (id : Str) :
    (A.taken path es id).contents path = some (.folder (es.filter (·.id ≠ id))) := by
  rw [taken, contents_setFolder, if_pos rfl]

end Tree

section Alone

variable {row : Str} {s t : Dir} {A : Tree} {p q : DirPc} {n : Nat} {es : List FileInfo}

theorem Dir.finish_next (hp : p.ended = false) (h : s.finish row n p = some (t, q)) :
    ∃ m u p', s.next row p = some (u, p') ∧ u.finish row m p' = some (t, q) := by
  cases n with
  | zero =>
      rw [Dir.finish, hp] at h
      cases h
  | succ n =>
      rw [Dir.finish, hp] at h
      obtain ⟨⟨u, p'⟩, hnext, hrest⟩ := Option.bind_eq_some_iff.mp h
      exact ⟨n, u, p', hnext, hrest⟩

theorem Dir.finish_ended (hp : p.ended = true)
    (h : s.finish row n p = some (t, q)) : t = s ∧ q = p := by
  cases n <;> rw [Dir.finish, hp] at h <;> cases h <;> exact ⟨rfl, rfl⟩

/-- The listing of a call's folder has been got. -/
theorem Dir.Shows.start {c : DirCall} {content : Content} (hs : s.Shows row A)
    (hf : A.contents c.path = some content) (h : s.next row (.start c) = some (t, q)) :
    t = s ∧ c.begin content.text = some q := by
  obtain ⟨⟨response, u⟩, hget, hbegin⟩ := Option.bind_eq_some_iff.mp h
  obtain ⟨rfl, rfl⟩ := hs.get hget
  obtain ⟨q', hbegin, he⟩ := Option.map_eq_some_iff.mp hbegin
  cases he
  rw [hf] at hbegin
  exact ⟨rfl, hbegin⟩

/-- A `GET` of a listing that has entries brings them. -/
theorem folder_got (hes : ∀ e ∈ es, e.Clean) (hnil : es ≠ []) :
    ¬ ((Content.folder es).text = nullReply ∨ (Content.folder es).text = []) :=
  not_or.mpr ⟨(isListing_text hes).ne_nullReply, fun h => hnil (listingText_eq_nil.mp h)⟩

/-- The test for the name: a listing without it goes on to the `CPUT`. -/
theorem check_text {a : Addition} {conflict : Str} (hes : ∀ e ∈ es, e.Clean) :
    a.check conflict (listingText es) = some (if a.file.name ∈ es.map FileInfo.name
      then a.after conflict
      else .add a (listingText es)) := by
  unfold Addition.check
  by_cases hnil : listingText es = []
  · rw [if_pos hnil, listingText_eq_nil.mp hnil]
    rfl
  · rw [if_neg hnil, existSameFileName_text hes, Option.map_some]
    by_cases hname : a.file.name ∈ es.map FileInfo.name
    · rw [if_pos hname, decide_eq_true hname]
      rfl
    · rw [if_neg hname, decide_eq_false hname]
      rfl

/-- **The line is put on the listing.** -/
theorem Dir.Shows.add {a : Addition} (hs : s.Shows row A)
    (hf : A.contents a.path = some (.folder es))
    (he : a.file.Clean) (h : s.next row (.add a (listingText es)) = some (t, q)) :
    q = a.after replyOK ∧ t.Shows row (A.setFolder a.path (es ++ [a.file])) := by
  obtain ⟨⟨response, u⟩, hput, hnext⟩ := Option.map_eq_some_iff.mp h
  rw [← listingText_concat] at hput
  have hclean : ∀ e ∈ es ++ [a.file], e.Clean := fun e hmem => by
    rcases List.mem_append.mp hmem with hmem | hmem
    · exact hs.clean _ _ hf e hmem
    · exact List.mem_singleton.mp hmem ▸ he
  obtain ⟨rfl, hshows⟩ := hs.cput hf hclean hput
  have hok : ¬ "-ERR".toList <:+: replyOK := by decide
  simp only [if_neg hok, Prod.mk.injEq] at hnext
  obtain ⟨rfl, rfl⟩ := hnext
  refine ⟨rfl, ?_⟩
  cases a <;> exact ⟨hshows.cell, hshows.clean, hshows.names⟩

/-- **The entry is taken off the listing.** -/
theorem Dir.Shows.remove {r : Removal} {hasDeleted : Bool} (hs : s.Shows row A)
    (hf : A.contents r.path = some (.folder es))
    (h : s.next row (.remove r (listingText es) (listingText (es.filter (·.id ≠ r.id))) hasDeleted)
      = some (t, q)) :
    q = r.after hasDeleted replyOK ∧ t.Shows row (A.taken r.path es r.id) := by
  obtain ⟨⟨response, u⟩, hput, hnext⟩ := Option.map_eq_some_iff.mp h
  obtain ⟨rfl, hshows⟩ := hs.cput hf (fun e he => hs.clean _ _ hf e (List.mem_filter.mp he).1) hput
  have hok : ¬ "-ERR".toList <:+: replyOK := by decide
  simp only [if_neg hok, Prod.mk.injEq] at hnext
  obtain ⟨rfl, rfl⟩ := hnext
  refine ⟨rfl, ?_⟩
  split <;> exact ⟨hshows.cell, hshows.clean, hshows.names⟩

/-- The scan before that. -/
theorem scan_text {r : Removal} {hasDeleted : Bool} (hes : ∀ e ∈ es, e.Clean) :
    r.scan (listingText es) hasDeleted = some (.remove r (listingText es)
      (listingText (es.filter (·.id ≠ r.id)))
        (hasDeleted && !decide (r.id ∈ es.map FileInfo.id))) := by
  rw [Removal.scan, scanDelete_text hes]
  rfl

/-- Nothing is taken off a listing that does not have the id. -/
theorem taken_same {path id : Str} (hf : A.contents path = some (.folder es))
    (hid : id ∉ es.map FileInfo.id) : A.taken path es id = A := by
  have hfilter : es.filter (·.id ≠ id) = es := List.filter_eq_self.mpr fun e he =>
    decide_eq_true fun h => hid (h ▸ List.mem_map_of_mem he)
  rw [Tree.taken, hfilter, Tree.setFolder, Tree.setContent, Function.update_eq_self_iff.mpr hf.symm]

/-! ## Uploads and new folders -/

/-- What `upload_file` and `create_folder` do with a listing that has entries: they look for the
name, and `send_cput_command_add` does so once more. -/
theorem exist_then_check {u : Upload} {conflict : Str} (hes : ∀ e ∈ es, e.Clean) :
    ((existSameFileName u.file.name (parseContentFileNames (listingText es))).bind fun exist =>
      if exist then some (.done (.upload u) false)
      else (Addition.upload u).check conflict (listingText es))
      = some (if u.file.name ∈ es.map FileInfo.name
        then .done (.upload u) false else .add (.upload u) (listingText es)) := by
  rw [existSameFileName_text hes, Option.bind_some]
  by_cases hname : u.file.name ∈ es.map FileInfo.name
  · rw [if_pos hname, decide_eq_true hname]
    rfl
  · rw [if_neg hname, decide_eq_false hname, if_neg Bool.false_ne_true, check_text hes]
    exact congrArg some (if_neg hname)

theorem begin_upload {u : Upload} (hes : ∀ e ∈ es, e.Clean) :
    (DirCall.upload u).begin (listingText es) = some (if u.file.name ∈ es.map FileInfo.name
      then .done (.upload u) false else .add (.upload u) (listingText es)) := by
  have hnull : listingText es ≠ nullReply := (isListing_text hes).ne_nullReply
  simp only [DirCall.begin, if_neg hnull]
  cases es with
  | nil => rfl
  | cons e es =>
      have hnames : parseContentFileNames (listingText (e :: es)) ≠ [] := by
        rw [fileNames_text hes]
        exact List.cons_ne_nil _ _
      rw [if_neg hnames]
      exact exist_then_check hes

theorem begin_folder {u : Upload} (hes : ∀ e ∈ es, e.Clean) :
    u.beginFolder (listingText es) = some (if u.file.name ∈ es.map FileInfo.name
      then .done (.upload u) false else .add (.upload u) (listingText es)) := by
  have hnull : listingText es ≠ nullReply := (isListing_text hes).ne_nullReply
  rw [Upload.beginFolder, if_neg hnull]
  cases es with
  | nil => rfl
  | cons e es =>
      rw [if_neg (fun h => List.cons_ne_nil e es (listingText_eq_nil.mp h))]
      exact exist_then_check hes

/-- **An upload, once its folder has no entry of the name**: the entry, then its two cells. -/
theorem finish_add {u : Upload} {c : Content} (hs : s.Shows row A)
    (hf : A.contents u.path = some (.folder es)) (he : u.file.Clean) (hc : c.Clean)
    (htext : u.content = c.text)
    (h : s.finish row n (.add (.upload u) (listingText es)) = some (t, q)) :
    q.result = true ∧ t.Shows row (A.added u.path es u.file c) := by
  obtain ⟨m, s₁, p₁, hadd, h⟩ := Dir.finish_next rfl h
  obtain ⟨rfl, hs₁⟩ := hs.add (a := .upload u) hf he hadd
  have hafter : (Addition.upload u).after replyOK = .putName u := rfl
  rw [hafter] at h
  obtain ⟨m, s₂, p₂, hname, h⟩ := Dir.finish_next rfl h
  obtain ⟨⟨r₂, v₂⟩, hput, he₂⟩ := Option.map_eq_some_iff.mp hname
  cases he₂
  obtain ⟨m, s₃, p₃, hcontent, h⟩ := Dir.finish_next rfl h
  obtain ⟨⟨r₃, v₃⟩, hput', he₃⟩ := Option.map_eq_some_iff.mp hcontent
  cases he₃
  obtain ⟨rfl, rfl⟩ := Dir.finish_ended rfl h
  rw [htext] at hput'
  exact ⟨rfl, (hs₁.putName hput).putContent hc hput'⟩

/-- **What `upload_file` does.** -/
theorem finish_upload {u : Upload} {c : Content} (hs : s.Shows row A)
    (hf : A.contents u.path = some (.folder es)) (he : u.file.Clean) (hc : c.Clean)
    (htext : u.content = c.text) (h : s.finish row n (.start (.upload u)) = some (t, q)) :
    (q.result = false ∧ t = s ∧ u.file.name ∈ es.map FileInfo.name) ∨
      (q.result = true ∧ u.file.name ∉ es.map FileInfo.name ∧
        t.Shows row (A.added u.path es u.file c)) := by
  obtain ⟨m, s₁, p₁, hstart, h⟩ := Dir.finish_next rfl h
  obtain ⟨rfl, hbegin⟩ := hs.start (c := .upload u) hf hstart
  rw [Content.text, begin_upload (hs.clean _ _ hf)] at hbegin
  cases hbegin
  by_cases hname : u.file.name ∈ es.map FileInfo.name
  · rw [if_pos hname] at h
    obtain ⟨rfl, rfl⟩ := Dir.finish_ended rfl h
    exact Or.inl ⟨rfl, rfl, hname⟩
  · rw [if_neg hname] at h
    obtain ⟨hresult, hshows⟩ := finish_add hs hf he hc htext h
    exact Or.inr ⟨hresult, hname, hshows⟩

/-! ## Renaming -/

/-- **What `rename_file` does.** -/
theorem finish_rename {r : Renaming} (hs : s.Shows row A)
    (hf : A.contents r.path = some (.folder es))
    (hnew : IsField r.newName) (h : s.finish row n (.start (.rename r)) = some (t, q)) :
    (q.result = false ∧ t = s) ∨ (q.result = true ∧ t.Shows row
      ((A.setFolder r.path (es.map (FileInfo.renamed r.isFile r.oldName r.newName))).setName
        r.id r.newName)) := by
  have hes := hs.clean _ _ hf
  obtain ⟨m, s₁, p₁, hstart, h⟩ := Dir.finish_next rfl h
  obtain ⟨rfl, hbegin⟩ := hs.start (c := .rename r) hf hstart
  by_cases hnil : es = []
  · subst hnil
    cases hbegin
    obtain ⟨rfl, rfl⟩ := Dir.finish_ended rfl h
    exact Or.inl ⟨rfl, rfl⟩
  · have hscan : r.scan (listingText es) = some (.rewrite r (listingText es)
        (listingText (es.map (FileInfo.renamed r.isFile r.oldName r.newName)))) := by
      rw [Renaming.scan, scanRename_text hes]
      rfl
    rw [DirCall.begin, if_neg (folder_got hes hnil)] at hbegin
    cases hscan.symm.trans hbegin
    obtain ⟨m, s₂, p₂, hrewrite, h⟩ := Dir.finish_next rfl h
    obtain ⟨⟨response, v⟩, hput, hnext⟩ := Option.map_eq_some_iff.mp hrewrite
    have hclean : ∀ e ∈ es.map (FileInfo.renamed r.isFile r.oldName r.newName), e.Clean := by
      intro e he
      obtain ⟨e', he', rfl⟩ := List.mem_map.mp he
      exact (hes e' he').renamed _ _ hnew
    obtain ⟨rfl, hs₂⟩ := hs.cput hf hclean hput
    obtain ⟨rfl, rfl⟩ := Prod.mk.inj hnext
    obtain ⟨m, s₃, p₃, hname, h⟩ := Dir.finish_next rfl h
    obtain ⟨⟨response', w⟩, hput', hnext'⟩ := Option.map_eq_some_iff.mp hname
    cases hnext'
    obtain ⟨rfl, rfl⟩ := Dir.finish_ended rfl h
    exact Or.inr ⟨rfl, hs₂.putName hput'⟩

/-! ## Deletions and moves -/

/-- **What `send_cput_command_delete` does**: the call ends, or goes on without the entry. -/
theorem finish_removal {r : Removal} {c : DirCall} (hs : s.Shows row A)
    (hf : A.contents r.path = some (.folder es)) (hpath : c.path = r.path)
    (hdone : ∀ response, (r.after true response) = .done c false)
    (hbegin : ∀ content, c.begin content = if content = nullReply ∨ content = [] then
      some (.done c false) else r.scan content true)
    (h : s.finish row n (.start c) = some (t, q)) :
    (r.id ∉ es.map FileInfo.id ∧ q = .done c false ∧ t.Shows row A) ∨
      (r.id ∈ es.map FileInfo.id ∧ ∃ (m : Nat) (u : Dir), u.Shows row (A.taken r.path es r.id) ∧
        u.finish row m (r.after false replyOK) = some (t, q)) := by
  have hes := hs.clean _ _ hf
  obtain ⟨m, s₁, p₁, hstart, h⟩ := Dir.finish_next rfl h
  obtain ⟨rfl, hnext⟩ := hs.start (c := c) (hpath ▸ hf) hstart
  rw [hbegin] at hnext
  by_cases hnil : es = []
  · subst hnil
    cases hnext
    obtain ⟨rfl, rfl⟩ := Dir.finish_ended rfl h
    exact Or.inl ⟨List.not_mem_nil, rfl, hs⟩
  · rw [if_neg (folder_got hes hnil)] at hnext
    cases (scan_text hes).symm.trans hnext
    obtain ⟨m, s₂, p₂, hremove, h⟩ := Dir.finish_next rfl h
    obtain ⟨rfl, hs₂⟩ := hs.remove hf hremove
    by_cases hid : r.id ∈ es.map FileInfo.id
    · rw [decide_eq_true hid] at h
      exact Or.inr ⟨hid, m, s₂, hs₂, h⟩
    · rw [decide_eq_false hid, Bool.not_false, Bool.and_true, hdone] at h
      obtain ⟨rfl, rfl⟩ := Dir.finish_ended rfl h
      exact Or.inl ⟨hid, rfl, taken_same hf hid ▸ hs₂⟩

/-- **What `delete_file` does.** -/
theorem finish_delete {d : Deletion} (hs : s.Shows row A)
    (hf : A.contents d.path = some (.folder es))
    (h : s.finish row n (.start (.delete d)) = some (t, q)) :
    (q.result = false ∧ t.Shows row A) ∨ (q.result = true ∧ d.id ∈ es.map FileInfo.id ∧
      t.Shows row ((A.taken d.path es d.id).drop d.id)) := by
  rcases finish_removal (r := .delete d) hs hf rfl (fun _ => rfl) (fun _ => rfl) h with
    ⟨-, rfl, hshows⟩ | ⟨hid, m, s₁, hs₁, h⟩
  · exact Or.inl ⟨rfl, hshows⟩
  · have hafter : (Removal.delete d).after false replyOK = .deleteName d := rfl
    rw [hafter] at h
    obtain ⟨m, s₂, p₂, hname, h⟩ := Dir.finish_next rfl h
    obtain ⟨⟨r₂, v₂⟩, hdel, he₂⟩ := Option.map_eq_some_iff.mp hname
    cases he₂
    obtain ⟨m, s₃, p₃, hcontent, h⟩ := Dir.finish_next rfl h
    obtain ⟨⟨r₃, v₃⟩, hdel', he₃⟩ := Option.map_eq_some_iff.mp hcontent
    cases he₃
    obtain ⟨rfl, rfl⟩ := Dir.finish_ended rfl h
    exact Or.inr ⟨rfl, hid, hs₁.delete hdel hdel'⟩

/-- What `recover_old_path` does: the entry is put back, unless its name has been given again. -/
theorem finish_recover {m : Move} (hs : s.Shows row A) (hf : A.contents m.old = some (.folder es))
    (he : m.file.Clean) (h : s.finish row n (.recover m) = some (t, q)) :
      q = .done (.move m) false ∧
      ((m.file.name ∈ es.map FileInfo.name ∧ t.Shows row A) ∨
        (m.file.name ∉ es.map FileInfo.name ∧
          t.Shows row (A.setFolder m.old (es ++ [m.file])))) := by
  have hes := hs.clean _ _ hf
  obtain ⟨k, s₁, p₁, hget, h⟩ := Dir.finish_next rfl h
  obtain ⟨⟨response, v⟩, hget, hnext⟩ := Option.bind_eq_some_iff.mp hget
  obtain ⟨rfl, rfl⟩ := hs.get hget
  have hnull : listingText es ≠ nullReply := (isListing_text hes).ne_nullReply
  simp only [hf, Option.elim, Content.text, if_neg hnull, check_text hes, Option.map_some,
    Option.some.injEq, Prod.mk.injEq] at hnext
  obtain ⟨rfl, rfl⟩ := hnext
  by_cases hname : m.file.name ∈ es.map FileInfo.name
  · rw [if_pos (show (Addition.recover m).file.name ∈ _ from hname)] at h
    obtain ⟨rfl, rfl⟩ := Dir.finish_ended rfl h
    exact ⟨rfl, Or.inl ⟨hname, hs⟩⟩
  · rw [if_neg (show (Addition.recover m).file.name ∉ _ from hname)] at h
    obtain ⟨k, s₂, p₂, hadd, h⟩ := Dir.finish_next rfl h
    obtain ⟨rfl, hs₂⟩ := hs.add (a := .recover m) hf he hadd
    obtain ⟨rfl, rfl⟩ := Dir.finish_ended rfl h
    exact ⟨rfl, Or.inr ⟨hname, hs₂⟩⟩

/-- The listing of the new folder: the file goes on it, or back where it was, if the folder is gone,
seems to be, or has an entry of that name. -/
theorem Dir.Shows.target {m : Move} (hs : s.Shows row A)
    (hnew : ∀ content, A.contents m.new ≠ some (.file content))
    (h : s.next row (.target m) = some (t, q)) : t = s ∧ (q = .recover m ∨
      ∃ es', A.contents m.new = some (.folder es') ∧ m.file.name ∉ es'.map FileInfo.name ∧
        q = .add (.move m) (listingText es')) := by
  obtain ⟨⟨response, v⟩, hget, hnext⟩ := Option.bind_eq_some_iff.mp h
  obtain ⟨rfl, rfl⟩ := hs.get hget
  cases hcontents : A.contents m.new with
  | none =>
      have hnull : nullReply <:+: nullReply := List.infix_rfl
      simp only [hcontents, Option.elim, if_pos hnull, Option.some.injEq, Prod.mk.injEq] at hnext
      exact ⟨hnext.1.symm, Or.inl hnext.2.symm⟩
  | some c =>
      cases c with
      | file content => exact absurd hcontents (hnew content)
      | folder es' =>
          simp only [hcontents, Option.elim, Content.text, check_text (hs.clean _ _ hcontents),
            Option.map_some] at hnext
          by_cases hnull : nullReply <:+: listingText es'
          · rw [if_pos hnull] at hnext
            cases hnext
            exact ⟨rfl, Or.inl rfl⟩
          · rw [if_neg hnull] at hnext
            cases hnext
            by_cases hname : m.file.name ∈ es'.map FileInfo.name
            · exact ⟨rfl, Or.inl (if_pos hname)⟩
            · exact ⟨rfl, Or.inr ⟨es', rfl, hname, if_neg hname⟩⟩

/-- **What `move_file` does**, to a folder or to an id that is not there. -/
theorem finish_move {m : Move} (hs : s.Shows row A) (hf : A.contents m.old = some (.folder es))
    (he : m.file.Clean) (hnew : ∀ content, A.contents m.new ≠ some (.file content))
    (h : s.finish row n (.start (.move m)) = some (t, q)) :
    (q.result = false ∧ t.Shows row A) ∨
      m.file.id ∈ es.map FileInfo.id ∧
      ((q.result = true ∧ ∃ es', (A.taken m.old es m.file.id).contents m.new = some (.folder es') ∧
          m.file.name ∉ es'.map FileInfo.name ∧
          t.Shows row ((A.taken m.old es m.file.id).setFolder m.new (es' ++ [m.file]))) ∨
        (q.result = false ∧ m.file.name ∈ (es.filter (·.id ≠ m.file.id)).map FileInfo.name ∧
          t.Shows row (A.taken m.old es m.file.id)) ∨
        (q.result = false ∧ m.file.name ∉ (es.filter (·.id ≠ m.file.id)).map FileInfo.name ∧
          t.Shows row ((A.taken m.old es m.file.id).setFolder m.old
            (es.filter (·.id ≠ m.file.id) ++ [m.file])))) := by
  rcases finish_removal (r := .move m) hs hf rfl (fun _ => rfl) (fun _ => rfl) h with
    ⟨-, rfl, hshows⟩ | ⟨hid, k, s₁, hs₁, h⟩
  · exact Or.inl ⟨rfl, hshows⟩
  refine Or.inr ⟨hid, ?_⟩
  -- from here on the file is on no listing
  have hafter : (Removal.move m).after false replyOK = .target m := rfl
  have hold := A.contents_taken m.old es m.file.id
  have hnew₁ : ∀ content, (A.taken m.old es m.file.id).contents m.new ≠ some (.file content) := by
    intro content
    rw [Tree.taken, Tree.contents_setFolder]
    split
    · exact fun h => by cases h
    · exact hnew content
  rw [hafter] at h
  obtain ⟨k, s₂, p₂, htarget, h⟩ := Dir.finish_next rfl h
  obtain ⟨rfl, hp⟩ := hs₁.target hnew₁ htarget
  rcases hp with rfl | ⟨es', hcontents, hname, rfl⟩
  · obtain ⟨rfl, hput⟩ := finish_recover hs₁ hold he h
    exact Or.inr (hput.imp (fun hlost => ⟨rfl, hlost⟩) fun hback => ⟨rfl, hback⟩)
  · obtain ⟨k, s₃, p₃, hadd, h⟩ := Dir.finish_next rfl h
    obtain ⟨rfl, hs₃⟩ := hs₁.add (a := .move m) hcontents he hadd
    obtain ⟨rfl, rfl⟩ := Dir.finish_ended rfl h
    exact Or.inl ⟨rfl, es', hcontents, hname, hs₃⟩

end Alone

/-! ## The outcomes of the calls -/

/-- The text of the cell is a listing as `Storage` writes them, not that of a file with
bytes in it. -/
def Dir.HoldsListing (row : Str) (s : Dir) (f : Str) : Prop :=
  s.text row f = [] ∨ (s.text row f).getLast? = some '\n'

instance (row : Str) (s : Dir) (f : Str) : Decidable (s.HoldsListing row f) :=
  inferInstanceAs (Decidable (_ ∨ _))

/-- The entries that the cell of an id lists. -/
def Dir.entries (row : Str) (s : Dir) (f : Str) : List FileInfo :=
  (Storage.files (s.text row f)).getD []

namespace Storage

/-- The id of the folder that is open. -/
def here (s : Storage) : Str := (s.path.head?.map FileInfo.id).getD []

/-- The entry that an upload or a new folder makes. -/
def newFile (name content : Str) (now created : Clock) : FileInfo :=
  ⟨now.id, name, true, created.time, contentSize content.length⟩

def newFolder (name : Str) (now created : Clock) : FileInfo :=
  ⟨now.id, name, false, created.time, ['0']⟩

/-- What the arguments of a call must be: names are fields, ids are new, and what is used as a
folder is one, or an empty file. -/
def Fits (row : Str) (s : Storage) : SessionCall → Prop
  | .upload name _ now _ => IsField name ∧ now.id ∉ s.generated ∧ s.dir.HoldsListing row s.here
  | .createFolder name now _ => IsField name ∧ now.id ∉ s.generated ∧ s.dir.HoldsListing row s.here
  | .rename _ newName => IsField newName
  | .move newPathname _ => ∀ g ∈ s.filesInPath.lookup newPathname, s.dir.HoldsListing row g.id
  | .delete _ | .openFolder _ | .goBack _ | .refresh => True

instance (row : Str) (s : Storage) : DecidablePred (Fits row s)
  | .upload _ _ _ _ | .createFolder _ _ _ => inferInstanceAs (Decidable (_ ∧ _ ∧ _))
  | .rename _ newName => inferInstanceAs (Decidable (IsField newName))
  | .move newPathname _ => inferInstanceAs
      (Decidable (∀ g ∈ s.filesInPath.lookup newPathname, s.dir.HoldsListing row g.id))
  | .delete _ | .openFolder _ | .goBack _ | .refresh => isTrue trivial

/-- What a call has generated. -/
def newIds : SessionCall → List Str
  | .upload _ _ now _ | .createFolder _ now _ => [now.id]
  | .rename _ _ | .move _ _ | .delete _ | .openFolder _ | .goBack _ | .refresh => []

/-- What a call does to the tree, to `path` and to `files_in_path`, and whether it succeeds. -/
inductive Did (s t : Storage) (A : Tree) : SessionCall → Bool → Tree → Prop
  | kept {c : SessionCall} : t.path = s.path → t.filesInPath = s.filesInPath → Did s t A c false A
  | uploaded {name content : Str} {now created : Clock} {es : List FileInfo} :
      A.contents s.here = some (.folder es) → name ∉ es.map FileInfo.name → t.path = s.path →
      t.filesInPath = s.filesInPath.insertNew name (newFile name content now created) →
      Did s t A (.upload name content now created) true
        (A.added s.here es (newFile name content now created) (.ofFile content))
  | created {name : Str} {now created : Clock} {es : List FileInfo} :
      A.contents s.here = some (.folder es) → name ∉ es.map FileInfo.name → t.path = s.path →
      t.filesInPath = NameMap.fill
        ((A.added s.here es (newFolder name now created) (.folder [])).entries s.here) →
      Did s t A (.createFolder name now created) true
        (A.added s.here es (newFolder name now created) (.folder []))
  | renamed {oldName newName : Str} {f : FileInfo} {es : List FileInfo} :
      s.filesInPath.lookup oldName = some f → A.contents s.here = some (.folder es) →
      t.path = s.path → t.filesInPath = s.filesInPath →
      Did s t A (.rename oldName newName) true
        ((A.setFolder s.here (es.map (FileInfo.renamed f.isFile oldName newName))).setName f.id
          newName)
  | deleted {filename : Str} {f : FileInfo} {es : List FileInfo} :
      s.filesInPath.lookup filename = some f → A.contents s.here = some (.folder es) →
      f.id ∈ es.map FileInfo.id → t.path = s.path →
      t.filesInPath = s.filesInPath.erase filename →
      Did s t A (.delete filename) true ((A.taken s.here es f.id).drop f.id)
  | moved {newPathname filename : Str} {g f : FileInfo} {es es' : List FileInfo} :
      s.filesInPath.lookup newPathname = some g → s.filesInPath.lookup filename = some f →
      A.contents s.here = some (.folder es) → f.id ∈ es.map FileInfo.id →
      (A.taken s.here es f.id).contents g.id = some (.folder es') →
      filename ∉ es'.map FileInfo.name → t.path = s.path →
      t.filesInPath = NameMap.fill (((A.taken s.here es f.id).setFolder g.id
        (es' ++ [{ f with name := filename }])).entries s.here) →
      Did s t A (.move newPathname filename) true
        ((A.taken s.here es f.id).setFolder g.id (es' ++ [{ f with name := filename }]))
  /-- The target has refused the file, and its folder has it again. -/
  | restored {newPathname filename : Str} {f : FileInfo} {es : List FileInfo} :
      s.filesInPath.lookup filename = some f → A.contents s.here = some (.folder es) →
      f.id ∈ es.map FileInfo.id → filename ∉ (es.filter (·.id ≠ f.id)).map FileInfo.name →
      t.path = s.path → t.filesInPath = s.filesInPath →
      Did s t A (.move newPathname filename) false ((A.taken s.here es f.id).setFolder s.here
        (es.filter (·.id ≠ f.id) ++ [{ f with name := filename }]))
  /-- The target has refused the file, and its folder has another one of the name. -/
  | lost {newPathname filename : Str} {f : FileInfo} {es : List FileInfo} :
      s.filesInPath.lookup filename = some f → A.contents s.here = some (.folder es) →
      filename ∈ (es.filter (·.id ≠ f.id)).map FileInfo.name → t.path = s.path →
      t.filesInPath = s.filesInPath →
      Did s t A (.move newPathname filename) false (A.taken s.here es f.id)
  | opened {foldername : Str} {f : FileInfo} {c : Content} :
      s.filesInPath.lookup foldername = some f → A.contents f.id = some c →
      t.path = ⟨f.id, foldername, false, f.time, f.size⟩ :: s.path →
      t.filesInPath = NameMap.fill c.entries → Did s t A (.openFolder foldername) true A
  /-- `goBack` and `refresh_upload`. -/
  | shown {call : SessionCall} {n : Nat} {c : Content} :
      t.path = s.path.drop n → t.path ≠ [] → A.contents t.here = some c →
      t.filesInPath = NameMap.fill c.entries → Did s t A call true A

end Storage

/-! ## Arguments -/

section Arguments

variable {x : Str}

/-- What the clock and the sizes are written with. -/
def Written (x : Str) : Prop := ∀ c ∈ x, c.isDigit = true ∨ c ∈ "-:. BKM".toList

theorem Written.isField (h : Written x) (hne : x ≠ []) : IsField x := by
  have hno : ∀ c, c.isDigit = false → c ∉ "-:. BKM".toList → c ∉ x := fun c hd hp hc => by
    rcases h c hc with h | h
    · rw [hd] at h
      cases h
    · exact hp h
  exact ⟨hne, hno '|' (by decide) (by decide), hno '\n' (by decide) (by decide),
    hno '\x00' (by decide) (by decide)⟩

theorem Written.nil : Written [] := fun _ h => absurd h List.not_mem_nil

theorem Written.cons {c : Char} (hc : c.isDigit = true ∨ c ∈ "-:. BKM".toList) (hx : Written x) :
    Written (c :: x) := List.forall_mem_cons.mpr ⟨hc, hx⟩

theorem Written.append {y : Str} (hx : Written x) (hy : Written y) : Written (x ++ y) :=
  List.forall_mem_append.mpr ⟨hx, hy⟩

theorem Written.sep {y : Str} {c : Char} (hx : Written x) (hy : Written y)
    (hc : c ∈ "-:. BKM".toList) : Written (x ++ c :: y) :=
  hx.append (.cons (Or.inr hc) hy)

theorem written_decimal (n : Nat) : Written (decimal n) := fun c hc => by
  rcases mem_decimal hc with h | rfl
  · exact Or.inl h
  · exact Or.inr (by decide)

theorem written_padded (width n : Nat) : Written (padded width n) := by
  refine Written.append (fun c hc => ?_) (written_decimal n)
  rw [List.eq_of_mem_replicate hc]
  exact Or.inl (by decide)

theorem Clock.isField_id (c : Clock) : IsField c.id := by
  refine Written.isField ?_ (by simp [Clock.id])
  have hdate :=
    ((written_padded 4 c.year).sep (written_padded 2 c.month) (c := ':') (by decide)).sep
    (written_padded 2 c.day) (c := ':') (by decide)
  have htime := ((hdate.sep (written_padded 2 c.hour) (c := ':') (by decide)).sep
    (written_padded 2 c.min) (c := ':') (by decide)).sep (written_padded 2 c.sec) (c :=
      ':') (by decide)
  exact htime.sep (written_padded 6 c.msec) (by decide)

theorem Clock.isField_time (c : Clock) : IsField c.time := by
  refine Written.isField ?_ (by simp [Clock.time])
  have hdate :=
    ((written_padded 4 c.year).sep (written_padded 2 c.month) (c := '-') (by decide)).sep
    (written_padded 2 c.day) (c := '-') (by decide)
  exact ((hdate.sep (written_padded 2 c.hour) (by decide)).sep (written_padded 2 c.min)
    (by decide)).sep
    (written_padded 2 c.sec) (by decide)

/-- A number with its unit. -/
theorem isField_unit {y : Str} (m : Nat) (hy : Written y)
    (hne : y ≠ []) : IsField (decimal m ++ y) :=
  ((written_decimal m).append hy).isField fun h => hne (List.append_eq_nil_iff.mp h).2

theorem isField_contentSize (n : Nat) : IsField (contentSize n) := by
  have hbytes : Written ['B'] := .cons (Or.inr (by decide)) .nil
  have hkilo : Written "KB".toList := .cons (Or.inr (by decide)) hbytes
  have hmega : Written ".00MB".toList :=
    .cons (Or.inr (by decide))
      (.cons (Or.inl rfl) (.cons (Or.inl rfl) (.cons (Or.inr (by decide)) hbytes)))
  unfold contentSize
  split
  · exact isField_unit _ hbytes (by decide)
  · split
    · exact isField_unit _ hkilo (by decide)
    · exact isField_unit _ hmega (by decide)

theorem Clock.id_ne_storage (c : Clock) : c.id ≠ storageFolder := by
  intro h
  have hmem : ':' ∈ c.id := by simp [Clock.id]
  rw [h] at hmem
  exact absurd hmem (by decide)

theorem Storage.newFile_clean {name : Str} (hname : IsField name) (content : Str)
    (now created : Clock) :
    (newFile name content now created).Clean :=
  ⟨now.isField_id, hname, created.isField_time, isField_contentSize content.length⟩

theorem Storage.newFolder_clean {name : Str} (hname : IsField name) (now created : Clock) :
    (newFolder name now created).Clean :=
  ⟨now.isField_id, hname, created.isField_time, show IsField ['0'] by decide⟩

theorem Content.ofFile_clean (content : Str) : (Content.ofFile content).Clean := by
  unfold Content.ofFile
  split
  · exact fun e he => absurd he List.not_mem_nil
  · assumption

theorem Content.ofFile_text (content : Str) :
    (Content.ofFile content).text = convertBinaryToStr content := by
  unfold Content.ofFile
  split
  · rename_i h
    rw [h]
    rfl
  · rfl

@[simp] theorem Content.ofFile_entries (content : Str) : (Content.ofFile content).entries = [] := by
  unfold Content.ofFile
  split <;> rfl

end Arguments

end PennCloud
