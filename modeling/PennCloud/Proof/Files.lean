import PennCloud.Storage.Directory

/-!
# No file is lost or duplicated

An id that is listed once stays listed once: it is in a listing, or a move has it
in hand. That is so only as long as each call finds what it counts on. A move goes
by a flag that is not set again when the listing is read anew, so it can put in a
second folder what another call has taken off; it takes a name that is there
already for success; and it gives up a file that it cannot put back. `Suits` rules
out these and the deletion of a folder that is not empty.
-/

namespace PennCloud

open Str

namespace Dir

/-- All that is listed in the folders `dirs`. -/
def listed (row : Str) (dirs : List Str) (s : Dir) : List Str := dirs.flatMap (s.ids row)

/-- At the start every folder has a listing, or none, and nothing has been moved. -/
structure Starts (row : Str) (dirs : List Str) (s : Dir) : Prop where
  listed : ∀ f ∈ dirs, s.Listed row f
  log : s.log = []

end Dir

namespace DirPc

/-- The id that a move has in hand: taken off and not put anywhere yet. -/
def carries : DirPc → Option Str
  | target m => some m.file.id
  | recover m => some m.file.id
  | add (.move m) _ => some m.file.id
  | add (.recover m) _ => some m.file.id
  | addAgain (.move m) _ => some m.file.id
  | addAgain (.recover m) _ => some m.file.id
  | _ => none

/-- The id that a deletion has taken off. -/
def deletes : DirPc → Option Str
  | deleteName d => some d.id
  | deleteContent d => some d.id
  | done (.delete d) true => some d.id
  | _ => none

/-- The call has returned. -/
def returned : DirPc → Bool
  | done _ _ => true
  | _ => false

end DirPc

/-! ## The condition -/

/-- The folders of a move are folders, and its file makes one line of a listing. -/
structure Move.Fits (dirs : List Str) (m : Move) : Prop where
  old : m.old ∈ dirs
  new : m.new ∈ dirs
  plain : m.file.Plain

/-- An upload goes to a folder, and its id is new. -/
structure Upload.Fits (dirs before : List Str) (u : Upload) : Prop where
  path : u.path ∈ dirs
  plain : u.file.Plain
  fresh : u.file.id ∉ before
  noDir : u.file.id ∉ dirs

instance (dirs : List Str) (m : Move) : Decidable (m.Fits dirs) :=
  decidable_of_iff (m.old ∈ dirs ∧ m.new ∈ dirs ∧ m.file.Plain)
    ⟨fun h => ⟨h.1, h.2.1, h.2.2⟩, fun h => ⟨h.old, h.new, h.plain⟩⟩

instance (dirs before : List Str) (u : Upload) : Decidable (u.Fits dirs before) :=
  decidable_of_iff (u.path ∈ dirs ∧ u.file.Plain ∧ u.file.id ∉ before ∧ u.file.id ∉ dirs)
    ⟨fun h => ⟨h.1, h.2.1, h.2.2.1, h.2.2.2⟩, fun h => ⟨h.path, h.plain, h.fresh, h.noDir⟩⟩

/-- No entry of the listing has the name. -/
def NameFree (name text : Str) : Prop :=
  existSameFileName name (parseContentFileNames text) = some false

instance (name text : Str) : Decidable (NameFree name text) :=
  inferInstanceAs (Decidable (_ = _))

/--
The condition on a request of a call, with the folders `dirs` and the ids `before`
that were listed at the start.
-/
def Suits (row : Str) (dirs before : List Str) (s : Dir) : DirPc → Prop
  | .start (.move m) => m.Fits dirs
  | .start (.delete d) => d.path ∈ dirs
  | .start (.upload u) => u.Fits dirs before
  | .start (.rename r) =>
    r.path ∈ dirs ∧ RenamesPlain r.isFile r.oldName r.newName (s.text row r.path)
  -- what was found once is still there
  | .removeAgain (.move m) _ false => m.file.id ∈ s.ids row m.old ∨ s.text row m.old = []
  -- no other file has taken the name
  | .addAgain (.move m) _ => NameFree m.file.name (s.text row m.new)
  -- the file can be put back
  | .addAgain (.recover m) _ => s.cell row m.old ≠ none ∧ NameFree m.file.name (s.text row m.old)
  | .recover m => s.cell row m.old ≠ none ∧ NameFree m.file.name (s.text row m.old)
  | .rewriteAgain r => RenamesPlain r.isFile r.oldName r.newName (s.text row r.path)
  -- a deleted folder is empty
  | .deleteContent d => d.id ∈ dirs → s.text row d.id = []
  | _ => True

instance (row : Str) (dirs before : List Str) (s : Dir) : DecidablePred (Suits row dirs before s)
  | .start (.move m) => inferInstanceAs (Decidable (m.Fits dirs))
  | .start (.delete d) => inferInstanceAs (Decidable (d.path ∈ dirs))
  | .start (.upload u) => inferInstanceAs (Decidable (u.Fits dirs before))
  | .start (.rename r) => inferInstanceAs (Decidable (r.path ∈ dirs ∧
      RenamesPlain r.isFile r.oldName r.newName (s.text row r.path)))
  | .removeAgain (.move m) _ false =>
    inferInstanceAs (Decidable (m.file.id ∈ s.ids row m.old ∨ s.text row m.old = []))
  | .addAgain (.move m) _ => inferInstanceAs (Decidable (NameFree m.file.name (s.text row m.new)))
  | .addAgain (.recover m) _ =>
    inferInstanceAs (Decidable (s.cell row m.old ≠ none ∧ NameFree m.file.name (s.text row m.old)))
  | .recover m =>
    inferInstanceAs (Decidable (s.cell row m.old ≠ none ∧ NameFree m.file.name (s.text row m.old)))
  | .rewriteAgain r =>
    inferInstanceAs (Decidable (RenamesPlain r.isFile r.oldName r.newName (s.text row r.path)))
  | .deleteContent d => inferInstanceAs (Decidable (d.id ∈ dirs → s.text row d.id = []))
  | .removeAgain (.move _) _ true | .removeAgain (.delete _) _ _ | .addAgain (.upload _) _
  | .remove _ _ _ _ | .target _ | .add _ _ | .rewrite _ _ _ | .putNewName _ | .putName _
  | .putContent _ | .deleteName _ | .refresh _ | .done _ _ => .isTrue trivial

/-! ## What a call has read -/

def Removal.Fits (dirs : List Str) : Removal → Prop
  | move m => m.Fits dirs
  | delete d => d.path ∈ dirs

theorem Removal.Fits.path_mem {dirs : List Str} {r : Removal}
    (h : r.Fits dirs) : r.path ∈ dirs := by
  cases r with
  | move m => exact Move.Fits.old h
  | delete d => exact h

def Addition.Fits (dirs before : List Str) : Addition → Prop
  | move m => m.Fits dirs
  | recover m => m.Fits dirs
  | upload u => u.Fits dirs before

theorem Addition.Fits.path_mem {dirs before : List Str} {a : Addition} (h : a.Fits dirs before) :
    a.path ∈ dirs := by
  cases a with
  | move m => exact Move.Fits.new h
  | recover m => exact Move.Fits.old h
  | upload u => exact Upload.Fits.path h

theorem Addition.Fits.plain {dirs before : List Str} {a : Addition} (h : a.Fits dirs before) :
    a.file.Plain := by
  cases a with
  | move m => exact Move.Fits.plain h
  | recover m => exact Move.Fits.plain h
  | upload u => exact Upload.Fits.plain h

/-- The new listing lacks the id, and the flag says whether the old one had it. -/
structure Removal.Scanned (r : Removal) (old new : Str) (hasDeleted : Bool) : Prop where
  isOld : IsListing old
  isNew : IsListing new
  ids : idsIn new = (idsIn old).filter (· ≠ r.id)
  found : r.id ∈ idsIn old → hasDeleted = false
  move : ∀ m, r = .move m → hasDeleted = false → r.id ∈ idsIn old

/-- What a call relies on where it stands. -/
def Ready (dirs before : List Str) (s : Dir) : DirPc → Prop
  | .remove r old new hasDeleted => r.Fits dirs ∧ r.Scanned old new hasDeleted
  | .removeAgain r response _ => r.Fits dirs ∧ response = replyErr
  | .target m => m.Fits dirs
  | .recover m => m.Fits dirs
  | .add a old => a.Fits dirs before ∧ IsListing old
  | .addAgain a response => a.Fits dirs before ∧ response = replyErr
  | .rewrite r old new => r.path ∈ dirs ∧ IsListing old ∧ IsListing new ∧ idsIn new = idsIn old
  | .rewriteAgain r => r.path ∈ dirs
  | .putName u => u.Fits dirs before
  | .putContent u => u.Fits dirs before
  | .refresh m => .moved m ∈ s.log
  | .done (.move m) true => .moved m ∈ s.log
  | _ => True

/-- What a request does to the listings, to the log, and to what its call has in hand. -/
inductive Dir.Did (row : Str) (dirs before : List Str) (s t : Dir) (p q : DirPc) : Prop
  /-- Every listing keeps its ids. -/
  | kept (hids : ∀ g ∈ dirs, t.ids row g = s.ids row g) (hlog : t.log = s.log)
      (hcarries : q.carries = p.carries)
  /-- An id is taken off, by a move that has it in hand then, or by a deletion. -/
  | took (f id : Str) (hf : f ∈ dirs) (hid : id ∈ s.ids row f)
      (hids : ∀ g, t.ids row g = if g = f then (s.ids row f).filter (· ≠ id) else s.ids row g)
      (hlog : t.log = .took f id :: s.log) (hcarries : p.carries = none)
      (hq : q.carries = some id ∨ q.carries = none ∧ q.deletes = some id)
  /-- An id is put on, by a move that had it in hand, or by an upload. -/
  | added (f id : Str) (hf : f ∈ dirs)
      (hids : ∀ g, t.ids row g = if g = f then s.ids row f ++ [id] else s.ids row g)
      (hlog : t.log = s.log ∨ ∃ m : Move, m.new = f ∧ m.file.id = id ∧ t.log = .moved m :: s.log)
      (hp : p.carries = some id ∨ p.carries = none ∧ id ∉ before) (hcarries : q.carries = none)

variable {row : Str} {dirs before : List Str} {s t : Dir} {p q : DirPc}

/-! ## Between the requests -/

theorem refused_err : "-ERR".toList <:+: replyErr := by decide

theorem accepted_noErr : ¬ "-ERR".toList <:+: replyOK := by decide

/-- A call whose id was not found has failed. -/
theorem Removal.after_missing (r : Removal) (response : Str) :
    ∃ c, r.after true response = .done c false := by
  cases r with
  | move m => exact ⟨.move m, rfl⟩
  | delete d => exact ⟨.delete d, rfl⟩

/-- The id has been taken off: a move goes on to the new folder, a deletion to the cells. -/
theorem Removal.after_ok (r : Removal) (hr : r.Fits dirs) :
    Ready dirs before s (r.after false replyOK) ∧
    ((r.after false replyOK).carries = some r.id ∨
      (r.after false replyOK).carries = none ∧ (r.after false replyOK).deletes = some r.id) := by
  cases r with
  | move m =>
      have hafter : (Removal.move m).after false replyOK = .target m := by
        rw [Removal.after, if_neg Bool.false_ne_true,
          if_pos (by decide : "+OK".toList <:+: replyOK)]
      rw [hafter]
      exact ⟨hr, Or.inl rfl⟩
  | delete d =>
      have hafter : (Removal.delete d).after false replyOK = .deleteName d := by
        rw [Removal.after, if_neg Bool.false_ne_true,
          if_pos (by decide : (replyOK.take 3).map Char.toUpper = "+OK".toList)]
      rw [hafter]
      exact ⟨trivial, Or.inr ⟨rfl, rfl⟩⟩

theorem Removal.after_err (r : Removal) (hasDeleted : Bool) :
    ∃ c, r.after hasDeleted replyErr = .done c false := by
  cases r with
  | move m =>
      refine ⟨.move m, ?_⟩
      rw [Removal.after, if_neg (by decide : ¬ "+OK".toList <:+: replyErr), ite_self]
  | delete d =>
      refine ⟨.delete d, ?_⟩
      rw [Removal.after, if_neg (by decide : ¬ (replyErr.take 3).map Char.toUpper = "+OK".toList),
        ite_self]

theorem Removal.scan_ready {r : Removal} {content : Str} {hasDeleted : Bool} (hr : r.Fits dirs)
    (hc : IsListing content) (hm : ∀ m, r = .move m → hasDeleted = false → r.id ∈ idsIn content)
    (h : r.scan content hasDeleted = some q) :
    Ready dirs before s q ∧ q.carries = none := by
  obtain ⟨new, hscan, hnew, hids⟩ := hc.scanDelete r.id
  rw [Removal.scan, hscan] at h
  cases h
  refine ⟨⟨hr, hc, hnew, hids, fun hid => by simp [hid], fun m hrm hflag => ?_⟩, rfl⟩
  by_contra hid
  -- not found in this scan, so found before
  refine hid (hm m hrm ?_)
  simpa [hid] using hflag

theorem Addition.check_cases {a : Addition} {conflict old : Str} (ha : a.Fits dirs before)
    (ho : IsListing old) (h : a.check conflict old = some q) :
    (q = .add a old ∧ Ready dirs before s q) ∨
      (¬ NameFree a.file.name old ∧ q = a.after conflict) := by
  rw [Addition.check] at h
  split at h
  · cases h
    exact Or.inl ⟨rfl, ha, ho⟩
  · obtain ⟨exist, hexist, hq⟩ := Option.map_eq_some_iff.mp h
    split at hq
    · rename_i hyes
      refine Or.inr ⟨fun hfree => ?_, hq.symm⟩
      exact absurd (hexist.symm.trans hfree) (by rw [hyes]; decide)
    · exact Or.inl ⟨hq.symm, hq ▸ ⟨ha, ho⟩⟩

theorem Renaming.scan_ready {r : Renaming} {content : Str} (hr : r.path ∈ dirs)
    (hc : IsListing content) (hp : RenamesPlain r.isFile r.oldName r.newName content)
    (h : r.scan content = some q) : Ready dirs before s q ∧ q.carries = none := by
  obtain ⟨new, hscan, hnew, hids⟩ := hc.scanRename hp
  rw [Renaming.scan, hscan] at h
  cases h
  exact ⟨⟨hr, hc, hnew, hids⟩, rfl⟩

theorem ready_failed (c : DirCall) : Ready dirs before s (.done c false) := by
  cases c <;> trivial

/-- A call that has got its listing, or has been told that there is none. -/
theorem start_ready {c : DirCall} {content : Str} (hC : Suits row dirs before s (.start c))
    (hcontent : content = nullReply ∨ IsListing content ∧ s.text row c.path = content)
    (h : c.begin content = some q) : Ready dirs before s q ∧ q.carries = none := by
  have hlisting : content ≠ nullReply → IsListing content :=
    fun hne => (hcontent.resolve_left hne).1
  cases c with
  | move m =>
      rw [DirCall.begin] at h
      split at h
      · cases h
        exact ⟨trivial, rfl⟩
      · rename_i hne
        rw [not_or] at hne
        refine Removal.scan_ready (r := .move m) hC (hlisting hne.1) ?_ h
        exact fun _ _ hflag => Bool.noConfusion hflag
  | delete d =>
      rw [DirCall.begin] at h
      split at h
      · cases h
        exact ⟨trivial, rfl⟩
      · rename_i hne
        rw [not_or] at hne
        refine Removal.scan_ready (r := .delete d) hC (hlisting hne.1) ?_ h
        exact fun _ _ hflag => Bool.noConfusion hflag
  | upload u =>
      have hcheck : ∀ old, IsListing old → (Addition.upload u).check "-ERR".toList old = some q →
          Ready dirs before s q ∧ q.carries = none := by
        intro old hold h
        rcases Addition.check_cases (s := s) (a := .upload u) hC hold h
          with ⟨rfl, hready⟩ | ⟨-, rfl⟩
        · exact ⟨hready, rfl⟩
        · exact ⟨trivial, rfl⟩
      rw [DirCall.begin] at h
      split at h
      · cases h
        exact ⟨trivial, rfl⟩
      · rename_i hne
        split at h
        · exact hcheck _ .nil h
        · obtain ⟨exist, -, h⟩ := Option.bind_eq_some_iff.mp h
          split at h
          · cases h
            exact ⟨trivial, rfl⟩
          · exact hcheck _ (hlisting hne) h
  | rename r =>
      rw [DirCall.begin] at h
      split at h
      · cases h
        exact ⟨trivial, rfl⟩
      · rename_i hne
        rw [not_or] at hne
        obtain ⟨hc, htext⟩ := hcontent.resolve_left hne.1
        exact Renaming.scan_ready hC.1 hc (htext ▸ hC.2) h

/-! ## What a request does -/

theorem ids_congr {g : Str} (h : t.cell row g = s.cell row g) : t.ids row g = s.ids row g := by
  rw [Dir.ids, Dir.ids, Dir.text, Dir.text, h]

theorem listed_congr {g : Str} (h : t.cell row g = s.cell row g) (hs : s.Listed row g) :
    t.Listed row g := by
  rw [Dir.Listed, h]
  exact hs

/-- After an accepted `CPUT` the folder has the new listing. -/
theorem Dir.Puts.ids {f new : Str} (h : Dir.Puts row s t f new) (g : Str) :
    t.ids row g = if g = f then idsIn new else s.ids row g := by
  have hcell := h.cell g
  split
  · rename_i hg
    rw [if_pos hg] at hcell
    rw [Dir.ids, text_of_cell hcell]
  · rename_i hg
    rw [if_neg hg] at hcell
    exact ids_congr hcell

theorem Dir.Puts.listed {f new : Str} (h : Dir.Puts row s t f new) (hnew : IsListing new) {g : Str}
    (hs : s.Listed row g) : t.Listed row g := by
  have hcell := h.cell g
  split at hcell
  · exact Or.inr ⟨new, hnew, hcell⟩
  · exact listed_congr hcell hs

/-- A `GET` of a listing, with what its folder has. -/
theorem get_text {f content : Str} (hs : s.Listed row f) (h : s.get row f = some (content, t)) :
    t = s ∧ (content = nullReply ∧ s.cell row f = none ∨
      content ≠ nullReply ∧ IsListing content ∧ s.text row f = content) := by
  obtain ⟨rfl, ⟨hcell, rfl⟩ | ⟨hc, hcell⟩⟩ := Dir.get_cases hs h
  · exact ⟨rfl, Or.inl ⟨rfl, hcell⟩⟩
  · exact ⟨rfl, Or.inr ⟨hc.ne_nullReply, hc, text_of_cell hcell⟩⟩

/-- What every step of a call establishes. -/
structure Dir.Steps (row : Str) (dirs before : List Str) (s t : Dir) (p q : DirPc) : Prop where
  did : Did row dirs before s t p q
  ready : Ready dirs before t q
  listed : ∀ f ∈ dirs, t.Listed row f

/-- A step that leaves the cells of the folders as they are. -/
theorem steps_frame (hJ : ∀ f ∈ dirs, s.Listed row f) (hlog : t.log = s.log)
    (hcell : ∀ f ∈ dirs, t.cell row f = s.cell row f) (hready : Ready dirs before t q)
    (hcarries : q.carries = p.carries) : Dir.Steps row dirs before s t p q where
  did := .kept (fun g hg => ids_congr (hcell g hg)) hlog hcarries
  ready := hready
  listed g hg := listed_congr (hcell g hg) (hJ g hg)

/-- A `GET`. -/
theorem steps_get (hJ : ∀ f ∈ dirs, s.Listed row f) (hready : Ready dirs before s q)
    (hcarries : q.carries = p.carries) : Dir.Steps row dirs before s s p q :=
  steps_frame hJ rfl (fun _ _ => rfl) hready hcarries

theorem steps_start {c : DirCall} (hJ : ∀ f ∈ dirs, s.Listed row f)
    (hC : Suits row dirs before s (.start c)) (h : s.next row (.start c) = some (t, q)) :
    Dir.Steps row dirs before s t (.start c) q := by
  have hpath : c.path ∈ dirs := by
    cases c with
    | move m => exact hC.old
    | delete d => exact hC
    | upload u => exact hC.path
    | rename r => exact hC.1
  obtain ⟨⟨content, v⟩, hget, hq⟩ := Option.bind_eq_some_iff.mp h
  obtain ⟨q', hbegin, he⟩ := Option.map_eq_some_iff.mp hq
  cases he
  obtain ⟨rfl, hcontent⟩ := get_text (hJ _ hpath) hget
  have hread : content = nullReply ∨ IsListing content ∧ v.text row c.path = content :=
    hcontent.imp And.left And.right
  obtain ⟨hready, hcarries⟩ := start_ready hC hread hbegin
  exact steps_get hJ hready hcarries

/-- An accepted `CPUT` of `send_cput_command_delete` takes the id off, if it is there. -/
theorem steps_remove {r : Removal} {old new : Str} {hasDeleted : Bool}
    (hJ : ∀ f ∈ dirs, s.Listed row f) (hp : Ready dirs before s (.remove r old new hasDeleted))
    (h : s.next row (.remove r old new hasDeleted) = some (t, q)) :
    Dir.Steps row dirs before s t (.remove r old new hasDeleted) q := by
  obtain ⟨hr, hscan⟩ := hp
  obtain ⟨⟨response, v⟩, hupdate, he⟩ := Option.map_eq_some_iff.mp h
  rcases Dir.cput_cases hscan.isOld hupdate with ⟨hcell, rfl, hputs⟩ | ⟨rfl, rfl⟩
  · simp only [if_neg accepted_noErr] at he
    have hids : s.ids row r.path = idsIn old := by rw [Dir.ids, text_of_cell hcell]
    have hlisted : ∀ f ∈ dirs, v.Listed row f := fun f hf => hputs.listed hscan.isNew (hJ f hf)
    by_cases hid : r.id ∈ idsIn old
    · -- the id was there, and the flag says so
      obtain rfl := hscan.found hid
      rw [if_pos hid] at he
      cases he
      obtain ⟨hready, hq⟩ := r.after_ok hr
      refine ⟨.took r.path r.id hr.path_mem (hids ▸ hid) ?_ (by rw [hputs.log]) rfl hq,
        hready, hlisted⟩
      intro g
      rw [hids, ← hscan.ids]
      exact hputs.ids g
    · -- the id was not there, so the ids are as before
      rw [if_neg hid] at he
      cases he
      have hsame : ∀ g ∈ dirs, t.ids row g = s.ids row g := by
        intro g _
        rw [hputs.ids g]
        split
        · rename_i hg
          rw [hg, hids, hscan.ids, List.filter_eq_self.mpr]
          exact fun x hx => decide_eq_true fun he => hid (he ▸ hx)
        · rfl
      cases hasDeleted with
      | true =>
          obtain ⟨c, hc⟩ := r.after_missing replyOK
          rw [hc]
          exact ⟨.kept hsame hputs.log rfl, ready_failed c, hlisted⟩
      | false =>
          -- a deletion, whose flag is from an earlier scan
          cases r with
          | move m => exact absurd (hscan.move m rfl rfl) hid
          | delete d =>
              obtain ⟨hready, hq⟩ := (Removal.delete d).after_ok hr
              refine ⟨.kept hsame hputs.log ?_, hready, hlisted⟩
              exact hq.elim (fun hq => by cases hq) And.left
  · rw [if_pos refused_err] at he
    cases he
    exact steps_get hJ ⟨hr, rfl⟩ rfl

/-- A refused `CPUT` of `send_cput_command_delete` is followed by another scan, or the
call fails. -/
theorem steps_removeAgain {r : Removal} {response : Str} {hasDeleted : Bool}
    (hJ : ∀ f ∈ dirs, s.Listed row f)
    (hp : Ready dirs before s (.removeAgain r response hasDeleted))
    (hC : Suits row dirs before s (.removeAgain r response hasDeleted))
    (h : s.next row (.removeAgain r response hasDeleted) = some (t, q)) :
    Dir.Steps row dirs before s t (.removeAgain r response hasDeleted) q := by
  obtain ⟨hr, rfl⟩ := hp
  obtain ⟨⟨content, v⟩, hget, hq⟩ := Option.bind_eq_some_iff.mp h
  obtain ⟨rfl, hcontent⟩ := get_text (hJ _ hr.path_mem) hget
  split at hq
  · obtain ⟨c, hc⟩ := r.after_err hasDeleted
    rw [hc] at hq
    cases hq
    exact steps_get hJ (ready_failed c) rfl
  · rename_i hne
    rw [not_or] at hne
    obtain ⟨-, hlisting, htext⟩ := hcontent.resolve_left fun hnull => hne.1 hnull.1
    obtain ⟨q', hscan, he⟩ := Option.map_eq_some_iff.mp hq
    cases he
    have hfound : ∀ m, r = .move m → hasDeleted = false → r.id ∈ idsIn content := by
      rintro m rfl rfl
      rcases hC with hin | hnil
      · rw [Dir.ids] at hin
        exact htext ▸ hin
      · exact absurd (htext.symm.trans hnil) hne.2
    obtain ⟨hready, hcarries⟩ := Removal.scan_ready hr hlisting hfound hscan
    exact steps_get hJ hready hcarries

/-- A move that has a file in hand looks at the new folder. -/
theorem steps_target {m : Move} (hJ : ∀ f ∈ dirs, s.Listed row f)
    (hp : Ready dirs before s (.target m)) (h : s.next row (.target m) = some (t, q)) :
    Dir.Steps row dirs before s t (.target m) q := by
  obtain ⟨⟨content, v⟩, hget, hq⟩ := Option.bind_eq_some_iff.mp h
  obtain ⟨rfl, hcontent⟩ := get_text (hJ _ hp.new) hget
  split at hq
  · cases hq
    exact steps_get hJ hp rfl
  · rename_i hno
    obtain ⟨-, hlisting, -⟩ := hcontent.resolve_left fun hnull =>
      hno (hnull.1 ▸ List.infix_refl nullReply)
    obtain ⟨q', hcheck, he⟩ := Option.map_eq_some_iff.mp hq
    cases he
    rcases Addition.check_cases (s := v) (a := .move m) hp hlisting hcheck with
      ⟨rfl, hready⟩ | ⟨-, rfl⟩
    · exact steps_get hJ hready rfl
    · exact steps_get hJ hp rfl

/-- An accepted `CPUT` of `send_cput_command_add` puts the id on. -/
theorem steps_add {a : Addition} {old : Str} (hJ : ∀ f ∈ dirs, s.Listed row f)
    (hp : Ready dirs before s (.add a old)) (h : s.next row (.add a old) = some (t, q)) :
    Dir.Steps row dirs before s t (.add a old) q := by
  obtain ⟨ha, hold⟩ := hp
  obtain ⟨⟨response, v⟩, hupdate, he⟩ := Option.map_eq_some_iff.mp h
  rcases Dir.cput_cases hold hupdate with ⟨hcell, rfl, hputs⟩ | ⟨rfl, rfl⟩
  · simp only [if_neg accepted_noErr] at he
    obtain ⟨hnew, hids⟩ := hold.append ha.plain
    have hread : s.ids row a.path = idsIn old := by rw [Dir.ids, text_of_cell hcell]
    have hadded : ∀ g, v.ids row g = if g = a.path then s.ids row a.path ++ [a.file.id]
        else s.ids row g := by
      intro g
      rw [hputs.ids g, hids, hread]
    have hlisted : ∀ f ∈ dirs, v.Listed row f := fun f hf => hputs.listed hnew (hJ f hf)
    cases a with
    | move m =>
        cases he
        exact ⟨.added m.new m.file.id ha.new hadded (Or.inr ⟨m, rfl, rfl, by rw [hputs.log]⟩)
          (Or.inl rfl) rfl, List.mem_cons_self, hlisted⟩
    | recover m =>
        cases he
        exact ⟨.added m.old m.file.id ha.old hadded (Or.inl hputs.log) (Or.inl rfl) rfl, trivial,
          hlisted⟩
    | upload u =>
        cases he
        exact ⟨.added u.path u.file.id ha.path hadded (Or.inl hputs.log)
          (Or.inr ⟨rfl, ha.fresh⟩) rfl, ha, hlisted⟩
  · rw [if_pos refused_err] at he
    cases he
    refine steps_get hJ ⟨ha, rfl⟩ ?_
    cases a <;> rfl

/-- A refused `CPUT` of `send_cput_command_add` is followed by another, or the file is put back. -/
theorem steps_addAgain {a : Addition} {response : Str} (hJ : ∀ f ∈ dirs, s.Listed row f)
    (hp : Ready dirs before s (.addAgain a response))
    (hC : Suits row dirs before s (.addAgain a response))
    (h : s.next row (.addAgain a response) = some (t, q)) :
    Dir.Steps row dirs before s t (.addAgain a response) q := by
  obtain ⟨ha, rfl⟩ := hp
  obtain ⟨⟨content, v⟩, hget, hq⟩ := Option.bind_eq_some_iff.mp h
  obtain ⟨rfl, hcontent⟩ := get_text (hJ _ ha.path_mem) hget
  rcases hcontent with ⟨rfl, hcell⟩ | ⟨hne, hlisting, htext⟩
  · rw [if_pos rfl] at hq
    cases hq
    cases a with
    | move m => exact steps_get hJ ha rfl
    | recover m => exact absurd hcell hC.1
    | upload u => exact steps_get hJ trivial rfl
  · rw [if_neg hne] at hq
    obtain ⟨q', hcheck, he⟩ := Option.map_eq_some_iff.mp hq
    cases he
    rcases Addition.check_cases (s := v) ha hlisting hcheck with ⟨rfl, hready⟩ | ⟨htaken, rfl⟩
    · refine steps_get hJ hready ?_
      cases a <;> rfl
    · cases a with
      | move m => exact absurd (htext ▸ hC) htaken
      | recover m => exact absurd (htext ▸ hC.2) htaken
      | upload u => exact steps_get hJ trivial rfl

/-- A move puts its file back. -/
theorem steps_recover {m : Move} (hJ : ∀ f ∈ dirs, s.Listed row f)
    (hp : Ready dirs before s (.recover m)) (hC : Suits row dirs before s (.recover m))
    (h : s.next row (.recover m) = some (t, q)) : Dir.Steps row dirs before s t (.recover m) q := by
  obtain ⟨⟨content, v⟩, hget, hq⟩ := Option.bind_eq_some_iff.mp h
  obtain ⟨rfl, ⟨-, hcell⟩ | ⟨hne, hlisting, htext⟩⟩ := get_text (hJ _ hp.old) hget
  · exact absurd hcell hC.1
  · rw [if_neg hne] at hq
    obtain ⟨q', hcheck, he⟩ := Option.map_eq_some_iff.mp hq
    cases he
    rcases Addition.check_cases (s := v) (a := .recover m) hp hlisting hcheck with
      ⟨rfl, hready⟩ | ⟨htaken, -⟩
    · exact steps_get hJ hready rfl
    · exact absurd (htext ▸ hC.2) htaken

/-- An accepted `CPUT` of `rename_file` keeps the ids. -/
theorem steps_rewrite {r : Renaming} {old new : Str} (hJ : ∀ f ∈ dirs, s.Listed row f)
    (hp : Ready dirs before s (.rewrite r old new))
    (h : s.next row (.rewrite r old new) = some (t, q)) :
    Dir.Steps row dirs before s t (.rewrite r old new) q := by
  obtain ⟨hpath, hold, hnew, hids⟩ := hp
  obtain ⟨⟨response, v⟩, hupdate, he⟩ := Option.map_eq_some_iff.mp h
  rcases Dir.cput_cases hold hupdate with ⟨hcell, rfl, hputs⟩ | ⟨rfl, rfl⟩
  · rw [if_neg accepted_noErr,
      if_pos (by decide : (replyOK.take 3).map Char.toUpper = "+OK".toList)] at he
    cases he
    refine ⟨.kept ?_ hputs.log rfl, trivial, fun f hf => hputs.listed hnew (hJ f hf)⟩
    intro g _
    rw [hputs.ids g]
    split
    · rename_i hg
      rw [hg, hids, Dir.ids, text_of_cell hcell]
    · rfl
  · rw [if_pos refused_err] at he
    cases he
    exact steps_get hJ hpath rfl

theorem steps_rewriteAgain {r : Renaming} (hJ : ∀ f ∈ dirs, s.Listed row f)
    (hp : Ready dirs before s (.rewriteAgain r)) (hC : Suits row dirs before s (.rewriteAgain r))
    (h : s.next row (.rewriteAgain r) = some (t, q)) :
    Dir.Steps row dirs before s t (.rewriteAgain r) q := by
  obtain ⟨⟨content, v⟩, hget, hq⟩ := Option.bind_eq_some_iff.mp h
  obtain ⟨rfl, hcontent⟩ := get_text (hJ _ hp) hget
  split at hq
  · cases hq
    exact steps_get hJ trivial rfl
  · rename_i hne
    rw [not_or] at hne
    obtain ⟨-, hlisting, htext⟩ := hcontent.resolve_left fun hnull => hne.1 hnull.1
    obtain ⟨q', hscan, he⟩ := Option.map_eq_some_iff.mp hq
    cases he
    obtain ⟨hready, hcarries⟩ := Renaming.scan_ready hp hlisting (htext ▸ hC) hscan
    exact steps_get hJ hready hcarries

/-- The cells that a call puts or deletes at its end are not those of listings in use. -/
theorem steps_put {col data : Str} (hJ : ∀ f ∈ dirs, s.Listed row f)
    (hcol : ∀ f ∈ dirs, contentCol f ≠ col) {response : Str}
    (h : s.update (.put row col data) = some (response, t)) (hready : Ready dirs before t q)
    (hcarries : q.carries = p.carries) : Dir.Steps row dirs before s t p q :=
  steps_frame hJ (update_log h) (fun f hf => Dir.put_other (hcol f hf) h) hready hcarries

/-- **What a step does**, and what its call relies on then. -/
theorem next_steps (hJ : ∀ f ∈ dirs, s.Listed row f) (hp : Ready dirs before s p)
    (hC : Suits row dirs before s p) (h : s.next row p = some (t, q)) :
    Dir.Steps row dirs before s t p q := by
  have hname : ∀ id, ∀ f ∈ dirs, contentCol f ≠ nameCol id :=
    fun id f _ he => nameCol_ne_contentCol id f he.symm
  cases p with
  | start c => exact steps_start hJ hC h
  | remove r old new hasDeleted => exact steps_remove hJ hp h
  | removeAgain r response hasDeleted => exact steps_removeAgain hJ hp hC h
  | target m => exact steps_target hJ hp h
  | add a old => exact steps_add hJ hp h
  | addAgain a response => exact steps_addAgain hJ hp hC h
  | recover m => exact steps_recover hJ hp hC h
  | rewrite r old new => exact steps_rewrite hJ hp h
  | rewriteAgain r => exact steps_rewriteAgain hJ hp hC h
  | putNewName r =>
      obtain ⟨⟨response, v⟩, hupdate, he⟩ := Option.map_eq_some_iff.mp h
      cases he
      exact steps_put hJ (hname r.id) hupdate trivial rfl
  | putName u =>
      obtain ⟨⟨response, v⟩, hupdate, he⟩ := Option.map_eq_some_iff.mp h
      cases he
      exact steps_put hJ (hname u.file.id) hupdate hp rfl
  | putContent u =>
      obtain ⟨⟨response, v⟩, hupdate, he⟩ := Option.map_eq_some_iff.mp h
      cases he
      refine steps_put hJ (fun f hf he => hp.noDir ?_) hupdate trivial rfl
      exact contentCol_inj.mp he ▸ hf
  | deleteName d =>
      obtain ⟨⟨response, v⟩, hupdate, he⟩ := Option.map_eq_some_iff.mp h
      cases he
      exact steps_frame hJ (update_log hupdate)
        (fun f hf => Dir.delete_other (hname d.id f hf) hupdate) trivial rfl
  | deleteContent d =>
      obtain ⟨⟨response, v⟩, hupdate, he⟩ := Option.map_eq_some_iff.mp h
      cases he
      have hother : ∀ g, g ≠ d.id → v.cell row g = s.cell row g := fun g hg =>
        Dir.delete_other (fun he => hg (contentCol_inj.mp he)) hupdate
      refine ⟨.kept ?_ (update_log hupdate) rfl, trivial, ?_⟩
      · intro g hg
        by_cases hgd : g = d.id
        · -- the folder was empty, so no id goes with it
          subst hgd
          have hgone : v.text row d.id = [] := by rw [Dir.text, Dir.delete_cell hupdate]
          rw [Dir.ids, Dir.ids, hgone, hC hg]
        · exact ids_congr (hother g hgd)
      · intro g hg
        by_cases hgd : g = d.id
        · exact Or.inl (hgd ▸ Dir.delete_cell hupdate)
        · exact listed_congr (hother g hgd) (hJ g hg)
  | refresh m =>
      obtain ⟨⟨content, v⟩, hget, hq⟩ := Option.bind_eq_some_iff.mp h
      obtain ⟨files, -, he⟩ := Option.map_eq_some_iff.mp hq
      cases he
      obtain rfl := get_same hget
      exact steps_get hJ hp rfl
  | done c result => cases h

/-! ## What has been moved stands where it was put -/

/-- The id has been put in the folder by a move, and not been taken off since. -/
def Stands : List DirEvent → Str → Str → Prop
  | [], _, _ => False
  | .moved m :: log, f, id => m.new = f ∧ m.file.id = id ∨ Stands log f id
  | .took g j :: log, f, id => (g ≠ f ∨ j ≠ id) ∧ Stands log f id

theorem stands_of_moved {m : Move} {later earlier : List DirEvent}
    (h : .took m.new m.file.id ∉ later) :
    Stands (later ++ .moved m :: earlier) m.new m.file.id := by
  induction later with
  | nil => exact Or.inl ⟨rfl, rfl⟩
  | cons e later ih =>
      rw [List.mem_cons, not_or] at h
      cases e with
      | moved m' => exact Or.inr (ih h.2)
      | took g j =>
          refine ⟨?_, ih h.2⟩
          by_contra hsame
          rw [not_or, not_not, not_not] at hsame
          exact h.1 (by rw [hsame.1, hsame.2])

/-- The listings are well formed, and what has been moved and not taken off is listed. -/
structure Dir.Sound (row : Str) (dirs : List Str) (s : Dir) : Prop where
  listed : ∀ f ∈ dirs, s.Listed row f
  folder : ∀ m, .moved m ∈ s.log → m.new ∈ dirs
  stands : ∀ f ∈ dirs, ∀ id, Stands s.log f id → id ∈ s.ids row f

theorem Dir.Did.log_subset (hd : Dir.Did row dirs before s t p q) : s.log ⊆ t.log := by
  cases hd with
  | kept hids hlog hcarries => exact hlog ▸ List.Subset.refl _
  | took f id hf hid hids hlog hcarries hq => exact hlog ▸ List.subset_cons_self _ _
  | added f id hf hids hlog hp hcarries =>
      rcases hlog with hlog | ⟨m, -, -, hlog⟩
      · exact hlog ▸ List.Subset.refl _
      · exact hlog ▸ List.subset_cons_self _ _

/-- A call keeps what it relies on while others work. -/
theorem ready_mono (h : s.log ⊆ t.log) {r : DirPc} (hr : Ready dirs before s r) :
    Ready dirs before t r := by
  cases r with
  | refresh m => exact h hr
  | done c result =>
      cases c with
      | move m =>
          cases result with
          | true => exact h hr
          | false => trivial
      | _ => trivial
  | _ => exact hr

/-- **A step keeps what has been moved in its place.** -/
theorem sound_step (hs : s.Sound row dirs) (h : Dir.Steps row dirs before s t p q) :
    t.Sound row dirs := by
  refine ⟨h.listed, ?_, ?_⟩
  · intro m hm
    cases h.did with
    | kept hids hlog hcarries => exact hs.folder m (hlog ▸ hm)
    | took f id hf hid hids hlog hcarries hq =>
        rw [hlog, List.mem_cons] at hm
        exact hs.folder m (hm.resolve_left (by simp))
    | added f id hf hids hlog hp hcarries =>
        rcases hlog with hlog | ⟨m', hm', -, hlog⟩
        · exact hs.folder m (hlog ▸ hm)
        · rw [hlog, List.mem_cons] at hm
          rcases hm with hm | hm
          · obtain rfl := DirEvent.moved.inj hm
            exact hm' ▸ hf
          · exact hs.folder m hm
  · intro g hg i hi
    cases h.did with
    | kept hids hlog hcarries =>
        rw [hids g hg]
        exact hs.stands g hg i (hlog ▸ hi)
    | took f id hf hid hids hlog hcarries hq =>
        rw [hlog] at hi
        have hold := hs.stands g hg i hi.2
        rw [hids g]
        split
        · rename_i hgf
          have hne : i ≠ id := fun he => hi.1.elim (fun hne => hne hgf.symm) fun hne => hne he.symm
          exact List.mem_filter.mpr ⟨hgf ▸ hold, decide_eq_true hne⟩
        · exact hold
    | added f id hf hids hlog hp hcarries =>
        have hold : Stands s.log g i → i ∈ t.ids row g := by
          intro hi
          rw [hids g]
          split
          · rename_i hgf
            exact List.mem_append_left _ (hgf ▸ hs.stands g hg i hi)
          · exact hs.stands g hg i hi
        rcases hlog with hlog | ⟨m, rfl, rfl, hlog⟩
        · exact hold (hlog ▸ hi)
        · rw [hlog] at hi
          rcases hi with ⟨rfl, rfl⟩ | hi
          · rw [hids m.new, if_pos rfl]
            exact List.mem_append_right _ (List.mem_singleton_self _)
          · exact hold hi

/-! ## What is listed once stays listed once -/

/-- A deletion that has taken an id off will return true. -/
theorem deletes_next {x : Str} (h : s.next row p = some (t, q)) (hp : p.deletes = some x) :
    q.deletes = some x := by
  cases p with
  | deleteName d =>
      obtain ⟨r, -, he⟩ := Option.map_eq_some_iff.mp h
      cases he
      exact hp
  | deleteContent d =>
      obtain ⟨r, -, he⟩ := Option.map_eq_some_iff.mp h
      cases he
      exact hp
  | done c result => cases h
  | _ => cases hp

/-- The id is in one listing, or a move has it in hand, or it has been deleted. -/
def Once (row : Str) (dirs : List Str) (x : Str) (s : Lib.Threads Dir DirPc) : Prop :=
  (s.shared.listed row dirs).count x + s.threads.countP (fun p => p.carries = some x) = 1 ∨
    ∃ p ∈ s.threads, p.deletes = some x

/-- Whether the call has the id in hand, as a number. -/
def inHand (x : Str) (p : DirPc) : Nat := (decide (p.carries = some x)).toNat

theorem inHand_none {x : Str} (h : p.carries = none) : inHand x p = 0 := by
  rw [inHand, h]
  rfl

theorem inHand_some {x id : Str} (h : p.carries = some id) :
    inHand x p = if x = id then 1 else 0 := by
  rw [inHand, h]
  by_cases hx : x = id
  · rw [if_pos hx, decide_eq_true (congrArg some hx.symm)]
    rfl
  · rw [if_neg hx, decide_eq_false fun he => hx (Option.some.inj he).symm]
    rfl

/-- An id that is taken off is in hand then, or deleted, and another one is where it was. -/
theorem balance_took {x f id : Str} (hnodup : dirs.Nodup) (hone : (s.listed row dirs).count x ≤ 1)
    (hf : f ∈ dirs) (hid : id ∈ s.ids row f)
    (hids : ∀ g, t.ids row g = if g = f then (s.ids row f).filter (· ≠ id) else s.ids row g)
    (hcarries : p.carries = none)
    (hq : q.carries = some id ∨ q.carries = none ∧ q.deletes = some id) :
    (t.listed row dirs).count x + inHand x q = (s.listed row dirs).count x + inHand x p ∨
      q.deletes = some x := by
  have hcount : (t.listed row dirs).count x + (s.ids row f).count x
      = (s.listed row dirs).count x + (t.ids row f).count x :=
    Lib.Threads.count_flatMap_set hnodup hf (fun g _ hg => (hids g).trans (if_neg hg)) x
  have hnew : t.ids row f = (s.ids row f).filter (· ≠ id) := (hids f).trans (if_pos rfl)
  rw [inHand_none hcarries]
  by_cases hxid : x = id
  · subst hxid
    have hgone : (t.ids row f).count x = 0 := by
      rw [hnew, List.count_eq_zero]
      exact fun hm => of_decide_eq_true (List.mem_filter.mp hm).2 rfl
    have hthere : 0 < (s.ids row f).count x := List.count_pos_iff.mpr hid
    rcases hq with hq | ⟨-, hq⟩
    · rw [inHand_some hq, if_pos rfl]
      exact Or.inl (by omega)
    · exact Or.inr hq
  · have hsame : (t.ids row f).count x = (s.ids row f).count x := by
      rw [hnew]
      exact List.count_filter (decide_eq_true hxid)
    have hempty : inHand x q = 0 := by
      rcases hq with hq | ⟨hq, -⟩
      · rw [inHand_some hq, if_neg hxid]
      · exact inHand_none hq
    exact Or.inl (by omega)

/-- An id that is put on was in hand, or is newer than every id at the start. -/
theorem balance_added {x f id : Str} (hnodup : dirs.Nodup) (hx : x ∈ before) (hf : f ∈ dirs)
    (hids : ∀ g, t.ids row g = if g = f then s.ids row f ++ [id] else s.ids row g)
    (hp : p.carries = some id ∨ p.carries = none ∧ id ∉ before) (hcarries : q.carries = none) :
    (t.listed row dirs).count x + inHand x q = (s.listed row dirs).count x + inHand x p := by
  have hcount : (t.listed row dirs).count x + (s.ids row f).count x
      = (s.listed row dirs).count x + (t.ids row f).count x :=
    Lib.Threads.count_flatMap_set hnodup hf (fun g _ hg => (hids g).trans (if_neg hg)) x
  have hnew : t.ids row f = s.ids row f ++ [id] := (hids f).trans (if_pos rfl)
  have hput : [id].count x = inHand x p := by
    rcases hp with hp | ⟨hp, hfresh⟩
    · rw [inHand_some hp, List.count_singleton]
      by_cases hxid : x = id
      · rw [if_pos hxid, if_pos (beq_iff_eq.mpr hxid.symm)]
      · rw [if_neg hxid, if_neg fun he => hxid (beq_iff_eq.mp he).symm]
    · rw [inHand_none hp, List.count_eq_zero, List.mem_singleton]
      rintro rfl
      exact hfresh hx
  rw [hnew, List.count_append, hput] at hcount
  rw [inHand_none hcarries]
  omega

/-- **What a step takes off it has in hand**, and what it puts on it had. -/
theorem balance_did {x : Str} (hnodup : dirs.Nodup) (hx : x ∈ before)
    (hone : (s.listed row dirs).count x ≤ 1) (hd : Dir.Did row dirs before s t p q) :
    (t.listed row dirs).count x + inHand x q = (s.listed row dirs).count x + inHand x p ∨
      q.deletes = some x := by
  cases hd with
  | kept hids hlog hcarries =>
      have hlisted : t.listed row dirs = s.listed row dirs := List.flatMap_congr hids
      rw [hlisted, inHand, inHand, hcarries]
      exact Or.inl rfl
  | took f id hf hid hids hlog hcarries hq => exact balance_took hnodup hone hf hid hids hcarries hq
  | added f id hf hids hlog hp hcarries =>
      exact Or.inl (balance_added hnodup hx hf hids hp hcarries)

theorem once_next {x : Str} {ps : List DirPc} {i : Nat} (hnodup : dirs.Nodup) (hx : x ∈ before)
    (hd : Dir.Did row dirs before s t p q) (hi : ps[i]? = some p)
    (hs : Once row dirs x ⟨s, ps⟩) (hdeletes : p.deletes = some x → q.deletes = some x) :
    Once row dirs x ⟨t, ps.set i q⟩ := by
  rcases hs with hone | hdeleted
  · simp only at hone
    have hmoved : (ps.set i q).countP (fun p => p.carries = some x) + inHand x p
        = ps.countP (fun p => p.carries = some x) + inHand x q :=
      Lib.Threads.countP_set q (fun p => p.carries = some x) hi
    rcases balance_did hnodup hx (by omega) hd with hbalance | hdeleted
    · refine Or.inl ?_
      simp only
      omega
    · obtain ⟨hlt, -⟩ := List.getElem?_eq_some_iff.mp hi
      exact Or.inr ⟨q, List.mem_set hlt q, hdeleted⟩
  · exact Or.inr (Lib.Threads.exists_set hi hdeletes hdeleted)

/-- **A request keeps an id once**: in one listing or in one move's hand. -/
theorem once_step {x : Str} {u v : Lib.Threads Dir DirPc} {a : Lib.Turn DirCall}
    (hnodup : dirs.Nodup) (hx : x ∈ before)
    (hu : Lib.Threads.Holds (Dir.Sound row dirs) (Ready dirs before) u)
    (ha : Lib.Threads.Meets (Suits row dirs before) u a) (h : Dir.step row u a = some v)
    (hs : Once row dirs x u) : Once row dirs x v := by
  cases a with
  | enter c =>
      cases h
      refine hs.imp (fun hone => ?_) fun ⟨p, hp, hdel⟩ => ⟨p, List.mem_append_left _ hp, hdel⟩
      rw [List.countP_append]
      exact hone
  | next i =>
      obtain ⟨p, q, hp, hq, ht⟩ := Lib.Threads.step_next h
      have hsteps := next_steps hu.shared.listed (hu.each p (List.mem_of_getElem? hp)) (ha p hp) hq
      have honce := once_next hnodup hx hsteps.did hp hs (deletes_next hq)
      rw [← ht] at honce
      exact honce

theorem Dir.Starts.sound (h : s.Starts row dirs) : s.Sound row dirs where
  listed := h.listed
  folder m hm := by
    rw [h.log] at hm
    exact absurd hm List.not_mem_nil
  stands f _ id hst := by
    rw [h.log] at hst
    exact hst.elim

/-- A call that has returned has nothing in hand. -/
theorem carries_of_returned (h : p.returned = true) : p.carries = none := by
  cases p with
  | done c result => rfl
  | _ => cases h

/-- A deletion that has returned with an id taken off has returned true. -/
theorem deletes_of_returned {x : Str} (h : p.returned = true) (hx : p.deletes = some x) :
    ∃ path, p = .done (.delete ⟨path, x⟩) true := by
  cases p with
  | done c result =>
      cases c with
      | delete d =>
          cases result with
          | true =>
              obtain rfl := Option.some.inj hx
              exact ⟨d.path, rfl⟩
          | false => cases hx
      | _ => cases hx
  | _ => cases h

/-- The property of the finished run: no file is lost or duplicated, and moves have got
somewhere. -/
structure FilesKept (row : Str) (dirs : List Str) (s : Dir) (t : Lib.Threads Dir DirPc) : Prop where
  /-- An id that was listed once and that no deletion has reported is listed once. -/
  once : ∀ x, (s.listed row dirs).count x = 1 →
    (∀ path, .done (.delete ⟨path, x⟩) true ∉ t.threads) → (t.shared.listed row dirs).count x = 1
  /-- A move that has returned true has put its file in the new folder. -/
  moved : ∀ m, .done (.move m) true ∈ t.threads → .moved m ∈ t.shared.log
  /-- There the file is listed, if no later call has taken it off. -/
  there : ∀ m later earlier, t.shared.log = later ++ .moved m :: earlier →
    .took m.new m.file.id ∉ later → m.file.id ∈ t.shared.ids row m.new

/-- **No file is lost or duplicated** by any calls whose requests all meet `Suits`. -/
theorem files_kept {as : List (Lib.Turn DirCall)} {t : Lib.Threads Dir DirPc} (hnodup : dirs.Nodup)
    (hs : s.Starts row dirs)
    (hg : Lib.Guarded (Dir.step row) (Lib.Threads.Meets (Suits row dirs (s.listed row dirs)))
      { shared := s } as)
    (hr : Lib.run (Dir.step row) { shared := s } as = some t)
    (hdone : ∀ p ∈ t.threads, p.returned = true) : FilesKept row dirs s t := by
  have hinv : Lib.Threads.Holds (Dir.Sound row dirs) (Ready dirs (s.listed row dirs)) t ∧
      ∀ x, (s.listed row dirs).count x = 1 → Once row dirs x t := by
    refine Lib.inv_of_guarded (I := fun u => Lib.Threads.Holds (Dir.Sound row dirs)
      (Ready dirs (s.listed row dirs)) u ∧ ∀ x, (s.listed row dirs).count x = 1 → Once row dirs x u)
      ?_ ⟨⟨hs.sound, fun _ hp => absurd hp List.not_mem_nil⟩, ?_⟩ hg hr
    · intro u a v hu ha h
      refine ⟨Lib.Threads.holds_step ?_ ?_ ?_ hu.1 ha h, fun x hx => ?_⟩
      · exact fun u c _ => trivial
      · intro u p v q hJ hP hC h
        have hsteps := next_steps hJ.listed hP hC h
        exact ⟨sound_step hJ hsteps, hsteps.ready⟩
      · intro u p v q hJ hP hC h r hr
        exact ready_mono (next_steps hJ.listed hP hC h).did.log_subset hr
      · have hmem : x ∈ s.listed row dirs := List.count_pos_iff.mp (by omega)
        exact once_step hnodup hmem hu.1 ha h (hu.2 x hx)
    · exact fun x hx => Or.inl hx
  refine ⟨fun x hx hdel => ?_, fun m hm => hinv.1.each _ hm, fun m later earlier hlog hlater => ?_⟩
  · rcases hinv.2 x hx with hone | ⟨p, hp, hpx⟩
    · -- every call has returned, so no move has the id in hand
      have hnone : t.threads.countP (fun p => p.carries = some x) = 0 := by
        rw [List.countP_eq_zero]
        intro p hp
        rw [carries_of_returned (hdone p hp)]
        simp
      rw [hnone] at hone
      exact hone
    · obtain ⟨path, rfl⟩ := deletes_of_returned (hdone p hp) hpx
      exact absurd hp (hdel path)
  · have hmem : .moved m ∈ t.shared.log := hlog ▸ List.mem_append_right _ List.mem_cons_self
    refine hinv.1.shared.stands m.new (hinv.1.shared.folder m hmem) m.file.id ?_
    rw [hlog]
    exact stands_of_moved hlater

/-! ## Two folders and a file -/

/-- Two folders and a file in the root folder. -/
def folderA : FileInfo := ⟨['1'], ['a'], false, ['t'], ['0']⟩
def folderB : FileInfo := ⟨['2'], ['b'], false, ['t'], ['0']⟩
def noteFile : FileInfo := ⟨['3'], ['n'], true, ['t'], ['4']⟩

def homeDirs : List Str := ["storage".toList, ['1'], ['2']]

def homeListing : Str := folderA.line ++ folderB.line ++ noteFile.line

/-- Their listings on the data server. -/
def home : Dir where
  server :=
    { primary := true
      table := ((Nested.set ∅ ['u'] (contentCol "storage".toList) (homeListing ++ crlf)).set
        ['u'] (contentCol ['1']) crlf).set ['u'] (contentCol ['2']) crlf }

theorem homeListing_isListing : IsListing homeListing := by
  have ha : folderA.Plain := by decide
  have hb : folderB.Plain := by decide
  have hn : noteFile.Plain := by decide
  exact (((IsListing.nil.append ha).1.append hb).1.append hn).1

theorem home_starts : home.Starts ['u'] homeDirs where
  listed f hf := by
    have hroot : home.cell ['u'] "storage".toList = some (homeListing ++ crlf) := by decide +kernel
    have ha : home.cell ['u'] ['1'] = some ([] ++ crlf) := by decide +kernel
    have hb : home.cell ['u'] ['2'] = some ([] ++ crlf) := by decide +kernel
    simp only [homeDirs, List.mem_cons, List.not_mem_nil, or_false] at hf
    rcases hf with rfl | rfl | rfl
    · exact Or.inr ⟨_, homeListing_isListing, hroot⟩
    · exact Or.inr ⟨[], .nil, ha⟩
    · exact Or.inr ⟨[], .nil, hb⟩
  log := rfl

/-- One session moves the file, another renames a folder in between. -/
def renameBetween : List (Lib.Turn DirCall) :=
  [.enter (.move ⟨"storage".toList, ['1'], noteFile⟩), .next 0,
   .enter (.rename ⟨"storage".toList, ['2'], false, ['b'], ['c']⟩), .next 1, .next 1,
   .next 0, .next 1, .next 0, .next 0, .next 0, .next 0, .next 0]

theorem renameBetween_kept :
    ∃ t, Lib.run (Dir.step ['u']) { shared := home } renameBetween = some t ∧
    FilesKept ['u'] homeDirs home t := by
  have hrun : (Lib.run (Dir.step ['u']) { shared := home } renameBetween).map
      (·.threads.all DirPc.returned) = some true := by decide +kernel
  have hg : Lib.Guarded (Dir.step ['u'])
      (Lib.Threads.Meets (Suits ['u'] homeDirs (home.listed ['u'] homeDirs)))
      { shared := home } renameBetween := by decide +kernel
  obtain ⟨t, ht, hall⟩ := Option.map_eq_some_iff.mp hrun
  exact ⟨t, ht, files_kept (by decide) home_starts hg ht (List.all_eq_true.mp hall)⟩

/-- Two sessions move the file at once, each to another folder. -/
def movedTwice : List (Lib.Turn DirCall) :=
  [.enter (.move ⟨"storage".toList, ['1'], noteFile⟩),
   .enter (.move ⟨"storage".toList, ['2'], noteFile⟩), .next 0, .next 1, .next 0, .next 1, .next 1,
   .next 1, .next 0, .next 0, .next 0, .next 1, .next 1, .next 1]

/-- Both moves return true, and the file is in both folders. -/
theorem file_duplicated : ∃ t,
    Lib.run (Dir.step ['u']) { shared := home } movedTwice = some t ∧
    t.threads = [.done (.move ⟨"storage".toList, ['1'], noteFile⟩) true,
      .done (.move ⟨"storage".toList, ['2'], noteFile⟩) true] ∧
    (home.listed ['u'] homeDirs).count ['3'] = 1 ∧
    (t.shared.listed ['u'] homeDirs).count ['3'] = 2 ∧ ¬ FilesKept ['u'] homeDirs home t := by
  have hrun : (Lib.run (Dir.step ['u']) { shared := home } movedTwice).map
      (fun t => (t.threads, (t.shared.listed ['u'] homeDirs).count ['3']))
      = some ([.done (.move ⟨"storage".toList, ['1'], noteFile⟩) true,
          .done (.move ⟨"storage".toList, ['2'], noteFile⟩) true], 2) := by decide +kernel
  have hone : (home.listed ['u'] homeDirs).count ['3'] = 1 := by decide +kernel
  obtain ⟨t, ht, he⟩ := Option.map_eq_some_iff.mp hrun
  obtain ⟨hthreads, htwo⟩ := Prod.mk.inj he
  refine ⟨t, ht, hthreads, hone, htwo, fun hkept => ?_⟩
  have hdel : ∀ path, .done (.delete ⟨path, ['3']⟩) true ∉ t.threads := by
    intro path
    rw [hthreads]
    simp
  exact absurd (htwo.symm.trans (hkept.once _ hone hdel)) (by decide)

end PennCloud
