import PennCloud.Lib.Runs
import PennCloud.Lib.Threads
import PennCloud.Storage.Calls
import PennCloud.Storage.Uploads

/-!
# New files and folders of many sessions

`upload_file` and `create_folder` take the reading of the local clock, cut to
milliseconds, for the id of what they create, and nothing keeps two of them from
getting the same. The entry of the second is accepted like any other, and its name
and content are then put where those of the first are.

As long as every entry that is added has an id that nobody uses, a call writes
nothing but the listing of its folder and the two cells of its id, and what is
there of every other file stays.
-/

namespace PennCloud

open Str

/-! ## The calls -/

/-- A call, in the folder `path`, with what the clock says where it is asked. -/
inductive Creation
  | uploadFile (path name content : Str) (now created : Clock)
  | createFolder (path name : Str) (now created : Clock)
  deriving DecidableEq

/-- The entry it adds and the content it puts. -/
def Creation.upload : Creation → Upload
  | uploadFile path name content now created =>
    ⟨path, Storage.newFile name content now created, convertBinaryToStr content⟩
  | createFolder path name now created => ⟨path, Storage.newFolder name now created, []⟩

/-- Where a call stands. -/
inductive CreationPc
  /-- `create_folder`, about to get the listing. -/
  | folder (u : Upload)
  | going (p : DirPc)
  deriving DecidableEq

namespace CreationPc

def start : Creation → CreationPc
  | c@(.uploadFile ..) => going (.start (.upload c.upload))
  | c@(.createFolder ..) => folder c.upload

/-- The next request. The `GET` of `refresh_upload` at the end of `create_folder` is left out. -/
def next (row : Str) (s : Dir) : CreationPc → Option (Dir × CreationPc)
  | folder u => (s.get row u.path).bind fun r => (u.beginFolder r.1).map fun p => (r.2, going p)
  | going p => (s.next row p).map fun r => (r.1, going r.2)

/-- What has been created, once its entry has been added. -/
def added : CreationPc → Option Upload
  | going (.putName u) | going (.putContent u) | going (.done (.upload u) true) => some u
  | _ => none

/-- The entry it is about to add, and the listing it has read. -/
def adding : CreationPc → Option (Upload × Str)
  | going (.add (.upload u) oldData) => some (u, oldData)
  | _ => none

/-- The call creates `u`. -/
def Of (u : Upload) : CreationPc → Prop
  | folder v => v = u
  | going p => Before u p ∨ After u p

/-- What holds of the cells of a call where it stands. -/
def Stands (row : Str) (s : Dir) : CreationPc → Prop
  | going (.add (.upload u) _) => s.cell row u.path ≠ none
  | going (.putName u) => s.cell row u.file.id = none
  | going (.putContent u) =>
    s.cell row u.file.id = none ∧ s.nameCell row u.file.id = some (u.file.name ++ crlf)
  | _ => True

/-- What a request of the call puts in which column. -/
inductive Writes (u : Upload) : CreationPc → CreationPc → Str → Str → Prop
  | entry (oldData : Str) : Writes u (going (.add (.upload u) oldData)) (going (.putName u))
      (contentCol u.path) (oldData ++ u.file.line ++ crlf)
  | name : Writes u (going (.putName u)) (going (.putContent u))
      (nameCol u.file.id) (u.file.name ++ crlf)
  | content : Writes u (going (.putContent u)) (going (.done (.upload u) true))
      (contentCol u.file.id) (u.content ++ crlf)

end CreationPc

/-- A call comes in, or sends its next request. -/
abbrev Dir.create (row : Str) : Lib.Threads Dir CreationPc → Lib.Turn Creation →
    Option (Lib.Threads Dir CreationPc) :=
  Lib.Threads.step CreationPc.start (CreationPc.next row)

/-! ## One request -/

variable {row : Str} {u : Upload} {s t : Dir} {p q : CreationPc}

theorem before_added {d : DirPc} (h : Before u d) : (CreationPc.going d).added = none := by
  cases h <;> rfl

theorem before_stands {d : DirPc} (h : Before u d)
    (hcell : ∀ oldData, d = .add (.upload u) oldData → s.cell row u.path ≠ none) :
    (CreationPc.going d).Stands row s := by
  cases h with
  | add oldData => exact hcell oldData rfl
  | start => trivial
  | again => trivial
  | failed => trivial

/-- **A request changes nothing, or puts one cell.** -/
theorem next_creation (hp : p.Of u) (h : p.next row s = some (t, q)) : q.Of u ∧
    (t = s ∧ p.added = none ∧ q.added = none ∧ q.Stands row s ∨
      ∃ col data, CreationPc.Writes u p q col data ∧ s.server.Binds t.server row col data ∧
        ∀ oldData, p = .going (.add (.upload u) oldData) →
          CputHolds s.server.table.view (row, contentCol u.path) (oldData ++ crlf)) := by
  cases p with
  | folder v =>
      obtain rfl : v = u := hp
      obtain ⟨⟨response, d⟩, hget, hbegin⟩ := Option.bind_eq_some_iff.mp h
      obtain rfl := get_same hget
      obtain ⟨d', hgot, he⟩ := Option.map_eq_some_iff.mp hbegin
      cases he
      obtain ⟨hbefore, hnull⟩ := beginFolder_before hgot
      exact ⟨Or.inl hbefore, Or.inl ⟨rfl, rfl, before_added hbefore,
        before_stands hbefore (cell_of_got hget hnull)⟩⟩
  | going d =>
      obtain ⟨⟨s', d'⟩, hnext, he⟩ := Option.map_eq_some_iff.mp h
      cases he
      have hstep := next_upload hp hnext
      refine ⟨hstep.stays, ?_⟩
      cases hstep with
      | same hs hbefore hbefore' hcell =>
          exact Or.inl ⟨hs, before_added hbefore, before_added hbefore',
            before_stands hbefore' hcell⟩
      | added hholds hbinds =>
          refine Or.inr ⟨_, _, .entry _, hbinds, fun _ he => ?_⟩
          cases he
          exact hholds
      | named hbinds => exact Or.inr ⟨_, _, .name, hbinds, fun _ he => by cases he⟩
      | filled hbinds => exact Or.inr ⟨_, _, .content, hbinds, fun _ he => by cases he⟩

/-! ## Ids that are used -/

/-- What a cell lists, read as a folder's. -/
theorem cell_of_ids {f x : Str} (h : x ∈ s.ids row f) : s.cell row f ≠ none := by
  intro hnone
  rw [Dir.ids, Dir.text, hnone] at h
  exact absurd h List.not_mem_nil

/-- The id is that of a file or folder: it has a cell, or is listed, or has been added by a call
other than `i`. -/
def UsedId (row : Str) (w : Lib.Threads Dir CreationPc) (i : Nat) (x : Str) : Prop :=
  w.shared.nameCell row x ≠ none ∨ w.shared.cell row x ≠ none ∨ (∃ f, x ∈ w.shared.ids row f) ∨
    ∃ j < w.threads.length, j ≠ i ∧
      ∃ p ∈ w.threads[j]?, ∃ v ∈ CreationPc.added p, v.file.id = x

/-- If the call is about to add its entry, and the entry will be accepted, its id is not used. -/
def FreshIfAdded (row : Str) (w : Lib.Threads Dir CreationPc) (i : Nat) (p : CreationPc) : Prop :=
  ∀ e ∈ p.adding, CputHolds w.shared.server.table.view (row, contentCol e.1.path) (e.2 ++ crlf) →
    ¬ UsedId row w i e.1.file.id

/-- The ids of the cells there are. -/
def Dir.celled (row : Str) (s : Dir) : List Str :=
  (s.server.table[row]?.getD ∅).keys.map fun col => col.take (col.length - ":content".toList.length)

theorem mem_celled {f : Str} (h : s.cell row f ≠ none) : f ∈ s.celled row := by
  obtain ⟨data, hdata⟩ := Option.ne_none_iff_exists'.mp h
  obtain ⟨m, hm, hcol⟩ := Option.bind_eq_some_iff.mp hdata
  have hmem : contentCol f ∈ m.keys := by
    rw [Std.TreeMap.mem_keys, Std.TreeMap.mem_iff_isSome_getElem?, hcol]
    rfl
  rw [Dir.celled, hm]
  refine List.mem_map.mpr ⟨contentCol f, hmem, ?_⟩
  rw [contentCol, List.length_append, Nat.add_sub_cancel, List.take_left]

instance (row : Str) (s : Dir) (x : Str) : Decidable (∃ f, x ∈ s.ids row f) :=
  decidable_of_iff (∃ f ∈ s.celled row, x ∈ s.ids row f)
    ⟨fun ⟨f, _, hx⟩ => ⟨f, hx⟩, fun ⟨f, hx⟩ => ⟨f, mem_celled (cell_of_ids hx), hx⟩⟩

instance (row : Str) (w : Lib.Threads Dir CreationPc) (i : Nat) (x : Str) :
    Decidable (UsedId row w i x) :=
  inferInstanceAs (Decidable (_ ∨ _ ∨ _ ∨ _))

instance (row : Str) (w : Lib.Threads Dir CreationPc) (i : Nat) :
    DecidablePred (FreshIfAdded row w i) :=
  fun p => inferInstanceAs (Decidable (∀ e ∈ p.adding, _ → ¬ _))

/-- No entry is added whose id is used. -/
def AddsFresh (row : Str) (w : Lib.Threads Dir CreationPc) : Lib.Turn Creation → Prop
  | .enter _ => True
  | .next i => ∀ p ∈ w.threads[i]?, FreshIfAdded row w i p

instance (row : Str) (w : Lib.Threads Dir CreationPc) : DecidablePred (AddsFresh row w)
  | .enter _ => .isTrue trivial
  | .next i => inferInstanceAs (Decidable (∀ p ∈ w.threads[i]?, FreshIfAdded row w i p))

/--
What the calls have done since the data server held `s₀`: the ids they have added
are different and nobody's else, nothing is changed but the listings of their folders
and the cells of these ids, and what they have put is there.
-/
structure OwnCells (row : Str) (s₀ : Dir) (w : Lib.Threads Dir CreationPc) : Prop where
  distinct : ∀ (i j : Nat) (p q : CreationPc), w.threads[i]? = some p → w.threads[j]? = some q →
    ∀ u ∈ p.added, ∀ v ∈ q.added, u.file.id = v.file.id → i = j
  fresh : ∀ (i : Nat) (p : CreationPc), w.threads[i]? = some p →
    ∀ u ∈ p.added, s₀.nameCell row u.file.id = none ∧
    s₀.cell row u.file.id = none ∧ ∀ f, u.file.id ∉ s₀.ids row f
  frame : ∀ r c, w.shared.server.table.at? r c ≠ s₀.server.table.at? r c → r = row ∧
    ∃ p ∈ w.threads, ∃ u ∈ CreationPc.added p,
      c = contentCol u.path ∨ c = nameCol u.file.id ∨ c = contentCol u.file.id
  kept : ∀ (i : Nat) (u : Upload), w.threads[i]? = some (.going (.done (.upload u) true)) →
    w.shared.nameCell row u.file.id = some (u.file.name ++ crlf) ∧
      (w.shared.cell row u.file.id = some (u.content ++ crlf) ∨
        -- a folder, which something has been put in
        ∃ p ∈ w.threads, ∃ v ∈ CreationPc.added p, v.path = u.file.id)

/-- **A file that was there before keeps its name and its content**, unless it is a folder that was
written to. -/
theorem OwnCells.untouched {s₀ : Dir} {w : Lib.Threads Dir CreationPc} (h : OwnCells row s₀ w)
    {x : Str} (hx : s₀.nameCell row x ≠ none ∨ s₀.cell row x ≠ none) :
    w.shared.nameCell row x = s₀.nameCell row x ∧
      (w.shared.cell row x = s₀.cell row x ∨ ∃ p ∈ w.threads, ∃ u ∈ CreationPc.added p,
        u.path = x) := by
  have hother : ∀ p ∈ w.threads, ∀ u ∈ CreationPc.added p, u.file.id ≠ x := by
    rintro p hp u hu rfl
    obtain ⟨i, hi, rfl⟩ := List.mem_iff_getElem.mp hp
    obtain ⟨hname, hcell, -⟩ := h.fresh i _ (List.getElem?_eq_getElem hi) u hu
    exact hx.elim (absurd hname) (absurd hcell)
  constructor
  · by_contra hne
    obtain ⟨-, p, hp, u, hu, hc | hc | hc⟩ := h.frame row (nameCol x) hne
    · exact nameCol_ne_contentCol _ _ hc
    · exact hother p hp u hu (nameCol_inj.mp hc).symm
    · exact nameCol_ne_contentCol _ _ hc
  · by_contra hno
    rw [not_or] at hno
    obtain ⟨-, p, hp, u, hu, hc | hc | hc⟩ := h.frame row (contentCol x) hno.1
    · exact hno.2 ⟨p, hp, u, hu, (contentCol_inj.mp hc).symm⟩
    · exact nameCol_ne_contentCol _ _ hc.symm
    · exact hother p hp u hu (contentCol_inj.mp hc).symm

/-! ## What a step keeps -/

/-- All that is known along a run in which every entry is fresh. -/
structure Creates (row : Str) (s₀ : Dir) (w : Lib.Threads Dir CreationPc) : Prop
    extends OwnCells row s₀ w where
  stands : ∀ (i : Nat) (p : CreationPc), w.threads[i]? = some p →
    (∃ u, p.Of u) ∧ p.Stands row w.shared
  cells : ∀ r c, s₀.server.table.at? r c ≠ none → w.shared.server.table.at? r c ≠ none
  listed : ∀ f x, x ∈ s₀.ids row f → x ∈ w.shared.ids row f

variable {s₀ : Dir} {w : Lib.Threads Dir CreationPc} {i : Nat} {col data : Str}

/-- A thread after thread `i` has moved on to `q`. -/
theorem thread_set {ps : List CreationPc} {j : Nat} {r : CreationPc}
    (h : (ps.set i q)[j]? = some r) : j = i ∧ r = q ∨ j ≠ i ∧ ps[j]? = some r := by
  rw [List.getElem?_set] at h
  split at h
  · rename_i hij
    split at h
    · exact Or.inl ⟨hij.symm, (Option.some.inj h).symm⟩
    · cases h
  · rename_i hij
    exact Or.inr ⟨Ne.symm hij, h⟩

/-- What has been added stays so. -/
theorem added_set {ps : List CreationPc} (hp : ps[i]? = some p)
    (hkeep : ∀ u ∈ p.added, u ∈ q.added) {P : Upload → Prop}
    (h : ∃ r ∈ ps, ∃ v ∈ CreationPc.added r, P v) :
    ∃ r ∈ ps.set i q, ∃ v ∈ CreationPc.added r, P v := by
  refine Lib.Threads.exists_set hp ?_ h
  rintro ⟨v, hv, hP⟩
  exact ⟨v, hkeep v hv, hP⟩

/-- The listings are read on: what is appended takes no line away. -/
theorem mem_idsIn_append {text x : Str} (more : Str) (h : x ∈ idsIn text) :
    x ∈ idsIn (text ++ more) := by
  have hfront : ∀ (text l : Str), fileNamesFrom l text <+: fileNamesFrom l (text ++ more) := by
    intro text
    induction text with
    | nil => exact fun l => List.nil_prefix
    | cons c text ih =>
        intro l
        rw [List.cons_append, fileNamesFrom, fileNamesFrom]
        split
        · exact List.cons_prefix_cons.mpr ⟨rfl, ih []⟩
        · exact ih _
  obtain ⟨l, hl, hx⟩ := List.mem_filterMap.mp h
  exact List.mem_filterMap.mpr ⟨l, (hfront text []).subset hl, hx⟩

/-- Threads that come in or move on without having added anything. -/
theorem Creates.idle (h : Creates row s₀ w) {ps : List CreationPc}
    (hcases : ∀ (j : Nat) (r : CreationPc), ps[j]? = some r → w.threads[j]? = some r ∨
      r.added = none ∧ (∃ u, r.Of u) ∧ r.Stands row w.shared)
    (hmore : ∀ r ∈ w.threads, ∀ v ∈ CreationPc.added r, r ∈ ps) :
    Creates row s₀ { w with threads := ps } := by
  have hold : ∀ (j : Nat) (r : CreationPc), ps[j]? = some r → ∀ u ∈ r.added,
      w.threads[j]? = some r := by
    intro j r hr u hu
    refine (hcases j r hr).resolve_right fun hnone => ?_
    rw [hnone.1] at hu
    cases hu
  have hex : ∀ {P : Upload → Prop}, (∃ r ∈ w.threads, ∃ v ∈ CreationPc.added r, P v) →
      ∃ r ∈ ps, ∃ v ∈ CreationPc.added r, P v := by
    rintro P ⟨r, hr, v, hv, hP⟩
    exact ⟨r, hmore r hr v hv, v, hv, hP⟩
  refine ⟨⟨?_, ?_, ?_, ?_⟩, ?_, h.cells, h.listed⟩
  · intro a b p q hp hq u hu v hv
    exact h.distinct a b p q (hold a p hp u hu) (hold b q hq v hv) u hu v hv
  · exact fun a p hp u hu => h.fresh a p (hold a p hp u hu) u hu
  · intro r c hne
    obtain ⟨hr, hadded⟩ := h.frame r c hne
    exact ⟨hr, hex hadded⟩
  · intro a u hu
    obtain ⟨hname, hcell⟩ := h.kept a u (hold a _ hu u rfl)
    exact ⟨hname, hcell.imp_right hex⟩
  · intro a p hp
    exact (hcases a p hp).elim (h.stands a p) And.right

/-- A call that comes in changes nothing. -/
theorem Creates.enter (h : Creates row s₀ w) (k : Creation) :
    Creates row s₀ { w with threads := w.threads ++ [CreationPc.start k] } := by
  refine h.idle (fun j r hr => ?_) fun r hr _ _ => List.mem_append_left _ hr
  rw [List.getElem?_append] at hr
  split at hr
  · exact Or.inl hr
  · rw [List.mem_singleton.mp (List.mem_of_getElem? hr)]
    cases k with
    | uploadFile => exact Or.inr ⟨rfl, ⟨_, Or.inl .start⟩, trivial⟩
    | createFolder => exact Or.inr ⟨rfl, ⟨_, rfl⟩, trivial⟩

/-- A request that changes nothing. -/
theorem Creates.same (h : Creates row s₀ w) (hp : w.threads[i]? = some p) (hof : q.Of u)
    (hpnone : p.added = none) (hqnone : q.added = none) (hstands : q.Stands row w.shared) :
    Creates row s₀ { w with threads := w.threads.set i q } := by
  refine h.idle (fun j r hr => ?_) fun r hr v hv => ?_
  · rcases thread_set hr with ⟨-, rfl⟩ | ⟨-, hr⟩
    · exact Or.inr ⟨hqnone, ⟨u, hof⟩, hstands⟩
    · exact Or.inl hr
  · obtain ⟨j, hj, rfl⟩ := List.mem_iff_getElem.mp hr
    have hij : i ≠ j := by
      rintro rfl
      rw [Option.some.inj ((List.getElem?_eq_getElem hj).symm.trans hp), hpnone] at hv
      cases hv
    refine List.mem_iff_getElem.mpr ⟨j, by rwa [List.length_set], ?_⟩
    rw [List.getElem_set, if_neg hij]

/-! ## What a cell that is put does to the others -/

/-- A request that puts a cell, and what it is known to meet. -/
structure Put (row : Str) (s₀ : Dir) (w : Lib.Threads Dir CreationPc) (i : Nat) (u : Upload)
    (p q : CreationPc) (t : Dir) (col data : Str) : Prop where
  thread : w.threads[i]? = some p
  writes : CreationPc.Writes u p q col data
  binds : w.shared.server.Binds t.server row col data
  holds : ∀ oldData, p = .going (.add (.upload u) oldData) →
    CputHolds w.shared.server.table.view (row, contentCol u.path) (oldData ++ crlf)
  fresh : FreshIfAdded row w i p

variable (h : Creates row s₀ w) (hput : Put row s₀ w i u p q t col data)

section
include h hput

/-- The id is nobody else's, was nobody's before, and has no content yet. -/
theorem Put.own : (∀ (j : Nat) (r : CreationPc), j ≠ i → w.threads[j]? = some r →
      ∀ v ∈ r.added, v.file.id ≠ u.file.id) ∧
    (s₀.nameCell row u.file.id = none ∧ s₀.cell row u.file.id = none ∧
      ∀ f, u.file.id ∉ s₀.ids row f) ∧ w.shared.cell row u.file.id = none := by
  have hdistinct : u ∈ p.added → ∀ (j : Nat) (r : CreationPc), j ≠ i → w.threads[j]? = some r →
      ∀ v ∈ r.added, v.file.id ≠ u.file.id := fun hu j r hj hr v hv he =>
    hj (h.distinct j i r p hr hput.thread v hv u hu he)
  have hnew : u ∈ p.added → s₀.nameCell row u.file.id = none ∧ s₀.cell row u.file.id = none ∧
      ∀ f, u.file.id ∉ s₀.ids row f := fun hu => h.fresh i p hput.thread u hu
  have hstands := (h.stands i p hput.thread).2
  obtain ⟨hthread, hwrites, -, hholds, hfresh⟩ := hput
  cases hwrites with
  | entry oldData =>
      have hnot := hfresh (u, oldData) rfl (hholds oldData rfl)
      simp only [UsedId, not_or, not_exists, not_not] at hnot
      obtain ⟨hname, hcell, hids, hothers⟩ := hnot
      refine ⟨fun j r hj hr v hv he => ?_, ⟨?_, ?_, fun f hf => hids f (h.listed f _ hf)⟩, hcell⟩
      · exact hothers j ⟨(List.getElem?_eq_some_iff.mp hr).1, hj, r, hr, v, hv, he⟩
      · by_contra hne
        exact h.cells row _ hne hname
      · by_contra hne
        exact h.cells row _ hne hcell
  | name => exact ⟨hdistinct rfl, hnew rfl, hstands⟩
  | content => exact ⟨hdistinct rfl, hnew rfl, hstands.1⟩

/-- Where an entry is added, the listing is there. -/
theorem Put.path_ne {oldData : Str} (hp : p = .going (.add (.upload u) oldData)) :
    w.shared.cell row u.path = some (oldData ++ crlf) := by
  subst hp
  have hstands := (h.stands i _ hput.thread).2
  exact (hput.holds oldData rfl).resolve_left fun hnone => hstands hnone.1

omit h in
theorem Put.added : q.added = some u ∧ ∀ v ∈ p.added, v ∈ q.added := by
  cases hput.writes with
  | entry => exact ⟨rfl, fun v hv => by cases hv⟩
  | name => exact ⟨rfl, fun v hv => hv⟩
  | content => exact ⟨rfl, fun v hv => hv⟩

omit h in
theorem Put.col_cases : col = contentCol u.path ∨ col = nameCol u.file.id ∨
    col = contentCol u.file.id := by
  cases hput.writes with
  | entry => exact Or.inl rfl
  | name => exact Or.inr (Or.inl rfl)
  | content => exact Or.inr (Or.inr rfl)

omit h in
theorem Put.cell_eq (g : Str) :
    t.cell row g = if contentCol g = col then some data else w.shared.cell row g := by
  have hg := hput.binds row (contentCol g)
  simp only [true_and] at hg
  exact hg

omit h in
theorem Put.nameCell_eq (g : Str) :
    t.nameCell row g = if nameCol g = col then some data else w.shared.nameCell row g := by
  have hg := hput.binds row (nameCol g)
  simp only [true_and] at hg
  exact hg

omit h in
/-- The name of another id is not put. -/
theorem Put.name_other {x : Str} (hx : x ≠ u.file.id) : nameCol x ≠ col := by
  rcases hput.col_cases with rfl | rfl | rfl
  · exact nameCol_ne_contentCol _ _
  · exact fun he => hx (nameCol_inj.mp he)
  · exact nameCol_ne_contentCol _ _

/-- The content of another id is not put, unless it is the listing. -/
theorem Put.content_other {x : Str} (hx : x ≠ u.file.id) (hpath : u.path ≠ x ∨
    w.shared.cell row x = none) : contentCol x ≠ col := by
  intro he
  cases hput.writes with
  | entry oldData =>
      have hcell := hput.path_ne h rfl
      rw [← contentCol_inj.mp he] at hcell
      rcases hpath with hne | hnone
      · exact hne (contentCol_inj.mp he).symm
      · rw [hnone] at hcell
        cases hcell
  | name => exact nameCol_ne_contentCol _ _ he.symm
  | content => exact hx (contentCol_inj.mp he)

/-- What another call relies on stays. -/
theorem Put.stands_other {j : Nat} {r : CreationPc} (hj : j ≠ i) (hr : w.threads[j]? = some r) :
    r.Stands row t := by
  obtain ⟨⟨v, hof⟩, hstands⟩ := h.stands j r hr
  have hown := (hput.own h).1 j r hj hr
  have hbound : ∀ g, w.shared.cell row g ≠ none → t.cell row g ≠ none := by
    intro g hg
    rw [hput.cell_eq]
    split
    · exact Option.some_ne_none _
    · exact hg
  unfold CreationPc.Stands at hstands ⊢
  split at hstands
  · exact hbound _ hstands
  · rename_i v'
    rw [hput.cell_eq, if_neg (hput.content_other h (hown v' rfl) (Or.inr hstands))]
    exact hstands
  · rename_i v'
    rw [hput.cell_eq, if_neg (hput.content_other h (hown v' rfl) (Or.inr hstands.1)),
      hput.nameCell_eq, if_neg (hput.name_other (hown v' rfl))]
    exact hstands
  · trivial

/-- Where the call itself stands then. -/
theorem Put.stands_own : q.Stands row t := by
  have hblank := (hput.own h).2.2
  have hstands := (h.stands i p hput.thread).2
  cases hput.writes with
  | entry oldData =>
      have hne : contentCol u.file.id ≠ contentCol u.path := by
        intro he
        have hcell := hput.path_ne h rfl
        rw [← contentCol_inj.mp he, hblank] at hcell
        cases hcell
      show t.cell row u.file.id = none
      rw [hput.cell_eq, if_neg hne]
      exact hblank
  | name =>
      refine ⟨?_, ?_⟩
      · rw [hput.cell_eq, if_neg (nameCol_ne_contentCol _ _).symm]
        exact hblank
      · rw [hput.nameCell_eq, if_pos rfl]
  | content => trivial

/-- Nothing is taken off a listing. -/
theorem Put.listed {f x : Str} (hx : x ∈ w.shared.ids row f) : x ∈ t.ids row f := by
  have hsame : contentCol f ≠ col → x ∈ t.ids row f := by
    intro hne
    have hcell : t.cell row f = w.shared.cell row f := by rw [hput.cell_eq, if_neg hne]
    rwa [Dir.ids, Dir.text, hcell, ← Dir.text, ← Dir.ids]
  have hblank := (hput.own h).2.2
  cases hput.writes with
  | entry oldData =>
      by_cases hf : contentCol f = contentCol u.path
      · obtain rfl := contentCol_inj.mp hf
        have hold := text_of_cell (hput.path_ne h rfl)
        have hnew : t.text row u.path = oldData ++ u.file.line := by
          refine text_of_cell ?_
          rw [hput.cell_eq, if_pos rfl]
        rw [Dir.ids, hold] at hx
        rw [Dir.ids, hnew]
        exact mem_idsIn_append _ hx
      · exact hsame hf
  | name => exact hsame (nameCol_ne_contentCol _ _).symm
  | content =>
      refine hsame fun he => ?_
      rw [← contentCol_inj.mp he] at hblank
      exact cell_of_ids hx hblank

/-- What the calls that have ended put is still there. -/
theorem Put.kept {j : Nat} {v : Upload}
    (hv : (w.threads.set i q)[j]? = some (.going (.done (.upload v) true))) :
    t.nameCell row v.file.id = some (v.file.name ++ crlf) ∧
      (t.cell row v.file.id = some (v.content ++ crlf) ∨
        ∃ r ∈ w.threads.set i q, ∃ v' ∈ CreationPc.added r, v'.path = v.file.id) := by
  obtain ⟨hi, hthread⟩ := List.getElem?_eq_some_iff.mp hput.thread
  obtain ⟨hadded, hkeep⟩ := hput.added
  rcases thread_set hv with ⟨rfl, hq⟩ | ⟨hj, hv⟩
  · have hstands := (h.stands j p hput.thread).2
    subst hq
    cases hput.writes with
    | content =>
        rw [hput.nameCell_eq, hput.cell_eq, if_neg (nameCol_ne_contentCol _ _), if_pos rfl]
        exact ⟨hstands.2, Or.inl rfl⟩
  · have hne : v.file.id ≠ u.file.id := (hput.own h).1 j _ hj hv v rfl
    obtain ⟨hname, hcell⟩ := h.kept j v hv
    rw [hput.nameCell_eq, if_neg (hput.name_other hne)]
    refine ⟨hname, ?_⟩
    by_cases hpath : u.path = v.file.id
    · exact Or.inr ⟨q, List.mem_set hi q, u, hadded, hpath⟩
    · rw [hput.cell_eq, if_neg (hput.content_other h hne (Or.inl hpath))]
      exact hcell.imp_right (added_set hput.thread hkeep)

omit h in
theorem Put.added_self {v : Upload} (hv : v ∈ q.added) : v = u :=
  Option.some.inj (hv.symm.trans hput.added.1)

/-- Two threads that have added ids have added different ones. -/
theorem Put.distinct (a b : Nat) (p' q' : CreationPc) (hp : (w.threads.set i q)[a]? = some p')
    (hq : (w.threads.set i q)[b]? = some q') :
    ∀ v ∈ p'.added, ∀ v' ∈ q'.added, v.file.id = v'.file.id → a = b := by
  have hothers := (hput.own h).1
  intro v hv v' hv' he
  rcases thread_set hp with ⟨rfl, rfl⟩ | ⟨ha, hold⟩
  · obtain rfl := hput.added_self hv
    rcases thread_set hq with ⟨rfl, rfl⟩ | ⟨hb, hold'⟩
    · rfl
    · exact absurd he.symm (hothers b q' hb hold' v' hv')
  · rcases thread_set hq with ⟨rfl, rfl⟩ | ⟨hb, hold'⟩
    · obtain rfl := hput.added_self hv'
      exact absurd he (hothers a p' ha hold v hv)
    · exact h.distinct a b p' q' hold hold' v hv v' hv' he

/-- **A cell that is put for an id of one's own harms nobody.** -/
theorem Put.creates : Creates row s₀ ⟨t, w.threads.set i q⟩ := by
  obtain ⟨hi, hthread⟩ := List.getElem?_eq_some_iff.mp hput.thread
  obtain ⟨hadded, hkeep⟩ := hput.added
  refine ⟨⟨hput.distinct h, ?_, ?_, fun j v hv => hput.kept h hv⟩, ?_, ?_,
    fun f x hx => hput.listed h (h.listed f x hx)⟩
  · intro a p' hp v hv
    rcases thread_set hp with ⟨rfl, rfl⟩ | ⟨-, hp⟩
    · obtain rfl := hput.added_self hv
      exact (hput.own h).2.1
    · exact h.fresh a p' hp v hv
  · intro r c hne
    by_cases hrc : r = row ∧ c = col
    · obtain ⟨rfl, rfl⟩ := hrc
      exact ⟨rfl, q, List.mem_set hi q, u, hadded, hput.col_cases⟩
    · have hframe := hput.binds r c
      rw [if_neg hrc] at hframe
      rw [hframe] at hne
      exact (h.frame r c hne).imp_right (added_set hput.thread hkeep)
  · intro a p' hp
    rcases thread_set hp with ⟨rfl, rfl⟩ | ⟨ha, hp⟩
    · refine ⟨⟨u, ?_⟩, hput.stands_own h⟩
      cases hput.writes with
      | entry => exact Or.inr .putName
      | name => exact Or.inr .putContent
      | content => exact Or.inr .succeeded
    · exact ⟨(h.stands a p' hp).1, hput.stands_other h ha hp⟩
  · intro r c hne
    rw [hput.binds r c]
    split
    · exact Option.some_ne_none _
    · exact h.cells r c hne

end

/-! ## Runs -/

/-- **A step in which no used id is added.** -/
theorem Creates.step {w' : Lib.Threads Dir CreationPc} {a : Lib.Turn Creation}
    (h : Creates row s₀ w) (ha : AddsFresh row w a) (hstep : Dir.create row w a = some w') :
    Creates row s₀ w' := by
  cases a with
  | enter k =>
      cases hstep
      exact h.enter k
  | next i =>
      obtain ⟨p, q, hp, hnext, hthreads⟩ := Lib.Threads.step_next hstep
      obtain ⟨⟨u, hof⟩, -⟩ := h.stands i p hp
      obtain ⟨hof', ⟨hsame, hpnone, hqnone, hstands⟩ | ⟨col, data, hwrites, hbinds, hholds⟩⟩ :=
        next_creation hof hnext
      · have hcreates := h.same hp hof' hpnone hqnone hstands
        rw [← hthreads, ← hsame] at hcreates
        exact hcreates
      · have hcreates := (Put.mk hp hwrites hbinds hholds (ha p hp)).creates h
        rw [← hthreads] at hcreates
        exact hcreates

/-- Nothing has been done yet. -/
theorem creates_init (row : Str) (s₀ : Dir) : Creates row s₀ ⟨s₀, []⟩ := by
  have hnone : ∀ {i : Nat} {p : CreationPc}, ([] : List CreationPc)[i]? ≠ some p := by
    intro i p
    rw [List.getElem?_nil]
    exact (Option.some_ne_none p).symm
  refine ⟨⟨?_, ?_, fun _ _ h => absurd rfl h, ?_⟩, ?_, fun _ _ h => h, fun _ _ h => h⟩
  · exact fun _ _ _ _ hp => absurd hp hnone
  · exact fun _ _ hp => absurd hp hnone
  · exact fun _ _ hp => absurd hp hnone
  · exact fun _ _ hp => absurd hp hnone

/--
**A new file touches no other one** as long as no entry is added whose id is used:
every call has its id for itself, nothing is written but the listings and the cells
of these ids, and a file that was there before keeps its name and its content.
-/
theorem files_untouched {as : List (Lib.Turn Creation)}
    (hfresh : Lib.Guarded (Dir.create row) (AddsFresh row) ⟨s₀, []⟩ as)
    (hrun : Lib.run (Dir.create row) ⟨s₀, []⟩ as = some w) :
    OwnCells row s₀ w ∧ ∀ x, s₀.nameCell row x ≠ none ∨ s₀.cell row x ≠ none →
      w.shared.nameCell row x = s₀.nameCell row x ∧ (w.shared.cell row x = s₀.cell row x ∨
        -- a folder, which something has been put in
        ∃ p ∈ w.threads, ∃ u ∈ CreationPc.added p, u.path = x) := by
  have hcreates : Creates row s₀ w :=
    Lib.inv_of_guarded (fun _ _ _ h ha hstep => h.step ha hstep) (creates_init row s₀) hfresh hrun
  exact ⟨hcreates.toOwnCells, fun x hx => hcreates.untouched hx⟩

/-- A user with an empty storage. -/
def emptyHome : Dir where
  server :=
    { primary := true
      table := (Nested.set ∅ ['u'] "password".toList ['p', '\r', '\n']).set ['u']
        (contentCol storageFolder) crlf }

/-- So many milliseconds after some second. -/
def msecAt (msec : Nat) : Clock := ⟨2019, 12, 9, 18, 5, 0, msec⟩

/-- Two sessions upload a file each, one after the other. -/
def twoUploads (now now' : Clock) : List (Lib.Turn Creation) :=
  [.enter (.uploadFile storageFolder ['a'] ['x'] now now),
   .enter (.uploadFile storageFolder ['b'] ['y'] now' now')] ++
    List.replicate 4 (.next 0) ++ List.replicate 4 (.next 1)

theorem twoUploads_untouched : ∃ w,
    Lib.run (Dir.create ['u']) ⟨emptyHome, []⟩ (twoUploads (msecAt 1) (msecAt 2)) = some w ∧
      OwnCells ['u'] emptyHome w := by
  have hrun : (Lib.run (Dir.create ['u']) ⟨emptyHome, []⟩
      (twoUploads (msecAt 1) (msecAt 2))).isSome = true := by decide +kernel
  have hfresh : Lib.Guarded (Dir.create ['u']) (AddsFresh ['u']) ⟨emptyHome, []⟩
      (twoUploads (msecAt 1) (msecAt 2)) := by decide +kernel
  obtain ⟨w, hw⟩ := Option.isSome_iff_exists.mp hrun
  exact ⟨w, hw, (files_untouched hfresh hw).1⟩

/-- Within the same millisecond the second puts its content where that of the first is. -/
theorem twoUploads_overwrites : ∃ w u v,
    Lib.run (Dir.create ['u']) ⟨emptyHome, []⟩ (twoUploads (msecAt 1) (msecAt 1)) = some w ∧
      w.threads = [.going (.done (.upload u) true), .going (.done (.upload v) true)] ∧
      u.file.id = v.file.id ∧ w.shared.ids ['u'] storageFolder = [u.file.id, v.file.id] ∧
      u.content ≠ v.content ∧ w.shared.cell ['u'] u.file.id = some (v.content ++ crlf) ∧
      ¬ OwnCells ['u'] emptyHome w := by
  have hrun : ∃ u v, (Lib.run (Dir.create ['u']) ⟨emptyHome, []⟩
      (twoUploads (msecAt 1) (msecAt 1))).map (fun w =>
        (w.threads, w.shared.ids ['u'] storageFolder, w.shared.cell ['u'] u.file.id)) =
      some ([.going (.done (.upload u) true), .going (.done (.upload v) true)],
        [u.file.id, v.file.id], some (v.content ++ crlf)) ∧
      u.file.id = v.file.id ∧ u.content ≠ v.content :=
    ⟨(Creation.uploadFile storageFolder ['a'] ['x'] (msecAt 1) (msecAt 1)).upload,
      (Creation.uploadFile storageFolder ['b'] ['y'] (msecAt 1) (msecAt 1)).upload, by
        decide +kernel⟩
  obtain ⟨u, v, hrun, hid, hne⟩ := hrun
  obtain ⟨w, hw, he⟩ := Option.map_eq_some_iff.mp hrun
  obtain ⟨hthreads, he⟩ := Prod.mk.inj he
  obtain ⟨hids, hcell⟩ := Prod.mk.inj he
  refine ⟨w, u, v, hw, hthreads, hid, hids, hne, hcell, fun hown => ?_⟩
  have hsame := hown.distinct 0 1 _ _ (by rw [hthreads]; rfl)
    (by rw [hthreads]; rfl) u rfl v rfl hid
  cases hsame

end PennCloud
