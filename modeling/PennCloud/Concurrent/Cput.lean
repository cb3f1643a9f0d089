import PennCloud.Lib.Runs
import PennCloud.Store.Handlers
import Mathlib.Logic.Function.Basic

/-!
# Compare-and-put with other workers about

`parse_CPUT` tests whether its cell exists, and fetches the `Cell*`, before it
takes the map lock; it compares, logs and writes under the lock. Here the table
holds pointers into a heap of cells, and the two parts of a `CPUT` are two steps,
between which other workers' steps may come: a `PUT` usually installs a new
`Cell`, and a `DELETE` frees one.

The comparison is made on the cell that is in the table then, but the write goes
to the cell that was fetched, and a `CPUT` that found nothing does not look again.
So a `CPUT` is atomic when its key is still absent, or its fetched cell still the
one that holds `OLD`: `Cput.Undisturbed`.
-/

namespace PennCloud

/-- An address of a `Cell`. -/
abbrev Ptr := Nat

/-- What the workers of a primary share. -/
structure Memory where
  seqID : Int := 0
  log : List LogRecord := []
  table : Nested Ptr := ∅
  /-- The contents of the cells that have been allocated and not freed. -/
  heap : Ptr → Option Str := fun _ => none

/-- A `CPUT` between its two parts, with the pointer it has fetched. -/
structure Cput where
  row : Str
  col : Str
  oldData : Str
  newData : Str
  cell : Option Ptr
  deriving DecidableEq, Repr

namespace Memory

/-- The map from (row, column) to contents. -/
def view (m : Memory) : Contents := fun k => (m.table.view k).bind m.heap

def putToLog (m : Memory) (data row col : Str) : Memory :=
  { m with seqID := m.seqID + 1, log := m.log ++ [.put (m.seqID + 1) row col data] }

def deleteToLog (m : Memory) (row col : Str) : Memory :=
  { m with seqID := m.seqID + 1, log := m.log ++ [.delete (m.seqID + 1) row col] }

/-- `table[row][col] = new Cell(data)`, the new cell at `p`. -/
def install (m : Memory) (row col data : Str) (p : Ptr) : Memory :=
  { m with heap := Function.update m.heap p (some data), table := m.table.set row col p }

/-- `delete cell->contents; cell->contents = data`. -/
def overwrite (m : Memory) (p : Ptr) (data : Str) : Memory :=
  { m with heap := Function.update m.heap p (some data) }

/-- The locked part of `parse_PUT`; `none` is the null pointer. -/
def parsePUT (m : Memory) (row col data : Str) (fresh : Ptr) : Option (Memory × Str) :=
  let m := m.putToLog data row col
  if !m.table.hasRow row || !m.table.hasRow col then some (m.install row col data fresh, replyOK)
  else (m.table.at? row col).map fun p => (m.overwrite p data, replyOK)

/-- The locked part of `parse_DELE`: the cell is freed and its column erased. -/
def parseDELE (m : Memory) (row col : Str) : Memory × Str :=
  let m := m.deleteToLog row col
  if !m.table.hasRow row then (m, replyNullRow)
  else match m.table.at? row col with
    | none => (m, replyNullCol)
    | some p =>
        ({ m with heap := Function.update m.heap p none, table := m.table.eraseCol row col },
          replyDeleted)

/-- The unlocked part of `parse_CPUT`: a reply, or what its locked part goes on with. -/
def testCPUT (m : Memory) (row col oldData newData : Str) : Str ⊕ Cput :=
  match m.table.at? row col with
  | none => if oldData = oldNULL then .inr ⟨row, col, oldData, newData, none⟩ else .inl replyErr
  | some p => .inr ⟨row, col, oldData, newData, some p⟩

/-- The locked part; `none` is a null pointer or a cell that has been freed. -/
def lockedCPUT (m : Memory) (c : Cput) (fresh : Ptr) : Option (Memory × Str) :=
  match c.cell with
  | none => some ((m.putToLog c.newData c.row c.col).install c.row c.col c.newData fresh, replyOK)
  | some p => (m.table.at? c.row c.col).bind fun q => (m.heap q).bind fun contents =>
      if contents = c.oldData then (m.heap p).map fun _ =>
        ((m.putToLog c.newData c.row c.col).overwrite p c.newData, replyOK)
      else some (m, replyErr)

/-- The cells in the table are allocated, and no two keys share one. -/
structure Sound (m : Memory) : Prop where
  live : ∀ k p, m.table.view k = some p → (m.heap p).isSome = true
  unshared : ∀ k k' p, m.table.view k = some p → m.table.view k' = some p → k = k'

end Memory

/-- The primary, and the `CPUT`s that are between their two parts, by worker. -/
structure Workers where
  memory : Memory := {}
  cputs : Nat → Option Cput := fun _ => none

/-- A worker's step; `fresh` is the address `new Cell` would return. -/
inductive WorkerAction
  | put (row col data : Str) (fresh : Ptr)
  | delete (row col : Str)
  | cputTest (worker : Nat) (row col oldData newData : Str)
  | cputLocked (worker : Nat) (fresh : Ptr)
  deriving Repr

namespace Workers

/-- One step, and the reply it sends. -/
def act (s : Workers) : WorkerAction → Option (Workers × Option Str)
  | .put row col data fresh =>
    if s.memory.heap fresh = none then
      (s.memory.parsePUT row col data fresh).map fun p => ({ s with memory := p.1 }, some p.2)
    else none
  | .delete row col =>
    let p := s.memory.parseDELE row col
    some ({ s with memory := p.1 }, some p.2)
  | .cputTest worker row col oldData newData =>
    if s.cputs worker = none then
      match s.memory.testCPUT row col oldData newData with
      | .inl reply => some (s, some reply)
      | .inr c => some ({ s with cputs := Function.update s.cputs worker (some c) }, none)
    else none
  | .cputLocked worker fresh =>
    if s.memory.heap fresh = none then
      (s.cputs worker).bind fun c => (s.memory.lockedCPUT c fresh).map fun p =>
        ({ memory := p.1, cputs := Function.update s.cputs worker none }, some p.2)
    else none

def step (s : Workers) (a : WorkerAction) : Option Workers := (s.act a).map Prod.fst

/-- The map's own meaning of a step, and of the reply to a `CPUT`. -/
def AtomicAt (s : Workers) : WorkerAction → Prop
  | .put row col data fresh => ∀ t reply, s.act (.put row col data fresh) = some (t, reply) →
      t.memory.view = s.memory.view.bind (row, col) data
  | .delete row col => ∀ t reply, s.act (.delete row col) = some (t, reply) →
      t.memory.view = s.memory.view.unbind (row, col)
  | .cputTest worker row col oldData newData => ∀ t reply,
      s.act (.cputTest worker row col oldData newData) = some (t, reply) →
        t.memory.view = s.memory.view ∧
          ∀ r ∈ reply, Refuses r ∧ ¬ CputHolds s.memory.view (row, col) oldData
  | .cputLocked worker fresh => ∀ c, s.cputs worker = some c → s.memory.heap fresh = none →
      ∃ t r, s.act (.cputLocked worker fresh) = some (t, some r) ∧
        (Accepts r ↔ CputHolds s.memory.view (c.row, c.col) c.oldData) ∧
        t.memory.view = if CputHolds s.memory.view (c.row, c.col) c.oldData then
          s.memory.view.bind (c.row, c.col) c.newData else s.memory.view

/-- Every step of a run is atomic. -/
def Atomic : Workers → List WorkerAction → Prop
  | _, [] => True
  | s, a :: as => s.AtomicAt a ∧ ∀ t, s.step a = some t → t.Atomic as

end Workers

/-- Nothing that matters to the `CPUT` has happened since its unlocked part. -/
def Cput.Undisturbed (m : Memory) (c : Cput) : Prop :=
  match c.cell with
  | none => CputHolds m.view (c.row, c.col) c.oldData
  | some p =>
    match m.table.at? c.row c.col with
    | none => False
    | some q => m.heap q = some c.oldData → q = p

instance (m : Memory) (c : Cput) : Decidable (c.Undisturbed m) := by
  unfold Cput.Undisturbed
  split
  · infer_instance
  · split <;> infer_instance

/-- The condition on a step: a `CPUT` takes its lock undisturbed. -/
def WorkerAction.Undisturbed (s : Workers) : WorkerAction → Prop
  | .cputLocked worker _ => ∀ c ∈ s.cputs worker, c.Undisturbed s.memory
  | _ => True

instance (s : Workers) : DecidablePred (WorkerAction.Undisturbed s) := fun a => by
  cases a <;> (unfold WorkerAction.Undisturbed; infer_instance)

/-! ## What the heap operations do to the map -/

namespace Memory

variable {m : Memory} {row col data : Str} {p : Ptr}

theorem view_of_cell {k : Key} (h : m.table.view k = some p) : m.view k = m.heap p := by
  rw [view, h]
  rfl

theorem install_view (hs : m.Sound) (hp : m.heap p = none) :
    (m.install row col data p).view = m.view.bind (row, col) data := by
  funext k
  rw [view, install, Nested.view_set]
  by_cases hk : k = (row, col)
  · subst hk
    simp
  · rw [Contents.bind_of_ne _ _ hk, Contents.bind_of_ne _ _ hk]
    cases hq : m.table.view k with
    | none => rw [view, hq]; rfl
    | some q =>
        -- an allocated cell is not the new one
        have hne : q ≠ p := by
          rintro rfl
          have hlive := hs.live k q hq
          rw [hp] at hlive
          cases hlive
        rw [view_of_cell hq]
        exact Function.update_of_ne hne _ _

theorem overwrite_view (hs : m.Sound) (hp : m.table.view (row, col) = some p) :
    (m.overwrite p data).view = m.view.bind (row, col) data := by
  funext k
  rw [view, overwrite]
  by_cases hk : k = (row, col)
  · subst hk
    rw [hp]
    simp
  · rw [Contents.bind_of_ne _ _ hk]
    cases hq : m.table.view k with
    | none => rw [view, hq]; rfl
    | some q =>
        have hne : q ≠ p := by
          rintro rfl
          exact hk (hs.unshared _ _ _ hq hp)
        rw [view_of_cell hq]
        exact Function.update_of_ne hne _ _

theorem free_view (hs : m.Sound) (hp : m.table.view (row, col) = some p) :
    ({ m with heap := Function.update m.heap p none, table := m.table.eraseCol row col } :
      Memory).view = m.view.unbind (row, col) := by
  funext k
  rw [view, Nested.view_eraseCol]
  by_cases hk : k = (row, col)
  · subst hk
    simp
  · rw [Contents.unbind_of_ne _ hk, Contents.unbind_of_ne _ hk]
    cases hq : m.table.view k with
    | none => rw [view, hq]; rfl
    | some q =>
        have hne : q ≠ p := by
          rintro rfl
          exact hk (hs.unshared _ _ _ hq hp)
        rw [view_of_cell hq]
        exact Function.update_of_ne hne _ _

theorem Sound.install (hs : m.Sound) (hp : m.heap p = none) :
    (m.install row col data p).Sound := by
  have hne : ∀ k q, m.table.view k = some q → q ≠ p := by
    rintro k q hq rfl
    have hlive := hs.live k q hq
    rw [hp] at hlive
    cases hlive
  constructor
  · intro k q hq
    rw [Memory.install, Nested.view_set] at hq
    by_cases hk : k = (row, col)
    · rw [hk, Contents.bind_self] at hq
      cases hq
      simp [Memory.install]
    · rw [Contents.bind_of_ne _ _ hk] at hq
      rw [Memory.install]
      show (Function.update m.heap p (some data) q).isSome = true
      rw [Function.update_of_ne (hne k q hq)]
      exact hs.live k q hq
  · intro k k' q hq hq'
    rw [Memory.install, Nested.view_set] at hq hq'
    by_cases hk : k = (row, col)
    · by_cases hk' : k' = (row, col)
      · rw [hk, hk']
      · rw [hk, Contents.bind_self] at hq
        rw [Contents.bind_of_ne _ _ hk'] at hq'
        cases hq
        exact absurd rfl (hne _ _ hq')
    · rw [Contents.bind_of_ne _ _ hk] at hq
      by_cases hk' : k' = (row, col)
      · rw [hk', Contents.bind_self] at hq'
        cases hq'
        exact absurd rfl (hne _ _ hq)
      · rw [Contents.bind_of_ne _ _ hk'] at hq'
        exact hs.unshared _ _ _ hq hq'

theorem Sound.overwrite (hs : m.Sound) : (m.overwrite p data).Sound := by
  refine ⟨fun k q hq => ?_, hs.unshared⟩
  show (Function.update m.heap p (some data) q).isSome = true
  by_cases hqp : q = p
  · rw [hqp, Function.update_self]
    rfl
  · rw [Function.update_of_ne hqp]
    exact hs.live k q hq

theorem Sound.free (hs : m.Sound) (hp : m.table.view (row, col) = some p) :
    ({ m with heap := Function.update m.heap p none, table := m.table.eraseCol row col } :
      Memory).Sound := by
  have hview : ∀ k q, (m.table.eraseCol row col).view k = some q →
      k ≠ (row, col) ∧ m.table.view k = some q := by
    intro k q hq
    rw [Nested.view_eraseCol] at hq
    by_cases hk : k = (row, col)
    · rw [hk, Contents.unbind_self] at hq
      cases hq
    · rw [Contents.unbind_of_ne _ hk] at hq
      exact ⟨hk, hq⟩
  constructor
  · intro k q hq
    obtain ⟨hk, hold⟩ := hview k q hq
    have hne : q ≠ p := by
      rintro rfl
      exact hk (hs.unshared _ _ _ hold hp)
    show (Function.update m.heap p none q).isSome = true
    rw [Function.update_of_ne hne]
    exact hs.live k q hold
  · intro k k' q hq hq'
    exact hs.unshared _ _ _ (hview k q hq).2 (hview k' q hq').2

end Memory

/-! ## What each locked step does -/

section Locked

variable {m n : Memory} {row col data reply : Str} {fresh : Ptr}

/-- The log is no part of the map. -/
theorem sound_putToLog (hs : m.Sound) (data row col : Str) : (m.putToLog data row col).Sound :=
  ⟨hs.live, hs.unshared⟩

theorem sound_deleteToLog (hs : m.Sound) (row col : Str) : (m.deleteToLog row col).Sound :=
  ⟨hs.live, hs.unshared⟩

theorem parsePUT_spec (hs : m.Sound) (hfresh : m.heap fresh = none)
    (h : m.parsePUT row col data fresh = some (n, reply)) :
    n.Sound ∧ n.view = m.view.bind (row, col) data := by
  have hlog := sound_putToLog hs data row col
  rw [Memory.parsePUT] at h
  split at h
  · cases h
    exact ⟨hlog.install hfresh, Memory.install_view hlog hfresh⟩
  · rw [Option.map_eq_some_iff] at h
    obtain ⟨p, hp, h⟩ := h
    cases h
    exact ⟨hlog.overwrite, Memory.overwrite_view hlog hp⟩

theorem parseDELE_spec (hs : m.Sound) : (m.parseDELE row col).1.Sound ∧
    (m.parseDELE row col).1.view = m.view.unbind (row, col) := by
  have hlog := sound_deleteToLog hs row col
  have hmissing : m.table.view (row, col) = none → m.view = m.view.unbind (row, col) := by
    intro hnone
    refine (Function.update_eq_self_iff.mpr ?_).symm
    rw [Memory.view, hnone]
    rfl
  unfold Memory.parseDELE
  dsimp only
  split
  · rename_i hrow
    have hrow' : (m.deleteToLog row col).table.hasRow row = false := by simpa using hrow
    exact ⟨hlog, hmissing (Nested.at?_of_not_hasRow col hrow')⟩
  · split
    · rename_i hnone
      exact ⟨hlog, hmissing hnone⟩
    · rename_i p hp
      exact ⟨hlog.free hp, Memory.free_view hlog hp⟩

/-- **An undisturbed `CPUT` compares and puts**, on the map as it is when it holds the lock. -/
theorem lockedCPUT_spec (hs : m.Sound) (hfresh : m.heap fresh = none) {c : Cput}
    (hc : c.Undisturbed m) : ∃ n r, m.lockedCPUT c fresh = some (n, r) ∧ n.Sound ∧
      (Accepts r ↔ CputHolds m.view (c.row, c.col) c.oldData) ∧
      n.view = if CputHolds m.view (c.row, c.col) c.oldData then
        m.view.bind (c.row, c.col) c.newData else m.view := by
  have hlog := sound_putToLog hs c.newData c.row c.col
  have hok : Accepts replyOK := ⟨['\r', '\n'], rfl⟩
  have herr : ¬ Accepts replyErr := by
    rintro ⟨t, ht⟩
    cases ht
  unfold Cput.Undisturbed at hc
  split at hc
  · -- nothing was fetched, and the comparison would still come out right
    rename_i hcell
    rw [if_pos hc]
    exact ⟨_, _, by rw [Memory.lockedCPUT, hcell], hlog.install hfresh, iff_of_true hok hc,
      Memory.install_view hlog hfresh⟩
  · rename_i p hcell
    split at hc
    · exact hc.elim
    · rename_i q hq
      obtain ⟨contents, hcontents⟩ := Option.isSome_iff_exists.mp (hs.live (c.row, c.col) q hq)
      have hview : m.view (c.row, c.col) = some contents :=
        (Memory.view_of_cell (k := (c.row, c.col)) hq).trans hcontents
      have hholds : CputHolds m.view (c.row, c.col) c.oldData ↔ contents = c.oldData := by
        simp [CputHolds, hview]
      have hlocked : m.lockedCPUT c fresh = if contents = c.oldData then (m.heap p).map fun _ =>
          ((m.putToLog c.newData c.row c.col).overwrite p c.newData, replyOK)
          else some (m, replyErr) := by
        rw [Memory.lockedCPUT, hcell]
        simp only [hq, hcontents, Option.bind_some]
      rw [hlocked]
      by_cases heq : contents = c.oldData
      · -- the cell compared is the cell fetched
        obtain rfl : q = p := hc (heq ▸ hcontents)
        rw [if_pos heq, if_pos (hholds.mpr heq), hcontents]
        exact ⟨_, _, rfl, hlog.overwrite, iff_of_true hok (hholds.mpr heq),
          Memory.overwrite_view hlog hq⟩
      · rw [if_neg heq, if_neg (fun h => heq (hholds.mp h))]
        exact ⟨_, _, rfl, hs, iff_of_false herr (fun h => heq (hholds.mp h)), rfl⟩

/-- A `CPUT` that takes its lock at once is undisturbed. -/
theorem undisturbed_testCPUT {oldData newData : Str} {c : Cput}
    (h : m.testCPUT row col oldData newData = .inr c) :
    c.Undisturbed m ∧ c.row = row ∧ c.col = col ∧ c.oldData = oldData ∧ c.newData = newData := by
  unfold Memory.testCPUT at h
  split at h
  · rename_i hat
    split at h
    · rename_i hold
      cases h
      have hview : m.view (row, col) = none := by
        rw [Memory.view, show m.table.view (row, col) = none from hat]
        rfl
      exact ⟨Or.inl ⟨hview, hold⟩, rfl, rfl, rfl, rfl⟩
    · cases h
  · rename_i p hat
    cases h
    refine ⟨?_, rfl, rfl, rfl, rfl⟩
    simp only [Cput.Undisturbed, hat]
    exact fun _ => trivial

/-- **Uninterrupted, the two parts are the handler of a server with the same contents.** -/
theorem uninterrupted (hs : m.Sound) (hfresh : m.heap fresh = none) {oldData newData : Str}
    {p : Server} (hp : p.table.view = m.view) {c : Cput}
    (h : m.testCPUT row col oldData newData = .inr c) :
    ∃ n, m.lockedCPUT c fresh = some (n, (p.parseCPUT row col oldData newData).reply) ∧
      n.view = (p.parseCPUT row col oldData newData).server.table.view := by
  obtain ⟨hc, rfl, rfl, rfl, rfl⟩ := undisturbed_testCPUT h
  obtain ⟨n, r, hlocked, -, hreply, hview⟩ := lockedCPUT_spec hs hfresh hc
  have hr : r = replyOK ∨ r = replyErr := by
    rw [Memory.lockedCPUT] at hlocked
    split at hlocked
    · cases hlocked; exact Or.inl rfl
    · simp only [Option.bind_eq_some_iff] at hlocked
      obtain ⟨q, -, contents, -, hlocked⟩ := hlocked
      split at hlocked
      · rw [Option.map_eq_some_iff] at hlocked
        obtain ⟨d, -, hlocked⟩ := hlocked
        cases hlocked
        exact Or.inl rfl
      · cases hlocked; exact Or.inr rfl
  rw [parseCPUT_eq, hp]
  by_cases hholds : CputHolds m.view (c.row, c.col) c.oldData
  · rw [if_pos hholds] at hview ⊢
    rcases hr with rfl | rfl
    · exact ⟨n, hlocked, by rw [hview, Server.stored, Nested.view_set, hp]⟩
    · obtain ⟨t, ht⟩ := hreply.mpr hholds
      cases ht
  · rw [if_neg hholds] at hview ⊢
    rcases hr with rfl | rfl
    · exact absurd (hreply.mp ⟨['\r', '\n'], rfl⟩) hholds
    · exact ⟨n, hlocked, hview.trans hp.symm⟩

/-- Disturbed or not, the locked part leaves a sound heap. -/
theorem sound_lockedCPUT (hs : m.Sound) (hfresh : m.heap fresh = none) {c : Cput}
    (h : m.lockedCPUT c fresh = some (n, reply)) : n.Sound := by
  have hlog := sound_putToLog hs c.newData c.row c.col
  rw [Memory.lockedCPUT] at h
  split at h
  · cases h
    exact hlog.install hfresh
  · simp only [Option.bind_eq_some_iff] at h
    obtain ⟨q, -, contents, -, h⟩ := h
    split at h
    · rw [Option.map_eq_some_iff] at h
      obtain ⟨d, -, h⟩ := h
      cases h
      exact hlog.overwrite
    · cases h
      exact hs

end Locked

/-! ## Runs -/

/-- The heap stays sound, whatever the workers do. -/
theorem sound_act {s t : Workers} {a : WorkerAction} {reply : Option Str} (hs : s.memory.Sound)
    (h : s.act a = some (t, reply)) : t.memory.Sound := by
  cases a with
  | put row col data fresh =>
      rw [Workers.act] at h
      split at h
      · rename_i hfresh
        rw [Option.map_eq_some_iff] at h
        obtain ⟨⟨n, r⟩, hput, h⟩ := h
        cases h
        exact (parsePUT_spec hs hfresh hput).1
      · cases h
  | delete row col =>
      cases h
      exact (parseDELE_spec hs).1
  | cputTest worker row col oldData newData =>
      rw [Workers.act] at h
      split at h
      · split at h <;> (cases h; exact hs)
      · cases h
  | cputLocked worker fresh =>
      rw [Workers.act] at h
      split at h
      · rename_i hfresh
        rw [Option.bind_eq_some_iff] at h
        obtain ⟨c, -, h⟩ := h
        rw [Option.map_eq_some_iff] at h
        obtain ⟨⟨n, r⟩, hlocked, h⟩ := h
        cases h
        exact sound_lockedCPUT hs hfresh hlocked
      · cases h

/-- **One step is atomic** under its condition. -/
theorem atomicAt_of_undisturbed {s : Workers} (hs : s.memory.Sound) {a : WorkerAction}
    (ha : a.Undisturbed s) : s.AtomicAt a := by
  cases a with
  | put row col data fresh =>
      intro t reply h
      rw [Workers.act] at h
      split at h
      · rename_i hfresh
        rw [Option.map_eq_some_iff] at h
        obtain ⟨⟨n, r⟩, hput, h⟩ := h
        cases h
        exact (parsePUT_spec hs hfresh hput).2
      · cases h
  | delete row col =>
      intro t reply h
      cases h
      exact (parseDELE_spec hs).2
  | cputTest worker row col oldData newData =>
      intro t reply h
      rw [Workers.act] at h
      split at h
      · rw [Memory.testCPUT] at h
        -- the test replies only when it found no cell and a value was expected
        cases hat : s.memory.table.at? row col with
        | none =>
            rw [hat] at h
            have hview : s.memory.view (row, col) = none := by
              rw [Memory.view, show s.memory.table.view (row, col) = none from hat]
              rfl
            by_cases hold : oldData = oldNULL
            · simp only [hold, if_true] at h
              cases h
              exact ⟨rfl, fun r hr => (by cases hr)⟩
            · simp only [hold, if_false] at h
              cases h
              refine ⟨rfl, fun r hr => ?_⟩
              cases hr
              exact ⟨⟨['\r', '\n'], rfl⟩, by simp [CputHolds, hview, hold]⟩
        | some p =>
            rw [hat] at h
            cases h
            exact ⟨rfl, fun r hr => (by cases hr)⟩
      · cases h
  | cputLocked worker fresh =>
      intro c hc hfresh
      obtain ⟨n, r, hlocked, -, hreply, hview⟩ := lockedCPUT_spec hs hfresh (ha c hc)
      refine ⟨{ memory := n, cputs := Function.update s.cputs worker none }, r, ?_, hreply, hview⟩
      rw [Workers.act, if_pos hfresh, hc, Option.bind_some, hlocked]
      rfl

theorem atomic_of_sound {s : Workers} (hs : s.memory.Sound) : ∀ {as : List WorkerAction},
    Lib.Guarded Workers.step WorkerAction.Undisturbed s as → s.Atomic as
  | [], _ => trivial
  | a :: as, ⟨ha, hrest⟩ => by
      refine ⟨atomicAt_of_undisturbed hs ha, fun t ht => ?_⟩
      obtain ⟨⟨t', reply⟩, hact, rfl⟩ := Option.map_eq_some_iff.mp ht
      exact atomic_of_sound (sound_act hs hact) (hrest _ ht)

/--
**`CPUT` is an atomic compare-and-put.** In every run of any number of workers
whose `CPUT`s take their locks undisturbed, taken in the order of its steps, each
`CPUT` replies `+OK` exactly when the map says so and then has bound its key, and
no step changes another key.
-/
theorem atomic_of_undisturbed {as : List WorkerAction}
    (hg : Lib.Guarded Workers.step WorkerAction.Undisturbed {} as) : ({} : Workers).Atomic as :=
  atomic_of_sound ⟨fun _ _ h => by simp [Contents.empty] at h,
    fun _ _ _ h => by simp [Contents.empty] at h⟩ hg

/-- Other keys change between the parts of a `CPUT`, and its own under a comparison that fails. -/
def undisturbedHistory : List WorkerAction :=
  [.cputTest 0 ['a'] ['x'] oldNULL ['1'], .put ['b'] ['x'] ['2'] 0, .cputLocked 0 1,
   .cputTest 0 ['a'] ['x'] ['1'] ['3'], .cputTest 1 ['a'] ['x'] ['2'] ['4'],
   .cputTest 2 ['c'] ['x'] ['5'] ['6'], .cputLocked 0 2, .put ['a'] ['x'] ['7'] 2, .cputLocked 1 3,
   .delete ['b'] ['x']]

theorem undisturbedHistory_atomic : ({} : Workers).Atomic undisturbedHistory :=
  atomic_of_undisturbed (by decide)

/-- Two workers sign up one name: both find it absent before either writes it. -/
def twoSignUps : List WorkerAction :=
  [.cputTest 0 ['u'] ['p'] oldNULL ['1'], .cputTest 1 ['u'] ['p'] oldNULL ['2'], .cputLocked 0 0]

/-- The second sign-up of `twoSignUps` is answered `+OK` as well, and overwrites the first. -/
theorem twoSignUps_both_accepted :
    ∃ s t, Lib.run Workers.step {} twoSignUps = some s ∧
      s.act (.cputLocked 1 1) = some (t, some replyOK) ∧
      s.memory.view (['u'], ['p']) = some ['1'] ∧ t.memory.view (['u'], ['p']) = some ['2'] ∧
      ¬ ({} : Workers).Atomic (twoSignUps ++ [.cputLocked 1 1]) := by
  refine ⟨_, _, rfl, rfl, by decide, by decide, fun h => ?_⟩
  obtain ⟨-, h⟩ := h
  obtain ⟨-, h⟩ := h _ rfl
  obtain ⟨-, h⟩ := h _ rfl
  obtain ⟨hlast, -⟩ := h _ rfl
  obtain ⟨t, r, hact, hreply, -⟩ := hlast _ rfl rfl
  cases hact
  exact absurd (hreply.mp ⟨['\r', '\n'], rfl⟩) (by decide)

end PennCloud