import PennCloud.Text
import Std.Data.TreeMap

/-!
# The table of a data server

`typedef std::map<string, Cell*> smap; typedef std::map<string, smap> bmap;`.
`std::map` is an ordered map, iterated in key order, so it is a `TreeMap`. What
the cells of `Nested` hold is a parameter. In a `Bmap` a `Cell*` stands for the
contents it points to: a table never holds two pointers to one cell, and the
places where the source reaches through a pointer that `operator[]` has just made
up are faults of the handlers. Where workers interleave and pointers do matter,
`Concurrent/Cput.lean` keeps them.

`Nested.view` is what the component is for: a map from (row, column) to cells.
Rows left without columns are invisible there.
-/

namespace PennCloud

/-- Rows of columns of cells. -/
abbrev Nested (α : Type) := Std.TreeMap Str (Std.TreeMap Str α compare) compare

/-- A table whose cells are read as their contents. -/
abbrev Bmap := Nested Str

/-- A row and a column. -/
abbrev Key := Str × Str

/-- The abstract store: what each key is bound to. -/
abbrev Contents (α : Type := Str) := Key → Option α

namespace Contents

variable {α : Type}

/-- No key is bound. -/
def empty : Contents α := fun _ => none

/-- Bind a key. -/
def bind (m : Contents α) (k : Key) (v : α) : Contents α := Function.update m k (some v)

/-- Unbind a key. -/
def unbind (m : Contents α) (k : Key) : Contents α := Function.update m k none

@[simp] theorem bind_self (m : Contents α) (k : Key) (v : α) : m.bind k v k = some v := by
  simp [bind]

theorem bind_of_ne (m : Contents α) {k k' : Key} (v : α) (h : k' ≠ k) : m.bind k v k' = m k' := by
  simp [bind, h]

@[simp] theorem unbind_self (m : Contents α) (k : Key) : m.unbind k k = none := by simp [unbind]

theorem unbind_of_ne (m : Contents α) {k k' : Key} (h : k' ≠ k) : m.unbind k k' = m k' := by
  simp [unbind, h]

end Contents

namespace Nested

variable {α : Type}

/-- `table.count(row) != 0`. -/
def hasRow (t : Nested α) (row : Str) : Bool := t.contains row

/-- `table.at(row).at(col)->contents`, when the row and the column are there. -/
def at? (t : Nested α) (row col : Str) : Option α := t[row]?.bind (·[col]?)

/-- `table[row][col] = new Cell(data)`. -/
def set (t : Nested α) (row col : Str) (data : α) : Nested α :=
  t.insert row ((t.getD row ∅).insert col data)

/-- `table.at(row).erase(col)`, for a row that is there. -/
def eraseCol (t : Nested α) (row col : Str) : Nested α :=
  t.insert row ((t.getD row ∅).erase col)

/-- The map from (row, column) to contents. -/
def view (t : Nested α) : Contents α := fun k => t.at? k.1 k.2

/-! ## What each operation does to the view and to the rows -/

@[simp] theorem at?_empty (row col : Str) : at? (∅ : Nested α) row col = none := by simp [at?]

@[simp] theorem view_empty : view (∅ : Nested α) = Contents.empty := by
  funext k
  exact at?_empty k.1 k.2

@[simp] theorem hasRow_empty (row : Str) : hasRow (∅ : Nested α) row = false := by simp [hasRow]

theorem hasRow_of_at? {t : Nested α} {row col : Str} {v : α} (h : t.at? row col = some v) :
    t.hasRow row = true := by
  rw [hasRow, Std.TreeMap.contains_eq_isSome_getElem?]
  cases hr : t[row]? with
  | none => simp [at?, hr] at h
  | some m => rfl

theorem at?_of_not_hasRow {t : Nested α} {row : Str} (col : Str) (h : t.hasRow row = false) :
    t.at? row col = none := by
  cases hat : t.at? row col with
  | none => rfl
  | some v => rw [hasRow_of_at? hat] at h; exact Bool.noConfusion h

theorem at?_set (t : Nested α) (row col : Str) (data : α) (r c : Str) :
    (t.set row col data).at? r c = if r = row ∧ c = col then some data else t.at? r c := by
  rw [at?, set, Std.TreeMap.getElem?_insert]
  by_cases hr : row = r
  · subst hr
    have hget : (t.getD row ∅)[c]? = t.at? row c := by
      rw [at?, Std.TreeMap.getD_eq_getD_getElem?]
      cases t[row]? <;> simp
    by_cases hc : col = c
    · subst hc
      simp
    · simp [Std.TreeMap.getElem?_insert, hc, Ne.symm hc, hget]
  · have hcr : ¬ (r = row ∧ c = col) := fun h => hr h.1.symm
    simp [hr, hcr, at?]

theorem view_set (t : Nested α) (row col : Str) (data : α) :
    (t.set row col data).view = t.view.bind (row, col) data := by
  funext k
  obtain ⟨r, c⟩ := k
  rw [view, at?_set]
  by_cases h : r = row ∧ c = col
  · obtain ⟨rfl, rfl⟩ := h; simp
  · rw [if_neg h, Contents.bind_of_ne _ _ (fun he => h (Prod.mk.inj he))]
    rfl

theorem hasRow_set (t : Nested α) (row col : Str) (data : α) (r : Str) :
    (t.set row col data).hasRow r = (decide (row = r) || t.hasRow r) := by
  rw [hasRow, set, Std.TreeMap.contains_insert]
  by_cases h : row = r <;> simp [h, hasRow]

theorem at?_eraseCol (t : Nested α) (row col r c : Str) :
    (t.eraseCol row col).at? r c = if r = row ∧ c = col then none else t.at? r c := by
  rw [at?, eraseCol, Std.TreeMap.getElem?_insert]
  by_cases hr : row = r
  · subst hr
    have hget : (t.getD row ∅)[c]? = t.at? row c := by
      rw [at?, Std.TreeMap.getD_eq_getD_getElem?]
      cases t[row]? <;> simp
    by_cases hc : col = c
    · subst hc
      simp
    · simp [Std.TreeMap.getElem?_erase, hc, Ne.symm hc, hget]
  · have hcr : ¬ (r = row ∧ c = col) := fun h => hr h.1.symm
    simp [hr, hcr, at?]

theorem view_eraseCol (t : Nested α) (row col : Str) :
    (t.eraseCol row col).view = t.view.unbind (row, col) := by
  funext k
  obtain ⟨r, c⟩ := k
  rw [view, at?_eraseCol]
  by_cases h : r = row ∧ c = col
  · obtain ⟨rfl, rfl⟩ := h; simp
  · rw [if_neg h, Contents.unbind_of_ne _ (fun he => h (Prod.mk.inj he))]
    rfl

theorem hasRow_eraseCol (t : Nested α) (row col r : Str) :
    (t.eraseCol row col).hasRow r = (decide (row = r) || t.hasRow r) := by
  rw [hasRow, eraseCol, Std.TreeMap.contains_insert]
  by_cases h : row = r <;> simp [h, hasRow]

/-! ## Rows of one table in another -/

/-- Every row of `t` is one of `u`. -/
def Within (t u : Nested α) : Prop := ∀ row, t.hasRow row = true → u.hasRow row = true

theorem Within.refl (t : Nested α) : t.Within t := fun _ => id

theorem Within.trans {t u v : Nested α} (h : t.Within u) (h' : u.Within v) : t.Within v :=
  fun row hrow => h' row (h row hrow)

theorem empty_within (u : Nested α) : Within (∅ : Nested α) u := fun row hrow => by
  rw [hasRow_empty] at hrow
  cases hrow

theorem Within.set {t u : Nested α} (h : t.Within u) {row : Str} (hrow : u.hasRow row = true)
    (col : Str) (data : α) : Within (t.set row col data) u := by
  intro r hr
  rw [hasRow_set, Bool.or_eq_true, decide_eq_true_eq] at hr
  rcases hr with rfl | hr
  · exact hrow
  · exact h r hr

theorem Within.eraseCol {t u : Nested α} (h : t.Within u) {row : Str} (hrow : t.hasRow row = true)
    (col : Str) : Within (t.eraseCol row col) u := by
  intro r hr
  rw [hasRow_eraseCol, Bool.or_eq_true, decide_eq_true_eq] at hr
  rcases hr with rfl | hr
  · exact h _ hrow
  · exact h r hr

/-- No operation takes a row away. -/
theorem within_set (t : Nested α) (row col : Str) (data : α) : t.Within (t.set row col data) :=
  fun r hr => by rw [hasRow_set, hr, Bool.or_true]

theorem within_eraseCol (t : Nested α) (row col : Str) : t.Within (t.eraseCol row col) :=
  fun r hr => by rw [hasRow_eraseCol, hr, Bool.or_true]

end Nested

end PennCloud
