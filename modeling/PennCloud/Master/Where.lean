import PennCloud.Address
import PennCloud.Lib.Threads
import Mathlib.Data.List.AList

/-!
# The home of a row

A master worker answers `WHERE <row>` with the primary of the node that
`node_index` maps the row to. A row that is not there yet is given to the node
with the fewest rows: the worker tests for the row under the lock, looks for that
node without it, takes the lock again to write the assignment, and counts the row.

`Settled` is what the index is for: a worker that has assigned or found a row
agrees with the index about it, and so does every reply ever given. It is kept as
long as a worker that comes to its assignment still finds the row without a node.
-/

namespace PennCloud

open Str

/-- `class node`, as far as rows go. -/
structure Node where
  nodeID : Nat
  primaryAddr : Addr
  rowNum : Nat := 0

/-- A reply: the row asked for, the node it is about and the text. -/
structure WhereReply where
  row : Str
  nodeID : Nat
  text : Str
  deriving DecidableEq

/-- What the workers of the master share. -/
structure Homes where
  nodesList : List Node
  nodeIndex : AList fun _ : Str => Nat := ∅
  /-- The replies given so far. -/
  replies : List WhereReply := []

/-- Where a worker stands in `parse_WHERE`. -/
inductive WherePc
  /-- Before the existence test. -/
  | test (row : Str)
  /-- The row does not exist; about to read `nodes_list[0]`. -/
  | first (row : Str)
  /-- In the loop, about to look at node `i`. -/
  | scan (row : Str) (i min minID : Nat)
  /-- About to write the assignment. -/
  | assign (row : Str) (minID : Nat)
  /-- About to count the row. -/
  | count (row : Str) (minID : Nat)
  /-- The row exists; about to read its node. -/
  | lookup (row : Str)
  /-- About to reply. -/
  | answer (row : Str) (nodeID : Nat)
  | done

def kwSERVER : Str := ['S', 'E', 'R', 'V', 'E', 'R']

/-- The reply: `"SERVER <" << ip_to_string(..) << ">\r\n"`. -/
def serverLine (x : Addr) : Str := kwSERVER ++ ' ' :: '<' :: (ipToString x ++ '>' :: crlf)

namespace Homes

/-- The next step of a worker; `none` is a node out of range. -/
def next (s : Homes) : WherePc → Option (Homes × WherePc)
  | .test row =>
    if s.nodeIndex.lookup row = none then some (s, .first row) else some (s, .lookup row)
  | .first row => s.nodesList[0]?.map fun n => (s, .scan row 0 n.rowNum 0)
  | .scan row i min minID =>
    match s.nodesList[i]? with
    | none => some (s, .assign row minID)
    | some n =>
      if n.rowNum < min then some (s, .scan row (i + 1) n.rowNum n.nodeID)
      else some (s, .scan row (i + 1) min minID)
  | .assign row minID =>
    some ({ s with nodeIndex := s.nodeIndex.insert row minID }, .count row minID)
  | .count row minID => s.nodesList[minID]?.map fun n =>
    ({ s with nodesList := s.nodesList.set minID { n with rowNum := n.rowNum + 1 } },
      .answer row minID)
  | .lookup row =>
    match s.nodeIndex.lookup row with
    | some n => some (s, .answer row n)
    -- `operator[]` makes the entry up
    | none => some ({ s with nodeIndex := s.nodeIndex.insert row 0 }, .answer row 0)
  | .answer row nodeID => s.nodesList[nodeID]?.map fun n =>
    ({ s with replies := ⟨row, nodeID, serverLine n.primaryAddr⟩ :: s.replies }, .done)
  | .done => none

/-- The nodes as the configuration file lists them. -/
def start (primaries : List Addr) : Lib.Threads Homes WherePc where
  shared := { nodesList := primaries.mapIdx fun i x => { nodeID := i, primaryAddr := x } }

/-- A `WHERE` command arrives, or a worker makes its next step. -/
abbrev step : Lib.Threads Homes WherePc → Lib.Turn Str → Option (Lib.Threads Homes WherePc) :=
  Lib.Threads.step (fun command => .test (angled command)) next

/-- The rows counted on node `n`. -/
def rowNum (s : Homes) (n : Nat) : Nat := (s.nodesList[n]?.map Node.rowNum).getD 0

/-- The rows that `node_index` maps to node `n`. -/
def mapped (s : Homes) (n : Nat) : Nat := s.nodeIndex.entries.countP (·.2 == n)

end Homes

/-- The worker has assigned a row to node `n` and not counted it yet. -/
def WherePc.countsOn (n : Nat) : WherePc → Bool
  | .count _ minID => minID == n
  | _ => false

/--
**A row has one home.** All replies for a row name the same node and read the
same, and each node has counted the rows mapped to it but for those that a worker
is about to count.
-/
def OneHome (s : Lib.Threads Homes WherePc) : Prop :=
  (∀ r ∈ s.shared.replies, ∀ r' ∈ s.shared.replies, r.row = r'.row → r = r') ∧
  ∀ n, s.shared.rowNum n + s.threads.countP (WherePc.countsOn n) = s.shared.mapped n

/-- The condition: a worker that writes its assignment finds the row without a node. -/
def Unassigned (s : Homes) : WherePc → Prop
  | .assign row _ => s.nodeIndex.lookup row = none
  | _ => True

instance (s : Homes) : DecidablePred (Unassigned s)
  | .assign row _ => inferInstanceAs (Decidable (s.nodeIndex.lookup row = none))
  | .test _ | .first _ | .scan _ _ _ _ | .count _ _ | .lookup _ | .answer _ _ | .done =>
    .isTrue trivial

namespace Homes

/-- The primary of node `n`. -/
def primaryOf (s : Homes) (n : Nat) : Option Addr := s.nodesList[n]?.map Node.primaryAddr

/-- A worker agrees with the index about the row it has assigned or found. -/
def Agrees (s : Homes) : WherePc → Prop
  | .count row n | .answer row n => s.nodeIndex.lookup row = some n
  | .lookup row => ∃ n, s.nodeIndex.lookup row = some n
  | _ => True

/-- Every reply agrees with the index and names the node's primary. -/
def Settled (s : Homes) : Prop := ∀ r ∈ s.replies,
  s.nodeIndex.lookup r.row = some r.nodeID ∧ (s.primaryOf r.nodeID).map serverLine = some r.text

variable {s t : Homes} {p q : WherePc}

/-- What a step does to the index, the nodes and the replies. -/
theorem next_cases (h : s.next p = some (t, q)) (hp : s.Agrees p) :
    (t = s ∧ s.Agrees q ∧ ∀ n, p.countsOn n = false ∧ q.countsOn n = false) ∨
    (∃ row n, p = .assign row n ∧ q = .count row n ∧
      t = { s with nodeIndex := s.nodeIndex.insert row n }) ∨
    (∃ row n nd, p = .count row n ∧ q = .answer row n ∧ s.nodesList[n]? = some nd ∧
      t = { s with nodesList := s.nodesList.set n { nd with rowNum := nd.rowNum + 1 } }) ∨
    (∃ row n nd, p = .answer row n ∧ q = .done ∧ s.nodesList[n]? = some nd ∧
      t = { s with replies := ⟨row, n, serverLine nd.primaryAddr⟩ :: s.replies }) := by
  cases p with
  | test row =>
      rw [next] at h
      split at h
      · cases h
        exact Or.inl ⟨rfl, trivial, fun _ => ⟨rfl, rfl⟩⟩
      · rename_i hrow
        cases h
        exact Or.inl ⟨rfl, Option.ne_none_iff_exists'.mp hrow, fun _ => ⟨rfl, rfl⟩⟩
  | first row =>
      obtain ⟨n, -, h⟩ := Option.map_eq_some_iff.mp h
      cases h
      exact Or.inl ⟨rfl, trivial, fun _ => ⟨rfl, rfl⟩⟩
  | scan row i min minID =>
      rw [next] at h
      split at h
      · cases h
        exact Or.inl ⟨rfl, trivial, fun _ => ⟨rfl, rfl⟩⟩
      · split at h <;> cases h <;> exact Or.inl ⟨rfl, trivial, fun _ => ⟨rfl, rfl⟩⟩
  | assign row minID =>
      cases h
      exact Or.inr (Or.inl ⟨row, minID, rfl, rfl, rfl⟩)
  | count row minID =>
      obtain ⟨nd, hnd, h⟩ := Option.map_eq_some_iff.mp h
      cases h
      exact Or.inr (Or.inr (Or.inl ⟨row, minID, nd, rfl, rfl, hnd, rfl⟩))
  | lookup row =>
      obtain ⟨n, hn⟩ := hp
      rw [next, hn] at h
      cases h
      exact Or.inl ⟨rfl, hn, fun _ => ⟨rfl, rfl⟩⟩
  | answer row nodeID =>
      obtain ⟨nd, hnd, h⟩ := Option.map_eq_some_iff.mp h
      cases h
      exact Or.inr (Or.inr (Or.inr ⟨row, nodeID, nd, rfl, rfl, hnd, rfl⟩))
  | done => cases h

/-- Under the condition no row loses its node. -/
theorem lookup_step (h : s.next p = some (t, q)) (hp : s.Agrees p) (hu : Unassigned s p)
    {row : Str} {n : Nat} (hrow : s.nodeIndex.lookup row = some n) :
    t.nodeIndex.lookup row = some n := by
  rcases next_cases h hp with ⟨rfl, -⟩ | ⟨row', m, rfl, -, rfl⟩ | ⟨-, -, -, -, -, -, rfl⟩ |
    ⟨-, -, -, -, -, -, rfl⟩
  · exact hrow
  · have hne : row ≠ row' := by
      rintro rfl
      exact absurd (hrow.symm.trans hu) (by simp)
    rw [AList.lookup_insert_ne hne]
    exact hrow
  · exact hrow
  · exact hrow

theorem agrees_step (h : s.next p = some (t, q)) (hp : s.Agrees p) (hu : Unassigned s p)
    (r : WherePc) (hr : s.Agrees r) : t.Agrees r := by
  cases r with
  | count row n => exact lookup_step h hp hu hr
  | answer row n => exact lookup_step h hp hu hr
  | lookup row =>
      obtain ⟨n, hn⟩ := hr
      exact ⟨n, lookup_step h hp hu hn⟩
  | test row => trivial
  | first row => trivial
  | scan row i min minID => trivial
  | assign row minID => trivial
  | done => trivial

/-- Counting a row leaves the primaries as they are. -/
theorem primaryOf_count {n : Nat} {nd : Node} (hnd : s.nodesList[n]? = some nd) (k m : Nat) :
    primaryOf { s with nodesList := s.nodesList.set n { nd with rowNum := k } } m
      = s.primaryOf m := by
  rw [primaryOf, primaryOf, List.getElem?_set]
  split
  · rename_i hnm
    subst hnm
    rw [hnd, if_pos (List.getElem?_eq_some_iff.mp hnd).1]
    rfl
  · rfl

theorem primaryOf_step (h : s.next p = some (t, q)) (hp : s.Agrees p) (n : Nat) :
    t.primaryOf n = s.primaryOf n := by
  rcases next_cases h hp with ⟨rfl, -⟩ | ⟨row, m, -, -, rfl⟩ | ⟨-, m, nd, -, -, hnd, rfl⟩ |
    ⟨-, -, -, -, -, -, rfl⟩
  · rfl
  · rfl
  · exact primaryOf_count hnd _ n
  · rfl

/-- **A step keeps replies and workers in agreement with the index.** -/
theorem settled_step (hs : s.Settled) (hp : s.Agrees p) (hu : Unassigned s p)
    (h : s.next p = some (t, q)) : t.Settled ∧ t.Agrees q := by
  have hold : ∀ r ∈ s.replies, t.nodeIndex.lookup r.row = some r.nodeID ∧
      (t.primaryOf r.nodeID).map serverLine = some r.text := by
    intro r hr
    obtain ⟨hnode, htext⟩ := hs r hr
    exact ⟨lookup_step h hp hu hnode, by rw [primaryOf_step h hp]; exact htext⟩
  rcases next_cases h hp with ⟨rfl, hq, -⟩ | ⟨row, n, rfl, rfl, rfl⟩ |
    ⟨row, n, nd, rfl, rfl, -, rfl⟩ | ⟨row, n, nd, rfl, rfl, hnd, rfl⟩
  · exact ⟨hold, hq⟩
  · exact ⟨hold, AList.lookup_insert _⟩
  · exact ⟨hold, hp⟩
  · refine ⟨fun r hr => ?_, trivial⟩
    rcases List.mem_cons.mp hr with rfl | hr
    · exact ⟨hp, by rw [primaryOf, hnd]; rfl⟩
    · exact hold r hr

/-! ## The count of rows -/

theorem mapped_insert {row : Str} (m : Nat) (hrow : s.nodeIndex.lookup row = none) (n : Nat) :
    mapped { s with nodeIndex := s.nodeIndex.insert row m } n
      = s.mapped n + (m == n).toNat := by
  rw [mapped, mapped, AList.entries_insert_of_notMem (AList.lookup_eq_none.mp hrow),
    List.countP_cons]
  cases m == n <;> rfl

theorem rowNum_count {m : Nat} {nd : Node} (hnd : s.nodesList[m]? = some nd) (n : Nat) :
    rowNum { s with nodesList := s.nodesList.set m { nd with rowNum := nd.rowNum + 1 } } n
      = s.rowNum n + (m == n).toNat := by
  rw [rowNum, rowNum, List.getElem?_set]
  split
  · rename_i hmn
    subst hmn
    rw [hnd, if_pos (List.getElem?_eq_some_iff.mp hnd).1]
    simp
  · rename_i hmn
    rw [beq_eq_false_iff_ne.mpr hmn]
    rfl

/-- What a step adds to the rows mapped to a node it adds to those counted or about to be. -/
theorem tally_step (hp : s.Agrees p) (hu : Unassigned s p) (h : s.next p = some (t, q)) (n : Nat) :
    t.rowNum n + (q.countsOn n).toNat + s.mapped n
      = s.rowNum n + (p.countsOn n).toNat + t.mapped n := by
  rcases next_cases h hp with ⟨rfl, -, hpq⟩ | ⟨row, m, rfl, rfl, rfl⟩ |
    ⟨row, m, nd, rfl, rfl, hnd, rfl⟩ | ⟨row, m, nd, rfl, rfl, -, rfl⟩
  · rw [(hpq n).1, (hpq n).2]
  · rw [mapped_insert m hu]
    simp only [rowNum, WherePc.countsOn, Bool.toNat_false]
    omega
  · rw [rowNum_count hnd]
    simp only [mapped, WherePc.countsOn, Bool.toNat_false]
    omega
  · rfl

/-! ## Runs -/

variable {primaries : List Addr}

/-- What holds along a run under the condition. -/
structure Inv (s : Lib.Threads Homes WherePc) : Prop where
  agree : Lib.Threads.Holds Settled Agrees s
  tally : ∀ n, s.shared.rowNum n + s.threads.countP (WherePc.countsOn n) = s.shared.mapped n

theorem inv_start (primaries : List Addr) : Inv (start primaries) where
  agree := ⟨fun _ hr => absurd hr (List.not_mem_nil), fun _ hp => absurd hp (List.not_mem_nil)⟩
  tally := by
    intro n
    simp only [start, rowNum, mapped, List.getElem?_mapIdx, List.countP_nil]
    cases primaries[n]? <;> rfl

theorem inv_step (s : Lib.Threads Homes WherePc) (a : Lib.Turn Str)
    (t : Lib.Threads Homes WherePc) (hs : Inv s) (ha : Lib.Threads.Meets Unassigned s a)
    (h : step s a = some t) : Inv t := by
  refine ⟨Lib.Threads.holds_step ?_ ?_ ?_ hs.agree ha h, fun n => ?_⟩
  · exact fun _ _ _ => trivial
  · exact fun _ _ _ _ hJ hP hC h => settled_step hJ hP hC h
  · exact fun _ _ _ _ _ hP hC h => agrees_step h hP hC
  cases a with
  | enter command =>
      cases h
      simpa [WherePc.countsOn] using hs.tally n
  | next i =>
      obtain ⟨p, q, hp, hq, ht⟩ := Lib.Threads.step_next h
      have hstep := tally_step (hs.agree.each p (List.mem_of_getElem? hp)) (ha p hp) hq n
      have hcount := Lib.Threads.countP_set q (WherePc.countsOn n) hp
      have htally := hs.tally n
      rw [ht]
      omega

end Homes

/-- **Rows keep one home** if every assignment finds its row without a node. -/
theorem oneHome_of_unassigned {primaries : List Addr} {as : List (Lib.Turn Str)}
    {s : Lib.Threads Homes WherePc}
    (hg : Lib.Guarded Homes.step (Lib.Threads.Meets Unassigned) (Homes.start primaries) as)
    (hr : Lib.run Homes.step (Homes.start primaries) as = some s) : OneHome s := by
  have hinv := Lib.inv_of_guarded Homes.inv_step (Homes.inv_start primaries) hg hr
  refine ⟨fun r hr r' hr' hrow => ?_, hinv.tally⟩
  obtain ⟨hnode, htext⟩ := hinv.agree.shared r hr
  obtain ⟨hnode', htext'⟩ := hinv.agree.shared r' hr'
  have heq : r.nodeID = r'.nodeID := by
    rw [hrow, hnode'] at hnode
    exact (Option.some.inj hnode).symm
  rw [heq, htext'] at htext
  cases r
  cases r'
  simp only [WhereReply.mk.injEq]
  exact ⟨hrow, heq, (Option.some.inj htext).symm⟩

/-- The request line for a row. -/
def whereLine (row : Str) : Str := ['W', 'H', 'E', 'R', 'E', ' ', '<'] ++ row ++ '>' :: crlf

/-- Two rows are asked for at once, and one of them again. -/
def twoRows : List (Lib.Turn Str) :=
  [.enter (whereLine ['a']), .enter (whereLine ['b']), .next 0, .next 0, .next 1, .next 0, .next 1,
   .next 0, .next 0, .next 1, .next 1, .next 0, .next 1, .next 1, .next 0, .next 1, .next 1,
   .enter (whereLine ['a']), .next 2, .next 0, .next 2, .next 2]

theorem twoRows_oneHome : ∃ s,
    Lib.run Homes.step (Homes.start [loopback 1, loopback 2]) twoRows = some s ∧ OneHome s := by
  have hg : Lib.Guarded Homes.step (Lib.Threads.Meets Unassigned)
      (Homes.start [loopback 1, loopback 2]) twoRows := by decide +kernel
  exact ⟨_, rfl, oneHome_of_unassigned hg rfl⟩

/-- Both workers find that the row does not exist; each looks for a node and assigns it. -/
def twoHomesHistory : List (Lib.Turn Str) :=
  [.enter (whereLine ['a']), .enter (whereLine ['a']), .next 0, .next 1, .next 0, .next 0, .next 0,
   .next 0, .next 0, .next 0, .next 0, .next 1, .next 1, .next 1, .next 1, .next 1, .next 1,
   .next 1]

/-- The two replies name different nodes, and the first node has counted a row it does not have. -/
theorem two_homes : ∃ s,
    Lib.run Homes.step (Homes.start [loopback 1, loopback 2]) twoHomesHistory = some s ∧
    s.shared.replies = [⟨['a'], 1, serverLine (loopback 2)⟩, ⟨['a'], 0, serverLine (loopback 1)⟩] ∧
    s.shared.rowNum 0 = 1 ∧ s.shared.mapped 0 = 0 ∧ ¬ OneHome s := by
  have hrun : ∃ s,
      Lib.run Homes.step (Homes.start [loopback 1, loopback 2]) twoHomesHistory = some s ∧
      s.shared.replies
        = [⟨['a'], 1, serverLine (loopback 2)⟩, ⟨['a'], 0, serverLine (loopback 1)⟩] ∧
      s.shared.rowNum 0 = 1 ∧ s.shared.mapped 0 = 0 := ⟨_, rfl, by decide +kernel, rfl, rfl⟩
  obtain ⟨s, hs, hreplies, hcount, hmapped⟩ := hrun
  refine ⟨s, hs, hreplies, hcount, hmapped, fun h => ?_⟩
  have heq := h.1 ⟨['a'], 1, serverLine (loopback 2)⟩ (by simp [hreplies])
    ⟨['a'], 0, serverLine (loopback 1)⟩ (by simp [hreplies]) rfl
  exact absurd (WhereReply.mk.inj heq).2.1 (by decide)

end PennCloud
