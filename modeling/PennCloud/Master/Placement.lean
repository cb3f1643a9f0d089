import PennCloud.Lib.Level
import PennCloud.Master.Where
import Mathlib.Data.List.Dedup
import Mathlib.Logic.Relation

/-!
# Rows placed one at a time

`parse_WHERE` when no other worker comes in between: `parseWhere` is what the steps
of `Homes.next` add up to for one worker alone (`next_alone`). A new row goes to
the first of the nodes with the fewest rows, so the nodes stay level, and a row
that has been placed is looked up and never moved.
-/

namespace PennCloud

open Str

namespace Homes

/-- The loop of `parse_WHERE`: the least `row_num` and the node that has it. -/
def leastNode : List Node → Nat → Nat → Nat × Nat
  | [], min, minID => (min, minID)
  | n :: nodes, min, minID =>
    if n.rowNum < min then leastNode nodes n.rowNum n.nodeID else leastNode nodes min minID

/-- A reply about node `nodeID`; `none` is a node out of range. -/
def reply (s : Homes) (row : Str) (nodeID : Nat) : Option Homes := s.nodesList[nodeID]?.map fun n =>
  { s with replies := ⟨row, nodeID, serverLine n.primaryAddr⟩ :: s.replies }

/-- `parse_WHERE`. -/
def parseWhere (s : Homes) (command : Str) : Option Homes :=
  let row := angled command
  match s.nodeIndex.lookup row with
  | none => do
    let first ← s.nodesList[0]?
    let minID := (leastNode s.nodesList first.rowNum 0).2
    let n ← s.nodesList[minID]?
    reply { s with
      nodeIndex := s.nodeIndex.insert row minID
      nodesList := s.nodesList.set minID { n with rowNum := n.rowNum + 1 } } row minID
  | some nodeID => s.reply row nodeID

/-! ## A worker alone -/

/-- One step of a worker. -/
def Next (r r' : Homes × WherePc) : Prop := r.1.next r.2 = some r'

theorem next_scan (s : Homes) (row : Str) (i min minID : Nat) : Relation.ReflTransGen Next
    (s, .scan row i min minID) (s, .assign row (leastNode (s.nodesList.drop i) min minID).2) := by
  induction hk : s.nodesList.length - i generalizing i min minID with
  | zero =>
      have hnone : s.nodesList[i]? = none := List.getElem?_eq_none (by omega)
      rw [List.drop_eq_nil_of_le (by omega), leastNode]
      refine .single ?_
      rw [Next, next, hnone]
  | succ k ih =>
      have hi : i < s.nodesList.length := by omega
      have hsome : s.nodesList[i]? = some s.nodesList[i] := List.getElem?_eq_getElem hi
      rw [List.drop_eq_getElem_cons hi, leastNode]
      split
      · rename_i hlt
        refine .head ?_ (ih (i + 1) _ _ (by omega))
        simp only [Next, next, hsome, hlt, if_true]
      · rename_i hlt
        refine .head ?_ (ih (i + 1) _ _ (by omega))
        simp only [Next, next, hsome, hlt, if_false]

/-- **A worker that is alone does what `parseWhere` says.** -/
theorem next_alone {s t : Homes} {command : Str} (h : s.parseWhere command = some t) :
    Relation.ReflTransGen Next (s, .test (angled command)) (t, .done) := by
  have hreply : ∀ {u : Homes} {row : Str} {n : Nat}, u.reply row n = some t →
      Next (u, .answer row n) (t, .done) := by
    intro u row n hu
    obtain ⟨nd, hnd, rfl⟩ := Option.map_eq_some_iff.mp hu
    rw [Next, next, hnd]
    rfl
  rw [parseWhere] at h
  cases hrow : s.nodeIndex.lookup (angled command) with
  | none =>
      simp only [hrow] at h
      obtain ⟨first, hfirst, h⟩ := Option.bind_eq_some_iff.mp h
      obtain ⟨n, hn, h⟩ := Option.bind_eq_some_iff.mp h
      have htest : Next (s, .test (angled command)) (s, .first (angled command)) := by
        rw [Next, next, if_pos hrow]
      have hstart : Next (s, .first (angled command))
        (s, .scan (angled command) 0 first.rowNum 0) := by
        rw [Next, next, hfirst]
        rfl
      have hscan := next_scan s (angled command) 0 first.rowNum 0
      rw [List.drop_zero] at hscan
      refine .head htest (.head hstart (hscan.trans (.head rfl (.head ?_ (.single (hreply h))))))
      simp only [Next, next, hn, Option.map_some]
  | some nodeID =>
      simp only [hrow] at h
      have htest : Next (s, .test (angled command)) (s, .lookup (angled command)) := by
        rw [Next, next, if_neg (by rw [hrow]; simp)]
      have hlookup : Next (s, .lookup (angled command)) (s, .answer (angled command) nodeID) := by
        simp only [Next, next, hrow]
      exact .head htest (.head hlookup (.single (hreply h)))

/-! ## What one request does -/

/-- The numbers of rows, node by node. -/
def loads (s : Homes) : List Nat := s.nodesList.map Node.rowNum

variable {s t : Homes} {command : Str}

/-- **The loop finds the first of the nodes with the fewest rows.** -/
theorem least_leastNode {nodes : List Node} : ∀ {before : List Nat} {min minID : Nat},
    Lib.Least before minID min →
    (∀ i (n : Node), nodes[i]? = some n → n.nodeID = before.length + i) →
    Lib.Least (before ++ nodes.map Node.rowNum) (leastNode nodes min minID).2
      (leastNode nodes min minID).1 := by
  induction nodes with
  | nil =>
      intro before min minID hleast hid
      rw [List.map_nil, List.append_nil]
      exact hleast
  | cons n nodes ih =>
      intro before min minID hleast hid
      have hn : n.nodeID = before.length := hid 0 n rfl
      have hrest : ∀ i (m : Node), nodes[i]? = some m →
        m.nodeID = (before ++ [n.rowNum]).length + i := by
        intro i m hm
        rw [hid (i + 1) m hm, List.length_append, List.length_singleton]
        omega
      rw [List.map_cons, List.append_cons, leastNode]
      split
      · rename_i hlt
        exact ih (hn ▸ hleast.append_lt hlt) hrest
      · rename_i hlt
        exact ih (hleast.append_le hlt) hrest

/-- What holds of the nodes and the index between two requests; `rows` have been asked for. -/
structure Placing (primaries : List Addr) (rows : List Str) (s : Homes) : Prop where
  primaries : s.nodesList.map Node.primaryAddr = primaries
  numbered : ∀ i (n : Node), s.nodesList[i]? = some n → n.nodeID = i
  counted : ∀ n, s.rowNum n = s.mapped n
  level : Lib.Level s.loads
  asked : ∀ row, row ∈ s.nodeIndex ↔ row ∈ rows
  total : s.loads.sum = s.nodeIndex.entries.length
  inRange : ∀ row n, s.nodeIndex.lookup row = some n → n < s.nodesList.length
  settled : s.Settled

variable {primaries : List Addr} {rows : List Str}

/-- A row that has a node is answered for. -/
def answered (s : Homes) (row : Str) (n : Nat) (nd : Node) : Homes :=
  { s with replies := ⟨row, n, serverLine nd.primaryAddr⟩ :: s.replies }

/-- A row is given to node `n`, and the reply says so. -/
def place (s : Homes) (row : Str) (n : Nat) (nd : Node) : Homes where
  nodesList := s.nodesList.set n { nd with rowNum := nd.rowNum + 1 }
  nodeIndex := s.nodeIndex.insert row n
  replies := ⟨row, n, serverLine nd.primaryAddr⟩ :: s.replies

/-- **A request** looks its row up, or gives it to the first of the least loaded nodes. -/
theorem parseWhere_spec (hs : s.Placing primaries rows) (hne : primaries ≠ []) (command : Str) :
    ∃ n nd, s.nodesList[n]? = some nd ∧
      (s.nodeIndex.lookup (angled command) = some n ∧
        s.parseWhere command = some (s.answered (angled command) n nd) ∨
      s.nodeIndex.lookup (angled command) = none ∧ Lib.Least s.loads n nd.rowNum ∧
        s.parseWhere command = some (s.place (angled command) n nd)) := by
  cases hrow : s.nodeIndex.lookup (angled command) with
  | some n =>
      have hn := List.getElem?_eq_getElem (hs.inRange _ n hrow)
      refine ⟨n, _, hn, Or.inl ⟨rfl, ?_⟩⟩
      simp only [parseWhere, hrow, reply, hn, Option.map_some, answered]
  | none =>
      cases hnodes : s.nodesList with
      | nil =>
          have hnil := hs.primaries
          rw [hnodes] at hnil
          exact absurd hnil.symm hne
      | cons first nodes =>
          have hfirst : first.nodeID = 0 := hs.numbered 0 first (by rw [hnodes]; rfl)
          have hleast : Lib.Least s.loads (leastNode nodes first.rowNum 0).2
              (leastNode nodes first.rowNum 0).1 := by
            rw [loads, hnodes, List.map_cons]
            refine least_leastNode (Lib.least_singleton first.rowNum) fun i n hn => ?_
            rw [hs.numbered (i + 1) n (by rw [hnodes]; exact hn), List.length_singleton]
            omega
          -- comparing the first node with itself changes nothing
          have hloop : leastNode (first :: nodes) first.rowNum 0
            = leastNode nodes first.rowNum 0 := by
            rw [leastNode, if_neg (Nat.lt_irrefl _)]
          have hentry := hleast.entry
          rw [loads, List.getElem?_map, Option.map_eq_some_iff] at hentry
          obtain ⟨nd, hnd, hload⟩ := hentry
          have hlt := (List.getElem?_eq_some_iff.mp hnd).1
          rw [← hnodes]
          refine ⟨_, nd, hnd, Or.inr ⟨rfl, hload ▸ hleast, ?_⟩⟩
          have hzero : s.nodesList[0]? = some first := by rw [hnodes]; rfl
          simp only [parseWhere, hrow, hzero, Option.bind_some, bind]
          rw [hnodes, hloop, ← hnodes, hnd]
          simp only [Option.bind_some, reply, List.getElem?_set_self hlt, Option.map_some]
          rfl

theorem loads_place (row : Str) (n : Nat) (nd : Node) :
    (s.place row n nd).loads = s.loads.set n (nd.rowNum + 1) := List.map_set

theorem primaryOf_place {n : Nat} {nd : Node} (hnd : s.nodesList[n]? = some nd) (row : Str)
    (m : Nat) : (s.place row n nd).primaryOf m = s.primaryOf m := primaryOf_count hnd _ m

/-- A new row leaves the others where they are. -/
theorem lookup_place {row r : Str} {n m : Nat} {nd : Node} (hrow : s.nodeIndex.lookup row = none)
    (hr : s.nodeIndex.lookup r = some m) : (s.place row n nd).nodeIndex.lookup r = some m := by
  have hother : r ≠ row := by
    rintro rfl
    exact absurd (hrow.symm.trans hr) (by simp)
  exact (AList.lookup_insert_ne hother).trans hr

section Kept

variable {row : Str} {n : Nat} {nd : Node}

/-- A row that has a node is one that has been asked for. -/
theorem placing_answered (hs : s.Placing primaries rows) (hnd : s.nodesList[n]? = some nd)
    (hrow : s.nodeIndex.lookup row = some n) :
      (s.answered row n nd).Placing primaries (rows ++ [row]) where
  primaries := hs.primaries
  numbered := hs.numbered
  counted := hs.counted
  level := hs.level
  asked r := by
    rw [List.mem_append, List.mem_singleton, ← hs.asked]
    refine ⟨Or.inl, ?_⟩
    rintro (hmem | rfl)
    · exact hmem
    · exact AList.lookup_isSome.mp (hrow ▸ rfl)
  total := hs.total
  inRange := hs.inRange
  settled r hr := by
    rcases List.mem_cons.mp hr with rfl | hr
    · refine ⟨hrow, ?_⟩
      show (s.primaryOf n).map serverLine = some _
      rw [primaryOf, hnd]
      rfl
    · exact hs.settled r hr

/-- **A new row goes to a node that is least loaded**, and the nodes stay level. -/
theorem placing_place (hs : s.Placing primaries rows) (hnd : s.nodesList[n]? = some nd)
    (hrow : s.nodeIndex.lookup row = none) (hleast : Lib.Least s.loads n nd.rowNum) :
    (s.place row n nd).Placing primaries (rows ++ [row]) where
  primaries := by
    refine Eq.trans (List.ext_getElem? fun m => ?_) hs.primaries
    rw [List.getElem?_map, List.getElem?_map]
    exact primaryOf_place hnd _ m
  numbered i m hm := by
    by_cases hin : n = i
    · subst hin
      rw [place, List.getElem?_set_self (List.getElem?_eq_some_iff.mp hnd).1] at hm
      cases hm
      exact hs.numbered n nd hnd
    · rw [place, List.getElem?_set_ne hin] at hm
      exact hs.numbered i m hm
  counted m := by
    have hcount := rowNum_count hnd m
    have hmapped := mapped_insert n hrow m
    have hold := hs.counted m
    simp only [rowNum, mapped, place] at hcount hmapped hold ⊢
    omega
  level := by
    rw [loads_place]
    exact hs.level.raise hleast
  asked r := by
    rw [place, AList.mem_insert, List.mem_append, List.mem_singleton, ← hs.asked, or_comm]
  total := by
    have hsum := Lib.sum_replace (nd.rowNum + 1) hleast.entry
    have htotal := hs.total
    rw [loads_place, place, AList.entries_insert_of_notMem (AList.lookup_eq_none.mp hrow),
      List.length_cons]
    omega
  inRange r m hm := by
    rw [place, List.length_set]
    by_cases hother : r = row
    · subst hother
      rw [place, AList.lookup_insert] at hm
      cases hm
      exact (List.getElem?_eq_some_iff.mp hnd).1
    · rw [place, AList.lookup_insert_ne hother] at hm
      exact hs.inRange r m hm
  settled r hr := by
    rcases List.mem_cons.mp hr with rfl | hr
    · refine ⟨AList.lookup_insert _, ?_⟩
      rw [primaryOf_place hnd, primaryOf, hnd]
      rfl
    · obtain ⟨hnode, htext⟩ := hs.settled r hr
      refine ⟨lookup_place hrow hnode, ?_⟩
      rw [primaryOf_place hnd]
      exact htext

end Kept

/-- **A request keeps the nodes level**, and adds its row to those asked for. -/
theorem placing_step (hs : s.Placing primaries rows) (hne : primaries ≠ [])
    (h : s.parseWhere command = some t) : t.Placing primaries (rows ++ [angled command]) := by
  obtain ⟨n, nd, hnd, ⟨hrow, heq⟩ | ⟨hrow, hleast, heq⟩⟩ := parseWhere_spec hs hne command
  · obtain rfl := Option.some.inj (heq.symm.trans h)
    exact placing_answered hs hnd hrow
  · obtain rfl := Option.some.inj (heq.symm.trans h)
    exact placing_place hs hnd hrow hleast

/-! ## Runs -/

/-- The nodes at the start, as `init` has numbered them. -/
theorem getElem?_start (primaries : List Addr) (i : Nat) :
    (start primaries).shared.nodesList[i]? = primaries[i]?.map fun x => ⟨i, x, 0⟩ :=
  List.getElem?_mapIdx

theorem loads_start (primaries : List Addr) :
    (start primaries).shared.loads = List.replicate primaries.length 0 := by
  refine List.ext_getElem? fun i => ?_
  rw [loads, List.getElem?_map, getElem?_start, List.getElem?_replicate, Option.map_map]
  split
  · rename_i hi
    rw [List.getElem?_eq_getElem hi]
    rfl
  · rename_i hi
    rw [List.getElem?_eq_none (Nat.le_of_not_lt hi)]
    rfl

theorem placing_start (primaries : List Addr) : (start primaries).shared.Placing primaries [] where
  primaries := by
    refine List.ext_getElem? fun i => ?_
    rw [List.getElem?_map, getElem?_start, Option.map_map]
    exact Option.map_id'
  numbered := by
    intro i n hn
    rw [getElem?_start] at hn
    obtain ⟨x, -, rfl⟩ := Option.map_eq_some_iff.mp hn
    rfl
  counted := (inv_start primaries).tally
  level := by
    rw [loads_start]
    exact Lib.level_replicate primaries.length 0
  asked := fun row => by simp [start]
  total := by
    rw [loads_start, List.sum_replicate]
    rfl
  inRange := fun row n hn => by simp [start] at hn
  settled := (inv_start primaries).agree.shared

/-- What any number of requests keeps. -/
theorem placing_run (hne : primaries ≠ []) (commands : List Str) : ∀ {rows : List Str} {s : Homes},
    s.Placing primaries rows → ∃ t, Lib.run parseWhere s commands = some t ∧
      t.Placing primaries (rows ++ commands.map angled) := by
  induction commands with
  | nil =>
      intro rows s hs
      rw [List.map_nil, List.append_nil]
      exact ⟨s, rfl, hs⟩
  | cons command commands ih =>
      intro rows s hs
      obtain ⟨t, ht⟩ : ∃ t, s.parseWhere command = some t := by
        obtain ⟨n, nd, -, ⟨-, heq⟩ | ⟨-, -, heq⟩⟩ := parseWhere_spec hs hne command
        · exact ⟨_, heq⟩
        · exact ⟨_, heq⟩
      obtain ⟨u, hu, hlast⟩ := ih (placing_step hs hne ht)
      refine ⟨u, ?_, ?_⟩
      · rw [Lib.run, ht]
        exact hu
      · rw [List.map_cons, List.append_cons]
        exact hlast

/-- A row that has a node keeps it. -/
theorem lookup_run (hne : primaries ≠ []) (commands : List Str) : ∀ {rows : List Str}
    {s t : Homes} {row : Str} {n : Nat}, s.Placing primaries rows →
    Lib.run parseWhere s commands = some t → s.nodeIndex.lookup row = some n →
    t.nodeIndex.lookup row = some n := by
  induction commands with
  | nil =>
      intro rows s t row n hs hr hrow
      cases hr
      exact hrow
  | cons command commands ih =>
      intro rows s t row n hs hr hrow
      obtain ⟨u, hu, hr⟩ := Lib.run_cons hr
      refine ih (placing_step hs hne hu) hr ?_
      obtain ⟨m, nd, -, ⟨-, heq⟩ | ⟨hnew, -, heq⟩⟩ := parseWhere_spec hs hne command
      · obtain rfl := Option.some.inj (heq.symm.trans hu)
        exact hrow
      · obtain rfl := Option.some.inj (heq.symm.trans hu)
        exact lookup_place hnew hrow

end Homes

/--
**What placement promises**, after these commands: the rows asked for are counted,
the nodes level, and each row is where its first request put it, on the first of
the least loaded.
-/
structure Placed (primaries : List Addr) (commands : List Str) (s : Homes) : Prop where
  counted : ∀ n, s.rowNum n = s.mapped n
  level : Lib.Level s.loads
  total : s.loads.sum = (commands.map angled).dedup.length
  sticky : ∀ before command after, commands = before ++ command :: after →
    angled command ∉ before.map angled → ∃ u v n m,
      Lib.run Homes.parseWhere (Homes.start primaries).shared before = some u ∧
      u.parseWhere command = some v ∧ Lib.Least u.loads n m ∧
      v.nodeIndex.lookup (angled command) = some n ∧ s.nodeIndex.lookup (angled command) = some n ∧
      ∀ r ∈ s.replies, r.row = angled command → r.nodeID = n

/-- **Rows are placed on level nodes, and stay there**, whatever rows are asked for one
at a time. -/
theorem rows_placed {primaries : List Addr} (hne : primaries ≠ []) (commands : List Str) :
    ∃ s, Lib.run Homes.parseWhere (Homes.start primaries).shared commands = some s ∧
      Placed primaries commands s := by
  have hstart := Homes.placing_start primaries
  obtain ⟨s, hs, hlast⟩ := Homes.placing_run hne commands hstart
  rw [List.nil_append] at hlast
  refine ⟨s, hs, hlast.counted, hlast.level, ?_, ?_⟩
  · have hkeys : s.nodeIndex.keys.Perm (commands.map angled).dedup := by
      refine (List.perm_ext_iff_of_nodup s.nodeIndex.nodupKeys (List.nodup_dedup _)).mpr
        fun row => ?_
      rw [List.mem_dedup, ← hlast.asked, AList.mem_keys]
      rfl
    rw [hlast.total, ← hkeys.length_eq]
    exact (List.length_map _).symm
  · rintro before command after rfl hnew
    obtain ⟨u, hu, hplacing⟩ := Homes.placing_run hne before hstart
    rw [Lib.run_append, hu] at hs
    obtain ⟨v, hv, hrest⟩ := Lib.run_cons hs
    have hnone : u.nodeIndex.lookup (angled command) = none := by
      rw [AList.lookup_eq_none, hplacing.asked]
      exact hnew
    obtain ⟨n, nd, -, ⟨hsome, -⟩ | ⟨-, hleast, heq⟩⟩ := Homes.parseWhere_spec hplacing hne command
    · exact absurd (hnone.symm.trans hsome) (by simp)
    · obtain rfl := Option.some.inj (heq.symm.trans hv)
      have hgiven : (u.place (angled command) n nd).nodeIndex.lookup (angled command) = some n :=
        AList.lookup_insert _
      have hkept := Homes.lookup_run hne after (Homes.placing_step hplacing hne hv) hrest hgiven
      refine ⟨u, _, n, _, hu, hv, hleast, hgiven, hkept, fun r hr hrow => ?_⟩
      have hreply := (hlast.settled r hr).1
      rw [hrow, hkept] at hreply
      exact (Option.some.inj hreply).symm

/-- Two nodes are asked for three rows, one of them twice. -/
theorem threeRows_placed : [loopback 1, loopback 2] ≠ [] ∧
    ∃ s, Lib.run Homes.parseWhere (Homes.start [loopback 1, loopback 2]).shared
        ([['a'], ['b'], ['a'], ['c']].map whereLine) = some s ∧
      Placed [loopback 1, loopback 2] ([['a'], ['b'], ['a'], ['c']].map whereLine) s :=
  ⟨by simp, rows_placed (by simp) _⟩

end PennCloud
