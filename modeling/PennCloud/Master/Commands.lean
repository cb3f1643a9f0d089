import PennCloud.Frontend.AdminPage
import PennCloud.Master.Placement

/-!
# The master's workers

`masterWorker::run` collects what its connection delivers in `wait`, a buffer of
1000 bytes, and takes the commands off its front. The requests change the map from
rows to nodes; the heartbeat thread changes the primaries behind it.

A client that waits for each reply before its next request has it answered, in
however many reads the request arrives.
-/

namespace PennCloud

open Str

namespace MasterNode

/-- `heartbeat`, with whether its write to the primary succeeds, and who accepts a connection. -/
def heartbeat (n : MasterNode) (alive : Bool) (accepts : Addr → Bool) : MasterNode × List Sent :=
  if !n.running then n.promoteNewPrimary accepts
  else if alive then (n, n.conn.toList.map fun x => (x, "ALIVE\r\n".toList))
  else { n with running := false, conn := none }.promoteNewPrimary accepts

/-- The replica that the heartbeat promotes, if it promotes one. -/
def promotes (n : MasterNode) (alive : Bool) (accepts : Addr → Bool) : Option Addr :=
  if n.running && alive then none else n.repAddrs.find? accepts

end MasterNode

/-- `nodes_list`, each node with its `row_num`, and `node_index`. -/
structure Master where
  nodesList : List (MasterNode × Nat)
  nodeIndex : AList fun _ : Str => Nat := ∅

namespace Master

variable (m : Master)

/-- What `parse_WHERE` works on. -/
def homes : Homes where
  nodesList := m.nodesList.mapIdx fun i n => ⟨i, n.1.primaryAddr, n.2⟩
  nodeIndex := m.nodeIndex

/-- What it has done to the numbers of rows and to the map. -/
def withHomes (h : Homes) : Master where
  nodesList := m.nodesList.zipWith (fun n h => (n.1, h.rowNum)) h.nodesList
  nodeIndex := h.nodeIndex

/-- `parse_WHERE`, and its reply; `none` where there is no node. -/
def parseWHERE (command : Str) : Option (Master × Str) :=
  (m.homes.parseWhere command).bind fun h => h.replies.head?.map fun r => (m.withHomes h, r.text)

/-- The reply of `parse_PRIMARY`; what `atoi` makes of a number that is no `int` is not defined. -/
def parsePRIMARY (command : Str) : Option Str :=
  let pos := command.find [' '] + 1
  (asInt (atoi (command.substr pos (command.find crlf - pos)))).map fun nodeID =>
    if 0 ≤ nodeID then
      (m.nodesList[nodeID.toNat]?).elim "-ERR\r\n".toList fun n =>
        "+OK ".toList ++ ipToString n.1.primaryAddr ++ crlf
    else "-ERR\r\n".toList

/-- A node, without its `row_num`. -/
def node (i : Nat) : Option MasterNode := m.nodesList[i]?.map Prod.fst

/-- The heartbeat thread comes to node `i`. -/
def heartbeat (i : Nat) (alive : Bool) (accepts : Addr → Bool) : Option Master :=
  m.nodesList[i]?.map fun n =>
    { m with nodesList := m.nodesList.set i ((n.1.heartbeat alive accepts).1, n.2) }

/-- The replies of `parse_LIST`: the rows in the order of the map. -/
def parseLIST : Str :=
  (m.nodeIndex.keys.mergeSort fun a b => (compare a b).isLE).flatMap (· ++ crlf) ++ '.' :: crlf

end Master

/-- The branches of the dispatch in `masterWorker::run`. -/
inductive MasterVerb
  | quit | whereIs | primary | list | states | other
  deriving DecidableEq

/-- The keywords in the order they are tried. -/
def masterVerbs : List (Str × MasterVerb) :=
  [("QUIT".toList, .quit), ("WHERE".toList, .whereIs), ("PRIMARY".toList, .primary),
   ("LIST".toList, .list), ("STATES".toList, .states)]

/-- The branch a command line takes. -/
def masterVerb (command : Str) : MasterVerb :=
  ((masterVerbs.find? fun p => strnicmp (cstr command) p.1 p.1.length).map Prod.snd).getD .other

/-- A command line: the master after it, whether the worker goes on, and the replies. -/
def Master.handle (alive : Nat → Nat → Bool) (m : Master) (command : Str) :
    Option (Master × Bool × Str) :=
  match masterVerb command with
  | .quit => some (m, false, "+OK server signing off\r\n".toList)
  | .whereIs => (m.parseWHERE command).map fun r => (r.1, true, r.2)
  | .primary => (m.parsePRIMARY command).map fun reply => (m, true, reply)
  | .list => some (m, true, m.parseLIST)
  | .states => some (m, true, (parseSTATES alive (m.nodesList.map Prod.fst)).flatten)
  | .other => some (m, true, "-ERR Not supported\r\n".toList)

/-- The `rlen` of a `masterWorker`. -/
def rlenMaster : Nat := 1000

/-- A `masterWorker`: the text in `wait`, and what its connection will deliver. -/
structure MasterWorker where
  wait : Str := []
  task : List Read
  runFlag : Bool := true
  deriving DecidableEq

namespace MasterWorker

/-- `extract_command`; its `strcpy` copies from the front. -/
def extractCommand (k : MasterWorker) : Option (Str × MasterWorker) :=
  let pos := k.wait.find crlf
  if pos ≠ npos then some (k.wait.substr 0 (pos + 2), { k with wait := k.wait.substr (pos + 2) })
  else none

/-- `do_read` and `strcat`; `none` where a buffer is too short, or nothing comes. -/
def receive (k : MasterWorker) : Option MasterWorker :=
  match doRead rlenMaster k.task with
  | .error _ => none
  | .ok (buf, task) =>
    if rlenMaster ≤ k.wait.length + (cstr buf).length then none
    else some { k with wait := k.wait ++ cstr buf, task := task }

/-- The inner loop of `run`. Each turn takes two bytes at least. -/
def drain (alive : Nat → Nat → Bool) :
    Nat → Master → MasterWorker → Option (Master × MasterWorker × Str)
  | 0, m, k => some (m, k, [])
  | n + 1, m, k =>
    match k.extractCommand with
    | none => some (m, k, [])
    | some (command, k) => (m.handle alive command).bind fun r =>
        (drain alive n r.1 { k with runFlag := k.runFlag && r.2.1 }).map fun q =>
          (q.1, q.2.1, r.2.2 ++ q.2.2)

/-- A turn of the outer loop of `run`. -/
def round (alive : Nat → Nat → Bool) (m : Master) (k : MasterWorker) :
    Option (Master × MasterWorker × Str) :=
  k.receive.bind fun k => drain alive k.wait.length m k

/-- Turns of the outer loop, as long as the flag is set. -/
def rounds (alive : Nat → Nat → Bool) :
    Nat → Master → MasterWorker → Option (Master × MasterWorker × Str)
  | 0, m, k => some (m, k, [])
  | n + 1, m, k =>
    if k.runFlag then (k.round alive m).bind fun r =>
      (rounds alive n r.1 r.2.1).map fun q => (q.1, q.2.1, r.2.2 ++ q.2.2)
    else some (m, k, [])

end MasterWorker

/-! ## A heartbeat -/

namespace MasterNode

variable {n : MasterNode} {alive : Bool} {accepts : Addr → Bool}

theorem promoteLoop_none {xs : List Addr} (h : xs.find? accepts = none) :
    n.promoteLoop accepts xs = (n, []) := by
  induction xs with
  | nil => rfl
  | cons x xs ih =>
      obtain ⟨hx, hxs⟩ := List.forall_mem_cons.mp (List.find?_eq_none.mp h)
      rw [promoteLoop, if_neg hx, ih (List.find?_eq_none.mpr hxs)]

/-- **A heartbeat** promotes the first replica that accepts, or leaves the primary. -/
theorem heartbeat_primary (alive : Bool) (accepts : Addr → Bool) :
    (n.heartbeat alive accepts).1.repAddrs = n.repAddrs ∧
    (n.heartbeat alive accepts).1.primaryAddr = (n.promotes alive accepts).getD n.primaryAddr := by
  have hpromote : ∀ n' : MasterNode, n'.repAddrs = n.repAddrs → n'.primaryAddr = n.primaryAddr →
      (n'.promoteNewPrimary accepts).1.repAddrs = n.repAddrs ∧
        (n'.promoteNewPrimary accepts).1.primaryAddr = (n.repAddrs.find? accepts).getD
          n.primaryAddr := by
    intro n' hreps hprimary
    cases hfind : n.repAddrs.find? accepts with
    | none =>
        rw [promoteNewPrimary, promoteLoop_none (hreps ▸ hfind)]
        exact ⟨hreps, hprimary⟩
    | some p =>
        rw [promoteNewPrimary_eq (hreps ▸ hfind)]
        exact ⟨hreps, rfl⟩
  unfold heartbeat promotes
  cases n.running with
  | false => exact hpromote n rfl rfl
  | true =>
      cases alive with
      | true => exact ⟨rfl, rfl⟩
      | false => exact hpromote { n with running := false, conn := none } rfl rfl

theorem promotes_mem {p : Addr} (h : n.promotes alive accepts = some p) : p ∈ n.repAddrs := by
  rw [promotes] at h
  split at h
  · cases h
  · exact List.mem_of_find?_eq_some h

end MasterNode

/-! ## The nodes and their rows -/

namespace Master

variable {m m' : Master} {rows : List Str} {command : Str}

def primaries (m : Master) : List Addr := m.nodesList.map fun n => n.1.primaryAddr

theorem homes_node (i : Nat) :
    m.homes.nodesList[i]? = m.nodesList[i]?.map fun n => ⟨i, n.1.primaryAddr, n.2⟩ :=
  List.getElem?_mapIdx

theorem map_homes {β : Type} {f : Node → β} {g : MasterNode × Nat → β}
    (h : ∀ i n, f ⟨i, n.1.primaryAddr, n.2⟩ = g n) :
      m.homes.nodesList.map f = m.nodesList.map g := by
  refine List.ext_getElem? fun i => ?_
  rw [List.getElem?_map, List.getElem?_map, homes_node, Option.map_map]
  exact Option.map_congr fun n _ => h i n

theorem homes_loads : m.homes.loads = m.nodesList.map Prod.snd := map_homes fun _ _ => rfl

/-- The rows are counted and the nodes level. -/
def Placing (m : Master) (rows : List Str) : Prop := m.homes.Placing m.primaries rows

/-- The numbers of rows and the map are all that it is about. -/
theorem Placing.congr (h : m.Placing rows)
    (hnums : m'.nodesList.map Prod.snd = m.nodesList.map Prod.snd)
    (hindex : m'.nodeIndex = m.nodeIndex) : m'.Placing rows where
  primaries := map_homes fun _ _ => rfl
  numbered i n hn := by
    rw [homes_node] at hn
    obtain ⟨n', -, rfl⟩ := Option.map_eq_some_iff.mp hn
    rfl
  counted n := by
    have hloads : m'.homes.loads = m.homes.loads := by rw [homes_loads, hnums, homes_loads]
    have hrow : m'.homes.rowNum n = m.homes.rowNum n := by
      rw [Homes.rowNum, Homes.rowNum, ← List.getElem?_map, ← List.getElem?_map]
      exact congrArg (fun l : List Nat => l[n]?.getD 0) hloads
    rw [hrow, h.counted]
    exact congrArg (fun x => x.entries.countP (·.2 == n)) hindex.symm
  level := by
    rw [homes_loads, hnums, ← homes_loads]
    exact h.level
  asked row := (iff_of_eq (congrArg (row ∈ ·) hindex)).trans (h.asked row)
  total := by
    rw [homes_loads, hnums, ← homes_loads, h.total]
    exact congrArg (fun x => x.entries.length) hindex.symm
  inRange row n hn := by
    have hlen := congrArg List.length hnums
    have hold := h.inRange row n ((congrArg (AList.lookup row) hindex).symm.trans hn)
    simp only [homes, List.length_mapIdx, List.length_map] at hlen hold ⊢
    omega
  settled r hr := absurd hr List.not_mem_nil

/-- A heartbeat is not about the rows. -/
theorem placing_heartbeat {i : Nat} {alive : Bool} {accepts : Addr → Bool} (hm : m.Placing rows)
    (h : m.heartbeat i alive accepts = some m') : m'.Placing rows := by
  obtain ⟨n, hn, rfl⟩ := Option.map_eq_some_iff.mp h
  obtain ⟨hi, rfl⟩ := List.getElem?_eq_some_iff.mp hn
  refine hm.congr ?_ rfl
  rw [List.map_set, ← List.getElem_map Prod.snd (h := by rwa [List.length_map]),
    List.set_getElem_self]

theorem heartbeat_node {i : Nat} {alive : Bool} {accepts : Addr → Bool}
    (h : m.heartbeat i alive accepts = some m') : ∃ n, m.node i = some n ∧
      m'.node = Function.update m.node i (some (n.heartbeat alive accepts).1) ∧
      m'.nodeIndex = m.nodeIndex ∧ m'.nodesList.length = m.nodesList.length := by
  obtain ⟨n, hn, rfl⟩ := Option.map_eq_some_iff.mp h
  refine ⟨n.1, by rw [node, hn]; rfl, funext fun j => ?_, rfl, List.length_set⟩
  rw [Function.update_apply, node]
  split
  · rename_i hj
    rw [hj, List.getElem?_set_self (List.getElem?_eq_some_iff.mp hn).1]
    rfl
  · rename_i hj
    rw [List.getElem?_set_ne (Ne.symm hj), node]

/-- What `parse_WHERE` leaves is what it has worked on. -/
theorem homes_withHomes {h : Homes} (hh : h.Placing m.primaries rows) :
    (m.withHomes h).homes = { h with replies := [] } := by
  have hnodes : ∀ i : Nat, h.nodesList[i]?.map Node.primaryAddr = m.nodesList[i]?.map
    fun n : MasterNode × Nat => n.1.primaryAddr := by
    intro i
    rw [← List.getElem?_map, hh.primaries, primaries, List.getElem?_map]
  have hlist : (m.withHomes h).homes.nodesList = h.nodesList := by
    refine List.ext_getElem? fun i => ?_
    rw [homes_node, withHomes, List.getElem?_zipWith]
    have hi := hnodes i
    cases hn : h.nodesList[i]? with
    | none =>
        rw [hn] at hi
        rw [Option.map_eq_none_iff.mp hi.symm]
        rfl
    | some n =>
        rw [hn] at hi
        obtain ⟨n', hn', hprimary⟩ := Option.map_eq_some_iff.mp hi.symm
        rw [hn']
        obtain rfl := hh.numbered i n hn
        obtain ⟨nodeID, primaryAddr, rowNum⟩ := n
        exact congrArg (fun x => some (⟨nodeID, x, rowNum⟩ : Node)) hprimary
  exact congrArg (fun l => (⟨l, h.nodeIndex, []⟩ : Homes)) hlist

/-- **A `WHERE`** is answered with the primary of the node that the row is on now. -/
theorem parseWHERE_spec (hm : m.Placing rows) (hne : m.nodesList ≠ []) (command : Str) :
    ∃ m' i n, m.parseWHERE command = some (m', serverLine n.1.primaryAddr) ∧
      m.nodesList[i]? = some n ∧ m'.nodeIndex.lookup (angled command) = some i ∧
      m'.Placing (rows ++ [angled command]) ∧ m'.node = m.node ∧
      ∀ row k, m.nodeIndex.lookup row = some k → m'.nodeIndex.lookup row = some k := by
  have hprimaries : m.primaries ≠ [] := fun h => hne (List.map_eq_nil_iff.mp h)
  obtain ⟨i, nd, hnd, hcases⟩ := Homes.parseWhere_spec hm hprimaries command
  rw [homes_node] at hnd
  obtain ⟨n, hn, rfl⟩ := Option.map_eq_some_iff.mp hnd
  obtain ⟨h, heq, hreply, hhome, hkept⟩ : ∃ h, m.homes.parseWhere command = some h ∧
      h.replies.head? = some ⟨angled command, i, serverLine n.1.primaryAddr⟩ ∧
      h.nodeIndex.lookup (angled command) = some i ∧
      ∀ row k, m.nodeIndex.lookup row = some k → h.nodeIndex.lookup row = some k := by
    rcases hcases with ⟨hrow, heq⟩ | ⟨hrow, -, heq⟩
    · exact ⟨_, heq, rfl, hrow, fun _ _ hk => hk⟩
    · exact ⟨_, heq, rfl, AList.lookup_insert _, fun row k hk => Homes.lookup_place hrow hk⟩
  have hh := Homes.placing_step hm hprimaries heq
  have hview := homes_withHomes hh
  refine ⟨m.withHomes h, i, n, ?_, hn, hhome, ?_, ?_, hkept⟩
  · rw [parseWHERE, heq, Option.bind_some, hreply]
    rfl
  · have hsame : (m.withHomes h).primaries = m.primaries := by
      rw [primaries, ← map_homes (f := Node.primaryAddr) fun _ _ => rfl, hview, hh.primaries]
    rw [Placing, hsame, hview]
    exact { hh with settled := fun r hr => absurd hr List.not_mem_nil }
  · have hlen : h.nodesList.length = m.nodesList.length := by
      have hlen := congrArg List.length hh.primaries
      rwa [primaries, List.length_map, List.length_map] at hlen
    have hfst : (m.withHomes h).nodesList.map Prod.fst = m.nodesList.map Prod.fst := by
      rw [withHomes, List.map_zipWith]
      refine Eq.trans ?_ (congrArg (List.map Prod.fst) (List.map_fst_zip hlen.ge))
      rw [List.map_map, List.map_zip_eq_zipWith]
      rfl
    funext j
    rw [node, node, ← List.getElem?_map, hfst, List.getElem?_map]

end Master

/-! ## One command at a time -/

section Lines

variable {alive : Nat → Nat → Bool} {m m' : Master} {k : MasterWorker} {l : Str}
  {reads rest : List Str}
  {on : Bool} {reply : Str}

theorem MasterWorker.extractCommand_line (hl : IsLine l) (hk : k.wait = l) :
    k.extractCommand = some (l, { k with wait := [] }) := by
  obtain ⟨i, hi, hlen⟩ := hl.firstIdx []
  rw [List.append_nil] at hi
  have hne : (i : Int) ≠ npos := by rw [npos]; omega
  have hline : substr l 0 ((i : Int) + 2) = l := by
    simpa using substr_middle [] l [] (i := 0) (n := (i : Int) + 2) rfl (by omega)
  have hrest : substr l ((i : Int) + 2) = [] := by
    simpa using substr_rest l [] (i := (i : Int) + 2) (by omega)
  simp only [extractCommand, hk, find_of_firstIdx hi, hne, ne_eq, not_false_eq_true,
    if_true, hline, hrest]

theorem MasterWorker.drain_empty (n : Nat) (hk : k.wait = []) :
    drain alive n m k = some (m, k, []) := by
  have hnone : k.extractCommand = none := by
    rw [extractCommand, hk]
    rfl
  cases n with
  | zero => rfl
  | succ n => rw [drain, hnone]

/-- Reads that make up a line are read up to its end. -/
theorem doRead_line {len : Nat} (rest : List Str) (hl : IsLine l) (hnul : '\x00' ∉ l)
    (hlen : l.length < len)
    (hcut : reads.flatten = l) (hne : [] ∉ reads) :
    doRead len ((reads ++ rest).map .data) = .ok (l, rest.map .data) := by
  have hends : crlf <:+: l := by
    obtain ⟨a, rfl, -⟩ := hl
    exact (List.suffix_append a crlf).isInfix
  obtain ⟨hreads, hfirst⟩ := hl.dropLast hcut hne
  have hgroup : readInto crlf len [] ((reads ++ rest).map .data) = _ := readInto_group rest hreads
    (by rwa [List.nil_append, hcut]) (by rwa [List.nil_append, hcut]) (by rwa [List.nil_append])
    (by rwa [List.nil_append, hcut])
  rwa [List.nil_append, hcut] at hgroup

/-- **A line is handled, in however many reads it comes.** -/
theorem MasterWorker.round_line (rest : List Str) (hl : IsLine l) (hnul : '\x00' ∉ l)
    (hlen : l.length < rlenMaster)
    (hcut : reads.flatten = l) (hne : [] ∉ reads) (hwait : k.wait = [])
    (htask : k.task = (reads ++ rest).map .data) (h : m.handle alive l = some (m', on, reply)) :
    k.round alive m = some (m',
      { k with task := rest.map .data, runFlag := k.runFlag && on }, reply) := by
  have hreceive : k.receive = some { k with wait := l, task := rest.map .data } := by
    have hfits : ¬ rlenMaster ≤ ([] : Str).length + l.length := by
      rw [List.length_nil]
      omega
    simp only [receive, htask, doRead_line rest hl hnul hlen hcut hne, hwait,
      cstr_eq hnul, if_neg hfits, List.nil_append]
  obtain ⟨n, hn⟩ : ∃ n, l.length = n + 1 := by
    obtain ⟨a, rfl, -⟩ := hl
    exact ⟨a.length + 1, by rw [List.length_append]; rfl⟩
  rw [round, hreceive, Option.bind_some]
  show drain alive l.length m _ = _
  rw [hn, drain, extractCommand_line hl rfl]
  simp only [h, Option.bind_some, hwait]
  rw [drain_empty n rfl, Option.map_some, List.append_nil]

end Lines

end PennCloud
