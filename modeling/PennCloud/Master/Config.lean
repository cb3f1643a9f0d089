import PennCloud.Master.Multicast
import PennCloud.Store.Faults
import Mathlib.Data.List.Forall2

/-!
# The configuration file

Its first line is the master's address and each line behind it a node's, the
addresses of its servers with commas in between. The master and each data server
read it on their own: `init` of the master makes a node of each line, and
`ServerState::init` passes over the lines before its node's and then takes what
comes.

Two things go wrong in the second one. Its counter stands still once it has come
to the node's line, so the lines behind it are taken too; and `pos`, which the loop
over a line tests first, has no value when it begins.
-/

namespace PennCloud

open Str

/-! ## Addresses read -/

/-- A part of a dotted quad: up to three digits, none of them a leading zero. -/
def octet (s : Str) : Option (Fin 256) :=
  if s.all Char.isDigit && (s.head? ≠ some '0' || s.length = 1) then
    (leadingNat s).bind fun n => if h : n.toNat < 256 then some ⟨n.toNat, h⟩ else none
  else none

/-- `inet_pton(AF_INET, s, &addr.sin_addr)`: nothing is written if `s` is no address. -/
def inetPton (addr : Addr) (s : Str) : Addr :=
  match ((cstr s).splitOn '.').map octet with
  | [some a, some b, some c, some d] => { addr with a := a, b := b, c := c, d := d }
  | _ => addr

/-- `htons`, of a number cut to 16 bits. -/
def htons (n : Int) : Fin 65536 := ⟨(n % 65536).toNat, by omega⟩

/-- `string_to_ip`; `addr` is what is there before. -/
def stringToIp (addr : Addr) (s : Str) : Except Halt Addr :=
  let pos := s.find [':']
  if pos = npos then .ok (inetPton addr s)
  else do
    let port ← number (stoul64 (s.substr (pos + 1)))
    return { inetPton addr (s.substr 0 pos) with port := htons port }

/-- `s` is the text of `x`: nothing is left of what is there before. -/
def IsAddr (s : Str) (x : Addr) : Prop := ∀ addr, stringToIp addr s = .ok x

theorem octet_decimal (n : Fin 256) : octet (decimal n) = some n := by
  revert n
  decide +kernel

theorem htons_port (port : Fin 65536) : htons port = port := by
  have hlt := port.isLt
  refine Fin.ext ?_
  show (((port : Nat) : Int) % 65536).toNat = port
  omega

/-- The part of the text before the port. -/
def Addr.ip (x : Addr) : Str :=
  decimal x.a ++ '.' :: (decimal x.b ++ '.' :: (decimal x.c ++ '.' :: decimal x.d))

theorem ipToString_eq (x : Addr) : ipToString x = x.ip ++ ':' :: decimal x.port := by
  simp [ipToString, Addr.ip]

theorem notMem_ip {x : Addr} {c : Char} (hd : c.isDigit = false) (hm : c ≠ '-') (hdot : c ≠ '.') :
    c ∉ x.ip := by
  have hdec : ∀ n : Int, c ∉ decimal n := fun _ => notMem_decimal hd hm
  simp [Addr.ip, hdec, hdot]

theorem colon_notMem_ip (x : Addr) : ':' ∉ x.ip := notMem_ip (by decide) (by decide) (by decide)

/-- **`inet_pton` reads the four octets.** -/
theorem inetPton_ip (x addr : Addr) : inetPton addr x.ip = { x with port := addr.port } := by
  have hdot : ∀ n : Int, '.' ∉ decimal n := fun n => notMem_decimal (by decide) (by decide)
  have hsplit : x.ip.splitOn '.' = [decimal x.a, decimal x.b, decimal x.c, decimal x.d] := by
    rw [Addr.ip, List.splitOn_append_cons_self_of_not_mem (hdot _),
      List.splitOn_append_cons_self_of_not_mem (hdot _),
      List.splitOn_append_cons_self_of_not_mem (hdot _), List.splitOn_eq_singleton (hdot _)]
  rw [inetPton, cstr_eq (notMem_ip (by decide) (by decide) (by decide)), hsplit]
  simp only [List.map_cons, List.map_nil, octet_decimal]

/-- **`string_to_ip` reads what `ip_to_string` prints.** -/
theorem isAddr_ipToString (x : Addr) : IsAddr (ipToString x) x := by
  have hfind : find (ipToString x) [':'] = x.ip.length := by
    rw [ipToString_eq]
    exact find_sep _ (colon_notMem_ip x)
  have hport : stoul64 (decimal x.port) = some (x.port : Int) := by
    have hnum := stol_decimal (x.port : Int) (t := []) (by simp)
    have hlt := x.port.isLt
    rw [List.append_nil] at hnum
    rw [stoul64, hnum]
    exact if_pos (by simp; omega)
  intro addr
  have hne : ((x.ip.length : Nat) : Int) ≠ npos := by rw [npos]; omega
  have hhead : substr (ipToString x) 0 (x.ip.length : Int) = x.ip := by
    rw [ipToString_eq]
    exact substr_middle [] x.ip _ rfl rfl
  have htail : substr (ipToString x) ((x.ip.length : Int) + 1) = decimal x.port := by
    rw [ipToString_eq]
    exact substr_after x.ip ':' _
  rw [stringToIp]
  simp only [hfind, if_neg hne, hhead, htail, hport, inetPton_ip]
  change Except.ok { x with port := htons x.port } = _
  rw [htons_port]

/-! ## The two programs -/

/--
`while (pos != npos) { pos = line.find(","); …; line = line.substr(pos + 1); }`, which
both have; what `addr` holds before does not change. Each round but the last takes
a comma.
-/
def takeAddrs (addr : Addr) : Nat → Int → Str → Except Halt (List Addr)
  | 0, _, _ => .ok []
  | n + 1, pos, line =>
    if pos = npos then .ok []
    else do
      let pos := line.find [',']
      let x ← stringToIp addr (line.substr 0 pos)
      let xs ← takeAddrs addr n pos (line.substr (pos + 1))
      return x :: xs

/-- What `ServerState::init` sets, and the two numbers of the command line. -/
structure ServerConf where
  nodeID : Int
  repID : Int
  serverList : List Addr
  masterAddr : Addr
  myAddr : Addr
  primaryAddr : Addr

/-- `server_list[i]`. -/
def addrAt (xs : List Addr) (i : Int) : Except Halt Addr :=
  if 0 ≤ i then (xs[i.toNat]?).elim (.error (.fails .wildPointer)) .ok
    else .error (.fails .wildPointer)

/-- The loop over the lines, of which this is number `k`; `entry` is what `pos` holds
before each. -/
def ServerConf.takeLines (addr : Addr) (entry : Nat → Int) (nodeID : Int) :
    Nat → Int → List Str → Except Halt (List Addr)
  | _, _, [] => .ok []
  | k, i, line :: lines =>
    if i ≠ nodeID then takeLines addr entry nodeID (k + 1) (i + 1) lines
    else do
      let xs ← takeAddrs addr (line.length + 2) (entry k) line
      let ys ← takeLines addr entry nodeID (k + 1) i lines
      return xs ++ ys

/-- `ServerState::init`; `none` is `false`, the file not being there. -/
def ServerConf.init (addr : Addr) (entry : Nat → Int) (nodeID repID : Int) (file : Option Str) :
    Except Halt (Option ServerConf) :=
  match file with
  | none => .ok none
  | some text => do
    let lines := Lib.lines '\n' text
    let masterAddr ← stringToIp addr (lines.headD [])
    let serverList ← takeLines addr entry nodeID 0 0 lines.tail
    let myAddr ← addrAt serverList repID
    let primaryAddr ← addrAt serverList 0
    return some
      { nodeID := nodeID, repID := repID, serverList := serverList, masterAddr := masterAddr
        myAddr := myAddr, primaryAddr := primaryAddr }

/-- The loop of the master's `init` over the lines. -/
def masterLines (addr : Addr) : List Str → Except Halt (List MasterNode)
  | [] => .ok []
  | line :: lines => do
    let pos := line.find [',']
    let x ← stringToIp addr (line.substr 0 pos)
    let xs ← takeAddrs addr (line.length + 2) pos (line.substr (pos + 1))
    let nodes ← masterLines addr lines
    return { repAddrs := x :: xs, primaryAddr := x } :: nodes

/-- The master's `init`: its own address and `nodes_list`. -/
def masterInit (addr : Addr) (file : Option Str) : Except Halt (Option (Addr × List MasterNode)) :=
  match file with
  | none => .ok none
  | some text => do
    let lines := Lib.lines '\n' text
    let myAddr ← stringToIp addr (lines.headD [])
    let nodesList ← masterLines addr lines.tail
    return some (myAddr, nodesList)

/-! ## A line -/

/-- The addresses of a line. -/
def LineReads (line : Str) (xs : List Addr) : Prop := List.Forall₂ IsAddr (line.splitOn ',') xs

/-- A configuration file, and the addresses it lists. -/
structure ConfigFile where
  text : Str
  masterLine : Str
  nodeLines : List Str
  master : Addr
  nodes : List (List Addr)
  lines : Lib.lines '\n' text = masterLine :: nodeLines
  masterReads : IsAddr masterLine master
  nodesRead : List.Forall₂ LineReads nodeLines nodes

section Line

variable {addr : Addr} {line : Str} {x : Addr} {xs : List Addr}

/-- A line is an address, or an address and a comma and a line. -/
theorem lineReads_cases (h : LineReads line xs) :
    (∃ x, ',' ∉ line ∧ IsAddr line x ∧ xs = [x]) ∨
    (∃ a rest x xs', line = a ++ ',' :: rest ∧ ',' ∉ a ∧ IsAddr a x ∧ LineReads rest xs' ∧
      xs = x :: xs') := by
  by_cases hcomma : ',' ∈ line
  · obtain ⟨a, rest, rfl, ha⟩ := List.eq_append_cons_of_mem hcomma
    rw [LineReads, List.splitOn_append_cons_self_of_not_mem ha] at h
    cases h with
    | cons hx hrest => exact Or.inr ⟨a, rest, _, _, rfl, ha, hx, hrest, rfl⟩
  · rw [LineReads, List.splitOn_eq_singleton hcomma] at h
    cases h with
    | cons hx hrest =>
        cases hrest
        exact Or.inl ⟨_, hcomma, hx, rfl⟩

theorem LineReads.ne_nil (h : LineReads line xs) : xs ≠ [] := by
  rcases lineReads_cases h with ⟨x, -, -, rfl⟩ | ⟨a, rest, x, xs', -, -, -, -, rfl⟩
  · exact List.cons_ne_nil _ _
  · exact List.cons_ne_nil _ _

theorem takeAddrs_npos (n : Nat) : takeAddrs addr n npos line = .ok [] := by
  cases n with
  | zero => rfl
  | succ n => exact if_pos rfl

/-- What both programs cut off a line. -/
theorem cut_comma {a : Str} (rest : Str) (ha : ',' ∉ a) :
    find (a ++ ',' :: rest) [','] = a.length ∧ ((a.length : Nat) : Int) ≠ npos ∧
      substr (a ++ ',' :: rest) 0 (a.length : Int) = a ∧
      substr (a ++ ',' :: rest) ((a.length : Int) + 1) = rest := by
  refine ⟨find_sep _ ha, ?_, substr_middle [] a _ rfl rfl, substr_after a ',' rest⟩
  rw [npos]
  omega

/-- **A loop that is begun takes every address of its line.** -/
theorem takeAddrs_reads (addr : Addr) {pos : Int} {n : Nat} (h : LineReads line xs)
    (hpos : pos ≠ npos)
    (hn : line.length + 2 ≤ n) : takeAddrs addr n pos line = .ok xs := by
  induction n generalizing line xs pos with
  | zero => omega
  | succ n ih =>
      rw [takeAddrs, if_neg hpos]
      rcases lineReads_cases h with ⟨x, hcomma, hx, rfl⟩
        | ⟨a, rest, x, xs', rfl, ha, hx, hrest, rfl⟩
      · simp only [find_sep_none hcomma, substr_zero_npos, hx addr, bind,
          Except.bind, takeAddrs_npos]
        rfl
      · obtain ⟨hfind, hne, hhead, htail⟩ := cut_comma rest ha
        rw [List.length_append, List.length_cons] at hn
        simp only [hfind, hhead, htail, hx addr, bind, Except.bind, ih hrest hne (by omega)]
        rfl

end Line

/-! ## The lines -/

/-- The addresses of the lines at which `pos` lets the loop begin, the first line being
number `k`. -/
def taken (entry : Nat → Int) : Nat → List (List Addr) → List Addr
  | _, [] => []
  | k, xs :: nodes => (if entry k = npos then [] else xs) ++ taken entry (k + 1) nodes

section Lines

variable {addr : Addr} {entry : Nat → Int} {lines : List Str} {nodes : List (List Addr)} {n : Nat}

/-- From the node's line on, each line is taken for the node's. -/
theorem takeLines_own (addr : Addr) (entry : Nat → Int)
    (h : List.Forall₂ LineReads lines nodes) (k : Nat) :
    ServerConf.takeLines addr entry n k n lines = .ok (taken entry k nodes) := by
  induction h generalizing k with
  | nil => rfl
  | @cons line xs lines nodes hline hrest ih =>
      have hloop : takeAddrs addr (line.length + 2) (entry k) line
          = .ok (if entry k = npos then [] else xs) := by
        by_cases hk : entry k = npos
        · rw [hk, takeAddrs_npos, if_pos rfl]
        · rw [takeAddrs_reads addr hline hk (Nat.le_refl _), if_neg hk]
      rw [ServerConf.takeLines, if_neg fun h => h rfl, hloop, taken]
      simp only [bind, Except.bind, ih (k + 1)]
      rfl

/-- And the lines before it are passed over. -/
theorem takeLines_reads (addr : Addr) (entry : Nat → Int) (h : List.Forall₂ LineReads lines nodes)
    {k : Nat} (hk : k ≤ n) :
    ServerConf.takeLines addr entry n k k lines = .ok (taken entry n (nodes.drop (n - k))) := by
  induction h generalizing k with
  | nil =>
      rw [List.drop_nil]
      rfl
  | @cons line xs lines nodes hline hrest ih =>
      rcases Nat.eq_or_lt_of_le hk with rfl | hlt
      · rw [Nat.sub_self, List.drop_zero]
        exact takeLines_own addr entry (.cons hline hrest) k
      · have hne : (k : Int) ≠ n := by omega
        have hdrop : n - k = (n - (k + 1)) + 1 := by omega
        rw [ServerConf.takeLines, if_pos hne, hdrop, List.drop_succ_cons]
        exact ih hlt

/-- The master makes a node of each line. -/
theorem masterLines_reads (addr : Addr) (h : List.Forall₂ LineReads lines nodes) : ∃ ns,
    masterLines addr lines = .ok ns ∧ ns.map MasterNode.repAddrs = nodes ∧
      ns.map (fun n => some n.primaryAddr) = nodes.map List.head? := by
  induction h with
  | nil => exact ⟨[], rfl, rfl, rfl⟩
  | @cons line xs lines nodes hline hrest ih =>
      obtain ⟨ns, hns, hreps, hprimaries⟩ := ih
      rcases lineReads_cases hline with ⟨x, hcomma, hx, rfl⟩
        | ⟨a, rest, x, xs', rfl, ha, hx, hxs, rfl⟩
      · refine ⟨{ repAddrs := [x], primaryAddr := x } :: ns, ?_, by rw [List.map_cons, hreps],
          by rw [List.map_cons, List.map_cons, hprimaries]; rfl⟩
        simp only [masterLines, find_sep_none hcomma, substr_zero_npos, hx addr, bind, Except.bind,
          takeAddrs_npos, hns]
        rfl
      · refine ⟨{ repAddrs := x :: xs', primaryAddr := x } :: ns, ?_, by rw [List.map_cons, hreps],
          by rw [List.map_cons, List.map_cons, hprimaries]; rfl⟩
        obtain ⟨hfind, hne, hhead, htail⟩ := cut_comma rest ha
        have hloop := takeAddrs_reads addr (n := (a ++ ',' :: rest).length + 2) hxs hne
          (by simp; omega)
        simp only [masterLines, hfind, hhead, htail, hx addr, bind, Except.bind, hloop, hns]
        rfl

theorem ne_nil_of_reads (h : List.Forall₂ LineReads lines nodes) : ∀ xs ∈ nodes, xs ≠ [] := by
  induction h with
  | nil => exact fun xs h => (by cases h)
  | cons hline _ ih => exact List.forall_mem_cons.mpr ⟨hline.ne_nil, ih⟩

theorem taken_eq_nil (hne : ∀ xs ∈ nodes, xs ≠ []) (k : Nat) :
    taken entry k nodes = [] ↔ ∀ j < nodes.length, entry (k + j) = npos := by
  induction nodes generalizing k with
  | nil => exact iff_of_true rfl fun j hj => absurd hj (Nat.not_lt_zero j)
  | cons xs nodes ih =>
      obtain ⟨hxs, hnodes⟩ := List.forall_mem_cons.mp hne
      rw [taken, List.append_eq_nil_iff, ih hnodes]
      constructor
      · rintro ⟨hfirst, hrest⟩ j hj
        cases j with
        | zero =>
            by_cases hk : entry k = npos
            · exact hk
            · rw [if_neg hk] at hfirst
              exact absurd hfirst hxs
        | succ j =>
            have hj' := hrest j (Nat.lt_of_succ_lt_succ hj)
            rwa [Nat.add_right_comm] at hj'
      · intro h
        refine ⟨if_pos (h 0 (Nat.zero_lt_succ _)), fun j hj => ?_⟩
        have hj' := h (j + 1) (Nat.succ_lt_succ hj)
        rwa [← Nat.add_assoc, Nat.add_right_comm] at hj'

end Lines

/-! ## The two lists -/

namespace ConfigFile

/-- Both programs return, and the data server's list is the one the master has of its node. -/
def Alike (f : ConfigFile) (addr : Addr) (entry : Nat → Int) (n : Nat) (repID : Int) : Prop :=
  ∃ s myAddr nodesList, ServerConf.init addr entry n repID (some f.text) = .ok (some s) ∧
    masterInit addr (some f.text) = .ok (some (myAddr, nodesList)) ∧
    nodesList[n]?.map MasterNode.repAddrs = some s.serverList

/--
`pos` lets the loop begin at the node's line and at none behind it; or only behind
it, at lines that have the node's own addresses again.
-/
def OwnOnly (f : ConfigFile) (entry : Nat → Int) (n : Nat) (own : List Addr) : Prop :=
  (entry n ≠ npos ∧ ∀ k, n < k → k < f.nodes.length → entry k = npos) ∨
  (entry n = npos ∧ taken entry (n + 1) (f.nodes.drop (n + 1)) = own)

variable {f : ConfigFile} {addr : Addr} {entry : Nat → Int} {n : Nat}
  {own : List Addr} {repID : Int}

theorem taken_eq_own (hown : f.nodes[n]? = some own) :
    taken entry n (f.nodes.drop n) = own ↔ f.OwnOnly entry n own := by
  obtain ⟨hn, rfl⟩ := List.getElem?_eq_some_iff.mp hown
  have hne : ∀ xs ∈ f.nodes.drop (n + 1), xs ≠ [] := fun xs h =>
    ne_nil_of_reads f.nodesRead xs (List.mem_of_mem_drop h)
  rw [List.drop_eq_getElem_cons hn, taken, OwnOnly]
  by_cases hk : entry n = npos
  · simp only [hk, if_true, List.nil_append, ne_eq, not_true_eq_false, false_and,
      false_or, true_and]
  · rw [if_neg hk, List.append_right_eq_self, taken_eq_nil hne, List.length_drop]
    refine Iff.trans ⟨fun h => ?_, fun h => ?_⟩ (or_iff_left fun h => hk h.1).symm
    · refine ⟨hk, fun k hnk hlt => ?_⟩
      have hj := h (k - (n + 1)) (by omega)
      rwa [show n + 1 + (k - (n + 1)) = k by omega] at hj
    · exact fun j hj => h.2 (n + 1 + j) (by omega) (by omega)

theorem addrAt_ok {xs : List Addr} {i : Int} :
    (∃ x, addrAt xs i = .ok x) ↔ 0 ≤ i ∧ i < xs.length := by
  unfold addrAt
  by_cases hi : 0 ≤ i
  · rw [if_pos hi]
    by_cases hlt : i.toNat < xs.length
    · rw [List.getElem?_eq_getElem hlt]
      exact iff_of_true ⟨_, rfl⟩ ⟨hi, by omega⟩
    · rw [List.getElem?_eq_none (Nat.le_of_not_lt hlt)]
      refine iff_of_false ?_ fun h => hlt (by omega)
      rintro ⟨x, hx⟩
      cases hx
  · rw [if_neg hi]
    refine iff_of_false ?_ fun h => hi h.1
    rintro ⟨x, hx⟩
    cases hx

/-- What `ServerState::init` makes of the file. -/
theorem init_eq (f : ConfigFile) (addr : Addr) (entry : Nat → Int) (n : Nat) (repID : Int) :
    ServerConf.init addr entry n repID (some f.text) =
      (addrAt (taken entry n (f.nodes.drop n)) repID).bind fun myAddr =>
        (addrAt (taken entry n (f.nodes.drop n)) 0).bind fun primaryAddr => .ok <| some
          { nodeID := n, repID := repID, serverList := taken entry n (f.nodes.drop n)
            masterAddr := f.master, myAddr := myAddr, primaryAddr := primaryAddr } := by
  have hlines := takeLines_reads addr entry f.nodesRead (Nat.zero_le n)
  rw [Nat.sub_zero] at hlines
  simp only [ServerConf.init, f.lines, List.headD_cons, List.tail_cons, f.masterReads addr, bind,
    Except.bind]
  rw [show ((0 : Nat) : Int) = 0 from rfl] at hlines
  rw [hlines]
  rfl

theorem alike_iff_taken (hown : f.nodes[n]? = some own) : f.Alike addr entry n repID ↔
    taken entry n (f.nodes.drop n) = own ∧ 0 ≤ repID ∧ repID < own.length := by
  obtain ⟨ns, hns, hreps, -⟩ := masterLines_reads addr f.nodesRead
  have hmaster : masterInit addr (some f.text) = .ok (some (f.master, ns)) := by
    simp only [masterInit, f.lines, List.headD_cons, List.tail_cons, f.masterReads addr, bind,
      Except.bind, hns]
    rfl
  have hnode : ns[n]?.map MasterNode.repAddrs = some own := by
    rw [← List.getElem?_map, hreps, hown]
  rw [Alike, init_eq]
  constructor
  · rintro ⟨s, myAddr, nodesList, hinit, hlist, hsame⟩
    rw [hmaster] at hlist
    cases hlist
    rw [hnode] at hsame
    obtain ⟨x, hx, hinit⟩ := halt_bind_ok hinit
    obtain ⟨y, -, hinit⟩ := halt_bind_ok hinit
    cases hinit
    have hlist := (Option.some.inj hsame).symm
    exact ⟨hlist, hlist ▸ addrAt_ok.mp ⟨x, hx⟩⟩
  · rintro ⟨hlist, hrep⟩
    rw [hlist]
    obtain ⟨x, hx⟩ := addrAt_ok.mpr hrep
    obtain ⟨y, hy⟩ : ∃ y, addrAt own 0 = .ok y := addrAt_ok.mpr ⟨Int.le_refl 0, by omega⟩
    rw [hx]
    simp only [Except.bind, hy]
    exact ⟨_, _, _, rfl, hmaster, hnode⟩

/--
**Both programs have the same list if and only if** the loop is begun at the
node's own line alone; and the data server's own number must be in the list.
-/
theorem alike_iff (hown : f.nodes[n]? = some own) (addr : Addr) (entry : Nat → Int) (repID : Int) :
    f.Alike addr entry n repID ↔ f.OwnOnly entry n own ∧ 0 ≤ repID ∧ repID < own.length := by
  rw [alike_iff_taken hown, taken_eq_own hown]

/-- A node's line. -/
def line (xs : List Addr) : Str := [','].intercalate (xs.map ipToString)

theorem lineReads_line {xs : List Addr} (hne : xs ≠ []) : LineReads (line xs) xs := by
  have hcomma : ∀ l ∈ xs.map ipToString, ',' ∉ l := by
    intro l hl
    obtain ⟨x, -, rfl⟩ := List.mem_map.mp hl
    exact notMem_ipToString (by decide) (by decide) (by decide) (by decide)
  rw [LineReads, line, List.splitOn_intercalate _ hcomma (by simpa using hne),
    List.forall₂_map_left_iff]
  exact List.forall₂_same.mpr fun x _ => isAddr_ipToString x

theorem newline_notMem_line (xs : List Addr) : '\n' ∉ line xs := by
  have haddr : ∀ x : Addr, '\n' ∉ ipToString x := fun x =>
    notMem_ipToString (by decide) (by decide) (by decide) (by decide)
  induction xs with
  | nil => simp [line]
  | cons x xs ih =>
      cases xs with
      | nil => simpa [line] using haddr x
      | cons y xs =>
          rw [line, List.map_cons] at ih ⊢
          rw [List.map_cons, List.intercalate_cons_cons]
          simp [haddr x, ih]

/-- The file for a list of nodes. -/
def ofNodes (master : Addr) (nodes : List (List Addr)) (hne : ∀ xs ∈ nodes, xs ≠ []) :
    ConfigFile where
  text := (ipToString master :: nodes.map line).flatMap (· ++ ['\n'])
  masterLine := ipToString master
  nodeLines := nodes.map line
  master := master
  nodes := nodes
  lines := by
    refine Lib.lines_flatMap (List.forall_mem_cons.mpr ⟨?_, fun l hl => ?_⟩)
    · exact notMem_ipToString (by decide) (by decide) (by decide) (by decide)
    · obtain ⟨xs, -, rfl⟩ := List.mem_map.mp hl
      exact newline_notMem_line xs
  masterReads := isAddr_ipToString master
  nodesRead := by
    rw [List.forall₂_map_left_iff]
    exact List.forall₂_same.mpr fun xs hxs => lineReads_line (hne xs hxs)

end ConfigFile

/-- Two nodes of two servers. -/
def twoNodes : ConfigFile :=
  .ofNodes (loopback ⟨10000, by decide⟩)
    [[node8000, node5000], [node6000, loopback ⟨5001, by decide⟩]] (by decide)

/-- The loop is begun at the first node's line only. -/
theorem twoNodes_alike : twoNodes.Alike node8000 (fun k => if k = 0 then 7 else npos) 0 1 :=
  (ConfigFile.alike_iff (show _ = some [node8000, node5000] from rfl) _ _ _).mpr
    ⟨Or.inl ⟨by decide, fun k hk _ => if_neg (Nat.ne_of_gt hk)⟩, by decide, by decide⟩

/-- Begun at both, or at none. -/
theorem twoNodes_not_alike : ¬ twoNodes.Alike node8000 (fun _ => 0) 0 0 ∧
    ¬ twoNodes.Alike node8000 (fun _ => npos) 0 0 := by
  constructor
  · rw [ConfigFile.alike_iff_taken (show _ = some [node8000, node5000] from rfl)]
    decide
  · rw [ConfigFile.alike_iff_taken (show _ = some [node8000, node5000] from rfl)]
    decide

end PennCloud
