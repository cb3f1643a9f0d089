import PennCloud.Master.Multicast

/-!
# The states of the replicas

`parse_STATES` goes over the nodes and over the replicas of each, asks each one
whether it is alive and replies with a line for it. The numbers in the lines are
the positions in `nodes_list` and `rep_addrs`; a line break alone ends the reply.
-/

namespace PennCloud

open Str

/-- A replica's place in `nodes_list`. -/
structure Place where
  node : Nat
  rep : Nat
  addr : Addr

/-- All of them, in the master's order. -/
def places (nodes : List MasterNode) : List Place :=
  nodes.zipIdx.flatMap fun n => n.1.repAddrs.zipIdx.map fun x => ⟨n.2, x.2, x.1⟩

/-- The word for what `isAlive` returns. -/
def stateWord (alive : Bool) : Str := if alive then "alive".toList else "down".toList

/-- The fields of a replica's line. -/
def Place.fields (p : Place) (alive : Bool) : List Str :=
  [decimal p.node, decimal p.rep, ipToString p.addr, stateWord alive]

section States

variable (alive : Nat → Nat → Bool)

/-- `sprintf(info, "%d|%d|%s|%s\n", i, j, …)`. -/
def stateLine (i j : Nat) (x : Addr) : Str :=
  decimal i ++ '|' :: (decimal j ++ '|'
    :: (ipToString x ++ '|' :: (stateWord (alive i j) ++ ['\n'])))

/-- The inner loop of `parse_STATES`, from the `j`-th replica on. -/
def repStates (i : Nat) : Nat → List Addr → List Str
  | _, [] => []
  | j, x :: xs => stateLine alive i j x :: repStates i (j + 1) xs

/-- The outer loop, from the `i`-th node on. -/
def nodeStates : Nat → List MasterNode → List Str
  | _, [] => []
  | i, n :: ns => repStates alive i 0 n.repAddrs ++ nodeStates (i + 1) ns

/-- `parse_STATES`, reply by reply; `alive i j` is what the `j`-th replica of the `i`-th node is
found to be. -/
def parseSTATES (nodes : List MasterNode) : List Str := nodeStates alive 0 nodes ++ [crlf]

/-! ## The lines -/

variable {alive}

end States

end PennCloud
