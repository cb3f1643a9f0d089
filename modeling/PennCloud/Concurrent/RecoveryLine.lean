import PennCloud.Concurrent.Recovery

/-!
# The `RECOVERY` line at the primary

`parse_RECOVERY` with the whole `BackStore`. The line is built with the number
before the address and taken apart with the address before the number. No word of
it is missing and both numbers can be read, so nothing fails: no replica is set
recovering, and the primary answers for another number than it was asked for.
-/

namespace PennCloud

open Str

/-- `BackStore::recover`. -/
def recoverNode : List Replicate → Str → List Replicate × Bool
  | [], _ => ([], false)
  | n :: nodes, address =>
    if ipToString n.addr = address then (n.recover address :: nodes, true)
    else (n :: (recoverNode nodes address).1, (recoverNode nodes address).2)

/-- `parse_RECOVERY`: the answer and the `BackStore`; `none` when a `std::stol` throws. -/
def parseRECOVERY (checkpoint : Option Str) (nodes : List Replicate) (command : Str) :
    Option (Str × List Replicate) :=
  let nodes := (recoverNode nodes (recoveryAddr command)).1
  (answerRECOVERY checkpoint command).map fun answer => (answer, nodes)

/-- What the line of a replica is decoded to, and what is done about it. -/
structure Decoded (checkpoint : Option Str) (nodes : List Replicate) (seq : Int)
    (x : Addr) : Prop where
  address : recoveryAddr (recoveryLine seq x) = ipToString x
  number : stol (recoverySeq (recoveryLine seq x)) = some seq
  /-- The replica's entry, and no other, goes to state 2. -/
  recovering : ∀ r, parseRECOVERY checkpoint nodes (recoveryLine seq x) = some r →
    r.2 = nodes.map fun n => if n.addr = x then { n with state := 2 } else n
  /-- The replica's own files will do from the checkpoint's version on. -/
  answer : ∀ r, parseRECOVERY checkpoint nodes (recoveryLine seq x) = some r →
    (r.1 = replyTransferLog ↔ ∃ version, findVersionNum checkpoint = some version ∧ version ≤ seq)

theorem recoverNode_none {nodes : List Replicate} {address : Str}
    (h : ∀ n ∈ nodes, ipToString n.addr ≠ address) :
      recoverNode nodes address = (nodes, false) := by
  induction nodes with
  | nil => rfl
  | cons n nodes ih =>
      rw [recoverNode, if_neg (h n List.mem_cons_self), ih fun m hm =>
        h m (List.mem_cons_of_mem _ hm)]

/-- What one entry makes of it, in a store where no two entries have the same address. -/
theorem recoverNode_map {nodes : List Replicate} (address : Str)
    (h : (nodes.map fun n => ipToString n.addr).Nodup) :
    (recoverNode nodes address).1 = nodes.map (·.recover address) := by
  induction nodes with
  | nil => rfl
  | cons n nodes ih =>
      rw [List.map_cons, List.nodup_cons] at h
      rw [List.map_cons, recoverNode]
      split
      · rename_i haddr
        -- the loop returns here, and no later entry has this address
        have hrest : ∀ m ∈ nodes, m.recover address = m := fun m hm =>
          if_neg fun hsame => h.1 (List.mem_map.mpr ⟨m, hm, hsame.trans haddr.symm⟩)
        rw [List.map_congr_left hrest, List.map_id']
      · rename_i haddr
        rw [ih h.2, Replicate.recover, if_neg haddr]

/-- **What the line does**: nothing to the `BackStore`, and an answer for the first octet. -/
theorem parseRECOVERY_line (checkpoint : Option Str) (nodes : List Replicate) (seq : Int)
    (x : Addr) :
    parseRECOVERY checkpoint nodes (recoveryLine seq x)
      = (findVersionNum checkpoint).map fun version =>
      (if version ≤ (x.a : Int) then replyTransferLog else replyTransferCheckpoint, nodes) := by
  have hnone : recoverNode nodes (recoveryAddr (recoveryLine seq x)) = (nodes, false) := by
    rw [recoveryAddr_line]
    exact recoverNode_none fun n _ he => decimal_ne_ipToString seq n.addr he.symm
  rw [parseRECOVERY, hnone, answerRECOVERY, recoverySeq_line]
  cases findVersionNum checkpoint with
  | none => rfl
  | some version => rfl

/--
**No `RECOVERY` line is decoded as it was encoded**: the address is not read
back, no entry of the `BackStore` changes, and the answer compares the
checkpoint's version with the first octet of the address.
-/
theorem recoveryLine_not_decoded (checkpoint : Option Str) (nodes : List Replicate) (seq : Int)
    (x : Addr) : ¬ Decoded checkpoint nodes seq x ∧
      parseRECOVERY checkpoint nodes (recoveryLine seq x)
        = (findVersionNum checkpoint).map fun version =>
        (if version ≤ (x.a : Int) then replyTransferLog else replyTransferCheckpoint, nodes) := by
  refine ⟨fun h => ?_, parseRECOVERY_line checkpoint nodes seq x⟩
  have haddress := h.address
  rw [recoveryAddr_line] at haddress
  exact decimal_ne_ipToString seq x haddress

/-- A primary with a checkpoint of version 100 and two replicas. -/
def twoReplicas : List Replicate := [{ addr := node5000 }, { addr := node6000 }]

/--
The replica at port 5000 has numbers up to 5: its entry stays in state 1, and it
is told that its own files will do.
-/
theorem recoveryLine_five : (parseRECOVERY (some "Version number: <100>\n".toList) twoReplicas
      (recoveryLine 5 node5000)).map (fun r => (r.1, r.2.map Replicate.state))
        = some (replyTransferLog, [1, 1]) ∧
    ¬ Decoded (some "Version number: <100>\n".toList) twoReplicas 5 node5000 := by
  refine ⟨by decide +kernel, fun h => ?_⟩
  exact absurd h.number (by decide +kernel)

end PennCloud
