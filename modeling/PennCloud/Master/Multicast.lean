import PennCloud.Master.Promotion

/-!
# Announcing a promotion

`promoteNewPrimary` connects to the replicas of a group in turn, and for the first
one that accepts it has `multicastNodes` send the `PROMOTE` line. That loop opens
one socket before it and uses it for every replica: a `connect` that fails leaves
it as it was, but the `masterConnection` of a replica that accepts closes it when
it goes out of scope. So the replicas behind the first that accepts are not
connected to any more.
-/

namespace PennCloud

open Str

/-- To whom a line is written. -/
abbrev Sent := Addr × Str

def quitLine : Str := "QUIT\r\n".toList

/-- The master's `node` of a group. -/
structure MasterNode where
  /-- `rep_addrs`. -/
  repAddrs : List Addr
  /-- `primary_addr`. -/
  primaryAddr : Addr
  running : Bool := false
  /-- The replica at the other end of `conn`. -/
  conn : Option Addr := none

section Announce

variable (accepts : Addr → Bool)

/-- The loop of `multicastNodes`, its descriptor being open or closed. -/
def multicastLoop (command : Str) : Bool → List Addr → List Sent
  | _, [] => []
  | isOpen, x :: xs =>
    if isOpen && accepts x then
      -- `contactServer`, then the connection goes out of scope
      (x, command) :: (x, quitLine) :: multicastLoop command false xs
    else multicastLoop command isOpen xs

/-- `multicastNodes`. -/
def MasterNode.multicastNodes (n : MasterNode) (command : Str) : List Sent :=
  multicastLoop accepts command true n.repAddrs

/-- The loop of `promoteNewPrimary`. -/
def MasterNode.promoteLoop (n : MasterNode) : List Addr → MasterNode × List Sent
  | [] => (n, [])
  | x :: xs =>
    if accepts x then
      ({ n with primaryAddr := x, conn := some x, running := true },
        n.multicastNodes accepts (promoteLine x))
    else promoteLoop n xs

/-- `promoteNewPrimary`. -/
def MasterNode.promoteNewPrimary (n : MasterNode) : MasterNode × List Sent :=
  n.promoteLoop accepts n.repAddrs

end Announce

/-- What a replica makes of the lines it is sent; `QUIT` ends the connection. -/
def Replica.receive (x : Addr) (r : Replica) (sent : List Sent) : Replica :=
  ((sent.filter fun m => m.1 = x ∧ m.2 ≠ quitLine).map Prod.snd).foldl (Replica.parsePROMOTE x) r

/-- The replica at `x` takes `p` for the primary. -/
def Replica.Knows (x p : Addr) (r : Replica) : Prop :=
  if p = x then r.primary = true else r.primaryAddr = ipToString p

/-- The promotion of the first replica that accepts is announced to each that does, once. -/
structure Announced (accepts : Addr → Bool) (n next : MasterNode) (sent : List Sent) : Prop where
  first : n.repAddrs.find? accepts = some next.primaryAddr ∧ next.conn = some next.primaryAddr
  once : ∀ x ∈ n.repAddrs, accepts x = true → sent.count (x, promoteLine next.primaryAddr) = 1
  known : ∀ x ∈ n.repAddrs, accepts x = true → ∀ r : Replica,
    (r.receive x sent).Knows x next.primaryAddr

section Loops

variable {accepts : Addr → Bool} {n : MasterNode} {command : Str} {p : Addr}

theorem multicastLoop_closed (xs : List Addr) : multicastLoop accepts command false xs = [] := by
  induction xs with
  | nil => rfl
  | cons x xs ih => rw [multicastLoop, Bool.false_and, if_neg Bool.false_ne_true, ih]

/-- **The multicast ends with the first replica that accepts.** -/
theorem multicastLoop_open {xs : List Addr} (h : xs.find? accepts = some p) :
    multicastLoop accepts command true xs = [(p, command), (p, quitLine)] := by
  induction xs with
  | nil => cases h
  | cons x xs ih =>
      rw [multicastLoop, Bool.true_and]
      cases hx : accepts x with
      | true =>
          rw [List.find?_cons_of_pos hx] at h
          cases h
          -- the connection goes out of scope and takes the socket with it
          rw [if_pos rfl, multicastLoop_closed]
      | false =>
          rw [List.find?_cons_of_neg (by rw [hx]; exact Bool.false_ne_true)] at h
          rw [if_neg Bool.false_ne_true, ih h]

theorem promoteLoop_first {xs : List Addr} (h : xs.find? accepts = some p) :
    n.promoteLoop accepts xs = ({ n with primaryAddr := p, conn := some p, running := true },
      n.multicastNodes accepts (promoteLine p)) := by
  induction xs with
  | nil => cases h
  | cons x xs ih =>
      rw [MasterNode.promoteLoop]
      cases hx : accepts x with
      | true =>
          rw [List.find?_cons_of_pos hx] at h
          cases h
          rw [if_pos rfl]
      | false =>
          rw [List.find?_cons_of_neg (by rw [hx]; exact Bool.false_ne_true)] at h
          rw [if_neg Bool.false_ne_true, ih h]

/-- What `promoteNewPrimary` does in all. -/
theorem promoteNewPrimary_eq (h : n.repAddrs.find? accepts = some p) :
    n.promoteNewPrimary accepts = ({ n with primaryAddr := p, conn := some p, running := true },
      [(p, promoteLine p), (p, quitLine)]) := by
  rw [MasterNode.promoteNewPrimary, promoteLoop_first h, MasterNode.multicastNodes,
    multicastLoop_open h]

theorem promoteLine_ne_quit (p : Addr) : promoteLine p ≠ quitLine := by
  intro h
  have hhead : some 'P' = some 'Q' := congrArg List.head? h
  exact absurd hhead (by decide)

theorem parsePROMOTE_knows (x p : Addr) (r : Replica) :
    (r.parsePROMOTE x (promoteLine p)).Knows x p := by
  rw [parsePROMOTE_line, Replica.Knows]
  split <;> rfl

end Loops

/-- **A promotion is announced to every replica that accepts** exactly if no other one does. -/
theorem announced_iff (accepts : Addr → Bool) (n : MasterNode)
    (h : ∃ x ∈ n.repAddrs, accepts x = true) :
    Announced accepts n (n.promoteNewPrimary accepts).1 (n.promoteNewPrimary accepts).2 ↔
      ∀ x ∈ n.repAddrs, accepts x = true → n.repAddrs.find? accepts = some x := by
  obtain ⟨p, hp⟩ := Option.isSome_iff_exists.mp (List.find?_isSome.mpr h)
  rw [promoteNewPrimary_eq hp]
  constructor
  · intro hall x hx hacc
    have hone := hall.once x hx hacc
    have hmem : (x, promoteLine p) ∈ [(p, promoteLine p), (p, quitLine)] :=
      List.count_pos_iff.mp (hone ▸ Nat.one_pos)
    rcases List.mem_cons.mp hmem with he | hmem
    · rw [hp, (Prod.mk.inj he).1]
    · exact absurd (Prod.mk.inj (List.mem_singleton.mp hmem)).2 (promoteLine_ne_quit p)
  · intro honly
    refine ⟨⟨hp, rfl⟩, fun x hx hacc => ?_, fun x hx hacc r => ?_⟩
    · obtain rfl : p = x := Option.some.inj (hp.symm.trans (honly x hx hacc))
      rw [List.count_cons_self, List.count_singleton, if_neg]
      intro he
      exact promoteLine_ne_quit p (Prod.mk.inj (eq_of_beq he)).2.symm
    · obtain rfl : p = x := Option.some.inj (hp.symm.trans (honly x hx hacc))
      have hread : r.receive p [(p, promoteLine p), (p, quitLine)]
        = r.parsePROMOTE p (promoteLine p) := by
        simp [Replica.receive, promoteLine_ne_quit]
      rw [hread]
      exact parsePROMOTE_knows p p r

/-- Three replicas, of which only the second accepts. -/
def threeReplicas : MasterNode where
  repAddrs := [node8000, node5000, node6000]
  primaryAddr := node8000

theorem oneAccepts_announced : Announced (· = node5000) threeReplicas
    (threeReplicas.promoteNewPrimary (· = node5000)).1
    (threeReplicas.promoteNewPrimary (· = node5000)).2 :=
  (announced_iff _ threeReplicas ⟨node5000, by decide, by decide⟩).mpr (by decide)

/-- Where the last two accept, the last one is not told. -/
theorem twoAccept_not_announced : (threeReplicas.promoteNewPrimary (· ≠ node8000)).1.primaryAddr
      = node5000 ∧
    (∀ m ∈ (threeReplicas.promoteNewPrimary (· ≠ node8000)).2, m.1 = node5000) ∧
    ¬ Announced (· ≠ node8000) threeReplicas
      (threeReplicas.promoteNewPrimary (· ≠ node8000)).1
      (threeReplicas.promoteNewPrimary (· ≠ node8000)).2 := by
  refine ⟨by decide, by decide, fun h => ?_⟩
  exact absurd (h.once node6000 (by decide) (by decide)) (by decide)

end PennCloud
