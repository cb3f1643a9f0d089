import PennCloud.Address
import PennCloud.Lib.Runs
import PennCloud.Store.Worker
import Mathlib.Logic.Function.Basic

/-!
# Promotion

The master's `node` watches one group of replicas: `heartbeat` writes to the
current primary, and when that fails `promoteNewPrimary` takes the first replica
it can reach and sends every replica it can reach a `PROMOTE` line with its
address. `parse_PROMOTE` sets the role flag of the replica the line names. In any
other replica it only records the new primary's address: nothing clears a flag
but a restart.

So a group has one primary as long as no replica is promoted past a live one that
still has the flag. `soleFlag` is the invariant then: a live replica with the
flag is the last one promoted.
-/

namespace PennCloud

open Str

/-- The part of a data server that promotion is about. -/
structure Replica where
  live : Bool
  /-- `ServerState::primary`. -/
  primary : Bool := false
  /-- What `setPrimaryAddr` was last given. -/
  primaryAddr : Str := []
  deriving DecidableEq, Repr

def kwPROMOTE : Str := ['P', 'R', 'O', 'M', 'O', 'T', 'E']

/-- The line `promoteNewPrimary` multicasts. -/
def promoteLine (x : Addr) : Str := kwPROMOTE ++ ' ' :: (ipToString x ++ crlf)

/-- `parse_PROMOTE` in the server at `myAddr`. -/
def Replica.parsePROMOTE (myAddr : Addr) (s : Replica) (command : Str) : Replica :=
  let pos := command.find [' '] + 1
  let newPrimaryStr := command.substr pos (command.find crlf - pos)
  if newPrimaryStr = ipToString myAddr then { s with primary := true }
  else { s with primaryAddr := newPrimaryStr }

/-- One group of replicas and the master's `node` for it. -/
structure Group where
  /-- `node::rep_addrs`. -/
  repAddrs : List Addr
  /-- The process at each address. -/
  rep : Addr → Replica
  /-- `node::primary_addr`. -/
  primaryAddr : Addr
  /-- `node::running`. -/
  running : Bool := false
  /-- The replica named by the last `PROMOTE`. -/
  promoted : Option Addr := none
  /-- The replicas that have handled it and have not stopped since. -/
  handled : Addr → Bool := fun _ => false

/-- What happens in a group. -/
inductive GroupAction
  /-- `node::heartbeat`: whether its write succeeds, and the replicas it could connect to. -/
  | heartbeat (alive : Bool) (reachable : List Addr)
  /-- A live replica handles the `PROMOTE` line. -/
  | deliver (x : Addr)
  | crash (x : Addr)
  /-- A start with `-r`: `ServerState` begins without the flag. -/
  | restart (x : Addr)
  deriving Repr

namespace Group

/-- A group as it is started: its first address is the primary's, nobody has the flag. -/
def start (x : Addr) (xs : List Addr) : Group :=
  { repAddrs := x :: xs, rep := fun _ => { live := true }, primaryAddr := x }

/-- The first replica the master can reach. -/
def firstReachable (s : Group) (reachable : List Addr) : Option Addr :=
  s.repAddrs.find? fun x => (s.rep x).live && x ∈ reachable

/-- `promoteNewPrimary`, up to the multicast. -/
def promoteNewPrimary (s : Group) (reachable : List Addr) : Group :=
  match s.firstReachable reachable with
  | none => s
  | some x =>
      { s with
        primaryAddr := x, running := true, promoted := some x, handled := fun _ => false }

/-- `heartbeat`. -/
def heartbeat (s : Group) (alive : Bool) (reachable : List Addr) : Group :=
  if !s.running then s.promoteNewPrimary reachable
  else if alive then s
  else { s with running := false }.promoteNewPrimary reachable

def setRep (s : Group) (x : Addr) (r : Replica) : Group :=
  { s with rep := Function.update s.rep x r }

/-- One action. -/
def step (s : Group) : GroupAction → Option Group
  | .heartbeat alive reachable => some (s.heartbeat alive reachable)
  | .deliver x =>
    match s.promoted with
    | none => none
    | some p =>
      if x ∈ s.repAddrs ∧ (s.rep x).live = true then
        some { s.setRep x ((s.rep x).parsePROMOTE x (promoteLine p)) with
          handled := Function.update s.handled x true }
      else none
  | .crash x =>
    if (s.rep x).live then
      some { s.setRep x { s.rep x with live := false } with
        handled := Function.update s.handled x false }
    else none
  | .restart x =>
    if (s.rep x).live then none else some (s.setRep x { live := true })

/-- The promotion a heartbeat makes, if it makes one. -/
def promotes (s : Group) : GroupAction → Option Addr
  | .heartbeat alive reachable => if s.running && alive then none else s.firstReachable reachable
  | _ => none

/-- Every live replica of the group has handled the last `PROMOTE`. -/
def AllHandled (s : Group) : Prop :=
  ∀ x ∈ s.repAddrs, (s.rep x).live = true → s.handled x = true

/-- Once all have handled a `PROMOTE`, exactly the replica it names is primary. -/
def OnePrimary (s : Group) : Prop :=
  ∀ p, s.promoted = some p → s.AllHandled →
    ∀ x ∈ s.repAddrs, (s.rep x).live = true → ((s.rep x).primary = true ↔ x = p)

end Group

/-- Nobody is promoted past a live replica that has the flag. -/
def GroupAction.InTurn (s : Group) (a : GroupAction) : Prop :=
  ∀ p ∈ s.promotes a, ∀ x ∈ s.repAddrs, (s.rep x).live = true → (s.rep x).primary = true → x = p

instance (s : Group) : DecidablePred (GroupAction.InTurn s) := fun a => by
  unfold GroupAction.InTurn; infer_instance

/-! ## The `PROMOTE` line -/

/-- The line reaches the handler. -/
theorem dispatch_promote (primary : Bool) (p : Addr) (k : Worker) :
    k.dispatch primary (promoteLine p) = .ok (.promote (promoteLine p), k) := rfl

theorem promoteLine_field (p : Addr) :
    (promoteLine p).substr ((promoteLine p).find [' '] + 1)
      ((promoteLine p).find crlf - ((promoteLine p).find [' '] + 1)) = ipToString p := by
  have hspace : (promoteLine p).find [' '] = kwPROMOTE.length := find_sep _ (by decide)
  have hline : promoteLine p = kwPROMOTE ++ ' ' :: ipToString p ++ crlf := by
    simp [promoteLine]
  have hcr : '\r' ∉ kwPROMOTE ++ ' ' :: ipToString p := by
    have hp : '\r' ∉ ipToString p := notMem_ipToString (by decide) (by decide)
      (by decide) (by decide)
    simp [kwPROMOTE, hp]
  have hcrlf : (promoteLine p).find crlf = (kwPROMOTE ++ ' ' :: ipToString p).length := by
    refine find_of_firstIdx ?_
    rw [hline, crlf, Lib.firstIdx_skip _ hcr, Lib.firstIdx_zero (List.prefix_refl _)]
    rfl
  rw [hspace, hcrlf, hline]
  exact substr_between kwPROMOTE ' ' (ipToString p) crlf

/-- **What a replica makes of the line**: its own flag, or a note of the address. -/
theorem parsePROMOTE_line (x p : Addr) (s : Replica) :
    s.parsePROMOTE x (promoteLine p) =
      if p = x then { s with primary := true } else { s with primaryAddr := ipToString p } := by
  simp only [Replica.parsePROMOTE, promoteLine_field, ipToString_inj]

/-! ## One primary -/

/-- The invariant of a group whose promotions are in turn. -/
structure Group.Inv (s : Group) : Prop where
  /-- A live replica with the flag is the last one promoted. -/
  soleFlag : ∀ x ∈ s.repAddrs, (s.rep x).live = true → (s.rep x).primary = true →
    s.promoted = some x
  /-- The one promoted has the flag once it has handled the line. -/
  named : ∀ p, s.promoted = some p → s.handled p = true → (s.rep p).primary = true
  /-- What a replica has handled it forgets when it stops. -/
  handledLive : ∀ x, s.handled x = true → (s.rep x).live = true

/-- A heartbeat promotes somebody, or leaves everything but `running`. -/
theorem heartbeat_cases (s : Group) (alive : Bool) (reachable : List Addr) :
    (s.promotes (.heartbeat alive reachable) = none ∧
      ∃ b, s.heartbeat alive reachable = { s with running := b }) ∨
    ∃ p, s.promotes (.heartbeat alive reachable) = some p ∧
      s.heartbeat alive reachable = { s with
        primaryAddr := p, running := true, promoted := some p, handled := fun _ => false } := by
  have hfirst : ∀ b, { s with running := b }.firstReachable reachable
    = s.firstReachable reachable :=
    fun _ => rfl
  cases hrun : s.running with
  | false =>
      cases hf : s.firstReachable reachable with
      | none =>
          refine Or.inl ⟨by simp [Group.promotes, hf], s.running, ?_⟩
          show s.heartbeat alive reachable = s
          simp [Group.heartbeat, hrun, Group.promoteNewPrimary, hf]
      | some p =>
          refine Or.inr ⟨p, by simp [Group.promotes, hrun, hf], ?_⟩
          simp [Group.heartbeat, hrun, Group.promoteNewPrimary, hf]
  | true =>
      cases alive with
      | true =>
          refine Or.inl ⟨by simp [Group.promotes, hrun], s.running, ?_⟩
          show s.heartbeat true reachable = s
          simp [Group.heartbeat, hrun]
      | false =>
          cases hf : s.firstReachable reachable with
          | none =>
              refine Or.inl ⟨by simp [Group.promotes, hf], false, ?_⟩
              simp [Group.heartbeat, hrun, Group.promoteNewPrimary, hfirst, hf]
          | some p =>
              refine Or.inr ⟨p, by simp [Group.promotes, hf], ?_⟩
              simp [Group.heartbeat, hrun, Group.promoteNewPrimary, hfirst, hf]

theorem inv_heartbeat {s : Group} (hs : s.Inv) {alive : Bool} {reachable : List Addr}
    (hturn : (GroupAction.heartbeat alive reachable).InTurn s) :
    (s.heartbeat alive reachable).Inv := by
  rcases heartbeat_cases s alive reachable with ⟨-, b, heq⟩ | ⟨p, hp, heq⟩
  · rw [heq]
    exact ⟨hs.soleFlag, hs.named, hs.handledLive⟩
  · rw [heq]
    refine ⟨fun x hx hlive hflag => ?_, fun _ _ h => (by cases h), fun _ h => (by cases h)⟩
    rw [hturn p hp x hx hlive hflag]

theorem inv_deliver {s : Group} (hs : s.Inv) {x p : Addr} (hp : s.promoted = some p)
    (hlive : (s.rep x).live = true) :
    ({ s.setRep x ((s.rep x).parsePROMOTE x (promoteLine p)) with
      handled := Function.update s.handled x true } : Group).Inv := by
  rw [parsePROMOTE_line]
  refine ⟨fun y hy hly hfy => ?_, fun q hq hh => ?_, fun y hy => ?_⟩
  · -- a flag that was there, or the one the line has just set
    by_cases hyx : y = x
    · subst hyx
      simp only [Group.setRep, Function.update_self] at hly hfy
      split at hfy
      · rename_i hpy; exact hp.trans (congrArg some hpy)
      · exact hs.soleFlag y hy hlive hfy
    · simp only [Group.setRep, Function.update_of_ne hyx] at hly hfy
      exact hs.soleFlag y hy hly hfy
  · obtain rfl : p = q := Option.some.inj (hp.symm.trans hq)
    by_cases hpx : p = x
    · subst hpx
      simp [Group.setRep]
    · simp only [Group.setRep, Function.update_of_ne hpx] at hh ⊢
      exact hs.named p hp hh
  · by_cases hyx : y = x
    · subst hyx
      simp only [Group.setRep, Function.update_self]
      split <;> exact hlive
    · simp only [Group.setRep, Function.update_of_ne hyx] at hy ⊢
      exact hs.handledLive y hy

/-- A crash and a restart take a flag away, and the memory of having handled the line. -/
theorem inv_stop {s : Group} (hs : s.Inv) {x : Addr} {r : Replica}
    (hr : r.live = true → r.primary = false) :
    ({ s.setRep x r with handled := Function.update s.handled x false } : Group).Inv := by
  refine ⟨fun y hy hly hfy => ?_, fun q hq hh => ?_, fun y hy => ?_⟩
  · by_cases hyx : y = x
    · subst hyx
      simp only [Group.setRep, Function.update_self] at hly hfy
      rw [hr hly] at hfy
      cases hfy
    · simp only [Group.setRep, Function.update_of_ne hyx] at hly hfy
      exact hs.soleFlag y hy hly hfy
  · by_cases hqx : q = x
    · subst hqx
      simp at hh
    · simp only [Group.setRep, Function.update_of_ne hqx] at hh ⊢
      exact hs.named q hq hh
  · by_cases hyx : y = x
    · subst hyx
      simp at hy
    · simp only [Group.setRep, Function.update_of_ne hyx] at hy ⊢
      exact hs.handledLive y hy

/-- **One step keeps the flag with the last one promoted**, if its promotion is in turn. -/
theorem group_inv_step {s t : Group} {a : GroupAction} (hs : s.Inv) (ha : a.InTurn s)
    (h : s.step a = some t) : t.Inv := by
  cases a with
  | heartbeat alive reachable =>
      cases h
      exact inv_heartbeat hs ha
  | deliver x =>
      rw [Group.step] at h
      split at h
      · cases h
      · rename_i p hp
        split at h
        · rename_i hx
          cases h
          exact inv_deliver hs hp hx.2
        · cases h
  | crash x =>
      rw [Group.step] at h
      split at h
      · cases h
        exact inv_stop hs (fun hl => (by cases hl))
      · cases h
  | restart x =>
      rw [Group.step] at h
      split at h
      · cases h
      · rename_i hdead
        cases h
        have hnot : s.handled x = false := by
          cases hh : s.handled x with
          | false => rfl
          | true => exact absurd (hs.handledLive x hh) hdead
        have hsame : Function.update s.handled x false = s.handled :=
          Function.update_eq_self_iff.mpr hnot.symm
        have hinv := inv_stop hs (x := x) (r := { live := true }) (fun _ => rfl)
        rw [hsame] at hinv
        exact hinv

theorem onePrimary_of_inv {s : Group} (hs : s.Inv) : s.OnePrimary := by
  intro p hp hall x hx hlive
  constructor
  · intro hflag
    exact (Option.some.inj (hp.symm.trans (hs.soleFlag x hx hlive hflag))).symm
  · rintro rfl
    exact hs.named x hp (hall x hx hlive)

/--
**At most one live primary.** In every state of a run whose promotions are in
turn, once every live replica has handled a `PROMOTE` line, exactly the one it
names has the flag.
-/
theorem onePrimary_of_inTurn {x : Addr} {xs : List Addr} {as : List GroupAction} {t : Group}
    (hg : Lib.Guarded Group.step GroupAction.InTurn (Group.start x xs) as)
    (hr : Lib.run Group.step (Group.start x xs) as = some t) : t.OnePrimary := by
  refine onePrimary_of_inv (Lib.inv_of_guarded (fun _ _ _ => group_inv_step) ?_ hg hr)
  exact ⟨fun _ _ _ h => (by cases h), fun _ h => (by cases h), fun _ h => (by cases h)⟩

/-- Two replicas on one machine. -/
def repA : Addr := loopback 8000
def repB : Addr := loopback 5000

/-- The primary dies, the other takes over, and later the first one again. -/
def failBack : List GroupAction :=
  [.heartbeat true [repA, repB], .deliver repA, .deliver repB, .heartbeat true [], .crash repA,
   .heartbeat false [repB], .deliver repB, .restart repA, .deliver repA, .crash repB,
   .heartbeat false [repA], .deliver repA]

theorem failBack_onePrimary :
    ∃ t, Lib.run Group.step (Group.start repA [repB]) failBack = some t ∧ t.OnePrimary :=
  ⟨_, rfl, onePrimary_of_inTurn (by decide : Lib.Guarded Group.step GroupAction.InTurn
    (Group.start repA [repB]) failBack) rfl⟩

/-- The primary's connection breaks while it lives. -/
def partition : List GroupAction :=
  [.heartbeat true [repA, repB], .deliver repA, .deliver repB,
    .heartbeat false [repB], .deliver repA,
   .deliver repB]

/-- After `partition` both replicas have handled the last `PROMOTE`, and both are primary. -/
theorem partition_two_primaries :
    ∃ t, Lib.run Group.step (Group.start repA [repB]) partition = some t ∧ t.promoted = some repB ∧
      t.AllHandled ∧ (t.rep repA).live = true ∧ (t.rep repA).primary = true ∧
      (t.rep repB).primary = true ∧ ¬ t.OnePrimary := by
  have hall : ∀ t, Lib.run Group.step (Group.start repA [repB]) partition = some t →
    t.AllHandled := by
    intro t ht
    cases ht
    unfold Group.AllHandled
    decide
  refine ⟨_, rfl, rfl, hall _ rfl, rfl, by decide, by decide, fun h => ?_⟩
  exact absurd ((h repB rfl (hall _ rfl) repA (by decide) rfl).mp (by decide)) (by decide)

end PennCloud
