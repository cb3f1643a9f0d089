import PennCloud.Lib.Runs
import PennCloud.Store.Handlers

/-!
# The order of replication

Workers of a primary commit a request under the map lock, which numbers it, and
hand its command to `BackStore` after they have released the lock. Between the
two steps another worker may commit and forward, so commands can reach the
replicas in another order than they were committed in; a replica applies them as
they arrive.

The state keeps the commands that are committed and not yet forwarded in commit
order, each with its worker. As long as only the oldest of them is forwarded
(`ClusterAction.Ordered`), what is on a connection is a prefix of what was committed, and
a replica that has handled all of it has the primary's table. The `CPUT`s that a
replica cannot repeat (`CputNull`) are excluded as before.
-/

namespace PennCloud

/-- A `Replicate` of the `BackStore`: whether it is in state 1, and what was written to it. -/
structure Link where
  live : Bool := true
  sent : List Forward := []

/-- A primary, its busy workers, and its replicas' connections. -/
structure Cluster where
  server : Server
  /-- The workers between their two steps, with their commands, oldest first. -/
  pending : List (Nat × Forward) := []
  links : List Link

/-- What happens at the primary. -/
inductive ClusterAction
  /-- The locked step of a worker: number, log record, table. -/
  | commit (worker : Nat) (q : Request)
  /-- `push` or `poll`: its command is appended to every live connection. -/
  | forward (worker : Nat)
  /-- A write to a replica has failed: its state is 3 from here on. -/
  | fail (i : Nat)

namespace Cluster

/-- A primary with an empty table and `n` live replicas. -/
def start (n : Nat) : Cluster :=
  { server := { primary := true }, links := List.replicate n {} }

def append (f : Forward) (l : Link) : Link := if l.live then { l with sent := l.sent ++ [f] } else l

/-- One action; a worker commits only when it has forwarded its last command. -/
def step (s : Cluster) : ClusterAction → Option Cluster
  | .commit worker q =>
    if worker ∈ s.pending.map Prod.fst then none
    else (s.server.handle q.call).toOption.map fun r =>
      { s with
        server := r.server, pending := s.pending ++ r.forwarded.map fun f => (worker, f) }
  | .forward worker =>
    (s.pending.find? fun p => p.1 == worker).map fun p =>
      { s with
        pending := s.pending.filter fun p => p.1 != worker, links := s.links.map (append p.2) }
  | .fail i => some { s with links := s.links.modify i fun l => { l with live := false } }

/-- The commands on every connection are in increasing order of their numbers. -/
def Ordered (s : Cluster) : Prop :=
  ∀ l ∈ s.links, (l.sent.map Forward.seq).Pairwise (· < ·)

end Cluster

/-- A replica handles one command. -/
def Server.follow (s : Server) (f : Forward) : Option Server :=
  (s.handle f.call).toOption.map Reaction.server

/-- With nothing left to forward, a live replica that has handled all its commands is in step. -/
def Cluster.Delivered (s : Cluster) : Prop :=
  s.pending = [] → ∀ l ∈ s.links, l.live = true →
    ∃ t, Lib.run Server.follow { primary := false } l.sent = some t ∧
      t.table.view = s.server.table.view

/-- The oldest command is forwarded first, and no `CPUT` is committed that a replica faults at. -/
def ClusterAction.Ordered (s : Cluster) : ClusterAction → Prop
  | .commit _ q => ¬ CputNull s.server.table q
  | .forward worker => s.pending.head?.map Prod.fst = some worker
  | .fail _ => True

instance (s : Cluster) : DecidablePred (ClusterAction.Ordered s) := fun a => by
  cases a <;> (unfold ClusterAction.Ordered; infer_instance)

/-! ## Committed commands -/

/-- The table goes from `t` to `u` by commands that a replica can repeat. -/
def Moved : Bmap → List Forward → Bmap → Prop
  | t, [], u => t = u
  | t, f :: fs, u => ∃ t', f.Moves t t' ∧ ¬ f.Null t ∧ Moved t' fs u

theorem Moved.snoc {f : Forward} {u v : Bmap} (hf : f.Moves u v) (hnull : ¬ f.Null u) :
    ∀ {fs : List Forward} {t : Bmap}, Moved t fs u → Moved t (fs ++ [f]) v
  | [], t, h => ⟨v, by rw [show t = u from h]; exact ⟨hf, hnull, rfl⟩⟩
  | g :: fs, t, ⟨t', hg, hn, h⟩ => ⟨t', hg, hn, Moved.snoc hf hnull h⟩

/-- **A replica that handles the committed commands in order moves along.** -/
theorem follow_moved : ∀ {fs : List Forward} {t u : Bmap} {s : Server}, Moved t fs u →
    s.table = t → ∃ s', Lib.run Server.follow s fs = some s' ∧ s'.table = u
  | [], t, u, s, h, hs => ⟨s, rfl, hs.trans h⟩
  | f :: fs, t, u, s, ⟨t', hf, hnull, h⟩, hs => by
      rcases handle_forward hs hf with ⟨hn, _⟩ | ⟨_, r, hr, htab, _⟩
      · exact absurd hn hnull
      · obtain ⟨s', hrun, hs'⟩ := follow_moved h htab
        refine ⟨s', ?_, hs'⟩
        rw [Lib.run, Server.follow, hr]
        exact hrun

/-- The invariant: `committed` are the commands so far, and a connection has a prefix of them. -/
structure Cluster.Inv (s : Cluster) (committed : List Forward) : Prop where
  role : s.server.primary = true
  moved : Moved ∅ committed s.server.table
  increasing : (committed.map Forward.seq).Pairwise (· < ·)
  counted : ∀ f ∈ committed, f.seq ≤ s.server.seqID
  workers : (s.pending.map Prod.fst).Nodup
  links : ∀ l ∈ s.links, ∃ rest, l.sent ++ rest = committed ∧
    (l.live = true → rest = s.pending.map Prod.snd)

/-- A commit puts its command, if it has one, behind all the others. -/
theorem inv_commit {s : Cluster} {committed : List Forward} (hs : s.Inv committed) {worker : Nat}
    {q : Request} (hw : worker ∉ s.pending.map Prod.fst) (hsafe : ¬ CputNull s.server.table q)
    {r : Reaction} (h : s.server.handle q.call = .ok r) :
    Cluster.Inv { s with
      server := r.server, pending := s.pending ++ r.forwarded.map fun f => (worker, f) }
      (committed ++ r.forwarded) := by
  have hdid := handle_request_cases hs.role h
  obtain ⟨hgrow, hnum⟩ := hdid.seq
  obtain ⟨hfwd, hkept, hmoves⟩ := sends_spec hs.role h
  have hrole : r.server.primary = true := hdid.frame.1.trans hs.role
  cases hf : s.server.sends q with
  | none =>
      have hnil : r.forwarded = [] := by rw [hfwd, hf]; rfl
      rw [hnil, List.map_nil, List.append_nil, List.append_nil]
      refine ⟨hrole, ?_, hs.increasing, fun f hf =>
        Int.le_trans (hs.counted f hf) hgrow, hs.workers, hs.links⟩
      rw [show r.server.table = s.server.table from hkept hf]
      exact hs.moved
  | some f =>
      have hone : r.forwarded = [f] := by rw [hfwd, hf]; rfl
      obtain ⟨hseq, hcount⟩ := hnum f (by rw [hone]; exact List.mem_singleton.mpr rfl)
      have hnull : ¬ f.Null s.server.table := fun hn => hsafe ((cputNull_iff h hf).mpr hn)
      rw [hone]
      refine ⟨hrole, hs.moved.snoc (hmoves f hf) hnull, ?_, ?_, ?_, ?_⟩
      · -- the new number is above all the others
        rw [List.map_append, List.pairwise_append]
        refine ⟨hs.increasing, List.pairwise_singleton .., fun m hm n hn => ?_⟩
        obtain ⟨g, hg, rfl⟩ := List.mem_map.mp hm
        have hle := hs.counted g hg
        rw [List.map_singleton, List.mem_singleton] at hn
        omega
      · intro g hg
        show g.seq ≤ r.server.seqID
        rcases List.mem_append.mp hg with hg | hg
        · exact Int.le_trans (hs.counted g hg) hgrow
        · rw [List.mem_singleton.mp hg]
          omega
      · rw [List.map_append, List.nodup_append]
        refine ⟨hs.workers, by simp, fun i hi j hj hij => ?_⟩
        have hj' : j = worker := by simpa using hj
        exact hw (by rw [← hj', ← hij]; exact hi)
      · intro l hl
        obtain ⟨rest, hrest, hlive⟩ := hs.links l hl
        refine ⟨rest ++ [f], by rw [← hrest, List.append_assoc], fun hll => ?_⟩
        rw [hlive hll]
        simp

theorem inv_forward {s : Cluster} {committed : List Forward} (hs : s.Inv committed) {worker : Nat}
    {f : Forward} {later : List (Nat × Forward)} (hp : s.pending = (worker, f) :: later) :
    Cluster.Inv { s with
      pending := s.pending.filter fun p => p.1 != worker, links := s.links.map (Cluster.append f) }
      committed := by
  have hnodup := hs.workers
  rw [hp, List.map_cons, List.nodup_cons] at hnodup
  have hfilter : (s.pending.filter fun p => p.1 != worker) = later := by
    rw [hp, List.filter_cons_of_neg (by simp), List.filter_eq_self]
    intro p hmem
    have hne : p.1 ≠ worker := fun he => hnodup.1 (List.mem_map.mpr ⟨p, hmem, he⟩)
    simpa using hne
  refine ⟨hs.role, hs.moved, hs.increasing, hs.counted, by rw [hfilter]; exact hnodup.2, ?_⟩
  intro l' hl'
  obtain ⟨l, hl, rfl⟩ := List.mem_map.mp hl'
  obtain ⟨rest, hrest, hlive⟩ := hs.links l hl
  rw [hfilter]
  unfold Cluster.append
  split
  · rename_i hll
    refine ⟨later.map Prod.snd, ?_, fun _ => rfl⟩
    rw [← hrest, hlive hll, hp]
    simp
  · rename_i hll
    exact ⟨rest, hrest, fun h => absurd h hll⟩

/-- **One step keeps every connection a prefix of the commits**, under its condition. -/
theorem cluster_inv_step {s t : Cluster} {a : ClusterAction} (hs : ∃ committed, s.Inv committed)
    (ha : a.Ordered s) (h : s.step a = some t) : ∃ committed, t.Inv committed := by
  obtain ⟨committed, hs⟩ := hs
  cases a with
  | commit worker q =>
      rw [Cluster.step] at h
      split at h
      · cases h
      · rename_i hw
        obtain ⟨r, hh, rfl⟩ := map_toOption_some h
        exact ⟨_, inv_commit hs hw ha hh⟩
  | forward worker =>
      cases hp : s.pending with
      | nil => rw [ClusterAction.Ordered, hp] at ha; cases ha
      | cons p later =>
          obtain ⟨i, f⟩ := p
          have hi : i = worker := by
            rw [ClusterAction.Ordered, hp] at ha
            exact Option.some.inj ha
          subst hi
          have hfind : (s.pending.find? fun p => p.1 == i) = some (i, f) := by
            rw [hp]
            simp
          rw [Cluster.step, hfind] at h
          cases h
          exact ⟨_, inv_forward hs hp⟩
  | fail i =>
      cases h
      refine ⟨committed, hs.role, hs.moved, hs.increasing, hs.counted, hs.workers, fun l hl => ?_⟩
      obtain ⟨j, hj, rfl⟩ := List.mem_iff_getElem.mp hl
      rw [List.getElem_modify]
      rw [List.length_modify] at hj
      obtain ⟨rest, hrest, hlive⟩ := hs.links _ (List.getElem_mem hj)
      split
      · exact ⟨rest, hrest, fun h => (by cases h)⟩
      · exact ⟨rest, hrest, hlive⟩

theorem cluster_inv_start (n : Nat) : ∃ committed, (Cluster.start n).Inv committed := by
  refine ⟨[], rfl, rfl, List.Pairwise.nil, fun f hf => (by cases hf),
    List.nodup_nil, fun l hl => ?_⟩
  rw [List.eq_of_mem_replicate hl]
  exact ⟨[], rfl, fun _ => rfl⟩

/--
**Replication order is commit order.** In every state of a run that forwards the
oldest pending command first, every connection carries its commands in increasing
order; and when nothing is pending, every replica that was never given up gets
the primary's table from them.
-/
theorem ordered_delivered {n : Nat} {as : List ClusterAction} {t : Cluster}
    (hg : Lib.Guarded Cluster.step ClusterAction.Ordered (Cluster.start n) as)
    (hr : Lib.run Cluster.step (Cluster.start n) as = some t) : t.Ordered ∧ t.Delivered := by
  obtain ⟨committed, ht⟩ : ∃ committed, t.Inv committed :=
    Lib.inv_of_guarded (fun _ _ _ => cluster_inv_step) (cluster_inv_start n) hg hr
  constructor
  · intro l hl
    obtain ⟨rest, hrest, -⟩ := ht.links l hl
    have hinc := ht.increasing
    rw [← hrest, List.map_append] at hinc
    exact (List.pairwise_append.mp hinc).1
  · intro hnone l hl hlive
    obtain ⟨rest, hrest, hpend⟩ := ht.links l hl
    rw [hpend hlive, hnone, List.map_nil, List.append_nil] at hrest
    obtain ⟨s', hrun, htab⟩ := follow_moved ht.moved (s := { primary := false }) rfl
    exact ⟨s', hrest ▸ hrun, congrArg Nested.view htab⟩

/-- Three workers, two of them on one key, and a replica that fails in between. -/
def orderedHistory : List ClusterAction :=
  [.commit 0 (.put ['a'] ['x'] ['1']), .commit 1 (.cput ['a'] ['x'] ['1'] ['2']), .forward 0,
   .commit 2 (.delete ['a'] ['x']), .fail 1, .forward 1, .commit 0 (.get ['a'] ['x']), .forward 2]

theorem orderedHistory_delivered :
    ∃ t, Lib.run Cluster.step (Cluster.start 2) orderedHistory = some t ∧ t.Ordered ∧ t.Delivered :=
  ⟨_, rfl, ordered_delivered (by decide : Lib.Guarded Cluster.step ClusterAction.Ordered
    (Cluster.start 2) orderedHistory) rfl⟩

/-- Two workers write one cell, and the second forwards first. -/
def overtaken : List ClusterAction :=
  [.commit 0 (.put ['a'] ['x'] ['1']), .commit 1 (.put ['a'] ['x'] ['2']), .forward 1, .forward 0]

/-- After `overtaken` the replica's numbers go down, and it keeps the older contents. -/
theorem overtaken_diverges :
    ∃ t, Lib.run Cluster.step (Cluster.start 1) overtaken = some t ∧ ¬ t.Ordered ∧
      ¬ t.Delivered := by
  refine ⟨_, rfl, fun h => ?_, fun h => ?_⟩
  · exact absurd (h _ (List.mem_singleton.mpr rfl)) (by decide)
  · obtain ⟨t, ht, hview⟩ := h rfl _ (List.mem_singleton.mpr rfl) rfl
    cases ht
    exact absurd (congrFun hview (['a'], ['x'])) (by decide)

end PennCloud
