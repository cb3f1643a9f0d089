import PennCloud.Concurrent.ReplicationOrder
import PennCloud.Lib.Threads
import PennCloud.Lib.Updates
import Mathlib.Data.List.Count
import Mathlib.Data.List.Nodup

/-!
# Acknowledged updates

A worker of the primary replies `+OK` when `push` or `poll` has gone through all
the nodes. Here that loop is taken apart: a worker that has committed a request
puts the command together and comes to one `Replicate` after another, and all this
interleaves with other workers in any way. `push` reads the value when the map's lock
has been released, so it must not be an update of the same key that has replaced or
deleted it by then. A write may fail, and then the node is given up.

What is acknowledged is on the connection of every node that has not been given
up, once. And where the updates of one key do not overlap, such a node has the
primary's value of the key as soon as it has handled its commands, in whatever
order the updates of other keys came in between.
-/

namespace PennCloud

/-- A worker in the loop of `push` or `poll`: its command, and the node it comes to next. -/
structure PushJob where
  command : Forward
  /-- `command` has been put together. -/
  built : Bool := false
  node : Nat := 0
  deriving DecidableEq

/-- A primary, its workers, and its nodes. -/
structure Acknowledging where
  server : Server
  workers : List (Option PushJob)
  links : List Link
  /-- The commands of all committed updates. -/
  committed : List Forward := []
  /-- Those that have been replied to with `+OK`. -/
  acked : List Forward := []

/-- What happens at the primary. -/
inductive AckAction
  /-- An idle worker's locked step. -/
  | commit (worker : Nat) (q : Request)
  /-- `push` or `poll` puts its command together. -/
  | build (worker : Nat)
  /-- A worker comes to its next node; the write, if there is one, succeeds or fails. -/
  | write (worker : Nat) (ok : Bool)
  /-- A worker has been through all nodes, and replies. -/
  | reply (worker : Nat)

/-- The key a command is about. -/
def Forward.key : Forward → Key
  | .put row col _ _ | .delete row col _ => (row, col)

/-- What a command assigns. -/
def Forward.update : Forward → Key × Option Str
  | .put row col data _ => ((row, col), some data)
  | .delete row col _ => ((row, col), none)

/-- The record a replica logs for a command. -/
def Forward.logged : Forward → LogRecord
  | .put row col data seq => .replicaPut seq row col data
  | .delete row col seq => .delete seq row col

namespace Acknowledging

/-- A primary with an empty table, `m` idle workers and `n` live nodes. -/
def start (m n : Nat) : Acknowledging :=
  { server := { primary := true }, workers := List.replicate m none, links := List.replicate n {} }

/-- What `push` does at one node. -/
def writeTo (f : Forward) (ok : Bool) (l : Link) : Link :=
  if l.live then if ok then { l with sent := l.sent ++ [f] } else { l with live := false } else l

/--
What `push` reads is still there: the last update of the key is its own. `poll` reads nothing
but its arguments.
-/
def Readable (s : Acknowledging) : Forward → Prop
  | .put row col data seq =>
      (s.committed.filter (·.key = (row, col))).getLast? = some (.put row col data seq)
  | .delete .. => True

instance (s : Acknowledging) : DecidablePred s.Readable
  | .put row col data seq => inferInstanceAs
      (Decidable ((s.committed.filter (·.key = (row, col))).getLast?
        = some (.put row col data seq)))
  | .delete .. => .isTrue trivial

/-- One action. Nothing is known of a run in which a value is read that has been deleted. -/
def step (s : Acknowledging) : AckAction → Option Acknowledging
  | .commit i q =>
    if s.workers[i]? = some none then
      (s.server.handle q.call).toOption.map fun r => { s with
        server := r.server
        workers := s.workers.set i (r.forwarded.head?.map fun f => { command := f })
        committed := s.committed ++ r.forwarded }
    else none
  | .build i =>
    match s.workers[i]? with
    | some (some job) =>
      if s.Readable job.command then
        some { s with workers := s.workers.set i (some { job with built := true }) }
      else none
    | _ => none
  | .write i ok =>
    match s.workers[i]? with
    | some (some job) =>
      if job.built then
        s.links[job.node]?.map fun l => { s with
          workers := s.workers.set i (some { job with node := job.node + 1 })
          links := s.links.set job.node (writeTo job.command ok l) }
      else none
    | _ => none
  | .reply i =>
    match s.workers[i]? with
    | some (some job) =>
      if job.built = true ∧ job.node = s.links.length then
        some { s with workers := s.workers.set i none, acked := s.acked ++ [job.command] }
      else none
    | _ => none

/-- The command of a worker that has not come to node `i` yet. -/
def owes (i : Nat) : Option PushJob → Option Forward
  | some job => if job.node ≤ i then some job.command else none
  | none => none

/-- The commands that node `i` still has to get. -/
def owed (s : Acknowledging) (i : Nat) : List Forward := s.workers.filterMap (owes i)

/-- The commands that workers still have. -/
def held (s : Acknowledging) : List Forward := s.workers.filterMap (Option.map PushJob.command)

/-- No worker has an update of the key in hand. -/
def Settled (s : Acknowledging) (k : Key) : Prop := ∀ f ∈ s.held, f.key ≠ k

instance (s : Acknowledging) (k : Key) : Decidable (s.Settled k) :=
  inferInstanceAs (Decidable (∀ f ∈ s.held, f.key ≠ k))

end Acknowledging

/-- The key of a request that may update one. -/
def Request.updates : Request → Option Key
  | .put row col _ | .cput row col _ _ | .delete row col => some (row, col)
  | .get .. => none

/-- An update is committed when no update of its key is on its way. -/
def AckAction.InTurn (s : Acknowledging) : AckAction → Prop
  | .commit _ q => ∀ k ∈ q.updates, s.Settled k
  | _ => True

instance (s : Acknowledging) : DecidablePred (AckAction.InTurn s)
  | .commit _ q => inferInstanceAs (Decidable (∀ k ∈ q.updates, s.Settled k))
  | .build _ | .write .. | .reply _ => .isTrue trivial

/-! ## Commands -/

theorem update_key (f : Forward) : f.update.1 = f.key := by cases f <;> rfl

theorem Forward.Moves.view {f : Forward} {t u : Bmap} (h : f.Moves t u) :
    u.view = Lib.replay t.view [f.update] := by
  cases f with
  | put row col data seq =>
      rw [show u = t.set row col data from h, Nested.view_set]
      rfl
  | delete row col seq =>
      rw [h.2, Nested.view_eraseCol]
      rfl

/-- What a replica does with a command. -/
theorem follow_spec {s t : Server} {f : Forward} (h : s.follow f = some t) :
    t.table.view = Lib.replay s.table.view [f.update] ∧ t.log = s.log ++ [f.logged] := by
  obtain ⟨r, hr, rfl⟩ := map_toOption_some h
  cases handle_forward_cases hr with
  | stored row col data seq hf ht =>
      subst hf
      rw [ht]
      exact ⟨Nested.view_set s.table row col data, rfl⟩
  | erased row col d seq hf hat ht =>
      subst hf
      rw [ht]
      exact ⟨Nested.view_eraseCol s.table row col, rfl⟩
  | missed row col seq hf hat ht =>
      subst hf
      rw [ht]
      refine ⟨?_, rfl⟩
      have hnone : s.table.view (row, col) = none := hat
      exact (Function.update_eq_self_iff.mpr hnone.symm).symm

theorem follow_run {fs : List Forward} {s t : Server} (h : Lib.run Server.follow s fs = some t) :
    t.table.view = Lib.replay s.table.view (fs.map Forward.update) ∧
      t.log = s.log ++ fs.map Forward.logged := by
  induction fs generalizing s with
  | nil =>
      cases h
      exact ⟨rfl, (List.append_nil _).symm⟩
  | cons f fs ih =>
      obtain ⟨u, hu, hrest⟩ := Lib.run_cons h
      obtain ⟨hview, hlog⟩ := follow_spec hu
      obtain ⟨hview', hlog'⟩ := ih hrest
      rw [hview', hlog', hview, hlog, List.append_assoc]
      exact ⟨rfl, rfl⟩

theorem logged_injective : Function.Injective Forward.logged := by
  intro f g h
  cases f <;> cases g <;> cases h <;> rfl

/-! ## What an action does -/

namespace Acknowledging

/-- An action, case by case. -/
inductive Does (s : Acknowledging) : AckAction → Acknowledging → Prop
  | commit {i : Nat} {q : Request} {r : Reaction} {f : Forward} (hidle : s.workers[i]? = some none)
      (h : s.server.handle q.call = .ok r) (hf : r.forwarded = [f]) :
      Does s (.commit i q) { s with
        server := r.server, workers := s.workers.set i (some { command := f })
        committed := s.committed ++ [f] }
  | kept {i : Nat} {q : Request} {r : Reaction} (h : s.server.handle q.call = .ok r)
      (hf : r.forwarded = []) : Does s (.commit i q) { s with server := r.server }
  | build {i : Nat} {job : PushJob} (hjob : s.workers[i]? = some (some job)) :
      Does s (.build i) { s with workers := s.workers.set i (some { job with built := true }) }
  | write {i : Nat} {ok : Bool} {job : PushJob} {l : Link} (hjob : s.workers[i]? = some (some job))
      (hl : s.links[job.node]? = some l) :
      Does s (.write i ok) { s with
        workers := s.workers.set i (some { job with node := job.node + 1 })
        links := s.links.set job.node (writeTo job.command ok l) }
  | reply {i : Nat} {job : PushJob} (hjob : s.workers[i]? = some (some job))
      (hend : job.node = s.links.length) :
      Does s (.reply i) { s with workers := s.workers.set i none, acked := s.acked
        ++ [job.command] }

theorem does_of_step {s t : Acknowledging} {a : AckAction} (hrole : s.server.primary = true)
    (h : s.step a = some t) : Does s a t := by
  cases a with
  | commit i q =>
      simp only [step] at h
      split at h
      · rename_i hidle
        obtain ⟨r, hr, rfl⟩ := map_toOption_some h
        have hfwd := (sends_spec hrole hr).1
        cases hf : s.server.sends q with
        | none =>
            rw [hf] at hfwd
            obtain ⟨hi, hnone⟩ := List.getElem?_eq_some_iff.mp hidle
            have hset : s.workers.set i (none : Option PushJob) = s.workers := by
              rw [← hnone]
              exact List.set_getElem_self hi
            rw [hfwd]
            simp only [Option.toList_none, List.head?_nil, Option.map_none, List.append_nil, hset]
            exact .kept hr hfwd
        | some f =>
            rw [hf] at hfwd
            rw [hfwd]
            exact .commit hidle hr hfwd
      · cases h
  | build i =>
      simp only [step] at h
      split at h
      · split at h <;> cases h
        exact .build ‹_›
      · cases h
  | write i ok =>
      simp only [step] at h
      split at h
      · split at h
        · obtain ⟨l, hl, rfl⟩ := Option.map_eq_some_iff.mp h
          exact .write ‹_› hl
        · cases h
      · cases h
  | reply i =>
      simp only [step] at h
      split at h
      · split at h
        · rename_i hjob hend
          cases h
          exact .reply hjob hend.2
        · cases h
      · cases h

/-! ## What workers have in hand -/

variable {s t : Acknowledging} {i j : Nat} {f : Forward} {job : PushJob}

theorem held_commit (hidle : s.workers[i]? = some none) :
    ((s.workers.set i (some { command := f })).filterMap (Option.map PushJob.command)).Perm
      (s.held ++ [f]) := by
  simpa [held] using Lib.Threads.filterMap_set (some { command := f })
    (Option.map PushJob.command) hidle

theorem owed_commit (hidle : s.workers[i]? = some none) :
    ((s.workers.set i (some { command := f })).filterMap (owes j)).Perm (s.owed j ++ [f]) := by
  simpa [owed, owes] using Lib.Threads.filterMap_set (some { command := f }) (owes j) hidle

/-- A worker goes on with its command. -/
theorem held_on (job' : PushJob) (hjob : s.workers[i]? = some (some job))
    (h : job'.command = job.command) :
    ((s.workers.set i (some job')).filterMap (Option.map PushJob.command)).Perm s.held := by
  have hset := Lib.Threads.filterMap_set (some job') (Option.map PushJob.command) hjob
  rw [Option.map_some, Option.map_some, h] at hset
  exact (List.perm_append_right_iff _).mp hset

theorem owed_on (job' : PushJob) (hjob : s.workers[i]? = some (some job))
    (h : owes j (some job') = owes j (some job)) :
    ((s.workers.set i (some job')).filterMap (owes j)).Perm (s.owed j) := by
  have hset := Lib.Threads.filterMap_set (some job') (owes j) hjob
  rw [h] at hset
  exact (List.perm_append_right_iff _).mp hset

/-- The node that a worker has come to has its command from here on. -/
theorem owed_here (hjob : s.workers[i]? = some (some job)) :
    ((s.workers.set i (some { job with node := job.node + 1 })).filterMap (owes job.node) ++
      [job.command]).Perm (s.owed job.node) := by
  have hset := Lib.Threads.filterMap_set (some { job with node := job.node + 1 })
    (owes job.node) hjob
  rwa [owes, if_pos (Nat.le_refl _), owes, if_neg (Nat.not_succ_le_self _), Option.toList_some,
    Option.toList_none, List.append_nil] at hset

theorem owed_elsewhere (hjob : s.workers[i]? = some (some job)) (hj : j ≠ job.node) :
    ((s.workers.set i (some { job with node := job.node + 1 })).filterMap (owes j)).Perm
      (s.owed j) := by
  refine owed_on _ hjob ?_
  simp only [owes]
  by_cases hle : job.node ≤ j
  · rw [if_pos hle, if_pos (by omega)]
  · rw [if_neg hle, if_neg (by omega)]

theorem held_reply (hjob : s.workers[i]? = some (some job)) :
    ((s.workers.set i none).filterMap (Option.map PushJob.command)
      ++ [job.command]).Perm s.held := by
  simpa [held] using Lib.Threads.filterMap_set none (Option.map PushJob.command) hjob

/-- A worker that has been through all nodes owes none of them anything. -/
theorem owed_reply (hjob : s.workers[i]? = some (some job)) (hj : j < job.node) :
    ((s.workers.set i none).filterMap (owes j)).Perm (s.owed j) := by
  have hset := Lib.Threads.filterMap_set none (owes j) hjob
  rwa [owes, if_neg (by omega), owes, Option.toList_none, List.append_nil, List.append_nil] at hset

/-! ## What is on the connections -/

/-- The invariant: a node has got what it is not still owed. -/
structure Inv (s : Acknowledging) : Prop where
  role : s.server.primary = true
  counted : ∀ f ∈ s.committed, f.seq ≤ s.server.seqID
  numbers : (s.committed.map Forward.seq).Nodup
  table : s.server.table.view = Lib.replay Contents.empty (s.committed.map Forward.update)
  acked : (s.acked ++ s.held).Perm s.committed
  links : ∀ j l, s.links[j]? = some l → l.live = true → (l.sent ++ s.owed j).Perm s.committed

/-- A write that leaves the node in state 1 has put the command behind all others. -/
theorem writeTo_live {ok : Bool} {l : Link} (h : (writeTo f ok l).live = true) :
    l.live = true ∧ (writeTo f ok l).sent = l.sent ++ [f] := by
  unfold writeTo at h ⊢
  split at h
  · rename_i hlive
    cases ok with
    | true => exact ⟨hlive, by simp [hlive]⟩
    | false => cases h
  · exact absurd h ‹_›

/-- The primary has passed on the command of the request. -/
theorem sends_of_forwarded {p : Server} {q : Request} {r : Reaction} (hrole : p.primary = true)
    (hr : p.handle q.call = .ok r) (hf : r.forwarded = [f]) : p.sends q = some f := by
  have hsends := (sends_spec hrole hr).1.symm.trans hf
  cases hq : p.sends q <;> rw [hq] at hsends <;> cases hsends
  rfl

theorem inv_step {a : AckAction} (hs : s.Inv) (h : s.step a = some t) : t.Inv := by
  cases does_of_step hs.role h with
  | @commit i q r f hidle hr hf =>
      have hdid := handle_request_cases hs.role hr
      have hsends := sends_of_forwarded hs.role hr hf
      obtain ⟨hseq, hcount⟩ := hdid.seq.2 f (by rw [hf]; exact List.mem_singleton.mpr rfl)
      have hmoves := (sends_spec hs.role hr).2.2 f hsends
      refine ⟨hdid.frame.1.trans hs.role, fun g hg => ?_, ?_, ?_, ?_, fun j l hl hlive => ?_⟩
      · show g.seq ≤ r.server.seqID
        rcases List.mem_append.mp hg with hg | hg
        · exact Int.le_trans (hs.counted g hg) hdid.seq.1
        · rw [List.mem_singleton.mp hg]
          omega
      · -- the new number is above all the others
        rw [List.map_append, List.map_singleton]
        refine List.Nodup.append hs.numbers (List.nodup_singleton _)
          (List.disjoint_singleton.mpr fun hmem => ?_)
        obtain ⟨g, hg, hgf⟩ := List.mem_map.mp hmem
        have := hs.counted g hg
        omega
      · show r.server.table.view = _
        rw [hmoves.view, List.map_append, Lib.replay_append, ← hs.table]
        rfl
      · refine ((held_commit hidle).append_left _).trans ?_
        rw [← List.append_assoc]
        exact hs.acked.append_right _
      · refine ((owed_commit hidle).append_left _).trans ?_
        rw [← List.append_assoc]
        exact (hs.links j l hl hlive).append_right _
  | kept hr hf =>
      have hdid := handle_request_cases hs.role hr
      have hkept := (sends_spec hs.role hr).2.1 (by
        have := (sends_spec hs.role hr).1.symm.trans hf
        exact Option.toList_eq_nil_iff.mp this)
      refine ⟨hdid.frame.1.trans hs.role, fun g hg => Int.le_trans (hs.counted g hg) hdid.seq.1,
        hs.numbers, ?_, hs.acked, hs.links⟩
      rw [hkept]
      exact hs.table
  | @build i job hjob =>
      let job' : PushJob := { job with built := true }
      refine ⟨hs.role, hs.counted, hs.numbers, hs.table, ?_, fun j l hl hlive => ?_⟩
      · exact ((held_on job' hjob rfl).append_left _).trans hs.acked
      · exact ((owed_on job' hjob rfl).append_left _).trans (hs.links j l hl hlive)
  | @write i ok job l hjob hl =>
      refine ⟨hs.role, hs.counted, hs.numbers, hs.table, ?_, fun j l' hl' hlive => ?_⟩
      · exact ((held_on { job with node := job.node + 1 } hjob rfl).append_left _).trans hs.acked
      · rcases eq_or_ne j job.node with rfl | hj
        · rw [List.getElem?_set_self (List.getElem?_eq_some_iff.mp hl).1] at hl'
          cases hl'
          obtain ⟨hlive', hsent⟩ := writeTo_live hlive
          refine List.Perm.trans ?_ (hs.links _ l hl hlive')
          rw [hsent, List.append_assoc]
          exact (List.perm_append_comm.trans (owed_here hjob)).append_left _
        · rw [List.getElem?_set_ne hj.symm] at hl'
          exact ((owed_elsewhere hjob hj).append_left _).trans (hs.links j l' hl' hlive)
  | @reply i job hjob hend =>
      refine ⟨hs.role, hs.counted, hs.numbers, hs.table, ?_, fun j l hl hlive => ?_⟩
      · rw [List.append_assoc]
        refine List.Perm.trans ?_ hs.acked
        exact (List.perm_append_comm.trans (held_reply hjob)).append_left _
      · have hj : j < job.node := hend ▸ (List.getElem?_eq_some_iff.mp hl).1
        exact ((owed_reply hjob hj).append_left _).trans (hs.links j l hl hlive)

theorem inv_start (m n : Nat) : (start m n).Inv := by
  have hnone : ∀ g : Option PushJob → Option Forward, g none = none →
      (start m n).workers.filterMap g = [] := fun g hg => List.filterMap_replicate_of_none hg
  refine ⟨rfl, fun _ h => (nomatch h), List.nodup_nil, Nested.view_empty, ?_,
    fun j l hl hlive => ?_⟩
  · show ([] ++ (start m n).workers.filterMap _).Perm []
    rw [hnone _ rfl]
    exact List.Perm.refl _
  · have hl' : l = {} := List.eq_of_mem_replicate (List.mem_of_getElem? hl)
    show (l.sent ++ (start m n).workers.filterMap _).Perm []
    rw [hnone _ rfl, hl']
    exact List.Perm.refl _

theorem inv_run {m n : Nat} {as : List AckAction} (h : Lib.run step (start m n) as = some s) :
    s.Inv :=
  Lib.inv_of_run (fun _ _ _ => inv_step) (inv_start m n) h

/--
**What is acknowledged is kept.** Whatever the order of the workers' writes, a node
that has not been given up has on its connection each acknowledged command exactly
once, and once it has handled them, one record of it in its log.
-/
theorem acked_once {m n : Nat} {as : List AckAction} (h : Lib.run step (start m n) as = some s) :
    ∀ f ∈ s.acked, ∀ l ∈ s.links, l.live = true → l.sent.count f = 1 ∧
      ∀ r, Lib.run Server.follow { primary := false } l.sent = some r →
        r.log.count f.logged = 1 := by
  intro f hf l hl hlive
  have hs := inv_run h
  obtain ⟨j, hj⟩ := List.mem_iff_getElem?.mp hl
  have hnodup : s.committed.Nodup := hs.numbers.of_map _
  have hcommitted : f ∈ s.committed := hs.acked.subset (List.mem_append_left _ hf)
  have hheld : f ∉ s.held := fun hmem =>
    (List.nodup_append.mp (hs.acked.nodup_iff.mpr hnodup)).2.2 f hf f hmem rfl
  -- nobody has the command in hand any more, so nobody owes it to the node
  have howed : f ∉ s.owed j := fun hmem => hheld (by
    obtain ⟨w, hw, hwf⟩ := List.mem_filterMap.mp hmem
    refine List.mem_filterMap.mpr ⟨w, hw, ?_⟩
    cases w with
    | none => cases hwf
    | some job =>
        rw [owes] at hwf
        split at hwf <;> cases hwf
        rfl)
  have hcount := (hs.links j l hj hlive).count_eq f
  rw [List.count_append, List.count_eq_zero.mpr howed, Nat.add_zero,
    List.count_eq_one_of_mem hnodup hcommitted] at hcount
  refine ⟨hcount, fun r hr => ?_⟩
  rw [(follow_run hr).2, List.nil_append, List.count_map_of_injective _ _ logged_injective, hcount]

/-! ## One key -/

/-- Nobody has two updates of a key in hand, and a node gets the updates of a key in order. -/
structure PerKey (s : Acknowledging) (k : Key) : Prop where
  single : (s.held.filter (·.key = k)).length ≤ 1
  last : ∀ f ∈ s.held, f.key = k → (s.committed.filter (·.key = k)).getLast? = some f
  links : ∀ j l, s.links[j]? = some l → l.live = true →
    l.sent.filter (·.key = k) ++ (s.owed j).filter (·.key = k) = s.committed.filter (·.key = k)

theorem eq_of_perm_short {α : Type} {l m : List α} (h : l.Perm m) (hm : m.length ≤ 1) : l = m := by
  match m, hm with
  | [], _ => exact h.eq_nil
  | [a], _ => exact List.perm_singleton.mp h

theorem owed_sublist (ws : List (Option PushJob)) (j : Nat) :
    (ws.filterMap (owes j)).Sublist (ws.filterMap (Option.map PushJob.command)) := by
  induction ws with
  | nil => exact List.Sublist.refl _
  | cons w ws ih =>
      cases w with
      | none => exact ih
      | some job =>
          simp only [List.filterMap_cons, owes, Option.map_some]
          by_cases hle : job.node ≤ j
          · simpa only [if_pos hle] using ih.cons_cons _
          · simpa only [if_neg hle] using ih.cons _

theorem owed_short {k : Key} (hs : s.PerKey k) (j : Nat) :
    ((s.owed j).filter (·.key = k)).length ≤ 1 :=
  Nat.le_trans ((owed_sublist s.workers j).filter _).length_le hs.single

theorem sends_updates {p : Server} {q : Request} (h : p.sends q = some f) :
    q.updates = some f.key := by
  cases q with
  | get => cases h
  | put =>
      cases h
      rfl
  | cput | delete =>
      rw [Server.sends] at h
      split at h <;> cases h
      rfl

theorem filter_nil_of_settled {k : Key} (hs : s.Settled k) : s.held.filter (·.key = k) = [] :=
  List.filter_eq_nil_iff.mpr fun f hf => by simpa using hs f hf

/-- An action keeps a key in order, if an update of it waits for its turn. -/
theorem perKey_step {a : AckAction} {k : Key} (hI : s.Inv) (hs : s.PerKey k) (ha : a.InTurn s)
    (h : s.step a = some t) : t.PerKey k := by
  cases does_of_step hI.role h with
  | @commit i q r f hidle hr hf =>
      have hsends := sends_of_forwarded hI.role hr hf
      have hheld := (held_commit (f := f) hidle).filter (·.key = k)
      rw [List.filter_append] at hheld
      by_cases hk : f.key = k
      · -- nobody has an update of the key in hand, so the node is owed this one alone
        have hsettled : s.Settled k := hk ▸ ha f.key (by rw [sends_updates hsends]; rfl)
        have hnil := filter_nil_of_settled hsettled
        refine ⟨?_, fun g hg hgk => ?_, fun j l hl hlive => ?_⟩
        · refine Nat.le_trans (Nat.le_of_eq hheld.length_eq) ?_
          rw [hnil, List.nil_append]
          exact List.length_filter_le _ [f]
        · have hone : [f].filter (·.key = k) = [f] := by simp [hk]
          rcases List.mem_append.mp ((held_commit hidle).subset hg) with hg | hg
          · exact absurd hgk (hsettled g hg)
          · rw [List.mem_singleton.mp hg, List.filter_append, hone]
            exact List.getLast?_concat
        · have hlinks := hs.links j l hl hlive
          have howed : (s.owed j).filter (·.key = k) = [] :=
            List.sublist_nil.mp (hnil ▸ (owed_sublist s.workers j).filter _)
          have hnew := (owed_commit (j := j) (f := f) hidle).filter (·.key = k)
          rw [List.filter_append, howed, List.nil_append] at hnew
          rw [howed, List.append_nil] at hlinks
          show l.sent.filter _ ++ (List.filterMap (owes j) _).filter _
            = (s.committed ++ [f]).filter _
          rw [List.filter_append, ← hlinks, eq_of_perm_short hnew (List.length_filter_le _ [f])]
      · have hnone : [f].filter (·.key = k) = [] := by simp [hk]
        rw [hnone, List.append_nil] at hheld
        refine ⟨Nat.le_trans (Nat.le_of_eq hheld.length_eq) hs.single, fun g hg hgk => ?_,
          fun j l hl hlive => ?_⟩
        · show ((s.committed ++ [f]).filter _).getLast? = _
          rw [List.filter_append, hnone, List.append_nil]
          rcases List.mem_append.mp ((held_commit hidle).subset hg) with hg | hg
          · exact hs.last g hg hgk
          · exact absurd (List.mem_singleton.mp hg ▸ hgk) hk
        have hnew := (owed_commit (j := j) (f := f) hidle).filter (·.key = k)
        rw [List.filter_append, hnone, List.append_nil] at hnew
        show l.sent.filter _ ++ (List.filterMap (owes j) _).filter _ = (s.committed ++ [f]).filter _
        rw [List.filter_append, hnone, List.append_nil, eq_of_perm_short hnew (owed_short hs j)]
        exact hs.links j l hl hlive
  | kept => exact ⟨hs.single, hs.last, hs.links⟩
  | @build i job hjob =>
      have hheld := held_on { job with built := true } hjob rfl
      refine ⟨Nat.le_trans (Nat.le_of_eq (hheld.filter _).length_eq) hs.single,
        fun g hg => hs.last g (hheld.subset hg), fun j l hl hlive => ?_⟩
      have hnew := (owed_on (j := j) { job with built := true } hjob rfl).filter (·.key = k)
      rw [← hs.links j l hl hlive]
      exact congrArg (l.sent.filter (·.key = k) ++ ·) (eq_of_perm_short hnew (owed_short hs j))
  | @write i ok job l hjob hl =>
      have hheld := held_on { job with node := job.node + 1 } hjob rfl
      refine ⟨Nat.le_trans (Nat.le_of_eq (hheld.filter _).length_eq) hs.single,
        fun g hg => hs.last g (hheld.subset hg), fun j l' hl' hlive => ?_⟩
      rcases eq_or_ne j job.node with rfl | hj
      · rw [List.getElem?_set_self (List.getElem?_eq_some_iff.mp hl).1] at hl'
        cases hl'
        obtain ⟨hlive', hsent⟩ := writeTo_live hlive
        have hnew := (owed_here hjob).filter (·.key = k)
        rw [List.filter_append] at hnew
        rw [← hs.links _ l hl hlive', hsent, List.filter_append, List.append_assoc]
        exact congrArg (l.sent.filter (·.key = k) ++ ·)
          (eq_of_perm_short (List.perm_append_comm.trans hnew) (owed_short hs _))
      · rw [List.getElem?_set_ne hj.symm] at hl'
        have hnew := (owed_elsewhere hjob hj).filter (·.key = k)
        rw [← hs.links j l' hl' hlive]
        exact congrArg (l'.sent.filter (·.key = k) ++ ·) (eq_of_perm_short hnew (owed_short hs j))
  | @reply i job hjob hend =>
      have hheld := (held_reply hjob).filter (·.key = k)
      rw [List.filter_append] at hheld
      refine ⟨?_, fun g hg => hs.last g ((held_reply hjob).subset (List.mem_append_left _ hg)),
        fun j l hl hlive => ?_⟩
      · have hlength := hheld.length_eq
        rw [List.length_append] at hlength
        exact Nat.le_trans (Nat.le_add_right _ _) (hlength ▸ hs.single)
      · have hnew :=
          (owed_reply hjob (hend ▸ (List.getElem?_eq_some_iff.mp hl).1)).filter (·.key = k)
        rw [← hs.links j l hl hlive]
        exact congrArg (l.sent.filter (·.key = k) ++ ·) (eq_of_perm_short hnew (owed_short hs j))

theorem perKey_start (m n : Nat) (k : Key) : (start m n).PerKey k := by
  have hnone : ∀ g : Option PushJob → Option Forward, g none = none →
      (start m n).workers.filterMap g = [] := fun g hg => List.filterMap_replicate_of_none hg
  have hheld : (start m n).held = [] := hnone _ rfl
  refine ⟨?_, fun f hf => ?_, fun j l hl _ => ?_⟩
  · rw [hheld]
    exact Nat.zero_le _
  · rw [hheld] at hf
    cases hf
  · rw [owed, hnone _ rfl, List.eq_of_mem_replicate (List.mem_of_getElem? hl)]
    rfl

/-- **No value is deleted before it is read** where the updates of each key are in turn. -/
theorem readable_of_inTurn {m n : Nat} {as : List AckAction}
    (hg : Lib.Guarded step AckAction.InTurn (start m n) as)
    (h : Lib.run step (start m n) as = some s) : ∀ f ∈ s.held, s.Readable f := by
  intro f hf
  obtain ⟨-, hs⟩ := Lib.inv_of_guarded (I := fun s => s.Inv ∧ s.PerKey f.key)
    (fun _ _ _ hs ha h => ⟨inv_step hs.1 h, perKey_step hs.1 hs.2 ha h⟩)
    ⟨inv_start m n, perKey_start m n f.key⟩ hg h
  have hlast := hs.last f hf rfl
  cases f with
  | put => exact hlast
  | delete => trivial

theorem filter_updates (fs : List Forward) (k : Key) :
    (fs.map Forward.update).filter (·.1 = k) = (fs.filter (·.key = k)).map Forward.update := by
  rw [List.filter_map]
  refine congrArg (List.map Forward.update) (List.filter_congr fun f _ => ?_)
  simp only [Function.comp, update_key]

/--
**A node that takes over has the value of the key.** Where the updates of each key
are committed one after another, the writes to the nodes in any order, a node that
has not been given up and has handled its commands holds, for each key that no
worker has in hand, what the primary holds.
-/
theorem takes_over {m n : Nat} {as : List AckAction}
    (hg : Lib.Guarded step AckAction.InTurn (start m n) as)
    (h : Lib.run step (start m n) as = some s) {l : Link} (hl : l ∈ s.links) (hlive : l.live = true)
    {r : Server} (hr : Lib.run Server.follow { primary := false } l.sent = some r) {k : Key}
    (hk : s.Settled k) : r.table.view k = s.server.table.view k := by
  obtain ⟨hI, hs⟩ := Lib.inv_of_guarded (I := fun s => s.Inv ∧ s.PerKey k)
    (fun _ _ _ hs ha h => ⟨inv_step hs.1 h, perKey_step hs.1 hs.2 ha h⟩)
    ⟨inv_start m n, perKey_start m n k⟩ hg h
  obtain ⟨j, hj⟩ := List.mem_iff_getElem?.mp hl
  have hlinks := hs.links j l hj hlive
  have howed : (s.owed j).filter (·.key = k) = [] :=
    List.sublist_nil.mp (filter_nil_of_settled hk ▸ (owed_sublist s.workers j).filter _)
  rw [howed, List.append_nil] at hlinks
  rw [(follow_run hr).1, hI.table, Nested.view_empty, Lib.replay_filter, filter_updates, hlinks,
    Lib.replay_filter (s.committed.map _), filter_updates]

/-- Two workers update two keys, and the nodes get the commands in different orders. -/
def crossedRun : List AckAction :=
  [.commit 0 (.put ['a'] ['x'] ['1']), .commit 1 (.put ['b'] ['y'] ['2']), .build 1, .write 1 true,
    .build 0, .write 0 true, .write 0 true, .write 1 true, .reply 0, .reply 1,
    .commit 0 (.delete ['a'] ['x']), .build 0, .write 0 true, .write 0 false, .reply 0]

theorem crossedRun_acked : ∃ s, Lib.run step (start 2 2) crossedRun = some s ∧
    ∀ f ∈ s.acked, ∀ l ∈ s.links, l.live = true → l.sent.count f = 1 ∧
      ∀ r, Lib.run Server.follow { primary := false } l.sent = some r → r.log.count f.logged = 1 :=
  ⟨_, rfl, acked_once (m := 2) (n := 2) (rfl : Lib.run step (start 2 2) crossedRun = some _)⟩

theorem crossedRun_takes_over : ∃ s l r, Lib.run step (start 2 2) crossedRun = some s ∧
    l ∈ s.links ∧ Lib.run Server.follow { primary := false } l.sent = some r ∧
    r.table.view (['b'], ['y']) = s.server.table.view (['b'], ['y']) :=
  ⟨_, _, _, rfl, List.mem_cons_self, rfl, takes_over (m := 2) (n := 2)
    (by decide : Lib.Guarded step AckAction.InTurn (start 2 2) crossedRun) rfl
      List.mem_cons_self rfl
    rfl (by decide)⟩

end Acknowledging

end PennCloud
