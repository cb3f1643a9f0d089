import PennCloud.Lib.Runs
import PennCloud.Store.Disk
import PennCloud.Store.Handlers

/-!
# Sequence numbers

A data server numbers its updates with `seqID`, in either role, and writes the
numbers into its log and its checkpoint file. The counter covers both in every
state, except after two kinds of step: a replicated `DELETE` is logged under its
own number without `updateSeq`, which a replicated `PUT` calls first; and a
restart counts from zero, since neither `recoverCheckpoint` nor `recoverLog`
looks at the numbers it reads.
-/

namespace PennCloud

open Str

/-- What happens to a data server. -/
inductive ServerAction
  /-- A client request, on a primary. -/
  | request (q : Request)
  /-- A command from the primary, on a replica. -/
  | replicated (f : Forward)
  /-- `writeToDisk`. -/
  | checkpoint
  /-- A crash, and a start with `-r` from the files. -/
  | recovery
  /-- A `PROMOTE` that names this server. -/
  | promote

namespace Server

/-- `writeToDisk`, all of it. -/
def writeToDisk (s : Server) : Server :=
  { s with checkpoint := some { version := s.seqID, table := s.table }, log := [] }

/-- A new process on the old files: `ServerState` starts from zero, as no primary. -/
def restarted (s : Server) : Server := { s with primary := false, seqID := 0, table := s.recovered }

/-- One action of a data server. -/
def act (s : Server) : ServerAction → Option Server
  | .request q =>
    if s.primary then (s.handle q.call).toOption.map Reaction.server else none
  | .replicated f =>
    if s.primary then none else (s.handle f.call).toOption.map Reaction.server
  | .checkpoint => some s.writeToDisk
  | .recovery => some s.restarted
  | .promote => some { s with primary := true }

/-- The numbers a server has logged or checkpointed. -/
def numbers (s : Server) : List Int :=
  s.log.map LogRecord.seq ++ (s.checkpoint.map Checkpoint.version).toList

/-- `seqID` covers every number in the files. -/
def Covered (s : Server) : Prop := ∀ n ∈ s.numbers, n ≤ s.seqID

/-- The next number to be issued, to a `PUT` or to a `DELETE`, is a new one. -/
def IssuesNew (s : Server) : Prop :=
  ∀ n ∈ s.numbers, ∀ data row col,
    n < (s.putToLog data row col).2 ∧ n < (s.deleteToLog row col).2

end Server

/-- The condition on an action: no unannounced `DELETE`, no restart on numbered files. -/
def ServerAction.Counted (s : Server) : ServerAction → Prop
  | .replicated (.delete _ _ seq) => seq ≤ s.seqID
  | .recovery => ∀ n ∈ s.numbers, n ≤ 0
  | _ => True

instance (s : Server) : DecidablePred (ServerAction.Counted s) := fun a => by
  unfold ServerAction.Counted
  split <;> infer_instance

theorem issuesNew_of_covered {s : Server} (h : s.Covered) : s.IssuesNew := fun n hn _ _ _ =>
  ⟨Int.lt_add_one_of_le (h n hn), Int.lt_add_one_of_le (h n hn)⟩

/-- A request that is taken has been handled, by a primary. -/
theorem act_request {s t : Server} {q : Request} (h : s.act (.request q) = some t) :
    s.primary = true ∧ ∃ r, s.handle q.call = .ok r ∧ t = r.server := by
  rw [Server.act] at h
  split at h
  · rename_i hp
    obtain ⟨r, hh, rfl⟩ := map_toOption_some h
    exact ⟨hp, r, hh, rfl⟩
  · cases h

/-- A command that is taken has been followed, by a replica. -/
theorem act_replicated {s t : Server} {f : Forward} (h : s.act (.replicated f) = some t) :
    s.primary = false ∧ Followed s f t := by
  rw [Server.act] at h
  split at h
  · cases h
  · rename_i hp
    obtain ⟨r, hh, rfl⟩ := map_toOption_some h
    exact ⟨Bool.eq_false_iff.mpr hp, handle_forward_cases hh⟩

/-! ## What each kind of step does to the numbers -/

/-- One more record, under a number at least the counter's old value. -/
theorem covered_logged {s t : Server} (hs : s.Covered) {r : LogRecord}
    (hlog : t.log = s.log ++ [r]) (hckpt : t.checkpoint = s.checkpoint) (hseq : s.seqID ≤ t.seqID) :
    t.Covered ↔ r.seq ≤ t.seqID := by
  have hnumbers : ∀ n, n ∈ t.numbers ↔ n ∈ s.numbers ∨ n = r.seq := by
    intro n
    simp only [Server.numbers, hlog, hckpt, List.map_append, List.map_cons, List.map_nil,
      List.mem_append, List.mem_singleton]
    tauto
  constructor
  · intro h
    exact h _ ((hnumbers _).mpr (Or.inr rfl))
  · intro h n hn
    rcases (hnumbers n).mp hn with hn | rfl
    · exact Int.le_trans (hs n hn) hseq
    · exact h

theorem covered_request {s : Server} (hp : s.primary = true) (hs : s.Covered) {q : Request}
    {r : Reaction} (h : s.handle q.call = .ok r) : r.server.Covered := by
  have hgrow : s.seqID ≤ s.seqID + 1 := by omega
  cases handle_request_cases hp h with
  | stored row col data hw hnull hcput hr =>
      subst hr
      exact (covered_logged (t := s.stored row col data) hs rfl rfl hgrow).mpr (Int.le_refl _)
  | erased row col d hq hat hr =>
      subst hr
      exact (covered_logged (t := s.erased row col) hs rfl rfl hgrow).mpr (Int.le_refl _)
  | missed row col hq hat hserver =>
      rw [hserver]
      exact (covered_logged (t := (s.deleteToLog row col).1) hs rfl rfl hgrow).mpr (Int.le_refl _)
  | kept hq hserver => rw [hserver]; exact hs

/-- A replicated `PUT` brings the counter up to its number first; a `DELETE` does not. -/
theorem covered_replicated {s t : Server} (hs : s.Covered) {f : Forward} (h : Followed s f t) :
    t.Covered ↔ ServerAction.Counted s (.replicated f) := by
  cases h with
  | stored row col data seq hf ht =>
      subst hf ht
      refine iff_of_true ?_ trivial
      exact (covered_logged (t := { (s.updateSeq seq).putToLogAt seq data row col with
        table :=
          s.table.set row col data }) hs rfl rfl (Int.le_max_left ..)).mpr (Int.le_max_right ..)
  | erased row col d seq hf hat ht =>
      subst hf ht
      exact covered_logged hs (r := .delete seq row col) rfl rfl (Int.le_refl _)
  | missed row col seq hf hat ht =>
      subst hf ht
      exact covered_logged hs (r := .delete seq row col) rfl rfl (Int.le_refl _)

theorem covered_writeToDisk (s : Server) : s.writeToDisk.Covered := by
  intro n hn
  have hn' : n = s.seqID := by simpa [Server.writeToDisk, Server.numbers] using hn
  exact hn' ▸ Int.le_refl _

/-- **One step keeps the numbers covered exactly under its condition.** -/
theorem covered_step {s t : Server} {a : ServerAction} (hs : s.Covered) (h : s.act a = some t) :
    t.Covered ↔ a.Counted s := by
  cases a with
  | request q =>
      obtain ⟨hp, r, hh, rfl⟩ := act_request h
      exact iff_of_true (covered_request hp hs hh) trivial
  | replicated f => exact covered_replicated hs (act_replicated h).2
  | checkpoint =>
      cases h
      exact iff_of_true (covered_writeToDisk s) trivial
  | recovery =>
      cases h
      exact Iff.rfl
  | promote =>
      cases h
      exact iff_of_true hs trivial

/--
**Sequence numbers are covered in every state of a run if and only if** no
replicated `DELETE` carries a number above the counter and no restart finds a
positive number in its files; and where they are covered the next number is new.
-/
theorem covered_iff_counted {primary : Bool} {as : List ServerAction} {u : Server}
    (hr : Lib.run Server.act { primary := primary } as = some u) :
    Lib.Always Server.act (fun s => s.Covered ∧ s.IssuesNew) { primary := primary } as ↔
      Lib.Guarded Server.act (fun s a => a.Counted s) { primary := primary } as := by
  have hstart : ({ primary := primary } : Server).Covered := fun n hn => by cases hn
  refine Lib.always_iff_guarded (fun s a t hs h => ?_)
    ⟨hstart, issuesNew_of_covered hstart⟩ hr
  exact ⟨fun ht => (covered_step hs.1 h).mp ht.1, fun ha =>
    have ht := (covered_step hs.1 h).mpr ha
    ⟨ht, issuesNew_of_covered ht⟩⟩

/-- A replica that is promoted, numbers updates of its own and writes a checkpoint. -/
def countedHistory : List ServerAction :=
  [.recovery, .replicated (.put ['a'] ['x'] ['1'] 5), .replicated (.delete ['a'] ['x'] 4), .promote,
   .request (.put ['b'] ['x'] ['2']), .checkpoint, .request (.delete ['b'] ['x'])]

theorem countedHistory_covered :
    Lib.Always Server.act (fun s => s.Covered ∧ s.IssuesNew) { primary := false } countedHistory :=
  (covered_iff_counted (u := _) rfl).mpr (by decide)

/-- A replica takes over right after a replicated `DELETE`. -/
def failover : List ServerAction :=
  [.replicated (.delete ['a'] ['x'] 1), .promote]

/-- After `failover` the record of the `DELETE` is above the counter, which issues its
number again. -/
theorem failover_not_covered :
    ∃ t, Lib.run Server.act { primary := false } failover = some t ∧ ¬ t.Covered ∧
      (t.putToLog ['2'] ['b'] ['x']).2 = 1 ∧ t.log = [.delete 1 ['a'] ['x']] := by
  refine ⟨_, rfl, fun h => ?_, rfl, rfl⟩
  exact absurd (h 1 (by decide)) (by decide)

end PennCloud
