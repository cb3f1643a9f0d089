import PennCloud.Concurrent.Recovery

/-!
# Checkpoints while replicas recover

`parse_RECOVERY` pauses the checkpoints of the primary and `parse_READY` resumes
them, through one flag for all replicas. The checkpoint thread tests the flag and
then calls `writeToDisk`, which ends by truncating the log. `Sealed` is what the
pausing is for: from a replica's `RECOVERY` to that replica's `READY` the log is
not truncated.

Two schedules break it. A `RECOVERY` may come after the thread's test, and the
`READY` of one replica may resume the checkpoints while another still recovers.
-/

namespace PennCloud

/-- The primary as its recovering replicas and its checkpoint thread see it. -/
structure Pausing where
  primary : Primary := Primary.start
  /-- `ServerState::canCheckpoint`. -/
  canCheckpoint : Bool := true
  /-- The checkpoint thread has made its test and not finished yet. -/
  checkpointing : Bool := false
  /-- The replicas whose `RECOVERY` has been handled and whose `READY` has not. -/
  recovering : List Addr := []

/-- What can happen. -/
inductive PausingAction
  /-- A client request. -/
  | request (q : Request)
  /-- `parse_RECOVERY`: `pauseCheckpoint`. -/
  | recovery (x : Addr)
  /-- `parse_READY`: `resumeCheckpoint`. -/
  | ready (x : Addr)
  /-- The thread wakes up and calls `canCheckpointStatus`. -/
  | testCheckpoint
  /-- `writeToDisk` cannot open `tem.txt` and returns. -/
  | openFails
  /-- A file operation of `writeToDisk`. -/
  | disk (a : PrimaryAction)

namespace Pausing

/-- One action. -/
def step (s : Pausing) : PausingAction → Option Pausing
  | .request q => (s.primary.step (.request q)).map fun p => { s with primary := p }
  | .recovery x => some { s with canCheckpoint := false, recovering := x :: s.recovering }
  | .ready x => some { s with
      canCheckpoint := true, recovering := s.recovering.filter (· ≠ x) }
  | .testCheckpoint =>
    if s.checkpointing then none else some { s with checkpointing := s.canCheckpoint }
  | .openFails =>
    if s.checkpointing ∧ s.primary.phase = .idle then some { s with checkpointing := false }
    else none
  | .disk a =>
    if a.isDisk && s.checkpointing then
      (s.primary.step a).map fun p => { s with primary := p, checkpointing := !a.isLast }
    else none

end Pausing

/-- The log is not truncated between a replica's `RECOVERY` and its `READY`. -/
def Sealed (as : List PausingAction) : Prop :=
  ∀ before x mid after, as = before ++ .recovery x :: (mid ++ after) →
    .ready x ∉ mid → .disk .truncateLog ∉ mid

/--
The condition on an action: no `RECOVERY` between the thread's test and its
truncation, and no test while a replica recovers and the flag is set.
-/
def PausingAction.Apart (s : Pausing) : PausingAction → Prop
  | .recovery _ => s.checkpointing = false
  | .testCheckpoint => s.canCheckpoint = true → s.recovering = []
  | _ => True

instance (s : Pausing) : DecidablePred (PausingAction.Apart s)
  | .recovery _ => inferInstanceAs (Decidable (s.checkpointing = false))
  | .testCheckpoint => inferInstanceAs (Decidable (s.canCheckpoint = true → s.recovering = []))
  | .request _ | .ready _ | .openFails | .disk _ => .isTrue trivial

namespace Pausing

/-- The invariant: the checkpoint thread is at rest while a replica recovers. -/
def Quiet (s : Pausing) : Prop := s.recovering ≠ [] → s.checkpointing = false

variable {s t : Pausing} {a : PausingAction}

/-- What an action does to the two flags that matter. -/
theorem step_flags (h : s.step a = some t) :
    (∃ x, a = .recovery x ∧ t.checkpointing = s.checkpointing ∧
      t.recovering = x :: s.recovering) ∨
    (∃ x, a = .ready x ∧ t.checkpointing = s.checkpointing ∧
      t.recovering = s.recovering.filter (· ≠ x)) ∨
    (a = .testCheckpoint ∧ t.checkpointing = s.canCheckpoint ∧ t.recovering = s.recovering) ∨
    ((∃ b, a = .disk b) ∧ s.checkpointing = true ∧ t.recovering = s.recovering) ∨
    ((t.checkpointing = true → s.checkpointing = true) ∧ (∀ x, a ≠ .recovery x) ∧
      t.recovering = s.recovering) := by
  cases a with
  | recovery x =>
      cases h
      exact Or.inl ⟨x, rfl, rfl, rfl⟩
  | ready x =>
      cases h
      exact Or.inr (Or.inl ⟨x, rfl, rfl, rfl⟩)
  | testCheckpoint =>
      rw [step] at h
      split at h
      · cases h
      · cases h
        exact Or.inr (Or.inr (Or.inl ⟨rfl, rfl, rfl⟩))
  | disk b =>
      rw [step] at h
      split at h
      · rename_i hcond
        rw [Bool.and_eq_true] at hcond
        obtain ⟨p, -, rfl⟩ := Option.map_eq_some_iff.mp h
        exact Or.inr (Or.inr (Or.inr (Or.inl ⟨⟨b, rfl⟩, hcond.2, rfl⟩)))
      · cases h
  | request q =>
      obtain ⟨p, -, rfl⟩ := Option.map_eq_some_iff.mp h
      exact Or.inr (Or.inr (Or.inr (Or.inr ⟨id, by simp, rfl⟩)))
  | openFails =>
      rw [step] at h
      split at h
      · cases h
        exact Or.inr (Or.inr (Or.inr (Or.inr ⟨by simp, by simp, rfl⟩)))
      · cases h

/-- **An action keeps the thread at rest** under its condition. -/
theorem quiet_step (hs : s.Quiet) (ha : a.Apart s) (h : s.step a = some t) : t.Quiet := by
  intro hrec
  rcases step_flags h with ⟨x, rfl, hck, -⟩ | ⟨x, rfl, hck, hr⟩ | ⟨rfl, hck, hr⟩ |
    ⟨⟨b, rfl⟩, hck, hr⟩ | ⟨hck, -, hr⟩
  · exact hck.trans ha
  · refine hck.trans (hs fun hnil => hrec ?_)
    rw [hr, hnil, List.filter_nil]
  · -- the test has failed, or nobody recovers
    rw [hck, Bool.eq_false_iff]
    intro hcan
    exact hrec (hr.trans (ha hcan))
  · rw [hr] at hrec
    exact absurd (hck.symm.trans (hs hrec)) (by simp)
  · rw [hr] at hrec
    rw [Bool.eq_false_iff]
    intro htrue
    exact absurd ((hck htrue).symm.trans (hs hrec)) (by simp)

/-- A replica recovers until its `READY`. -/
theorem recovering_step {x : Addr} (hx : x ∈ s.recovering) (ha : a ≠ .ready x)
    (h : s.step a = some t) : x ∈ t.recovering := by
  rcases step_flags h with ⟨y, rfl, -, hr⟩ | ⟨y, rfl, -, hr⟩ | ⟨rfl, -, hr⟩
    | ⟨-, -, hr⟩ | ⟨-, -, hr⟩
  · exact hr ▸ List.mem_cons_of_mem _ hx
  · rw [hr, List.mem_filter]
    exact ⟨hx, by simpa using fun hxy : x = y => ha (hxy ▸ rfl)⟩
  · exact hr ▸ hx
  · exact hr ▸ hx
  · exact hr ▸ hx

/-- While a replica recovers, nothing is truncated. -/
theorem window_sealed {x : Addr} : ∀ {mid : List PausingAction} {s t : Pausing}, s.Quiet →
    x ∈ s.recovering → Lib.Guarded step PausingAction.Apart s mid →
    Lib.run step s mid = some t → .ready x ∉ mid → .disk .truncateLog ∉ mid
  | [], _, _, _, _, _, _, _ => List.not_mem_nil
  | a :: mid, s, u, hs, hx, hg, hr, hready => by
      obtain ⟨t, ht, hu⟩ := Lib.run_cons hr
      rw [List.mem_cons, not_or] at hready ⊢
      refine ⟨?_, window_sealed (quiet_step hs hg.1 ht)
        (recovering_step hx (fun he => hready.1 he.symm) ht) (hg.2 t ht) hu hready.2⟩
      intro ha
      subst ha
      -- the thread would have to be at work
      have hrest := hs (List.ne_nil_of_mem hx)
      rw [step, hrest] at ht
      cases ht

end Pausing

/-- **If every action keeps its condition, no log is truncated under a recovering replica.** -/
theorem sealed_of_apart {as : List PausingAction} {t : Pausing}
    (hg : Lib.Guarded Pausing.step PausingAction.Apart {} as)
    (hr : Lib.run Pausing.step {} as = some t) : Sealed as := by
  intro before x mid after has hready
  subst has
  rw [Lib.run_append] at hr
  obtain ⟨s, hs, hr⟩ := Option.bind_eq_some_iff.mp hr
  obtain ⟨hbefore, hg⟩ := hg.append hs
  have hquiet : s.Quiet :=
    Lib.inv_of_guarded (fun _ _ _ => Pausing.quiet_step) (fun h => absurd rfl h) hbefore hs
  obtain ⟨u, hu, hr⟩ := Lib.run_cons hr
  have hg' := hg.2 u hu
  rw [Lib.run_append] at hr
  obtain ⟨v, hv, -⟩ := Option.bind_eq_some_iff.mp hr
  refine Pausing.window_sealed (x := x) (Pausing.quiet_step hquiet hg.1 hu) ?_
    (hg'.append hv).1 hv hready
  cases hu
  exact List.mem_cons_self

/-- Two recoveries that overlap, and a checkpoint before and after them. -/
def overlapping (x y : Addr) : List PausingAction :=
  [.testCheckpoint, .disk .writeTemp, .disk .rename, .disk .truncateLog,
   .recovery x, .testCheckpoint, .recovery y, .ready x,
   .recovery x, .testCheckpoint, .ready y, .ready x,
   .testCheckpoint, .disk .writeTemp, .disk .rename, .disk .truncateLog]

theorem overlapping_sealed : Sealed (overlapping (loopback 5000) (loopback 5001)) := by
  have hrun : (Lib.run Pausing.step {}
      (overlapping (loopback 5000) (loopback 5001))).isSome = true := by decide +kernel
  obtain ⟨t, ht⟩ := Option.isSome_iff_exists.mp hrun
  exact sealed_of_apart (by decide +kernel) ht

/-- The `READY` of one replica resumes the checkpoints while the other still recovers. -/
def resumedEarly (x y : Addr) : List PausingAction :=
  [.recovery x, .recovery y, .ready x, .testCheckpoint,
   .disk .writeTemp, .disk .rename, .disk .truncateLog]

/-- A `RECOVERY` between the test and the checkpoint. -/
def pausedLate (x : Addr) : List PausingAction :=
  [.testCheckpoint, .recovery x, .disk .writeTemp, .disk .rename, .disk .truncateLog]

/-- Either way the log is truncated under a replica that is recovering. -/
theorem truncated_while_recovering :
    ((Lib.run Pausing.step {} (resumedEarly (loopback 5000) (loopback 5001))).isSome = true ∧
      ¬ Sealed (resumedEarly (loopback 5000) (loopback 5001))) ∧
    (Lib.run Pausing.step {} (pausedLate (loopback 5000))).isSome = true ∧
    ¬ Sealed (pausedLate (loopback 5000)) := by
  refine ⟨⟨by decide +kernel, fun h => ?_⟩, by decide +kernel, fun h => ?_⟩
  · exact h [.recovery (loopback 5000)] (loopback 5001)
      [.ready (loopback 5000), .testCheckpoint, .disk .writeTemp, .disk .rename, .disk .truncateLog]
      [] rfl (by simp [loopback]) (by simp)
  · exact h [.testCheckpoint] (loopback 5000) [.disk .writeTemp, .disk .rename, .disk .truncateLog]
      [] rfl (by simp) (by simp)

end PennCloud
