import PennCloud.Lib.Runs
import PennCloud.Lib.Threads
import Mathlib.Data.List.Perm.Subperm

/-!
# Handing a connection to its thread

The frontend and the SMTP server start a thread for each connection they accept,
and give it the address of the variable that `accept` has just been assigned to.
The thread reads the descriptor through that address when it comes to run, and
closes it at its end; by then the main loop may have accepted the next connection
into the same variable.

Every connection that is open has one thread that serves it or is going to, as
long as no connection is accepted before the last thread has read its own; and
only as long. A descriptor that is closed may be given out again.
-/

namespace PennCloud

/-- Where a thread stands in `handle_connection`, or in `worker_thread`. -/
inductive HandlerPc
  /-- About to read its descriptor. -/
  | created
  | serving (fd : Nat)
  | returned
  deriving DecidableEq

/-- The main loop, its variable, and the threads. -/
structure HandOver where
  /-- `client_fd`, or `fd`. -/
  slot : Nat := 0
  /-- A connection has been accepted, and its thread not been created yet. -/
  creating : Bool := false
  threads : List HandlerPc := []
  /-- The descriptors of the connections that are open. -/
  opened : List Nat := []
  deriving DecidableEq

inductive HandOverAction
  /-- `accept` returns `fd`. -/
  | accept (fd : Nat)
  /-- `pthread_create`. -/
  | create
  /-- Thread `i` reads its descriptor. -/
  | read (i : Nat)
  /-- Thread `i` closes it. -/
  | close (i : Nat)

namespace HandOver

/-- One action; `accept` returns a descriptor that is not in use. -/
def step (s : HandOver) : HandOverAction → Option HandOver
  | .accept fd =>
    if s.creating = false ∧ fd ∉ s.opened then
      some { s with slot := fd, creating := true, opened := s.opened ++ [fd] }
    else none
  | .create =>
    if s.creating then some { s with creating := false, threads := s.threads ++ [.created] }
      else none
  | .read i =>
    if s.threads[i]? = some .created then
      some { s with threads := s.threads.set i (.serving s.slot) }
    else none
  | .close i =>
    match s.threads[i]? with
    | some (.serving fd) => some { s with
        threads := s.threads.set i .returned, opened := s.opened.erase fd }
    | _ => none

/-- The descriptor a thread serves, or will if it reads it now. -/
def descriptor (slot : Nat) : HandlerPc → Option Nat
  | .created => some slot
  | .serving fd => some fd
  | .returned => none

/-- The descriptors that have a thread, the one to be created included. -/
def served (s : HandOver) : List Nat :=
  s.threads.filterMap (descriptor s.slot) ++ if s.creating then [s.slot] else []

/-- Each open connection has one thread. -/
def OneEach (s : HandOver) : Prop := s.served.Perm s.opened

/-- A connection is accepted when the threads before it have read theirs. -/
def Read (s : HandOver) : HandOverAction → Prop
  | .accept _ => .created ∉ s.threads
  | _ => True

instance (s : HandOver) : DecidablePred (Read s)
  | .accept _ => inferInstanceAs (Decidable (_ ∉ _))
  | .create | .read _ | .close _ => .isTrue trivial

variable {s t : HandOver} {fd : Nat}

/-- Where everybody has read, the variable does not matter. -/
theorem descriptors_of_read (h : .created ∉ s.threads) (slot : Nat) :
    s.threads.filterMap (descriptor slot) = s.threads.filterMap (descriptor s.slot) := by
  refine List.filterMap_congr fun p hp => ?_
  cases p with
  | created => exact absurd hp h
  | serving | returned => rfl

/-- **A connection that is accepted too early** takes its thread from another one. -/
theorem accept_iff (hs : s.OneEach) (hidle : s.creating = false) (hnew : fd ∉ s.opened) :
    OneEach { s with slot := fd, creating := true, opened := s.opened ++ [fd] } ↔
      .created ∉ s.threads := by
  have hserved : s.served = s.threads.filterMap (descriptor s.slot) := by
    rw [served, hidle]
    exact List.append_nil _
  unfold OneEach at hs ⊢
  rw [hserved] at hs
  constructor
  · intro h hcreated
    -- the thread's own descriptor is served by nobody, and the new one twice
    have hcount : (s.threads.filterMap (descriptor fd) ++ [fd]).count fd =
        (s.opened ++ [fd]).count fd := h.count_eq fd
    have hmem : fd ∈ s.threads.filterMap (descriptor fd) :=
      List.mem_filterMap.mpr ⟨_, hcreated, rfl⟩
    have hpos := List.count_pos_iff.mpr hmem
    have hzero := List.count_eq_zero.mpr hnew
    rw [List.count_append, List.count_append, hzero] at hcount
    omega
  · intro hread
    show (s.threads.filterMap (descriptor fd) ++ [fd]).Perm _
    rw [descriptors_of_read hread]
    exact hs.append_right _

theorem oneEach_step {a : HandOverAction} (hs : s.OneEach) (h : s.step a = some t) :
    t.OneEach ↔ Read s a := by
  cases a with
  | accept fd =>
      rw [step] at h
      split at h <;> cases h
      rename_i hif
      exact accept_iff hs hif.1 hif.2
  | create =>
      rw [step] at h
      split at h <;> cases h
      rename_i hcreating
      refine iff_of_true ?_ trivial
      unfold OneEach served at hs ⊢
      rw [if_pos hcreating] at hs
      simpa [descriptor] using hs
  | read i =>
      rw [step] at h
      split at h <;> cases h
      rename_i hi
      refine iff_of_true ?_ trivial
      have hset := Lib.Threads.filterMap_set (.serving s.slot) (descriptor s.slot) hi
      exact (((List.perm_append_right_iff _).mp hset).append_right _).trans hs
  | close i =>
      rw [step] at h
      split at h <;> cases h
      rename_i fd hi
      refine iff_of_true ?_ trivial
      have hset := Lib.Threads.filterMap_set .returned (descriptor s.slot) hi
      simp only [descriptor, Option.toList_some, Option.toList_none, List.append_nil] at hset
      unfold OneEach served at hs ⊢
      have hperm :=
        (List.perm_append_comm.trans hset).append_right (if s.creating then [s.slot] else [])
      exact (List.cons_perm_iff_perm_erase.mp ((hperm.trans hs))).2

/--
**Every connection has one thread**, in all states of a run, exactly if each of
them is accepted after the threads before it have read their descriptors.
-/
theorem oneEach_iff_read {as : List HandOverAction} (h : Lib.run step {} as = some s) :
    Lib.Always step OneEach {} as ↔ Lib.Guarded step Read {} as :=
  Lib.always_iff_guarded (fun _ _ _ hs h => oneEach_step hs h) (List.Perm.refl _) h

/-- The second connection is accepted when the first thread has read, and its descriptor is
used again. -/
def inTime : List HandOverAction :=
  [.accept 4, .create, .read 0, .accept 5, .create, .close 0, .read 1, .accept 4, .create, .read 2]

theorem inTime_oneEach : Lib.Always step OneEach {} inTime := by
  have hrun : (Lib.run step {} inTime).isSome = true := by decide
  obtain ⟨s, hs⟩ := Option.isSome_iff_exists.mp hrun
  exact (oneEach_iff_read hs).mpr (by decide)

/-- Both threads read the second descriptor, and the first connection stays open without
a thread. -/
theorem late_read : ∃ s, Lib.run step {}
    [.accept 4, .create, .accept 5, .create, .read 0, .read 1] =
    some s ∧ s.opened = [4, 5] ∧ s.served = [5, 5] := ⟨_, rfl, rfl, rfl⟩

end HandOver

end PennCloud
