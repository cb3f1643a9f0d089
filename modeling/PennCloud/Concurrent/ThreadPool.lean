import PennCloud.Lib.Runs
import PennCloud.Lib.Tally
import PennCloud.Lib.Threads
import Mathlib.Data.List.Nodup

/-!
# The thread pool

The data server and the master hand each accepted connection to a pool: `addTask`
puts it at the back of `workQueue` under the mutex and signals the condition
variable; a thread in `ThreadFun` takes the front of the queue, serves the
connection, and deletes it. `closeAll` sets `closed` without the mutex, wakes
everybody, cancels the threads and deletes the connections that are in `ongoing`.
The two pools are one program over two types of connection.

The steps are those that other threads can tell apart. `pthread_cond_wait` may
return without a signal, and a cancelled thread ends in it with the mutex locked.
A connection is `new` each time, so no task is added twice.
-/

namespace PennCloud

/-- Where a thread stands in `ThreadFun`. -/
inductive PoolPc (α : Type)
  /-- About to lock the mutex. -/
  | lock
  /-- At the test of the inner loop, with the mutex. -/
  | test
  /-- In `pthread_cond_wait`. -/
  | asleep
  /-- Awake again, about to have the mutex back. -/
  | woken
  /-- At `if (closed)`, with the mutex. -/
  | check
  /-- About to take the front of the queue, with the mutex. -/
  | pop
  | insert (task : α)
  | run (task : α)
  /-- At `if (closed)` behind `worker->run()`. -/
  | ran (task : α)
  | erase (task : α)
  | delete (task : α)
  /-- Out of the loop, with the connection it left in `ongoing`. -/
  | ended (task : Option α)
  deriving DecidableEq

/-- Where the main thread stands in `addTask`. -/
inductive AddTaskPc (α : Type)
  | idle
  | push (task : α)
  | signal
  | unlock
  deriving DecidableEq

/-- Where `closeAll` stands. -/
inductive ClosePc
  | idle
  | broadcast
  /-- The threads are asked to end, and the connections are closed. -/
  | ending
  deriving DecidableEq

/-- A pool with its threads. -/
structure ThreadPool (α : Type) where
  workQueue : List α := []
  locked : Bool := false
  closed : Bool := false
  ongoing : List α := []
  threads : List (PoolPc α)
  adder : AddTaskPc α := .idle
  closer : ClosePc := .idle
  /-- All connections ever put into the queue, the first one first. -/
  added : List α := []
  /-- All connections ever taken from the queue. -/
  taken : List α := []
  /-- Those taken since `closed` was set. -/
  takenClosed : Nat := 0
  /-- Every `delete task` by a thread. -/
  finished : List α := []
  /-- Every `delete task` by `closeAll`. -/
  shut : List α := []

/-- What can happen in a pool. -/
inductive PoolAction (α : Type)
  /-- The main thread has accepted a connection and locks the mutex. -/
  | add (task : α)
  | push
  /-- Some sleeper is woken; `none` when there is none. -/
  | signal (i : Option Nat)
  | unlock
  /-- Thread `i` makes its next step. -/
  | thread (i : Nat)
  /-- Thread `i` wakes up without a signal. -/
  | spurious (i : Nat)
  | close
  | broadcast
  /-- Thread `i` acts on its cancellation. -/
  | cancel (i : Nat)
  /-- `closeAll` comes to a connection of `ongoing`. -/
  | shut (task : α)

namespace PoolPc

variable {α : Type}

/-- The connection a thread has. -/
def task? : PoolPc α → Option α
  | .insert task | .run task | .ran task | .erase task | .delete task => some task
  | .ended task => task
  | _ => none

/-- It has the mutex. -/
def holds : PoolPc α → Bool
  | .test | .check | .pop => true
  | _ => false

def sleeps : PoolPc α → Bool
  | .asleep => true
  | _ => false

/-- It is up and on the way to the queue. -/
def ready : PoolPc α → Bool
  | .lock | .woken | .test | .check | .pop => true
  | _ => false

/-- It is behind the second test of `closed`, about to delete its connection. -/
def leaving : PoolPc α → Bool
  | .erase _ | .delete _ => true
  | _ => false

/-- Its connection is in `ongoing`. -/
def listed : PoolPc α → Bool
  | .run _ | .ran _ | .erase _ | .ended _ => true
  | _ => false

def out : PoolPc α → Bool
  | .ended _ => true
  | _ => false

/-- It is behind the test of `closed`, about to take a task. -/
def taking : PoolPc α → Bool
  | .pop => true
  | _ => false

end PoolPc

/-- The main thread has the mutex. -/
def AddTaskPc.holds {α : Type} : AddTaskPc α → Bool
  | .idle => false
  | _ => true

/-- It has put a connection into the queue and not signalled yet. -/
def AddTaskPc.owes {α : Type} : AddTaskPc α → Bool
  | .signal => true
  | _ => false

namespace ThreadPool

variable {α : Type}

/-- What `CreatePool` leaves: `n` threads that have just started. -/
def start (n : Nat) : ThreadPool α := { threads := List.replicate n .lock }

/-- A thread acts on a cancellation where it waits for something. -/
def cancelled (s : ThreadPool α) : PoolPc α → Option (ThreadPool α × PoolPc α)
  -- it has the mutex back before it ends
  | .asleep | .woken => if s.locked then none else some ({ s with locked := true }, .ended none)
  | .run task => some (s, .ended (some task))
  | _ => none

/-- Thread `i` goes on by `f`. -/
def goOn (f : ThreadPool α → PoolPc α → Option (ThreadPool α × PoolPc α)) (s : ThreadPool α)
    (i : Nat) : Option (ThreadPool α) :=
  s.threads[i]?.bind fun p => (f s p).map fun r => { r.1 with threads := s.threads.set i r.2 }

/-- The connections in the queue that a signal has been given for, and the threads without one. -/
def tally (s : ThreadPool α) : Lib.Tally where
  items := s.workQueue.length - s.adder.owes.toNat
  asleep := s.threads.countP PoolPc.sleeps
  ready := s.threads.countP PoolPc.ready

/-- The connections that threads have. -/
def held (s : ThreadPool α) : List α := s.threads.filterMap PoolPc.task?

variable {s t u : ThreadPool α} {p q : PoolPc α} {i : Nat}

theorem goOn_cases {f : ThreadPool α → PoolPc α → Option (ThreadPool α × PoolPc α)}
    (h : s.goOn f i = some t) : ∃ p q u, s.threads[i]? = some p ∧ f s p = some (u, q) ∧
      t = { u with threads := s.threads.set i q } := by
  obtain ⟨p, hp, h⟩ := Option.bind_eq_some_iff.mp h
  obtain ⟨⟨u, q⟩, hq, rfl⟩ := Option.map_eq_some_iff.mp h
  exact ⟨p, q, u, hp, hq, rfl⟩

/-- What acting on a cancellation does. -/
theorem cancelled_cases (h : cancelled s p = some (u, q)) :
    (p = .asleep ∨ p = .woken) ∧ s.locked = false ∧ u = { s with locked := true } ∧
      q = .ended none ∨
    ∃ task, p = .run task ∧ u = s ∧ q = .ended (some task) := by
  cases p with
  | asleep | woken =>
      cases hl : s.locked <;> simp only [cancelled, hl] at h <;> cases h
      exact Or.inl ⟨by simp, rfl, rfl, rfl⟩
  | run task =>
      cases h
      exact Or.inr ⟨task, rfl, rfl, rfl⟩
  | _ => cases h

variable [DecidableEq α]

/-- The next step of a thread; `none` where it has to wait. -/
def next (s : ThreadPool α) : PoolPc α → Option (ThreadPool α × PoolPc α)
  | .lock | .woken => if s.locked then none else some ({ s with locked := true }, .test)
  | .test =>
    if s.workQueue = [] ∧ s.closed = false then some ({ s with locked := false }, .asleep)
    else some (s, .check)
  | .asleep => none
  | .check => if s.closed then some ({ s with locked := false }, .ended none) else some (s, .pop)
  | .pop =>
    match s.workQueue with
    -- the front of an empty list is undefined
    | [] => none
    | task :: rest => some ({ s with
        workQueue := rest, locked := false, taken := s.taken ++ [task]
        takenClosed := s.takenClosed + s.closed.toNat }, .insert task)
  | .insert task => some ({ s with ongoing := s.ongoing.insert task }, .run task)
  | .run task => some (s, .ran task)
  | .ran task => if s.closed then some (s, .ended (some task)) else some (s, .erase task)
  | .erase task => some ({ s with ongoing := s.ongoing.filter (· != task) }, .delete task)
  | .delete task => some ({ s with finished := s.finished ++ [task] }, .lock)
  | .ended _ => none

/-- A sleeper wakes up. -/
def wake (s : ThreadPool α) (i : Nat) : Option (ThreadPool α) :=
  if s.threads[i]? = some .asleep then some { s with threads := s.threads.set i .woken } else none

/-- One action. -/
def step (s : ThreadPool α) : PoolAction α → Option (ThreadPool α)
  | .add task =>
    if s.adder = .idle ∧ s.locked = false ∧ task ∉ s.added then
      some { s with locked := true, adder := .push task }
    else none
  | .push =>
    match s.adder with
    | .push task => some { s with
        workQueue := s.workQueue ++ [task], added := s.added ++ [task], adder := .signal }
    | _ => none
  | .signal i =>
    if s.adder = .signal then
      match i with
      | some i => (s.wake i).map fun t => { t with adder := .unlock }
      | none => if .asleep ∈ s.threads then none else some { s with adder := .unlock }
    else none
  | .unlock =>
    if s.adder = .unlock then some { s with locked := false, adder := .idle } else none
  | .thread i => s.goOn next i
  | .spurious i => s.wake i
  | .close => if s.closed then none else some { s with closed := true, closer := .broadcast }
  | .broadcast =>
    if s.closer = .broadcast then
      some { s with
        threads := s.threads.map fun p => if p.sleeps then .woken else p, closer := .ending }
    else none
  | .cancel i => if s.closer = .ending then s.goOn cancelled i else none
  | .shut task =>
    if s.closer = .ending ∧ task ∈ s.ongoing ∧ task ∉ s.shut then
      some { s with shut := s.shut ++ [task] }
    else none

/-! ## What a step does -/

/-- The step of a thread, case by case. -/
inductive Moves (s : ThreadPool α) : PoolPc α → ThreadPool α → PoolPc α → Prop
  | lock {p : PoolPc α} (hp : p = .lock ∨ p = .woken) (hfree : s.locked = false) :
      Moves s p { s with locked := true } .test
  | sleep (hqueue : s.workQueue = []) (hopen : s.closed = false) :
      Moves s .test { s with locked := false } .asleep
  | test (hwork : s.closed = true ∨ s.workQueue ≠ []) : Moves s .test s .check
  | stop (hclosed : s.closed = true) : Moves s .check { s with locked := false } (.ended none)
  | check (hopen : s.closed = false) : Moves s .check s .pop
  | pop {task : α} {rest : List α} (hqueue : s.workQueue = task :: rest) :
      Moves s .pop { s with
        workQueue := rest, locked := false, taken := s.taken ++ [task]
        takenClosed := s.takenClosed + s.closed.toNat } (.insert task)
  | insert (task : α) :
      Moves s (.insert task) { s with ongoing := s.ongoing.insert task } (.run task)
  | run (task : α) : Moves s (.run task) s (.ran task)
  | leave {task : α} (hclosed : s.closed = true) : Moves s (.ran task) s (.ended (some task))
  | ran {task : α} (hopen : s.closed = false) : Moves s (.ran task) s (.erase task)
  | erase (task : α) :
      Moves s (.erase task) { s with ongoing := s.ongoing.filter (· != task) } (.delete task)
  | delete (task : α) :
      Moves s (.delete task) { s with finished := s.finished ++ [task] } .lock

theorem moves_of_next (h : next s p = some (u, q)) : Moves s p u q := by
  cases p with
  | lock | woken =>
      cases hl : s.locked <;> simp only [next, hl] at h <;> cases h
      exact .lock (by simp) hl
  | test =>
      by_cases hw : s.workQueue = [] ∧ s.closed = false
      · rw [next, if_pos hw] at h
        cases h
        exact .sleep hw.1 hw.2
      · rw [next, if_neg hw] at h
        cases h
        refine .test ?_
        cases hc : s.closed
        · exact Or.inr fun hq => hw ⟨hq, hc⟩
        · exact Or.inl rfl
  | check =>
      rw [next] at h
      split at h <;> cases h
      · exact .stop ‹_›
      · exact .check (by simpa using ‹¬ s.closed = true›)
  | pop =>
      cases hq : s.workQueue <;> simp only [next, hq] at h <;> cases h
      exact .pop hq
  | insert task =>
      cases h
      exact .insert task
  | run task =>
      cases h
      exact .run task
  | ran task =>
      rw [next] at h
      split at h <;> cases h
      · exact .leave ‹_›
      · exact .ran (by simpa using ‹¬ s.closed = true›)
  | erase task =>
      cases h
      exact .erase task
  | delete task =>
      cases h
      exact .delete task
  | asleep | ended => cases h

theorem wake_cases (h : s.wake i = some t) :
    s.threads[i]? = some .asleep ∧ t = { s with threads := s.threads.set i .woken } := by
  rw [wake] at h
  split at h
  · exact ⟨‹_›, (Option.some.inj h).symm⟩
  · cases h

/-- An action, case by case. -/
inductive Does (s : ThreadPool α) : PoolAction α → ThreadPool α → Prop
  | add {task : α} (hidle : s.adder = .idle) (hfree : s.locked = false) (hnew : task ∉ s.added) :
      Does s (.add task) { s with locked := true, adder := .push task }
  | push {task : α} (hpush : s.adder = .push task) :
      Does s .push { s with
        workQueue := s.workQueue ++ [task], added := s.added ++ [task], adder := .signal }
  | signal {i : Nat} (hsignal : s.adder = .signal) (hp : s.threads[i]? = some .asleep) :
      Does s (.signal (some i)) { s with threads := s.threads.set i .woken, adder := .unlock }
  | nobody (hsignal : s.adder = .signal) (hnone : .asleep ∉ s.threads) :
      Does s (.signal none) { s with adder := .unlock }
  | unlock (hunlock : s.adder = .unlock) :
      Does s .unlock { s with locked := false, adder := .idle }
  | thread {i : Nat} {p q : PoolPc α} {u : ThreadPool α} (hp : s.threads[i]? = some p)
      (hmoves : Moves s p u q) : Does s (.thread i) { u with threads := s.threads.set i q }
  | spurious {i : Nat} (hp : s.threads[i]? = some .asleep) :
      Does s (.spurious i) { s with threads := s.threads.set i .woken }
  | close (hopen : s.closed = false) :
      Does s .close { s with closed := true, closer := .broadcast }
  | broadcast (hat : s.closer = .broadcast) :
      Does s .broadcast { s with
        threads := s.threads.map fun p => if p.sleeps then .woken else p, closer := .ending }
  | cancelWait {i : Nat} {p : PoolPc α} (hat : s.closer = .ending) (hp : s.threads[i]? = some p)
      (hwaits : p = .asleep ∨ p = .woken) (hfree : s.locked = false) :
      Does s (.cancel i) { s with locked := true, threads := s.threads.set i (.ended none) }
  | cancelRun {i : Nat} {task : α} (hat : s.closer = .ending)
      (hp : s.threads[i]? = some (.run task)) :
      Does s (.cancel i) { s with threads := s.threads.set i (.ended (some task)) }
  | shut {task : α} (hat : s.closer = .ending) (hmem : task ∈ s.ongoing) (hnew : task ∉ s.shut) :
      Does s (.shut task) { s with shut := s.shut ++ [task] }

theorem does_of_step {a : PoolAction α} (h : s.step a = some t) : Does s a t := by
  cases a with
  | add task =>
      simp only [step] at h
      split at h <;> cases h
      rename_i hif
      exact .add hif.1 hif.2.1 hif.2.2
  | push =>
      simp only [step] at h
      split at h <;> cases h
      exact .push ‹_›
  | signal j =>
      simp only [step] at h
      split at h
      · cases j with
        | some j =>
            obtain ⟨v, hv, rfl⟩ := Option.map_eq_some_iff.mp h
            obtain ⟨hp, rfl⟩ := wake_cases hv
            exact .signal ‹_› hp
        | none =>
            simp only at h
            split at h <;> cases h
            exact .nobody ‹_› ‹_›
      · cases h
  | unlock =>
      simp only [step] at h
      split at h <;> cases h
      exact .unlock ‹_›
  | thread j =>
      obtain ⟨p, q, u, hp, hnext, rfl⟩ := goOn_cases h
      exact .thread hp (moves_of_next hnext)
  | spurious j =>
      obtain ⟨hp, rfl⟩ := wake_cases h
      exact .spurious hp
  | close =>
      simp only [step] at h
      split at h <;> cases h
      exact .close (by simpa using ‹¬ s.closed = true›)
  | broadcast =>
      simp only [step] at h
      split at h <;> cases h
      exact .broadcast ‹_›
  | cancel j =>
      simp only [step] at h
      split at h
      · obtain ⟨p, q, u, hp, hcancel, rfl⟩ := goOn_cases h
        rcases cancelled_cases hcancel with ⟨hwaits, hfree, rfl, rfl⟩ | ⟨task, rfl, rfl, rfl⟩
        · exact .cancelWait ‹_› hp hwaits hfree
        · exact .cancelRun ‹_› hp
      · cases h
  | shut task =>
      simp only [step] at h
      split at h <;> cases h
      rename_i hif
      exact .shut hif.1 hif.2.1 hif.2.2

/-! ## The queue and the connections -/

/-- Who has which connection. -/
structure Queued (s : ThreadPool α) : Prop where
  fifo : s.added = s.taken ++ s.workQueue
  nodup : s.added.Nodup
  fresh : ∀ task, s.adder = .push task → task ∉ s.added
  served : (s.held ++ s.finished).Perm s.taken

omit [DecidableEq α] in
theorem held_set (hp : s.threads[i]? = some p) :
    (((s.threads.set i q).filterMap PoolPc.task?) ++ p.task?.toList).Perm
      (s.held ++ q.task?.toList) :=
  Lib.Threads.filterMap_set q _ hp

omit [DecidableEq α] in
/-- The thread keeps what it has, or has nothing before and after. -/
theorem Queued.set (hs : s.Queued) (hp : s.threads[i]? = some p) (hq : q.task? = p.task?) :
    ((s.threads.set i q).filterMap PoolPc.task? ++ s.finished).Perm s.taken := by
  have hset := held_set (q := q) hp
  rw [hq] at hset
  exact (((List.perm_append_right_iff _).mp hset).append_right _).trans hs.served

theorem Queued.moves (hs : s.Queued) (hp : s.threads[i]? = some p) (h : Moves s p u q) :
    Queued { u with threads := s.threads.set i q } := by
  cases h with
  | pop hqueue =>
      rename_i task rest
      have hset := held_set (q := .insert task) hp
      refine ⟨?_, hs.nodup, hs.fresh, ?_⟩
      · rw [hs.fifo, hqueue, List.append_assoc]
        rfl
      · have hheld : ((s.threads.set i (.insert task)).filterMap PoolPc.task?).Perm
            (s.held ++ [task]) := by simpa [PoolPc.task?] using hset
        refine (hheld.append_right _).trans ?_
        rw [List.append_assoc]
        refine (List.perm_append_comm.append_left _).trans ?_
        rw [← List.append_assoc]
        exact hs.served.append_right _
  | delete task =>
      refine ⟨hs.fifo, hs.nodup, hs.fresh, ?_⟩
      have hset := held_set (q := .lock) hp
      have hheld : ((s.threads.set i .lock).filterMap PoolPc.task? ++ [task]).Perm s.held := by
        simpa [PoolPc.task?] using hset
      refine List.Perm.trans ?_ hs.served
      refine List.Perm.trans ?_ (hheld.append_right _)
      rw [List.append_assoc]
      exact List.perm_append_comm.append_left _
  | lock hlock =>
      refine ⟨hs.fifo, hs.nodup, hs.fresh, hs.set hp ?_⟩
      rcases hlock with rfl | rfl <;> rfl
  | sleep | test | stop | check | insert | run | leave | ran | erase =>
      exact ⟨hs.fifo, hs.nodup, hs.fresh, hs.set hp rfl⟩

omit [DecidableEq α] in
theorem held_broadcast : (s.threads.map fun p => if p.sleeps then PoolPc.woken else p).filterMap
    PoolPc.task? = s.held := by
  rw [List.filterMap_map]
  refine List.filterMap_congr fun p _ => ?_
  cases p <;> rfl

theorem queued_step {a : PoolAction α} (hs : s.Queued) (h : s.step a = some t) : t.Queued := by
  cases does_of_step h with
  | add _ _ hnew =>
      exact ⟨hs.fifo, hs.nodup, fun _ hpush => by cases hpush; exact hnew, hs.served⟩
  | push hpush =>
      refine ⟨?_, List.Nodup.append hs.nodup (List.nodup_singleton _) ?_, fun _ h =>
        (nomatch h), hs.served⟩
      · rw [hs.fifo, List.append_assoc]
      · exact List.disjoint_singleton.mpr (hs.fresh _ hpush)
  | signal _ hp => exact ⟨hs.fifo, hs.nodup, fun _ h => (nomatch h), hs.set hp rfl⟩
  | nobody | unlock => exact ⟨hs.fifo, hs.nodup, fun _ h => (nomatch h), hs.served⟩
  | thread hp hmoves => exact hs.moves hp hmoves
  | spurious hp => exact ⟨hs.fifo, hs.nodup, hs.fresh, hs.set hp rfl⟩
  | broadcast =>
      exact ⟨hs.fifo, hs.nodup, hs.fresh,
        (congrArg (· ++ s.finished) held_broadcast).symm ▸ hs.served⟩
  | cancelWait _ hp hwaits =>
      refine ⟨hs.fifo, hs.nodup, hs.fresh, hs.set hp ?_⟩
      rcases hwaits with rfl | rfl <;> rfl
  | cancelRun _ hp => exact ⟨hs.fifo, hs.nodup, hs.fresh, hs.set hp rfl⟩
  | close | shut => exact ⟨hs.fifo, hs.nodup, hs.fresh, hs.served⟩

omit [DecidableEq α] in
theorem queued_start (n : Nat) : (start n : ThreadPool α).Queued := by
  refine ⟨rfl, List.nodup_nil, fun _ h => (nomatch h), ?_⟩
  have : (start n : ThreadPool α).held = [] := by
    rw [held, start, List.filterMap_replicate_of_none rfl]
  rw [this]
  exact List.Perm.refl _

/-! ## The mutex -/

omit [DecidableEq α] in
theorem countP_broadcast {f : PoolPc α → Bool} (hf : f .woken = f .asleep) :
    (s.threads.map fun p => if p.sleeps then PoolPc.woken else p).countP f
      = s.threads.countP f := by
  rw [List.countP_map]
  refine List.countP_congr fun p _ => ?_
  cases p <;> simp [PoolPc.sleeps, hf]

/-- At most one thread has the mutex, and only while it is locked. -/
def Mutex (s : ThreadPool α) : Prop :=
  s.threads.countP PoolPc.holds + s.adder.holds.toNat ≤ s.locked.toNat

theorem mutex_moves (hs : s.Mutex) (hp : s.threads[i]? = some p) (h : Moves s p u q) :
    Mutex { u with threads := s.threads.set i q } := by
  have hcount := Lib.Threads.countP_set q PoolPc.holds hp
  have hle := s.locked.toNat_le
  unfold Mutex at hs ⊢
  cases h with
  | lock hat hfree =>
      have hp' : p.holds = false := by rcases hat with rfl | rfl <;> rfl
      rw [hp'] at hcount
      simp only [hfree, PoolPc.holds, Bool.toNat_false, Bool.toNat_true] at hs hcount ⊢
      omega
  | sleep | stop | pop =>
      simp only [PoolPc.holds, Bool.toNat_false, Bool.toNat_true] at hcount ⊢
      omega
  | test | check | insert | run | leave | ran | erase | delete =>
      simp only [PoolPc.holds, Bool.toNat_false, Bool.toNat_true] at hcount ⊢
      omega

theorem mutex_step {a : PoolAction α} (hs : s.Mutex) (h : s.step a = some t) : t.Mutex := by
  have hle := s.locked.toNat_le
  cases does_of_step h with
  | thread hp hmoves => exact mutex_moves hs hp hmoves
  | add hidle hfree =>
      unfold Mutex at hs ⊢
      simp only [hidle, hfree, AddTaskPc.holds, Bool.toNat_false, Bool.toNat_true] at hs ⊢
      omega
  | push hat | nobody hat =>
      unfold Mutex at hs ⊢
      rwa [hat] at hs
  | unlock hat =>
      unfold Mutex at hs ⊢
      simp only [hat, AddTaskPc.holds, Bool.toNat_false, Bool.toNat_true] at hs ⊢
      omega
  | signal hat hp =>
      unfold Mutex at hs ⊢
      rw [hat] at hs
      rwa [Lib.Threads.countP_set_same .woken hp rfl]
  | spurious hp =>
      unfold Mutex at hs ⊢
      rwa [Lib.Threads.countP_set_same .woken hp rfl]
  | broadcast =>
      unfold Mutex at hs ⊢
      rwa [countP_broadcast rfl]
  | cancelWait _ hp hwaits hfree =>
      unfold Mutex at hs ⊢
      rw [Lib.Threads.countP_set_same (.ended none) hp (by rcases hwaits with rfl | rfl <;> rfl)]
      rw [hfree] at hs
      exact Nat.le_trans hs (Nat.zero_le _)
  | cancelRun _ hp =>
      unfold Mutex at hs ⊢
      rwa [Lib.Threads.countP_set_same (.ended _) hp rfl]
  | close | shut => exact hs

omit [DecidableEq α] in
/-- When the mutex is given back, nobody has it. -/
theorem Mutex.released (hs : s.Mutex) (hp : s.threads[i]? = some p) (hp' : p.holds = true)
    (hq : q.holds = false) : ∀ r ∈ s.threads.set i q, r.holds = false := by
  have hcount := Lib.Threads.countP_set q PoolPc.holds hp
  have hle := s.locked.toNat_le
  unfold Mutex at hs
  simp only [hp', hq, Bool.toNat_false, Bool.toNat_true] at hcount
  have hzero : (s.threads.set i q).countP PoolPc.holds = 0 := by omega
  exact fun r hr => Bool.eq_false_iff.mpr (List.countP_eq_zero.mp hzero r hr)

omit [DecidableEq α] in
/-- While the main thread has the mutex, no other thread has it. -/
theorem Mutex.alone (hs : s.Mutex) (hadd : s.adder.holds = true) :
    ∀ r ∈ s.threads, r.holds = false := by
  have hle := s.locked.toNat_le
  unfold Mutex at hs
  simp only [hadd, Bool.toNat_true] at hs
  have hzero : s.threads.countP PoolPc.holds = 0 := by omega
  exact fun r hr => Bool.eq_false_iff.mpr (List.countP_eq_zero.mp hzero r hr)

/-- Whoever is to take a connection finds one, and whoever is to signal has put one there. -/
structure Stocked (s : ThreadPool α) : Prop where
  signal : s.adder = .signal → s.workQueue ≠ []
  check : .check ∈ s.threads → s.closed = true ∨ s.workQueue ≠ []
  pop : .pop ∈ s.threads → s.workQueue ≠ []

theorem stocked_moves (hm : s.Mutex) (hs : s.Stocked) (hp : s.threads[i]? = some p)
    (h : Moves s p u q) : Stocked { u with threads := s.threads.set i q } := by
  cases h with
  | test hwork =>
      refine ⟨hs.signal, fun _ => hwork, fun h => hs.pop ?_⟩
      exact (List.mem_or_eq_of_mem_set h).resolve_right (by simp)
  | check hopen =>
      have hqueue := (hs.check (List.mem_of_getElem? hp)).resolve_left (by simp [hopen])
      exact ⟨hs.signal, fun _ => Or.inr hqueue, fun _ => hqueue⟩
  | @pop task =>
      have hfree := hm.released (q := .insert task) hp rfl rfl
      refine ⟨fun hat => ?_, fun h => absurd (hfree _ h) Bool.noConfusion,
        fun h => absurd (hfree _ h) Bool.noConfusion⟩
      exact absurd (hm.alone (by rw [hat]; rfl) _ (List.mem_of_getElem? hp)) Bool.noConfusion
  | lock | sleep | stop | insert | run | leave | ran | erase | delete =>
      refine ⟨hs.signal, fun h => hs.check ?_, fun h => hs.pop ?_⟩
      all_goals exact (List.mem_or_eq_of_mem_set h).resolve_right (by simp)

theorem stocked_step {a : PoolAction α} (hm : s.Mutex) (hs : s.Stocked) (h : s.step a = some t) :
    t.Stocked := by
  cases does_of_step h with
  | thread hp hmoves => exact stocked_moves hm hs hp hmoves
  | add => exact ⟨fun h => (nomatch h), hs.check, hs.pop⟩
  | push =>
      have hne : ∀ task, s.workQueue ++ [task] ≠ [] := fun _ => List.concat_ne_nil _ _
      exact ⟨fun _ => hne _, fun _ => Or.inr (hne _), fun _ => hne _⟩
  | signal =>
      refine ⟨fun h => (nomatch h), fun h => hs.check ?_, fun h => hs.pop ?_⟩
      all_goals exact (List.mem_or_eq_of_mem_set h).resolve_right (by simp)
  | nobody | unlock => exact ⟨fun h => (nomatch h), hs.check, hs.pop⟩
  | close => exact ⟨hs.signal, fun _ => Or.inl rfl, hs.pop⟩
  | broadcast =>
      refine ⟨hs.signal, fun h => hs.check ?_, fun h => hs.pop ?_⟩
      all_goals
        obtain ⟨p, hp, hif⟩ := List.mem_map.mp h
        cases p <;> simp_all [PoolPc.sleeps]
  | spurious | cancelWait | cancelRun =>
      refine ⟨hs.signal, fun h => hs.check ?_, fun h => hs.pop ?_⟩
      all_goals exact (List.mem_or_eq_of_mem_set h).resolve_right (by simp)
  | shut => exact ⟨hs.signal, hs.check, hs.pop⟩

/-! ## Closing -/

/-- What is taken once `closed` is set. -/
structure Stopping (s : ThreadPool α) : Prop where
  opened : s.closed = false → s.closer = .idle ∧ s.takenClosed = 0
  stopped : s.closed = true → s.takenClosed + s.threads.countP PoolPc.taking ≤ 1

theorem stopping_moves (hs : s.Stopping) (hp : s.threads[i]? = some p) (h : Moves s p u q) :
    Stopping { u with threads := s.threads.set i q } := by
  have hcount := Lib.Threads.countP_set q PoolPc.taking hp
  cases h with
  | check hopen =>
      exact ⟨hs.opened, fun hclosed => absurd (hopen.symm.trans hclosed) Bool.noConfusion⟩
  | pop =>
      refine ⟨fun (hopen : s.closed = false) => ⟨(hs.opened hopen).1, ?_⟩,
        fun (hclosed : s.closed = true) => ?_⟩
      · simp only [(hs.opened hopen).2, hopen, Bool.toNat_false]
      · have := hs.stopped hclosed
        simp only [PoolPc.taking, Bool.toNat_false, Bool.toNat_true] at hcount
        simp only [hclosed, Bool.toNat_true]
        omega
  | lock hat =>
      have hp' : p.taking = false := by rcases hat with rfl | rfl <;> rfl
      refine ⟨hs.opened, fun hclosed => ?_⟩
      rw [Lib.Threads.countP_set_same .test hp hp'.symm]
      exact hs.stopped hclosed
  | sleep | test | stop | insert | run | leave | ran | erase | delete =>
      refine ⟨hs.opened, fun hclosed => ?_⟩
      have := hs.stopped hclosed
      simp only [PoolPc.taking, Bool.toNat_false] at hcount ⊢
      omega

omit [DecidableEq α] in
theorem countP_taking_le (hm : s.Mutex) : s.threads.countP PoolPc.taking ≤ 1 := by
  have hle := s.locked.toNat_le
  have : s.threads.countP PoolPc.taking ≤ s.threads.countP PoolPc.holds :=
    List.countP_mono_left fun p _ h => by cases p <;> simp_all [PoolPc.taking, PoolPc.holds]
  unfold Mutex at hm
  omega

theorem stopping_step {a : PoolAction α} (hm : s.Mutex) (hs : s.Stopping) (h : s.step a = some t) :
    t.Stopping := by
  cases does_of_step h with
  | thread hp hmoves => exact stopping_moves hs hp hmoves
  | signal _ hp | spurious hp =>
      refine ⟨hs.opened, fun hclosed => ?_⟩
      rw [Lib.Threads.countP_set_same .woken hp rfl]
      exact hs.stopped hclosed
  | close hopen =>
      refine ⟨fun h => absurd h Bool.noConfusion, fun _ => ?_⟩
      rw [(hs.opened hopen).2, Nat.zero_add]
      exact countP_taking_le hm
  | broadcast hat =>
      refine ⟨fun hopen => absurd ((hs.opened hopen).1.symm.trans hat) ClosePc.noConfusion,
        fun hclosed => ?_⟩
      rw [countP_broadcast rfl]
      exact hs.stopped hclosed
  | cancelWait _ hp hwaits =>
      refine ⟨hs.opened, fun hclosed => ?_⟩
      rw [Lib.Threads.countP_set_same (.ended none) hp (by rcases hwaits with rfl | rfl <;> rfl)]
      exact hs.stopped hclosed
  | cancelRun _ hp =>
      refine ⟨hs.opened, fun hclosed => ?_⟩
      rw [Lib.Threads.countP_set_same (.ended _) hp rfl]
      exact hs.stopped hclosed
  | add | push | nobody | unlock | shut => exact ⟨hs.opened, hs.stopped⟩

/-! ## The condition variable -/

theorem tally_moves (hm : s.Mutex) (hp : s.threads[i]? = some p)
    (h : Moves s p u q) (hopen : s.closed = false) :
    Lib.Tally.Step s.tally (tally { u with threads := s.threads.set i q }) := by
  have hasleep := Lib.Threads.countP_set q PoolPc.sleeps hp
  have hready := Lib.Threads.countP_set q PoolPc.ready hp
  cases h with
  | lock hat =>
      have hp' : p.sleeps = false ∧ p.ready = true := by
        rcases hat with rfl | rfl <;> exact ⟨rfl, rfl⟩
      rw [hp'.1] at hasleep
      rw [hp'.2] at hready
      exact .stay rfl (Nat.add_right_cancel hasleep) (Nat.add_right_cancel hready)
  | sleep hqueue =>
      refine .sleep ?_
      simp only [tally, hqueue, List.length_nil, Nat.zero_sub]
  | pop hqueue =>
      -- the main thread has no mutex, so it owes nobody a signal
      have howes : s.adder.owes = false := by
        cases hadd : s.adder with
        | signal =>
            exact absurd (hm.alone (by rw [hadd]; rfl) _ (List.mem_of_getElem? hp)) Bool.noConfusion
        | idle | push | unlock => rfl
      refine .take ?_ (Nat.add_right_cancel hasleep) hready.symm
      simp only [tally, hqueue, howes, List.length_cons, Bool.toNat_false, Nat.sub_zero]
  | delete => exact .back rfl (Nat.add_right_cancel hasleep) hready
  | stop hclosed | leave hclosed => exact absurd (hopen.symm.trans hclosed) Bool.noConfusion
  | test | check | insert | run | ran | erase =>
      exact .stay rfl (Nat.add_right_cancel hasleep) (Nat.add_right_cancel hready)

omit [DecidableEq α] in
/-- A sleeper that wakes up changes two counts. -/
theorem tally_woken (hp : s.threads[i]? = some .asleep) :
    s.threads.countP PoolPc.sleeps = (s.threads.set i .woken).countP PoolPc.sleeps + 1 ∧
      (s.threads.set i .woken).countP PoolPc.ready = s.threads.countP PoolPc.ready + 1 :=
  ⟨(Lib.Threads.countP_set PoolPc.woken PoolPc.sleeps hp).symm,
    Lib.Threads.countP_set PoolPc.woken PoolPc.ready hp⟩

/-- **The pool's steps are steps of the counts**, as long as the pool stays open. -/
theorem tally_step {a : PoolAction α} (hm : s.Mutex) (hs : s.Stocked) (hstop : s.Stopping)
    (h : s.step a = some t) (hopen : t.closed = false) : Lib.Tally.Step s.tally t.tally := by
  cases does_of_step h with
  | thread hp hmoves => exact tally_moves hm hp hmoves (by cases hmoves <;> exact hopen)
  | add hidle =>
      refine .stay ?_ rfl rfl
      simp only [tally, hidle, AddTaskPc.owes]
  | push hat =>
      refine .stay ?_ rfl rfl
      simp only [tally, hat, AddTaskPc.owes, List.length_append, List.length_singleton,
        Bool.toNat_true, Bool.toNat_false, Nat.add_sub_cancel, Nat.sub_zero]
  | signal hat hp =>
      have hqueue := List.length_pos_iff.mpr (hs.signal hat)
      refine .arriveWake ?_ (tally_woken hp).1 (tally_woken hp).2
      simp only [tally, hat, AddTaskPc.owes, Bool.toNat_true, Bool.toNat_false]
      omega
  | nobody _ hnone =>
      refine .arrive (List.countP_eq_zero.mpr fun p hp hsleeps => hnone ?_)
      cases p <;> first | exact hp | cases hsleeps
  | unlock hat =>
      refine .stay ?_ rfl rfl
      simp only [tally, hat, AddTaskPc.owes]
  | spurious hp => exact .wake rfl (tally_woken hp).1 (tally_woken hp).2
  | close => cases hopen
  | broadcast hat | cancelWait hat | cancelRun hat =>
      exact absurd ((hstop.opened hopen).1.symm.trans hat) ClosePc.noConfusion
  | shut => exact .stay rfl rfl rfl

/-! ## While the pool is open -/

/-- No thread has ended, and whoever locked the mutex is there to unlock it. -/
structure Live (s : ThreadPool α) : Prop where
  here : ∀ p ∈ s.threads, p.out = false
  owner : s.locked.toNat ≤ s.threads.countP PoolPc.holds + s.adder.holds.toNat

omit [DecidableEq α] in
theorem here_set (hs : s.Live) (hq : q.out = false) : ∀ r ∈ s.threads.set i q, r.out = false :=
  fun _ hr => (List.mem_or_eq_of_mem_set hr).elim (hs.here _) fun h => h ▸ hq

theorem live_moves (hs : s.Live) (hp : s.threads[i]? = some p) (h : Moves s p u q)
    (hopen : s.closed = false) : Live { u with threads := s.threads.set i q } := by
  have hcount := Lib.Threads.countP_set q PoolPc.holds hp
  have howner := hs.owner
  cases h with
  | stop hclosed | leave hclosed => exact absurd (hopen.symm.trans hclosed) Bool.noConfusion
  | lock hat hfree =>
      have hp' : p.holds = false := by rcases hat with rfl | rfl <;> rfl
      rw [hp'] at hcount
      refine ⟨here_set hs rfl, ?_⟩
      simp only [PoolPc.holds, Bool.toNat_true, Bool.toNat_false] at hcount ⊢
      omega
  | sleep | pop => exact ⟨here_set hs rfl, Nat.zero_le _⟩
  | test | check | insert | run | ran | erase | delete =>
      refine ⟨here_set hs rfl, ?_⟩
      simp only [PoolPc.holds, Bool.toNat_true, Bool.toNat_false] at hcount ⊢
      omega

theorem live_step {a : PoolAction α} (hstop : s.Stopping) (hs : s.Live) (h : s.step a = some t)
    (hopen : t.closed = false) : t.Live := by
  cases does_of_step h with
  | thread hp hmoves => exact live_moves hs hp hmoves (by cases hmoves <;> exact hopen)
  | add hidle hfree =>
      refine ⟨hs.here, ?_⟩
      simp only [AddTaskPc.holds, Bool.toNat_true]
      omega
  | push hat | nobody hat =>
      have howner := hs.owner
      rw [hat] at howner
      exact ⟨hs.here, howner⟩
  | unlock => exact ⟨hs.here, Nat.zero_le _⟩
  | signal hat hp =>
      have howner := hs.owner
      rw [hat] at howner
      exact ⟨here_set hs rfl, by rwa [Lib.Threads.countP_set_same .woken hp rfl]⟩
  | spurious hp =>
      exact ⟨here_set hs rfl, by rw [Lib.Threads.countP_set_same .woken hp rfl]; exact hs.owner⟩
  | close => cases hopen
  | broadcast hat | cancelWait hat | cancelRun hat =>
      exact absurd ((hstop.opened hopen).1.symm.trans hat) ClosePc.noConfusion
  | shut => exact ⟨hs.here, hs.owner⟩

/-! ## Runs -/

/-- The invariant of a pool. -/
structure Inv (s : ThreadPool α) : Prop where
  queued : s.Queued
  mutex : s.Mutex
  stocked : s.Stocked
  stopping : s.Stopping
  live : s.closed = false → s.Live
  attended : s.closed = false → s.tally.Attended

/-- An open pool was open before. -/
theorem open_of_step {a : PoolAction α} (h : s.step a = some t) (hopen : t.closed = false) :
    s.closed = false := by
  cases does_of_step h with
  | thread _ hmoves => cases hmoves <;> exact hopen
  | close => cases hopen
  | _ => exact hopen

theorem inv_step {a : PoolAction α} (hs : s.Inv) (h : s.step a = some t) : t.Inv where
  queued := queued_step hs.queued h
  mutex := mutex_step hs.mutex h
  stocked := stocked_step hs.mutex hs.stocked h
  stopping := stopping_step hs.mutex hs.stopping h
  live hopen := live_step hs.stopping (hs.live (open_of_step h hopen)) h hopen
  attended hopen := (tally_step hs.mutex hs.stocked hs.stopping h hopen).attended
    (hs.attended (open_of_step h hopen))

omit [DecidableEq α] in
theorem inv_start (n : Nat) : (start n : ThreadPool α).Inv := by
  have hthreads : ∀ p ∈ (start n : ThreadPool α).threads, p = .lock := fun _ hp =>
    List.eq_of_mem_replicate hp
  have hnone : ∀ f : PoolPc α → Bool, f .lock = false →
      (start n : ThreadPool α).threads.countP f = 0 := fun f hf =>
    List.countP_eq_zero.mpr fun p hp => by rw [hthreads p hp, hf]; exact Bool.false_ne_true
  refine ⟨queued_start n, ?_, ⟨fun h => (nomatch h), fun h => ?_, fun h => ?_⟩,
    ⟨fun _ => ⟨rfl, rfl⟩, fun h => (nomatch h)⟩, fun _ =>
      ⟨fun p hp => ?_, Nat.zero_le _⟩, fun _ => ?_⟩
  · unfold Mutex
    rw [hnone _ rfl]
    exact Nat.le_refl _
  · cases hthreads _ h
  · cases hthreads _ h
  · rw [hthreads p hp]
    rfl
  · exact Or.inl (hnone _ rfl)

theorem inv_run {n : Nat} {as : List (PoolAction α)} (h : Lib.run step (start n) as = some s) :
    s.Inv :=
  Lib.inv_of_run (fun _ _ _ => inv_step) (inv_start n) h

/-! ## From a waiting connection to its thread -/

/-- In `n` steps thread `i` takes the connection. -/
def Hands (task : α) (s : ThreadPool α) (i n : Nat) : Prop :=
  ∃ t, Lib.run step s (List.replicate n (.thread i)) = some t ∧ t.taken = s.taken ++ [task]

theorem hands_step {task : α} {n : Nat} (h : s.step (.thread i) = some t) (ht : t.taken = s.taken)
    (hands : Hands task t i n) : Hands task s i (n + 1) := by
  obtain ⟨v, hrun, hv⟩ := hands
  refine ⟨v, ?_, ht ▸ hv⟩
  rw [List.replicate_succ, Lib.run, h]
  exact hrun

theorem step_thread (hp : s.threads[i]? = some p) (h : next s p = some (u, q)) :
    s.step (.thread i) = some { u with threads := s.threads.set i q } := by
  rw [step, goOn, hp, Option.bind_some, h, Option.map_some]

omit [DecidableEq α] in
theorem getElem?_goOn (hp : s.threads[i]? = some p) (q : PoolPc α) :
    (s.threads.set i q)[i]? = some q :=
  List.getElem?_set_self (List.getElem?_eq_some_iff.mp hp).1

variable {task : α} {rest : List α}

theorem hands_pop (hqueue : s.workQueue = task :: rest) (hp : s.threads[i]? = some .pop) :
    Hands task s i 1 := by
  have hnext : next s .pop = some ({ s with
      workQueue := rest, locked := false, taken := s.taken ++ [task]
      takenClosed := s.takenClosed + s.closed.toNat }, .insert task) := by rw [next, hqueue]
  exact ⟨_, by rw [List.replicate_one, Lib.run, step_thread hp hnext]; rfl, rfl⟩

theorem hands_check (hopen : s.closed = false) (hqueue : s.workQueue = task :: rest)
    (hp : s.threads[i]? = some .check) : Hands task s i 2 :=
  hands_step (step_thread hp (by rw [next, hopen]; rfl)) rfl (hands_pop hqueue (getElem?_goOn hp _))

theorem hands_test (hopen : s.closed = false) (hqueue : s.workQueue = task :: rest)
    (hp : s.threads[i]? = some .test) : Hands task s i 3 := by
  have hnext : next s .test = some (s, .check) := by
    rw [next, if_neg (by simp [hqueue])]
  exact hands_step (step_thread hp hnext) rfl (hands_check hopen hqueue (getElem?_goOn hp _))

theorem hands_lock (hopen : s.closed = false) (hqueue : s.workQueue = task :: rest)
    (hlocked : s.locked = false) (hp : s.threads[i]? = some p) (hat : p = .lock ∨ p = .woken) :
    Hands task s i 4 := by
  have hnext : next s p = some ({ s with locked := true }, .test) := by
    rcases hat with rfl | rfl <;> rw [next, hlocked] <;> rfl
  exact hands_step (step_thread hp hnext) rfl (hands_test hopen hqueue (getElem?_goOn hp _))

/-- Somebody on the way takes the connection, whoever has the mutex. -/
theorem exists_hands (hs : s.Inv) (hopen : s.closed = false) (hidle : s.adder = .idle)
    (hqueue : s.workQueue = task :: rest) (hready : ∃ p ∈ s.threads, p.ready = true) :
    ∃ i n, n ≤ 4 ∧ Hands task s i n := by
  by_cases hholds : ∃ p ∈ s.threads, p.holds = true
  · obtain ⟨p, hp, hp'⟩ := hholds
    obtain ⟨i, hi⟩ := List.mem_iff_getElem?.mp hp
    cases p with
    | test => exact ⟨i, 3, by omega, hands_test hopen hqueue hi⟩
    | check => exact ⟨i, 2, by omega, hands_check hopen hqueue hi⟩
    | pop => exact ⟨i, 1, by omega, hands_pop hqueue hi⟩
    | _ => cases hp'
  · -- nobody has the mutex, so it is free for whoever comes first
    have hlocked : s.locked = false := by
      have howner := (hs.live hopen).owner
      have hzero : s.threads.countP PoolPc.holds = 0 :=
        List.countP_eq_zero.mpr fun p hp hp' => hholds ⟨p, hp, hp'⟩
      rw [hzero, hidle] at howner
      cases hl : s.locked with
      | false => rfl
      | true => rw [hl] at howner; exact absurd howner (Nat.not_succ_le_zero 0)
    obtain ⟨p, hp, hp'⟩ := hready
    obtain ⟨i, hi⟩ := List.mem_iff_getElem?.mp hp
    have hat : p = .lock ∨ p = .woken := by
      have hnot : p.holds ≠ true := fun h => hholds ⟨p, hp, h⟩
      cases p <;> simp_all [PoolPc.ready, PoolPc.holds]
    exact ⟨i, 4, by omega, hands_lock hopen hqueue hlocked hi hat⟩

/-! ## Connections that `closeAll` deletes -/

/-- `closeAll` comes to no connection whose thread is about to delete it. -/
def Unhurried (s : ThreadPool α) : PoolAction α → Prop
  | .shut task => ∀ p ∈ s.threads, p.leaving = true → p.task? ≠ some task
  | _ => True

instance (s : ThreadPool α) : DecidablePred (Unhurried s) := fun a => by
  cases a <;> (unfold Unhurried; infer_instance)

/-- What is in `ongoing` has its thread, and what `closeAll` has deleted no thread deletes. -/
structure Apart (s : ThreadPool α) : Prop where
  ongoing : ∀ task ∈ s.ongoing, ∃ p ∈ s.threads, p.task? = some task ∧ p.listed = true
  shut : ∀ task ∈ s.shut, s.closed = true ∧ task ∉ s.finished ∧
    ∀ p ∈ s.threads, p.leaving = true → p.task? ≠ some task
  nodup : s.shut.Nodup

omit [DecidableEq α] in
/-- A thread that is about to delete a connection was so before, or the pool is open. -/
theorem Apart.shut_set (hs : s.Apart) (hp : s.threads[i]? = some p)
    (hleaving : q.leaving = true → s.closed = true → p.leaving = true ∧ q.task? = p.task?) :
    ∀ task ∈ s.shut, s.closed = true ∧ task ∉ s.finished ∧
      ∀ r ∈ s.threads.set i q, r.leaving = true → r.task? ≠ some task := by
  intro task htask
  obtain ⟨hclosed, hfinished, hthreads⟩ := hs.shut task htask
  refine ⟨hclosed, hfinished, fun r hr hr' => ?_⟩
  rcases List.mem_or_eq_of_mem_set hr with hr | rfl
  · exact hthreads r hr hr'
  · obtain ⟨hp', hsame⟩ := hleaving hr' hclosed
    exact hsame ▸ hthreads p (List.mem_of_getElem? hp) hp'

theorem apart_moves (hs : s.Apart) (hp : s.threads[i]? = some p) (h : Moves s p u q) :
    Apart { u with threads := s.threads.set i q } := by
  cases h with
  | lock hat =>
      refine ⟨fun task htask => Lib.Threads.exists_set hp (fun h => ?_) (hs.ongoing task htask),
        hs.shut_set hp (fun h => absurd h Bool.false_ne_true), hs.nodup⟩
      rcases hat with rfl | rfl <;> exact absurd h.2 Bool.false_ne_true
  | sleep | test | stop | check | pop =>
      exact ⟨fun task htask => Lib.Threads.exists_set hp
          (fun h => absurd h.2 Bool.false_ne_true) (hs.ongoing task htask),
        hs.shut_set hp (fun h => absurd h Bool.false_ne_true), hs.nodup⟩
  | insert task =>
      refine ⟨fun task' htask => ?_,
        hs.shut_set hp (fun h => absurd h Bool.false_ne_true), hs.nodup⟩
      rcases List.mem_insert_iff.mp htask with rfl | htask
      · exact ⟨_, List.mem_set (List.getElem?_eq_some_iff.mp hp).1 _, rfl, rfl⟩
      · exact Lib.Threads.exists_set hp (fun h => absurd h.2 Bool.false_ne_true)
          (hs.ongoing task' htask)
  | run | leave =>
      exact ⟨fun task htask => Lib.Threads.exists_set hp (fun h => ⟨h.1, rfl⟩)
        (hs.ongoing task htask), hs.shut_set hp (fun h => absurd h Bool.false_ne_true), hs.nodup⟩
  | ran hopen =>
      exact ⟨fun task htask => Lib.Threads.exists_set hp (fun h => ⟨h.1, rfl⟩)
        (hs.ongoing task htask), hs.shut_set hp (fun _ hclosed =>
          absurd (hopen.symm.trans hclosed) Bool.false_ne_true),
        hs.nodup⟩
  | erase task =>
      refine ⟨fun task' htask => ?_, hs.shut_set hp (fun _ _ => ⟨rfl, rfl⟩), hs.nodup⟩
      obtain ⟨htask, hne⟩ := List.mem_filter.mp htask
      refine Lib.Threads.exists_set hp (fun h => absurd h.1 fun heq => ?_) (hs.ongoing task' htask)
      cases heq
      simp at hne
  | delete task =>
      have hshut := hs.shut_set (q := .lock) hp (fun h => absurd h Bool.false_ne_true)
      refine ⟨fun task' htask => Lib.Threads.exists_set hp (fun h => absurd h.2 Bool.false_ne_true)
        (hs.ongoing task' htask), fun task' htask => ?_, hs.nodup⟩
      obtain ⟨hclosed, hfinished, hthreads⟩ := hshut task' htask
      refine ⟨hclosed, fun hmem => ?_, hthreads⟩
      rcases List.mem_append.mp hmem with hmem | hmem
      · exact hfinished hmem
      · -- the thread was about to delete it, which `closeAll` has not allowed
        rw [List.mem_singleton.mp hmem] at htask
        exact (hs.shut task htask).2.2 _ (List.mem_of_getElem? hp) rfl rfl

theorem apart_step {a : PoolAction α} (hI : s.Inv) (hs : s.Apart) (ha : Unhurried s a)
    (h : s.step a = some t) : t.Apart := by
  cases does_of_step h with
  | thread hp hmoves => exact apart_moves hs hp hmoves
  | signal _ hp | spurious hp =>
      exact ⟨fun task htask => Lib.Threads.exists_set hp (fun h => absurd h.2 Bool.false_ne_true)
        (hs.ongoing task htask), hs.shut_set hp (fun h => absurd h Bool.false_ne_true), hs.nodup⟩
  | cancelWait _ hp hwaits =>
      refine ⟨fun task htask => Lib.Threads.exists_set hp (fun h => ?_) (hs.ongoing task htask),
        hs.shut_set hp (fun h => absurd h Bool.false_ne_true), hs.nodup⟩
      rcases hwaits with rfl | rfl <;> exact absurd h.2 Bool.false_ne_true
  | cancelRun _ hp =>
      exact ⟨fun task htask => Lib.Threads.exists_set hp (fun h => ⟨h.1, rfl⟩)
        (hs.ongoing task htask), hs.shut_set hp (fun h => absurd h Bool.false_ne_true), hs.nodup⟩
  | close =>
      exact ⟨hs.ongoing, fun task htask => ⟨rfl, (hs.shut task htask).2⟩, hs.nodup⟩
  | broadcast =>
      refine ⟨fun task htask => ?_, fun task htask => ?_, hs.nodup⟩
      · obtain ⟨p, hp, htask, hlisted⟩ := hs.ongoing task htask
        refine ⟨p, List.mem_map.mpr ⟨p, hp, ?_⟩, htask, hlisted⟩
        cases p <;> first | rfl | cases hlisted
      · obtain ⟨hclosed, hfinished, hthreads⟩ := hs.shut task htask
        refine ⟨hclosed, hfinished, fun r hr hr' => ?_⟩
        obtain ⟨p, hp, rfl⟩ := List.mem_map.mp hr
        cases p <;> first | exact hthreads _ hp hr' | cases hr'
  | @shut task hat hmem hnew =>
      have hclosed : s.closed = true := by
        cases hc : s.closed with
        | true => rfl
        | false => exact absurd ((hI.stopping.opened hc).1.symm.trans hat) ClosePc.noConfusion
      refine ⟨hs.ongoing, fun task' htask => ?_,
        List.Nodup.append hs.nodup (List.nodup_singleton _) (List.disjoint_singleton.mpr hnew)⟩
      rcases List.mem_append.mp htask with htask | htask
      · exact hs.shut task' htask
      · rw [List.mem_singleton.mp htask]
        refine ⟨hclosed, fun hfinished => ?_, ha⟩
        -- what is in `ongoing` is with a thread, and what is with a thread is not finished
        obtain ⟨p, hp, hp', -⟩ := hs.ongoing task hmem
        have hnodup : (s.held ++ s.finished).Nodup := hI.queued.served.nodup_iff.mpr
          (List.nodup_append.mp (hI.queued.fifo ▸ hI.queued.nodup)).1
        exact (List.nodup_append.mp hnodup).2.2 task (List.mem_filterMap.mpr ⟨p, hp, hp'⟩) task
          hfinished rfl
  | add | push | nobody | unlock => exact ⟨hs.ongoing, hs.shut, hs.nodup⟩

/-! ## What the pool does -/

/-- **Each connection is in one place.** The queue is served in the order in which the
connections came; each of them is in the queue, with one thread, or deleted, and no thread
comes to the front of an empty queue. -/
theorem served_once {n : Nat} {as : List (PoolAction α)}
    (h : Lib.run step (start n) as = some s) :
    s.added = s.taken ++ s.workQueue ∧ (s.held ++ s.finished ++ s.workQueue).Perm s.added ∧
      s.added.Nodup ∧ (.pop ∈ s.threads → s.workQueue ≠ []) := by
  have hs := inv_run h
  refine ⟨hs.queued.fifo, ?_, hs.queued.nodup, hs.stocked.pop⟩
  rw [hs.queued.fifo]
  exact hs.queued.served.append_right _

/-- Two threads: one sleeps and is woken for connection 7, and connection 8 waits for the other. -/
def busyRun : List (PoolAction Nat) :=
  [.thread 0, .thread 0, .add 7, .push, .signal (some 0), .unlock, .thread 0, .thread 0, .thread 0,
    .thread 0, .add 8, .push, .signal none, .unlock, .thread 0]

theorem busyRun_served_once : ∃ s, Lib.run step (start 2) busyRun = some s ∧
    s.added = s.taken ++ s.workQueue ∧ (s.held ++ s.finished ++ s.workQueue).Perm s.added ∧
      s.added.Nodup ∧ (.pop ∈ s.threads → s.workQueue ≠ []) :=
  ⟨_, rfl, served_once (n := 2) (rfl : Lib.run step (start 2) busyRun = some _)⟩

/-- **No wakeup is lost.** In an open pool, as long as a thread sleeps, there are as many on the
way to the queue as it has connections; and while not every thread is at work, the front of the
queue can be taken in four steps of the threads alone. -/
theorem no_lost_wakeup {n : Nat} {as : List (PoolAction α)}
    (h : Lib.run step (start n) as = some s) (hopen : s.closed = false) (hidle : s.adder = .idle) :
    (.asleep ∈ s.threads → s.workQueue.length ≤ s.threads.countP PoolPc.ready) ∧
    ∀ task rest, s.workQueue = task :: rest → (∃ p ∈ s.threads, p.task? = none) →
      ∃ i n, n ≤ 4 ∧ Hands task s i n := by
  have hs := inv_run h
  have hattended : .asleep ∈ s.threads → s.workQueue.length ≤ s.threads.countP PoolPc.ready := by
    intro hasleep
    rcases hs.attended hopen with hnone | hready
    · exact absurd rfl (List.countP_eq_zero.mp hnone _ hasleep)
    · simpa only [tally, hidle, AddTaskPc.owes, Bool.toNat_false, Nat.sub_zero] using hready
  refine ⟨hattended, fun task rest hqueue ⟨p, hp, hfree⟩ => exists_hands hs hopen hidle hqueue ?_⟩
  by_cases hasleep : .asleep ∈ s.threads
  · have hready := hattended hasleep
    rw [hqueue, List.length_cons] at hready
    exact List.countP_pos_iff.mp (Nat.lt_of_lt_of_le (Nat.succ_pos _) hready)
  · refine ⟨p, hp, ?_⟩
    have hhere := (hs.live hopen).here p hp
    cases p with
    | asleep => exact absurd hp hasleep
    | ended => cases hhere
    | lock | woken | test | check | pop => rfl
    | insert | run | ran | erase | delete => cases hfree

theorem busyRun_hands : ∃ s, Lib.run step (start 2) busyRun = some s ∧
    ∃ i n, n ≤ 4 ∧ Hands 8 s i n :=
  ⟨_, rfl, (no_lost_wakeup (n := 2) (rfl : Lib.run step (start 2) busyRun = some _)
    rfl rfl).2 8 [] rfl
    ⟨.lock, by decide, rfl⟩⟩

/-- **Closing down.** Once `closed` is set at most one more connection is taken from the queue; and
unless `closeAll` comes to a connection whose thread is past its second test of `closed`, no
connection is deleted twice. -/
theorem closes_once {n : Nat} {as : List (PoolAction α)} (h : Lib.run step (start n) as = some s) :
    s.takenClosed ≤ 1 ∧ (Lib.Guarded step Unhurried (start n) as →
      (s.finished ++ s.shut).Nodup) := by
  have hs := inv_run h
  refine ⟨?_, fun hg => ?_⟩
  · cases hc : s.closed with
    | false => exact (hs.stopping.opened hc).2 ▸ Nat.zero_le _
    | true => exact Nat.le_trans (Nat.le_add_right _ _) (hs.stopping.stopped hc)
  · have hapart := Lib.inv_of_guarded (I := fun s => s.Inv ∧ s.Apart)
      (fun _ _ _ hs ha h => ⟨inv_step hs.1 h, apart_step hs.1 hs.2 ha h⟩)
      ⟨inv_start n, ⟨fun _ h => (nomatch h), fun _ h => (nomatch h), List.nodup_nil⟩⟩ hg h
    have hnodup : (s.held ++ s.finished).Nodup := hs.queued.served.nodup_iff.mpr
      (List.nodup_append.mp (hs.queued.fifo ▸ hs.queued.nodup)).1
    refine List.Nodup.append (List.nodup_append.mp hnodup).2.1 hapart.2.nodup
      fun task hf hshut => ?_
    exact (hapart.2.shut task hshut).2.1 hf

/-- Connection 8 is taken although the pool has been closed, and connection 7 is shut. -/
def closingRun : List (PoolAction Nat) :=
  busyRun ++ [.thread 1, .thread 1, .thread 1, .close, .thread 1, .broadcast, .cancel 0, .shut 7,
    .thread 1, .thread 1, .thread 1]

theorem closingRun_closes_once : ∃ s, Lib.run step (start 2) closingRun = some s ∧
    s.takenClosed ≤ 1 ∧ (s.finished ++ s.shut).Nodup :=
  ⟨_, rfl, (closes_once (n := 2) (rfl : Lib.run step (start 2) closingRun = some _)).1,
    (closes_once (n := 2) (rfl : Lib.run step (start 2) closingRun = some _)).2 (by decide)⟩

/-- Where `closeAll` is hasty, a connection is deleted by its thread and by `closeAll`. -/
theorem shut_twice : ∃ as s, Lib.run step (start 1) as = some s ∧ s.finished = [7] ∧ s.shut = [7] :=
  ⟨[.add 7, .push, .signal none, .unlock, .thread 0, .thread 0, .thread 0, .thread 0, .thread 0,
    .thread 0, .thread 0, .close, .broadcast, .shut 7, .thread 0, .thread 0], _, rfl, rfl, rfl⟩

end ThreadPool

end PennCloud
