import PennCloud.Lib.Runs
import PennCloud.Store.Server

/-!
# A replica's rejoin

`BackStore` keeps, for each replica, a state, a connection and a list of
held-back commands, and no lock. `push` and `poll` read the connection, test the
state, and write to the connection or append to the list. `recover` sets state 2;
`reconnect` installs a new connection, sends and pops the held-back commands until
it finds the list empty, sends whatever is in the list once more, and sets state 1.

Here each read and each write is a step of its own, and the workers' pushes run
interleaved with the one `reconnect`. A command that is appended after the list
was found empty stays in it; one that is tested around the switch to state 1, or
written to a connection that was read before it, is lost; and two pushes can
overtake each other. `Timely` excludes these, and nothing else.
-/

namespace PennCloud

/-- A `Connection*` of the replica: null, the one before the rejoin, or the new one. -/
inductive Conn
  | null | old | new
  deriving DecidableEq, Repr

/-- Where a `push` or `poll` is. -/
inductive PushPc
  /-- About to read the connection. -/
  | begun
  /-- About to test `state == 1`. -/
  | loaded (c : Conn)
  /-- About to write to the connection it has read. -/
  | writing (c : Conn)
  /-- About to test `state == 2`. -/
  | second
  /-- About to append to `holdBack`. -/
  | holding
  /-- Its write has failed; about to set state 3. -/
  | failing
  deriving DecidableEq, Repr

/-- A `push` or `poll` in progress. -/
structure Push where
  command : Forward
  pc : PushPc
  deriving DecidableEq, Repr

/-- Where `reconnect` is. -/
inductive ReconnectPc
  /-- Not called yet, or still connecting. -/
  | connecting
  /-- About to test whether `holdBack` is empty. -/
  | testing
  /-- About to read the front. -/
  | fronting
  /-- About to write what it read. -/
  | sending (command : Forward)
  /-- About to pop it. -/
  | popping
  /-- In the loop over what is left, at this index. -/
  | leftovers (i : Nat)
  /-- Done: state 1. -/
  | finished
  deriving DecidableEq, Repr

/-- One replica in the `BackStore`, from `recover` on. -/
structure Rejoin where
  /-- `Replicate::state`. -/
  state : Nat := 2
  connection : Conn
  holdBack : List Forward := []
  /-- The pushes in progress, oldest first. -/
  pushes : List Push := []
  reconnect : ReconnectPc := .connecting
  /-- What has been written to the new connection. -/
  written : List Forward := []
  /-- Every command pushed or polled, in the order of the calls. -/
  issued : List Forward := []
  deriving DecidableEq, Repr

/-- One read or write. -/
inductive RejoinAction
  /-- A worker calls `push` or `poll`. -/
  | call (command : Forward)
  /-- The `i`-th oldest push takes a step. -/
  | push (i : Nat)
  | reconnect
  deriving DecidableEq, Repr

namespace Rejoin

/-- Just after `recover`: state 2, and nothing pushed since. -/
def start (connection : Conn) : Rejoin := { connection := connection }

/-- What follows a passed `state == 1` test; `poll` also asks for a connection. -/
def afterTest (command : Forward) (c : Conn) : PushPc :=
  match command, c with
  | .delete .., .null => .second
  | _, c => .writing c

/-- The `i`-th push goes on at `pc`. -/
def goTo (s : Rejoin) (i : Nat) (p : Push) (pc : PushPc) : Rejoin :=
  { s with pushes := s.pushes.set i { p with pc := pc } }

/-- The `i`-th push returns. -/
def leave (s : Rejoin) (i : Nat) : Rejoin := { s with pushes := s.pushes.eraseIdx i }

/-- A step of the `i`-th push. Writing through the null pointer ends the process. -/
def pushStep (s : Rejoin) (i : Nat) (p : Push) : Option Rejoin :=
  match p.pc with
  | .begun => some (s.goTo i p (.loaded s.connection))
  | .loaded c =>
      if s.state = 1 then some (s.goTo i p (afterTest p.command c))
      else some (s.goTo i p .second)
  | .writing .null => none
  | .writing .old => some (s.goTo i p .failing)
  | .writing .new => some { s.leave i with written := s.written ++ [p.command] }
  | .second => if s.state = 2 then some (s.goTo i p .holding) else some (s.leave i)
  | .holding => some { s.leave i with holdBack := s.holdBack ++ [p.command] }
  | .failing => some { s.leave i with state := 3 }

/-- A step of `reconnect`. -/
def reconnectStep (s : Rejoin) : Option Rejoin :=
  match s.reconnect with
  | .connecting => some { s with connection := .new, reconnect := .testing }
  | .testing =>
      some { s with reconnect := if s.holdBack.isEmpty then .leftovers 0 else .fronting }
  | .fronting => s.holdBack.head?.map fun f => { s with reconnect := .sending f }
  | .sending f => some { s with written := s.written ++ [f], reconnect := .popping }
  | .popping => some { s with holdBack := s.holdBack.tail, reconnect := .testing }
  | .leftovers i =>
    match s.holdBack[i]? with
    | some f => some { s with written := s.written ++ [f], reconnect := .leftovers (i + 1) }
    | none => some { s with state := 1, reconnect := .finished }
  | .finished => none

def step (s : Rejoin) : RejoinAction → Option Rejoin
  | .call command =>
      some { s with
        pushes := s.pushes ++ [{ command := command, pc := .begun }]
        issued := s.issued ++ [command] }
  | .push i => s.pushes[i]?.bind (s.pushStep i)
  | .reconnect => s.reconnectStep

end Rejoin

/-- `reconnect` will test `holdBack` again. -/
def ReconnectPc.flushing : ReconnectPc → Bool
  | .leftovers _ | .finished => false
  | _ => true

/-- The condition on the step of a push, by where it is. -/
def Rejoin.PushTimely (s : Rejoin) (i : Nat) : PushPc → Prop
  | .writing c => i = 0 ∧ c = .new
  | .second => s.state = 2
  | .holding => i = 0 ∧ s.reconnect.flushing = true
  | _ => True

/--
A push delivers its command before any later one does, to the new connection or
to a list that will still be flushed; and the state it has tested not to be 1 is
still 2.
-/
def RejoinAction.Timely (s : Rejoin) : RejoinAction → Prop
  | .push i => ∀ p ∈ s.pushes[i]?, s.PushTimely i p.pc
  | _ => True

instance (s : Rejoin) (i : Nat) : DecidablePred (s.PushTimely i) := fun pc => by
  cases pc <;> (unfold Rejoin.PushTimely; infer_instance)

instance (s : Rejoin) : DecidablePred (RejoinAction.Timely s) := fun a => by
  cases a <;> (unfold RejoinAction.Timely; infer_instance)

/-- After the rejoin everything issued has been written, once and in order. -/
def Rejoin.Complete (s : Rejoin) : Prop :=
  s.reconnect = .finished → s.pushes = [] →
    s.state = 1 ∧ s.written = s.issued ∧ s.holdBack = []

/-! ## The invariant -/

/-- The held-back commands that have not been sent yet. -/
def Rejoin.queue (s : Rejoin) : List Forward :=
  match s.reconnect with
  | .popping => s.holdBack.tail
  | _ => s.holdBack

/--
Every issued command is written, queued or still with its push, in that order;
and what `reconnect` has established at each of its steps.
-/
structure Rejoin.Inv (s : Rejoin) : Prop where
  ledger : s.issued = s.written ++ s.queue ++ s.pushes.map Push.command
  stateFlushing : s.reconnect ≠ .finished → s.state = 2
  stateFinished : s.reconnect = .finished → s.state = 1
  /-- A push writes only when the rejoin is over. -/
  writers : ∀ p ∈ s.pushes, ∀ c, p.pc = .writing c → s.reconnect = .finished
  noFailing : ∀ p ∈ s.pushes, p.pc ≠ .failing
  empty : s.reconnect.flushing = false → s.holdBack = []
  front : ∀ f, s.reconnect = .sending f → s.holdBack.head? = some f
  nonempty : s.reconnect = .fronting ∨ s.reconnect = .popping → s.holdBack ≠ []

section Steps

variable {s t : Rejoin}

theorem commands_set {ps : List Push} {i : Nat} {p : Push} (hp : ps[i]? = some p) (pc : PushPc) :
    (ps.set i { p with pc := pc }).map Push.command = ps.map Push.command := by
  obtain ⟨hi, rfl⟩ := List.getElem?_eq_some_iff.mp hp
  have hget : (ps.map Push.command).get ⟨i, by simpa using hi⟩ = ps[i].command := by simp
  rw [List.map_set, show ({ ps[i] with pc := pc } : Push).command = ps[i].command from rfl, ← hget]
  exact List.set_getElem_self _

/-- A push that only moves on keeps the invariant. -/
theorem inv_goTo (hs : s.Inv) {i : Nat} {p : Push} (hp : s.pushes[i]? = some p) {pc : PushPc}
    (hpc : pc ≠ .failing) (hwrite : ∀ c, pc = .writing c → s.reconnect = .finished) :
    (s.goTo i p pc).Inv := by
  refine ⟨?_, hs.stateFlushing, hs.stateFinished, ?_, ?_, hs.empty, hs.front, hs.nonempty⟩
  · rw [show (s.goTo i p pc).pushes = s.pushes.set i { p with pc := pc } from rfl,
      commands_set hp]
    exact hs.ledger
  · intro p' hp' c hc
    rcases List.mem_or_eq_of_mem_set hp' with hp' | rfl
    · exact hs.writers p' hp' c hc
    · exact hwrite c hc
  · intro p' hp'
    rcases List.mem_or_eq_of_mem_set hp' with hp' | rfl
    · exact hs.noFailing p' hp'
    · exact hpc

/-- The oldest push appends to a list that will still be flushed. -/
theorem inv_hold (hs : s.Inv) {p : Push} (hp : s.pushes[0]? = some p)
    (hflush : s.reconnect.flushing = true) :
    ({ s.leave 0 with holdBack := s.holdBack ++ [p.command] } : Rejoin).Inv := by
  obtain ⟨rest, hrest⟩ : ∃ rest, s.pushes = p :: rest := by
    cases hps : s.pushes with
    | nil => rw [hps] at hp; cases hp
    | cons q rest => rw [hps] at hp; cases hp; exact ⟨rest, rfl⟩
  have hleave : (s.leave 0).pushes = rest := by rw [Rejoin.leave, hrest]; rfl
  have hsub : ∀ q ∈ rest, q ∈ s.pushes := fun q hq => hrest ▸ List.mem_cons_of_mem _ hq
  refine ⟨?_, hs.stateFlushing, hs.stateFinished, ?_, ?_, ?_, ?_, ?_⟩
  · -- the command moves from the first push to the end of the queue
    have hqueue : Rejoin.queue { s.leave 0 with holdBack := s.holdBack ++ [p.command] }
        = s.queue ++ [p.command] := by
      cases hr : s.reconnect with
      | popping =>
          have hne := hs.nonempty (Or.inr hr)
          simp only [Rejoin.queue, Rejoin.leave, hr]
          exact List.tail_append_of_ne_nil hne
      | _ => simp only [Rejoin.queue, Rejoin.leave, hr]
    rw [hqueue]
    show s.issued = s.written ++ _ ++ (s.leave 0).pushes.map Push.command
    rw [hleave, hs.ledger, hrest]
    simp
  · exact fun q hq => hs.writers q (hsub q (hleave ▸ hq))
  · exact fun q hq => hs.noFailing q (hsub q (hleave ▸ hq))
  · intro h
    rw [show s.reconnect.flushing = false from h] at hflush
    cases hflush
  · intro f hf
    have hhead := hs.front f hf
    show (s.holdBack ++ [p.command]).head? = some f
    rw [List.head?_append, hhead]
    rfl
  · intro _
    simp

/-- After the rejoin the oldest push writes to the new connection. -/
theorem inv_write (hs : s.Inv) {p : Push} (hp : s.pushes[0]? = some p)
    (hpc : p.pc = .writing .new) :
    ({ s.leave 0 with written := s.written ++ [p.command] } : Rejoin).Inv := by
  obtain ⟨rest, hrest⟩ : ∃ rest, s.pushes = p :: rest := by
    cases hps : s.pushes with
    | nil => rw [hps] at hp; cases hp
    | cons q rest => rw [hps] at hp; cases hp; exact ⟨rest, rfl⟩
  have hleave : (s.leave 0).pushes = rest := by rw [Rejoin.leave, hrest]; rfl
  have hsub : ∀ q ∈ rest, q ∈ s.pushes := fun q hq => hrest ▸ List.mem_cons_of_mem _ hq
  have hfin : s.reconnect = .finished :=
    hs.writers p (hrest ▸ List.mem_cons_self ..) _ hpc
  have hempty := hs.empty (by rw [hfin]; rfl)
  refine ⟨?_, hs.stateFlushing, hs.stateFinished, ?_, ?_, hs.empty, hs.front, hs.nonempty⟩
  · have hqueue : s.queue = [] := by rw [Rejoin.queue, hfin]; exact hempty
    show s.issued = s.written ++ [p.command] ++ s.queue ++ (s.leave 0).pushes.map Push.command
    rw [hleave, hs.ledger, hrest, hqueue]
    simp
  · exact fun q hq => hs.writers q (hsub q (hleave ▸ hq))
  · exact fun q hq => hs.noFailing q (hsub q (hleave ▸ hq))

theorem inv_pushStep (hs : s.Inv) {i : Nat} {p : Push} (hp : s.pushes[i]? = some p)
    (ht : s.PushTimely i p.pc) (h : s.pushStep i p = some t) : t.Inv := by
  have hmem : p ∈ s.pushes := List.mem_of_getElem? hp
  unfold Rejoin.pushStep at h
  split at h
  · cases h
    exact inv_goTo hs hp (by simp) (fun c hc => (by cases hc))
  · split at h
    · -- the state is 1, so the rejoin is over
      rename_i hone
      cases h
      have hfin : s.reconnect = .finished := by
        by_contra hne
        rw [hs.stateFlushing hne] at hone
        cases hone
      refine inv_goTo hs hp ?_ (fun _ _ => hfin)
      unfold Rejoin.afterTest
      split <;> simp
    · cases h
      exact inv_goTo hs hp (by simp) (fun c hc => (by cases hc))
  · cases h
  · -- the connection it loaded is the old one, which no timely push writes to
    rename_i hpc
    rw [hpc] at ht
    exact absurd ht.2 (by decide)
  · rename_i hpc
    rw [hpc] at ht
    obtain ⟨rfl, -⟩ := ht
    cases h
    exact inv_write hs hp hpc
  · rename_i hpc
    rw [hpc] at ht
    rw [if_pos (show s.state = 2 from ht)] at h
    cases h
    exact inv_goTo hs hp (by simp) (fun c hc => (by cases hc))
  · rename_i hpc
    rw [hpc] at ht
    obtain ⟨rfl, hflush⟩ := ht
    cases h
    exact inv_hold hs hp hflush
  · rename_i hpc
    exact absurd hpc (hs.noFailing p hmem)

theorem queue_of_ne (h : s.reconnect ≠ .popping) : s.queue = s.holdBack := by
  unfold Rejoin.queue
  split
  · rename_i hr; exact absurd hr h
  · rfl

theorem queue_popping (h : s.reconnect = .popping) : s.queue = s.holdBack.tail := by
  rw [Rejoin.queue, h]

/-- What every step of `reconnect` leaves alone: the pushes, and state 2 until it is done. -/
theorem inv_advance (hs : s.Inv) (hr : s.reconnect ≠ .finished) (hpushes : t.pushes = s.pushes)
    (hledger : t.issued = t.written ++ t.queue ++ t.pushes.map Push.command)
    (hstate : t.reconnect ≠ .finished → t.state = s.state)
    (hfin : t.reconnect = .finished → t.state = 1)
    (hempty : t.reconnect.flushing = false → t.holdBack = [])
    (hfront : ∀ f, t.reconnect = .sending f → t.holdBack.head? = some f)
    (hne : t.reconnect = .fronting ∨ t.reconnect = .popping → t.holdBack ≠ []) : t.Inv :=
  ⟨hledger, fun h => (hstate h).trans (hs.stateFlushing hr), hfin,
    fun p hp c hc => absurd (hs.writers p (hpushes ▸ hp) c hc) hr,
    fun p hp => hs.noFailing p (hpushes ▸ hp), hempty, hfront, hne⟩

theorem inv_reconnectStep (hs : s.Inv) (h : s.reconnectStep = some t) : t.Inv := by
  have hledger := hs.ledger
  cases hr : s.reconnect with
  | connecting =>
      rw [queue_of_ne (by rw [hr]; simp)] at hledger
      simp only [Rejoin.reconnectStep, hr] at h
      cases h
      exact inv_advance hs (by rw [hr]; simp) rfl hledger (fun _ => rfl) (fun h => (by cases h))
        (fun h => (by cases h)) (fun _ h => (by cases h)) (by simp)
  | testing =>
      -- an empty queue is left for good, from any other the front is taken
      rw [queue_of_ne (by rw [hr]; simp)] at hledger
      simp only [Rejoin.reconnectStep, hr] at h
      cases h
      cases hb : s.holdBack with
      | nil =>
          rw [hb] at hledger
          exact inv_advance hs (by rw [hr]; simp) rfl hledger (fun _ => rfl) (fun h => (by cases h))
            (fun _ => rfl) (fun _ h => (by cases h)) (by simp)
      | cons f fs =>
          rw [hb] at hledger
          exact inv_advance hs (by rw [hr]; simp) rfl hledger (fun _ => rfl) (fun h => (by cases h))
            (fun h => (by cases h)) (fun _ h => (by cases h)) (by simp)
  | fronting =>
      rw [queue_of_ne (by rw [hr]; simp)] at hledger
      simp only [Rejoin.reconnectStep, hr, Option.map_eq_some_iff] at h
      obtain ⟨f, hf, rfl⟩ := h
      exact inv_advance hs (by rw [hr]; simp) rfl hledger (fun _ => rfl) (fun h => (by cases h))
        (fun h => (by cases h)) (fun g hg => by cases hg; exact hf) (by simp)
  | sending f =>
      rw [queue_of_ne (by rw [hr]; simp)] at hledger
      have hhead := hs.front f hr
      simp only [Rejoin.reconnectStep, hr] at h
      cases h
      -- the front is written now, and out of the queue although not yet popped
      obtain ⟨fs, hb⟩ : ∃ fs, s.holdBack = f :: fs := by
        cases hb : s.holdBack with
        | nil => rw [hb] at hhead; cases hhead
        | cons g fs => rw [hb] at hhead; cases hhead; exact ⟨fs, rfl⟩
      refine inv_advance hs (by rw [hr]; simp) rfl ?_ (fun _ => rfl) (fun h => (by cases h))
        (fun h => (by cases h)) (fun _ h => (by cases h)) (fun _ => by simp [hb])
      rw [queue_popping rfl]
      show s.issued = s.written ++ [f] ++ s.holdBack.tail ++ s.pushes.map Push.command
      rw [hledger, hb]
      simp
  | popping =>
      -- the front has been written already: only what is behind it counts as queued
      rw [queue_popping hr] at hledger
      simp only [Rejoin.reconnectStep, hr] at h
      cases h
      exact inv_advance hs (by rw [hr]; simp) rfl hledger (fun _ => rfl) (fun h => (by cases h))
        (fun h => (by cases h)) (fun _ h => (by cases h)) (by simp)
  | leftovers i =>
      -- the queue is empty by now, so that there is nothing to go over
      rw [queue_of_ne (by rw [hr]; simp)] at hledger
      have hempty := hs.empty (by rw [hr]; rfl)
      simp only [Rejoin.reconnectStep, hr, hempty, List.getElem?_nil] at h
      cases h
      exact inv_advance hs (by rw [hr]; simp) rfl (hempty ▸ hledger) (fun h => absurd rfl h)
        (fun _ => rfl) (fun _ => rfl) (fun _ h => (by cases h)) (by simp)
  | finished =>
      simp only [Rejoin.reconnectStep, hr] at h
      cases h

end Steps

/-- **One step keeps the ledger**, if it is timely. -/
theorem rejoin_inv_step {s t : Rejoin} {a : RejoinAction} (hs : s.Inv) (ha : a.Timely s)
    (h : s.step a = some t) : t.Inv := by
  cases a with
  | call command =>
      cases h
      refine ⟨?_, hs.stateFlushing, hs.stateFinished, ?_, ?_, hs.empty, hs.front, hs.nonempty⟩
      · show s.issued ++ [command] = s.written ++ s.queue ++ _
        rw [hs.ledger]
        simp
      · intro p hp c hc
        rcases List.mem_append.mp hp with hp | hp
        · exact hs.writers p hp c hc
        · rw [List.mem_singleton.mp hp] at hc
          cases hc
      · intro p hp
        rcases List.mem_append.mp hp with hp | hp
        · exact hs.noFailing p hp
        · rw [List.mem_singleton.mp hp]
          simp
  | push i =>
      rw [Rejoin.step, Option.bind_eq_some_iff] at h
      obtain ⟨p, hp, h⟩ := h
      exact inv_pushStep hs hp (ha p hp) h
  | reconnect => exact inv_reconnectStep hs h

theorem rejoin_inv_start (c : Conn) : (Rejoin.start c).Inv :=
  ⟨rfl, fun _ => rfl, fun h => (by cases h), fun _ h => (by cases h), fun _ h => (by cases h),
    fun h => (by cases h), fun _ h => (by cases h), fun h => by rcases h with h | h <;> cases h⟩

/--
**No update is lost or duplicated around a rejoin.** In every state of a timely
run from `recover` on, once `reconnect` is done and no push is in progress, the
commands issued since are on the new connection, once each and in order, and none
is held back.
-/
theorem complete_of_timely {c : Conn} {as : List RejoinAction} {t : Rejoin}
    (hg : Lib.Guarded Rejoin.step RejoinAction.Timely (Rejoin.start c) as)
    (hr : Lib.run Rejoin.step (Rejoin.start c) as = some t) : t.Complete := by
  have ht : t.Inv := Lib.inv_of_guarded (fun _ _ _ => rejoin_inv_step) (rejoin_inv_start c) hg hr
  intro hfin hnone
  have hempty := ht.empty (by rw [hfin]; rfl)
  have hledger := ht.ledger
  rw [queue_of_ne (by rw [hfin]; simp), hempty, hnone] at hledger
  exact ⟨ht.stateFinished hfin, by simpa using hledger.symm, hempty⟩

/-- Commands pushed before, during and after the flush. -/
def heldBack : List RejoinAction :=
  [.call (.put ['a'] ['x'] ['1'] 1), .push 0, .push 0, .reconnect, .push 0, .push 0,
   .call (.delete ['a'] ['x'] 2), .reconnect, .reconnect, .push 0, .push 0, .reconnect, .push 0,
   .push 0, .reconnect, .reconnect, .reconnect, .reconnect, .reconnect, .reconnect, .reconnect,
   .call (.put ['a'] ['y'] ['3'] 3), .push 0, .push 0, .push 0]

theorem heldBack_complete :
    ∃ t, Lib.run Rejoin.step (Rejoin.start .old) heldBack = some t ∧ t.reconnect = .finished ∧
      t.pushes = [] ∧ t.issued.length = 3 ∧ t.Complete :=
  ⟨_, rfl, rfl, rfl, rfl, complete_of_timely (by decide : Lib.Guarded Rejoin.step
    RejoinAction.Timely (Rejoin.start .old) heldBack) rfl⟩

/-- A push finds state 2, and appends when `reconnect` has already found the list empty. -/
def lateAppend : List RejoinAction :=
  [.call (.put ['a'] ['x'] ['1'] 1), .push 0, .push 0, .push 0, .reconnect, .reconnect, .reconnect,
   .push 0]

/-- After `lateAppend` the command is held back for good. -/
theorem lateAppend_lost :
    ∃ t, Lib.run Rejoin.step (Rejoin.start .old) lateAppend = some t ∧ t.reconnect = .finished ∧
      t.pushes = [] ∧ t.written = [] ∧ t.issued = [.put ['a'] ['x'] ['1'] 1] ∧ ¬ t.Complete := by
  refine ⟨_, rfl, rfl, rfl, rfl, rfl, fun h => ?_⟩
  exact absurd (h rfl rfl).2.1 (by decide)

end PennCloud
