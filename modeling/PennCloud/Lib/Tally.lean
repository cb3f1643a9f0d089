import Mathlib.Init

/-!
# Sleepers and their work

A queue of work and the threads that take from it, seen as three counts: what
waits in the queue, who sleeps on the condition variable, and who is up and on the
way to the queue. Whoever is at work is in none of them.

One arrival wakes one sleeper, and a thread goes to sleep only at an empty queue.
`Attended` says that this is enough: as long as anybody sleeps, there are as many
on the way as there is work. It does not ask that a woken thread finds the work it
was woken for, nor that nobody is woken without a cause.
-/

namespace Lib

/-- A queue and its threads, counted. -/
structure Tally where
  items : Nat
  asleep : Nat
  ready : Nat

namespace Tally

/-- What can happen to the counts. -/
inductive Step (s t : Tally) : Prop
  /-- Nothing that is counted. -/
  | stay (hitems : t.items = s.items) (hasleep : t.asleep = s.asleep) (hready : t.ready = s.ready)
  /-- Work arrives and wakes a sleeper. -/
  | arriveWake (hitems : t.items = s.items + 1) (hasleep : s.asleep = t.asleep + 1)
      (hready : t.ready = s.ready + 1)
  /-- Work arrives and nobody sleeps. -/
  | arrive (hasleep : t.asleep = 0)
  /-- A thread finds the queue empty. -/
  | sleep (hitems : t.items = 0)
  /-- A thread takes its work. -/
  | take (hitems : s.items = t.items + 1) (hasleep : t.asleep = s.asleep)
      (hready : s.ready = t.ready + 1)
  /-- A thread comes back from its work. -/
  | back (hitems : t.items = s.items) (hasleep : t.asleep = s.asleep)
      (hready : t.ready = s.ready + 1)
  /-- A thread wakes up by itself. -/
  | wake (hitems : t.items = s.items) (hasleep : s.asleep = t.asleep + 1)
      (hready : t.ready = s.ready + 1)

/-- While anybody sleeps, somebody is on the way for each piece of work. -/
def Attended (t : Tally) : Prop := t.asleep = 0 ∨ t.items ≤ t.ready

/-- **No wakeup is lost.** -/
theorem Step.attended {s t : Tally} (h : Step s t) (hs : s.Attended) : t.Attended := by
  unfold Attended at hs ⊢
  cases h with
  | arrive hasleep => exact Or.inl hasleep
  | sleep hitems => exact Or.inr (hitems ▸ Nat.zero_le _)
  | stay | arriveWake | take | back | wake => omega

end Tally

end Lib
