import PennCloud.Lib.Runs
import PennCloud.Frontend.Balancer
import Mathlib.Data.List.Perm.Subperm

/-!
# The health checks of the load balancer

A thread walks over the queue of servers by index: it reads the address at index
`i`, tries to connect, and sets `running` of the entry at index `i`. Meanwhile the
main loop takes servers from the front of the queue and puts them to the back, so
the entry at index `i` may be another one by then, and an entry may come to stand
where the thread has been already. The steps here are single rotations, single
reads and single writes, in any order, which is more than the lock allows.
-/

namespace PennCloud

open Balancer

/-- Where the main loop stands. -/
inductive Accepting
  | idle
  /-- In the loop over the servers that are not running. -/
  | skipping (count : Nat)
  /-- About to put the used server to the back. -/
  | found

/-- Where `check_server_state` stands. -/
inductive Checking
  /-- About to read the address at index `i`. -/
  | reading (i : Nat)
  /-- It has tried to connect to server `slot`, and is about to write at index `i`. -/
  | writing (i slot : Nat) (up : Bool)
  /-- Behind a round. -/
  | sleeping
  deriving DecidableEq

/-- A write of a running flag. -/
structure FlagWrite where
  /-- The server whose flag it is. -/
  slot : Nat
  running : Bool
  /-- The outcome of the last connection to that server. -/
  last : Option Bool

/-- The queue with the two threads; a server is known by its place in the configuration. -/
structure HealthCheck where
  servers : List (Server × Nat)
  accepting : Accepting := .idle
  checking : Checking := .reading 0
  /-- All connections so far, the last one first. -/
  probes : List (Nat × Bool) := []
  /-- Those of this round. -/
  round : List (Nat × Bool) := []
  writes : List FlagWrite := []

/-- Which thread goes on; for a connection, whether it succeeds. -/
inductive HealthTurn
  | accept
  | check (up : Bool)

namespace HealthCheck

/-- As `parse_all_server` leaves it. -/
def start (config : List Server) : HealthCheck := { servers := config.zipIdx }

/-- The next step of the main loop. -/
def stepAccept (s : HealthCheck) : Option HealthCheck :=
  match s.accepting, s.servers with
  | .idle, _ => some { s with accepting := .skipping 0 }
  | .skipping count, tmp :: rest =>
    if tmp.1.running then some { s with accepting := .found }
    else some { s with
      servers := rest ++ [tmp]
      accepting := if count + 1 = (rest ++ [tmp]).length then .idle else .skipping (count + 1) }
  | .found, tmp :: rest => some { s with servers := rest ++ [tmp], accepting := .idle }
  | _, [] => none

/-- The next step of `check_server_state`. -/
def stepCheck (up : Bool) (s : HealthCheck) : Option HealthCheck :=
  match s.checking with
  | .reading i =>
    match s.servers[i]? with
    | some tmp => some { s with
        checking := .writing i tmp.2 up
        probes := (tmp.2, up) :: s.probes
        round := (tmp.2, up) :: s.round }
    | none => some { s with checking := .sleeping }
  | .writing i _ up => s.servers[i]?.map fun tmp => { s with
      servers := s.servers.set i ({ tmp.1 with running := up }, tmp.2)
      checking := .reading (i + 1)
      writes := { slot := tmp.2, running := up, last := s.probes.lookup tmp.2 } :: s.writes }
  | .sleeping => some { s with checking := .reading 0, round := [] }

def step (s : HealthCheck) : HealthTurn → Option HealthCheck
  | .accept => s.stepAccept
  | .check up => s.stepCheck up

/-- What the flags are for. -/
structure Recorded (s : HealthCheck) : Prop where
  /-- Each write is the outcome of the last connection to that server. -/
  writes : ∀ w ∈ s.writes, w.last = some w.running
  /-- Behind a round in which the servers have not changed every flag is right. -/
  flags : s.checking = .sleeping → ∀ alive : Nat → Bool, (∀ p ∈ s.round, p.2 = alive p.1) →
    ∀ e ∈ s.servers, e.1.running = alive e.2

/-- The thread reads a server that it has not read in this round, and writes where it stands. -/
def Unturned (s : HealthCheck) : HealthTurn → Prop
  | .accept => True
  | .check _ =>
    match s.checking with
    | .reading i => ∀ e ∈ s.servers[i]?, e.2 ∉ s.round.map Prod.fst
    | .writing i slot _ => ∀ e ∈ s.servers[i]?, e.2 = slot
    | .sleeping => True

end HealthCheck

/-! ## What has been noted -/

/-- The connections of a round, each to another server of the queue, are what its flags say. -/
structure Noted (servers : List (Server × Nat)) (round : List (Nat × Bool)) : Prop where
  once : (round.map Prod.fst).Nodup
  known : ∀ p ∈ round, p.1 ∈ servers.map Prod.snd
  flags : ∀ e ∈ servers, ∀ up, (e.2, up) ∈ round → e.1.running = up

section Noted

variable {servers queue : List (Server × Nat)} {round : List (Nat × Bool)}

theorem noted_nil (servers : List (Server × Nat)) : Noted servers [] :=
  ⟨List.nodup_nil, fun _ hp => absurd hp List.not_mem_nil, fun _ _ _ hp =>
    absurd hp List.not_mem_nil⟩

/-- The order of the queue does not matter. -/
theorem Noted.perm (h : Noted servers round) (hperm : queue.Perm servers) : Noted queue round where
  once := h.once
  known p hp := (hperm.map Prod.snd).mem_iff.mpr (h.known p hp)
  flags e he := h.flags e (hperm.mem_iff.mp he)

/-- A full round has been to every server. -/
theorem Noted.all (h : Noted servers round) (hlength : round.length = servers.length)
    {e : Server × Nat} (he : e ∈ servers) : (e.2, e.1.running) ∈ round := by
  have hsub : round.map Prod.fst ⊆ servers.map Prod.snd := by
    intro slot hslot
    obtain ⟨p, hp, rfl⟩ := List.mem_map.mp hslot
    exact h.known p hp
  have hperm : (round.map Prod.fst).Perm (servers.map Prod.snd) :=
    (List.subperm_of_subset h.once hsub).perm_of_length_le
      (by rw [List.length_map, List.length_map, hlength])
  obtain ⟨p, hp, hpe⟩ := List.mem_map.mp (hperm.mem_iff.mpr (List.mem_map_of_mem he))
  obtain ⟨slot, up⟩ := p
  obtain rfl : slot = e.2 := hpe
  rw [h.flags e he up hp]
  exact hp

/-- A flag is written, not a server. -/
theorem slots_set {i : Nat} {up : Bool} {tmp : Server × Nat} (hi : servers[i]? = some tmp) :
    (servers.set i ({ tmp.1 with running := up }, tmp.2)).map Prod.snd = servers.map Prod.snd := by
  refine List.ext_getElem? fun j => ?_
  rw [List.getElem?_map, List.getElem?_set, List.getElem?_map]
  split
  · rename_i hij
    rw [if_pos (List.getElem?_eq_some_iff.mp hi).1, ← hij, hi]
    rfl
  · rfl

/-- The flag of the server that has been tried is written. -/
theorem Noted.set {i slot : Nat} {tmp : Server × Nat} (up : Bool) (h : Noted servers round)
    (hslots : (servers.map Prod.snd).Nodup) (hnew : slot ∉ round.map Prod.fst)
    (hi : servers[i]? = some tmp) (htmp : tmp.2 = slot) :
    Noted (servers.set i ({ tmp.1 with running := up }, tmp.2)) ((slot, up) :: round) := by
  refine ⟨List.nodup_cons.mpr ⟨hnew, h.once⟩, fun p hp => ?_, fun e he v hv => ?_⟩
  · rw [slots_set hi]
    rcases List.mem_cons.mp hp with rfl | hp
    · exact htmp ▸ List.mem_map_of_mem (List.mem_of_getElem? hi)
    · exact h.known p hp
  · obtain ⟨j, hj⟩ := List.mem_iff_getElem?.mp he
    rw [List.getElem?_set] at hj
    split at hj
    · -- the entry written
      rw [if_pos (List.getElem?_eq_some_iff.mp hi).1] at hj
      cases hj
      rcases List.mem_cons.mp hv with hv | hv
      · exact (Prod.mk.inj hv).2.symm
      · exact absurd (htmp ▸ List.mem_map_of_mem hv) hnew
    · -- another one, which is another server
      rename_i hij
      rcases List.mem_cons.mp hv with hv | hv
      · have hsame : (servers.map Prod.snd)[i]? = (servers.map Prod.snd)[j]? := by
          rw [List.getElem?_map, List.getElem?_map, hi, hj, Option.map_some, Option.map_some, htmp,
            (Prod.mk.inj hv).1]
        have hlt : i < (servers.map Prod.snd).length := by
          rw [List.length_map]
          exact (List.getElem?_eq_some_iff.mp hi).1
        exact absurd ((List.getElem?_inj hlt hslots).mp hsame) hij
      · exact h.flags e (List.mem_of_getElem? hj) v hv

end Noted

namespace HealthCheck

/-- What the thread has noted, wherever it stands. -/
def Tracked (s : HealthCheck) : Prop :=
  match s.checking with
  | .reading i => s.round.length = i ∧ i ≤ s.servers.length ∧ Noted s.servers s.round
  | .writing i slot up => ∃ rest, s.round = (slot, up) :: rest ∧ rest.length = i ∧
      slot ∉ rest.map Prod.fst ∧ s.probes.head? = some (slot, up) ∧ Noted s.servers rest
  | .sleeping => s.round.length = s.servers.length ∧ Noted s.servers s.round

structure Inv (s : HealthCheck) : Prop where
  slots : (s.servers.map Prod.snd).Nodup
  writes : ∀ w ∈ s.writes, w.last = some w.running
  tracked : s.Tracked

variable {s t : HealthCheck}

/-- The main loop changes the order of the queue and nothing else. -/
theorem stepAccept_cases (h : s.stepAccept = some t) :
    ∃ queue accepting, t = { s with servers := queue, accepting := accepting } ∧
      queue.Perm s.servers := by
  have hback : ∀ (tmp : Server × Nat) (rest : List (Server × Nat)),
      (rest ++ [tmp]).Perm (tmp :: rest) := fun tmp rest => List.perm_append_singleton tmp rest
  unfold stepAccept at h
  cases hservers : s.servers with
  | nil =>
      rw [hservers] at h
      cases haccept : s.accepting with
      | idle =>
          rw [haccept] at h
          cases h
          exact ⟨[], .skipping 0, by rw [← hservers], List.Perm.refl _⟩
      | skipping count =>
          rw [haccept] at h
          cases h
      | found =>
          rw [haccept] at h
          cases h
  | cons tmp rest =>
      rw [hservers] at h
      cases haccept : s.accepting with
      | idle =>
          rw [haccept] at h
          cases h
          exact ⟨tmp :: rest, .skipping 0, by rw [← hservers], List.Perm.refl _⟩
      | skipping count =>
          simp only [haccept] at h
          split at h
          · cases h
            exact ⟨tmp :: rest, .found, by rw [← hservers], List.Perm.refl _⟩
          · -- a server that is not running goes to the back
            cases h
            exact ⟨_, _, rfl, hback tmp rest⟩
      | found =>
          simp only [haccept] at h
          cases h
          exact ⟨_, _, rfl, hback tmp rest⟩

/-- The order of the queue does not matter. -/
theorem inv_perm (hs : s.Inv) {queue : List (Server × Nat)} (accepting : Accepting)
    (hperm : queue.Perm s.servers) : Inv { s with servers := queue, accepting := accepting } := by
  refine ⟨(hperm.map Prod.snd).nodup_iff.mpr hs.slots, hs.writes, ?_⟩
  have htracked := hs.tracked
  unfold Tracked at htracked ⊢
  cases hchecking : s.checking with
  | reading i =>
      simp only [hchecking] at htracked ⊢
      obtain ⟨hround, hle, hnoted⟩ := htracked
      exact ⟨hround, hperm.length_eq ▸ hle, hnoted.perm hperm⟩
  | writing i slot up =>
      simp only [hchecking] at htracked ⊢
      obtain ⟨rest, hround, hrest, hnew, hprobes, hnoted⟩ := htracked
      exact ⟨rest, hround, hrest, hnew, hprobes, hnoted.perm hperm⟩
  | sleeping =>
      simp only [hchecking] at htracked ⊢
      exact ⟨htracked.1.trans hperm.length_eq.symm, htracked.2.perm hperm⟩

/-- **A read or write keeps what has been noted**, of the server that stands where it stood. -/
theorem inv_check (hs : s.Inv) {up : Bool} (hc : s.Unturned (.check up))
    (h : s.stepCheck up = some t) : t.Inv := by
  have htracked := hs.tracked
  unfold Tracked at htracked
  unfold Unturned at hc
  unfold stepCheck at h
  cases hchecking : s.checking with
  | reading i =>
      simp only [hchecking] at htracked hc h
      obtain ⟨hround, hle, hnoted⟩ := htracked
      cases htmp : s.servers[i]? with
      | none =>
          simp only [htmp] at h
          cases h
          have hi := List.getElem?_eq_none_iff.mp htmp
          exact ⟨hs.slots, hs.writes, hround.trans (Nat.le_antisymm hle hi), hnoted⟩
      | some tmp =>
          simp only [htmp] at h
          cases h
          exact ⟨hs.slots, hs.writes, s.round, rfl, hround, hc tmp htmp, rfl, hnoted⟩
  | writing i slot v =>
      simp only [hchecking] at htracked hc h
      obtain ⟨rest, hround, hrest, hnew, hprobes, hnoted⟩ := htracked
      obtain ⟨tmp, htmp, rfl⟩ := Option.map_eq_some_iff.mp h
      -- the queue has not been turned since the read, so `i` still holds that server
      have hslot := hc tmp htmp
      have hset := hnoted.set v hs.slots hnew htmp hslot
      refine ⟨?_, fun w hw => ?_, ?_⟩
      · rw [slots_set htmp]
        exact hs.slots
      · rcases List.mem_cons.mp hw with rfl | hw
        · obtain ⟨probes, hall⟩ := List.head?_eq_some_iff.mp hprobes
          rw [hall, hslot, List.lookup_cons_self]
        · exact hs.writes w hw
      · refine ⟨?_, ?_, ?_⟩
        · rw [hround, List.length_cons, hrest]
        · rw [List.length_set]
          exact (List.getElem?_eq_some_iff.mp htmp).1
        · rw [hround]
          exact hset
  | sleeping =>
      simp only [hchecking] at h
      cases h
      exact ⟨hs.slots, hs.writes, rfl, Nat.zero_le _, noted_nil _⟩

theorem inv_step (hs : s.Inv) {a : HealthTurn} (hc : s.Unturned a) (h : s.step a = some t) :
    t.Inv := by
  cases a with
  | accept =>
      obtain ⟨queue, accepting, rfl, hperm⟩ := stepAccept_cases h
      exact inv_perm hs accepting hperm
  | check up => exact inv_check hs hc h

theorem inv_start (config : List Server) : (start config).Inv := by
  refine ⟨?_, fun w hw => absurd hw List.not_mem_nil, rfl, Nat.zero_le _, noted_nil _⟩
  rw [start, List.zipIdx_map_snd]
  exact List.nodup_range'

theorem Inv.recorded (hs : s.Inv) : s.Recorded := by
  refine ⟨hs.writes, fun hsleeping alive halive e he => ?_⟩
  have htracked := hs.tracked
  unfold Tracked at htracked
  simp only [hsleeping] at htracked
  exact halive _ (htracked.2.all htracked.1 he)

instance (s : HealthCheck) : DecidablePred s.Unturned
  | .accept => .isTrue trivial
  | .check _ =>
    match h : s.checking with
    | .reading i => decidable_of_iff (∀ e ∈ s.servers[i]?, e.2 ∉ s.round.map Prod.fst)
        (by unfold Unturned; simp only [h])
    | .writing i slot _ => decidable_of_iff (∀ e ∈ s.servers[i]?, e.2 = slot)
        (by unfold Unturned; simp only [h])
    | .sleeping => .isTrue (by unfold Unturned; simp only [h])

end HealthCheck

/-! ## Any number of rounds and clients -/

/--
**Health results are recorded on the servers that were tried**: where the server
at index `i` is each time one the thread has not been to in this round, and still
stands there at the write.
-/
theorem recorded_of_unturned {config : List Server} {turns : List HealthTurn} {u : HealthCheck}
    (hg : Lib.Guarded HealthCheck.step HealthCheck.Unturned (HealthCheck.start config) turns)
    (hr : Lib.run HealthCheck.step (HealthCheck.start config) turns = some u) : u.Recorded :=
  (Lib.inv_of_guarded (fun _ _ _ hs hc h => HealthCheck.inv_step hs hc h)
    (HealthCheck.inv_start config) hg hr).recorded

/-- Two frontend servers, as they are configured. -/
def twoServers : List Server := [⟨"a".toList, 8000, false⟩, ⟨"b".toList, 8000, false⟩]

/-- A round that finds both running, then a client, then one that finds the second down. -/
def quietRounds : List HealthTurn :=
  [.check true, .check true, .check true, .check true, .check true, .check true, .accept, .accept,
    .accept, .check false, .check false, .check true, .check true, .check true]

theorem quietRounds_recorded : ∃ u, Lib.run HealthCheck.step (HealthCheck.start twoServers)
    quietRounds = some u ∧ u.writes.length = 4 ∧ u.checking = .sleeping ∧ u.Recorded := by
  have hend : ((Lib.run HealthCheck.step (HealthCheck.start twoServers) quietRounds).map fun u =>
      (u.writes.length, u.checking)) = some (4, .sleeping) := by decide
  obtain ⟨u, hr, hu⟩ := Option.map_eq_some_iff.mp hend
  obtain ⟨hwrites, hchecking⟩ := Prod.mk.inj hu
  exact ⟨u, hr, hwrites, hchecking, recorded_of_unturned (by decide) hr⟩

/-- Both are running; then the first is found down while it goes to the back for a client. -/
def turnedRound : List HealthTurn :=
  [.check true, .check true, .check true, .check true, .check true, .check true, .check false,
    .accept, .accept, .accept, .check false]

/-- The second server is marked for it. -/
theorem turned_recorded_elsewhere : ∃ config turns u,
    Lib.run HealthCheck.step (HealthCheck.start config) turns = some u ∧ ¬ u.Recorded := by
  have hlast : ((Lib.run HealthCheck.step (HealthCheck.start twoServers) turnedRound).map fun u =>
      u.writes.head?.map fun w => (w.slot, w.running, w.last))
        = some (some (1, false, some true)) := by
    decide
  obtain ⟨u, hr, hu⟩ := Option.map_eq_some_iff.mp hlast
  obtain ⟨w, hw, he⟩ := Option.map_eq_some_iff.mp hu
  refine ⟨twoServers, turnedRound, u, hr, fun hrecorded => ?_⟩
  have hlog := hrecorded.writes w (List.mem_of_head? hw)
  obtain ⟨-, he⟩ := Prod.mk.inj he
  obtain ⟨hrunning, hprobe⟩ := Prod.mk.inj he
  rw [hprobe, hrunning] at hlog
  cases hlog

end PennCloud
