import PennCloud.Concurrent.HoldBack
import PennCloud.Proof.Rows
import PennCloud.Store.Transfer

/-!
# A replica recovers

The life of one replica and its primary: requests, checkpoints on both sides, a
crash, and the recovery conversation, step by step, with requests at the primary
between any two of its steps. `parse_RECOVERY` takes the number for the address
(`Store/Transfer.lean`), so no replica is ever put into state 2 and nothing is
held back: an update that comes after the log has been transferred and before
`reconnect` is done is lost. And it takes the address for the number, so the
answer whether the replica's own files will do says nothing about them.

`RecoveryAction.Sound` excludes that, and files that cannot be read back as they
were written. The invariant is that a key which the primary's log does not assign
has the primary's value at the replica from its answer on, and every key from the
log's transfer on.
-/

namespace PennCloud

open Str

/-- How far the replica is. -/
inductive RecoveryStage
  /-- Running, and connected from the start. -/
  | running
  /-- Crashed. -/
  | down
  /-- Told to ask for the primary's checkpoint. -/
  | wantsCheckpoint
  /-- A checkpoint is replayed; the primary's log is next. -/
  | wantsLog
  /-- All is replayed, and `READY` is sent. -/
  | ready
  /-- `reconnect` has installed the new connection. -/
  | connected
  /-- `reconnect` is done. -/
  | rejoined
  deriving DecidableEq, Repr

/-- Its threads are at work. -/
def RecoveryStage.up : RecoveryStage → Bool
  | .running | .ready | .connected | .rejoined => true
  | .down | .wantsCheckpoint | .wantsLog => false

/-- A `Replicate` of the `BackStore`. -/
structure Replicate where
  addr : Addr
  /-- 1 running, 2 recovering, 3 failed. -/
  state : Nat := 1
  holdBack : List Forward := []
  connection : Conn := .old

/-- `BackStore::recover`, for this replica. -/
def Replicate.recover (n : Replicate) (address : Str) : Replicate :=
  if ipToString n.addr = address then { n with state := 2 } else n

/-- A primary and one of its replicas. -/
structure Recovery where
  primary : Primary := Primary.start
  /-- `ServerState::canCheckpoint` of the primary. -/
  canCheckpoint : Bool := true
  /-- The primary's checkpoint thread has made its test and not finished yet. -/
  checkpointing : Bool := false
  node : Replicate
  /-- The replica, with its files. -/
  replica : Primary := { server := { primary := false } }
  stage : RecoveryStage := .running
  /-- What has been written to the present connection and not been handled yet. -/
  link : List Forward := []
  /-- What the primary has written to `recoverProcess` and it has not read yet. -/
  incoming : Str := []
  /-- What `recoverProcess` has put into `checkpoint.txt`. -/
  checkpointFile : Str := []
  /-- What it has put into `log.txt`; later records go behind it. -/
  logFile : Str := []

/-- What can happen. -/
inductive RecoveryAction
  /-- A request at the primary; `fails` is for a write to a connection whose peer is gone. -/
  | request (q : Request) (fails : Bool)
  /-- The primary's checkpoint thread tests `canCheckpoint`. -/
  | testCheckpoint
  /-- A file operation of its `writeToDisk`. -/
  | disk (a : PrimaryAction)
  /-- One of the replica's. -/
  | replicaDisk (a : PrimaryAction)
  /-- The replica handles a command. -/
  | deliver
  | crash
  /-- `RECOVERY` and its answer. -/
  | recovery (reads : List Str)
  /-- `CHECKPOINT`, and the replay of what comes. -/
  | checkpoint (reads : List Str)
  /-- `LOG`, and the replay of what comes. -/
  | log (reads : List Str)
  /-- `READY` is handled: `reconnect` connects. -/
  | connect
  /-- `reconnect` sends the front of `holdBack`. -/
  | flush
  /-- `reconnect` sets state 1, and checkpoints are resumed. -/
  | finish

/-- A file operation of `writeToDisk`. -/
def PrimaryAction.isDisk : PrimaryAction → Bool
  | .request _ => false
  | _ => true

/-- The last of them. -/
def PrimaryAction.isLast : PrimaryAction → Bool
  | .truncateLog => true
  | _ => false

/-- What a crash leaves of a replica: only the log and the checkpoint are found again. -/
def Server.rebooted (s : Server) : Server :=
  { primary := false, log := s.log, checkpoint := s.checkpoint }

namespace Recovery

/-- A primary and a replica at this address, both empty. -/
def start (addr : Addr) : Recovery := { node := { addr := addr } }

/-- There is a process at the other end of the replica's connection. -/
def peerAlive (s : Recovery) : Bool := s.stage = .running || s.node.connection = .new

/-- `push` and `poll`, for this replica. -/
def push (fails : Bool) (s : Recovery) (f : Forward) : Recovery :=
  if s.node.state = 1 then
    if s.peerAlive then { s with link := s.link ++ [f] }
    else if fails then { s with node := { s.node with state := 3 } }
    else s
  else if s.node.state = 2 then
    { s with node := { s.node with holdBack := s.node.holdBack ++ [f] } }
  else s

/-- The primary's server after a request. -/
def setServer (s : Recovery) (server : Server) : Recovery :=
  { s with primary := { s.primary with server := server } }

/-- The primary writes to `recoverProcess`, which reads all that these reads bring in. -/
def exchange (s : Recovery) (reply : Str) (reads : List Str)
    (f : List Read → Except Stop (Str × List Read)) : Option (Str × Recovery) :=
  let incoming := s.incoming ++ reply
  if reads.flatten <+: incoming then
    match f (reads.map .data) with
    | .ok (data, []) =>
        some (data, { s with incoming := incoming.drop reads.flatten.length })
    | _ => none
  else none

/-- The replica's table while it recovers. -/
def setTable (s : Recovery) (t : Bmap) : Recovery :=
  { s with replica := { s.replica with server := { s.replica.server with table := t } } }

/-- What `parse_CHECKPOINT` replies: the file, if there is one, and the mark. -/
def checkpointReply (s : Recovery) : Str :=
  ((s.primary.server.checkpoint.map Checkpoint.text).getD []) ++ checkpointEnd ++ crlf

/-- What `parse_LOG` replies. -/
def logReply (s : Recovery) : Str := s.primary.server.logText ++ logEnd ++ crlf

/-- One action. -/
def step (s : Recovery) : RecoveryAction → Option Recovery
  | .request q fails =>
    if s.primary.phase = .idle then
      (s.primary.server.handle q.call).toOption.map fun r =>
        r.forwarded.foldl (push fails) (s.setServer r.server)
    else none
  | .testCheckpoint => if s.canCheckpoint then some { s with checkpointing := true } else none
  | .disk a =>
    if a.isDisk && s.checkpointing then
      (s.primary.step a).map fun p => { s with
        primary := p
        checkpointing := !a.isLast }
    else none
  | .replicaDisk a =>
    if a.isDisk && s.stage.up then
      (s.replica.step a).map fun p => { s with replica := p }
    else none
  | .deliver =>
    match s.link with
    | [] => none
    | f :: link =>
      if s.replica.phase = .idle then
        (s.replica.server.follow f).map fun t => { s with
          replica := { s.replica with server := t }, link := link }
      else none
  | .crash =>
    if s.stage = .running then
      some { s with
        replica := { server := s.replica.server.rebooted }, stage := .down, link := [] }
    else none
  | .recovery reads =>
    if s.stage = .down then do
      let seq ← lastLogSeq s.replica.server.logText
      let command := recoveryLine seq s.node.addr
      let answer ← answerRECOVERY (s.primary.server.checkpoint.map Checkpoint.text) command
      let s := { s with canCheckpoint := false, node := s.node.recover (recoveryAddr command) }
      let (response, s) ← s.exchange answer reads contactServer
      if transfersLog response then
        return { s.setTable s.replica.server.recovered with stage := .wantsLog }
      else return { s with stage := .wantsCheckpoint }
    else none
  | .checkpoint reads =>
    if s.stage = .wantsCheckpoint then do
      let (contents, s) ← s.exchange s.checkpointReply reads
        (receive checkpointEnd (reads.length + 1) [])
      return { s.setTable (recoverCheckpoint contents s.replica.server.table) with
        checkpointFile := contents, stage := .wantsLog }
    else none
  | .log reads =>
    if s.stage = .wantsLog then do
      let (contents, s) ← s.exchange s.logReply reads (receive logEnd (reads.length + 1) [])
      return { s.setTable (recoverLog contents s.replica.server.table) with
        logFile := contents, stage := .ready }
    else none
  | .connect =>
    if s.stage = .ready ∧ ipToString s.node.addr = readyAddr (readyLine s.node.addr) then
      some { s with node := { s.node with connection := .new }, link := [], stage := .connected }
    else none
  | .flush =>
    match s.node.holdBack with
    | [] => none
    | f :: holdBack =>
      if s.stage = .connected then
        some { s with node := { s.node with holdBack := holdBack }, link := s.link ++ [f] }
      else none
  | .finish =>
    if s.stage = .connected ∧ s.node.holdBack = [] then
      some { s with
        node := { s.node with state := 1 }, canCheckpoint := true, stage := .rejoined }
    else none

/--
Once the replica has rejoined, it can handle what is on its connection, and has
the primary's contents then.
-/
def Agreement (s : Recovery) : Prop :=
  s.stage = .rejoined → s.node.holdBack = [] ∧
    ∃ t, Lib.run Server.follow s.replica.server s.link = some t ∧
      t.table.view = s.primary.server.table.view

/-- The keys that the primary's log assigns. -/
def logged (s : Recovery) : List Key := s.primary.server.log.map fun r => r.update.1

/-- The version of the primary's checkpoint is at most the first octet of the replica's address. -/
def LowVersion (s : Recovery) : Prop :=
  ∀ c ∈ s.primary.server.checkpoint, c.version ≤ (s.node.addr.a : Int)

/-- The replica's own files can be read back, and give what the primary's log does not. -/
structure OwnFilesDo (s : Recovery) : Prop where
  records : ∀ r ∈ s.replica.server.log, r.Faithful
  checkpoint : ∀ c ∈ s.replica.server.checkpoint, c.table.Clean
  rest : ∀ k, k ∉ s.logged → s.replica.server.onDisk k = s.primary.server.table.view k

end Recovery

/-- The condition on an action. -/
def RecoveryAction.Sound (s : Recovery) : RecoveryAction → Prop
  | .request q _ =>
      (s.stage = .ready ∨ (s.stage = .connected ∧ s.node.state ≠ 1) →
        s.primary.server.sends q = none) ∧
      (s.stage = .connected ∨ s.stage = .rejoined → ¬ CputNull s.primary.server.table q)
  | .recovery _ => s.checkpointing = false ∧ (s.LowVersion → s.OwnFilesDo)
  | .checkpoint _ =>
      ∀ c ∈ s.primary.server.checkpoint,
        c.table.Clean ∧ ¬ checkpointEnd <:+: c.text ∧ '\x00' ∉ c.text
  | .log _ =>
      (∀ r ∈ s.primary.server.log, r.Faithful) ∧ ¬ logEnd <:+: s.primary.server.logText ∧
        '\x00' ∉ s.primary.server.logText
  | _ => True

namespace Recovery

/-- The keys that the replica's files or the primary's table bind. -/
def candidates (s : Recovery) : List Key :=
  (s.replica.server.log.map fun r => r.update.1) ++
    (s.replica.server.checkpoint.elim [] fun c => c.table.cells.map fun p => (p.1, p.2.1)) ++
    s.primary.server.table.cells.map fun p => (p.1, p.2.1)

theorem view_none {t : Bmap} {k : Key} (hk : k ∉ t.cells.map fun p => (p.1, p.2.1)) :
    t.view k = none := by
  cases hat : t.view k with
  | none => rfl
  | some d => exact absurd (List.mem_map.mpr ⟨(k.1, k.2, d), Bmap.mem_cells.mpr hat, rfl⟩) hk

/-- Every other key is unbound in both. -/
theorem rest_of_candidates {s : Recovery} {k : Key} (hk : k ∉ s.candidates) :
    s.replica.server.onDisk k = s.primary.server.table.view k := by
  rw [candidates, List.mem_append, List.mem_append, not_or, not_or] at hk
  obtain ⟨⟨hlog, hckpt⟩, htable⟩ := hk
  rw [view_none htable, Server.onDisk, Lib.replay_of_notMem (by rwa [List.map_map])]
  cases hc : s.replica.server.checkpoint with
  | none => rfl
  | some c => exact view_none (by rwa [hc] at hckpt)

instance (s : Recovery) : Decidable s.OwnFilesDo :=
  decidable_of_iff ((∀ r ∈ s.replica.server.log, r.Faithful) ∧
      (∀ c ∈ s.replica.server.checkpoint, c.table.Clean) ∧
      ∀ k ∈ s.candidates, k ∉ s.logged →
        s.replica.server.onDisk k = s.primary.server.table.view k)
    ⟨fun h => ⟨h.1, h.2.1, fun k hk =>
      if hmem : k ∈ s.candidates then h.2.2 k hmem hk else rest_of_candidates hmem⟩,
      fun h => ⟨h.records, h.checkpoint, fun k _ => h.rest k⟩⟩

instance (s : Recovery) : Decidable s.LowVersion := by unfold LowVersion; infer_instance

end Recovery

instance (s : Recovery) : DecidablePred (RecoveryAction.Sound s) := fun a => by
  cases a <;> (unfold RecoveryAction.Sound; infer_instance)

/-! ## The invariant -/

namespace Recovery

/-- The primary is answering `recoverProcess`, and no checkpoint is under way. -/
structure Paused (s : Recovery) : Prop where
  connection : s.node.connection = .old
  link : s.link = []
  incoming : s.incoming = []
  canCheckpoint : s.canCheckpoint = false
  checkpointing : s.checkpointing = false

/-- What is on the connection takes the replica to the primary's contents. -/
def InStep (s : Recovery) : Prop :=
  ∃ t, Moved s.replica.server.table s.link t ∧ t.view = s.primary.server.table.view ∧
    t.Within s.primary.server.table

/-- What holds at each stage. -/
inductive StageInv (s : Recovery) : Prop
  | running (hstage : s.stage = .running) (hconn : s.node.connection = .old)
      (hincoming : s.incoming = [])
  | down (hstage : s.stage = .down) (hconn : s.node.connection = .old) (hincoming : s.incoming = [])
      (hlink : s.link = []) (htable : s.replica.server.table = ∅)
  | wantsCheckpoint (hstage : s.stage = .wantsCheckpoint) (hpaused : s.Paused)
      (htable : s.replica.server.table = ∅)
  | wantsLog (hstage : s.stage = .wantsLog) (hpaused : s.Paused)
      (hrest : ∀ k, k ∉ s.logged →
        s.replica.server.table.view k = s.primary.server.table.view k)
  | ready (hstage : s.stage = .ready) (hpaused : s.Paused)
      (hview : s.replica.server.table.view = s.primary.server.table.view)
  | connected (hstage : s.stage = .connected) (hconn : s.node.connection = .new)
      (hin : s.InStep)
  | rejoined (hstage : s.stage = .rejoined) (hconn : s.node.connection = .new)
      (hstate : s.node.state = 1) (hin : s.InStep)

/-- The invariant; nothing is ever held back. -/
structure Inv (s : Recovery) : Prop where
  stands : s.primary.Stands
  quiet : s.checkpointing = false → s.primary.phase = .idle
  state : s.node.state ≠ 2
  holdBack : s.node.holdBack = []
  primaryRows : s.primary.Within s.primary.server.table
  replicaRows : s.replica.Within s.primary.server.table
  linkRows : ∀ f ∈ s.link, ∀ row ∈ f.makes, s.primary.server.table.hasRow row = true
  stageInv : s.StageInv

theorem inv_init (addr : Addr) : (start addr).Inv := by
  have hrows : ∀ primary, Server.Within { primary := primary } ∅ := fun _ =>
    ⟨Nested.Within.refl _, fun r hr => (by cases hr), fun c hc => (by cases hc)⟩
  exact ⟨stands_start, fun _ => rfl, (by decide : (1 : Nat) ≠ 2), rfl,
    ⟨hrows _, fun c hc => (by cases hc)⟩, ⟨hrows _, fun c hc => (by cases hc)⟩, fun f hf =>
      (by cases hf), .running rfl rfl rfl⟩

/-! ## Requests -/

/-- Outside state 2 a command goes to the connection, or the state may change to 3. -/
theorem push_cases {s : Recovery} (hs : s.node.state ≠ 2) (fails : Bool) (f : Forward) :
    (s.node.state = 1 ∧ s.peerAlive = true ∧ s.push fails f = { s with link := s.link ++ [f] }) ∨
    (¬ (s.node.state = 1 ∧ s.peerAlive = true) ∧
      ∃ n, n ≠ 2 ∧ s.push fails f = { s with node := { s.node with state := n } }) := by
  rw [push]
  by_cases h1 : s.node.state = 1
  · rw [if_pos h1]
    by_cases halive : s.peerAlive = true
    · exact Or.inl ⟨h1, halive, if_pos halive⟩
    · rw [if_neg halive]
      refine Or.inr ⟨fun h => halive h.2, ?_⟩
      cases fails with
      | true => exact ⟨3, by decide, rfl⟩
      | false => exact ⟨s.node.state, hs, rfl⟩
  · rw [if_neg h1, if_neg hs]
    exact Or.inr ⟨fun h => h1 h.1, s.node.state, hs, rfl⟩

/-- A request that the primary takes: its effect on the primary, and one push at most. -/
theorem request_cases {s t : Recovery} {q : Request} {fails : Bool}
    (hp : s.primary.server.primary = true) (h : s.step (.request q fails) = some t) :
    ∃ r, s.primary.server.handle q.call = .ok r ∧
      s.primary.step (.request q) = some (s.setServer r.server).primary ∧
      ((s.primary.server.sends q = none ∧ t = s.setServer r.server) ∨
        ∃ f, s.primary.server.sends q = some f ∧ t = (s.setServer r.server).push fails f) := by
  rw [step] at h
  split at h
  · rename_i hidle
    obtain ⟨r, hh, rfl⟩ := map_toOption_some h
    refine ⟨r, hh, by rw [Primary.step, if_pos hidle, hh]; rfl, ?_⟩
    rw [(sends_spec hp hh).1]
    cases s.primary.server.sends q with
    | none => exact Or.inl ⟨rfl, rfl⟩
    | some f => exact Or.inr ⟨f, rfl, rfl⟩
  · cases h

/-- One more command on the connection, and one more move of the primary. -/
theorem InStep.push {s t : Recovery} (hs : s.InStep) {f : Forward}
    (hf : f.Moves s.primary.server.table t.primary.server.table)
    (hnull : ¬ f.Null s.primary.server.table) (hreplica : t.replica = s.replica)
    (hlink : t.link = s.link ++ [f]) : t.InStep := by
  obtain ⟨u, hmoved, hview, hrows⟩ := hs
  obtain ⟨u', hf', hnull', hview', hrows'⟩ := moves_view hview hrows hf hnull
  exact ⟨u', by rw [hreplica, hlink]; exact hmoved.snoc hf' hnull', hview', hrows'⟩

section Request

variable {s : Recovery} {q : Request} {r : Reaction} {n : Nat}

theorem Paused.kept (hs : s.Paused) (server : Server) :
    Paused { s.setServer server with node := { s.node with state := n } } :=
  ⟨hs.connection, hs.link, hs.incoming, hs.canCheckpoint, hs.checkpointing⟩

/-- A key that is still not in the log has not been assigned. -/
theorem rest_kept (hrole : s.primary.server.primary = true)
    (hh : s.primary.server.handle q.call = .ok r)
    (hrest : ∀ k, k ∉ s.logged → s.replica.server.table.view k = s.primary.server.table.view k) :
    ∀ k, k ∉ (s.setServer r.server).logged →
      s.replica.server.table.view k = r.server.table.view k := by
  obtain ⟨rs, hlog, hview, -⟩ := (handle_request_cases hrole hh).records
  intro k hk
  have hk' : k ∉ s.logged ∧ k ∉ (rs.map LogRecord.update).map Prod.fst := by
    rw [logged, show (s.setServer r.server).primary.server.log = s.primary.server.log ++ rs
      from hlog, List.map_append, List.mem_append, not_or] at hk
    rw [List.map_map]
    exact hk
  rw [hrest k hk'.1, hview, Lib.replay_of_notMem hk'.2]

/-- The stage after a request with nothing for the connection. -/
theorem stageInv_kept (hs : s.StageInv) (hrole : s.primary.server.primary = true)
    (hh : s.primary.server.handle q.call = .ok r) (hn : s.stage = .rejoined → n = 1)
    (hnone : s.stage = .ready ∨ s.stage = .connected ∨ s.stage = .rejoined →
      r.server.table = s.primary.server.table) :
    StageInv { s.setServer r.server with node := { s.node with state := n } } := by
  have hin : s.InStep → r.server.table = s.primary.server.table →
      InStep { s.setServer r.server with node := { s.node with state := n } } := by
    rintro ⟨u, hmoved, hview, hrows⟩ htable
    rw [← htable] at hview hrows
    exact ⟨u, hmoved, hview, hrows⟩
  cases hs with
  | running hstage hconn hincoming => exact .running hstage hconn hincoming
  | down hstage hconn hincoming hlink htable => exact .down hstage hconn hincoming hlink htable
  | wantsCheckpoint hstage hpaused htable => exact .wantsCheckpoint hstage (hpaused.kept _) htable
  | wantsLog hstage hpaused hrest =>
      exact .wantsLog hstage (hpaused.kept _) (rest_kept hrole hh hrest)
  | ready hstage hpaused hview =>
      refine .ready hstage (hpaused.kept _) (hview.trans ?_)
      exact congrArg Nested.view (hnone (Or.inl hstage)).symm
  | connected hstage hconn h =>
      exact .connected hstage hconn (hin h (hnone (Or.inr (Or.inl hstage))))
  | rejoined hstage hconn hstate h =>
      exact .rejoined hstage hconn (hn hstage) (hin h (hnone (Or.inr (Or.inr hstage))))

end Request

/-- The stage after a command has gone to the connection. -/
theorem stageInv_pushed {s : Recovery} (hs : s.StageInv) (h1 : s.node.state = 1)
    (halive : s.peerAlive = true) {server : Server} {f : Forward}
    (hf : f.Moves s.primary.server.table server.table)
    (hnull : s.stage = .connected ∨ s.stage = .rejoined → ¬ f.Null s.primary.server.table) :
    StageInv { s.setServer server with link := s.link ++ [f] } := by
  have hdead : s.node.connection = .old → s.stage ≠ .running → False := by
    intro hconn hstage
    rw [peerAlive, hconn] at halive
    simp [hstage] at halive
  cases hs with
  | running hstage hconn hincoming => exact .running hstage hconn hincoming
  | down hstage hconn => exact (hdead hconn (by rw [hstage]; simp)).elim
  | wantsCheckpoint hstage hpaused => exact (hdead hpaused.connection (by rw [hstage]; simp)).elim
  | wantsLog hstage hpaused => exact (hdead hpaused.connection (by rw [hstage]; simp)).elim
  | ready hstage hpaused => exact (hdead hpaused.connection (by rw [hstage]; simp)).elim
  | connected hstage hconn h =>
      exact .connected hstage hconn (h.push hf (hnull (Or.inl hstage)) rfl rfl)
  | rejoined hstage hconn hstate h =>
      exact .rejoined hstage hconn h1 (h.push hf (hnull (Or.inr hstage)) rfl rfl)

/-- **A request keeps the invariant.** -/
theorem inv_request {s t : Recovery} {q : Request} {fails : Bool} (hs : s.Inv)
    (ha : (RecoveryAction.request q fails).Sound s) (h : s.step (.request q fails) = some t) :
    t.Inv := by
  obtain ⟨r, hh, hstep, ht⟩ := request_cases hs.stands.role h
  obtain ⟨hlost, hnull⟩ := ha
  have hrole := hs.stands.role
  have hstands : (s.setServer r.server).primary.Stands := stands_step hs.stands hstep
  obtain ⟨hgrow, hwithin⟩ := (handle_request_cases hrole hh).within hs.primaryRows.server
  have hprows : (s.setServer r.server).primary.Within r.server.table :=
    ⟨hwithin, fun c hc => (hs.primaryRows.temp c hc).trans hgrow⟩
  have hrrows := hs.replicaRows.mono hgrow
  have hlrows : ∀ f ∈ s.link, ∀ row ∈ f.makes, r.server.table.hasRow row = true :=
    fun f hf row hrow => hgrow row (hs.linkRows f hf row hrow)
  obtain ⟨-, hkept, hmoves⟩ := sends_spec hrole hh
  rcases ht with ⟨hnone, rfl⟩ | ⟨f, hf, rfl⟩
  · -- nothing is forwarded, and the table stays as it was
    refine ⟨hstands, hs.quiet, hs.state, hs.holdBack, hprows, hrrows, hlrows, ?_⟩
    refine stageInv_kept (n := s.node.state) hs.stageInv hrole hh (fun hstage => ?_)
      fun _ => hkept hnone
    cases hs.stageInv with
    | rejoined _ _ hstate => exact hstate
    | _ hstage' => rw [hstage'] at hstage; cases hstage
  · have hmv := hmoves f hf
    rcases push_cases (s := s.setServer r.server) hs.state fails f with
      ⟨h1, halive, hpush⟩ | ⟨hno, n, hn, hpush⟩
    · rw [hpush]
      refine ⟨hstands, hs.quiet, hs.state, hs.holdBack, hprows, hrrows, fun g hg => ?_, ?_⟩
      · rcases List.mem_append.mp hg with hg | hg
        · exact hlrows g hg
        · rw [List.mem_singleton.mp hg]
          exact hmv.makes
      · exact stageInv_pushed hs.stageInv h1 halive hmv fun hstage hn =>
          hnull hstage ((cputNull_iff hh hf).mpr hn)
    · -- an update that is not pushed is lost, which a sound request rules out once the log is out
      rw [hpush]
      have hmustpush : ¬ (s.stage = .ready ∨ s.stage = .connected ∨ s.stage = .rejoined) := by
        have hnew : s.node.connection = .new → s.node.state ≠ 1 := fun hconn h1 =>
          hno ⟨h1, by rw [peerAlive, show (s.setServer r.server).node = s.node
            from rfl, hconn]; simp⟩
        have hsends : s.primary.server.sends q ≠ none := by rw [hf]; simp
        rintro (hstage | hstage | hstage)
        · exact hsends (hlost (Or.inl hstage))
        · cases hs.stageInv with
          | connected _ hconn _ => exact hsends (hlost (Or.inr ⟨hstage, hnew hconn⟩))
          | _ hstage' => rw [hstage'] at hstage; cases hstage
        · cases hs.stageInv with
          | rejoined _ hconn hstate _ => exact hnew hconn hstate
          | _ hstage' => rw [hstage'] at hstage; cases hstage
      refine ⟨hstands, hs.quiet, hn, hs.holdBack, hprows, hrrows, hlrows, ?_⟩
      exact stageInv_kept hs.stageInv hrole hh (fun hstage =>
        (hmustpush (Or.inr (Or.inr hstage))).elim)
        fun hstage => (hmustpush hstage).elim

/-! ## File operations, commands and the crash -/

section Disk

variable {s t : Recovery} {a : PrimaryAction}

theorem isDisk_ne (h : a.isDisk = true) : ∀ q, a ≠ .request q := by
  rintro q rfl
  cases h

/-- Neither table is changed by a file operation. -/
theorem InStep.congr (hs : s.InStep) (hreplica : t.replica.server.table = s.replica.server.table)
    (hprimary : t.primary.server.table = s.primary.server.table) (hlink : t.link = s.link) :
    t.InStep := by
  rw [InStep, hreplica, hprimary, hlink]
  exact hs

theorem inv_disk (hs : s.Inv) (h : s.step (.disk a) = some t) : t.Inv := by
  rw [step] at h
  split at h
  · rename_i hcond
    rw [Bool.and_eq_true] at hcond
    obtain ⟨hdisk, hck⟩ := hcond
    cases hp : s.primary.step a with
    | none => rw [hp] at h; cases h
    | some p =>
        rw [hp] at h
        cases h
        have htable := disk_table (isDisk_ne hdisk) hp
        have hnot : ¬ s.Paused :=
          fun hpaused => absurd (hpaused.checkpointing.symm.trans hck) (by simp)
        refine ⟨stands_step hs.stands hp, ?_, hs.state, hs.holdBack, ?_, ?_, ?_, ?_⟩
        · -- only `truncateLog` ends the checkpoint
          cases a with
          | truncateLog =>
              intro _
              rw [Primary.step] at hp
              split at hp
              · cases hp; rfl
              · cases hp
          | _ => exact fun hc => (by cases hc)
        · show p.Within p.server.table
          rw [htable]
          exact disk_within (isDisk_ne hdisk) hs.primaryRows hp
        · show s.replica.Within p.server.table
          rw [htable]
          exact hs.replicaRows
        · show ∀ f ∈ s.link, ∀ row ∈ f.makes, p.server.table.hasRow row = true
          rw [htable]
          exact hs.linkRows
        · cases hs.stageInv with
          | running hstage hconn hincoming => exact .running hstage hconn hincoming
          | down hstage hconn hincoming hlink ht => exact .down hstage hconn hincoming hlink ht
          | wantsCheckpoint _ hpaused => exact (hnot hpaused).elim
          | wantsLog _ hpaused => exact (hnot hpaused).elim
          | ready _ hpaused => exact (hnot hpaused).elim
          | connected hstage hconn hin => exact .connected hstage hconn (hin.congr rfl htable rfl)
          | rejoined hstage hconn hstate hin =>
              exact .rejoined hstage hconn hstate (hin.congr rfl htable rfl)
  · cases h

theorem inv_replicaDisk (hs : s.Inv) (h : s.step (.replicaDisk a) = some t) : t.Inv := by
  rw [step] at h
  split at h
  · rename_i hcond
    rw [Bool.and_eq_true] at hcond
    obtain ⟨hdisk, hup⟩ := hcond
    cases hp : s.replica.step a with
    | none => rw [hp] at h; cases h
    | some p =>
        rw [hp] at h
        cases h
        have htable := disk_table (isDisk_ne hdisk) hp
        refine ⟨hs.stands, hs.quiet, hs.state, hs.holdBack, hs.primaryRows,
          disk_within (isDisk_ne hdisk) hs.replicaRows hp, hs.linkRows, ?_⟩
        cases hs.stageInv with
        | running hstage hconn hincoming => exact .running hstage hconn hincoming
        | down hstage => rw [hstage] at hup; cases hup
        | wantsCheckpoint hstage => rw [hstage] at hup; cases hup
        | wantsLog hstage => rw [hstage] at hup; cases hup
        | ready hstage hpaused hview =>
            refine .ready hstage ⟨hpaused.connection, hpaused.link, hpaused.incoming,
              hpaused.canCheckpoint, hpaused.checkpointing⟩ ?_
            exact (congrArg Nested.view htable).trans hview
        | connected hstage hconn hin => exact .connected hstage hconn (hin.congr htable rfl rfl)
        | rejoined hstage hconn hstate hin =>
            exact .rejoined hstage hconn hstate (hin.congr htable rfl rfl)
  · cases h

end Disk

/-- The replica handles the oldest command on the connection. -/
theorem inv_deliver {s t : Recovery} (hs : s.Inv) (h : s.step .deliver = some t) : t.Inv := by
  rw [step] at h
  split at h
  · cases h
  · rename_i f link hlink
    split at h
    · cases hf : s.replica.server.follow f with
      | none => rw [hf] at h; cases h
      | some u =>
          rw [hf] at h
          cases h
          have hmakes := hs.linkRows f (by rw [hlink]; exact List.mem_cons_self)
          have hrest : ∀ g ∈ link, ∀ row ∈ g.makes, s.primary.server.table.hasRow row = true :=
            fun g hg => hs.linkRows g (by rw [hlink]; exact List.mem_cons_of_mem _ hg)
          have hnil : s.link ≠ [] := by rw [hlink]; simp
          have hin : s.InStep → InStep { s with
              replica := { s.replica with server := u }, link := link } := by
            rintro ⟨v, hmoved, hview⟩
            rw [hlink] at hmoved
            obtain ⟨w, hw, hnull, hmoved⟩ := hmoved
            rcases handle_forward rfl hw with ⟨hn, _⟩ | ⟨_, r, hr, htab, _⟩
            · exact absurd hn hnull
            · rw [Server.follow, hr] at hf
              cases hf
              exact ⟨v, htab ▸ hmoved, hview⟩
          refine ⟨hs.stands, hs.quiet, hs.state, hs.holdBack, hs.primaryRows,
            ⟨follow_within hs.replicaRows.server hmakes hf, hs.replicaRows.temp⟩, hrest, ?_⟩
          cases hs.stageInv with
          | running hstage hconn hincoming => exact .running hstage hconn hincoming
          | down _ _ _ hno => exact absurd hno hnil
          | wantsCheckpoint _ hpaused => exact absurd hpaused.link hnil
          | wantsLog _ hpaused => exact absurd hpaused.link hnil
          | ready _ hpaused => exact absurd hpaused.link hnil
          | connected hstage hconn h => exact .connected hstage hconn (hin h)
          | rejoined hstage hconn hstate h => exact .rejoined hstage hconn hstate (hin h)
    · cases h

theorem inv_crash {s t : Recovery} (hs : s.Inv) (h : s.step .crash = some t) : t.Inv := by
  rw [step] at h
  split at h
  · rename_i hstage
    cases h
    have hrows : s.replica.server.rebooted.Within s.primary.server.table :=
      ⟨Nested.empty_within _, hs.replicaRows.server.log, hs.replicaRows.server.checkpoint⟩
    refine ⟨hs.stands, hs.quiet, hs.state, hs.holdBack, hs.primaryRows,
      ⟨hrows, fun c hc => (by cases hc)⟩, fun f hf => (by cases hf), ?_⟩
    cases hs.stageInv with
    | running _ hconn hincoming => exact .down rfl hconn hincoming rfl rfl
    | _ hstage' => rw [hstage'] at hstage; cases hstage
  · cases h

/-! ## The conversation -/

section Conversation

variable {s t : Recovery} {reads : List Str}

theorem exchange_some {reply data : Str} {f : List Read → Except Stop (Str × List Read)}
    (h : s.exchange reply reads f = some (data, t)) :
    reads.flatten <+: s.incoming ++ reply ∧ f (reads.map .data) = .ok (data, []) ∧
      t = { s with incoming := (s.incoming ++ reply).drop reads.flatten.length } := by
  rw [exchange] at h
  split at h
  · rename_i hpre
    split at h
    · rename_i hf
      cases h
      exact ⟨hpre, hf, rfl⟩
    · cases h
  · cases h

/-- A file without the mark comes over whole, and nothing is left behind. -/
theorem exchange_text {mark text data : Str} {n : Nat} (hs : s.incoming = [])
    (hmark : Lib.Unbordered mark) (hnulMark : '\x00' ∉ mark) (htext : ¬ mark <:+: text)
    (hnul : '\x00' ∉ text)
    (h : s.exchange (text ++ mark ++ crlf) reads (receive mark n []) = some (data, t)) :
    data = text ∧ s = t := by
  obtain ⟨hpre, hreceive, rfl⟩ := exchange_some h
  rw [hs, List.nil_append] at hpre ⊢
  have hnul' : '\x00' ∉ text ++ mark ++ crlf := by
    rw [List.mem_append, List.mem_append, not_or, not_or]
    exact ⟨⟨hnul, hnulMark⟩, by decide⟩
  obtain ⟨rfl, hall⟩ := receive_text hmark htext hnul' hpre hreceive
  rw [hall, List.drop_length]
  exact ⟨rfl, by rw [← hs]⟩

theorem lowVersion_iff : s.LowVersion ↔
    (s.primary.server.checkpoint.map Checkpoint.version).getD 0 ≤ (s.node.addr.a : Int) := by
  rw [LowVersion]
  cases s.primary.server.checkpoint with
  | none => exact iff_of_true (fun c hc => (by cases hc)) (Int.natCast_nonneg _)
  | some c => exact ⟨fun h => h c rfl, fun h c' hc' => Option.some.inj hc' ▸ h⟩

/-- **`RECOVERY` puts no replica into state 2**, and is answered by version and octet. -/
theorem recovery_cases (hs : s.incoming = []) (h : s.step (.recovery reads) = some t) :
    s.stage = .down ∧
      ((s.LowVersion ∧ t = { s.setTable s.replica.server.recovered with
          canCheckpoint := false, stage := .wantsLog }) ∨
        t = { s with canCheckpoint := false, stage := .wantsCheckpoint }) := by
  rw [step] at h
  split at h
  · rename_i hstage
    refine ⟨hstage, ?_⟩
    obtain ⟨seq, -, h⟩ := Option.bind_eq_some_iff.mp h
    obtain ⟨answer, hanswer, h⟩ := Option.bind_eq_some_iff.mp h
    obtain ⟨⟨response, u⟩, hex, h⟩ := Option.bind_eq_some_iff.mp h
    have hnode : s.node.recover (recoveryAddr (recoveryLine seq s.node.addr)) = s.node := by
      rw [Replicate.recover, recoveryAddr_line, if_neg (decimal_ne_ipToString seq _).symm]
    rw [answerRECOVERY_line] at hanswer
    obtain ⟨hpre, hread, rfl⟩ := exchange_some hex
    have hline : IsLine answer ∧ '\x00' ∉ answer := by
      rw [← Option.some.inj hanswer]
      split
      · exact ⟨isLine_answer.1, by decide⟩
      · exact ⟨isLine_answer.2, by decide⟩
    simp only [hs, List.nil_append] at hpre h
    obtain ⟨rfl, hall⟩ := contactServer_line hline.1 hline.2 hpre hread
    rw [hall, List.drop_length, hnode, ← Option.some.inj hanswer] at h
    by_cases hlow : s.LowVersion
    · rw [if_pos (lowVersion_iff.mp hlow)] at h
      cases h
      exact Or.inl ⟨hlow, by rw [← hs]; rfl⟩
    · rw [if_neg fun hle => hlow (lowVersion_iff.mpr hle)] at h
      cases h
      exact Or.inr (by rw [← hs])
  · cases h

/-- The stage a recovering replica is at settles what the invariant says about it. -/
theorem Inv.paused (hs : s.Inv) (h : s.stage = .wantsCheckpoint ∨ s.stage = .wantsLog ∨
    s.stage = .ready) : s.Paused := by
  cases hs.stageInv with
  | wantsCheckpoint _ hpaused => exact hpaused
  | wantsLog _ hpaused => exact hpaused
  | ready _ hpaused => exact hpaused
  | _ hstage => rw [hstage] at h; simp at h

/-- A new table for the recovering replica, and its next stage. -/
theorem Inv.setTable (hs : s.Inv) (table : Bmap)
    (hrows : table.Within s.primary.server.table) (ht : t.StageInv)
    (hprimary : t.primary = s.primary) (hnode : t.node = s.node) (hlink : t.link = s.link)
    (hquiet : t.checkpointing = s.checkpointing)
    (hreplica : t.replica = (s.setTable table).replica) : t.Inv := by
  have hrows' : (s.setTable table).replica.Within s.primary.server.table :=
    ⟨⟨hrows, hs.replicaRows.server.log, hs.replicaRows.server.checkpoint⟩, hs.replicaRows.temp⟩
  refine ⟨?_, ?_, ?_, ?_, ?_, ?_, ?_, ht⟩
  · rw [hprimary]; exact hs.stands
  · rw [hprimary, hquiet]; exact hs.quiet
  · rw [hnode]; exact hs.state
  · rw [hnode]; exact hs.holdBack
  · rw [hprimary]; exact hs.primaryRows
  · rw [hprimary, hreplica]; exact hrows'
  · rw [hprimary, hlink]; exact hs.linkRows

/-- The replica's own files, read back. -/
theorem recovered_within {server : Server} {u : Bmap} (hs : server.Within u)
    (hlog : ∀ r ∈ server.log, r.Faithful) (hckpt : ∀ c ∈ server.checkpoint, c.table.Clean) :
    server.recovered.Within u := by
  rw [Server.recovered, Server.logText, recoverLog_records fun r h => (hlog r h).1]
  refine foldl_replayOn_within ?_ hs.log
  cases hc : server.checkpoint with
  | none => exact Nested.empty_within u
  | some c => exact recoverCheckpoint_within (hckpt c hc) (hs.checkpoint c hc)

theorem inv_recovery (hs : s.Inv) (ha : (RecoveryAction.recovery reads).Sound s)
    (h : s.step (.recovery reads) = some t) : t.Inv := by
  obtain ⟨hquiet, hfiles⟩ := ha
  have hdown : s.stage = .down → s.node.connection = .old ∧ s.incoming = [] ∧ s.link = [] ∧
      s.replica.server.table = ∅ := by
    intro hstage
    cases hs.stageInv with
    | down _ hconn hincoming hlink htable => exact ⟨hconn, hincoming, hlink, htable⟩
    | _ hstage' => rw [hstage'] at hstage; cases hstage
  have hstage : s.stage = .down := by
    rw [step] at h
    split at h
    · assumption
    · cases h
  obtain ⟨hconn, hincoming, hlink, htable⟩ := hdown hstage
  obtain ⟨-, ⟨hlow, rfl⟩ | rfl⟩ := recovery_cases hincoming h
  · obtain ⟨hrecords, hckpt, hrest⟩ := hfiles hlow
    refine hs.setTable _ (recovered_within hs.replicaRows.server hrecords hckpt) ?_
      rfl rfl rfl rfl rfl
    refine .wantsLog rfl ⟨hconn, hlink, hincoming, rfl, hquiet⟩ fun k hk => ?_
    show s.replica.server.recovered.view k = _
    rw [recovered_view hrecords hckpt]
    exact hrest k hk
  · refine hs.setTable s.replica.server.table hs.replicaRows.server.table ?_ rfl rfl rfl
      rfl rfl
    exact .wantsCheckpoint rfl ⟨hconn, hlink, hincoming, rfl, hquiet⟩ htable

/-- A key that the primary's log does not assign is in its table as in its checkpoint. -/
theorem view_of_not_logged {server : Server} (hs : server.onDisk = server.table.view) {k : Key}
    (hk : k ∉ server.log.map fun r => r.update.1) :
    server.table.view k = ((server.checkpoint.map fun c => c.table.view).getD Contents.empty)
      k := by
  rw [← hs, Server.onDisk, Lib.replay_of_notMem]
  rwa [List.map_map]

theorem inv_checkpoint (hs : s.Inv) (ha : (RecoveryAction.checkpoint reads).Sound s)
    (h : s.step (.checkpoint reads) = some t) : t.Inv := by
  rw [step] at h
  split at h
  · rename_i hstage
    have hpaused := hs.paused (Or.inl hstage)
    have htable : s.replica.server.table = ∅ := by
      cases hs.stageInv with
      | wantsCheckpoint _ _ htable => exact htable
      | _ hstage' => rw [hstage'] at hstage; cases hstage
    obtain ⟨⟨contents, u⟩, hex, h⟩ := Option.bind_eq_some_iff.mp h
    obtain ⟨hmark, hnul⟩ : ¬ checkpointEnd <:+:
        ((s.primary.server.checkpoint.map Checkpoint.text).getD []) ∧
        '\x00' ∉ ((s.primary.server.checkpoint.map Checkpoint.text).getD []) := by
      cases hc : s.primary.server.checkpoint with
      | none => exact ⟨by decide, by simp⟩
      | some c => exact (ha c hc).2
    obtain ⟨rfl, rfl⟩ := exchange_text hpaused.incoming (by decide) (by decide) hmark hnul hex
    cases h
    -- the checkpoint is what the log's replay starts from at the primary, too
    have hbuilt : (recoverCheckpoint ((s.primary.server.checkpoint.map Checkpoint.text).getD [])
        s.replica.server.table).view
          = (s.primary.server.checkpoint.map fun c => c.table.view).getD Contents.empty ∧
        Nested.Within (recoverCheckpoint
          ((s.primary.server.checkpoint.map Checkpoint.text).getD []) s.replica.server.table)
          s.primary.server.table := by
      rw [htable]
      cases hc : s.primary.server.checkpoint with
      | none => exact ⟨Nested.view_empty, Nested.empty_within _⟩
      | some c =>
          exact ⟨recoverCheckpoint_text (ha c hc).1,
            recoverCheckpoint_within (ha c hc).1 (hs.primaryRows.server.checkpoint c hc)⟩
    refine hs.setTable _ hbuilt.2 ?_ rfl rfl rfl rfl rfl
    refine .wantsLog rfl ⟨hpaused.connection, hpaused.link, hpaused.incoming, hpaused.canCheckpoint,
      hpaused.checkpointing⟩ fun k hk => ?_
    exact (congrFun hbuilt.1 k).trans (view_of_not_logged hs.stands.onDisk hk).symm
  · cases h

theorem inv_log (hs : s.Inv) (ha : (RecoveryAction.log reads).Sound s)
    (h : s.step (.log reads) = some t) : t.Inv := by
  obtain ⟨hrecords, hmark, hnul⟩ := ha
  rw [step] at h
  split at h
  · rename_i hstage
    have hpaused := hs.paused (Or.inr (Or.inl hstage))
    have hrest : ∀ k, k ∉ s.logged →
        s.replica.server.table.view k = s.primary.server.table.view k := by
      cases hs.stageInv with
      | wantsLog _ _ hrest => exact hrest
      | _ hstage' => rw [hstage'] at hstage; cases hstage
    obtain ⟨⟨contents, u⟩, hex, h⟩ := Option.bind_eq_some_iff.mp h
    obtain ⟨rfl, rfl⟩ := exchange_text hpaused.incoming (by decide) (by decide) hmark hnul hex
    cases h
    have hreplay : recoverLog s.primary.server.logText s.replica.server.table
        = s.primary.server.log.foldl LogRecord.replayOn s.replica.server.table :=
      recoverLog_records (fun r h => (hrecords r h).1) _
    refine hs.setTable (recoverLog s.primary.server.logText s.replica.server.table) ?_ ?_
      rfl rfl rfl rfl rfl
    · rw [hreplay]
      exact foldl_replayOn_within hs.replicaRows.server.table hs.primaryRows.server.log
    refine .ready rfl ⟨hpaused.connection, hpaused.link, hpaused.incoming, hpaused.canCheckpoint,
      hpaused.checkpointing⟩ ?_
    show (recoverLog s.primary.server.logText s.replica.server.table).view = _
    rw [hreplay, view_foldl_replayOn hrecords]
    funext k
    by_cases hk : k ∈ (s.primary.server.log.map LogRecord.update).map Prod.fst
    · -- the log forgets where it was started from
      show _ = s.primary.server.table.view k
      rw [← hs.stands.onDisk, Server.onDisk]
      exact Lib.replay_congr hk _ _
    · rw [Lib.replay_of_notMem hk]
      exact hrest k (by rwa [List.map_map] at hk)
  · cases h

theorem inv_connect (hs : s.Inv) (h : s.step .connect = some t) : t.Inv := by
  rw [step] at h
  split at h
  · rename_i hstage
    cases h
    refine ⟨hs.stands, hs.quiet, hs.state, hs.holdBack, hs.primaryRows, hs.replicaRows,
      fun f hf => (by cases hf), ?_⟩
    cases hs.stageInv with
    | ready _ _ hview =>
        exact .connected rfl rfl ⟨_, rfl, hview, hs.replicaRows.server.table⟩
    | _ hstage' => rw [hstage'] at hstage; cases hstage.1
  · cases h

theorem inv_flush (hs : s.Inv) (h : s.step .flush = some t) : t.Inv := by
  rw [step, hs.holdBack] at h
  cases h

theorem inv_finish (hs : s.Inv) (h : s.step .finish = some t) : t.Inv := by
  rw [step] at h
  split at h
  · rename_i hstage
    cases h
    refine ⟨hs.stands, hs.quiet, (by decide : (1 : Nat) ≠ 2), hs.holdBack, hs.primaryRows,
      hs.replicaRows, hs.linkRows, ?_⟩
    cases hs.stageInv with
    | connected _ hconn hin => exact .rejoined rfl hconn rfl hin
    | _ hstage' => rw [hstage'] at hstage; cases hstage.1
  · cases h

end Conversation

/-! ## Whole runs -/

/-- **Every action keeps the invariant under its condition.** -/
theorem recovery_inv_step {s t : Recovery} {a : RecoveryAction} (hs : s.Inv) (ha : a.Sound s)
    (h : s.step a = some t) : t.Inv := by
  cases a with
  | request q fails => exact inv_request hs ha h
  | testCheckpoint =>
      rw [step] at h
      split at h
      · rename_i hcan
        cases h
        have hnot : ¬ s.Paused := fun hpaused => by rw [hpaused.canCheckpoint] at hcan; cases hcan
        refine ⟨hs.stands, fun hc => (by cases hc), hs.state, hs.holdBack, hs.primaryRows,
          hs.replicaRows, hs.linkRows, ?_⟩
        cases hs.stageInv with
        | running hstage hconn hincoming => exact .running hstage hconn hincoming
        | down hstage hconn hincoming hlink ht => exact .down hstage hconn hincoming hlink ht
        | wantsCheckpoint _ hpaused => exact (hnot hpaused).elim
        | wantsLog _ hpaused => exact (hnot hpaused).elim
        | ready _ hpaused => exact (hnot hpaused).elim
        | connected hstage hconn hin => exact .connected hstage hconn hin
        | rejoined hstage hconn hstate hin => exact .rejoined hstage hconn hstate hin
      · cases h
  | disk a => exact inv_disk hs h
  | replicaDisk a => exact inv_replicaDisk hs h
  | deliver => exact inv_deliver hs h
  | crash => exact inv_crash hs h
  | recovery reads => exact inv_recovery hs ha h
  | checkpoint reads => exact inv_checkpoint hs ha h
  | log reads => exact inv_log hs ha h
  | connect => exact inv_connect hs h
  | flush => exact inv_flush hs h
  | finish => exact inv_finish hs h

end Recovery

/--
**Recovery ends in agreement.** In every state of a run whose actions meet the
condition, once the replica has rejoined nothing is held back, and when it has
handled the commands on its connection it has the primary's contents.
-/
theorem agreement_of_sound {addr : Addr} {as : List RecoveryAction} {t : Recovery}
    (hg : Lib.Guarded Recovery.step RecoveryAction.Sound (Recovery.start addr) as)
    (hr : Lib.run Recovery.step (Recovery.start addr) as = some t) : t.Agreement := by
  have ht : t.Inv := Lib.inv_of_guarded (fun _ _ _ => Recovery.recovery_inv_step)
    (Recovery.inv_init addr) hg hr
  intro hstage
  refine ⟨ht.holdBack, ?_⟩
  cases ht.stageInv with
  | rejoined _ _ _ hin =>
      obtain ⟨u, hmoved, hview, -⟩ := hin
      obtain ⟨s', hrun, htable⟩ := follow_moved hmoved rfl
      exact ⟨s', hrun, by rw [htable]; exact hview⟩
  | _ hstage' => rw [hstage'] at hstage; cases hstage

/-- The log that is transferred in `soundRecovery`. -/
def transferredLog : List LogRecord :=
  [.put 1 ['a'] ['x'] ['1', '\r', '\n'], .put 2 ['c'] ['c'] ['2', '\r', '\n'],
   .delete 3 ['c'] ['c'], .put 4 ['b'] ['x'] ['3', '\r', '\n']]

/-- Updates before the crash, while the replica is down, before the log goes over, and at
the end. -/
def soundRecovery : List RecoveryAction :=
  [.request (.put ['a'] ['x'] ['1', '\r', '\n']) false, .deliver,
   .request (.put ['c'] ['c'] ['2', '\r', '\n']) false, .crash,
   .request (.delete ['c'] ['c']) true,
   .recovery [replyTransferLog.take 5, replyTransferLog.drop 5],
   .request (.put ['b'] ['x'] ['3', '\r', '\n']) false,
   .log [transferredLog.flatMap LogRecord.text, logEnd ++ crlf], .connect, .finish,
   .request (.cput ['b'] ['x'] ['3', '\r', '\n'] ['4', '\r', '\n']) false, .deliver,
   .request (.delete ['a'] ['x']) false]

theorem soundRecovery_agreement :
    ∃ t, Lib.run Recovery.step (Recovery.start (loopback 5000)) soundRecovery = some t ∧
      (t.stage, t.link) = (.rejoined, [.delete ['a'] ['x'] 6]) ∧ t.Agreement := by
  have hrun : (Lib.run Recovery.step (Recovery.start (loopback 5000)) soundRecovery).map
      (fun t => (t.stage, t.link)) = some (.rejoined, [.delete ['a'] ['x'] 6]) := by decide +kernel
  obtain ⟨t, ht, hend⟩ := Option.map_eq_some_iff.mp hrun
  exact ⟨t, ht, hend, agreement_of_sound (by decide +kernel) ht⟩

/-- A `PUT` between the transfer of the log and `READY`. -/
def lateUpdate : List RecoveryAction :=
  [.crash, .recovery [replyTransferLog], .log [logEnd ++ crlf],
   .request (.put ['a'] ['x'] ['1', '\r', '\n']) false, .connect, .finish]

/-- The update of `lateUpdate` never reaches the replica. -/
theorem lateUpdate_lost :
    ∃ t, Lib.run Recovery.step (Recovery.start (loopback 5000)) lateUpdate = some t ∧
      t.stage = .rejoined ∧ t.node.holdBack = [] ∧ t.link = [] ∧
      t.primary.server.table.view (['a'], ['x']) = some ['1', '\r', '\n'] ∧
      t.replica.server.table.view (['a'], ['x']) = none ∧ ¬ t.Agreement := by
  refine ⟨_, rfl, rfl, rfl, rfl, by decide, by decide, fun h => ?_⟩
  obtain ⟨-, u, hrun, hview⟩ := h rfl
  cases hrun
  exact absurd (congrFun hview (['a'], ['x'])) (by decide)

end PennCloud
