import PennCloud.Concurrent.Recovery
import PennCloud.Proof.SeqNumbers

/-!
# What a request leaves behind

A primary together with its `BackStore` and all that has been given to each replica.
`parse_PUT` never refuses, and `parse_CPUT` makes its tests before it logs; but
`parse_DELE` takes a number and writes its record before it looks for the key, so a
`DELETE` of an absent key is refused and leaves both behind.
-/

namespace PennCloud

open Str

/-- A `Replicate`, with what it has been sent. -/
structure Peer extends Replicate where
  /-- Every command passed to `do_write` for it, whether that went through or not. -/
  written : List Forward := []

namespace Peer

/-- What `BackStore::establishConn` makes of an address. -/
def create (up : Addr → Bool) (x : Addr) : Peer :=
  if up x then { addr := x } else { addr := x, state := 3, connection := .null }

/-- What the replica has been given: written to it, or held back for it. -/
def issued (p : Peer) : List Forward := p.written ++ p.holdBack

/-- `do_write`, and state 3 if it fails; through the null pointer it ends the process. -/
def write (up : Addr → Bool) (f : Forward) (p : Peer) : Option Peer :=
  if p.connection = .null then none
  else some { p with written := p.written ++ [f], state := if up p.addr then p.state else 3 }

/-- The test for a connection; only `poll` makes it. -/
def connTest : Forward → Conn → Bool
  | .put .., _ => true
  | .delete .., c => c ≠ .null

/-- `push` and `poll`, for one replica. -/
def send (up : Addr → Bool) (f : Forward) (p : Peer) : Option Peer :=
  if p.state = 1 ∧ connTest f p.connection then p.write up f
  else if p.state = 2 then some { p with holdBack := p.holdBack ++ [f] }
  else some p

/-- `BackStore::recover`, at the replica. -/
def recovering (p : Peer) : Option Peer := some { p with state := 2 }

/-- `BackStore::reconnect`, at the replica: a new connection, and on it what was held back. -/
def reconnect (up : Addr → Bool) (p : Peer) : Option Peer :=
  if up p.addr then
    some { p with
      state := 1, connection := .new, written := p.written ++ p.holdBack, holdBack := [] }
  else none

end Peer

/-- `push` and `poll`, replica by replica. -/
def sendAll (up : Addr → Bool) (f : Forward) : List Peer → Option (List Peer)
  | [] => some []
  | p :: peers => do
    let p ← p.send up f
    let peers ← sendAll up f peers
    return p :: peers

/-- The loops of `recover` and `reconnect`: they stop at the first replica of that address. -/
def atAddress (address : Str) (f : Peer → Option Peer) : List Peer → Option (List Peer)
  | [] => some []
  | p :: peers =>
    if ipToString p.addr = address then (f p).map (· :: peers)
    else (atAddress address f peers).map (p :: ·)

/-- A data server with its `BackStore`. -/
structure Sender where
  server : Server
  /-- The other servers of its group. -/
  others : List Addr
  /-- The pointer is null until the server is the primary. -/
  backStore : Option (List Peer) := none
  /-- Every number that has been written to its log, also before the log was truncated. -/
  used : List Int := []

/-- What happens to it. -/
inductive SenderAction
  /-- `up` tells which replicas take a connection, and what is written to it. -/
  | server (a : ServerAction) (up : Addr → Bool)
  /-- `BackStore::recover`. -/
  | recover (address : Str)
  /-- `BackStore::reconnect`. -/
  | reconnect (address : Str) (up : Addr → Bool)

namespace Sender

def start (primary : Bool) (others : List Addr) (up : Addr → Bool) : Sender :=
  { server := { primary := primary }, others := others
    backStore := if primary then some (others.map (Peer.create up)) else none }

/-- A new state of the server, whose log may have grown. -/
def become (s : Sender) (server : Server) : Sender :=
  { s with server := server, used := s.used ++ server.log.map LogRecord.seq }

/-- A command goes to the `BackStore`. -/
def forward (up : Addr → Bool) (s : Sender) (f : Forward) : Option Sender :=
  (s.backStore.bind (sendAll up f)).map fun peers => { s with backStore := some peers }

/-- A client's request at a primary, to its reply. -/
def request (up : Addr → Bool) (s : Sender) (q : Request) : Option (Sender × Str) :=
  if s.server.primary then
    match s.server.handle q.call with
    | .ok r => (r.forwarded.foldlM (forward up) (s.become r.server)).map (·, r.reply)
    | .error _ => none
  else none

def act (s : Sender) : SenderAction → Option Sender
  | .server (.request q) up => (s.request up q).map Prod.fst
  | .server .recovery _ => some { s with server := s.server.restarted, backStore := none }
  | .server .promote up =>
      some { s with
        server := { s.server with primary := true }
        backStore := some (s.others.map (Peer.create up)) }
  | .server a _ => (s.server.act a).map s.become
  | .recover address =>
      (s.backStore.bind (atAddress address Peer.recovering)).map fun peers =>
        { s with backStore := some peers }
  | .reconnect address up =>
      (s.backStore.bind (atAddress address (Peer.reconnect up))).map fun peers =>
        { s with backStore := some peers }

/-- The next number has never been in the log. -/
def NextFresh (s : Sender) : Prop := s.server.seqID + 1 ∉ s.used

instance (s : Sender) : Decidable s.NextFresh := inferInstanceAs (Decidable (_ ∉ _))

end Sender

/-- A replica in state 1 or 2 is given one command of that number, any other replica nothing. -/
def Peer.Given (seq : Int) (p p' : Peer) : Prop :=
  if p.state = 1 ∨ p.state = 2 then ∃ f : Forward, f.seq = seq ∧ p'.issued = p.issued ++ [f]
  else p'.issued = p.issued

/-- One record more, under a new number, and one command for each replica. -/
def Sender.Recorded (s t : Sender) : Prop :=
  ∃ r : LogRecord, t.server.log = s.server.log ++ [r] ∧ r.seq ∉ s.used ∧
    ∃ peers peers', s.backStore = some peers ∧ t.backStore = some peers' ∧
      List.Forall₂ (Peer.Given r.seq) peers peers'

/-- A refused request has left no trace, and an accepted one is recorded. -/
def Sender.Traceless (up : Addr → Bool) (s : Sender) (q : Request) : Prop :=
  ∀ t reply, s.request up q = some (t, reply) →
    (Refuses reply → t.server = s.server ∧ t.backStore = s.backStore) ∧
    (Accepts reply → s.Recorded t)

/-- The condition: no `DELETE` of an absent key, and a fresh number for what is accepted. -/
def Request.Tidy (s : Sender) : Request → Prop
  | .put row col _ => ¬ NullPut s.server.table row col → s.NextFresh
  | .cput row col oldData _ => CputHolds s.server.table.view (row, col) oldData → s.NextFresh
  | .get .. => True
  | .delete row col => (s.server.table.at? row col).isSome ∧ s.NextFresh

instance (s : Sender) : DecidablePred (Request.Tidy s)
  | .put .. => inferInstanceAs (Decidable (_ → _))
  | .cput .. => inferInstanceAs (Decidable (_ → _))
  | .get .. => .isTrue trivial
  | .delete .. => inferInstanceAs (Decidable (_ ∧ _))

/-! ## What is sent -/

/-- A replica that is written to has a connection, and nothing is held back for it. -/
def Peer.Wired (p : Peer) : Prop := p.state = 1 → p.connection ≠ .null ∧ p.holdBack = []

section Peers

variable {up : Addr → Bool} {f : Forward} {p p' : Peer} {peers peers' : List Peer}

theorem Peer.wired_create (x : Addr) : (Peer.create up x).Wired := by
  rw [Peer.create]
  split
  · exact fun _ => ⟨nofun, rfl⟩
  · exact fun h => by cases h

theorem wired_created (others : List Addr) (up : Addr → Bool) :
    ∀ p ∈ others.map (Peer.create up), p.Wired := by
  intro p hp
  obtain ⟨x, -, rfl⟩ := List.mem_map.mp hp
  exact Peer.wired_create x

theorem Peer.wired_recovering (h : p.recovering = some p') : p'.Wired := by
  cases h
  exact fun h => by cases h

theorem Peer.wired_reconnect (h : p.reconnect up = some p') : p'.Wired := by
  rw [Peer.reconnect] at h
  split at h
  · cases h
    exact fun _ => ⟨nofun, rfl⟩
  · cases h

/-- **A command reaches each replica that is running or recovering**, and keeps them wired. -/
theorem Peer.send_spec (up : Addr → Bool) (f : Forward) (hp : p.Wired) :
    ∃ p', p.send up f = some p' ∧ p'.Wired ∧ p.Given f.seq p' := by
  rw [Peer.send]
  by_cases h1 : p.state = 1
  · obtain ⟨hconn, hheld⟩ := hp h1
    have htest : Peer.connTest f p.connection = true := by
      cases f with
      | put row col data seq => rfl
      | delete row col seq => exact decide_eq_true hconn
    rw [if_pos ⟨h1, htest⟩, Peer.write, if_neg hconn]
    refine ⟨_, rfl, fun _ => ⟨hconn, hheld⟩, ?_⟩
    rw [Peer.Given, if_pos (Or.inl h1)]
    refine ⟨f, rfl, ?_⟩
    show p.written ++ [f] ++ p.holdBack = p.written ++ p.holdBack ++ [f]
    rw [hheld, List.append_nil, List.append_nil]
  · rw [if_neg fun h => h1 h.1]
    by_cases h2 : p.state = 2
    · rw [if_pos h2]
      refine ⟨_, rfl, fun h => absurd h h1, ?_⟩
      rw [Peer.Given, if_pos (Or.inr h2)]
      exact ⟨f, rfl, (List.append_assoc ..).symm⟩
    · rw [if_neg h2]
      refine ⟨p, rfl, hp, ?_⟩
      rw [Peer.Given, if_neg (not_or.mpr ⟨h1, h2⟩)]

theorem sendAll_spec (up : Addr → Bool) (f : Forward) (hp : ∀ p ∈ peers, p.Wired) :
    ∃ peers', sendAll up f peers = some peers' ∧ (∀ p ∈ peers', p.Wired) ∧
      List.Forall₂ (Peer.Given f.seq) peers peers' := by
  induction peers with
  | nil => exact ⟨[], rfl, fun p hp => (by cases hp), .nil⟩
  | cons p peers ih =>
      obtain ⟨p', hsend, hwired, hgiven⟩ := Peer.send_spec up f (hp p List.mem_cons_self)
      obtain ⟨peers', hall, hwired', hgiven'⟩ := ih fun q hq => hp q (List.mem_cons_of_mem _ hq)
      refine ⟨p' :: peers', ?_, List.forall_mem_cons.mpr ⟨hwired, hwired'⟩, .cons hgiven hgiven'⟩
      rw [sendAll, hsend, hall]
      rfl

theorem wired_atAddress {address : Str} {g : Peer → Option Peer}
    (hg : ∀ p p', p.Wired → g p = some p' → p'.Wired) (hp : ∀ p ∈ peers, p.Wired)
    (h : atAddress address g peers = some peers') : ∀ p ∈ peers', p.Wired := by
  induction peers generalizing peers' with
  | nil =>
      cases h
      exact hp
  | cons p peers ih =>
      obtain ⟨hhead, htail⟩ := List.forall_mem_cons.mp hp
      rw [atAddress] at h
      split at h
      · obtain ⟨p', hp', rfl⟩ := Option.map_eq_some_iff.mp h
        exact List.forall_mem_cons.mpr ⟨hg p p' hhead hp', htail⟩
      · obtain ⟨rest, hrest, rfl⟩ := Option.map_eq_some_iff.mp h
        exact List.forall_mem_cons.mpr ⟨hhead, ih htail hrest⟩

end Peers

/-! ## The `BackStore` of a primary -/

namespace Sender

/-- A primary has a `BackStore`, and can write to its running replicas. -/
structure Inv (s : Sender) : Prop where
  set : s.server.primary = true → s.backStore.isSome = true
  wired : ∀ peers, s.backStore = some peers → ∀ p ∈ peers, p.Wired

variable {up : Addr → Bool} {s t : Sender} {q : Request} {reply : Str}

theorem inv_start (primary : Bool) (others : List Addr) (up : Addr → Bool) :
    (start primary others up).Inv := by
  cases primary with
  | false => exact ⟨nofun, nofun⟩
  | true =>
      exact ⟨fun _ => rfl, fun peers hpeers => Option.some.inj hpeers ▸ wired_created others up⟩

/-- A command to a `BackStore` whose running replicas can be written to. -/
theorem forward_spec (up : Addr → Bool) (f : Forward) {peers : List Peer}
    (hset : s.backStore = some peers)
    (hwired : ∀ p ∈ peers, p.Wired) :
    ∃ peers', s.forward up f = some { s with backStore := some peers' } ∧
      (∀ p ∈ peers', p.Wired) ∧ List.Forall₂ (Peer.Given f.seq) peers peers' := by
  obtain ⟨peers', hall, hwired', hgiven⟩ := sendAll_spec up f hwired
  refine ⟨peers', ?_, hwired', hgiven⟩
  rw [forward, hset, Option.bind_some, hall]
  rfl

/-- A request whose reaction is one command for the replicas. -/
theorem request_forwards (up : Addr → Bool) (hs : s.Inv) (hp : s.server.primary = true)
    {server : Server}
    {f : Forward} (h : s.server.handle q.call = .ok ⟨server, reply, [f]⟩) :
    ∃ peers peers', s.backStore = some peers ∧ (∀ p ∈ peers', p.Wired) ∧
      List.Forall₂ (Peer.Given f.seq) peers peers' ∧
      s.request up q = some ({ s.become server with backStore := some peers' }, reply) := by
  obtain ⟨peers, hset⟩ := Option.isSome_iff_exists.mp (hs.set hp)
  obtain ⟨peers', hforward, hwired, hgiven⟩ :=
    forward_spec up f (s := s.become server) hset (hs.wired peers hset)
  refine ⟨peers, peers', hset, hwired, hgiven, ?_⟩
  rw [request, if_pos hp, h]
  simp only [List.foldlM_cons, List.foldlM_nil, hforward, bind, pure, Option.bind_some,
    Option.map_some]

/-- A request whose reaction is none. -/
theorem request_quiet (up : Addr → Bool) (hp : s.server.primary = true) {server : Server}
    (h : s.server.handle q.call = .ok ⟨server, reply, []⟩) :
    s.request up q = some (s.become server, reply) := by
  rw [request, if_pos hp, h]
  rfl

theorem request_fault (e : Stop) (h : s.server.handle q.call = .error e) :
    s.request up q = none := by
  rw [request, h]
  split <;> rfl

/-! ## Request by request -/

theorem not_refuses {reply : Str} (h : Accepts reply) : ¬ Refuses reply := by
  rintro ⟨rest, hrest⟩
  obtain ⟨rest', hrest'⟩ := h
  rw [← hrest'] at hrest
  cases hrest

/-- **An accepted write is recorded exactly when its number is fresh.** -/
theorem traceless_accepted (hs : s.Inv) (hp : s.server.primary = true) {server : Server}
    {f : Forward} {r : LogRecord} (h : s.server.handle q.call = .ok ⟨server, reply, [f]⟩)
    (hreply : Accepts reply) (hlog : server.log = s.server.log ++ [r])
    (hr : r.seq = s.server.seqID + 1) (hf : f.seq = s.server.seqID + 1) :
    s.Traceless up q ↔ s.NextFresh := by
  obtain ⟨peers, peers', hset, -, hgiven, hrequest⟩ := request_forwards up hs hp h
  constructor
  · intro htrace
    obtain ⟨r', hlog', hfresh, -⟩ := (htrace _ _ hrequest).2 hreply
    have hrr : r = r' := by
      have hsame : s.server.log ++ [r] = s.server.log ++ [r'] := hlog.symm.trans hlog'
      simpa using hsame
    rw [NextFresh, ← hr, hrr]
    exact hfresh
  · intro hfresh t' reply' hrequest'
    rw [hrequest] at hrequest'
    cases hrequest'
    refine ⟨fun hrefuse => absurd hrefuse (not_refuses hreply), fun _ => ?_⟩
    refine ⟨r, hlog, by rw [hr]; exact hfresh, peers, peers', hset, rfl, ?_⟩
    rw [hr, ← hf]
    exact hgiven

/-- A request that leaves the server as it was, and is not accepted. -/
theorem traceless_quiet (hp : s.server.primary = true)
    (h : s.server.handle q.call = .ok ⟨s.server, reply, []⟩) (hreply : ¬ Accepts reply) :
    s.Traceless up q := by
  intro t' reply' hrequest
  rw [request_quiet up hp h] at hrequest
  cases hrequest
  exact ⟨fun _ => ⟨rfl, rfl⟩, fun haccept => absurd haccept hreply⟩

/-- **Any request is traceless exactly under its condition.** -/
theorem traceless_iff (hs : s.Inv) (hp : s.server.primary = true) (q : Request) :
    s.Traceless up q ↔ q.Tidy s := by
  cases q with
  | put row col data =>
      by_cases hnull : NullPut s.server.table row col
      · -- the process ends, and there is no answer
        refine iff_of_true (fun t reply hrequest => ?_) fun h => absurd hnull h
        have hfault : s.server.handle (Request.put row col data).call = .error .nullDeref :=
          parsePUT_fault data hnull
        rw [request_fault _ hfault] at hrequest
        cases hrequest
      · have hput : s.server.handle (Request.put row col data).call = .ok _ :=
          parsePUT_eq data hnull
        exact (traceless_accepted hs hp hput ⟨_, rfl⟩ rfl rfl rfl).trans
          ⟨fun h _ => h, fun h => h hnull⟩
  | cput row col oldData newData =>
      have hcput : s.server.handle (Request.cput row col oldData newData).call = .ok _ :=
        congrArg Except.ok (parseCPUT_eq s.server row col oldData newData)
      by_cases hholds : CputHolds s.server.table.view (row, col) oldData
      · rw [if_pos hholds, hp, if_pos rfl] at hcput
        exact (traceless_accepted hs hp hcput ⟨_, rfl⟩ rfl rfl rfl).trans
          ⟨fun h _ => h, fun h => h hholds⟩
      · rw [if_neg hholds] at hcput
        refine iff_of_true ?_ fun h => absurd h hholds
        exact traceless_quiet hp hcput fun h => not_refuses h ⟨_, rfl⟩
  | get row col =>
      refine iff_of_true ?_ trivial
      rcases parseGET_cases s.server row col with ⟨d, -, hget⟩ | ⟨-, reply, hreply, hget⟩
      · refine traceless_quiet hp (congrArg Except.ok hget) ?_
        rintro ⟨rest, hrest⟩
        cases hrest
      · exact traceless_quiet hp (congrArg Except.ok hget) fun h => not_refuses h hreply
  | delete row col =>
      rcases parseDELE_cases s.server row col with ⟨d, hat, hdel⟩ | ⟨hat, reply, hreply, hdel⟩
      · have haccept : Accepts replyDeleted := ⟨_, rfl⟩
        have hdo : s.server.handle (Request.delete row col).call = .ok _ := congrArg Except.ok hdel
        refine (traceless_accepted hs hp hdo haccept rfl rfl rfl).trans ?_
        exact ⟨fun h => ⟨by rw [hat]; rfl, h⟩, fun h => h.2⟩
      · -- refused, with the number taken
        have hmiss : ¬ (Request.delete row col).Tidy s := by
          rintro ⟨hsome, -⟩
          rw [hat] at hsome
          cases hsome
        refine iff_of_false (fun htrace => ?_) hmiss
        have hrequest := request_quiet up hp (q := .delete row col) (congrArg Except.ok hdel)
        have hseq := congrArg Server.seqID ((htrace _ _ hrequest).1 hreply).1
        have hnext : s.server.seqID + 1 = s.server.seqID := hseq
        omega

/-! ## Whole runs -/

theorem inv_request (hs : s.Inv) (h : s.request up q = some (t, reply)) : t.Inv := by
  have hp : s.server.primary = true := by
    rw [request] at h
    split at h
    · assumption
    · cases h
  -- what is forwarded is one command or none
  cases hh : s.server.handle q.call with
  | error e =>
      rw [request_fault e hh] at h
      cases h
  | ok r =>
      obtain ⟨hforwarded, -⟩ := sends_spec hp hh
      obtain ⟨server, reply', forwarded⟩ := r
      obtain rfl : forwarded = (s.server.sends q).toList := hforwarded
      cases hsends : s.server.sends q with
      | none =>
          rw [hsends] at hh
          rw [request_quiet up hp hh] at h
          cases h
          exact ⟨fun _ => hs.set hp, hs.wired⟩
      | some f =>
          rw [hsends] at hh
          obtain ⟨peers, peers', -, hwired, -, hrequest⟩ := request_forwards up hs hp hh
          rw [hrequest] at h
          cases h
          exact ⟨fun _ => rfl, fun ps hps => Option.some.inj hps ▸ hwired⟩

theorem inv_atAddress {address : Str} {g : Peer → Option Peer} {peers' : List Peer} (hs : s.Inv)
    (hg : ∀ p p', p.Wired → g p = some p' → p'.Wired)
    (h : s.backStore.bind (atAddress address g) = some peers') :
    Inv { s with backStore := some peers' } := by
  obtain ⟨peers, hset, hat⟩ := Option.bind_eq_some_iff.mp h
  exact ⟨fun _ => rfl, fun ps hps =>
    Option.some.inj hps ▸ wired_atAddress hg (hs.wired peers hset) hat⟩

/-- **Every action keeps a primary's `BackStore` in order.** -/
theorem inv_step {a : SenderAction} (hs : s.Inv) (h : s.act a = some t) : t.Inv := by
  cases a with
  | server a up =>
      cases a with
      | request q =>
          obtain ⟨⟨t', reply⟩, hrequest, rfl⟩ := Option.map_eq_some_iff.mp h
          exact inv_request hs hrequest
      | replicated f =>
          obtain ⟨server, hserver, rfl⟩ := Option.map_eq_some_iff.mp h
          exact ⟨fun hp => hs.set ((act_replicated hserver).2.frame.1 ▸ hp), hs.wired⟩
      | checkpoint =>
          cases h
          exact ⟨hs.set, hs.wired⟩
      | recovery =>
          cases h
          exact ⟨nofun, nofun⟩
      | promote =>
          cases h
          exact ⟨fun _ => rfl, fun peers hpeers =>
            Option.some.inj hpeers ▸ wired_created s.others up⟩
  | recover address =>
      obtain ⟨peers, hpeers, rfl⟩ := Option.map_eq_some_iff.mp h
      exact inv_atAddress hs (fun p p' _ hp' => Peer.wired_recovering hp') hpeers
  | reconnect address up =>
      obtain ⟨peers, hpeers, rfl⟩ := Option.map_eq_some_iff.mp h
      exact inv_atAddress hs (fun p p' _ hp' => Peer.wired_reconnect hp') hpeers

end Sender

/--
**A request leaves no trace when it is refused, and one record and one command
when it is accepted, if and only if** it is no `DELETE` of an absent key and the
number it takes, if it is accepted, is fresh; in every state a primary reaches.
-/
theorem traceless_iff_tidy {primary : Bool} {others : List Addr} {up₀ up : Addr → Bool}
    {as : List SenderAction} {s : Sender}
    (hr : Lib.run Sender.act (Sender.start primary others up₀) as = some s)
    (hp : s.server.primary = true) (q : Request) : s.Traceless up q ↔ q.Tidy s := by
  have hs : s.Inv := Lib.inv_of_run (fun _ _ _ => Sender.inv_step)
    (Sender.inv_start primary others up₀) hr
  exact Sender.traceless_iff hs hp q

/-- A replica takes over, one of its two replicas is down, and then it is recovering. -/
def takeover : List SenderAction :=
  [.server (.replicated (.put ['a'] ['x'] ['1'] 4)) fun _ => true,
   .server .promote fun x => x = node6000, .recover (ipToString node8000),
   .server (.request (.cput ['a'] ['x'] ['1'] ['2'])) fun _ => true]

theorem takeover_traceless :
    ∃ s, Lib.run Sender.act (.start false [node6000, node8000] fun _ => false) takeover = some s ∧
      s.Traceless (fun _ => true) (.delete ['a'] ['x']) := by
  have hrun : (Lib.run Sender.act (.start false [node6000, node8000] fun _ => false) takeover).map
      (fun s => (s.server.primary, decide ((Request.delete ['a'] ['x']).Tidy s)))
        = some (true, true) := by decide +kernel
  obtain ⟨s, hs, hend⟩ := Option.map_eq_some_iff.mp hrun
  obtain ⟨hp, htidy⟩ := Prod.mk.inj hend
  exact ⟨s, hs, (traceless_iff_tidy hs hp _).mpr (of_decide_eq_true htidy)⟩

/-- A `DELETE` of an absent key is refused, and has taken a number and written a record. -/
theorem absentKey_leaves_trace :
    ∃ t, (Sender.start true [loopback 1] fun _ => true).request (fun _ => true)
        (.delete ['a'] ['x']) = some (t, replyNullRow) ∧
      t.server.seqID = 1 ∧ t.server.log = [.delete 1 ['a'] ['x']] ∧
      ¬ (Sender.start true [loopback 1] fun _ => true).Traceless (fun _ => true)
        (.delete ['a'] ['x']) := by
  refine ⟨_, rfl, rfl, rfl, fun h => ?_⟩
  have hseq := congrArg Server.seqID ((h _ _ rfl).1 ⟨_, rfl⟩).1
  cases hseq

end PennCloud
