import PennCloud.Concurrent.RecoveryLine
import PennCloud.Master.Promotion

/-!
# What can bring a data server down

The handlers `Worker::run` can reach, with everything in them that may throw or
reach through a pointer that is not there. `substrAt` is `std::string::substr`
with its test of the position, `stolAt` and `stoulAt` are the conversions with
their ranges, and the `BackStore` is a pointer that only `parse_PROMOTE` sets.

No position is ever out of range (the `At_eq` lemmas). The rest depends on the
role, the command and what has been sent with it.
-/

namespace PennCloud

open Str

/-- What keeps a handler from returning. -/
inductive Fault
  /-- `std::stol` or `std::stoul` finds no number, or one out of range. -/
  | numberThrow
  /-- `std::string::substr` behind the end. -/
  | substrThrow
  /-- A `Cell*` that is null. -/
  | nullCell
  /-- `backStore` has not been set. -/
  | unsetBackStore
  /-- A read fills its array, which is then used without a terminating zero. -/
  | overrun
  /-- A pointer moved out of its array is read. -/
  | wildPointer
  /-- `reconnect` tries again for ever. -/
  | endless
  /-- `raise(SIGKILL)`. -/
  | killed
  deriving DecidableEq, Repr

/-- How a handler may end without having returned. -/
inductive Halt
  /-- It waits for bytes that have not been sent. -/
  | waits
  | fails (f : Fault)
  deriving DecidableEq, Repr

def Stop.halt : Stop → Halt
  | .blocked | .signedOff | .notData => .waits
  | .overrun => .fails .overrun
  | .stolThrow => .fails .numberThrow
  | .nullDeref => .fails .nullCell

/-- A part that is modelled elsewhere. -/
def Halt.lift {α : Type} : Except Stop α → Except Halt α
  | .ok a => .ok a
  | .error e => .error e.halt

/-! ## Cutting and reading numbers -/

/-- `s.substr(pos, n)`. -/
def substrAt (s : Str) (pos : Int) (n : Int := npos) : Except Halt Str :=
  if 0 ≤ pos ∧ pos ≤ s.length then .ok (s.substr pos n) else .error (.fails .substrThrow)

/-- The values of a `long`. -/
def inLong (n : Int) : Bool := -9223372036854775808 ≤ n ∧ n ≤ 9223372036854775807

/-- `std::stol`, as far as it returns. -/
def stol64 (s : Str) : Option Int := (stol s).filter inLong

/-- `std::stoul` reads the same numbers; a sign goes through. -/
def stoul64 (s : Str) : Option Int :=
  (stol s).filter fun n => -18446744073709551615 ≤ n ∧ n ≤ 18446744073709551615

def number (n : Option Int) : Except Halt Int := n.elim (.error (.fails .numberThrow)) .ok

/-- `literal + n`, read as a text: it is there up to the terminating zero. -/
def literalAt (literal : Str) (n : Int) : Except Halt Str :=
  if 0 ≤ n ∧ n ≤ literal.length then .ok (literal.drop n.toNat) else .error (.fails .wildPointer)

namespace Worker

/-- `parse_command`. -/
def parseCommandAt (command : Str) : Except Halt (Str × Str) := do
  let s ← substrAt command (command.find [' '] + 1)
  let row ← substrAt s (s.find ['<'] + 1) (s.find ['>'] - s.find ['<'] - 1)
  let s ← substrAt s (s.find ['>'] + 1)
  let col ← substrAt s (s.find ['<'] + 1) (s.find ['>'] - s.find ['<'] - 1)
  return (row, col)

/-- What a handler leaves in the stream behind a mark of `n` bytes at `pos`. -/
def restAt (buffer : Str) (pos n behind : Int) : Except Halt StringStream :=
  if pos + n = buffer.length then .ok (.setStr [])
  else (substrAt buffer (pos + behind)).map .setStr

/-- The body of `parse_PUT` on a primary. -/
def bodyPUTAt (k : Worker) : Except Halt (Str × Worker) := do
  let (buffer, task) ← Halt.lift (readBody dotLine (k.task.length + 1) k.w.str k.task)
  let dataEnd := buffer.find dotLine
  let pos := buffer.find "DATA\r\n".toList + 6
  let data ← substrAt buffer pos (dataEnd - pos + 2)
  let w ← restAt buffer dataEnd 5 6
  return (data, { k with w := w, task := task })

/-- The body of `parse_PUT` on a replica. -/
def bodyPUTReplicaAt (k : Worker) : Except Halt (Int × Str × Worker) := do
  let (buffer, task) ← Halt.lift (readBody dotLine (k.task.length + 1) k.w.str k.task)
  let dataEnd := buffer.find dotLine
  let pos := buffer.find crlf + 2
  let data ← substrAt buffer pos (dataEnd - pos + 2)
  let seqStr ← substrAt buffer 0 (pos - 2)
  let seq ← number (stol64 seqStr)
  let w ← restAt buffer dataEnd 5 6
  return (seq, data, { k with w := w, task := task })

/-- The body of `parse_CPUT`. -/
def bodyCPUTAt (k : Worker) : Except Halt (Str × Str × Worker) := do
  let (buffer, task) ← Halt.lift (readBody dotLine (k.task.length + 1) k.w.str k.task)
  let dataEnd := buffer.find dotLine
  let pos := buffer.find "OLD\r\n".toList + 5
  let oldData ← substrAt buffer pos (dataEnd - pos + 2)
  let buffer ← substrAt buffer (dataEnd + 3)
  let (buffer, task) ← Halt.lift (readBody dotLine (task.length + 1) buffer task)
  let dataEnd := buffer.find dotLine
  let pos := buffer.find "NEW\r\n".toList + 5
  let newData ← substrAt buffer pos (dataEnd - pos + 2)
  let w ← restAt buffer dataEnd 5 6
  return (oldData, newData, { k with w := w, task := task })

/-- The sequence number line of `parse_DELE` on a replica. -/
def bodyDELEReplicaAt (k : Worker) : Except Halt (Int × Worker) := do
  let (buffer, task) ← Halt.lift (readBody crlf (k.task.length + 1) k.w.str k.task)
  let dataEnd := buffer.find crlf
  let w ← restAt buffer dataEnd 2 2
  let seqStr ← substrAt buffer 0 (buffer.find crlf)
  let seq ← number (stol64 seqStr)
  return (seq, { k with w := w, task := task })

end Worker

/-! ## Positions are in range -/

section Positions

variable {s pat buffer : Str} {k : Worker} {task : List Read} {n : Nat}

theorem substrAt_ok {pos : Int} (len : Int) (h0 : 0 ≤ pos) (hlen : pos ≤ s.length) :
    substrAt s pos len = .ok (s.substr pos len) := if_pos ⟨h0, hlen⟩

theorem substrAt_front (s : Str) (len : Int) : substrAt s 0 len = .ok (s.substr 0 len) :=
  substrAt_ok len (Int.le_refl 0) (Int.natCast_nonneg _)

/-- A text that is found lies within. -/
theorem find_within (h : pat <:+: s) : 0 ≤ s.find pat ∧ s.find pat + pat.length ≤ s.length := by
  obtain ⟨i, hi⟩ := Lib.firstIdx_isSome h
  obtain ⟨a, b, rfl, rfl⟩ := Lib.firstIdx_split hi
  rw [find_of_firstIdx hi, List.length_append, List.length_append]
  omega

/-- Behind a text that is looked for, found or not, there is room. -/
theorem find_behind (pat : Str) {m : Int} (hm : m = pat.length) (hpos : 1 ≤ m)
    (hlen : m ≤ s.length + 1) :
    0 ≤ s.find pat + m ∧ s.find pat + m ≤ s.length := by
  by_cases h : pat <:+: s
  · obtain ⟨h0, hle⟩ := find_within h
    omega
  · rw [find_of_none (Lib.firstIdx_eq_none.mpr h), npos]
    omega

theorem find_behind_char (s : Str) (c : Char) :
    0 ≤ s.find [c] + 1 ∧ s.find [c] + 1 ≤ s.length :=
  find_behind [c] rfl (Int.le_refl 1) (by omega)

theorem parseCommandAt_eq (command : Str) :
    Worker.parseCommandAt command = .ok (Worker.parseCommand command) := by
  have hcut : ∀ (s : Str) (c : Char) (len : Int),
      substrAt s (s.find [c] + 1) len = .ok (s.substr (s.find [c] + 1) len) := fun s c len =>
    substrAt_ok len (find_behind_char s c).1 (find_behind_char s c).2
  simp only [Worker.parseCommandAt, hcut, bind, Except.bind, pure, Except.pure]
  rfl

/-- What a body loop returns has the mark in it. -/
theorem readBody_found : ∀ {n : Nat} {buffer : Str} {task t : List Read} {b : Str},
    readBody pat n buffer task = .ok (b, t) → pat <:+: b
  | 0, _, _, _, _, h => by cases h
  | n + 1, buffer, task, t, b, h => by
      rw [readBody] at h
      split at h
      · rename_i hfound
        cases h
        exact find_ne_npos.mp hfound
      · obtain ⟨⟨buf, task'⟩, -, h⟩ := bind_ok h
        exact readBody_found h

theorem restAt_eq (n behind : Int) (hin : pat <:+: buffer) (hn : n = pat.length)
    (hbehind : behind ≤ n + 1) (hpos : 0 ≤ behind) : Worker.restAt buffer (buffer.find pat) n behind
      = .ok (if buffer.find pat + n = buffer.length then .setStr []
          else .setStr (buffer.substr (buffer.find pat + behind))) := by
  obtain ⟨h0, hle⟩ := find_within hin
  unfold Worker.restAt
  split
  · rfl
  · rw [substrAt_ok _ (by omega) (by omega)]
    rfl

theorem length_of_dot (h : dotLine <:+: buffer) : 5 ≤ buffer.length := h.length_le

/-- **No position of `parse_PUT` is out of range.** -/
theorem bodyPUTAt_eq (k : Worker) : k.bodyPUTAt = Halt.lift k.bodyPUT := by
  unfold Worker.bodyPUTAt Worker.bodyPUT
  cases hread : readBody dotLine (k.task.length + 1) k.w.str k.task with
  | error e => rfl
  | ok r =>
      obtain ⟨buffer, task⟩ := r
      have hin := readBody_found hread
      have hlen := length_of_dot hin
      obtain ⟨h0, hle⟩ := find_behind (s := buffer) "DATA\r\n".toList (m := 6) rfl
        (by omega) (by omega)
      simp only [Halt.lift, bind, Except.bind, pure, Except.pure, substrAt_ok _ h0 hle,
        restAt_eq 5 6 hin rfl (by omega) (by omega)]

/-- **No position of `parse_CPUT` is out of range.** -/
theorem bodyCPUTAt_eq (k : Worker) : k.bodyCPUTAt = Halt.lift k.bodyCPUT := by
  unfold Worker.bodyCPUTAt Worker.bodyCPUT
  cases hread : readBody dotLine (k.task.length + 1) k.w.str k.task with
  | error e => rfl
  | ok r =>
      obtain ⟨buffer, task⟩ := r
      have hin := readBody_found hread
      have hlen := length_of_dot hin
      obtain ⟨h0, hle⟩ := find_behind (s := buffer) "OLD\r\n".toList (m := 5) rfl
        (by omega) (by omega)
      obtain ⟨hdot, hdotle⟩ := find_within hin
      have hfive : (dotLine.length : Int) = 5 := rfl
      have hcut : substrAt buffer (buffer.find dotLine + 3)
          = .ok (buffer.substr (buffer.find dotLine + 3)) := substrAt_ok npos (by omega) (by omega)
      simp only [Halt.lift, bind, Except.bind, pure, Except.pure, substrAt_ok _ h0 hle, hcut]
      cases hread' : readBody dotLine (task.length + 1)
        (buffer.substr (buffer.find dotLine + 3)) task with
      | error e => rfl
      | ok r =>
          obtain ⟨buffer', task'⟩ := r
          have hin' := readBody_found hread'
          have hlen' := length_of_dot hin'
          obtain ⟨h0', hle'⟩ := find_behind (s := buffer') "NEW\r\n".toList (m := 5) rfl
            (by omega) (by omega)
          simp only [substrAt_ok _ h0' hle',
            restAt_eq 5 6 hin' rfl (by omega) (by omega)]

/-- On a replica a body fails by its number only. -/
theorem bodyPUTReplicaAt_eq (k : Worker) : k.bodyPUTReplicaAt =
    (Halt.lift (readBody dotLine (k.task.length + 1) k.w.str k.task)).bind fun r =>
      (number (stol64 (r.1.substr 0 (r.1.find crlf)))).bind fun seq =>
        .ok (seq, r.1.substr (r.1.find crlf + 2) (r.1.find dotLine - (r.1.find crlf + 2) + 2),
          { k with
            w := if r.1.find dotLine + 5 = r.1.length then .setStr []
              else .setStr (r.1.substr (r.1.find dotLine + 6))
            task := r.2 }) := by
  unfold Worker.bodyPUTReplicaAt
  cases hread : readBody dotLine (k.task.length + 1) k.w.str k.task with
  | error e => rfl
  | ok r =>
      obtain ⟨buffer, task⟩ := r
      have hin := readBody_found hread
      obtain ⟨h0, hle⟩ := find_within (List.IsInfix.trans (by decide : crlf <:+: dotLine) hin)
      have htwo : (crlf.length : Int) = 2 := rfl
      have hend : buffer.find crlf + 2 - 2 = buffer.find crlf := by omega
      have hdata : ∀ n, substrAt buffer (buffer.find crlf + 2) n
          = .ok (buffer.substr (buffer.find crlf + 2) n) := fun n =>
        substrAt_ok n (by omega) (by omega)
      simp only [Halt.lift, bind, Except.bind, pure, Except.pure, hend, hdata, substrAt_front,
        restAt_eq 5 6 hin rfl (by omega) (by omega)]

theorem bodyDELEReplicaAt_eq (k : Worker) : k.bodyDELEReplicaAt =
    (Halt.lift (readBody crlf (k.task.length + 1) k.w.str k.task)).bind fun r =>
      (number (stol64 (r.1.substr 0 (r.1.find crlf)))).bind fun seq =>
        .ok (seq, { k with
          w := if r.1.find crlf + 2 = r.1.length then .setStr []
            else .setStr (r.1.substr (r.1.find crlf + 2))
          task := r.2 }) := by
  unfold Worker.bodyDELEReplicaAt
  cases hread : readBody crlf (k.task.length + 1) k.w.str k.task with
  | error e => rfl
  | ok r =>
      obtain ⟨buffer, task⟩ := r
      have hin := readBody_found hread
      simp only [Halt.lift, bind, Except.bind, pure, Except.pure, substrAt_front,
        restAt_eq 2 2 hin rfl (by omega) (by omega)]

end Positions

/-! ## A data server -/

/-- `findVersionNum`, from the checkpoint's contents if there is one. -/
def versionAt : Option Str → Except Halt Int
  | none => .ok 0
  | some contents => do
    let versionNumLine : Str := (Lib.lines '\n' contents).headD []
    let pos := versionNumLine.find ['<'] + 1
    let numStr ← substrAt versionNumLine pos (versionNumLine.find ['>'] - pos)
    number (stol64 numStr)

/-- `findVersionNum`, as far as it returns. -/
def version64 (checkpoint : Option Str) : Option Int := (findVersionNum checkpoint).filter inLong

/-- A data server with what its handlers reach. -/
structure DataServer where
  server : Server
  myAddr : Addr
  /-- `server_list`, the server itself left out. -/
  others : List Addr
  /-- What `setPrimaryAddr` was last given. -/
  primaryAddr : Str := []
  checkpointFile : Option Str := none
  canCheckpoint : Bool := true
  /-- `backStore`; the pointer is null at the start. -/
  backStore : Option (List Replicate) := none

/-- What a handler leaves: the server, the worker, and what it has replied. -/
abbrev Served := DataServer × Worker × Str

namespace DataServer

/-- `new BackStore(..)`: the replicas that take a connection are running, the others have failed. -/
def newBackStore (up : Addr → Bool) (others : List Addr) : List Replicate :=
  others.map fun x => { addr := x, state := if up x then 1 else 3 }

/-- `push` and `poll`: written, held back, or given up. -/
def pushTo (up : Addr → Bool) (f : Forward) (n : Replicate) : Replicate :=
  if n.state = 1 then if up n.addr then n else { n with state := 3 }
  else if n.state = 2 then { n with holdBack := n.holdBack ++ [f] }
  else n

/-- The commands of a reaction go to the `BackStore`. -/
def forward (up : Addr → Bool) (s : DataServer) : List Forward → Except Halt DataServer
  | [] => .ok s
  | f :: fs =>
    match s.backStore with
    | none => .error (.fails .unsetBackStore)
    | some nodes => forward up { s with backStore := some (nodes.map (pushTo up f)) } fs

/-- The part of a data handler behind its body. -/
def react (up : Addr → Bool) (s : DataServer) (k : Worker) (r : Except Stop Reaction) :
    Except Halt Served := do
  let r ← Halt.lift r
  let s ← forward up { s with server := r.server } r.forwarded
  return (s, k, r.reply)

/-- `setPrimaryAddr`, by `string_to_ip`. -/
def setPrimaryAddr (s : DataServer) (str : Str) : Except Halt DataServer :=
  if str.find [':'] = npos then .ok { s with primaryAddr := str }
  else do
    let port ← substrAt str (str.find [':'] + 1)
    let _ ← number (stoul64 port)
    return { s with primaryAddr := str }

/-- `parse_PROMOTE`. -/
def parsePROMOTE (up : Addr → Bool) (s : DataServer) (command : Str) : Except Halt DataServer := do
  let pos := command.find [' '] + 1
  let newPrimaryStr ← substrAt command pos (command.find crlf - pos)
  if newPrimaryStr = ipToString s.myAddr then
    return { s with
      server := { s.server with primary := true }
      backStore := some (newBackStore up s.others) }
  else s.setPrimaryAddr newPrimaryStr

/-- `parse_RECOVERY`. -/
def parseRECOVERY (s : DataServer) (command : Str) : Except Halt (DataServer × Str) := do
  let s := { s with canCheckpoint := false }
  let command ← substrAt command (command.find [' '] + 1)
  let addrStr ← substrAt command 0 (command.find [' '])
  match s.backStore with
  | none => .error (.fails .unsetBackStore)
  | some nodes => do
    let s := { s with backStore := some (recoverNode nodes addrStr).1 }
    let command ← substrAt command (command.find [' '] + 1)
    let seqStr ← substrAt command 0 (command.find [' '])
    let startSeq ← number (stol64 seqStr)
    -- what goes to `prints`: the number is added to the literal
    let _ ← literalAt "node wants to recovery from seq".toList startSeq
    let versionNum ← versionAt s.checkpointFile
    return (s, if versionNum ≤ startSeq then replyTransferLog else replyTransferCheckpoint)

/-- `BackStore::reconnect`: the first replica of that address, once it takes a connection. -/
def reconnect (up : Addr → Bool) (address : Str) : List Replicate → Except Halt (List Replicate)
  | [] => .ok []
  | n :: nodes =>
    if ipToString n.addr = address then
      if up n.addr then .ok ({ n with state := 1, holdBack := [], connection := .new } :: nodes)
      else .error (.fails .endless)
    else (reconnect up address nodes).map (n :: ·)

/-- `parse_READY`. -/
def parseREADY (up : Addr → Bool) (s : DataServer) (command : Str) : Except Halt DataServer := do
  let pos := command.find [' '] + 1
  let addrStr ← substrAt command pos (command.find crlf - pos)
  match s.backStore with
  | none => .error (.fails .unsetBackStore)
  | some nodes => do
    let nodes ← reconnect up addrStr nodes
    return { s with backStore := some nodes, canCheckpoint := true }

/-- `parse_LIST`. -/
def listReply (s : DataServer) : Str :=
  (s.server.table.cells.flatMap fun p =>
    '<' :: p.1 ++ "> <".toList ++ p.2.1 ++ "> ".toList ++ p.2.2 ++ ['\n']) ++ ['.', '\r', '\n']

/--
One command line and what is behind it, from `Worker::run` on. `up` tells which
replicas take a connection, and what is written to it.
-/
def serve (up : Addr → Bool) (s : DataServer) (command : Str) (k : Worker) : Except Halt Served :=
  match Worker.verb command with
  | .quit => .ok (s, { k with runFlag := false }, "+OK server signing off\r\n".toList)
  | .put => do
    let (row, col) ← Worker.parseCommandAt command
    if s.server.primary then do
      let (data, k) ← k.bodyPUTAt
      s.react up k (s.server.parsePUT row col data)
    else do
      let (seq, data, k) ← k.bodyPUTReplicaAt
      s.react up k (s.server.parsePUTReplica row col seq data)
  | .cput => do
    let (row, col) ← Worker.parseCommandAt command
    let (oldData, newData, k) ← k.bodyCPUTAt
    s.react up k (.ok (s.server.parseCPUT row col oldData newData))
  | .get => do
    let (row, col) ← Worker.parseCommandAt command
    s.react up k (.ok (s.server.parseGET row col))
  | .dele => do
    let (row, col) ← Worker.parseCommandAt command
    if s.server.primary then s.react up k (.ok (s.server.parseDELE row col))
    else do
      let (seq, k) ← k.bodyDELEReplicaAt
      s.react up k (.ok (s.server.parseDELEReplica row col seq))
  | .alive => .ok (s, k, [])
  | .promote => (s.parsePROMOTE up command).map fun s => (s, k, replyOK)
  | .recovery => (s.parseRECOVERY command).map fun r => (r.1, k, r.2)
  | .ready => (s.parseREADY up command).map fun s => (s, k, [])
  | .log => .ok (s, k, s.server.logText ++ logEnd ++ crlf)
  | .checkpoint => .ok (s, k, s.checkpointFile.getD [] ++ checkpointEnd ++ crlf)
  | .closeall => .error (.fails .killed)
  | .list => .ok (s, k, s.listReply)
  | .other => .ok (s, k, "-ERR Not supported\r\n".toList)

end DataServer

/-! ## What survives -/

/-- The handler returns, or waits; and the table is as it was unless the request is accepted. -/
def Survived (s : DataServer) (o : Except Halt Served) : Prop :=
  (∀ f, o ≠ .error (.fails f)) ∧
    ∀ t k reply, o = .ok (t, k, reply) → t.server.table = s.server.table ∨ Accepts reply

/-- The bytes `b` have come when the loop that looks for `stop` ends. -/
def Worker.Comes (k : Worker) (stop b : Str) : Prop :=
  ∃ task, readBody stop (k.task.length + 1) k.w.str k.task = .ok (b, task)

/-- The reads of that loop fill the array. -/
def Worker.Overruns (k : Worker) (stop : Str) : Prop :=
  readBody stop (k.task.length + 1) k.w.str k.task = .error .overrun

def firstLine (b : Str) : Str := b.substr 0 (b.find crlf)

/-- The address in a `PROMOTE` line. -/
def promoteAddr (command : Str) : Str :=
  command.substr (command.find [' '] + 1) (command.find crlf - (command.find [' '] + 1))

/-- What a request must not be, by role and command. -/
def Harmless (up : Addr → Bool) (s : DataServer) (command : Str) (k : Worker) : Prop :=
  match Worker.verb command with
  | .put => ¬ k.Overruns dotLine ∧ ∀ b, k.Comes dotLine b →
      (s.server.primary = false → (stol64 (firstLine b)).isSome) ∧
      ¬ NullPut s.server.table (Worker.parseCommand command).1 (Worker.parseCommand command).2
  | .cput => ¬ k.Overruns dotLine ∧ ∀ b task,
      readBody dotLine (k.task.length + 1) k.w.str k.task = .ok (b, task) →
      ¬ ({ k with w := .setStr (b.substr (b.find dotLine + 3)), task := task } : Worker).Overruns
        dotLine
  | .dele => s.server.primary = false → ¬ k.Overruns crlf ∧ ∀ b, k.Comes crlf b →
      (stol64 (firstLine b)).isSome
  | .promote =>
      promoteAddr command = ipToString s.myAddr ∨ (promoteAddr command).find [':'] = npos ∨
      (stoul64 ((promoteAddr command).substr ((promoteAddr command).find [':'] + 1))).isSome
  | .recovery => s.server.primary = true ∧
      (∃ startSeq, stol64 (recoverySeq command) = some startSeq ∧ 0 ≤ startSeq ∧ startSeq ≤ 31) ∧
      (version64 s.checkpointFile).isSome
  | .ready => s.server.primary = true ∧ ∀ nodes ∈ s.backStore, ∀ n,
      nodes.find? (fun n => ipToString n.addr = readyAddr command) = some n → up n.addr = true
  | .closeall => False
  | .quit | .get | .alive | .log | .checkpoint | .list | .other => True

section Survived

variable {s : DataServer} {o : Except Halt Served} {up : Addr → Bool} {k : Worker}

theorem survived_ok {t : DataServer} {reply : Str} : Survived s (.ok (t, k, reply)) ↔
    t.server.table = s.server.table ∨ Accepts reply := by
  constructor
  · exact fun h => h.2 t k reply rfl
  · refine fun h => ⟨fun f he => (by cases he), fun t' k' reply' he => ?_⟩
    cases he
    exact h

theorem not_survived {f : Fault} : ¬ Survived s (.error (.fails f)) := fun h => h.1 f rfl

theorem survived_waits : Survived s (.error .waits) :=
  ⟨fun f he => (by cases he), fun t k reply he => (by cases he)⟩

theorem readInto_error {stop : Str} {len : Nat} {e : Stop} : ∀ {task : List Read} {buf : Str},
    readInto stop len buf task = .error e → e = .blocked ∨ e = .overrun
  | [], _, h => by
      cases h
      exact Or.inl rfl
  | .failed :: _, _, h => by cases h
  | .closed :: task, buf, h => @readInto_error _ _ _ task buf h
  | .data c :: task, buf, h => by
      rw [readInto] at h
      split at h
      · cases h
        exact Or.inr rfl
      · split at h
        · cases h
        · exact readInto_error h

/-- A body loop ends, waits, or overruns. -/
theorem readBody_error {stop : Str} {e : Stop} : ∀ {n : Nat} {buffer : Str} {task : List Read},
    readBody stop n buffer task = .error e → e = .blocked ∨ e = .overrun
  | 0, _, _, h => by
      cases h
      exact Or.inl rfl
  | n + 1, buffer, task, h => by
      rw [readBody] at h
      split at h
      · cases h
      · cases hdata : doReadData rlen task with
        | error e' =>
            rw [hdata] at h
            cases h
            exact readInto_error hdata
        | ok r =>
            rw [hdata] at h
            exact readBody_error h

/-- **Behind a body loop**: it does not overrun, and what follows it survives. -/
theorem survived_read {stop buffer : Str} {n : Nat} {task : List Read}
    (f : Str × List Read → Except Halt Served) :
    Survived s ((Halt.lift (readBody stop n buffer task)).bind f) ↔
      readBody stop n buffer task ≠ .error .overrun ∧
        ∀ r, readBody stop n buffer task = .ok r → Survived s (f r) := by
  cases hread : readBody stop n buffer task with
  | ok r =>
      refine ⟨fun h => ⟨fun he => (by cases he), fun r' he => ?_⟩, fun h => h.2 r rfl⟩
      cases he
      exact h
  | error e =>
      rcases readBody_error hread with rfl | rfl
      · exact iff_of_true survived_waits ⟨fun he => (by cases he), fun r he => (by cases he)⟩
      · exact iff_of_false not_survived fun h => h.1 rfl

/-- **Behind a number**: it is there, and what follows survives. -/
theorem survived_number {n : Option Int} (f : Int → Except Halt Served) :
    Survived s ((number n).bind f) ↔ ∃ m, n = some m ∧ Survived s (f m) := by
  cases n with
  | none =>
      refine iff_of_false not_survived ?_
      rintro ⟨m, ⟨⟩, -⟩
  | some m =>
      refine ⟨fun h => ⟨m, rfl, h⟩, fun h => ?_⟩
      obtain ⟨m', hm, h⟩ := h
      cases hm
      exact h

theorem forward_ok (up : Addr → Bool) : ∀ (fs : List Forward) {s :
    DataServer}, fs = [] ∨ s.backStore.isSome →
    ∃ t, s.forward up fs = .ok t ∧ t.server = s.server := by
  intro fs
  induction fs with
  | nil => exact fun {s} _ => ⟨s, rfl, rfl⟩
  | cons f fs ih =>
      intro s h
      obtain ⟨nodes, hnodes⟩ := Option.isSome_iff_exists.mp (h.resolve_left (List.cons_ne_nil f fs))
      obtain ⟨t, ht, hserver⟩ := ih
        (s := { s with backStore := some (nodes.map (DataServer.pushTo up f)) }) (Or.inr rfl)
      refine ⟨t, ?_, hserver⟩
      rw [DataServer.forward, hnodes]
      exact ht

/-- **Behind a data handler**: what it has done with the table. -/
theorem survived_react {r : Reaction} (h : r.forwarded = [] ∨ s.backStore.isSome) :
    Survived s (s.react up k (.ok r)) ↔ r.server.table = s.server.table ∨ Accepts r.reply := by
  obtain ⟨t, ht, hserver⟩ := forward_ok up r.forwarded (s := { s with server := r.server }) h
  have hreact : s.react up k (.ok r) = .ok (t, k, r.reply) := by
    simp only [DataServer.react, Halt.lift, bind, Except.bind, ht]
    rfl
  rw [hreact, survived_ok, hserver]

end Survived

/-! ## Command by command -/

section Commands

variable {s : DataServer} {up : Addr → Bool} {command row col : Str} {k : Worker} {α : Type}

theorem lift_bind {β : Type} (x : Except Stop α) (f : α → Except Stop β) :
    Halt.lift (x >>= f) = (Halt.lift x).bind fun a => Halt.lift (f a) := by
  cases x <;> rfl

theorem number_bind {n : Option Int} (f : Int → α) (g : α → Except Halt Served) :
    ((number n).bind fun m => .ok (f m)).bind g = (number n).bind fun m => g (f m) := by
  cases n <;> rfl

/-- A handler that reads a body, and goes on with what it has made of it. -/
theorem survived_body {stop : Str} {h : Str × List Read → Except Halt α} {g :
    α → Except Halt Served}
    {P : Str → Prop} (hg : ∀ r, Survived s ((h r).bind g) ↔ P r.1) :
    Survived s (((Halt.lift (readBody stop (k.task.length + 1) k.w.str k.task)).bind h).bind g) ↔
      ¬ k.Overruns stop ∧ ∀ b, k.Comes stop b → P b := by
  have hassoc : ((Halt.lift (readBody stop (k.task.length + 1) k.w.str k.task)).bind h).bind g
      = (Halt.lift (readBody stop (k.task.length + 1) k.w.str k.task)).bind fun r =>
        (h r).bind g := by
    cases readBody stop (k.task.length + 1) k.w.str k.task <;> rfl
  rw [hassoc, survived_read]
  refine and_congr Iff.rfl ⟨?_, ?_⟩
  · rintro hall b ⟨task, hread⟩
    exact (hg (b, task)).mp (hall _ hread)
  · intro hall r hread
    exact (hg r).mpr (hall r.1 ⟨r.2, hread⟩)

/-- The table part of a `PUT`. -/
theorem survived_put {x : Except Stop Reaction} {P : Prop} (hbad : P → x = .error .nullDeref)
    (hgood : ¬ P → ∃ r, x = .ok r ∧ (r.forwarded = [] ∨ s.backStore.isSome) ∧ r.reply = replyOK) :
    Survived s (s.react up k x) ↔ ¬ P := by
  by_cases hP : P
  · rw [hbad hP]
    exact iff_of_false not_survived (not_not_intro hP)
  · obtain ⟨r, rfl, hforward, hreply⟩ := hgood hP
    rw [survived_react hforward, hreply]
    exact iff_of_true (Or.inr ⟨crlf, rfl⟩) hP

theorem survives_put (hv : Worker.verb command = .put)
    (hrole : s.server.primary = s.backStore.isSome) :
    Survived s (s.serve up command k) ↔ Harmless up s command k := by
  have hnames := parseCommandAt_eq command
  generalize hrc : Worker.parseCommand command = names at hnames
  obtain ⟨row, col⟩ := names
  have hserve : s.serve up command k = if s.server.primary then
      k.bodyPUTAt.bind fun r => s.react up r.2 (s.server.parsePUT row col r.1)
    else k.bodyPUTReplicaAt.bind fun r => s.react up r.2.2
      (s.server.parsePUTReplica row col r.1 r.2.1) := by
    rw [DataServer.serve, hv]
    simp only [hnames, bind, Except.bind]
  have hharmless : Harmless up s command k ↔ ¬ k.Overruns dotLine ∧ ∀ b, k.Comes dotLine b →
      (s.server.primary = false → (stol64 (firstLine b)).isSome) ∧
      ¬ NullPut s.server.table row col := by
    rw [Harmless, hv, hrc]
  rw [hserve, hharmless]
  cases hp : s.server.primary with
  | true =>
      rw [if_pos rfl, bodyPUTAt_eq, show k.bodyPUT = readBody _ _ _ _ >>= _ from rfl, lift_bind]
      refine survived_body fun r => ?_
      refine (survived_put (P := NullPut s.server.table row col) (fun hnull =>
        parsePUT_fault _ hnull)
        fun hnull => ⟨_, parsePUT_eq _ hnull, Or.inr (hrole ▸ hp), rfl⟩).trans ?_
      exact (and_iff_right fun he => by cases he).symm
  | false =>
      rw [if_neg Bool.false_ne_true, bodyPUTReplicaAt_eq]
      refine survived_body fun r => ?_
      rw [number_bind, survived_number]
      constructor
      · rintro ⟨m, hm, h⟩
        refine ⟨fun _ => Option.isSome_iff_exists.mpr ⟨m, hm⟩, ?_⟩
        exact (survived_put (fun hnull => parsePUTReplica_fault m _ hnull)
          fun hnull => ⟨_, parsePUTReplica_eq m _ hnull, Or.inl rfl, rfl⟩).mp h
      · rintro ⟨hsome, hnull⟩
        obtain ⟨m, hm⟩ := Option.isSome_iff_exists.mp (hsome rfl)
        refine ⟨m, hm, ?_⟩
        exact (survived_put (fun hnull => parsePUTReplica_fault m _ hnull)
          fun hnull => ⟨_, parsePUTReplica_eq m _ hnull, Or.inl rfl, rfl⟩).mpr hnull

theorem survives_cput (hv : Worker.verb command = .cput)
    (hrole : s.server.primary = s.backStore.isSome) :
    Survived s (s.serve up command k) ↔ Harmless up s command k := by
  have hnames := parseCommandAt_eq command
  generalize hrc : Worker.parseCommand command = names at hnames
  obtain ⟨row, col⟩ := names
  have hserve : s.serve up command k = k.bodyCPUTAt.bind fun r =>
      s.react up r.2.2 (.ok (s.server.parseCPUT row col r.1 r.2.1)) := by
    rw [DataServer.serve, hv]
    simp only [hnames, bind, Except.bind]
  have hreact : ∀ r : Str × Str × Worker,
      Survived s (s.react up r.2.2 (.ok (s.server.parseCPUT row col r.1 r.2.1))) := by
    intro r
    rw [parseCPUT_eq]
    split
    · refine (survived_react ?_).mpr (Or.inr ⟨crlf, rfl⟩)
      cases hp : s.server.primary with
      | true => exact Or.inr (hrole ▸ hp)
      | false => exact Or.inl rfl
    · exact (survived_react (Or.inl rfl)).mpr (Or.inl rfl)
  rw [hserve, bodyCPUTAt_eq, Harmless, hv]
  cases hread : readBody dotLine (k.task.length + 1) k.w.str k.task with
  | error e =>
      have hbody : k.bodyCPUT = .error e := by simp only [Worker.bodyCPUT, hread, bind, Except.bind]
      rw [hbody]
      rcases readBody_error hread with rfl | rfl
      · refine iff_of_true survived_waits ⟨fun he => ?_, fun b task he => (by cases he)⟩
        exact absurd (hread.symm.trans he) (by decide)
      · exact iff_of_false not_survived fun h => h.1 hread
  | ok r =>
      obtain ⟨b, task⟩ := r
      have hfirst : ¬ k.Overruns dotLine := fun he => by cases hread.symm.trans he
      -- the second loop starts behind the first dot line, with the reads that are left
      cases hread' : readBody dotLine (task.length + 1) (b.substr (b.find dotLine + 3)) task with
      | error e =>
          have hbody : k.bodyCPUT = .error e := by
            simp only [Worker.bodyCPUT, hread, hread', bind, Except.bind]
          rw [hbody]
          rcases readBody_error hread' with rfl | rfl
          · refine iff_of_true survived_waits ⟨hfirst, fun b' task' he hover => ?_⟩
            cases he
            exact absurd (hread'.symm.trans hover) (by decide)
          · exact iff_of_false not_survived fun h => h.2 b task rfl hread'
      | ok r =>
          obtain ⟨r', hbody⟩ : ∃ r', k.bodyCPUT = .ok r' := by
            simp only [Worker.bodyCPUT, hread, hread', bind, Except.bind, pure, Except.pure]
            exact ⟨_, rfl⟩
          rw [hbody]
          refine iff_of_true (hreact r') ⟨hfirst, fun b' task' he hover => ?_⟩
          cases he
          cases hread'.symm.trans hover

/-- Erasing a cell, or not finding it. -/
theorem survived_erase {t : Server} {fs : List Forward} (ht : t.table = s.server.table)
    (h : fs = [] ∨ s.backStore.isSome) :
      Survived s (s.react up k (.ok (t.eraseDELE row col fs))) := by
  rcases eraseDELE_cases t row col fs with ⟨d, -, hdel⟩ | ⟨-, reply, -, hdel⟩
  · rw [hdel]
    exact (survived_react h).mpr (Or.inr ⟨" deleted\r\n".toList, rfl⟩)
  · rw [hdel]
    exact (survived_react (Or.inl rfl)).mpr (Or.inl ht)

theorem survives_dele (hv : Worker.verb command = .dele)
    (hrole : s.server.primary = s.backStore.isSome) :
    Survived s (s.serve up command k) ↔ Harmless up s command k := by
  have hnames := parseCommandAt_eq command
  generalize Worker.parseCommand command = names at hnames
  obtain ⟨row, col⟩ := names
  have hserve : s.serve up command k = if s.server.primary then
      s.react up k (.ok (s.server.parseDELE row col))
    else k.bodyDELEReplicaAt.bind fun r =>
      s.react up r.2 (.ok (s.server.parseDELEReplica row col r.1)) := by
    rw [DataServer.serve, hv]
    simp only [hnames, bind, Except.bind]
  rw [hserve, Harmless, hv]
  cases hp : s.server.primary with
  | true =>
      rw [if_pos rfl]
      exact iff_of_true (survived_erase rfl (Or.inr (hrole ▸ hp))) fun he => (by cases he)
  | false =>
      rw [if_neg Bool.false_ne_true, bodyDELEReplicaAt_eq]
      refine Iff.trans (survived_body (P := fun b => (stol64 (firstLine b)).isSome) fun r => ?_)
        ⟨fun h _ => h, fun h => h rfl⟩
      rw [number_bind, survived_number]
      constructor
      · rintro ⟨m, hm, -⟩
        exact Option.isSome_iff_exists.mpr ⟨m, hm⟩
      · intro hsome
        obtain ⟨m, hm⟩ := Option.isSome_iff_exists.mp hsome
        exact ⟨m, hm, survived_erase rfl (Or.inl rfl)⟩

theorem survives_get (hv : Worker.verb command = .get) : Survived s (s.serve up command k) := by
  have hserve : s.serve up command k = s.react up k (.ok (s.server.parseGET
      (Worker.parseCommand command).1 (Worker.parseCommand command).2)) := by
    rw [DataServer.serve, hv]
    simp only [parseCommandAt_eq, bind, Except.bind]
  rw [hserve]
  rcases parseGET_cases s.server (Worker.parseCommand command).1
    (Worker.parseCommand command).2 with
    ⟨d, -, hget⟩ | ⟨-, reply, -, hget⟩
  · rw [hget]
    exact (survived_react (Or.inl rfl)).mpr (Or.inl rfl)
  · rw [hget]
    exact (survived_react (Or.inl rfl)).mpr (Or.inl rfl)

theorem survives_promote (hv : Worker.verb command = .promote) :
    Survived s (s.serve up command k) ↔ Harmless up s command k := by
  have haddr : substrAt command (command.find [' '] + 1)
      (command.find crlf - (command.find [' '] + 1)) = .ok (promoteAddr command) :=
    substrAt_ok _ (find_behind_char command ' ').1 (find_behind_char command ' ').2
  rw [DataServer.serve, hv, Harmless, hv]
  simp only [DataServer.parsePROMOTE, haddr, bind, Except.bind]
  by_cases hown : promoteAddr command = ipToString s.myAddr
  · rw [if_pos hown]
    exact iff_of_true (survived_ok.mpr (Or.inl rfl)) (Or.inl hown)
  · rw [if_neg hown, DataServer.setPrimaryAddr]
    by_cases hcolon : (promoteAddr command).find [':'] = npos
    · rw [if_pos hcolon]
      exact iff_of_true (survived_ok.mpr (Or.inl rfl)) (Or.inr (Or.inl hcolon))
    · have hport := substrAt_ok npos (find_behind_char (promoteAddr command) ':').1
        (find_behind_char (promoteAddr command) ':').2
      rw [if_neg hcolon]
      simp only [hport, bind, Except.bind]
      cases hn : stoul64 ((promoteAddr command).substr ((promoteAddr command).find [':'] + 1)) with
      | none =>
          refine iff_of_false not_survived ?_
          rintro (h | h | h)
          · exact hown h
          · exact hcolon h
          · cases h
      | some m => exact iff_of_true (survived_ok.mpr (Or.inl rfl)) (Or.inr (Or.inr rfl))

theorem versionAt_eq (checkpoint : Option Str) :
    versionAt checkpoint = number (version64 checkpoint) := by
  cases checkpoint with
  | none => rfl
  | some contents =>
      have hcut := fun len => substrAt_ok len
        (find_behind_char ((Lib.lines '\n' contents).headD []) '<').1
        (find_behind_char ((Lib.lines '\n' contents).headD []) '<').2
      simp only [versionAt, hcut, bind, Except.bind]
      rfl

theorem survives_recovery (hv : Worker.verb command = .recovery)
    (hrole : s.server.primary = s.backStore.isSome) :
    Survived s (s.serve up command k) ↔ Harmless up s command k := by
  have hcut : ∀ c : Str, substrAt c (c.find [' '] + 1) = .ok (c.substr (c.find [' '] + 1)) :=
    fun c =>
    substrAt_ok npos (find_behind_char c ' ').1 (find_behind_char c ' ').2
  rw [DataServer.serve, hv, Harmless, hv]
  simp only [DataServer.parseRECOVERY, hcut, substrAt_front, bind, Except.bind]
  cases hback : s.backStore with
  | none =>
      rw [hback] at hrole
      refine iff_of_false not_survived fun h => ?_
      rw [hrole] at h
      cases h.1
  | some nodes =>
      rw [hback] at hrole
      simp only [versionAt_eq]
      change Survived s (Except.map (fun r : DataServer × Str => (r.1, k, r.2))
        ((number (stol64 (recoverySeq command))).bind fun startSeq =>
          (literalAt "node wants to recovery from seq".toList startSeq).bind fun _ =>
            (number (version64 s.checkpointFile)).bind fun versionNum => .ok
              ({ s with
                canCheckpoint := false
                backStore := some (recoverNode nodes (recoveryAddr command)).1 },
              if versionNum ≤ startSeq then replyTransferLog else replyTransferCheckpoint))) ↔ _
      cases stol64 (recoverySeq command) with
      | none =>
          refine iff_of_false not_survived ?_
          rintro ⟨-, ⟨startSeq, hseq, -⟩, -⟩
          cases hseq
      | some startSeq =>
          by_cases hin : 0 ≤ startSeq ∧ startSeq ≤ 31
          · have hliteral : literalAt "node wants to recovery from seq".toList startSeq
              = .ok _ := if_pos hin
            simp only [number, Option.elim, Except.bind, hliteral]
            cases version64 s.checkpointFile with
            | none => exact iff_of_false not_survived fun h => (by cases h.2.2)
            | some versionNum =>
                exact iff_of_true (survived_ok.mpr (Or.inl rfl)) ⟨hrole, ⟨startSeq, rfl, hin⟩, rfl⟩
          · have hliteral : literalAt "node wants to recovery from seq".toList startSeq
                = .error (.fails .wildPointer) := if_neg hin
            simp only [number, Option.elim, Except.bind, hliteral]
            refine iff_of_false not_survived ?_
            rintro ⟨-, ⟨m, hm, hmin⟩, -⟩
            cases hm
            exact hin hmin

/-- `reconnect` returns unless the replica of that address takes no connection. -/
theorem reconnect_cases (up : Addr → Bool) (address : Str) : ∀ nodes : List Replicate,
    (∃ n, nodes.find? (fun n => ipToString n.addr = address) = some n ∧ up n.addr = false ∧
      DataServer.reconnect up address nodes = .error (.fails .endless)) ∨
    ((∀ n, nodes.find? (fun n => ipToString n.addr = address) = some n → up n.addr = true) ∧
      ∃ nodes', DataServer.reconnect up address nodes = .ok nodes') := by
  intro nodes
  induction nodes with
  | nil => exact Or.inr ⟨fun n hn => (by cases hn), [], rfl⟩
  | cons n nodes ih =>
      rw [DataServer.reconnect]
      by_cases hn : ipToString n.addr = address
      · rw [if_pos hn, List.find?_cons_of_pos (by exact decide_eq_true hn)]
        cases hup : up n.addr with
        | true => exact Or.inr ⟨fun m hm => Option.some.inj hm ▸ hup, _, rfl⟩
        | false => exact Or.inl ⟨n, rfl, hup, rfl⟩
      · rw [if_neg hn, List.find?_cons_of_neg (by simpa using hn)]
        rcases ih with ⟨m, hm, hup, he⟩ | ⟨hall, nodes', he⟩
        · exact Or.inl ⟨m, hm, hup, by rw [he]; rfl⟩
        · exact Or.inr ⟨hall, n :: nodes', by rw [he]; rfl⟩

theorem survives_ready (hv : Worker.verb command = .ready)
    (hrole : s.server.primary = s.backStore.isSome) :
    Survived s (s.serve up command k) ↔ Harmless up s command k := by
  have haddr : substrAt command (command.find [' '] + 1)
      (command.find crlf - (command.find [' '] + 1)) = .ok (readyAddr command) :=
    substrAt_ok _ (find_behind_char command ' ').1 (find_behind_char command ' ').2
  rw [DataServer.serve, hv, Harmless, hv]
  simp only [DataServer.parseREADY, haddr, bind, Except.bind]
  cases hback : s.backStore with
  | none =>
      rw [hback] at hrole
      refine iff_of_false not_survived fun h => ?_
      rw [hrole] at h
      cases h.1
  | some nodes =>
      rw [hback] at hrole
      rcases reconnect_cases up (readyAddr command) nodes with ⟨n, hn, hup, he⟩ | ⟨hall, nodes', he⟩
      · simp only [he]
        refine iff_of_false not_survived fun h => ?_
        rw [h.2 nodes rfl n hn] at hup
        cases hup
      · simp only [he]
        refine iff_of_true (survived_ok.mpr (Or.inl rfl)) ⟨hrole, fun ns hns => ?_⟩
        cases hns
        exact hall

end Commands

/-! ## Reachable states -/

/-- As `main` leaves a server, new or recovered, when it begins to accept connections. -/
structure DataServer.Started (s : DataServer) : Prop where
  replica : s.server.primary = false
  unset : s.backStore = none

/-- What changes a server: a request on one of its connections, or a checkpoint. -/
inductive DataServerEvent
  | request (up : Addr → Bool) (command : Str) (k : Worker)
  | checkpoint

/-- One event; `none` when the server does not go on from it. -/
def DataServer.event (s : DataServer) : DataServerEvent → Option DataServer
  | .request up command k => (s.serve up command k).toOption.map Prod.fst
  | .checkpoint => some <|
    if s.canCheckpoint then { s with
      server := { s.server with log := [] }
      checkpointFile :=
        some (Checkpoint.text { version := s.server.seqID, table := s.server.table }) }
    else s

/-- The `BackStore` is set exactly on a primary. -/
def DataServer.Role (s : DataServer) : Prop := s.server.primary = s.backStore.isSome

section Reachable

variable {s t : DataServer} {up : Addr → Bool} {k k' : Worker} {command reply : Str}

theorem halt_bind_ok {α β : Type} {x : Except Halt α} {f : α → Except Halt β} {b : β}
    (h : x.bind f = .ok b) : ∃ a, x = .ok a ∧ f a = .ok b := by
  cases x with
  | error e => cases h
  | ok a => exact ⟨a, rfl, h⟩

theorem lift_ok {α : Type} {x : Except Stop α} {a : α} (h : Halt.lift x = .ok a) : x = .ok a := by
  cases x with
  | error e => cases h
  | ok b =>
      cases h
      rfl

theorem forward_role {fs : List Forward} (h : s.forward up fs = .ok t) :
    t.server = s.server ∧ t.backStore.isSome = s.backStore.isSome := by
  induction fs generalizing s with
  | nil =>
      cases h
      exact ⟨rfl, rfl⟩
  | cons f fs ih =>
      rw [DataServer.forward] at h
      cases hback : s.backStore with
      | none =>
          rw [hback] at h
          cases h
      | some nodes =>
          rw [hback] at h
          obtain ⟨hserver, hsome⟩ := ih h
          exact ⟨hserver, hsome⟩

/-- A data handler keeps the role if the part behind its body does. -/
theorem react_role {x : Except Stop Reaction} (hs : s.Role)
    (hx : ∀ r, x = .ok r → r.server.primary = s.server.primary)
    (h : s.react up k x = .ok (t, k', reply)) : t.Role := by
  obtain ⟨r, hr, h⟩ := halt_bind_ok h
  obtain ⟨u, hu, h⟩ := halt_bind_ok h
  cases h
  obtain ⟨hserver, hsome⟩ := forward_role hu
  rw [DataServer.Role, hserver, hsome]
  exact (hx r (lift_ok hr)).trans hs

theorem primary_storePUT {s r : Server} {row col data : Str} (h : s.storePUT row col data = .ok r) :
    r.primary = s.primary := by
  by_cases hnull : NullPut s.table row col
  · rw [storePUT_fault data hnull] at h
    cases h
  · rw [storePUT_eq data hnull] at h
    cases h
    rfl

theorem primary_eraseDELE (s : Server) (row col : Str) (fs : List Forward) :
    (s.eraseDELE row col fs).server.primary = s.primary := by
  rcases eraseDELE_cases s row col fs with ⟨d, -, hdel⟩ | ⟨-, reply, -, hdel⟩ <;> rw [hdel]

/-- What `parse_PROMOTE` leaves: the server is promoted with its `BackStore`, or is as it was. -/
theorem promote_role (hs : s.Role) (h : s.parsePROMOTE up command = .ok t) : t.Role := by
  have haddr : substrAt command (command.find [' '] + 1)
      (command.find crlf - (command.find [' '] + 1)) = .ok (promoteAddr command) :=
    substrAt_ok _ (find_behind_char command ' ').1 (find_behind_char command ' ').2
  simp only [DataServer.parsePROMOTE, haddr, bind, Except.bind] at h
  split at h
  · cases h
    rfl
  · unfold DataServer.setPrimaryAddr at h
    split at h
    · cases h
      exact hs
    · obtain ⟨port, -, h⟩ := halt_bind_ok h
      obtain ⟨n, -, h⟩ := halt_bind_ok h
      cases h
      exact hs

theorem recovery_role {r : DataServer × Str} (hs : s.Role) (h : s.parseRECOVERY command = .ok r) :
    r.1.Role := by
  obtain ⟨c, -, h⟩ := halt_bind_ok h
  obtain ⟨addr, -, h⟩ := halt_bind_ok h
  cases hback : s.backStore with
  | none =>
      simp only [hback] at h
      cases h
  | some nodes =>
      simp only [hback] at h
      obtain ⟨c', -, h⟩ := halt_bind_ok h
      obtain ⟨seqStr, -, h⟩ := halt_bind_ok h
      obtain ⟨startSeq, -, h⟩ := halt_bind_ok h
      obtain ⟨text, -, h⟩ := halt_bind_ok h
      obtain ⟨versionNum, -, h⟩ := halt_bind_ok h
      cases h
      rw [DataServer.Role, hback] at hs
      exact hs

theorem ready_role (hs : s.Role) (h : s.parseREADY up command = .ok t) : t.Role := by
  obtain ⟨addr, -, h⟩ := halt_bind_ok h
  cases hback : s.backStore with
  | none =>
      simp only [hback] at h
      cases h
  | some nodes =>
      simp only [hback] at h
      obtain ⟨nodes', -, h⟩ := halt_bind_ok h
      cases h
      rw [DataServer.Role, hback] at hs
      exact hs

theorem map_ok {α β : Type} {x : Except Halt α} {f : α → β} {b : β} (h : x.map f = .ok b) :
    ∃ a, x = .ok a ∧ f a = b := by
  cases x with
  | error e => cases h
  | ok a =>
      cases h
      exact ⟨a, rfl, rfl⟩

/-- **Every handler keeps the `BackStore` with the role.** -/
theorem role_serve (hs : s.Role) (h : s.serve up command k = .ok (t, k', reply)) : t.Role := by
  rw [DataServer.serve] at h
  cases hv : Worker.verb command <;> rw [hv] at h
  case put =>
    obtain ⟨⟨row, col⟩, -, h⟩ := halt_bind_ok h
    dsimp only at h
    -- a primary reads a body, a replica a sequence number before it
    split at h
    · obtain ⟨⟨data, k''⟩, -, h⟩ := halt_bind_ok h
      refine react_role hs (fun r hr => ?_) h
      obtain ⟨u, hu, hr⟩ := bind_ok hr
      cases hr
      exact (primary_storePUT hu).trans rfl
    · obtain ⟨⟨seq, data, k''⟩, -, h⟩ := halt_bind_ok h
      refine react_role hs (fun r hr => ?_) h
      obtain ⟨u, hu, hr⟩ := bind_ok hr
      cases hr
      exact (primary_storePUT hu).trans rfl
  case cput =>
    obtain ⟨⟨row, col⟩, -, h⟩ := halt_bind_ok h
    obtain ⟨⟨oldData, newData, k''⟩, -, h⟩ := halt_bind_ok h
    refine react_role hs (fun r hr => ?_) h
    cases hr
    rw [parseCPUT_eq]
    split <;> rfl
  case get =>
    obtain ⟨⟨row, col⟩, -, h⟩ := halt_bind_ok h
    refine react_role hs (fun r hr => ?_) h
    cases hr
    rcases parseGET_cases s.server row col with ⟨d, -, hget⟩ | ⟨-, reply, -, hget⟩ <;> rw [hget]
  case dele =>
    obtain ⟨⟨row, col⟩, -, h⟩ := halt_bind_ok h
    dsimp only at h
    split at h
    · refine react_role hs (fun r hr => ?_) h
      cases hr
      exact primary_eraseDELE _ row col _
    · obtain ⟨⟨seq, k''⟩, -, h⟩ := halt_bind_ok h
      refine react_role hs (fun r hr => ?_) h
      cases hr
      exact primary_eraseDELE _ row col _
  case promote =>
    obtain ⟨u, hu, h⟩ := map_ok h
    cases h
    exact promote_role hs hu
  case recovery =>
    obtain ⟨r, hr, h⟩ := map_ok h
    cases h
    exact recovery_role hs hr
  case ready =>
    obtain ⟨u, hu, h⟩ := map_ok h
    cases h
    exact ready_role hs hu
  case closeall => cases h
  all_goals
    cases h
    exact hs

theorem role_event (s : DataServer) (e : DataServerEvent) (t : DataServer) (hs : s.Role)
    (h : s.event e = some t) : t.Role := by
  cases e with
  | checkpoint =>
      cases h
      split <;> exact hs
  | request up command k =>
      obtain ⟨⟨u, k', reply⟩, hu, rfl⟩ := Option.map_eq_some_iff.mp h
      exact role_serve hs (toOption_some hu)

/--
**When a request leaves the server up**: whatever has happened since its start,
the handler returns, with the table as it was unless it accepts, exactly for a
request that is harmless to a server of this role.
-/
theorem survived_iff {start : DataServer} (hstart : start.Started) {events : List DataServerEvent}
    (hr : Lib.run DataServer.event start events = some s) (up : Addr → Bool) (command : Str)
    (k : Worker) : Survived s (s.serve up command k) ↔ Harmless up s command k := by
  have hfirst : start.Role := by rw [DataServer.Role, hstart.replica, hstart.unset]; rfl
  have hrole : s.server.primary = s.backStore.isSome := Lib.inv_of_run role_event hfirst hr
  cases hv : Worker.verb command
  case put => exact survives_put hv hrole
  case cput => exact survives_cput hv hrole
  case dele => exact survives_dele hv hrole
  case get => exact iff_of_true (survives_get hv) (by rw [Harmless, hv]; trivial)
  case promote => exact survives_promote hv
  case recovery => exact survives_recovery hv hrole
  case ready => exact survives_ready hv hrole
  case closeall =>
    rw [DataServer.serve, hv, Harmless, hv]
    exact iff_of_false not_survived id
  all_goals
    rw [DataServer.serve, hv, Harmless, hv]
    exact iff_of_true (survived_ok.mpr (Or.inl rfl)) trivial

end Reachable

/-- A server as it is started, with one other replica. -/
def startedServer : DataServer where
  server := { primary := false }
  myAddr := node5000
  others := [node6000]

/-- The same server, promoted. -/
def promotedServer : DataServer := { startedServer with
  server := { primary := true }
  backStore := some [{ addr := node6000 }] }

/-- Once promoted, the server goes on from a `READY`. -/
theorem promoted_survives : Survived promotedServer
    (promotedServer.serve (fun _ => true) "READY 127.0.0.1:6000\r\n".toList (.fresh [])) := by
  have hrun : Lib.run DataServer.event startedServer
      [.request (fun _ => true) "PROMOTE 127.0.0.1:5000\r\n".toList (.fresh [])]
      = some promotedServer := by rfl
  exact (survived_iff ⟨rfl, rfl⟩ hrun _ _ _).mpr ⟨rfl, fun nodes _ n _ => rfl⟩

/-- Before it is promoted, anybody's `READY` brings it down. -/
theorem started_not_survived : startedServer.Started ∧
    startedServer.serve (fun _ => true) "READY 127.0.0.1:6000\r\n".toList (.fresh [])
      = .error (.fails .unsetBackStore) ∧
    ¬ Survived startedServer
      (startedServer.serve (fun _ => true) "READY 127.0.0.1:6000\r\n".toList (.fresh [])) := by
  have hserve : startedServer.serve (fun _ => true) "READY 127.0.0.1:6000\r\n".toList (.fresh [])
      = .error (.fails .unsetBackStore) := by rfl
  exact ⟨⟨rfl, rfl⟩, hserve, hserve ▸ not_survived⟩

end PennCloud
