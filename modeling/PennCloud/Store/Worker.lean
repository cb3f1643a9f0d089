import PennCloud.Store.Server

/-!
# From the connection to the handlers

`Worker::run`, the command line parser and the body loops of the handlers. A
connection is the list of results its `read` calls give; a function that runs
out of them is waiting (`Stop.blocked`). What `read` brings in goes through fixed
arrays: a read that fills one leaves it without a terminating zero
(`Stop.overrun`).

The unread remainder lives in a `stringstream`. `str(s)` replaces its contents
and puts the write position back at the start, so what is written next
overwrites the remainder.
-/

namespace PennCloud

open Str

/-- A default-mode `std::stringstream`: contents and write position. -/
structure StringStream where
  str : Str := []
  pos : Nat := 0
  deriving DecidableEq, Repr

namespace StringStream

/-- `w.str(s)`. -/
def setStr (s : Str) : StringStream := { str := s, pos := 0 }

/-- `w << s`. -/
def write (w : StringStream) (s : Str) : StringStream :=
  { str := w.str.take w.pos ++ s ++ w.str.drop (w.pos + s.length), pos := w.pos + s.length }

end StringStream

/-- What one `read` call finds. -/
inductive Read
  /-- At least one byte. -/
  | data (s : Str)
  /-- The peer has closed: `read` returns 0. -/
  | closed
  /-- `read` returns a negative value. -/
  | failed
  deriving DecidableEq, Repr

/-- The `rlen` of a `Worker`. -/
def rlen : Nat := 4000000

/--
`Connection::do_read` and `do_read_data`, which differ only in the `stop` they
look for: read into an array of `len` bytes until `stop` shows up in it. A failed
read returns what is there; the callers ignore the result.
-/
def readInto (stop : Str) (len : Nat) : Str → List Read → Except Stop (Str × List Read)
  | _, [] => .error .blocked
  | buf, .failed :: rs => .ok (buf, rs)
  | buf, .closed :: rs => readInto stop len buf rs
  | buf, .data c :: rs =>
    if len ≤ (buf ++ c).length then .error .overrun
    else if (cstr (buf ++ c)).find stop ≠ npos then .ok (buf ++ c, rs)
    else readInto stop len (buf ++ c) rs

/-- `Connection::do_read`. -/
def doRead (len : Nat) (task : List Read) : Except Stop (Str × List Read) :=
  readInto crlf len [] task

/-- `Connection::do_read_data`. -/
def doReadData (len : Nat) (task : List Read) : Except Stop (Str × List Read) :=
  readInto dotLine len [] task

/--
`while (buffer.find(stop) == npos) { do_read_data; buffer.append(buf); }`. Each
round takes at least one read, so as many rounds as there are reads are enough.
-/
def readBody (stop : Str) : Nat → Str → List Read → Except Stop (Str × List Read)
  | 0, _, _ => .error .blocked
  | n + 1, buffer, task =>
    if buffer.find stop ≠ npos then .ok (buffer, task)
    else do
      let (buf, task) ← doReadData rlen task
      readBody stop n (buffer ++ cstr buf) task

/-- What one command line of `Worker::run` leads to. -/
inductive Dispatch
  /-- A data handler, its arguments read. -/
  | call (c : Call)
  | quit
  | alive
  | promote (command : Str)
  | recovery (command : Str)
  | ready (command : Str)
  | log
  | checkpoint
  | closeall
  | list
  | unsupported
  deriving DecidableEq, Repr

/-- The state of a `Worker`: its stream and what its connection will deliver. -/
structure Worker where
  w : StringStream := {}
  task : List Read
  runFlag : Bool := true
  deriving DecidableEq, Repr

namespace Worker

/-- A worker with an empty buffer whose connection delivers these bytes. -/
def fresh (reads : List Str) : Worker := { task := reads.map .data }

/-- `extract_command`. -/
def extractCommand (k : Worker) : Option (Str × Worker) :=
  let buffer := k.w.str
  let pos := buffer.find crlf
  if pos ≠ npos then
    some (buffer.substr 0 (pos + 2), { k with w := .setStr (buffer.substr (pos + 2)) })
  else none

/-- `parse_command`. -/
def parseCommand (command : Str) : Str × Str :=
  let s := command.substr (command.find [' '] + 1)
  (angled s, angled (pastAngled s))

/-- The body of `parse_PUT` on a primary. -/
def bodyPUT (k : Worker) : Except Stop (Str × Worker) := do
  let (buffer, task) ← readBody dotLine (k.task.length + 1) k.w.str k.task
  let dataEnd := buffer.find dotLine
  let pos := buffer.find "DATA\r\n".toList + 6
  let data := buffer.substr pos (dataEnd - pos + 2)
  let w := if dataEnd + 5 = buffer.length then StringStream.setStr []
    else .setStr (buffer.substr (dataEnd + 6))
  return (data, { k with w := w, task := task })

/-- The body of `parse_PUT` on a replica. -/
def bodyPUTReplica (k : Worker) : Except Stop (Int × Str × Worker) := do
  let (buffer, task) ← readBody dotLine (k.task.length + 1) k.w.str k.task
  let dataEnd := buffer.find dotLine
  let pos := buffer.find crlf + 2
  let data := buffer.substr pos (dataEnd - pos + 2)
  let seq ← (stol (buffer.substr 0 (pos - 2))).elim (.error .stolThrow) .ok
  let w := if dataEnd + 5 = buffer.length then StringStream.setStr []
    else .setStr (buffer.substr (dataEnd + 6))
  return (seq, data, { k with w := w, task := task })

/-- The body of `parse_CPUT`: `OLD`, then `NEW`. -/
def bodyCPUT (k : Worker) : Except Stop (Str × Str × Worker) := do
  let (buffer, task) ← readBody dotLine (k.task.length + 1) k.w.str k.task
  let dataEnd := buffer.find dotLine
  let pos := buffer.find "OLD\r\n".toList + 5
  let oldData := buffer.substr pos (dataEnd - pos + 2)
  let (buffer, task) ← readBody dotLine (task.length + 1) (buffer.substr (dataEnd + 3)) task
  let dataEnd := buffer.find dotLine
  let pos := buffer.find "NEW\r\n".toList + 5
  let newData := buffer.substr pos (dataEnd - pos + 2)
  let w := if dataEnd + 5 = buffer.length then StringStream.setStr []
    else .setStr (buffer.substr (dataEnd + 6))
  return (oldData, newData, { k with w := w, task := task })

/-- The sequence number line of `parse_DELE` on a replica. -/
def bodyDELEReplica (k : Worker) : Except Stop (Int × Worker) := do
  let (buffer, task) ← readBody crlf (k.task.length + 1) k.w.str k.task
  let dataEnd := buffer.find crlf
  let w := if dataEnd + 2 = buffer.length then StringStream.setStr []
    else .setStr (buffer.substr (dataEnd + 2))
  let seq ← (stol (buffer.substr 0 (buffer.find crlf))).elim (.error .stolThrow) .ok
  return (seq, { k with w := w, task := task })

/-- The branches of the dispatch in `Worker::run`. -/
inductive Verb
  | quit | put | cput | get | dele | alive | promote | recovery | ready | log | checkpoint
  | closeall | list | other
  deriving DecidableEq, Repr

/-- The keywords in the order `Worker::run` tries them. -/
def verbs : List (Str × Verb) :=
  [("QUIT".toList, .quit), (kwPUT, .put), (kwCPUT, .cput), (kwGET, .get), (kwDELETE, .dele),
   ("ALIVE".toList, .alive), ("PROMOTE".toList, .promote), ("RECOVERY".toList, .recovery),
   ("READY".toList, .ready), ("LOG".toList, .log), ("CHECKPOINT".toList, .checkpoint),
   ("CLOSEALL".toList, .closeall), (kwLIST, .list)]

/-- The branch a command line takes. -/
def verb (command : Str) : Verb :=
  ((verbs.find? fun p => strnicmp (cstr command) p.1 p.1.length).map Prod.snd).getD .other

/-- One turn of the dispatch: the handler called, its arguments read. -/
def dispatch (primary : Bool) (command : Str) (k : Worker) : Except Stop (Dispatch × Worker) :=
  let (row, col) := parseCommand command
  match verb command with
  | .quit => .ok (.quit, { k with runFlag := false })
  | .put =>
    if primary then do
      let (data, k) ← k.bodyPUT
      return (.call (.put row col data), k)
    else do
      let (seq, data, k) ← k.bodyPUTReplica
      return (.call (.replicaPut row col seq data), k)
  | .cput => do
    let (oldData, newData, k) ← k.bodyCPUT
    return (.call (.cput row col oldData newData), k)
  | .get => .ok (.call (.get row col), k)
  | .dele =>
    if primary then .ok (.call (.delete row col), k)
    else do
      let (seq, k) ← k.bodyDELEReplica
      return (.call (.replicaDelete row col seq), k)
  | .alive => .ok (.alive, k)
  | .promote => .ok (.promote command, k)
  | .recovery => .ok (.recovery command, k)
  | .ready => .ok (.ready command, k)
  | .log => .ok (.log, k)
  | .checkpoint => .ok (.checkpoint, k)
  | .closeall => .ok (.closeall, k)
  | .list => .ok (.list, k)
  | .other => .ok (.unsupported, k)

/-- One step of `Worker::run`: a command handled, or the next `do_read`. -/
def step (primary : Bool) (k : Worker) : Except Stop (Option Dispatch × Worker) :=
  match k.extractCommand with
  | some (command, k) => do
    let (d, k) ← k.dispatch primary command
    return (some d, k)
  | none =>
    if k.runFlag then do
      let (buf, task) ← doRead rlen k.task
      return (none, { k with w := k.w.write (cstr buf), task := task })
    else .error .signedOff

end Worker

/-! ## No zero byte gets past a read -/

theorem bind_ok {α β : Type} {x : Except Stop α} {f : α → Except Stop β} {b : β}
    (h : x >>= f = .ok b) : ∃ a, x = .ok a ∧ f a = .ok b := by
  cases x with
  | error e => cases h
  | ok a => exact ⟨a, rfl, h⟩

/-- The texts a handler is called with. -/
def Call.parts : Call → List Str
  | .put row col data | .replicaPut row col _ data => [row, col, data]
  | .cput row col oldData newData => [row, col, oldData, newData]
  | .get row col | .delete row col | .replicaDelete row col _ => [row, col]

theorem readBody_noNul {stop : Str} : ∀ {n : Nat} {buffer b : Str} {task t : List Read},
    '\x00' ∉ buffer → readBody stop n buffer task = .ok (b, t) → '\x00' ∉ b
  | 0, _, _, _, _, _, h => by cases h
  | n + 1, buffer, b, task, t, hb, h => by
      rw [readBody] at h
      split at h
      · cases h; exact hb
      · obtain ⟨⟨buf, task'⟩, -, h⟩ := bind_ok h
        refine readBody_noNul ?_ h
        rw [List.mem_append, not_or]
        exact ⟨hb, cstr_noNul buf⟩

theorem reset_noNul (p : Prop) [Decidable p] {buffer : Str} (pos : Int) (hb : '\x00' ∉ buffer) :
    '\x00' ∉ (if p then StringStream.setStr [] else .setStr (buffer.substr pos)).str := by
  split
  · simp [StringStream.setStr]
  · exact fun h => hb (mem_substr (show _ ∈ buffer.substr pos from h))

section Bodies

variable {k k' : Worker} {data oldData newData : Str} {seq : Int}

/-! Each body is cut from what a read loop returns, and so is what stays in the stream. -/

theorem bodyPUT_noNul (hk : '\x00' ∉ k.w.str) (h : k.bodyPUT = .ok (data, k')) :
    '\x00' ∉ data ∧ '\x00' ∉ k'.w.str := by
  obtain ⟨⟨buffer, task⟩, hread, h⟩ := bind_ok h
  have hb := readBody_noNul hk hread
  cases h
  exact ⟨fun h => hb (mem_substr h), reset_noNul _ _ hb⟩

theorem bodyPUTReplica_noNul (hk : '\x00' ∉ k.w.str) (h : k.bodyPUTReplica = .ok (seq, data, k')) :
    '\x00' ∉ data ∧ '\x00' ∉ k'.w.str := by
  obtain ⟨⟨buffer, task⟩, hread, h⟩ := bind_ok h
  have hb := readBody_noNul hk hread
  obtain ⟨seq, -, h⟩ := bind_ok h
  cases h
  exact ⟨fun h => hb (mem_substr h), reset_noNul _ _ hb⟩

theorem bodyCPUT_noNul (hk : '\x00' ∉ k.w.str) (h : k.bodyCPUT = .ok (oldData, newData, k')) :
    '\x00' ∉ oldData ∧ '\x00' ∉ newData ∧ '\x00' ∉ k'.w.str := by
  obtain ⟨⟨buffer, task⟩, hread, h⟩ := bind_ok h
  have hb := readBody_noNul hk hread
  obtain ⟨⟨buffer', task'⟩, hread', h⟩ := bind_ok h
  have hb' := readBody_noNul (fun h => hb (mem_substr h)) hread'
  cases h
  exact ⟨fun h => hb (mem_substr h), fun h => hb' (mem_substr h), reset_noNul _ _ hb'⟩

theorem bodyDELEReplica_noNul (hk : '\x00' ∉ k.w.str) (h : k.bodyDELEReplica = .ok (seq, k')) :
    '\x00' ∉ k'.w.str := by
  obtain ⟨⟨buffer, task⟩, hread, h⟩ := bind_ok h
  have hb := readBody_noNul hk hread
  obtain ⟨seq, -, h⟩ := bind_ok h
  cases h
  exact reset_noNul _ _ hb

end Bodies

/-- A worker whose stream is free of zero bytes stays so, and hands none to a handler. -/
theorem dispatch_noNul {primary : Bool} {command : Str} {k k' : Worker} {d : Dispatch}
    (hc : '\x00' ∉ command) (hk : '\x00' ∉ k.w.str)
    (h : k.dispatch primary command = .ok (d, k')) :
    '\x00' ∉ k'.w.str ∧ ∀ c, d = .call c → ∀ s ∈ c.parts, '\x00' ∉ s := by
  have hrow : '\x00' ∉ (Worker.parseCommand command).1 :=
    fun h => hc (mem_substr (mem_substr h))
  have hcol : '\x00' ∉ (Worker.parseCommand command).2 :=
    fun h => hc (mem_substr (mem_substr (mem_substr h)))
  unfold Worker.dispatch at h
  generalize Worker.verb command = v at h
  generalize Worker.parseCommand command = names at h hrow hcol
  obtain ⟨row, col⟩ := names
  have hcall : ∀ {c : Call}, (∀ s ∈ c.parts, '\x00' ∉ s) →
      ∀ c', Dispatch.call c = .call c' → ∀ s ∈ c'.parts, '\x00' ∉ s := by
    rintro c hs c' he
    cases he
    exact hs
  cases v with
  | put =>
      cases primary with
      | true =>
          obtain ⟨⟨data, k1⟩, hbody, h⟩ := bind_ok (show (k.bodyPUT >>= _) = _ from h)
          obtain ⟨hdata, hstr⟩ := bodyPUT_noNul hk hbody
          cases h
          exact ⟨hstr, hcall (by simp [Call.parts, hrow, hcol, hdata])⟩
      | false =>
          obtain ⟨⟨seq, data, k1⟩, hbody, h⟩ := bind_ok (show (k.bodyPUTReplica >>= _) = _ from h)
          obtain ⟨hdata, hstr⟩ := bodyPUTReplica_noNul hk hbody
          cases h
          exact ⟨hstr, hcall (by simp [Call.parts, hrow, hcol, hdata])⟩
  | cput =>
      obtain ⟨⟨oldData, newData, k1⟩, hbody, h⟩ := bind_ok (show (k.bodyCPUT >>= _) = _ from h)
      obtain ⟨hold, hnew, hstr⟩ := bodyCPUT_noNul hk hbody
      cases h
      exact ⟨hstr, hcall (by simp [Call.parts, hrow, hcol, hold, hnew])⟩
  | dele =>
      cases primary with
      | true =>
          cases h
          exact ⟨hk, hcall (by simp [Call.parts, hrow, hcol])⟩
      | false =>
          obtain ⟨⟨seq, k1⟩, hbody, h⟩ := bind_ok (show (k.bodyDELEReplica >>= _) = _ from h)
          have hstr := bodyDELEReplica_noNul hk hbody
          cases h
          exact ⟨hstr, hcall (by simp [Call.parts, hrow, hcol])⟩
  | get => cases h; exact ⟨hk, hcall (by simp [Call.parts, hrow, hcol])⟩
  | _ => cases h; exact ⟨hk, fun _ he => by cases he⟩

/-- **What a worker hands to a handler came through C strings**: it has no zero byte. -/
theorem step_noNul {primary : Bool} {k k' : Worker} {d : Option Dispatch}
    (hk : '\x00' ∉ k.w.str) (h : k.step primary = .ok (d, k')) :
    '\x00' ∉ k'.w.str ∧ ∀ c, d = some (.call c) → ∀ s ∈ c.parts, '\x00' ∉ s := by
  rw [Worker.step] at h
  split at h
  · rename_i command k1 hext
    obtain ⟨⟨d', k2⟩, hdis, h⟩ := bind_ok h
    cases h
    rw [Worker.extractCommand] at hext
    split at hext
    · cases hext
      obtain ⟨hk2, hparts⟩ := dispatch_noNul (fun h => hk (mem_substr h))
        (show '\x00' ∉ substr k.w.str _ from fun h => hk (mem_substr h)) hdis
      exact ⟨hk2, fun c hc => hparts c (Option.some.inj hc)⟩
    · cases hext
  · split at h
    · obtain ⟨⟨buf, task⟩, -, h⟩ := bind_ok h
      cases h
      refine ⟨?_, fun _ he => by cases he⟩
      simp only [StringStream.write, List.mem_append, not_or]
      exact ⟨⟨fun h => hk (List.mem_of_mem_take h), cstr_noNul buf⟩,
        fun h => hk (List.mem_of_mem_drop h)⟩
    · cases h

/-! ## What a read loop takes -/

section Reads

variable {stop buf out : Str} {len : Nat}

/-- What a read loop returns has taken in just enough reads. -/
theorem readInto_ok : ∀ {reads : List Str} {buf : Str} {task : List Read},
    '\x00' ∉ buf → '\x00' ∉ reads.flatten → ¬ stop <:+: buf →
    readInto stop len buf (reads.map .data) = .ok (out, task) →
    ∃ g rest, reads = g ++ rest ∧ task = rest.map .data ∧ out = buf ++ g.flatten ∧ g ≠ [] ∧
      stop <:+: out ∧ ¬ stop <:+: buf ++ g.dropLast.flatten ∧ out.length < len
  | [], _, _, _, _, _, h => by cases h
  | r :: reads, buf, task, hbuf, hreads, hstop, h => by
      rw [List.flatten_cons, List.mem_append, not_or] at hreads
      have hnul : '\x00' ∉ buf ++ r := by
        rw [List.mem_append, not_or]
        exact ⟨hbuf, hreads.1⟩
      rw [List.map_cons, readInto, cstr_eq hnul] at h
      split at h
      · cases h
      · rename_i hlen
        split at h
        · rename_i hfound
          cases h
          exact ⟨[r], reads, rfl, rfl, by simp, by simp,
            find_ne_npos.mp hfound, by simpa using hstop, Nat.lt_of_not_le hlen⟩
        · rename_i hfound
          have hno : ¬ stop <:+: buf ++ r := fun hi => hfound (find_ne_npos.mpr hi)
          obtain ⟨g, rest, rfl, rfl, rfl, hne, hends, hfirst, hfits⟩ :=
            readInto_ok hnul hreads.2 hno h
          refine ⟨r :: g, rest, rfl, rfl, by simp, by simp, by simpa using hends,
            ?_, by simpa using hfits⟩
          rw [List.dropLast_cons_of_ne_nil hne, List.flatten_cons, ← List.append_assoc]
          exact hfirst

/-- And a loop takes in a group of reads whole. -/
theorem readInto_group : ∀ {g : List Str} {b : Str} (rest : List Str), g ≠ [] →
    '\x00' ∉ b ++ g.flatten → stop <:+: b ++ g.flatten →
    ¬ stop <:+: b ++ g.dropLast.flatten → (b ++ g.flatten).length < len →
    readInto stop len b ((g ++ rest).map .data) = .ok (b ++ g.flatten, rest.map .data)
  | [], _, _, hne, _, _, _, _ => absurd rfl hne
  | r :: g, b, rest, _, hnul, hends, hfirst, hfits => by
      have hnul' : '\x00' ∉ b ++ r := by
        rw [List.flatten_cons, ← List.append_assoc, List.mem_append, not_or] at hnul
        exact hnul.1
      have hlen : ¬ len ≤ (b ++ r).length := by
        simp only [List.flatten_cons, List.length_append] at hfits ⊢
        omega
      rw [List.cons_append, List.map_cons, readInto, if_neg hlen, cstr_eq hnul']
      cases g with
      | nil =>
          rw [List.flatten_cons, List.flatten_nil, List.append_nil] at hends ⊢
          rw [if_pos (find_ne_npos.mpr hends)]
          rfl
      | cons r' g =>
          have hfirst' : ¬ stop <:+: b ++ r ++ (r' :: g).dropLast.flatten := by
            rw [List.append_assoc]
            simpa using hfirst
          have hno : ¬ stop <:+: b ++ r := fun hi =>
            hfirst' (hi.trans (List.prefix_append _ _).isInfix)
          rw [if_neg (fun hf => hno (find_ne_npos.mp hf)),
            readInto_group rest (by simp) (by simpa using hnul) (by simpa using hends) hfirst'
              (by simpa using hfits)]
          simp

end Reads

end PennCloud
