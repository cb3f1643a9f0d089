import PennCloud.Proof.Retrieval
import PennCloud.Storage.Commands

/-!
# A worker decodes what the storage client encodes

The senders put the strings of a command between heading lines and dot lines as
they are, and the worker finds them again by searching for the first dot line and
the heading. That gives back the very strings if no dot line is in one of them,
the line breaks around it included; words such as `DATA`, `OLD` or `NEW` on a line
of their own do no harm, since the search for the heading stops at the first.
Both ends add one line break to a string. So what was put with `PUT` compares equal
to the same string given as the `OLD` of a `CPUT`.
-/

namespace PennCloud

open Str

/-- The strings of a command: its data, or its `OLD` and `NEW`. -/
def Command.strings : Command → List Str
  | get .. | delete .. => []
  | put _ _ data => [data]
  | cput _ _ oldData newData => [oldData, newData]

/-- A command whose names and strings can be told from the framing around them. -/
structure Command.Sendable (c : Command) : Prop where
  row : Name c.intended.row
  col : Name c.intended.col
  strings : ∀ s ∈ c.strings, ¬ dotLine <:+: crlf ++ s ++ crlf ∧ '\x00' ∉ s

instance (c : Command) : Decidable c.Sendable :=
  decidable_of_iff (Name c.intended.row ∧ Name c.intended.col ∧
      ∀ s ∈ c.strings, ¬ dotLine <:+: crlf ++ s ++ crlf ∧ '\x00' ∉ s)
    ⟨fun h => ⟨h.1, h.2.1, h.2.2⟩, fun h => ⟨h.row, h.col, h.strings⟩⟩

theorem payload_of_string {s : Str} (h : ¬ dotLine <:+: crlf ++ s ++ crlf) : Payload (s ++ crlf) :=
  payload_of_rows (Or.inr (List.suffix_append s crlf)) (by rwa [← List.append_assoc])

/-- **The request meant is well-formed.** -/
theorem Command.Sendable.wf {c : Command} (hc : c.Sendable) : c.intended.WF := by
  cases c with
  | get row col => exact ⟨hc.row, hc.col⟩
  | delete row col => exact ⟨hc.row, hc.col⟩
  | put row col data =>
      have hdata := (hc.strings data List.mem_cons_self).1
      exact ⟨hc.row, hc.col, payload_of_string hdata⟩
  | cput row col oldData newData =>
      have hold := (hc.strings oldData List.mem_cons_self).1
      have hnew := (hc.strings newData (List.mem_cons_of_mem _ List.mem_cons_self)).1
      exact ⟨hc.row, hc.col, payload_of_string hold, payload_of_string hnew⟩

/-- The worker and its stream when all the bytes of a command have come in. -/
def Worker.received (k : Worker) (c : Command) : Worker := { k with w := k.w.write c.text }

@[simp] theorem write_setStr_nil (s : Str) : (StringStream.setStr []).write s = ⟨s, s.length⟩ := by
  simp [StringStream.write, StringStream.setStr]

theorem isLine_request {q : Request} (hq : q.WF) : IsLine q.line := by
  cases q with
  | put row col data => exact isLine_header (by decide) hq.1 hq.2.1
  | cput row col oldData newData => exact isLine_header (by decide) hq.1 hq.2.1
  | get row col => exact isLine_header (by decide) hq.1 hq.2
  | delete row col => exact isLine_header (by decide) hq.1 hq.2

theorem parseCommand_request {q : Request} (hq : q.WF) :
    Worker.parseCommand q.line = (q.row, q.col) := by
  cases q with
  | put row col data => exact parseCommand_name kwPUT (by decide) hq.1 hq.2.1
  | cput row col oldData newData => exact parseCommand_name kwCPUT (by decide) hq.1 hq.2.1
  | get row col => exact parseCommand_name kwGET (by decide) hq.1 hq.2
  | delete row col => exact parseCommand_name kwDELETE (by decide) hq.1 hq.2

/-- With nothing behind it a request leaves the stream empty. -/
theorem Request.behind_nil (q : Request) : q.behind [] = .setStr [] := by
  cases q <;> rfl

/-- A read that brings a whole command leaves the worker with it. -/
theorem step_received {k : Worker} {c : Command} {reads : List Read} (hk : k.w = .setStr [])
    (hc : c.Sendable) (hnul : '\x00' ∉ c.text) (hlen : c.text.length < rlen)
    (hrun : k.runFlag = true) (htask : k.task = .data c.text :: reads) :
    k.step true = .ok (none, { k.received c with task := reads }) := by
  obtain ⟨x, hline, -⟩ := isLine_request hc.wf
  have hcrlf : crlf <:+: c.text := by
    rw [Command.text_eq, Request.text, hline]
    exact (List.suffix_append x crlf).isInfix.trans (List.prefix_append _ _).isInfix
  have hcstr : cstr c.text = c.text := cstr_eq hnul
  have hread : doRead rlen k.task = .ok (c.text, reads) := by
    rw [doRead, htask, readInto, List.nil_append, if_neg (Nat.not_le.mpr hlen), hcstr,
      if_pos (find_ne_npos.mpr hcrlf)]
  have hempty : k.extractCommand = none := by
    rw [Worker.extractCommand, hk]
    rfl
  rw [Worker.step, hempty]
  simp only [Worker.received, hrun, if_true, hread, bind, Except.bind, hcstr, pure, Except.pure]

/--
**A worker decodes a command as the client encoded it**: the row, the column and
the strings followed by one line break, and its stream is empty behind them. A
read that brings the whole command puts it in the stream, and a string that was
put compares equal to the same string given as `OLD`.
-/
theorem command_decoded {c : Command} (hc : c.Sendable) {k : Worker} (hk : k.w = .setStr []) :
    (∃ k', (k.received c).extractCommand = some (c.intended.line, k') ∧
      Worker.parseCommand c.intended.line = (c.intended.row, c.intended.col) ∧
      k'.dispatch true c.intended.line = .ok (.call c.intended.call, k)) ∧
    (∀ reads, k.task = .data c.text :: reads → k.runFlag = true → '\x00' ∉ c.text →
      c.text.length < rlen → k.step true = .ok (none, { k.received c with task := reads })) ∧
    ∀ (s : Server) (r : Reaction) row col data newData,
      s.handle (Command.put row col data).intended.call = .ok r →
      ∃ r' : Reaction, r.server.handle (Command.cput row col data newData).intended.call = .ok r' ∧
        r'.reply = replyOK := by
  refine ⟨?_, fun reads htask hrun hnul hlen => step_received hk hc hnul hlen hrun htask, ?_⟩
  · have hstr : (k.received c).w.str = c.intended.line ++ c.intended.rest := by
      rw [Worker.received, hk, write_setStr_nil]
      exact Command.text_eq c
    refine ⟨_, extractCommand_line (isLine_request hc.wf) _ hstr, parseCommand_request hc.wf, ?_⟩
    rw [dispatch_request hc.wf [] _ (by rw [List.append_nil]), Request.behind_nil, ← hk]
    rfl
  · intro s r row col data newData hr
    by_cases hnull : NullPut s.table row col
    · exact absurd ((parsePUT_fault _ hnull).symm.trans hr) (fun he => by cases he)
    · cases (parsePUT_eq _ hnull).symm.trans hr
      refine ⟨_, rfl, ?_⟩
      have hholds : CputHolds (s.stored row col (data ++ crlf)).table.view (row, col)
        (data ++ crlf) :=
        Or.inr ((Nested.at?_set s.table row col (data ++ crlf) row col).trans (if_pos ⟨rfl, rfl⟩))
      rw [parseCPUT_eq, if_pos hholds]

/-- A `CPUT` from an empty string to one that has the framing's words on lines of their own. -/
def wordsCput : Command :=
  .cput ['u'] "1:content".toList [] "NEW\r\nDATA\r\nOLD\r\n".toList

theorem wordsCput_decoded :
    ∃ k', (({ task := [] } : Worker).received wordsCput).extractCommand
        = some ("CPUT <u> <1:content>\r\n".toList, k') ∧
      k'.dispatch true "CPUT <u> <1:content>\r\n".toList
        = .ok (.call (.cput ['u'] "1:content".toList crlf "NEW\r\nDATA\r\nOLD\r\n\r\n".toList),
            { task := [] }) := by
  have hc : wordsCput.Sendable := by decide
  obtain ⟨⟨k', hextract, -, hdispatch⟩, -⟩ := command_decoded hc (k := { task := [] }) rfl
  exact ⟨k', hextract, hdispatch⟩

end PennCloud
