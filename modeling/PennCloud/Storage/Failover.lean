import PennCloud.Store.Handlers
import PennCloud.Storage.Commands

/-!
# A command across a failover

A sender of `Storage` writes its command and reads the reply. When the primary
crashes before it has replied, the sender asks the master for the next one,
sends the command there by calling itself, and then goes round its own loop once
more. So every crash adds an execution: with `k` crashes the primary that
survives executes the command `k + 1` times, and what the caller gets is the
reply of the last.
-/

namespace PennCloud

open Str

/-- What a sender reads as the end of a primary. -/
def serverCrash : Str := "SERVER CRASH".toList

def shuttingDown : Str := "-ERR Server shutting down".toList

/-- `Storage::read_put_reply` on what `read` delivers before the end of the stream. -/
def readPutReply (complete : Str) : List Str → Str
  | [] => serverCrash
  | buf :: reads =>
    if shuttingDown <:+: complete then serverCrash
    else if crlf <:+: complete ++ cstr buf then complete ++ cstr buf
    else readPutReply (complete ++ cstr buf) reads

/-- What a primary leaves to be read when it crashes before it has replied. -/
structure Crash where
  reads : List Str
  unanswered : readPutReply [] reads = serverCrash

/-- How a text arrives: cut into reads, none of them empty. -/
structure Delivery where
  cut : Str → List Str
  whole : ∀ s, (cut s).flatten = s
  nonempty : ∀ s, [] ∉ cut s

/-- The primaries a sender meets: those that crash on it, one after the other, and the last. -/
structure Primaries where
  crashes : List Crash
  survivor : Server
  /-- The requests that the survivor has executed. -/
  executed : List Request := []

namespace Primaries

/-- Write a command and read its reply; `none` is a request that the survivor dies of. -/
def exchange (d : Delivery) (q : Request) (w : Primaries) : Option (Str × Primaries) :=
  match w.crashes with
  | c :: _ => some (readPutReply [] c.reads, w)
  | [] => match w.survivor.handle q.call with
    | .error _ => none
    | .ok r => some (readPutReply [] (d.cut r.reply),
        { w with survivor := r.server, executed := w.executed ++ [q] })

/-- `Storage::server_recover`: the connection goes to the next primary. -/
def serverRecover (w : Primaries) : Primaries := { w with crashes := w.crashes.tail }

end Primaries

/-- The loop of the three senders; `none` when the fuel runs out. -/
def sendCommand (d : Delivery) (q : Request) : Nat → Primaries → Option (Str × Primaries)
  | 0, _ => none
  | fuel + 1, w => (w.exchange d q).bind fun r =>
    if r.1 ≠ serverCrash then some r
    -- the recursive call, whose response is overwritten, and the next turn of `while (1)`
    else (sendCommand d q fuel r.2.serverRecover).bind fun r' => sendCommand d q fuel r'.2

/-- `Storage::send_put_command`. -/
def sendPutCommand (d : Delivery) (row col data : Str) :
    Nat → Primaries → Option (Str × Primaries) :=
  sendCommand d (Command.put row col data).intended

/-- `Storage::send_cput_command`. -/
def sendCputCommand (d : Delivery) (row col oldData newData : Str) :
    Nat → Primaries → Option (Str × Primaries) :=
  sendCommand d (Command.cput row col oldData newData).intended

/-- `Storage::send_delete_command`. -/
def sendDeleteCommand (d : Delivery) (row col : Str) : Nat → Primaries → Option (Str × Primaries) :=
  sendCommand d (Command.delete row col).intended

/-- A call of one of the three. -/
inductive Update
  | put (row col data : Str)
  | cput (row col oldData newData : Str)
  | delete (row col : Str)

namespace Update

def request : Update → Request
  | put row col data => (Command.put row col data).intended
  | cput row col oldData newData => (Command.cput row col oldData newData).intended
  | delete row col => (Command.delete row col).intended

def send (d : Delivery) : Update → Nat → Primaries → Option (Str × Primaries)
  | put row col data => sendPutCommand d row col data
  | cput row col oldData newData => sendCputCommand d row col oldData newData
  | delete row col => sendDeleteCommand d row col

end Update

/--
The command is executed once, across the crashes, and the response is the reply of
that execution.
-/
def ExecutedOnce (d : Delivery) (u : Update) (crashes : List Crash) (s : Server) (fuel : Nat) :
    Prop :=
  ∃ r, s.handle u.request.call = .ok r ∧
    u.send d fuel { crashes := crashes, survivor := s }
      = some (r.reply, { crashes := [], survivor := r.server, executed := [u.request] })

theorem Update.send_eq (d : Delivery) (u : Update) : u.send d = sendCommand d u.request := by
  cases u <;> rfl

/-! ## Replies -/

/-- The line that answers an update. -/
structure Answers (reply : Str) : Prop where
  line : ∃ x, reply = x ++ crlf ∧ '\n' ∉ x
  noNul : '\x00' ∉ reply
  short : reply.length < shuttingDown.length

theorem Answers.of_line {x : Str} (hnl : '\n' ∉ x) (hnul : '\x00' ∉ x)
    (hlen : x.length + 2 < shuttingDown.length) : Answers (x ++ crlf) where
  line := ⟨x, rfl, hnl⟩
  noNul := by
    intro h
    rcases List.mem_append.mp h with h | h
    · exact hnul h
    · exact absurd h (by decide)
  short := by
    rw [List.length_append]
    exact hlen

theorem answers_erase (s : Server) (row col : Str) (fs : List Forward) :
    Answers (s.eraseDELE row col fs).reply := by
  unfold Server.eraseDELE
  split
  · exact Answers.of_line (x := "-ERR NULL row".toList) (by decide) (by decide) (by decide)
  · split
    · exact Answers.of_line (x := "-ERR NULL colmn".toList) (by decide) (by decide) (by decide)
    · exact Answers.of_line (x := "+OK deleted".toList) (by decide) (by decide) (by decide)

theorem answers_update {s : Server} {u : Update} {r : Reaction}
    (h : s.handle u.request.call = .ok r) : Answers r.reply := by
  have hok : Answers replyOK := Answers.of_line (x := ['+', 'O', 'K']) (by decide)
    (by decide) (by decide)
  cases u with
  | put row col data =>
      by_cases hnull : NullPut s.table row col
      · exact absurd ((parsePUT_fault _ hnull).symm.trans h) (fun he => by cases he)
      · cases (parsePUT_eq _ hnull).symm.trans h
        exact hok
  | cput row col oldData newData =>
      have hr := Except.ok.inj h
      rw [parseCPUT_eq] at hr
      split at hr
      · exact hr ▸ hok
      · exact hr ▸ Answers.of_line (x := ['-', 'E', 'R', 'R']) (by decide) (by decide) (by decide)
  | delete row col =>
      cases h
      exact answers_erase _ row col _

/-- An update that a server survives it survives again. -/
theorem handle_again {s : Server} {u : Update} {r : Reaction}
    (h : s.handle u.request.call = .ok r) : ∃ r', r.server.handle u.request.call = .ok r' := by
  cases u with
  | put row col data =>
      by_cases hnull : NullPut s.table row col
      · exact absurd ((parsePUT_fault _ hnull).symm.trans h) (fun he => by cases he)
      · cases (parsePUT_eq _ hnull).symm.trans h
        -- now the cell is there
        refine ⟨_, parsePUT_eq _ fun hnull' => ?_⟩
        have hat := (Nested.at?_set s.table row col (data ++ crlf) row col).symm.trans hnull'.2.2
        simp at hat
  | cput row col oldData newData => exact ⟨_, rfl⟩
  | delete row col => exact ⟨_, rfl⟩

/-- **A reply is read whole**, however it is cut. -/
theorem readPutReply_answer {reply : Str} (ha : Answers reply) :
    ∀ {reads : List Str} {complete : Str}, complete ++ reads.flatten = reply → [] ∉ reads →
      ¬ crlf <:+: complete → readPutReply complete reads = reply
  | [], complete, hcat, _, hno => by
      obtain ⟨x, hx, -⟩ := ha.line
      rw [List.flatten_nil, List.append_nil] at hcat
      exact absurd (hcat.trans hx ▸ (List.suffix_append x crlf).isInfix) hno
  | buf :: reads, complete, hcat, hne, hno => by
      obtain ⟨x, hx, hnl⟩ := ha.line
      rw [List.flatten_cons, ← List.append_assoc] at hcat
      have hlen := congrArg List.length hcat
      simp only [List.length_append] at hlen
      have hdown : ¬ shuttingDown <:+: complete := by
        intro hin
        have hle := hin.length_le
        have hshort := ha.short
        omega
      have hbuf : cstr buf = buf := by
        refine cstr_eq fun hnul => ha.noNul ?_
        rw [← hcat]
        simp [hnul]
      rw [readPutReply, if_neg hdown, hbuf]
      split
      · rename_i hin
        -- the line break is at the end of the reply, so nothing is left
        obtain ⟨u, v, huv⟩ := hin
        rcases List.eq_nil_or_concat (v ++ reads.flatten) with hnil | ⟨y, c, hy⟩
        · rw [(List.append_eq_nil_iff.mp hnil).2, List.append_nil] at hcat
          exact hcat
        · rw [hx, ← huv, List.append_assoc, hy] at hcat
          have hends : (u ++ '\r' :: '\n' :: y) ++ [c] = (x ++ ['\r']) ++ ['\n'] := by
            simpa [crlf] using hcat
          have hmem : '\n' ∈ x ++ ['\r'] := (List.append_inj' hends rfl).1 ▸ by simp
          simp [hnl] at hmem
      · rename_i hin
        exact readPutReply_answer ha hcat (fun h => hne (List.mem_cons_of_mem _ h)) hin

/-! ## The sender -/

theorem Answers.ne_crash {reply : Str} (ha : Answers reply) : reply ≠ serverCrash := by
  rintro rfl
  obtain ⟨x, hx, -⟩ := ha.line
  have hmem : '\n' ∈ serverCrash := hx ▸ by simp [crlf]
  exact absurd hmem (by decide)

/-- With no crash ahead the command is executed and its reply returned. -/
theorem sendCommand_calm (d : Delivery) {u : Update} {w : Primaries} {r : Reaction} {fuel : Nat}
    (hw : w.crashes = []) (hr : w.survivor.handle u.request.call = .ok r) (hfuel : 0 < fuel) :
    sendCommand d u.request fuel w = some (r.reply,
      { w with survivor := r.server, executed := w.executed ++ [u.request] }) := by
  obtain ⟨n, rfl⟩ := Nat.exists_eq_succ_of_ne_zero (Nat.ne_of_gt hfuel)
  have ha := answers_update hr
  have hread : readPutReply [] (d.cut r.reply) = r.reply :=
    readPutReply_answer ha (d.whole r.reply) (d.nonempty r.reply) (by decide)
  have hexchange : w.exchange d u.request = some (r.reply,
      { w with survivor := r.server, executed := w.executed ++ [u.request] }) := by
    simp only [Primaries.exchange, hw, hr, hread]
  rw [sendCommand, hexchange, Option.bind_some, if_pos ha.ne_crash]

/-- **Every crash adds an execution.** -/
theorem sendCommand_executions (d : Delivery) (u : Update) : ∀ (crashes : List Crash)
    (w : Primaries) (fuel : Nat), w.crashes = crashes → crashes.length < fuel →
    (∃ r, w.survivor.handle u.request.call = .ok r) →
    ∃ response w', sendCommand d u.request fuel w = some (response, w') ∧ w'.crashes = [] ∧
      w'.executed = w.executed ++ List.replicate (crashes.length + 1) u.request ∧
      ∃ r, w'.survivor.handle u.request.call = .ok r
  | [], w, fuel, hw, hfuel, ⟨r, hr⟩ =>
      ⟨_, _, sendCommand_calm d hw hr hfuel, hw, rfl, handle_again hr⟩
  | c :: cs, w, fuel, hw, hfuel, hr => by
      obtain ⟨n, rfl⟩ := Nat.exists_eq_succ_of_ne_zero (Nat.ne_of_gt (Nat.zero_lt_of_lt hfuel))
      rw [List.length_cons] at hfuel
      -- the recursive call meets the other crashes
      obtain ⟨response, w', hsend, hw', hexec, r', hr'⟩ :=
        sendCommand_executions d u cs w.serverRecover n (by rw [Primaries.serverRecover, hw]; rfl)
          (Nat.lt_of_succ_lt_succ hfuel) hr
      -- and the next turn of the loop meets none
      have hcalm := sendCommand_calm d hw' hr' (Nat.zero_lt_of_lt (Nat.lt_of_succ_lt_succ hfuel))
      refine ⟨r'.reply,
        { w' with survivor := r'.server, executed := w'.executed ++ [u.request] },
        ?_, hw', ?_, handle_again hr'⟩
      · have hexchange : w.exchange d u.request = some (serverCrash, w) := by
          simp only [Primaries.exchange, hw, c.unanswered]
        rw [sendCommand, hexchange, Option.bind_some, if_neg (not_not_intro rfl), hsend,
          Option.bind_some, hcalm]
      · show w'.executed ++ [u.request] = _
        rw [hexec, List.append_assoc, ← List.replicate_succ']
        rfl

/-- **An update is executed once, and answered, exactly when no primary crashes on it.** -/
theorem executedOnce_iff_calm (d : Delivery) (u : Update) (crashes : List Crash) (s : Server)
    (fuel : Nat) (hs : ∃ r, s.handle u.request.call = .ok r) (hfuel : crashes.length < fuel) :
    ExecutedOnce d u crashes s fuel ↔ crashes = [] := by
  rw [ExecutedOnce, Update.send_eq]
  constructor
  · rintro ⟨r, -, hsend⟩
    obtain ⟨response, w', hsend', -, hexec, -⟩ :=
      sendCommand_executions d u crashes { crashes := crashes, survivor := s } fuel rfl hfuel hs
    obtain ⟨-, rfl⟩ := Prod.mk.inj (Option.some.inj (hsend'.symm.trans hsend))
    have hlen := congrArg List.length hexec
    simp only [List.length_append, List.length_replicate, List.length_cons, List.length_nil] at hlen
    exact List.length_eq_zero_iff.mp (by omega)
  · rintro rfl
    obtain ⟨r, hr⟩ := hs
    exact ⟨r, hr, sendCommand_calm d rfl hr hfuel⟩

/-- Reads that hold a text in one piece. -/
def inOnePiece : Delivery where
  cut s := if s = [] then [] else [s]
  whole s := by by_cases h : s = [] <;> simp [h]
  nonempty s := by by_cases h : s = [] <;> simp [h, Ne.symm]

/-- Reads of one byte each. -/
def eachByte : Delivery where
  cut s := s.map fun c => [c]
  whole s := by
    induction s with
    | nil => rfl
    | cons c s ih => exact congrArg (c :: ·) ih
  nonempty s := by simp

/-- A sign-up: `CPUT` of a password that is not there yet. -/
def signUp : Update := .cput ['b', 'o', 'b'] ['p', 'w'] "NULL".toList ['x']

theorem signUp_calm : ExecutedOnce inOnePiece signUp [] { primary := true } 1 :=
  (executedOnce_iff_calm _ _ _ _ _ ⟨_, rfl⟩ (by decide)).mpr rfl

/-- A primary that is killed before it replies. -/
def killed : Crash := ⟨[], rfl⟩

/--
After one crash the sign-up is executed twice. The first execution succeeds, and
the caller is told that it failed.
-/
theorem signUp_twice : ∃ w, signUp.send inOnePiece 2
      { crashes := [killed], survivor := { primary := true } } = some (replyErr, w) ∧
    w.executed = [signUp.request, signUp.request] ∧
    w.survivor.table.at? ['b', 'o', 'b'] ['p', 'w'] = some ['x', '\r', '\n'] ∧
    ¬ ExecutedOnce inOnePiece signUp [killed] { primary := true } 2 := by
  refine ⟨_, rfl, rfl, by decide +kernel, ?_⟩
  rintro ⟨r, -, hsend⟩
  have hexec :
      (signUp.send inOnePiece 2 { crashes := [killed], survivor := { primary := true } }).map
        (·.2.executed.length) = some 2 := rfl
  rw [hsend] at hexec
  exact absurd (Option.some.inj hexec) (show ¬ 1 = 2 by decide)

end PennCloud
