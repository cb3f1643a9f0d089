import PennCloud.Proof.Decoded
import PennCloud.Proof.Served
import PennCloud.Proof.TableRefinement
import PennCloud.Store.Faults
import PennCloud.Storage.FileHandler
import PennCloud.Storage.GetReply

/-!
# Requests over the wire

Each `Storage` has a connection to the primary, with a worker at the other end. A
sender writes its request, and the worker reads it in pieces, handles it, passes
the update on to the replicas and replies; the sender reads the reply in pieces.
No sender writes before its last reply has come.

So a request on one connection finds the worker there idle, whatever the other
sessions have done. If the pieces suit the worker and the reader, the request is
handled as one step of the server, as the models of `Storage` take it to be, and
the cells are those of a map.
-/

namespace PennCloud

open Str

/-! ## Connections and their workers -/

/--
`Worker::run` on what has come in, until it waits for more: what it leaves, and
its replies.
-/
def DataServer.run (up : Addr → Bool) : Nat → DataServer → Worker → Option Served
  | 0, _, _ => none
  | n + 1, s, k =>
    match k.extractCommand with
    | some (command, k) => (s.serve up command k).toOption.bind fun r =>
        (run up n r.1 r.2.1).map fun r' => (r'.1, r'.2.1, r.2.2 ++ r'.2.2)
    | none =>
      if k.runFlag then
        match doRead rlen k.task with
        | .ok (buf, task) => run up n s { k with w := k.w.write (cstr buf), task := task }
        | .error .blocked => some (s, k, [])
        | .error _ => none
      else some (s, k, [])

/-- `read_get_data` or `read_put_reply`; `none` where the sender takes the primary for crashed. -/
def Command.response : Command → List Str → Option Str
  | .get _ _, reads => (readGetData [] (reads.map .data)).bind fun r =>
      if r.1 = serverCrash then none else some r.1
  | _, reads =>
      if readPutReply [] reads = serverCrash then none else some (readPutReply [] reads)

/-- A call of a sender: by which session, and how the request and the reply arrive. -/
structure Exchange where
  session : Nat
  command : Command
  ask : Delivery
  answer : Delivery
  /-- The replicas that take what the primary passes on. -/
  up : Addr → Bool

/-- The primary, with a worker for each session. -/
structure Wire where
  server : DataServer
  workers : Nat → Worker := fun _ => { task := [] }
  /-- The commands and their responses, the latest first. -/
  log : List (Command × Str) := []

/-- A sender writes its command and waits for the response. -/
def Wire.step (s : Wire) (x : Exchange) : Option Wire :=
  let k := s.workers x.session
  let text := x.command.text
  -- every turn takes a read or a line break out
  (s.server.run x.up (k.w.str.length + k.task.length + 2 * text.length)
      { k with task := k.task ++ (x.ask.cut text).map .data }).bind fun r =>
    (x.command.response (x.answer.cut r.2.2)).map fun response => {
      server := r.1
      workers := Function.update s.workers x.session r.2.1
      log := (x.command, response) :: s.log }

/-! ## One step for each command -/

/-- The senders, the request handled as one step. -/
def Server.send (s : Server) : Command → Option (Str × Server)
  | .get row col => s.sendGet row col
  | .put row col data => s.sendUpdate (.put row col data)
  | .cput row col oldData newData => s.sendUpdate (.cput row col oldData newData)
  | .delete row col => s.sendUpdate (.delete row col)

/-- A server and what has been asked of it. -/
structure Asked where
  server : Server
  log : List (Command × Str) := []

/-- The cell that a command may change. -/
def Command.target : Command → Option Key
  | .get _ _ => none
  | .put row col _ | .cput row col _ _ | .delete row col => some (row, col)

def Asked.step (s : Asked) (c : Command) : Option Asked :=
  (s.server.send c).map fun r => ⟨r.2, (c, r.1) :: s.log⟩

/-- What a sender is to return, by the map's own meaning of the request. -/
inductive Answered (m : Contents) : Command → Str → Contents → Prop
  | found {row col data} : m (row, col) = some (data ++ crlf) → Answered m (.get row col) data m
  | missing {row col} : m (row, col) = none → Answered m (.get row col) nullReply m
  | update {c reply m'} : (∀ row col, c ≠ .get row col) → Spec m c.intended reply m' →
      Answered m c reply m'

/-- The commands have been answered one after the other. -/
inductive History (m : Contents) : List (Command × Str) → Contents → Prop
  | nil : History m [] m
  | cons {c response log m' m''} : History m log m' → Answered m' c response m'' →
      History m ((c, response) :: log) m''

/-- The cells hold texts that were put with a line break behind them. -/
def Contents.Texts (m : Contents) : Prop :=
  ∀ k d, m k = some d → ∃ data, d = data ++ crlf ∧ '\x00' ∉ data

/-- The reply to a `GET` is read as it is. -/
def ReplyReadable (t : Bmap) (answer : Delivery) : Command → Prop
  | .get row col => ∀ data, t.at? row col = some (data ++ crlf) → data ≠ serverCrash ∧
      ReadsThrough data (answer.cut (getReply data)) ∧ ∀ r ∈ answer.cut (getReply data),
      r.length < getLen
  | _ => True

/-- The command keeps to the framing, the worker is spared, and the pieces suit their readers. -/
structure Exchange.Suits (s : Wire) (x : Exchange) : Prop where
  sendable : x.command.Sendable
  noNul : '\x00' ∉ x.command.text
  safe : PutSafe s.server.server.table x.command.intended
  asked : Cut x.command.intended (x.ask.cut x.command.text)
  answered : ReplyReadable s.server.server.table x.answer x.command

/-! ## The worker -/

section Workers

variable {up : Addr → Bool} {s : DataServer} {q : Request} {k k' : Worker}
  {reads : List Str} {r : Reaction}

/-- A request is handled as it has been dispatched. -/
theorem serve_request (hp : s.server.primary = true) (hq : q.WF)
    (h : k.dispatch true q.line = .ok (.call q.call, k')) :
    s.serve up q.line k = s.react up k' (s.server.handle q.call) := by
  cases q with
  | put row col data =>
      have hnames : Worker.parseCommand (header kwPUT row col crlf) = (row, col) :=
        parseCommand_name kwPUT (by decide) hq.1 hq.2.1
      rw [Worker.dispatch, Request.line, hnames] at h
      simp only [(verb_header row col crlf).1, if_true] at h
      obtain ⟨⟨d, k₁⟩, hbody, h⟩ := bind_ok h
      cases h
      simp only [DataServer.serve, Request.line, (verb_header row col crlf).1,
        parseCommandAt_eq, hnames, hp, if_true, bodyPUTAt_eq, hbody, Halt.lift, bind, Except.bind]
      rfl
  | cput row col oldData newData =>
      have hnames : Worker.parseCommand (header kwCPUT row col crlf) = (row, col) :=
        parseCommand_name kwCPUT (by decide) hq.1 hq.2.1
      rw [Worker.dispatch, Request.line, hnames] at h
      simp only [(verb_header row col crlf).2.1] at h
      obtain ⟨⟨o, d, k₁⟩, hbody, h⟩ := bind_ok h
      cases h
      simp only [DataServer.serve, Request.line, (verb_header row col crlf).2.1,
        parseCommandAt_eq, hnames, bodyCPUTAt_eq, hbody, Halt.lift, bind, Except.bind]
      rfl
  | get row col =>
      have hnames : Worker.parseCommand (header kwGET row col crlf) = (row, col) :=
        parseCommand_name kwGET (by decide) hq.1 hq.2
      rw [Worker.dispatch, Request.line, hnames] at h
      simp only [(verb_header row col crlf).2.2.1] at h
      cases h
      simp only [DataServer.serve, Request.line, (verb_header row col crlf).2.2.1,
        parseCommandAt_eq, hnames, bind, Except.bind]
      rfl
  | delete row col =>
      have hnames : Worker.parseCommand (header kwDELETE row col crlf) = (row, col) :=
        parseCommand_name kwDELETE (by decide) hq.1 hq.2
      rw [Worker.dispatch, Request.line, hnames] at h
      simp only [(verb_header row col crlf).2.2.2, if_true] at h
      cases h
      simp only [DataServer.serve, Request.line, (verb_header row col crlf).2.2.2,
        parseCommandAt_eq, hnames, hp, if_true, bind, Except.bind]
      rfl

/-- Behind the handler, the replicas are told. -/
theorem Request.isLine (hq : q.WF) : IsLine q.line :=
  isLine_msg (m := .request q) ⟨rfl, hq⟩

theorem react_ok (up : Addr → Bool) (k : Worker) (r : Reaction) (hback : s.backStore.isSome) :
    ∃ t, s.react up k (.ok r) = .ok (t, k, r.reply) ∧
    t.server = r.server ∧ t.backStore.isSome := by
  obtain ⟨t, ht, hserver⟩ :=
    forward_ok up r.forwarded (s := { s with server := r.server }) (Or.inr hback)
  refine ⟨t, ?_, hserver, (forward_role ht).2.trans hback⟩
  simp only [DataServer.react, Halt.lift, bind, Except.bind, ht]
  rfl

/-- **An idle worker** that a request comes to in suitable pieces handles it, replies, and is
idle again. -/
theorem serve_run (up : Addr → Bool) (hp : s.server.primary = true)
    (hback : s.backStore.isSome) (hq : q.WF)
    (hnul : '\x00' ∉ q.text) (hcat : reads.flatten = q.text) (hcut : Cut q reads)
    (hr : s.server.handle q.call = .ok r) (n : Nat) :
    ∃ t, s.run up (n + 3) { task := reads.map .data } = some (t, { task := [] }, r.reply) ∧
      t.server = r.server ∧ t.backStore.isSome := by
  obtain ⟨g, rest, y, rfl, hg, hly, hbrings⟩ := hcut
  have hnuls := hnul
  rw [← hcat, List.flatten_append, List.mem_append, not_or] at hnuls
  have hread : doRead rlen ((g ++ rest).map .data) = .ok (g.flatten, rest.map .data) :=
    hg.read rest (by decide) hnuls.1
  have hstr : (StringStream.write {} g.flatten).str = q.line ++ y := by
    rw [← hly]
    simp [StringStream.write]
  have hown := Request.isLine hq
  have hrest : y ++ rest.flatten = q.rest := by
    rw [List.flatten_append, hly, Request.text, List.append_assoc] at hcat
    exact List.append_cancel_left hcat
  have hdis :=
    dispatch_brings (k := .holding (.setStr y) (rest.map .data)) hq rfl hnuls.2 hrest rfl hbrings
  obtain ⟨t, hreact, hserver, hsome⟩ := react_ok up (.holding (.setStr []) []) r hback
  have hserve : s.serve up q.line (.holding (.setStr y) (rest.map .data))
      = .ok (t, .holding (.setStr []) [], r.reply) := by
    rw [serve_request hp hq hdis, hr]
    exact hreact
  have hfirst : s.run up (n + 3) { task := (g ++ rest).map .data }
      = s.run up (n + 2) (.holding (StringStream.write {} g.flatten) (rest.map .data)) := by
    have hempty : ¬ crlf <:+: ({ task := (g ++ rest).map .data } : Worker).w.str := by
      show ¬ crlf <:+: ([] : Str)
      decide
    rw [DataServer.run, extractCommand_none.mpr hempty]
    simp only [if_true, hread, cstr_eq hnuls.1]
    rfl
  have hlast : t.run up (n + 1) (.holding (.setStr []) []) = some (t, { task := [] }, []) := rfl
  have hline := extractCommand_line (x := y) hown
    (.holding (StringStream.write {} g.flatten) (rest.map .data)) hstr
  refine ⟨t, ?_, hserver, hsome⟩
  rw [hfirst, DataServer.run, hline]
  show ((s.serve up q.line (.holding (.setStr y) (rest.map .data))).toOption.bind _) = _
  rw [hserve, Except.toOption, Option.bind_some, hlast, Option.map_some, List.append_nil]

end Workers

/-! ## The sender -/

section Senders

variable {s : Server} {row col data : Str} {answer : Delivery} {c : Command} {r : Reaction}

/-- A reply that comes in one piece is read as the data. -/
theorem sendGet_data (hcell : s.table.at? row col = some (data ++ crlf)) (hnul : '\x00' ∉ data)
    (hdown : ¬ shuttingDown <:+: data) (hcrash : data ≠ serverCrash) :
    s.sendGet row col = some (data, (s.parseGET row col).server) := by
  have hcstr : cstr (getReply data) = getReply data := by
    refine cstr_eq ?_
    unfold getReply
    simp only [List.mem_append, not_or]
    exact ⟨by decide, hnul, by decide⟩
  obtain ⟨response, hround, he⟩ := Option.map_eq_some_iff.mp (getAnswer_whole hdown)
  obtain ⟨rfl, -⟩ := Prod.mk.inj he
  show (readGetRound (cstr (s.parseGET row col).reply)).bind _ = _
  rw [parseGET_data hcell, hcstr, hround, Option.bind_some, if_neg hcrash]

theorem sendGet_null (hcell : s.table.at? row col = none) :
    s.sendGet row col = some (nullReply, (s.parseGET row col).server) := by
  have hround : readGetRound (cstr (s.parseGET row col).reply) = some nullReply := by
    rcases parseGET_null hcell with h | h
    · rw [h]
      decide
    · rw [h]
      decide
  show (readGetRound (cstr (s.parseGET row col).reply)).bind _ = _
  rw [hround, Option.bind_some, if_neg (by decide)]

theorem parseGET_server (s : Server) (row col : Str) : (s.parseGET row col).server = s := by
  rcases parseGET_cases s row col with ⟨d, -, hget⟩ | ⟨-, reply, -, hget⟩
  · rw [hget]
  · rw [hget]

/-- **A `GET`** is answered with the cell, if its reply is readable. -/
theorem get_answered (htexts : Contents.Texts s.table.view)
    (hread : ReplyReadable s.table answer (.get row col)) :
    ∃ response, (Command.get row col).response (answer.cut (s.parseGET row col).reply)
      = some response ∧
      s.send (.get row col) = some (response, (s.parseGET row col).server) ∧
      Answered s.table.view (.get row col) response s.table.view := by
  have hwhole := answer.whole (s.parseGET row col).reply
  have hne : ∀ r ∈ answer.cut (s.parseGET row col).reply, r ≠ [] := fun r hr h =>
    answer.nonempty _ (h ▸ hr)
  cases hcell : s.table.at? row col with
  | none =>
      have hlen : (s.parseGET row col).reply.length < getLen := by
        rcases parseGET_null hcell with h | h
        · rw [h]
          decide
        · rw [h]
          decide
      have hshort : ∀ r ∈ answer.cut (s.parseGET row col).reply, r.length < getLen := fun r hr =>
        Nat.lt_of_le_of_lt ((List.sublist_flatten_of_mem hr).length_le.trans_eq
          (congrArg List.length hwhole)) hlen
      have hget := (get_read_iff hwhole fun r hr => ⟨hne r hr, hshort r hr⟩).2 hcell
      refine ⟨nullReply, ?_, sendGet_null hcell, .missing hcell⟩
      rw [Command.response, hget, Option.bind_some, if_neg (by decide)]
  | some d =>
      obtain ⟨data, rfl, hnul⟩ := htexts (row, col) d hcell
      obtain ⟨hcrash, hthrough, hshort⟩ := hread data hcell
      rw [← parseGET_data hcell] at hthrough hshort
      have hget :=
        ((get_read_iff hwhole fun r hr => ⟨hne r hr, hshort r hr⟩).1 data hcell hnul).mpr hthrough
      refine ⟨data, ?_, sendGet_data hcell hnul hthrough.alive hcrash, .found hcell⟩
      rw [Command.response, hget, Option.bind_some, if_neg hcrash]

/-- **An update** is answered with the reply, however it is cut. -/
theorem update_answered {u : Update} (h : s.handle u.request.call = .ok r) (answer : Delivery) :
    (if readPutReply [] (answer.cut r.reply) = serverCrash then none
      else some (readPutReply [] (answer.cut r.reply))) = some r.reply ∧
      s.sendUpdate u = some (r.reply, r.server) := by
  have hanswers := answers_update h
  have hcrash := hanswers.ne_crash
  have hread : readPutReply [] (answer.cut r.reply) = r.reply :=
    readPutReply_answer hanswers (answer.whole r.reply) (answer.nonempty r.reply) (by decide)
  have hone : readPutReply [] [r.reply] = r.reply := readPutReply_answer hanswers (by simp)
    (fun hnil => by
      obtain ⟨x, hx, -⟩ := hanswers.line
      rw [← List.mem_singleton.mp hnil] at hx
      simp [crlf] at hx) (by decide)
  refine ⟨by rw [hread, if_neg hcrash], ?_⟩
  simp only [Server.sendUpdate, h, hone, if_neg hcrash]

/-- **A command that is handled** is answered as if that were one step, and as the map says. -/
theorem command_answered (hp : s.primary = true) (hwf : c.intended.WF)
    (htexts : Contents.Texts s.table.view)
    (hread : ReplyReadable s.table answer c) (h : s.handle c.intended.call = .ok r) :
    ∃ response, c.response (answer.cut r.reply) = some response ∧
    s.send c = some (response, r.server) ∧
      Answered s.table.view c response r.server.table.view := by
  have hspec : Spec s.table.view c.intended r.reply r.server.table.view := by
    obtain ⟨r', hserve, hspec⟩ := (servesAs_iff hp hwf).mpr (by
      cases c with
      | put row col data =>
          intro hnull
          exact absurd ((parsePUT_fault _ hnull).symm.trans h) (fun he => by cases he)
      | get | cput | delete => trivial)
    obtain rfl := Except.ok.inj ((serve_eq hp hwf).symm.trans hserve |>.symm.trans h)
    exact hspec
  cases c with
  | get row col =>
      obtain ⟨response, hresponse, hsend, hanswered⟩ := get_answered htexts hread
      cases h
      refine ⟨response, hresponse, hsend, ?_⟩
      rwa [parseGET_server]
  | put row col data =>
      obtain ⟨hr, hsend⟩ := update_answered (u := .put row col data) h answer
      exact ⟨r.reply, hr, hsend, .update nofun hspec⟩
  | cput row col oldData newData =>
      obtain ⟨hr, hsend⟩ := update_answered (u := .cput row col oldData newData) h answer
      exact ⟨r.reply, hr, hsend, .update nofun hspec⟩
  | delete row col =>
      obtain ⟨hr, hsend⟩ := update_answered (u := .delete row col) h answer
      exact ⟨r.reply, hr, hsend, .update nofun hspec⟩

/-- What has been put is a text with a line break behind it. -/
theorem texts_answered {m m' : Contents} {response : Str}
    (h : Answered m c response m') (hm : m.Texts)
    (hnul : '\x00' ∉ c.text) : m'.Texts := by
  have hbind : ∀ (k : Key) (data : Str), '\x00' ∉ data → (m.bind k (data ++ crlf)).Texts := by
    intro k data hdata k' d hd
    rw [Contents.bind, Function.update_apply] at hd
    split at hd
    · exact ⟨data, (Option.some.inj hd).symm, hdata⟩
    · exact hm k' d hd
  cases h with
  | found | missing => exact hm
  | update hne hspec =>
      cases c with
      | get row col => exact absurd rfl (hne row col)
      | put row col data =>
          cases hspec with
          | put => exact hbind _ data fun hin => hnul (by simp [Command.text, putText, hin])
      | cput row col oldData newData =>
          cases hspec with
          | cputOk => exact hbind _ newData fun hin => hnul (by simp [Command.text, cputText, hin])
          | cputErr => exact hm
      | delete row col =>
          cases hspec with
          | deleteOk =>
              intro k d hd
              rw [Contents.unbind, Function.update_apply] at hd
              split at hd
              · cases hd
              · exact hm k d hd
          | deleteErr => exact hm

/-- A command leaves the other cells alone. -/
theorem answered_other {m m' : Contents} {response : Str} {k : Key} (h : Answered m c response m')
    (hk : c.target ≠ some k) : m' k = m k := by
  have hne : ∀ {row col : Str}, some (row, col) ≠ some k → k ≠ (row, col) :=
    fun h he => h (he ▸ rfl)
  cases h with
  | found | missing => rfl
  | update hget hspec =>
      cases c with
      | get row col => exact absurd rfl (hget row col)
      | put row col data =>
          cases hspec with
          | put => exact Function.update_of_ne (hne hk) _ _
      | cput row col oldData newData =>
          cases hspec with
          | cputOk => exact Function.update_of_ne (hne hk) _ _
          | cputErr => rfl
      | delete row col =>
          cases hspec with
          | deleteOk => exact Function.update_of_ne (hne hk) _ _
          | deleteErr => rfl

/-- **What was put last** is in the cell. -/
theorem History.latest {m m' : Contents} {later before : List (Command × Str)} {response : Str}
    (h : History m (later ++ (.put row col data, response) :: before) m')
    (hlater : ∀ x ∈ later, x.1.target ≠ some (row, col)) : m' (row, col) = some (data ++ crlf) := by
  induction later generalizing m' with
  | nil =>
      cases h with
      | cons _ hanswered =>
          cases hanswered with
          | update _ hspec =>
              cases hspec with
              | put => exact Function.update_self ..
  | cons x later ih =>
      cases h with
      | cons hbefore hanswered =>
          rw [answered_other hanswered (hlater _ List.mem_cons_self)]
          exact ih hbefore fun y hy => hlater y (List.mem_cons_of_mem _ hy)

/-- A text of one line stands alone between line breaks, unless it is a dot. -/
theorem not_dotLine_of_line (hcr : '\r' ∉ data) (hdot : data ≠ ['.']) :
    ¬ dotLine <:+: crlf ++ data ++ crlf := by
  rintro ⟨u, v, huv⟩
  cases u with
  | nil =>
      cases data with
      | nil => simp [dotLine, crlf] at huv
      | cons c data =>
          obtain ⟨rfl, hbehind⟩ : '.' = c ∧ '\r' :: '\n' :: v = data ++ crlf := by
            simpa [dotLine, crlf] using huv
          cases data with
          | nil => exact hdot rfl
          | cons d data =>
              exact hcr (List.mem_cons_of_mem _
                (List.mem_cons.mpr (Or.inl (List.cons.inj hbehind).1)))
  | cons c u =>
      -- behind the first return there is only one more
      have hcount := congrArg (List.count '\r') huv
      have hnone := List.count_eq_zero.mpr hcr
      have hfirst : c = '\r' := by simpa [crlf] using congrArg List.head? huv
      simp only [List.count_append, List.count_cons, hnone, crlf, dotLine, hfirst,
        List.count_nil] at hcount
      simp at hcount
      omega

/-- A text of one line, without dashes, is readable however it is cut. -/
theorem readsThrough_line {reads : List Str} (hcr : '\r' ∉ data) (hminus : '-' ∉ data)
    (hdot : data ≠ ['.'])
    (hcut : reads.flatten = getReply data) (hne : [] ∉ reads) : ReadsThrough data reads := by
  have hreply : getReply data = "DATA".toList ++ (crlf ++ (data ++ crlf) ++ ['.', '\r', '\n']) := by
    simp [getReply, dotLine, crlf]
  have hfirst : Lib.firstIdx dotLine (getReply data) = some (data.length + 6) := by
    have hpayload :=
      (payload_of_string (not_dotLine_of_line hcr hdot)).firstIdx (a := "DATA".toList)
        (by decide) []
    rw [List.append_nil, ← hreply, List.length_append] at hpayload
    rw [hpayload]
    show some (4 + (data.length + 2)) = _
    congr 1
    omega
  have hquiet : '-' ∉ getReply data := by
    rw [hreply]
    simp [hminus, crlf]
  have hdash : ∀ {pat front : Str}, '-' ∈ pat → front <+: getReply data → ¬ pat <:+: front :=
    fun hpat hfront hin => hquiet (hfront.subset (hin.subset hpat))
  refine ⟨fun hin => hminus (hin.subset (by decide)), fun n hn => ?_, fun n hn hin => ?_⟩
  · obtain ⟨hfront, hshort⟩ := take_front hcut hne hn
    refine Lib.not_infix_front hfirst hfront ?_
    rw [length_getReply] at hshort
    exact hshort
  · exact absurd hin (hdash (by decide) (take_front hcut hne hn).1)

theorem dotLine_dotted (a : Str) {d : Str} (hd : Payload d) : dotLine <:+: dotted a d := by
  obtain ⟨u, v, huv, -⟩ := Lib.firstIdx_split hd
  exact List.IsInfix.trans ⟨u, v, huv.symm⟩ (List.suffix_append a _).isInfix

/-- Any request is taken in if it comes in one piece that fits. -/
theorem cut_whole {q : Request} (hq : q.WF) (hlen : q.text.length < rlen) : Cut q [q.text] := by
  have hends : crlf <:+: q.text :=
    (isLine_request hq).ends.isInfix.trans (List.prefix_append q.line q.rest).isInfix
  refine ⟨[q.text], [], q.rest, rfl, ⟨?_, ?_, ?_⟩, ?_, ?_⟩
  · rwa [List.flatten_singleton]
  · exact (show ¬ crlf <:+: ([] : Str) by decide)
  · rwa [List.flatten_singleton]
  · rw [List.flatten_singleton]
    rfl
  cases q with
  | get row col | delete row col => rfl
  | put row col data =>
      have hin : dotLine <:+: (Request.put row col data).rest := dotLine_dotted "DATA".toList hq.2.2
      obtain ⟨i, hi⟩ := Lib.firstIdx_isSome hin
      exact ⟨_, [], i, ⟨hin, Or.inl ⟨rfl, rfl⟩⟩, hi, rfl⟩
  | cput row col oldData newData =>
      have hrest := rest_cput row col oldData newData
      have hin : dotLine <:+: (Request.cput row col oldData newData).rest :=
        hrest ▸ (dotLine_dotted _ hq.2.2.1).trans (List.prefix_append _ _).isInfix
      have hi : Lib.firstIdx dotLine (Request.cput row col oldData newData).rest
        = some (3 + oldData.length) :=
        hq.2.2.1.firstIdx (a := "OLD".toList) (by decide) _
      have hnew : dotLine <:+: (Request.cput row col oldData newData).rest.drop
        (3 + oldData.length + 3) := by
        rw [hrest, drop_old]
        exact dotLine_dotted _ hq.2.2.2
      obtain ⟨j, hj⟩ := Lib.firstIdx_isSome hnew
      exact ⟨_, [], _, ⟨hin, Or.inl ⟨rfl, rfl⟩⟩, hi, _, [], j, ⟨hnew, Or.inl ⟨rfl, rfl⟩⟩, hj, rfl⟩

/-- A `GET` is taken in, however it is cut. -/
theorem cut_get {reads : List Str} (hq : (Request.get row col).WF)
    (hcut : reads.flatten = (Request.get row col).text)
    (hne : [] ∉ reads) (hlen : (Request.get row col).text.length < rlen) :
      Cut (.get row col) reads := by
  have hline : reads.flatten = (Request.get row col).line := by
    rw [hcut, Request.text, Request.rest, List.append_nil]
  obtain ⟨hreads, hfirst⟩ := Request.isLine hq |>.dropLast hline hne
  refine ⟨reads, [], [], by rw [List.append_nil],
    ⟨?_, hfirst, ?_⟩, by rw [hline, List.append_nil], rfl⟩
  · rw [hline]
    exact (isLine_request hq).ends.isInfix
  · rw [hcut]
    exact hlen

end Senders

/-! ## Runs -/

section Runs

variable {start : Contents} {s : Wire} {x : Exchange} {xs : List Exchange}

/-- A primary whose workers are all idle. -/
structure Wire.Inv (start : Contents) (s : Wire) : Prop where
  primary : s.server.server.primary = true
  back : s.server.backStore.isSome
  idle : ∀ i, s.workers i = { task := [] }
  texts : Contents.Texts s.server.server.table.view
  history : History start s.log s.server.server.table.view

/-- The same log, the commands handled one step each. -/
def Wire.asked (s : Wire) : Asked := ⟨s.server.server, s.log⟩

/-- **An exchange** whose pieces suit is one step of the server, and of the map. -/
theorem Wire.inv_step (hs : s.Inv start) (hx : x.Suits s) :
    ∃ t, s.step x = some t ∧ t.Inv start ∧ s.asked.step x.command = some t.asked := by
  obtain ⟨r, hhandle⟩ : ∃ r, s.server.server.handle x.command.intended.call = .ok r := by
    obtain ⟨r, hserve, -⟩ := (servesAs_iff hs.primary hx.sendable.wf).mpr hx.safe
    exact ⟨r, (serve_eq hs.primary hx.sendable.wf).symm.trans hserve⟩
  obtain ⟨response, hresponse, hsend, hanswered⟩ :=
    command_answered hs.primary hx.sendable.wf hs.texts hx.answered hhandle
  have htext : '\x00' ∉ x.command.intended.text := x.command.text_eq ▸ hx.noNul
  have hturns : ∃ n, 2 * x.command.text.length = n + 3 := by
    obtain ⟨a, ha, -⟩ := Request.isLine hx.sendable.wf
    have hlen : 2 ≤ x.command.text.length := by
      rw [x.command.text_eq, Request.text, show x.command.intended.line = a ++ crlf from ha,
        List.append_assoc, List.length_append, List.length_append, crlf, List.length_cons,
        List.length_cons]
      omega
    exact ⟨2 * x.command.text.length - 3, by omega⟩
  obtain ⟨n, hn⟩ := hturns
  obtain ⟨t, hrun, hserver, hback⟩ := serve_run x.up hs.primary hs.back hx.sendable.wf htext
    ((x.ask.whole _).trans x.command.text_eq) hx.asked hhandle n
  have hidle : Function.update s.workers x.session { task := [] } = s.workers := by
    rw [← hs.idle x.session, Function.update_eq_self]
  refine ⟨⟨t, s.workers, (x.command, response) :: s.log⟩, ?_, ?_, ?_⟩
  · rw [Wire.step, hs.idle]
    simp only [List.length_nil, Nat.zero_add, List.nil_append, hn, hrun,
      Option.bind_some, hresponse, Option.map_some, hidle]
  · refine ⟨?_, hback, hs.idle, ?_, ?_⟩
    · rw [hserver]
      exact (handle_request_cases hs.primary hhandle).frame.1.trans hs.primary
    · rw [hserver]
      exact texts_answered hanswered hs.texts hx.noNul
    · rw [hserver]
      exact .cons hs.history hanswered
  · rw [Asked.step]
    show (s.server.server.send x.command).map _ = _
    rw [hsend]
    exact congrArg (fun v => some (⟨v, (x.command, response) :: s.log⟩ : Asked)) hserver.symm

/--
**The wire does not matter.** From a primary whose cells are texts, any number of
sessions may call their senders in any order: as long as the pieces suit, every call
returns, with what it would return if each command were one step of the server, and
with what a map would return.
-/
theorem answered_over_wire {server : DataServer} (hprimary : server.server.primary = true)
    (hback : server.backStore.isSome) (htexts : Contents.Texts server.server.table.view)
    (hsuits : Lib.Guarded Wire.step (fun s x => x.Suits s) { server := server } xs) :
    ∃ t, Lib.run Wire.step { server := server } xs = some t ∧
      Lib.run Asked.step ⟨server.server, []⟩ (xs.map Exchange.command) = some t.asked ∧
      History server.server.table.view t.log t.server.server.table.view := by
  have hstart : ({ server := server } : Wire).Inv server.server.table.view :=
    ⟨hprimary, hback, fun _ => rfl, htexts, .nil⟩
  obtain ⟨t, hrun, hinv, hasked⟩ := Lib.run_simulated (f := Wire.asked) (g := Exchange.command)
    (fun s x hs hx => Wire.inv_step hs hx) hstart hsuits
  exact ⟨t, hrun, hasked, hinv.history⟩

/-- Two sessions of a user: the one puts a file, and the other its name. -/
def sharedFile : List Exchange :=
  [⟨0, .put ['u'] (contentCol ['1']) (hexText [0, 255]), inOnePiece, eachByte, fun _ => true⟩,
   ⟨1, .cput ['u'] (nameCol ['1']) "NULL".toList ['a'], inOnePiece, inOnePiece, fun _ => false⟩]

/-- An update that is sent in one piece suits. -/
theorem suits_whole {s : Wire} {x : Exchange} (hsendable : x.command.Sendable)
    (hnul : '\x00' ∉ x.command.text)
    (hupdate : x.command.target ≠ none) (hask : x.ask = inOnePiece)
    (hfits : x.command.text.length < rlen)
    (hsafe : PutSafe s.server.server.table x.command.intended) : x.Suits s := by
  refine ⟨hsendable, hnul, hsafe, ?_, ?_⟩
  · have htext := x.command.text_eq
    have hne : x.command.text ≠ [] := by
      obtain ⟨a, ha, -⟩ := isLine_request hsendable.wf
      rw [htext, Request.text, ha]
      simp [crlf]
    have hone : x.ask.cut x.command.text = [x.command.intended.text] := by
      rw [hask, ← htext]
      exact if_neg hne
    rw [hone]
    exact cut_whole hsendable.wf (htext ▸ hfits)
  · cases hc : x.command with
    | get row col =>
        rw [hc] at hupdate
        exact absurd rfl hupdate
    | put | cput | delete => trivial

theorem sharedFile_suits :
    Lib.Guarded Wire.step (fun s x => x.Suits s) { server := promotedServer } sharedFile := by
  refine ⟨suits_whole (by decide) (by decide) (by decide) rfl (by decide +kernel)
    (by decide), fun t _ => ?_⟩
  exact ⟨suits_whole (by decide) (by decide) (by decide) rfl (by decide +kernel) trivial,
    fun _ _ => trivial⟩

theorem promotedServer_texts : Contents.Texts promotedServer.server.table.view := by
  intro k d hd
  cases hd

theorem sharedFile_answered :
    ∃ t, Lib.run Wire.step { server := promotedServer } sharedFile = some t ∧
    t.log.map Prod.snd = [replyOK, replyOK] := by
  obtain ⟨t, hrun, -, -⟩ := answered_over_wire rfl rfl promotedServer_texts sharedFile_suits
  refine ⟨t, hrun, ?_⟩
  have hlog : (Lib.run Wire.step { server := promotedServer } sharedFile).map (fun s =>
    s.log.map Prod.snd)
      = some [replyOK, replyOK] := by decide +kernel
  rw [hrun] at hlog
  exact Option.some.inj hlog

/--
**A file that has been uploaded is downloaded**, by any session and in pieces of any
kind, whatever the sessions have done with other cells in between.
-/
theorem downloaded_over_wire {server : DataServer} (hprimary : server.server.primary = true)
    (hback : server.backStore.isSome) (htexts : Contents.Texts server.server.table.view)
    (hsuits : Lib.Guarded Wire.step (fun s x => x.Suits s) { server := server } xs)
    (hrun : Lib.run Wire.step { server := server } xs = some s) {x : Exchange} {row col : Str}
    {bytes : List UInt8}
    {later before : List (Command × Str)} {response : Str} (hne : bytes ≠ [])
    (hlen : bytes.length < 2 ^ 30)
    (hlog : s.log = later ++ (.put row col (hexText bytes), response) :: before)
    (hlater : ∀ y ∈ later, y.1.target ≠ some (row, col))
    (hx : x.command = .get row col) (hsendable : x.command.Sendable)
    (hnul : '\x00' ∉ x.command.text)
    (hfits : x.command.text.length < rlen)
    (hpieces : ∀ r ∈ x.answer.cut (getReply (hexText bytes)), r.length < getLen) :
    ∃ t text, s.step x = some t ∧ t.log = (x.command, text) :: s.log ∧
      ∀ garbage, convertStrToBinary garbage text = some (.ok (asText bytes)) := by
  have hs : s.Inv server.server.table.view :=
    Lib.inv_of_guarded (fun s x t hs hx h => by
      obtain ⟨t', ht', hinv, -⟩ := Wire.inv_step hs hx
      exact Option.some.inj (ht'.symm.trans h) ▸ hinv)
      ⟨hprimary, hback, fun _ => rfl, htexts, .nil⟩ hsuits hrun
  have hcell : s.server.server.table.view (row, col) = some (hexText bytes ++ crlf) :=
    (hlog ▸ hs.history).latest hlater
  have hcr : '\r' ∉ hexText bytes := notMem_hexText (by decide)
  have hminus : '-' ∉ hexText bytes := notMem_hexText (by decide)
  have hdot : hexText bytes ≠ ['.'] := fun h => notMem_hexText (c := '.') (by decide)
    (h ▸ List.mem_singleton_self _)
  have hcrash : hexText bytes ≠ serverCrash := fun h =>
    notMem_hexText (c := 'S') (by decide) (h ▸ show 'S' ∈ serverCrash by decide)
  have hasked : Cut x.command.intended (x.ask.cut x.command.text) := by
    rw [hx] at hsendable hfits ⊢
    refine cut_get hsendable.wf ((x.ask.whole _).trans (Command.text_eq _)) (x.ask.nonempty _) ?_
    exact (Command.text_eq (.get row col)) ▸ hfits
  have hanswered : ReplyReadable s.server.server.table x.answer x.command := by
    rw [hx]
    intro data hdata
    obtain rfl := List.append_cancel_right (Option.some.inj (hcell.symm.trans hdata))
    exact ⟨hcrash, readsThrough_line hcr hminus hdot (x.answer.whole _) (x.answer.nonempty _),
      hpieces⟩
  obtain ⟨t, ht, hinv, hstep⟩ := Wire.inv_step hs (x := x)
    ⟨hsendable, hnul, by rw [hx]; trivial, hasked, hanswered⟩
  have hsend : s.server.server.send x.command
    = some (hexText bytes, (s.server.server.parseGET row col).server) := by
    rw [hx]
    exact sendGet_data hcell (notMem_hexText (by decide))
      (fun hin => hminus (hin.subset (by decide))) hcrash
  have hlog' : t.asked = ⟨(s.server.server.parseGET row col).server,
    (x.command, hexText bytes) :: s.log⟩ := by
    rw [Asked.step, show s.asked.server.send x.command = _ from hsend] at hstep
    exact (Option.some.inj hstep).symm
  exact ⟨t, hexText bytes, ht, congrArg Asked.log hlog', fun garbage =>
    convertStrToBinary_hexText hne hlen⟩

/-- A third session gets the file byte by byte. -/
def fetched : Exchange := ⟨2, .get ['u'] (contentCol ['1']), eachByte, eachByte, fun _ => true⟩

theorem sharedFile_downloaded :
    ∃ s t text, Lib.run Wire.step { server := promotedServer } sharedFile = some s ∧
    s.step fetched = some t ∧ t.log = (fetched.command, text) :: s.log ∧
    ∀ garbage, convertStrToBinary garbage text = some (.ok (asText [0, 255])) := by
  have hruns : (Lib.run Wire.step { server := promotedServer } sharedFile).map Wire.log =
      some (sharedFile.reverse.map fun x => (x.command, replyOK)) := by decide +kernel
  obtain ⟨s, hrun, hlog⟩ := Option.map_eq_some_iff.mp hruns
  have hcut : s.log = [(.cput ['u'] (nameCol ['1']) "NULL".toList ['a'], replyOK)] ++
      (.put ['u'] (contentCol ['1']) (hexText [0, 255]), replyOK) :: [] := hlog
  have hpieces : ∀ r ∈ fetched.answer.cut (getReply (hexText [0, 255])),
    r.length < getLen := by decide +kernel
  obtain ⟨t, text, ht, hhead, hbytes⟩ :=
    downloaded_over_wire rfl rfl promotedServer_texts sharedFile_suits hrun
    (by decide) (by decide) hcut (by decide) (x := fetched) rfl (by decide) (by decide)
      (by decide +kernel) hpieces
  exact ⟨s, t, text, hrun, ht, hhead, hbytes⟩

end Runs

end PennCloud
