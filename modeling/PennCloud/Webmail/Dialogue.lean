import PennCloud.Lib.Runs
import PennCloud.Proof.MailText
import PennCloud.Webmail.SmtpReplies

/-!
# Sending a mail

`sendto_smpt_server` writes a command and waits in `handle_comm` until it has been
answered; only the lines of the message go out one after the other. What both sides
write arrives in reads of any size, while both are running.

The client's reader is not careful. It takes the greeting in a single `read`, and
`handle_comm` reads to the front of `response` every time, over what the last read
has brought. So an answer whose line end arrives in two reads is never complete,
and a greeting in two reads puts the client one answer ahead of the server for
good.

`Dialogue.Stage` is the invariant: the server has come, line by line, to where some
of the lines written bring it, and the rest of them are on their way. A command is
on its way alone, or behind lines of a message, so that it does not matter how the
lines are cut.
-/

namespace PennCloud

open Str

/-- The size of the client's `response`. -/
def commSize : Nat := 100

/-- What the client writes, with `handle_comm` if it waits for an answer, else with `do_write`. -/
structure ClientWrite where
  bytes : Str
  answered : Bool
  deriving DecidableEq

/-- Everything `sendto_smpt_server` writes. -/
def clientWrites (sender : Str) (rcpts : List Str) (data : Str) : List ClientWrite :=
  (opening sender rcpts).map (⟨·, true⟩) ++ (messageLines data).map (⟨·, false⟩) ++
    [⟨dotCrlf, true⟩, ⟨closing, true⟩]

/-- Where `sendto_smpt_server` is, and what it is still going to write. -/
inductive ClientPc
  /-- At the `read` of the greeting. -/
  | greeting (left : List ClientWrite)
  /-- At the next write. Where there is none it closes the socket and returns. -/
  | writing (left : List ClientWrite)
  /-- In the loop of `handle_comm`. -/
  | waiting (response : Str) (len : Nat) (left : List ClientWrite)
  deriving DecidableEq

/-- The client, the server's session, and what is on its way between them. -/
structure Dialogue where
  client : ClientPc
  up : Str := []
  server : Session := {}
  down : Str := serverReady

inductive DialogueAction
  /-- The client writes. -/
  | write
  /-- A `read` of the client, which brings `n` bytes. -/
  | reply (n : Nat)
  /-- A turn of `worker_thread`, for a `read` that brings `n` bytes. -/
  | serve (n : Nat)
  deriving DecidableEq

namespace Dialogue

/-- A `read` of the client. What has no zero byte left in `response` has no state after it. -/
def reply (n : Nat) : ClientPc → Str → Option ClientPc
  | .greeting left, _ => if n ≤ commSize then some (.writing left) else none
  | .writing _, _ => none
  | .waiting response len left, down =>
    let response := down.take n ++ response.drop n
    if commSize < len + n ∨ commSize ≤ (cstr response).length then none
    else if crlf <:+: cstr response ∨ commSize ≤ len + n then some (.writing left)
    else some (.waiting response (len + n) left)

/--
A step of either side. A `read` brings something; the one of the server fits its
array. What the client does within a turn of the server might as well come after it.
Every mailbox is taken to be there, so the server answers with its `replies`.
-/
def step (d : Dialogue) : DialogueAction → Option Dialogue
  | .write => match d.client with
    | .writing (x :: left) =>
      some { d with
        client := if x.answered then .waiting [] 0 left else .writing left
        up := d.up ++ x.bytes }
    | _ => none
  | .reply n =>
    if 0 < n ∧ n ≤ d.down.length then
      (reply n d.client d.down).map fun c => { d with client := c, down := d.down.drop n }
    else none
  | .serve n =>
    if 0 < n ∧ n ≤ d.up.length then
      (d.server.read (d.up.take n)).map fun t =>
        { d with
          server := t
          up := d.up.drop n
          down := d.down ++ (t.replies.drop d.server.replies.length).flatten }
    else none

/-- The connection has been accepted and the server has written its greeting. -/
def start (writes : List ClientWrite) : Dialogue := { client := .greeting writes }

/-- `sendto_smpt_server` has returned. -/
def Finished (d : Dialogue) : Prop := d.client = .writing []

/-- The first read of the client brings the whole greeting. -/
def Greeted (d : Dialogue) (a : DialogueAction) : Prop :=
  match d.client, a with
  | .greeting _, .reply n => d.down.length ≤ n
  | _, _ => True

/-- No read of the client ends between the two bytes of a line end. -/
def Uncut (d : Dialogue) (a : DialogueAction) : Prop :=
  match a with
  | .reply n => (d.down.take n).getLast? ≠ some '\r'
  | _ => True

instance : ∀ d a, Decidable (Greeted d a)
  | ⟨.greeting _, _, _, down⟩, .reply n => inferInstanceAs (Decidable (down.length ≤ n))
  | ⟨.greeting _, _, _, _⟩, .write | ⟨.greeting _, _, _, _⟩, .serve _ | ⟨.writing _, _, _, _⟩, _
  | ⟨.waiting _ _ _, _, _, _⟩, _ => isTrue trivial

instance (d : Dialogue) : DecidablePred d.Uncut
  | .reply n => inferInstanceAs (Decidable ((d.down.take n).getLast? ≠ some '\r'))
  | .write | .serve _ => isTrue trivial

end Dialogue

theorem clientWrites_bytes (sender : Str) (rcpts : List Str) (data : Str) :
    (clientWrites sender rcpts data).map ClientWrite.bytes = dialogue sender rcpts data := by
  simp [clientWrites, dialogue, Function.comp_def]

/-! ## The server, line by line -/

/-- A reply: one line, which the client has room for. -/
def IsAnswer (r : Str) : Prop :=
  ∃ a, r = a ++ crlf ∧ '\r' ∉ a ∧ '\n' ∉ a ∧ '\x00' ∉ a ∧ a.length + 2 < commSize

namespace Session

/-- The session `s` takes the line, comes to `t`, and replies if the client waits for it. -/
structure Heard (s t : Session) (x : ClientWrite) : Prop where
  isLine : IsLine x.bytes
  noNul : '\x00' ∉ x.bytes
  short : x.bytes.length < buffSize
  read : s.read x.bytes = some t
  answer : if x.answered then ∃ r, IsAnswer r ∧ t.replies = s.replies ++ [r]
    else t.replies = s.replies ∧ s.state = 4 ∧ x.bytes ≠ dotCrlf

/-- Each line, read alone, is heard; the last one ends the session. -/
def Follows : Session → List ClientWrite → Prop
  | s, [] => s.quit = true
  | s, x :: xs => s.Waits s.state ∧ ∃ t, s.Heard t x ∧ t.Follows xs

/-- The bytes of the writes. -/
def flat (xs : List ClientWrite) : Str := (xs.map ClientWrite.bytes).flatten

/-- `s` has handled what `s'` has, read line by line, and has `w` in its buffer. -/
structure Alongside (s s' : Session) (w : Str) : Prop where
  same : s'.load [] = s.load []
  rest : s.quit = false → (∃ z, Zero z ∧ s.buff = w ++ z) ∧ Zero s'.buff

variable {s s' t t' : Session} {w x z up : Str} {c : ClientWrite}
  {flight done left : List ClientWrite}

theorem Alongside.beside (h : s.Alongside s' w) (hq : s.quit = false) : s.Beside s' w :=
  ⟨h.same, (h.rest hq).1, (h.rest hq).2, hq⟩

theorem Beside.alongside (h : s.Beside s' w) : s.Alongside s' w :=
  ⟨h.same, fun _ => ⟨h.buff, h.empty⟩⟩

theorem Alongside.quit (h : s.Alongside s' w) : s.quit = s'.quit :=
  (congrArg Session.quit h.same).symm

theorem Alongside.replies (h : s.Alongside s' w) : s.replies = s'.replies :=
  (congrArg Session.replies h.same).symm

theorem flat_cons (c : ClientWrite) (xs : List ClientWrite) :
    flat (c :: xs) = c.bytes ++ flat xs := rfl

theorem flat_append (xs ys : List ClientWrite) : flat (xs ++ ys) = flat xs ++ flat ys := by
  rw [flat, flat, flat, List.map_append, List.flatten_append]

theorem Follows.append (h : s.Follows (done ++ left)) :
    ∃ t, s.readAll (done.map ClientWrite.bytes) = some t ∧ t.Follows left := by
  induction done generalizing s with
  | nil => exact ⟨s, rfl, h⟩
  | cons c done ih =>
      obtain ⟨-, u, hu, hrest⟩ := h
      obtain ⟨t, ht, hleft⟩ := ih hrest
      exact ⟨t, by rw [List.map_cons, readAll, hu.read, Option.bind_some, ht], hleft⟩

/-- Lines of a message are taken without a word. -/
theorem Follows.silent (h : s.Follows (done ++ left)) (hall : ∀ c ∈ done, c.answered = false)
    (ht : s.readAll (done.map ClientWrite.bytes) = some t) : t.replies = s.replies := by
  induction done generalizing s with
  | nil =>
      obtain rfl := Option.some.inj ht
      rfl
  | cons c done ih =>
      obtain ⟨-, u, hu, hrest⟩ := h
      rw [List.map_cons, readAll, hu.read, Option.bind_some] at ht
      have hanswer := hu.answer
      rw [hall c List.mem_cons_self, if_neg Bool.false_ne_true] at hanswer
      rw [ih hrest (fun c hc => hall c (List.mem_cons_of_mem _ hc)) ht, hanswer.1]

/-- And a command behind them is answered. -/
theorem Follows.answered (h : s.Follows (done ++ c :: left)) (hall : ∀ c ∈ done, c.answered = false)
    (hc : c.answered = true) (ht : s.readAll ((done ++ [c]).map ClientWrite.bytes) = some t) :
    ∃ r, IsAnswer r ∧ t.replies = s.replies ++ [r] := by
  obtain ⟨u, hu, hrest⟩ := h.append
  obtain ⟨-, v, hv, -⟩ := hrest
  rw [List.map_append, readAll_append, hu, Option.bind_some, List.map_singleton, readAll, hv.read,
    Option.bind_some, readAll, Option.some.injEq] at ht
  subst ht
  have hanswer := hv.answer
  rw [hc, if_pos rfl] at hanswer
  obtain ⟨r, hr, hreplies⟩ := hanswer
  exact ⟨r, hr, by rw [hreplies, h.silent hall hu]⟩

/-! ## A turn of the server -/

/-- **A line does what it does alone**, when all that comes behind it is text or nothing. -/
theorem line_alongside (hs : s.Beside s' (c.bytes ++ x))
    (hbuff : s.buff = c.bytes ++ (x ++ z)) (hz : Zero z)
    (hnul : '\x00' ∉ c.bytes ++ x) (hheard : s'.Heard t' c) (hlast : c.answered = true → x = []) :
    ∃ t, s.line c.bytes.length = some t ∧ t'.load [] = t.load [] ∧
    (t.quit = false → Zero t'.buff) := by
  have hwaits : s'.Waits s'.state := ⟨rfl, hs.quit', hs.empty⟩
  obtain ⟨z₁, z₂, hz₁, hz₂, hread⟩ := read_line hwaits hheard.isLine hheard.noNul hheard.short
  obtain ⟨v, hv, ht'⟩ := Option.map_eq_some_iff.mp (hread.symm.trans hheard.read)
  have hfronts : Fronts c.bytes x z z₁ := ⟨hheard.isLine, hnul, hz, hz₁⟩
  have hlong : s.load (c.bytes ++ (x ++ z)) = s := by
    rw [← hbuff]
    rfl
  have hown : s.Own c.bytes.length := by
    rw [← hlong, hfronts.own_iff]
    have hanswer := hheard.answer
    by_cases hc : c.answered = true
    · obtain rfl := hlast hc
      exact ⟨fun _ _ => rfl, by rw [List.append_nil]⟩
    · rw [if_neg hc] at hanswer
      obtain ⟨-, hstate, hdot⟩ := hanswer
      have hfour : s.state = 4 := (congrArg Session.state hs.same).symm.trans hstate
      obtain ⟨hx, hnone⟩ := hfronts.mailboxIn_other (u := s) (by omega) (by omega)
      exact ⟨fun _ h => absurd h hdot, hx.trans hnone.symm⟩
  have hturn := (hs.turn_iff hbuff hfronts).mpr hown
  rw [Visit.turn, Visit.turn, hv] at hturn
  rcases done_of_turn hturn with ⟨-, hnone⟩ | ⟨t, v', ht, hv', hsame⟩
  · cases hnone
  · obtain rfl := Option.some.inj hv'
    have hquit : (t.load []).quit = (v.load []).quit := congrArg Session.quit hsame
    rw [load_quit, load_quit] at hquit
    refine ⟨t, ht, ?_, fun hq => ?_⟩
    · rw [hsame, ← ht']
      split <;> rfl
    · rw [← ht', if_neg (by rw [← hquit, hq]; decide)]
      exact hz₂

/-- What a turn of the server makes of the lines on their way. -/
def Turned (s' : Session) (flight left : List ClientWrite) (up : Str) (t : Session) : Prop :=
  ∃ done flight' w t', flight = done ++ flight' ∧ w ++ up = flat flight' ∧ ¬ crlf <:+: w ∧
    s'.readAll (done.map ClientWrite.bytes) = some t' ∧ t'.Follows (flight' ++ left) ∧
    t.Alongside t' w

/-- A line comes before the others. -/
theorem Turned.cons (hheard : s'.Heard t' c) (h : t'.Turned flight left up t) :
    s'.Turned (c :: flight) left up t := by
  obtain ⟨done, flight', w, u, rfl, hflow, hpart, hread, hfollows, hbeside⟩ := h
  refine ⟨c :: done, flight', w, u, rfl, hflow, hpart, ?_, hfollows, hbeside⟩
  rw [List.map_cons, readAll, hheard.read, Option.bind_some, hread]

/-- Behind `QUIT` there is nothing left. -/
theorem Turned.ended (hq : t.quit = true) (hsame : t'.load [] = t.load [])
    (hrest : t'.Follows (flight ++ left))
    (hflow : x ++ up = flat flight) : t'.Turned flight left up t := by
  have hq' : t'.quit = true := (congrArg Session.quit hsame).trans hq
  cases hall : flight ++ left with
  | cons y ys =>
      rw [hall] at hrest
      exact absurd hq' (by simp [hrest.1.quit])
  | nil =>
      obtain ⟨rfl, rfl⟩ := List.append_eq_nil_iff.mp hall
      obtain ⟨rfl, rfl⟩ := List.append_eq_nil_iff.mp hflow
      exact ⟨[], [], [], t', rfl, rfl, by decide, rfl, hrest, hsame, by simp [hq]⟩

/-- **The inner loop** takes the whole lines off the buffer, each as if it had come alone. -/
theorem drain_alongside : ∀ (fuel : Nat) {s s' : Session} {x : Str} {flight : List ClientWrite},
    x.length ≤ fuel → s.Beside s' x → '\x00' ∉ x → x ++ up = flat flight →
    s'.Follows (flight ++ left) →
    (∀ c ∈ flight.dropLast, c.answered = false) →
    ∃ t, drain fuel s = some t ∧ s'.Turned flight left up t
  | 0, s, s', x, flight, hx, hs, _, hflow, hfollows, _ => by
      obtain rfl := List.eq_nil_of_length_eq_zero (Nat.le_zero.mp hx)
      exact ⟨s, rfl, [], flight, [], s', rfl, hflow, by decide, rfl, hfollows, hs.alongside⟩
  | fuel + 1, s, s', x, flight, hx, hs, hnul, hflow, hfollows, htexts => by
      obtain ⟨z, hz, hbuff⟩ := hs.buff
      rcases line_or_part x with hpart | ⟨l, x, rfl, hl⟩
      · have hcstr : cstr s.buff = x := by
          rw [hbuff]
          exact cstr_row hnul hz
        have hnone : Lib.firstIdx crlf (cstr s.buff) = none := by
          rw [hcstr]
          exact Lib.firstIdx_eq_none.mpr hpart
        refine ⟨s, ?_, [], flight, x, s', rfl, hflow, hpart, rfl, hfollows, hs.alongside⟩
        rw [drain, hnone]
      · cases flight with
        | nil =>
            -- nothing is on its way, so no line is in the buffer
            obtain ⟨a, rfl, -⟩ := hl
            exact absurd (congrArg List.length hflow) (by simp [flat, crlf])
        | cons c flight =>
            obtain ⟨-, t', hheard, hrest⟩ := hfollows
            replace hrest : t'.Follows (flight ++ left) := hrest
            rw [flat_cons, List.append_assoc] at hflow
            obtain rfl := line_unique hl hheard.isLine hflow
            have hflow' := List.append_cancel_left hflow
            have hlast : c.answered = true → x = [] := fun hc => by
              cases flight with
              | nil => exact (List.append_eq_nil_iff.mp hflow').1
              | cons y ys => exact absurd (htexts c (by simp)) (by simp [hc])
            rw [List.append_assoc] at hbuff
            obtain ⟨t, ht, hsame, hempty⟩ := line_alongside hs hbuff hz hnul hheard hlast
            obtain ⟨i, hi, hlen⟩ := hl.firstIdx x
            have hcstr : cstr s.buff = c.bytes ++ x := by
              rw [hbuff, ← List.append_assoc]
              exact cstr_row hnul hz
            rw [drain_line (hcstr ▸ hi), ← hlen, ht, Option.bind_some]
            cases hq : t.quit with
            | true => exact ⟨t, rfl, Turned.cons hheard (Turned.ended hq hsame hrest hflow')⟩
            | false =>
                obtain ⟨z', hz', hclear⟩ := clearBuffer_eq (l := c.bytes) (x := x) hnul hz
                have hbeside : (t.load (clearBuffer t.buff c.bytes.length)).Beside t' x := by
                  rw [(line_cases ht).1, hbuff, hclear]
                  exact ⟨hsame, ⟨z', hz', rfl⟩, hempty hq, hq⟩
                obtain ⟨a, ha, -⟩ := hl
                have htexts' : ∀ y ∈ flight.dropLast, y.answered = false :=
                  fun y hy => htexts y <| by
                  cases flight with
                  | nil => cases hy
                  | cons b bs => exact List.mem_cons_of_mem _ hy
                obtain ⟨u, hu, hturned⟩ := drain_alongside fuel
                  (by rw [ha] at hx; simp [crlf] at hx; omega) hbeside
                  (fun hm => hnul (List.mem_append_right _ hm)) hflow' hrest htexts'
                exact ⟨u, hu, hturned.cons hheard⟩

/-- A read that leaves a zero byte in the array. -/
theorem read_filled (hs : s.Beside s' w) (hnul : '\x00' ∉ w ++ x)
    (hlen : (w ++ x).length < buffSize) :
    ∃ z, Zero z ∧ s.read x = drain (w ++ x).length (s.load (w ++ x ++ z)) := by
  obtain ⟨z, hz, hbuff⟩ := hs.buff
  have hw : '\x00' ∉ w := fun hm => hnul (List.mem_append_left _ hm)
  obtain ⟨z', hz', hfilled⟩ := fill_eq x hw hz
  rw [← hbuff] at hfilled
  have hcstr : cstr (fill s.buff x) = w ++ x := hfilled.symm ▸ cstr_row hnul hz'
  have hcurr : cstr s.buff = w := hbuff.symm ▸ cstr_row hw hz
  have hfits : s.quit = false ∧ (cstr s.buff).length + x.length ≤ buffSize ∧
      (cstr (fill s.buff x)).length < buffSize := by
    rw [hcstr, hcurr]
    rw [List.length_append] at hlen ⊢
    exact ⟨hs.quit, Nat.le_of_lt hlen, hlen⟩
  have hdrain : s.read x = drain (cstr (fill s.buff x)).length (s.load (fill s.buff x)) :=
    if_pos hfits
  exact ⟨z', hz', by rw [hdrain, hcstr, hfilled]⟩

/-- And one that leaves none. -/
theorem length_of_read (hs : s.Beside s' w) (hnul : '\x00' ∉ w ++ x) (h : s.read x = some t) :
    (w ++ x).length < buffSize := by
  obtain ⟨z, hz, hbuff⟩ := hs.buff
  have hw : '\x00' ∉ w := fun hm => hnul (List.mem_append_left _ hm)
  obtain ⟨z', hz', hfilled⟩ := fill_eq x hw hz
  rw [← hbuff] at hfilled
  have hcstr : cstr (fill s.buff x) = w ++ x := hfilled.symm ▸ cstr_row hnul hz'
  by_contra hlen
  have hnone : s.read x = none := if_neg fun hfits => hlen (hcstr ▸ hfits.2.2)
  rw [hnone] at h
  cases h

/-- **A read of the server**, wherever it ends. -/
theorem read_alongside (hs : s.Beside s' w) (hnul : '\x00' ∉ w ++ x)
    (hlen : (w ++ x).length < buffSize)
    (hflow : w ++ x ++ up = flat flight) (hfollows : s'.Follows (flight ++ left))
    (htexts : ∀ c ∈ flight.dropLast, c.answered = false) :
    ∃ t, s.read x = some t ∧ s'.Turned flight left up t := by
  obtain ⟨z, hz, hread⟩ := read_filled hs hnul hlen
  rw [hread]
  exact drain_alongside _ (Nat.le_refl _) ⟨hs.same, ⟨z, hz, rfl⟩, hs.empty, hs.quit⟩ hnul
    hflow hfollows htexts

theorem Follows.noNul (h : s.Follows (flight ++ left)) : '\x00' ∉ flat flight := by
  induction flight generalizing s with
  | nil => exact List.not_mem_nil
  | cons c flight ih =>
      obtain ⟨-, u, hu, hrest⟩ := h
      rw [flat_cons, List.mem_append, not_or]
      exact ⟨hu.noNul, ih hrest⟩

end Session

/-! ## A step of the dialogue -/

namespace Dialogue

/--
The lines `sent` have been handled, `flight` is on its way, `w` of it in the server's
buffer, and `left` is still to be written.
-/
structure Flight (ws sent flight left : List ClientWrite) (s s' : Session) (w up : Str) : Prop where
  parts : ws = sent ++ (flight ++ left)
  read : Session.readAll {} (sent.map ClientWrite.bytes) = some s'
  follows : s'.Follows (flight ++ left)
  alongside : s.Alongside s' w
  flow : w ++ up = Session.flat flight
  part : ¬ crlf <:+: w

/-- What is in the client's `response`; to come are `a` and the line end of the answer. -/
structure Hearing (response a : Str) (len : Nat) : Prop where
  noCr : '\r' ∉ a
  noNl : '\n' ∉ response ++ a
  noNul : '\x00' ∉ response ++ a
  kept : response.length ≤ len
  fits : len + (a.length + 2) < commSize

/-- The same, when only the line feed is to come. -/
structure Parted (response : Str) (len : Nat) : Prop where
  noNl : '\n' ∉ response
  noNul : '\x00' ∉ response
  kept : response.length ≤ len
  fits : len + 1 < commSize

/-- The states in which the client has all its answers, or will have the next one. -/
inductive Stage (ws : List ClientWrite) : Dialogue → Prop
  | greeting (h : Session.Follows {} ws) : Stage ws (start ws)
  | writing {sent flight left : List ClientWrite} {s s' : Session} {w up : Str}
      (h : Flight ws sent flight left s s' w up) (htexts : ∀ c ∈ flight, c.answered = false) :
      Stage ws ⟨.writing left, up, s, []⟩
  | pending {sent flight left : List ClientWrite} {c : ClientWrite} {s s' : Session} {w up : Str}
      (h : Flight ws sent (flight ++ [c]) left s s' w up)
        (htexts : ∀ c ∈ flight, c.answered = false)
      (hc : c.answered = true) : Stage ws ⟨.waiting [] 0 left, up, s, []⟩
  | hearing {sent left : List ClientWrite} {s s' : Session} {response a : Str} {len : Nat}
      (h : Flight ws sent [] left s s' [] []) (hres : Hearing response a len) :
      Stage ws ⟨.waiting response len left, [], s, a ++ crlf⟩

/-- The line end of an answer has been cut in two; the client waits for another one. -/
inductive Lost (ws : List ClientWrite) : Dialogue → Prop
  | cut {sent left : List ClientWrite} {s s' : Session} {response : Str} {len : Nat}
      (h : Flight ws sent [] left s s' [] []) (hres : Parted response len) :
      Lost ws ⟨.waiting response len left, [], s, ['\n']⟩
  | gone {sent left : List ClientWrite} {s s' : Session} {response : Str} {len : Nat}
      (h : Flight ws sent [] left s s' [] []) : Lost ws ⟨.waiting response len left, [], s, []⟩

/-- The steps that a write may still lead to. -/
def cost : List ClientWrite → Nat
  | [] => 0
  | x :: xs => 1 + x.bytes.length + commSize + cost xs

/-- The steps that are still to come at most. -/
def remaining (d : Dialogue) : Nat :=
  d.up.length + d.down.length + match d.client with
    | .greeting left | .writing left => cost left
    | .waiting _ _ left => cost left + if d.down = [] then commSize else 0

variable {ws : List ClientWrite} {d t : Dialogue} {a : DialogueAction} {n : Nat}

/-- What a step leads to: a stage again, nearer to the end, as long as no line end is cut. -/
def Leads (ws : List ClientWrite) (d : Dialogue) (a : DialogueAction) (t : Dialogue) : Prop :=
  (d.Uncut a ∧ Stage ws t ∧ t.remaining < d.remaining) ∨ (¬ d.Uncut a ∧ Lost ws t)

theorem cost_cons (c : ClientWrite) (xs : List ClientWrite) :
    cost (c :: xs) = 1 + c.bytes.length + commSize + cost xs := rfl

theorem leads_write (h : Stage ws d) (ht : d.step .write = some t) : Leads ws d .write t := by
  cases h with
  | greeting h => cases ht
  | pending h htexts hc => cases ht
  | hearing h hres => cases ht
  | @writing sent flight left s s' w up h htexts =>
      cases left with
      | nil => cases ht
      | cons c left =>
          obtain rfl := Option.some.inj ht
          have hflight : Flight ws sent (flight ++ [c]) left s s' w (up ++ c.bytes) :=
            { h with
              parts := by rw [h.parts, List.append_assoc]; rfl
              follows := by rw [List.append_assoc]; exact h.follows
              flow := by
                rw [← List.append_assoc, h.flow, Session.flat_append, Session.flat_cons]
                simp [Session.flat] }
          refine Or.inl ⟨trivial, ?_, ?_⟩
          · cases hc : c.answered with
            | true => exact .pending hflight htexts hc
            | false =>
                refine .writing hflight fun y hy => ?_
                rcases List.mem_append.mp hy with hy | hy
                · exact htexts y hy
                · exact List.mem_singleton.mp hy ▸ hc
          · cases hc : c.answered with
            | true => simp [remaining, cost_cons]; omega
            | false => simp [remaining, cost_cons]; omega

/-- A line end needs a line feed, and one at the front has nothing before it. -/
theorem not_crlf {x : Str} (h : '\n' ∉ x) : ¬ crlf <:+: '\n' :: x := by
  rintro ⟨a, b, hab⟩
  cases a with
  | nil => simp [crlf] at hab
  | cons c a =>
      have hx := (List.cons.inj hab).2
      exact h (hx ▸ by simp [crlf])

theorem not_crlf' {x : Str} (h : '\n' ∉ x) : ¬ crlf <:+: x := fun hin => h (hin.subset (by decide))

/-- What a read has not brought before or behind is not in `response`. -/
theorem notMem_over {c : Char} {response a b : Str} (h : c ∉ response ++ a)
    (hb : c ∈ b → c ∈ a) (n : Nat) :
    c ∉ b ++ response.drop n := by
  rw [List.mem_append, not_or] at h ⊢
  exact ⟨fun hm => h.2 (hb hm), fun hm => h.1 (List.mem_of_mem_drop hm)⟩

section Reply

variable {response a : Str} {len : Nat} (left : List ClientWrite)

/-- A read that leaves the answer without its line end. -/
theorem reply_part (down : Str) (hnl : ¬ crlf <:+: down.take n ++ response.drop n)
    (hnul : '\x00' ∉ down.take n ++ response.drop n) (hres : response.length ≤ len)
    (hn : n ≤ down.length)
    (hlen : len + n < commSize) : reply n (.waiting response len left) down
      = some (.waiting (down.take n ++ response.drop n) (len + n) left) := by
  have hfits : (down.take n ++ response.drop n).length < commSize := by
    rw [List.length_append, List.length_take, List.length_drop]
    omega
  simp only [reply, cstr_eq hnul]
  rw [if_neg (by omega), if_neg (by rw [not_or]; exact ⟨hnl, by omega⟩)]

theorem Hearing.text (h : Hearing response a len) (hn : n ≤ a.length) :
    reply n (.waiting response len left) (a ++ crlf)
      = some (.waiting (a.take n ++ response.drop n) (len + n) left) ∧
    Hearing (a.take n ++ response.drop n) (a.drop n) (len + n) := by
  have hfits := h.fits
  have hkept := h.kept
  have htake : (a ++ crlf).take n = a.take n := List.take_append_of_le_length hn
  have hnl := notMem_over h.noNl (b := a.take n) List.mem_of_mem_take n
  have hnul := notMem_over h.noNul (b := a.take n) List.mem_of_mem_take n
  have hpart := reply_part left (a ++ crlf) (htake ▸ not_crlf' hnl) (htake ▸ hnul) hkept
    (hn.trans (List.prefix_append _ _).length_le) (by omega)
  rw [htake] at hpart
  refine ⟨hpart, fun hm => h.noCr (List.mem_of_mem_drop hm), ?_, ?_, ?_, ?_⟩
  · rw [List.mem_append, not_or]
    exact ⟨hnl, fun hm => h.noNl (List.mem_append_right _ (List.mem_of_mem_drop hm))⟩
  · rw [List.mem_append, not_or]
    exact ⟨hnul, fun hm => h.noNul (List.mem_append_right _ (List.mem_of_mem_drop hm))⟩
  · rw [List.length_append, List.length_take, List.length_drop]
    omega
  · rw [List.length_drop]
    omega

theorem take_cut (a : Str) : (a ++ crlf).take (a.length + 1) = a ++ ['\r'] :=
  List.take_length_add_append 1

/-- A read that cuts the line end. -/
theorem Hearing.cut (h : Hearing response a len) :
    reply (a.length + 1) (.waiting response len left) (a ++ crlf)
      = some (.waiting (a ++ ['\r'] ++ response.drop (a.length + 1)) (len + (a.length + 1)) left) ∧
    Parted (a ++ ['\r'] ++ response.drop (a.length + 1)) (len + (a.length + 1)) := by
  have hfits := h.fits
  have hkept := h.kept
  have hin : ∀ {c}, c ≠ '\r' → c ∈ a ++ ['\r'] → c ∈ a := fun hc hm =>
    (List.mem_append.mp hm).resolve_right fun hm => hc (List.mem_singleton.mp hm)
  have hnl := notMem_over h.noNl (hin (by decide)) (a.length + 1)
  have hnul := notMem_over h.noNul (hin (by decide)) (a.length + 1)
  have hpart := reply_part left (a ++ crlf) (take_cut a ▸ not_crlf' hnl) (take_cut a ▸ hnul) hkept
    (by simp [crlf]) (by omega)
  rw [take_cut] at hpart
  refine ⟨hpart, hnl, hnul, ?_, by omega⟩
  rw [List.length_append, List.length_append, List.length_drop, List.length_singleton]
  omega

/-- The line feed alone ends nothing: it is put to the front. -/
theorem Parted.rest (h : Parted response len) : reply 1 (.waiting response len left) ['\n']
    = some (.waiting ('\n' :: response.drop 1) (len + 1) left) := by
  have hnul : '\x00' ∉ '\n' :: response.drop 1 := fun hm => by
    rcases List.mem_cons.mp hm with hm | hm
    · exact absurd hm (by decide)
    · exact h.noNul (List.mem_of_mem_drop hm)
  exact reply_part left ['\n'] (not_crlf fun hm => h.noNl (List.mem_of_mem_drop hm)) hnul h.kept
    (Nat.le_refl 1) h.fits

/-- A read of all that is to come. -/
theorem Hearing.whole (h : Hearing response a len) :
    reply (a ++ crlf).length (.waiting response len left) (a ++ crlf) = some (.writing left) := by
  have hfits := h.fits
  have hkept := h.kept
  have hlength : (a ++ crlf).length = a.length + 2 := List.length_append
  have hnul : '\x00' ∉ a ++ crlf ++ response.drop (a ++ crlf).length :=
    notMem_over h.noNul (fun hm => (List.mem_append.mp hm).resolve_right (by decide)) _
  have hroom : (a ++ crlf ++ response.drop (a ++ crlf).length).length < commSize := by
    rw [List.length_append, List.length_drop]
    omega
  have hend : crlf <:+: a ++ crlf ++ response.drop (a ++ crlf).length := ⟨a, _, rfl⟩
  simp only [reply, List.take_length, cstr_eq hnul]
  rw [if_neg (by omega), if_pos (Or.inl hend)]

theorem last_whole (a : Str) : ((a ++ crlf).take (a ++ crlf).length).getLast? ≠ some '\r' := by
  rw [List.take_length]
  simp [crlf]

end Reply

/-- **A read of the client** brings part of the answer, or all of it, or cuts its line end. -/
theorem leads_reply (h : Stage ws d) (hg : d.Greeted (.reply n)) (ht : d.step (.reply n) = some t) :
    Leads ws d (.reply n) t := by
  have hn : 0 < n ∧ n ≤ d.down.length := by
    by_contra hn
    rw [step, if_neg hn] at ht
    cases ht
  rw [step, if_pos hn] at ht
  obtain ⟨c, hc, rfl⟩ := Option.map_eq_some_iff.mp ht
  cases h with
  | greeting h =>
      obtain rfl : n = serverReady.length := Nat.le_antisymm hn.2 hg
      obtain rfl : ClientPc.writing ws = c := Option.some.inj hc
      have hflight : Flight ws [] [] ws {} {} [] [] :=
        ⟨rfl, rfl, h, ⟨rfl, fun _ => ⟨⟨[], Session.zero_nil, rfl⟩, Session.zero_nil⟩⟩,
          rfl, by decide⟩
      have hready : (serverReady.take serverReady.length).getLast? ≠ some '\r' := by decide
      refine Or.inl ⟨hready, ?_, ?_⟩
      · rw [start, List.drop_length]
        exact .writing hflight nofun
      · have hpos : 0 < serverReady.length := by decide
        simp only [remaining, start, List.drop_length, List.length_nil]
        omega
  | writing h htexts => exact absurd hn.2 (by simp; omega)
  | pending h htexts hx => exact absurd hn.2 (by simp; omega)
  | @hearing sent left s s' response a len h hres =>
      have hlength : (a ++ crlf).length = a.length + 2 := List.length_append
      have hne : a ++ crlf ≠ [] := by simp [crlf]
      have hle : n ≤ a.length + 2 := hlength ▸ hn.2
      rcases Nat.lt_trichotomy n (a.length + 1) with hlt | rfl | hgt
      · obtain ⟨hreply, hres'⟩ := hres.text left (show n ≤ a.length by omega)
        obtain rfl := Option.some.inj (hreply.symm.trans hc)
        have hdrop : (a ++ crlf).drop n = a.drop n ++ crlf :=
          List.drop_append_of_le_length (by omega)
        have hne' : a.drop n ++ crlf ≠ [] := by simp [crlf]
        have huncut : ((a ++ crlf).take n).getLast? ≠ some '\r' := by
          rw [List.take_append_of_le_length (by omega)]
          exact fun hlast => hres.noCr (List.mem_of_mem_take (List.mem_of_getLast? hlast))
        rw [hdrop]
        refine Or.inl ⟨huncut, .hearing h hres', ?_⟩
        simp only [remaining, if_neg hne, if_neg hne', List.length_append, List.length_drop]
        omega
      · obtain ⟨hreply, hres'⟩ := hres.cut left
        obtain rfl := Option.some.inj (hreply.symm.trans hc)
        have hdrop : (a ++ crlf).drop (a.length + 1) = ['\n'] := List.drop_length_add_append 1
        have hcut : ((a ++ crlf).take (a.length + 1)).getLast? = some '\r' := by
          rw [take_cut, List.getLast?_concat]
        rw [hdrop]
        exact Or.inr ⟨fun huncut => huncut hcut, .cut h hres'⟩
      · obtain rfl : n = (a ++ crlf).length := by omega
        obtain rfl := Option.some.inj ((hres.whole left).symm.trans hc)
        rw [List.drop_length]
        refine Or.inl ⟨last_whole a, .writing h nofun, ?_⟩
        simp only [remaining, if_neg hne, hlength, List.length_nil]
        omega

theorem quit_of_read {s t : Session} {x : Str} (h : s.read x = some t) : s.quit = false := by
  by_contra hquit
  have hnone : s.read x = none := if_neg fun hfits => hquit hfits.1
  rw [hnone] at h
  cases h

section Serve

variable {sent flight left : List ClientWrite} {s s' u : Session} {w up : Str}

/-- **A turn of the server** moves lines from those on their way to those handled. -/
theorem Flight.serve (h : Flight ws sent flight left s s' w up)
    (htexts : ∀ c ∈ flight.dropLast, c.answered = false) (hu : s.read (up.take n) = some u) :
    ∃ done flight' w' u', flight = done ++ flight' ∧
    s'.readAll (done.map ClientWrite.bytes) = some u' ∧
      Flight ws (sent ++ done) flight' left u u' w' (up.drop n) := by
  have hbeside := h.alongside.beside (quit_of_read hu)
  have hcat : w ++ up.take n ++ up.drop n = Session.flat flight := by
    rw [List.append_assoc, List.take_append_drop, h.flow]
  have hnul : '\x00' ∉ w ++ up.take n := fun hm =>
    h.follows.noNul (hcat ▸ List.mem_append_left _ hm)
  obtain ⟨v, hv, done, flight', w', u', rfl, hflow, hpart, hread, hfollows, halong⟩ :=
    Session.read_alongside hbeside hnul (Session.length_of_read hbeside hnul hu) hcat
      h.follows htexts
  obtain rfl := Option.some.inj (hv.symm.trans hu)
  refine ⟨done, flight', w', u', rfl, hread, ?_, ?_, hfollows, halong, hflow, hpart⟩
  · rw [h.parts]
    simp only [List.append_assoc]
  · rw [List.map_append, Session.readAll_append, h.read]
    exact hread

/-- What the server has written in a turn. -/
theorem Flight.replied {sent₁ sent₂ f₁ f₂ : List ClientWrite} {u' : Session} {w₁ w₂ up' : Str}
    {new : List Str} (h : Flight ws sent₁ f₁ left s s' w₁ up)
    (hu : Flight ws sent₂ f₂ left u u' w₂ up')
    (hnew : u'.replies = s'.replies ++ new) :
    (u.replies.drop s.replies.length).flatten = new.flatten := by
  rw [hu.alongside.replies, h.alongside.replies, hnew, List.drop_left]

/-- Nothing, if the lines handled in it are text. -/
theorem Flight.replied_none {sent₁ sent₂ f₁ f₂ : List ClientWrite} {u' : Session} {w₁ w₂ up' : Str}
    (h : Flight ws sent₁ f₁ left s s' w₁ up) (hu : Flight ws sent₂ f₂ left u u' w₂ up')
    (hnew : u'.replies = s'.replies) : (u.replies.drop s.replies.length).flatten = [] :=
  h.replied hu (hnew.trans (List.append_nil _).symm)

theorem dropLast_texts {c : ClientWrite} (h : ∀ c ∈ flight, c.answered = false) :
    ∀ y ∈ (flight ++ [c]).dropLast, y.answered = false := by
  rwa [List.dropLast_concat]

theorem leads_serve (h : Stage ws d) (ht : d.step (.serve n) = some t) :
    Leads ws d (.serve n) t := by
  have hn : 0 < n ∧ n ≤ d.up.length := by
    by_contra hn
    rw [step, if_neg hn] at ht
    cases ht
  rw [step, if_pos hn] at ht
  obtain ⟨u, hu, rfl⟩ := Option.map_eq_some_iff.mp ht
  cases h with
  | greeting h => exact absurd hn.2 (by simp [start]; omega)
  | hearing h hres => exact absurd hn.2 (by simp; omega)
  | @writing sent flight left s s' w up h htexts =>
      obtain ⟨done, flight', w', u', rfl, hread, hflight⟩ :=
        h.serve (fun c hc => htexts c (List.mem_of_mem_dropLast hc)) hu
      have hsilent := h.follows
      rw [List.append_assoc] at hsilent
      have hnone := h.replied_none hflight <|
        hsilent.silent (fun c hc => htexts c (List.mem_append_left _ hc)) hread
      refine Or.inl ⟨trivial, ?_, ?_⟩
      · rw [hnone, List.append_nil]
        exact .writing hflight fun c hc => htexts c (List.mem_append_right _ hc)
      · simp only [remaining, hnone, List.append_nil, List.length_drop, List.length_nil]
        have := hn.2
        dsimp only at this
        omega
  | @pending sent flight left c s s' w up h htexts hc =>
      obtain ⟨done, flight', w', u', hparts, hread, hflight⟩ := h.serve (dropLast_texts htexts) hu
      have hup : (up.drop n).length + n = up.length := by
        rw [List.length_drop]
        exact Nat.sub_add_cancel hn.2
      rcases List.eq_nil_or_concat flight' with rfl | ⟨flight', c', rfl⟩
      · -- the command has been handled, and answered
        rw [List.append_nil] at hparts
        subst hparts
        have hfollows := h.follows
        rw [List.append_assoc] at hfollows
        obtain ⟨r, ⟨a, rfl, hcr, hnl, hnul, hlen⟩, hreplies⟩ := hfollows.answered htexts hc hread
        have hone := h.replied hflight hreplies
        rw [List.flatten_singleton] at hone
        obtain ⟨hw, hdrop⟩ := List.append_eq_nil_iff.mp hflight.flow
        subst hw
        refine Or.inl ⟨trivial, ?_, ?_⟩
        · rw [hone, List.nil_append, hdrop]
          rw [hdrop] at hflight
          exact .hearing hflight ⟨hcr, by simpa using hnl, by simpa using hnul,
            Nat.le_refl _, by omega⟩
        · have hne : a ++ crlf ≠ [] := by simp [crlf]
          have hlength : (a ++ crlf).length = a.length + 2 := by rw [List.length_append]; rfl
          simp only [remaining, hone, List.nil_append, if_neg hne, List.length_nil,
            hlength, if_true]
          omega
      · -- lines of the message only
        rw [List.concat_eq_append] at hparts hflight
        rw [← List.append_assoc] at hparts
        obtain ⟨rfl, hlast⟩ := List.append_inj' hparts rfl
        obtain rfl := List.singleton_inj.mp hlast
        have hfollows := h.follows
        rw [List.append_assoc, List.append_assoc] at hfollows
        have hnone := h.replied_none hflight <|
          hfollows.silent (fun c hc => htexts c (List.mem_append_left _ hc)) hread
        refine Or.inl ⟨trivial, ?_, ?_⟩
        · rw [hnone, List.append_nil]
          exact .pending hflight (fun c hc => htexts c (List.mem_append_right _ hc)) hc
        · simp only [remaining, hnone, List.append_nil, List.length_nil, if_true]
          omega

/-- The server is not stuck while a command is on its way. -/
theorem Flight.can_serve {c : ClientWrite} (h : Flight ws sent (flight ++ [c]) left s s' w up)
    (htexts : ∀ c ∈ flight, c.answered = false) : up ≠ [] ∧ ∃ u, s.read (up.take 1) = some u := by
  have hfollows := h.follows
  obtain ⟨x, xs, hflight⟩ := List.exists_cons_of_ne_nil (show flight ++ [c] ≠ [] by simp)
  rw [hflight] at hfollows
  obtain ⟨hwaits, v, hheard, -⟩ := hfollows
  have hflow := h.flow
  rw [hflight, Session.flat_cons] at hflow
  rcases line_split hheard.isLine hflow with ⟨hin, -⟩ | ⟨-, y, hy, hx, hup⟩
  · exact absurd hin h.part
  have hne : up ≠ [] := by
    rw [hup]
    simp [hy]
  have hopen : s.quit = false := h.alongside.quit.trans hwaits.quit
  have hcat : w ++ up.take 1 ++ up.drop 1 = Session.flat (flight ++ [c]) := by
    rw [List.append_assoc, List.take_append_drop, h.flow]
  have hlen : (w ++ up.take 1).length < buffSize := by
    have hshort := hheard.short
    have hpos := List.length_pos_iff.mpr hy
    rw [hx, List.length_append] at hshort
    rw [List.length_append, List.length_take]
    omega
  obtain ⟨u, hu, -⟩ := Session.read_alongside (h.alongside.beside hopen)
    (fun hm => h.follows.noNul (hcat ▸ List.mem_append_left _ hm)) hlen hcat h.follows
      (dropLast_texts htexts)
  exact ⟨hne, u, hu⟩

end Serve

/-! ## Runs -/

theorem leads (h : Stage ws d) (hg : d.Greeted a) (ht : d.step a = some t) : Leads ws d a t := by
  cases a with
  | write => exact leads_write h ht
  | reply n => exact leads_reply h hg ht
  | serve n => exact leads_serve h ht

/-- **Somebody can go on**, without cutting a line end, until the client has returned. -/
theorem can_step (h : Stage ws d) (hd : ¬ d.Finished) :
    ∃ a t, d.Greeted a ∧ d.Uncut a ∧ d.step a = some t := by
  cases h with
  | greeting h =>
      have hready : (serverReady.take serverReady.length).getLast? ≠ some '\r' := by decide
      exact ⟨.reply serverReady.length, _, Nat.le_refl _, hready, rfl⟩
  | @writing sent flight left s s' w up h htexts =>
      cases left with
      | nil => exact absurd rfl hd
      | cons c left => exact ⟨.write, _, trivial, trivial, rfl⟩
  | pending h htexts hc =>
      obtain ⟨hne, u, hu⟩ := h.can_serve htexts
      exact ⟨.serve 1, _, trivial, trivial,
        (if_pos ⟨Nat.one_pos, List.length_pos_iff.mpr hne⟩).trans (congrArg (Option.map _) hu)⟩
  | @hearing sent left s s' response a len h hres =>
      exact ⟨.reply (a ++ crlf).length, _, trivial, last_whole a,
        (if_pos ⟨by simp [crlf], Nat.le_refl _⟩).trans (congrArg (Option.map _) (hres.whole left))⟩

/-- A dialogue in which a line end has been cut is over, but for that line feed. -/
theorem Lost.step (h : Lost ws d) (ht : d.step a = some t) : Lost ws t := by
  cases h with
  | gone h =>
      cases a with
      | write => cases ht
      | reply n => exact absurd ht (by rw [Dialogue.step, if_neg (by simp; omega)]; exact nofun)
      | serve n => exact absurd ht (by rw [Dialogue.step, if_neg (by simp; omega)]; exact nofun)
  | cut h hres =>
      cases a with
      | write => cases ht
      | serve n => exact absurd ht (by rw [Dialogue.step, if_neg (by simp; omega)]; exact nofun)
      | reply n =>
          rw [Dialogue.step] at ht
          split at ht
          · rename_i hn
            obtain rfl : n = 1 := Nat.le_antisymm hn.2 hn.1
            rw [hres.rest] at ht
            exact Option.some.inj ht ▸ .gone h
          · cases ht

theorem Lost.not_finished (h : Lost ws d) : ¬ d.Finished := by
  cases h <;> exact nofun

/-- Where a run leads. -/
theorem run_leads : ∀ {as : List DialogueAction} {d t : Dialogue}, Stage ws d →
    Lib.Guarded step Greeted d as → Lib.run step d as = some t →
    (Lib.Guarded step Uncut d as ∧ Stage ws t ∧ as.length + t.remaining ≤ d.remaining) ∨
      (¬ Lib.Guarded step Uncut d as ∧ Lost ws t)
  | [], d, t, hd, _, hrun => by
      obtain rfl := Option.some.inj hrun
      exact Or.inl ⟨trivial, hd, by rw [List.length_nil, Nat.zero_add]⟩
  | a :: as, d, t, hd, hg, hrun => by
      obtain ⟨u, hu, hrest⟩ := Lib.run_cons hrun
      rcases leads hd hg.1 hu with ⟨huncut, hstage, hless⟩ | ⟨hcut, hlost⟩
      · rcases run_leads hstage (hg.2 u hu) hrest with ⟨hall, hstage', hle⟩ | ⟨hcut, hlost⟩
        · refine Or.inl ⟨⟨huncut, fun v hv => ?_⟩, hstage', ?_⟩
          · exact Option.some.inj (hu.symm.trans hv) ▸ hall
          · rw [List.length_cons]
            omega
        · exact Or.inr ⟨fun hall => hcut (hall.2 u hu), hlost⟩
      · exact Or.inr ⟨fun hall => hcut hall.1,
          Lib.inv_of_run (fun _ _ _ h ht => h.step ht) hlost hrest⟩

/-- **A dialogue can be brought to its end** from any stage. -/
theorem can_finish (n : Nat) : ∀ {d : Dialogue}, d.remaining ≤ n → Stage ws d →
    ∃ as t, Lib.run step d as = some t ∧ t.Finished := by
  induction n with
  | zero =>
      intro d hn hd
      refine ⟨[], d, rfl, ?_⟩
      by_contra hfin
      obtain ⟨a, t, hg, huncut, ht⟩ := can_step hd hfin
      rcases leads hd hg ht with ⟨-, -, hless⟩ | ⟨hcut, -⟩
      · omega
      · exact hcut huncut
  | succ n ih =>
      intro d hn hd
      by_cases hfin : d.Finished
      · exact ⟨[], d, rfl, hfin⟩
      obtain ⟨a, u, hg, huncut, hu⟩ := can_step hd hfin
      rcases leads hd hg hu with ⟨-, hstage, hless⟩ | ⟨hcut, -⟩
      · obtain ⟨as, t, hrun, ht⟩ := ih (by omega) hstage
        exact ⟨a :: as, t, by rw [Lib.run, hu, Option.bind_some, hrun], ht⟩
      · exact absurd huncut hcut

/-! ## The server's side -/

variable {sent flight left : List ClientWrite} {s s' u : Session} {w up : Str}

theorem Flight.behind (h : Flight ws sent flight left s s' w up)
    (hu : Session.readAll {} (ws.map ClientWrite.bytes) = some u) :
    s'.readAll ((flight ++ left).map ClientWrite.bytes) = some u := by
  rw [h.parts, List.map_append, Session.readAll_append, h.read] at hu
  exact hu

/-- The server has not handled more than the lines alone would make it handle. -/
theorem Flight.handled (h : Flight ws sent flight left s s' w up)
    (hu : Session.readAll {} (ws.map ClientWrite.bytes) = some u) : s.handled <+: u.handled := by
  have hsame : s.handled = s'.handled := (congrArg Session.handled h.alongside.same).symm
  rw [hsame]
  exact Session.readAll_handled (h.behind hu)

/-- Where the last line is answered, nothing is on its way when the client returns. -/
theorem Flight.at_end (h : Flight ws sent flight [] s s' w up)
    (htexts : ∀ c ∈ flight, c.answered = false)
    (hlast : ∀ c ∈ ws.getLast?, c.answered = true)
    (hu : Session.readAll {} (ws.map ClientWrite.bytes) = some u) : s.handled = u.handled := by
  have hparts := h.parts
  rw [List.append_nil] at hparts
  rcases List.eq_nil_or_concat flight with rfl | ⟨flight, c, rfl⟩
  · obtain rfl := Option.some.inj (h.behind hu)
    exact (congrArg Session.handled h.alongside.same).symm
  · rw [List.concat_eq_append] at hparts htexts
    have hend : ws.getLast? = some c := by
      rw [hparts, ← List.append_assoc, List.getLast?_concat]
    have hanswered := hlast c hend
    rw [htexts c (List.mem_append_right _ List.mem_cons_self)] at hanswered
    cases hanswered

/--
**The server ends as it does line by line**, whatever the order in which the two sides
come on and wherever what they write is cut; on the way it has handled no more.
-/
theorem handled_of_run (hfollows : Session.Follows {} ws)
    (hlast : ∀ c ∈ ws.getLast?, c.answered = true)
    (hu : Session.readAll {} (ws.map ClientWrite.bytes) = some u) {as : List DialogueAction}
    (hg : Lib.Guarded step Greeted (start ws) as) (hrun : Lib.run step (start ws) as = some d) :
    d.server.handled <+: u.handled ∧ (d.Finished → d.server.handled = u.handled) := by
  rcases run_leads (.greeting hfollows) hg hrun with ⟨-, hstage, -⟩ | ⟨-, hlost⟩
  · cases hstage with
    | greeting h => exact ⟨List.nil_prefix, nofun⟩
    | pending h htexts hc => exact ⟨h.handled hu, nofun⟩
    | hearing h hres => exact ⟨h.handled hu, nofun⟩
    | writing h htexts =>
        refine ⟨h.handled hu, fun hfin => ?_⟩
        obtain rfl := ClientPc.writing.inj hfin
        exact h.at_end htexts hlast hu
  · refine ⟨?_, fun hfin => absurd hfin hlost.not_finished⟩
    cases hlost with
    | cut h hres => exact h.handled hu
    | gone h => exact h.handled hu

/-- **The client can come to its end** exactly if no line end has been cut. -/
theorem ends_iff (hfollows : Session.Follows {} ws) {as : List DialogueAction}
    (hg : Lib.Guarded step Greeted (start ws) as) (hrun : Lib.run step (start ws) as = some d) :
    ((∃ bs t, Lib.run step d bs = some t ∧ t.Finished) ↔ Lib.Guarded step Uncut (start ws) as) ∧
      (Lib.Guarded step Uncut (start ws) as → as.length ≤ (start ws).remaining) := by
  rcases run_leads (.greeting hfollows) hg hrun with ⟨huncut, hstage, hle⟩ | ⟨hcut, hlost⟩
  · exact ⟨iff_of_true (can_finish _ (Nat.le_refl _) hstage) huncut, fun _ => by omega⟩
  · refine ⟨iff_of_false ?_ hcut, fun h => absurd h hcut⟩
    rintro ⟨bs, t, hbs, hfin⟩
    exact (Lib.inv_of_run (fun _ _ _ h ht => h.step ht) hlost hbs).not_finished hfin

end Dialogue

end PennCloud
