import PennCloud.Lib.Threads
import PennCloud.Store.Handlers
import PennCloud.Webmail.MailList

/-!
# One mailbox under deliveries and deletions

`handle_data` delivers a mail by putting its hash on the mailbox's list, with a
`GET` and a `CPUT` that are repeated until the `CPUT` succeeds, and then storing
the mail. `update_backend` deletes mails by taking their hashes off the list in
the same way, and then the mails. Two requests do not compare: a list that is not
there is created with `PUT`, and one that would become empty is removed with
`DELETE`.

`Mailbox.next_cases` sums up what one step of either can do to the list. It rests
on what a delivery or deletion has read: a `CPUT` that succeeds has compared with
the very list text that the new one was made of.
-/

namespace PennCloud

open Str

/-- The two mailboxes of a user. -/
inductive Box
  | inbox
  | outbox
  deriving DecidableEq, Repr

namespace Box

/-- What the columns of the mailbox begin with. -/
def path : Box → Str
  | inbox => "mail/inbox/".toList
  | outbox => "mail/outbox/".toList

/-- The column of the list. -/
def listCol (box : Box) : Str := box.path ++ ['l', 'i', 's', 't']

/-- The column of a mail. -/
def mailCol (box : Box) (hash : Str) : Str := box.path ++ hash

/-- A column says which mailbox it is in. -/
theorem path_append {box box' : Box} {x y : Str} (he : box.path ++ x = box'.path ++ y) :
    box = box' ∧ x = y := by
  have hlong : ∀ b : Box, 6 ≤ b.path.length := by
    intro b
    cases b <;> decide
  have hfront := congrArg (List.take 6) he
  rw [List.take_append_of_le_length (hlong box),
    List.take_append_of_le_length (hlong box')] at hfront
  obtain rfl : box = box' := by
    cases box <;> cases box' <;> first | rfl | exact absurd hfront (by decide)
  exact ⟨rfl, List.append_cancel_left he⟩

theorem mailCol_ne (box box' : Box) (h : Hash) : box.mailCol h.text ≠ box'.listCol := by
  intro he
  have hlen := congrArg List.length (path_append he).2
  rw [h.length] at hlen
  exact absurd hlen (by decide)

theorem mailCol_inj {box box' : Box} {h g : Hash} (he : box.mailCol h.text = box'.mailCol g.text) :
    box = box' ∧ h = g := ⟨(path_append he).1, Hash.ext_text (path_append he).2⟩

end Box

/-- What `do_read` makes of a reply: the lines between `DATA` and the dot line, or the one line. -/
def response (reply : Str) : Str :=
  if "DATA\r\n".toList <+: reply then (reply.drop 6).take (reply.length - 9) else reply

/-- `sendto_backend`, the server handling the request as one step; `none` is a server that dies. -/
def Server.ask (s : Server) (q : Request) : Option (Str × Server) :=
  match s.handle q.call with
  | .error _ => none
  | .ok r => some (response r.reply, r.server)

/-- `response.compare(1, n, text) == 0`; `none` where it throws. -/
def compare1 (response text : Str) : Option Bool :=
  if response = [] then none else some ((response.drop 1).take text.length = text)

/-- A mailbox's data server, and what its clients have done. -/
structure Mailbox where
  server : Server
  /-- The hashes put on the list, the latest first. -/
  delivered : List Hash := []
  /-- The hashes that deletions have asked to remove. -/
  asked : List Hash := []

/-- Where a delivery or a deletion stands. -/
inductive MailPc
  /-- `handle_data`, about to get the list. -/
  | get (h : Hash) (mail : Str)
  /-- There is no list: about to put one. -/
  | create (h : Hash) (mail : Str)
  /-- About to compare and put the list that was read. -/
  | cput (h : Hash) (mail response : Str)
  /-- About to store the mail. -/
  | store (h : Hash) (mail : Str)
  /-- `update_backend`, about to get the list. -/
  | getList (del : List Hash)
  /-- Nothing but the mark would be left: about to delete the list. -/
  | deleteList (del : List Hash)
  /-- About to compare and put what is left. -/
  | cputList (del : List Hash) (response : Str)
  /-- About to delete the mails. -/
  | deleteMails (del : List Hash)
  | done

/-- A delivery or a deletion. -/
inductive MailCall
  | deliver (h : Hash) (mail : Str)
  | update (del : List Hash)

def MailCall.start : MailCall → MailPc
  | deliver h mail => .get h mail
  | update del => .getList del

namespace Mailbox

/-- The next request of a delivery or deletion on the mailbox `box` of `row`. -/
def next (row : Str) (box : Box) (s : Mailbox) : MailPc → Option (Mailbox × MailPc)
  | .get h mail => (s.server.ask (.get row box.listCol)).bind fun r =>
    (compare1 r.1 ['E', 'R', 'R']).map fun err =>
      ({ s with server := r.2 }, if err then .create h mail else .cput h mail r.1)
  | .create h mail => (s.server.ask (.put row box.listCol listMark)).map fun r =>
    ({ s with server := r.2 }, .get h mail)
  | .cput h mail old =>
    (s.server.ask (.cput row box.listCol old (prependHash h.text old))).bind fun r =>
      (compare1 r.1 ['O', 'K']).map fun ok =>
        if ok then ({ s with server := r.2, delivered := h :: s.delivered }, .store h mail)
        else ({ s with server := r.2 }, .get h mail)
  | .store h mail => (s.server.ask (.put row (box.mailCol h.text) mail)).map fun r =>
    ({ s with server := r.2 }, .done)
  | .getList del => (s.server.ask (.get row box.listCol)).map fun r =>
    ({ s with server := r.2, asked := del ++ s.asked },
      if updateHash r.1 (del.map Hash.text) = listMark then .deleteList del
      else .cputList del r.1)
  | .deleteList del => (s.server.ask (.delete row box.listCol)).map fun r =>
    ({ s with server := r.2 }, .deleteMails del)
  | .cputList del old => (s.server.ask
      (.cput row box.listCol old (updateHash old (del.map Hash.text)))).bind fun r =>
    (compare1 r.1 ['O', 'K']).map fun ok =>
      ({ s with server := r.2 }, if ok then .deleteMails del else .getList del)
  | .deleteMails [] => some (s, .done)
  | .deleteMails (h :: del) => (s.server.ask (.delete row (box.mailCol h.text))).map fun r =>
    ({ s with server := r.2 }, .deleteMails del)
  | .done => none

/-- A delivery or deletion begins, or sends its next request. -/
abbrev step (row : Str) (box : Box) :
    Lib.Threads Mailbox MailPc → Lib.Turn MailCall → Option (Lib.Threads Mailbox MailPc) :=
  Lib.Threads.step MailCall.start (next row box)

/-- The contents of the list cell. -/
def list (row : Str) (box : Box) (s : Mailbox) : Option Str := s.server.table.at? row box.listCol

end Mailbox

/-! ## What a request does to a cell -/

section Ask

variable {s t : Server} {row col : Str} {reply : Str}

theorem response_data (d : Str) : response ("DATA\r\n".toList ++ d ++ ['.', '\r', '\n']) = d := by
  have hdata : "DATA\r\n".toList <+: "DATA\r\n".toList ++ d ++ ['.', '\r', '\n'] :=
    ⟨d ++ ['.', '\r', '\n'], by simp⟩
  rw [response, if_pos hdata]
  simp

/-- A `GET` changes nothing and returns the contents, or an error line. -/
theorem ask_get (h : s.ask (.get row col) = some (reply, t)) : t = s ∧
    (s.table.at? row col = some reply ∨
      s.table.at? row col = none ∧ (reply = replyNullRow ∨ reply = replyNullCol)) := by
  have hnullRow : response replyNullRow = replyNullRow := if_neg (by decide)
  have hnullCol : response replyNullCol = replyNullCol := if_neg (by decide)
  obtain ⟨rfl, rfl⟩ := Prod.mk.inj (Option.some.inj h)
  unfold Server.parseGET
  split
  · rename_i hrow
    exact ⟨rfl, Or.inr ⟨Nested.at?_of_not_hasRow col (by simpa using hrow), Or.inl hnullRow⟩⟩
  · cases hat : s.table.at? row col with
    | none => exact ⟨rfl, Or.inr ⟨rfl, Or.inr hnullCol⟩⟩
    | some d => exact ⟨rfl, Or.inl (congrArg some (response_data d).symm)⟩

/-- A `PUT` binds its cell. -/
theorem ask_put {data : Str} (h : s.ask (.put row col data) = some (reply, t)) (r c : Str) :
    t.table.at? r c = if r = row ∧ c = col then some data else s.table.at? r c := by
  by_cases hnull : NullPut s.table row col
  · rw [Server.ask, Request.call, Server.handle, parsePUT_fault data hnull] at h
    cases h
  · rw [Server.ask, Request.call, Server.handle, parsePUT_eq data hnull] at h
    cases h
    exact Nested.at?_set s.table row col data r c

/-- A `CPUT` binds its cell and confirms, or changes nothing and refuses. -/
theorem ask_cput {oldData newData : Str}
    (h : s.ask (.cput row col oldData newData) = some (reply, t)) :
    (CputHolds s.table.view (row, col) oldData ∧ compare1 reply ['O', 'K'] = some true ∧
      ∀ r c, t.table.at? r c = if r = row ∧ c = col then some newData else s.table.at? r c) ∨
    (¬ CputHolds s.table.view (row, col) oldData ∧ compare1 reply ['O', 'K'] = some false ∧
      t = s) := by
  obtain ⟨rfl, rfl⟩ := Prod.mk.inj (Option.some.inj h)
  rw [parseCPUT_eq]
  split
  · rename_i hholds
    exact Or.inl ⟨hholds, rfl, Nested.at?_set s.table row col newData⟩
  · rename_i hnot
    exact Or.inr ⟨hnot, rfl, rfl⟩

/-- A `DELETE` leaves its cell unbound and the others as they are. -/
theorem ask_delete (h : s.ask (.delete row col) = some (reply, t)) (r c : Str) :
    t.table.at? r c = if r = row ∧ c = col then none else s.table.at? r c := by
  obtain ⟨-, rfl⟩ := Prod.mk.inj (Option.some.inj h)
  rcases parseDELE_cases s row col with ⟨d, -, hdel⟩ | ⟨hat, reply, -, hdel⟩
  · rw [hdel]
    exact Nested.at?_eraseCol s.table row col r c
  · rw [hdel]
    split
    · rename_i hrc
      rw [hrc.1, hrc.2]
      exact hat
    · rfl

end Ask

/-! ## What a step does to the list -/

namespace Mailbox

variable {row : Str} {box : Box} {s t : Mailbox} {p q : MailPc}

/-- The list is absent or a list text. -/
def IsList (row : Str) (box : Box) (s : Mailbox) : Prop :=
  s.list row box = none ∨ ∃ hs, s.list row box = some (listText hs)

/-- What a deletion or delivery has read was a list text, and what it removes has been asked for. -/
def HasRead (s : Mailbox) : MailPc → Prop
  | .cput _ _ old => ∃ hs, old = listText hs
  | .cputList del old => (old = replyNullRow ∨ old = replyNullCol ∨ ∃ hs, old = listText hs) ∧
      del ⊆ s.asked
  | .deleteList del => del ⊆ s.asked
  | _ => True

/-- What a step does to the list and to the records of what was delivered and asked for. -/
inductive Did (row : Str) (box : Box) (s t : Mailbox) (p : MailPc) : Prop
  /-- The list stays. -/
  | kept (hlist : t.list row box = s.list row box) (hdelivered : t.delivered = s.delivered)
      (hasked : s.asked ⊆ t.asked)
  /-- A delivery puts an empty list. -/
  | created (hp : ∃ h mail, p = .create h mail) (hlist : t.list row box = some (listText []))
      (hdelivered : t.delivered = s.delivered) (hasked : t.asked = s.asked)
  /-- A delivery puts its hash on the list. -/
  | added (h : Hash) (hs : List Hash) (hold : s.list row box = some (listText hs))
      (hlist : t.list row box = some (listText (h :: hs.erase h)))
      (hdelivered : t.delivered = h :: s.delivered) (hasked : t.asked = s.asked)
  /-- A deletion takes hashes off the list. -/
  | removed (del hs : List Hash) (hold : s.list row box = some (listText hs))
      (hlist : t.list row box = some (listText (hs.filter (· ∉ del)))) (hdel : del ⊆ s.asked)
      (hdelivered : t.delivered = s.delivered) (hasked : t.asked = s.asked)
  /-- A deletion deletes the list. -/
  | deleted (del : List Hash) (hp : p = .deleteList del) (hlist : t.list row box = none)
      (hdel : del ⊆ s.asked) (hdelivered : t.delivered = s.delivered) (hasked : t.asked = s.asked)

/-- A list text is neither the text of an absent list nor an error line. -/
theorem listText_ne {r : Str} (hr : 't' ∉ r) (hs : List Hash) : listText hs ≠ r := fun he =>
  hr (he ▸ by simp [listText, listMark])

/-- A list that is there is a list text. -/
theorem IsList.text (hs : s.IsList row box) {r : Str} (h : s.list row box = some r) :
    ∃ hs, r = listText hs := by
  rcases hs with hnone | ⟨hs, hsome⟩
  · exact absurd (h.symm.trans hnone) (by simp)
  · exact ⟨hs, Option.some.inj (h.symm.trans hsome)⟩

/-- A mail's own cell is never the list's. -/
theorem listCell_ne (row : Str) (box : Box) (m : Hash) :
    ¬ (row = row ∧ box.listCol = box.mailCol m.text) := fun he =>
  box.mailCol_ne box m he.2.symm

/-- What a `GET` of the list returns. -/
theorem get_cases (hs : s.IsList row box) {r : Str} {v : Server}
    (h : s.server.ask (.get row box.listCol) = some (r, v)) : v = s.server ∧
    (r = replyNullRow ∨ r = replyNullCol ∨ ∃ hs, r = listText hs) ∧
    (compare1 r ['E', 'R', 'R'] = some false → ∃ hs, r = listText hs) := by
  obtain ⟨rfl, hat | ⟨-, rfl | rfl⟩⟩ := ask_get h
  · obtain ⟨hs, hr⟩ := hs.text hat
    exact ⟨rfl, Or.inr (Or.inr ⟨hs, hr⟩), fun _ => ⟨hs, hr⟩⟩
  · exact ⟨rfl, Or.inl rfl, fun he => absurd he (by decide)⟩
  · exact ⟨rfl, Or.inr (Or.inl rfl), fun he => absurd he (by decide)⟩

/-- A `CPUT` on the list succeeds on the very text that was read. -/
theorem cput_cases (hs : s.IsList row box) {old new r : Str} {v : Server}
    (hold : old = replyNullRow ∨ old = replyNullCol ∨ ∃ hs, old = listText hs)
    (h : s.server.ask (.cput row box.listCol old new) = some (r, v)) :
    (∃ hs, old = listText hs ∧ s.list row box = some (listText hs) ∧
      v.table.at? row box.listCol = some new ∧ compare1 r ['O', 'K'] = some true) ∨
    (v = s.server ∧ compare1 r ['O', 'K'] = some false) := by
  rcases ask_cput h with ⟨hholds, hok, hat⟩ | ⟨-, hno, hv⟩
  · refine Or.inl ?_
    have hlist : s.list row box = some old := by
      rcases hholds with ⟨-, hnull⟩ | hsome
      · -- neither an error line nor a list text asks for an absent cell
        rcases hold with rfl | rfl | ⟨hs, rfl⟩
        · exact absurd hnull (by decide)
        · exact absurd hnull (by decide)
        · exact absurd hnull (listText_ne (by decide) hs)
      · exact hsome
    have hnew : v.table.at? row box.listCol = some new := by rw [hat, if_pos ⟨rfl, rfl⟩]
    obtain ⟨hs', rfl⟩ := hs.text hlist
    exact ⟨hs', rfl, hlist, hnew, hok⟩
  · exact Or.inr ⟨hv, hno⟩

/-- **What a step can do**, and what its thread has read then. -/
theorem next_cases (hs : s.IsList row box) (hp : s.HasRead p) (h : s.next row box p = some (t, q)) :
    Did row box s t p ∧ t.HasRead q := by
  cases p with
  | get m mail =>
      rw [next] at h
      obtain ⟨⟨r, v⟩, hask, h⟩ := Option.bind_eq_some_iff.mp h
      obtain ⟨err, herr, h⟩ := Option.map_eq_some_iff.mp h
      obtain ⟨rfl, -, hread⟩ := get_cases hs hask
      cases h
      refine ⟨.kept rfl rfl (List.Subset.refl _), ?_⟩
      cases err with
      | true => exact trivial
      | false => exact hread herr
  | create m mail =>
      rw [next] at h
      obtain ⟨⟨r, v⟩, hask, h⟩ := Option.map_eq_some_iff.mp h
      cases h
      exact ⟨.created ⟨m, mail, rfl⟩ ((ask_put hask _ _).trans (if_pos ⟨rfl, rfl⟩))
        rfl rfl, trivial⟩
  | cput m mail old =>
      obtain ⟨hs', rfl⟩ := hp
      rw [next] at h
      obtain ⟨⟨r, v⟩, hask, h⟩ := Option.bind_eq_some_iff.mp h
      obtain ⟨ok, hok, h⟩ := Option.map_eq_some_iff.mp h
      rcases cput_cases hs (Or.inr (Or.inr ⟨hs', rfl⟩)) hask with
        ⟨hs'', heq, hlist, hnew, htrue⟩ | ⟨rfl, hfalse⟩
      · obtain rfl : ok = true := Option.some.inj (hok.symm.trans htrue)
        cases h
        rw [heq, prependHash_listText] at hnew
        exact ⟨.added m hs'' hlist hnew rfl rfl, trivial⟩
      · obtain rfl : ok = false := Option.some.inj (hok.symm.trans hfalse)
        cases h
        exact ⟨.kept rfl rfl (List.Subset.refl _), trivial⟩
  | store m mail =>
      rw [next] at h
      obtain ⟨⟨r, v⟩, hask, h⟩ := Option.map_eq_some_iff.mp h
      cases h
      exact ⟨.kept ((ask_put hask _ _).trans (if_neg (listCell_ne row box m))) rfl
        (List.Subset.refl _), trivial⟩
  | getList del =>
      rw [next] at h
      obtain ⟨⟨r, v⟩, hask, h⟩ := Option.map_eq_some_iff.mp h
      obtain ⟨rfl, hread, -⟩ := get_cases hs hask
      cases h
      refine ⟨.kept rfl rfl (List.subset_append_right _ _), ?_⟩
      split
      · exact List.subset_append_left _ _
      · exact ⟨hread, List.subset_append_left _ _⟩
  | deleteList del =>
      rw [next] at h
      obtain ⟨⟨r, v⟩, hask, h⟩ := Option.map_eq_some_iff.mp h
      cases h
      exact ⟨.deleted del rfl ((ask_delete hask _ _).trans (if_pos ⟨rfl, rfl⟩)) hp rfl rfl, trivial⟩
  | cputList del old =>
      rw [next] at h
      obtain ⟨⟨r, v⟩, hask, h⟩ := Option.bind_eq_some_iff.mp h
      obtain ⟨ok, hok, h⟩ := Option.map_eq_some_iff.mp h
      rcases cput_cases hs hp.1 hask with ⟨hs', rfl, hlist, hnew, htrue⟩ | ⟨rfl, hfalse⟩
      · obtain rfl : ok = true := Option.some.inj (hok.symm.trans htrue)
        cases h
        rw [updateHash_listText] at hnew
        exact ⟨.removed del hs' hlist hnew hp.2 rfl rfl, trivial⟩
      · obtain rfl : ok = false := Option.some.inj (hok.symm.trans hfalse)
        cases h
        exact ⟨.kept rfl rfl (List.Subset.refl _), trivial⟩
  | deleteMails del =>
      cases del with
      | nil =>
          cases h
          exact ⟨.kept rfl rfl (List.Subset.refl _), trivial⟩
      | cons m del =>
          rw [next] at h
          obtain ⟨⟨r, v⟩, hask, h⟩ := Option.map_eq_some_iff.mp h
          cases h
          exact ⟨.kept ((ask_delete hask _ _).trans (if_neg (listCell_ne row box m))) rfl
            (List.Subset.refl _), trivial⟩
  | done => cases h

end Mailbox

end PennCloud
