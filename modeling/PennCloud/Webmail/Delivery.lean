import PennCloud.Webmail.Mailbox
import PennCloud.Webmail.Smtp

/-!
# A message from its end to the mailboxes

When `handle_data` has the whole text of a message it stores it in the sender's
outbox and in the inbox of every local recipient, each under a header line of its
own, and `recvfrom_backend` reads a mailbox back. The transactions come one at a
time here, so a delivery is the program of `Webmail/Mailbox.lean` run to its end.
The column of a mail is the hash of its text; neither the sender nor the
recipient has a part in it.
-/

namespace PennCloud

open Str

/-- The data servers, and the node that the master names for a row. -/
structure Cloud where
  home : Str → Nat
  node : Nat → Server

/-- Run a delivery or deletion that has the server to itself; `none` when the fuel runs out. -/
def Mailbox.finish (row : Str) (box : Box) : Nat → Mailbox → MailPc → Option Mailbox
  | _, s, .done => some s
  | 0, _, _ => none
  | fuel + 1, s, p => (s.next row box p).bind fun r => finish row box fuel r.1 r.2

namespace Cloud

/-- The contents of a cell. -/
def cell (c : Cloud) (row col : Str) : Option Str := (c.node (c.home row)).table.at? row col

/-- The list loop of `handle_data` and the `PUT` of the mail. -/
def deliver (c : Cloud) (row : Str) (box : Box) (h : Hash) (mail : Str) : Option Cloud :=
  (Mailbox.finish row box 5 { server := c.node (c.home row) } (.get h mail)).map fun m =>
    { c with node := Function.update c.node (c.home row) m.server }

end Cloud

/-- A message as the session hands it over, its lines having come one at a time. -/
structure Transaction where
  sender : Str
  rcpts : List Str
  data : Str
  /-- `ctime`, without its line break. -/
  time : Str
  sender_name : Name sender
  rcpts_name : ∀ r ∈ rcpts, Name r
  data_rows : data = [] ∨ crlf <:+ data
  /-- A dot line would have ended the message. -/
  data_dot : ¬ dotLine <:+: crlf ++ data
  time_line : ¬ crlf <:+: time

/-- `m.substr(0, m.find_first_of("@"))`. -/
def userOf (m : Str) : Str := m.substr 0 (m.find ['@'])

/-- `m.substr(m.find_first_of("@") + 1)`. -/
def serverOf (m : Str) : Str := m.substr (m.find ['@'] + 1)

/-- `server_name.compare(0, 9, "localhost") == 0`. -/
def isLocal (rcpt : Str) : Bool := (serverOf rcpt).take 9 == "localhost".toList

def headerMark : Str := "Header |".toList

/-- The header line in an inbox. -/
def inboxHeader (sender rcpt title time : Str) : Str :=
  headerMark ++ serverOf rcpt ++ '|' :: (sender ++ '|' :: (rcpt ++ '|' :: (title ++ '|' :: time)))

theorem headerMark_inbox (sender rcpt title time : Str) :
    headerMark <+: inboxHeader sender rcpt title time := by
  rw [inboxHeader, List.append_assoc]
  exact List.prefix_append _ _

/-- The header line in the outbox, the recipients separated by commas. -/
def outboxHeader (sender : Str) (rcpts : List Str) (title time : Str) : Str :=
  (headerMark ++ "localhost|".toList ++ sender ++ '|' :: rcpts.flatMap (· ++ [','])).dropLast
    ++ '|' :: (title ++ '|' :: time)

/-- The loop over the recipients; a mail to another host goes to the queue. -/
def deliverAll (md5 : Str → Nat → Fin 256) (t : Transaction) (title : Str) :
    List Str → Cloud → Option Cloud
  | [], c => some c
  | rcpt :: rcpts, c =>
    (if isLocal rcpt then
      c.deliver (userOf rcpt) .inbox (hashMD5 md5 t.data)
        (inboxHeader t.sender rcpt title t.time ++ crlf ++ t.data)
    else some c).bind (deliverAll md5 t title rcpts)

/-- The end of a message in `handle_data`. -/
def handleMail (md5 : Str → Nat → Fin 256) (t : Transaction) (c : Cloud) : Option Cloud :=
  (mailTitle t.data).bind fun title =>
    (c.deliver (userOf t.sender) .outbox (hashMD5 md5 t.data)
      (outboxHeader t.sender t.rcpts title t.time ++ crlf ++ t.data)).bind
        (deliverAll md5 t title t.rcpts)

/-- Messages, one at a time. -/
def handleMails (md5 : Str → Nat → Fin 256) : List Transaction → Cloud → Option Cloud
  | [], c => some c
  | t :: ts, c => (handleMail md5 t c).bind (handleMails md5 ts)

/-- `class email`, as far as it is filled in here. -/
structure Email where
  header : Str
  content : Str
  hash : Hash
  deriving DecidableEq

/-- `extract_email` on the response of its `GET`; `none` where `substr` throws. -/
def extractEmail (md5 : Str → Nat → Fin 256) (response : Str) : Option Email :=
  let f1 := response.find "Header ".toList
  let f2 := findFrom response crlf (f1 + 1)
  -- the content without the subject line
  let f3 := findFrom response crlf (f2 + 1)
  if f1 = npos then none else some
    { header := response.substr f1 (f2 - f1)
      content := response.substr (f3 + 2)
      hash := hashMD5 md5 (response.substr (f2 + 2)) }

/-- `recvfrom_backend`. -/
def Cloud.recvfrom (md5 : Str → Nat → Fin 256) (c : Cloud) (user : Str) (box : Box) :
    Option (List Email) :=
  let s := c.node (c.home user)
  (s.ask (.get user box.listCol)).bind fun r =>
    (compare1 r.1 ['E', 'R', 'R']).bind fun err =>
      if err then some [] else (recvHashes r.1).mapM fun hash =>
        (s.ask (.get user (box.mailCol hash))).bind fun r => extractEmail md5 r.1

/-! ## A delivery -/

namespace Mailbox

variable {row : Str} {box : Box} {s t : Mailbox} {h : Hash} {mail : Str} {fuel : Nat}

theorem finish_succ {p : MailPc} (hp : p ≠ .done) (n : Nat) : finish row box (n + 1) s p
    = (s.next row box p).bind fun r => finish row box n r.1 r.2 := by
  cases p <;> first | rfl | exact absurd rfl hp

theorem finish_next {p : MailPc} (hp : p ≠ .done) (hf : finish row box fuel s p = some t) :
    ∃ n u q, s.next row box p = some (u, q) ∧ finish row box n u q = some t := by
  cases fuel with
  | zero =>
      cases p <;> first | exact absurd rfl hp | cases hf
  | succ n =>
      rw [finish_succ hp] at hf
      obtain ⟨⟨u, q⟩, hu, hq⟩ := Option.bind_eq_some_iff.mp hf
      exact ⟨n, u, q, hu, hq⟩

theorem finish_store (hf : finish row box fuel s (.store h mail) = some t) (r c : Str) :
    t.server.table.at? r c =
      if r = row ∧ c = box.mailCol h.text then some mail else s.server.table.at? r c := by
  obtain ⟨n, u, q, hu, hq⟩ := finish_next (by simp) hf
  rw [next] at hu
  obtain ⟨⟨reply, v⟩, hask, hu⟩ := Option.map_eq_some_iff.mp hu
  cases hu
  have ht : t = { s with server := v } := by
    cases n <;> exact (Option.some.inj hq).symm
  rw [ht]
  exact ask_put hask r c

/-- The list of the mailbox holds the hashes `hs`; one that is not there holds none. -/
def ListIs (row : Str) (box : Box) (s : Mailbox) (hs : List Hash) : Prop :=
  s.list row box = none ∧ hs = [] ∨ s.list row box = some (listText hs)

theorem ListIs.unique {hs gs : List Hash} (h : ListIs row box s hs) (hg : ListIs row box s gs) :
    hs = gs := by
  rcases h with ⟨hnone, rfl⟩ | hsome
  · rcases hg with ⟨-, rfl⟩ | hsome
    · rfl
    · exact absurd (hsome.symm.trans hnone) (by simp)
  · rcases hg with ⟨hnone, -⟩ | hsome'
    · exact absurd (hsome.symm.trans hnone) (by simp)
    · exact listText_inj (Option.some.inj (hsome.symm.trans hsome'))

/-- A list text is not taken for an error line. -/
theorem compare1_listText (hs : List Hash) :
    compare1 (listText hs) ['E', 'R', 'R'] = some false := by
  have hne : listText hs ≠ [] := listText_ne (by simp) hs
  rw [compare1, if_neg hne, Option.some.injEq, decide_eq_false_iff_not]
  intro htake
  have hmem : 'E' ∈ listText hs :=
    List.mem_of_mem_drop (List.mem_of_mem_take (htake ▸ List.mem_cons_self))
  rcases List.mem_append.mp hmem with hmem | hmem
  · obtain ⟨h, -, hin⟩ := List.mem_flatMap.mp hmem
    rcases List.mem_append.mp hin with hin | hin
    · exact h.notMem (by decide) hin
    · exact absurd hin (by decide)
  · exact absurd hmem (by decide)

/-- What a delivery that runs to its end leaves in the cells. -/
def Stored (row : Str) (box : Box) (s t : Mailbox) (h : Hash) (mail : Str) (hs : List Hash) :
    Prop :=
  ∀ r c, t.server.table.at? r c =
    if r = row ∧ c = box.mailCol h.text then some mail
    else if r = row ∧ c = box.listCol then some (listText (h :: hs.erase h))
    else s.server.table.at? r c

/-- With the server to itself a delivery's `CPUT` succeeds. -/
theorem finish_cput {hs : List Hash} (hlist : s.list row box = some (listText hs))
    (hf : finish row box fuel s (.cput h mail (listText hs)) = some t) :
    Stored row box s t h mail hs := by
  obtain ⟨n, u, q, hu, hq⟩ := finish_next (by simp) hf
  rw [next] at hu
  obtain ⟨⟨reply, v⟩, hask, hu⟩ := Option.bind_eq_some_iff.mp hu
  obtain ⟨ok, hok, hu⟩ := Option.map_eq_some_iff.mp hu
  rcases ask_cput hask with ⟨-, htrue, hat⟩ | ⟨hnot, -⟩
  · obtain rfl : ok = true := Option.some.inj (hok.symm.trans htrue)
    cases hu
    intro r c
    rw [finish_store hq r c]
    rw [prependHash_listText] at hat
    split
    · rfl
    · exact hat r c
  · exact absurd (Or.inr hlist) hnot

theorem finish_get_present {hs : List Hash} (hlist : s.list row box = some (listText hs))
    (hf : finish row box fuel s (.get h mail) = some t) : Stored row box s t h mail hs := by
  obtain ⟨n, u, q, hu, hq⟩ := finish_next (by simp) hf
  rw [next] at hu
  obtain ⟨⟨reply, v⟩, hask, hu⟩ := Option.bind_eq_some_iff.mp hu
  obtain ⟨err, herr, hu⟩ := Option.map_eq_some_iff.mp hu
  obtain ⟨rfl, hat | ⟨hnone, -⟩⟩ := ask_get hask
  · obtain rfl := Option.some.inj (hlist.symm.trans hat)
    obtain rfl : err = false := Option.some.inj (herr.symm.trans (compare1_listText hs))
    cases hu
    exact finish_cput hlist hq
  · exact absurd (hlist.symm.trans hnone) (by simp)

/-- **A delivery that runs to its end** puts the hash on top of the list and stores the mail. -/
theorem finish_get {hs : List Hash} (hlist : ListIs row box s hs)
    (hf : finish row box fuel s (.get h mail) = some t) : Stored row box s t h mail hs := by
  rcases hlist with ⟨hnone, rfl⟩ | hsome
  · -- the list is created first
    obtain ⟨n, u, q, hu, hq⟩ := finish_next (by simp) hf
    rw [next] at hu
    obtain ⟨⟨reply, v⟩, hask, hu⟩ := Option.bind_eq_some_iff.mp hu
    obtain ⟨err, herr, hu⟩ := Option.map_eq_some_iff.mp hu
    obtain ⟨rfl, hat | ⟨-, hnull⟩⟩ := ask_get hask
    · exact absurd (hat.symm.trans hnone) (by simp)
    · obtain rfl : err = true := by
        rcases hnull with rfl | rfl <;> exact Option.some.inj (herr.symm.trans rfl)
      cases hu
      obtain ⟨n, u, q, hu, hq⟩ := finish_next (p := .create h mail) (by simp) hq
      rw [next] at hu
      obtain ⟨⟨reply, v⟩, hask, hu⟩ := Option.map_eq_some_iff.mp hu
      cases hu
      have hput := ask_put hask
      have hempty : Mailbox.list row box { s with server := v } = some (listText []) :=
        (hput row box.listCol).trans (if_pos ⟨rfl, rfl⟩)
      intro r c
      rw [finish_get_present hempty hq r c]
      split
      · rfl
      · split
        · rfl
        · rename_i hne
          exact (hput r c).trans (if_neg hne)
  · exact finish_get_present hsome hf

end Mailbox

namespace Cloud

variable {c c' : Cloud} {row : Str} {box : Box} {h : Hash} {mail : Str} {hs : List Hash}

/-- The list of a user's mailbox holds the hashes `hs`. -/
def ListIs (c : Cloud) (row : Str) (box : Box) (hs : List Hash) : Prop :=
  c.cell row box.listCol = none ∧ hs = [] ∨ c.cell row box.listCol = some (listText hs)

/-- **What a delivery leaves in the cells** of all servers. -/
theorem deliver_cell (hlist : c.ListIs row box hs) (hd : c.deliver row box h mail = some c')
    (r col : Str) : c'.cell r col =
      if r = row ∧ col = box.mailCol h.text then some mail
      else if r = row ∧ col = box.listCol then some (listText (h :: hs.erase h))
      else c.cell r col := by
  obtain ⟨m, hm, rfl⟩ := Option.map_eq_some_iff.mp hd
  have hbox : Mailbox.ListIs row box { server := c.node (c.home row) } hs := hlist
  have hstored := Mailbox.finish_get hbox hm
  by_cases hhome : c.home r = c.home row
  · have hcell : cell { c with node := Function.update c.node (c.home row) m.server } r col
        = m.server.table.at? r col := by
      simp only [cell, hhome, Function.update_self]
    rw [hcell, hstored r col]
    simp only [cell, hhome]
  · have hne : r ≠ row := fun he => hhome (he ▸ rfl)
    simp only [cell, Function.update_of_ne hhome, hne, false_and, if_false]

/-- Every list names mails that are there. -/
def Kept (c : Cloud) : Prop :=
  ∀ row box, ∃ hs, c.ListIs row box hs ∧
    ∀ h ∈ hs, ∃ rest, c.cell row (box.mailCol h.text) = some (headerMark ++ rest)

/-- The mail under a hash is on the list and as `P` says. -/
def Holds (c : Cloud) (row : Str) (box : Box) (h : Hash) (P : Str → Prop) : Prop :=
  ∃ hs, c.ListIs row box hs ∧ h ∈ hs ∧
    ∃ mail, c.cell row (box.mailCol h.text) = some mail ∧ P mail

theorem listIs_inj {gs : List Hash} (h : c.ListIs row box hs) (hg : c.ListIs row box gs) :
    hs = gs := by
  have hbox : Mailbox.ListIs row box { server := c.node (c.home row) } hs := h
  exact hbox.unique hg

/-- The lists after a delivery. -/
theorem deliver_listIs (hlist : c.ListIs row box hs) (hd : c.deliver row box h mail = some c')
    {r : Str} {b : Box} {gs : List Hash} (hg : c.ListIs r b gs) :
    c'.ListIs r b (if r = row ∧ b = box then h :: hs.erase h else gs) := by
  have hcell := deliver_cell hlist hd r b.listCol
  have hne : ¬ (r = row ∧ b.listCol = box.mailCol h.text) := fun he => box.mailCol_ne b h he.2.symm
  rw [if_neg hne] at hcell
  by_cases hsame : r = row ∧ b = box
  · rw [if_pos hsame]
    rw [if_pos ⟨hsame.1, hsame.2 ▸ rfl⟩] at hcell
    exact Or.inr hcell
  · have hcol : ¬ (r = row ∧ b.listCol = box.listCol) := fun he =>
      hsame ⟨he.1, (Box.path_append he.2).1⟩
    rw [if_neg hsame]
    rw [if_neg hcol] at hcell
    rw [ListIs, hcell]
    exact hg

theorem kept_deliver (hc : c.Kept) (hmail : headerMark <+: mail)
    (hd : c.deliver row box h mail = some c') : c'.Kept := by
  obtain ⟨hs, hlist, hmails⟩ := hc row box
  obtain ⟨rest, hrest⟩ := hmail
  intro r b
  obtain ⟨gs, hg, hgs⟩ := hc r b
  refine ⟨_, deliver_listIs hlist hd hg, fun g hmem => ?_⟩
  rw [deliver_cell hlist hd]
  by_cases hnew : r = row ∧ b.mailCol g.text = box.mailCol h.text
  · rw [if_pos hnew]
    exact ⟨rest, hrest ▸ rfl⟩
  · have hcol : ¬ (r = row ∧ b.mailCol g.text = box.listCol) := fun he => b.mailCol_ne box g he.2
    rw [if_neg hnew, if_neg hcol]
    split at hmem
    · rename_i hsame
      obtain ⟨rfl, rfl⟩ := hsame
      -- the hash was on the list already
      have hgh : g ≠ h := fun he => hnew ⟨rfl, he ▸ rfl⟩
      exact hmails g (List.mem_of_mem_erase ((List.mem_cons.mp hmem).resolve_left hgh))
    · exact hgs g hmem

/-- A delivery keeps a mail, unless it writes over it. -/
theorem holds_deliver {P : Str → Prop} {r : Str} {b : Box} {g : Hash} (hc : c.Kept)
    (hold : c.Holds r b g P) (hover : r = row → b = box → g = h → P mail)
    (hd : c.deliver row box h mail = some c') : c'.Holds r b g P := by
  obtain ⟨hs, hlist, -⟩ := hc row box
  obtain ⟨gs, hg, hmem, old, hcell, hP⟩ := hold
  refine ⟨_, deliver_listIs hlist hd hg, ?_, ?_⟩
  · split
    · rename_i hsame
      obtain ⟨rfl, rfl⟩ := hsame
      obtain rfl := listIs_inj hlist hg
      by_cases hgh : g = h
      · exact hgh ▸ List.mem_cons_self
      · exact List.mem_cons_of_mem _ ((List.mem_erase_of_ne hgh).mpr hmem)
    · exact hmem
  · rw [deliver_cell hlist hd]
    by_cases hnew : r = row ∧ b.mailCol g.text = box.mailCol h.text
    · obtain ⟨rfl, he⟩ := hnew
      rw [if_pos ⟨rfl, he⟩]
      exact ⟨mail, rfl, hover rfl (Box.mailCol_inj he).1 (Box.mailCol_inj he).2⟩
    · have hcol : ¬ (r = row ∧ b.mailCol g.text = box.listCol) := fun he => b.mailCol_ne box g he.2
      rw [if_neg hnew, if_neg hcol]
      exact ⟨old, hcell, hP⟩

/-- And puts its own there. -/
theorem holds_delivered {P : Str → Prop} (hc : c.Kept) (hP : P mail)
    (hd : c.deliver row box h mail = some c') : c'.Holds row box h P := by
  obtain ⟨hs, hlist, -⟩ := hc row box
  have hnew := deliver_listIs hlist hd hlist
  rw [if_pos ⟨rfl, rfl⟩] at hnew
  refine ⟨_, hnew, List.mem_cons_self, mail, ?_, hP⟩
  rw [deliver_cell hlist hd, if_pos ⟨rfl, rfl⟩]

end Cloud

end PennCloud
