import PennCloud.Webmail.Delivery

/-!
# Deleting mail twice

`update_backend` gets the list, takes the hashes off and puts what is left with a
`CPUT`, until one succeeds; where nothing but the mark would be left it deletes the
list. It takes the error line of a list that is not there for a list: the line is
filtered, and sent back as the old data of a `CPUT` that no data server accepts. So
it returns, and may be asked again, exactly when a hash is left on the list.
-/

namespace PennCloud

open Str

namespace Mailbox

variable {row : Str} {box : Box} {s t u : Mailbox} {p q : MailPc} {del hs : List Hash} {n : Nat}

/-- A deletion returns, with its hashes off the list and the others as before, and a second one
returns too and changes nothing. -/
def Deletes (row : Str) (box : Box) (del : List Hash) (s : Mailbox) : Prop :=
  ∃ n t, finish row box n s (.getList del) = some t ∧
    (∀ hs, ListIs row box s hs → ListIs row box t (hs.filter (· ∉ del))) ∧
    ∃ m u, finish row box m t (.getList del) = some u ∧ u.server.table.view = t.server.table.view

/-- The column of a mail that is deleted. -/
def IsDeleted (box : Box) (del : List Hash) (col : Str) : Prop :=
  ∃ h ∈ del, col = box.mailCol h.text

theorem listCol_not_deleted : ¬ IsDeleted box del box.listCol := by
  rintro ⟨h, -, he⟩
  exact box.mailCol_ne box h he.symm

/-! ## The requests -/

theorem finish_of_next (h : s.next row box p = some (u, q)) (hf : finish row box n u q = some t) :
    finish row box (n + 1) s p = some t := by
  have hp : p ≠ .done := by
    rintro rfl
    cases h
  rw [finish_succ hp, h]
  exact hf

/-- The mails are deleted one by one. -/
theorem finishes_deleteMails (s : Mailbox) (del : List Hash) :
    ∃ n t, finish row box n s (.deleteMails del) = some t := by
  induction del generalizing s with
  | nil => exact ⟨1, s, rfl⟩
  | cons h del ih =>
      obtain ⟨r, v, hask⟩ : ∃ r v, s.server.ask (.delete row (box.mailCol h.text)) = some (r, v) :=
        ⟨_, _, rfl⟩
      obtain ⟨n, t, hf⟩ := ih { s with server := v }
      refine ⟨n + 1, t, finish_of_next ?_ hf⟩
      rw [next, hask]
      rfl

theorem finish_deleteMails (hf : finish row box n s (.deleteMails del) = some t) (r c : Str) :
    (IsDeleted box del c → r = row → t.server.table.at? r c = none) ∧
    (¬ (r = row ∧ IsDeleted box del c) → t.server.table.at? r c = s.server.table.at? r c) := by
  induction del generalizing s n with
  | nil =>
      obtain ⟨n, v, q, hv, hq⟩ := finish_next (by simp) hf
      cases hv
      obtain rfl : s = t := by cases n <;> exact Option.some.inj hq
      exact ⟨fun ⟨_, hmem, _⟩ => absurd hmem List.not_mem_nil, fun _ => rfl⟩
  | cons h del ih =>
      obtain ⟨n, v, q, hv, hq⟩ := finish_next (by simp) hf
      rw [next] at hv
      obtain ⟨⟨reply, w⟩, hask, hv⟩ := Option.map_eq_some_iff.mp hv
      cases hv
      have hdelete := ask_delete hask r c
      obtain ⟨hgone, hkept⟩ := ih hq
      constructor
      · rintro ⟨g, hg, rfl⟩ rfl
        by_cases hlater : IsDeleted box del (box.mailCol g.text)
        · exact hgone hlater rfl
        · rw [hkept fun hd => hlater hd.2]
          rcases List.mem_cons.mp hg with rfl | hg
          · exact hdelete.trans (if_pos ⟨rfl, rfl⟩)
          · exact absurd ⟨g, hg, rfl⟩ hlater
      · intro hnot
        rw [hkept fun hd => hnot ⟨hd.1, hd.2.imp fun g hg => ⟨List.mem_cons_of_mem _ hg.1, hg.2⟩⟩]
        exact hdelete.trans (if_neg fun hd => hnot ⟨hd.1, h, List.mem_cons_self, hd.2⟩)

/-- The list is not among them. -/
theorem finish_deleteMails_list (hf : finish row box n s (.deleteMails del) = some t) :
    t.list row box = s.list row box :=
  (finish_deleteMails hf row box.listCol).2 fun hd => listCol_not_deleted hd.2

/-- What is read of a list that is there. -/
theorem next_getList (hlist : s.list row box = some (listText hs)) :
    s.next row box (.getList del) = some ({ s with asked := del ++ s.asked },
      if hs.filter (· ∉ del) = [] then .deleteList del else .cputList del (listText hs)) := by
  obtain ⟨r, v, hask⟩ : ∃ r v, s.server.ask (.get row box.listCol) = some (r, v) := ⟨_, _, rfl⟩
  obtain ⟨rfl, hat | ⟨hnone, -⟩⟩ := ask_get hask
  · obtain rfl := Option.some.inj (hlist.symm.trans hat)
    have hmark : listText (hs.filter (· ∉ del)) = listMark ↔ hs.filter (· ∉ del) = [] := by
      constructor
      · intro he
        have hempty : listText (hs.filter (· ∉ del)) = listText [] := he
        exact listText_inj hempty
      · intro he
        rw [he]
        rfl
    rw [next, hask, Option.map_some, updateHash_listText]
    simp only [hmark]
  · exact absurd (hlist.symm.trans hnone) (by simp)

/-! ## Where a hash is left -/

/-- The contents after a deletion that leaves a hash on the list. -/
def Left (row : Str) (box : Box) (del hs : List Hash) (s t : Mailbox) : Prop :=
  t.list row box = some (listText (hs.filter (· ∉ del))) ∧
    ∀ r c, (IsDeleted box del c → r = row → t.server.table.at? r c = none) ∧
      (¬ (r = row ∧ (IsDeleted box del c ∨ c = box.listCol)) →
        t.server.table.at? r c = s.server.table.at? r c)

/-- The `CPUT` succeeds at once. -/
theorem finishes_left (hlist : s.list row box = some (listText hs))
    (hleft : hs.filter (· ∉ del) ≠ []) :
    ∃ n t, finish row box n s (.getList del) = some t ∧ Left row box del hs s t := by
  have hget : s.next row box (.getList del) = some ({ s with asked := del ++ s.asked },
      .cputList del (listText hs)) := by
    rw [next_getList hlist, if_neg hleft]
  obtain ⟨r, v, hask⟩ : ∃ r v, s.server.ask (.cput row box.listCol (listText hs)
      (updateHash (listText hs) (del.map Hash.text))) = some (r, v) := ⟨_, _, rfl⟩
  rcases ask_cput hask with ⟨-, hok, hat⟩ | ⟨hnot, -⟩
  · have hcput : Mailbox.next row box { s with asked := del ++ s.asked }
      (.cputList del (listText hs))
        = some ({ s with asked := del ++ s.asked, server := v }, .deleteMails del) := by
      rw [next, hask, Option.bind_some, hok]
      rfl
    obtain ⟨n, t, hf⟩ : ∃ n t, finish row box n { s with asked := del ++ s.asked, server := v }
        (.deleteMails del) = some t := finishes_deleteMails _ del
    rw [updateHash_listText] at hat
    refine ⟨n + 2, t, finish_of_next hget (finish_of_next hcput hf), ?_, fun r c => ?_⟩
    · rw [finish_deleteMails_list hf]
      exact (hat row box.listCol).trans (if_pos ⟨rfl, rfl⟩)
    · obtain ⟨hgone, hkept⟩ := finish_deleteMails hf r c
      refine ⟨hgone, fun hother => ?_⟩
      rw [hkept fun hd => hother ⟨hd.1, Or.inl hd.2⟩]
      exact (hat r c).trans (if_neg fun hd => hother ⟨hd.1, Or.inr hd.2⟩)
  · exact absurd (Or.inr hlist) hnot

/-- A second deletion of the same hashes puts the same list, and finds no mail. -/
theorem Left.again (h : Left row box del hs s t) (h' : Left row box del (hs.filter (· ∉ del)) t u) :
    u.server.table.view = t.server.table.view := by
  funext ⟨r, c⟩
  show u.server.table.at? r c = t.server.table.at? r c
  by_cases hrow : r = row
  · subst hrow
    by_cases hdel : IsDeleted box del c
    · rw [(h.2 r c).1 hdel rfl, (h'.2 r c).1 hdel rfl]
    · by_cases hcol : c = box.listCol
      · subst hcol
        have hlist := h'.1
        rw [List.filter_filter] at hlist
        simp only [Bool.and_self] at hlist
        exact hlist.trans h.1.symm
      · exact (h'.2 r c).2 fun hd => hd.2.elim hdel hcol
  · exact (h'.2 r c).2 fun hd => hrow hd.1

/-! ## Where no hash is left -/

/-- An error line is kept: it is no hash. -/
theorem updateHash_line {line : Str} (hline : '-' ∈ line)
    (hlines : Lib.lines '\n' (line ++ crlf) = [line ++ ['\r']]) :
    updateHash (line ++ crlf) (del.map Hash.text) = line ++ crlf := by
  have hkept : line ∉ del.map Hash.text := by
    intro hmem
    obtain ⟨h, -, rfl⟩ := List.mem_map.mp hmem
    exact h.notMem (by decide) hline
  have hfilter : [line].filter (· ∉ del.map Hash.text) = [line] :=
    List.filter_eq_self.mpr fun l hl => decide_eq_true (List.mem_singleton.mp hl ▸ hkept)
  rw [updateHash, hlines, List.map_singleton, List.dropLast_concat, hfilter, List.flatMap_singleton]

theorem updateHash_null {r : Str} (hr : r = replyNullRow ∨ r = replyNullCol) :
    updateHash r (del.map Hash.text) ≠ listMark := by
  have hline : ∃ line, r = line ++ crlf ∧ '-' ∈ line ∧
      Lib.lines '\n' (line ++ crlf) = [line ++ ['\r']] ∧ line ++ crlf ≠ listMark := by
    rcases hr with rfl | rfl
    · exact ⟨"-ERR NULL row".toList, by decide⟩
    · exact ⟨"-ERR NULL colmn".toList, by decide⟩
  obtain ⟨line, rfl, hdash, hlines, hne⟩ := hline
  rw [updateHash_line hdash hlines]
  exact hne

/-- **A deletion does not return where there is no list.** -/
theorem finish_absent (hnone : s.list row box = none) (n : Nat) :
    finish row box n s (.getList del) = none ∧
    ∀ r, r = replyNullRow ∨ r = replyNullCol → finish row box n s (.cputList del r) = none := by
  induction n generalizing s with
  | zero => exact ⟨rfl, fun _ _ => rfl⟩
  | succ n ih =>
      constructor
      · obtain ⟨r, v, hask⟩ : ∃ r v, s.server.ask (.get row box.listCol)
          = some (r, v) := ⟨_, _, rfl⟩
        obtain ⟨rfl, hat | ⟨-, hnull⟩⟩ := ask_get hask
        · exact absurd (hat.symm.trans hnone) (by simp)
        · rw [finish_succ (by simp), next, hask, Option.map_some, Option.bind_some,
            if_neg (updateHash_null hnull)]
          exact (ih (s := { s with asked := del ++ s.asked }) hnone).2 r hnull
      · intro old hold
        obtain ⟨r, v, hask⟩ : ∃ r v, s.server.ask (.cput row box.listCol old
          (updateHash old (del.map Hash.text))) = some (r, v) := ⟨_, _, rfl⟩
        rcases cput_cases (Or.inl hnone) (hold.imp_right Or.inl) hask
          with ⟨hs, -, hsome, -⟩ | ⟨rfl, hno⟩
        · exact absurd (hsome.symm.trans hnone) (by simp)
        · rw [finish_succ (by simp), next, hask, Option.bind_some, hno]
          exact (ih hnone).1

/-- A list on which no hash would be left is deleted. -/
theorem finish_emptied (hlist : s.list row box = some (listText hs))
    (hleft : hs.filter (· ∉ del) = [])
    (hf : finish row box n s (.getList del) = some t) : t.list row box = none := by
  obtain ⟨n, v, q, hv, hq⟩ := finish_next (by simp) hf
  rw [next_getList hlist, if_pos hleft] at hv
  cases hv
  obtain ⟨n, v, q, hv, hq⟩ := finish_next (by simp) hq
  rw [next] at hv
  obtain ⟨⟨r, w⟩, hask, hv⟩ := Option.map_eq_some_iff.mp hv
  cases hv
  rw [finish_deleteMails_list hq]
  exact (ask_delete hask _ _).trans (if_pos ⟨rfl, rfl⟩)

/--
**Deleting mail returns, and may be done twice,** exactly when the list has a hash
that is not to be deleted. A list that is not there is asked for without end, and
one that would be empty is not there the second time.
-/
theorem deletes_iff (hlist : s.IsList row box) : s.Deletes row box del ↔
    ∃ hs, s.list row box = some (listText hs) ∧ ∃ h ∈ hs, h ∉ del := by
  constructor
  · rintro ⟨n, t, hf, -, m, u, hf', -⟩
    rcases hlist with hnone | ⟨hs, hsome⟩
    · rw [(finish_absent hnone n).1] at hf
      cases hf
    · refine ⟨hs, hsome, ?_⟩
      by_contra hall
      have hleft : hs.filter (· ∉ del) = [] := by
        rw [List.filter_eq_nil_iff]
        intro h hh hdel
        exact hall ⟨h, hh, of_decide_eq_true hdel⟩
      rw [(finish_absent (finish_emptied hsome hleft hf) m).1] at hf'
      cases hf'
  · rintro ⟨hs, hsome, h, hh, hdel⟩
    have hleft : hs.filter (· ∉ del) ≠ [] :=
      List.ne_nil_of_mem (List.mem_filter.mpr ⟨hh, decide_eq_true hdel⟩)
    obtain ⟨n, t, hf, ht⟩ := finishes_left hsome hleft
    have hleft' : (hs.filter (· ∉ del)).filter (· ∉ del) ≠ [] := by
      rw [List.filter_filter]
      simpa only [Bool.and_self] using hleft
    obtain ⟨m, u, hf', hu⟩ := finishes_left ht.1 hleft'
    refine ⟨n, t, hf, fun gs hgs => ?_, m, u, hf', ht.again hu⟩
    obtain rfl := hgs.unique (Or.inr hsome)
    exact Or.inr ht.1

end Mailbox

def repeatedHash (c : Char) (hc : c ∈ hexDigits) : Hash where
  text := List.replicate 17 c
  length := List.length_replicate
  hex := fun _ hd => List.eq_of_mem_replicate hd ▸ hc

def hashA : Hash := repeatedHash 'a' (by decide)
def hashB : Hash := repeatedHash 'b' (by decide)

/-- An inbox with the two mails. -/
def twoMails : Mailbox where
  server :=
    { primary := true
      table := ((Nested.set ∅ ['u'] Box.inbox.listCol (listText [hashA, hashB])).set ['u']
        (Box.inbox.mailCol hashA.text) ['m', '\r', '\n']).set ['u'] (Box.inbox.mailCol hashB.text)
        ['n', '\r', '\n'] }

theorem twoMails_list : twoMails.list ['u'] .inbox = some (listText [hashA, hashB]) := by
  decide +kernel

theorem twoMails_deletes : twoMails.Deletes ['u'] .inbox [hashA] :=
  (Mailbox.deletes_iff (Or.inr ⟨[hashA, hashB], twoMails_list⟩)).mpr
    ⟨[hashA, hashB], twoMails_list, hashB, by decide, by decide⟩

/-- Once both are deleted, deleting one of them again does not return. -/
theorem twoMails_emptied : ¬ twoMails.Deletes ['u'] .inbox [hashA, hashB] ∧
    ∃ t, Mailbox.finish ['u'] .inbox 9 twoMails (.getList [hashA, hashB]) = some t ∧
      t.list ['u'] .inbox = none ∧
      ∀ n, Mailbox.finish ['u'] .inbox n t (.getList [hashA]) = none := by
  have hleft : [hashA, hashB].filter (· ∉ [hashA, hashB]) = [] := by decide
  constructor
  · rintro ⟨n, t, hf, -, m, u, hf', -⟩
    rw [(Mailbox.finish_absent (Mailbox.finish_emptied twoMails_list hleft hf) m).1] at hf'
    cases hf'
  · have hrun : (Mailbox.finish ['u'] .inbox 9 twoMails (.getList [hashA, hashB])).isSome
      = true := by
      decide +kernel
    obtain ⟨t, ht⟩ := Option.isSome_iff_exists.mp hrun
    have hnone := Mailbox.finish_emptied twoMails_list hleft ht
    exact ⟨t, ht, hnone, fun n => (Mailbox.finish_absent hnone n).1⟩

end PennCloud
