import PennCloud.Webmail.Mailbox
import Mathlib.Data.List.Nodup

/-!
# What deliveries and deletions make of a mailbox list

Whatever deliveries and deletions do to each other, the list stays well formed:
it is absent, or holds distinct hashes in the order of their latest delivery.

That no delivered hash gets lost is another matter. The `PUT` that creates a list
and the `DELETE` that removes one were decided on an earlier look at it, and do
not compare. `KeepsOthers` asks that each of the two meets the list it was decided
on; then every hash delivered and not asked for stays on the list.
-/

namespace PennCloud

open Str

/-- Each hash at its latest delivery, the latest first. -/
def latest : List Hash → List Hash
  | [] => []
  | h :: hs => h :: (latest hs).filter (· != h)

theorem nodup_latest (hs : List Hash) : (latest hs).Nodup := by
  induction hs with
  | nil => exact List.nodup_nil
  | cons h hs ih =>
      refine List.nodup_cons.mpr ⟨fun hm => ?_, ih.filter _⟩
      simpa using (List.mem_filter.mp hm).2

theorem latest_of_nodup {hs : List Hash} (h : hs.Nodup) : latest hs = hs := by
  induction hs with
  | nil => rfl
  | cons g hs ih =>
      obtain ⟨hg, hhs⟩ := List.nodup_cons.mp h
      rw [latest, ih hhs, List.filter_eq_self.mpr]
      exact fun x hx => bne_iff_ne.mpr fun he => hg (he ▸ hx)

namespace Mailbox

/-- At the start the list is absent, or holds the hashes delivered before. -/
structure Starts (row : Str) (box : Box) (s : Mailbox) : Prop where
  list : s.list row box = none ∧ s.delivered = [] ∨
    s.list row box = some (listText s.delivered) ∧ s.delivered.Nodup

/--
**The list is well formed.** It is absent, or distinct hash lines in the order of
their latest delivery, and the mark.
-/
def WellFormed (row : Str) (box : Box) (s : Mailbox) : Prop :=
  s.list row box = none ∨ ∃ hs, hs.Nodup ∧ hs.Sublist (latest s.delivered) ∧
    s.list row box = some (listText hs)

/-- The hashes for which `recvfrom_backend` goes on to fetch a mail. -/
def shown (row : Str) (box : Box) (s : Mailbox) : Option (List Str) :=
  (s.server.ask (.get row box.listCol)).bind fun r =>
    (compare1 r.1 ['E', 'R', 'R']).map fun err => if err then [] else recvHashes r.1

/-- Every hash that was delivered and that no deletion has asked for is on the list. -/
def NothingLost (row : Str) (box : Box) (s : Mailbox) : Prop :=
  ∀ h ∈ s.delivered, h ∉ s.asked → ∃ hs, h ∈ hs ∧ s.list row box = some (listText hs)

/--
The condition: a list is created only where there still is none, or an empty one,
and one is deleted only if nothing else has come onto it.
-/
def KeepsOthers (row : Str) (box : Box) (s : Mailbox) : MailPc → Prop
  | .create _ _ => s.list row box = none ∨ s.list row box = some listMark
  | .deleteList del => ∀ d ∈ s.list row box, updateHash d (del.map Hash.text) = listMark
  | _ => True

instance (row : Str) (box : Box) (s : Mailbox) : DecidablePred (KeepsOthers row box s)
  | .create _ _ =>
    inferInstanceAs (Decidable (s.list row box = none ∨ s.list row box = some listMark))
  | .deleteList del =>
    match h : s.list row box with
    | none => .isTrue fun d hd => by rw [h] at hd; cases hd
    | some d => decidable_of_iff (updateHash d (del.map Hash.text) = listMark)
        ⟨fun hd e he => by rw [h] at he; exact Option.some.inj he ▸ hd, fun hd => hd d h⟩
  | .get _ _ | .cput _ _ _ | .store _ _ | .getList _ | .cputList _ _ | .deleteMails _ | .done =>
    .isTrue trivial

variable {row : Str} {box : Box} {s t : Mailbox} {p q : MailPc}

theorem WellFormed.isList (h : s.WellFormed row box) : s.IsList row box := by
  rcases h with hnone | ⟨hs, -, -, hsome⟩
  · exact Or.inl hnone
  · exact Or.inr ⟨hs, hsome⟩

/-- **A step keeps the list well formed.** -/
theorem wellFormed_step (hs : s.WellFormed row box) (hd : Did row box s t p) :
    t.WellFormed row box := by
  cases hd with
  | kept hlist hdelivered hasked =>
      rw [WellFormed, hlist, hdelivered]
      exact hs
  | created hp hlist hdelivered hasked =>
      exact Or.inr ⟨[], List.nodup_nil, List.nil_sublist _, hlist⟩
  | added h gs hold hlist hdelivered hasked =>
      obtain hnone | ⟨gs', hnodup, hsub, hsome⟩ := hs
      · exact absurd (hold.symm.trans hnone) (by simp)
      obtain rfl := listText_inj (Option.some.inj (hold.symm.trans hsome))
      -- the hash goes on top in the list as in the order of deliveries
      have hnew : (h :: gs.erase h).Sublist (latest t.delivered) := by
        rw [hdelivered, latest, hnodup.erase_eq_filter]
        exact (hsub.filter _).cons_cons h
      exact Or.inr ⟨_, hnew.nodup (nodup_latest _), hnew, hlist⟩
  | removed del gs hold hlist hdel hdelivered hasked =>
      obtain hnone | ⟨gs', hnodup, hsub, hsome⟩ := hs
      · exact absurd (hold.symm.trans hnone) (by simp)
      obtain rfl := listText_inj (Option.some.inj (hold.symm.trans hsome))
      refine Or.inr ⟨_, hnodup.filter _, ?_, hlist⟩
      rw [hdelivered]
      exact List.filter_sublist.trans hsub
  | deleted del hp hlist hdel hdelivered hasked => exact Or.inl hlist

/-- A thread keeps what it has read while others work. -/
theorem hasRead_mono (h : s.asked ⊆ t.asked) (hr : s.HasRead q) : t.HasRead q := by
  cases q with
  | cput m mail old => exact hr
  | cputList del old => exact ⟨hr.1, List.Subset.trans hr.2 h⟩
  | deleteList del => exact List.Subset.trans hr h
  | get m mail => trivial
  | create m mail => trivial
  | store m mail => trivial
  | getList del => trivial
  | deleteMails del => trivial
  | done => trivial

theorem Did.asked_mono (hd : Did row box s t p) : s.asked ⊆ t.asked := by
  cases hd with
  | kept hlist hdelivered hasked => exact hasked
  | created hp hlist hdelivered hasked => exact hasked ▸ List.Subset.refl _
  | added h gs hold hlist hdelivered hasked => exact hasked ▸ List.Subset.refl _
  | removed del gs hold hlist hdel hdelivered hasked => exact hasked ▸ List.Subset.refl _
  | deleted del hp hlist hdel hdelivered hasked => exact hasked ▸ List.Subset.refl _

/-- **Under its condition a step loses nothing.** -/
theorem nothingLost_step (hs : s.NothingLost row box) (hk : s.KeepsOthers row box p)
    (hd : Did row box s t p) : t.NothingLost row box := by
  intro h hdel hask
  cases hd with
  | kept hlist hdelivered hasked =>
      rw [hlist]
      exact hs h (hdelivered ▸ hdel) fun hm => hask (hasked hm)
  | created hp hlist hdelivered hasked =>
      -- the list was absent or empty, so nothing could be on it
      obtain ⟨m, mail, rfl⟩ := hp
      obtain ⟨gs, hgs, hsome⟩ := hs h (hdelivered ▸ hdel) (hasked ▸ hask)
      rcases hk with hnone | hmark
      · exact absurd (hsome.symm.trans hnone) (by simp)
      · have hnil : gs = [] := listText_inj (Option.some.inj (hsome.symm.trans hmark))
        exact absurd hgs (hnil ▸ List.not_mem_nil)
  | added g gs hold hlist hdelivered hasked =>
      refine ⟨_, ?_, hlist⟩
      rw [hdelivered] at hdel
      by_cases hhg : h = g
      · exact hhg ▸ List.mem_cons_self
      · obtain ⟨gs', hgs, hsome⟩ := hs h ((List.mem_cons.mp hdel).resolve_left hhg) (hasked ▸ hask)
        obtain rfl := listText_inj (Option.some.inj (hold.symm.trans hsome))
        exact List.mem_cons_of_mem _ ((List.mem_erase_of_ne hhg).mpr hgs)
  | removed del gs hold hlist hsub hdelivered hasked =>
      obtain ⟨gs', hgs, hsome⟩ := hs h (hdelivered ▸ hdel) (hasked ▸ hask)
      obtain rfl := listText_inj (Option.some.inj (hold.symm.trans hsome))
      have hkeep : h ∉ del := fun hm => hask (hasked ▸ hsub hm)
      exact ⟨_, List.mem_filter.mpr ⟨hgs, decide_eq_true hkeep⟩, hlist⟩
  | deleted del hp hlist hsub hdelivered hasked =>
      subst hp
      obtain ⟨gs, hgs, hsome⟩ := hs h (hdelivered ▸ hdel) (hasked ▸ hask)
      have hmark := hk _ hsome
      rw [updateHash_listText] at hmark
      have hnil : gs.filter (· ∉ del) = [] := listText_inj hmark
      by_cases hm : h ∈ del
      · exact absurd (hasked ▸ hsub hm) hask
      · have hin : h ∈ gs.filter (· ∉ del) := List.mem_filter.mpr ⟨hgs, decide_eq_true hm⟩
        exact absurd hin (hnil ▸ List.not_mem_nil)

theorem hasRead_start (s : Mailbox) (c : MailCall) : s.HasRead c.start := by
  cases c <;> trivial

theorem Starts.wellFormed (h : s.Starts row box) : s.WellFormed row box := by
  rcases h.list with ⟨hnone, -⟩ | ⟨hsome, hnodup⟩
  · exact Or.inl hnone
  · exact Or.inr ⟨_, hnodup, by rw [latest_of_nodup hnodup], hsome⟩

theorem Starts.nothingLost (h : s.Starts row box) : s.NothingLost row box := by
  intro m hm _
  rcases h.list with ⟨-, hnil⟩ | ⟨hsome, -⟩
  · rw [hnil] at hm
    exact absurd hm List.not_mem_nil
  · exact ⟨_, hm, hsome⟩

/-- What the viewer is shown of a well-formed list are distinct hashes. -/
theorem WellFormed.shown_nodup (hs : s.WellFormed row box) {l : List Str}
    (h : s.shown row box = some l) : l.Nodup := by
  obtain ⟨⟨r, v⟩, hask, h⟩ := Option.bind_eq_some_iff.mp h
  obtain ⟨err, herr, rfl⟩ := Option.map_eq_some_iff.mp h
  cases err with
  | true => exact List.nodup_nil
  | false =>
      obtain ⟨-, hat | ⟨-, rfl | rfl⟩⟩ := ask_get hask
      · rcases hs with hnone | ⟨gs, hnodup, -, hsome⟩
        · exact absurd (hat.symm.trans hnone) (by simp)
        · obtain rfl := Option.some.inj (hat.symm.trans hsome)
          show (recvHashes (listText gs)).Nodup
          rw [recvHashes_listText]
          exact List.Nodup.map (fun _ _ => Hash.ext_text) hnodup
      · exact absurd (show compare1 replyNullRow ['E', 'R', 'R'] = some false from herr) (by decide)
      · exact absurd (show compare1 replyNullCol ['E', 'R', 'R'] = some false from herr) (by decide)

end Mailbox

open Mailbox

variable {row : Str} {box : Box} {s : Mailbox} {as : List (Lib.Turn MailCall)}
  {t : Lib.Threads Mailbox MailPc}

/--
**The mailbox list is well formed in every reachable state**, and shows no mail
twice.
-/
theorem list_wellFormed (hs : s.Starts row box)
    (hr : Lib.run (Mailbox.step row box) { shared := s } as = some t) :
    t.shared.WellFormed row box ∧ ∀ l ∈ t.shared.shown row box, l.Nodup := by
  have hinv : Lib.Threads.Holds (WellFormed row box) HasRead t := by
    refine Lib.inv_of_run ?_ ⟨hs.wellFormed, fun _ hp => absurd hp List.not_mem_nil⟩ hr
    intro u a v hu h
    refine Lib.Threads.holds_step (C := fun _ _ => True) ?_ ?_ ?_ hu ?_ h
    · exact fun u c _ => hasRead_start u c
    · intro u p v q hJ hP _ h
      obtain ⟨hd, hq⟩ := next_cases hJ.isList hP h
      exact ⟨wellFormed_step hJ hd, hq⟩
    · intro u p v q hJ hP _ h r hr
      exact hasRead_mono (next_cases hJ.isList hP h).1.asked_mono hr
    · cases a with
      | enter c => trivial
      | next i => exact fun _ _ => trivial
  exact ⟨hinv.shared, fun l hl => hinv.shared.shown_nodup hl⟩

/-- A hash of one digit, over and over. -/
def flatHash (n : Fin 16) : Hash where
  text := List.replicate 17 (hexDigit n)
  length := List.length_replicate
  hex _ hc := List.eq_of_mem_replicate hc ▸ hexDigit_mem n

/-- The inbox of a user who has no mail yet. -/
def emptyInbox : Lib.Threads Mailbox MailPc := { shared := { server := { primary := true } } }

theorem emptyInbox_starts (row : Str) : emptyInbox.shared.Starts row .inbox :=
  ⟨Or.inl ⟨by simp [Mailbox.list, emptyInbox], rfl⟩⟩

/-- Two deliveries to an empty mailbox: the second puts a list over that of the first. -/
def overwrittenHistory : List (Lib.Turn MailCall) :=
  [.enter (.deliver (flatHash 1) ['x', '\r', '\n']),
    .enter (.deliver (flatHash 2) ['y', '\r', '\n']),
   .next 0, .next 1, .next 0, .next 0, .next 0, .next 0, .next 1, .next 1, .next 1, .next 1]

theorem overwritten_wellFormed :
    ∃ t, Lib.run (Mailbox.step ['b', 'o', 'b'] .inbox) emptyInbox overwrittenHistory = some t ∧
      t.shared.WellFormed ['b', 'o', 'b'] .inbox ∧
      ∀ l ∈ t.shared.shown ['b', 'o', 'b'] .inbox, l.Nodup := by
  have hrun : (Lib.run (Mailbox.step ['b', 'o', 'b'] .inbox) emptyInbox
      overwrittenHistory).isSome = true := by decide +kernel
  obtain ⟨t, ht⟩ := Option.isSome_iff_exists.mp hrun
  exact ⟨t, ht, list_wellFormed (emptyInbox_starts _) ht⟩

/-- **No delivered mail is lost from the list** if every step meets `KeepsOthers`. -/
theorem nothingLost_of_keepsOthers (hs : s.Starts row box)
    (hg : Lib.Guarded (Mailbox.step row box) (Lib.Threads.Meets (KeepsOthers row box))
      { shared := s } as)
    (hr : Lib.run (Mailbox.step row box) { shared := s } as = some t) :
    t.shared.NothingLost row box := by
  have hinv : Lib.Threads.Holds (fun s => s.WellFormed row box ∧ s.NothingLost row box)
      HasRead t := by
    refine Lib.inv_of_guarded ?_
      ⟨⟨hs.wellFormed, hs.nothingLost⟩, fun _ hp => absurd hp List.not_mem_nil⟩ hg hr
    intro u a v hu ha h
    refine Lib.Threads.holds_step ?_ ?_ ?_ hu ha h
    · exact fun u c _ => hasRead_start u c
    · intro u p v q hJ hP hC h
      obtain ⟨hd, hq⟩ := next_cases hJ.1.isList hP h
      exact ⟨⟨wellFormed_step hJ.1 hd, nothingLost_step hJ.2 hC hd⟩, hq⟩
    · intro u p v q hJ hP _ h r hr
      exact hasRead_mono (next_cases hJ.1.isList hP h).1.asked_mono hr
  exact hinv.shared.2

/-- A delivery, another one, and the deletion of the first. -/
def keptHistory : List (Lib.Turn MailCall) :=
  [.enter (.deliver (flatHash 1) ['x', '\r', '\n']), .next 0, .next 0, .next 0, .next 0,
   .enter (.deliver (flatHash 2) ['y', '\r', '\n']), .enter (.update [flatHash 1]),
   .next 1, .next 1, .next 2, .next 0, .next 2, .next 1, .next 2, .next 2]

theorem kept_nothingLost :
    ∃ t, Lib.run (Mailbox.step ['b', 'o', 'b'] .inbox) emptyInbox keptHistory = some t ∧
      t.shared.NothingLost ['b', 'o', 'b'] .inbox := by
  have hrun : (Lib.run (Mailbox.step ['b', 'o', 'b'] .inbox) emptyInbox keptHistory).isSome
      = true := by decide +kernel
  have hg : Lib.Guarded (Mailbox.step ['b', 'o', 'b'] .inbox)
      (Lib.Threads.Meets (KeepsOthers ['b', 'o', 'b'] .inbox)) emptyInbox keptHistory := by
    decide +kernel
  obtain ⟨t, ht⟩ := Option.isSome_iff_exists.mp hrun
  exact ⟨t, ht, nothingLost_of_keepsOthers (emptyInbox_starts _) hg ht⟩

/-- Both deliveries of `overwrittenHistory` finish, and the first hash is not on the list. -/
theorem overwritten_lost :
    ∃ t, Lib.run (Mailbox.step ['b', 'o', 'b'] .inbox) emptyInbox overwrittenHistory = some t ∧
      t.threads = [.done, .done] ∧ t.shared.delivered = [flatHash 2, flatHash 1] ∧
      t.shared.asked = [] ∧
      t.shared.list ['b', 'o', 'b'] .inbox = some (listText [flatHash 2]) ∧
      ¬ t.shared.NothingLost ['b', 'o', 'b'] .inbox := by
  have hrun : ∃ t, Lib.run (Mailbox.step ['b', 'o', 'b'] .inbox) emptyInbox overwrittenHistory
        = some t ∧
      t.threads = [.done, .done] ∧ t.shared.delivered = [flatHash 2, flatHash 1] ∧
      t.shared.asked = [] ∧
      t.shared.list ['b', 'o', 'b'] .inbox = some (listText [flatHash 2]) :=
    ⟨_, rfl, rfl, rfl, rfl, by decide +kernel⟩
  obtain ⟨t, ht, hthreads, hdelivered, hasked, hlist⟩ := hrun
  refine ⟨t, ht, hthreads, hdelivered, hasked, hlist, fun hlost => ?_⟩
  obtain ⟨hs, hmem, hsome⟩ := hlost (flatHash 1) (by rw [hdelivered]; decide)
    (by rw [hasked]; decide)
  obtain rfl := listText_inj (Option.some.inj (hlist.symm.trans hsome))
  exact absurd hmem (by decide)

end PennCloud
