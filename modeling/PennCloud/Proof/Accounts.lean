import PennCloud.Proof.Injection
import PennCloud.Storage.Session

/-!
# One account for a name

`resgister` looks for the password cell of the name, claims the name by a `CPUT`
from `NULL`, and then puts the name and the empty listing of the outermost folder,
the latter whatever may be there. Any number of sign-ups and sign-ins of one name
and of calls in its folders run here as threads, a request of theirs being one
step.

The claim is won once, and everybody who gets in has the password it was won with.
Until the winner has put the listing nobody finds a folder to work in, so nothing
is lost by that `PUT`. All of this needs that nobody chooses the password `NULL`:
its cell reads as an absent one to the next claim.
-/

namespace PennCloud

open Str

/-- What a browser can ask for about one name. -/
inductive AccountCall
  | register (password : Str)
  | signIn (password : Str)
  | call (c : DirCall)

/-- Where it stands: before the request that it sends next. -/
inductive AccountPc
  /-- `resgister`, before its first `GET`. -/
  | register (password : Str)
  /-- The name is free: about to claim it. -/
  | claim (password : Str)
  | putName (password : Str)
  | putContent (password : Str)
  /-- About to get the name of the outermost folder. -/
  | test (password : Str)
  /-- About to open it. -/
  | opening (password : Str)
  | registered (password : Str) (result : Bool)
  /-- `sign_in`, before its `GET`. -/
  | signIn (password : Str)
  /-- The password is right: about to open the outermost folder. -/
  | entering (password : Str)
  | signedIn (password : Str) (result : Bool)
  | call (p : DirPc)

namespace AccountPc

def start : AccountCall → AccountPc
  | .register password => .register password
  | .signIn password => .signIn password
  | .call c => .call (.start c)

/-- The claim has been accepted. -/
def won : AccountPc → Bool
  | .putName _ | .putContent _ | .test _ | .opening _ | .registered _ true => true
  | _ => false

/-- It has not put the empty listing yet. -/
def putting : AccountPc → Bool
  | .putName _ | .putContent _ => true
  | _ => false

/-- The password it has got in with. -/
def password? : AccountPc → Option Str
  | .putName password | .putContent password | .test password | .opening password
  | .registered password true | .entering password | .signedIn password true => some password
  | _ => none

/-- A call that has sent nothing, or has returned. -/
def idle : AccountPc → Bool
  | .call (.start _) | .call (.done _ _) => true
  | .call _ => false
  | _ => true

end AccountPc

namespace Accounts

/-- `open_folder` of the outermost folder; what it returns is not looked at. -/
def openStorage (row : Str) (s : Dir) : Option Dir :=
  (s.get row storageFolder).bind fun r =>
    if r.1 = nullReply then some r.2 else (Storage.files r.1).map fun _ => r.2

/-- The next request. -/
def next (row : Str) (s : Dir) : AccountPc → Option (Dir × AccountPc)
  | .register password => (s.server.sendGet row passwordCol).map fun r =>
    ({ s with server := r.2 },
      if r.1 = nullReply then .claim password else .registered password false)
  | .claim password =>
    (s.update (.cput row passwordCol "NULL".toList password)).map fun r =>
      (r.2, if "-ERR".toList <:+: r.1 then .registered password false else .putName password)
  | .putName password =>
    (s.update (.put row (nameCol storageFolder) storageFolder)).map fun r =>
      (r.2, .putContent password)
  | .putContent password =>
    (s.update (.put row (contentCol storageFolder) [])).map fun r => (r.2, .test password)
  | .test password => (s.server.sendGet row (nameCol storageFolder)).map fun r =>
    ({ s with server := r.2 }, .opening password)
  | .opening password => (openStorage row s).map fun t => (t, .registered password true)
  | .signIn password => (s.server.sendGet row passwordCol).map fun r =>
    ({ s with server := r.2 },
      if r.1 = password then .entering password else .signedIn password false)
  | .entering password => (openStorage row s).map fun t => (t, .signedIn password true)
  | .registered .. | .signedIn .. => none
  | .call p => (s.next row p).map fun r => (r.1, .call r.2)

/-- Somebody comes in, or sends the next request. -/
abbrev step (row : Str) : Lib.Threads Dir AccountPc → Lib.Turn AccountCall →
    Option (Lib.Threads Dir AccountPc) :=
  Lib.Threads.step AccountPc.start (next row)

/-- The cell of the password. -/
def password (row : Str) (s : Dir) : Option Str := s.server.table.at? row passwordCol

/-- A password without zero bytes that does not read as an absent cell. -/
def Proper (password : Str) : Prop := '\x00' ∉ password ∧ password ≠ "NULL".toList

/-- Nobody registers with another password, or signs in with the text for an absent cell. -/
def Chosen : Lib.Turn AccountCall → Prop
  | .enter (.register password) => Proper password
  | .enter (.signIn password) => password ≠ nullReply
  | _ => True

instance : DecidablePred Chosen
  | .enter (.register _) => inferInstanceAs (Decidable (_ ∧ _))
  | .enter (.signIn _) => inferInstanceAs (Decidable (_ ≠ _))
  | .enter (.call _) | .next _ => .isTrue trivial

/-! ## Requests that leave the password alone -/

section Frame

variable {row : Str} {s t : Dir} {p q : DirPc} {response : Str}

theorem nameCol_ne_password (f : Str) : passwordCol ≠ nameCol f := by
  intro h
  have hlast := congrArg List.getLast? h
  rw [nameCol, List.getLast?_append, show ":name".toList.getLast?.or f.getLast? = some 'e' from rfl]
    at hlast
  exact absurd hlast (by decide)

theorem contentCol_ne_password (f : Str) : passwordCol ≠ contentCol f := by
  intro h
  have hlast := congrArg List.getLast? h
  rw [contentCol, List.getLast?_append,
    show ":content".toList.getLast?.or f.getLast? = some 't' from rfl] at hlast
  exact absurd hlast (by decide)

theorem get_password {path : Str} (h : s.get row path = some (response, t)) :
    password row t = password row s := by rw [get_same h]

theorem put_password {col data : Str} (hcol : passwordCol ≠ col)
    (h : s.update (.put row col data) = some (response, t)) : password row t = password row s := by
  obtain ⟨⟨r, v⟩, hsend, he⟩ := Option.map_eq_some_iff.mp h
  cases he
  obtain ⟨reply, hask⟩ := sendUpdate_ask hsend
  exact (ask_put hask row passwordCol).trans (if_neg fun hc => hcol hc.2)

theorem delete_password {col : Str} (hcol : passwordCol ≠ col)
    (h : s.update (.delete row col) = some (response, t)) : password row t = password row s := by
  obtain ⟨⟨r, v⟩, hsend, he⟩ := Option.map_eq_some_iff.mp h
  cases he
  obtain ⟨reply, hask⟩ := sendUpdate_ask hsend
  exact (ask_delete hask row passwordCol).trans (if_neg fun hc => hcol hc.2)

theorem cput_password {col old new : Str} (hcol : passwordCol ≠ col)
    (h : s.update (.cput row col old new) = some (response, t)) :
      password row t = password row s := by
  obtain ⟨⟨r, v⟩, hsend, he⟩ := Option.map_eq_some_iff.mp h
  cases he
  rcases sendUpdate_cput hsend with ⟨-, -, hat⟩ | ⟨-, rfl⟩
  · exact (hat row passwordCol).trans (if_neg fun hc => hcol hc.2)
  · rfl

/-- **A call in the folders leaves the password alone.** -/
theorem next_password (h : s.next row p = some (t, q)) : password row t = password row s := by
  cases p with
  | start c =>
      obtain ⟨r, hget, h⟩ := Option.bind_eq_some_iff.mp h
      obtain ⟨_, -, he⟩ := Option.map_eq_some_iff.mp h
      cases he
      exact get_password hget
  | remove c oldData newData hasDeleted =>
      obtain ⟨r, hput, he⟩ := Option.map_eq_some_iff.mp h
      have hkept := cput_password (contentCol_ne_password _) hput
      split at he
      · cases he
        exact hkept
      · split at he <;> cases he <;> exact hkept
  | add a oldData =>
      obtain ⟨r, hput, he⟩ := Option.map_eq_some_iff.mp h
      have hkept := cput_password (contentCol_ne_password _) hput
      split at he
      · cases he
        exact hkept
      · cases a <;> cases he <;> exact hkept
  | rewrite c oldData newData =>
      obtain ⟨r, hput, he⟩ := Option.map_eq_some_iff.mp h
      cases he
      exact cput_password (contentCol_ne_password _) hput
  | putNewName c | putName u =>
      obtain ⟨r, hput, he⟩ := Option.map_eq_some_iff.mp h
      cases he
      exact put_password (nameCol_ne_password _) hput
  | putContent u =>
      obtain ⟨r, hput, he⟩ := Option.map_eq_some_iff.mp h
      cases he
      exact put_password (contentCol_ne_password _) hput
  | deleteName d =>
      obtain ⟨r, hput, he⟩ := Option.map_eq_some_iff.mp h
      cases he
      exact delete_password (nameCol_ne_password _) hput
  | deleteContent d =>
      obtain ⟨r, hput, he⟩ := Option.map_eq_some_iff.mp h
      cases he
      exact delete_password (contentCol_ne_password _) hput
  | target m | addAgain a response | recover m | rewriteAgain c
      | removeAgain c response hasDeleted =>
      obtain ⟨r, hget, h⟩ := Option.bind_eq_some_iff.mp h
      have hkept := get_password hget
      split at h
      · cases h
        exact hkept
      · obtain ⟨_, -, he⟩ := Option.map_eq_some_iff.mp h
        cases he
        exact hkept
  | refresh m =>
      obtain ⟨r, hget, h⟩ := Option.bind_eq_some_iff.mp h
      obtain ⟨_, -, he⟩ := Option.map_eq_some_iff.mp h
      cases he
      exact get_password hget
  | done => cases h

/-- Where there are no listings a call is over after its first request. -/
theorem start_nothing {c : DirCall} (hnone : ∀ f, s.cell row f = none)
    (h : s.next row (.start c) = some (t, q)) : t = s ∧ q = .done c false := by
  obtain ⟨r, hget, h⟩ := Option.bind_eq_some_iff.mp h
  obtain ⟨p, hbegin, he⟩ := Option.map_eq_some_iff.mp h
  cases he
  refine ⟨get_same hget, ?_⟩
  have hnull := (Dir.get_reads hget).1 (hnone _)
  cases c <;> rw [DirCall.begin, hnull] at hbegin <;> exact (Option.some.inj hbegin).symm

/-- What a `GET` returns of an absent cell, and of one without a zero byte. -/
theorem sendGet_reads {v w : Server} {col : Str} (h : v.sendGet row col = some (response, w)) :
    (v.table.at? row col = none → response = nullReply) ∧
      ∀ d, '\x00' ∉ d → v.table.at? row col = some (d ++ crlf) → response = d := by
  obtain ⟨r, hround, hread⟩ := Option.bind_eq_some_iff.mp h
  split at hread
  · cases hread
  rename_i hcrash
  cases hread
  unfold Server.parseGET at hround
  split at hround
  · rename_i hrow
    have hnone : v.table.at? row col = none := Nested.at?_of_not_hasRow _ (by simpa using hrow)
    refine ⟨fun _ => ?_, fun d _ hsome => ?_⟩
    · exact Option.some.inj (hround.symm.trans (by decide : readGetRound (cstr replyNullRow) = _))
    · rw [hnone] at hsome
      cases hsome
  · refine ⟨fun hnone => ?_, fun d hd hsome => ?_⟩
    · rw [hnone] at hround
      exact Option.some.inj (hround.symm.trans (by decide : readGetRound (cstr replyNullCol) = _))
    · rw [hsome] at hround
      exact readGetRound_data hd hround hcrash

theorem openStorage_same (h : openStorage row s = some t) : t = s := by
  obtain ⟨r, hget, h⟩ := Option.bind_eq_some_iff.mp h
  have hsame := get_same hget
  split at h
  · exact (Option.some.inj h).symm.trans hsame
  · obtain ⟨_, -, he⟩ := Option.map_eq_some_iff.mp h
    exact he.symm.trans hsame

end Frame

/-! ## The claim -/

section Claim

variable {row : Str} {s t : Lib.Threads Dir AccountPc} {u v : Dir} {p q : AccountPc}

/-- What its password is, before it is compared with anything. -/
def Asks : AccountPc → Prop
  | .register pw | .claim pw => Proper pw
  | .signIn pw => pw ≠ nullReply
  | _ => True

/-- What a thread relies on: a password it has got in with is the one in the cell. -/
def Knows (row : Str) (s : Dir) (p : AccountPc) : Prop :=
  (∀ pw ∈ p.password?, password row s = some (pw ++ crlf)) ∧ Asks p

/-- What the password cell may hold. -/
def Sound (row : Str) (s : Dir) : Prop := ∀ d ∈ password row s, ∃ pw, Proper pw ∧ d = pw ++ crlf

/-- Before the winner has put its listing, there are no listings and no calls at work. -/
structure Early (row : Str) (s : Lib.Threads Dir AccountPc) : Prop where
  nothing : ∀ f, s.shared.cell row f = none
  idle : ∀ p ∈ s.threads, p.idle = true

/-- The invariant. -/
structure Inv (row : Str) (s : Lib.Threads Dir AccountPc) : Prop where
  sound : Sound row s.shared
  knows : ∀ p ∈ s.threads, Knows row s.shared p
  once : s.threads.countP AccountPc.won ≤ (password row s.shared).isSome.toNat
  early : password row s.shared = none ∨ (∃ p ∈ s.threads, p.putting = true) → Early row s

/-- What a request of a thread does: to the cell of the password, and to itself. -/
inductive Goes (row : Str) (s : Dir) : AccountPc → Dir → AccountPc → Prop
  /-- It reads, or changes other cells; who got in before or gets in now has the password. -/
  | keeps {p q : AccountPc} {t : Dir} (hpw : password row t = password row s)
      (hwon : q.won = p.won) (hknows : Knows row s p → Knows row t q)
        (hput : q.putting = true → p.putting = true)
      (hcells : (∀ f, s.cell row f = none) → p.idle = true →
        (q.idle = true ∧ ∀ f, t.cell row f = none) ∨ (p.putting = true ∧ q.putting = false)) :
      Goes row s p t q
  /-- It claims the name. -/
  | claims {pw : Str} {t : Dir} (hfree : password row s = none)
      (hpw : password row t = some (pw ++ crlf)) (hcells : ∀ f, t.cell row f = s.cell row f) :
      Goes row s (.claim pw) t (.putName pw)

/-- It stays as it is, and so do the password and the listings. -/
theorem goes_reading (hpw : u = v) (hwon : q.won = p.won) (hknows : Knows row u p → Knows row u q)
    (hput : q.putting = p.putting) (hidle : q.idle = p.idle) : Goes row u p v q := by
  subst hpw
  exact .keeps rfl hwon hknows (fun h => hput ▸ h) fun hnone hp => Or.inl ⟨hidle ▸ hp, hnone⟩

theorem goes_of_next (hsound : Sound row u) (hp : Knows row u p)
    (h : next row u p = some (v, q)) : Goes row u p v q := by
  cases p with
  | register pw =>
      obtain ⟨r, hget, he⟩ := Option.map_eq_some_iff.mp h
      obtain ⟨hv, hq⟩ := Prod.mk.inj he
      have hsame : u = v := by rw [← hv, sendGet_same hget]
      by_cases hnull : r.1 = nullReply
      · rw [if_pos hnull] at hq
        subst hq
        exact goes_reading hsame rfl (fun hk => ⟨fun _ h => (nomatch h), hk.2⟩) rfl rfl
      · rw [if_neg hnull] at hq
        subst hq
        exact goes_reading hsame rfl (fun _ => ⟨fun _ h => (nomatch h), trivial⟩) rfl rfl
  | claim pw =>
      obtain ⟨r, hput, he⟩ := Option.map_eq_some_iff.mp h
      obtain ⟨⟨response, w⟩, hsend, rfl⟩ := Option.map_eq_some_iff.mp hput
      obtain ⟨hv, hq⟩ := Prod.mk.inj he
      rcases sendUpdate_cput hsend with ⟨hholds, rfl, hat⟩ | ⟨rfl, hw⟩
      · have hfree : password row u = none := by
          rcases hholds with ⟨hnone, -⟩ | hsome
          · exact hnone
          · -- nobody has chosen the password `NULL`
            obtain ⟨pw', hproper, hd⟩ := hsound _ hsome
            exact absurd (List.append_cancel_right hd).symm hproper.2
        have hq' : q = .putName pw := hq.symm.trans
          (if_neg (show ¬ "-ERR".toList <:+: replyOK by decide))
        rw [hq', ← hv]
        refine .claims hfree ((hat row passwordCol).trans (if_pos ⟨rfl, rfl⟩)) fun f => ?_
        exact (hat row (contentCol f)).trans (if_neg fun hc => contentCol_ne_password f hc.2.symm)
      · have hq' : q = .registered pw false := hq.symm.trans
          (if_pos (show "-ERR".toList <:+: replyErr by decide))
        have hsame : u = v := by rw [← hv, hw]
        rw [hq']
        exact goes_reading hsame rfl (fun _ => ⟨fun _ h => (nomatch h), trivial⟩) rfl rfl
  | putName pw =>
      obtain ⟨r, hput, he⟩ := Option.map_eq_some_iff.mp h
      cases he
      have hkept := put_password (nameCol_ne_password _) hput
      refine .keeps hkept rfl (fun hk => ⟨fun pw' hpw' => hkept ▸ hk.1 pw' hpw', trivial⟩)
        (fun _ => rfl) fun hnone _ => Or.inl ⟨rfl, fun f => ?_⟩
      rw [Dir.put_other (fun hc => nameCol_ne_contentCol _ _ hc.symm) hput]
      exact hnone f
  | putContent pw =>
      obtain ⟨r, hput, he⟩ := Option.map_eq_some_iff.mp h
      cases he
      have hkept := put_password (contentCol_ne_password _) hput
      exact .keeps hkept rfl (fun hk => ⟨fun pw' hpw' => hkept ▸ hk.1 pw' hpw', trivial⟩)
        (fun h => (nomatch h)) fun _ _ => Or.inr ⟨rfl, rfl⟩
  | test pw =>
      obtain ⟨r, hget, he⟩ := Option.map_eq_some_iff.mp h
      obtain ⟨hv, rfl⟩ := Prod.mk.inj he
      exact goes_reading (by rw [← hv, sendGet_same hget]) rfl (fun hk => ⟨hk.1, trivial⟩) rfl rfl
  | opening pw | entering pw =>
      obtain ⟨r, hopen, he⟩ := Option.map_eq_some_iff.mp h
      cases he
      exact goes_reading (openStorage_same hopen).symm rfl (fun hk => ⟨hk.1, trivial⟩) rfl rfl
  | signIn pw =>
      obtain ⟨r, hget, he⟩ := Option.map_eq_some_iff.mp h
      obtain ⟨hv, hq⟩ := Prod.mk.inj he
      have hsame : u = v := by rw [← hv, sendGet_same hget]
      by_cases hright : r.1 = pw
      · rw [if_pos hright] at hq
        subst hq
        refine goes_reading hsame rfl (fun _ => ⟨fun pw' hpw' => ?_, trivial⟩) rfl rfl
        cases hpw'
        cases hcell : password row u with
        | none => exact absurd (hright.symm.trans ((sendGet_reads hget).1 hcell)) hp.2
        | some d =>
            obtain ⟨pw', hproper, rfl⟩ := hsound d hcell
            rw [← hright, (sendGet_reads hget).2 pw' hproper.1 hcell]
      · rw [if_neg hright] at hq
        subst hq
        exact goes_reading hsame rfl (fun _ => ⟨fun _ h => (nomatch h), trivial⟩) rfl rfl
  | registered | signedIn => cases h
  | call p =>
      obtain ⟨r, hnext, he⟩ := Option.map_eq_some_iff.mp h
      cases he
      refine .keeps (next_password hnext) rfl (fun _ => ⟨fun _ h => (nomatch h), trivial⟩)
        (fun h => (nomatch h)) fun hnone hidle => Or.inl ?_
      cases p with
      | start c =>
          obtain ⟨hsame, hq⟩ := start_nothing hnone hnext
          rw [hq, hsame]
          exact ⟨rfl, hnone⟩
      | done => cases hnext
      | _ => cases hidle

/-- One who gets in knows the password; one who knows it still knows it. -/
theorem Knows.mono (hp : Knows row u p)
    (hpw : ∀ d, password row u = some d → password row v = some d) : Knows row v p :=
  ⟨fun pw h => hpw _ (hp.1 pw h), hp.2⟩

theorem inv_next {i : Nat} (hs : Inv row s) (h : step row s (.next i) = some t) : Inv row t := by
  obtain ⟨p, q, hp, hnext, hthreads⟩ := Lib.Threads.step_next h
  have hmem := List.mem_of_getElem? hp
  have hcount := Lib.Threads.countP_set q AccountPc.won hp
  have hset : ∀ r ∈ t.threads, r ∈ s.threads ∨ r = q := fun r hr =>
    List.mem_or_eq_of_mem_set (hthreads ▸ hr)
  cases goes_of_next hs.sound (hs.knows p hmem) hnext with
  | keeps hpw hwon hknows hput hcells =>
      have hq := hknows (hs.knows p hmem)
      refine ⟨fun d hd => hs.sound d (hpw ▸ hd), fun r hr => ?_, ?_, fun hearly => ?_⟩
      · rcases hset r hr with hr | rfl
        · exact (hs.knows r hr).mono fun d hd => hpw.trans hd
        · exact hq
      · rw [hthreads, hpw, Lib.Threads.countP_set_same q hp hwon]
        exact hs.once
      · have hbefore : Early row s := hs.early (hearly.imp (fun h => hpw ▸ h) fun ⟨r, hr, hr'⟩ => by
          rcases hset r hr with hr | rfl
          · exact ⟨r, hr, hr'⟩
          · exact ⟨p, hmem, hput hr'⟩)
        rcases hcells hbefore.nothing (hbefore.idle p hmem) with ⟨hidle, hnothing⟩ | ⟨hp', hq'⟩
        · exact ⟨hnothing, fun r hr => (hset r hr).elim (hbefore.idle r) fun h => h ▸ hidle⟩
        · -- the winner has put its listing; nobody else is about to, and the password is there
          exfalso
          have hone := hs.once
          have hputs := Lib.Threads.countP_set q AccountPc.putting hp
          have hle : s.threads.countP AccountPc.putting ≤ s.threads.countP AccountPc.won :=
            List.countP_mono_left fun r _ hr => by cases r <;> first | rfl | cases hr
          rw [hp', hq', ← hthreads] at hputs
          simp only [Bool.toNat_true, Bool.toNat_false] at hputs
          rcases hearly with hnone | hother
          · rw [← hpw, hnone] at hone
            simp only [Option.isSome_none, Bool.toNat_false] at hone
            omega
          · have hpos := List.countP_pos_iff.mpr hother
            have := (password row s.shared).isSome.toNat_le
            omega
  | @claims pw _ hfree hpw hcells =>
      have hearly := hs.early (Or.inl hfree)
      refine ⟨fun d hd => ?_, fun r hr => ?_, ?_, fun _ => ⟨fun f => ?_, fun r hr => ?_⟩⟩
      · exact ⟨pw, (hs.knows _ hmem).2, (Option.some.inj (hpw.symm.trans hd)).symm⟩
      · rcases hset r hr with hr | rfl
        · exact (hs.knows r hr).mono fun d hd => absurd (hfree.symm.trans hd) (by simp)
        · exact ⟨fun pw' h => (by cases h; exact hpw), trivial⟩
      · have hone := hs.once
        rw [hfree] at hone
        rw [hthreads, hpw]
        simp only [AccountPc.won, Option.isSome_none, Option.isSome_some, Bool.toNat_true,
          Bool.toNat_false] at hone hcount ⊢
        omega
      · rw [hcells]
        exact hearly.nothing f
      · exact (hset r hr).elim (hearly.idle r) fun h => h ▸ rfl

theorem inv_step {a : Lib.Turn AccountCall} (hs : Inv row s) (ha : Chosen a)
    (h : step row s a = some t) : Inv row t := by
  cases a with
  | next i => exact inv_next hs h
  | enter k =>
      cases h
      have hnew : (AccountPc.start k).won = false ∧ (AccountPc.start k).putting = false ∧
          (AccountPc.start k).idle = true ∧ Knows row s.shared (AccountPc.start k) := by
        cases k with
        | register pw => exact ⟨rfl, rfl, rfl, fun _ h => (nomatch h), ha⟩
        | signIn pw => exact ⟨rfl, rfl, rfl, fun _ h => (nomatch h), ha⟩
        | call c => exact ⟨rfl, rfl, rfl, fun _ h => (nomatch h), trivial⟩
      refine ⟨hs.sound, fun r hr => ?_, ?_, fun hearly => ?_⟩
      · rcases List.mem_append.mp hr with hr | hr
        · exact hs.knows r hr
        · exact List.mem_singleton.mp hr ▸ hnew.2.2.2
      · rw [List.countP_append, List.countP_singleton, hnew.1]
        exact hs.once
      · have hbefore := hs.early (hearly.imp_right fun ⟨r, hr, hr'⟩ => by
          rcases List.mem_append.mp hr with hr | hr
          · exact ⟨r, hr, hr'⟩
          · rw [List.mem_singleton.mp hr, hnew.2.1] at hr'
            cases hr')
        refine ⟨hbefore.nothing, fun r hr => ?_⟩
        rcases List.mem_append.mp hr with hr | hr
        · exact hbefore.idle r hr
        · exact List.mem_singleton.mp hr ▸ hnew.2.2.1

end Claim

/-- Nobody has registered the name: it has no password and no listings. -/
structure Unregistered (row : Str) (s : Dir) : Prop where
  password : password row s = none
  nothing : ∀ f, s.cell row f = none

/--
**One account for a name.** In every interleaving of sign-ups, sign-ins and calls
under a name that starts unregistered: at most one sign-up wins the name; all who
get in have the same password, the one in the cell; and when the winner puts the
empty listing, there is no listing.
-/
theorem one_account {row : Str} {s : Dir} {as : List (Lib.Turn AccountCall)}
    {t : Lib.Threads Dir AccountPc} (hs : Unregistered row s) (has : ∀ a ∈ as, Chosen a)
    (h : Lib.run (step row) ⟨s, []⟩ as = some t) :
    t.threads.countP AccountPc.won ≤ 1 ∧
      (∀ p ∈ t.threads, ∀ pw ∈ p.password?, password row t.shared = some (pw ++ crlf)) ∧
      ∀ pw, .putContent pw ∈ t.threads → t.shared.cell row storageFolder = none := by
  have hI : Inv row t := Lib.inv_of_guarded (fun _ _ _ => inv_step)
    ⟨fun d hd => absurd (hs.password.symm.trans hd) (by simp), fun p hp =>
      absurd hp List.not_mem_nil, Nat.zero_le _, fun _ =>
        ⟨hs.nothing, fun p hp => absurd hp List.not_mem_nil⟩⟩
    (Lib.guarded_of_forall has _) h
  refine ⟨Nat.le_trans hI.once (Bool.toNat_le _), fun p hp => (hI.knows p hp).1, fun pw hp => ?_⟩
  exact (hI.early (Or.inr ⟨_, hp, rfl⟩)).nothing storageFolder

/-- A data server that holds nothing. -/
def nobody : Dir := { server := { primary := true } }

theorem nobody_unregistered (row : Str) : Unregistered row nobody :=
  ⟨Nested.at?_empty row passwordCol, fun f => Nested.at?_empty row (contentCol f)⟩

/-- Two sign-ups that both find the name free, a sign-in, and an upload. -/
def twoSignUps : List (Lib.Turn AccountCall) :=
  [.enter (.register ['x']), .enter (.register ['y']), .next 0, .next 1, .next 1, .next 0,
    .enter (.signIn ['y']), .next 2, .next 1, .next 1, .next 1, .next 1, .next 2]

theorem twoSignUps_one : ∃ t, Lib.run (step ['u']) ⟨nobody, []⟩ twoSignUps = some t ∧
    t.threads.countP AccountPc.won ≤ 1 ∧
      (∀ p ∈ t.threads, ∀ pw ∈ p.password?, password ['u'] t.shared = some (pw ++ crlf)) ∧
      ∀ pw, .putContent pw ∈ t.threads → t.shared.cell ['u'] storageFolder = none := by
  have hrun : (Lib.run (step ['u']) ⟨nobody, []⟩ twoSignUps).isSome = true := by decide
  obtain ⟨t, ht⟩ := Option.isSome_iff_exists.mp hrun
  exact ⟨t, ht, one_account (nobody_unregistered ['u']) (by decide) ht⟩

/-- The password `NULL` is taken for a free name by a sign-up that has found the name free. -/
theorem null_claimed_twice : (Lib.run (step ['u']) ⟨nobody, []⟩
    [.enter (.register "NULL".toList), .enter (.register ['y']), .next 0, .next 1,
      .next 0, .next 1]).map
      (fun t => (t.threads.countP AccountPc.won, password ['u'] t.shared)) =
    some (2, some ['y', '\r', '\n']) := by decide

/-- The text of an absent cell lets in whoever offers it as a password. -/
theorem absent_signedIn : (Lib.run (step ['u']) ⟨nobody, []⟩
    [.enter (.signIn nullReply), .next 0, .next 0]).map
      (fun t => (t.threads.map AccountPc.password?, password ['u'] t.shared)) =
    some ([some nullReply], none) := by decide

end Accounts

end PennCloud
