import PennCloud.Storage.Directory

/-!
# The two helpers that change a listing

`send_cput_command_add` and `send_cput_command_delete` compare and put, and while
that is refused they get the listing again and try with what they got. Between
their requests the other clients do what they like with the listing. So a helper
is a machine whose action is the folder as its next request finds it, and a run
of it is the list of these. Until a `CPUT` is accepted nothing the helper does
changes the folder, which leaves the others free to make any such list.

`Dir.next` runs the same requests as part of the calls; `next_add` and
`next_remove` say so.
-/

namespace PennCloud

open Str

/-- Where `send_cput_command_add` stands: before a `CPUT`, before a `GET`, or at its end. -/
inductive AddPc
  | cput (oldData : Str)
  | get (response : Str)
  | returned (response : Str)

/-- Where `send_cput_command_delete` stands. -/
inductive DeletePc
  | cput (oldData newData : Str) (hasDeleted : Bool)
  | get (response : Str) (hasDeleted : Bool)
  | returned (response : Str) (hasDeleted : Bool)

/-- The test for the name before the first `CPUT`. -/
def AddPc.start (file : FileInfo) (oldData : Str) : Option AddPc :=
  if oldData = [] then some (.cput oldData)
  else (existSameFileName file.name (parseContentFileNames oldData)).map fun exist =>
    if exist then .returned "-ERR".toList else .cput oldData

/-- The next request of `send_cput_command_add`, for the listing of `path`. -/
def AddPc.next (row path : Str) (file : FileInfo) (s : Dir) : AddPc → Option (Dir × AddPc)
  | .cput oldData =>
    (s.update (.cput row (contentCol path) oldData (oldData ++ file.line))).map fun r =>
      (r.2, if "-ERR".toList <:+: r.1 then .get r.1 else .returned r.1)
  | .get response => (s.get row path).bind fun r =>
    if r.1 = nullReply then some (r.2, .returned response)
    else if r.1 = [] then some (r.2, .cput r.1)
    else (existSameFileName file.name (parseContentFileNames r.1)).map fun exist =>
      -- the response has been cleared by then
      (r.2, if exist then .returned [] else .cput r.1)
  | .returned _ => none

/-- A scan of the listing; `hasDeleted` is never set again. -/
def DeletePc.scan (deleteName content : Str) (hasDeleted : Bool) : Option DeletePc :=
  (scanDelete deleteName (parseContentFileNames content)).map fun r =>
    .cput content r.1 (hasDeleted && !r.2)

/-- The next request of `send_cput_command_delete`. -/
def DeletePc.next (row path deleteName : Str) (s : Dir) : DeletePc → Option (Dir × DeletePc)
  | .cput oldData newData hasDeleted =>
    (s.update (.cput row (contentCol path) oldData newData)).map fun r =>
      (r.2, if "-ERR".toList <:+: r.1 then .get r.1 hasDeleted else .returned r.1 hasDeleted)
  | .get response hasDeleted => (s.get row path).bind fun r =>
    if r.1 = nullReply ∨ r.1 = [] then some (r.2, .returned response hasDeleted)
    else (DeletePc.scan deleteName r.1 hasDeleted).map (r.2, ·)
  | .returned _ _ => none

/-- A helper at work, and the folder before and after its last `CPUT`. -/
structure Helper (π : Type) where
  pc : π
  cput : Option (Dir × Dir) := none

def AddPc.puts : AddPc → Bool
  | .cput _ => true
  | _ => false

def DeletePc.puts : DeletePc → Bool
  | .cput .. => true
  | _ => false

/-- A request that finds the folder as `s`. -/
def Helper.step {π : Type} (next : Dir → π → Option (Dir × π)) (puts : π → Bool) (h : Helper π)
    (s : Dir) : Option (Helper π) :=
  (next s h.pc).map fun r => { pc := r.2, cput := if puts h.pc then some (s, r.1) else h.cput }

/-- The requests of `send_cput_command_add`. -/
abbrev addRun (row path : Str) (file : FileInfo) :
    Helper AddPc → List Dir → Option (Helper AddPc) :=
  Lib.run (Helper.step (AddPc.next row path file) AddPc.puts)

/-- The requests of `send_cput_command_delete`. -/
abbrev deleteRun (row path deleteName : Str) :
    Helper DeletePc → List Dir → Option (Helper DeletePc) :=
  Lib.run (Helper.step (DeletePc.next row path deleteName) DeletePc.puts)

/-- `send_cput_command_add` when its requests find `dirs`: the response it leaves, and its
last `CPUT`. -/
def sendCputCommandAdd (row path : Str) (file : FileInfo) (oldData : Str) (dirs : List Dir) :
    Option (Str × Option (Dir × Dir)) :=
  (AddPc.start file oldData).bind fun p => (addRun row path file { pc := p } dirs).bind fun h =>
    match h.pc with
    | .returned response => some (response, h.cput)
    | _ => none

/-- `send_cput_command_delete`: what it returns, the response, and its last `CPUT`. -/
def sendCputCommandDelete (row path oldData deleteName : Str) (dirs : List Dir) :
    Option (Bool × Str × Option (Dir × Dir)) :=
  (DeletePc.scan deleteName oldData true).bind fun p =>
    (deleteRun row path deleteName { pc := p } dirs).bind fun h =>
      match h.pc with
      | .returned response hasDeleted => some (hasDeleted, response, h.cput)
      | _ => none

/-! ## The helpers in the calls -/

/-- Where a call stands that adds an entry. -/
def AddPc.inCall (a : Addition) : AddPc → DirPc
  | .cput oldData => .add a oldData
  | .get response => .addAgain a response
  | .returned response => a.after response

/-- Where a call stands that takes an entry off. -/
def DeletePc.inCall (r : Removal) : DeletePc → DirPc
  | .cput oldData newData hasDeleted => .remove r oldData newData hasDeleted
  | .get response hasDeleted => .removeAgain r response hasDeleted
  | .returned response hasDeleted => r.after hasDeleted response

/-- A step of a call, without the record of it. -/
def Dir.unlogged (r : Dir × DirPc) : Server × DirPc := (r.1.server, r.2)

theorem check_start (a : Addition) (oldData : Str) :
    a.check "-ERR".toList oldData = (AddPc.start a.file oldData).map (AddPc.inCall a) := by
  rw [Addition.check, AddPc.start]
  split
  · rfl
  · rw [Option.map_map]
    congr 1
    funext exist
    cases exist <;> rfl

theorem scan_start (r : Removal) (content : Str) (hasDeleted : Bool) :
    r.scan content hasDeleted = (DeletePc.scan r.id content hasDeleted).map
      (DeletePc.inCall r) := by
  rw [Removal.scan, DeletePc.scan, Option.map_map]
  rfl

/-- **The requests of a call that adds are those of `send_cput_command_add`.** -/
theorem next_add (row : Str) (a : Addition) (s : Dir) {p : AddPc}
    (hp : ∀ response, p ≠ .returned response) :
    (s.next row (p.inCall a)).map Dir.unlogged
      = (p.next row a.path a.file s).map fun r => (r.1.server, r.2.inCall a) := by
  cases p with
  | cput oldData =>
      simp only [AddPc.inCall, Dir.next, AddPc.next, Option.map_map]
      congr 1
      funext r
      simp only [Function.comp_apply, Dir.unlogged]
      split
      · rfl
      · cases a <;> rfl
  | get response =>
      simp only [AddPc.inCall, Dir.next, AddPc.next]
      cases s.get row a.path with
      | none => rfl
      | some r =>
          simp only [Option.bind_some]
          split
          · rfl
          · rw [Addition.check]
            split
            · rfl
            · rw [Option.map_map, Option.map_map, Option.map_map]
              congr 1
              funext exist
              cases exist <;> rfl
  | returned response => exact absurd rfl (hp response)

/-- **The requests of a call that takes off are those of `send_cput_command_delete`.** -/
theorem next_remove (row : Str) (c : Removal) (s : Dir) {p : DeletePc}
    (hp : ∀ response hasDeleted, p ≠ .returned response hasDeleted) :
    (s.next row (p.inCall c)).map Dir.unlogged
      = (p.next row c.path c.id s).map fun r => (r.1.server, r.2.inCall c) := by
  cases p with
  | cput oldData newData hasDeleted =>
      simp only [DeletePc.inCall, Dir.next, DeletePc.next, Option.map_map]
      congr 1
      funext r
      simp only [Function.comp_apply, Dir.unlogged]
      split
      · rfl
      · split <;> rfl
  | get response hasDeleted =>
      simp only [DeletePc.inCall, Dir.next, DeletePc.next]
      cases s.get row c.path with
      | none => rfl
      | some r =>
          simp only [Option.bind_some]
          split
          · rfl
          · rw [scan_start, Option.map_map, Option.map_map, Option.map_map]
            rfl
  | returned response hasDeleted => exact absurd rfl (hp response hasDeleted)

/-! ## What they report -/

/-- Every second state: those that the `GET`s find, when the first request is a `CPUT`. -/
def everyOther {α : Type} : Bool → List α → List α
  | _, [] => []
  | true, a :: as => a :: everyOther false as
  | false, _ :: as => everyOther true as

/-- The last `CPUT` has put the entry at the end of the listing. -/
def Added (row path : Str) (file : FileInfo) (cput : Option (Dir × Dir)) : Prop :=
  ∃ s t old, cput = some (s, t) ∧ s.cell row path = some (old ++ crlf) ∧
    t.cell row path = some (old ++ file.line ++ crlf)

/-- The last `CPUT` has taken the entry off the listing, and no other. -/
def TookOff (row path id : Str) (cput : Option (Dir × Dir)) : Prop :=
  ∃ s t, cput = some (s, t) ∧ id ∈ s.ids row path ∧
    t.ids row path = (s.ids row path).filter (· ≠ id)

/-- The response says whether the entry has been added. -/
structure AddReports (row path : Str) (file : FileInfo) (response : Str)
    (cput : Option (Dir × Dir)) :
    Prop where
  ok : "+OK".toList <:+: response ↔ Added row path file cput
  err : ¬ "+OK".toList <:+: response → "-ERR".toList <:+: response

/-- What is returned says whether the entry has been taken off. -/
def DeleteReports (row path id : Str) (hasDeleted : Bool) (response : Str)
    (cput : Option (Dir × Dir)) : Prop :=
  hasDeleted = false ↔ "+OK".toList <:+: response ∧ TookOff row path id cput

/-- There is an entry of that name. -/
def Taken (filename text : Str) : Prop :=
  existSameFileName filename (parseContentFileNames text) = some true

instance (filename text : Str) : Decidable (Taken filename text) :=
  inferInstanceAs (Decidable (_ = _))

/-- The id, if it was in any of the listings, is in the last one. -/
def StaysToTheEnd (id : Str) (listings : List Str) : Prop :=
  (∃ text ∈ listings, id ∈ idsIn text) → ∃ text ∈ listings.getLast?, id ∈ idsIn text

instance (id : Str) (listings : List Str) : Decidable (StaysToTheEnd id listings) :=
  inferInstanceAs (Decidable (_ → _))

variable {row path : Str} {s t : Dir} {dirs : List Dir}

theorem not_added_same {file : FileInfo} : ¬ Added row path file (some (s, s)) := by
  rintro ⟨u, v, old, he, hu, hv⟩
  cases he
  have hlen := congrArg List.length (Option.some.inj (hu.symm.trans hv))
  simp only [List.length_append, FileInfo.line, List.length_singleton] at hlen
  omega

/-- A run that has returned makes no request. -/
theorem run_stopped {π : Type} {next : Dir → π → Option (Dir × π)} {puts : π → Bool}
    {h e : Helper π} (hstop : ∀ s, next s h.pc = none)
    (hr : Lib.run (Helper.step next puts) h dirs = some e) : dirs = [] ∧ e = h := by
  cases dirs with
  | nil => exact ⟨rfl, (Option.some.inj hr).symm⟩
  | cons s dirs =>
      obtain ⟨t, ht, -⟩ := Lib.run_cons hr
      rw [Helper.step, hstop s] at ht
      cases ht

theorem run_request {π : Type} {next : Dir → π → Option (Dir × π)} {puts : π → Bool}
    {h e : Helper π} (hr : Lib.run (Helper.step next puts) h (s :: dirs) = some e) :
    ∃ t p, next s h.pc = some (t, p) ∧
      Lib.run (Helper.step next puts) ⟨p, if puts h.pc then some (s, t) else h.cput⟩
        dirs = some e := by
  obtain ⟨h', hstep, hrest⟩ := Lib.run_cons hr
  obtain ⟨⟨t, p⟩, hnext, rfl⟩ := Option.map_eq_some_iff.mp hstep
  exact ⟨t, p, hnext, hrest⟩

theorem not_taken_nil (filename : Str) : ¬ Taken filename [] := fun h =>
  absurd (Option.some.inj h) (by decide)

theorem text_of_none (h : s.cell row path = none) : s.text row path = [] := by
  rw [Dir.text, h]

/-! ### Adding -/

/-- A `CPUT` adds the entry, or is refused. -/
theorem AddPc.cput_cases {file : FileInfo} {oldData : Str} {q : AddPc} (hold : IsListing oldData)
    (h : AddPc.next row path file s (.cput oldData) = some (t, q)) :
    q = .returned replyOK ∧ Added row path file (some (s, t)) ∨ q = .get replyErr ∧ t = s := by
  obtain ⟨⟨r, u⟩, hu, he⟩ := Option.map_eq_some_iff.mp h
  cases he
  rcases Dir.cput_cases hold hu with ⟨hcell, rfl, hput⟩ | ⟨rfl, rfl⟩
  · refine Or.inl ⟨if_neg (show ¬ "-ERR".toList <:+: replyOK by decide), ?_⟩
    exact ⟨s, u, oldData, rfl, hcell, (hput.cell path).trans (if_pos rfl)⟩
  · exact Or.inr ⟨if_pos (show "-ERR".toList <:+: replyErr by decide), rfl⟩

/-- A `GET` ends the call if the folder is gone or the name is there. -/
theorem AddPc.get_cases {file : FileInfo} {response : Str} {q : AddPc} (hs : s.Listed row path)
    (h : AddPc.next row path file s (.get response) = some (t, q)) :
    q = .returned [] ∧ Taken file.name (s.text row path) ∨
      ¬ Taken file.name (s.text row path) ∧
        (q = .returned response ∨ ∃ oldData, q = .cput oldData ∧ IsListing oldData) := by
  obtain ⟨⟨r, u⟩, hu, he⟩ := Option.bind_eq_some_iff.mp h
  obtain ⟨rfl, ⟨hnone, rfl⟩ | ⟨hlist, hsome⟩⟩ := Dir.get_cases hs hu
  · cases he
    rw [text_of_none hnone]
    exact Or.inr ⟨not_taken_nil file.name, Or.inl rfl⟩
  · simp only [if_neg hlist.ne_nullReply] at he
    rw [text_of_cell hsome]
    split at he
    · rename_i hnil
      cases he
      subst hnil
      exact Or.inr ⟨not_taken_nil file.name, Or.inr ⟨[], rfl, .nil⟩⟩
    · obtain ⟨exist, hexist, he⟩ := Option.map_eq_some_iff.mp he
      cases he
      cases exist with
      | true => exact Or.inl ⟨rfl, hexist⟩
      | false =>
          refine Or.inr ⟨fun htaken => ?_, Or.inr ⟨r, rfl, hlist⟩⟩
          exact Bool.noConfusion (Option.some.inj (hexist.symm.trans htaken))

/-- What is known of `send_cput_command_add` between its requests. -/
def AddPc.Going (c : Option (Dir × Dir)) : AddPc → Prop
  | .cput oldData => IsListing oldData
  | .get response => response = replyErr ∧ ∃ s, c = some (s, s)
  | .returned _ => False

/-- **The response is right exactly as long as no `GET` finds the name.** -/
theorem add_run_iff (file : FileInfo) {response : Str} {p : AddPc} {c : Option (Dir × Dir)}
    {e : Helper AddPc} (hdirs : ∀ s ∈ dirs, s.Listed row path) (hp : p.Going c)
    (hr : addRun row path file ⟨p, c⟩ dirs = some e) (hret : e.pc = .returned response) :
    AddReports row path file response e.cput ↔
      ∀ s ∈ everyOther (!p.puts) dirs, ¬ Taken file.name (s.text row path) := by
  induction dirs generalizing p c with
  | nil =>
      cases hr
      obtain rfl : p = .returned response := hret
      exact hp.elim
  | cons s dirs ih =>
      obtain ⟨hs, hrest⟩ := List.forall_mem_cons.mp hdirs
      obtain ⟨t, q, hnext, hr⟩ := run_request hr
      cases p with
      | cput oldData =>
          rcases AddPc.cput_cases hp hnext with ⟨rfl, hadded⟩ | ⟨rfl, rfl⟩
          · -- accepted, and returned
            obtain ⟨rfl, rfl⟩ := run_stopped (fun _ => rfl) hr
            cases hret
            refine iff_of_true ⟨iff_of_true (by decide) hadded, fun hno =>
              absurd (by decide) hno⟩ ?_
            exact fun v hv => absurd hv List.not_mem_nil
          · have hgoing : AddPc.Going (some (t, t)) (.get replyErr) := ⟨rfl, t, rfl⟩
            exact ih hrest hgoing hr
      | get old =>
          obtain ⟨rfl, v, rfl⟩ := hp
          show _ ↔ ∀ w ∈ s :: everyOther false dirs, _
          rw [List.forall_mem_cons]
          rcases AddPc.get_cases hs hnext with ⟨rfl, htaken⟩ | ⟨hfree, rfl | ⟨oldData, rfl, hold⟩⟩
          · -- the name is there, and the response is left empty
            obtain ⟨rfl, rfl⟩ := run_stopped (fun _ => rfl) hr
            cases hret
            refine iff_of_false (fun hrep => absurd (hrep.err (by decide)) (by decide)) ?_
            exact fun hno => hno.1 htaken
          · -- the folder is gone, and the response is that of the refusal
            obtain ⟨rfl, rfl⟩ := run_stopped (fun _ => rfl) hr
            cases hret
            refine iff_of_true ⟨iff_of_false (by decide) not_added_same, fun _ => by decide⟩ ?_
            exact ⟨hfree, fun v hv => absurd hv List.not_mem_nil⟩
          · rw [and_iff_right hfree]
            have hgoing : AddPc.Going (some (v, v)) (.cput oldData) := hold
            exact ih hrest hgoing hr
      | returned old => exact hp.elim

/-! ### Taking off -/

/-- What a scan makes of a listing. -/
theorem DeletePc.scan_cases {id content : Str} {hasDeleted : Bool} {q : DeletePc}
    (hlist : IsListing content) (h : DeletePc.scan id content hasDeleted = some q) :
    ∃ new, q = .cput content new (hasDeleted && !decide (id ∈ idsIn content)) ∧
      idsIn new = (idsIn content).filter (· ≠ id) := by
  obtain ⟨new, hscan, -, hids⟩ := hlist.scanDelete id
  rw [DeletePc.scan, hscan] at h
  cases h
  exact ⟨new, rfl, hids⟩

/-- A `CPUT` puts the new listing for the old one, or is refused. -/
theorem DeletePc.cput_cases {id oldData newData : Str} {hasDeleted : Bool} {q : DeletePc}
    (hold : IsListing oldData)
    (h : DeletePc.next row path id s (.cput oldData newData hasDeleted) = some (t, q)) :
    q = .returned replyOK hasDeleted ∧ s.text row path = oldData ∧ t.text row path = newData ∨
      q = .get replyErr hasDeleted ∧ t = s := by
  obtain ⟨⟨r, u⟩, hu, he⟩ := Option.map_eq_some_iff.mp h
  cases he
  rcases Dir.cput_cases hold hu with ⟨hcell, rfl, hput⟩ | ⟨rfl, rfl⟩
  · refine Or.inl ⟨if_neg (show ¬ "-ERR".toList <:+: replyOK by decide), text_of_cell hcell, ?_⟩
    exact text_of_cell ((hput.cell path).trans (if_pos rfl))
  · exact Or.inr ⟨if_pos (show "-ERR".toList <:+: replyErr by decide), rfl⟩

/-- A `GET` ends the call if there is no entry left, and else the listing is scanned. -/
theorem DeletePc.get_cases {id response : Str} {hasDeleted : Bool} {q : DeletePc}
    (hs : s.Listed row path)
    (h : DeletePc.next row path id s (.get response hasDeleted) = some (t, q)) :
    q = .returned response hasDeleted ∧ s.text row path = [] ∨
      IsListing (s.text row path) ∧ DeletePc.scan id (s.text row path) hasDeleted = some q := by
  obtain ⟨⟨r, u⟩, hu, he⟩ := Option.bind_eq_some_iff.mp h
  obtain ⟨rfl, ⟨hnone, rfl⟩ | ⟨hlist, hsome⟩⟩ := Dir.get_cases hs hu
  · cases he
    exact Or.inl ⟨rfl, text_of_none hnone⟩
  · simp only [hlist.ne_nullReply, false_or] at he
    rw [text_of_cell hsome]
    split at he
    · rename_i hnil
      cases he
      exact Or.inl ⟨rfl, hnil⟩
    · obtain ⟨p, hscan, he⟩ := Option.map_eq_some_iff.mp he
      cases he
      exact Or.inr ⟨hlist, hscan⟩

/-- The flag is cleared once one of the listings has the id. -/
def Flagged (id : Str) (met : List Str) (hasDeleted : Bool) : Prop :=
  hasDeleted = false ↔ ∃ text ∈ met, id ∈ idsIn text

/-- What is known of `send_cput_command_delete` between its requests, when it has met the
listings `met`. -/
def DeletePc.Going (id : Str) (met : List Str) (c : Option (Dir × Dir)) : DeletePc → Prop
  | .cput oldData newData hasDeleted => IsListing oldData ∧ met.getLast? = some oldData ∧
      idsIn newData = (idsIn oldData).filter (· ≠ id) ∧ Flagged id met hasDeleted
  | .get response hasDeleted => response = replyErr ∧ Flagged id met hasDeleted ∧
      ∃ s, c = some (s, s)
  | .returned _ _ => False

/-- A scanned listing is the last one that has been met. -/
theorem DeletePc.going_scan {id content : Str} {met : List Str} {c : Option (Dir × Dir)}
    {hasDeleted : Bool} {q : DeletePc} (hlist : IsListing content)
    (hflag : Flagged id met hasDeleted)
    (h : DeletePc.scan id content hasDeleted = some q) : q.Going id (met ++ [content]) c := by
  obtain ⟨new, rfl, hids⟩ := DeletePc.scan_cases hlist h
  refine ⟨hlist, List.getLast?_concat, hids, ?_⟩
  rw [Flagged] at hflag
  by_cases hid : id ∈ idsIn content
  · simp [Flagged, hid]
  · simp [Flagged, hid, hflag]

theorem not_tookOff_same {id : Str} : ¬ TookOff row path id (some (s, s)) := by
  rintro ⟨u, v, he, hmem, hids⟩
  cases he
  rw [hids] at hmem
  simp at hmem

/-- What is returned with the last listing met at hand. -/
theorem deleteReports_accepted {id old new : Str} {met : List Str} {hasDeleted : Bool}
    (hlast : met.getLast? = some old) (hids : idsIn new = (idsIn old).filter (· ≠ id))
    (hflag : Flagged id met hasDeleted) (hs : s.text row path = old) (ht : t.text row path = new) :
    DeleteReports row path id hasDeleted replyOK (some (s, t)) ↔ StaysToTheEnd id met := by
  have htook : TookOff row path id (some (s, t)) ↔ id ∈ idsIn old := by
    constructor
    · rintro ⟨u, v, he, hmem, -⟩
      cases he
      rwa [Dir.ids, hs] at hmem
    · intro hmem
      refine ⟨s, t, rfl, ?_, ?_⟩
      · rwa [Dir.ids, hs]
      · rw [Dir.ids, Dir.ids, hs, ht, hids]
  have hok : "+OK".toList <:+: replyOK := by decide
  have hin : id ∈ idsIn old → ∃ text ∈ met, id ∈ idsIn text := fun hmem =>
    ⟨old, List.mem_of_getLast? hlast, hmem⟩
  rw [Flagged] at hflag
  rw [DeleteReports, StaysToTheEnd, hflag, htook, and_iff_right hok, hlast]
  simp only [Option.mem_def, Option.some.injEq, exists_eq_left']
  exact ⟨Iff.mp, fun h => ⟨h, hin⟩⟩

/-- What is returned when there is no entry left. -/
theorem deleteReports_refused {id : Str} {met : List Str} {hasDeleted : Bool}
    (hflag : Flagged id met hasDeleted) :
    DeleteReports row path id hasDeleted replyErr (some (s, s)) ↔
    StaysToTheEnd id (met ++ [[]]) := by
  have hno : ¬ ("+OK".toList <:+: replyErr ∧ TookOff row path id (some (s, s))) := fun h =>
    not_tookOff_same h.2
  have hnil : idsIn [] = [] := rfl
  rw [Flagged] at hflag
  rw [DeleteReports, StaysToTheEnd, hflag, iff_false_right hno, List.getLast?_concat]
  simp [hnil]

/-- **What is returned is right exactly when an id that was seen is seen to the end.** -/
theorem delete_run_iff (id : Str) {response : Str} {hasDeleted : Bool} {p : DeletePc}
    {c : Option (Dir × Dir)} {met : List Str} {e : Helper DeletePc}
    (hdirs : ∀ s ∈ dirs, s.Listed row path) (hp : p.Going id met c)
    (hr : deleteRun row path id ⟨p, c⟩ dirs = some e)
    (hret : e.pc = .returned response hasDeleted) :
    DeleteReports row path id hasDeleted response e.cput ↔
      StaysToTheEnd id (met ++ (everyOther (!p.puts) dirs).map (·.text row path)) := by
  induction dirs generalizing p c met with
  | nil =>
      cases hr
      obtain rfl : p = .returned response hasDeleted := hret
      exact hp.elim
  | cons s dirs ih =>
      obtain ⟨hs, hrest⟩ := List.forall_mem_cons.mp hdirs
      obtain ⟨t, q, hnext, hr⟩ := run_request hr
      cases p with
      | cput oldData newData flag =>
          obtain ⟨hold, hlast, hids, hflag⟩ := hp
          rcases DeletePc.cput_cases hold hnext with ⟨rfl, hbefore, hafter⟩ | ⟨rfl, rfl⟩
          · obtain ⟨rfl, rfl⟩ := run_stopped (fun _ => rfl) hr
            cases hret
            have hnone : (everyOther (!(DeletePc.cput oldData newData hasDeleted).puts) [s]).map
                (·.text row path) = [] := rfl
            rw [hnone, List.append_nil]
            exact deleteReports_accepted hlast hids hflag hbefore hafter
          · have hgoing : DeletePc.Going id met (some (t, t)) (.get replyErr flag) :=
              ⟨rfl, hflag, t, rfl⟩
            exact ih hrest hgoing hr
      | get old flag =>
          obtain ⟨rfl, hflag, v, rfl⟩ := hp
          have hcons : met ++ (everyOther (!(DeletePc.get replyErr flag).puts) (s :: dirs)).map
              (·.text row path)
              = met ++ [s.text row path] ++ (everyOther false dirs).map (·.text row path) := by
            rw [List.append_assoc]
            rfl
          rw [hcons]
          rcases DeletePc.get_cases hs hnext with ⟨rfl, hnil⟩ | ⟨hlist, hscan⟩
          · -- gone, or empty
            obtain ⟨rfl, rfl⟩ := run_stopped (fun _ => rfl) hr
            cases hret
            rw [hnil]
            exact (deleteReports_refused hflag).trans
              (by rw [everyOther, List.map_nil, List.append_nil])
          · have hgoing := DeletePc.going_scan (c := some (v, v)) hlist hflag hscan
            obtain ⟨new, rfl, -⟩ := DeletePc.scan_cases hlist hscan
            exact ih hrest hgoing hr
      | returned old flag => exact hp.elim

/-! ### Both helpers -/

/-- A call of `send_cput_command_add` that returns reports what it did exactly when no `GET` of it
finds the name. -/
theorem add_reports_iff {file : FileInfo} {oldData response : Str} {c : Option (Dir × Dir)}
    (hold : IsListing oldData) (hdirs : ∀ s ∈ dirs, s.Listed row path)
    (h : sendCputCommandAdd row path file oldData dirs = some (response, c)) :
    AddReports row path file response c ↔
      ∀ s ∈ everyOther false dirs, ¬ Taken file.name (s.text row path) := by
  obtain ⟨p, hstart, h⟩ := Option.bind_eq_some_iff.mp h
  obtain ⟨e, hr, h⟩ := Option.bind_eq_some_iff.mp h
  split at h
  · rename_i old hret
    obtain ⟨rfl, rfl⟩ := Prod.mk.inj (Option.some.inj h)
    have hp : p = .returned "-ERR".toList ∨ p = .cput oldData := by
      rw [AddPc.start] at hstart
      split at hstart
      · exact Or.inr (Option.some.inj hstart).symm
      · obtain ⟨exist, -, rfl⟩ := Option.map_eq_some_iff.mp hstart
        cases exist with
        | true => exact Or.inl rfl
        | false => exact Or.inr rfl
    rcases hp with rfl | rfl
    · -- the name was there before the first `CPUT`
      obtain ⟨rfl, rfl⟩ := run_stopped (fun _ => rfl) hr
      cases hret
      refine iff_of_true ⟨iff_of_false (by decide) ?_, fun _ => by decide⟩ ?_
      · rintro ⟨s, t, old, he, -⟩
        cases he
      · exact fun v hv => absurd hv List.not_mem_nil
    · have hgoing : AddPc.Going none (.cput oldData) := hold
      exact add_run_iff file hdirs hgoing hr hret
  · cases h

/-- A call of `send_cput_command_delete`, likewise. -/
theorem delete_reports_iff {id oldData response : Str} {hasDeleted : Bool} {c : Option (Dir × Dir)}
    (hold : IsListing oldData) (hdirs : ∀ s ∈ dirs, s.Listed row path)
    (h : sendCputCommandDelete row path oldData id dirs = some (hasDeleted, response, c)) :
    DeleteReports row path id hasDeleted response c ↔
      StaysToTheEnd id (oldData :: (everyOther false dirs).map (·.text row path)) := by
  obtain ⟨p, hscan, h⟩ := Option.bind_eq_some_iff.mp h
  obtain ⟨e, hr, h⟩ := Option.bind_eq_some_iff.mp h
  split at h
  · rename_i old flag hret
    obtain ⟨rfl, he⟩ := Prod.mk.inj (Option.some.inj h)
    obtain ⟨rfl, rfl⟩ := Prod.mk.inj he
    have hflag : Flagged id [] true := by simp [Flagged]
    have hgoing := DeletePc.going_scan (c := none) hold hflag hscan
    obtain ⟨new, rfl, -⟩ := DeletePc.scan_cases hold hscan
    exact delete_run_iff id hdirs hgoing hr hret
  · cases h

/--
**The helpers report what they did** in exactly these cases: no `GET` behind a
refused `CPUT` finds the name that is to be added; and the id that is to be taken
off, if it was in a listing that the helper has read, is in the last one it reads.
-/
theorem helpers_report_iff {row path oldData : Str} {dirs : List Dir} (hold : IsListing oldData)
    (hdirs : ∀ s ∈ dirs, s.Listed row path) :
    (∀ file response c, sendCputCommandAdd row path file oldData dirs = some (response, c) →
      (AddReports row path file response c ↔
        ∀ s ∈ everyOther false dirs, ¬ Taken file.name (s.text row path))) ∧
    (∀ id hasDeleted response c,
      sendCputCommandDelete row path oldData id dirs = some (hasDeleted, response, c) →
      (DeleteReports row path id hasDeleted response c ↔
        StaysToTheEnd id (oldData :: (everyOther false dirs).map (·.text row path)))) :=
  ⟨fun _ _ _ h => add_reports_iff hold hdirs h, fun _ _ _ _ h => delete_reports_iff hold hdirs h⟩

/-- A folder whose listing cell holds `d`. -/
def folderHolding (d : Str) : Dir where
  server := { primary := true, table := Nested.set ∅ ['u'] (contentCol ['1']) d }

def entryA : FileInfo := ⟨['2'], ['a'], true, ['t'], ['4']⟩
def entryB : FileInfo := ⟨['3'], ['b'], true, ['t'], ['4']⟩

/-- Somebody puts `b` in the empty folder before `a` is added to it; then `a` is taken off again. -/
theorem helpers_report_busy :
    (∃ c, sendCputCommandAdd ['u'] ['1'] entryA [] [folderHolding (entryB.line ++ crlf),
        folderHolding (entryB.line ++ crlf), folderHolding (entryB.line ++ crlf)]
        = some (replyOK, c) ∧ AddReports ['u'] ['1'] entryA replyOK c) ∧
    ∃ c, sendCputCommandDelete ['u'] ['1'] [] entryB.id [folderHolding (entryB.line ++ crlf),
        folderHolding (entryB.line ++ crlf), folderHolding (entryB.line ++ crlf)]
        = some (false, replyOK, c) ∧ DeleteReports ['u'] ['1'] entryB.id false replyOK c := by
  have hplain : entryB.Plain := by decide
  have hlist : IsListing entryB.line := (IsListing.nil.append hplain).1
  have hcell : (folderHolding (entryB.line ++ crlf)).cell ['u']
    ['1'] = some (entryB.line ++ crlf) := by
    decide +kernel
  have hlisted : ∀ s ∈ List.replicate 3 (folderHolding (entryB.line ++ crlf)),
    s.Listed ['u'] ['1'] := by
    intro s hs
    rw [List.eq_of_mem_replicate hs]
    exact Or.inr ⟨_, hlist, hcell⟩
  have hadd : (sendCputCommandAdd ['u'] ['1'] entryA []
      (List.replicate 3 (folderHolding (entryB.line ++ crlf)))).map (·.1) = some replyOK := by
    decide +kernel
  have hdelete : (sendCputCommandDelete ['u'] ['1'] [] entryB.id
      (List.replicate 3 (folderHolding (entryB.line ++ crlf)))).map (fun r => (r.1, r.2.1))
      = some (false, replyOK) := by decide +kernel
  obtain ⟨⟨response, c⟩, hc, rfl⟩ := Option.map_eq_some_iff.mp hadd
  obtain ⟨⟨flag, reply, c'⟩, hc', he⟩ := Option.map_eq_some_iff.mp hdelete
  cases he
  refine ⟨⟨c, hc, ?_⟩, c', hc', ?_⟩
  · exact ((helpers_report_iff .nil hlisted).1 _ _ _ hc).mpr (by decide +kernel)
  · exact ((helpers_report_iff .nil hlisted).2 _ _ _ _ hc').mpr (by decide +kernel)

/--
Somebody else has put an `a` in the folder, and the response says neither that the
entry was added nor that it was not. And an entry that somebody else has taken off is
reported as taken off by this call.
-/
theorem helpers_misreport :
    (∃ c, sendCputCommandAdd ['u'] ['1'] { entryB with name := ['a'] } []
        (List.replicate 2 (folderHolding (entryA.line ++ crlf))) = some ([], c) ∧
      ¬ AddReports ['u'] ['1'] { entryB with name := ['a'] } [] c) ∧
    ∃ c, sendCputCommandDelete ['u'] ['1'] entryA.line entryA.id
        (List.replicate 2 (folderHolding crlf)) = some (false, replyErr, c) ∧
      ¬ DeleteReports ['u'] ['1'] entryA.id false replyErr c := by
  have hadd : (sendCputCommandAdd ['u'] ['1'] { entryB with name := ['a'] } []
      (List.replicate 2 (folderHolding (entryA.line ++ crlf)))).map (·.1) = some [] := by
    decide +kernel
  have hdelete : (sendCputCommandDelete ['u'] ['1'] entryA.line entryA.id
      (List.replicate 2 (folderHolding crlf))).map (fun r => (r.1, r.2.1))
      = some (false, replyErr) := by decide +kernel
  obtain ⟨⟨response, c⟩, hc, rfl⟩ := Option.map_eq_some_iff.mp hadd
  obtain ⟨⟨flag, reply, c'⟩, hc', he⟩ := Option.map_eq_some_iff.mp hdelete
  cases he
  refine ⟨⟨c, hc, fun hrep => absurd (hrep.err (by decide)) (by decide)⟩, c', hc', fun hrep => ?_⟩
  exact absurd (hrep.mp rfl).1 (by decide)

end PennCloud
