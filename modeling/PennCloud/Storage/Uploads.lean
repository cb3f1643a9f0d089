import PennCloud.Storage.Session

/-!
# What an upload writes

An upload gets the listing of its folder until a `CPUT` that adds its entry is
accepted, and then puts the name and the content of the new file. `next_upload`
says all that one of its requests can do. Before the entry is added nothing is
written; after it the two cells of the new id are, whatever is in them.
-/

namespace PennCloud

open Str

/-- Where an upload stands whose entry has not been added. -/
inductive Before (u : Upload) : DirPc → Prop
  | start : Before u (.start (.upload u))
  | add (oldData : Str) : Before u (.add (.upload u) oldData)
  | again : Before u (.addAgain (.upload u) replyErr)
  | failed : Before u (.done (.upload u) false)

/-- Where one stands whose entry has been added. -/
inductive After (u : Upload) : DirPc → Prop
  | putName : After u (.putName u)
  | putContent : After u (.putContent u)
  | succeeded : After u (.done (.upload u) true)

namespace Server

/-- The cell of `row` and `col` is bound to `data`, and no other is changed. -/
def Binds (s t : Server) (row col data : Str) : Prop :=
  ∀ r c, t.table.at? r c = if r = row ∧ c = col then some data else s.table.at? r c

end Server

/-- What one request of an upload does. -/
inductive UploadStep (row : Str) (u : Upload) (s t : Dir) : DirPc → DirPc → Prop
  | same {p q : DirPc} : t = s → Before u p → Before u q →
      (∀ oldData, q = .add (.upload u) oldData → s.cell row u.path ≠ none) →
      UploadStep row u s t p q
  | added {oldData : Str} : CputHolds s.server.table.view (row, contentCol u.path)
      (oldData ++ crlf) →
      s.server.Binds t.server row (contentCol u.path) (oldData ++ u.file.line ++ crlf) →
      UploadStep row u s t (.add (.upload u) oldData) (.putName u)
  | named : s.server.Binds t.server row (nameCol u.file.id) (u.file.name ++ crlf) →
      UploadStep row u s t (.putName u) (.putContent u)
  | filled : s.server.Binds t.server row (contentCol u.file.id) (u.content ++ crlf) →
      UploadStep row u s t (.putContent u) (.done (.upload u) true)

variable {row : Str} {u : Upload} {s t : Dir} {p q : DirPc}

/-- The test for the name leads to the `CPUT` or ends the call. -/
theorem check_before {conflict oldData : Str} (hconflict : ¬ "+OK".toList <:+: conflict)
    (h : (Addition.upload u).check conflict oldData = some q) : Before u q := by
  rw [Addition.check] at h
  split at h
  · cases h
    exact .add oldData
  · obtain ⟨exist, -, rfl⟩ := Option.map_eq_some_iff.mp h
    cases exist with
    | true =>
        rw [if_pos rfl, Addition.after, if_neg hconflict]
        exact .failed
    | false => exact .add oldData

theorem begin_before {content : Str} (h : (DirCall.upload u).begin content = some q) :
    Before u q ∧ (content = nullReply → q = .done (.upload u) false) := by
  rw [DirCall.begin] at h
  split at h
  · cases h
    exact ⟨.failed, fun _ => rfl⟩
  · rename_i hnull
    refine ⟨?_, fun he => absurd he hnull⟩
    split at h
    · exact check_before (by decide) h
    · obtain ⟨exist, -, h⟩ := Option.bind_eq_some_iff.mp h
      split at h
      · cases h
        exact .failed
      · exact check_before (by decide) h

theorem beginFolder_before {content : Str} (h : u.beginFolder content = some q) :
    Before u q ∧ (content = nullReply → q = .done (.upload u) false) := by
  rw [Upload.beginFolder] at h
  split at h
  · cases h
    exact ⟨.failed, fun _ => rfl⟩
  · rename_i hnull
    refine ⟨?_, fun he => absurd he hnull⟩
    split at h
    · exact check_before (by decide) h
    · obtain ⟨exist, -, h⟩ := Option.bind_eq_some_iff.mp h
      split at h
      · cases h
        exact .failed
      · exact check_before (by decide) h

/-- An upload that has got a listing, and goes on, has got it from a cell. -/
theorem cell_of_got {response : Str} (hget : s.get row u.path = some (response, t))
    (hnull : response = nullReply → q = .done (.upload u) false) (oldData : Str)
    (hq : q = .add (.upload u) oldData) : s.cell row u.path ≠ none := by
  intro hnone
  have hdone := hnull ((Dir.get_reads hget).1 hnone)
  rw [hq] at hdone
  cases hdone

/-- An answered `PUT` binds its cell. -/
theorem update_put {col data response : Str}
    (h : s.update (.put row col data) = some (response, t)) :
    s.server.Binds t.server row col (data ++ crlf) := by
  obtain ⟨⟨r, v⟩, hsend, he⟩ := Option.map_eq_some_iff.mp h
  cases he
  obtain ⟨reply, hask⟩ := sendUpdate_ask hsend
  exact ask_put hask

/-- **All that a request of an upload can do.** -/
theorem next_upload (hp : Before u p ∨ After u p) (h : s.next row p = some (t, q)) :
    UploadStep row u s t p q := by
  rcases hp with hp | hp
  · cases hp with
    | start =>
        obtain ⟨⟨response, v⟩, hget, hbegin⟩ := Option.bind_eq_some_iff.mp h
        obtain rfl := get_same hget
        obtain ⟨q', hbegin, he⟩ := Option.map_eq_some_iff.mp hbegin
        cases he
        obtain ⟨hbefore, hnull⟩ := begin_before hbegin
        exact .same rfl .start hbefore (cell_of_got hget hnull)
    | add oldData =>
        obtain ⟨⟨response, v⟩, hput, he⟩ := Option.map_eq_some_iff.mp h
        obtain ⟨⟨r, w⟩, hsend, hv⟩ := Option.map_eq_some_iff.mp hput
        cases hv
        rcases sendUpdate_cput hsend with ⟨hholds, rfl, hbinds⟩ | ⟨rfl, rfl⟩
        · rw [if_neg (show ¬ "-ERR".toList <:+: replyOK by decide)] at he
          cases he
          exact .added hholds hbinds
        · rw [if_pos (show "-ERR".toList <:+: replyErr by decide)] at he
          cases he
          exact .same rfl (.add oldData) .again fun _ hq => by cases hq
    | again =>
        obtain ⟨⟨response, v⟩, hget, hcheck⟩ := Option.bind_eq_some_iff.mp h
        obtain rfl := get_same hget
        split at hcheck
        · cases hcheck
          exact .same rfl .again .failed fun _ hq => by cases hq
        · rename_i hnull
          obtain ⟨q', hcheck, he⟩ := Option.map_eq_some_iff.mp hcheck
          cases he
          exact .same rfl .again (check_before (by decide) hcheck)
            (cell_of_got hget fun he => absurd he hnull)
    | failed => cases h
  · cases hp with
    | putName =>
        obtain ⟨r, hput, he⟩ := Option.map_eq_some_iff.mp h
        cases he
        exact .named (update_put hput)
    | putContent =>
        obtain ⟨r, hput, he⟩ := Option.map_eq_some_iff.mp h
        cases he
        exact .filled (update_put hput)
    | succeeded => cases h

/-- An upload stays one. -/
theorem UploadStep.stays (h : UploadStep row u s t p q) : Before u q ∨ After u q := by
  cases h with
  | same _ _ hq => exact Or.inl hq
  | added => exact Or.inr .putName
  | named => exact Or.inr .putContent
  | filled => exact Or.inr .succeeded

/-- An upload that has ended without its two cells has failed. -/
theorem ended_fails (hp : Before u p ∨ After u p) (hne : p ≠ .done (.upload u) true)
    (hended : p.ended = true) : p.result = false := by
  rcases hp with hp | hp
  · cases hp with
    | failed => rfl
    | start => cases hended
    | add oldData => cases hended
    | again => cases hended
  · cases hp with
    | succeeded => exact absurd rfl hne
    | putName => cases hended
    | putContent => cases hended

theorem finish_done {n : Nat} {c : DirCall} {b : Bool}
    (h : s.finish row n (.done c b) = some (t, q)) : t = s := by
  cases n <;> cases h <;> rfl

/-- An upload that will have succeeded, but has not yet, has not ended. -/
theorem finish_going {n : Nat} (hp : Before u p ∨ After u p) (hne : p ≠ .done (.upload u) true)
    (h : s.finish row n p = some (t, q)) (hq : q.result = true) : p.ended = false := by
  cases hended : p.ended with
  | false => rfl
  | true =>
      have hfails := ended_fails hp hne hended
      cases n <;> simp only [Dir.finish, hended, if_true] at h <;> cases h <;>
        exact Bool.noConfusion (hfails.symm.trans hq)

/-- **The content is there when an upload that runs alone has returned true.** -/
theorem finish_content {n : Nat} (hp : Before u p ∨ After u p) (hne : p ≠ .done (.upload u) true)
    (h : s.finish row n p = some (t, q)) (hq : q.result = true) :
    t.cell row u.file.id = some (u.content ++ crlf) := by
  have hgoing := finish_going hp hne h hq
  induction n generalizing s p with
  | zero =>
      rw [Dir.finish, hgoing] at h
      cases h
  | succ n ih =>
      rw [Dir.finish, hgoing] at h
      obtain ⟨⟨v, p'⟩, hnext, hrest⟩ := Option.bind_eq_some_iff.mp h
      have hstep := next_upload hp hnext
      by_cases hp' : p' = .done (.upload u) true
      · -- the last request has been answered
        subst hp'
        cases hstep with
        | same _ _ hbefore => cases hbefore
        | filled hbinds =>
            obtain rfl := finish_done hrest
            exact (hbinds row (contentCol u.file.id)).trans (if_pos ⟨rfl, rfl⟩)
      · exact ih hstep.stays hp' hrest (finish_going hstep.stays hp' hrest hq)

end PennCloud
