import PennCloud.Lib.Runs
import PennCloud.Store.Handlers

/-!
# The primary's table as a map

A primary serving one request at a time ought to be a map from (row, column) to
contents: `Spec` says which reply each request gets there and what it does to the
map. The nested table keeps to it except in one place. `parse_PUT` asks whether
there is a *row* named like the column before it writes through
`table[row][col]`; if there is one, and the row is there without that column,
the pointer it writes through is null. `PutSafe` excludes exactly that, and
`served_iff_putSafe` says that a run of requests is served as the map demands if
and only if every request of it is `PutSafe` when it arrives.
-/

namespace PennCloud

open Str

/-- Serve one request on its own, its lines already in the worker's buffer. -/
def Server.serve (s : Server) (q : Request) : Except Stop Reaction :=
  match Worker.dispatch s.primary q.line { w := .setStr q.rest, task := [] } with
  | .ok (.call c, _) => s.handle c
  | .ok _ => .error .notData
  | .error e => .error e

/-- One request as a step of the server. -/
def Server.serveStep (s : Server) (q : Request) : Option Server :=
  (s.serve q).toOption.map Reaction.server

/-- The map's own meaning of a request: its reply and the map after it. -/
inductive Spec (m : Contents) : Request → Str → Contents → Prop
  | put {row col data reply} : Accepts reply →
      Spec m (.put row col data) reply (m.bind (row, col) data)
  | cputOk {row col oldData newData reply} : CputHolds m (row, col) oldData → Accepts reply →
      Spec m (.cput row col oldData newData) reply (m.bind (row, col) newData)
  | cputErr {row col oldData newData reply} : ¬ CputHolds m (row, col) oldData → Refuses reply →
      Spec m (.cput row col oldData newData) reply m
  | getOk {row col data} : m (row, col) = some data →
      Spec m (.get row col) ("DATA\r\n".toList ++ data ++ ['.', '\r', '\n']) m
  | getErr {row col reply} : m (row, col) = none → Refuses reply →
      Spec m (.get row col) reply m
  | deleteOk {row col data reply} : m (row, col) = some data → Accepts reply →
      Spec m (.delete row col) reply (m.unbind (row, col))
  | deleteErr {row col reply} : m (row, col) = none → Refuses reply →
      Spec m (.delete row col) reply m

/-- The request is served, and as the map says. -/
def Server.ServesAs (s : Server) (q : Request) : Prop :=
  ∃ r, s.serve q = .ok r ∧ Spec s.table.view q r.reply r.server.table.view

/-- Every request of a run is served as the map says. -/
def Server.Served : Server → List Request → Prop
  | _, [] => True
  | s, q :: qs => s.ServesAs q ∧ ∀ t, s.serveStep q = some t → t.Served qs

/-- The request is not a `PUT` that reaches `parse_PUT`'s null pointer. -/
def PutSafe (t : Bmap) : Request → Prop
  | .put row col _ => ¬ NullPut t row col
  | _ => True

instance (t : Bmap) : DecidablePred (PutSafe t)
  | .put row col _ => inferInstanceAs (Decidable (¬ NullPut t row col))
  | .cput .. | .get .. | .delete .. => .isTrue trivial

/-- A primary with an empty table. -/
def primaryStart : Server := { primary := true }

/-- A well-formed request reaches the handler it names. -/
theorem serve_eq {s : Server} (hp : s.primary = true) {q : Request} (hq : q.WF) :
    s.serve q = s.handle q.call := by
  have hd := dispatch_request hq [] { w := .setStr q.rest, task := [] } (by simp)
  rw [Server.serve, hp, hd]

/-- **One request.** It is served as the map says exactly when it is `PutSafe`. -/
theorem servesAs_iff {s : Server} (hp : s.primary = true) {q : Request} (hq : q.WF) :
    s.ServesAs q ↔ PutSafe s.table q := by
  rw [Server.ServesAs, serve_eq hp hq]
  cases q with
  | put row col data =>
      constructor
      · rintro ⟨r, hr, -⟩ hnull
        rw [Request.call, Server.handle, parsePUT_fault data hnull] at hr
        cases hr
      · intro hsafe
        refine ⟨_, parsePUT_eq data hsafe, ?_⟩
        rw [Server.stored, Nested.view_set]
        exact Spec.put ⟨_, rfl⟩
  | cput row col oldData newData =>
      refine iff_of_true ⟨_, rfl, ?_⟩ trivial
      rw [parseCPUT_eq]
      split
      · rename_i h
        rw [Server.stored, Nested.view_set]
        exact Spec.cputOk h ⟨_, rfl⟩
      · rename_i h
        exact Spec.cputErr h ⟨_, rfl⟩
  | get row col =>
      refine iff_of_true ⟨_, rfl, ?_⟩ trivial
      rcases parseGET_cases s row col with ⟨d, hat, hget⟩ | ⟨hat, reply, hrep, hget⟩
      · rw [hget]; exact Spec.getOk hat
      · rw [hget]; exact Spec.getErr hat hrep
  | delete row col =>
      refine iff_of_true ⟨_, rfl, ?_⟩ trivial
      rcases parseDELE_cases s row col with ⟨d, hat, hdel⟩ | ⟨hat, reply, hrep, hdel⟩
      · rw [hdel, Server.erased, Nested.view_eraseCol]
        exact Spec.deleteOk hat ⟨_, rfl⟩
      · rw [hdel]
        exact Spec.deleteErr hat hrep

/-- The role does not change from one request to the next. -/
theorem serveStep_primary {s t : Server} (hp : s.primary = true) {q : Request} (hq : q.WF)
    (h : s.serveStep q = some t) : t.primary = true := by
  rw [Server.serveStep, serve_eq hp hq] at h
  obtain ⟨r, hh, rfl⟩ := map_toOption_some h
  exact (handle_request_cases hp hh).frame.1.trans hp

/-- A run is served as the map says from any primary, if and only if it is `PutSafe` throughout. -/
theorem served_iff {s : Server} (hp : s.primary = true) {qs : List Request}
    (hqs : ∀ q ∈ qs, q.WF) :
    s.Served qs ↔ Lib.Guarded Server.serveStep (fun s q => PutSafe s.table q) s qs := by
  induction qs generalizing s with
  | nil => exact Iff.rfl
  | cons q qs ih =>
      have hq : q.WF := hqs q (List.mem_cons_self ..)
      have hrest : ∀ q ∈ qs, q.WF := fun q h => hqs q (List.mem_cons_of_mem _ h)
      rw [Server.Served, Lib.Guarded, servesAs_iff hp hq]
      refine and_congr_right fun _ => forall_congr' fun t => imp_congr_right fun ht => ?_
      exact ih (serveStep_primary hp hq ht) hrest

/--
**The primary refines a map.** Over every sequence of well-formed requests from
the empty table, all of them are served as the map says if and only if no `PUT`
among them finds its row there, its column missing, and a row named like its
column.
-/
theorem served_iff_putSafe {qs : List Request} (hqs : ∀ q ∈ qs, q.WF) :
    primaryStart.Served qs ↔
      Lib.Guarded Server.serveStep (fun s q => PutSafe s.table q) primaryStart qs :=
  served_iff rfl hqs

/-- Columns named like rows, but only overwritten by `PUT` once they are there. -/
def servedHistory : List Request :=
  [.put ['a'] ['a'] ['x', '\r', '\n'], .cput ['b'] ['a'] oldNULL ['y', '\r', '\n'],
   .put ['b'] ['a'] ['z', '\r', '\n'], .delete ['a'] ['a'], .put ['a'] ['c'] [],
   .get ['a'] ['c']]

theorem servedHistory_served : primaryStart.Served servedHistory :=
  (served_iff_putSafe (by decide)).mpr (by decide)

/-- Two rows, then a column of the first named like the second. -/
def crossNamed : List Request :=
  [.put ['a'] ['x'] ['1', '\r', '\n'], .put ['b'] ['y'] ['2', '\r', '\n'],
   .put ['a'] ['b'] ['3', '\r', '\n']]

/-- The third `PUT` of `crossNamed` faults. -/
theorem crossNamed_not_served :
    (∀ q ∈ crossNamed, q.WF) ∧ ¬ primaryStart.Served crossNamed := by
  refine ⟨by decide, fun h => ?_⟩
  exact absurd ((served_iff rfl (by decide)).mp h) (by decide)

end PennCloud
