import PennCloud.Store.Protocol

/-!
# What the data handlers can do

One lemma per handler, and from them `handle_request_cases`: everything a request
that a primary completes can have done. Later proofs go through it and never
unfold a handler.
-/

namespace PennCloud

open Str

/-- A reply that reports success. -/
def Accepts (reply : Str) : Prop := ['+', 'O', 'K'] <+: reply

/-- A reply that reports failure. -/
def Refuses (reply : Str) : Prop := ['-', 'E', 'R', 'R'] <+: reply

/-- What a `CPUT` needs: an absent key and `OLD` null, or the key bound to `OLD`. -/
def CputHolds (m : Contents) (k : Key) (oldData : Str) : Prop :=
  (m k = none ∧ oldData = oldNULL) ∨ m k = some oldData

instance (m : Contents) (k : Key) (oldData : Str) : Decidable (CputHolds m k oldData) :=
  inferInstanceAs (Decidable (_ ∨ _))

/-- The `PUT` that reaches the null pointer: a new column of a row that is there, named
like a row. -/
def NullPut (t : Bmap) (row col : Str) : Prop :=
  t.hasRow row = true ∧ t.hasRow col = true ∧ t.at? row col = none

instance (t : Bmap) (row col : Str) : Decidable (NullPut t row col) :=
  inferInstanceAs (Decidable (_ ∧ _))

namespace Server

/-- The server after an accepted write. -/
def stored (s : Server) (row col data : Str) : Server :=
  { (s.putToLog data row col).1 with table := s.table.set row col data }

/-- The server after an accepted `DELETE`. -/
def erased (s : Server) (row col : Str) : Server :=
  { (s.deleteToLog row col).1 with table := s.table.eraseCol row col }

end Server

/-! ## One lemma per handler -/

theorem storePUT_eq {s : Server} {row col : Str} (data : Str) (h : ¬ NullPut s.table row col) :
    s.storePUT row col data = .ok { s with table := s.table.set row col data } := by
  unfold Server.storePUT
  split
  · rfl
  · rename_i hif
    simp only [Bool.or_eq_true, Bool.not_eq_eq_eq_not, Bool.not_true, not_or,
      Bool.not_eq_false] at hif
    cases hat : s.table.at? row col with
    | none => exact absurd ⟨hif.1, hif.2, hat⟩ h
    | some d => rfl

theorem storePUT_fault {s : Server} {row col : Str} (data : Str) (h : NullPut s.table row col) :
    s.storePUT row col data = .error .nullDeref := by
  simp [Server.storePUT, h.1, h.2.1, h.2.2]

theorem parsePUT_eq {s : Server} {row col : Str} (data : Str) (h : ¬ NullPut s.table row col) :
    s.parsePUT row col data = .ok
      { server := s.stored row col data, reply := replyOK,
        forwarded := [.put row col data (s.seqID + 1)] } := by
  have hstore : ((s.putToLog data row col).1).storePUT row col data
      = .ok (s.stored row col data) := storePUT_eq data h
  simp only [Server.parsePUT, bind, Except.bind, hstore]
  rfl

theorem parsePUT_fault {s : Server} {row col : Str} (data : Str) (h : NullPut s.table row col) :
    s.parsePUT row col data = .error .nullDeref := by
  have hstore : ((s.putToLog data row col).1).storePUT row col data = .error .nullDeref :=
    storePUT_fault data h
  simp only [Server.parsePUT, bind, Except.bind, hstore]

theorem parsePUTReplica_eq {s : Server} {row col : Str} (seq : Int) (data : Str)
    (h : ¬ NullPut s.table row col) :
    s.parsePUTReplica row col seq data = .ok
      { server := { (s.updateSeq seq).putToLogAt seq data row col with
          table := s.table.set row col data }, reply := replyOK } := by
  have hstore : ((s.updateSeq seq).putToLogAt seq data row col).storePUT row col data = .ok
      { (s.updateSeq seq).putToLogAt seq data row col with table := s.table.set row col data } :=
    storePUT_eq data h
  simp only [Server.parsePUTReplica, bind, Except.bind, hstore]
  rfl

theorem parsePUTReplica_fault {s : Server} {row col : Str} (seq : Int) (data : Str)
    (h : NullPut s.table row col) :
    s.parsePUTReplica row col seq data = .error .nullDeref := by
  have hstore : ((s.updateSeq seq).putToLogAt seq data row col).storePUT row col data
      = .error .nullDeref := storePUT_fault data h
  simp only [Server.parsePUTReplica, bind, Except.bind, hstore]

/-- A `CPUT` accepts exactly when the map says so. -/
theorem parseCPUT_eq (s : Server) (row col oldData newData : Str) :
    s.parseCPUT row col oldData newData =
      if CputHolds s.table.view (row, col) oldData then
        { server := s.stored row col newData, reply := replyOK,
          forwarded := if s.primary then [.put row col newData (s.seqID + 1)] else [] }
      else { server := s, reply := replyErr } := by
  have hview : s.table.view (row, col) = s.table.at? row col := rfl
  have haccept : s.acceptCPUT row col newData =
      { server := s.stored row col newData, reply := replyOK,
        forwarded := if s.primary then [.put row col newData (s.seqID + 1)] else [] } := rfl
  unfold Server.parseCPUT
  rw [haccept]
  cases hat : s.table.at? row col with
  | none =>
      -- the key is absent, whether or not its row is there
      have hiff : CputHolds s.table.view (row, col) oldData ↔ oldData = oldNULL := by
        simp [CputHolds, hview, hat]
      simp [hiff]
  | some d =>
      have hiff : CputHolds s.table.view (row, col) oldData ↔ d = oldData := by
        simp [CputHolds, hview, hat]
      simp [hiff, Nested.hasRow_of_at? hat]

/-- `parse_DELE` once its record is written: unbind and confirm, or refuse. -/
theorem eraseDELE_cases (s : Server) (row col : Str) (fs : List Forward) :
    (∃ d, s.table.at? row col = some d ∧ s.eraseDELE row col fs =
      { server := { s with table := s.table.eraseCol row col }, reply := replyDeleted,
        forwarded := fs }) ∨
    (s.table.at? row col = none ∧ ∃ reply, Refuses reply ∧ s.eraseDELE row col fs =
      { server := s, reply := reply }) := by
  unfold Server.eraseDELE
  cases hrow : s.table.hasRow row with
  | false => exact Or.inr ⟨Nested.at?_of_not_hasRow col hrow, replyNullRow, ⟨_, rfl⟩, by simp⟩
  | true =>
      cases hat : s.table.at? row col with
      | none => exact Or.inr ⟨rfl, replyNullCol, ⟨_, rfl⟩, by simp⟩
      | some d => exact Or.inl ⟨d, rfl, by simp⟩

theorem parseDELE_cases (s : Server) (row col : Str) :
    (∃ d, s.table.at? row col = some d ∧ s.parseDELE row col =
      { server := s.erased row col, reply := replyDeleted,
        forwarded := [.delete row col (s.seqID + 1)] }) ∨
    (s.table.at? row col = none ∧ ∃ reply, Refuses reply ∧ s.parseDELE row col =
      { server := (s.deleteToLog row col).1, reply := reply }) :=
  eraseDELE_cases (s.deleteToLog row col).1 row col [.delete row col (s.seqID + 1)]

theorem parseGET_cases (s : Server) (row col : Str) :
    (∃ d, s.table.at? row col = some d ∧ s.parseGET row col =
      { server := s, reply := "DATA\r\n".toList ++ d ++ ['.', '\r', '\n'] }) ∨
    (s.table.at? row col = none ∧ ∃ reply, Refuses reply ∧ s.parseGET row col =
      { server := s, reply := reply }) := by
  unfold Server.parseGET
  cases hrow : s.table.hasRow row with
  | false => exact Or.inr ⟨Nested.at?_of_not_hasRow col hrow, replyNullRow, ⟨_, rfl⟩, by simp⟩
  | true =>
      cases hat : s.table.at? row col with
      | none => exact Or.inr ⟨rfl, replyNullCol, ⟨_, rfl⟩, by simp⟩
      | some d => exact Or.inl ⟨d, rfl, by simp⟩

theorem toOption_some {α ε : Type} {x : Except ε α} {a : α}
    (h : x.toOption = some a) : x = .ok a := by
  cases x with
  | error e => cases h
  | ok b => exact congrArg Except.ok (Option.some.inj h)

/-- A step that keeps a part of what a call gives has completed the call. -/
theorem map_toOption_some {α β ε : Type} {x : Except ε α} {g : α → β} {b : β}
    (h : x.toOption.map g = some b) : ∃ a, x = .ok a ∧ g a = b := by
  obtain ⟨a, ha, hb⟩ := Option.map_eq_some_iff.mp h
  exact ⟨a, toOption_some ha, hb⟩

/-! ## Everything a completed request can have done -/

/-- The write a request asks for: its key and the contents it binds. -/
def Request.write? : Request → Option (Str × Str × Str)
  | .put row col data => some (row, col, data)
  | .cput row col _ newData => some (row, col, newData)
  | .get .. | .delete .. => none

/-- A completed request wrote, erased, or left the table alone. -/
inductive Did (s : Server) (q : Request) (r : Reaction) : Prop
  | stored (row col data : Str) (hw : q.write? = some (row, col, data))
      (hnull : ∀ d, q = .put row col d → ¬ NullPut s.table row col)
      (hcput : ∀ oldData, q = .cput row col oldData data →
        CputHolds s.table.view (row, col) oldData)
      (hr : r =
        { server := s.stored row col data, reply := replyOK,
          forwarded := [.put row col data (s.seqID + 1)] })
  | erased (row col d : Str) (hq : q = .delete row col) (hat : s.table.at? row col = some d)
      (hr : r =
        { server := s.erased row col, reply := replyDeleted,
          forwarded := [.delete row col (s.seqID + 1)] })
  | missed (row col : Str) (hq : q = .delete row col) (hat : s.table.at? row col = none)
      (hserver : r.server = (s.deleteToLog row col).1) (hreply : Refuses r.reply)
      (hfwd : r.forwarded = [])
  | kept (hq : ∀ row col, q ≠ .delete row col) (hserver : r.server = s) (hfwd : r.forwarded = [])

theorem handle_request_cases {s : Server} (hp : s.primary = true) {q : Request} {r : Reaction}
    (h : s.handle q.call = .ok r) : Did s q r := by
  cases q with
  | put row col data =>
      by_cases hnull : NullPut s.table row col
      · rw [Request.call, Server.handle, parsePUT_fault data hnull] at h
        cases h
      · rw [Request.call, Server.handle, parsePUT_eq data hnull] at h
        exact .stored row col data rfl (fun _ _ => hnull) (fun _ he => by cases he)
          (Except.ok.inj h).symm
  | cput row col oldData newData =>
      have hr : r = _ := (Except.ok.inj h).symm.trans (parseCPUT_eq s row col oldData newData)
      rw [hp, if_pos rfl] at hr
      split at hr
      · rename_i hholds
        refine .stored row col newData rfl (fun _ he => by cases he) (fun _ he => ?_) hr
        cases he
        exact hholds
      · subst hr
        exact .kept (fun _ _ he => by cases he) rfl rfl
  | get row col =>
      have hr : r = s.parseGET row col := (Except.ok.inj h).symm
      rcases parseGET_cases s row col with ⟨d, _, hget⟩ | ⟨_, reply, _, hget⟩
      · rw [hget] at hr; subst hr; exact .kept (fun _ _ he => by cases he) rfl rfl
      · rw [hget] at hr; subst hr; exact .kept (fun _ _ he => by cases he) rfl rfl
  | delete row col =>
      have hr : r = s.parseDELE row col := (Except.ok.inj h).symm
      rcases parseDELE_cases s row col with ⟨d, hat, hdel⟩ | ⟨hat, reply, hrep, hdel⟩
      · exact .erased row col d rfl hat (hr.trans hdel)
      · rw [hdel] at hr; subst hr; exact .missed row col rfl hat rfl hrep rfl

/-- No request changes the role or the checkpoint file. -/
theorem Did.frame {s : Server} {q : Request} {r : Reaction} (h : Did s q r) :
    r.server.primary = s.primary ∧ r.server.checkpoint = s.checkpoint := by
  cases h with
  | stored row col data hw hnull hcput hr => subst hr; exact ⟨rfl, rfl⟩
  | erased row col d hq hat hr => subst hr; exact ⟨rfl, rfl⟩
  | missed row col hq hat hserver => rw [hserver]; exact ⟨rfl, rfl⟩
  | kept hq hserver => rw [hserver]; exact ⟨rfl, rfl⟩

/-- A completed request never lowers the counter, and numbers its command with the next number. -/
theorem Did.seq {s : Server} {q : Request} {r : Reaction} (h : Did s q r) :
    s.seqID ≤ r.server.seqID ∧
      ∀ f ∈ r.forwarded, f.seq = s.seqID + 1 ∧ r.server.seqID = s.seqID + 1 := by
  have hgrow : s.seqID ≤ s.seqID + 1 := by omega
  cases h with
  | stored row col data hw hnull hcput hr =>
      subst hr
      exact ⟨hgrow, fun f hf => by rw [List.mem_singleton.mp hf]; exact ⟨rfl, rfl⟩⟩
  | erased row col d hq hat hr =>
      subst hr
      exact ⟨hgrow, fun f hf => by rw [List.mem_singleton.mp hf]; exact ⟨rfl, rfl⟩⟩
  | missed row col hq hat hserver hreply hfwd =>
      rw [hserver, hfwd]
      exact ⟨hgrow, fun f hf => (by cases hf)⟩
  | kept hq hserver hfwd =>
      rw [hserver, hfwd]
      exact ⟨Int.le_refl _, fun f hf => (by cases hf)⟩

/-- A request logs nothing, or one record of what it asks for. -/
theorem Did.log_forall {P : LogRecord → Prop} {s : Server} {q : Request}
    {r : Reaction} (h : Did s q r)
    (hs : ∀ r ∈ s.log, P r)
    (hput : ∀ seq row col data, q.write? = some (row, col, data) → P (.put seq row col data))
    (hdelete : ∀ seq row col, q = .delete row col → P (.delete seq row col)) :
    ∀ r' ∈ r.server.log, P r' := by
  have hadd : ∀ new, P new → ∀ r' ∈ s.log ++ [new], P r' := fun new hnew =>
    List.forall_mem_append.mpr ⟨hs, List.forall_mem_singleton.mpr hnew⟩
  cases h with
  | stored row col data hw hnull hcput hr =>
      subst hr
      exact hadd _ (hput _ row col data hw)
  | erased row col d hq hat hr =>
      subst hr
      exact hadd _ (hdelete _ row col hq)
  | missed row col hq hat hserver =>
      rw [hserver]
      exact hadd _ (hdelete _ row col hq)
  | kept hq hserver =>
      rw [hserver]
      exact hs

/-! ## Everything a command of the primary can have done -/

/-- A completed command was logged under its own number, whatever it found. -/
inductive Followed (s : Server) (f : Forward) (t : Server) : Prop
  | stored (row col data : Str) (seq : Int) (hf : f = .put row col data seq)
      (ht : t = { (s.updateSeq seq).putToLogAt seq data row col with
        table := s.table.set row col data })
  | erased (row col d : Str) (seq : Int) (hf : f = .delete row col seq)
      (hat : s.table.at? row col = some d)
      (ht : t = { s.deleteToLogAt seq row col with table := s.table.eraseCol row col })
  | missed (row col : Str) (seq : Int) (hf : f = .delete row col seq)
      (hat : s.table.at? row col = none) (ht : t = s.deleteToLogAt seq row col)

theorem handle_forward_cases {s : Server} {f : Forward} {r : Reaction}
    (h : s.handle f.call = .ok r) : Followed s f r.server := by
  cases f with
  | put row col data seq =>
      by_cases hnull : NullPut s.table row col
      · rw [Forward.call, Server.handle, parsePUTReplica_fault seq data hnull] at h
        cases h
      · rw [Forward.call, Server.handle, parsePUTReplica_eq seq data hnull] at h
        cases h
        exact .stored row col data seq rfl rfl
  | delete row col seq =>
      cases h
      rw [Server.parseDELEReplica]
      rcases eraseDELE_cases (s.deleteToLogAt seq row col) row col [] with
        ⟨d, hat, hdel⟩ | ⟨hat, reply, -, hdel⟩
      · rw [hdel]
        exact .erased row col d seq rfl hat rfl
      · rw [hdel]
        exact .missed row col seq rfl hat rfl

/-- No command changes the role or the checkpoint file. -/
theorem Followed.frame {s t : Server} {f : Forward} (h : Followed s f t) :
    t.primary = s.primary ∧ t.checkpoint = s.checkpoint := by
  cases h with
  | stored row col data seq hf ht => subst ht; exact ⟨rfl, rfl⟩
  | erased row col d seq hf hat ht => subst ht; exact ⟨rfl, rfl⟩
  | missed row col seq hf hat ht => subst ht; exact ⟨rfl, rfl⟩

/-! ## The command a request leads to -/

/-- The command a completed request hands to `BackStore`. -/
def Server.sends (p : Server) : Request → Option Forward
  | .put row col data => some (.put row col data (p.seqID + 1))
  | .cput row col oldData newData =>
      if CputHolds p.table.view (row, col) oldData then
        some (.put row col newData (p.seqID + 1)) else none
  | .get .. => none
  | .delete row col =>
      if (p.table.at? row col).isSome then some (.delete row col (p.seqID + 1)) else none

/-- What a command stands for at the primary: its table before and after. -/
def Forward.Moves (t t' : Bmap) : Forward → Prop
  | .put row col data _ => t' = t.set row col data
  | .delete row col _ => (t.at? row col).isSome = true ∧ t' = t.eraseCol row col

/-- A completed request forwards what `sends` says, and its table moves accordingly. -/
theorem sends_spec {p : Server} (hp : p.primary = true) {q : Request} {r : Reaction}
    (h : p.handle q.call = .ok r) :
    r.forwarded = (p.sends q).toList ∧
      (p.sends q = none → r.server.table = p.table) ∧
      ∀ f, p.sends q = some f → f.Moves p.table r.server.table := by
  cases q with
  | put row col data =>
      by_cases hnull : NullPut p.table row col
      · rw [Request.call, Server.handle, parsePUT_fault data hnull] at h
        cases h
      · rw [Request.call, Server.handle, parsePUT_eq data hnull] at h
        cases h
        refine ⟨rfl, fun hn => (by cases hn), fun f hf => ?_⟩
        cases hf
        rfl
  | cput row col oldData newData =>
      have hr : r = _ := (Except.ok.inj h).symm.trans (parseCPUT_eq p row col oldData newData)
      rw [hp, if_pos rfl] at hr
      by_cases hc : CputHolds p.table.view (row, col) oldData
      · rw [if_pos hc] at hr
        subst hr
        rw [Server.sends, if_pos hc]
        refine ⟨rfl, fun hn => (by cases hn), fun f hf => ?_⟩
        cases hf
        rfl
      · rw [if_neg hc] at hr
        subst hr
        rw [Server.sends, if_neg hc]
        exact ⟨rfl, fun _ => rfl, fun f hf => (by cases hf)⟩
  | get row col =>
      have hr : r = p.parseGET row col := (Except.ok.inj h).symm
      refine ⟨?_, fun _ => ?_, fun f hf => (by cases hf)⟩ <;>
        rcases parseGET_cases p row col with ⟨d, _, hget⟩ | ⟨_, reply, _, hget⟩ <;>
        (rw [hr, hget]; try rfl)
  | delete row col =>
      have hr : r = p.parseDELE row col := (Except.ok.inj h).symm
      rcases parseDELE_cases p row col with ⟨d, hat, hdel⟩ | ⟨hat, reply, _, hdel⟩
      · rw [hdel] at hr
        subst hr
        rw [Server.sends, hat]
        refine ⟨rfl, fun hn => (by cases hn), fun f hf => ?_⟩
        cases hf
        exact ⟨by rw [hat]; rfl, rfl⟩
      · rw [hdel] at hr
        subst hr
        rw [Server.sends, hat]
        exact ⟨rfl, fun _ => rfl, fun f hf => (by cases hf)⟩

/-- The command is a `PUT` to `parse_PUT`'s null pointer. -/
def Forward.Null (t : Bmap) : Forward → Prop
  | .put row col _ _ => NullPut t row col
  | .delete .. => False

/-- An accepted `CPUT` whose command is a `PUT` to the null pointer. -/
def CputNull (t : Bmap) : Request → Prop
  | .cput row col oldData _ => CputHolds t.view (row, col) oldData ∧ NullPut t row col
  | _ => False

instance (t : Bmap) : DecidablePred (CputNull t)
  | .cput row col oldData _ =>
      inferInstanceAs (Decidable (CputHolds t.view (row, col) oldData ∧ NullPut t row col))
  | .put .. | .get .. | .delete .. => .isFalse id

/-- A completed request's command meets the null pointer only if the request was such a `CPUT`. -/
theorem cputNull_iff {p : Server} {q : Request} {r : Reaction} (h : p.handle q.call = .ok r)
    {f : Forward} (hf : p.sends q = some f) : CputNull p.table q ↔ f.Null p.table := by
  cases q with
  | put row col data =>
      cases hf
      refine iff_of_false id fun hnull => ?_
      rw [Request.call, Server.handle, parsePUT_fault data hnull] at h
      cases h
  | cput row col oldData newData =>
      rw [Server.sends] at hf
      split at hf
      · rename_i hc
        cases hf
        exact and_iff_right hc
      · cases hf
  | get row col => cases hf
  | delete row col =>
      rw [Server.sends] at hf
      split at hf
      · cases hf; exact Iff.rfl
      · cases hf

/-- **A replica's handler moves its table as the primary's moved**, or meets the null pointer. -/
theorem handle_forward {s : Server} {t t' : Bmap} (hs : s.table = t) {f : Forward}
    (hf : f.Moves t t') :
    f.Null t ∧ s.handle f.call = .error .nullDeref ∨
    ¬ f.Null t ∧ ∃ r, s.handle f.call = .ok r ∧ r.server.table = t' ∧
      r.server.primary = s.primary := by
  subst hs
  cases f with
  | put row col data seq =>
      by_cases hnull : NullPut s.table row col
      · exact Or.inl ⟨hnull, parsePUTReplica_fault seq data hnull⟩
      · exact Or.inr ⟨hnull, _, parsePUTReplica_eq seq data hnull, hf.symm, rfl⟩
  | delete row col seq =>
      refine Or.inr ⟨id, _, rfl, ?_⟩
      rw [Server.parseDELEReplica]
      rcases eraseDELE_cases (s.deleteToLogAt seq row col) row col [] with
        ⟨d, _, hdel⟩ | ⟨hat, _⟩
      · rw [hdel]; exact ⟨hf.2.symm, rfl⟩
      · have hat' : s.table.at? row col = none := hat
        have hsome := hf.1
        rw [hat'] at hsome
        exact absurd hsome (by simp)

/-- A request's command is well-formed if the request is. -/
theorem sends_wf {p : Server} {q : Request} (hq : q.WF) {f : Forward} (hf : p.sends q = some f) :
    f.WF := by
  cases q with
  | put row col data => cases hf; exact hq
  | cput row col oldData newData =>
      rw [Server.sends] at hf
      split at hf
      · cases hf; exact ⟨hq.1, hq.2.1, hq.2.2.2⟩
      · cases hf
  | get row col => cases hf
  | delete row col =>
      rw [Server.sends] at hf
      split at hf
      · cases hf; exact hq
      · cases hf

/-- A request's command has no byte of its own but digits and framing. -/
theorem sends_noNul {p : Server} {q : Request} (hq : '\x00' ∉ q.text) {f : Forward}
    (hf : p.sends q = some f) : '\x00' ∉ f.text := by
  have hdec : ∀ seq, '\x00' ∉ decimal seq := fun _ => notMem_decimal (by decide) (by decide)
  cases q with
  | put row col data =>
      cases hf
      simpa [Request.text, Request.line, Request.rest, Forward.text, Forward.line, Forward.rest,
        header, kwPUT, crlf, hdec, not_or] using hq
  | cput row col oldData newData =>
      rw [Server.sends] at hf
      split at hf
      · cases hf
        simp [Request.text, Request.line, Request.rest, header, kwCPUT, crlf, not_or] at hq
        simp [Forward.text, Forward.line, Forward.rest, header, kwPUT, crlf, hdec, hq]
      · cases hf
  | get row col => cases hf
  | delete row col =>
      rw [Server.sends] at hf
      split at hf
      · cases hf
        simpa [Request.text, Request.line, Request.rest, Forward.text, Forward.line, Forward.rest,
          header, kwDELETE, crlf, hdec, not_or] using hq
      · cases hf

end PennCloud
