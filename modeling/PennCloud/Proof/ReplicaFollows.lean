import PennCloud.Proof.TableRefinement

/-!
# A replica follows the primary

The primary completes a request, `BackStore` writes its command to the replica's
connection, and the replica's worker reads it in one piece: extraction, parsing
and handler in the non-primary role. The invariant is that the two nested tables
are equal, rows without columns included, and that the worker's stream is empty.

It is kept except by two commands. A command that fills the worker's read buffer
cannot be taken in. And a `PUT` that stands for a `CPUT` goes through the presence
test of `parse_PUT`, which `CPUT` does not share: where the primary made a new
column named like a row, the replica reaches the null pointer. `FollowSafe`
excludes both, and `follows_iff_followSafe` shows that nothing else goes wrong. It
is about requests without zero bytes; a worker hands no other to a handler
(`step_noNul`).
-/

namespace PennCloud

open Str

/-- A worker and its server at work until the connection has nothing more to read. -/
inductive Works : Server → Worker → Server → Worker → Prop
  | waits {s k} : k.step s.primary = .error .blocked → Works s k s k
  | reads {s t k k' l} : k.step s.primary = .ok (none, k') → Works s k' t l → Works s k t l
  | calls {s t k k' l c r} : k.step s.primary = .ok (some (.call c), k') →
      s.handle c = .ok r → Works r.server k' t l → Works s k t l

/-- The replica's worker when the next commands arrive, one whole command per read. -/
def inbox (w : StringStream) (fs : List Forward) : Worker :=
  { w := w, task := fs.map fun f => .data f.text }

/--
The replica follows: after each request the primary completes, its worker takes
in the forwarded commands and waits, with the primary's contents in its table and
nothing left in its stream.
-/
def Follows : Server → Server → StringStream → List Request → Prop
  | _, _, _, [] => True
  | p, s, w, q :: qs => ∀ r, p.serve q = .ok r →
      ∃ t k, Works s (inbox w r.forwarded) t k ∧ t.table.view = r.server.table.view ∧
        k.w.str = [] ∧ Follows r.server t k.w qs

/-- The command fits the worker's read buffer, and is no `PUT` of a `CPUT` to the null pointer. -/
def FollowSafe (p : Server) (q : Request) : Prop :=
  (∀ f ∈ p.sends q, f.text.length < rlen) ∧ ¬ CputNull p.table q

instance (p : Server) : DecidablePred (FollowSafe p) := fun q => by
  unfold FollowSafe; infer_instance

/-! ## One command at the replica -/

theorem isLine_forward {f : Forward} (hf : f.WF) : IsLine f.line := by
  cases f with
  | put row col data seq => exact isLine_header (by decide) hf.1 hf.2.1
  | delete row col seq => exact isLine_header (by decide) hf.1 hf.2

/-- The command arrives: one read, if it fits the buffer. -/
theorem step_arrives {f : Forward} (hf : f.WF) (hnul : '\x00' ∉ f.text) (primary : Bool) :
    (inbox {} [f]).step primary =
      if rlen ≤ f.text.length then .error .overrun
      else .ok (none, { w := { str := f.text, pos := f.text.length }, task := [] }) := by
  obtain ⟨i, hi, -⟩ := (isLine_forward hf).firstIdx f.rest
  have hfind : find f.text crlf ≠ npos := by
    rw [show f.text = f.line ++ f.rest from rfl, find_of_firstIdx hi, npos]
    omega
  have hread : doRead rlen [.data f.text] =
      if rlen ≤ f.text.length then .error .overrun else .ok (f.text, []) := by
    rw [doRead, readInto, List.nil_append, cstr_eq hnul, if_pos hfind]
  have hempty : (inbox {} [f]).extractCommand = none := rfl
  rw [Worker.step, hempty]
  show (if true = true then _ else _) = _
  rw [if_pos rfl, show (inbox {} [f]).task = [.data f.text] from rfl, hread]
  split
  · rfl
  · simp [bind, Except.bind, pure, Except.pure, cstr_eq hnul, StringStream.write, inbox]

/-- The command is extracted and its handler called; the stream is empty again. -/
theorem step_calls {f : Forward} (hf : f.WF) (n : Nat) :
    ({ w := { str := f.text, pos := n }, task := [] } : Worker).step false
      = .ok (some (.call f.call), { w := {}, task := [] }) := by
  have hext := extractCommand_line (isLine_forward hf)
    ({ w := { str := f.text, pos := n }, task := [] } : Worker) rfl
  have hdis := dispatch_forward hf []
    ({ w := .setStr f.rest, task := [] } : Worker) (by simp)
  have hbehind : f.behind [] = {} := by cases f <;> rfl
  rw [Worker.step, hext]
  simp only [hdis, hbehind, bind, Except.bind, pure, Except.pure]

theorem step_idle (primary : Bool) :
    ({ w := {}, task := [] } : Worker).step primary = .error .blocked := rfl

/-- **What a replica does with one command**: nothing but the call it names. -/
theorem works_forward {s t : Server} (hs : s.primary = false) {k : Worker} {f : Forward}
    (hf : f.WF) (hnul : '\x00' ∉ f.text) :
    Works s (inbox {} [f]) t k ↔ f.text.length < rlen ∧
      ∃ r, s.handle f.call = .ok r ∧ Works r.server { w := {}, task := [] } t k := by
  have harr := step_arrives hf hnul s.primary
  have hcall := step_calls hf f.text.length
  rw [← hs] at hcall
  constructor
  · intro h
    by_cases hlen : rlen ≤ f.text.length
    · rw [if_pos hlen] at harr
      cases h with
      | waits hw => rw [harr] at hw; cases hw
      | reads hr => rw [harr] at hr; cases hr
      | calls hc => rw [harr] at hc; cases hc
    · rw [if_neg hlen] at harr
      refine ⟨Nat.lt_of_not_le hlen, ?_⟩
      cases h with
      | waits hw => rw [harr] at hw; cases hw
      | calls hc => rw [harr] at hc; cases hc
      | reads hr h =>
          rw [harr] at hr
          cases hr
          cases h with
          | waits hw => rw [hcall] at hw; cases hw
          | reads hr => rw [hcall] at hr; cases hr
          | calls hc hh h => rw [hcall] at hc; cases hc; exact ⟨_, hh, h⟩
  · rintro ⟨hlen, r, hh, h⟩
    rw [if_neg (Nat.not_le_of_lt hlen)] at harr
    exact .reads harr (.calls hcall hh h)

/-- With nothing to read the worker waits. -/
theorem works_idle {s t : Server} {k : Worker} :
    Works s { w := {}, task := [] } t k ↔ t = s ∧ k = { w := {}, task := [] } := by
  constructor
  · intro h
    cases h with
    | waits => exact ⟨rfl, rfl⟩
    | reads hr => rw [step_idle] at hr; cases hr
    | calls hc => rw [step_idle] at hc; cases hc
  · rintro ⟨rfl, rfl⟩
    exact .waits (step_idle _)

/-! ## One request -/

/-- With a command on the way, `FollowSafe` is about that command alone. -/
theorem followSafe_some {p : Server} {q : Request} {r : Reaction} (h : p.handle q.call = .ok r)
    {f : Forward} (hf : p.sends q = some f) :
    FollowSafe p q ↔ f.text.length < rlen ∧ ¬ f.Null p.table := by
  have hlen : (∀ g ∈ p.sends q, g.text.length < rlen) ↔ f.text.length < rlen := by simp [hf]
  rw [FollowSafe, hlen, cputNull_iff h hf]

/-- With none, it holds. -/
theorem followSafe_none {p : Server} {q : Request} (hf : p.sends q = none) : FollowSafe p q := by
  refine ⟨by simp [hf], ?_⟩
  cases q with
  | cput row col oldData newData =>
      rintro ⟨hc, -⟩
      rw [Server.sends, if_pos hc] at hf
      cases hf
  | put row col data => exact id
  | get row col => exact id
  | delete row col => exact id

section OneRequest

variable {p s : Server} {q : Request} {r : Reaction}

/-- The replica settles after a request only if it was `FollowSafe`, and then in step. -/
theorem works_request (hp : p.primary = true) (hs : s.primary = false)
    (htab : s.table = p.table) (hq : q.WF) (hnul : '\x00' ∉ q.text)
    (h : p.handle q.call = .ok r) {t : Server} {k : Worker}
    (hw : Works s (inbox {} r.forwarded) t k) :
    FollowSafe p q ∧ t.primary = false ∧ t.table = r.server.table ∧
    k = { w := {}, task := [] } := by
  obtain ⟨hfwd, hkept, hmoves⟩ := sends_spec hp h
  rw [hfwd] at hw
  cases hf : p.sends q with
  | none =>
      rw [hf] at hw
      obtain ⟨rfl, rfl⟩ := works_idle.mp hw
      exact ⟨followSafe_none hf, hs, htab.trans (hkept hf).symm, rfl⟩
  | some f =>
      rw [hf] at hw
      obtain ⟨hlen, r', hh, hw'⟩ :=
        (works_forward hs (sends_wf hq hf) (sends_noNul hnul hf)).mp hw
      obtain ⟨rfl, rfl⟩ := works_idle.mp hw'
      rcases handle_forward htab (hmoves f hf) with ⟨_, herr⟩ | ⟨hnull, r'', hok, htab', hrole⟩
      · rw [herr] at hh; cases hh
      · rw [hok] at hh
        cases hh
        exact ⟨(followSafe_some h hf).mpr ⟨hlen, hnull⟩, hrole.trans hs, htab', rfl⟩

/-- A `FollowSafe` request brings the replica to rest. -/
theorem works_of_followSafe (hp : p.primary = true) (hs : s.primary = false)
    (htab : s.table = p.table) (hq : q.WF) (hnul : '\x00' ∉ q.text)
    (h : p.handle q.call = .ok r) (hsafe : FollowSafe p q) :
    ∃ t, Works s (inbox {} r.forwarded) t { w := {}, task := [] } := by
  obtain ⟨hfwd, -, hmoves⟩ := sends_spec hp h
  rw [hfwd]
  cases hf : p.sends q with
  | none => exact ⟨s, works_idle.mpr ⟨rfl, rfl⟩⟩
  | some f =>
      obtain ⟨hlen, hnull⟩ := (followSafe_some h hf).mp hsafe
      rcases handle_forward htab (hmoves f hf) with ⟨hn, _⟩ | ⟨_, r', hok, _⟩
      · exact absurd hn hnull
      · exact ⟨r'.server, (works_forward hs (sends_wf hq hf) (sends_noNul hnul hf)).mpr
          ⟨hlen, r', hok, works_idle.mpr ⟨rfl, rfl⟩⟩⟩

end OneRequest

/-! ## A run of requests -/

/-- The run from any two servers in step. -/
theorem follows_iff {p s : Server} (hp : p.primary = true) (hs : s.primary = false)
    (htab : s.table = p.table) {qs : List Request} (hqs : ∀ q ∈ qs, q.WF ∧ '\x00' ∉ q.text)
    (hrun : (Lib.run Server.serveStep p qs).isSome = true) :
    Follows p s {} qs ↔ Lib.Guarded Server.serveStep FollowSafe p qs := by
  induction qs generalizing p s with
  | nil => exact Iff.rfl
  | cons q qs ih =>
      obtain ⟨hq, hnul⟩ := hqs q (List.mem_cons_self ..)
      have hrest : ∀ q ∈ qs, q.WF ∧ '\x00' ∉ q.text := fun q h => hqs q (List.mem_cons_of_mem _ h)
      -- the primary completes this request, and then the others
      obtain ⟨u, hu⟩ := Option.isSome_iff_exists.mp hrun
      obtain ⟨p', hp', hrun'⟩ := Lib.run_cons hu
      have hrole' := serveStep_primary hp hq hp'
      have hserve := serve_eq hp hq
      obtain ⟨r, hr, rfl⟩ := map_toOption_some hp'
      have hh : p.handle q.call = .ok r := hserve.symm.trans hr
      have hrun'' : (Lib.run Server.serveStep r.server qs).isSome = true :=
        Option.isSome_iff_exists.mpr ⟨u, hrun'⟩
      rw [Follows, Lib.Guarded]
      constructor
      · intro hfol
        obtain ⟨t, k, hw, _, _, hfol'⟩ := hfol r hr
        obtain ⟨hsafe, hts, htt, rfl⟩ := works_request hp hs htab hq hnul hh hw
        refine ⟨hsafe, fun p'' hp'' => ?_⟩
        rw [hp'] at hp''
        cases hp''
        exact (ih hrole' hts htt hrest hrun'').mp hfol'
      · rintro ⟨hsafe, hguard⟩ r' hr'
        rw [hr] at hr'
        cases hr'
        obtain ⟨t, hw⟩ := works_of_followSafe hp hs htab hq hnul hh hsafe
        obtain ⟨-, hts, htt, -⟩ := works_request hp hs htab hq hnul hh hw
        exact ⟨t, _, hw, congrArg Nested.view htt, rfl,
          (ih hrole' hts htt hrest hrun'').mpr (hguard _ hp')⟩

/-- A replica with an empty table. -/
def replicaStart : Server := { primary := false }

/--
**A replica follows its primary.** Over every sequence of well-formed requests
that the primary completes, from two empty tables, the replica takes each command
in and has the primary's contents after it if and only if every command fits its
read buffer and no accepted `CPUT` makes a column where a `PUT` would meet the
null pointer.
-/
theorem follows_iff_followSafe {qs : List Request} (hqs : ∀ q ∈ qs, q.WF ∧ '\x00' ∉ q.text)
    (hrun : (Lib.run Server.serveStep primaryStart qs).isSome = true) :
    Follows primaryStart replicaStart {} qs ↔
      Lib.Guarded Server.serveStep FollowSafe primaryStart qs :=
  follows_iff (p := primaryStart) (s := replicaStart) rfl rfl rfl hqs hrun

/-- Dots and line breaks in the data, an empty body, a refused `CPUT`, a missing key. -/
def followedHistory : List Request :=
  [.put ['a'] ['x'] ['.', '.', '\r', '\n', '\n', '.', '\n', '\r', '\n'], .put ['a'] ['y'] [],
   .cput ['a'] ['x'] oldNULL [], .cput ['a'] ['y'] [] ['1', '\r', '\n'], .delete ['b'] ['x'],
   .delete ['a'] ['x']]

theorem followedHistory_follows : Follows primaryStart replicaStart {} followedHistory :=
  (follows_iff_followSafe (by decide) (by decide)).mpr (by decide)

/-- Two rows, then a `CPUT` that makes a column of the first named like the second. -/
def crossCput : List Request :=
  [.put ['a'] ['x'] ['1', '\r', '\n'], .put ['b'] ['y'] ['2', '\r', '\n'],
   .cput ['a'] ['b'] oldNULL ['3', '\r', '\n']]

/-- The primary completes `crossCput`; the replica does not. -/
theorem crossCput_not_follows :
    (∀ q ∈ crossCput, q.WF ∧ '\x00' ∉ q.text) ∧
      (Lib.run Server.serveStep primaryStart crossCput).isSome = true ∧
      ¬ Follows primaryStart replicaStart {} crossCput := by
  refine ⟨by decide, by decide, fun h => ?_⟩
  have hiff := follows_iff (p := primaryStart) (s := replicaStart) rfl rfl rfl
    (show ∀ q ∈ crossCput, _ from by decide) (by decide)
  exact absurd (hiff.mp h) (by decide)

end PennCloud
