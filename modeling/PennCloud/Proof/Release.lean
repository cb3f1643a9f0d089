import PennCloud.Lib.Alike
import PennCloud.Store.Faults

/-!
# When a connection that has ended gives its worker back

`Worker::run` ends by a `QUIT`, and by nothing else: at end of file `do_read` and
`do_read_data` read again and again, and when `read` fails they return, but none of
the loops around them looks at the result. So what a worker can still do when its
connection has ended, it does with the bytes that are there.

`Returns` is a run of the worker, from the greeting on. The server it works on is
also changed by others, so what each command finds is a parameter, `world`.
-/

namespace PennCloud

open Str

/-- How a connection ends. -/
inductive Ending
  /-- `read` returns 0 from now on. -/
  | closed
  /-- `read` returns a negative value from now on. -/
  | failed
  deriving DecidableEq, Repr

def Ending.read : Ending → Read
  | closed => .closed
  | failed => .failed

/-- What the commands find, by number: which replicas take a connection, and the server. -/
abbrev World := Nat → (Addr → Bool) × DataServer

/-- `Worker::run` returns from here, `i` commands having been taken. -/
inductive Returns (world : World) : Nat → Worker → Prop
  | off {i : Nat} {k : Worker} (hext : k.extractCommand = none) (hflag : k.runFlag = false) :
      Returns world i k
  | read {i : Nat} {k : Worker} {buf : Str} {task : List Read} (hext : k.extractCommand = none)
      (hflag : k.runFlag = true) (hread : doRead rlen k.task = .ok (buf, task))
      (hrest : Returns world i { k with w := k.w.write (cstr buf), task := task }) :
        Returns world i k
  | serve {i : Nat} {k k₁ k₂ : Worker} {command reply : Str} {s : DataServer}
      (hext : k.extractCommand = some (command, k₁))
      (hserve : (world i).2.serve (world i).1 command k₁ = .ok (s, k₂, reply))
      (hrest : Returns world (i + 1) k₂) : Returns world i k

/-- The worker takes these commands out of its stream and its reads, and comes to `l`. -/
inductive Takes (world : World) : Nat → Worker → List Str → Worker → Prop
  | nil (i : Nat) (k : Worker) : Takes world i k [] k
  | read {i : Nat} {k l : Worker} {buf : Str} {task : List Read} {cs : List Str}
      (hext : k.extractCommand = none) (hread : doRead rlen k.task = .ok (buf, task))
      (hrest : Takes world i { k with w := k.w.write (cstr buf), task := task } cs l) :
      Takes world i k cs l
  | serve {i : Nat} {k k₁ k₂ l : Worker} {command reply : Str} {s : DataServer} {cs : List Str}
      (hext : k.extractCommand = some (command, k₁))
      (hserve : (world i).2.serve (world i).1 command k₁ = .ok (s, k₂, reply))
      (hrest : Takes world (i + 1) k₂ cs l) : Takes world i k (command :: cs) l

/-- There is a `QUIT` among the commands that can be taken, and no line is left behind it. -/
def SignsOff (world : World) (task : List Read) : Prop :=
  ∃ cs l, Takes world 0 { task := task } cs l ∧ (∃ c ∈ cs, Worker.verb c = .quit) ∧
    l.extractCommand = none

/-! ## Reads that bring nothing -/

/-- The reads `e` behind `t`: ends of file, or failures behind the first one. -/
inductive Idle (t e : List Read) : Prop
  | closed (h : ∀ r ∈ e, r = .closed)
  | failed (h : ∀ r ∈ e, r = .failed) (hlast : ∀ r ∈ t.getLast?, r = .failed)

section Idle

variable {t t' e : List Read} {stop buf buffer out : Str} {len n m : Nat}

theorem Idle.suffix (h : Idle t e) (ht : t' <:+ t) : Idle t' e := by
  cases h with
  | closed h => exact .closed h
  | failed h hlast =>
      obtain ⟨u, rfl⟩ := ht
      refine .failed h fun r hr => hlast r ?_
      rw [List.getLast?_append, Option.mem_def.mp hr]
      rfl

/-- Behind the end, what is not end of file is a failure. -/
theorem Idle.failed_of (h : Idle t e) (he : ¬ ∀ r ∈ e, r = .closed) :
    ∃ e', e = .failed :: e' ∧ Idle [] e' := by
  cases h with
  | closed h => exact absurd h he
  | failed h hlast =>
      cases e with
      | nil => exact absurd (fun r hr => by cases hr) he
      | cons r e =>
          obtain ⟨rfl, hrest⟩ := List.forall_mem_cons.mp h
          exact ⟨e, rfl, .failed hrest fun r hr => (by cases hr)⟩

theorem readInto_closed (he : ∀ r ∈ e, r = .closed) :
    readInto stop len buf e = .error .blocked := by
  induction e with
  | nil => rfl
  | cons r e ih =>
      obtain ⟨rfl, hrest⟩ := List.forall_mem_cons.mp he
      exact ih hrest

/-- **A read loop does not get past the end**, but for the first failure. -/
theorem readInto_more (h : Idle t e) (hne : t ≠ [] ∨ ∀ r ∈ e, r = .closed) :
    readInto stop len buf (t ++ e) = (readInto stop len buf t).map fun r => (r.1, r.2 ++ e) := by
  induction t generalizing buf with
  | nil => exact readInto_closed (hne.resolve_left fun h => h rfl)
  | cons r t ih =>
      have hrest := h.suffix (List.suffix_cons r t)
      have hne' : r ≠ .failed → t ≠ [] ∨ ∀ r ∈ e, r = .closed := by
        intro hr
        cases h with
        | closed h => exact Or.inr h
        | failed h hlast =>
            refine Or.inl fun ht => hr (hlast r ?_)
            rw [ht]
            rfl
      cases r with
      | failed => rfl
      | closed => exact ih hrest (hne' (by simp))
      | data c =>
          rw [List.cons_append, readInto, readInto]
          split
          · rfl
          · split
            · rfl
            · exact ih hrest (hne' (by simp))

theorem readInto_suffix {t t' : List Read} {buf : Str}
    (h : readInto stop len buf t = .ok (out, t')) :
    t' <:+ t ∧ t'.length < t.length := by
  induction t generalizing buf with
  | nil => cases h
  | cons r t ih =>
      have hcons : t' <:+ t ∧ t'.length < t.length → t' <:+ r :: t ∧ t'.length < (r :: t).length :=
        fun ⟨hs, hlen⟩ => ⟨hs.trans (List.suffix_cons r t), Nat.lt_succ_of_lt hlen⟩
      cases r with
      | failed =>
          cases h
          exact ⟨List.suffix_cons _ _, Nat.lt_succ_self _⟩
      | closed => exact hcons (ih h)
      | data c =>
          rw [readInto] at h
          split at h
          · cases h
          · split at h
            · cases h
              exact ⟨List.suffix_cons _ _, Nat.lt_succ_self _⟩
            · exact hcons (ih h)

/-- With idle reads to come, `do_read` returns as without them, or it is the first that fails. -/
theorem doRead_more {task : List Read} (h : Idle t e)
    (hread : doRead rlen (t ++ e) = .ok (buf, task)) :
    (∃ u, doRead rlen t = .ok (buf, u) ∧ Idle u e ∧ task = u ++ e) ∨
      t = [] ∧ buf = [] ∧ Idle [] task := by
  by_cases hne : t ≠ [] ∨ ∀ r ∈ e, r = .closed
  · left
    rw [doRead, readInto_more h hne] at hread
    cases hk : readInto crlf rlen [] t with
    | error e' =>
        rw [hk] at hread
        cases hread
    | ok r =>
        obtain ⟨buf', u⟩ := r
        rw [hk] at hread
        cases hread
        exact ⟨u, hk, h.suffix (readInto_suffix hk).1, rfl⟩
  · right
    rw [not_or, Decidable.not_not] at hne
    obtain ⟨e', rfl, he⟩ := h.failed_of hne.2
    rw [hne.1] at hread
    cases hread
    exact ⟨hne.1, rfl, he⟩

/-- Where nothing is left, a body loop spins. -/
theorem readBody_spent (h : Idle [] e) (hno : buffer.find stop = npos) :
    readBody stop n buffer e = .error .blocked := by
  induction n generalizing e with
  | zero => rfl
  | succ n ih =>
      rw [readBody, if_neg fun h => h hno]
      cases h with
      | closed h =>
          rw [doReadData, readInto_closed h]
          rfl
      | failed h hlast =>
          cases e with
          | nil => rfl
          | cons r e =>
              obtain ⟨rfl, he⟩ := List.forall_mem_cons.mp h
              -- the read fails at once, and the buffer is what it was
              change readBody stop n (buffer ++ cstr []) e = _
              rw [show cstr [] = [] from rfl, List.append_nil]
              exact ih (.failed he hlast)

/-- **Nor does a body loop.** -/
theorem readBody_more (h : Idle t e) (hn : t.length < n) (hm : (t ++ e).length < m) :
    Lib.Alike (fun a b => b = (a.1, a.2 ++ e) ∧ Idle a.2 e) (readBody stop n buffer t)
      (readBody stop m buffer (t ++ e)) := by
  induction n generalizing t m buffer with
  | zero => omega
  | succ n ih =>
      obtain ⟨m, rfl⟩ : ∃ m', m = m' + 1 := ⟨m - 1, by omega⟩
      by_cases hfound : buffer.find stop = npos
      · by_cases hnil : t = [] ∧ ¬ ∀ r ∈ e, r = .closed
        · obtain ⟨rfl, -⟩ := hnil
          rw [List.nil_append, readBody_spent h hfound,
            readBody_spent (.closed fun r hr => (by cases hr)) hfound]
          exact .error _
        · have hne : t ≠ [] ∨ ∀ r ∈ e, r = .closed := by
            by_cases ht : t = []
            · exact Or.inr (Decidable.not_not.mp fun he => hnil ⟨ht, he⟩)
            · exact Or.inl ht
          rw [readBody, readBody, if_neg fun h => h hfound, if_neg fun h => h hfound, doReadData,
            doReadData, readInto_more h hne]
          cases hread : readInto dotLine rlen [] t with
          | error e' => exact .error e'
          | ok r =>
              obtain ⟨buf, t'⟩ := r
              obtain ⟨hsuf, hlen⟩ := readInto_suffix hread
              rw [List.length_append] at hm
              exact ih (h.suffix hsuf) (by omega) (by rw [List.length_append]; omega)
      · rw [readBody, readBody, if_pos hfound, if_pos hfound]
        exact .ok ⟨rfl, h⟩

end Idle

/-! ## Handlers -/

/-- `k'` is `k` with idle reads to come; `flag` is the `run_flag` of both. -/
structure Worker.More (e : List Read) (flag : Bool) (k k' : Worker) : Prop where
  w : k'.w = k.w
  flag_left : k.runFlag = flag
  flag_right : k'.runFlag = flag
  task : k'.task = k.task ++ e
  idle : Idle k.task e

section Handlers

variable {e : List Read} {flag : Bool} {k k' : Worker}

theorem lift_alike {α β : Type} {R : α → β → Prop} {x : Except Stop α} {y : Except Stop β}
    (h : Lib.Alike R x y) : Lib.Alike R (Halt.lift x) (Halt.lift y) := by
  cases h with
  | ok h => exact .ok h
  | error e => exact .error e.halt

/-- A handler's first loop. -/
theorem Worker.More.body (h : Worker.More e flag k k') (stop : Str) :
    Lib.Alike (fun a b => b = (a.1, a.2 ++ e) ∧ Idle a.2 e)
      (Halt.lift (readBody stop (k.task.length + 1) k.w.str k.task))
      (Halt.lift (readBody stop (k'.task.length + 1) k'.w.str k'.task)) := by
  rw [h.w, h.task]
  exact lift_alike (readBody_more h.idle (Nat.lt_succ_self _) (Nat.lt_succ_self _))

/-- What a handler leaves of its worker. -/
theorem Worker.More.left (h : Worker.More e flag k k') {t : List Read} (ht : Idle t e)
    (w : StringStream) :
    Worker.More e flag { k with w := w, task := t } { k' with w := w, task := t ++ e } :=
  ⟨rfl, h.flag_left, h.flag_right, rfl, ht⟩

theorem bodyPUTAt_more (h : Worker.More e flag k k') :
    Lib.Alike (fun a b => b.1 = a.1 ∧ Worker.More e flag a.2 b.2) k.bodyPUTAt k'.bodyPUTAt := by
  refine (h.body dotLine).bind ?_
  rintro ⟨buffer, t⟩ _ ⟨rfl, ht⟩
  refine .bind_self _ fun data => .bind_self _ fun w => ?_
  exact .ok ⟨rfl, h.left ht w⟩

theorem bodyPUTReplicaAt_more (h : Worker.More e flag k k') :
    Lib.Alike (fun a b => b.1 = a.1 ∧ b.2.1 = a.2.1 ∧ Worker.More e flag a.2.2 b.2.2)
      k.bodyPUTReplicaAt
      k'.bodyPUTReplicaAt := by
  refine (h.body dotLine).bind ?_
  rintro ⟨buffer, t⟩ _ ⟨rfl, ht⟩
  refine .bind_self _ fun data => .bind_self _ fun seqStr => .bind_self _ fun seq =>
    .bind_self _ fun w => ?_
  exact .ok ⟨rfl, rfl, h.left ht w⟩

theorem bodyDELEReplicaAt_more (h : Worker.More e flag k k') :
    Lib.Alike (fun a b => b.1 = a.1 ∧ Worker.More e flag a.2 b.2) k.bodyDELEReplicaAt
      k'.bodyDELEReplicaAt := by
  refine (h.body crlf).bind ?_
  rintro ⟨buffer, t⟩ _ ⟨rfl, ht⟩
  refine .bind_self _ fun w => .bind_self _ fun seqStr => .bind_self _ fun seq => ?_
  exact .ok ⟨rfl, h.left ht w⟩

theorem bodyCPUTAt_more (h : Worker.More e flag k k') :
    Lib.Alike (fun a b => b.1 = a.1 ∧ b.2.1 = a.2.1 ∧ Worker.More e flag a.2.2 b.2.2) k.bodyCPUTAt
      k'.bodyCPUTAt := by
  refine (h.body dotLine).bind ?_
  rintro ⟨buffer, t⟩ _ ⟨rfl, ht⟩
  refine .bind_self _ fun oldData => .bind_self _ fun buffer' => ?_
  refine (lift_alike (readBody_more ht (Nat.lt_succ_self _) (Nat.lt_succ_self _))).bind ?_
  rintro ⟨buffer'', t'⟩ _ ⟨rfl, ht'⟩
  refine .bind_self _ fun newData => .bind_self _ fun w => ?_
  exact .ok ⟨rfl, rfl, h.left ht' w⟩

theorem extractCommand_flag {command : Str} (h : k.extractCommand = some (command, k')) :
    k'.runFlag = k.runFlag := by
  rw [Worker.extractCommand] at h
  split at h
  · cases h
    rfl
  · cases h

theorem write_nil (w : StringStream) : w.write (cstr []) = w := by
  obtain ⟨s, pos⟩ := w
  simp [StringStream.write, cstr]

/-- What is served alike. -/
abbrev ServedMore (e : List Read) (flag : Bool) (a b : Served) : Prop :=
  b.1 = a.1 ∧ Worker.More e flag a.2.1 b.2.1 ∧ b.2.2 = a.2.2

theorem react_more (h : Worker.More e flag k k') (up : Addr → Bool) (s : DataServer)
    (r : Except Stop Reaction) : Lib.Alike (ServedMore e flag) (s.react up k r) (s.react up k' r) :=
  .bind_self _ fun _ => .bind_self _ fun _ => .ok ⟨rfl, h, rfl⟩

/-- **A command ends alike**, whatever idle reads are to come. -/
theorem serve_more (h : Worker.More e flag k k') (up : Addr → Bool) (s : DataServer)
    (command : Str) :
    Lib.Alike (ServedMore e (Worker.verb command ≠ .quit && flag)) (s.serve up command k)
      (s.serve up command k') := by
  rw [DataServer.serve, DataServer.serve]
  cases Worker.verb command with
  | quit => exact .ok ⟨rfl, ⟨h.w, rfl, rfl, h.task, h.idle⟩, rfl⟩
  | put =>
      refine .bind_self _ fun names => ?_
      dsimp only
      split
      · refine (bodyPUTAt_more h).bind ?_
        rintro ⟨data, l⟩ ⟨_, l'⟩ ⟨rfl, hl⟩
        exact react_more hl up s _
      · refine (bodyPUTReplicaAt_more h).bind ?_
        rintro ⟨seq, data, l⟩ ⟨_, _, l'⟩ ⟨rfl, rfl, hl⟩
        exact react_more hl up s _
  | cput =>
      refine .bind_self _ fun names => (bodyCPUTAt_more h).bind ?_
      rintro ⟨oldData, newData, l⟩ ⟨_, _, l'⟩ ⟨rfl, rfl, hl⟩
      exact react_more hl up s _
  | get => exact .bind_self _ fun names => react_more h up s _
  | dele =>
      refine .bind_self _ fun names => ?_
      dsimp only
      split
      · exact react_more h up s _
      · refine (bodyDELEReplicaAt_more h).bind ?_
        rintro ⟨seq, l⟩ ⟨_, l'⟩ ⟨rfl, hl⟩
        exact react_more hl up s _
  | promote => exact .map_self _ fun t => ⟨rfl, h, rfl⟩
  | recovery => exact .map_self _ fun t => ⟨rfl, h, rfl⟩
  | ready => exact .map_self _ fun t => ⟨rfl, h, rfl⟩
  | closeall => exact .error _
  | _ => exact .ok ⟨rfl, h, rfl⟩

theorem extractCommand_more (h : Worker.More e flag k k') :
    (k.extractCommand = none ∧ k'.extractCommand = none) ∨
      ∃ c k₁ k₁', k.extractCommand = some (c, k₁) ∧ k'.extractCommand = some (c, k₁') ∧
        Worker.More e flag k₁ k₁' := by
  unfold Worker.extractCommand
  rw [h.w]
  by_cases hfound : k.w.str.find crlf = npos
  · left
    simp [hfound]
  · right
    simp only [ne_eq, hfound, not_false_eq_true, if_true]
    exact ⟨_, _, _, rfl, rfl, rfl, h.flag_left, h.flag_right, h.task, h.idle⟩

end Handlers

/-- `run_flag` is put down by a `QUIT` only. -/
theorem serve_flag {up : Addr → Bool} {s t : DataServer} {command reply : Str} {k k' : Worker}
    (h : s.serve up command k = .ok (t, k', reply)) :
    k'.runFlag = (Worker.verb command ≠ .quit && k.runFlag) := by
  have hself : Worker.More [] k.runFlag k k :=
    ⟨rfl, rfl, rfl, (List.append_nil _).symm, .closed fun r hr => (by cases hr)⟩
  have halike := serve_more hself up s command
  rw [h] at halike
  obtain ⟨_, hok, -, hm, -⟩ := halike.of_ok
  exact hm.flag_right

/-! ## The run -/

section Run

variable {world : World} {i : Nat} {k k' : Worker}

/-- **Idle reads do not help**: a worker that returns with them returns without them. -/
theorem returns_of_more (h : Returns world i k') :
    ∀ e flag k, Worker.More e flag k k' → Returns world i k := by
  induction h with
  | off hext hflag =>
      intro e flag k hm
      rw [hm.flag_right, ← hm.flag_left] at hflag
      rcases extractCommand_more hm with ⟨hnone, -⟩ | ⟨c, k₁, k₁', -, hsome, -⟩
      · exact .off hnone hflag
      · rw [hext] at hsome
        cases hsome
  | @read i k' buf task hext hflag hread hrest ih =>
      intro e flag k hm
      rcases extractCommand_more hm with ⟨hnone, -⟩ | ⟨c, k₁, k₁', -, hsome, -⟩
      · rw [hm.task] at hread
        rw [hm.flag_right, ← hm.flag_left] at hflag
        rcases doRead_more hm.idle hread with ⟨t, hk, hidle, rfl⟩ | ⟨hnil, rfl, hidle⟩
        · refine .read hnone hflag hk (ih e flag _ ⟨?_, hm.flag_left, hm.flag_right, rfl, hidle⟩)
          rw [hm.w]
        · -- a read that fails at once leaves the stream as it was
          refine ih task flag k ⟨?_, hm.flag_left, hm.flag_right, ?_, ?_⟩
          · rw [hm.w]
            exact write_nil _
          · rw [hnil]
            rfl
          · rw [hnil]
            exact hidle
      · rw [hext] at hsome
        cases hsome
  | @serve i k' k₁ k₂ command reply s hext hserve hrest ih =>
      intro e flag k hm
      rcases extractCommand_more hm with ⟨-, hnone⟩ | ⟨c, l₁, l₁', hl, hl', hm₁⟩
      · rw [hext] at hnone
        cases hnone
      · rw [hext] at hl'
        cases hl'
        have halike := serve_more hm₁ (world i).1 (world i).2 command
        rw [hserve] at halike
        obtain ⟨⟨t, l₂, reply'⟩, hok, -, hm₂, -⟩ := halike.of_ok
        exact .serve hl hok (ih e _ l₂ hm₂)

/-- A worker that returns has taken its `QUIT`. -/
theorem takes_of_returns (h : Returns world i k) : ∃ cs l, Takes world i k cs l ∧
    (k.runFlag = true → ∃ c ∈ cs, Worker.verb c = .quit) ∧ l.extractCommand = none := by
  induction h with
  | off hext hflag =>
      refine ⟨[], _, .nil _ _, fun h => ?_, hext⟩
      rw [hflag] at h
      cases h
  | read hext hflag hread hrest ih =>
      obtain ⟨cs, l, ht, hquit, hl⟩ := ih
      exact ⟨cs, l, .read hext hread ht, hquit, hl⟩
  | @serve i k k₁ k₂ command reply s hext hserve hrest ih =>
      obtain ⟨cs, l, ht, hquit, hl⟩ := ih
      refine ⟨command :: cs, l, .serve hext hserve ht, fun hon => ?_, hl⟩
      by_cases hverb : Worker.verb command = .quit
      · exact ⟨command, List.mem_cons_self, hverb⟩
      · have hflag : k₂.runFlag = true := by
          rw [serve_flag hserve, extractCommand_flag hext, hon]
          simpa using hverb
        obtain ⟨c, hc, hv⟩ := hquit hflag
        exact ⟨c, List.mem_cons_of_mem _ hc, hv⟩

/-- And returns once no line is left behind it. -/
theorem returns_of_takes {cs : List Str} {l : Worker} (h : Takes world i k cs l)
    (hl : l.extractCommand = none) (hquit : k.runFlag = false ∨ ∃ c ∈ cs, Worker.verb c = .quit) :
    Returns world i k := by
  induction h with
  | nil i k =>
      refine .off hl (hquit.resolve_right ?_)
      rintro ⟨c, hc, -⟩
      cases hc
  | @read i k l buf task cs hext hread hrest ih =>
      cases hflag : k.runFlag with
      | false => exact .off hext hflag
      | true => exact .read hext hflag hread (ih hl hquit)
  | @serve i k k₁ k₂ l command reply s cs hext hserve hrest ih =>
      refine .serve hext hserve (ih hl ?_)
      rw [serve_flag hserve, extractCommand_flag hext]
      rcases hquit with hflag | ⟨c, hc, hv⟩
      · exact Or.inl (by rw [hflag, Bool.and_false])
      · rcases List.mem_cons.mp hc with rfl | hc
        · exact Or.inl (by simp [hv])
        · exact Or.inr ⟨c, hc, hv⟩

/-- The first of the reads that bring nothing may still leave something in the array. -/
theorem returns_first (ending : Ending) (reads : List Str) (n : Nat)
    (h : Returns world 0 { task := reads.map .data ++ List.replicate (n + 1) ending.read }) :
    Returns world 0 { task := reads.map .data ++ [ending.read] } := by
  refine returns_of_more h (List.replicate n ending.read) true _ ⟨rfl, rfl, rfl, ?_, ?_⟩
  · rw [List.replicate_succ, List.append_assoc, List.singleton_append]
  · cases ending with
    | closed => exact .closed fun r hr => List.eq_of_mem_replicate hr
    | failed =>
        refine .failed (fun r hr => List.eq_of_mem_replicate hr) fun r hr => ?_
        rw [List.getLast?_concat] at hr
        exact (Option.some.inj hr).symm

end Run

/--
**A connection that has ended gives its worker back if and only if** there is a
`QUIT` among the commands it takes out of the bytes that have come, and what is
behind it in the stream is complete.
-/
theorem released_iff_signsOff (world : World) (reads : List Str) (ending : Ending) :
    (∃ n, Returns world 0 { task := reads.map .data ++ List.replicate (n + 1) ending.read }) ↔
      SignsOff world (reads.map .data ++ [ending.read]) := by
  constructor
  · rintro ⟨n, h⟩
    obtain ⟨cs, l, ht, hquit, hl⟩ := takes_of_returns (returns_first ending reads n h)
    exact ⟨cs, l, ht, hquit rfl, hl⟩
  · rintro ⟨cs, l, ht, hquit, hl⟩
    exact ⟨0, returns_of_takes ht hl (Or.inr hquit)⟩

/-- A primary on its own. -/
def quietWorld : World := fun _ => (fun _ => true, promotedServer)

/-- A `QUIT` with a line behind it that has not come to its end. -/
example (ending : Ending) :
    SignsOff quietWorld [.data "GET <a> <x>\r\nQUIT\r\nGE".toList, ending.read] :=
  ⟨["GET <a> <x>\r\n".toList, "QUIT\r\n".toList], _,
    .read rfl rfl (.serve rfl rfl (.serve rfl rfl (.nil _ _))),
    ⟨"QUIT\r\n".toList, by simp, by decide⟩, rfl⟩

/-- A `PUT` whose body does not come: its worker is lost. -/
theorem waitingPut_lost : ¬ ∃ ending n, Returns quietWorld 0
    { task := ["PUT <a> <x>\r\n".toList].map .data
      ++ List.replicate (n + 1) (Ending.read ending) } := by
  rintro ⟨ending, n, h⟩
  have hline : doRead rlen [.data "PUT <a> <x>\r\n".toList, ending.read]
      = .ok ("PUT <a> <x>\r\n".toList, [ending.read]) := by rfl
  have hserve : promotedServer.serve (fun _ => true) "PUT <a> <x>\r\n".toList
      { task := [ending.read], w := .setStr [] } = .error .waits := by
    cases ending <;> rfl
  -- the line comes, is taken, and its handler waits
  cases returns_first ending _ n h with
  | off hext hflag => cases hflag
  | serve hext _ _ => cases hext
  | read hext hflag hread hrest =>
      cases hline.symm.trans hread
      cases hrest with
      | off hext hflag => cases hflag
      | read hext _ _ _ => cases hext
      | serve hext hput _ =>
          cases hext
          cases hserve.symm.trans hput

end PennCloud
