import PennCloud.Store.Misread

/-!
# Requests on a connection, however the bytes are cut

The bytes of a sequence of well-formed messages arrive in reads. `do_read` puts
reads together until a line break shows up; the worker takes whole commands out
of its stream and asks for more when no line is left.

Two things go wrong. A handler with a body drops the byte behind it. And what is
left in the stream when the next reads come is overwritten by them, because
`str(s)` has put the write position at the start. So the reads must fall into
groups that end where a message ends, with no message behind a body: `Aligned`.
There is one more way through, for a replica: a `DELETE` whose sequence number is
still missing reads up to the next `"\r\n.\r\n"`, and appends.

`serves_iff_aligned` says that the worker dispatches exactly the messages that
were sent if and only if the cuts are `Aligned`.
-/

namespace PennCloud

open Str

/-- A message on a connection: a client's to a primary, or a primary's to a replica. -/
inductive Msg
  | request (q : Request)
  | list
  | forward (f : Forward)
  deriving DecidableEq, Repr

namespace Msg

def line : Msg → Str
  | request q => q.line
  | list => kwLIST ++ crlf
  | forward f => f.line

def rest : Msg → Str
  | request q => q.rest
  | list => []
  | forward f => f.rest

/-- All its bytes. -/
def text (m : Msg) : Str := m.line ++ m.rest

/-- What the worker should make of it. -/
def dispatch : Msg → Dispatch
  | request q => .call q.call
  | list => .list
  | forward f => .call f.call

/-- Whether it has a body: `PUT` and `CPUT`. -/
def body : Msg → Bool
  | request (.put ..) | request (.cput ..) | forward (.put ..) => true
  | _ => false

/-- A well-formed message to a server in this role. -/
def For (primary : Bool) : Msg → Prop
  | request q => primary = true ∧ q.WF
  | list => primary = true
  | forward f => primary = false ∧ f.WF

instance (primary : Bool) (m : Msg) : Decidable (m.For primary) := by
  cases m with
  | request q => exact inferInstanceAs (Decidable (_ ∧ _))
  | list => exact inferInstanceAs (Decidable (_ = _))
  | forward f =>
      cases f with
      | put row col data seq => exact inferInstanceAs (Decidable (_ ∧ _ ∧ _ ∧ _))
      | delete row col seq => exact inferInstanceAs (Decidable (_ ∧ _ ∧ _))

end Msg

/-- The bytes of a sequence of messages. -/
def bytes (ms : List Msg) : Str := ms.flatMap Msg.text

/-- `Worker::run` until the connection has nothing more to read: what it dispatches. -/
inductive Serves (primary : Bool) : Worker → List Dispatch → Prop
  | waits {k} : k.step primary = .error .blocked → Serves primary k []
  | reads {k k' ds} : k.step primary = .ok (none, k') → Serves primary k' ds → Serves primary k ds
  | serves {k k' d ds} : k.step primary = .ok (some d, k') → Serves primary k' ds →
      Serves primary k (d :: ds)

/-- What a worker dispatches is determined. -/
theorem Serves.unique {primary : Bool} {k : Worker} {ds : List Dispatch} (h : Serves primary k ds) :
    ∀ {ds' : List Dispatch}, Serves primary k ds' → ds = ds' := by
  induction h with
  | waits hstep =>
      intro ds' h'
      cases h' with
      | waits _ => rfl
      | reads hstep' _ => cases hstep.symm.trans hstep'
      | serves hstep' _ => cases hstep.symm.trans hstep'
  | reads hstep _ ih =>
      intro ds' h'
      cases h' with
      | waits hstep' => cases hstep.symm.trans hstep'
      | reads hstep' h' =>
          cases hstep.symm.trans hstep'
          exact ih h'
      | serves hstep' _ => cases hstep.symm.trans hstep'
  | serves hstep _ ih =>
      intro ds' h'
      cases h' with
      | waits hstep' => cases hstep.symm.trans hstep'
      | reads hstep' _ => cases hstep.symm.trans hstep'
      | serves hstep' h' =>
          cases hstep.symm.trans hstep'
          rw [ih h']

/-- Each message with a body lies inside one read. -/
def InOneRead (ms : List Msg) (reads : List Str) : Prop :=
  ∀ before m after, ms = before ++ m :: after → m.body = true →
    ∃ rs r rs' u v, reads = rs ++ r :: rs' ∧ r = u ++ m.text ++ v ∧ rs.flatten ++ u = bytes before

/-- The reads that one `do_read` (or `do_read_data`) puts together. -/
structure ReadGroup (stop : Str) (g : List Str) : Prop where
  ends : stop <:+: g.flatten
  first : ¬ stop <:+: g.dropLast.flatten
  fits : g.flatten.length < rlen

instance (stop : Str) (g : List Str) : Decidable (ReadGroup stop g) :=
  decidable_of_iff (stop <:+: g.flatten ∧ ¬ stop <:+: g.dropLast.flatten ∧ g.flatten.length < rlen)
    ⟨fun h => ⟨h.1, h.2.1, h.2.2⟩, fun h => ⟨h.ends, h.first, h.fits⟩⟩

/--
The cuts suit the worker: `Aligned x ms reads` is about the messages `ms` of which
`x` has been read already. A group of reads starts where the last one ended, ends
with a message, and has no message behind one with a body; `late` is the `DELETE`
whose sequence number line is completed by the reads up to the next dot line.
-/
inductive Aligned : Str → List Msg → List Str → Prop
  | done : Aligned [] [] []
  | read {g ms reads} : ReadGroup crlf g → Aligned g.flatten ms reads → Aligned [] ms (g ++ reads)
  | line {m x ms reads} : m.body = false → Aligned x ms reads →
      Aligned (m.text ++ x) (m :: ms) reads
  | body {m ms reads} : m.body = true → Aligned [] ms reads → Aligned m.text (m :: ms) reads
  | late {row col seq n n' g x ms reads} : n ++ n' = decimal seq ++ crlf → n' ≠ [] →
      ReadGroup dotLine g → g.flatten = n' ++ x → Aligned x ms reads →
      Aligned (header kwDELETE row col crlf ++ n)
        (.forward (.delete row col seq) :: ms) (g ++ reads)

/-! ## Messages -/

theorem isLine_msg {primary : Bool} {m : Msg} (hm : m.For primary) : IsLine m.line := by
  cases m with
  | request q =>
      obtain ⟨-, hq⟩ := hm
      cases q with
      | put row col data => exact isLine_header (by decide) hq.1 hq.2.1
      | cput row col oldData newData => exact isLine_header (by decide) hq.1 hq.2.1
      | get row col => exact isLine_header (by decide) hq.1 hq.2
      | delete row col => exact isLine_header (by decide) hq.1 hq.2
  | list => exact ⟨kwLIST, rfl, by decide⟩
  | forward f =>
      obtain ⟨-, hf⟩ := hm
      cases f with
      | put row col data seq => exact isLine_header (by decide) hf.1 hf.2.1
      | delete row col seq => exact isLine_header (by decide) hf.1 hf.2

/-- The stream behind a message. -/
def Msg.behind (m : Msg) (later : Str) : StringStream :=
  if m.body then behindBody later else .setStr later

/-- A message is dispatched as what it is. -/
theorem dispatch_msg {primary : Bool} {m : Msg} (hm : m.For primary) (later : Str) (k : Worker)
    (hk : k.w = .setStr (m.rest ++ later)) :
    k.dispatch primary m.line = .ok (m.dispatch, { k with w := m.behind later }) := by
  cases m with
  | request q =>
      obtain ⟨rfl, hq⟩ := hm
      rw [Msg.line, dispatch_request hq later k hk]
      cases q <;> rfl
  | list =>
      obtain rfl : primary = true := hm
      have hw : k = { k with w := .setStr later } := by rw [show .setStr later = k.w from hk.symm]
      exact congrArg (fun k => Except.ok (Dispatch.list, k)) hw
  | forward f =>
      obtain ⟨rfl, hf⟩ := hm
      rw [Msg.line, dispatch_forward hf later k hk]
      cases f <;> rfl

/-- A message but `LIST` is a data command with its two names. -/
theorem msg_header {primary : Bool} {m : Msg} (hm : m.For primary) : m = .list ∨
    ∃ kw row col c, (kw, m.dispatch.verb) ∈ dataVerbs ∧ Name row ∧ Name col ∧
      m.line = header kw row col crlf ∧ m.dispatch = .call c ∧ c.names = (row, col) := by
  cases m with
  | request q =>
      obtain ⟨-, hq⟩ := hm
      cases q with
      | put row col data =>
          exact Or.inr ⟨_, _, _, _, (by decide : (kwPUT, Worker.Verb.put) ∈ dataVerbs),
            hq.1, hq.2.1, rfl, rfl, rfl⟩
      | cput row col oldData newData =>
          exact Or.inr ⟨_, _, _, _, (by decide : (kwCPUT, Worker.Verb.cput) ∈ dataVerbs),
            hq.1, hq.2.1, rfl, rfl, rfl⟩
      | get row col =>
          exact Or.inr ⟨_, _, _, _, (by decide : (kwGET, Worker.Verb.get) ∈ dataVerbs),
            hq.1, hq.2, rfl, rfl, rfl⟩
      | delete row col =>
          exact Or.inr ⟨_, _, _, _, (by decide : (kwDELETE, Worker.Verb.dele) ∈ dataVerbs),
            hq.1, hq.2, rfl, rfl, rfl⟩
  | list => exact Or.inl rfl
  | forward f =>
      obtain ⟨-, hf⟩ := hm
      cases f with
      | put row col data seq =>
          exact Or.inr ⟨_, _, _, _, (by decide : (kwPUT, Worker.Verb.put) ∈ dataVerbs),
            hf.1, hf.2.1, rfl, rfl, rfl⟩
      | delete row col seq =>
          exact Or.inr ⟨_, _, _, _, (by decide : (kwDELETE, Worker.Verb.dele) ∈ dataVerbs),
            hf.1, hf.2, rfl, rfl, rfl⟩

/-- A message's line has a byte before its line break. -/
theorem msg_line_cons {primary : Bool} {m : Msg} (hm : m.For primary) :
    ∃ c a, m.line = c :: (a ++ crlf) := by
  obtain ⟨a, ha, -⟩ := isLine_msg hm
  cases a with
  | cons c a => exact ⟨c, a, ha⟩
  | nil =>
      rcases msg_header hm with rfl | ⟨kw, row, col, -, -, -, -, hline, -⟩
      · cases ha
      · rw [hline] at ha
        have hlen := congrArg List.length ha
        simp only [header, crlf, List.length_append, List.length_cons, List.length_nil] at hlen
        omega

/-! ## Groups of reads -/

theorem ReadGroup.ne_nil {stop : Str} {g : List Str} (hg : ReadGroup stop g) (hstop : stop ≠ []) :
    g ≠ [] := by
  rintro rfl
  have hnil := hg.ends
  rw [List.flatten_nil, List.infix_nil] at hnil
  exact hstop hnil

/-- A loop that starts with nothing takes a group in whole. -/
theorem ReadGroup.read {stop : Str} {g : List Str} (hg : ReadGroup stop g) (reads : List Str)
    (hstop : stop ≠ []) (hnul : '\x00' ∉ g.flatten) :
    readInto stop rlen [] ((g ++ reads).map .data) = .ok (g.flatten, reads.map .data) := by
  have hgroup := readInto_group (b := []) reads (hg.ne_nil hstop) hnul hg.ends hg.first hg.fits
  rwa [List.nil_append] at hgroup

/-! ## Lines -/

/-- What a worker extracts is a line, and the first of its stream. -/
theorem extractCommand_some {k k' : Worker} {l : Str} (h : k.extractCommand = some (l, k')) :
    IsLine l ∧ ∃ y, k.w.str = l ++ y ∧ k' = { k with w := .setStr y } := by
  rw [Worker.extractCommand] at h
  split at h
  · rename_i hne
    obtain ⟨i, hi⟩ := Lib.firstIdx_isSome (find_ne_npos.mp hne)
    obtain ⟨a, b, hab, ha⟩ := Lib.firstIdx_split hi
    have hline : IsLine (a ++ crlf) := by
      refine ⟨a, rfl, fun ha' => ?_⟩
      obtain ⟨j, hj⟩ := Lib.firstIdx_isSome ha'
      obtain ⟨u, v, huv, hu⟩ := Lib.firstIdx_split hj
      have hij := Lib.firstIdx_append (crlf ++ b) hj
      rw [← List.append_assoc, ← hab, hi] at hij
      have hlen := congrArg List.length huv
      simp only [List.length_append, crlf, List.length_cons, List.length_nil] at hlen
      have := Option.some.inj hij
      omega
    have hext := extractCommand_line hline k hab
    rw [Worker.extractCommand, if_pos hne] at hext
    rw [hext] at h
    cases h
    exact ⟨hline, b, hab, rfl⟩
  · cases h

theorem extractCommand_none {k : Worker} : k.extractCommand = none ↔ ¬ crlf <:+: k.w.str := by
  rw [Worker.extractCommand]
  split
  · rename_i h
    exact iff_of_false (by simp) (fun hno => hno (find_ne_npos.mp h))
  · rename_i h
    exact iff_of_true rfl (fun hi => h (find_ne_npos.mpr hi))

/-! ## Steps of the worker -/

section Steps

variable {primary : Bool} {k k' : Worker} {d : Dispatch}

/-- A dispatch is of the first line in the stream. -/
theorem step_some (h : k.step primary = .ok (some d, k')) : ∃ l y, IsLine l ∧ k.w.str = l ++ y ∧
    Worker.dispatch primary l { k with w := .setStr y } = .ok (d, k') := by
  rw [Worker.step] at h
  split at h
  · rename_i l k1 hext
    obtain ⟨⟨d', k2⟩, hdis, h⟩ := bind_ok h
    cases h
    obtain ⟨hl, y, hy, rfl⟩ := extractCommand_some hext
    exact ⟨l, y, hl, hy, hdis⟩
  · split at h
    · obtain ⟨_, -, h⟩ := bind_ok h
      cases h
    · cases h

/-- A read is made when there is no line in the stream. -/
theorem step_none (h : k.step primary = .ok (none, k')) : ¬ crlf <:+: k.w.str ∧
    ∃ buf task, doRead rlen k.task = .ok (buf, task) ∧
      k' = { k with w := k.w.write (cstr buf), task := task } := by
  rw [Worker.step] at h
  split at h
  · obtain ⟨_, -, h⟩ := bind_ok h
    cases h
  · rename_i hext
    split at h
    · obtain ⟨⟨buf, task⟩, hread, h⟩ := bind_ok h
      cases h
      exact ⟨extractCommand_none.mp hext, buf, task, hread, rfl⟩
    · cases h

/-- A read with reads at hand takes a group of them. -/
theorem doRead_ok {reads : List Str} {buf : Str} {task : List Read} (hnul : '\x00' ∉ reads.flatten)
    (h : doRead rlen (reads.map .data) = .ok (buf, task)) :
    ∃ g rest, reads = g ++ rest ∧ task = rest.map .data ∧ buf = g.flatten ∧ ReadGroup crlf g := by
  obtain ⟨g, rest, hreads, htask, hbuf, -, hends, hfirst, hfits⟩ :=
    readInto_ok (by simp) hnul (by decide) h
  rw [List.nil_append] at hbuf hfirst
  subst hbuf
  exact ⟨g, rest, hreads, htask, rfl, hends, hfirst, hfits⟩

/-- With a line in the stream the worker dispatches. -/
theorem Serves.next_line {ds : List Dispatch} (h : Serves primary k (d :: ds))
    (hx : crlf <:+: k.w.str) : ∃ l y k', IsLine l ∧ k.w.str = l ++ y ∧
      Worker.dispatch primary l { k with w := .setStr y } = .ok (d, k') := by
  cases h with
  | serves hstep _ =>
      obtain ⟨l, y, hl, hstr, hdis⟩ := step_some hstep
      exact ⟨l, y, _, hl, hstr, hdis⟩
  | reads hstep _ => exact absurd hx (step_none hstep).1

/-- Without one it reads first. -/
theorem Serves.next_read {ds : List Dispatch} {reads : List Str} (h : Serves primary k (d :: ds))
    (hx : ¬ crlf <:+: k.w.str) (hnul : '\x00' ∉ reads.flatten) (htask : k.task = reads.map .data) :
    ∃ g rest, reads = g ++ rest ∧ ReadGroup crlf g ∧ '\x00' ∉ rest.flatten ∧ Serves primary
      { k with w := k.w.write g.flatten, task := rest.map .data } (d :: ds) := by
  cases h with
  | serves hstep _ =>
      obtain ⟨l, y, ⟨a, rfl, -⟩, hstr, -⟩ := step_some hstep
      exact absurd ⟨a, y, hstr.symm⟩ hx
  | reads hstep hserves =>
      obtain ⟨-, buf, task, hread, rfl⟩ := step_none hstep
      rw [htask] at hread
      obtain ⟨g, rest, rfl, rfl, rfl, hg⟩ := doRead_ok hnul hread
      rw [List.flatten_append, List.mem_append, not_or] at hnul
      rw [cstr_eq hnul.1] at hserves
      exact ⟨g, rest, rfl, hg, hnul.2, hserves⟩

end Steps

/-! ## What cannot come out right -/

section Misread

variable {primary : Bool} {m : Msg} {p s v : Str} {k k' : Worker} {ds : List Dispatch}

/-- The rest of a message's line is dispatched as something else. -/
theorem misread (hm : m.For primary) (h : p ++ s = m.line) (hp : p ≠ []) (hs : s ≠ []) {l y : Str}
    (hl : IsLine l) (hly : l ++ y = s ++ v) {d : Dispatch}
    (hd : k.dispatch primary l = .ok (d, k')) : d ≠ m.dispatch := by
  rintro rfl
  obtain ⟨hverb, hnames⟩ := dispatch_line hd
  obtain ⟨a, ha, hno⟩ := isLine_msg hm
  rw [ha] at h
  have hsplit : (∃ b, a = p ++ b ∧ s = b ++ crlf) ∨ s = ['\n'] := by
    rcases List.append_eq_append_iff.mp h with ⟨b, hab, hsb⟩ | ⟨b, hpb, hb⟩
    · exact Or.inl ⟨b, hab, hsb⟩
    · rcases b with _ | ⟨c, _ | ⟨c', b⟩⟩
      · exact Or.inl ⟨[], by simpa using hpb.symm, hb.symm⟩
      · exact Or.inr (List.cons.inj hb).2.symm
      · have hnil : b ++ s = [] := by
          have hb2 := (List.cons.inj (List.cons.inj hb).2).2
          exact hb2.symm
        exact absurd (List.append_eq_nil_iff.mp hnil).2 hs
  rcases hsplit with ⟨b, hab, rfl⟩ | rfl
  · -- the rest is a line of its own
    have hline : IsLine (b ++ crlf) := by
      refine ⟨b, rfl, fun hb => hno ?_⟩
      rw [hab]
      exact hb.trans (List.suffix_append p b).isInfix
    obtain rfl := line_unique hl hline hly
    rw [← ha] at h
    rcases msg_header hm with rfl | ⟨kw, row, col, c, hkw, hr, hc, hhead, hcall, hcn⟩
    · exact misread_list h hp hs hverb.symm
    · rw [hhead] at h
      refine misread_header hkw hr hc h hp (List.suffix_append b crlf) ⟨hverb.symm, ?_⟩
      rw [← hnames c hcall, hcn]
  · -- only the line feed is left of it
    obtain ⟨t, rfl⟩ : ∃ t, l = '\n' :: t := by
      obtain ⟨b, rfl, -⟩ := hl
      cases b with
      | nil => exact absurd (List.cons.inj hly).1 (by decide)
      | cons c b => exact ⟨b ++ crlf, by rw [(List.cons.inj hly).1]; rfl⟩
    rw [verb_newline] at hverb
    rcases msg_header hm with rfl | ⟨kw, row, col, c, hkw, -⟩
    · cases hverb
    · rw [hverb] at hkw
      simp [dataVerbs] at hkw

/-- A message whose line was begun before a read into the stream is lost. -/
theorem overwritten {reads : List Str} (hm : m.For primary) (h : p ++ s = m.line) (hp : p ≠ [])
    (hs : s ≠ []) (hnul : '\x00' ∉ reads.flatten) (hcat : reads.flatten = s ++ v)
    (hx : ¬ crlf <:+: k.w.str) (hpos : k.w.pos = 0) (htask : k.task = reads.map .data) :
    ¬ Serves primary k (m.dispatch :: ds) := by
  intro hserves
  obtain ⟨g, rest, hreads, hg, -, hserves⟩ := hserves.next_read hx hnul htask
  rw [StringStream.write, hpos, List.take_zero, List.nil_append] at hserves
  obtain ⟨l, y, k', hl, hstr, hdis⟩ :=
    hserves.next_line (hg.ends.trans (List.prefix_append _ _).isInfix)
  -- the line dispatched lies in what was read, without the part overwritten
  rcases line_split hl hstr with ⟨-, x', hg', -⟩ | ⟨hno, -⟩
  · refine misread hm h hp hs hl (y := x' ++ rest.flatten) (v := v) ?_ hdis rfl
    rw [← hcat, hreads, List.flatten_append, hg', List.append_assoc]
  · exact hno hg.ends

/-- A message whose first byte was dropped behind a body is lost. -/
theorem dropped {reads : List Str} {z : Str} (hm : m.For primary) (hz : z ≠ [])
    (hnul : '\x00' ∉ reads.flatten) (hcat : z ++ reads.flatten = m.line ++ v)
    (hw : k.w = .setStr (z.drop 1)) (htask : k.task = reads.map .data) :
    ¬ Serves primary k (m.dispatch :: ds) := by
  intro hserves
  obtain ⟨c, z, rfl⟩ := List.exists_cons_of_ne_nil hz
  rw [List.drop_one, List.tail_cons] at hw
  obtain ⟨c', a, hline⟩ := msg_line_cons hm
  rw [hline] at hcat
  obtain ⟨rfl, hcat'⟩ : c = c' ∧ z ++ reads.flatten = a ++ crlf ++ v := List.cons.inj hcat
  by_cases hx : crlf <:+: z
  · -- the line is complete, and its keyword lacks the first letter
    obtain ⟨l, y, k', hl, hstr, hdis⟩ := hserves.next_line (by rw [hw]; exact hx)
    rw [hw] at hstr
    refine misread hm (p := [c]) (s := a ++ crlf) (by rw [hline]; rfl) (by simp)
      (by simp [crlf]) hl (y := y ++ reads.flatten) (v := v) ?_ hdis rfl
    rw [← hcat', show z = l ++ y from hstr, List.append_assoc]
  · -- the line is not complete, and the reads to come overwrite what there is of it
    rcases List.append_eq_append_iff.mp hcat' with ⟨s, hsz, hreads⟩ | ⟨x, hzs, -⟩
    · have hs : s ≠ [] := by
        rintro rfl
        rw [List.append_nil] at hsz
        exact hx (hsz ▸ (List.suffix_append a crlf).isInfix)
      exact overwritten hm (p := c :: z) (s := s) (by rw [hline, hsz]; rfl) (by simp) hs hnul hreads
        (by rw [hw]; exact hx) (by rw [hw]; rfl) htask hserves
    · exact hx (hzs ▸ (List.suffix_append a crlf).isInfix.trans (List.prefix_append _ x).isInfix)

end Misread

/-! ## A sequence number line cut in two -/

theorem isLine_seq (seq : Int) : IsLine (decimal seq ++ crlf) := by
  refine ⟨decimal seq, rfl, fun h => ?_⟩
  exact decimal_noCr seq (h.subset (by simp [crlf]))

theorem seq_noCrlf {seq : Int} {n n' : Str} (h : n ++ n' = decimal seq ++ crlf) (hn : n' ≠ []) :
    ¬ crlf <:+: n := by
  rcases line_split (isLine_seq seq) (z := []) (by rw [h, List.append_nil]) with
    ⟨-, x, -, hx⟩ | ⟨hno, -⟩
  · exact absurd (List.append_eq_nil_iff.mp hx.symm).2 hn
  · exact hno

/-- The reads up to the next dot line complete a sequence number line. -/
theorem dispatch_late {row col n n' x : Str} {seq : Int} {g reads : List Str} {k : Worker}
    (hr : Name row) (hc : Name col) (hn : n ++ n' = decimal seq ++ crlf) (hn' : n' ≠ [])
    (hg : ReadGroup dotLine g) (hx : g.flatten = n' ++ x) (hnul : '\x00' ∉ g.flatten)
    (hstr : k.w.str = n) (htask : k.task = (g ++ reads).map .data) :
    k.dispatch false (header kwDELETE row col crlf)
      = .ok (.call (.replicaDelete row col seq),
          { k with w := .setStr x, task := reads.map .data }) := by
  have hread := hg.read reads (by decide) hnul
  have hbuf : n ++ g.flatten = decimal seq ++ crlf ++ x := by
    rw [hx, ← List.append_assoc, hn]
  have hidx : Lib.firstIdx crlf (n ++ g.flatten) = some (decimal seq).length := by
    obtain ⟨i, hi, hlen⟩ := (isLine_seq seq).firstIdx x
    rw [hbuf, hi]
    simp only [List.length_append, crlf, List.length_cons, List.length_nil] at hlen
    rw [show (decimal seq).length = i by omega]
  have hbody : readBody crlf (k.task.length + 1) k.w.str k.task
      = .ok (n ++ g.flatten, reads.map .data) := by
    obtain ⟨t, ht⟩ : ∃ t, k.task.length = t + 1 := by
      refine Nat.exists_eq_add_one.mpr ?_
      rw [htask, List.length_map, List.length_append]
      have := List.length_pos_iff.mpr (hg.ne_nil (by decide))
      omega
    rw [readBody, if_neg (fun h => seq_noCrlf hn hn' (by rw [← hstr]; exact find_ne_npos.mp h)), ht,
      htask, doReadData, hread]
    show readBody crlf (t + 1) (k.w.str ++ cstr g.flatten) _ = _
    rw [cstr_eq hnul, hstr, readBody_done hidx]
  simp only [Worker.dispatch, parseCommand_name kwDELETE (by decide) hr hc,
    (verb_header row col crlf).2.2.2, Bool.false_eq_true, if_false,
    bodyDELEReplica_buffer hbody hbuf, bind, Except.bind, pure, Except.pure]

/-- And nothing less than them does. -/
theorem late_group {row col n n' : Str} {seq : Int} {reads : List Str} {k k' : Worker}
    {d : Dispatch} {v : Str} (hr : Name row) (hc : Name col) (hn : n ++ n' = decimal seq ++ crlf)
    (hn' : n' ≠ []) (hcat : reads.flatten = n' ++ v) (hnul : '\x00' ∉ reads.flatten)
    (hstr : k.w.str = n) (htask : k.task = reads.map .data)
    (h : k.dispatch false (header kwDELETE row col crlf) = .ok (d, k')) :
    ∃ g rest x, reads = g ++ rest ∧ ReadGroup dotLine g ∧ g.flatten = n' ++ x := by
  simp only [Worker.dispatch, parseCommand_name kwDELETE (by decide) hr hc,
    (verb_header row col crlf).2.2.2, Bool.false_eq_true, if_false] at h
  obtain ⟨_, hbody, -⟩ := bind_ok h
  obtain ⟨_, hread, -⟩ := bind_ok hbody
  rw [readBody, if_neg (fun h => seq_noCrlf hn hn' (by rw [← hstr]; exact find_ne_npos.mp h)),
    htask] at hread
  obtain ⟨⟨buf, task⟩, hdata, -⟩ := bind_ok hread
  obtain ⟨g, rest, hreads, -, hbuf, -, hends, hfirst, hfits⟩ :=
    readInto_ok (by simp) hnul (by decide) hdata
  rw [List.nil_append] at hbuf hfirst
  subst hbuf
  -- a dot line ends in a line break, so the number's line is complete
  have hcrlf : crlf <:+: n ++ g.flatten := by
    refine List.IsInfix.trans ?_ (hends.trans (List.suffix_append n _).isInfix)
    decide
  have hwhole : n ++ g.flatten ++ rest.flatten = decimal seq ++ crlf ++ v := by
    rw [← hn, List.append_assoc, List.append_assoc, ← hcat, hreads, List.flatten_append]
  rcases line_split (isLine_seq seq) hwhole with ⟨-, x, hx, -⟩ | ⟨hno, -⟩
  · rw [← hn, List.append_assoc] at hx
    exact ⟨g, rest, x, hreads, ⟨hends, hfirst, hfits⟩, List.append_cancel_left hx⟩
  · exact absurd hcrlf hno

/-! ## Bodies stay whole -/

/-- `InOneRead` when `x` has been read: a message with a body lies in it, or in one read to come. -/
def Whole (x : Str) (ms : List Msg) (reads : List Str) : Prop :=
  ∀ before m after, ms = before ++ m :: after → m.body = true →
    (∃ v, x = bytes before ++ m.text ++ v) ∨
    ∃ rs r rs' u v, reads = rs ++ r :: rs' ∧ r = u ++ m.text ++ v ∧
      x ++ rs.flatten ++ u = bytes before

theorem InOneRead.whole {ms : List Msg} {reads : List Str} (h : InOneRead ms reads) :
    Whole [] ms reads := fun before m after hms hb => by
  obtain ⟨rs, r, rs', u, v, hreads, hr, hu⟩ := h before m after hms hb
  exact Or.inr ⟨rs, r, rs', u, v, hreads, hr, hu⟩

theorem Whole.take {x : Str} {ms : List Msg} {g reads : List Str} (h : Whole x ms (g ++ reads)) :
    Whole (x ++ g.flatten) ms reads := by
  intro before m after hms hb
  rcases h before m after hms hb with ⟨v, rfl⟩ | ⟨rs, r, rs', u, v, hreads, rfl, hu⟩
  · exact Or.inl ⟨v ++ g.flatten, by simp⟩
  · have hlater : ∀ a, rs = g ++ a → reads = a ++ (u ++ m.text ++ v) :: rs' →
        ∃ rs r rs' u v, reads = rs ++ r :: rs' ∧ r = u ++ m.text ++ v ∧
          x ++ g.flatten ++ rs.flatten ++ u = bytes before := by
      rintro a rfl rfl
      exact ⟨a, _, rs', u, v, rfl, rfl, by simpa using hu⟩
    -- the read with the body is among those to come, or has just been taken
    rcases List.append_eq_append_iff.mp hreads with ⟨a, hrs, hreads⟩ | ⟨a, hg, hr⟩
    · exact Or.inr (hlater a hrs hreads)
    · cases a with
      | nil => exact Or.inr (hlater [] (by simpa using hg.symm) hr.symm)
      | cons r a =>
          obtain ⟨rfl, -⟩ := List.cons.inj hr
          refine Or.inl ⟨v ++ a.flatten, ?_⟩
          rw [hg, ← hu]
          simp

theorem Whole.drop {x : Str} {m : Msg} {ms : List Msg} {reads : List Str}
    (h : Whole (m.text ++ x) (m :: ms) reads) : Whole x ms reads := by
  intro before m' after hms hb
  have hbytes : bytes (m :: before) = m.text ++ bytes before := rfl
  rcases h (m :: before) m' after (by rw [hms]; rfl) hb with
    ⟨v, hv⟩ | ⟨rs, r, rs', u, v, hreads, hr, hu⟩
  · refine Or.inl ⟨v, ?_⟩
    rw [hbytes, List.append_assoc, List.append_assoc, ← List.append_assoc (bytes before)] at hv
    exact List.append_cancel_left hv
  · refine Or.inr ⟨rs, r, rs', u, v, hreads, hr, ?_⟩
    rw [hbytes, List.append_assoc, List.append_assoc, ← List.append_assoc x] at hu
    exact List.append_cancel_left hu

/-- A message with a body is all there once its first byte is. -/
theorem Whole.head {x : Str} {m : Msg} {ms : List Msg} {reads : List Str}
    (h : Whole x (m :: ms) reads) (hx : x ≠ []) (hb : m.body = true) : ∃ v, x = m.text ++ v := by
  rcases h [] m ms rfl hb with ⟨v, hv⟩ | ⟨rs, r, rs', u, v, -, -, hu⟩
  · exact ⟨v, hv⟩
  · rw [List.append_assoc] at hu
    exact absurd (List.append_eq_nil_iff.mp hu).1 hx

/-! ## Dispatched in order exactly when the cuts are aligned -/

/-- The worker has read `x` of the messages `ms`, and the rest will come in these reads. -/
structure Awaits (primary : Bool) (k : Worker) (x : Str) (ms : List Msg) (reads : List Str) :
    Prop where
  str : k.w.str = x
  pos : crlf <:+: x ∨ k.w.pos = 0
  task : k.task = reads.map .data
  flag : k.runFlag = true
  forMe : ∀ m ∈ ms, m.For primary
  noNul : '\x00' ∉ reads.flatten

section Awaits

variable {primary : Bool} {k k' : Worker} {x : Str} {m : Msg} {ms : List Msg} {reads : List Str}

theorem Awaits.write {g : List Str} (h : Awaits primary k [] ms (g ++ reads))
    (hg : ReadGroup crlf g) : Awaits primary
      { k with w := k.w.write (cstr g.flatten), task := reads.map .data } g.flatten ms reads := by
  have hnul := h.noNul
  rw [List.flatten_append, List.mem_append, not_or] at hnul
  refine ⟨?_, Or.inl hg.ends, rfl, h.flag, h.forMe, hnul.2⟩
  rw [cstr_eq hnul.1, StringStream.write, h.str]
  simp

/-- The message dispatched, its text is out of the stream. -/
theorem Awaits.next (h : Awaits primary k (m.text ++ x) (m :: ms) reads)
    (hx : m.body = true → x = []) :
    k.step primary = .ok (some m.dispatch, { k with w := .setStr x }) ∧
      Awaits primary { k with w := .setStr x } x ms reads := by
  refine ⟨?_, rfl, Or.inr rfl, h.task, h.flag, fun m hm => h.forMe m (List.mem_cons_of_mem _ hm),
    h.noNul⟩
  have hm := h.forMe m (by simp)
  have hext := extractCommand_line (isLine_msg hm) k
    (show k.w.str = m.line ++ (m.rest ++ x) by rw [h.str, Msg.text, List.append_assoc])
  have hbehind : m.behind x = .setStr x := by
    rw [Msg.behind]
    split
    · rename_i hb
      rw [hx hb]
      rfl
    · rfl
  rw [Worker.step, hext]
  simp only [dispatch_msg hm x { k with w := .setStr (m.rest ++ x) } rfl, hbehind,
    bind, Except.bind, pure, Except.pure]

theorem Awaits.late {row col n n' : Str} {seq : Int} {g : List Str}
    (h : Awaits primary k (header kwDELETE row col crlf ++ n)
      (.forward (.delete row col seq) :: ms) (g ++ reads))
    (hn : n ++ n' = decimal seq ++ crlf) (hn' : n' ≠ []) (hg : ReadGroup dotLine g)
    (hx : g.flatten = n' ++ x) :
    k.step primary = .ok (some (.call (.replicaDelete row col seq)),
        { k with w := .setStr x, task := reads.map .data }) ∧
      Awaits primary { k with w := .setStr x, task := reads.map .data } x ms reads := by
  have hnul := h.noNul
  rw [List.flatten_append, List.mem_append, not_or] at hnul
  refine ⟨?_, rfl, Or.inr rfl, rfl, h.flag, fun m hm => h.forMe m (List.mem_cons_of_mem _ hm),
    hnul.2⟩
  have hm := h.forMe _ List.mem_cons_self
  obtain ⟨rfl, hr, hc⟩ := hm
  have hext := extractCommand_line (isLine_header (by decide) hr hc) k h.str
  rw [Worker.step, hext]
  simp only [dispatch_late (k := { k with w := .setStr n }) hr hc hn hn' hg hx hnul.1 rfl h.task,
    bind, Except.bind, pure, Except.pure]

end Awaits

theorem serves_of_aligned {primary : Bool} {x : Str} {ms : List Msg} {reads : List Str}
    (ha : Aligned x ms reads) : ∀ {k : Worker}, Awaits primary k x ms reads →
    Serves primary k (ms.map Msg.dispatch) := by
  induction ha with
  | done =>
      intro k h
      refine .waits ?_
      rw [Worker.step, extractCommand_none.mpr (by rw [h.str]; decide)]
      simp only [h.flag, if_true, h.task]
      rfl
  | @read g ms reads hg ha ih =>
      intro k h
      refine .reads ?_ (ih (h.write hg))
      have hnul := h.noNul
      rw [List.flatten_append, List.mem_append, not_or] at hnul
      have hread : doRead rlen ((g ++ reads).map .data) = .ok (g.flatten, reads.map .data) :=
        hg.read reads (by decide) hnul.1
      rw [Worker.step, extractCommand_none.mpr (by rw [h.str]; decide)]
      simp only [h.flag, if_true, h.task, hread, bind, Except.bind, pure, Except.pure]
  | line hb ha ih =>
      intro k h
      obtain ⟨hstep, h'⟩ := h.next (fun hb' => absurd (hb.symm.trans hb') (by simp))
      exact .serves hstep (ih h')
  | @body m ms reads hb ha ih =>
      intro k h
      rw [← List.append_nil m.text] at h
      obtain ⟨hstep, h'⟩ := h.next (fun _ => rfl)
      exact .serves hstep (ih h')
  | late hn hn' hg hx ha ih =>
      intro k h
      obtain ⟨hstep, h'⟩ := h.late hn hn' hg hx
      exact .serves hstep (ih h')

/-- A message without a body that is cut behind its line is a forwarded `DELETE`. -/
theorem cut_message {primary : Bool} {k k' : Worker} {m : Msg} {y s v : Str} {reads : List Str}
    (hm : m.For primary) (hbody : m.body = false) (hrest : m.rest = y ++ s) (hs : s ≠ [])
    (hreads : reads.flatten = s ++ v) (hnul : '\x00' ∉ reads.flatten) (hstr : k.w.str = y)
    (htask : k.task = reads.map .data) (hdis : k.dispatch primary m.line = .ok (m.dispatch, k')) :
    ∃ row col seq g rest later, m = .forward (.delete row col seq) ∧
      y ++ s = decimal seq ++ crlf ∧ reads = g ++ rest ∧ ReadGroup dotLine g ∧
      g.flatten = s ++ later ∧ later ++ rest.flatten = v := by
  cases m with
  | request q =>
      cases q with
      | put row col data => cases hbody
      | cput row col oldData newData => cases hbody
      | get row col => exact absurd (List.append_eq_nil_iff.mp hrest.symm).2 hs
      | delete row col => exact absurd (List.append_eq_nil_iff.mp hrest.symm).2 hs
  | list => exact absurd (List.append_eq_nil_iff.mp hrest.symm).2 hs
  | forward f =>
      cases f with
      | put row col data seq => cases hbody
      | delete row col seq =>
          obtain ⟨rfl, hr, hc⟩ := hm
          have hn : y ++ s = decimal seq ++ crlf := hrest.symm
          obtain ⟨g, rest, later, rfl, hg, hgx⟩ :=
            late_group hr hc hn hs hreads hnul hstr htask hdis
          refine ⟨row, col, seq, g, rest, later, rfl, hn, rfl, hg, hgx, ?_⟩
          rw [List.flatten_append, hgx, List.append_assoc] at hreads
          exact List.append_cancel_left hreads

/-- A message dispatched as itself was all in the stream, or is a `DELETE` whose number
came late. -/
theorem serves_message {primary : Bool} {k k' : Worker} {x : Str} {m : Msg} {ms : List Msg}
    {reads : List Str} (h : Awaits primary k x (m :: ms) reads) (hw : Whole x (m :: ms) reads)
    (hcat : x ++ reads.flatten = bytes (m :: ms))
    (hstep : k.step primary = .ok (some m.dispatch, k')) :
    (∃ later, x = m.text ++ later ∧ later ++ reads.flatten = bytes ms ∧
      k' = { k with w := m.behind later }) ∨
    ∃ row col seq n n' g rest later, m = .forward (.delete row col seq) ∧
      x = header kwDELETE row col crlf ++ n ∧ n ++ n' = decimal seq ++ crlf ∧ n' ≠ [] ∧
      reads = g ++ rest ∧ ReadGroup dotLine g ∧ g.flatten = n' ++ later ∧
      later ++ rest.flatten = bytes ms := by
  have hm := h.forMe m List.mem_cons_self
  have hline := isLine_msg hm
  obtain ⟨l, y, hl, hstr, hdis⟩ := step_some hstep
  rw [h.str] at hstr
  have hcat' : x ++ reads.flatten = m.line ++ (m.rest ++ bytes ms) := by
    rw [hcat, ← List.append_assoc]
    rfl
  obtain rfl : l = m.line := by
    have hread : l ++ (y ++ reads.flatten) = m.line ++ (m.rest ++ bytes ms) := by
      rw [← hcat', hstr, List.append_assoc]
    exact line_unique hl hline hread
  have hrest : y ++ reads.flatten = m.rest ++ bytes ms := by
    rw [hstr, List.append_assoc] at hcat'
    exact List.append_cancel_left hcat'
  rcases List.append_eq_append_iff.mp hrest.symm with ⟨later, hy, hlater⟩ | ⟨s, hs, hreads⟩
  · -- the message is all there
    subst hy
    rw [dispatch_msg hm later { k with w := .setStr (m.rest ++ later) } rfl] at hdis
    cases hdis
    exact Or.inl ⟨later, by rw [hstr, Msg.text, List.append_assoc], hlater.symm, rfl⟩
  by_cases hs0 : s = []
  · -- it ends where the stream does
    subst hs0
    rw [List.append_nil] at hs
    subst hs
    rw [dispatch_msg hm [] { k with w := .setStr m.rest } (by rw [List.append_nil])] at hdis
    cases hdis
    exact Or.inl ⟨[], by rw [hstr, Msg.text, List.append_nil], hreads, rfl⟩
  · -- what follows the line is cut
    have hnobody : m.body = false := by
      rw [← Bool.not_eq_true]
      intro hb
      obtain ⟨v, hv⟩ :=
        hw.head (by rw [hstr]; obtain ⟨c, a, hca⟩ := msg_line_cons hm; simp [hca]) hb
      rw [hstr, Msg.text, List.append_assoc] at hv
      have hlen := congrArg List.length (List.append_cancel_left hv)
      rw [hs, List.length_append, List.length_append] at hlen
      have := List.length_pos_iff.mpr hs0
      omega
    obtain ⟨row, col, seq, g, rest, later, rfl, hn, hgroup, hg, hgx, hlater⟩ :=
      cut_message (k := { k with w := .setStr y }) hm hnobody hs hs0 hreads h.noNul rfl h.task hdis
    exact Or.inr ⟨row, col, seq, y, s, g, rest, later, rfl, hstr, hn, hs0, hgroup, hg, hgx, hlater⟩

/-- Once all messages are through, nothing is left to read. -/
theorem aligned_nil {x : Str} {reads : List Str} (hcat : x ++ reads.flatten = bytes [])
    (hne : ∀ r ∈ reads, r ≠ []) : Aligned x [] reads := by
  obtain ⟨rfl, hnil⟩ := List.append_eq_nil_iff.mp hcat
  cases reads with
  | nil => exact .done
  | cons r reads =>
      exact absurd (List.flatten_eq_nil_iff.mp hnil r List.mem_cons_self) (hne r List.mem_cons_self)

/-- Behind a body there is nothing, or the next message would have lost its first byte. -/
theorem behindBody_nil {primary : Bool} {k : Worker} {later : Str} {ms : List Msg}
    {reads : List Str} (hms : ∀ m ∈ ms, m.For primary) (hnul : '\x00' ∉ reads.flatten)
    (htask : k.task = reads.map .data) (hlater : later ++ reads.flatten = bytes ms)
    (hs : Serves primary { k with w := behindBody later } (ms.map Msg.dispatch)) : later = [] := by
  by_contra hl
  cases ms with
  | nil => exact hl (List.append_eq_nil_iff.mp hlater).1
  | cons m ms =>
      refine dropped (k := { k with w := behindBody later }) (v := m.rest ++ bytes ms)
        (hms m List.mem_cons_self) hl hnul ?_ rfl htask hs
      rw [hlater, ← List.append_assoc]
      rfl

theorem aligned_of_serves {primary : Bool} {k : Worker} {ds : List Dispatch}
    (hs : Serves primary k ds) : ∀ {x : Str} {ms : List Msg} {reads : List Str},
    ds = ms.map Msg.dispatch → Awaits primary k x ms reads → Whole x ms reads →
    x ++ reads.flatten = bytes ms → (∀ r ∈ reads, r ≠ []) → Aligned x ms reads := by
  induction hs with
  | waits _ =>
      intro x ms reads hds h hw hcat hne
      obtain rfl := List.map_eq_nil_iff.mp hds.symm
      exact aligned_nil hcat hne
  | reads hstep hserves ih =>
      intro x ms reads hds h hw hcat hne
      subst hds
      cases ms with
      | nil => exact aligned_nil hcat hne
      | cons m ms =>
          have hm := h.forMe m List.mem_cons_self
          have hcat' : x ++ reads.flatten = m.line ++ (m.rest ++ bytes ms) := by
            rw [hcat, ← List.append_assoc]
            rfl
          obtain ⟨hno, buf, task, hread, rfl⟩ := step_none hstep
          rw [h.str] at hno
          rcases line_split (isLine_msg hm) hcat' with ⟨hyes, -⟩ | ⟨-, s, hs, hline, hreads⟩
          · exact absurd hyes hno
          by_cases hx : x = []
          · -- the read starts a line
            subst hx
            rw [h.task] at hread
            obtain ⟨g, rest, rfl, rfl, rfl, hg⟩ := doRead_ok h.noNul hread
            refine .read hg (ih rfl (h.write hg) hw.take ?_ fun r hr =>
              hne r (List.mem_append_right _ hr))
            rw [← hcat, List.nil_append, List.flatten_append]
          · -- the line was begun before this read
            exact absurd (Serves.reads hstep hserves)
              (overwritten hm hline.symm hx hs h.noNul hreads
              (by rw [h.str]; exact hno) (h.pos.resolve_left hno) h.task)
  | serves hstep hserves ih =>
      intro x ms reads hds h hw hcat hne
      cases ms with
      | nil => cases hds
      | cons m ms =>
          obtain ⟨rfl, rfl⟩ := List.cons.inj hds
          rcases serves_message h hw hcat hstep with ⟨later, rfl, hlater, rfl⟩ |
            ⟨row, col, seq, n, n', g, rest, later, rfl, rfl, hn, hn', rfl, hg, hgx, hlater⟩
          · by_cases hb : m.body = true
            · rw [Msg.behind, if_pos hb] at hserves ih
              obtain rfl :=
                behindBody_nil (fun m hm => h.forMe m (List.mem_cons_of_mem _ hm)) h.noNul
                h.task hlater hserves
              rw [List.append_nil]
              exact .body hb (ih rfl (h.next fun _ => rfl).2 hw.drop hlater hne)
            · rw [Msg.behind, if_neg hb] at ih
              exact .line (Bool.eq_false_iff.mpr hb)
                (ih rfl (h.next fun hb' => absurd hb' hb).2 hw.drop hlater hne)
          · obtain ⟨hstep', h'⟩ := h.late hn hn' hg hgx
            obtain ⟨-, rfl⟩ := Prod.mk.inj (Except.ok.inj (hstep.symm.trans hstep'))
            refine .late hn hn' hg hgx (ih rfl h' ?_ hlater fun r hr =>
              hne r (List.mem_append_right _ hr))
            have hw' := hw.take
            rw [hgx, List.append_assoc, ← List.append_assoc n, hn, ← List.append_assoc] at hw'
            exact hw'.drop

/--
**The worker dispatches the messages that were sent, exactly when the cuts are
aligned.** For every sequence of well-formed messages and every way of cutting
their bytes into nonempty reads that leaves each `PUT` and `CPUT` whole.
-/
theorem serves_iff_aligned (primary : Bool) (ms : List Msg) (reads : List Str)
    (hms : ∀ m ∈ ms, m.For primary) (hnul : '\x00' ∉ bytes ms) (hcat : reads.flatten = bytes ms)
    (hne : ∀ r ∈ reads, r ≠ []) (hone : InOneRead ms reads) :
    Serves primary (Worker.fresh reads) (ms.map Msg.dispatch) ↔ Aligned [] ms reads := by
  have hawaits : Awaits primary (Worker.fresh reads) [] ms reads :=
    ⟨rfl, Or.inr rfl, rfl, rfl, hms, by rw [hcat]; exact hnul⟩
  exact ⟨fun hs => aligned_of_serves hs rfl hawaits hone.whole hcat hne,
    fun ha => serves_of_aligned ha hawaits⟩

theorem inOneRead_first {m n : Msg} (v : Str) (reads : List Str) (hn : n.body = false) :
    InOneRead [m, n] ((m.text ++ v) :: reads) := by
  intro before m₁ after hms hb
  match before with
  | [] =>
      obtain ⟨rfl, -⟩ := List.cons.inj hms
      exact ⟨[], _, reads, [], v, rfl, rfl, rfl⟩
  | [_] =>
      obtain ⟨-, hms⟩ := List.cons.inj hms
      obtain ⟨rfl, -⟩ := List.cons.inj hms
      exact absurd (hb.symm.trans hn) (by simp)
  | _ :: _ :: before => simp at hms

def putMsg : Msg := .request (.put ['a'] ['b'] ['x', '\r', '\n'])

def getMsg : Msg := .request (.get ['a'] ['b'])

/-- The `PUT` in a read of its own and the `GET` cut in its row name. -/
theorem alignedReads_served :
    Serves true (Worker.fresh [putMsg.text, "GET <".toList, "a> <b>\r\n".toList])
      ([putMsg, getMsg].map Msg.dispatch) := by
  have hget : Aligned getMsg.text [getMsg] [] := by
    have h := Aligned.line (m := getMsg) rfl .done
    rwa [List.append_nil] at h
  have hcut : Aligned [] [getMsg] ["GET <".toList, "a> <b>\r\n".toList] := by
    refine .read (g := ["GET <".toList, "a> <b>\r\n".toList]) (by decide +kernel) ?_
    rwa [show ["GET <".toList, "a> <b>\r\n".toList].flatten = getMsg.text by decide +kernel]
  refine (serves_iff_aligned true _ _ (by decide) (by decide +kernel) (by decide +kernel)
    (by decide +kernel) ?_).mpr ?_
  · have h := inOneRead_first (m := putMsg) [] ["GET <".toList, "a> <b>\r\n".toList]
      (n := getMsg) rfl
    rwa [List.append_nil] at h
  · refine .read (g := [putMsg.text]) (by decide +kernel) ?_
    rw [List.flatten_cons, List.flatten_nil, List.append_nil]
    exact .body rfl hcut

/-- The worker with this stream and these reads to come. -/
def Worker.holding (w : StringStream) (task : List Read) : Worker := { w := w, task := task }

/-- **Pipelined behind a `PUT`, a `GET` is lost**: it comes out as `"ET <a> <b>"`. -/
theorem pipelined_get_lost :
    InOneRead [putMsg, getMsg] [putMsg.text ++ getMsg.text] ∧
    [putMsg.text ++ getMsg.text].flatten = bytes [putMsg, getMsg] ∧
    '\x00' ∉ bytes [putMsg, getMsg] ∧ (∀ m ∈ [putMsg, getMsg], m.For true) ∧
    Serves true (Worker.fresh [putMsg.text ++ getMsg.text]) [putMsg.dispatch, .unsupported] ∧
    ¬ Serves true (Worker.fresh [putMsg.text ++ getMsg.text])
      ([putMsg, getMsg].map Msg.dispatch) := by
  have hread : (Worker.fresh [putMsg.text ++ getMsg.text]).step true
      = .ok (none, .holding ⟨putMsg.text ++ getMsg.text,
        (putMsg.text ++ getMsg.text).length⟩ []) := by
    decide +kernel
  -- the body loop keeps what is behind the dot line, less its first byte
  have hput : (Worker.holding
        ⟨putMsg.text ++ getMsg.text, (putMsg.text ++ getMsg.text).length⟩ []).step true
      = .ok (some putMsg.dispatch, .holding (.setStr (getMsg.text.drop 1)) []) := by
    decide +kernel
  have hget : (Worker.holding (.setStr (getMsg.text.drop 1)) []).step true
      = .ok (some .unsupported, .holding (.setStr []) []) := by decide +kernel
  have hwaits : (Worker.holding (.setStr []) []).step true = .error .blocked := by
    decide +kernel
  have hserves := Serves.reads hread (.serves hput (.serves hget (.waits hwaits)))
  refine ⟨inOneRead_first _ _ rfl, by decide +kernel, by decide +kernel, by decide, hserves,
    fun h => absurd (hserves.unique h) (by decide +kernel)⟩

end PennCloud
