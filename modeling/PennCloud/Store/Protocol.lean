import PennCloud.Store.Worker

/-!
# Well-formed commands, and how a worker reads them

The client protocol in the words of `Worker.cc`'s head comment, and the
replication commands of `BackStore`. For each command the worker's parser is
shown to call the handler it asks for, with exactly its row, column, number and
data, and the stream is described after it: a command without a body leaves what
follows untouched, one with a body drops the first byte that follows.
-/

namespace PennCloud

open Str

/-- A row or column a well-formed command can carry. -/
structure Name (s : Str) : Prop where
  noAngle : '>' ∉ s
  noCrlf : ¬ crlf <:+: s

/--
Data that stands alone between its heading line and the dot line: the first
`"\r\n.\r\n"` from the heading's line break on is the one that ends it.
-/
def Payload (d : Str) : Prop :=
  Lib.firstIdx dotLine (crlf ++ d ++ ['.', '\r', '\n']) = some d.length

instance (s : Str) : Decidable (Name s) :=
  decidable_of_iff ('>' ∉ s ∧ ¬ crlf <:+: s) ⟨fun h => ⟨h.1, h.2⟩, fun h => ⟨h.1, h.2⟩⟩

instance (d : Str) : Decidable (Payload d) := inferInstanceAs (Decidable (_ = _))

/-- A client request. -/
inductive Request
  | put (row col data : Str)
  | cput (row col oldData newData : Str)
  | get (row col : Str)
  | delete (row col : Str)
  deriving DecidableEq, Repr

namespace Request

def row : Request → Str
  | put row _ _ | cput row _ _ _ | get row _ | delete row _ => row

def col : Request → Str
  | put _ col _ | cput _ col _ _ | get _ col | delete _ col => col

/-- The command line. -/
def line : Request → Str
  | put row col _ => header kwPUT row col crlf
  | cput row col _ _ => header kwCPUT row col crlf
  | get row col => header kwGET row col crlf
  | delete row col => header kwDELETE row col crlf

/-- The lines after the command line. -/
def rest : Request → Str
  | put _ _ data => "DATA".toList ++ (crlf ++ data ++ ['.', '\r', '\n'])
  | cput _ _ oldData newData =>
      "OLD".toList ++ (crlf ++ oldData ++ ['.', '\r', '\n'])
        ++ ("NEW".toList ++ (crlf ++ newData ++ ['.', '\r', '\n']))
  | get _ _ | delete _ _ => []

/-- All its bytes. -/
def text (q : Request) : Str := q.line ++ q.rest

/-- The handler call a primary makes of it. -/
def call : Request → Call
  | put row col data => .put row col data
  | cput row col oldData newData => .cput row col oldData newData
  | get row col => .get row col
  | delete row col => .delete row col

/-- Well-formed: names and payloads that keep to the framing. -/
def WF : Request → Prop
  | put row col data => Name row ∧ Name col ∧ Payload data
  | cput row col oldData newData => Name row ∧ Name col ∧ Payload oldData ∧ Payload newData
  | get row col | delete row col => Name row ∧ Name col

instance : DecidablePred WF
  | put row col data => inferInstanceAs (Decidable (Name row ∧ Name col ∧ Payload data))
  | cput row col oldData newData =>
      inferInstanceAs (Decidable (Name row ∧ Name col ∧ Payload oldData ∧ Payload newData))
  | get row col | delete row col => inferInstanceAs (Decidable (Name row ∧ Name col))

end Request

/-- A well-formed replication command. -/
def Forward.WF : Forward → Prop
  | .put row col data _ => Name row ∧ Name col ∧ Payload data
  | .delete row col _ => Name row ∧ Name col

/-- The handler call a replica makes of it. -/
def Forward.call : Forward → Call
  | .put row col data seq => .replicaPut row col seq data
  | .delete row col seq => .replicaDelete row col seq

/-! ## Command lines -/

/-- A text that ends with its first line break. -/
def IsLine (l : Str) : Prop := ∃ a, l = a ++ crlf ∧ ¬ crlf <:+: a

theorem IsLine.firstIdx {l : Str} (h : IsLine l) (x : Str) :
    ∃ i, Lib.firstIdx crlf (l ++ x) = some i ∧ l.length = i + 2 := by
  obtain ⟨a, rfl, ha⟩ := h
  exact ⟨a.length, Lib.firstIdx_pair (by decide) x ha, by simp [crlf]⟩

/-- The bytes read so far either hold the first line or a part of it. -/
theorem line_split {l x y z : Str} (hl : IsLine l) (h : x ++ y = l ++ z) :
    (crlf <:+: x ∧ ∃ x', x = l ++ x' ∧ z = x' ++ y) ∨
    (¬ crlf <:+: x ∧ ∃ s, s ≠ [] ∧ l = x ++ s ∧ y = s ++ z) := by
  obtain ⟨i, hi, hlen⟩ := hl.firstIdx []
  rw [List.append_nil] at hi
  have hends : crlf <:+: l := by
    obtain ⟨a, rfl, -⟩ := hl
    exact (List.suffix_append a crlf).isInfix
  rcases List.append_eq_append_iff.mp h with ⟨s, rfl, rfl⟩ | ⟨x', rfl, rfl⟩
  · by_cases hs : s = []
    · subst hs
      rw [List.append_nil] at hends ⊢
      exact Or.inl ⟨hends, [], by simp, rfl⟩
    · refine Or.inr ⟨fun hx => ?_, s, hs, rfl, rfl⟩
      -- the line would end before its end
      obtain ⟨j, hj⟩ := Lib.firstIdx_isSome hx
      obtain ⟨a, b, hab, ha⟩ := Lib.firstIdx_split hj
      have hij := Lib.firstIdx_append s hj
      rw [hi] at hij
      have hxl := congrArg List.length hab
      have hpos := List.length_pos_iff.mpr hs
      simp only [List.length_append, crlf, List.length_cons, List.length_nil] at hxl hlen
      have := Option.some.inj hij
      omega
  · exact Or.inl ⟨hends.trans (List.prefix_append _ _).isInfix, x', rfl, rfl⟩

/-- A line that is read in pieces is whole with the last of them only. -/
theorem IsLine.dropLast {l : Str} {reads : List Str} (hl : IsLine l) (hcut : reads.flatten = l)
    (hne : [] ∉ reads) : reads ≠ [] ∧ ¬ crlf <:+: reads.dropLast.flatten := by
  have hreads : reads ≠ [] := by
    rintro rfl
    obtain ⟨a, rfl, -⟩ := hl
    exact absurd hcut.symm (by simp [crlf])
  have hlast : reads.dropLast.flatten ++ reads.getLast hreads = l := by
    rw [← hcut]
    conv_rhs => rw [← List.dropLast_append_getLast hreads]
    rw [List.flatten_append, List.flatten_singleton]
  refine ⟨hreads, ?_⟩
  rcases line_split hl (z := []) (hlast.trans (List.append_nil l).symm)
    with ⟨-, x, -, hnil⟩ | ⟨hno, -⟩
  · exact absurd (List.append_eq_nil_iff.mp hnil.symm).2 fun h => hne (h ▸ List.getLast_mem hreads)
  · exact hno

/-- The first line of a text is unique. -/
theorem line_unique {l l' y y' : Str} (hl : IsLine l) (hl' : IsLine l') (h : l ++ y = l' ++ y') :
    l = l' := by
  obtain ⟨i, hi, hlen⟩ := hl.firstIdx y
  obtain ⟨j, hj, hlen'⟩ := hl'.firstIdx y'
  rw [h, hj] at hi
  have hij := Option.some.inj hi
  exact (List.append_inj h (by omega)).1

theorem isLine_header {kw row col : Str} (hkw : ¬ crlf <:+: kw) (hr : Name row) (hc : Name col) :
    IsLine (header kw row col crlf) := by
  refine ⟨kw ++ ' ' :: ([] ++ '<'
    :: (row ++ '>' :: ([] ++ ' ' :: ([] ++ '<' :: (col ++ '>' :: []))))), by simp [header], ?_⟩
  have hnil : ¬ crlf <:+: ([] : Str) := by decide
  rw [Lib.infix_mid (by decide), Lib.infix_mid (by decide), Lib.infix_mid (by decide),
    Lib.infix_mid (by decide), Lib.infix_mid (by decide), Lib.infix_mid (by decide)]
  simp [hkw, hr.noCrlf, hc.noCrlf, hnil]

theorem extractCommand_line {l x : Str} (h : IsLine l) (k : Worker) (hk : k.w.str = l ++ x) :
    k.extractCommand = some (l, { k with w := .setStr x }) := by
  obtain ⟨i, hi, hlen⟩ := h.firstIdx x
  have hne : (i : Int) ≠ npos := by rw [npos]; omega
  have hline : substr (l ++ x) 0 ((i : Int) + 2) = l := by
    simpa using substr_middle [] l x (i := 0) (n := (i : Int) + 2) rfl (by omega)
  simp only [Worker.extractCommand, hk, find_of_firstIdx hi, hne, ne_eq, not_false_eq_true,
    if_true, hline, substr_rest l x (i := (i : Int) + 2) (by omega)]

/-- `parse_command` reads the two names of a command line. -/
theorem parseCommand_header {kw row col : Str} (rest : Str) (hkw : ' ' ∉ kw) (hr : '>' ∉ row)
    (hc : '>' ∉ col) : Worker.parseCommand (header kw row col rest) = (row, col) := by
  have hfind : find (header kw row col rest) [' '] = kw.length := by
    rw [header, List.append_assoc, List.append_assoc]
    exact find_sep _ hkw
  have hcut : substr (header kw row col rest) (find (header kw row col rest) [' '] + 1)
      = [] ++ '<' :: row ++ '>' :: ([' '] ++ '<' :: col ++ '>' :: rest) := by
    rw [hfind, header, List.append_assoc, List.append_assoc, List.nil_append]
    exact substr_after kw ' ' _
  rw [Worker.parseCommand, hcut, angled_field _ (by simp) (by simp) hr,
    pastAngled_field _ (by simp) hr, angled_field _ (by decide) (by decide) hc]

theorem parseCommand_name (kw : Str) {row col : Str} (hkw : kw ∈ [kwPUT, kwCPUT, kwGET, kwDELETE])
    (hr : Name row) (hc : Name col) :
    Worker.parseCommand (header kw row col crlf) = (row, col) := by
  have hsp : ' ' ∉ kw := by
    simp only [List.mem_cons, List.not_mem_nil, or_false] at hkw
    rcases hkw with rfl | rfl | rfl | rfl <;> decide
  exact parseCommand_header _ hsp hr.noAngle hc.noAngle

/-- The four keywords select their branches, whatever follows them. -/
theorem verb_header (row col rest : Str) :
    Worker.verb (header kwPUT row col rest) = .put ∧
    Worker.verb (header kwCPUT row col rest) = .cput ∧
    Worker.verb (header kwGET row col rest) = .get ∧
    Worker.verb (header kwDELETE row col rest) = .dele := ⟨rfl, rfl, rfl, rfl⟩

/-! ## Bodies -/

/-- Where the dot line of a body starts, whatever was before and comes after. -/
theorem Payload.firstIdx {d : Str} (h : Payload d) {a : Str} (ha : '\r' ∉ a) (later : Str) :
    Lib.firstIdx dotLine (a ++ (crlf ++ d ++ ['.', '\r', '\n']) ++ later)
      = some (a.length + d.length) := by
  refine Lib.firstIdx_append later ?_
  rw [dotLine, Lib.firstIdx_skip _ ha, ← dotLine, show Lib.firstIdx dotLine _ = _ from h]
  rfl

/-- Data is empty or ends with a line break. -/
theorem Payload.ends {d : Str} (h : Payload d) : d = [] ∨ ∃ e, d = e ++ crlf := by
  obtain ⟨a, b, hab, ha⟩ := Lib.firstIdx_split h
  have hlen := congrArg List.length hab
  simp only [List.length_append, crlf, dotLine, List.length_cons, List.length_nil] at hlen
  obtain rfl : b = [] := List.length_eq_zero_iff.mp (by omega)
  have hcat : crlf ++ d ++ ['.', '\r', '\n'] = a ++ crlf ++ ['.', '\r', '\n'] := by
    simpa [dotLine, crlf] using hab
  have hd : crlf ++ d = a ++ crlf := List.append_cancel_right hcat
  -- both sides begin with the two bytes of a line break, once the data is long enough
  cases d with
  | nil => exact Or.inl rfl
  | cons x d =>
      cases a with
      | nil => simp [crlf] at hd
      | cons y a =>
          cases a with
          | nil => simp [crlf] at hd
          | cons z a =>
              simp only [crlf, List.cons_append, List.nil_append, List.cons.injEq] at hd
              exact Or.inr ⟨a, hd.2.2⟩

theorem readBody_done {stop buffer : Str} {i : Nat} (h : Lib.firstIdx stop buffer = some i)
    (n : Nat) (task : List Read) : readBody stop (n + 1) buffer task = .ok (buffer, task) := by
  have hne : (i : Int) ≠ npos := by rw [npos]; omega
  rw [readBody, if_pos (by rw [find_of_firstIdx h]; exact hne)]

/-- What is left in the stream behind a body: the byte after it is gone. -/
def behindBody (later : Str) : StringStream := .setStr (later.drop 1)

/-- The stream is reset the same way by all the handlers that read a body. -/
theorem reset_stream (a later : Str) {i : Int} (hi : i + 5 = a.length) :
    (if i + 5 = ((a ++ later).length : Int) then StringStream.setStr []
      else .setStr (substr (a ++ later) (i + 6))) = behindBody later := by
  cases later with
  | nil => rw [if_pos (by simpa using hi)]; rfl
  | cons c later =>
      rw [if_neg (by simp only [List.length_append, List.length_cons]; omega)]
      have hs : a ++ c :: later = (a ++ [c]) ++ later := by simp
      rw [hs, substr_rest _ _ (by simp; omega)]
      rfl

/-- A body is found behind its heading, and cut off in front of its dot. -/
theorem headed_body (a data later : Str) {head s : Str} {n : Int} (hhead : head = a ++ crlf)
    (hn : n = a.length + 2) (hs : s = a ++ (crlf ++ data ++ ['.', '\r', '\n']) ++ later) :
    find s head = 0 ∧ substr s (0 + n) ((a.length + data.length : Nat) - (0 + n) + 2) = data := by
  have hsplit : s = head ++ data ++ (['.', '\r', '\n'] ++ later) := by
    rw [hs, hhead]
    simp
  have hlen : (head.length : Int) = n := by
    rw [hhead, hn, List.length_append]
    rfl
  constructor
  · refine find_of_firstIdx (Lib.firstIdx_zero ⟨data ++ (['.', '\r', '\n'] ++ later), ?_⟩)
    rw [hsplit, List.append_assoc]
  · rw [hsplit]
    exact substr_middle _ _ _ (by omega) (by omega)

theorem bodyPUT_request {data : Str} (hd : Payload data) (later : Str) (k : Worker)
    (hk : k.w.str = "DATA".toList ++ (crlf ++ data ++ ['.', '\r', '\n']) ++ later) :
    k.bodyPUT = .ok (data, { k with w := behindBody later }) := by
  have hdot := hd.firstIdx (a := "DATA".toList) (by decide) later
  obtain ⟨hhead, hdata⟩ :=
    headed_body "DATA".toList data later (show "DATA\r\n".toList = _ from rfl)
    (n := 6) rfl hk
  rw [← hk] at hdot
  have hreset := reset_stream ("DATA".toList ++ (crlf ++ data ++ ['.', '\r', '\n'])) later
    (i := (("DATA".toList.length + data.length : Nat) : Int)) (by simp [crlf]; omega)
  rw [← hk] at hreset
  simp only [Worker.bodyPUT, readBody_done hdot, find_of_firstIdx hdot, hhead, hdata, hreset, bind,
    Except.bind, pure, Except.pure]

theorem bodyCPUT_request {oldData newData : Str} (ho : Payload oldData) (hn : Payload newData)
    (later : Str) (k : Worker)
    (hk : k.w.str = "OLD".toList ++ (crlf ++ oldData ++ ['.', '\r', '\n'])
      ++ ("NEW".toList ++ (crlf ++ newData ++ ['.', '\r', '\n']) ++ later)) :
    k.bodyCPUT = .ok (oldData, newData, { k with w := behindBody later }) := by
  -- the first body
  have hdot := ho.firstIdx (a := "OLD".toList) (by decide)
    ("NEW".toList ++ (crlf ++ newData ++ ['.', '\r', '\n']) ++ later)
  rw [← hk] at hdot
  obtain ⟨hhead, hold⟩ := headed_body "OLD".toList oldData _ (show "OLD\r\n".toList = _ from rfl)
    (n := 5) rfl hk
  -- the buffer is cut so that the dot line's last line break opens the second body
  let second : Str := "\nNEW".toList ++ (crlf ++ newData ++ ['.', '\r', '\n']) ++ later
  have hcut : substr k.w.str ((("OLD".toList.length + oldData.length : Nat) : Int) + 3)
      = '\r' :: second := by
    have hs : k.w.str = ("OLD\r\n".toList ++ oldData ++ ['.']) ++ ('\r' :: second) := by
      rw [hk]; simp [second, crlf]
    rw [hs]
    exact substr_rest _ _ (by simp; omega)
  have hdot2 : Lib.firstIdx dotLine ('\r' :: second) = some (5 + newData.length) := by
    have hnp : ¬ dotLine <+: '\r' :: second := by
      intro hp
      have h2 := (List.cons_prefix_cons.mp (List.cons_prefix_cons.mp hp).2).2
      exact absurd (List.cons_prefix_cons.mp h2).1 (by decide)
    rw [Lib.firstIdx, if_neg hnp, hn.firstIdx (a := "\nNEW".toList) (by decide) later]
    simp only [Option.map_some, Option.some.injEq]
    show 4 + newData.length + 1 = _
    omega
  have hhead2 : find ('\r' :: second) "NEW\r\n".toList = 2 := by
    have hs : '\r' :: second = crlf
      ++ ("NEW\r\n".toList ++ (newData ++ ['.', '\r', '\n'] ++ later)) := by
      simp [second, crlf]
    have hidx : Lib.firstIdx "NEW\r\n".toList ('\r' :: second) = some 2 := by
      have hpre : 'N' :: "EW\r\n".toList
          <+: "NEW\r\n".toList ++ (newData ++ ['.', '\r', '\n'] ++ later) :=
        ⟨newData ++ ['.', '\r', '\n'] ++ later, rfl⟩
      rw [hs]
      show Lib.firstIdx ('N' :: "EW\r\n".toList) _ = _
      rw [Lib.firstIdx_skip _ (by decide), Lib.firstIdx_zero hpre]
      rfl
    exact find_of_firstIdx hidx
  have hnew : substr ('\r' :: second) (2 + 5) ((5 + newData.length : Nat) - (2 + 5) + 2)
      = newData := by
    have hs : '\r' :: second = "\r\nNEW\r\n".toList ++ newData ++ (['.', '\r', '\n'] ++ later) := by
      simp [second, crlf]
    rw [hs]
    exact substr_middle _ _ _ (by simp) (by simp; omega)
  have hreset := reset_stream
    ('\r' :: ("\nNEW".toList ++ (crlf ++ newData ++ ['.', '\r', '\n']))) later
    (i := ((5 + newData.length : Nat) : Int)) (by simp [crlf]; omega)
  rw [show '\r' :: ("\nNEW".toList ++ (crlf ++ newData ++ ['.', '\r', '\n'])) ++ later
    = '\r' :: second by simp [second]] at hreset
  simp only [Worker.bodyCPUT, readBody_done hdot, find_of_firstIdx hdot, hhead, hold, hcut,
    readBody_done hdot2, find_of_firstIdx hdot2, hhead2, hnew, hreset, bind, Except.bind, pure,
    Except.pure]

theorem decimal_noCr (seq : Int) : '\r' ∉ decimal seq := notMem_decimal (by decide) (by decide)

theorem stol_line (seq : Int) : stol (decimal seq) = some seq := by
  simpa using stol_decimal seq (t := []) (by simp)

theorem bodyPUTReplica_forward {data : Str} (seq : Int) (hd : Payload data) (later : Str)
    (k : Worker) (hk : k.w.str = decimal seq ++ (crlf ++ data ++ ['.', '\r', '\n']) ++ later) :
    k.bodyPUTReplica = .ok (seq, data, { k with w := behindBody later }) := by
  have hdot := hd.firstIdx (decimal_noCr seq) later
  rw [← hk] at hdot
  have hcr : find k.w.str crlf = (decimal seq).length := by
    rw [hk]
    refine find_append later ?_
    rw [crlf, Lib.firstIdx_skip _ (decimal_noCr seq), Lib.firstIdx_zero (by simp)]
    rfl
  have hdata : substr k.w.str ((decimal seq).length + 2)
      (((decimal seq).length + data.length : Nat) - ((decimal seq).length + 2) + 2) = data := by
    have hs : k.w.str = (decimal seq ++ crlf) ++ data ++ (['.', '\r', '\n'] ++ later) := by
      rw [hk]; simp
    rw [hs]
    exact substr_middle _ _ _ (by simp [crlf]) (by omega)
  have hseq : substr k.w.str 0 ((decimal seq).length + 2 - 2) = decimal seq := by
    have hs : k.w.str = [] ++ decimal seq ++ (crlf ++ data ++ ['.', '\r', '\n'] ++ later) := by
      rw [hk]; simp
    rw [hs]
    exact substr_middle _ _ _ rfl (by omega)
  have hreset := reset_stream (decimal seq ++ (crlf ++ data ++ ['.', '\r', '\n'])) later
    (i := (((decimal seq).length + data.length : Nat) : Int)) (by simp [crlf]; omega)
  rw [← hk] at hreset
  simp only [Worker.bodyPUTReplica, readBody_done hdot, find_of_firstIdx hdot, hcr, hdata, hseq,
    stol_line, Option.elim, hreset, bind, Except.bind, pure, Except.pure]

/-- Once its loop has the sequence number line, `parse_DELE` keeps what follows it. -/
theorem bodyDELEReplica_buffer {k : Worker} {buffer later : Str} {task : List Read} {seq : Int}
    (hread : readBody crlf (k.task.length + 1) k.w.str k.task = .ok (buffer, task))
    (hbuf : buffer = decimal seq ++ crlf ++ later) :
    k.bodyDELEReplica = .ok (seq, { k with w := .setStr later, task := task }) := by
  have hidx : Lib.firstIdx crlf buffer = some (decimal seq).length := by
    rw [hbuf, List.append_assoc, crlf, Lib.firstIdx_skip _ (decimal_noCr seq),
      Lib.firstIdx_zero (by simp)]
    rfl
  have hseq : substr buffer 0 (decimal seq).length = decimal seq := by
    have hs : buffer = [] ++ decimal seq ++ (crlf ++ later) := by rw [hbuf]; simp
    rw [hs]
    exact substr_middle _ _ _ rfl rfl
  have hreset : (if ((decimal seq).length : Int) + 2 = buffer.length then StringStream.setStr []
      else .setStr (substr buffer ((decimal seq).length + 2))) = .setStr later := by
    have hrest : substr buffer ((decimal seq).length + 2) = later := by
      rw [hbuf]
      exact substr_rest _ _ (by simp [crlf])
    rw [hrest]
    split
    · rename_i hlen
      have hnil : later = [] := by
        rw [← List.length_eq_zero_iff]
        simp only [hbuf, crlf, List.length_append, List.length_cons, List.length_nil] at hlen
        omega
      rw [hnil]
    · rfl
  simp only [Worker.bodyDELEReplica, hread, find_of_firstIdx hidx, hseq, stol_line, Option.elim,
    hreset, bind, Except.bind, pure, Except.pure]

theorem bodyDELEReplica_forward (seq : Int) (later : Str) (k : Worker)
    (hk : k.w.str = decimal seq ++ crlf ++ later) :
    k.bodyDELEReplica = .ok (seq, { k with w := .setStr later }) := by
  have hidx : Lib.firstIdx crlf k.w.str = some (decimal seq).length := by
    rw [hk, List.append_assoc, crlf, Lib.firstIdx_skip _ (decimal_noCr seq),
      Lib.firstIdx_zero (by simp)]
    rfl
  exact bodyDELEReplica_buffer (readBody_done hidx ..) hk

/-! ## Whole commands -/

/-- The stream behind a request: what follows it, less a byte if it had a body. -/
def Request.behind (q : Request) (later : Str) : StringStream :=
  match q with
  | .put .. | .cput .. => behindBody later
  | .get .. | .delete .. => .setStr later

/-- **A primary's worker calls the handler a request asks for, with its arguments.** -/
theorem dispatch_request {q : Request} (hq : q.WF) (later : Str) (k : Worker)
    (hk : k.w = .setStr (q.rest ++ later)) :
    k.dispatch true q.line = .ok (.call q.call, { k with w := q.behind later }) := by
  cases q with
  | put row col data =>
      obtain ⟨hr, hc, hd⟩ := hq
      have hbody := bodyPUT_request hd later k (by rw [hk]; rfl)
      simp only [Worker.dispatch, Request.line, parseCommand_name kwPUT (by decide) hr hc,
        (verb_header row col crlf).1, if_true, hbody, bind, Except.bind, pure, Except.pure]
      rfl
  | cput row col oldData newData =>
      obtain ⟨hr, hc, ho, hn⟩ := hq
      have hbody := bodyCPUT_request ho hn later k
        (by rw [hk]; simp [Request.rest, StringStream.setStr])
      simp only [Worker.dispatch, Request.line, parseCommand_name kwCPUT (by decide) hr hc,
        (verb_header row col crlf).2.1, hbody, bind, Except.bind, pure, Except.pure]
      rfl
  | get row col =>
      obtain ⟨hr, hc⟩ := hq
      have hw : k = { k with w := .setStr later } := by rw [show .setStr later = k.w from hk.symm]
      simp only [Worker.dispatch, Request.line, parseCommand_name kwGET (by decide) hr hc,
        (verb_header row col crlf).2.2.1]
      exact congrArg (fun k => Except.ok (Dispatch.call (.get row col), k)) hw
  | delete row col =>
      obtain ⟨hr, hc⟩ := hq
      have hw : k = { k with w := .setStr later } := by rw [show .setStr later = k.w from hk.symm]
      simp only [Worker.dispatch, Request.line, parseCommand_name kwDELETE (by decide) hr hc,
        (verb_header row col crlf).2.2.2, if_true]
      exact congrArg (fun k => Except.ok (Dispatch.call (.delete row col), k)) hw

/-- The stream behind a replication command. -/
def Forward.behind (f : Forward) (later : Str) : StringStream :=
  match f with
  | .put .. => behindBody later
  | .delete .. => .setStr later

/-- **A replica's worker calls the handler a replication command asks for.** -/
theorem dispatch_forward {f : Forward} (hf : f.WF) (later : Str) (k : Worker)
    (hk : k.w = .setStr (f.rest ++ later)) :
    k.dispatch false f.line = .ok (.call f.call, { k with w := f.behind later }) := by
  cases f with
  | put row col data seq =>
      obtain ⟨hr, hc, hd⟩ := hf
      have hbody := bodyPUTReplica_forward seq hd later k
        (by rw [hk]; simp [Forward.rest, StringStream.setStr])
      simp only [Worker.dispatch, Forward.line, parseCommand_name kwPUT (by decide) hr hc,
        (verb_header row col crlf).1, Bool.false_eq_true, if_false, hbody, bind, Except.bind, pure,
        Except.pure]
      rfl
  | delete row col seq =>
      obtain ⟨hr, hc⟩ := hf
      have hbody := bodyDELEReplica_forward seq later k (by rw [hk]; rfl)
      simp only [Worker.dispatch, Forward.line, parseCommand_name kwDELETE (by decide) hr hc,
        (verb_header row col crlf).2.2.2, Bool.false_eq_true, if_false, hbody, bind,
        Except.bind, pure, Except.pure]
      rfl

end PennCloud
