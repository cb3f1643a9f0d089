import PennCloud.Lib.Pairs
import PennCloud.Proof.SeqNumbers
import PennCloud.Store.Transfer

/-!
# The number of the last record

`lastLogSeq` finds its way from the end of the log: the last line that ends in `>`,
the last line before it that ends in a dot, and from there the first line that ends
in `>`, which it takes for the command line of the last record. It is, unless the
data of that record has a line that ends in a dot and, later, one that ends in `>`:
then the number is looked for in the data (`Decoy`).
-/

namespace PennCloud

open Str

/-- `">\n"`, at the end of a command line. -/
def angleNl : Str := ['>', '\n']

/-- `".\n"`, at the end of a record. -/
def stopNl : Str := ['.', '\n']

namespace LogRecord

/-- The data of a record. -/
def data : LogRecord → Str
  | put _ _ _ data => data
  | replicaPut _ _ _ data => data
  | delete .. => []

/-- The row and column of a record. -/
def names : LogRecord → Str × Str
  | put _ row col _ => (row, col)
  | replicaPut _ row col _ => (row, col)
  | delete _ row col => (row, col)

/-- The record is of an accepted command. -/
def WF (r : LogRecord) : Prop := Name r.names.1 ∧ Name r.names.2 ∧ Payload r.data

instance : DecidablePred WF := fun r =>
  inferInstanceAs (Decidable (Name r.names.1 ∧ Name r.names.2 ∧ Payload r.data))

end LogRecord

/--
`w` is what follows the line of `d` that is taken for a command line: the first one
that ends in `>` behind the last one that ends in a dot before the last one that
ends in `>`.
-/
def Decoy (d w : Str) : Prop :=
  ∃ a b c v, d = a ++ stopNl ++ (b ++ angleNl ++ v) ∧ ¬ stopNl <:+: b ∧ ¬ angleNl <:+: v ∧
    b ++ angleNl ++ v = c ++ angleNl ++ w ∧ ¬ angleNl <:+: c

/-- No decoy, or one with the record's own number behind it. -/
def LogRecord.Plain (r : LogRecord) : Prop :=
  ∀ w, Decoy r.data w → stol (w.substr 0 (w.find ['\n'])) = some r.seq

/-! ## Searching from behind -/

section Rfind

variable {s pat a b : Str}

theorem rfindFrom_zero : s.rfindFrom pat 0 = if pat <+: s then 0 else npos := by
  by_cases h : pat <+: s <;> simp [rfindFrom, h]

theorem rfindFrom_succ (n : Nat) : s.rfindFrom pat (n + 1) =
    if pat <+: s.drop (n + 1) then ((n + 1 : Nat) : Int) else s.rfindFrom pat n := by
  rw [rfindFrom, List.range_succ, List.reverse_append, List.reverse_singleton,
    List.singleton_append, List.find?_cons]
  by_cases h : pat <+: s.drop (n + 1)
  · rw [if_pos h, decide_eq_true h]
  · rw [if_neg h, decide_eq_false h]
    rfl

/-- The last occurrence that starts at `n` or before. -/
theorem rfindFrom_eq {n : Nat} (hpat : pat ≠ []) (hs : s = a ++ pat ++ b) (hn : a.length ≤ n)
    (hlast : ∀ a' b', s = a' ++ pat ++ b' → a'.length ≤ n → a'.length ≤ a.length) :
    s.rfindFrom pat n = a.length := by
  have hat : pat <+: s.drop a.length := by
    rw [hs, List.append_assoc, List.drop_left]
    exact List.prefix_append ..
  obtain ⟨k, rfl⟩ := Nat.exists_eq_add_of_le hn
  induction k with
  | zero =>
      rw [Nat.add_zero]
      cases hlen : a.length with
      | zero =>
          rw [hlen] at hat
          rw [rfindFrom_zero, if_pos (by simpa using hat)]
          rfl
      | succ m =>
          rw [hlen] at hat
          rw [rfindFrom_succ, if_pos hat]
  | succ k ih =>
      have hno : ¬ pat <+: s.drop (a.length + k + 1) := by
        rintro ⟨b', hb'⟩
        have hlen : a.length + k + 1 < s.length := by
          have hpos := List.length_pos_iff.mpr hpat
          have hdrop := congrArg List.length hb'
          rw [List.length_append, List.length_drop] at hdrop
          omega
        have hle := hlast (s.take (a.length + k + 1)) b'
          (by rw [List.append_assoc, hb', List.take_append_drop])
          (by rw [List.length_take]; omega)
        rw [List.length_take] at hle
        omega
      rw [← Nat.add_assoc, rfindFrom_succ, if_neg hno]
      exact ih (by omega) fun a' b' h h' => hlast a' b' h (by omega)

theorem rfindFrom_none {n : Nat} (hno : ∀ a' b', s = a' ++ pat ++ b' → n < a'.length)
    (hpat : pat ≠ []) :
    s.rfindFrom pat n = npos := by
  have hat : ∀ k ≤ n, ¬ pat <+: s.drop k := by
    rintro k hk ⟨b', hb'⟩
    have hlen : k < s.length := by
      have hpos := List.length_pos_iff.mpr hpat
      have hdrop := congrArg List.length hb'
      rw [List.length_append, List.length_drop] at hdrop
      omega
    have hlt := hno (s.take k) b' (by rw [List.append_assoc, hb', List.take_append_drop])
    rw [List.length_take] at hlt
    omega
  induction n with
  | zero => rw [rfindFrom_zero, if_neg (by simpa using hat 0 (Nat.le_refl 0))]
  | succ n ih =>
      rw [rfindFrom_succ, if_neg (hat (n + 1) (Nat.le_refl _))]
      exact ih (fun a' b' h => Nat.lt_of_succ_lt (hno a' b' h)) fun k hk =>
        hat k (Nat.le_succ_of_le hk)

end Rfind

section Search

variable {u v a b c w : Str}

/-- Marks behind a given one start later than it. -/
theorem length_le_of_last {x y : Char} {p q p' q' : Str} (hxy : x ≠ y)
    (h : p ++ [x, y] ++ q = p' ++ [x, y] ++ q') (hq : ¬ [x, y] <:+: q) : p'.length ≤ p.length := by
  by_contra hlt
  -- the second mark starts within what follows the first letter of the first one
  have hpre : p ++ [x] <+: p' := by
    refine Lib.prefix_of_append_eq (w := y :: q) (z := [x, y] ++ q') (by simpa using h) ?_
    rw [List.length_append, List.length_singleton]
    omega
  obtain ⟨r, rfl⟩ := hpre
  have hrest : y :: q = r ++ [x, y] ++ q' := by simpa [List.append_assoc] using h
  have hin : [x, y] <:+: y :: q := hrest ▸ ⟨r, q', rfl⟩
  rcases Lib.pair_infix_cons.mp hin with ⟨hyx, -⟩ | hin
  · exact hxy hyx.symm
  · exact hq hin

/-- A dot line that starts before a `>` is all before it. -/
theorem stop_before {u r p q : Str} (h : u ++ '>' :: r = p ++ stopNl ++ q)
    (hle : p.length ≤ u.length) :
    ∃ q', u = p ++ stopNl ++ q' := by
  obtain ⟨u', rfl⟩ := Lib.prefix_of_append_eq (w := stopNl ++ q) (z := '>' :: r)
    (by rw [h, List.append_assoc]) hle
  have hrest : u' ++ '>' :: r = stopNl ++ q := by simpa [List.append_assoc] using h
  cases u' with
  | nil => simp [stopNl] at hrest
  | cons x u' =>
      cases u' with
      | nil => simp [stopNl] at hrest
      | cons y u' =>
          simp only [stopNl, List.cons_append, List.nil_append, List.cons.injEq] at hrest
          exact ⟨u', by rw [hrest.1, hrest.2.1]; simp [stopNl]⟩

/-- **What `lastLogSeq` reads**: the line behind the first `>` line of the stretch it picks. -/
theorem lastLogSeq_eq {s : Str} (hs : s = a ++ (b ++ angleNl ++ v))
    (ha : a = [] ∨ ∃ a', a = a' ++ stopNl)
    (hb : ¬ stopNl <:+: b) (hv : ¬ angleNl <:+: v) (hc : b ++ angleNl ++ v = c ++ angleNl ++ w)
    (hfirst : ¬ angleNl <:+: c) : lastLogSeq s = stol (w.substr 0 (w.find ['\n'])) := by
  have hpos : s.rfindFrom angleNl s.length = (a ++ b).length := by
    have hsplit : s = (a ++ b) ++ angleNl ++ v := by rw [hs]; simp
    refine rfindFrom_eq (by decide) hsplit (by rw [hsplit]; simp) fun a' b' h _ => ?_
    exact length_le_of_last (by decide) (hsplit.symm.trans h) hv
  have hstops : ∀ p q, s = p ++ stopNl ++ q → p.length ≤ (a ++ b).length →
      ∃ q', a ++ b = p ++ stopNl ++ q' := fun p q h hle =>
    stop_before (r := '\n' :: v) (by rw [← h, hs]; simp [angleNl]) hle
  have hangle : Lib.firstIdx angleNl (c ++ angleNl ++ w) = some c.length :=
    Lib.firstIdx_pair (by decide) _ hfirst
  -- from the last dot line on, or from the start, the first `>` line ends `c`
  have hnext : (if s.rfindFrom stopNl (a ++ b).length ≠ npos then
      s.findFrom angleNl (s.rfindFrom stopNl (a ++ b).length) else s.find angleNl) = (a
        ++ c).length := by
    rcases ha with rfl | ⟨a', rfl⟩
    · rw [rfindFrom_none (fun p q h => ?_) (by decide), if_neg (by decide)]
      · rw [hs, hc, List.nil_append, List.nil_append, find_of_firstIdx hangle]
      · by_contra hle
        obtain ⟨q', hq'⟩ := hstops p q h (Nat.le_of_not_lt hle)
        rw [List.nil_append] at hq'
        exact hb (hq' ▸ ⟨p, q', rfl⟩)
    · have hsplit : s = a' ++ stopNl ++ (b ++ angleNl ++ v) := hs
      rw [rfindFrom_eq (by decide) hsplit (by simp) (fun p q h hle => ?_),
        if_pos (by rw [npos]; omega)]
      · have hidx : Lib.firstIdx angleNl (stopNl ++ (c ++ angleNl ++ w))
          = some (stopNl.length + c.length) := by
          rw [angleNl, Lib.firstIdx_skip _ (by decide), ← angleNl, hangle]
          rfl
        rw [findFrom, Int.toNat_natCast, hs, hc, List.append_assoc, List.drop_left, hidx]
        simp only [List.length_append]
        omega
      · obtain ⟨q', hq'⟩ := hstops p q h hle
        exact length_le_of_last (by decide) hq' hb
  have hw : s.substr (((a ++ c).length : Nat) + 2) = w := by
    rw [hs, hc, show a ++ (c ++ angleNl ++ w) = (a ++ c ++ angleNl) ++ w by simp]
    refine substr_rest _ _ ?_
    simp only [List.length_append, angleNl, List.length_cons, List.length_nil]
    omega
  rw [lastLogSeq, ← angleNl, ← stopNl]
  simp only
  rw [hpos, if_pos (by rw [npos]; omega), Int.toNat_natCast, hnext, hw]

end Search

/-! ## Records -/

/-- A record's text up to the end of its command line. -/
def front (kw row col : Str) : Str := (kw ++ [' ']) ++ '<' :: row ++ '>' :: ([' '] ++ '<' :: col)

theorem header_front (kw row col rest : Str) :
    header kw row col rest = front kw row col ++ '>' :: rest := by
  simp [header, front]

/-- **No line before the end of the command line ends in `>`.** -/
theorem front_noAngle {kw row col : Str} (hkw : '>' ∉ kw) (hr : '>' ∉ row) (hc : '>' ∉ col) :
    ¬ angleNl <:+: front kw row col := by
  have hfirst : '>' ∉ (kw ++ [' ']) ++ '<' :: row := by simp [hkw, hr]
  have hlast : '>' ∉ '<' :: col := by simp [hc]
  rw [front, show (kw ++ [' ']) ++ '<' :: row ++ '>' :: ([' '] ++ '<' :: col)
    = ((kw ++ [' ']) ++ '<' :: row ++ ['>']) ++ ' ' :: '<' :: col by simp]
  intro hin
  rcases (Lib.infix_mid (by decide)).mp hin with hin | hin
  · rcases Lib.pair_infix_append.mp hin with hin | hin | ⟨hin, -⟩
    · exact Lib.not_pair_of_notMem hfirst hin
    · exact absurd hin (by decide)
    · exact hfirst (List.mem_of_getLast? hin)
  · exact Lib.not_pair_of_notMem hlast hin

/-- A record is its command line, its number, its data and the end of the record. -/
theorem LogRecord.WF.split {r : LogRecord} (hr : r.WF) : ∃ A tail,
    r.text = A ++ angleNl ++ (decimal r.seq ++ '\n' :: (r.data ++ tail)) ∧
    ¬ angleNl <:+: A ∧ '>' ∉ tail := by
  obtain ⟨hrow, hcol, -⟩ := hr
  cases r with
  | put seq row col data =>
      refine ⟨front kwPUT row col, dotNl, ?_, front_noAngle (by decide) hrow.noAngle hcol.noAngle,
        by decide⟩
      simp [LogRecord.text, LogRecord.body, header_front, LogRecord.seq,
        LogRecord.data, angleNl, dotNl]
  | replicaPut seq row col data =>
      refine ⟨front kwPUT row col, stopNl, ?_, front_noAngle (by decide) hrow.noAngle hcol.noAngle,
        by decide⟩
      simp [LogRecord.text, LogRecord.body, header_front, LogRecord.seq, LogRecord.data,
        angleNl, stopNl]
  | delete seq row col =>
      refine ⟨front kwDELETE row col, stopNl, ?_,
        front_noAngle (by decide) hrow.noAngle hcol.noAngle, by decide⟩
      simp [LogRecord.text, LogRecord.body, header_front, LogRecord.seq, LogRecord.data,
        angleNl, stopNl]

/-- A log is empty or ends with a dot line. -/
theorem ends_records (log : List LogRecord) :
    log.flatMap LogRecord.text = [] ∨ ∃ a, log.flatMap LogRecord.text = a ++ stopNl := by
  rcases List.eq_nil_or_concat log with rfl | ⟨init, r, rfl⟩
  · exact Or.inl rfl
  · exact Or.inr ⟨init.flatMap LogRecord.text ++ r.body, by simp [LogRecord.text, stopNl]⟩

/-- The first line of a text that has a line break does not depend on what follows it. -/
theorem line_append {w : Str} (hw : '\n' ∈ w) (t : Str) :
    (w ++ t).substr 0 ((w ++ t).find ['\n']) = w.substr 0 (w.find ['\n']) := by
  obtain ⟨l, rest, rfl, hl⟩ := List.eq_append_cons_of_mem hw
  rw [List.append_assoc, List.cons_append, find_sep _ hl, find_sep _ hl]
  exact (substr_middle [] l _ rfl rfl).trans (substr_middle [] l _ rfl rfl).symm

section LastRecord

variable {r : LogRecord} {P A E a b w : Str}

/-- From the last dot line in front of the last record's number, there is no other `>` line. -/
theorem stretch (hP : P = [] ∨ ∃ p, P = p ++ stopNl) (hA : ¬ angleNl <:+: A) :
    ∃ a b, P ++ A = a ++ b ∧ (a = [] ∨ ∃ a', a = a' ++ stopNl) ∧ ¬ stopNl <:+: b ∧
    ¬ angleNl <:+: b := by
  by_cases hstop : stopNl <:+: A
  · obtain ⟨p, q, rfl, hq⟩ := Lib.pair_last hstop
    refine ⟨P ++ p ++ stopNl, q, by simp [stopNl], Or.inr ⟨P ++ p, rfl⟩, hq, fun hin => hA ?_⟩
    exact hin.trans (List.suffix_append ..).isInfix
  · exact ⟨P, A, rfl, hP, hstop, hA⟩

/-- Data does not end in the middle of a `>` line, and neither do its ends. -/
theorem Payload.angle_cut {d p q : Str} (hd : Payload d) (h : d = p ++ angleNl ++ q) :
    q.getLast? = some '\n' := by
  obtain ⟨e, rfl⟩ : ∃ e, d = e ++ crlf := by
    refine hd.ends.resolve_left fun hnil => ?_
    rw [h] at hnil
    simp [angleNl] at hnil
  rcases List.eq_nil_or_concat q with rfl | ⟨q', z, rfl⟩
  · have hrev := congrArg List.reverse h
    simp [crlf, angleNl] at hrev
  · have hend := congrArg List.getLast? h
    simp only [crlf, List.concat_eq_append, ← List.append_assoc, List.getLast?_append] at hend ⊢
    simpa using hend.symm

theorem noAngle_tail {v tail : Str} (hv : ¬ angleNl <:+: v) (hlast : v.getLast? ≠ some '>')
    (htail : '>' ∉ tail) : ¬ angleNl <:+: v ++ tail := by
  intro hin
  rcases Lib.pair_infix_append.mp hin with hin | hin | ⟨hin, -⟩
  · exact hv hin
  · exact Lib.not_pair_of_notMem htail hin
  · exact hlast hin

/-- A decoy is read in place of the command line. -/
theorem lastLogSeq_decoy (hr : r.WF) (hd : Decoy r.data w) (P : Str) :
    lastLogSeq (P ++ r.text) = stol (w.substr 0 (w.find ['\n'])) := by
  obtain ⟨A, tail, htext, -, htail⟩ := hr.split
  obtain ⟨a, b, c, v, hdata, hb, hv, hc, hfirst⟩ := hd
  have hw : w.getLast? = some '\n' :=
    hr.2.2.angle_cut (p := a ++ stopNl ++ c) (by rw [hdata, hc]; simp)
  have hvlast : v.getLast? = some '\n' :=
    hr.2.2.angle_cut (p := a ++ stopNl ++ b) (by rw [hdata]; simp)
  have hv' : ¬ angleNl <:+: v ++ tail := noAngle_tail hv (by rw [hvlast]; decide) htail
  rw [← line_append (List.mem_of_getLast? hw) tail]
  refine lastLogSeq_eq (a := P ++ A ++ angleNl ++ decimal r.seq ++ '\n' :: a ++ stopNl) ?_
    (Or.inr ⟨_, rfl⟩) hb hv' ?_ hfirst
  · rw [htext, hdata]
    simp
  · rw [← List.append_assoc, hc]
    simp

/-- Data does not end in `>`. -/
theorem Payload.last_ne {d : Str} (hd : Payload d) : d.getLast? ≠ some '>' := by
  rcases hd.ends with hnil | ⟨e, he⟩
  · rw [hnil]
    decide
  · rw [he]
    simp [crlf]

/-- The number of a record is what is read on its line. -/
theorem stol_number (n : Int) (rest : Str) : stol ((decimal n ++ '\n' :: rest).substr 0
    ((decimal n ++ '\n' :: rest).find ['\n'])) = some n := by
  rw [find_sep _ (notMem_decimal (by decide) (by decide))]
  exact (congrArg stol (substr_middle [] _ _ rfl rfl)).trans (stol_line n)

/-- A command line and a number bring no dot line between two texts that have none. -/
theorem noStop_number (hb : ¬ stopNl <:+: b) (hw : ¬ stopNl <:+: w) (n : Int) :
    ¬ stopNl <:+: b ++ ('>' :: '\n' :: (decimal n ++ '\n' :: w)) := by
  have hdot : '.' ∉ decimal n := notMem_decimal (by decide) (by decide)
  simp only [stopNl, Lib.pair_infix_append, Lib.pair_infix_cons, List.head?_cons] at hb hw ⊢
  rintro (hin | (⟨hne, -⟩ | ⟨hne, -⟩ | hin | (⟨hne, -⟩ | hin) | ⟨hin, -⟩) | ⟨-, hne⟩)
  · exact hb hin
  · cases hne
  · cases hne
  · exact Lib.not_pair_of_notMem hdot hin
  · cases hne
  · exact hw hin
  · exact hdot (List.mem_of_getLast? hin)
  · cases hne

/-- Nor does the number bring a line that ends in `>`. -/
theorem noAngle_number (hw : ¬ angleNl <:+: w) (n : Int) :
    ¬ angleNl <:+: decimal n ++ '\n' :: w := by
  have hgt : '>' ∉ decimal n := notMem_decimal (by decide) (by decide)
  simp only [angleNl, Lib.pair_infix_append, Lib.pair_infix_cons, List.head?_cons] at hw ⊢
  rintro (hin | (⟨hne, -⟩ | hin) | ⟨hin, -⟩)
  · exact Lib.not_pair_of_notMem hgt hin
  · cases hne
  · exact hw hin
  · exact hgt (List.mem_of_getLast? hin)

/-- Without a decoy the command line of the last record is read. -/
theorem lastLogSeq_plain (hr : r.WF) (hd : ∀ w, ¬ Decoy r.data w)
    (hP : P = [] ∨ ∃ p, P = p ++ stopNl) :
    lastLogSeq (P ++ r.text) = some r.seq := by
  obtain ⟨A, tail, htext, hA, htail⟩ := hr.split
  obtain ⟨a, b, hab, ha, hb, hb'⟩ := stretch hP hA
  have hnumber := stol_number r.seq (r.data ++ tail)
  have hs : P ++ r.text = a ++ (b ++ angleNl ++ (decimal r.seq ++ '\n' :: (r.data ++ tail))) := by
    rw [htext, show P ++ (A ++ angleNl ++ (decimal r.seq ++ '\n' :: (r.data ++ tail)))
      = (P ++ A) ++ (angleNl ++ (decimal r.seq ++ '\n' :: (r.data ++ tail))) by simp, hab]
    simp
  by_cases hangle : angleNl <:+: r.data
  · -- the last `>` line is in the data, but no dot line before it
    obtain ⟨D, v, hdata, hv⟩ := Lib.pair_last hangle
    have hD : ¬ stopNl <:+: D := by
      intro hin
      obtain ⟨p, q, rfl, hq⟩ := Lib.pair_last hin
      obtain ⟨c, w, hc, hfirst⟩ := Lib.pair_first (l := q ++ angleNl ++ v) ⟨q, v, rfl⟩
      exact hd w ⟨p, q, c, v, by rw [hdata]; simp [stopNl, angleNl], hq, hv, hc, hfirst⟩
    have hv' : ¬ angleNl <:+: v ++ tail :=
      noAngle_tail hv (by rw [hr.2.2.angle_cut hdata]; decide) htail
    refine (lastLogSeq_eq (v := v ++ tail) ?_ ha (noStop_number hb hD r.seq) hv' ?_
      hb').trans hnumber
    · rw [hs, hdata]
      simp [angleNl]
    · rw [hdata]
      simp [angleNl]
  · have hv := noAngle_number (noAngle_tail hangle hr.2.2.last_ne htail) r.seq
    exact (lastLogSeq_eq hs ha hb hv rfl hb').trans hnumber

end LastRecord

/-- **The last record's number is read if and only if its data is plain**, whatever is before it. -/
theorem lastLogSeq_record (before : List LogRecord) {r : LogRecord} (hr : r.WF) :
    lastLogSeq ((before ++ [r]).flatMap LogRecord.text) = some r.seq ↔ r.Plain := by
  rw [List.flatMap_append, List.flatMap_singleton]
  constructor
  · intro h w hw
    rw [← lastLogSeq_decoy hr hw, h]
  · intro h
    by_cases hd : ∃ w, Decoy r.data w
    · obtain ⟨w, hw⟩ := hd
      rw [lastLogSeq_decoy hr hw, h w hw]
    · exact lastLogSeq_plain hr (not_exists.mp hd) (ends_records before)

/-! ## Logs of servers -/

/-- What happens is well-formed: the requests, and the primary's commands. -/
def ServerAction.WF : ServerAction → Prop
  | .request q => q.WF
  | .replicated f => f.WF
  | _ => True

instance : DecidablePred ServerAction.WF
  | .request q => inferInstanceAs (Decidable q.WF)
  | .replicated (.put row col data _) =>
      inferInstanceAs (Decidable (Name row ∧ Name col ∧ Payload data))
  | .replicated (.delete row col _) => inferInstanceAs (Decidable (Name row ∧ Name col))
  | .checkpoint | .recovery | .promote => .isTrue trivial

theorem payload_nil : Payload [] := by decide

/-- What a well-formed request writes is well-formed. -/
theorem Request.WF.write {q : Request} {row col data : Str} (hq : q.WF)
    (hw : q.write? = some (row, col, data)) : Name row ∧ Name col ∧ Payload data := by
  cases q with
  | put row' col' data' => cases hw; exact hq
  | cput row' col' oldData newData => cases hw; exact ⟨hq.1, hq.2.1, hq.2.2.2⟩
  | get row' col' => cases hw
  | delete row' col' => cases hw

/-- A replica logs the command it has been sent. -/
theorem Followed.wf {s t : Server} {f : Forward} (h : Followed s f t) (hs : ∀ r ∈ s.log, r.WF)
    (hf : f.WF) : ∀ r ∈ t.log, r.WF := by
  have hadd : ∀ new : LogRecord, new.WF → ∀ r ∈ s.log ++ [new], r.WF := fun new hnew =>
    List.forall_mem_append.mpr ⟨hs, List.forall_mem_singleton.mpr hnew⟩
  cases h with
  | stored row col data seq he ht =>
      subst he ht
      exact hadd _ hf
  | erased row col d seq he hat ht =>
      subst he ht
      exact hadd _ ⟨hf.1, hf.2, payload_nil⟩
  | missed row col seq he hat ht =>
      subst he ht
      exact hadd _ ⟨hf.1, hf.2, payload_nil⟩

/-- A step logs one record of what was asked for, or none, or truncates the log. -/
theorem wf_step {s t : Server} {a : ServerAction} (hs : ∀ r ∈ s.log, r.WF) (ha : a.WF)
    (h : s.act a = some t) : ∀ r ∈ t.log, r.WF := by
  cases a with
  | request q =>
      obtain ⟨hp, r, hh, rfl⟩ := act_request h
      refine (handle_request_cases hp hh).log_forall hs (fun seq row col data hw => ?_) ?_
      · exact ha.write hw
      · rintro seq row col rfl
        exact ⟨ha.1, ha.2, payload_nil⟩
  | replicated f => exact (act_replicated h).2.wf hs ha
  | checkpoint =>
      cases h
      exact fun r hr => (by cases hr)
  | recovery =>
      cases h
      exact hs
  | promote =>
      cases h
      exact hs

/--
**`lastLogSeq` gives the number of the last record if and only if** the data of that
record has no decoy, or one with the same number behind it; in every log of a primary
or a replica.
-/
theorem lastLogSeq_iff_plain {primary : Bool} {as : List ServerAction} {s : Server}
    (hwf : ∀ a ∈ as, a.WF) (hr : Lib.run Server.act { primary := primary } as = some s)
    {r : LogRecord} (hlast : s.log.getLast? = some r) :
      lastLogSeq s.logText = some r.seq ↔ r.Plain := by
  have hlog : ∀ r ∈ s.log, r.WF :=
    Lib.inv_of_guarded (I := fun s : Server => ∀ r ∈ s.log, r.WF)
      (fun s a t hs ha h => wf_step hs ha h)
      (fun r hr => (by cases hr)) (Lib.guarded_of_forall hwf _) hr
  obtain ⟨before, hbefore⟩ := List.getLast?_eq_some_iff.mp hlast
  rw [Server.logText, hbefore]
  exact lastLogSeq_record before (hlog r (List.mem_of_getLast? hlast))

/-- No line of the data ends in `>`. -/
theorem plain_of_noAngle {r : LogRecord} (h : ¬ angleNl <:+: r.data) : r.Plain := by
  rintro w ⟨a, b, c, v, hdata, -⟩
  exact absurd ⟨a ++ stopNl ++ b, v, by rw [hdata]; simp⟩ h

/-- A replica takes over, and logs data with dot lines. -/
def dottedHistory : List ServerAction :=
  [.replicated (.put ['a'] ['x'] ['1', '.', '\n', '2', '\r', '\n'] 4),
    .replicated (.delete ['a'] ['x'] 5),
   .promote, .request (.put ['b'] ['x'] ['1', '.', '\n', '.', '\n', '\r', '\n'])]

theorem dottedHistory_last : ∃ s, Lib.run Server.act { primary := false } dottedHistory = some s ∧
    lastLogSeq s.logText = some 5 := by
  have hplain : (LogRecord.put 5 ['b'] ['x'] ['1', '.', '\n', '.', '\n', '\r', '\n']).Plain :=
    plain_of_noAngle (by decide)
  have hrun : (Lib.run Server.act { primary := false } dottedHistory).map
      (fun s => s.log.getLast?)
        = some (some (.put 5 ['b'] ['x'] ['1', '.', '\n', '.', '\n', '\r', '\n'])) := by
    decide +kernel
  obtain ⟨s, hs, hlast⟩ := Option.map_eq_some_iff.mp hrun
  exact ⟨s, hs, (lastLogSeq_iff_plain (by decide) hs hlast).mpr hplain⟩

/-- Data with a line that ends in a dot, and then one that ends in `>`. -/
def decoyRequest : Request :=
  .put ['a'] ['x'] ['1', '.', '\n', '2', '>', '\n', 'x', '\r', '\n']

/-- `std::stol` throws on the line behind the decoy. -/
theorem decoyRequest_throws : decoyRequest.WF ∧
    ∃ s, Lib.run Server.act { primary := true } [.request decoyRequest] = some s ∧
      s.log.getLast?.map LogRecord.seq = some 1 ∧ lastLogSeq s.logText = none :=
  ⟨by decide, _, rfl, rfl, by decide +kernel⟩

end PennCloud
