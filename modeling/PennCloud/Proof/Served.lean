import PennCloud.Proof.Framing

/-!
# One request on a connection, whatever is in it

The fields of a request go onto the wire as they are. `requestServed_iff` says for which
fields a primary's worker makes of the bytes the one request that was meant: the
names must not hold a `'>'` or a line break, the data must end where its dot line
is first found, no field may hold a zero byte, and the reads must bring each dot
line whole.

The first line of the bytes is what the names are parsed from, so the argument
goes along that line: a `'>'` that comes too early cuts a name short, and one that
is missing makes the name end with the line break.
-/

namespace PennCloud

open Str

/-! ## The names of a command line -/

/-- `angled` and `pastAngled` behind the first bracket. -/
theorem angled_cases {a x : Str} (ha : '<' ∉ a) (ha' : '>' ∉ a) :
    (∃ f r, x = f ++ '>' :: r ∧ '>' ∉ f ∧ angled (a ++ '<' :: x) = f ∧
      pastAngled (a ++ '<' :: x) = r) ∨
    ('>' ∉ x ∧ angled (a ++ '<' :: x) = x ∧ pastAngled (a ++ '<' :: x) = a ++ '<' :: x) := by
  by_cases hx : '>' ∈ x
  · obtain ⟨f, r, rfl, hf⟩ := List.eq_append_cons_of_mem hx
    have hsplit : a ++ '<' :: (f ++ '>' :: r) = a ++ '<' :: f ++ '>' :: r := by simp
    rw [hsplit]
    exact Or.inl ⟨f, r, rfl, hf, angled_field r ha ha' hf, pastAngled_field r ha' hf⟩
  · have hlt : find (a ++ '<' :: x) ['<'] = a.length := find_sep x ha
    have hgt : find (a ++ '<' :: x) ['>'] = npos := find_sep_none (by simp [ha', hx])
    refine Or.inr ⟨hx, ?_, ?_⟩
    · rw [angled, hlt, hgt, List.append_cons]
      refine substr_wrap (a ++ ['<']) x (by rw [List.length_append]; rfl) ?_
      rw [npos]
      omega
    · rw [pastAngled, hgt]
      exact substr_zero_npos _

/-- Before a letter of the line that is not its line break there is none. -/
theorem IsLine.split {u r : Str} {c : Char} (hc : c ∉ crlf) (h : IsLine (u ++ c :: r)) :
    ¬ crlf <:+: u ∧ IsLine r := by
  obtain ⟨a, ha, hno⟩ := h
  rcases List.append_eq_append_iff.mp ha with ⟨b, rfl, hb⟩ | ⟨b, rfl, hb⟩
  · cases b with
    | nil =>
        have hcr : c :: r = crlf := hb
        exact absurd (hcr ▸ List.mem_cons_self) hc
    | cons d b =>
        obtain ⟨rfl, rfl⟩ := List.cons.inj hb
        exact ⟨fun hu => hno (hu.trans (List.prefix_append _ _).isInfix),
          b, rfl, fun hb => hno (hb.trans ⟨u ++ [c], [], by simp⟩)⟩
  · exact absurd (hb ▸ List.mem_append_right b List.mem_cons_self : c ∈ crlf) hc

theorem IsLine.ends {l : Str} (h : IsLine l) : crlf <:+ l := by
  obtain ⟨a, rfl, -⟩ := h
  exact List.suffix_append a crlf

/-- A line that goes on behind a stretch without a line break. -/
theorem IsLine.behind {l x y z : Str} (hl : IsLine l) (hx : ¬ crlf <:+: x) (h : x ++ y = l ++ z) :
    ∃ s, l = x ++ s ∧ y = s ++ z := by
  rcases line_split hl h with ⟨hyes, -⟩ | ⟨-, s, -, hs, hy⟩
  · exact absurd hyes hx
  · exact ⟨s, hs, hy⟩

/-- **The first line of a command gives its names only if they are names.** -/
theorem names_of_parse {kw row col rest l y : Str} (hkw : ' ' ∉ kw) (hkw' : '\r' ∉ kw)
    (hcol : ¬ crlf <:+ col) (hl : IsLine l) (hy : l ++ y = header kw row col crlf ++ rest)
    (hnames : Worker.parseCommand l = (row, col)) : Name row ∧ Name col := by
  -- the line goes on to the row's bracket
  have hopen : ¬ crlf <:+: kw ++ [' ', '<'] := fun hin => by
    have hmem : '\r' ∈ kw ++ [' ', '<'] := hin.subset (by decide)
    simp [hkw'] at hmem
  obtain ⟨x, rfl, hx⟩ := hl.behind (x := kw ++ [' ', '<'])
    (y := row ++ '>' :: (' ' :: '<' :: (col ++ '>' :: (crlf ++ rest)))) hopen (by
      rw [hy]
      simp [header])
  have hfind : find (kw ++ [' ', '<'] ++ x) [' '] = kw.length := by
    rw [List.append_assoc]
    exact find_sep _ hkw
  have hcut : substr (kw ++ [' ', '<'] ++ x) (find (kw ++ [' ', '<'] ++ x) [' '] + 1) = []
    ++ '<' :: x := by
    rw [hfind, List.append_assoc]
    exact substr_after kw ' ' _
  rw [Worker.parseCommand, hcut] at hnames
  obtain ⟨hrow, hcolumn⟩ := Prod.mk.inj hnames
  have hline : IsLine x :=
    (IsLine.split (u := kw ++ [' ']) (c := '<') (by decide) (by simpa using hl)).2
  rcases angled_cases (a := []) (x := x) (by simp) (by simp) with
    ⟨f, r, rfl, hf, hfield, hpast⟩ | ⟨-, hfield, hpast⟩
  · obtain rfl : f = row := hfield.symm.trans hrow
    rw [hpast] at hcolumn
    obtain ⟨hfrow, hr⟩ := IsLine.split (by decide) hline
    refine ⟨⟨hf, hfrow⟩, ?_⟩
    -- and from there to the column's
    have hrest : r ++ y = [' ', '<'] ++ (col ++ '>' :: (crlf ++ rest)) := by
      rw [List.append_assoc] at hx
      exact ((List.cons.inj (List.append_cancel_left hx)).2).symm
    obtain ⟨w, rfl, -⟩ := hr.behind (x := [' ', '<']) (by decide) hrest.symm
    have hw : IsLine w := (IsLine.split (u := [' ']) (c := '<') (by decide) hr).2
    rcases angled_cases (a := [' ']) (x := w) (by decide) (by decide) with
      ⟨g, r, rfl, hg, hfield, -⟩ | ⟨-, hfield, -⟩
    · obtain rfl : g = col := hfield.symm.trans hcolumn
      exact ⟨hg, (IsLine.split (by decide) hw).1⟩
    · obtain rfl : w = col := hfield.symm.trans hcolumn
      exact absurd hw.ends hcol
  · -- without a bracket to end it the row is the column, and ends with the line
    rw [hpast, hfield] at hcolumn
    exact absurd (hcolumn ▸ hline.ends) hcol

/-! ## The loops of the handlers -/

section Loops

variable {stop buffer b : Str} {n : Nat} {reads : List Str} {task : List Read}

/-- What a body loop returns: what was there, or one more group of reads. -/
theorem readBody_ok (hreads : '\x00' ∉ reads.flatten)
    (h : readBody dotLine n buffer (reads.map .data) = .ok (b, task)) : dotLine <:+: b ∧
    ((b = buffer ∧ task = reads.map .data) ∨
    (¬ dotLine <:+: buffer ∧ ∃ g rest, reads = g ++ rest ∧ ReadGroup dotLine g ∧
      b = buffer ++ g.flatten ∧ task = rest.map .data)) := by
  cases n with
  | zero => cases h
  | succ n =>
      rw [readBody] at h
      split at h
      · rename_i hfound
        cases h
        exact ⟨find_ne_npos.mp hfound, Or.inl ⟨rfl, rfl⟩⟩
      · rename_i hmissing
        obtain ⟨⟨buf, task'⟩, hdata, h⟩ := bind_ok h
        obtain ⟨g, rest, rfl, rfl, hbuf, -, hends, hfirst, hfits⟩ :=
          readInto_ok (by simp) hreads (by decide) hdata
        rw [List.nil_append] at hbuf hfirst
        subst hbuf
        rw [List.flatten_append, List.mem_append, not_or] at hreads
        replace h : readBody dotLine n (buffer ++ cstr g.flatten)
          (rest.map .data) = .ok (b, task) := h
        rw [cstr_eq hreads.1] at h
        have hin : dotLine <:+: buffer ++ g.flatten := hends.trans (List.suffix_append _ _).isInfix
        cases n with
        | zero => cases h
        | succ n =>
            rw [readBody, if_pos (find_ne_npos.mpr hin)] at h
            cases h
            exact ⟨hin, Or.inr ⟨fun hf => hmissing (find_ne_npos.mpr hf), g, rest, rfl,
              ⟨hends, hfirst, hfits⟩, rfl, rfl⟩⟩

/-- And a group that brings the dot line is taken in. -/
theorem readBody_group {g : List Str} (hreads : '\x00' ∉ g.flatten) (hbuf : ¬ dotLine <:+: buffer)
    (hg : ReadGroup dotLine g) (n : Nat) (rest : List Str) :
    readBody dotLine (n + 2) buffer ((g ++ rest).map .data)
      = .ok (buffer ++ g.flatten, rest.map .data) := by
  have hread := hg.read rest (by decide) hreads
  have hin : dotLine <:+: buffer ++ g.flatten := hg.ends.trans (List.suffix_append _ _).isInfix
  rw [readBody, if_neg (fun hf => hbuf (find_ne_npos.mp hf)), doReadData, hread]
  show readBody dotLine (n + 1) (buffer ++ cstr g.flatten) _ = _
  rw [cstr_eq hreads, readBody, if_pos (find_ne_npos.mpr hin)]

end Loops

/--
What a body loop makes of the stream `s` and the reads to come: the buffer `b`,
and the reads left. It is `s`, or `s` and a group of reads that has a dot line of
its own.
-/
def Fetched (s : Str) (reads : List Str) (b : Str) (rest : List Str) : Prop :=
  dotLine <:+: b ∧ ((b = s ∧ rest = reads) ∨
    (¬ dotLine <:+: s ∧ ∃ g, reads = g ++ rest ∧ ReadGroup dotLine g ∧ b = s ++ g.flatten))

/-- The reads bring `n` bodies into the stream `s`, and nothing behind them. -/
def Brings : Nat → Str → List Str → Prop
  | 0, _, reads => reads = []
  | n + 1, s, reads => ∃ b rest i, Fetched s reads b rest ∧ Lib.firstIdx dotLine b = some i ∧
      Brings n (b.drop (i + 3)) rest

/-- How many bodies a request has. -/
def Request.bodies : Request → Nat
  | .put .. => 1
  | .cput .. => 2
  | .get .. | .delete .. => 0

/--
The reads suit the request: the first of them, up to the one that completes the
command line, fit the array, and so do those that each dot line is waited for,
which they bring whole.
-/
def Cut (q : Request) (reads : List Str) : Prop :=
  ∃ g rest y, reads = g ++ rest ∧ ReadGroup crlf g ∧ g.flatten = q.line ++ y ∧
    Brings q.bodies y rest

section Fetched

variable {s b d : Str} {reads rest : List Str} {task : List Read}

theorem Fetched.flatten (h : Fetched s reads b rest) : b ++ rest.flatten = s ++ reads.flatten := by
  rcases h.2 with ⟨rfl, rfl⟩ | ⟨-, g, rfl, -, rfl⟩
  · rfl
  · rw [List.flatten_append, List.append_assoc]

theorem readBody_fetched (hreads : '\x00' ∉ reads.flatten) :
    readBody dotLine (reads.length + 1) s (reads.map .data) = .ok (b, task) ↔
      ∃ rest, task = rest.map .data ∧ Fetched s reads b rest := by
  constructor
  · intro h
    obtain ⟨hin, ⟨rfl, rfl⟩ | ⟨hno, g, rest, rfl, hg, rfl, rfl⟩⟩ := readBody_ok hreads h
    · exact ⟨reads, rfl, hin, Or.inl ⟨rfl, rfl⟩⟩
    · exact ⟨rest, rfl, hin, Or.inr ⟨hno, g, rfl, hg, rfl⟩⟩
  · rintro ⟨rest, rfl, hin, ⟨rfl, rfl⟩ | ⟨hno, g, rfl, hg, rfl⟩⟩
    · rw [readBody, if_pos (find_ne_npos.mpr hin)]
    · rw [List.flatten_append, List.mem_append, not_or] at hreads
      obtain ⟨n, hn⟩ : ∃ n, (g ++ rest).length = n + 1 := by
        refine Nat.exists_eq_add_one.mpr ?_
        have hpos := List.length_pos_iff.mpr (hg.ne_nil (by decide))
        rw [List.length_append]
        omega
      rw [hn]
      exact readBody_group hreads.1 hno hg n rest

theorem Fetched.noNul (h : Fetched s reads b rest) (hreads : '\x00' ∉ reads.flatten) :
    '\x00' ∉ rest.flatten := by
  rcases h.2 with ⟨-, rfl⟩ | ⟨-, g, rfl, -, -⟩
  · exact hreads
  · rw [List.flatten_append, List.mem_append, not_or] at hreads
    exact hreads.2

/-- What is found within a part of the text is found in that part. -/
theorem firstIdx_part {pat t u : Str} {i : Nat} (h : Lib.firstIdx pat (t ++ u) = some i)
    (hlen : i + pat.length ≤ t.length) : Lib.firstIdx pat t = some i := by
  obtain ⟨v, w, hvw, rfl⟩ := Lib.firstIdx_split h
  have hpre : v ++ pat <+: t := by
    refine Lib.prefix_of_append_eq hvw.symm ?_
    rw [List.length_append]
    exact hlen
  obtain ⟨j, hj⟩ := Lib.firstIdx_isSome ((List.suffix_append v pat).isInfix.trans hpre.isInfix)
  have hboth := (Lib.firstIdx_append u hj).symm.trans h
  rw [hj, Option.some.inj hboth]

/-- A heading before a body: the search for the dot line passes over it. -/
def Heading (a : Str) : Prop := ∀ x, Lib.firstIdx dotLine (a ++ (crlf ++ x))
  = (Lib.firstIdx dotLine (crlf ++ x)).map (a.length + ·)

theorem heading_noCr {a : Str} (ha : '\r' ∉ a) : Heading a := fun _ => Lib.firstIdx_skip _ ha

theorem heading_new : Heading "\r\nNEW".toList := by
  intro x
  have hnp : ¬ dotLine <+: '\r' :: ("\nNEW".toList ++ (crlf ++ x)) := fun hp => by
    have h2 := (List.cons_prefix_cons.mp (List.cons_prefix_cons.mp hp).2).2
    exact absurd (List.cons_prefix_cons.mp h2).1 (by decide)
  have hskip : Lib.firstIdx ('\r' :: dotLine.tail) ("\nNEW".toList ++ (crlf ++ x))
      = (Lib.firstIdx ('\r' :: dotLine.tail) (crlf ++ x)).map ("\nNEW".toList.length + ·) :=
    Lib.firstIdx_skip _ (by decide)
  show Lib.firstIdx dotLine ('\r' :: ("\nNEW".toList ++ (crlf ++ x))) = _
  rw [Lib.firstIdx, if_neg hnp]
  show (Lib.firstIdx ('\r' :: dotLine.tail) ("\nNEW".toList ++ (crlf ++ x))).map (· + 1) = _
  rw [hskip, Option.map_map]
  congr 1
  funext n
  show 4 + n + 1 = 5 + n
  omega

/-- A heading, the data and the dot line. -/
def dotted (a d : Str) : Str := a ++ (crlf ++ d ++ ['.', '\r', '\n'])

theorem dotLine_length {b : Str} {i : Nat} (h : Lib.firstIdx dotLine b = some i) :
    i + 5 ≤ b.length := by
  obtain ⟨u, v, rfl, rfl⟩ := Lib.firstIdx_split h
  simp only [List.length_append, dotLine, List.length_cons, List.length_nil]
  omega

/-- The dot line is looked for behind the heading. -/
theorem firstIdx_dotted_append {a later tail : Str} {i : Nat} (ha : Heading a)
    (hb : b ++ later = dotted a d ++ tail) (hi : Lib.firstIdx dotLine b = some i) :
    ∃ j, Lib.firstIdx dotLine (crlf ++ (d ++ ['.', '\r', '\n'] ++ tail)) = some j ∧
    i = a.length + j := by
  have hwhole := Lib.firstIdx_append later hi
  rw [hb, show dotted a d ++ tail = a
    ++ (crlf ++ (d ++ ['.', '\r', '\n'] ++ tail)) by simp [dotted], ha] at hwhole
  obtain ⟨j, hj, he⟩ := Option.map_eq_some_iff.mp hwhole
  exact ⟨j, hj, he.symm⟩

theorem heading_le {a later tail : Str} {i : Nat} (ha : Heading a)
    (hb : b ++ later = dotted a d ++ tail) (hi : Lib.firstIdx dotLine b = some i) :
      a.length ≤ i := by
  obtain ⟨j, -, rfl⟩ := firstIdx_dotted_append ha hb hi
  exact Nat.le_add_right _ _

/-- A dot line that is the data's own ends what was sent. -/
theorem later_nil {a later : Str} {i : Nat} (hb : b ++ later = dotted a d)
    (hi : Lib.firstIdx dotLine b = some i) (hend : i = a.length + d.length) : later = [] := by
  have hfit := dotLine_length hi
  have hlen := congrArg List.length hb
  simp only [dotted, List.length_append, crlf, List.length_cons, List.length_nil] at hlen
  exact List.length_eq_zero_iff.mp (by omega)

/-- **Where data that comes out as it went in is ended**: by its own dot line. -/
theorem payload_of_field {a later tail : Str} {i : Nat} (ha : Heading a)
    (hb : b ++ later = dotted a d ++ tail)
    (hi : Lib.firstIdx dotLine b = some i)
    (hd : (b.drop (a.length + 2)).take (i - a.length) = d) :
      Payload d ∧ i = a.length + d.length := by
  have hfit := dotLine_length hi
  obtain ⟨j, hj, rfl⟩ := firstIdx_dotted_append ha hb hi
  have hlen : d.length = j := by
    have hcut := congrArg List.length hd
    rw [List.length_take, List.length_drop] at hcut
    omega
  refine ⟨?_, by rw [hlen]⟩
  rw [Payload, hlen]
  refine firstIdx_part (u := tail) (by simpa using hj) ?_
  simp only [List.length_append, dotLine, crlf, List.length_cons, List.length_nil]
  omega

end Fetched

/-! ## Bodies -/

section Bodies

variable {k k' : Worker} {y data oldData newData b : Str} {reads rest : List Str}

/-- A heading at the front is found there. -/
theorem find_front {kw b later x : Str} (hb : b ++ later = kw ++ x) (hlen : kw.length ≤ b.length) :
    find b kw = 0 := by
  refine find_of_firstIdx (Lib.firstIdx_zero ?_)
  exact Lib.prefix_of_append_eq hb.symm hlen

/-- The data between a heading and the dot line, with the source's positions. -/
theorem substr_field {b : Str} {i n : Nat} (hi : n ≤ i + 2) :
    substr b n ((i : Int) - n + 2) = (b.drop n).take (i + 2 - n) := by
  have hneg : ¬ ((i : Int) - n + 2) < 0 := by omega
  rw [substr, if_neg hneg, Int.toNat_natCast, show ((i : Int) - n + 2).toNat = i + 2 - n by omega]

theorem bodyPUT_payload (htask : k.task = reads.map .data) (hreads : '\x00' ∉ reads.flatten)
    (hcat : k.w.str ++ reads.flatten = dotted "DATA".toList data) (h : k.bodyPUT = .ok (data, k')) :
    Payload data ∧ ∃ rest, Fetched k.w.str reads (dotted "DATA".toList data) rest ∧
      rest.flatten = [] := by
  obtain ⟨⟨b, task⟩, hread, h⟩ := bind_ok h
  rw [htask, List.length_map, readBody_fetched hreads] at hread
  obtain ⟨rest, rfl, hf⟩ := hread
  have hb : b ++ rest.flatten = dotted "DATA".toList data := hf.flatten.trans hcat
  obtain ⟨i, hi⟩ := Lib.firstIdx_isSome hf.1
  have hfit := dotLine_length hi
  have hwhole : b ++ rest.flatten = dotted "DATA".toList data ++ [] := by rw [hb, List.append_nil]
  have hfour : 4 ≤ i := heading_le (a := "DATA".toList) (heading_noCr (by decide)) hwhole hi
  have hhead : find b "DATA\r\n".toList = 0 :=
    find_front (x := data ++ ['.', '\r', '\n']) (by rw [hb]; simp [dotted, crlf]) (by
      show 6 ≤ b.length
      omega)
  simp only [hhead, find_of_firstIdx hi, Except.pure, pure, Except.ok.injEq, Prod.mk.injEq] at h
  have hdata : (b.drop 6).take (i - 4) = data := by
    rw [← h.1]
    have hfield := substr_field (b := b) (n := 6) (i := i) (by omega)
    rw [show i - 4 = i + 2 - 6 by omega, ← hfield]
    rfl
  obtain ⟨hpayload, hend⟩ := payload_of_field (heading_noCr (by decide)) hwhole hi hdata
  have hnil : rest.flatten = [] := later_nil hb hi hend
  rw [hnil, List.append_nil] at hb
  exact ⟨hpayload, rest, hb ▸ hf, hnil⟩

/-- The text behind the first body's dot, in which the second one is looked for. -/
theorem drop_old (oldData newData : Str) :
    (dotted "OLD".toList oldData ++ dotted "NEW".toList newData).drop (3 + oldData.length + 3)
      = dotted "\r\nNEW".toList newData := by
  have hsplit : dotted "OLD".toList oldData ++ dotted "NEW".toList newData
      = ("OLD\r\n".toList ++ oldData ++ ['.']) ++ dotted "\r\nNEW".toList newData := by
    simp [dotted, crlf]
  have hlen : ("OLD\r\n".toList ++ oldData ++ ['.']).length = 3 + oldData.length + 3 := by
    rw [List.length_append, List.length_append, show "OLD\r\n".toList.length = 5 from rfl]
    simp only [List.length_cons, List.length_nil]
    omega
  rw [hsplit, ← hlen, List.drop_left]

/-- What the second loop finds is the new data, and the last thing that was sent. -/
theorem newData_payload {later : Str} {i : Nat} (hb : b ++ later = dotted "\r\nNEW".toList newData)
    (hi : Lib.firstIdx dotLine b = some i)
    (hnew : substr b (find b "NEW\r\n".toList + 5) ((i : Int) - (find b "NEW\r\n".toList + 5) + 2)
      = newData) : Payload newData ∧ later = [] := by
  have hfit := dotLine_length hi
  have hwhole : b ++ later = dotted "\r\nNEW".toList newData ++ [] := by
    rw [hb, List.append_nil]
  have hfive : 5 ≤ i := heading_le heading_new hwhole hi
  have hhead : find b "NEW\r\n".toList = 2 := by
    have hpre : "\r\nNEW\r\n".toList <+: b := by
      refine Lib.prefix_of_append_eq (w := newData ++ ['.', '\r', '\n']) (z := later) ?_ ?_
      · rw [hb]
        simp [dotted, crlf]
      · show 7 ≤ b.length
        omega
    obtain ⟨z, rfl⟩ := hpre
    refine find_of_firstIdx (i := 2) ?_
    exact Lib.firstIdx_append z (by decide)
  have htake : (b.drop 7).take (i - 5) = newData := by
    rw [← hnew, hhead]
    have hfield := substr_field (b := b) (n := 7) (i := i) (by omega)
    rw [show i - 5 = i + 2 - 7 by omega, ← hfield]
    rfl
  obtain ⟨hpayload, hend⟩ := payload_of_field heading_new hwhole hi htake
  exact ⟨hpayload, later_nil hb hi hend⟩

theorem bodyCPUT_payload (htask : k.task = reads.map .data) (hreads : '\x00' ∉ reads.flatten)
    (hcat : k.w.str ++ reads.flatten
      = dotted "OLD".toList oldData ++ dotted "NEW".toList newData)
    (h : k.bodyCPUT = .ok (oldData, newData, k')) : Payload oldData ∧ Payload newData ∧
    ∃ b rest i b' rest', Fetched k.w.str reads b rest ∧ Lib.firstIdx dotLine b = some i ∧
      Fetched (b.drop (i + 3)) rest b' rest' ∧ rest'.flatten = [] := by
  obtain ⟨⟨b, task⟩, hread, h⟩ := bind_ok h
  rw [htask, List.length_map, readBody_fetched hreads] at hread
  obtain ⟨rest, rfl, hf⟩ := hread
  have hb := hf.flatten.trans hcat
  obtain ⟨i, hi⟩ := Lib.firstIdx_isSome hf.1
  have hfit := dotLine_length hi
  have hthree : 3 ≤ i := heading_le (a := "OLD".toList) (heading_noCr (by decide)) hb hi
  have hhead : find b "OLD\r\n".toList = 0 :=
    find_front (x := oldData ++ ['.', '\r', '\n'] ++ dotted "NEW".toList newData)
      (by rw [hb]; simp [dotted, crlf]) (by
        show 5 ≤ b.length
        omega)
  obtain ⟨⟨b', task'⟩, hread', h⟩ := bind_ok h
  rw [find_of_firstIdx hi, List.length_map] at hread'
  have hcut : substr b ((i : Int) + 3) = b.drop (i + 3) := by
    rw [substr, if_pos (by decide), show ((i : Int) + 3).toNat = i + 3 by omega]
  rw [hcut, readBody_fetched (hf.noNul hreads)] at hread'
  obtain ⟨rest', rfl, hf'⟩ := hread'
  obtain ⟨i', hi'⟩ := Lib.firstIdx_isSome hf'.1
  simp only [find_of_firstIdx hi, hhead, find_of_firstIdx hi', Except.pure, pure, Except.ok.injEq,
    Prod.mk.injEq] at h
  obtain ⟨hold, hnew, -⟩ := h
  have hold' : (b.drop 5).take (i - 3) = oldData := by
    rw [← hold]
    have hfield := substr_field (b := b) (n := 5) (i := i) (by omega)
    rw [show i - 3 = i + 2 - 5 by omega, ← hfield]
    rfl
  obtain ⟨hpayload, hend⟩ := payload_of_field (a := "OLD".toList)
    (heading_noCr (by decide)) hb hi hold'
  -- the second loop starts behind the first body's dot
  have hb' : b' ++ rest'.flatten = dotted "\r\nNEW".toList newData := by
    rw [hf'.flatten, ← List.drop_append_of_le_length (by omega), hb, hend]
    exact drop_old oldData newData
  obtain ⟨hpayload', hnil⟩ := newData_payload hb' hi' hnew
  exact ⟨hpayload, hpayload', b, rest, i, b', rest', hf, hi, hf', hnil⟩

/-- A worker whose loop fetches a body reads it as if it had been there. -/
theorem bodyPUT_fetched {task : List Read} {i : Nat}
    (hread : readBody dotLine (k.task.length + 1) k.w.str k.task = .ok (b, task))
    (hi : Lib.firstIdx dotLine b = some i) :
    k.bodyPUT = ({ k with w := .setStr b, task := task } : Worker).bodyPUT := by
  have hdone : readBody dotLine (task.length + 1) b task = .ok (b, task) := readBody_done hi _ _
  simp only [Worker.bodyPUT, hread, StringStream.setStr, hdone]

theorem bodyCPUT_fetched {task task' : List Read} {b' z : Str} {i i' : Nat}
    (hread : readBody dotLine (k.task.length + 1) k.w.str k.task = .ok (b, task))
    (hi : Lib.firstIdx dotLine b = some i) (hhead : "OLD\r\n".toList <+: b) (hthree : 3 ≤ i)
    (hread' : readBody dotLine (task.length + 1) (b.drop (i + 3)) task = .ok (b', task'))
    (hi' : Lib.firstIdx dotLine b' = some i') (hz : b' = b.drop (i + 3) ++ z) :
    k.bodyCPUT = ({ k with w := .setStr (b ++ z), task := task' } : Worker).bodyCPUT := by
  have hfit := dotLine_length hi
  have hiz := Lib.firstIdx_append z hi
  have hdone : readBody dotLine (task'.length + 1) (b ++ z) task' = .ok (b ++ z, task') :=
    readBody_done hiz _ _
  have hdone' : readBody dotLine (task'.length + 1) b' task' = .ok (b', task') :=
    readBody_done hi' _ _
  have hcut : ∀ t : Str, substr t ((i : Int) + 3) = t.drop (i + 3) := by
    intro t
    rw [substr, if_pos (by decide), show ((i : Int) + 3).toNat = i + 3 by omega]
  have hcutz : (b ++ z).drop (i + 3) = b' := by
    rw [hz, List.drop_append_of_le_length (by omega)]
  have hfind : find b "OLD\r\n".toList = 0 := find_of_firstIdx (Lib.firstIdx_zero hhead)
  have hfindz : find (b ++ z) "OLD\r\n".toList = 0 :=
    find_of_firstIdx (Lib.firstIdx_zero (hhead.trans (List.prefix_append b z)))
  have hold : substr (b ++ z) ((0 : Int) + 5) ((i : Int) - (0 + 5) + 2)
      = substr b ((0 : Int) + 5) ((i : Int) - (0 + 5) + 2) := by
    have hfieldz := substr_field (b := b ++ z) (n := 5) (i := i) (by omega)
    have hfield := substr_field (b := b) (n := 5) (i := i) (by omega)
    refine hfieldz.trans (Eq.trans ?_ hfield.symm)
    rw [List.drop_append_of_le_length (by omega),
      List.take_append_of_le_length (by rw [List.length_drop]; omega)]
  simp only [Worker.bodyCPUT, hread, StringStream.setStr, hdone, find_of_firstIdx hi,
    find_of_firstIdx hiz, hcut, hcutz, hread', hdone', hfind, hfindz, hold, bind, Except.bind]

end Bodies

/-! ## The request and nothing else -/

section Request

variable {q : Request} {k k' : Worker} {y : Str} {reads : List Str}

theorem rest_cput (row col oldData newData : Str) : (Request.cput row col oldData newData).rest
    = dotted "OLD".toList oldData ++ dotted "NEW".toList newData := rfl

/-- A request that is its line alone. -/
theorem dispatch_line_alone (hq : q.WF) (hrest : q.rest = []) (hbehind : q.behind [] = .setStr [])
    (htask : k.task = []) (hw : k.w = .setStr []) :
    k.dispatch true q.line = .ok (.call q.call, { k with w := .setStr [], task := [] }) := by
  have hsame := dispatch_request hq [] k (by rw [hw, hrest]; rfl)
  rw [hsame, hbehind, ← htask]

theorem dispatch_put_brings {row col data : Str} (hq : (Request.put row col data).WF)
    (htask : k.task = reads.map .data) (hreads : '\x00' ∉ reads.flatten)
    (hcat : k.w.str ++ reads.flatten = (Request.put row col data).rest)
    (hbrings : Brings 1 k.w.str reads) : k.dispatch true (Request.put row col data).line
      = .ok (.call (.put row col data), { k with w := .setStr [], task := [] }) := by
  obtain ⟨b, rest, i, hf, hi, rfl⟩ := hbrings
  have hb := hf.flatten.trans hcat
  rw [List.flatten_nil, List.append_nil] at hb
  have hread := (readBody_fetched hreads).mpr ⟨[], rfl, hf⟩
  rw [← List.length_map (f := Read.data), ← htask] at hread
  have hsame := dispatch_request hq [] { k with w := .setStr b, task := [] } (by
    rw [hb, List.append_nil])
  rw [Worker.dispatch] at hsame ⊢
  simp only [(verb_header row col crlf).1, Request.line, if_true] at hsame ⊢
  rw [bodyPUT_fetched hread hi]
  exact hsame

theorem dispatch_cput_brings {row col oldData newData : Str}
    (hq : (Request.cput row col oldData newData).WF) (htask : k.task = reads.map .data)
    (hreads : '\x00' ∉ reads.flatten)
    (hcat : k.w.str ++ reads.flatten = (Request.cput row col oldData newData).rest)
    (hbrings : Brings 2 k.w.str reads) : k.dispatch true (Request.cput row col oldData newData).line
      = .ok (.call (.cput row col oldData newData), { k with w := .setStr [], task := [] }) := by
  obtain ⟨b, rest, i, hf, hi, b', rest', i', hf', hi', rfl⟩ := hbrings
  have hb := hf.flatten.trans hcat
  have hread := (readBody_fetched hreads).mpr ⟨rest, rfl, hf⟩
  have hread' := (readBody_fetched (hf.noNul hreads)).mpr ⟨[], rfl, hf'⟩
  rw [← List.length_map (f := Read.data), ← htask] at hread
  rw [← List.length_map (f := Read.data)] at hread'
  have hfit := dotLine_length hi
  -- the first dot line cannot start inside the heading `"OLD"`
  have hthree : 3 ≤ i := heading_le (a := "OLD".toList) (heading_noCr (by decide)) hb hi
  have hhead : "OLD\r\n".toList <+: b := by
    refine Lib.prefix_of_append_eq (z := rest.flatten)
      (w := oldData ++ ['.', '\r', '\n'] ++ dotted "NEW".toList newData) ?_ ?_
    · rw [hb, rest_cput]
      simp [dotted, crlf]
    · show 5 ≤ b.length
      omega
  have hb' := hf'.flatten
  rw [List.flatten_nil, List.append_nil] at hb'
  -- the same dispatch, had both bodies been in the stream from the start
  have hsame := dispatch_request hq [] { k with w := .setStr (b ++ rest.flatten), task := [] } (by
    rw [hb, List.append_nil])
  rw [Worker.dispatch] at hsame ⊢
  simp only [(verb_header row col crlf).2.1, Request.line] at hsame ⊢
  rw [bodyCPUT_fetched hread hi hhead hthree hread' hi' hb']
  exact hsame

/-- A well-formed request whose bodies the reads bring is dispatched as itself, and nothing
is left. -/
theorem dispatch_brings (hq : q.WF) (htask : k.task = reads.map .data)
    (hreads : '\x00' ∉ reads.flatten) (hcat : k.w.str ++ reads.flatten = q.rest)
    (hw : k.w = .setStr k.w.str) (hbrings : Brings q.bodies k.w.str reads) :
    k.dispatch true q.line = .ok (.call q.call, { k with w := .setStr [], task := [] }) := by
  cases q with
  | put row col data => exact dispatch_put_brings hq htask hreads hcat hbrings
  | cput row col oldData newData => exact dispatch_cput_brings hq htask hreads hcat hbrings
  | get row col =>
      obtain rfl : reads = [] := hbrings
      have hnil : k.w.str = [] := (List.append_eq_nil_iff.mp hcat).1
      exact dispatch_line_alone hq rfl rfl htask (hnil ▸ hw)
  | delete row col =>
      obtain rfl : reads = [] := hbrings
      have hnil : k.w.str = [] := (List.append_eq_nil_iff.mp hcat).1
      exact dispatch_line_alone hq rfl rfl htask (hnil ▸ hw)

/-- What is dispatched as the request had its bodies ended by their own dot lines. -/
theorem brings_of_dispatch (hr : Name q.row) (hc : Name q.col) (htask : k.task = reads.map .data)
    (hreads : '\x00' ∉ reads.flatten) (hne : ∀ r ∈ reads, r ≠ [])
    (hcat : k.w.str ++ reads.flatten = q.rest)
    (h : k.dispatch true q.line = .ok (.call q.call, k')) :
      q.WF ∧ Brings q.bodies k.w.str reads := by
  have hnone : ∀ {rest : List Str}, (∀ r ∈ rest, r ≠ []) → rest.flatten = [] → rest = [] := by
    intro rest hrest hnil
    cases rest with
    | nil => rfl
    | cons r rest =>
        exact absurd (List.flatten_eq_nil_iff.mp hnil r List.mem_cons_self)
          (hrest r List.mem_cons_self)
  have hleft : ∀ {s b : Str} {reads rest : List Str}, Fetched s reads b rest →
      (∀ r ∈ reads, r ≠ []) → ∀ r ∈ rest, r ≠ [] := by
    rintro s b reads rest ⟨-, ⟨-, rfl⟩ | ⟨-, g, rfl, -, -⟩⟩ hne r hr
    · exact hne r hr
    · exact hne r (List.mem_append_right g hr)
  cases q with
  | put row col data =>
      have hnames : Worker.parseCommand (header kwPUT row col crlf) = (row, col) :=
        parseCommand_name kwPUT (by decide) hr hc
      rw [Worker.dispatch, Request.line, hnames] at h
      simp only [(verb_header row col crlf).1, if_true] at h
      obtain ⟨⟨d, k1⟩, hbody, h⟩ := bind_ok h
      obtain rfl : d = data := by cases h; rfl
      obtain ⟨hd, rest, hf, hnil⟩ := bodyPUT_payload htask hreads hcat hbody
      obtain ⟨i, hi⟩ := Lib.firstIdx_isSome hf.1
      exact ⟨⟨hr, hc, hd⟩, _, rest, i, hf, hi, hnone (hleft hf hne) hnil⟩
  | cput row col oldData newData =>
      have hnames : Worker.parseCommand (header kwCPUT row col crlf) = (row, col) :=
        parseCommand_name kwCPUT (by decide) hr hc
      rw [Worker.dispatch, Request.line, hnames] at h
      simp only [(verb_header row col crlf).2.1] at h
      obtain ⟨⟨o, n, k1⟩, hbody, h⟩ := bind_ok h
      obtain ⟨rfl, rfl⟩ : o = oldData ∧ n = newData := by cases h; exact ⟨rfl, rfl⟩
      obtain ⟨ho, hn, b, rest, i, b', rest', hf, hi, hf', hnil⟩ :=
        bodyCPUT_payload htask hreads hcat hbody
      obtain ⟨i', hi'⟩ := Lib.firstIdx_isSome hf'.1
      exact ⟨⟨hr, hc, ho, hn⟩, b, rest, i, hf, hi, b', rest', i', hf', hi',
        hnone (hleft hf' (hleft hf hne)) hnil⟩
  | get row col => exact ⟨⟨hr, hc⟩, hnone hne (List.append_eq_nil_iff.mp hcat).2⟩
  | delete row col => exact ⟨⟨hr, hc⟩, hnone hne (List.append_eq_nil_iff.mp hcat).2⟩

theorem line_header (q : Request) : ∃ kw, ' ' ∉ kw ∧ '\r' ∉ kw ∧ '\x00' ∉ kw ∧
    q.line = header kw q.row q.col crlf := by
  cases q with
  | put row col data => exact ⟨kwPUT, by decide, by decide, by decide, rfl⟩
  | cput row col oldData newData => exact ⟨kwCPUT, by decide, by decide, by decide, rfl⟩
  | get row col => exact ⟨kwGET, by decide, by decide, by decide, rfl⟩
  | delete row col => exact ⟨kwDELETE, by decide, by decide, by decide, rfl⟩

theorem call_names (q : Request) : q.call.names = (q.row, q.col) := by cases q <;> rfl

/-- What a handler is called with has no zero byte. -/
theorem serves_noNul {ds : List Dispatch} (h : Serves true k ds) : ∀ {c : Call},
    '\x00' ∉ k.w.str → ds = [.call c] → ∀ s ∈ c.parts, '\x00' ∉ s := by
  induction h with
  | waits hstep =>
      intro c hk hds
      cases hds
  | reads hstep _ ih =>
      intro c hk hds
      exact ih (step_noNul hk hstep).1 hds
  | serves hstep _ _ =>
      intro c hk hds
      cases hds
      exact (step_noNul hk hstep).2 c rfl

/-- Then the request has none either. -/
theorem noNul_text (h : ∀ s ∈ q.call.parts, '\x00' ∉ s) : '\x00' ∉ q.text := by
  have hdata : '\x00' ∉ "DATA".toList ∧ '\x00' ∉ "OLD".toList ∧ '\x00' ∉ "NEW".toList := by decide
  obtain ⟨kw, -, -, hkw, hline⟩ := line_header q
  rw [Request.text, hline, header]
  cases q with
  | put row col data =>
      obtain ⟨hr, hc, hd⟩ := by simpa [Request.call, Call.parts] using h
      simp [Request.rest, Request.row, Request.col, crlf, hkw, hr, hc, hd]
  | cput row col oldData newData =>
      obtain ⟨hr, hc, ho, hn⟩ := by simpa [Request.call, Call.parts] using h
      simp [Request.rest, Request.row, Request.col, crlf, hkw, hr, hc, ho, hn]
  | get row col =>
      obtain ⟨hr, hc⟩ := by simpa [Request.call, Call.parts] using h
      simp [Request.rest, Request.row, Request.col, crlf, hkw, hr, hc]
  | delete row col =>
      obtain ⟨hr, hc⟩ := by simpa [Request.call, Call.parts] using h
      simp [Request.rest, Request.row, Request.col, crlf, hkw, hr, hc]

/-- A request that is dispatched as itself is well formed, and the cuts suit it. -/
theorem cut_of_serves (hcol : ¬ crlf <:+ q.col) (hcat : reads.flatten = q.text)
    (hne : ∀ r ∈ reads, r ≠ []) (hnul : '\x00' ∉ q.text)
    (hserves : Serves true (Worker.fresh reads) [.call q.call]) : q.WF ∧ Cut q reads := by
  -- nothing is in the stream, so the first step reads and the second dispatches
  obtain ⟨g, rest, rfl, hg, hrest, hserves⟩ :=
    hserves.next_read (fun h => absurd h (by decide : ¬ crlf <:+: [])) (hcat ▸ hnul) rfl
  have hstr : ((Worker.fresh (g ++ rest)).w.write g.flatten).str = g.flatten := by
    simp [Worker.fresh, StringStream.write]
  obtain ⟨l, y, k', hl, hly, hdis⟩ := hserves.next_line (hstr.symm ▸ hg.ends)
  replace hly : g.flatten = l ++ y := hstr.symm.trans hly
  obtain ⟨kw, hsp, hcr, -, hline⟩ := line_header q
  have htext : l ++ (y ++ rest.flatten) = q.line ++ q.rest := by
    rw [← List.append_assoc, ← hly, ← List.flatten_append]
    exact hcat
  -- the names dispatched are the request's, so its line holds no break before its end
  have hparse := ((dispatch_line hdis).2 _ rfl).symm.trans (call_names q)
  obtain ⟨hr, hc⟩ := names_of_parse hsp hcr hcol hl (hline ▸ htext) hparse
  have hown : IsLine q.line := hline ▸ isLine_header
    (fun hin => hcr (hin.subset (by simp [crlf]))) hr hc
  obtain rfl := line_unique hl hown htext
  obtain ⟨hwf, hbrings⟩ := brings_of_dispatch
    (k := { Worker.fresh (g ++ rest) with w := .setStr y, task := rest.map .data }) hr hc rfl
    hrest (fun r hr => hne r (List.mem_append_right g hr)) (List.append_cancel_left htext) hdis
  exact ⟨hwf, g, rest, y, rfl, hg, hly, hbrings⟩

/-- A well-formed request gets through if the cuts suit it. -/
theorem serves_of_cut (hwf : q.WF) (hcat : reads.flatten = q.text) (hnul : '\x00' ∉ q.text)
    (hcut : Cut q reads) : Serves true (Worker.fresh reads) [.call q.call] := by
  obtain ⟨g, rest, y, rfl, hg, hly, hbrings⟩ := hcut
  rw [← hcat, List.flatten_append, List.mem_append, not_or] at hnul
  have hread : doRead rlen ((g ++ rest).map .data) = .ok (g.flatten, rest.map .data) :=
    hg.read rest (by decide) hnul.1
  have hempty : ¬ crlf <:+: (Worker.fresh (g ++ rest)).w.str := by
    show ¬ crlf <:+: ([] : Str)
    decide
  have hfirst : (Worker.fresh (g ++ rest)).step true
      = .ok (none, .holding (StringStream.write {} g.flatten) (rest.map .data)) := by
    rw [Worker.step, extractCommand_none.mpr hempty]
    simp only [Worker.fresh, if_true, hread, cstr_eq hnul.1, bind, Except.bind, pure, Except.pure]
    rfl
  have hown : IsLine q.line := isLine_msg (m := .request q) ⟨rfl, hwf⟩
  have hstr : (StringStream.write {} g.flatten).str = q.line ++ y := by
    rw [← hly]
    simp [StringStream.write]
  have hrest : y ++ rest.flatten = q.rest := by
    rw [List.flatten_append, hly, Request.text, List.append_assoc] at hcat
    exact List.append_cancel_left hcat
  have hdis :=
    dispatch_brings (k := .holding (.setStr y) (rest.map .data)) hwf rfl hnul.2 hrest rfl hbrings
  -- the line comes out of the stream, and the dispatch takes the bodies behind it
  have hsecond : (Worker.holding (StringStream.write {} g.flatten) (rest.map .data)).step true
      = .ok (some (.call q.call), .holding (.setStr []) []) := by
    rw [Worker.step, extractCommand_line hown _ hstr]
    simp only [Worker.holding] at hdis ⊢
    simp only [hdis, bind, Except.bind, pure, Except.pure]
  have hlast : (Worker.holding (.setStr []) []).step true = .error .blocked := by decide +kernel
  exact .reads hfirst (.serves hsecond (.waits hlast))

/--
**Which requests get through.** However the bytes of a request are cut into reads,
the worker dispatches that request and nothing else exactly when its names and
data keep to the framing, it has no zero byte, and the cuts suit it.
-/
theorem requestServed_iff (q : Request) (hcol : ¬ crlf <:+ q.col) {reads : List Str}
    (hcat : reads.flatten = q.text) (hne : ∀ r ∈ reads, r ≠ []) :
    Serves true (Worker.fresh reads) [.call q.call] ↔ q.WF ∧ '\x00' ∉ q.text ∧ Cut q reads := by
  constructor
  · intro hserves
    have hnul : '\x00' ∉ q.text := noNul_text (serves_noNul hserves (by simp [Worker.fresh]) rfl)
    obtain ⟨hwf, hcut⟩ := cut_of_serves hcol hcat hne hnul hserves
    exact ⟨hwf, hnul, hcut⟩
  · rintro ⟨hwf, hnul, hcut⟩
    exact serves_of_cut hwf hcat hnul hcut

end Request

end PennCloud
