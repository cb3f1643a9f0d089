import PennCloud.Frontend.Cookies

/-!
# Reading a request

The constructor of `request` has one loop for everything. It looks for a CRLF from
where the last statement ended; in the header it reads on until there is one, behind
the blank line it takes what is there, or the next read, as a statement of its own.
The header tests come first in both cases: a piece of the body is treated as a
Cookie line if it begins like one, and dropped as a blank line if it is one. Which
pieces there are depends on how the bytes arrive: the rest of the read that had the
blank line, up to its first CRLF, and then each read.

A piece of the body that begins like a Cookie line and has a CRLF behind it is found
again in the next round, and in every other one.

`cookies` is the list of the assignments to the map.
-/

namespace PennCloud

open Str Lib

/-- The variables of the constructor and the request's attributes. -/
structure HttpReader where
  buffer : Str := []
  /-- Where the statement starts. -/
  start : Nat := 0
  /-- Where it ends. -/
  stop : Nat := 0
  /-- `line == 0`. -/
  first : Bool := true
  messageBody : Bool := false
  method : Str := []
  path : Str := []
  version : Str := []
  cookies : List (Str × Str) := []
  message : Str := []

/-- How a round ends. -/
inductive Round
  | again (s : HttpReader) (reads : List Str)
  | finished (s : HttpReader)
  /-- A copy overflows, or a token is missing. -/
  | crashed

/-- `strlen(copy) > 8 && string(copy).substr(0, 8) == "Cookie: "`. -/
def isCookie (copy : Str) : Bool := decide (8 < copy.length) && copy.take 8 == cookieField

namespace HttpReader

/-- `cookies[key] = value` for each pair of a Cookie line. -/
def assign (s : HttpReader) (as : List (Str × Str)) : HttpReader :=
  { s with cookies := s.cookies ++ as }

/-- The request line. -/
def requestLine (s : HttpReader) (copy : Str) (reads : List Str) : Round :=
  match strtok [' ', '\r'] copy with
  | none => .crashed
  | some (method, rest) => match strtok [' '] rest with
    | none => .crashed
    | some (path, rest) => match strtok [' '] rest with
      | none => .crashed
      | some (version, _) => .again { s with
          method := method
          path := path
          version := version.dropLast
          first := false } reads

/-- What is done with a statement. -/
def handle (s : HttpReader) (copy : Str) (reads : List Str) : Round :=
  if 4000000 ≤ copy.length then .crashed
  else if s.first then s.requestLine copy reads
  else if isCookie copy then match cookieLine copy with
    | none => .crashed
    | some as => .again (s.assign as) reads
  else if strcasecmp copy crlf then
    if strcasecmp s.method "get".toList then .finished s
    else .again { s with messageBody := true } reads
  else if s.messageBody then .again { s with
    message := s.message ++ s.buffer.drop s.start
    stop := s.buffer.length } reads
  else .again s reads

/-- From the end of the statement on, which in the header is in front of the CRLF. -/
def statement (s : HttpReader) (reads : List Str) : Round :=
  let stop := if s.messageBody then s.stop else s.stop + 2
  let copy := cstr ((s.buffer.take stop).drop s.start)
  ({ s with start := if s.messageBody then s.start else stop, stop := stop } : HttpReader).handle
    copy reads

/-- A round of the loop; `reads` is what the client has still to send. -/
def round (s : HttpReader) (reads : List Str) : Round :=
  match firstIdx crlf (s.buffer.drop s.stop) with
  | some i => ({ s with stop := s.stop + i } : HttpReader).statement reads
  | none =>
    if s.messageBody then
      if s.stop = s.buffer.length then
        match reads with
        | [] => .finished s
        | r :: reads => ({ s with
            buffer := s.buffer ++ r
            start := s.stop
            stop := (s.buffer ++ r).length } : HttpReader).statement reads
      else ({ s with start := s.stop, stop := s.buffer.length } : HttpReader).statement reads
    else match reads with
      | [] => .finished s
      | r :: reads => .again { s with buffer := s.buffer ++ r } reads

/-- The constructor, for a number of rounds. -/
def run : Nat → HttpReader → List Str → Option HttpReader
  | 0, _, _ => none
  | n + 1, s, reads => match s.round reads with
    | .again s reads => run n s reads
    | .finished s => some s
    | .crashed => none

/-- The loop comes to its end with the request `r`. -/
def Finishes (s : HttpReader) (reads : List Str) (r : HttpReader) : Prop :=
  ∃ n, s.run n reads = some r

end HttpReader

/-! ## The request that is sent -/

/-- What the Cookie line of a header assigns, if it is one. -/
def lineCookies (copy : Str) : Option (List (Str × Str)) :=
  if isCookie copy then cookieLine copy else some []

/-- What the lines of a header assign. -/
def headerCookies : List Str → Option (List (Str × Str))
  | [] => some []
  | h :: hs => (lineCookies (cstr (h ++ crlf))).bind fun as => (headerCookies hs).map (as ++ ·)

/-- Header lines and the blank line. -/
def headerText (hs : List Str) : Str := hs.flatMap (· ++ crlf) ++ crlf

/-- A POST request. -/
structure PostRequest where
  method : Str
  path : Str
  version : Str
  headers : List Str
  body : Str
  word : ∀ w ∈ [method, path, version], w ≠ [] ∧ ∀ c ∈ w, c ∉ [' ', '\r', '\n', '\x00']
  post : strcasecmp method "post".toList = true
  lines : ∀ h ∈ headers, h ≠ [] ∧ ¬ crlf <:+: h
  short : body.length < 4000000

namespace PostRequest

variable (q : PostRequest)

def requestLine : Str := q.method ++ ' ' :: (q.path ++ ' ' :: q.version)

/-- The request line, the header lines and the blank line. -/
def header : Str := q.requestLine ++ crlf ++ headerText q.headers

def bytes : Str := q.header ++ q.body

end PostRequest

/-- The bytes of a request as they arrive, a read at a time. -/
structure Arrival (bytes : Str) where
  reads : List Str
  whole : reads.flatten = bytes
  nonempty : ∀ r ∈ reads, r ≠ []

/-- What is left of the reads behind the first `n` bytes: of the read they end in, and the reads
after it. -/
def cutReads (n : Nat) (rest : Str) : List Str → Str × List Str
  | [] => (rest.drop n, [])
  | r :: reads =>
      if n ≤ rest.length then (rest.drop n, r :: reads) else cutReads n (rest ++ r) reads

/-- A text up to its first CRLF, or all of it. -/
def upToCrlf (s : Str) : Str := s.take ((firstIdx crlf s).getD s.length)

/-- A read that is neither like a Cookie line nor like a blank one. -/
def Plain (f : Str) : Prop := isCookie (cstr f) = false ∧ cstr f ≠ crlf

namespace PostRequest

variable (q : PostRequest)

/-- The request object is the one the request was for. -/
def Received (reads : List Str) : Prop :=
  ∃ r, HttpReader.Finishes {} reads r ∧ r.method = q.method ∧ r.path = q.path
    ∧ (∃ as, headerCookies q.headers = some as ∧ ∀ name, assigned r.cookies name = assigned as name)
    ∧ r.message = q.body

/-- The lines of the header fit the copies that are made of them, and Cookie lines the arrays. -/
def HeaderFits : Prop :=
  (∀ l ∈ q.requestLine :: q.headers, (cstr (l ++ crlf)).length < 4000000)
    ∧ (headerCookies q.headers).isSome

/-- No piece of the body is what a header line would be. -/
def Undisturbed (reads : List Str) : Prop :=
  isCookie (cstr (upToCrlf (cutReads q.header.length [] reads).1)) = false
    ∧ ∀ f ∈ (cutReads q.header.length [] reads).2, Plain f

end PostRequest

/-! ## Rounds -/

/-- The loop comes to its end from a round on. -/
def Round.Finishes : Round → HttpReader → Prop
  | .again s reads, r => s.Finishes reads r
  | .finished s, r => s = r
  | .crashed, _ => False

namespace HttpReader

theorem finishes_iff (s : HttpReader) (reads : List Str) (r : HttpReader) :
    s.Finishes reads r ↔ (s.round reads).Finishes r := by
  constructor
  · rintro ⟨n, hn⟩
    cases n with
    | zero => cases hn
    | succ n =>
        rw [run] at hn
        cases hround : s.round reads with
        | again s' reads' =>
            rw [hround] at hn
            exact ⟨n, hn⟩
        | finished s' =>
            rw [hround] at hn
            exact Option.some.inj hn
        | crashed =>
            rw [hround] at hn
            cases hn
  · intro h
    cases hround : s.round reads with
    | again s' reads' =>
        rw [hround] at h
        obtain ⟨n, hn⟩ := h
        exact ⟨n + 1, by rw [run, hround]; exact hn⟩
    | finished s' =>
        rw [hround] at h
        exact ⟨1, by rw [run, hround]; exact congrArg some h⟩
    | crashed =>
        rw [hround] at h
        exact h.elim

theorem run_succ {n : Nat} {s r : HttpReader} {reads : List Str} (h : s.run n reads = some r) :
    s.run (n + 1) reads = some r := by
  induction n generalizing s reads with
  | zero => cases h
  | succ n ih =>
      rw [run] at h ⊢
      cases hround : s.round reads with
      | again s' reads' =>
          rw [hround] at h
          exact ih h
      | finished s' =>
          rw [hround] at h
          exact h
      | crashed =>
          rw [hround] at h
          cases h

/-- However many rounds it is given, the loop has one result. -/
theorem finishes_unique {s r r' : HttpReader} {reads : List Str} (h : s.Finishes reads r)
    (h' : s.Finishes reads r') : r = r' := by
  obtain ⟨n, hn⟩ := h
  obtain ⟨m, hm⟩ := h'
  have hmono : ∀ {i : Nat} {t : HttpReader} (k : Nat), s.run i reads = some t →
    s.run (i + k) reads = some t := by
    intro i t k hi
    induction k with
    | zero => exact hi
    | succ k ih => exact run_succ ih
  have hboth := hmono m hn
  rw [Nat.add_comm, hmono n hm] at hboth
  exact (Option.some.inj hboth).symm

/-- In the header the buffer is read up to a position, and what is behind it is waiting. -/
structure InHeader (s : HttpReader) (done rest : Str) : Prop where
  buffer : s.buffer = done ++ rest
  start : s.start = done.length
  stop : s.stop = done.length
  body : s.messageBody = false

/-- The state behind a line of the header. -/
def past (s : HttpReader) (done rest : Str) : HttpReader :=
  { s with buffer := done ++ rest, start := done.length, stop := done.length }

/-- A line that is in the buffer whole. -/
theorem round_line {s : HttpReader} {done l rest : Str} (reads : List Str)
    (h : InHeader s done (l ++ crlf ++ rest)) (hl : ¬ crlf <:+: l) :
    s.round reads = (s.past (done ++ (l ++ crlf)) rest).handle (cstr (l ++ crlf)) reads := by
  obtain ⟨buffer, start, stop, first, messageBody, method, path, version, cookies, message⟩ := s
  obtain ⟨hbuffer, hstart, hstop, hbody⟩ := h
  obtain rfl : buffer = done ++ (l ++ crlf ++ rest) := hbuffer
  obtain rfl : start = done.length := hstart
  obtain rfl : stop = done.length := hstop
  obtain rfl : messageBody = false := hbody
  have hend : done.length + l.length + 2 = (done ++ (l ++ crlf)).length := by
    simp [crlf, Nat.add_assoc]
  have hbuf : done ++ (l ++ crlf ++ rest) = done ++ (l ++ crlf) ++ rest :=
    (List.append_assoc ..).symm
  have hreceive : ((done ++ (l ++ crlf) ++ rest).take (done ++ (l ++ crlf)).length).drop done.length
      = l ++ crlf := by
    rw [List.take_left, List.drop_left]
  have hfirst : firstIdx crlf (List.drop done.length (done ++ (l ++ crlf ++ rest)))
    = some l.length := by
    rw [List.drop_left]
    exact firstIdx_pair (by decide) rest hl
  unfold round
  simp only [hfirst, statement, Bool.false_eq_true, if_false, hend]
  rw [hbuf, hreceive]
  rfl

end HttpReader

/-! ## What is left of the reads -/

theorem cutReads_of_le {n : Nat} {rest : Str} (h : n ≤ rest.length) (reads : List Str) :
    cutReads n rest reads = (rest.drop n, reads) := by
  cases reads with
  | nil => rfl
  | cons r reads => rw [cutReads, if_pos h]

theorem cutReads_add (m n : Nat) (rest : Str) (reads : List Str) :
    cutReads (m + n) rest reads
      = cutReads n (cutReads m rest reads).1 (cutReads m rest reads).2 := by
  induction reads generalizing rest with
  | nil => rw [cutReads, cutReads, cutReads, List.drop_drop]
  | cons r reads ih =>
      by_cases hm : m ≤ rest.length
      · rw [cutReads_of_le hm]
        by_cases hmn : m + n ≤ rest.length
        · rw [cutReads_of_le hmn, cutReads_of_le (by rw [List.length_drop]; omega), List.drop_drop]
        · have hlong : m ≤ (rest ++ r).length := by rw [List.length_append]; omega
          rw [cutReads, if_neg hmn, ih, cutReads_of_le hlong, List.drop_append_of_le_length hm,
            cutReads, if_neg (by rw [List.length_drop]; omega)]
      · rw [cutReads, if_neg (by omega), ih, cutReads, if_neg hm]

theorem cutReads_flatten (n : Nat) (rest : Str) (reads : List Str) :
    (cutReads n rest reads).1 ++ (cutReads n rest reads).2.flatten
      = (rest ++ reads.flatten).drop n := by
  induction reads generalizing rest with
  | nil => simp [cutReads]
  | cons r reads ih =>
      by_cases hn : n ≤ rest.length
      · rw [cutReads_of_le hn, List.drop_append_of_le_length hn]
      · rw [cutReads, if_neg hn, ih, List.flatten_cons, List.append_assoc]

theorem mem_cutReads {n : Nat} {rest : Str} {reads : List Str} {f : Str}
    (h : f ∈ (cutReads n rest reads).2) : f ∈ reads := by
  induction reads generalizing rest with
  | nil => cases h
  | cons r reads ih =>
      rw [cutReads] at h
      split at h
      · exact h
      · exact List.mem_cons_of_mem _ (ih h)

namespace HttpReader

/-! ## The header -/

/-- A line of the header is read to its end, however many reads that takes. -/
theorem header_line {s : HttpReader} {done rest l more : Str} {reads : List Str} {r : HttpReader}
    (h : InHeader s done rest) (hl : ¬ crlf <:+: l)
    (hstream : rest ++ reads.flatten = l ++ crlf ++ more) :
    s.Finishes reads r ↔
      ((s.past (done ++ (l ++ crlf)) (cutReads (l ++ crlf).length rest reads).1).handle
        (cstr (l ++ crlf))
        (cutReads (l ++ crlf).length rest reads).2).Finishes r := by
  induction reads generalizing s rest with
  | nil =>
      rw [List.flatten_nil, List.append_nil] at hstream
      subst hstream
      rw [finishes_iff, round_line [] h hl, cutReads_of_le (by simp), List.drop_left]
  | cons x reads ih =>
      by_cases hle : (l ++ crlf).length ≤ rest.length
      · -- the line is there
        obtain ⟨t, rfl⟩ : l ++ crlf <+: rest :=
          prefix_of_append_eq hstream.symm hle
        rw [finishes_iff, round_line _ h hl, cutReads_of_le (by simp), List.drop_left]
      · -- one more read
        have hnone : firstIdx crlf rest = none := by
          rw [firstIdx_eq_none]
          refine not_infix_front (firstIdx_pair (by decide) more hl) ⟨_, hstream⟩ ?_
          rw [List.length_append] at hle
          simpa [crlf] using hle
        have hround : s.round (x :: reads) = .again { s with buffer := s.buffer ++ x } reads := by
          rw [round, h.buffer, h.stop, List.drop_left]
          simp only [hnone, h.body, Bool.false_eq_true, if_false]
        have hnext : InHeader { s with buffer := s.buffer ++ x } done (rest ++ x) :=
          ⟨by rw [h.buffer, List.append_assoc], h.start, h.stop, h.body⟩
        rw [List.flatten_cons, ← List.append_assoc] at hstream
        rw [finishes_iff, hround, cutReads, if_neg hle]
        exact ih hnext hstream

theorem strcasecmp_crlf {copy : Str} (h : '\x00' ∉ copy) :
    strcasecmp copy crlf = true ↔ copy = crlf := by
  rw [strcasecmp, cstr_eq h, beq_iff_eq]
  constructor
  · intro hmap
    match copy, hmap with
    | [a, b], hmap =>
        obtain ⟨ha, hb⟩ : a.toLower = '\r' ∧ b.toLower = '\n' := by simpa [crlf] using hmap
        rw [toLower_eq_of_lt (by decide) ha, toLower_eq_of_lt (by decide) hb, crlf]
    | [], hmap => exact absurd (congrArg List.length hmap) (by simp [crlf])
    | [_], hmap => exact absurd (congrArg List.length hmap) (by simp [crlf])
    | _ :: _ :: _ :: _, hmap => exact absurd (congrArg List.length hmap) (by simp [crlf])
  · rintro rfl
    rfl

theorem assign_nil (s : HttpReader) : s.assign [] = s := by
  rw [assign, List.append_nil]

theorem handle_first {s : HttpReader} {copy : Str} {reads : List Str} (hfirst : s.first = true)
    (hlen : ¬ 4000000 ≤ copy.length) : s.handle copy reads = s.requestLine copy reads := by
  rw [handle, if_neg hlen, if_pos hfirst]

/-- A line that is neither the first nor blank. -/
theorem handle_header {s : HttpReader} {copy : Str} {reads : List Str} {r : HttpReader}
    (hfirst : s.first = false) (hbody : s.messageBody = false) (hnul : '\x00' ∉ copy)
    (hblank : copy ≠ crlf) :
    (s.handle copy reads).Finishes r ↔ copy.length < 4000000
      ∧ ∃ as, lineCookies copy = some as
        ∧ (s.assign as).Finishes reads r := by
  have hcmp : strcasecmp copy crlf = false := by
    rw [← Bool.not_eq_true, strcasecmp_crlf hnul]
    exact hblank
  have hf : ¬ s.first = true := by rw [hfirst]; exact Bool.false_ne_true
  have hb : ¬ s.messageBody = true := by rw [hbody]; exact Bool.false_ne_true
  rw [handle]
  by_cases hlen : 4000000 ≤ copy.length
  · rw [if_pos hlen]
    exact ⟨False.elim, fun h => absurd h.1 (Nat.not_lt.mpr hlen)⟩
  rw [if_neg hlen, if_neg hf, lineCookies, and_iff_right (Nat.not_le.mp hlen)]
  by_cases hcookie : isCookie copy = true
  · rw [if_pos hcookie, if_pos hcookie]
    cases cookieLine copy with
    | none => simp [Round.Finishes]
    | some as => simp [Round.Finishes]
  · rw [if_neg hcookie, if_neg hcookie, hcmp, if_neg Bool.false_ne_true, if_neg hb]
    simp [Round.Finishes, assign_nil]

/-- The blank line. -/
theorem handle_blank {s : HttpReader} {reads : List Str} {r : HttpReader} (hfirst : s.first = false)
    (hmethod : strcasecmp s.method "get".toList = false) :
    (s.handle crlf reads).Finishes r ↔
    ({ s with messageBody := true } : HttpReader).Finishes reads r := by
  have hf : ¬ s.first = true := by rw [hfirst]; exact Bool.false_ne_true
  have hlen : ¬ 4000000 ≤ crlf.length := by decide
  have hcookie : ¬ isCookie crlf = true := by decide
  have hblank : strcasecmp crlf crlf = true := by decide
  rw [handle, if_neg hlen, if_neg hf, if_neg hcookie, if_pos hblank, hmethod,
    if_neg Bool.false_ne_true]
  rfl

/-- The state in which the body is waited for. -/
def atBody (s : HttpReader) (done rest : Str) (as : List (Str × Str)) : HttpReader :=
  { (s.past done rest).assign as with messageBody := true }

/-- A line's C string is not the blank line's. -/
theorem cstr_ne_crlf {l : Str} (hne : l ≠ []) (hl : ¬ crlf <:+: l) : cstr (l ++ crlf) ≠ crlf := by
  intro h
  have hpre : cstr (l ++ crlf) <+: l ++ crlf := List.takeWhile_prefix _
  rw [h] at hpre
  obtain ⟨t, ht⟩ := hpre
  have hzero : firstIdx crlf (l ++ crlf) = some 0 := firstIdx_zero ⟨t, ht⟩
  have hend : firstIdx crlf (l ++ crlf ++ []) = some l.length := firstIdx_pair (by decide) [] hl
  rw [List.append_nil, hzero] at hend
  exact hne (List.length_eq_zero_iff.mp (Option.some.inj hend).symm)

theorem headerText_cons (l : Str) (hs : List Str) :
    headerText (l :: hs) = l ++ crlf ++ headerText hs := by
  rw [headerText, headerText, List.flatMap_cons, List.append_assoc]

/-- Lines that have been read are of no account any more but for what they assign. -/
theorem past_atBody (s : HttpReader) (done rest done' rest' : Str) (as as' : List (Str × Str)) :
    ((s.past done rest).assign as).atBody done' rest' as' = s.atBody done' rest' (as ++ as') := by
  simp only [atBody, assign, past, List.append_assoc]

/-- **The header lines and the blank one**, from behind the request line. -/
theorem headers_run {hs : List Str} (hhs : ∀ h ∈ hs, h ≠ [] ∧ ¬ crlf <:+: h) {s : HttpReader}
    {done rest body : Str} {reads : List Str} {r : HttpReader} (h : InHeader s done rest)
    (hfirst : s.first = false) (hmethod : strcasecmp s.method "get".toList = false)
    (hstream : rest ++ reads.flatten = headerText hs ++ body) :
    s.Finishes reads r ↔ (∀ h ∈ hs, (cstr (h ++ crlf)).length < 4000000)
      ∧ ∃ as, headerCookies hs = some as
        ∧ (s.atBody (done ++ headerText hs)
          (cutReads (headerText hs).length rest reads).1 as).Finishes
          (cutReads (headerText hs).length rest reads).2 r := by
  induction hs generalizing s done rest reads with
  | nil =>
      have hblank := header_line (l := []) h (by decide) hstream (r := r)
      simp only [List.nil_append] at hblank
      rw [hblank]
      show ((s.past (done ++ crlf) _).handle crlf _).Finishes r ↔ _
      rw [handle_blank (s := s.past _ _) hfirst hmethod]
      simp [headerCookies, atBody, assign_nil, headerText]
  | cons l hs ih =>
      obtain ⟨⟨hne, hl⟩, hrest⟩ := List.forall_mem_cons.mp hhs
      rw [headerText_cons, List.append_assoc] at hstream
      have hline := header_line h hl hstream (r := r)
      have hcut := cutReads_flatten (l ++ crlf).length rest reads
      rw [hstream, List.drop_left] at hcut
      have hlen : (headerText (l :: hs)).length = (l ++ crlf).length + (headerText hs).length := by
        rw [headerText_cons, List.length_append]
      rw [hline, handle_header (s := s.past _ _) hfirst h.body (cstr_noNul _) (cstr_ne_crlf hne hl),
        List.forall_mem_cons, headerCookies, hlen, cutReads_add]
      cases lineCookies (cstr (l ++ crlf)) with
      | none => simp
      | some as =>
          have hnext := ih hrest (s := (s.past (done ++ (l ++ crlf))
            (cutReads (l ++ crlf).length rest reads).1).assign as) ⟨rfl, rfl, rfl, h.body⟩ hfirst
            hmethod hcut
          simp only [Option.some.injEq, exists_eq_left', Option.bind_some]
          rw [hnext, headerText_cons]
          cases headerCookies hs with
          | none => simp
          | some as' => simp [past_atBody, and_assoc]

end HttpReader

namespace PostRequest

variable (q : PostRequest)

/-- The state behind the request line. -/
def opened (rest : Str) : HttpReader :=
  { HttpReader.past {} (q.requestLine ++ crlf) rest with
    first := false
    method := q.method
    path := q.path
    version := (q.version ++ crlf).dropLast }

theorem notMem_word {w : Str} (hw : w ∈ [q.method, q.path, q.version]) {c : Char}
    (hc : c ∈ [' ', '\r', '\n', '\x00']) : c ∉ w := fun hm => (q.word w hw).2 c hm hc

theorem notMem_requestLine {c : Char} (hc : c ∈ ['\r', '\n', '\x00']) : c ∉ q.requestLine := by
  have hblank : c ≠ ' ' := by
    rintro rfl
    exact absurd hc (by decide)
  have hmem : c ∈ [' ', '\r', '\n', '\x00'] := List.mem_cons_of_mem _ hc
  have hm := q.notMem_word (w := q.method) (by simp) hmem
  have hp := q.notMem_word (w := q.path) (by simp) hmem
  have hv := q.notMem_word (w := q.version) (by simp) hmem
  simp [requestLine, hm, hp, hv, hblank]

/-- The three words of the request line. -/
theorem requestLine_words (s : HttpReader) (reads : List Str) :
    s.requestLine (q.requestLine ++ crlf) reads = .again { s with
      first := false
      method := q.method
      path := q.path
      version := (q.version ++ crlf).dropLast } reads := by
  have hm := q.word q.method (by simp)
  have hp := q.word q.path (by simp)
  have hv := q.word q.version (by simp)
  have htext : q.requestLine ++ crlf = q.method ++ ' '
    :: (q.path ++ ' ' :: (q.version ++ crlf)) := by
    simp [requestLine]
  have hfirst : strtok [' ', '\r'] (q.requestLine ++ crlf)
      = some (q.method, q.path ++ ' ' :: (q.version ++ crlf)) := by
    rw [htext]
    refine strtok_token hm.1 (fun c hc hd => hm.2 c hc ?_) (by decide) _
    simp only [List.mem_cons, List.not_mem_nil, or_false] at hd ⊢
    exact hd.elim Or.inl fun h => Or.inr (Or.inl h)
  have hsecond : strtok [' '] (q.path ++ ' ' :: (q.version ++ crlf))
      = some (q.path, q.version ++ crlf) :=
    strtok_token hp.1 (fun c hc hd => hp.2 c hc (by simp [List.mem_singleton.mp hd])) (by decide) _
  have hthird : strtok [' '] (q.version ++ crlf) = some (q.version ++ crlf, []) := by
    refine strtok_all (by simp [hv.1]) fun c hc hd => ?_
    obtain rfl := List.mem_singleton.mp hd
    rcases List.mem_append.mp hc with hc | hc
    · exact hv.2 _ hc (by decide)
    · exact absurd hc (by decide)
  rw [HttpReader.requestLine, hfirst]
  simp only [hsecond, hthird]

/-- **The request line**, however many reads it takes. -/
theorem requestLine_run {reads : List Str} {more : Str} {r : HttpReader}
    (hstream : reads.flatten = q.requestLine ++ crlf ++ more) :
    HttpReader.Finishes {} reads r ↔ (cstr (q.requestLine ++ crlf)).length < 4000000
      ∧ (q.opened (cutReads (q.requestLine ++ crlf).length [] reads).1).Finishes
          (cutReads (q.requestLine ++ crlf).length [] reads).2 r := by
  have hline : ¬ crlf <:+: q.requestLine := fun h =>
    q.notMem_requestLine (c := '\r') (by decide) (h.subset (by decide))
  have hnul : '\x00' ∉ q.requestLine ++ crlf := by
    have hfree := q.notMem_requestLine (c := '\x00') (by decide)
    simp [hfree, crlf]
  have hin : HttpReader.InHeader {} [] [] := ⟨rfl, rfl, rfl, rfl⟩
  rw [HttpReader.header_line hin hline hstream,
    List.nil_append, cstr_eq hnul]
  by_cases hlen : 4000000 ≤ (q.requestLine ++ crlf).length
  · rw [HttpReader.handle, if_pos hlen]
    exact ⟨False.elim, fun h => absurd h.1 (Nat.not_lt.mpr hlen)⟩
  · rw [HttpReader.handle_first rfl hlen, requestLine_words, and_iff_right (Nat.not_le.mp hlen)]
    rfl

end PostRequest

namespace HttpReader

/-! ## The body -/

/-- Everything that has been read has been looked at, and the body goes on. -/
structure Waiting (s : HttpReader) : Prop where
  first : s.first = false
  body : s.messageBody = true
  method : strcasecmp s.method "get".toList = false
  stop : s.stop = s.buffer.length

/-- The statement is added to the message. -/
def collect (s : HttpReader) : HttpReader :=
  { s with message := s.message ++ s.buffer.drop s.start, stop := s.buffer.length }

section Handle

variable {s : HttpReader} {copy : Str} (reads : List Str) (hfirst : s.first = false)
  (hbody : s.messageBody = true) (hmethod : strcasecmp s.method "get".toList = false)
  (hlen : copy.length < 4000000)

include hfirst in
theorem handle_isCookie (hcookie : isCookie copy = true) :
    s.handle copy reads = .crashed ∨ ∃ as, s.handle copy reads = .again (s.assign as) reads := by
  have hf : ¬ s.first = true := by rw [hfirst]; exact Bool.false_ne_true
  rw [handle, if_neg hf, if_pos hcookie]
  split
  · exact Or.inl rfl
  · cases cookieLine copy with
    | none => exact Or.inl rfl
    | some as => exact Or.inr ⟨as, rfl⟩

include hfirst hlen in
theorem handle_cookie (hcookie : isCookie copy = true) (r : HttpReader) :
    (s.handle copy reads).Finishes r
      ↔ ∃ as, cookieLine copy = some as ∧ (s.assign as).Finishes reads r := by
  have hf : ¬ s.first = true := by rw [hfirst]; exact Bool.false_ne_true
  rw [handle, if_neg (Nat.not_le.mpr hlen), if_neg hf, if_pos hcookie]
  cases cookieLine copy with
  | none => simp [Round.Finishes]
  | some as => simp [Round.Finishes]

include hfirst hbody hmethod in
theorem handle_crlf (r : HttpReader) : (s.handle crlf reads).Finishes r ↔ s.Finishes reads r := by
  rw [handle_blank hfirst hmethod, ← hbody]

include hfirst hbody hlen in
theorem handle_piece (hcookie : isCookie copy = false) (hnul : '\x00' ∉ copy)
    (hblank : copy ≠ crlf) :
    s.handle copy reads = .again s.collect reads := by
  have hf : ¬ s.first = true := by rw [hfirst]; exact Bool.false_ne_true
  have hcmp : ¬ strcasecmp copy crlf = true := by
    rw [strcasecmp_crlf hnul]
    exact hblank
  rw [handle, if_neg (Nat.not_le.mpr hlen), if_neg hf, if_neg (Bool.eq_false_iff.mp hcookie),
    if_neg hcmp, if_pos hbody]
  rfl

end Handle

/-- A read in the body is a statement of its own. -/
def fetch (s : HttpReader) (f : Str) : HttpReader :=
  { s with buffer := s.buffer ++ f, start := s.buffer.length, stop := (s.buffer ++ f).length }

theorem round_fetch {s : HttpReader} (h : Waiting s) (f : Str) (fs : List Str) :
    s.round (f :: fs) = (s.fetch f).handle (cstr f) fs := by
  have hnone : firstIdx crlf (s.buffer.drop s.buffer.length) = none := by
    rw [List.drop_length]
    rfl
  unfold round
  rw [h.stop, hnone]
  simp only [h.body, if_true, statement, List.take_length, List.drop_left]
  rw [← h.body]
  rfl

theorem round_end {s : HttpReader} (h : Waiting s) : s.round [] = .finished s := by
  have hnone : firstIdx crlf (s.buffer.drop s.buffer.length) = none := by
    rw [List.drop_length]
    rfl
  unfold round
  rw [h.stop, hnone]
  simp only [h.body, if_true]

/-- What a read of the body comes to. -/
theorem waiting_cases {s : HttpReader} (h : Waiting s) {f : Str} (hlen : f.length < 4000000)
    (fs : List Str) :
    (Plain f ∧ ∃ w, Waiting w ∧ w.method = s.method ∧ w.path = s.path ∧ w.cookies = s.cookies
        ∧ w.message = s.message ++ f ∧ ∀ r, s.Finishes (f :: fs) r ↔ w.Finishes fs r)
      ∨ (¬ Plain f ∧ ∀ r, s.Finishes (f :: fs) r →
        ∃ w, Waiting w ∧ w.message = s.message ∧ w.Finishes fs r) := by
  have hcopy : (cstr f).length < 4000000 :=
    Nat.lt_of_le_of_lt (List.takeWhile_prefix _).length_le hlen
  have hfetch : Waiting (s.fetch f) := ⟨h.first, h.body, h.method, rfl⟩
  simp only [finishes_iff s, round_fetch h]
  cases hcookie : isCookie (cstr f) with
  | true =>
      refine Or.inr ⟨fun hplain => absurd hplain.1 (by rw [hcookie]; decide), fun r hfin => ?_⟩
      obtain ⟨as, -, hfin⟩ := (handle_cookie (s := s.fetch f) fs h.first hcopy hcookie r).mp hfin
      exact ⟨(s.fetch f).assign as, ⟨h.first, h.body, h.method, rfl⟩, rfl, hfin⟩
  | false =>
      by_cases hblank : cstr f = crlf
      · refine Or.inr ⟨fun hplain => hplain.2 hblank, fun r hfin => ?_⟩
        rw [hblank, handle_crlf (s := s.fetch f) fs h.first h.body h.method] at hfin
        exact ⟨s.fetch f, hfetch, rfl, hfin⟩
      · refine Or.inl ⟨⟨hcookie, hblank⟩, (s.fetch f).collect,
          ⟨h.first, h.body, h.method, rfl⟩, rfl, rfl, rfl, ?_, fun r => ?_⟩
        · show s.message ++ (s.buffer ++ f).drop s.buffer.length = _
          rw [List.drop_left]
        · rw [handle_piece (s := s.fetch f) fs h.first h.body hcopy hcookie (cstr_noNul _) hblank]
          rfl

/-- Reads that are plain are the message. -/
theorem waiting_plain {fs : List Str} (hplain : ∀ f ∈ fs, Plain f)
    (hlen : ∀ f ∈ fs, f.length < 4000000)
    {s : HttpReader} (h : Waiting s) :
    ∃ r, s.Finishes fs r ∧ r.method = s.method ∧ r.path = s.path ∧ r.cookies = s.cookies
      ∧ r.message = s.message ++ fs.flatten := by
  induction fs generalizing s with
  | nil =>
      refine ⟨s, (finishes_iff s [] s).mpr ?_, rfl, rfl, rfl, by simp⟩
      rw [round_end h]
      rfl
  | cons f fs ih =>
      obtain ⟨hf, hfs⟩ := List.forall_mem_cons.mp hplain
      obtain ⟨hlenf, hlenfs⟩ := List.forall_mem_cons.mp hlen
      obtain ⟨-, w, hw, hmethod, hpath, hcookies, hmessage, hstep⟩ :=
        (waiting_cases h hlenf fs).resolve_right fun hno => hno.1 hf
      obtain ⟨r, hr, hrmethod, hrpath, hrcookies, hrmessage⟩ := ih hfs hlenfs hw
      refine ⟨r, (hstep r).mpr hr, hrmethod.trans hmethod, hrpath.trans hpath,
        hrcookies.trans hcookies, ?_⟩
      rw [hrmessage, hmessage, List.flatten_cons, List.append_assoc]

/-- The message never gets more than what is read, and gets it all only from plain reads. -/
theorem waiting_bound {fs : List Str} (hlen : ∀ f ∈ fs, f.length < 4000000) (hne : ∀ f ∈ fs, f ≠ [])
    {s r : HttpReader} (h : Waiting s) (hfin : s.Finishes fs r) :
    r.message.length ≤ s.message.length + fs.flatten.length
      ∧ (s.message.length + fs.flatten.length ≤ r.message.length → ∀ f ∈ fs, Plain f) := by
  induction fs generalizing s with
  | nil =>
      rw [finishes_iff, round_end h] at hfin
      obtain rfl : s = r := hfin
      exact ⟨Nat.le_refl _, fun _ f hf => absurd hf List.not_mem_nil⟩
  | cons f fs ih =>
      obtain ⟨hnef, hnefs⟩ := List.forall_mem_cons.mp hne
      obtain ⟨hlenf, hlenfs⟩ := List.forall_mem_cons.mp hlen
      have hpos : 0 < f.length := List.length_pos_iff.mpr hnef
      rw [List.flatten_cons, List.length_append]
      rcases waiting_cases h hlenf fs with ⟨hf, w, hw, -, -, -, hmessage, hstep⟩ | ⟨-, hstep⟩
      · obtain ⟨hle, hall⟩ := ih hlenfs hnefs hw ((hstep r).mp hfin)
        rw [hmessage, List.length_append] at hle hall
        exact ⟨by omega, fun hge => List.forall_mem_cons.mpr ⟨hf, hall (by omega)⟩⟩
      · -- the read is lost
        obtain ⟨w, hw, hmessage, hfin⟩ := hstep r hfin
        have hle := (ih hlenfs hnefs hw hfin).1
        rw [hmessage] at hle
        exact ⟨by omega, fun hge => absurd hge (by omega)⟩

/-- Behind the blank line, with what has come with it. -/
structure Opening (s : HttpReader) (done rest : Str) : Prop where
  first : s.first = false
  body : s.messageBody = true
  method : strcasecmp s.method "get".toList = false
  buffer : s.buffer = done ++ rest
  start : s.start = done.length
  stop : s.stop = done.length

/-- The first piece of the body ends in front of its first CRLF. -/
theorem round_opening {s : HttpReader} {done rest : Str} (h : Opening s done rest) (hne : rest ≠ [])
    (reads : List Str) :
    s.round reads = ({ s with stop := done.length + (upToCrlf rest).length } : HttpReader).handle
      (cstr (upToCrlf rest)) reads := by
  obtain ⟨buffer, start, stop, first, messageBody, method, path, version, cookies, message⟩ := s
  obtain ⟨hfirst, hbody, hmethod, hbuffer, hstart, hstop⟩ := h
  obtain rfl : buffer = done ++ rest := hbuffer
  obtain rfl : start = done.length := hstart
  obtain rfl : stop = done.length := hstop
  obtain rfl : messageBody = true := hbody
  unfold round
  rw [List.drop_left]
  cases hfirst : firstIdx crlf rest with
  | none =>
      have hup : upToCrlf rest = rest := by
        rw [upToCrlf, hfirst, Option.getD_none, List.take_length]
      have hlen : ¬ done.length = (done ++ rest).length := by
        have hpos := List.length_pos_iff.mpr hne
        rw [List.length_append]
        omega
      simp only [if_true, if_neg hlen, statement, List.take_length, List.drop_left, hup,
        ← List.length_append]
  | some i =>
      obtain ⟨a, b, hab, ha⟩ := firstIdx_split hfirst
      have hup : upToCrlf rest = a := by
        rw [upToCrlf, hfirst, Option.getD_some, hab, List.append_assoc, ← ha, List.take_left]
      have hreceive : ((done ++ rest).take (done.length + i)).drop done.length = a := by
        rw [List.take_length_add_append, List.drop_left, hab, List.append_assoc,
          ← ha, List.take_left]
      simp only [if_true, statement, hreceive, hup, ha]

theorem upToCrlf_noCrlf (s : Str) : ¬ crlf <:+: upToCrlf s := by
  rw [upToCrlf]
  cases h : firstIdx crlf s with
  | none =>
      rw [Option.getD_none, List.take_length]
      exact firstIdx_eq_none.mp h
  | some i =>
      refine not_infix_front h (List.take_prefix _ _) ?_
      rw [Option.getD_some, List.length_take, crlf, List.length_cons]
      omega

/-- A loop that finds the same Cookie line again. -/
structure Stuck (s : HttpReader) : Prop where
  first : s.first = false
  body : s.messageBody = true
  cookie : ∃ i, firstIdx crlf (s.buffer.drop s.stop) = some i
    ∧ isCookie (cstr ((s.buffer.take (s.stop + i)).drop s.start)) = true

theorem stuck_run (n : Nat) {s : HttpReader} (h : Stuck s) (reads : List Str) :
    s.run n reads = none := by
  induction n generalizing s with
  | zero => rfl
  | succ n ih =>
      obtain ⟨hfirst, hbody, i, hi, hcookie⟩ := h
      have hround : s.round reads = ({ s with stop := s.stop + i } : HttpReader).handle
          (cstr ((s.buffer.take (s.stop + i)).drop s.start)) reads := by
        unfold round
        rw [hi]
        simp only [statement, hbody, if_true]
      rw [run, hround]
      rcases handle_isCookie (s := { s with stop := s.stop + i }) reads hfirst hcookie
        with hcrash | ⟨as, has⟩
      · rw [hcrash]
      · rw [has]
        -- the CRLF is where the search begins
        obtain ⟨a, b, hab, rfl⟩ := firstIdx_split hi
        have hzero : firstIdx crlf (s.buffer.drop (s.stop + a.length)) = some 0 := by
          rw [← List.drop_drop, hab, List.append_assoc, List.drop_left]
          exact firstIdx_zero (List.prefix_append _ _)
        exact ih ⟨hfirst, hbody, 0, hzero, hcookie⟩

/-- The first piece, if it is not like a Cookie line, brings all that is there. -/
theorem opening_plain {s : HttpReader} {done rest : Str} (h : Opening s done rest)
    (hlen : rest.length < 4000000) (hplain : isCookie (cstr (upToCrlf rest)) = false) :
    ∃ w, Waiting w ∧ w.method = s.method ∧ w.path = s.path ∧ w.cookies = s.cookies
      ∧ w.message = s.message ++ rest ∧ ∀ reads r, s.Finishes reads r ↔ w.Finishes reads r := by
  by_cases hne : rest = []
  · subst hne
    refine ⟨s, ⟨h.first, h.body, h.method, ?_⟩, rfl, rfl, rfl, (List.append_nil _).symm,
      fun _ _ => Iff.rfl⟩
    rw [h.stop, h.buffer, List.append_nil]
  · have hup : upToCrlf rest <+: rest := List.take_prefix _ _
    have hcopy : (cstr (upToCrlf rest)).length < 4000000 :=
      Nat.lt_of_le_of_lt ((List.takeWhile_prefix _).trans hup).length_le hlen
    have hblank : cstr (upToCrlf rest) ≠ crlf := fun he =>
      upToCrlf_noCrlf rest (he ▸ (List.takeWhile_prefix _).isInfix)
    refine ⟨collect { s with stop := done.length + (upToCrlf rest).length },
      ⟨h.first, h.body, h.method, rfl⟩, rfl, rfl, rfl, ?_, fun reads r => ?_⟩
    · show s.message ++ s.buffer.drop s.start = _
      rw [h.buffer, h.start, List.drop_left]
    · rw [finishes_iff, round_opening h hne, handle_piece
        (s := { s with stop := done.length + (upToCrlf rest).length }) reads h.first
          h.body hcopy hplain
        (cstr_noNul _) hblank]
      rfl

/-- Otherwise it is lost, and the loop goes on only if it had no CRLF behind it. -/
theorem opening_cookie {s : HttpReader} {done rest : Str} (h : Opening s done rest)
    (hcookie : isCookie (cstr (upToCrlf rest)) = true) {reads : List Str} {r : HttpReader}
    (hfin : s.Finishes reads r) :
    rest ≠ [] ∧ ∃ w, Waiting w ∧ w.message = s.message ∧ w.Finishes reads r := by
  have hne : rest ≠ [] := by
    rintro rfl
    exact absurd hcookie (by decide)
  refine ⟨hne, ?_⟩
  cases hcrlf : firstIdx crlf rest with
  | none =>
      have hup : upToCrlf rest = rest := by rw [upToCrlf, hcrlf, Option.getD_none, List.take_length]
      rw [finishes_iff, round_opening h hne] at hfin
      rcases handle_isCookie (s := { s with stop := done.length + (upToCrlf rest).length }) reads
        h.first hcookie with hcrash | ⟨as, has⟩
      · rw [hcrash] at hfin
        exact hfin.elim
      · rw [has] at hfin
        refine ⟨assign { s with stop := done.length + (upToCrlf rest).length } as,
          ⟨h.first, h.body, h.method, ?_⟩, rfl, hfin⟩
        show done.length + (upToCrlf rest).length = s.buffer.length
        rw [hup, h.buffer, List.length_append]
  | some i =>
      obtain ⟨n, hn⟩ := hfin
      have hstuck : Stuck s := by
        refine ⟨h.first, h.body, i, by rw [h.buffer, h.stop, List.drop_left, hcrlf], ?_⟩
        rw [h.buffer, h.stop, h.start, List.take_length_add_append, List.drop_left]
        rwa [upToCrlf, hcrlf, Option.getD_some] at hcookie
      rw [stuck_run n hstuck] at hn
      cases hn

end HttpReader

namespace PostRequest

variable (q : PostRequest)

theorem not_get : strcasecmp q.method "get".toList = false := by
  have hpost := q.post
  rw [strcasecmp, beq_iff_eq] at hpost
  rw [strcasecmp, hpost]
  decide

/-- The state in front of the body: what has come with the header, and what its lines assign. -/
def opening (rest : Str) (as : List (Str × Str)) : HttpReader :=
  (q.opened rest).atBody q.header rest as

theorem opening_opening (rest : Str) (as : List (Str × Str)) :
    HttpReader.Opening (q.opening rest as) q.header rest := ⟨rfl, rfl, q.not_get, rfl, rfl, rfl⟩

theorem opening_message (rest : Str) (as : List (Str × Str)) :
    (q.opening rest as).message = [] := rfl

/-- **The header**, however many reads it takes. -/
theorem header_run {reads : List Str} (hwhole : reads.flatten = q.bytes) (r : HttpReader) :
    HttpReader.Finishes {} reads r ↔
      (∀ l ∈ q.requestLine :: q.headers, (cstr (l ++ crlf)).length < 4000000)
        ∧ ∃ as, headerCookies q.headers = some as
          ∧ (q.opening (cutReads q.header.length [] reads).1 as).Finishes
              (cutReads q.header.length [] reads).2 r := by
  rw [bytes, header, List.append_assoc] at hwhole
  have hcut := cutReads_flatten (q.requestLine ++ crlf).length [] reads
  rw [List.nil_append, hwhole, List.drop_left] at hcut
  have hlines :=
    HttpReader.headers_run q.lines (s := q.opened (cutReads (q.requestLine ++ crlf).length []
    reads).1) (r := r) ⟨rfl, rfl, rfl, rfl⟩ rfl q.not_get hcut
  have hlen : q.header.length = (q.requestLine ++ crlf).length + (headerText q.headers).length :=
    List.length_append
  rw [q.requestLine_run hwhole, hlines, List.forall_mem_cons, and_assoc, hlen, cutReads_add]
  rfl

/-- What is left of the reads is the body. -/
theorem cut_body {reads : List Str} (hwhole : reads.flatten = q.bytes) :
    (cutReads q.header.length [] reads).1
      ++ (cutReads q.header.length [] reads).2.flatten = q.body := by
  rw [cutReads_flatten, List.nil_append, hwhole, bytes, List.drop_left]

/-- **A request is received as it was sent exactly if its header fits and no piece of its body is
what a header line would be.** -/
theorem received_iff (d : Arrival q.bytes) :
    q.Received d.reads ↔ q.HeaderFits ∧ q.Undisturbed d.reads := by
  have hbody := q.cut_body d.whole
  have hrun := q.header_run d.whole
  have hne : ∀ f ∈ (cutReads q.header.length [] d.reads).2, f ≠ [] := fun f hf =>
    d.nonempty f (mem_cutReads hf)
  rw [Received, HeaderFits, Undisturbed]
  generalize cutReads q.header.length [] d.reads = cut at hbody hrun hne ⊢
  obtain ⟨rest, reads⟩ := cut
  simp only at hbody hrun hne ⊢
  have hsize : rest.length + reads.flatten.length = q.body.length := by
    rw [← hbody, List.length_append]
  have hshort := q.short
  have hlen : ∀ f ∈ reads, f.length < 4000000 := fun f hf => by
    have hle := (List.sublist_flatten_of_mem hf).length_le
    omega
  constructor
  · rintro ⟨r, hfin, -, -, ⟨as, has, -⟩, hmessage⟩
    obtain ⟨hlines, as', has', hfin⟩ := (hrun r).mp hfin
    refine ⟨⟨hlines, by rw [has]; rfl⟩, ?_⟩
    have hopen := q.opening_opening rest as'
    cases hcookie : isCookie (cstr (upToCrlf rest)) with
    | true =>
        obtain ⟨hrest, w, hw, hempty, hfin⟩ := HttpReader.opening_cookie hopen hcookie hfin
        have hle := (HttpReader.waiting_bound hlen hne hw hfin).1
        have hpos := List.length_pos_iff.mpr hrest
        rw [hmessage, hempty, opening_message, List.length_nil] at hle
        omega
    | false =>
        obtain ⟨w, hw, -, -, -, hfirst, hstep⟩ := HttpReader.opening_plain hopen (by omega) hcookie
        refine ⟨rfl, (HttpReader.waiting_bound hlen hne hw ((hstep _ _).mp hfin)).2 ?_⟩
        rw [hmessage, hfirst, opening_message, List.nil_append, hsize]
  · rintro ⟨⟨hlines, hcookies⟩, hplain, hreads⟩
    obtain ⟨as, has⟩ := Option.isSome_iff_exists.mp hcookies
    have hopen := q.opening_opening rest as
    obtain ⟨w, hw, hmethod, hpath, hcook, hfirst, hstep⟩ :=
      HttpReader.opening_plain hopen (by omega) hplain
    obtain ⟨r, hr, hrmethod, hrpath, hrcook, hrmessage⟩ := HttpReader.waiting_plain hreads hlen hw
    refine ⟨r, (hrun r).mpr ⟨hlines, as, has, (hstep _ _).mpr hr⟩, hrmethod.trans hmethod,
      hrpath.trans hpath, ⟨as, has, fun name => ?_⟩, ?_⟩
    · rw [hrcook, hcook]
      rfl
    · rw [hrmessage, hfirst, opening_message, List.nil_append, hbody]

/-- A line of text. -/
def textLine : PostRequest where
  method := "POST".toList
  path := "/rename".toList
  version := "HTTP/1.1".toList
  headers := []
  body := ['a', '\r', '\n']
  word := by simp
  post := by decide
  lines := by decide
  short := by decide

/-- Its line break arrives alone. -/
def textLine_cut : Arrival textLine.bytes where
  reads := [textLine.header ++ ['a'], ['\r', '\n']]
  whole := by decide
  nonempty := by decide

theorem textLine_lost : ¬ textLine.Received textLine_cut.reads := by
  rintro ⟨r, hfin, -, -, -, hmessage⟩
  have hrun : (HttpReader.run 6 {} textLine_cut.reads).map HttpReader.message
    = some ['a'] := by decide +kernel
  obtain ⟨r', hr', hmessage'⟩ := Option.map_eq_some_iff.mp hrun
  rw [HttpReader.finishes_unique hfin ⟨6, hr'⟩, hmessage'] at hmessage
  exact absurd hmessage (by decide)

end PostRequest

end PennCloud
