import PennCloud.Lib.Reading
import PennCloud.Storage.Directory

/-!
# The reply to a `GET`

`read_get_data` appends what it reads to what it has and looks for four marks in
all of it, in a fixed order: the text of a server that shuts down, the heading of
data together with a dot line, and the text of an absent cell. It does not look
where they are. So a stored text that has one of them in it can be taken for a
status line, as soon as the reads that have come in end behind it.
-/

namespace PennCloud

open Str

/-- The `len` of `read_get_data`. -/
def getLen : Nat := 7000000

/--
`Storage::read_get_data` on what `read` finds: what it returns, and whether
`crash_flag` has been set. A read that fills the array is not ended by a zero, and
there the model has no answer.
-/
def readGetData (complete : Str) : List Read → Option (Str × Bool)
  | [] => none
  | .closed :: _ => some (serverCrash, true)
  | .failed :: reads =>
    match readGetRound complete with
    | some response => some (response, decide (shuttingDown <:+: complete))
    | none => readGetData complete reads
  | .data s :: reads =>
    if getLen ≤ s.length then none
    else match readGetRound (complete ++ cstr s) with
      | some response => some (response, decide (shuttingDown <:+: complete ++ cstr s))
      | none => readGetData (complete ++ cstr s) reads

/-- The answer to all that has been read. -/
def getAnswer (complete : Str) : Option (Str × Bool) :=
  (readGetRound complete).map fun response => (response, decide (shuttingDown <:+: complete))

/-- Reads that bring text are a reading until the first answer. -/
theorem readGetData_eq {reads : List Str} (hshort : ∀ r ∈ reads, r.length < getLen)
    (hnul : ∀ r ∈ reads, '\x00' ∉ r) (complete : Str) :
    readGetData complete (reads.map .data) = Lib.readUntil getAnswer complete reads := by
  induction reads generalizing complete with
  | nil => rfl
  | cons r reads ih =>
      obtain ⟨hr, hshort⟩ := List.forall_mem_cons.mp hshort
      obtain ⟨hn, hnul⟩ := List.forall_mem_cons.mp hnul
      rw [List.map_cons, readGetData, if_neg (Nat.not_le.mpr hr), cstr_eq hn,
        Lib.readUntil, getAnswer]
      cases readGetRound (complete ++ r) with
      | some response => rfl
      | none => exact ih hshort hnul _

/-- What `parse_GET` replies to the request for a cell with `data` and a line break. -/
def getReply (data : Str) : Str := "DATA\r\n".toList ++ (data ++ dotLine)

theorem parseGET_data {s : Server} {row col data : Str}
    (h : s.table.at? row col = some (data ++ crlf)) :
      (s.parseGET row col).reply = getReply data := by
  have hrow : s.table.hasRow row = true := Nested.hasRow_of_at? h
  have hassoc : ∀ head dot : Str, head ++ (data ++ crlf) ++ dot = head
    ++ (data ++ (crlf ++ dot)) := by
    intro head dot
    simp only [List.append_assoc]
  simp only [Server.parseGET, hrow, h]
  exact hassoc _ _

theorem parseGET_null {s : Server} {row col : Str} (h : s.table.at? row col = none) :
    (s.parseGET row col).reply = replyNullRow ∨ (s.parseGET row col).reply = replyNullCol := by
  unfold Server.parseGET
  split
  · exact Or.inl rfl
  · rw [h]
    exact Or.inr rfl

/-! ## The marks in a reply -/

variable {data front response : Str}

theorem length_getReply (data : Str) : (getReply data).length = data.length + 11 := by
  unfold getReply
  rw [List.length_append, List.length_append]
  show 6 + (data.length + 5) = data.length + 11
  omega

/-- A mark without line ends is in the reply if it is in the data. -/
theorem infix_getReply {pat : Str} (hr : '\r' ∉ pat) (hn : '\n' ∉ pat)
    (hhead : ¬ pat <:+: "DATA".toList) (htail : ¬ pat <:+: ['.']) (hempty : ¬ pat <:+: []) :
    pat <:+: getReply data ↔ pat <:+: data := by
  have hcut : getReply data
      = "DATA".toList ++ '\r' :: ([] ++ '\n' :: (data ++ '\r' :: ([] ++ '\n' :: (['.'] ++ '\r' ::
        ([] ++ '\n' :: []))))) := rfl
  rw [hcut, Lib.infix_mid hr, Lib.infix_mid hn, Lib.infix_mid hr, Lib.infix_mid hn,
    Lib.infix_mid hr, Lib.infix_mid hn]
  simp only [hhead, htail, hempty, false_or, or_false]

/-- A front of the reply is short, or has the heading. -/
theorem front_cases (h : front <+: getReply data) :
    front <+: "DATA\r\n".toList ∨ "DATA\r\n".toList <+: front :=
  List.prefix_or_prefix_of_prefix h (List.prefix_append _ _)

/-- **When a front is answered.** -/
theorem readGetRound_front (h : front <+: getReply data) : readGetRound front = none ↔
    ¬ shuttingDown <:+: front ∧ ¬ dotLine <:+: front ∧ ¬ nullReply <:+: front := by
  rw [readGetRound]
  rcases front_cases h with hshort | hlong
  · -- nothing fits into the heading
    have hno : ∀ {pat : Str}, ¬ pat <:+: "DATA\r\n".toList → ¬ pat <:+: front := fun hpat hin =>
      hpat (hin.trans hshort.isInfix)
    have hdown : ¬ shuttingDown <:+: front := hno (by decide)
    have hdot : ¬ dotLine <:+: front := hno (by decide)
    have hnull : ¬ nullReply <:+: front := hno (by decide)
    simp [hdown, hdot, hnull]
  · have hdata : "DATA\r\n".toList <:+: front := hlong.isInfix
    have hcrlf : crlf <:+: front := (show crlf <:+: "DATA\r\n".toList by decide).trans hdata
    by_cases hdown : shuttingDown <:+: front
    · simp [hdown]
    · by_cases hdot : dotLine <:+: front
      · rw [if_neg hdown, if_pos ⟨hdata, hdot⟩]
        simp [hdot]
      · by_cases hnull : nullReply <:+: front
        · simp [hdown, hdot, hnull, hcrlf]
        · simp [hdown, hdot, hnull]

theorem shuttingDown_getReply : shuttingDown <:+: getReply data ↔ shuttingDown <:+: data :=
  infix_getReply (by decide) (by decide) (by decide) (by decide) (by decide)

/-- The whole reply gives the data back. -/
theorem getAnswer_whole (h : ¬ shuttingDown <:+: data) :
    getAnswer (getReply data) = some (data, false) := by
  have hdown : ¬ shuttingDown <:+: getReply data := fun hin => h (shuttingDown_getReply.mp hin)
  have hdata : "DATA\r\n".toList <:+: getReply data := (List.prefix_append _ _).isInfix
  have hdot : dotLine <:+: getReply data :=
    ((List.suffix_append data _).trans (List.suffix_append _ _)).isInfix
  have hcut : substr (getReply data) 6 ((data.length + 11 : Nat) - 11) = data := by
    unfold getReply
    rw [← List.append_assoc]
    exact substr_middle _ data dotLine rfl (by omega)
  have hround : readGetRound (getReply data) = some data := by
    rw [readGetRound, if_neg hdown, if_pos ⟨hdata, hdot⟩, length_getReply, hcut]
    split
    · rw [List.eq_nil_of_length_eq_zero (show data.length = 0 by omega)]
    · rfl
  rw [getAnswer, hround, Option.map_some, decide_eq_false hdown]

/-- **A `GET` that is answered in one piece returns the data.** -/
theorem Dir.get_data {row f : Str} {s : Dir} (hcell : s.cell row f = some (data ++ crlf))
    (hnul : '\x00' ∉ data) (hdown : ¬ shuttingDown <:+: data) (hcrash : data ≠ serverCrash) :
    s.get row f = some (data, s) := by
  have hreply : (s.server.parseGET row (contentCol f)).reply = getReply data := parseGET_data hcell
  have hserver : (s.server.parseGET row (contentCol f)).server = s.server := by
    unfold Server.parseGET
    split
    · rfl
    · split <;> rfl
  have hcstr : cstr (getReply data) = getReply data := by
    refine cstr_eq ?_
    unfold getReply
    simp only [List.mem_append, not_or]
    exact ⟨by decide, hnul, by decide⟩
  obtain ⟨response, hround, he⟩ := Option.map_eq_some_iff.mp (getAnswer_whole hdown)
  obtain ⟨rfl, -⟩ := Prod.mk.inj he
  have hsend : s.server.sendGet row (contentCol f) = some (response, s.server) := by
    show (readGetRound (cstr (s.server.parseGET row (contentCol f)).reply)).bind _ = _
    rw [hreply, hcstr, hround, Option.bind_some, if_neg hcrash]
    exact congrArg (fun v => some (response, v)) hserver
  rw [Dir.get, hsend]
  rfl

/-- A front that is answered for no other mark is answered for the text of an absent cell. -/
theorem readGetRound_null (h : front <+: getReply data) (hdown : ¬ shuttingDown <:+: front)
    (hdot : ¬ dotLine <:+: front) (hround : readGetRound front = some response) :
    nullReply <:+: front ∧ response = nullReply := by
  constructor
  · by_contra hno
    have hnone := (readGetRound_front h).mpr ⟨hdown, hdot, hno⟩
    rw [hnone] at hround
    cases hround
  · rw [readGetRound, if_neg hdown, if_neg fun hin => hdot hin.2] at hround
    split at hround
    · exact (Option.some.inj hround).symm
    · cases hround

/-- A dot line before the end cuts the data short. -/
theorem readGetRound_dot (h : front <+: getReply data) (hlt : front.length < (getReply data).length)
    (hdown : ¬ shuttingDown <:+: front) (hdot : dotLine <:+: front) :
      readGetRound front ≠ some data := by
  have hdata : "DATA\r\n".toList <:+: front := by
    rcases front_cases h with hshort | hlong
    · exact absurd (hdot.trans hshort.isInfix) (by decide)
    · exact hlong.isInfix
  rw [length_getReply] at hlt
  rw [readGetRound, if_neg hdown, if_pos ⟨hdata, hdot⟩]
  intro he
  split at he
  · -- empty data has its dot line at the very end
    obtain rfl : data = [] := (Option.some.inj he).symm
    have hfirst : Lib.firstIdx dotLine (getReply []) = some 6 := by decide
    exact Lib.not_infix_front hfirst h hlt hdot
  · have hlen := length_substr_le_count front 6 (n := (front.length : Int) - 11) (by omega)
    rw [Option.some.inj he] at hlen
    omega

/-- No front that comes in before the end is taken for something else. -/
structure ReadsThrough (data : Str) (reads : List Str) : Prop where
  alive : ¬ shuttingDown <:+: data
  /-- Nor does the data begin with a dot on a line of its own and the reads end behind it. -/
  dot : ∀ n < reads.length, ¬ dotLine <:+: (reads.take n).flatten
  null : ∀ n < reads.length, nullReply <:+: (reads.take n).flatten → data = nullReply

instance (data : Str) (reads : List Str) : Decidable (ReadsThrough data reads) :=
  decidable_of_iff (¬ shuttingDown <:+: data ∧
      (∀ n < reads.length, ¬ dotLine <:+: (reads.take n).flatten) ∧
      ∀ n < reads.length, nullReply <:+: (reads.take n).flatten → data = nullReply)
    ⟨fun h => ⟨h.1, h.2.1, h.2.2⟩, fun h => ⟨h.alive, h.dot, h.null⟩⟩

/-! ## What is returned -/

variable {reads : List Str}

/-- What the first reads make up, before the last of them. -/
theorem take_front {text : Str} {n : Nat} (hcut : reads.flatten = text) (hne : [] ∉ reads)
    (hn : n < reads.length) :
    (reads.take n).flatten <+: text ∧ (reads.take n).flatten.length < text.length :=
  ⟨hcut ▸ Lib.take_flatten_prefix reads n, hcut ▸ Lib.length_take_flatten_lt hne hn⟩

/-- The data comes back only if the reads go through. -/
theorem readsThrough_of_readUntil (hcut : reads.flatten = getReply data) (hne : [] ∉ reads)
    (h : Lib.readUntil getAnswer [] reads = some (data, false)) : ReadsThrough data reads := by
  obtain ⟨n, hpos, hle, htest, hquiet⟩ := Lib.readUntil_eq_some.mp h
  rw [List.nil_append] at htest
  obtain ⟨response, hround, hanswer⟩ := Option.map_eq_some_iff.mp htest
  obtain ⟨rfl, hflag⟩ := Prod.mk.inj hanswer
  have hdown : ¬ shuttingDown <:+: (reads.take n).flatten := of_decide_eq_false hflag
  rcases Nat.lt_or_eq_of_le hle with hlt | rfl
  · -- an answer before the end, and right: the data is the text of an absent cell
    obtain ⟨hfront, hshort⟩ := take_front hcut hne hlt
    have hdot : ¬ dotLine <:+: (reads.take n).flatten := fun hdot =>
      readGetRound_dot hfront hshort hdown hdot hround
    obtain ⟨-, rfl⟩ := readGetRound_null hfront hdown hdot hround
    have hfirst : Lib.firstIdx dotLine (getReply nullReply) = some 15 := by decide
    refine ⟨by decide, fun k hk => ?_, fun _ _ _ => rfl⟩
    obtain ⟨hfront, hshort⟩ := take_front hcut hne hk
    exact Lib.not_infix_front hfirst hfront hshort
  · -- no front is answered
    rw [List.take_length, hcut, shuttingDown_getReply] at hdown
    have hnone : ∀ k < reads.length, readGetRound (reads.take k).flatten = none := by
      intro k hk
      rcases Nat.eq_zero_or_pos k with rfl | hkpos
      · rw [List.take_zero, List.flatten_nil]
        decide
      · exact Option.map_eq_none_iff.mp (hquiet k hkpos hk)
    have hmarks : ∀ k < reads.length, ¬ shuttingDown <:+: (reads.take k).flatten ∧
        ¬ dotLine <:+: (reads.take k).flatten ∧ ¬ nullReply <:+: (reads.take k).flatten :=
      fun k hk => (readGetRound_front (take_front hcut hne hk).1).mp (hnone k hk)
    exact ⟨hdown, fun k hk => (hmarks k hk).2.1, fun k hk hnull => absurd hnull (hmarks k hk).2.2⟩

theorem readUntil_of_readsThrough (hcut : reads.flatten = getReply data) (hne : [] ∉ reads)
    (h : ReadsThrough data reads) : Lib.readUntil getAnswer [] reads = some (data, false) := by
  have hlast : getAnswer ([] ++ reads.flatten) = some (data, false) := by
    rw [List.nil_append, hcut]
    exact getAnswer_whole h.alive
  have hsome : reads ≠ [] := by
    rintro rfl
    have hlen := congrArg List.length hcut
    rw [length_getReply] at hlen
    simp at hlen
  obtain ⟨x, hx⟩ := Lib.readUntil_isSome hsome hlast
  obtain ⟨n, hpos, hle, htest, -⟩ := Lib.readUntil_eq_some.mp hx
  rw [hx]
  rcases Nat.lt_or_eq_of_le hle with hlt | rfl
  · rw [List.nil_append] at htest
    obtain ⟨response, hround, rfl⟩ := Option.map_eq_some_iff.mp htest
    have hfront := (take_front hcut hne hlt).1
    have hdown : ¬ shuttingDown <:+: (reads.take n).flatten := fun hin =>
      h.alive (shuttingDown_getReply.mp (hin.trans hfront.isInfix))
    obtain ⟨hnull, rfl⟩ := readGetRound_null hfront hdown (h.dot n hlt) hround
    rw [h.null n hlt hnull, decide_eq_false hdown]
  · rw [List.take_length] at htest
    exact htest.symm.trans hlast

theorem readUntil_data_iff (hcut : reads.flatten = getReply data) (hne : [] ∉ reads) :
    Lib.readUntil getAnswer [] reads = some (data, false) ↔ ReadsThrough data reads :=
  ⟨readsThrough_of_readUntil hcut hne, readUntil_of_readsThrough hcut hne⟩

/-- The text of an absent cell is read back, however it is cut. -/
theorem readUntil_null {reply : Str} (hreply : reply = replyNullRow ∨ reply = replyNullCol)
    (hcut : reads.flatten = reply) (hne : [] ∉ reads) :
    Lib.readUntil getAnswer [] reads = some (nullReply, false) := by
  have hsome : reads ≠ [] := by
    rintro rfl
    rcases hreply with rfl | rfl
    · exact absurd hcut (by decide)
    · exact absurd hcut (by decide)
  have hanswer : getAnswer reply = some (nullReply, false) := by
    rcases hreply with rfl | rfl
    · decide
    · decide
  -- the line break is at the end
  have hline : Lib.firstIdx crlf reply = some (reply.length - 2) ∧ 2 ≤ reply.length ∧
      ¬ shuttingDown <:+: reply := by
    rcases hreply with rfl | rfl
    · decide
    · decide
  obtain ⟨hfirst, hlen, hdown⟩ := hline
  rw [Lib.readUntil_whole hsome, List.nil_append, hcut, hanswer]
  intro k _ hk
  obtain ⟨hfront, hshort⟩ := take_front hcut hne hk
  have hcrlf : ¬ crlf <:+: (reads.take k).flatten := by
    refine Lib.not_infix_front hfirst hfront ?_
    show _ < reply.length - 2 + 2
    omega
  have hround : readGetRound (reads.take k).flatten = none := by
    rw [readGetRound, if_neg fun hin => hdown (hin.trans hfront.isInfix), if_neg, if_neg]
    · exact fun hin => hcrlf hin.2
    · exact fun hin => hcrlf ((show crlf <:+: "DATA\r\n".toList by decide).trans hin.1)
  rw [List.nil_append, getAnswer, hround]
  rfl

/--
**A `GET` reply is read back exactly** if the data does not have the text of a
server that shuts down in it, and as long as no reads before the end make a text
with a dot line, or with that of an absent cell. The reply for an absent cell
always is.
-/
theorem get_read_iff {s : Server} {row col : Str}
    (hcut : reads.flatten = (s.parseGET row col).reply)
    (hreads : ∀ r ∈ reads, r ≠ [] ∧ r.length < getLen) :
    (∀ data, s.table.at? row col = some (data ++ crlf) → '\x00' ∉ data →
      (readGetData [] (reads.map .data) = some (data, false) ↔ ReadsThrough data reads)) ∧
    (s.table.at? row col = none → readGetData [] (reads.map .data) = some (nullReply, false)) := by
  have hshort : ∀ r ∈ reads, r.length < getLen := fun r hr => (hreads r hr).2
  have hne : [] ∉ reads := fun h => (hreads [] h).1 rfl
  constructor
  · intro data hcell hnul
    rw [parseGET_data hcell] at hcut
    have hreply : '\x00' ∉ reads.flatten := by
      rw [hcut]
      unfold getReply
      simp only [List.mem_append, not_or]
      exact ⟨by decide, hnul, by decide⟩
    rw [readGetData_eq hshort fun r hr h => hreply (List.mem_flatten_of_mem hr h)]
    exact readUntil_data_iff hcut hne
  · intro hcell
    have hnull := parseGET_null hcell
    have hreply : '\x00' ∉ reads.flatten := by
      rw [hcut]
      rcases hnull with h | h
      · rw [h]
        decide
      · rw [h]
        decide
    rw [readGetData_eq hshort fun r hr h => hreply (List.mem_flatten_of_mem hr h)]
    exact readUntil_null hnull hcut hne

/-- A server with one cell. -/
def serverWith (data : Str) : Server :=
  { primary := true, table := Nested.set ∅ ['u'] (nameCol ['1']) (data ++ crlf) }

theorem get_read_note :
    readGetData [] (["DATA\r".toList, "\nhi\r\n".toList, ".\r\n".toList].map .data)
      = some (['h', 'i'], false) := by
  have hcut : ["DATA\r".toList, "\nhi\r\n".toList, ".\r\n".toList].flatten
      = ((serverWith ['h', 'i']).parseGET ['u'] (nameCol ['1'])).reply := by decide +kernel
  refine ((get_read_iff hcut (by decide)).1 _ ?_ (by decide)).mpr (by decide)
  decide +kernel

/-- A file named like the text of a server that shuts down is taken for a crash. -/
theorem get_misread :
    readGetData [] ([((serverWith shuttingDown).parseGET ['u'] (nameCol ['1'])).reply].map .data)
      = some (serverCrash, true) ∧
    ¬ dotLine <:+: shuttingDown ++ crlf ∧
    readGetData [] ([((serverWith shuttingDown).parseGET ['u'] (nameCol ['1'])).reply].map .data)
      ≠ some (shuttingDown, false) := by
  have hread : readGetData []
      ([((serverWith shuttingDown).parseGET ['u'] (nameCol ['1'])).reply].map .data)
      = some (serverCrash, true) := by decide +kernel
  exact ⟨hread, by decide, by rw [hread]; decide⟩

end PennCloud
