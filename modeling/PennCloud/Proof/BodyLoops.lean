import PennCloud.Proof.Served

/-!
# Whether a body is read to its end

The loops of `parse_PUT` and `parse_CPUT` look for the dot line in all they have,
but wait for it in `do_read_data`, which looks at the bytes of its own reads
alone. So a dot line that lies across the place where such a wait begins is never
seen there: the bytes that are still to come then are fewer than the dot line has,
and the handler waits for more.

`body_finishes_iff` says that this is all that goes wrong: for a body that is cut
anywhere, also within the dot line, the handler returns its data as soon as the
last byte is there, unless one to four bytes are left when it begins to wait for
the last dot line.
-/

namespace PennCloud

open Str

/-- What a handler reads behind its command line. -/
inductive Body
  /-- `parse_PUT` on a primary. -/
  | put (data : Str)
  /-- `parse_PUT` on a replica. -/
  | replicaPut (seq : Int) (data : Str)
  | cput (oldData newData : Str)
  deriving DecidableEq

namespace Body

def text : Body → Str
  | put data => dotted "DATA".toList data
  | replicaPut seq data => dotted (decimal seq) data
  | cput oldData newData => dotted "OLD".toList oldData ++ dotted "NEW".toList newData

/-- The dot line of each part is where the part ends. -/
def WF : Body → Prop
  | put data | replicaPut _ data => Payload data
  | cput oldData newData => Payload oldData ∧ Payload newData

/-- The handler returns with the data, and has left nothing of it. -/
def Finishes (k : Worker) : Body → Prop
  | put data => k.bodyPUT = .ok (data, { k with w := .setStr [], task := [] })
  | replicaPut seq data =>
      k.bodyPUTReplica = .ok (seq, data, { k with w := .setStr [], task := [] })
  | cput oldData newData =>
    k.bodyCPUT = .ok (oldData, newData, { k with w := .setStr [], task := [] })

end Body

/-- The reads behind those that bring a dot line. -/
def behindDot : Str → List Str → List Str
  | _, [] => []
  | buf, r :: reads => if dotLine <:+: buf ++ r then reads else behindDot (buf ++ r) reads

/-- No wait begins within a dot line: nothing is left to come then, or the dot line is. -/
def Uncut (reads : List Str) : Prop := reads = [] ∨ dotLine.length ≤ reads.flatten.length

/-- The reads left when the handler waits for the last dot line, `s` having been there. -/
def Body.lastReads (s : Str) (reads : List Str) : Body → List Str
  | .put _ | .replicaPut .. => reads
  | .cput .. => if dotLine <:+: s then reads else behindDot [] reads

instance (reads : List Str) : Decidable (Uncut reads) := inferInstanceAs (Decidable (_ ∨ _))

/-- A handler's worker: `extract_command` has left `s`, and the reads are still to come. -/
def Worker.behindLine (s : Str) (reads : List Str) : Worker :=
  { w := .setStr s, task := reads.map .data }

/-! ## One wait -/

section Wait

variable {s t b buf : Str} {reads rest g : List Str}

/-- A text whose first dot line is its end. -/
structure Ended (t : Str) : Prop where
  ends : dotLine <:+ t
  first : ∀ x z, t = x ++ z → z ≠ [] → ¬ dotLine <:+: x

theorem ended_of_firstIdx {i : Nat} (hi : Lib.firstIdx dotLine t = some i)
    (hlen : t.length = i + dotLine.length) : Ended t := by
  have hends : dotLine <:+ t := by
    obtain ⟨u, v, rfl, rfl⟩ := Lib.firstIdx_split hi
    obtain rfl : v = [] := by
      rw [List.length_append, List.length_append] at hlen
      exact List.length_eq_zero_iff.mp (by omega)
    rw [List.append_nil]
    exact List.suffix_append u dotLine
  refine ⟨hends, fun x z hx hz hin => ?_⟩
  -- an earlier one would be found first
  obtain ⟨j, hj⟩ := Lib.firstIdx_isSome hin
  have hfit := dotLine_length hj
  have hfound := Lib.firstIdx_append z hj
  rw [← hx, hi] at hfound
  have hij := Option.some.inj hfound
  have hlenx := congrArg List.length hx
  have hpos := List.length_pos_iff.mpr hz
  have hfive : dotLine.length = 5 := rfl
  rw [List.length_append] at hlenx
  omega

theorem uncut_of_fetched (h : Fetched s reads b []) : Uncut reads := by
  rcases h.2 with ⟨-, hnil⟩ | ⟨-, g, rfl, hg, -⟩
  · exact Or.inl hnil.symm
  · rw [List.append_nil]
    exact Or.inr hg.ends.length_le

/-- **What one wait takes**: all of the text, unless the dot line lies across its beginning. -/
theorem fetched_of_uncut (ht : Ended t) (hcat : s ++ reads.flatten = t) (hne : ∀ r ∈ reads, r ≠ [])
    (hlen : reads.flatten.length < rlen) (h : Uncut reads) : Fetched s reads t [] := by
  refine ⟨ht.ends.isInfix, ?_⟩
  rcases h with rfl | hfive
  · rw [List.flatten_nil, List.append_nil] at hcat
    exact Or.inl ⟨hcat.symm, rfl⟩
  · have hreads : reads ≠ [] := by
      rintro rfl
      exact absurd hfive (by decide)
    have hends : dotLine <:+ reads.flatten :=
      List.suffix_of_suffix_length_le ht.ends ⟨s, hcat⟩ hfive
    have hlast : t = s ++ reads.dropLast.flatten ++ reads.getLast hreads := by
      rw [← hcat, List.append_assoc]
      congr 1
      conv_lhs => rw [← List.dropLast_append_getLast hreads]
      rw [List.flatten_append, List.flatten_singleton]
    have hno := ht.first _ _ hlast (hne _ (List.getLast_mem hreads))
    refine Or.inr ⟨fun hin => hno (hin.trans (List.prefix_append _ _).isInfix), reads,
      (List.append_nil reads).symm, ⟨hends.isInfix, ?_, hlen⟩, hcat.symm⟩
    exact fun hin => hno (hin.trans (List.suffix_append _ _).isInfix)

theorem behindDot_group : ∀ {g : List Str} {buf : Str}, g ≠ [] → dotLine <:+: buf ++ g.flatten →
    ¬ dotLine <:+: buf ++ g.dropLast.flatten → behindDot buf (g ++ rest) = rest
  | [], _, hne, _, _ => absurd rfl hne
  | [r], buf, _, hin, _ => by
      rw [List.flatten_singleton] at hin
      exact if_pos hin
  | r :: r' :: g, buf, _, hin, hfirst => by
      rw [List.flatten_cons, ← List.append_assoc] at hin
      rw [List.dropLast_cons_of_ne_nil (List.cons_ne_nil r' g), List.flatten_cons,
        ← List.append_assoc] at hfirst
      rw [List.cons_append, behindDot,
        if_neg fun hr => hfirst (hr.trans (List.prefix_append _ _).isInfix),
        behindDot_group (List.cons_ne_nil r' g) hin hfirst]

theorem group_of_reads {reads : List Str} {buf : Str} (hbuf : ¬ dotLine <:+: buf)
    (hin : dotLine <:+: buf ++ reads.flatten) : ∃ g, reads = g ++ behindDot buf reads ∧
      dotLine <:+: buf ++ g.flatten ∧ ¬ dotLine <:+: buf ++ g.dropLast.flatten := by
  induction reads generalizing buf with
  | nil =>
      rw [List.flatten_nil, List.append_nil] at hin
      exact absurd hin hbuf
  | cons r reads ih =>
      rw [behindDot]
      by_cases hr : dotLine <:+: buf ++ r
      · rw [if_pos hr]
        refine ⟨[r], rfl, by rwa [List.flatten_singleton], ?_⟩
        rwa [List.dropLast_singleton, List.flatten_nil, List.append_nil]
      · rw [List.flatten_cons, ← List.append_assoc] at hin
        obtain ⟨g, hg, hends, hfirst⟩ := ih hr hin
        have hne : g ≠ [] := by
          rintro rfl
          rw [List.flatten_nil, List.append_nil] at hends
          exact hr hends
        rw [if_neg hr]
        refine ⟨r :: g, by rw [List.cons_append, ← hg], ?_, ?_⟩
        · rwa [List.flatten_cons, ← List.append_assoc]
        · rwa [List.dropLast_cons_of_ne_nil hne, List.flatten_cons, ← List.append_assoc]

theorem fetched_suffix (h : Fetched s reads b rest) : rest <:+ reads := by
  rcases h.2 with ⟨-, rfl⟩ | ⟨-, g, rfl, -, -⟩
  · exact List.suffix_rfl
  · exact List.suffix_append g rest

/-- What a wait that is not the last one leaves. -/
theorem fetched_rest (h : Fetched s reads b rest) :
    rest = if dotLine <:+: s then reads else behindDot [] reads := by
  rcases h with ⟨hb, ⟨rfl, rfl⟩ | ⟨hno, g, rfl, hg, -⟩⟩
  · rw [if_pos hb]
  · rw [if_neg hno]
    exact (behindDot_group (hg.ne_nil (by decide)) hg.ends hg.first).symm

theorem fetched_first (hin : dotLine <:+: s ∨ dotLine <:+: reads.flatten)
    (hlen : reads.flatten.length < rlen) :
    ∃ b, Fetched s reads b (if dotLine <:+: s then reads else behindDot [] reads) := by
  by_cases hs : dotLine <:+: s
  · rw [if_pos hs]
    exact ⟨s, hs, Or.inl ⟨rfl, rfl⟩⟩
  · obtain ⟨g, hg, hends, hfirst⟩ :=
      group_of_reads (show ¬ dotLine <:+: [] by decide) (hin.resolve_left hs)
    rw [if_neg hs]
    refine ⟨s ++ g.flatten, hends.trans (List.suffix_append _ _).isInfix,
      Or.inr ⟨hs, g, hg, ⟨hends, hfirst, ?_⟩, rfl⟩⟩
    have hle := congrArg (fun reads => reads.flatten.length) hg
    simp only [List.flatten_append, List.length_append] at hle
    omega

end Wait

/-! ## Where the dot lines are -/

section Texts

variable {a d : Str} {seq : Int}

theorem length_dotted (a d : Str) : (dotted a d).length = a.length + d.length + dotLine.length := by
  simp only [dotted, List.length_append, crlf, dotLine, List.length_cons, List.length_nil]
  omega

theorem firstIdx_dotted (ha : Heading a) (hd : Payload d) (later : Str) :
    Lib.firstIdx dotLine (dotted a d ++ later) = some (a.length + d.length) := by
  refine Lib.firstIdx_append later ?_
  rw [dotted, List.append_assoc crlf, ha, ← List.append_assoc, hd]
  rfl

theorem ended_dotted (ha : Heading a) (hd : Payload d) : Ended (dotted a d) := by
  have hi := firstIdx_dotted ha hd []
  rw [List.append_nil] at hi
  exact ended_of_firstIdx hi (length_dotted a d)

end Texts

/-! ## The handlers -/

section Handlers

variable {s data oldData newData b : Str} {seq : Int} {reads rest : List Str}

/-- The handler's worker, where its loop begins. -/
theorem behindLine_fetched (hnul : '\x00' ∉ reads.flatten) {task : List Read} :
    readBody dotLine ((Worker.behindLine s reads).task.length + 1) (Worker.behindLine s reads).w.str
        (Worker.behindLine s reads).task = .ok (b, task) ↔
      ∃ rest, task = rest.map .data ∧ Fetched s reads b rest := by
  rw [Worker.behindLine, List.length_map]
  exact readBody_fetched hnul

theorem put_finishes_iff (hd : Payload data) (hcat : s ++ reads.flatten = dotted "DATA".toList data)
    (hnul : '\x00' ∉ reads.flatten) (hne : ∀ r ∈ reads, r ≠ [])
    (hlen : reads.flatten.length < rlen) :
    (Body.put data).Finishes (.behindLine s reads) ↔ Uncut reads := by
  have hheading : Heading "DATA".toList := heading_noCr (by decide)
  constructor
  · intro h
    obtain ⟨⟨b, task⟩, hread, h⟩ := bind_ok h
    obtain ⟨rest, rfl, hf⟩ := (behindLine_fetched hnul).mp hread
    have htask : rest.map Read.data = [] :=
      congrArg Worker.task (Prod.mk.inj (Except.ok.inj h)).2
    rw [List.map_eq_nil_iff.mp htask] at hf
    exact uncut_of_fetched hf
  · intro h
    have hf := fetched_of_uncut (ended_dotted hheading hd) hcat hne hlen h
    have hi := firstIdx_dotted hheading hd []
    rw [List.append_nil] at hi
    rw [Body.Finishes, bodyPUT_fetched ((behindLine_fetched hnul).mpr ⟨[], rfl, hf⟩) hi,
      bodyPUT_request hd [] _ (List.append_nil _).symm]
    rfl

/-- As for the client's body. -/
theorem bodyPUTReplica_fetched {k : Worker} {task : List Read} {i : Nat}
    (hread : readBody dotLine (k.task.length + 1) k.w.str k.task = .ok (b, task))
    (hi : Lib.firstIdx dotLine b = some i) :
    k.bodyPUTReplica = ({ k with w := .setStr b, task := task } : Worker).bodyPUTReplica := by
  have hdone : readBody dotLine (task.length + 1) b task = .ok (b, task) := readBody_done hi _ _
  simp only [Worker.bodyPUTReplica, hread, StringStream.setStr, hdone]

theorem replicaPut_finishes_iff (hd : Payload data)
    (hcat : s ++ reads.flatten = dotted (decimal seq) data) (hnul : '\x00' ∉ reads.flatten)
    (hne : ∀ r ∈ reads, r ≠ []) (hlen : reads.flatten.length < rlen) :
    (Body.replicaPut seq data).Finishes (.behindLine s reads) ↔ Uncut reads := by
  have hheading : Heading (decimal seq) := heading_noCr (decimal_noCr seq)
  constructor
  · intro h
    obtain ⟨⟨b, task⟩, hread, h⟩ := bind_ok h
    obtain ⟨rest, rfl, hf⟩ := (behindLine_fetched hnul).mp hread
    obtain ⟨n, -, h⟩ := bind_ok h
    have htask : rest.map Read.data = [] :=
      congrArg Worker.task (Prod.mk.inj (Prod.mk.inj (Except.ok.inj h)).2).2
    rw [List.map_eq_nil_iff.mp htask] at hf
    exact uncut_of_fetched hf
  · intro h
    have hf := fetched_of_uncut (ended_dotted hheading hd) hcat hne hlen h
    have hi := firstIdx_dotted hheading hd []
    rw [List.append_nil] at hi
    rw [Body.Finishes, bodyPUTReplica_fetched ((behindLine_fetched hnul).mpr ⟨[], rfl, hf⟩) hi,
      bodyPUTReplica_forward seq hd [] _ (List.append_nil _).symm]
    rfl

/-- The first dot line of the two comes whole, or was there. -/
theorem first_found (ho : Payload oldData) (hn : Payload newData)
    (hcat : s ++ reads.flatten = dotted "OLD".toList oldData ++ dotted "NEW".toList newData) :
    dotLine <:+: s ∨ dotLine <:+: reads.flatten := by
  have hold := (ended_dotted (heading_noCr (a := "OLD".toList) (by decide)) ho).ends
  have hnew := (ended_dotted (heading_noCr (a := "NEW".toList) (by decide)) hn).ends
  rcases Nat.lt_or_ge reads.flatten.length dotLine.length with hfew | hmany
  · have hlen := congrArg List.length hcat
    have hlast := length_dotted "NEW".toList newData
    rw [List.length_append, List.length_append] at hlen
    have hpre : dotted "OLD".toList oldData <+: s :=
      Lib.prefix_of_append_eq hcat.symm (by omega)
    exact Or.inl (hold.isInfix.trans hpre.isInfix)
  · have hdot : dotLine <:+ s ++ reads.flatten := by
      rw [hcat]
      exact hnew.trans (List.suffix_append _ _)
    exact Or.inr (List.suffix_of_suffix_length_le hdot (List.suffix_append s _) hmany).isInfix

/-- What the first wait has brought is the first part, with the beginning of the second. -/
theorem first_part (ho : Payload oldData)
    (hb : b ++ rest.flatten = dotted "OLD".toList oldData ++ dotted "NEW".toList newData)
    (hin : dotLine <:+: b) : Lib.firstIdx dotLine b = some (3 + oldData.length) ∧
      "OLD\r\n".toList <+: b ∧
      b.drop (3 + oldData.length + 3) ++ rest.flatten = dotted "\r\nNEW".toList newData := by
  obtain ⟨i, hi⟩ := Lib.firstIdx_isSome hin
  have hwhole := Lib.firstIdx_append rest.flatten hi
  rw [hb, firstIdx_dotted (heading_noCr (by decide)) ho] at hwhole
  obtain rfl : 3 + oldData.length = i := Option.some.inj hwhole
  have hfit := dotLine_length hi
  refine ⟨hi, ?_, ?_⟩
  · refine Lib.prefix_of_append_eq (z := rest.flatten)
      (w := oldData ++ ['.', '\r', '\n'] ++ dotted "NEW".toList newData) ?_ ?_
    · rw [hb]
      simp [dotted, crlf]
    · show 5 ≤ b.length
      omega
  · rw [← List.drop_append_of_le_length (by omega), hb]
    exact drop_old oldData newData

theorem cput_finishes_iff (ho : Payload oldData) (hn : Payload newData)
    (hcat : s ++ reads.flatten = dotted "OLD".toList oldData ++ dotted "NEW".toList newData)
    (hnul : '\x00' ∉ reads.flatten) (hne : ∀ r ∈ reads, r ≠ [])
    (hlen : reads.flatten.length < rlen) :
    (Body.cput oldData newData).Finishes (.behindLine s reads) ↔
      Uncut (if dotLine <:+: s then reads else behindDot [] reads) := by
  constructor
  · intro h
    obtain ⟨⟨b, task⟩, hread, h⟩ := bind_ok h
    obtain ⟨rest, rfl, hf⟩ := (behindLine_fetched hnul).mp hread
    obtain ⟨⟨b', task'⟩, hread', h⟩ := bind_ok h
    rw [List.length_map] at hread'
    obtain ⟨rest', rfl, hf'⟩ := (readBody_fetched (hf.noNul hnul)).mp hread'
    have htask : rest'.map Read.data = [] :=
      congrArg Worker.task (Prod.mk.inj (Prod.mk.inj (Except.ok.inj h)).2).2
    rw [List.map_eq_nil_iff.mp htask] at hf'
    rw [← fetched_rest hf]
    exact uncut_of_fetched hf'
  · intro h
    -- the first body is found in any case; whether the second is depends on the reads left
    obtain ⟨b, hf⟩ := fetched_first (first_found ho hn hcat) hlen
    generalize (if dotLine <:+: s then reads else behindDot [] reads) = rest at h hf
    have hb := hf.flatten.trans hcat
    obtain ⟨hi, hhead, hrest⟩ := first_part ho hb hf.1
    have hread := (behindLine_fetched hnul).mpr ⟨rest, rfl, hf⟩
    obtain ⟨g, hg⟩ := fetched_suffix hf
    have hne' : ∀ r ∈ rest, r ≠ [] := fun r hr => hne r (hg ▸ List.mem_append_right g hr)
    have hlen' : rest.flatten.length < rlen := by
      rw [← hg, List.flatten_append, List.length_append] at hlen
      omega
    have hf' := fetched_of_uncut (ended_dotted heading_new hn) hrest hne' hlen' h
    have hi' := firstIdx_dotted heading_new hn []
    rw [List.append_nil] at hi'
    have hread' := (readBody_fetched (hf.noNul hnul)).mpr ⟨[], rfl, hf'⟩
    rw [← List.length_map (f := Read.data)] at hread'
    rw [Body.Finishes, bodyCPUT_fetched hread hi hhead (Nat.le_add_right 3 _) hread' hi' hrest.symm,
      bodyCPUT_request ho hn [] _ (by rw [List.append_nil]; exact hb)]
    rfl

end Handlers

/--
**A body is read to its end**, with exactly its data, as soon as its last byte is
there, unless the last wait begins within a dot line.
-/
theorem body_finishes_iff {body : Body} (hb : body.WF) {s : Str} {reads : List Str}
    (hcat : s ++ reads.flatten = body.text) (hnul : '\x00' ∉ body.text) (hne : ∀ r ∈ reads, r ≠ [])
    (hlen : body.text.length < rlen) :
    body.Finishes (.behindLine s reads) ↔ Uncut (body.lastReads s reads) := by
  rw [← hcat, List.mem_append, not_or] at hnul
  rw [← hcat, List.length_append] at hlen
  have hfits : reads.flatten.length < rlen := by omega
  cases body with
  | put data => exact put_finishes_iff hb hcat hnul.2 hne hfits
  | replicaPut seq data => exact replicaPut_finishes_iff hb hcat hnul.2 hne hfits
  | cput oldData newData => exact cput_finishes_iff hb.1 hb.2 hcat hnul.2 hne hfits

instance : DecidablePred Body.WF
  | .put data | .replicaPut _ data => inferInstanceAs (Decidable (Payload data))
  | .cput oldData newData => inferInstanceAs (Decidable (Payload oldData ∧ Payload newData))

/-- A body cut within its first dot line, at every byte of the second, and between them. -/
def bytewiseReads : List Str :=
  ["\n.\r\nNE".toList, "W\r\nb\r".toList, "\n".toList, ".".toList, "\r".toList, "\n".toList]

theorem bytewise_finishes : (Body.cput "a\r\n".toList "b\r\n".toList).Finishes
    (.behindLine "OLD\r\na\r".toList bytewiseReads) :=
  (body_finishes_iff (by decide +kernel) (by decide +kernel) (by decide +kernel) (by decide)
    (by decide +kernel)).mpr (by decide +kernel)

/-- The command line came with the body but for the last line break: the handler waits for more. -/
theorem lateBreak_waits : (Body.put "a\r\n".toList).WF ∧
    "DATA\r\na\r\n.".toList ++ ["\r\n".toList].flatten = (Body.put "a\r\n".toList).text ∧
    (Worker.behindLine "DATA\r\na\r\n.".toList ["\r\n".toList]).bodyPUT = .error .blocked ∧
    ¬ (Body.put "a\r\n".toList).Finishes
      (.behindLine "DATA\r\na\r\n.".toList ["\r\n".toList]) := by
  have hblocked : (Worker.behindLine "DATA\r\na\r\n.".toList ["\r\n".toList]).bodyPUT
      = .error .blocked := by decide +kernel
  refine ⟨by decide +kernel, by decide +kernel, hblocked, fun h => ?_⟩
  rw [Body.Finishes, hblocked] at h
  cases h

end PennCloud
