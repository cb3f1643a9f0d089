import PennCloud.Proof.Replies
import PennCloud.Webmail.ClearBuffer

/-!
# What is behind the string

`worker_thread` and `do_read` read behind the string in their array and take it for
granted that the byte behind what they have read is a zero. `clear_buffer` keeps it
so: it adds zeros to what is behind the string and takes nothing away, but for one
line: `do_read` may put a zero over the first byte of a line it copies to `command`,
and what is left of it stays when nothing comes behind it. What `clear_buffer` cannot
do is to make the array clean. `do_read` clears its own when it begins,
`worker_thread` does not; a read may bring a zero byte with others behind it, and it
may bring as many bytes as there are in the array. Between these the string and its
zeros are all there is, before every read of every run.
-/

namespace PennCloud

open Str

open Session (Zero zero_nil zero_replicate zero_append)

/-- `buff` is a string that ends at `curr`, within an array of `size` bytes, and zeros behind it. -/
structure Clean (size : Nat) (buff : Str) (curr : Nat) : Prop where
  inside : curr < size
  text : '\x00' ∉ buff.take curr
  zero : Zero (buff.drop curr)

/-- The second array is the first one with lines taken off its front. -/
inductive LinesTaken : Str → Str → Prop
  | done (buff : Str) : LinesTaken buff buff
  | line {buff buff' : Str} {i : Nat} : Lib.firstIdx crlf (cstr buff) = some i →
      LinesTaken (clearBuffer buff (i + 2)) buff' → LinesTaken buff buff'

/-- A loop that reads into an array and takes lines off its front. -/
structure ReadLoop (σ : Type) where
  size : Nat
  buff : σ → Str
  quit : σ → Bool
  /-- A turn: a read, and the lines it completes. -/
  read : σ → Str → Option σ
  /-- The last line of the turn is not taken out: it has lost its first byte. -/
  stuck : σ → Str → Prop
  /-- Else the lines have been taken off when the next read comes. -/
  taken : ∀ {s t : σ} {bytes : Str}, read s bytes = some t → quit t = false →
    ¬ stuck s bytes → LinesTaken (fill (buff s) bytes) (buff t)
  left : ∀ {s t : σ} {bytes : Str}, read s bytes = some t → quit t = false →
    stuck s bytes → ¬ Zero (pastString (buff t))

namespace ReadLoop

variable {σ : Type} (l : ReadLoop σ)

/--
Before every read the array is a string that ends at `curr`, where the read puts its
bytes, and zeros; and a read leaves a zero to end the string.
-/
def Tidy : σ → Nat → List Str → Prop
  | s, curr, [] => Clean l.size (l.buff s) curr
  | s, curr, bytes :: reads =>
      Clean l.size (l.buff s) curr ∧ (cstr (fill (l.buff s) bytes)).length < l.size ∧
      ∀ t, l.read s bytes = some t → l.quit t = false → Tidy t (cstr (l.buff t)).length reads

/--
No read fills the array, and one that another read follows has nothing behind its first
zero byte but zeros, and leaves no line stuck.
-/
def Fair : σ → List Str → Prop
  | _, [] => True
  | s, bytes :: reads => (cstr (l.buff s)).length + (cstr bytes).length < l.size ∧
      ∀ t, l.read s bytes = some t → l.quit t = false →
        (Zero (pastString bytes) ∧ ¬ l.stuck s bytes) ∧ Fair t reads

end ReadLoop

/-! ## A read and its lines -/

section Array

variable {buff buff' bytes : Str}

/-- What is behind the string when a read has put its bytes there. -/
theorem fill_past (hz : Zero (pastString buff)) : cstr (fill buff bytes) = cstr buff ++ cstr bytes ∧
    (Zero (pastString (fill buff bytes)) ↔ Zero (pastString bytes)) := by
  have hdrop : buff.drop ((cstr buff).length + bytes.length)
    = (pastString buff).drop bytes.length := by
    rw [pastString, List.drop_drop]
  have hz' : Zero ((pastString buff).drop bytes.length) := hz.drop _
  have hfill : fill buff bytes
      = cstr buff ++ cstr bytes ++ (pastString bytes ++ (pastString buff).drop bytes.length) := by
    rw [fill, take_cstr, hdrop, List.append_assoc, List.append_assoc,
      ← List.append_assoc (cstr bytes), cstr_past]
  have hend : cstr (pastString bytes ++ (pastString buff).drop bytes.length) = [] := by
    rcases past_cases bytes with hp | ⟨t, hp⟩
    · rw [hp, List.nil_append, hz'.cstr]
    · rw [hp]
      rfl
  have hcstr : cstr (fill buff bytes) = cstr buff ++ cstr bytes := by
    have hfree : '\x00' ∉ cstr buff ++ cstr bytes := by simp [cstr_noNul]
    rw [hfill, cstr_append hfree, hend, List.append_nil]
  refine ⟨hcstr, ?_⟩
  rw [pastString, hcstr]
  conv_lhs => rw [hfill]
  rw [List.drop_left, zero_append]
  exact and_iff_left hz'

/-- Taking lines off adds zeros behind the string and leaves what is there. -/
theorem LinesTaken.past (h : LinesTaken buff buff') : cstr buff' <:+ cstr buff ∧
    ∃ k, pastString buff' = List.replicate k '\x00' ++ pastString buff := by
  induction h with
  | done buff => exact ⟨List.suffix_refl _, 0, rfl⟩
  | line hline _ ih =>
      rename_i buff buff' i
      obtain ⟨hsuffix, k, hpast⟩ := ih
      rw [cstr_clearBuffer (Nat.succ_pos _)] at hsuffix
      rw [past_clearBuffer (Nat.succ_pos _), ← List.append_assoc,
        List.replicate_append_replicate] at hpast
      exact ⟨hsuffix.trans (List.drop_suffix _ _), _, hpast⟩

theorem clean_string {size : Nat} : Clean size buff (cstr buff).length ↔
    (cstr buff).length < size ∧ Zero (pastString buff) := by
  refine ⟨fun h => ⟨h.inside, h.zero⟩, fun h => ⟨h.1, ?_, h.2⟩⟩
  rw [take_cstr]
  exact cstr_noNul buff

end Array

namespace ReadLoop

variable {σ : Type} {l : ReadLoop σ} {s t : σ} {bytes : Str}

theorem Tidy.clean {curr : Nat} {reads : List Str} (h : l.Tidy s curr reads) :
    Clean l.size (l.buff s) curr := by
  cases reads with
  | nil => exact h
  | cons bytes reads => exact h.1

/--
**A turn leaves the array clean** exactly if the read has brought nothing behind its first
zero, and no line is stuck.
-/
theorem clean_step (hz : Zero (pastString (l.buff s))) (h : l.read s bytes = some t)
    (hquit : l.quit t = false) (hfits : (cstr (fill (l.buff s) bytes)).length < l.size) :
    Clean l.size (l.buff t) (cstr (l.buff t)).length ↔
      Zero (pastString bytes) ∧ ¬ l.stuck s bytes := by
  by_cases hstuck : l.stuck s bytes
  · exact iff_of_false (fun hclean => l.left h hquit hstuck (clean_string.mp hclean).2)
      fun hzero => hzero.2 hstuck
  · -- behind the string: the zeros of the lines, what the read has brought, the zeros from before
    obtain ⟨hsuffix, k, hpast⟩ := (l.taken h hquit hstuck).past
    have hinside : (cstr (l.buff t)).length < l.size := Nat.lt_of_le_of_lt hsuffix.length_le hfits
    rw [clean_string, and_iff_right hinside, hpast, zero_append, and_iff_right (zero_replicate k),
      (fill_past hz).2, and_iff_left hstuck]

/-- **All runs** from a clean array. -/
theorem tidy_iff (reads : List Str) : ∀ {s : σ}, Clean l.size (l.buff s) (cstr (l.buff s)).length →
    (l.Tidy s (cstr (l.buff s)).length reads ↔ l.Fair s reads) := by
  induction reads with
  | nil => exact fun hclean => iff_of_true hclean trivial
  | cons bytes reads ih =>
      intro s hclean
      have hz := (clean_string.mp hclean).2
      -- the read fits or not by the string and its own; the rest is about the turns that come back
      rw [Tidy, Fair, and_iff_right hclean, ← List.length_append, ← (fill_past hz).1]
      refine and_congr_right fun hfits => forall_congr' fun t => ?_
      refine forall_congr' fun hread => forall_congr' fun hquit => ?_
      have hstep := clean_step hz hread hquit hfits
      constructor
      · intro htidy
        exact ⟨hstep.mp htidy.clean, (ih htidy.clean).mp htidy⟩
      · rintro ⟨hzero, hfair⟩
        exact (ih (hstep.mpr hzero)).mpr hfair

/-- Reads without a zero byte that fit the array together. -/
theorem fair_of_short (hfree : ∀ s bytes, ¬ l.stuck s bytes) :
    ∀ (reads : List Str) {s : σ}, Zero (pastString (l.buff s)) → '\x00' ∉ reads.flatten →
    (cstr (l.buff s)).length + reads.flatten.length < l.size → l.Fair s reads := by
  intro reads
  induction reads with
  | nil => exact fun _ _ _ => trivial
  | cons bytes reads ih =>
      intro s hz hnul hlen
      rw [List.flatten_cons, List.mem_append, not_or] at hnul
      rw [List.flatten_cons, List.length_append] at hlen
      have hbytes : cstr bytes = bytes := cstr_eq hnul.1
      have hpast : Zero (pastString bytes) := by
        rw [pastString, hbytes, List.drop_length]
        exact zero_nil
      have hfits : (cstr (fill (l.buff s) bytes)).length < l.size := by
        rw [(fill_past hz).1, hbytes, List.length_append]
        omega
      rw [Fair, hbytes]
      refine ⟨by omega, fun t hread hquit => ⟨⟨hpast, hfree s bytes⟩, ?_⟩⟩
      -- the lines only make the string shorter
      have hle := (l.taken hread hquit (hfree s bytes)).past.1.length_le
      rw [(fill_past hz).1, hbytes, List.length_append] at hle
      have hclean := (clean_step hz hread hquit hfits).mpr ⟨hpast, hfree s bytes⟩
      exact ih (clean_string.mp hclean).2 hnul.2 (by omega)

/-- The first read goes to the front of the array. -/
theorem tidy_start_iff (hsize : 0 < l.size) (reads : List Str) :
    l.Tidy s 0 reads ↔ Zero (l.buff s) ∧ l.Fair s reads := by
  constructor
  · intro htidy
    have hz : Zero (l.buff s) := htidy.clean.zero
    have hlen : (cstr (l.buff s)).length = 0 := by rw [hz.cstr, List.length_nil]
    refine ⟨hz, (tidy_iff reads ?_).mp ?_⟩
    · rw [hlen]
      exact htidy.clean
    · rwa [hlen]
  · rintro ⟨hz, hfair⟩
    have hlen : (cstr (l.buff s)).length = 0 := by rw [hz.cstr, List.length_nil]
    have hclean : Clean l.size (l.buff s) (cstr (l.buff s)).length := by
      rw [hlen]
      exact ⟨hsize, List.not_mem_nil, hz⟩
    have htidy := (tidy_iff reads hclean).mpr hfair
    rwa [hlen] at htidy

end ReadLoop

/-! ## The two loops -/

theorem Session.drain_taken :
    ∀ (fuel : Nat) {s t : Session}, drain fuel s = some t → t.quit = false →
    LinesTaken s.buff t.buff := by
  intro fuel
  induction fuel with
  | zero =>
      rintro s t ⟨⟩ _
      exact .done _
  | succ fuel ih =>
      intro s t h hquit
      rw [drain] at h
      cases hline : Lib.firstIdx crlf (cstr s.buff) with
      | none =>
          rw [hline] at h
          cases h
          exact .done _
      | some i =>
          rw [hline] at h
          obtain ⟨u, hu, h⟩ := Option.bind_eq_some_iff.mp h
          split at h
          · rename_i hend
            cases h
            rw [hquit] at hend
            cases hend
          · refine .line hline ?_
            rw [← (line_cases hu).1]
            exact ih h hquit

/-- `worker_thread`. -/
def workerLoop : ReadLoop Session where
  size := buffSize
  buff := Session.buff
  quit := Session.quit
  read := Session.read
  stuck _ _ := False
  taken := by
    intro s t bytes h hquit _
    rw [Session.read] at h
    split at h
    · exact Session.drain_taken _ h hquit
    · cases h
  left _ _ hstuck := hstuck.elim

/-- The text ends with a line, and none before it is a `DATA` line. -/
structure EndsOutside (text : Str) : Prop where
  ne : text ≠ []
  whole : unfinished text = []
  outside : ∀ l ∈ (lineReads text).dropLast, sameCase l dataHead = false

theorem endsOutside_line {l : Str} (hl : IsLine l) : EndsOutside l := by
  have hreads : lineReads l = [l] := by
    have h := lineReads_line (b := []) hl
    rwa [List.append_nil] at h
  refine ⟨?_, ?_, fun l' hl' => ?_⟩
  · rintro rfl
    obtain ⟨i, -, hlen⟩ := hl.firstIdx []
    cases hlen
  · have h := unfinished_line (b := []) hl
    rw [List.append_nil] at h
    exact h
  · rw [hreads] at hl'
    cases hl'

theorem endsOutside_cons {l x : Str} (hl : IsLine l) (hx : x ≠ []) :
    EndsOutside (l ++ x) ↔ sameCase l dataHead = false ∧ EndsOutside x := by
  have hne : lineReads x ≠ [] := by
    rcases line_or_part x with hpart | ⟨l', b, rfl, hl'⟩
    · rw [lineReads_part hpart, if_neg hx]
      exact List.cons_ne_nil x []
    · rw [lineReads_line hl']
      exact List.cons_ne_nil _ _
  have hreads : (lineReads (l ++ x)).dropLast = l :: (lineReads x).dropLast := by
    rw [lineReads_line hl, List.dropLast_cons_of_ne_nil hne]
  constructor
  · rintro ⟨-, hwhole, houtside⟩
    rw [unfinished_line hl] at hwhole
    rw [hreads, List.forall_mem_cons] at houtside
    exact ⟨houtside.1, hx, hwhole, houtside.2⟩
  · rintro ⟨hfirst, -, hwhole, houtside⟩
    refine ⟨fun hnil => hx (List.append_eq_nil_iff.mp hnil).2, ?_, ?_⟩
    · rw [unfinished_line hl, hwhole]
    · rw [hreads, List.forall_mem_cons]
      exact ⟨hfirst, houtside⟩

namespace Reader

variable {f : Frame} {s t : Reader}

/-- The last line of the buffer is going to lose its first byte. -/
def Stuck (f : Frame) (s : Reader) : Prop :=
  f.overlaps = true ∧ s.data = false ∧ EndsOutside (cstr s.buff)

/-- What the six bytes of `command` are is the whole line. -/
theorem isLine_head {y : Str} (h : sameCase y dataHead = true) : IsLine y := by
  have hmap : y.map Char.toLower = ['d', 'a', 't', 'a', '\r', '\n'] := beq_iff_eq.mp h
  obtain ⟨c₁, y, rfl, h₁, hmap⟩ := List.map_eq_cons_iff.mp hmap
  obtain ⟨c₂, y, rfl, h₂, hmap⟩ := List.map_eq_cons_iff.mp hmap
  obtain ⟨c₃, y, rfl, h₃, hmap⟩ := List.map_eq_cons_iff.mp hmap
  obtain ⟨c₄, y, rfl, h₄, hmap⟩ := List.map_eq_cons_iff.mp hmap
  obtain ⟨c₅, y, rfl, h₅, hmap⟩ := List.map_eq_cons_iff.mp hmap
  obtain ⟨c₆, y, rfl, h₆, hmap⟩ := List.map_eq_cons_iff.mp hmap
  obtain rfl := List.map_eq_nil_iff.mp hmap
  obtain rfl : c₅ = '\r' := toLower_eq_of_lt (by decide) h₅
  obtain rfl : c₆ = '\n' := toLower_eq_of_lt (by decide) h₆
  refine ⟨[c₁, c₂, c₃, c₄], rfl, fun hin => ?_⟩
  have hr : '\r' ∈ [c₁, c₂, c₃, c₄] := hin.subset (by decide)
  simp only [List.mem_cons, List.not_mem_nil, or_false] at hr
  rcases hr with rfl | rfl | rfl | rfl
  · exact absurd h₁ (by decide)
  · exact absurd h₂ (by decide)
  · exact absurd h₃ (by decide)
  · exact absurd h₄ (by decide)

theorem sameCase_head {l : Str} (hl : IsLine l) (x : Str) :
    sameCase ((l ++ x).take 6) dataHead = sameCase l dataHead := by
  rw [Bool.eq_iff_iff]
  constructor
  · intro h
    have hfront : (l ++ x).take 6 ++ (l ++ x).drop 6 = l ++ x := List.take_append_drop 6 _
    rwa [line_unique (isLine_head h) hl hfront] at h
  · intro h
    have hlen : l.length = 6 := by
      have hmap := congrArg List.length (beq_iff_eq.mp h)
      rwa [List.length_map, List.length_map] at hmap
    rwa [← hlen, List.take_left]

/-- A line with which the reading goes on. -/
theorem line_on {l x : Str} (hl : IsLine l) (hcstr : cstr s.buff = l ++ x)
    (hquit : (s.line f l.length).quit = false) :
    s.data = true ∧ (s.line f l.length).data = true ∧ (s.line f l.length).buff = s.buff ∨
      s.data = false ∧ (s.line f l.length).data = sameCase l dataHead ∧
        (s.line f l.length).buff = f.store s.buff := by
  cases hdata : s.data with
  | true =>
      by_cases hdot : cstr s.buff = dotCrlf
      · rw [line_dot hdata hdot] at hquit
        cases hquit
      · rw [line_row hdata hdot]
        exact Or.inl ⟨rfl, hdata, rfl⟩
  | false =>
      refine Or.inr ⟨rfl, ?_⟩
      rw [line, hdata, if_neg (by decide), hcstr] at hquit ⊢
      simp only [sameCase_head hl] at hquit ⊢
      cases hhead : sameCase l dataHead with
      | true => exact ⟨rfl, rfl⟩
      | false =>
          rw [hhead] at hquit
          simp only [Bool.false_eq_true, if_false] at hquit ⊢
          split_ifs at hquit ⊢
          exact ⟨rfl, rfl⟩

/-- A line that has lost its first byte is not all zeros. -/
theorem not_zero_set {l p : Str} (hl : IsLine l) : ¬ Zero (pastString ((l ++ p).set 0 '\x00')) := by
  obtain ⟨a, rfl, -⟩ := hl
  intro hz
  refine absurd (hz '\n' ?_) (by decide)
  cases a with
  | nil => exact List.mem_cons_of_mem _ List.mem_cons_self
  | cons c a =>
      have hmem : '\n' ∈ a ++ crlf ++ p :=
        List.mem_append_left _ (List.mem_append_right _ (by decide))
      exact List.mem_cons_of_mem _ hmem

/-- A line alone in the buffer that has lost its first byte stays there. -/
theorem stays_line {buff l : Str} (hl : IsLine l) (hcstr : cstr buff = l) :
    cleared (buff.set 0 '\x00') l.length = some (buff.set 0 '\x00') ∧
      cstr (buff.set 0 '\x00') = [] ∧ ¬ Zero (pastString (buff.set 0 '\x00')) := by
  obtain ⟨i, -, hend⟩ := hl.firstIdx []
  have hsplit := cstr_past buff
  rw [hcstr] at hsplit
  refine ⟨cleared_stuck (by omega) (by rw [hcstr]), by cases buff <;> rfl, ?_⟩
  rw [← hsplit]
  exact not_zero_set hl

/-- **The lines of a turn** are taken off, all but one that ends the buffer outside of the data. -/
theorem drain_taken (f : Frame) : ∀ (fuel : Nat) {s t : Reader}, (cstr s.buff).length ≤ fuel →
    drain f fuel s = some t → t.quit = false →
    (¬ Stuck f s → LinesTaken s.buff t.buff) ∧ (Stuck f s → ¬ Zero (pastString t.buff)) := by
  intro fuel
  induction fuel with
  | zero =>
      rintro s t hlen ⟨⟩ -
      refine ⟨fun _ => .done _, fun hstuck => ?_⟩
      exact absurd (List.eq_nil_of_length_eq_zero (Nat.le_zero.mp hlen)) hstuck.2.2.ne
  | succ fuel ih =>
      intro s t hlen h hquit
      rw [drain] at h
      rcases line_or_part (cstr s.buff) with hpart | ⟨l, x, hcstr, hl⟩
      · rw [Lib.firstIdx_eq_none.mpr hpart] at h
        cases h
        refine ⟨fun _ => .done _, fun hstuck => ?_⟩
        have hwhole := hstuck.2.2.whole
        rw [unfinished_part hpart] at hwhole
        exact absurd hwhole hstuck.2.2.ne
      · obtain ⟨i, hi, hend⟩ := hl.firstIdx x
        rw [← hcstr] at hi
        simp only [hi, ← hend] at h
        split at h
        · rename_i hq
          cases h
          rw [hquit] at hq
          cases hq
        · rename_i hq
          obtain ⟨buff, hbuff, h⟩ := Option.bind_eq_some_iff.mp h
          have hpos : 0 < l.length := by omega
          have hall : (cstr s.buff).length = l.length + x.length := by
            rw [hcstr, List.length_append]
          -- a line is taken out, and the turn goes on
          have hon : buff = clearBuffer s.buff l.length →
              (Stuck f { s.line f l.length with buff := buff } ↔ Stuck f s) →
              (¬ Stuck f s → LinesTaken s.buff t.buff) ∧
              (Stuck f s → ¬ Zero (pastString t.buff)) := by
            rintro rfl hsame
            have hrest := ih (s := { s.line f l.length with buff := clearBuffer s.buff l.length })
              (by rw [cstr_clearBuffer hpos, List.length_drop]; omega) h hquit
            refine ⟨fun hno => .line hi ?_, fun hstuck => hrest.2 (hsame.mpr hstuck)⟩
            rw [← hend]
            exact hrest.1 fun hstuck => hno (hsame.mp hstuck)
          have hstring : cleared s.buff l.length = some (clearBuffer s.buff l.length) :=
            cleared_string hpos (by omega)
          rcases line_on hl hcstr (Bool.eq_false_iff.mpr hq) with ⟨hs, hdata, hb⟩ | ⟨hs, hdata, hb⟩
          · rw [hb, hstring, Option.some.injEq] at hbuff
            refine hon hbuff.symm (iff_of_false (fun hstuck => ?_) fun hstuck => ?_)
            · exact absurd (hdata.symm.trans hstuck.2.1) (by decide)
            · exact absurd (hs.symm.trans hstuck.2.1) (by decide)
          · rw [hb, Frame.store] at hbuff
            cases hf : f.overlaps with
            | false =>
                rw [hf, if_neg Bool.false_ne_true, hstring, Option.some.injEq] at hbuff
                have hapart : ∀ u, ¬ Stuck f u := fun u hstuck =>
                  absurd (hf.symm.trans hstuck.1) (by decide)
                exact hon hbuff.symm (iff_of_false (hapart _) (hapart s))
            | true =>
                rw [hf, if_pos rfl] at hbuff
                by_cases hx : x = []
                · -- there is nothing behind the line, and it stays
                  subst hx
                  rw [List.append_nil] at hcstr
                  obtain ⟨hstays, hempty, htail⟩ := stays_line hl hcstr
                  rw [hstays, Option.some.injEq] at hbuff
                  subst hbuff
                  rw [drain_part (by simp only [hempty]; decide)] at h
                  cases h
                  have hends : EndsOutside (cstr s.buff) := by
                    rw [hcstr]
                    exact endsOutside_line hl
                  exact ⟨fun hno => absurd ⟨hf, hs, hends⟩ hno, fun _ => htail⟩
                · have hmore := List.length_pos_iff.mpr hx
                  rw [cleared_front hpos (by omega), Option.some.injEq] at hbuff
                  refine hon hbuff.symm ?_
                  have hrest : cstr buff = x := by
                    rw [← hbuff, cstr_clearBuffer hpos, hcstr, List.drop_left]
                  rw [Stuck, Stuck, hf, hs, hcstr, endsOutside_cons hl hx]
                  simp only [hdata, hrest, true_and]

end Reader

/-- `do_read`. -/
def replyLoop (f : Reader.Frame) : ReadLoop Reader where
  size := replyBuffSize
  buff := Reader.buff
  quit := Reader.quit
  read := Reader.read f
  stuck s bytes := Reader.Stuck f { s with buff := fill s.buff bytes }
  taken := by
    intro s t bytes h hquit hstuck
    rw [Reader.read] at h
    split at h
    · exact (Reader.drain_taken f _ (Nat.le_refl _) h hquit).1 hstuck
    · cases h
  left := by
    intro s t bytes h hquit hstuck
    rw [Reader.read] at h
    split at h
    · exact (Reader.drain_taken f _ (Nat.le_refl _) h hquit).2 hstuck
    · cases h

/--
The first turn of `worker_thread`, whatever is in its array: `strlen` looks at that, and
`curr` is at its front.
-/
def Session.firstRead (s : Session) (bytes : Str) : Option Session :=
  let buff := bytes ++ s.buff.drop bytes.length
  if (cstr s.buff).length + bytes.length ≤ buffSize ∧ (cstr buff).length < buffSize then
    drain (cstr buff).length (s.load buff)
  else none

theorem Session.firstRead_zero {s : Session} (hz : Zero s.buff)
    (hquit : s.quit = false) (bytes : Str) :
    s.firstRead bytes = s.read bytes := by
  rw [firstRead, read, Session.fill_zero hz]
  simp [hquit]

/--
**`clear_buffer` and the arrays it clears.** It takes a line out of a string with zeros behind
it, and the two loops find such a string before every read exactly if the array of
`worker_thread` holds nothing but zeros when it begins, and the reads are fair.
-/
theorem clearBuffer_tidy_iff (a b z atStart : Str) (f : Reader.Frame) (reads : List Str) :
    (a ≠ [] → '\x00' ∉ a ++ b → Zero z → z ≠ [] → clearBufferAt (a ++ b ++ z) a.length
      = some (b ++ List.replicate (a.length + z.length) '\x00')) ∧
    (workerLoop.Tidy { buff := atStart } 0 reads ↔
      Zero atStart ∧ workerLoop.Fair { buff := atStart } reads) ∧
    ((replyLoop f).Tidy {} 0 reads ↔ (replyLoop f).Fair {} reads) := by
  refine ⟨fun ha hfree hz hne => clearBufferAt_zero ha hfree hz hne, ?_, ?_⟩
  · exact ReadLoop.tidy_start_iff (l := workerLoop) (by decide) reads
  · have hsize : 0 < (replyLoop f).size := show 0 < replyBuffSize by decide
    rw [ReadLoop.tidy_start_iff hsize reads]
    exact and_iff_right zero_nil

/-- A command, the front of another one, and its end; and a reply that is cut in its text. -/
theorem twoReads_tidy :
    clearBufferAt ['N', '\r', '\n', 'Q', 'U', 'I', '\x00', '\x00'] 3
      = some (['Q', 'U', 'I'] ++ List.replicate 5 '\x00') ∧
    workerLoop.Tidy { buff := List.replicate 5000 '\x00' } 0 ["NOOP\r\nQU".toList,
      "IT\r\n".toList] ∧
    (replyLoop ⟨true, true⟩).Tidy {} 0 ["DATA\r\na".toList, "b\r\n.\r\n".toList] := by
  have hzero := zero_replicate 5000
  have hstart : cstr (List.replicate 5000 '\x00') = [] := hzero.cstr
  obtain ⟨hclear, hworker, -⟩ := clearBuffer_tidy_iff ['N', '\r', '\n'] ['Q', 'U', 'I']
    ['\x00', '\x00']
    (List.replicate 5000 '\x00') ⟨true, true⟩ ["NOOP\r\nQU".toList, "IT\r\n".toList]
  obtain ⟨-, -, hreply⟩ :=
    clearBuffer_tidy_iff [] [] [] [] ⟨true, true⟩ ["DATA\r\na".toList, "b\r\n.\r\n".toList]
  refine ⟨hclear (by decide) (by decide) (zero_replicate 2) (by decide),
    hworker.mpr ⟨hzero, ReadLoop.fair_of_short (fun _ _ hstuck => hstuck) _ ?_ (by decide) ?_⟩,
    hreply.mpr ⟨by decide, fun t ht _ => ⟨⟨zero_nil, fun hstuck => ?_⟩, ?_⟩⟩⟩
  · exact hzero.drop _
  · show (cstr (List.replicate 5000 '\x00')).length + _ < _
    rw [hstart]
    decide
  · exact absurd hstuck.2.2.whole (by decide)
  · -- the second read ends the reply
    have hfirst : Reader.read ⟨true, true⟩ {} "DATA\r\na".toList
        = some { data := true, buff := 'a' :: List.replicate 6 '\x00' } := by rfl
    cases hfirst.symm.trans ht
    have hlast : (Reader.read ⟨true, true⟩ { data := true, buff := 'a' :: List.replicate 6 '\x00' }
        "b\r\n.\r\n".toList).map Reader.quit = some true := by rfl
    refine ⟨by decide, fun u hu hquit => ?_⟩
    have hu' : Reader.read ⟨true, true⟩ { data := true, buff := 'a' :: List.replicate 6 '\x00' }
        "b\r\n.\r\n".toList = some u := hu
    rw [hu', Option.map_some, Option.some.injEq] at hlast
    exact absurd (hquit.symm.trans hlast) (by decide)

/-- What an earlier thread has left where the array of the next one is. -/
def leftBehind : Str := "HELO a.b\r\nQUIT\r\n".toList ++ ['\x00', 'x']

/-- A zero byte with another one behind it. -/
def zeroInside : Str := ['a', '\x00', 'b']

/--
The arrays are not clean: when `worker_thread` begins, where the front of a first command then
completes two that the client has not sent; when a zero byte has come with others behind it,
which `do_read` keeps too; behind a `DATA` line that has come alone, where `command[6]` is
`buff[0]`; and a read as long as the array leaves no zero.
-/
theorem arrays_untidy :
    (¬ Zero (pastString leftBehind) ∧ ¬ workerLoop.Tidy { buff := leftBehind } 0 [] ∧
      (Session.firstRead { buff := leftBehind } "HELO a".toList).map (fun s => (s.quit, s.handled))
        = some (true, [.command "HELO a.b\r\n".toList, .command "QUIT\r\n".toList])) ∧
    ¬ workerLoop.Tidy {} 0 [zeroInside] ∧ (∀ f, ¬ (replyLoop f).Tidy {} 0 [zeroInside]) ∧
    (∀ ended, ¬ (replyLoop ⟨true, ended⟩).Tidy {} 0 [dataHead]) ∧
    ¬ workerLoop.Tidy {} 0 [List.replicate 5000 'a'] := by
  have hstale : ¬ Zero (pastString zeroInside) := fun hz =>
    absurd (hz 'b' (by decide)) (by decide)
  have hsize : ∀ f, 0 < (replyLoop f).size := fun _ => show 0 < replyBuffSize by decide
  refine ⟨⟨fun hz => ?_, fun h => ?_, by decide +kernel⟩, fun h => ?_, fun f h => ?_,
    fun ended h => ?_, fun h => ?_⟩
  · exact absurd (hz 'x' (by decide)) (by decide)
  · exact absurd (h.zero 'H' (by decide)) (by decide)
  · have hfair := ((ReadLoop.tidy_start_iff (by decide) _).mp h).2
    exact hstale (hfair.2 _ rfl rfl).1.1
  · have hfair := ((ReadLoop.tidy_start_iff (hsize f) _).mp h).2
    have hread : (replyLoop f).read {} zeroInside = some { buff := zeroInside } := by
      obtain ⟨overlaps, ended⟩ := f
      cases overlaps <;> cases ended <;> rfl
    exact hstale (hfair.2 _ hread rfl).1.1
  · have hfair := ((ReadLoop.tidy_start_iff (hsize _) _).mp h).2
    have hread : (replyLoop ⟨true, ended⟩).read {} dataHead
        = some { data := true, buff := dataHead.set 0 '\x00' } := by
      cases ended <;> rfl
    exact (hfair.2 _ hread rfl).1.2 ⟨rfl, rfl,
      endsOutside_line ⟨"DATA".toList, by decide, by decide⟩⟩
  · have hfair := ((ReadLoop.tidy_start_iff (by decide) _).mp h).2
    have hfree : '\x00' ∉ List.replicate 5000 'a' :=
      fun hm => absurd (List.eq_of_mem_replicate hm) (by decide)
    have hfits := hfair.1
    rw [cstr_eq hfree, List.length_replicate] at hfits
    exact absurd hfits (by decide)

end PennCloud
