import PennCloud.Webmail.SmtpSteps

/-!
# Clearing a buffer

`clear_buffer` moves what is behind a line to the front of the array, byte by byte,
and puts a zero where each byte was; a second loop zeroes what is left of the line.
The places it reads from and writes to are both in the array, and how far the
second loop has to go depends on which of the two parts is longer. In between the
array is the moved bytes, a gap as long as the line, and the bytes to be moved.
Every access is checked here; none fails.
-/

namespace PennCloud

open Str

open Session (Zero)

/-- `mem[i] = c`; none outside of the array. -/
def store (mem : Str) (i : Nat) (c : Char) : Option Str :=
  if i < mem.length then some (mem.set i c) else none

/-- `while (*end != '\0') { *curr++ = *end; *end++ = '\0'; }`, and where `curr` is then. -/
def moveLoop : Nat → Str → Nat → Nat → Option (Str × Nat)
  | 0, _, _, _ => none
  | fuel + 1, mem, curr, end' =>
    mem[end']?.bind fun c =>
      -- `*end` is read once more for the move; `curr` is in front of it
      if c = '\x00' then some (mem, curr)
      else (store mem curr c).bind fun mem => (store mem end' '\x00').bind fun mem =>
        moveLoop fuel mem (curr + 1) (end' + 1)

/-- `while (*curr != '\0') *curr++ = '\0';` -/
def wipeLoop : Nat → Str → Nat → Option Str
  | 0, _, _ => none
  | fuel + 1, mem, curr =>
    mem[curr]?.bind fun c =>
      if c = '\x00' then some mem
      else (store mem curr '\x00').bind fun mem => wipeLoop fuel mem (curr + 1)

/-- `clear_buffer(mem, mem + end)` on the whole array; each round of a loop moves on by one byte. -/
def clearBufferAt (mem : Str) (end' : Nat) : Option Str :=
  (moveLoop (mem.length + 1) mem 0 end').bind fun r => wipeLoop (mem.length + 1) r.1 r.2

variable {a b z : Str}

/-! ## The array at a place -/

theorem getElem?_at (a : Str) (c : Char) (b : Str) : (a ++ c :: b)[a.length]? = some c := by
  rw [List.getElem?_append_right (Nat.le_refl _), Nat.sub_self, List.getElem?_cons_zero]

theorem store_at (a : Str) (c d : Char) (b : Str) :
    store (a ++ c :: b) a.length d = some (a ++ d :: b) := by
  have hin : a.length < (a ++ c :: b).length := by
    rw [List.length_append, List.length_cons]
    omega
  rw [store, if_pos hin, List.set_append_right _ _ (Nat.le_refl _), Nat.sub_self,
    List.set_cons_zero]

/-! ## The loops -/

/-- The gap when `n` bytes have been moved over it: its front is overwritten, zeros come
in behind. -/
def gapAfter (gap : Str) (n : Nat) : Str := (gap ++ List.replicate n '\x00').drop n

theorem gapAfter_succ (c : Char) (gap : Str) (n : Nat) :
    gapAfter (c :: gap) (n + 1) = gapAfter (gap ++ ['\x00']) n := by
  rw [gapAfter, gapAfter, List.replicate_succ, List.cons_append, List.drop_succ_cons,
    List.append_assoc, List.singleton_append]

/--
**The move.** A round overwrites the first byte of the gap and adds a zero behind it: the
gap travels through the array and keeps its length.
-/
theorem moveLoop_gap (rest : Str) : ∀ (b done gap : Str) (fuel : Nat), gap ≠ [] → '\x00' ∉ b →
    b.length < fuel → moveLoop fuel (done ++ gap ++ (b ++ '\x00' :: rest)) done.length
      (done ++ gap).length
      = some (done ++ b ++ gapAfter gap b.length ++ '\x00' :: rest, (done ++ b).length) := by
  intro b
  induction b with
  | nil =>
      intro done gap fuel _ _ hfuel
      obtain ⟨fuel, rfl⟩ := Nat.exists_eq_succ_of_ne_zero (Nat.ne_of_gt hfuel)
      rw [moveLoop, List.nil_append, getElem?_at, Option.bind_some, if_pos rfl,
        List.append_nil, gapAfter]
      simp
  | cons c b ih =>
      intro done gap fuel hgap hfree hfuel
      obtain ⟨fuel, rfl⟩ := Nat.exists_eq_succ_of_ne_zero (Nat.ne_of_gt (Nat.zero_lt_of_lt hfuel))
      obtain ⟨g, gap, rfl⟩ := List.exists_cons_of_ne_nil hgap
      rw [List.mem_cons, not_or] at hfree
      have hread : (done ++ (g :: gap) ++ (c :: b ++ '\x00' :: rest))[(done ++ (g :: gap)).length]?
        = some c :=
        getElem?_at (done ++ (g :: gap)) c (b ++ '\x00' :: rest)
      -- the byte goes over the gap's first one, and its own place becomes the gap's last one
      have hfirst : store (done ++ (g :: gap) ++ (c :: b ++ '\x00' :: rest)) done.length c
          = some (done ++ (c :: gap) ++ (c :: b ++ '\x00' :: rest)) := by
        rw [List.append_assoc, List.append_assoc]
        exact store_at done g c _
      have hlast : store (done ++ (c :: gap) ++ (c :: b ++ '\x00' :: rest))
        (done ++ (g :: gap)).length '\x00'
          = some (done ++ [c] ++ (gap ++ ['\x00']) ++ (b ++ '\x00' :: rest)) := by
        have hlen : (done ++ (g :: gap)).length = (done ++ (c :: gap)).length := by simp
        rw [hlen, List.cons_append, store_at]
        simp
      have hnext : (done ++ (g :: gap)).length + 1 = (done ++ [c] ++ (gap ++ ['\x00'])).length := by
        simp; omega
      have hdone : done.length + 1 = (done ++ [c]).length := by simp
      rw [moveLoop, hread, Option.bind_some, if_neg (Ne.symm hfree.1), hfirst,
        Option.bind_some, hlast, Option.bind_some, hnext, hdone,
        ih _ _ _ (by simp) hfree.2 (Nat.lt_of_succ_lt_succ hfuel), List.length_cons,
        gapAfter_succ]
      simp

/-- **The wipe** goes on to the first zero. -/
theorem wipeLoop_text (rest : Str) : ∀ (x done : Str) (fuel : Nat), '\x00' ∉ x → x.length < fuel →
    wipeLoop fuel (done ++ (x ++ '\x00' :: rest)) done.length
      = some (done ++ (List.replicate x.length '\x00' ++ '\x00' :: rest)) := by
  intro x
  induction x with
  | nil =>
      intro done fuel _ hfuel
      obtain ⟨fuel, rfl⟩ := Nat.exists_eq_succ_of_ne_zero (Nat.ne_of_gt hfuel)
      rw [wipeLoop, List.nil_append, getElem?_at, Option.bind_some, if_pos rfl]
      rfl
  | cons c x ih =>
      intro done fuel hfree hfuel
      obtain ⟨fuel, rfl⟩ := Nat.exists_eq_succ_of_ne_zero (Nat.ne_of_gt (Nat.zero_lt_of_lt hfuel))
      rw [List.mem_cons, not_or] at hfree
      have hdone : done.length + 1 = (done ++ ['\x00']).length := by simp
      rw [wipeLoop, List.cons_append, getElem?_at, Option.bind_some,
        if_neg (Ne.symm hfree.1), store_at, Option.bind_some, hdone, List.append_cons,
        ih _ _ hfree.2 (Nat.lt_of_succ_lt_succ hfuel)]
      simp [List.replicate_succ]

/-! ## Both of them -/

theorem zeros_cons (k : Nat) (rest : Str) :
    List.replicate k '\x00' ++ '\x00' :: rest = '\x00' :: (List.replicate k '\x00' ++ rest) := by
  rw [← List.singleton_append, ← List.append_assoc, ← List.replicate_succ', List.replicate_succ,
    List.cons_append]

/-- What is left of the line, and behind it as many zeros as bytes have gone over it. -/
theorem gapAfter_eq (a : Str) (n : Nat) :
    gapAfter a n = a.drop n ++ List.replicate (min n a.length) '\x00' := by
  rw [gapAfter, List.drop_append, List.drop_replicate]
  congr 2
  omega

/-- **`clear_buffer` takes the line out** of a string that is terminated in the array. -/
theorem clearBufferAt_text (ha : a ≠ []) (hfree : '\x00' ∉ a ++ b) (rest : Str) :
    clearBufferAt (a ++ b ++ '\x00' :: rest) a.length
      = some (b ++ List.replicate a.length '\x00' ++ '\x00' :: rest) := by
  rw [List.mem_append, not_or] at hfree
  have hlen : (a ++ b ++ '\x00' :: rest).length = a.length + b.length + rest.length + 1 := by
    simp only [List.length_append, List.length_cons]
    omega
  have hmove :=
    moveLoop_gap rest b [] a ((a ++ b ++ '\x00' :: rest).length + 1) ha hfree.2 (by omega)
  have hline : '\x00' ∉ a.drop b.length := fun hm => hfree.1 (List.mem_of_mem_drop hm)
  -- what `b` has not gone over of the line: nothing, if `b` is the longer part
  have hwipe := wipeLoop_text (List.replicate (min b.length a.length) '\x00' ++ rest)
    (a.drop b.length) b
    ((a ++ b ++ '\x00' :: rest).length + 1) hline (by rw [List.length_drop]; omega)
  rw [List.nil_append, List.nil_append, List.length_nil, ← List.append_assoc] at hmove
  have hgap : b ++ gapAfter a b.length ++ '\x00' :: rest = b ++ (a.drop b.length ++
      '\x00' :: (List.replicate (min b.length a.length) '\x00' ++ rest)) := by
    rw [gapAfter_eq, ← zeros_cons, List.append_assoc, List.append_assoc]
  have hzeros : (a.drop b.length).length + min b.length a.length = a.length := by
    rw [List.length_drop]
    omega
  rw [clearBufferAt, hmove, Option.bind_some, hgap, hwipe, ← zeros_cons,
    ← List.append_assoc (List.replicate _ _), List.replicate_append_replicate, hzeros,
    List.append_assoc]

/-- Nothing but zeros behind the string: nothing but zeros then. -/
theorem clearBufferAt_zero (ha : a ≠ []) (hfree : '\x00' ∉ a ++ b) (hz : Zero z) (hne : z ≠ []) :
    clearBufferAt (a ++ b ++ z) a.length
      = some (b ++ List.replicate (a.length + z.length) '\x00') := by
  obtain ⟨c, rest, rfl⟩ := List.exists_cons_of_ne_nil hne
  obtain rfl := hz c List.mem_cons_self
  have hrest : '\x00' :: rest = List.replicate (rest.length + 1) '\x00' :=
    List.eq_replicate_of_mem hz
  rw [clearBufferAt_text ha hfree, List.append_assoc, List.length_cons, hrest,
    List.replicate_append_replicate]

/-- If bytes are moved, the first of them goes over whatever is at the front. -/
theorem clearBufferAt_front (hb : b ≠ []) (hfree : '\x00' ∉ b) (c d : Char) (a rest : Str) :
    clearBufferAt (c :: a ++ b ++ '\x00' :: rest) (a.length + 1)
      = clearBufferAt (d :: a ++ b ++ '\x00' :: rest) (a.length + 1) := by
  have hmove : ∀ e : Char, moveLoop ((e :: a ++ b ++ '\x00' :: rest).length + 1)
      (e :: a ++ b ++ '\x00' :: rest) 0 (a.length + 1)
        = some (b ++ gapAfter (e :: a) b.length ++ '\x00' :: rest, b.length) := by
    intro e
    have hgap := moveLoop_gap rest b [] (e :: a) ((e :: a ++ b ++ '\x00' :: rest).length + 1)
      (List.cons_ne_nil e a) hfree (by simp only [List.length_append, List.length_cons]; omega)
    rwa [List.nil_append, List.nil_append, ← List.append_assoc] at hgap
  have hgaps : gapAfter (c :: a) b.length = gapAfter (d :: a) b.length := by
    obtain ⟨n, hn⟩ := Nat.exists_eq_succ_of_ne_zero (mt List.length_eq_zero_iff.mp hb)
    rw [hn, gapAfter_succ, gapAfter_succ]
  have hlen : (c :: a ++ b ++ '\x00' :: rest).length = (d :: a ++ b ++ '\x00' :: rest).length := rfl
  rw [clearBufferAt, clearBufferAt, hmove, hmove, hgaps, hlen]

/-- **A line that begins with a zero byte stays** where it is if there is nothing behind it. -/
theorem clearBufferAt_stuck (a rest : Str) :
    clearBufferAt ('\x00' :: a ++ '\x00' :: rest) (a.length + 1)
      = some ('\x00' :: a ++ '\x00' :: rest) := by
  have hend : ('\x00' :: a ++ '\x00' :: rest)[a.length + 1]? = some '\x00' :=
    getElem?_at ('\x00' :: a) '\x00' rest
  rw [clearBufferAt, moveLoop, hend, Option.bind_some, if_pos rfl, Option.bind_some, wipeLoop]
  rfl

/-! ## What the sessions make of it -/

/-- What is in the array from the end of the string on. -/
def pastString (buff : Str) : Str := buff.drop (cstr buff).length

theorem take_cstr (buff : Str) : buff.take (cstr buff).length = cstr buff :=
  (List.prefix_iff_eq_take.mp (List.takeWhile_prefix _)).symm

theorem cstr_past (buff : Str) : cstr buff ++ pastString buff = buff := by
  have hsplit := List.take_append_drop (cstr buff).length buff
  rwa [take_cstr] at hsplit

/-- A zero ends the string, if the array does not. -/
theorem past_cases (buff : Str) : pastString buff = [] ∨ ∃ t, pastString buff = '\x00' :: t := by
  have hsplit := cstr_append (cstr_noNul buff) (pastString buff)
  rw [cstr_past] at hsplit
  have hend := List.append_right_eq_self.mp hsplit.symm
  cases hp : pastString buff with
  | nil => exact Or.inl rfl
  | cons c t =>
      by_cases hc : c = '\x00'
      · exact Or.inr ⟨t, by rw [hc]⟩
      · -- the string would go on
        have hmore : cstr (c :: t) = c :: cstr t := cstr_append (s := [c]) (by simp [Ne.symm hc]) t
        rw [hp, hmore] at hend
        cases hend

/-- **`clearBuffer` is what `clear_buffer` does to the array**, which is zero behind `buff`. -/
theorem clearBufferAt_clearBuffer (buff : Str) {end' : Nat} (hpos : 0 < end')
    (hle : end' ≤ (cstr buff).length)
    (n : Nat) : clearBufferAt (buff ++ List.replicate (n + 1) '\x00') end'
      = some (clearBuffer buff end' ++ List.replicate (n + 1) '\x00') := by
  obtain ⟨rest, hrest⟩ : ∃ rest, pastString buff ++ List.replicate (n + 1) '\x00'
    = '\x00' :: rest := by
    rcases past_cases buff with hp | ⟨t, hp⟩
    · exact ⟨_, by rw [hp]; rfl⟩
    · exact ⟨_, by rw [hp]; rfl⟩
  have hne : (cstr buff).take end' ≠ [] := by
    rw [Ne, ← List.length_eq_zero_iff, List.length_take]
    omega
  have hlen : ((cstr buff).take end').length = end' := List.length_take_of_le hle
  have hfree : '\x00' ∉ (cstr buff).take end' ++ (cstr buff).drop end' := by
    rw [List.take_append_drop]
    exact cstr_noNul buff
  have htext := clearBufferAt_text hne hfree rest
  rw [List.take_append_drop, hlen, ← hrest, ← List.append_assoc, cstr_past] at htext
  rw [htext, clearBuffer]
  simp only [pastString, List.append_assoc]

/-- `clear_buffer(buff, buff + end)` in an array that is zero behind `buff`. -/
def cleared (buff : Str) (end' : Nat) : Option Str :=
  (clearBufferAt (buff ++ ['\x00']) end').map List.dropLast

theorem cleared_string {buff : Str} {end' : Nat} (hpos : 0 < end')
    (hle : end' ≤ (cstr buff).length) : cleared buff end' = some (clearBuffer buff end') := by
  have hclear := clearBufferAt_clearBuffer buff hpos hle 0
  rw [cleared, show ['\x00'] = List.replicate (0 + 1) '\x00' from rfl, hclear, Option.map_some]
  exact congrArg some List.dropLast_concat

/-- The array with a zero behind it: the string, cut at `end'`, and what is behind the string. -/
theorem string_cut {buff : Str} {end' : Nat} (hpos : 0 < end') (hle : end' ≤ (cstr buff).length) :
    ∃ c a b rest, a.length + 1 = end' ∧ '\x00' ∉ b ∧ (b = [] ↔ end' = (cstr buff).length) ∧
      buff ++ ['\x00'] = c :: a ++ b ++ '\x00' :: rest ∧
      ∀ d : Char, buff.set 0 d ++ ['\x00'] = d :: a ++ b ++ '\x00' :: rest := by
  obtain ⟨rest, hrest⟩ : ∃ rest, pastString buff ++ ['\x00'] = '\x00' :: rest := by
    rcases past_cases buff with hp | ⟨t, hp⟩
    · exact ⟨_, by rw [hp]; rfl⟩
    · exact ⟨_, by rw [hp]; rfl⟩
  have hbuff : buff ++ ['\x00'] = cstr buff ++ '\x00' :: rest := by
    rw [← hrest, ← List.append_assoc, cstr_past]
  obtain ⟨c, a, hline⟩ := List.exists_cons_of_ne_nil
    (l := (cstr buff).take end') (by rw [Ne, ← List.length_eq_zero_iff, List.length_take]; omega)
  have hlen : a.length + 1 = end' := by
    rw [← List.length_cons (a := c), ← hline, List.length_take_of_le hle]
  have hsplit : buff ++ ['\x00'] = c :: a ++ (cstr buff).drop end' ++ '\x00' :: rest := by
    rw [hbuff, ← hline, List.take_append_drop]
  refine ⟨c, a, (cstr buff).drop end', rest, hlen, fun hm => ?_, ?_, hsplit, fun d => ?_⟩
  · exact cstr_noNul buff (List.mem_of_mem_drop hm)
  · rw [List.drop_eq_nil_iff]
    omega
  · have hne : 0 < buff.length := by
      have hstring := (List.takeWhile_prefix (l := buff) (· ≠ '\x00')).length_le
      change (cstr buff).length ≤ _ at hstring
      omega
    rw [← List.set_append_left 0 d hne, hsplit]
    rfl

/-- Whatever is at the front, if there is more than the line. -/
theorem cleared_front {buff : Str} {end' : Nat} (hpos : 0 < end') (hlt : end' < (cstr buff).length)
    (d : Char) : cleared (buff.set 0 d) end' = some (clearBuffer buff end') := by
  obtain ⟨c, a, b, rest, hlen, hfree, hb, hbuff, hset⟩ := string_cut hpos (Nat.le_of_lt hlt)
  have hne : b ≠ [] := fun hnil => Nat.ne_of_lt hlt (hb.mp hnil)
  rw [← cleared_string hpos (Nat.le_of_lt hlt), cleared, cleared, hbuff, hset, ← hlen,
    clearBufferAt_front hne hfree d c]

theorem cleared_stuck {buff : Str} {end' : Nat} (hpos : 0 < end')
    (hend : end' = (cstr buff).length) :
    cleared (buff.set 0 '\x00') end' = some (buff.set 0 '\x00') := by
  obtain ⟨c, a, b, rest, hlen, -, hb, -, hset⟩ := string_cut hpos (Nat.le_of_eq hend)
  have hstuck := clearBufferAt_stuck a rest
  have hzero := hset '\x00'
  rw [hb.mpr hend, List.append_nil] at hzero
  rw [← hzero, hlen] at hstuck
  rw [cleared, hstuck, Option.map_some, List.dropLast_concat]

theorem cstr_clearBuffer {buff : Str} {end' : Nat} (hpos : 0 < end') :
    cstr (clearBuffer buff end') = (cstr buff).drop end' := by
  obtain ⟨k, rfl⟩ := Nat.exists_eq_succ_of_ne_zero (Nat.ne_of_gt hpos)
  have hfree : '\x00' ∉ (cstr buff).drop (k + 1) :=
    fun hm => cstr_noNul buff (List.mem_of_mem_drop hm)
  rw [clearBuffer, List.append_assoc, cstr_append hfree]
  exact List.append_nil _

/-- Only zeros are added behind the string. -/
theorem past_clearBuffer {buff : Str} {end' : Nat} (hpos : 0 < end') :
    pastString (clearBuffer buff end') = List.replicate end' '\x00' ++ pastString buff := by
  rw [pastString, cstr_clearBuffer hpos, clearBuffer, List.append_assoc, List.drop_left]
  rfl

end PennCloud
