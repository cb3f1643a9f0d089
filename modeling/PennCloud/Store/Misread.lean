import PennCloud.Store.Protocol

/-!
# What a worker makes of the rest of a line

When the front of a command line is lost, the worker parses what is left of it as
a command of its own. It never takes that for the command that was sent:
either the keyword is gone, or one of the two names comes out differently
(`misread_header`).
-/

namespace PennCloud

open Str
open Worker (Verb)

/-! ## What a dispatch says about its command line -/

/-- The branch a dispatch belongs to. -/
def Dispatch.verb : Dispatch → Verb
  | .call (.put ..) | .call (.replicaPut ..) => .put
  | .call (.cput ..) => .cput
  | .call (.get ..) => .get
  | .call (.delete ..) | .call (.replicaDelete ..) => .dele
  | .quit => .quit
  | .alive => .alive
  | .promote _ => .promote
  | .recovery _ => .recovery
  | .ready _ => .ready
  | .log => .log
  | .checkpoint => .checkpoint
  | .closeall => .closeall
  | .list => .list
  | .unsupported => .other

/-- The row and column of a call. -/
def Call.names : Call → Str × Str
  | .put row col _ | .replicaPut row col _ _ | .cput row col _ _ | .get row col | .delete row col
  | .replicaDelete row col _ => (row, col)

/-- A dispatch has the branch and the names of its command line. -/
theorem dispatch_line {primary : Bool} {command : Str} {k k' : Worker} {d : Dispatch}
    (h : k.dispatch primary command = .ok (d, k')) :
    d.verb = Worker.verb command ∧ ∀ c, d = .call c → c.names = Worker.parseCommand command := by
  unfold Worker.dispatch at h
  generalize Worker.verb command = v at h
  generalize Worker.parseCommand command = names at h
  obtain ⟨row, col⟩ := names
  have hcall : ∀ {c : Call}, c.names = (row, col) →
      ∀ c', Dispatch.call c = .call c' → c'.names = (row, col) := by
    rintro c hc c' he
    cases he
    exact hc
  cases v with
  | put =>
      cases primary with
      | true =>
          obtain ⟨_, -, h⟩ := bind_ok (show (k.bodyPUT >>= _) = _ from h)
          cases h
          exact ⟨rfl, hcall rfl⟩
      | false =>
          obtain ⟨_, -, h⟩ := bind_ok (show (k.bodyPUTReplica >>= _) = _ from h)
          cases h
          exact ⟨rfl, hcall rfl⟩
  | cput =>
      obtain ⟨_, -, h⟩ := bind_ok (show (k.bodyCPUT >>= _) = _ from h)
      cases h
      exact ⟨rfl, hcall rfl⟩
  | dele =>
      cases primary with
      | true => cases h; exact ⟨rfl, hcall rfl⟩
      | false =>
          obtain ⟨_, -, h⟩ := bind_ok (show (k.bodyDELEReplica >>= _) = _ from h)
          cases h
          exact ⟨rfl, hcall rfl⟩
  | get => cases h; exact ⟨rfl, hcall rfl⟩
  | _ => cases h; exact ⟨rfl, fun _ he => by cases he⟩

/-! ## Keywords -/

/-- A line that takes a branch starts with the letter of one of its keywords. -/
theorem verb_first {x : Char} {t : Str} (h : Worker.verb (x :: t) ≠ .other) :
    x.toUpper ∈ (Worker.verbs.filter fun p => p.2 == Worker.verb (x :: t)).map
      fun p => (p.1.headD ' ').toUpper := by
  cases hfind : Worker.verbs.find? fun p => strnicmp (cstr (x :: t)) p.1 p.1.length with
  | none => rw [Worker.verb, hfind] at h; exact absurd rfl h
  | some p =>
      have hverb : Worker.verb (x :: t) = p.2 := by rw [Worker.verb, hfind]; rfl
      have hmem := List.mem_of_find?_eq_some hfind
      have hmatch := List.find?_some hfind
      refine List.mem_map.mpr ⟨p, List.mem_filter.mpr ⟨hmem, by rw [hverb]; simp⟩, ?_⟩
      -- the first letters agree
      simp only [strnicmp, Bool.and_eq_true, decide_eq_true_eq] at hmatch
      obtain ⟨⟨hs, hkw⟩, hall⟩ := hmatch
      cases hp : p.1 with
      | nil => exact absurd hp hkw
      | cons y kw =>
          rw [cstr, List.takeWhile_cons] at hs hall
          split at hs
          · rename_i hx
            rw [if_pos hx, hp, List.length_cons, List.take_succ_cons, List.take_succ_cons,
              List.zip_cons_cons, List.all_cons, Bool.and_eq_true, beq_iff_eq] at hall
            exact hall.1.symm
          · exact absurd rfl hs

theorem verb_newline (t : Str) : Worker.verb ('\n' :: t) = .other := by
  by_contra h
  have hmem := verb_first h
  generalize Worker.verb ('\n' :: t) = v at hmem
  revert hmem
  cases v <;> decide

/-- The four keywords and their branches. -/
def dataVerbs : List (Str × Verb) :=
  [(kwPUT, .put), (kwCPUT, .cput), (kwGET, .get), (kwDELETE, .dele)]

/-- The first letter of a keyword does not come again before the row. -/
theorem verb_ne_of_first {kw : Str} {v : Verb} (hkw : (kw, v) ∈ dataVerbs) {x : Char} {t : Str}
    (hx : x ∈ (kw ++ [' ', '<']).tail) : Worker.verb (x :: t) ≠ v := by
  intro h
  have hne : v ≠ .other := by
    rintro rfl
    simp [dataVerbs] at hkw
  have hmem := verb_first (h.symm ▸ hne)
  rw [h] at hmem
  simp only [dataVerbs, List.mem_cons, Prod.mk.injEq, List.not_mem_nil, or_false] at hkw
  rcases hkw with ⟨rfl, rfl⟩ | ⟨rfl, rfl⟩ | ⟨rfl, rfl⟩ | ⟨rfl, rfl⟩ <;>
    · revert hmem
      simp only [kwPUT, kwCPUT, kwGET, kwDELETE, List.cons_append, List.nil_append, List.tail_cons,
        List.mem_cons, List.not_mem_nil, or_false] at hx
      rcases hx with rfl | rfl | rfl | rfl | rfl | rfl | rfl <;> decide

/-! ## Names -/

/-- A field that runs to the end of the line holds its `'>'`. -/
theorem angled_wrap {a f rest : Str} (ha : '<' ∉ a) (ha' : '>' ∉ a) :
    angled (a ++ '>' :: (' ' :: '<' :: f ++ rest)) = f ++ rest := by
  have hgt : find (a ++ '>' :: (' ' :: '<' :: f ++ rest)) ['>'] = a.length := find_sep _ ha'
  have hlt : find (a ++ '>' :: (' ' :: '<' :: f ++ rest)) ['<'] = (a ++ ['>', ' ']).length := by
    rw [show a ++ '>' :: (' ' :: '<' :: f ++ rest) = (a ++ ['>', ' ']) ++ '<'
      :: (f ++ rest) by simp]
    exact find_sep _ (by simp [ha])
  rw [angled, hlt, hgt, show a ++ '>' :: (' ' :: '<' :: f ++ rest)
    = (a ++ ['>', ' ', '<']) ++ (f ++ rest) by simp]
  have hlen : ∀ t : Str, (a ++ t).length = a.length + t.length := fun _ => List.length_append
  refine substr_wrap _ _ ?_ ?_ <;> simp only [hlen, List.length_cons, List.length_nil] <;> omega

theorem angled_crlf : angled crlf = crlf := by decide

/-- Past the last `'>'` only the line break is left. -/
theorem pastAngled_last {a : Str} (ha : '>' ∉ a) : pastAngled (a ++ '>' :: crlf) = crlf := by
  rw [pastAngled, find_sep _ ha]
  exact substr_after a '>' crlf

/-- Behind the row's `'>'` the column is misread as the line break. -/
theorem pastAngled_suffix {col b x : Str} (hc : Name col) (hx : crlf <:+ x)
    (h : b ++ x = (' ' :: '<' :: col) ++ '>' :: crlf) :
    angled (pastAngled x) = crlf ∨ angled x = crlf := by
  rcases List.append_eq_append_iff.mp h with ⟨y, hsplit, rfl⟩ | ⟨y, -, hy⟩
  · have hmem : '>' ∉ y := by
      intro hm
      have hm' : '>' ∈ ' ' :: '<' :: col := by rw [hsplit]; exact List.mem_append_right _ hm
      simp [hc.noAngle] at hm'
    exact Or.inl (by rw [pastAngled_last hmem, angled_crlf])
  · cases y with
    | nil =>
        have hx' : x = [] ++ '>' :: crlf := hy.symm
        exact Or.inl (by rw [hx', pastAngled_last (by simp), angled_crlf])
    | cons c y =>
        obtain ⟨-, hy⟩ := List.cons.inj (show '>' :: crlf = c :: (y ++ x) from hy)
        have hle := hx.length_le
        have hlen := congrArg List.length hy
        rw [List.length_append] at hlen
        have hnil : y = [] := List.eq_nil_of_length_eq_zero (by omega)
        have hx' : x = crlf := by rw [hy, hnil]; rfl
        exact Or.inr (by rw [hx', angled_crlf])

/-- What is parsed from the rest of a line are not the names that were sent. -/
theorem fields_suffix {row col a x : Str} (hr : Name row) (hc : Name col) (hx : crlf <:+ x)
    (h : a ++ x = row ++ '>' :: (' ' :: '<' :: col ++ '>' :: crlf)) :
    (angled x, angled (pastAngled x)) ≠ (row, col) := by
  intro heq
  obtain ⟨hrow, hcol⟩ := Prod.mk.inj heq
  have hcrlf : ∀ n, Name n → n ≠ crlf := by
    rintro n hn rfl
    exact hn.noCrlf (List.infix_refl _)
  rcases List.append_eq_append_iff.mp h with ⟨r, hsplit, rfl⟩ | ⟨b, -, hb⟩
  · -- the rest begins within the row
    have hr' : '>' ∉ r := fun hm => hr.noAngle (by rw [hsplit]; exact List.mem_append_right _ hm)
    by_cases hlt : '<' ∈ r
    · obtain ⟨u, v, rfl, hu⟩ := List.eq_append_cons_of_mem hlt
      rw [List.mem_append, List.mem_cons, not_or, not_or] at hr'
      rw [angled_field _ hu hr'.1 hr'.2.2] at hrow
      have hlen := congrArg List.length hsplit
      rw [← hrow] at hlen
      simp at hlen
      omega
    · rw [angled_wrap hlt hr'] at hrow
      exact hr.noAngle (by rw [← hrow]; simp)
  · cases b with
    | nil =>
        have hx' : x = [] ++ '>' :: (' ' :: '<' :: col ++ '>' :: crlf) := hb.symm
        rw [hx', angled_wrap (by simp) (by simp)] at hrow
        exact hr.noAngle (by rw [← hrow]; simp)
    | cons c b =>
        -- the rest begins behind the row's `'>'`
        rcases pastAngled_suffix hc hx (List.cons.inj hb).2.symm with hcol' | hrow'
        · exact hcrlf col hc (hcol.symm.trans hcol')
        · exact hcrlf row hr (hrow.symm.trans hrow')

/-- A line break at the end is still there behind the first blank. -/
theorem crlf_suffix_behind {u w : Str} (h : crlf <:+ u ++ ' ' :: w) : crlf <:+ w := by
  obtain ⟨t, ht⟩ := h
  rcases List.append_eq_append_iff.mp ht with ⟨y, -, hy⟩ | ⟨y, -, hy⟩
  · exact absurd (show ' ' ∈ crlf by rw [hy]; simp) (by decide)
  · cases y with
    | nil => exact absurd (show ' ' ∈ crlf by rw [← List.nil_append crlf, ← hy]; simp) (by decide)
    | cons c y => exact ⟨y, (List.cons.inj hy).2.symm⟩

theorem parseCommand_suffix {row col b s : Str} (hr : Name row) (hc : Name col) (hs : crlf <:+ s)
    (h : b ++ s = row ++ '>' :: (' ' :: '<' :: col ++ '>' :: crlf)) :
    Worker.parseCommand s ≠ (row, col) := by
  by_cases hsp : ' ' ∈ s
  · obtain ⟨u, w, rfl, hu⟩ := List.eq_append_cons_of_mem hsp
    have hcut : substr (u ++ ' ' :: w) (find (u ++ ' ' :: w) [' '] + 1) = w := by
      rw [find_sep w hu]
      exact substr_after u ' ' w
    rw [Worker.parseCommand, hcut]
    exact fields_suffix (a := b ++ u ++ [' ']) hr hc (crlf_suffix_behind hs) (by simpa using h)
  · rw [Worker.parseCommand, find_sep_none hsp, show npos + 1 = 0 from rfl, substr_zero_npos]
    exact fields_suffix hr hc hs h

/-- **The rest of a data command's line is never taken for the command that was sent.** -/
theorem misread_header {kw row col p s : Str} {v : Verb} (hkw : (kw, v) ∈ dataVerbs)
    (hr : Name row) (hc : Name col) (h : p ++ s = header kw row col crlf) (hp : p ≠ [])
    (hs : crlf <:+ s) : ¬ (Worker.verb s = v ∧ Worker.parseCommand s = (row, col)) := by
  rintro ⟨hverb, hnames⟩
  have hline : header kw row col crlf
      = (kw ++ [' ', '<']) ++ (row ++ '>' :: (' ' :: '<' :: col ++ '>' :: crlf)) := by
    simp [header]
  rw [hline] at h
  rcases List.append_eq_append_iff.mp h with ⟨k, hsplit, hs'⟩ | ⟨b, -, hb⟩
  · cases k with
    | nil => exact parseCommand_suffix (b := []) hr hc hs hs' hnames
    | cons x k =>
        -- the rest begins within the keyword or right behind it
        rw [hs'] at hverb
        refine verb_ne_of_first hkw ?_ hverb
        cases p with
        | nil => exact absurd rfl hp
        | cons c p => rw [hsplit]; simp
  · exact parseCommand_suffix hr hc hs hb.symm hnames

theorem misread_list {p s : Str} (h : p ++ s = kwLIST ++ crlf) (hp : p ≠ []) (hs : s ≠ []) :
    Worker.verb s ≠ .list := by
  cases s with
  | nil => exact absurd rfl hs
  | cons x s =>
      intro hverb
      have hmem := verb_first (by rw [hverb]; decide)
      rw [hverb] at hmem
      have hx : x ∈ (kwLIST ++ crlf).tail := by
        cases p with
        | nil => exact absurd rfl hp
        | cons c p => rw [← h]; simp
      revert hmem
      simp only [kwLIST, crlf, List.cons_append, List.nil_append, List.tail_cons, List.mem_cons,
        List.not_mem_nil, or_false] at hx
      rcases hx with rfl | rfl | rfl | rfl | rfl <;> decide

end PennCloud
