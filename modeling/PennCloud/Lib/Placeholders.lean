import Mathlib.Logic.Function.Basic
import PennCloud.Lib.Replace

/-!
# Placeholders

A template is a text with placeholders in it: marked names, none of which begins
another one. `tokens` cuts it into letters and placeholders, and `put` writes it
out again with other texts in the place of the placeholders. A text that is filled
in one placeholder after the other, each by replacing it wherever it occurs, may
get an occurrence that the template does not have. `Meets v k` says that a value
can do that to a placeholder, and `foldl_put` that the order makes no difference as
long as none does.
-/

namespace Lib

variable {α : Type} [DecidableEq α]

/-- A letter or a placeholder of a template. -/
inductive Token (α : Type)
  | lit (c : α)
  | key (k : List α)

namespace Token

/-- What is written for it. -/
def text (env : List α → List α) : Token α → List α
  | lit c => [c]
  | key k => env k

end Token

/-- A template written out, `env k` in the place of `k`. -/
def put (env : List α → List α) (ts : List (Token α)) : List α := ts.flatMap (Token.text env)

/-- A template cut into letters and placeholders. -/
def tokens (keys : List (List α)) : List α → List (Token α)
  | [] => []
  | c :: s =>
    match keys.find? fun k => decide (k <+: c :: s) with
    | some k => .key k :: tokens keys (s.drop (k.length - 1))
    | none => .lit c :: tokens keys s
termination_by s => s.length

/-- Marked names, none the beginning of another. -/
structure Placeholders (d : α) (keys : List (List α)) : Prop where
  marked : ∀ k ∈ keys, ∃ n, k = d :: n ∧ d ∉ n
  apart : ∀ k ∈ keys, ∀ k' ∈ keys, k <+: k' → k = k'

/-- A beginning of `k` in front of `v` and an end of it behind, either may be empty, make up `k`. -/
def Meets (v k : List α) : Prop :=
  ∃ x y, x <+: k ∧ x.length < k.length ∧ y <:+ k ∧ y.length < k.length ∧ k <:+: x ++ v ++ y

/-- In the written text `k` occurs only where the template has it. -/
def Only (env : List α → List α) (k : List α) (ts : List (Token α)) : Prop :=
  ∀ p q, put env ts = p ++ k ++ q → ∃ a b, ts = a ++ .key k :: b ∧ put env a = p

instance (d : α) (keys : List (List α)) : Decidable (Placeholders d keys) :=
  decidable_of_iff ((∀ k ∈ keys, k.head? = some d ∧ d ∉ k.tail) ∧
      ∀ k ∈ keys, ∀ k' ∈ keys, k <+: k' → k = k')
    ⟨fun h => ⟨fun k hk => ⟨k.tail, List.eq_cons_of_mem_head? (h.1 k hk).1, (h.1 k hk).2⟩, h.2⟩,
      fun h => ⟨fun k hk => by
        obtain ⟨n, rfl, hn⟩ := h.marked k hk
        exact ⟨rfl, hn⟩, h.apart⟩⟩

variable {d : α} {keys : List (List α)} {env : List α → List α} {k : List α} {ts : List (Token α)}

omit [DecidableEq α] in
theorem put_cons (env : List α → List α) (t : Token α) (ts : List (Token α)) :
    put env (t :: ts) = t.text env ++ put env ts := List.flatMap_cons

omit [DecidableEq α] in
theorem put_append (env : List α → List α) (as bs : List (Token α)) :
    put env (as ++ bs) = put env as ++ put env bs := List.flatMap_append

omit [DecidableEq α] in
theorem put_lits (env : List α → List α) (s : List α) : put env (s.map .lit) = s := by
  induction s with
  | nil => rfl
  | cons c s ih => rw [List.map_cons, put_cons, ih]; rfl

omit [DecidableEq α] in
theorem Placeholders.ne_nil (h : Placeholders d keys) (hk : k ∈ keys) : k ≠ [] := by
  obtain ⟨n, rfl, -⟩ := h.marked k hk
  exact List.cons_ne_nil d n

omit [DecidableEq α] in
/-- Two placeholders at one place are the same. -/
theorem Placeholders.eq_of_prefix (h : Placeholders d keys) {k' s : List α} (hk : k ∈ keys)
    (hk' : k' ∈ keys) (hs : k <+: s) (hs' : k' <+: s) : k = k' := by
  rcases List.prefix_or_prefix_of_prefix hs hs' with hle | hle
  · exact h.apart _ hk _ hk' hle
  · exact (h.apart _ hk' _ hk hle).symm

/-! ## Cutting a template -/

theorem tokens_lit {c : α} {s : List α} (h : ∀ k ∈ keys, ¬ k <+: c :: s) :
    tokens keys (c :: s) = .lit c :: tokens keys s := by
  have hnone : keys.find? (fun k => decide (k <+: c :: s)) = none :=
    List.find?_eq_none.mpr fun k hk => by simpa using h k hk
  rw [tokens, hnone]

theorem tokens_key (h : Placeholders d keys) (hk : k ∈ keys) (s : List α) :
    tokens keys (k ++ s) = .key k :: tokens keys s := by
  obtain ⟨n, rfl, hn⟩ := h.marked k hk
  rw [List.cons_append, tokens]
  cases hfind : keys.find? fun k' => decide (k' <+: d :: (n ++ s)) with
  | none =>
      have hnot := List.find?_eq_none.mp hfind _ hk
      simp at hnot
  | some k' =>
      have hpre := List.find?_some hfind
      have hk' := List.mem_of_find?_eq_some hfind
      rw [decide_eq_true_eq] at hpre
      have hself : d :: n <+: d :: (n ++ s) := List.prefix_append (d :: n) s
      obtain rfl := h.eq_of_prefix hk' hk hpre hself
      simp

/-- Letters that are no mark begin no placeholder. -/
theorem tokens_plain (h : Placeholders d keys) {n : List α} (hn : d ∉ n) (s : List α) :
    tokens keys (n ++ s) = n.map .lit ++ tokens keys s := by
  induction n with
  | nil => rfl
  | cons c n ih =>
      rw [List.mem_cons, not_or] at hn
      rw [List.cons_append, tokens_lit, ih hn.2]
      · rfl
      · intro k hk hpre
        obtain ⟨m, rfl, -⟩ := h.marked k hk
        exact hn.1 (List.cons_prefix_cons.mp hpre).1

/-- A template is empty, or begins with a placeholder, or with a letter that begins none. -/
theorem tokens_induction {P : List α → Prop} (h : Placeholders d keys) (nil : P [])
    (key : ∀ k ∈ keys, ∀ s, P s → P (k ++ s))
    (lit : ∀ c s, (∀ k ∈ keys, ¬ k <+: c :: s) → P s → P (c :: s)) (s : List α) : P s := by
  induction hn : s.length using Nat.strong_induction_on generalizing s with
  | _ n ih =>
      cases s with
      | nil => exact nil
      | cons c s =>
          by_cases hk : ∃ k ∈ keys, k <+: c :: s
          · obtain ⟨k, hk, t, ht⟩ := hk
            have hpos := List.length_pos_of_ne_nil (h.ne_nil hk)
            rw [← ht]
            refine key k hk t (ih t.length ?_ t rfl)
            rw [← hn, ← ht, List.length_append]
            omega
          · refine lit c s (fun k hmem hpre => hk ⟨k, hmem, hpre⟩) (ih s.length ?_ s rfl)
            rw [← hn, List.length_cons]
            omega

/-- A template cut and written out as it was. -/
theorem put_tokens (h : Placeholders d keys) (s : List α) : put id (tokens keys s) = s := by
  induction s using tokens_induction h with
  | nil =>
      rw [tokens]
      rfl
  | key k hk s ih => rw [tokens_key h hk, put_cons, ih]; rfl
  | lit c s hc ih => rw [tokens_lit hc, put_cons, ih]; rfl

theorem mem_tokens (h : Placeholders d keys) {s : List α} (hk : .key k ∈ tokens keys s) :
    k ∈ keys := by
  induction s using tokens_induction h with
  | nil =>
      rw [tokens] at hk
      cases hk
  | key k' hk' s ih =>
      rw [tokens_key h hk'] at hk
      rcases List.mem_cons.mp hk with heq | hmem
      · cases heq
        exact hk'
      · exact ih hmem
  | lit c s hc ih =>
      rw [tokens_lit hc] at hk
      rcases List.mem_cons.mp hk with heq | hmem
      · cases heq
      · exact ih hmem

/-- The letters of a template spell no placeholder. -/
theorem tokens_spell (h : Placeholders d keys) (hk : k ∈ keys) {s : List α} :
    ∀ {a b : List (Token α)}, tokens keys s ≠ a ++ k.map .lit ++ b := by
  obtain ⟨x, n, hkn⟩ := List.exists_cons_of_ne_nil (h.ne_nil hk)
  induction s using tokens_induction h with
  | nil =>
      intro a b he
      rw [tokens, hkn] at he
      simp at he
  | key k' hk' s ih =>
      intro a b he
      rw [tokens_key h hk'] at he
      cases a with
      | nil =>
          rw [hkn] at he
          cases he
      | cons t a => exact ih (List.cons.inj he).2
  | lit c s hc ih =>
      intro a b he
      cases a with
      | nil =>
          have hput := congrArg (put id) he
          rw [put_tokens h, List.nil_append, put_append, put_lits] at hput
          exact hc k hk ⟨_, hput.symm⟩
      | cons t a =>
          rw [tokens_lit hc] at he
          exact ih (List.cons.inj he).2

/-! ## One placeholder -/

omit [DecidableEq α] in
/-- Of two places of a placeholder in a template the one behind letters without it comes first. -/
theorem first_key {a b a' b' : List (Token α)} (h : a ++ .key k :: b = a' ++ .key k :: b')
    (ha : .key k ∉ a) : ∃ c, a' = a ++ c := by
  rcases List.append_eq_append_iff.mp h with ⟨c, hc, -⟩ | ⟨c, hc, hrest⟩
  · exact ⟨c, hc⟩
  · cases c with
    | nil => exact ⟨[], by rw [hc, List.append_nil, List.append_nil]⟩
    | cons t c =>
        obtain rfl := (List.cons.inj hrest).1
        exact absurd (hc ▸ List.mem_append_right _ List.mem_cons_self) ha

theorem put_update_of_notMem (env : List α → List α) (v : List α) (h : .key k ∉ ts) :
    put (Function.update env k v) ts = put env ts := by
  induction ts with
  | nil => rfl
  | cons t ts ih =>
      rw [List.mem_cons, not_or] at h
      rw [put_cons, put_cons, ih h.2]
      cases t with
      | lit c => rfl
      | key k' =>
          have hne : k' ≠ k := fun he => h.1 (he ▸ rfl)
          rw [Token.text, Token.text, Function.update_of_ne hne]

omit [DecidableEq α] in
/-- Behind a place of the placeholder it still occurs only where the template has it. -/
theorem Only.rest {a b : List (Token α)} (h : Only env k (a ++ .key k :: b)) (hk : k ≠ [])
    (henv : env k = k) (ha : .key k ∉ a) : Only env k b := by
  intro p q hput
  have hwhole : put env (a ++ .key k :: b) = (put env a ++ k ++ p) ++ k ++ q := by
    rw [put_append, put_cons, hput, Token.text, henv]
    simp only [List.append_assoc]
  obtain ⟨a', b', hsplit, ha'⟩ := h _ q hwhole
  obtain ⟨c, rfl⟩ := first_key hsplit ha
  rw [List.append_assoc] at hsplit
  have hrest := List.append_cancel_left hsplit
  rw [put_append, List.append_assoc] at ha'
  have hc := List.append_cancel_left ha'
  cases c with
  | nil =>
      rw [put, List.flatMap_nil] at hc
      exact absurd (List.append_eq_nil_iff.mp hc.symm).1 hk
  | cons t c =>
      obtain ⟨rfl, rfl⟩ := List.cons.inj hrest
      rw [put_cons, Token.text, henv] at hc
      exact ⟨c, b', rfl, List.append_cancel_left hc⟩

/-- **Replacing a placeholder** puts its value where the template has it, if it occurs
nowhere else. -/
theorem substitute_put (hk : k ≠ []) (henv : env k = k) (v : List α) (h : Only env k ts) :
    substitute k v (put env ts) = put (Function.update env k v) ts := by
  induction hn : ts.length using Nat.strong_induction_on generalizing ts with
  | _ n ih =>
      by_cases hmem : .key k ∈ ts
      · obtain ⟨a, b, rfl, ha⟩ := List.eq_append_cons_of_mem hmem
        have hput : put env (a ++ .key k :: b) = put env a ++ k ++ put env b := by
          rw [put_append, put_cons, Token.text, henv, List.append_assoc]
        have hfirst : firstIdx k (put env a ++ k ++ put env b) = some (put env a).length := by
          obtain ⟨p, q, hpq, hp⟩ := first_cut (List.infix_append (put env a) k (put env b))
          obtain ⟨a', b', hsplit, rfl⟩ := h p q (hput.trans hpq)
          obtain ⟨c, rfl⟩ := first_key hsplit ha
          rw [← hpq] at hp
          have hle := firstIdx_le hp
          rw [put_append, List.length_append] at hle hp
          rw [hp, show (put env c).length = 0 by omega, Nat.add_zero]
        have hlen : b.length < n := by
          rw [← hn, List.length_append, List.length_cons]
          omega
        rw [hput, substitute_found v hk hfirst, ih _ hlen (h.rest hk henv ha) rfl,
          put_append, put_cons, put_update_of_notMem env v ha, Token.text, Function.update_self,
          List.append_assoc]
      · rw [put_update_of_notMem env v hmem]
        refine substitute_none v fun hin => hmem ?_
        obtain ⟨p, q, hpq⟩ := hin
        obtain ⟨a, b, rfl, -⟩ := h p q hpq.symm
        exact List.mem_append_right _ List.mem_cons_self

/-! ## Values that meet a placeholder -/

omit [DecidableEq α] in
/-- The rest `m` of a placeholder that `v` begins, or is part of, is made up behind `v`. -/
theorem made_up {x m v r q : List α} (hk : k = x ++ m) (hm : m ≠ []) (hne : x ≠ [] ∨ v ≠ [])
    (h : v ++ r = m ++ q) : ∃ y, y <:+ k ∧ y.length < k.length ∧ k <:+: x ++ v ++ y := by
  have hmpos := List.length_pos_of_ne_nil hm
  refine ⟨m.drop v.length, (List.drop_suffix _ _).trans ⟨x, hk.symm⟩, ?_, ?_⟩
  · rw [hk, List.length_append, List.length_drop]
    rcases hne with hne | hne
    · have := List.length_pos_of_ne_nil hne
      omega
    · have := List.length_pos_of_ne_nil hne
      omega
  · have hvm : v <+: m ++ q := ⟨r, h⟩
    rcases List.prefix_or_prefix_of_prefix hvm (List.prefix_append m q) with ⟨y, rfl⟩ | ⟨y, rfl⟩
    · rw [List.drop_left, List.append_assoc, ← hk]
    · rw [hk, ← List.append_assoc, List.append_assoc]
      exact (List.prefix_append _ _).isInfix

/-- Letters of the written text that hold no mark are letters of the template, or a value begins
in them. -/
theorem spelled (h : Placeholders d keys) {n q : List α} (hn : d ∉ n)
    (hmem : ∀ k', .key k' ∈ ts → k' ∈ keys) (hput : put env ts = n ++ q) :
    (∃ b, ts = n.map .lit ++ b) ∨ ∃ n1 n2 k' b, n = n1 ++ n2 ∧ n2 ≠ [] ∧
      ts = n1.map .lit ++ .key k' :: b ∧ env k' ≠ k' := by
  induction n generalizing ts with
  | nil => exact Or.inl ⟨ts, rfl⟩
  | cons c n ih =>
      rw [List.mem_cons, not_or] at hn
      cases ts with
      | nil => cases hput
      | cons t ts =>
          rw [put_cons] at hput
          cases t with
          | lit c' =>
              obtain ⟨rfl, hput'⟩ := List.cons.inj hput
              rcases ih hn.2 (fun k' hk' => hmem k' (List.mem_cons_of_mem _ hk')) hput' with
                ⟨b, rfl⟩ | ⟨n1, n2, k', b, rfl, hn2, rfl, hk'⟩
              · exact Or.inl ⟨b, rfl⟩
              · exact Or.inr ⟨c' :: n1, n2, k', b, rfl, hn2, rfl, hk'⟩
          | key k' =>
              by_cases hk' : env k' = k'
              · -- the mark of a placeholder would be among the letters
                obtain ⟨m, rfl, -⟩ := h.marked k' (hmem k' List.mem_cons_self)
                rw [Token.text, hk'] at hput
                exact absurd (List.cons.inj hput).1 hn.1
              · exact Or.inr ⟨[], c :: n, k', ts, rfl, List.cons_ne_nil c n, rfl, hk'⟩

omit [DecidableEq α] in
/-- A place in the written text is in what is written for a token. -/
theorem locate {p w : List α} (hw : w ≠ []) (hput : put env ts = p ++ w) :
    ∃ a t b u, ts = a ++ t :: b ∧ p = put env a ++ u ∧ u.length < (t.text env).length ∧
      t.text env ++ put env b = u ++ w := by
  induction ts generalizing p with
  | nil => exact absurd (List.append_eq_nil_iff.mp hput.symm).2 hw
  | cons t ts ih =>
      rw [put_cons] at hput
      rcases Nat.lt_or_ge p.length (t.text env).length with hlt | hge
      · exact ⟨[], t, ts, p, rfl, rfl, hlt, hput⟩
      · obtain ⟨p, rfl⟩ := prefix_of_append_eq hput hge
        rw [List.append_assoc] at hput
        obtain ⟨a, t', b, u, rfl, rfl, hlt, hrest⟩ := ih (List.append_cancel_left hput)
        exact ⟨t :: a, t', b, u, rfl, by rw [put_cons, List.append_assoc], hlt, hrest⟩

omit [DecidableEq α] in
/-- The rest of a placeholder is made up behind its beginning. -/
theorem meets_behind {x m v r q : List α} (hk : k = x ++ m) (hx : x ≠ []) (hm : m ≠ [])
    (h : v ++ r = m ++ q) : Meets v k := by
  obtain ⟨y, hy, hylen, hin⟩ := made_up hk hm (Or.inl hx) h
  have hpos := List.length_pos_of_ne_nil hm
  refine ⟨x, y, ⟨m, hk.symm⟩, ?_, hy, hylen, hin⟩
  rw [hk, List.length_append]
  omega

omit [DecidableEq α] in
/-- A placeholder that begins within a value. -/
theorem meets_within {u v w r q : List α} (hk : k ≠ []) (hv : u ++ w = v) (hw : w ≠ [])
    (h : w ++ r = k ++ q) : Meets v k := by
  obtain ⟨y, hy, hylen, hin⟩ := made_up (x := []) rfl hk (Or.inr hw) h
  refine ⟨[], y, List.nil_prefix, List.length_pos_of_ne_nil hk, hy, hylen, ?_⟩
  rw [← hv, List.nil_append, List.append_assoc]
  exact hin.trans (List.suffix_append u _).isInfix

omit [DecidableEq α] in
/-- A placeholder that begins within another one is that one. -/
theorem Placeholders.eq_of_within (h : Placeholders d keys) (hk : k ∈ keys) {k' u w r q : List α}
    (hk' : k' ∈ keys) (hv : u ++ w = k') (hw : w ≠ []) (hin : w ++ r = k ++ q) :
      u = [] ∧ k' = k := by
  cases u with
  | nil =>
      obtain rfl : w = k' := hv
      exact ⟨rfl, h.eq_of_prefix hk' hk ⟨r, hin⟩ (List.prefix_append k q)⟩
  | cons c u =>
      -- the mark would be within the name
      obtain ⟨n, rfl, -⟩ := h.marked k hk
      obtain ⟨m, rfl, hm⟩ := h.marked k' hk'
      obtain ⟨c', w, rfl⟩ := List.exists_cons_of_ne_nil hw
      obtain rfl := (List.cons.inj hin).1
      exact absurd ((List.cons.inj hv).2 ▸ List.mem_append_right u List.mem_cons_self) hm

/-- No placeholder begins in a letter that the template does not begin one with. -/
theorem not_at_lit (h : Placeholders d keys) (hk : k ∈ keys)
    (hmem : ∀ k', .key k' ∈ ts → k' ∈ keys) {c : α} (hspell : ∀ b, .lit c :: ts ≠ k.map .lit ++ b)
    (hmeets : ∀ k', .key k' ∈ ts → env k' = k' ∨ ¬ Meets (env k') k) (q : List α) :
    put env (.lit c :: ts) ≠ k ++ q := by
  intro hput
  obtain ⟨n, rfl, hn⟩ := h.marked k hk
  obtain ⟨rfl, hname⟩ := List.cons.inj hput
  have hname : put env ts = n ++ q := hname
  rcases spelled h hn hmem hname with ⟨b, rfl⟩ | ⟨n1, n2, k', b, rfl, hn2, rfl, hk'⟩
  · exact hspell b rfl
  · rw [put_append, put_lits, put_cons, List.append_assoc] at hname
    have hmeet : Meets (env k') (c :: (n1 ++ n2)) :=
      meets_behind (x := c :: n1) rfl (List.cons_ne_nil c n1) hn2 (List.append_cancel_left hname)
    exact (hmeets k' (by simp)).elim hk' (absurd hmeet)

/-- **A placeholder occurs only where the template has it** as long as no value in the text
meets it. -/
theorem only_of_not_meets (h : Placeholders d keys) (hk : k ∈ keys)
    (hmem : ∀ k', .key k' ∈ ts → k' ∈ keys) (hspell : ∀ a b, ts ≠ a ++ k.map .lit ++ b)
    (hmeets : ∀ k', .key k' ∈ ts → env k' = k' ∨ ¬ Meets (env k') k) : Only env k ts := by
  intro p q hput
  rw [List.append_assoc] at hput
  have hkq : k ++ q ≠ [] := fun he => h.ne_nil hk (List.append_eq_nil_iff.mp he).1
  obtain ⟨a, t, b, u, rfl, rfl, hlt, hrest⟩ := locate hkq hput
  cases t with
  | lit c =>
      obtain rfl : u = [] := List.eq_nil_of_length_eq_zero (Nat.lt_one_iff.mp hlt)
      refine absurd hrest (not_at_lit h hk (fun k' hk' => hmem k' (by simp [hk'])) ?_ ?_ q)
      · exact fun b' hb' => hspell a b' (by rw [hb', List.append_assoc])
      · exact fun k' hk' => hmeets k' (by simp [hk'])
  | key k' =>
      have hin : (.key k' : Token α) ∈ a ++ .key k' :: b := by simp
      obtain ⟨w, hw⟩ := prefix_of_append_eq hrest.symm (Nat.le_of_lt hlt)
      have htail : w ++ put env b = k ++ q := by
        rw [← hw, List.append_assoc] at hrest
        exact List.append_cancel_left hrest
      have hwne : w ≠ [] := by
        rintro rfl
        rw [← hw, List.append_nil] at hlt
        exact Nat.lt_irrefl _ hlt
      by_cases hself : env k' = k'
      · obtain ⟨rfl, rfl⟩ := h.eq_of_within hk (hmem k' hin) (hw.trans hself) hwne htail
        exact ⟨a, b, rfl, (List.append_nil _).symm⟩
      · have hmeet : Meets (env k') k := meets_within (h.ne_nil hk) hw hwne htail
        exact absurd hmeet ((hmeets k' hin).resolve_left hself)

/-! ## One placeholder after the other -/

/-- Each entry replaced wherever its placeholder occurs, in their order. -/
def substituteAll (es : List (List α × List α)) (s : List α) : List α :=
  es.foldl (fun s e => substitute e.1 e.2 s) s

theorem substituteAll_concat (es : List (List α × List α)) (e : List α × List α) (s : List α) :
    substituteAll (es ++ [e]) s = substitute e.1 e.2 (substituteAll es s) := List.foldl_append

/-- What stands for a placeholder behind the entries. -/
def assigned (es : List (List α × List α)) (env : List α → List α) : List α → List α :=
  es.foldl (fun env e => Function.update env e.1 e.2) env

/-- What the entries give for a placeholder. -/
def valueOf (es : List (List α × List α)) (k : List α) : List α := (es.lookup k).getD k

/-- No entry can make up the placeholder of another one, unless that stands for itself. -/
def Independent (es : List (List α × List α)) : Prop :=
  ∀ e ∈ es, ∀ f ∈ es, e ≠ f → f.2 = f.1 ∨ ¬ Meets e.2 f.1

/-- **The entries one after the other** give what they give at once, if none meets a later one. -/
theorem foldl_put {es : List (List α × List α)} (h : Placeholders d keys)
    (hmem : ∀ k', .key k' ∈ ts → k' ∈ keys)
    (hspell : ∀ k ∈ keys, ∀ a b, ts ≠ a ++ k.map .lit ++ b) (hes : ∀ e ∈ es, e.1 ∈ keys)
    (hpair : es.Pairwise fun e f => e.1 ≠ f.1 ∧
      (.key e.1 ∈ ts → f.2 = f.1 ∨ ¬ Meets e.2 f.1))
    (henv : ∀ e ∈ es, env e.1 = e.1)
    (hdone : ∀ k', .key k' ∈ ts → env k' = k' ∨ ∀ e ∈ es, e.2 = e.1 ∨ ¬ Meets (env k') e.1) :
    substituteAll es (put env ts) = put (assigned es env) ts := by
  induction es generalizing env with
  | nil => rfl
  | cons e es ih =>
      obtain ⟨hhead, htail⟩ := List.pairwise_cons.mp hpair
      obtain ⟨he, hes⟩ := List.forall_mem_cons.mp hes
      obtain ⟨henve, henv⟩ := List.forall_mem_cons.mp henv
      have hstep : substitute e.1 e.2 (put env ts) = put (Function.update env e.1 e.2) ts := by
        by_cases hself : e.2 = e.1
        · rw [hself, substitute_self (h.ne_nil he)]
          rw [show Function.update env e.1 e.1 = env from
            (congrArg (Function.update env e.1) henve.symm).trans (Function.update_eq_self e.1 env)]
        · refine substitute_put (h.ne_nil he) henve e.2
            (only_of_not_meets h he hmem (hspell e.1 he) ?_)
          exact fun k' hk' => (hdone k' hk').imp_right fun hall =>
            (hall e List.mem_cons_self).resolve_left hself
      rw [substituteAll, List.foldl_cons, hstep]
      refine ih hes htail (fun f hf => ?_) fun k' hk' => ?_
      · rw [Function.update_of_ne (hhead f hf).1.symm]
        exact henv f hf
      · by_cases hk : k' = e.1
        · subst hk
          rw [Function.update_self]
          exact Or.inr fun f hf => (hhead f hf).2 hk'
        · rw [Function.update_of_ne hk]
          exact (hdone k' hk').imp_right fun hall f hf => hall f (List.mem_cons_of_mem _ hf)

section Entries

variable {es es' : List (List α × List α)}

theorem lookup_of_mem (hes : (es.map Prod.fst).Nodup) {v : List α} (h : (k, v) ∈ es) :
    es.lookup k = some v := by
  induction es with
  | nil => cases h
  | cons e es ih =>
      obtain ⟨hnot, hes⟩ := List.nodup_cons.mp hes
      rcases List.mem_cons.mp h with rfl | hmem
      · exact List.lookup_cons_self
      · have hne : (k == e.1) = false :=
          beq_false_of_ne fun he => hnot (he ▸ List.mem_map_of_mem (f := Prod.fst) hmem)
        rw [List.lookup_cons, hne]
        exact ih hes hmem

theorem lookup_of_notMem (h : k ∉ es.map Prod.fst) : es.lookup k = none := by
  refine List.lookup_eq_none_iff.mpr fun e he => ?_
  exact bne_iff_ne.mpr fun heq => h (heq ▸ List.mem_map_of_mem (f := Prod.fst) he)

/-- What is assigned last is what the entries give. -/
theorem assigned_eq (hes : (es.map Prod.fst).Nodup) (k : List α) :
    assigned es env k = (es.lookup k).getD (env k) := by
  induction es generalizing env with
  | nil => rfl
  | cons e es ih =>
      obtain ⟨hnot, hes⟩ := List.nodup_cons.mp hes
      rw [assigned, List.foldl_cons]
      refine (ih hes).trans ?_
      by_cases hk : k = e.1
      · subst hk
        rw [lookup_of_notMem hnot, List.lookup_cons, beq_self_eq_true, Function.update_self]
        rfl
      · rw [Function.update_of_ne hk, List.lookup_cons, beq_false_of_ne hk]

/-- The order of the entries makes no difference to what they give. -/
theorem valueOf_perm (h : es'.Perm es) (hes : (es.map Prod.fst).Nodup) :
    valueOf es' = valueOf es := by
  have hes' : (es'.map Prod.fst).Nodup := (h.map Prod.fst).nodup_iff.mpr hes
  funext k
  rw [valueOf, valueOf]
  by_cases hk : k ∈ es.map Prod.fst
  · obtain ⟨⟨k, v⟩, hmem, rfl⟩ := List.mem_map.mp hk
    rw [lookup_of_mem hes hmem, lookup_of_mem hes' (h.mem_iff.mpr hmem)]
  · rw [lookup_of_notMem hk, lookup_of_notMem fun hk' => hk ((h.map Prod.fst).mem_iff.mp hk')]

/--
**A template is filled in at once**, in any order, if the values of the placeholders
that it has meet no others.
-/
theorem substituteAll_eq (h : Placeholders d (es.map Prod.fst)) (hes : (es.map Prod.fst).Nodup)
    {s : List α} (hind : ∀ e ∈ es, .key e.1 ∈ tokens (es.map Prod.fst) s → ∀ f ∈ es, e ≠ f →
      f.2 = f.1 ∨ ¬ Meets e.2 f.1) (hperm : es'.Perm es) :
    substituteAll es' s = put (valueOf es) (tokens (es.map Prod.fst) s) := by
  have hes' : (es'.map Prod.fst).Nodup := (hperm.map Prod.fst).nodup_iff.mpr hes
  have hpair : es'.Pairwise fun e f => e.1 ≠ f.1 ∧ (.key e.1 ∈ tokens (es.map Prod.fst) s →
      f.2 = f.1 ∨ ¬ Meets e.2 f.1) := by
    refine (List.pairwise_map.mp hes').imp_of_mem fun {e f} he hf hne => ⟨hne, fun hkey => ?_⟩
    exact hind e (hperm.mem_iff.mp he) hkey f (hperm.mem_iff.mp hf) fun heq => hne (heq ▸ rfl)
  have hput : substituteAll es' (put id (tokens (es.map Prod.fst) s))
      = put (assigned es' id) (tokens (es.map Prod.fst) s) :=
    foldl_put h (fun k' => mem_tokens h) (fun k hk a b => tokens_spell h hk)
      (fun e he => List.mem_map_of_mem (f := Prod.fst) (hperm.mem_iff.mp he)) hpair (fun _ _ => rfl)
      fun _ _ => Or.inl rfl
  rw [put_tokens h] at hput
  rw [hput, show assigned es' id = valueOf es from
    (funext fun k => assigned_eq hes' k).trans (valueOf_perm hperm hes)]

end Entries

/-! ## Values that are not independent -/

omit [DecidableEq α] in
/-- The end of a placeholder holds no mark. -/
theorem Placeholders.mark_notMem (h : Placeholders d keys) (hk : k ∈ keys)
    {y : List α} (hy : y <:+ k)
    (hylen : y.length < k.length) : d ∉ y := by
  obtain ⟨n, rfl, hn⟩ := h.marked k hk
  rcases List.suffix_cons_iff.mp hy with rfl | hyn
  · exact absurd hylen (Nat.lt_irrefl _)
  · exact fun hmem => hn (hyn.subset hmem)

omit [DecidableEq α] in
/-- Where a placeholder begins and a mark cuts it off there is none. -/
theorem Placeholders.not_prefix (h : Placeholders d keys) (hk : k ∈ keys) {x : List α}
    (hx : d :: x <+: k) (hxlen : (d :: x).length < k.length) (s : List α) :
    ∀ k' ∈ keys, ¬ k' <+: d :: (x ++ d :: s) := by
  intro k' hk' hpre
  obtain ⟨n, rfl, hn⟩ := h.marked k' hk'
  have hname : n <+: x ++ d :: s := (List.cons_prefix_cons.mp hpre).2
  have hcut : x ++ [d] <+: x ++ d :: s := ⟨s, by rw [List.append_assoc]; rfl⟩
  have hmark : ¬ x ++ [d] <+: n := fun hle => hn (hle.subset (by simp))
  have hbegin : n <+: x := by
    rcases List.prefix_or_prefix_of_prefix hname hcut with hle | hle
    · exact (List.prefix_concat_iff.mp hle).resolve_left fun heq => hmark (heq ▸ List.prefix_refl _)
    · exact absurd hle hmark
  have hsame := h.apart _ hk' _ hk ((List.cons_prefix_cons.mpr ⟨rfl, hbegin⟩).trans hx)
  have hlen := hbegin.length_le
  rw [← hsame, List.length_cons, List.length_cons] at hxlen
  omega

/-- A placeholder between a beginning and an end of another one. -/
theorem tokens_between (h : Placeholders d keys) (hk : k ∈ keys) {k' x y : List α} (hk' : k' ∈ keys)
    (hx : x <+: k) (hxlen : x.length < k.length) (hy : y <:+ k) (hylen : y.length < k.length) :
    tokens keys (x ++ k' ++ y) = x.map .lit ++ .key k' :: y.map .lit := by
  have hend : tokens keys y = y.map .lit := by
    have hplain := tokens_plain h (h.mark_notMem hk hy hylen) []
    rwa [List.append_nil, tokens, List.append_nil] at hplain
  have hbehind : tokens keys (k' ++ y) = .key k' :: y.map .lit := by rw [tokens_key h hk', hend]
  rw [List.append_assoc]
  cases x with
  | nil => exact hbehind
  | cons c x =>
      obtain ⟨n, rfl, hn⟩ := h.marked k hk
      obtain ⟨rfl, hxn⟩ := List.cons_prefix_cons.mp hx
      obtain ⟨m, rfl, -⟩ := h.marked k' hk'
      have hlit := tokens_lit (h.not_prefix hk hx hxlen (m ++ y))
      refine hlit.trans (congrArg (List.cons (Token.lit c)) ?_)
      exact (tokens_plain h (fun hmem => hn (hxn.subset hmem)) _).trans (congrArg _ hbehind)

theorem exists_perm_last {es : List (List α × List α)} {e f : List α × List α} (he : e ∈ es)
    (hf : f ∈ es) (hne : e ≠ f) : ∃ others, (others ++ [e] ++ [f]).Perm es := by
  have hf' : f ∈ es.erase e := (List.mem_erase_of_ne hne.symm).mpr hf
  refine ⟨(es.erase e).erase f, List.perm_append_comm.trans ?_⟩
  refine ((List.perm_append_singleton e ((es.erase e).erase f)).cons f).trans ?_
  exact (List.Perm.swap e f _).trans
    (((List.perm_cons_erase hf').symm.cons e).trans (List.perm_cons_erase he).symm)

/-- Entries that fill in nothing come first, whatever their values are. -/
theorem substituteAll_alone (h : Placeholders d keys) {others : List (List α × List α)}
    {e : List α × List α} (hmem : ∀ g ∈ others ++ [e], g.1 ∈ keys)
    (hnodup : ((others ++ [e]).map Prod.fst).Nodup) {s : List α}
    (hother : ∀ g ∈ others, .key g.1 ∉ tokens keys s) :
    substituteAll (others ++ [e]) s = put (assigned (others ++ [e]) id) (tokens keys s) := by
  have hdistinct := List.pairwise_append.mp (List.pairwise_map.mp hnodup)
  have hpair : (others ++ [e]).Pairwise fun g g' => g.1 ≠ g'.1 ∧
      (.key g.1 ∈ tokens keys s → g'.2 = g'.1 ∨ ¬ Meets g.2 g'.1) := by
    refine List.pairwise_append.mpr ⟨?_, List.pairwise_singleton _ e, fun g hg g' hg' => ?_⟩
    · exact hdistinct.1.imp_of_mem fun hg _ hne => ⟨hne, fun hkey => absurd hkey (hother _ hg)⟩
    · exact ⟨hdistinct.2.2 g hg g' hg', fun hkey => absurd hkey (hother g hg)⟩
  have hput : substituteAll (others ++ [e]) (put id (tokens keys s))
      = put (assigned (others ++ [e]) id) (tokens keys s) :=
    foldl_put h (fun k' => mem_tokens h) (fun k hk a b => tokens_spell h hk) hmem hpair
      (fun _ _ => rfl) fun _ _ => Or.inl rfl
  rwa [put_tokens h] at hput

/--
**A value that meets a placeholder** with a value of its own spoils the template with
a beginning and an end of that one around it, if the two are filled in last.
-/
theorem not_filled {es : List (List α × List α)} (h : Placeholders d (es.map Prod.fst))
    (hes : (es.map Prod.fst).Nodup) {e f : List α × List α} (he : e ∈ es)
    (hf : f ∈ es) (hne : e ≠ f)
    (hself : f.2 ≠ f.1) (hmeets : Meets e.2 f.1) : ∃ x y es', x <+: f.1 ∧ y <:+ f.1 ∧ es'.Perm es ∧
      substituteAll es' (x ++ e.1 ++ y)
        ≠ put (valueOf es) (tokens (es.map Prod.fst) (x ++ e.1 ++ y)) := by
  obtain ⟨x, y, hx, hxlen, hy, hylen, hin⟩ := hmeets
  have hke := List.mem_map_of_mem (f := Prod.fst) he
  have hkf := List.mem_map_of_mem (f := Prod.fst) hf
  have hts := tokens_between h hkf hke hx hxlen hy hylen
  obtain ⟨others, hothers⟩ := exists_perm_last he hf hne
  have hnodup : ((others ++ [e]).map Prod.fst).Nodup := by
    have hall := (hothers.map Prod.fst).nodup_iff.mpr hes
    rw [List.map_append] at hall
    exact (List.nodup_append.mp hall).1
  have hmem : ∀ g ∈ others ++ [e], g.1 ∈ es.map Prod.fst := fun g hg =>
    List.mem_map_of_mem (f := Prod.fst) (hothers.mem_iff.mp (List.mem_append_left _ hg))
  have hother : ∀ g ∈ others, .key g.1 ∉ tokens (es.map Prod.fst) (x ++ e.1 ++ y) := by
    intro g hg hkey
    have hapart :=
      (List.pairwise_append.mp (List.pairwise_map.mp hnodup)).2.2 g hg e List.mem_cons_self
    rw [hts] at hkey
    simp at hkey
    exact hapart hkey
  have hvalue : ∀ env : List α → List α,
      put env (tokens (es.map Prod.fst) (x ++ e.1 ++ y)) = x ++ env e.1 ++ y := by
    intro env
    rw [hts, put_append, put_lits, put_cons, put_lits, List.append_assoc]
    rfl
  refine ⟨x, y, others ++ [e] ++ [f], hx, hy, hothers, fun heq => hself ?_⟩
  -- all but the last entry have left the value of `e`
  have hput := substituteAll_alone h hmem hnodup hother
  have hlast : e ∈ others ++ [e] := List.mem_append_right _ List.mem_cons_self
  rw [hvalue, assigned_eq hnodup, lookup_of_mem hnodup hlast] at hput
  rw [substituteAll_concat, hput, hvalue, valueOf, lookup_of_mem hes he] at heq
  exact eq_of_substitute (h.ne_nil hkf) hin heq

end Lib
