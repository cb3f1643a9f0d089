import PennCloud.Lib.Runs
import Mathlib.Data.List.Basic

/-!
# Threads over a shared state

Any number of threads run one program over a shared state. `next` is one atomic
step of a thread, from where it stands (`π`) to where it stands then; threads come
in at any time. An invariant of such a machine has two parts: what holds of the
shared state, and what holds of each thread where it stands. `holds_step` is the
rule for it. A step keeps the invariant if it does so for the thread that makes
it and does not take from the others what they rely on.
-/

namespace Lib

/-- A shared state and the threads at work on it. -/
structure Threads (σ π : Type) where
  shared : σ
  threads : List π := []

/-- A thread comes in, or thread `i` makes its next step. -/
inductive Turn (κ : Type)
  | enter (k : κ)
  | next (i : Nat)

namespace Threads

variable {σ π κ : Type}

/-- One turn. -/
def step (start : κ → π) (next : σ → π → Option (σ × π)) (s : Threads σ π) :
    Turn κ → Option (Threads σ π)
  | .enter k => some { s with threads := s.threads ++ [start k] }
  | .next i => s.threads[i]?.bind fun p =>
    (next s.shared p).map fun r => { shared := r.1, threads := s.threads.set i r.2 }

/-- The thread whose turn it is meets `C`. -/
def Meets (C : σ → π → Prop) (s : Threads σ π) : Turn κ → Prop
  | .enter _ => True
  | .next i => ∀ p ∈ s.threads[i]?, C s.shared p

instance {C : σ → π → Prop} [∀ s p, Decidable (C s p)] (s : Threads σ π) :
    DecidablePred (Meets (κ := κ) C s)
  | .enter _ => .isTrue trivial
  | .next i =>
    match h : s.threads[i]? with
    | none => .isTrue fun p hp => by rw [h] at hp; cases hp
    | some p => decidable_of_iff (C s.shared p)
        ⟨fun hC q hq => by rw [h] at hq; exact Option.some.inj hq ▸ hC, fun hC => hC p h⟩

/-- `J` holds of the shared state and `P` of every thread. -/
structure Holds (J : σ → Prop) (P : σ → π → Prop) (s : Threads σ π) : Prop where
  shared : J s.shared
  each : ∀ p ∈ s.threads, P s.shared p

variable {start : κ → π} {next : σ → π → Option (σ × π)} {s t : Threads σ π} {i : Nat}

/-- What a thread's turn does. -/
theorem step_next (h : step start next s (.next i) = some t) : ∃ p q,
    s.threads[i]? = some p ∧ next s.shared p = some (t.shared, q) ∧
      t.threads = s.threads.set i q := by
  obtain ⟨p, hp, h⟩ := Option.bind_eq_some_iff.mp h
  obtain ⟨⟨u, q⟩, hq, rfl⟩ := Option.map_eq_some_iff.mp h
  exact ⟨p, q, hp, hq, rfl⟩

/-- **The rule for threads**: the step keeps the thread's own part and leaves the others theirs. -/
theorem holds_step {J : σ → Prop} {P C : σ → π → Prop} {a : Turn κ}
    (hstart : ∀ s k, J s → P s (start k))
    (hown : ∀ s p t q, J s → P s p → C s p → next s p = some (t, q) → J t ∧ P t q)
    (hother : ∀ s p t q, J s → P s p → C s p → next s p = some (t, q) → ∀ r, P s r → P t r)
    (hs : Holds J P s) (ha : Meets C s a) (h : step start next s a = some t) : Holds J P t := by
  cases a with
  | enter k =>
      cases h
      refine ⟨hs.shared, fun p hp => ?_⟩
      rcases List.mem_append.mp hp with hp | hp
      · exact hs.each p hp
      · rw [List.mem_singleton.mp hp]
        exact hstart _ k hs.shared
  | next i =>
      obtain ⟨p, q, hp, hq, ht⟩ := step_next h
      have hP := hs.each p (List.mem_of_getElem? hp)
      obtain ⟨hJ, hQ⟩ := hown _ p _ q hs.shared hP (ha p hp) hq
      refine ⟨hJ, fun r hr => ?_⟩
      rw [ht] at hr
      rcases List.mem_or_eq_of_mem_set hr with hr | rfl
      · exact hother _ p _ q hs.shared hP (ha p hp) hq r (hs.each r hr)
      · exact hQ

/-- How many threads stand at a place changes by the one that moves. -/
theorem countP_set {ps : List π} {p : π} (q : π) (f : π → Bool) (h : ps[i]? = some p) :
    (ps.set i q).countP f + (f p).toNat = ps.countP f + (f q).toNat := by
  induction ps generalizing i with
  | nil => cases h
  | cons r ps ih =>
      cases i with
      | zero =>
          cases h
          simp only [List.set_cons_zero, List.countP_cons]
          cases f p <;> cases f q <;> simp
      | succ i =>
          have := ih (List.getElem?_cons_succ ▸ h)
          simp only [List.set_cons_succ, List.countP_cons]
          omega

/-- The count stays where the thread that moves counts as before. -/
theorem countP_set_same {ps : List π} {p : π} (q : π) {f : π → Bool} (h : ps[i]? = some p)
    (hq : f q = f p) : (ps.set i q).countP f = ps.countP f :=
  Nat.add_right_cancel (hq ▸ countP_set q f h)

private theorem filterMap_head {β : Type} (f : π → Option β) (p : π) (ps : List π) :
    (p :: ps).filterMap f = (f p).toList ++ ps.filterMap f := by
  rw [List.filterMap_cons]
  cases f p <;> rfl

/-- What the threads have changes by what the one that moves has. -/
theorem filterMap_set {β : Type} {ps : List π} {p : π} (q : π) (f : π → Option β)
    (h : ps[i]? = some p) :
    ((ps.set i q).filterMap f ++ (f p).toList).Perm (ps.filterMap f ++ (f q).toList) := by
  induction ps generalizing i with
  | nil => cases h
  | cons r ps ih =>
      cases i with
      | zero =>
          cases h
          rw [List.set_cons_zero, filterMap_head, filterMap_head,
            List.append_assoc _ _ (f q).toList]
          exact List.perm_append_comm.trans (List.perm_append_comm.append_left _)
      | succ i =>
          rw [List.set_cons_succ, filterMap_head, filterMap_head, List.append_assoc,
            List.append_assoc]
          exact (ih (List.getElem?_cons_succ ▸ h)).append_left _

/-- What holds of a thread for good holds of a thread after the step. -/
theorem exists_set {ps : List π} {p q : π} {P : π → Prop} (hp : ps[i]? = some p) (hq : P p → P q)
    (h : ∃ r ∈ ps, P r) : ∃ r ∈ ps.set i q, P r := by
  obtain ⟨r, hr, hP⟩ := h
  obtain ⟨j, hj, rfl⟩ := List.mem_iff_getElem.mp hr
  obtain ⟨hi, rfl⟩ := List.getElem?_eq_some_iff.mp hp
  by_cases hij : i = j
  · subst hij
    exact ⟨q, List.mem_set hi q, hq hP⟩
  · refine ⟨ps[j], List.mem_iff_getElem.mpr ⟨j, by rwa [List.length_set], ?_⟩, hP⟩
    rw [List.getElem_set, if_neg hij]

/-! ## What the shared state holds in several places -/

/-- The count over all places changes by what changes in one of them. -/
theorem count_flatMap_set {α β : Type} [BEq β] {places : List α} (hnodup : places.Nodup)
    {a : α} (ha : a ∈ places) {f g : α → List β}
    (hother : ∀ b ∈ places, b ≠ a → g b = f b) (x : β) :
    (places.flatMap g).count x + (f a).count x = (places.flatMap f).count x + (g a).count x := by
  induction places with
  | nil => exact absurd ha List.not_mem_nil
  | cons b places ih =>
      obtain ⟨hb, hnodup⟩ := List.nodup_cons.mp hnodup
      simp only [List.flatMap_cons, List.count_append]
      rcases List.mem_cons.mp ha with rfl | ha
      · have hrest : places.flatMap g = places.flatMap f := by
          refine List.flatMap_congr fun c hc => hother c (List.mem_cons_of_mem _ hc) ?_
          rintro rfl
          exact hb hc
        rw [hrest]
        omega
      · have hne : b ≠ a := by
          rintro rfl
          exact hb ha
        have hrest := ih hnodup ha fun c hc => hother c (List.mem_cons_of_mem _ hc)
        rw [hother b List.mem_cons_self hne]
        omega

end Threads

end Lib
