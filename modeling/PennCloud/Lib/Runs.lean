import Mathlib.Init

/-!
# Runs of a state machine

A machine is a partial step function `step : σ → α → Option σ`: `none` refuses
the action. A run is a list of actions taken one after the other. `Guarded` says
that each action meets a condition in the state it is taken in, and
`inv_of_guarded` is the induction every safety result goes through: what an
action preserves under its condition, a guarded run preserves. `Always` is the
property of all states along a run, and where an action keeps it exactly under
its condition, `always_iff_guarded` says that a run does. `Since` is about what an
earlier action has set and no later one undone.
-/

namespace Lib

variable {σ α : Type}

/-- Take the actions in order; `none` as soon as one is refused. -/
def run (step : σ → α → Option σ) : σ → List α → Option σ
  | s, [] => some s
  | s, a :: as => (step s a).bind (run step · as)

/-- Every action of the run meets `G` in the state it is taken in. -/
def Guarded (step : σ → α → Option σ) (G : σ → α → Prop) : σ → List α → Prop
  | _, [] => True
  | s, a :: as => G s a ∧ ∀ t, step s a = some t → Guarded step G t as

variable {step : σ → α → Option σ} {G : σ → α → Prop}

theorem run_append (s : σ) (as bs : List α) :
    run step s (as ++ bs) = (run step s as).bind (run step · bs) := by
  induction as generalizing s with
  | nil => rfl
  | cons a as ih =>
      rw [List.cons_append, run, run]
      cases step s a with
      | none => rfl
      | some t => exact ih t

theorem run_cons {s u : σ} {a : α} {as : List α} (h : run step s (a :: as) = some u) :
    ∃ t, step s a = some t ∧ run step t as = some u := by
  rw [run] at h
  cases hs : step s a with
  | none => rw [hs] at h; simp at h
  | some t => rw [hs] at h; exact ⟨t, rfl, h⟩

/-- Whether a run is guarded can be found out by taking it. -/
instance Guarded.decidable [∀ s a, Decidable (G s a)] :
    ∀ s as, Decidable (Guarded step G s as)
  | _, [] => isTrue trivial
  | s, a :: as =>
    match hs : step s a with
    | none =>
        decidable_of_iff (G s a)
          ⟨fun h => ⟨h, fun t ht => by rw [hs] at ht; exact absurd ht (by simp)⟩, And.left⟩
    | some t =>
        have : Decidable (Guarded step G t as) := Guarded.decidable t as
        decidable_of_iff (G s a ∧ Guarded step G t as)
          ⟨fun h => ⟨h.1, fun u hu => by rw [hs] at hu; exact Option.some.inj hu ▸ h.2⟩,
            fun h => ⟨h.1, h.2 t hs⟩⟩

theorem Guarded.append {s t : σ} {as bs : List α} (h : Guarded step G s (as ++ bs))
    (hr : run step s as = some t) : Guarded step G s as ∧ Guarded step G t bs := by
  induction as generalizing s with
  | nil => exact ⟨trivial, Option.some.inj hr ▸ h⟩
  | cons a as ih =>
      obtain ⟨u, hu, hrest⟩ := run_cons hr
      refine ⟨⟨h.1, fun v hv => ?_⟩, (ih (h.2 u hu) hrest).2⟩
      obtain rfl : u = v := Option.some.inj (hu.symm.trans hv)
      exact (ih (h.2 u hu) hrest).1

/-- A condition on the actions alone. -/
theorem guarded_of_forall {G : α → Prop} {as : List α} (h : ∀ a ∈ as, G a) (s : σ) :
    Guarded step (fun _ a => G a) s as := by
  induction as generalizing s with
  | nil => trivial
  | cons a as ih =>
      exact ⟨h a List.mem_cons_self, fun t _ => ih (fun b hb => h b (List.mem_cons_of_mem _ hb)) t⟩

/-- One condition after another, where the first one keeps an invariant under which the second
follows. -/
theorem Guarded.imp {G' : σ → α → Prop} {I : σ → Prop} {as : List α}
    (hstep : ∀ s, ∀ a ∈ as, I s → G s a → G' s a ∧ ∀ t, step s a = some t → I t) {s : σ} (hs : I s)
    (h : Guarded step G s as) : Guarded step G' s as := by
  induction as generalizing s with
  | nil => trivial
  | cons a as ih =>
      obtain ⟨hG, hkeeps⟩ := hstep s a List.mem_cons_self hs h.1
      exact ⟨hG, fun t ht => ih (fun s b hb => hstep s b (List.mem_cons_of_mem _ hb)) (hkeeps t ht)
        (h.2 t ht)⟩

/-- **A guarded run keeps what each guarded action keeps.** -/
theorem inv_of_guarded {I : σ → Prop}
    (hstep : ∀ s a t, I s → G s a → step s a = some t → I t) :
    ∀ {as : List α} {s u : σ}, I s → Guarded step G s as → run step s as = some u → I u
  | [], s, u, hs, _, hr => by
      rw [run] at hr
      exact Option.some.inj hr ▸ hs
  | a :: as, s, u, hs, hg, hr => by
      obtain ⟨t, ht, hu⟩ := run_cons hr
      exact inv_of_guarded hstep (hstep s a t hs hg.1 ht) (hg.2 t ht) hu

/-- **A guarded run is possible, and simulated**, where each guarded action is. -/
theorem run_simulated {σ' α' : Type} {step' : σ' → α' → Option σ'} {f : σ → σ'}
    {g : α → α'} {I : σ → Prop}
    (hstep : ∀ s a, I s → G s a →
      ∃ t, step s a = some t ∧ I t ∧ step' (f s) (g a) = some (f t)) :
    ∀ {as : List α} {s : σ}, I s → Guarded step G s as →
      ∃ t, run step s as = some t ∧ I t ∧ run step' (f s) (as.map g) = some (f t)
  | [], s, hs, _ => ⟨s, rfl, hs, rfl⟩
  | a :: as, s, hs, hg => by
      obtain ⟨t, ht, hI, hsim⟩ := hstep s a hs hg.1
      obtain ⟨u, hu, hIu, hsims⟩ := run_simulated hstep hI (hg.2 t ht)
      refine ⟨u, ?_, hIu, ?_⟩
      · rw [run, ht, Option.bind_some, hu]
      · rw [List.map_cons, run, hsim, Option.bind_some, hsims]

/-- The unguarded case: an invariant of every action is an invariant of every run. -/
theorem inv_of_run {I : σ → Prop} (hstep : ∀ s a t, I s → step s a = some t → I t)
    {as : List α} {s u : σ} (hs : I s) (hr : run step s as = some u) : I u := by
  induction as generalizing s with
  | nil => exact Option.some.inj hr ▸ hs
  | cons a as ih =>
      obtain ⟨t, ht, hu⟩ := run_cons hr
      exact ih (hstep s a t hs ht) hu

/-- `P` holds in every state of the run, the first and the last included. -/
def Always (step : σ → α → Option σ) (P : σ → Prop) : σ → List α → Prop
  | s, [] => P s
  | s, a :: as => P s ∧ ∀ t, step s a = some t → Always step P t as

theorem Always.head {P : σ → Prop} {s : σ} {as : List α} (h : Always step P s as) : P s := by
  cases as with
  | nil => exact h
  | cons a as => exact h.1

theorem Always.last {P : σ → Prop} {as : List α} {s u : σ} (h : Always step P s as)
    (hr : run step s as = some u) : P u := by
  induction as generalizing s with
  | nil => exact Option.some.inj hr ▸ h
  | cons a as ih =>
      obtain ⟨t, ht, hu⟩ := run_cons hr
      exact ih (h.2 t ht) hu

/-- **A run keeps what its actions keep exactly under their condition**, with the help of an
invariant. -/
theorem always_iff_guarded_of_inv {P I : σ → Prop} (hinv : ∀ s a t, I s → step s a = some t → I t)
    (hstep : ∀ s a t, I s → P s → step s a = some t → (P t ↔ G s a)) {as : List α} {s u : σ}
    (hI : I s) (hs : P s) (hr : run step s as = some u) :
    Always step P s as ↔ Guarded step G s as := by
  induction as generalizing s with
  | nil => exact iff_of_true hs trivial
  | cons a as ih =>
      obtain ⟨t, ht, hu⟩ := run_cons hr
      have hiff := hstep s a t hI hs ht
      have hIt := hinv s a t hI ht
      constructor
      · rintro ⟨-, hrest⟩
        have htail := hrest t ht
        refine ⟨hiff.mp htail.head, fun t' ht' => ?_⟩
        obtain rfl : t = t' := Option.some.inj (ht.symm.trans ht')
        exact (ih hIt htail.head hu).mp htail
      · rintro ⟨hG, hrest⟩
        refine ⟨hs, fun t' ht' => ?_⟩
        obtain rfl : t = t' := Option.some.inj (ht.symm.trans ht')
        exact (ih hIt (hiff.mpr hG) hu).mpr (hrest t ht)

/-- The case without an invariant. -/
theorem always_iff_guarded {P : σ → Prop}
    (hstep : ∀ s a t, P s → step s a = some t → (P t ↔ G s a)) {as : List α} {s u : σ}
    (hs : P s) (hr : run step s as = some u) : Always step P s as ↔ Guarded step G s as :=
  always_iff_guarded_of_inv (I := fun _ => True) (fun _ _ _ _ _ => trivial)
    (fun s a t _ => hstep s a t) trivial hs hr

/-- Some action of the run has met `S`, and every action behind it `G`. -/
def Since (step : σ → α → Option σ) (S G : σ → α → Prop) : σ → List α → Prop
  | _, [] => False
  | s, a :: as => (S s a ∧ ∀ t, step s a = some t → Guarded step G t as) ∨
      ∃ t, step s a = some t ∧ Since step S G t as

instance Since.decidable {S : σ → α → Prop} [∀ s a, Decidable (S s a)] [∀ s a, Decidable (G s a)] :
    ∀ s as, Decidable (Since step S G s as)
  | _, [] => isFalse id
  | s, a :: as =>
    match hs : step s a with
    | none => decidable_of_iff (S s a) (by simp [Since, hs])
    | some t =>
        have : Decidable (Since step S G t as) := Since.decidable t as
        decidable_of_iff ((S s a ∧ Guarded step G t as) ∨ Since step S G t as) (by simp [Since, hs])

/-- **What `S` sets and nothing but a failure of `G` ends**, there is at the end of a run exactly if
it was set and `G` has been met since, or if it was there before and `G` was met throughout. -/
theorem last_iff_since {P : σ → Prop} {S : σ → α → Prop}
    (hstep : ∀ s a t, step s a = some t → (P t ↔ S s a ∨ (P s ∧ G s a))) {as : List α} {s u : σ}
    (hr : run step s as = some u) : P u ↔ Since step S G s as ∨ (P s ∧ Guarded step G s as) := by
  induction as generalizing s with
  | nil =>
      obtain rfl := Option.some.inj hr
      simp [Since, Guarded]
  | cons a as ih =>
      obtain ⟨t, ht, hu⟩ := run_cons hr
      rw [ih hu, hstep s a t ht]
      simp only [Since, Guarded, ht, Option.some.injEq, forall_eq', exists_eq_left']
      rw [or_and_right, and_assoc, ← or_assoc, or_comm (a := Since step S G t as)]

end Lib
