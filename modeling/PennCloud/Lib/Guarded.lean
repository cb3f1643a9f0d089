import Mathlib.Logic.Function.Basic

/-!
# Logs of guarded erasures

A log whose entries put a key, or erase a key if another one, its guard, is there.
`Lib.Updates` has the case without guards, where a log may be replayed again from
any point on. With guards it may unless an erasure is `Overtaken`: it did nothing
for lack of its guard, the guard is put later, and the key it would have erased was
there and is left alone from then on. Replayed again it finds its guard.

This needs that no erased key is the guard of another one (`Apart`).
-/

namespace Lib

variable {κ ν : Type} [DecidableEq κ]

/-- An entry of the log. -/
inductive Entry (κ ν : Type)
  | put (k : κ) (v : ν)
  /-- Erases `k` if `guard` is there. -/
  | erase (guard k : κ)

namespace Entry

def on (m : κ → Option ν) : Entry κ ν → κ → Option ν
  | put k v => Function.update m k (some v)
  | erase guard k => if (m guard).isSome then Function.update m k none else m

/-- The key the entry writes, if it does. -/
def writes (m : κ → Option ν) : Entry κ ν → Option κ
  | put k _ => some k
  | erase guard k => if (m guard).isSome then some k else none

/-- The entry puts the key. -/
def Puts (k : κ) : Entry κ ν → Prop
  | put k' _ => k' = k
  | erase .. => False

end Entry

/-- The log, entry by entry. -/
def redo (m : κ → Option ν) (es : List (Entry κ ν)) : κ → Option ν := es.foldl Entry.on m

/-- No entry writes the key. -/
def Untouched (k : κ) : (κ → Option ν) → List (Entry κ ν) → Prop
  | _, [] => True
  | m, e :: es => e.writes m ≠ some k ∧ Untouched k (e.on m) es

/-- The erasure does nothing, and will do something when the log is replayed again. -/
def Entry.Early (m : κ → Option ν) (es : List (Entry κ ν)) : Entry κ ν → Prop
  | put .. => False
  | erase guard k =>
      guard ≠ k ∧ m guard = none ∧ m k ≠ none ∧ (∃ e ∈ es, e.Puts guard) ∧ Untouched k m es

/-- Some erasure of the log comes early. -/
def Overtaken : (κ → Option ν) → List (Entry κ ν) → Prop
  | _, [] => False
  | m, e :: es => e.Early m es ∨ Overtaken (e.on m) es

/-- Erased keys are not guards of other keys: the guards are among `P`, and they are not erased. -/
def Apart (P : κ → Prop) (es : List (Entry κ ν)) : Prop :=
  ∀ guard k, Entry.erase guard k ∈ es → (guard = k ∨ P guard) ∧ ¬ P k

section Decidable

variable [DecidableEq ν]

instance (k : κ) : DecidablePred (Entry.Puts (ν := ν) k)
  | .put k' _ => inferInstanceAs (Decidable (k' = k))
  | .erase .. => .isFalse id

instance Untouched.decidable (k : κ) : ∀ (m : κ → Option ν) es, Decidable (Untouched k m es)
  | _, [] => .isTrue trivial
  | m, e :: es =>
    have := Untouched.decidable k (e.on m) es
    inferInstanceAs (Decidable (e.writes m ≠ some k ∧ Untouched k (e.on m) es))

instance (m : κ → Option ν) (es : List (Entry κ ν)) : DecidablePred (Entry.Early m es)
  | .put .. => .isFalse id
  | .erase .. => inferInstanceAs (Decidable (_ ∧ _ ∧ _ ∧ _ ∧ _))

instance Overtaken.decidable : ∀ (m : κ → Option ν) es, Decidable (Overtaken m es)
  | _, [] => .isFalse id
  | m, e :: es =>
    have := Overtaken.decidable (e.on m) es
    inferInstanceAs (Decidable (e.Early m es ∨ Overtaken (e.on m) es))

end Decidable

variable {m m' : κ → Option ν} {e : Entry κ ν} {es : List (Entry κ ν)} {k : κ} {P : κ → Prop}

/-! ## One entry -/

/-- **What an entry does not write it leaves alone.** -/
theorem Entry.on_of_not_writes (h : e.writes m ≠ some k) : e.on m k = m k := by
  cases e with
  | put k' v => exact Function.update_of_ne (fun he => h (congrArg some he.symm)) _ _
  | erase guard k' =>
      rw [Entry.writes] at h
      rw [Entry.on]
      split
      · rename_i hguard
        rw [if_pos hguard] at h
        exact Function.update_of_ne (fun he => h (congrArg some he.symm)) _ _
      · rfl

/-- An erasure whose guard is there. -/
theorem Entry.on_found {guard : κ} (h : m guard ≠ none) : (Entry.erase guard k).on m k = none := by
  rw [Entry.on, if_pos (Option.isSome_iff_ne_none.mpr h), Function.update_self]

/-- An erasure whose guard is not. -/
theorem Entry.on_missing {guard : κ} (h : m guard = none) : (Entry.erase guard k).on m = m := by
  rw [Entry.on, h, Option.isSome_none, if_neg (by decide)]

omit [DecidableEq κ] in
theorem Entry.writes_missing {guard : κ} (h : m guard = none) :
    (Entry.erase guard k : Entry κ ν).writes m = none := by
  rw [Entry.writes, h, Option.isSome_none, if_neg (by decide)]

omit [DecidableEq κ] in
theorem Entry.writes_erase_ne {guard x : κ} (h : k ≠ x) :
    (Entry.erase guard k : Entry κ ν).writes m ≠ some x := by
  rw [Entry.writes]
  split
  · exact fun he => h (Option.some.inj he)
  · exact nofun

/-- A key that is not there and not put is not there afterwards. -/
theorem Entry.on_none (hm : m k = none) (h : ¬ e.Puts k) : e.on m k = none := by
  cases e with
  | put k' v =>
      rw [Entry.on, Function.update_of_ne (Ne.symm h)]
      exact hm
  | erase guard k' =>
      rw [Entry.on]
      split
      · rw [Function.update_apply]
        split
        · rfl
        · exact hm
      · exact hm

/-- A key that is not erased stays. -/
theorem Entry.on_some (hm : m k ≠ none) (h : ∀ guard, e ≠ .erase guard k) : e.on m k ≠ none := by
  cases e with
  | put k' v =>
      rw [Entry.on, Function.update_apply]
      split
      · exact nofun
      · exact hm
  | erase guard k' =>
      rw [Entry.on_of_not_writes (Entry.writes_erase_ne fun he => h guard (by rw [he]))]
      exact hm

/-! ## Whole logs -/

theorem redo_append (es es' : List (Entry κ ν)) : redo m (es ++ es') = redo (redo m es) es' :=
  List.foldl_append

theorem redo_none (hm : m k = none) (h : ∀ e ∈ es, ¬ e.Puts k) : redo m es k = none := by
  induction es generalizing m with
  | nil => exact hm
  | cons e es ih =>
      obtain ⟨he, hes⟩ := List.forall_mem_cons.mp h
      exact ih (Entry.on_none hm he) hes

theorem redo_untouched (h : Untouched k m es) : redo m es k = m k := by
  induction es generalizing m with
  | nil => rfl
  | cons e es ih => exact (ih h.2).trans (Entry.on_of_not_writes h.1)

theorem Untouched.not_puts (h : Untouched k m es) : ∀ e ∈ es, ¬ e.Puts k := by
  induction es generalizing m with
  | nil => exact nofun
  | cons e es ih =>
      refine List.forall_mem_cons.mpr ⟨fun hputs => ?_, ih h.2⟩
      cases e with
      | put k' v => exact h.1 (congrArg some hputs)
      | erase => exact hputs

theorem redo_guard (hes : Apart P es) {g : κ} (hg : P g) (hm : m g ≠ none) :
    redo m es g ≠ none := by
  induction es generalizing m with
  | nil => exact hm
  | cons e es ih =>
      refine ih (fun guard k h => hes guard k (List.mem_cons_of_mem _ h)) (Entry.on_some hm ?_)
      rintro guard rfl
      exact (hes guard g List.mem_cons_self).2 hg

theorem redo_put (hes : Apart P es) {g : κ} (hg : P g) (h : ∃ e ∈ es, e.Puts g) :
    redo m es g ≠ none := by
  induction es generalizing m with
  | nil => exact absurd h (by simp)
  | cons e es ih =>
      have hes' : Apart P es := fun guard k h => hes guard k (List.mem_cons_of_mem _ h)
      obtain ⟨e', he', hputs⟩ := h
      rcases List.mem_cons.mp he' with rfl | he'
      · cases e' with
        | put k v =>
            cases hputs
            refine redo_guard hes' hg ?_
            rw [Entry.on, Function.update_self]
            exact nofun
        | erase => exact hputs.elim
      · exact ih hes' ⟨e', he', hputs⟩

/-- Entries that write a guard, seen from a map where it is already as at the end. -/
theorem on_guard {T : κ → Option ν} {g : κ} (he : ∀ guard, e ≠ .erase guard g)
    (h : m' g = m g ∨ m' g = T g) : e.on m' g = e.on m g ∨ e.on m' g = T g := by
  cases e with
  | put k v =>
      rw [Entry.on, Entry.on, Function.update_apply, Function.update_apply]
      split
      · exact Or.inl rfl
      · exact h
  | erase guard k =>
      have hne : ∀ n : κ → Option ν, (Entry.erase guard k).on n g = n g := fun n =>
        Entry.on_of_not_writes (Entry.writes_erase_ne fun heq => he guard (by rw [heq]))
      rw [hne, hne]
      exact h

/--
Where a second replay can be, at a key: as the first one was, as it ended, or
without the key although the first one does not keep it.
-/
def Trails (T m m' : κ → Option ν) (es : List (Entry κ ν)) (x : κ) : Prop :=
  m' x = m x ∨ m' x = T x ∨ m' x = none ∧ ¬ (m x ≠ none ∧ Untouched x m es)

/-- An entry that writes the key in neither replay. -/
theorem Trails.left {T : κ → Option ν} {x : κ} (hx : Trails T m m' (e :: es) x)
    (h : e.writes m ≠ some x) (h' : e.writes m' ≠ some x) : Trails T (e.on m) (e.on m') es x := by
  rw [Trails, Entry.on_of_not_writes h, Entry.on_of_not_writes h']
  exact hx.imp id (Or.imp id fun hnone => ⟨hnone.1, fun hkeep => hnone.2 ⟨hkeep.1, h, hkeep.2⟩⟩)

/-- An erasure of the key: its guard is there in both replays, in one or in neither. -/
theorem Trails.erase {T : κ → Option ν} {guard k : κ} (hes : Apart P (.erase guard k :: es))
    (hT : redo m (.erase guard k :: es) = T) (hnot : ¬ Overtaken m (.erase guard k :: es))
    (hguard : ∀ g, P g → m' g = m g ∨ m' g = T g) (hx : Trails T m m' (.erase guard k :: es) k) :
    Trails T ((Entry.erase guard k).on m) ((Entry.erase guard k).on m') es k := by
  obtain ⟨hself, hkept⟩ := hes guard k List.mem_cons_self
  have hends : redo m (.erase guard k :: es) guard = T guard := congrFun hT guard
  by_cases hm : m guard = none
  · have hon : (Entry.erase guard k).on m = m := Entry.on_missing hm
    by_cases hm' : m' guard = none
    · refine hx.left ?_ ?_
      · rw [Entry.writes_missing hm]
        exact nofun
      · rw [Entry.writes_missing hm']
        exact nofun
    · -- the erasure finds its guard this time: then it was not early
      refine Or.inr (Or.inr ⟨Entry.on_found hm', ?_⟩)
      rw [hon]
      rintro ⟨hthere, huntouched⟩
      rcases hself with rfl | hP
      · exact hthere hm
      · refine hnot (Or.inl ⟨fun he => hkept (he ▸ hP), hm, hthere, ?_, huntouched⟩)
        by_contra hnever
        have hnone : redo m (.erase guard k :: es) guard = none := by
          rw [redo, List.foldl_cons, hon]
          exact redo_none hm fun e he hputs => hnever ⟨e, he, hputs⟩
        rcases hguard guard hP with h | h
        · exact hm' (h.trans hm)
        · exact hm' (h.trans (hends.symm.trans hnone))
  · have hon : (Entry.erase guard k).on m k = none := Entry.on_found hm
    refine Or.inl ?_
    rw [hon]
    by_cases hm' : m' guard = none
    · -- only a key that guards itself can be gone by now
      rcases hself with rfl | hP
      · rw [Entry.on_missing hm']
        exact hm'
      · exfalso
        rcases hguard guard hP with h | h
        · exact hm (h.symm.trans hm')
        · exact redo_guard hes hP hm (hends.trans (h.symm.trans hm'))
    · exact Entry.on_found hm'

theorem Trails.step {T : κ → Option ν} {x : κ} (hes : Apart P (e :: es)) (hT : redo m (e :: es) = T)
    (hnot : ¬ Overtaken m (e :: es)) (hguard : ∀ g, P g → m' g = m g ∨ m' g = T g)
    (hx : Trails T m m' (e :: es) x) : Trails T (e.on m) (e.on m') es x := by
  cases e with
  | put k v =>
      by_cases hk : k = x
      · subst hk
        exact Or.inl (by rw [Entry.on, Entry.on, Function.update_self, Function.update_self])
      · exact hx.left (fun h => hk (Option.some.inj h)) fun h => hk (Option.some.inj h)
  | erase guard k =>
      rcases ne_or_eq k x with hk | rfl
      · exact hx.left (Entry.writes_erase_ne hk) (Entry.writes_erase_ne hk)
      · exact hx.erase hes hT hnot hguard

/-- **A second replay that trails the first one ends where that one did.** -/
theorem redo_trails {T : κ → Option ν} {x : κ} (hes : Apart P es) (hT : redo m es = T)
    (hnot : ¬ Overtaken m es) (hguard : ∀ g, P g → m' g = m g ∨ m' g = T g)
    (hx : Trails T m m' es x) : redo m' es x = T x := by
  induction es generalizing m m' with
  | nil =>
      subst hT
      rcases hx with h | h | ⟨hnone, hkeep⟩
      · exact h
      · exact h
      · by_contra hne
        exact hkeep ⟨fun h => hne (hnone.trans h.symm), trivial⟩
  | cons e es ih =>
      refine ih (fun guard k h => hes guard k (List.mem_cons_of_mem _ h)) hT
        (fun h => hnot (Or.inr h)) (fun g hg => on_guard ?_ (hguard g hg))
          (hx.step hes hT hnot hguard)
      rintro guard rfl
      exact (hes guard g List.mem_cons_self).2 hg

theorem Overtaken.append {es' : List (Entry κ ν)} (h : Overtaken (redo m es) es') :
    Overtaken m (es ++ es') := by
  induction es generalizing m with
  | nil => exact h
  | cons e es ih => exact Or.inr (ih h)

/-- **A log without early erasures may be replayed again from any point on.** -/
theorem redo_suffix {es' : List (Entry κ ν)} (hes : Apart P (es ++ es'))
    (hnot : ¬ Overtaken m (es ++ es')) : redo (redo m (es ++ es')) es' = redo m (es ++ es') := by
  funext x
  refine redo_trails (m := redo m es) (fun guard k h => hes guard k (List.mem_append_right _ h))
    (redo_append es es').symm (fun h => hnot h.append) (fun g _ => Or.inr rfl) (Or.inr (Or.inl rfl))

/-- **An early erasure is made up for by a second replay.** -/
theorem redo_overtaken (hes : Apart P es) (h : Overtaken m es)
    (hguard : ∀ g, P g → redo m es g ≠ none → m' g ≠ none) : redo m' es ≠ redo m es := by
  induction es generalizing m m' with
  | nil => exact h.elim
  | cons e es ih =>
      have hes' : Apart P es := fun guard k h => hes guard k (List.mem_cons_of_mem _ h)
      rcases h with hearly | hlater
      · cases e with
        | put k v => exact hearly.elim
        | erase guard k =>
            obtain ⟨hne, hm, hthere, ⟨e, he, hputs⟩, huntouched⟩ := hearly
            have hP : P guard := (hes guard k List.mem_cons_self).1.resolve_left hne
            have hon : (Entry.erase guard k).on m = m := Entry.on_missing hm
            have hfound : m' guard ≠ none := by
              refine hguard guard hP ?_
              rw [redo, List.foldl_cons, hon]
              exact redo_put hes' hP ⟨e, he, hputs⟩
            have hgone : (Entry.erase guard k).on m' k = none := Entry.on_found hfound
            intro hsame
            have hk := congrFun hsame k
            rw [redo, redo, List.foldl_cons, List.foldl_cons, hon] at hk
            refine hthere ((redo_untouched huntouched).symm.trans (hk.symm.trans ?_))
            exact redo_none hgone huntouched.not_puts
      · exact ih hes' hlater fun g hg hends => Entry.on_some (hguard g hg hends) fun guard he =>
          (hes guard g (he ▸ List.mem_cons_self)).2 hg

end Lib
