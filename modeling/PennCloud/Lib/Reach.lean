import Mathlib.Data.List.Nodup
import Mathlib.Logic.Relation

/-!
# What can be reached from a root

`Relation.ReflTransGen r root` is what a relation reaches. The lemmas say what
becomes of it when a leaf is put in, a leaf is taken out, or a node is taken from
below one parent and put below a sibling of it.

A `Walk` is a path from the root, kept with its end first. Where each node has one
parent and the root has none, a walk visits no node twice and none of what lies
right below its end.
-/

namespace Lib

open Relation

variable {α : Type} {r r' : α → α → Prop} {root p q x y : α}

/-- **A new leaf below a node that is reached** is reached, and nothing else is. -/
theorem reach_addLeaf (hr : ∀ a b, r' a b ↔ r a b ∨ a = p ∧ b = x) (hleaf : ∀ b, ¬ r x b)
    (hp : ReflTransGen r root p) :
    ReflTransGen r' root y ↔ ReflTransGen r root y ∨ y = x := by
  constructor
  · intro h
    induction h with
    | refl => exact Or.inl .refl
    | @tail b c _ hbc ih =>
        rcases (hr b c).mp hbc with hbc | ⟨-, rfl⟩
        · rcases ih with ih | rfl
          · exact Or.inl (ih.tail hbc)
          · exact absurd hbc (hleaf c)
        · exact Or.inr rfl
  · have hmono : ∀ {z}, ReflTransGen r root z → ReflTransGen r' root z := fun h =>
      ReflTransGen.mono (fun a b hab => (hr a b).mpr (Or.inl hab)) _ _ h
    rintro (h | rfl)
    · exact hmono h
    · exact (hmono hp).tail ((hr p y).mpr (Or.inr ⟨rfl, rfl⟩))

/-- **Without a leaf**, the rest is still reached. -/
theorem reach_dropLeaf (hr : ∀ a b, r' a b ↔ r a b ∧ b ≠ x) (hleaf : ∀ b, ¬ r x b) (hx : x ≠ root) :
    ReflTransGen r' root y ↔ ReflTransGen r root y ∧ y ≠ x := by
  constructor
  · intro h
    refine ⟨ReflTransGen.mono (fun a b hab => ((hr a b).mp hab).1) _ _ h, ?_⟩
    cases h with
    | refl => exact hx.symm
    | tail _ hbc => exact ((hr _ _).mp hbc).2
  · rintro ⟨h, hy⟩
    induction h with
    | refl => exact .refl
    | @tail b c _ hbc ih =>
        refine (ih ?_).tail ((hr b c).mpr ⟨hbc, hy⟩)
        rintro rfl
        exact hleaf c hbc

/-- **Moved below a sibling**, a node is still reached, and what is below it. -/
theorem reach_move (hr : ∀ a b, r' a b ↔ r a b ∧ b ≠ x ∨ a = q ∧ b = x) (honly : ∀ a, r a x → a = p)
    (hpx : r p x) (hpq : r p q) (hqx : q ≠ x) (hp : ReflTransGen r root p) :
    ReflTransGen r' root y ↔ ReflTransGen r root y := by
  constructor
  · intro h
    induction h with
    | refl => exact .refl
    | @tail b c _ hbc ih =>
        rcases (hr b c).mp hbc with ⟨hbc, -⟩ | ⟨-, rfl⟩
        · exact ih.tail hbc
        · exact hp.tail hpx
  · intro h
    induction h with
    | refl => exact .refl
    | @tail b c _ hbc ih =>
        by_cases hc : c = x
        · subst hc
          obtain rfl := honly b hbc
          have hq : ReflTransGen r' root q := ih.tail ((hr b q).mpr (Or.inl ⟨hpq, hqx⟩))
          exact hq.tail ((hr q c).mpr (Or.inr ⟨rfl, rfl⟩))
        · exact ih.tail ((hr b c).mpr (Or.inl ⟨hbc, hc⟩))

/-- A path from the root, its end first. -/
inductive Walk (r : α → α → Prop) (root : α) : List α → Prop
  | root : Walk r root [root]
  | step {a b : α} {l : List α} : Walk r root (a :: l) → r a b → Walk r root (b :: a :: l)

namespace Walk

variable {l : List α}

theorem reach (h : Walk r root l) : ∀ y ∈ l, ReflTransGen r root y := by
  induction h with
  | root =>
      intro y hy
      rw [List.mem_singleton.mp hy]
  | step _ hab ih =>
      intro y hy
      rcases List.mem_cons.mp hy with rfl | hy
      · exact (ih _ List.mem_cons_self).tail hab
      · exact ih y hy

/-- What is on a walk but the root has its parent there. -/
theorem parent (h : Walk r root l) : ∀ y ∈ l, y = root ∨ ∃ z ∈ l, r z y := by
  induction h with
  | root => exact fun y hy => Or.inl (List.mem_singleton.mp hy)
  | step _ hab ih =>
      intro y hy
      rcases List.mem_cons.mp hy with rfl | hy
      · exact Or.inr ⟨_, List.mem_cons_of_mem _ List.mem_cons_self, hab⟩
      · rcases ih y hy with hroot | ⟨z, hz, hzy⟩
        · exact Or.inl hroot
        · exact Or.inr ⟨z, List.mem_cons_of_mem _ hz, hzy⟩

/-- **A walk in a forest** visits nothing twice, and nothing below its end. -/
theorem apart (hone : ∀ a b y, r a y → r b y → a = b) (hroot : ∀ a, ¬ r a root)
    (h : Walk r root l) :
    l.Nodup ∧ ∀ a ∈ l.head?, ∀ y ∈ l, ¬ r a y := by
  induction h with
  | root =>
      refine ⟨List.nodup_singleton _, fun a _ y hy => ?_⟩
      rw [List.mem_singleton.mp hy]
      exact hroot a
  | @step a b l hwalk hab ih =>
      have hb : b ∉ a :: l := fun hmem => ih.2 a rfl b hmem hab
      refine ⟨List.nodup_cons.mpr ⟨hb, ih.1⟩, fun c hc y hy hby => ?_⟩
      cases hc
      rcases List.mem_cons.mp hy with rfl | hy
      · exact hb (hone a y y hab hby ▸ List.mem_cons_self)
      · rcases hwalk.parent y hy with rfl | ⟨z, hz, hzy⟩
        · exact hroot b hby
        · exact hb (hone z b y hzy hby ▸ hz)

/-- The way back to a node on the walk. -/
theorem drop (h : Walk r root l) (n : Nat) (hn : l.drop n ≠ []) : Walk r root (l.drop n) := by
  induction h generalizing n with
  | root =>
      cases n with
      | zero => exact .root
      | succ n => exact absurd List.drop_nil hn
  | step hwalk hab ih =>
      cases n with
      | zero => exact .step hwalk hab
      | succ n => exact ih n hn

/-- What keeps the steps of a walk keeps the walk. -/
theorem mono (h : Walk r root l) (hr : ∀ a b, b ∈ l → r a b → r' a b) : Walk r' root l := by
  induction h with
  | root => exact .root
  | step _ hab ih =>
      exact .step (ih fun a b hb => hr a b (List.mem_cons_of_mem _ hb))
        (hr _ _ List.mem_cons_self hab)

end Walk

end Lib
