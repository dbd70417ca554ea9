import Mathlib.Data.List.Infix
import Mathlib.Data.List.Pairwise

/-!
# Machinery/Lineage — the way from a root

In a forest each element has at most one parent.  The lineage of an element is the list of what
comes on the way from the root to it, the element last and the root left out.

* `Lineage.unique` — an element has one lineage.
* `Lineage.exists_prefix` — an element of a lineage has a lineage that begins it.
* `Lineage.prefix_or_fork`, `Lineage.exists_parent` — two lineages that part do so at two children
  of one element.
* `Lineage.pairwise` — what holds between each element and those before it in its lineage holds in
  every lineage.
-/

/-- `l` leads from the root to `b`, from parent (`P a b`) to child. -/
inductive Lineage {α : Type*} (P : α → α → Prop) (root : α) : α → List α → Prop
  | root : Lineage P root root []
  | step {a b : α} {l : List α} (hl : Lineage P root a l) (h : P a b) :
      Lineage P root b (l ++ [b])

namespace Lineage

variable {α : Type*} {P P' : α → α → Prop} {R : α → α → Prop} {root a b : α} {l l' : List α}

theorem mono (hP : ∀ a b, P a b → P' a b) (hl : Lineage P root a l) : Lineage P' root a l := by
  induction hl with
  | root => exact .root
  | step _ h ih => exact ih.step (hP _ _ h)

/-- **An element has one lineage.** -/
theorem unique (hP : ∀ a a' b, P a b → P a' b → a = a') (hroot : ∀ a, ¬P a root)
    (hl : Lineage P root a l) (hl' : Lineage P root a l') : l = l' := by
  induction hl generalizing l' with
  | root =>
    cases hl' with
    | root => rfl
    | step _ h => exact absurd h (hroot _)
  | step _ h ih =>
    cases hl' with
    | root => exact absurd h (hroot _)
    | step hl' h' =>
      obtain rfl := hP _ _ _ h h'
      rw [ih hl']

theorem exists_prefix (hl : Lineage P root a l) (hb : b ∈ l) :
    ∃ l', Lineage P root b (l' ++ [b]) ∧ l' ++ [b] <+: l := by
  induction hl with
  | root => cases hb
  | @step a c l hl h ih =>
    obtain hb | hb := List.mem_append.mp hb
    · obtain ⟨l', hl', hpre⟩ := ih hb
      exact ⟨l', hl', hpre.trans (List.prefix_append _ _)⟩
    · obtain rfl := List.mem_singleton.mp hb
      exact ⟨l, hl.step h, List.prefix_rfl⟩

/-- What comes before an element of a lineage leads to its parent. -/
theorem exists_parent (hl : Lineage P root a l) (hb : l' ++ [b] <+: l) :
    ∃ c, Lineage P root c l' ∧ P c b := by
  induction hl with
  | root => exact absurd (List.prefix_nil.mp hb) (List.append_ne_nil_of_right_ne_nil _ (by simp))
  | @step c d l hl h ih =>
    obtain heq | hb := List.prefix_concat_iff.mp hb
    · obtain ⟨rfl, hd⟩ := List.append_inj' heq rfl
      obtain rfl := List.singleton_inj.mp hd
      exact ⟨c, hl, h⟩
    · exact ih hb

theorem getLast? (hl : Lineage P root a l) : l.getLast?.getD root = a := by
  cases hl with
  | root => rfl
  | step _ _ => rw [List.getLast?_concat, Option.getD_some]

/-- A list leads to one element. -/
theorem end_unique (hl : Lineage P root a l) (hl' : Lineage P root b l) : a = b :=
  hl.getLast?.symm.trans hl'.getLast?

/-- Two lists begin one another, or they have a first difference. -/
theorem prefix_or_fork (l l' : List α) : l <+: l' ∨ l' <+: l ∨
    ∃ p b b', b ≠ b' ∧ p ++ [b] <+: l ∧ p ++ [b'] <+: l' := by
  induction l generalizing l' with
  | nil => exact Or.inl List.nil_prefix
  | cons a l ih =>
    cases l' with
    | nil => exact Or.inr (Or.inl List.nil_prefix)
    | cons a' l' =>
      by_cases ha : a = a'
      · subst ha
        obtain h | h | ⟨p, b, b', hne, hp, hp'⟩ := ih l'
        · exact Or.inl (List.cons_prefix_cons.mpr ⟨rfl, h⟩)
        · exact Or.inr (Or.inl (List.cons_prefix_cons.mpr ⟨rfl, h⟩))
        · exact Or.inr (Or.inr ⟨a :: p, b, b', hne, List.cons_prefix_cons.mpr ⟨rfl, hp⟩,
            List.cons_prefix_cons.mpr ⟨rfl, hp'⟩⟩)
      · exact Or.inr (Or.inr ⟨[], a, a', ha, List.cons_prefix_cons.mpr ⟨rfl, List.nil_prefix⟩,
          List.cons_prefix_cons.mpr ⟨rfl, List.nil_prefix⟩⟩)

theorem pairwise (hR : ∀ b l, Lineage P root b (l ++ [b]) → ∀ a ∈ l, R a b)
    (hl : Lineage P root a l) : l.Pairwise R := by
  induction hl with
  | root => exact List.Pairwise.nil
  | step hl h ih =>
    refine List.pairwise_append.mpr ⟨ih, List.pairwise_singleton _ _, fun x hx y hy => ?_⟩
    obtain rfl := List.mem_singleton.mp hy
    exact hR _ _ (hl.step h) x hx

end Lineage
