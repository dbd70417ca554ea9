import Falcon.Replication.Protocol
import Mathlib.Data.Finset.Sort

/-!
# Replication/Quorums — majorities of a set

`set.h` keeps the members of a set in an `itree`, which iterates in increasing order of the keys: a
finite set `S` is walked as `S.sort`.

* `intersectLoop_sort` — the two walks of `intersect_with` meet at the common members, and nowhere
  else.
* `quorums` — `contains_majority_of` counts them, so that two majorities of one set meet.
-/

namespace Falcon.OrdSet

variable {α : Type} [LinearOrder α] {a x : α} {A S r : OrdSet α}

/-- The loop of `intersect_with(s, r)`: what is left of both walks, and what is in `r`. -/
def intersectLoop : OrdSet α → OrdSet α → OrdSet α → OrdSet α
  | x :: A, y :: S, r =>
    if x < y then intersectLoop A (y :: S) r
    else if y < x then intersectLoop (x :: A) S r
    else intersectLoop A S (insert x r)
  | [], _, r => r
  | _ :: _, [], r => r
termination_by A S => A.length + S.length

/-- The loop inserts what `intersectWith` collects. -/
theorem intersectLoop_eq : intersectLoop A S r =
    (intersectWith A S).foldl (fun r a => insert a r) r := by
  fun_induction intersectLoop A S r with
  | case1 x A y S r hlt ih => rw [ih, intersectWith, intersectFrom, if_pos hlt]
  | case2 x A y S r hlt hgt ih =>
    rw [ih, intersectWith, intersectWith, intersectFrom, if_neg hlt, if_pos hgt]
  | case3 x A y S r hlt hgt ih =>
    rw [ih, intersectWith, intersectFrom, if_neg hlt, if_neg hgt, List.foldl_cons]
  | case4 S r => rfl
  | case5 x A r => rfl

theorem Sorted.not_mem_of_lt (h : Sorted (x :: S)) (hlt : a < x) : a ∉ x :: S := by
  intro hmem
  obtain rfl | hmem := List.mem_cons.mp hmem
  · exact lt_irrefl a hlt
  · exact lt_asymm hlt (List.rel_of_pairwise_cons h hmem)

/-- **The merge walk finds each common member, and nothing else.**  Of two different heads the
smaller one is in one of the sets only. -/
theorem mem_intersectLoop (hA : Sorted A) (hS : Sorted S) :
    a ∈ intersectLoop A S r ↔ a ∈ r ∨ a ∈ A ∧ a ∈ S := by
  fun_induction intersectLoop A S r with
  | case1 x A y S r hlt ih =>
    rw [ih (List.pairwise_cons.mp hA).2 hS]
    refine or_congr_right (and_congr_left fun hmem => ?_)
    have hne : a ≠ x := fun hax => hS.not_mem_of_lt (hax ▸ hlt) hmem
    rw [List.mem_cons, or_iff_right hne]
  | case2 x A y S r hlt hgt ih =>
    rw [ih hA (List.pairwise_cons.mp hS).2]
    refine or_congr_right (and_congr_right fun hmem => ?_)
    have hne : a ≠ y := fun hay => hA.not_mem_of_lt (hay ▸ hgt) hmem
    rw [List.mem_cons, or_iff_right hne]
  | case3 x A y S r hlt hgt ih =>
    obtain rfl : x = y := le_antisymm (not_lt.mp hgt) (not_lt.mp hlt)
    rw [ih (List.pairwise_cons.mp hA).2 (List.pairwise_cons.mp hS).2, mem_insert, List.mem_cons,
      List.mem_cons, ← or_and_left, or_assoc, or_left_comm]
  | case4 S r => simp
  | case5 x A r => simp

theorem mem_intersectWith (hA : Sorted A) (hS : Sorted S) :
    a ∈ intersectWith A S ↔ a ∈ A ∧ a ∈ S := by
  have hloop := mem_intersectLoop (a := a) (r := []) hA hS
  rw [intersectLoop_eq, mem_foldl_insert] at hloop
  simpa using hloop

theorem sorted_intersectWith (hS : Sorted S) : Sorted (intersectWith A S) :=
  hS.sublist (sublist_intersectWith A S).1

/-! ## Finite sets -/

theorem sorted_sort (S : Finset α) : Sorted S.sort := S.sortedLT_sort.pairwise

theorem intersectWith_sort (A S : Finset α) : intersectWith A.sort S.sort = (A ∩ S).sort :=
  (sorted_intersectWith (sorted_sort S)).ext (sorted_sort _) fun a => by
    rw [mem_intersectWith (sorted_sort A) (sorted_sort S)]
    simp

/-- **`intersect_with` gives the intersection**, each common member once. -/
theorem intersectLoop_sort (A S : Finset α) : intersectLoop A.sort S.sort [] = (A ∩ S).sort := by
  rw [intersectLoop_eq, intersectWith_sort]
  exact (Sorted.foldl_insert List.Pairwise.nil).ext (sorted_sort _) fun a => by
    simp [mem_foldl_insert]

theorem containsMajorityOf_sort (A S : Finset α) : containsMajorityOf A.sort S.sort = true ↔
    S.card / 2 + 1 ≤ (A ∩ S).card := by
  rw [containsMajorityOf, intersectWith_sort, decide_eq_true_eq, Finset.length_sort,
    Finset.length_sort]

/-- **Quorums.**  `intersect_with` collects the common members of two sets, a set contains a
majority of another one exactly if there are more than half of its members among them, and two such
sets have one of these members in common. -/
theorem quorums (A S : Finset α) : intersectLoop A.sort S.sort [] = (A ∩ S).sort ∧
    (containsMajorityOf A.sort S.sort = true ↔ S.card / 2 + 1 ≤ (A ∩ S).card) ∧
    ∀ B : Finset α, containsMajorityOf A.sort S.sort = true →
      containsMajorityOf B.sort S.sort = true → ∃ x ∈ S, x ∈ A ∧ x ∈ B := by
  refine ⟨intersectLoop_sort A S, containsMajorityOf_sort A S, fun B hA hB => ?_⟩
  obtain ⟨x, hxS, hxA, hxB⟩ := exists_mem_of_majorities (sorted_sort S).nodup hA hB
  exact ⟨x, (Finset.mem_sort _).mp hxS, (Finset.mem_sort _).mp hxA, (Finset.mem_sort _).mp hxB⟩

end Falcon.OrdSet
