import Mathlib.Data.List.Basic

/-!
# Machinery/Words — one word put together from three

Three words are written one behind the other, and nothing marks where one ends and the next begins.
`Shifted t u` — letters have been moved over the borders of `t` without a change of their order, and
the first word has become no shorter.

* `concat_eq_iff` — two different triples give the same word exactly if one is the other shifted.
-/

/-- Three words. -/
abbrev Words (α : Type*) := List α × List α × List α

namespace Words

variable {α : Type*}

/-- The three words, one behind the other. -/
def concat (t : Words α) : List α := t.1 ++ (t.2.1 ++ t.2.2)

/-- Some letters, one at least, are moved over the borders. -/
inductive Shifted : Words α → Words α → Prop
  /-- The second word gives `x` to the first one, and gets `y` from the third. -/
  | along (a x b y c : List α) : x ++ y ≠ [] → Shifted (a, x ++ b, y ++ c) (a ++ x, b ++ y, c)
  /-- The second word gives `x` to the first one, and `y` to the third. -/
  | apart (a x b y c : List α) : x ++ y ≠ [] → Shifted (a, x ++ (b ++ y), c) (a ++ x, b, y ++ c)
  /-- The first word gets all of the second, and `x`; the second is made of letters of the third. -/
  | past (a b x b' c : List α) : b ++ x ++ b' ≠ [] →
    Shifted (a, b, x ++ (b' ++ c)) (a ++ (b ++ x), b', c)

variable {t u : Words α}

/-- The letters are in the same order. -/
theorem Shifted.concat_eq (h : Shifted t u) : t.concat = u.concat := by
  cases h with
  | along a x b y c _ => simp only [concat, List.append_assoc]
  | apart a x b y c _ => simp only [concat, List.append_assoc]
  | past a b x b' c _ => simp only [concat, List.append_assoc]

/-- A letter has been moved. -/
theorem Shifted.ne (h : Shifted t u) : t ≠ u := by
  intro heq
  cases h with
  | along a x b y c hne =>
    obtain ⟨rfl, -, rfl⟩ : x = [] ∧ x ++ b = b ++ y ∧ y = [] := by simpa using heq
    exact hne rfl
  | apart a x b y c hne =>
    obtain ⟨rfl, -, rfl⟩ : x = [] ∧ x ++ (b ++ y) = b ∧ y = [] := by simpa using heq
    exact hne rfl
  | past a b x b' c hne =>
    obtain ⟨⟨rfl, rfl⟩, rfl, -⟩ : (b = [] ∧ x = []) ∧ b = b' ∧ x ++ (b' ++ c) = c := by
      simpa using heq
    exact hne rfl

/-- Where the first word of `u` is the longer one, `u` is `t` shifted. -/
theorem shifted_of_concat {a b c x b' c' : List α} (h : b ++ c = x ++ (b' ++ c'))
    (hne : ((a, b, c) : Words α) ≠ (a ++ x, b', c')) :
    Shifted ((a, b, c) : Words α) (a ++ x, b', c') := by
  obtain ⟨z, rfl, rfl⟩ | ⟨m, rfl, hrest⟩ := List.append_eq_append_iff.mp h
  · refine .past a b z b' c' fun hnil => hne ?_
    simp only [List.append_eq_nil_iff] at hnil
    obtain ⟨⟨rfl, rfl⟩, rfl⟩ := hnil
    simp
  · -- the second border of `u` is in front of the one of `t`, or behind it
    obtain ⟨y, rfl, rfl⟩ | ⟨y, rfl, rfl⟩ := List.append_eq_append_iff.mp hrest
    · refine .apart a x b' y c fun hnil => hne ?_
      obtain ⟨rfl, rfl⟩ := List.append_eq_nil_iff.mp hnil
      simp
    · refine .along a x m y c' fun hnil => hne ?_
      obtain ⟨rfl, rfl⟩ := List.append_eq_nil_iff.mp hnil
      simp

/-- **When three words are not told apart.** -/
theorem concat_eq_iff : t.concat = u.concat ∧ t ≠ u ↔ Shifted t u ∨ Shifted u t := by
  constructor
  · rintro ⟨heq, hne⟩
    obtain ⟨a, b, c⟩ := t
    obtain ⟨a', b', c'⟩ := u
    obtain ⟨x, rfl, h⟩ | ⟨x, rfl, h⟩ := List.append_eq_append_iff.mp heq
    · exact Or.inl (shifted_of_concat h hne)
    · exact Or.inr (shifted_of_concat h hne.symm)
  · rintro (h | h)
    · exact ⟨h.concat_eq, h.ne⟩
    · exact ⟨h.concat_eq.symm, h.ne.symm⟩

end Words
