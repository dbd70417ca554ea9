import Mathlib.Data.List.Basic

/-!
# Machinery/Since — the past operator on a log

A log lists what has happened, newest first.  `Since P Q log` is the "since" of past-time temporal
logic: something of `Q` has happened, and everything that has happened after it is in `P`.
-/

/-- `Q` has happened, and only `P` since. -/
def Since {α : Type*} (P Q : α → Prop) : List α → Prop
  | [] => False
  | a :: log => Q a ∨ P a ∧ Since P Q log

namespace Since

variable {α : Type*} {P Q : α → Prop} {acts log : List α}

/-- Actions in `P` do not end what is going on. -/
theorem append (h : ∀ a ∈ acts, P a) (hs : Since P Q log) : Since P Q (acts ++ log) := by
  induction acts with
  | nil => exact hs
  | cons a acts ih =>
    exact Or.inr ⟨h a List.mem_cons_self, ih fun b hb => h b (List.mem_cons_of_mem _ hb)⟩

/-- What is going on without a new `Q` was going on before, and no action ended it. -/
theorem of_append (h : ∀ a ∈ acts, ¬ Q a) (hs : Since P Q (acts ++ log)) :
    (∀ a ∈ acts, P a) ∧ Since P Q log := by
  induction acts with
  | nil => exact ⟨by simp, hs⟩
  | cons a acts ih =>
    obtain hQ | ⟨hP, hs'⟩ := hs
    · exact (h a List.mem_cons_self hQ).elim
    · obtain ⟨hacts, hlog⟩ := ih (fun b hb => h b (List.mem_cons_of_mem _ hb)) hs'
      exact ⟨List.forall_mem_cons.mpr ⟨hP, hacts⟩, hlog⟩

/-- Something that has not happened lately happened before. -/
theorem suffix_of_notMem {a : α} {before : List α} (ha : a ∉ acts)
    (h : (a :: before) <:+ acts ++ log) : (a :: before) <:+ log := by
  induction acts with
  | nil => exact h
  | cons b acts ih =>
    obtain ⟨hne, ha⟩ := not_or.mp (List.mem_cons.not.mp ha)
    obtain heq | h := List.suffix_cons_iff.mp h
    · exact (hne (List.cons_eq_cons.mp heq).1).elim
    · exact ih ha h

end Since
