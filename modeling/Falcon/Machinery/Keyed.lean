import Mathlib.Data.List.AList

/-!
# Machinery/Keyed — ordered containers as association lists

`Keyed κ ρ` stands for the two ordered containers a C++ program keeps by key: a `std::map<κ, ρ>`,
and a `std::set` of objects `ρ` whose comparison looks at a key `κ` of the object only.  In both
there is at most one object under a key; in the set, inserting under a key that is taken keeps the
*old* object, which is what `Keyed.add` does and `AList.insert` does not.
-/

/-- A finite container with at most one `ρ` under each key. -/
abbrev Keyed (κ ρ : Type) := AList fun _ : κ => ρ

namespace Keyed

variable {κ ρ : Type} [DecidableEq κ] {k k' : κ} {v v' : ρ} {s : Keyed κ ρ}

/-- `std::set::insert`: an object already there under the key stays. -/
def add (k : κ) (v : ρ) (s : Keyed κ ρ) : Keyed κ ρ := if k ∈ s then s else s.insert k v

/-- `empty()`. -/
def isEmpty (s : Keyed κ ρ) : Bool := s.entries.isEmpty

/-- `size()`. -/
def size (s : Keyed κ ρ) : ℕ := s.entries.length

@[simp] theorem mem_add : k' ∈ add k v s ↔ k' = k ∨ k' ∈ s := by
  unfold add
  split
  · next h => exact ⟨Or.inr, fun h' => h'.elim (fun e => e ▸ h) id⟩
  · exact AList.mem_insert s

/-- In a family of containers, an insertion into one of them takes no key from any. -/
theorem mem_update_add {ι : Type} [DecidableEq ι] {f : ι → Keyed κ ρ} {i j : ι} (h : k' ∈ f j) :
    k' ∈ Function.update f i ((f i).add k v) j := by
  by_cases hj : j = i
  · subst hj
    rw [Function.update_self]
    exact mem_add.mpr (Or.inr h)
  · rwa [Function.update_of_ne hj]

theorem lookup_add_of_mem (h : k ∈ s) : (add k v s).lookup k' = s.lookup k' := by
  rw [add, if_pos h]

theorem lookup_add_self (h : k ∉ s) : (add k v s).lookup k = some v := by
  rw [add, if_neg h, AList.lookup_insert]

theorem lookup_add_ne (h : k' ≠ k) : (add k v s).lookup k' = s.lookup k' := by
  unfold add
  split
  · rfl
  · exact AList.lookup_insert_ne h

omit [DecidableEq κ] in
theorem isEmpty_iff : isEmpty s = true ↔ ∀ k, k ∉ s := by
  rw [isEmpty, List.isEmpty_iff]
  constructor
  · intro h k hk
    rw [AList.mem_keys, AList.keys, h] at hk
    exact List.not_mem_nil hk
  · intro h
    refine List.eq_nil_iff_forall_not_mem.mpr fun a ha => h a.1 ?_
    exact AList.mem_keys.mpr (List.mem_keys_of_mem ha)

omit [DecidableEq κ] in
theorem not_isEmpty_iff : isEmpty s = false ↔ ∃ k, k ∈ s := by
  rw [← Bool.not_eq_true, isEmpty_iff, not_forall_not]

/-- **A set grows to one element exactly when the insertion was new and the set was empty.** -/
theorem size_add_eq_one : (size (add k v s) = 1 ∧ k ∉ s) ↔ isEmpty s = true := by
  constructor
  · rintro ⟨h, hk⟩
    rw [add, if_neg hk, size, AList.entries_insert_of_notMem hk, List.length_cons] at h
    exact List.isEmpty_iff.mpr (List.eq_nil_of_length_eq_zero (by omega))
  · intro h
    have hk : k ∉ s := isEmpty_iff.mp h k
    refine ⟨?_, hk⟩
    rw [add, if_neg hk, size, AList.entries_insert_of_notMem hk, List.length_cons,
      List.isEmpty_iff.mp h, List.length_nil]

theorem lookup_of_lookup_add (h : (add k v s).lookup k' = some v') :
    s.lookup k' = some v' ∨ k' = k ∧ v' = v := by
  by_cases hmem : k ∈ s
  · exact Or.inl (by rwa [lookup_add_of_mem hmem] at h)
  · by_cases hk : k' = k
    · subst hk
      rw [lookup_add_self hmem] at h
      exact Or.inr ⟨rfl, (Option.some.inj h).symm⟩
    · exact Or.inl (by rwa [lookup_add_ne hk] at h)

/-- What is under a key after an insertion. -/
theorem lookup_of_lookup_insert (h : (s.insert k v).lookup k' = some v') :
    k' = k ∧ v' = v ∨ k' ≠ k ∧ s.lookup k' = some v' := by
  by_cases hk : k' = k
  · subst hk
    rw [AList.lookup_insert] at h
    exact Or.inl ⟨rfl, (Option.some.inj h).symm⟩
  · rw [AList.lookup_insert_ne hk] at h
    exact Or.inr ⟨hk, h⟩

theorem lookup_of_lookup_erase (h : (s.erase k).lookup k' = some v) : s.lookup k' = some v := by
  by_cases hk : k' = k
  · subst hk
    rw [AList.lookup_erase] at h
    cases h
  · rwa [AList.lookup_erase_ne hk] at h

theorem mem_of_lookup (h : s.lookup k = some v) : k ∈ s :=
  AList.lookup_isSome.mp (by rw [h]; rfl)

theorem exists_lookup (h : k ∈ s) : ∃ v, s.lookup k = some v :=
  Option.isSome_iff_exists.mp (AList.lookup_isSome.mpr h)

/-- What is left when the keys of a list are erased. -/
theorem lookup_foldl_erase {l : List κ} :
    (l.foldl (fun s k => s.erase k) s).lookup k = some v ↔ s.lookup k = some v ∧ k ∉ l := by
  induction l generalizing s with
  | nil => simp
  | cons k' l ih =>
    rw [List.foldl_cons, ih, List.mem_cons, not_or]
    by_cases hk : k = k'
    · subst hk
      simp
    · rw [AList.lookup_erase_ne hk]
      exact ⟨fun h => ⟨h.1, hk, h.2⟩, fun h => ⟨h.1, h.2.2⟩⟩

/-- What the objects of a set are, under their keys. -/
theorem mem_entries_iff : (⟨k, v⟩ : Sigma fun _ : κ => ρ) ∈ s.entries ↔ s.lookup k = some v :=
  AList.mem_lookup_iff.symm

end Keyed
