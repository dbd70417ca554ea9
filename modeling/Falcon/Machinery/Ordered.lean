import Mathlib.Data.List.Basic

/-!
# Machinery/Ordered — a map that tells its keys apart by an order

As in `std::map`, two keys are the same when neither is less than the other.  For an order that is
not total such keys need not be equal: they share one entry.
-/

namespace Ordered

variable {κ ν : Type*} (lt : κ → κ → Bool)

/-- Neither key is less. -/
def same (a b : κ) : Bool := !lt a b && !lt b a

def find (k : κ) : List (κ × ν) → Option ν
  | [] => none
  | e :: m => if same lt e.1 k then some e.2 else find k m

/-- `m[k] = v`.  The key of an entry stays. -/
def assign (k : κ) (v : ν) : List (κ × ν) → List (κ × ν)
  | [] => [(k, v)]
  | e :: m => if same lt e.1 k then (e.1, v) :: m else e :: assign k v m

/-- `m[k]`, which enters `d` under a new key. -/
def fetch (d : ν) (k : κ) (m : List (κ × ν)) : ν × List (κ × ν) :=
  match find lt k m with
  | some v => (v, m)
  | none => (d, assign lt k d m)

/-- The keys of `K` are told apart. -/
def Separates (K : κ → Prop) : Prop :=
  ∀ a b, K a → K b → (same lt a b = true ↔ a = b)

variable {lt} {K : κ → Prop} {m : List (κ × ν)} {a k : κ} {d v : ν}

theorem same_comm : same lt a k = same lt k a := Bool.and_comm ..

theorem find_assign_self (h : same lt k k = true) : find lt k (assign lt k v m) = some v := by
  induction m with
  | nil => exact if_pos h
  | cons e m ih =>
    unfold assign
    split
    · next he => exact if_pos he
    · next he => exact (if_neg he).trans ih

/-- An assignment leaves the other keys alone. -/
theorem find_assign_of_ne (hK : Separates lt K) (hm : ∀ e ∈ m, K e.1) (hk : K k) (ha : K a)
    (hne : k ≠ a) : find lt a (assign lt k v m) = find lt a m := by
  have hdiff : ¬same lt k a = true := fun h => hne ((hK k a hk ha).mp h)
  induction m with
  | nil => exact if_neg hdiff
  | cons e m ih =>
    have he := hm e List.mem_cons_self
    unfold assign
    split
    · next hek =>
      obtain heq := (hK e.1 k he hk).mp hek
      rw [find, find, heq, if_neg hdiff, if_neg hdiff]
    · rw [find, find, ih fun e' he' => hm e' (List.mem_cons_of_mem _ he')]

theorem keys_assign (hm : ∀ e ∈ m, K e.1) (hk : K k) : ∀ e ∈ assign lt k v m, K e.1 := by
  induction m with
  | nil =>
    intro e he
    obtain rfl := List.mem_singleton.mp he
    exact hk
  | cons e m ih =>
    have he := hm e List.mem_cons_self
    have hm' : ∀ e' ∈ m, K e'.1 := fun e' h => hm e' (List.mem_cons_of_mem _ h)
    unfold assign
    split
    · intro e' h
      obtain rfl | h := List.mem_cons.mp h
      · exact he
      · exact hm' e' h
    · intro e' h
      obtain rfl | h := List.mem_cons.mp h
      · exact he
      · exact ih hm' e' h

theorem fetch_of_find (h : find lt k m = some v) : fetch lt d k m = (v, m) := by rw [fetch, h]

theorem fetch_of_none (h : find lt k m = none) : fetch lt d k m = (d, assign lt k d m) := by
  rw [fetch, h]

/-- **A key that is like another in the map takes over an entry**: where the keys in the map are
told apart, an assignment to `k` that finds an entry changes what is under the key of this entry. -/
theorem exists_taken (hK : Separates lt K) (hm : ∀ e ∈ m, K e.1) (ha : K a)
    (hin : find lt a m ≠ none) (hlike : same lt a k = true) :
    ∃ e ∈ m, same lt e.1 k = true ∧ find lt e.1 (assign lt k v m) = some v := by
  induction m with
  | nil => exact (hin rfl).elim
  | cons e m ih =>
    have he := hm e List.mem_cons_self
    unfold assign
    split
    · next hek => exact ⟨e, List.mem_cons_self, hek, if_pos ((hK e.1 e.1 he he).mpr rfl)⟩
    · next hek =>
      have hne : e.1 ≠ a := fun h => hek (h ▸ hlike)
      have hskip {b : κ} (hb : K b) (hbe : e.1 ≠ b) : ¬same lt e.1 b = true := fun h =>
        hbe ((hK e.1 b he hb).mp h)
      rw [find, if_neg (hskip ha hne)] at hin
      obtain ⟨e', he', hlike', hfind⟩ :=
        ih (fun e' h => hm e' (List.mem_cons_of_mem _ h)) hin
      refine ⟨e', List.mem_cons_of_mem _ he', hlike', ?_⟩
      rw [find, if_neg (hskip (hm e' (List.mem_cons_of_mem _ he')) fun h => hek (h ▸ hlike'))]
      exact hfind

end Ordered
