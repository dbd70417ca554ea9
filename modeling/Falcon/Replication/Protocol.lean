import Mathlib.Data.List.AList
import Mathlib.Order.Lattice
import Mathlib.Tactic.Tauto

/-!
# Replication/Protocol — the messages between the cohorts of a replication group

`rep.x`, with the operators of `util.h` and the sets of `set.h`.  A view is a primary and its
backups under a view id; a viewstamp is a position in the log of a view.  Position `0` of a view
holds its formation, which names the viewstamp it follows (`view_form_t`).

A cohort is named by its `mid_t`: its address, name and hypervisor are not looked at but to send it
something.
-/

namespace Falcon

/-- `mid_t`. -/
abbrev Mid := ℕ

/-- `rid_t`. -/
abbrev Rid := ℕ

/-- `struct viewid_t`. -/
structure ViewId where
  counter : ℕ
  manager : ℕ
  deriving DecidableEq, Repr

namespace ViewId

instance : LT ViewId :=
  ⟨fun a b => a.counter < b.counter ∨ a.counter = b.counter ∧ a.manager < b.manager⟩

instance : LE ViewId := ⟨fun a b => a < b ∨ a = b⟩

theorem lt_iff {a b : ViewId} :
    a < b ↔ a.counter < b.counter ∨ a.counter = b.counter ∧ a.manager < b.manager := Iff.rfl

theorem le_iff {a b : ViewId} : a ≤ b ↔ a < b ∨ a = b := Iff.rfl

instance (a b : ViewId) : Decidable (a < b) := inferInstanceAs (Decidable (_ ∨ _))

instance (a b : ViewId) : Decidable (a ≤ b) := inferInstanceAs (Decidable (_ ∨ _))

theorem eq_iff {a b : ViewId} : a = b ↔ a.counter = b.counter ∧ a.manager = b.manager := by
  cases a
  cases b
  simp

instance : LinearOrder ViewId where
  le_refl a := Or.inr rfl
  le_trans a b c h h' := by
    simp only [le_iff, lt_iff, eq_iff] at *
    omega
  lt_iff_le_not_ge a b := by
    simp only [le_iff, lt_iff, eq_iff]
    omega
  le_antisymm a b h h' := by
    simp only [le_iff, lt_iff, eq_iff] at *
    omega
  le_total a b := by
    simp only [le_iff, lt_iff, eq_iff]
    omega
  toDecidableLE := inferInstance
  toDecidableLT := inferInstance
  toDecidableEq := inferInstance

/-- All fields zero. -/
def zero : ViewId := ⟨0, 0⟩

theorem zero_le (a : ViewId) : zero ≤ a := by
  simp only [le_iff, lt_iff, eq_iff, zero]
  omega

end ViewId

/-- `struct viewstamp_t`. -/
structure Viewstamp where
  vid : ViewId
  ts : ℕ
  deriving DecidableEq, Repr

namespace Viewstamp

instance : LT Viewstamp := ⟨fun a b => a.vid < b.vid ∨ a.vid = b.vid ∧ a.ts < b.ts⟩

instance : LE Viewstamp := ⟨fun a b => a < b ∨ a = b⟩

theorem lt_iff {a b : Viewstamp} : a < b ↔ a.vid < b.vid ∨ a.vid = b.vid ∧ a.ts < b.ts := Iff.rfl

theorem le_iff {a b : Viewstamp} : a ≤ b ↔ a < b ∨ a = b := Iff.rfl

instance (a b : Viewstamp) : Decidable (a < b) := inferInstanceAs (Decidable (_ ∨ _))

instance (a b : Viewstamp) : Decidable (a ≤ b) := inferInstanceAs (Decidable (_ ∨ _))

theorem eq_iff {a b : Viewstamp} : a = b ↔ a.vid = b.vid ∧ a.ts = b.ts := by
  cases a
  cases b
  simp

instance : LinearOrder Viewstamp where
  le_refl a := Or.inr rfl
  le_trans a b c h h' := by
    simp only [le_iff, lt_iff, eq_iff, ViewId.lt_iff, ViewId.eq_iff] at *
    omega
  lt_iff_le_not_ge a b := by
    simp only [le_iff, lt_iff, eq_iff, ViewId.lt_iff, ViewId.eq_iff]
    omega
  le_antisymm a b h h' := by
    simp only [le_iff, lt_iff, eq_iff, ViewId.lt_iff, ViewId.eq_iff] at *
    omega
  le_total a b := by
    simp only [le_iff, lt_iff, eq_iff, ViewId.lt_iff, ViewId.eq_iff]
    omega
  toDecidableLE := inferInstance
  toDecidableLT := inferInstance
  toDecidableEq := inferInstance

theorem vid_le {a b : Viewstamp} (h : a ≤ b) : a.vid ≤ b.vid := by
  obtain hlt | rfl := le_iff.mp h
  · obtain hlt | ⟨heq, -⟩ := lt_iff.mp hlt
    · exact hlt.le
    · exact heq.le
  · exact le_refl _

theorem ts_le {a b : Viewstamp} (h : a ≤ b) (hvid : a.vid = b.vid) : a.ts ≤ b.ts := by
  obtain hlt | rfl := le_iff.mp h
  · obtain hlt | ⟨-, hlt⟩ := lt_iff.mp hlt
    · exact absurd hvid (ne_of_lt hlt)
    · exact hlt.le
  · exact le_refl _

/-- All fields zero. -/
def zero : Viewstamp := ⟨.zero, 0⟩

theorem zero_le (a : Viewstamp) : zero ≤ a := by
  obtain hlt | heq := ViewId.le_iff.mp (ViewId.zero_le a.vid)
  · exact le_iff.mpr (Or.inl (Or.inl hlt))
  · obtain hts | hts := Nat.eq_zero_or_pos a.ts
    · exact le_iff.mpr (Or.inr (eq_iff.mpr ⟨heq, hts.symm⟩))
    · exact le_iff.mpr (Or.inl (Or.inr ⟨heq, hts⟩))

/-- `vs + 1`; a wraparound of the timestamp is fatal. -/
def succ (vs : Viewstamp) : Option Viewstamp :=
  if vs.ts + 1 < UInt32.size then some { vs with ts := vs.ts + 1 } else none

end Viewstamp

/-- `struct view_t`. -/
structure View where
  vid : ViewId
  primary : Mid
  backups : List Mid
  deriving DecidableEq, Repr

/-- `struct view_form_t`. -/
structure ViewForm where
  prev : Viewstamp
  view : View
  deriving DecidableEq, Repr

/-- What an `execute_arg` carries: the operation of a client, or a marshaled `view_form_t`. -/
inductive Payload
  | operation (bytes : List UInt8)
  | form (f : ViewForm)
  deriving DecidableEq, Repr

/-- `struct execute_arg`. -/
structure ExecuteArg where
  client : Mid
  rid : Rid
  vid : ViewId
  request : Payload
  deriving DecidableEq, Repr

/-- The `execute_arg` of a view formation. -/
def ViewForm.arg (f : ViewForm) : ExecuteArg := ⟨0, 0, .zero, .form f⟩

/-- `struct replicate_arg`. -/
structure ReplicateArg where
  vs : Viewstamp
  arg : ExecuteArg
  committed : Viewstamp
  deriving DecidableEq, Repr

/-- `struct view_change_arg`. -/
structure ViewChangeArg where
  oldview : View
  newvid : ViewId
  deriving DecidableEq, Repr

/-- `struct view_change_accept`; `include_me` is always set. -/
structure ViewChangeAccept where
  myid : Mid
  latest : Viewstamp
  newview : Option View
  deriving DecidableEq, Repr

/-- `union view_change_res`. -/
inductive ViewChangeRes
  | reject (oldview : Option View) (newvid : ViewId)
  | accept (a : ViewChangeAccept)
  deriving DecidableEq, Repr

/-- `struct new_view_arg`. -/
structure NewViewArg where
  latest : Viewstamp
  view : View
  deriving DecidableEq, Repr

/-- `union execute_res`. -/
inductive ExecuteRes
  | ok (reply : List UInt8)
  | viewinfo (vid : ViewId) (primary : Mid)
  deriving DecidableEq, Repr

/-! ## Sets -/

/-- `set<T>`: the members in increasing order. -/
abbrev OrdSet (α : Type) := List α

namespace OrdSet

variable {α : Type} [LinearOrder α] {a x : α} {A B S : OrdSet α}

/-- `insert(v)`. -/
def insert (a : α) : OrdSet α → OrdSet α
  | [] => [a]
  | x :: S => if a < x then a :: x :: S else if a = x then x :: S else x :: insert a S

/-- The walk of `intersect_with` from one element of the first set on; `rest` is the walk from the
next one on. -/
def intersectFrom (x : α) (rest : OrdSet α → OrdSet α) : OrdSet α → OrdSet α
  | [] => []
  | y :: S =>
    if x < y then rest (y :: S)
    else if y < x then intersectFrom x rest S
    else x :: rest S

/-- `intersect_with(s, r)`: two sorted sequences are walked at once. -/
def intersectWith : OrdSet α → OrdSet α → OrdSet α
  | [], _ => []
  | x :: A, S => intersectFrom x (intersectWith A) S

/-- `contains_majority_of(s)`. -/
def containsMajorityOf (A S : OrdSet α) : Bool := S.length / 2 + 1 ≤ (intersectWith A S).length

@[simp] theorem mem_insert : a ∈ insert x S ↔ a = x ∨ a ∈ S := by
  induction S with
  | nil => simp [insert]
  | cons y S ih =>
    unfold insert
    split_ifs with hlt heq
    · simp
    · subst heq
      simp
    · simp only [List.mem_cons, ih]
      tauto

/-- The members are in increasing order. -/
def Sorted (S : OrdSet α) : Prop := S.Pairwise (· < ·)

theorem Sorted.nodup (h : Sorted S) : S.Nodup := h.imp fun hlt => ne_of_lt hlt

theorem Sorted.insert (h : Sorted S) : Sorted (insert x S) := by
  induction S with
  | nil => exact List.pairwise_singleton _ _
  | cons y S ih =>
    obtain ⟨hy, hS⟩ := List.pairwise_cons.mp h
    unfold OrdSet.insert
    split_ifs with hlt heq
    · refine List.pairwise_cons.mpr ⟨fun z hz => ?_, h⟩
      obtain rfl | hz := List.mem_cons.mp hz
      · exact hlt
      · exact lt_trans hlt (hy z hz)
    · exact h
    · refine List.pairwise_cons.mpr ⟨fun z hz => ?_, ih hS⟩
      obtain rfl | hz := mem_insert.mp hz
      · exact lt_of_le_of_ne (not_lt.mp hlt) (Ne.symm heq)
      · exact hy z hz

theorem length_insert (h : a ∉ S) : (insert a S).length = S.length + 1 := by
  induction S with
  | nil => rfl
  | cons y S ih =>
    obtain ⟨hy, hS⟩ := not_or.mp (mt List.mem_cons.mpr h)
    unfold insert
    split_ifs with hlt
    · rfl
    · rw [List.length_cons, ih hS, List.length_cons]

/-- Sets are the same when they have the same members. -/
theorem Sorted.ext (hA : Sorted A) (hB : Sorted B) (h : ∀ a, a ∈ A ↔ a ∈ B) : A = B := by
  have hperm : A.Perm B := (List.perm_ext_iff_of_nodup hA.nodup hB.nodup).mpr h
  exact hperm.eq_of_pairwise (fun _ _ _ _ hab hba => absurd hab (lt_asymm hba)) hA hB

theorem mem_foldl_insert {l : List α} :
    a ∈ l.foldl (fun S b => insert b S) S ↔ a ∈ l ∨ a ∈ S := by
  induction l generalizing S with
  | nil => simp
  | cons b l ih =>
    rw [List.foldl_cons, ih, mem_insert, List.mem_cons]
    tauto

theorem Sorted.foldl_insert {l : List α} (h : Sorted S) :
    Sorted (l.foldl (fun S b => OrdSet.insert b S) S) := by
  induction l generalizing S with
  | nil => exact h
  | cons b l ih => exact ih h.insert

theorem length_foldl_insert {l : List α} (hl : l.Nodup) (hS : ∀ a ∈ l, a ∉ S) :
    (l.foldl (fun S b => insert b S) S).length = S.length + l.length := by
  induction l generalizing S with
  | nil => rfl
  | cons b l ih =>
    obtain ⟨hb, hl⟩ := List.nodup_cons.mp hl
    have hrest : ∀ a ∈ l, a ∉ insert b S := fun a ha hmem => by
      obtain rfl | hmem := mem_insert.mp hmem
      · exact hb ha
      · exact hS a (List.mem_cons_of_mem _ ha) hmem
    rw [List.foldl_cons, ih hl hrest, length_insert (hS b List.mem_cons_self), List.length_cons]
    omega

theorem sublist_intersectFrom {rest : OrdSet α → OrdSet α}
    (hrest : ∀ S, List.Sublist (rest S) S ∧ ∀ a ∈ rest S, a ∈ A) :
    ∀ S, List.Sublist (intersectFrom x rest S) S ∧ ∀ a ∈ intersectFrom x rest S, a ∈ x :: A
  | [] => by simp [intersectFrom]
  | y :: S => by
    obtain ⟨hsub, hmem⟩ := sublist_intersectFrom hrest S
    unfold intersectFrom
    split_ifs with hlt hgt
    · exact ⟨(hrest (y :: S)).1, fun a ha => List.mem_cons_of_mem _ ((hrest (y :: S)).2 a ha)⟩
    · exact ⟨hsub.cons y, hmem⟩
    · obtain rfl : x = y := le_antisymm (not_lt.mp hgt) (not_lt.mp hlt)
      refine ⟨(hrest S).1.cons_cons x, fun a ha => ?_⟩
      obtain rfl | ha := List.mem_cons.mp ha
      · exact List.mem_cons_self
      · exact List.mem_cons_of_mem _ ((hrest S).2 a ha)

/-- What the walk finds is in both sets, and in the order of the second one. -/
theorem sublist_intersectWith (A : OrdSet α) :
    ∀ S, List.Sublist (intersectWith A S) S ∧ ∀ a ∈ intersectWith A S, a ∈ A := by
  induction A with
  | nil => simp [intersectWith]
  | cons x A ih => exact sublist_intersectFrom ih

/-- **Two majorities of a set meet.** -/
theorem exists_mem_of_majorities (hS : S.Nodup) (hA : containsMajorityOf A S = true)
    (hB : containsMajorityOf B S = true) : ∃ x ∈ S, x ∈ A ∧ x ∈ B := by
  obtain ⟨hsubA, hmemA⟩ := sublist_intersectWith A S
  obtain ⟨hsubB, hmemB⟩ := sublist_intersectWith B S
  by_contra hnone
  have hdisj : List.Disjoint (intersectWith A S) (intersectWith B S) := fun x hx hx' =>
    hnone ⟨x, hsubA.subset hx, hmemA x hx, hmemB x hx'⟩
  have hnodup : (intersectWith A S ++ intersectWith B S).Nodup :=
    List.nodup_append'.mpr ⟨hS.sublist hsubA, hS.sublist hsubB, hdisj⟩
  have hlen : (intersectWith A S ++ intersectWith B S).length ≤ S.length :=
    (List.subperm_of_subset hnodup fun x hx => (List.mem_append.mp hx).elim
      (fun hx => hsubA.subset hx) fun hx => hsubB.subset hx).length_le
  simp only [containsMajorityOf, decide_eq_true_eq] at hA hB
  rw [List.length_append] at hlen
  omega

end OrdSet

/-- `view2mids(v)`. -/
def View.mids (v : View) : OrdSet Mid :=
  v.backups.foldl (fun S b => OrdSet.insert b S) [v.primary]

theorem View.sorted_mids (v : View) : OrdSet.Sorted v.mids :=
  OrdSet.Sorted.foldl_insert (List.pairwise_singleton _ _)

theorem View.mem_mids {v : View} {m : Mid} : m ∈ v.mids ↔ m = v.primary ∨ m ∈ v.backups := by
  rw [View.mids, OrdSet.mem_foldl_insert, List.mem_singleton]
  tauto

end Falcon
