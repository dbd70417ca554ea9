import Falcon.Machinery.Bytes
import Mathlib.Data.Finset.Basic
import Mathlib.Data.List.Lex
import Mathlib.Data.List.MinMax
import Mathlib.Data.List.Pairwise
import Mathlib.Data.Prod.Lex

/-!
# Diomedes/Instances — which server is the primary

`SelectNewPrimary` goes through `active_servers_` and keeps the better one of two instances, which
is the one that `MaxApplicationInstance` returns: it compares the hypervisors, the hosts and the
handles with `strcmp`, and ends the program on two instances with the same names.  Instances are
pointers (`ι`), and `nacked_` is a set of them.

* `strcmp_neg_iff` — `strcmp` orders strings as the lists of their bytes.
* `selectNewPrimary_eq` — the loop is the `argmin` of the names over the instances that have not
  nacked.
* `selectNewPrimary_spec` — so every order of discovery elects the same server.
-/

namespace Falcon.Diomedes

/-- A string in memory, without its terminating null byte. -/
abbrev CString := {s : Bytes // 0 ∉ s}

/-- The loop of `strcmp`; a null byte ends each of the strings. -/
def strcmpBytes : Bytes → Bytes → ℤ
  | [], [] => 0
  | [], b :: _ => -(b.toNat : ℤ)
  | a :: _, [] => a.toNat
  | a :: s, b :: t => if a = b then strcmpBytes s t else (a.toNat : ℤ) - b.toNat

/-- `strcmp(s, t)`. -/
def strcmp (s t : CString) : ℤ := strcmpBytes s t

/-- The names of an `Application`, but for its switch. -/
structure Application where
  /-- `GetHandle()`. -/
  appName : CString
  /-- `GetHostname()`. -/
  hostName : CString
  /-- `GetVMMHostname()`. -/
  vmmName : CString
  deriving DecidableEq

section Selection

variable {ι : Type} [DecidableEq ι] (app : ι → Application) (nacked : Finset ι)

/-- `MaxApplicationInstance` of two instances; there is no result if a check fails. -/
def maxOfTwo (app1 app2 : ι) : Option ι :=
  if app1 ∈ nacked ∧ app2 ∈ nacked then none
  else if app1 ∈ nacked then some app2
  else if app2 ∈ nacked then some app1
  else
    let hypCmp := strcmp (app app1).vmmName (app app2).vmmName
    let domCmp := strcmp (app app1).hostName (app app2).hostName
    let handleCmp := strcmp (app app1).appName (app app2).appName
    if hypCmp ≠ 0 then some (if hypCmp < 0 then app1 else app2)
    else if domCmp ≠ 0 then some (if domCmp < 0 then app1 else app2)
    else if handleCmp ≠ 0 then some (if handleCmp < 0 then app1 else app2)
    else none

/-- `MaxApplicationInstance`. -/
def maxApplicationInstance : Option ι → Option ι → Option (Option ι)
  | none, app2 => some app2
  | app1, none => some app1
  | some app1, some app2 => (maxOfTwo app nacked app1 app2).map some

/-- One round of the loop of `SelectNewPrimary`. -/
def selectRound (max : Option ι) (it : ι) : Option (Option ι) :=
  if it ∈ nacked then some max else maxApplicationInstance app nacked max (some it)

/-- `SelectNewPrimary`; a null pointer is `some none`. -/
def selectNewPrimary (activeServers : List ι) : Option (Option ι) :=
  activeServers.foldlM (selectRound app nacked) none

end Selection

/-! ## The order of the names -/

/-- The bytes of a string as numbers. -/
def CString.key (s : CString) : List ℕ := s.1.map UInt8.toNat

theorem CString.key_injective : Function.Injective CString.key := fun _ _ h =>
  Subtype.ext (List.map_injective_iff.mpr (fun _ _ h => UInt8.toNat_inj.mp h) h)

theorem toNat_pos_of_not_mem {a : UInt8} {s : Bytes} (h : 0 ∉ a :: s) : 0 < a.toNat := by
  refine Nat.pos_of_ne_zero fun hzero => h ?_
  rw [← UInt8.toNat_inj.mp (hzero.trans UInt8.toNat_zero.symm)]
  exact List.mem_cons_self

theorem strcmpBytes_neg_iff {s t : Bytes} (hs : 0 ∉ s) (ht : 0 ∉ t) :
    strcmpBytes s t < 0 ↔ s.map UInt8.toNat < t.map UInt8.toNat := by
  fun_induction strcmpBytes s t with
  | case1 => simp
  | case2 b t =>
    have hb := toNat_pos_of_not_mem ht
    simp only [List.map_nil, List.map_cons, List.nil_lt_cons, iff_true]
    omega
  | case3 a s => simp
  | case4 a s t ih =>
    rw [ih (fun h => hs (List.mem_cons_of_mem _ h)) (fun h => ht (List.mem_cons_of_mem _ h)),
      List.map_cons, List.map_cons, List.cons_lt_cons_iff]
    simp
  | case5 a s b t hne =>
    have hne' : a.toNat ≠ b.toNat := fun h => hne (UInt8.toNat_inj.mp h)
    rw [List.map_cons, List.map_cons, List.cons_lt_cons_iff]
    omega

theorem strcmpBytes_eq_zero_iff {s t : Bytes} (hs : 0 ∉ s) (ht : 0 ∉ t) :
    strcmpBytes s t = 0 ↔ s = t := by
  fun_induction strcmpBytes s t with
  | case1 => simp
  | case2 b t =>
    have hb := toNat_pos_of_not_mem ht
    simp only [reduceCtorEq, iff_false]
    omega
  | case3 a s =>
    have ha := toNat_pos_of_not_mem hs
    simp only [reduceCtorEq, iff_false]
    omega
  | case4 a s t ih =>
    rw [ih (fun h => hs (List.mem_cons_of_mem _ h)) (fun h => ht (List.mem_cons_of_mem _ h))]
    simp
  | case5 a s b t hne =>
    have hne' : a.toNat ≠ b.toNat := fun h => hne (UInt8.toNat_inj.mp h)
    simp only [List.cons.injEq, hne, false_and, iff_false]
    omega

/-- **`strcmp` compares the bytes lexicographically.** -/
theorem strcmp_neg_iff (s t : CString) : strcmp s t < 0 ↔ s.key < t.key :=
  strcmpBytes_neg_iff s.2 t.2

theorem strcmp_eq_zero_iff (s t : CString) : strcmp s t = 0 ↔ s = t :=
  (strcmpBytes_eq_zero_iff s.2 t.2).trans Subtype.ext_iff.symm

namespace Application

variable {a b : Application}

/-- The names of `a` come before those of `b`: the hypervisors are compared first, then the hosts,
then the handles. -/
def Precedes (a b : Application) : Prop :=
  strcmp a.vmmName b.vmmName < 0 ∨ a.vmmName = b.vmmName ∧
    (strcmp a.hostName b.hostName < 0 ∨ a.hostName = b.hostName ∧ strcmp a.appName b.appName < 0)

instance : Decidable (Precedes a b) := inferInstanceAs (Decidable (_ ∨ _))

/-- The names in the order they are compared. -/
def key (a : Application) : List ℕ ×ₗ List ℕ ×ₗ List ℕ :=
  toLex (a.vmmName.key, toLex (a.hostName.key, a.appName.key))

theorem precedes_of_vmm (hvmm : a.vmmName ≠ b.vmmName) :
    a.Precedes b ↔ strcmp a.vmmName b.vmmName < 0 :=
  or_iff_left fun h => hvmm h.1

theorem precedes_of_host (hvmm : a.vmmName = b.vmmName) (hhost : a.hostName ≠ b.hostName) :
    a.Precedes b ↔ strcmp a.hostName b.hostName < 0 := by
  have hvmm0 := (strcmp_eq_zero_iff _ _).mpr hvmm
  rw [Precedes, or_iff_right hvmm0.not_lt, and_iff_right hvmm]
  exact or_iff_left fun h => hhost h.1

theorem precedes_of_handle (hvmm : a.vmmName = b.vmmName) (hhost : a.hostName = b.hostName) :
    a.Precedes b ↔ strcmp a.appName b.appName < 0 := by
  have hvmm0 := (strcmp_eq_zero_iff _ _).mpr hvmm
  have hhost0 := (strcmp_eq_zero_iff _ _).mpr hhost
  rw [Precedes, or_iff_right hvmm0.not_lt, and_iff_right hvmm, or_iff_right hhost0.not_lt,
    and_iff_right hhost]

theorem precedes_iff : a.Precedes b ↔ a.key < b.key := by
  rw [Precedes, key, key, Prod.Lex.toLex_lt_toLex, Prod.Lex.toLex_lt_toLex,
    CString.key_injective.eq_iff, CString.key_injective.eq_iff, strcmp_neg_iff, strcmp_neg_iff,
    strcmp_neg_iff]

theorem key_injective : Function.Injective key := by
  intro a b h
  obtain ⟨hvmm, h⟩ := Prod.mk.inj (toLex.injective h)
  obtain ⟨hhost, happ⟩ := Prod.mk.inj (toLex.injective h)
  cases a
  cases b
  rw [mk.injEq]
  exact ⟨CString.key_injective happ, CString.key_injective hhost, CString.key_injective hvmm⟩

end Application

/-! ## The loop -/

section Loop

variable {ι : Type} [DecidableEq ι] {app : ι → Application} {nacked : Finset ι} {i j : ι}
  {active active' : List ι} {r : Option ι}

/-- Of two instances with different names, the one whose names come first is kept. -/
theorem maxOfTwo_eq (hi : i ∉ nacked) (hj : j ∉ nacked) (hne : app i ≠ app j) :
    maxOfTwo app nacked i j = some (if (app i).Precedes (app j) then i else j) := by
  have hnames : (app i).vmmName = (app j).vmmName → (app i).hostName = (app j).hostName →
      (app i).appName ≠ (app j).appName := fun hvmm hhost happ => hne <| by
    cases h : app i
    cases h' : app j
    rw [h, h'] at hvmm hhost happ
    rw [Application.mk.injEq]
    exact ⟨happ, hhost, hvmm⟩
  rw [maxOfTwo, if_neg fun h => hi h.1, if_neg hi, if_neg hj]
  dsimp only
  by_cases hvmm : (app i).vmmName = (app j).vmmName
  · have hvmm0 := (strcmp_eq_zero_iff _ _).mpr hvmm
    rw [if_neg (not_not.mpr hvmm0)]
    by_cases hhost : (app i).hostName = (app j).hostName
    · have hhost0 := (strcmp_eq_zero_iff _ _).mpr hhost
      have happ0 := (strcmp_eq_zero_iff _ _).not.mpr (hnames hvmm hhost)
      rw [if_neg (not_not.mpr hhost0), if_pos happ0,
        if_congr (Application.precedes_of_handle hvmm hhost) rfl rfl]
    · have hhost0 := (strcmp_eq_zero_iff _ _).not.mpr hhost
      rw [if_pos hhost0, if_congr (Application.precedes_of_host hvmm hhost) rfl rfl]
  · have hvmm0 := (strcmp_eq_zero_iff _ _).not.mpr hvmm
    rw [if_pos hvmm0, if_congr (Application.precedes_of_vmm hvmm) rfl rfl]

/-- The instances that have not nacked. -/
def candidates (nacked : Finset ι) (active : List ι) : List ι := active.filter (· ∉ nacked)

theorem mem_candidates : i ∈ candidates nacked active ↔ i ∈ active ∧ i ∉ nacked := by
  rw [candidates, List.mem_filter, decide_eq_true_eq]

theorem candidates_concat (active : List ι) (j : ι) : candidates nacked (active ++ [j]) =
    if j ∈ nacked then candidates nacked active else candidates nacked active ++ [j] := by
  rw [candidates, List.filter_append, ← candidates]
  split_ifs with hj
  · simp [hj]
  · simp [hj]

/-- **The loop is an `argmin`**: no check fails, whatever the order of the list. -/
theorem selectNewPrimary_eq (h : active.Pairwise fun i j => app i ≠ app j) :
    selectNewPrimary app nacked active =
      some ((candidates nacked active).argmin fun i => (app i).key) := by
  induction active using List.reverseRecOn with
  | nil => rfl
  | append_singleton active j ih =>
    obtain ⟨hactive, -, hlast⟩ := List.pairwise_append.mp h
    have hround : selectNewPrimary app nacked (active ++ [j]) =
        selectRound app nacked ((candidates nacked active).argmin fun i => (app i).key) j := by
      have hih := ih hactive
      rw [selectNewPrimary] at hih ⊢
      rw [List.foldlM_append, hih]
      exact bind_pure (m := Option) _
    rw [hround, selectRound, candidates_concat]
    split_ifs with hj
    · rfl
    · rw [List.argmin_concat]
      cases hmin : (candidates nacked active).argmin fun i => (app i).key with
      | none => rfl
      | some c =>
        obtain ⟨hc, hcn⟩ := mem_candidates.mp (List.argmin_mem hmin)
        have hne : app c ≠ app j := hlast c hc j List.mem_cons_self
        have hkey : (app c).Precedes (app j) ↔ ¬ (app j).key < (app c).key := by
          rw [Application.precedes_iff, not_lt]
          exact (Ne.le_iff_lt fun h => hne (Application.key_injective h)).symm
        rw [maxApplicationInstance, maxOfTwo_eq hcn hj hne, if_congr hkey rfl rfl, ite_not]
        dsimp only
        split_ifs <;> rfl

omit [DecidableEq ι] in
/-- Different instances have different names. -/
theorem app_ne (h : active.Pairwise fun i j => app i ≠ app j) (hi : i ∈ active) (hj : j ∈ active)
    (hne : i ≠ j) : app i ≠ app j := by
  have hsymm : Std.Symm fun i j => app i ≠ app j := ⟨fun _ _ hij => hij.symm⟩
  exact h.forall hi hj hne

/-- The order of discovery does not matter. -/
theorem argmin_perm (h : active.Pairwise fun i j => app i ≠ app j) (hperm : active'.Perm active) :
    (candidates nacked active').argmin (fun i => (app i).key) =
      (candidates nacked active).argmin fun i => (app i).key := by
  have hcand : (candidates nacked active').Perm (candidates nacked active) := hperm.filter _
  cases hmin : (candidates nacked active).argmin fun i => (app i).key with
  | none =>
    rw [List.argmin_eq_none] at hmin ⊢
    exact (hmin ▸ hcand).eq_nil
  | some i =>
    have hi : i ∈ candidates nacked active := List.argmin_mem hmin
    cases hmin' : (candidates nacked active').argmin fun i => (app i).key with
    | none =>
      rw [List.argmin_eq_none] at hmin'
      rw [hmin'] at hcand
      exact absurd (hcand.mem_iff.mpr hi) List.not_mem_nil
    | some i' =>
      have hi' : i' ∈ candidates nacked active := hcand.mem_iff.mp (List.argmin_mem hmin')
      have hle := List.le_of_mem_argmin hi' hmin
      have hle' := List.le_of_mem_argmin (hcand.mem_iff.mpr hi) hmin'
      by_contra hne
      refine app_ne h (mem_candidates.mp hi').1 (mem_candidates.mp hi).1
        (fun h => hne (by rw [h])) ?_
      exact Application.key_injective (le_antisymm hle' hle)

/-- **Every replica elects the same primary.**  For instances with different names, no check of
`MaxApplicationInstance` fails; the result is the instance whose names come first among those that
have not nacked, or null if all have, and it does not depend on the order of the list. -/
theorem selectNewPrimary_spec (app : ι → Application) (nacked : Finset ι) (active : List ι)
    (h : active.Pairwise fun i j => app i ≠ app j) :
    ∃ r, selectNewPrimary app nacked active = some r ∧
      (∀ i ∈ r, i ∈ active ∧ i ∉ nacked ∧
        ∀ j ∈ active, j ∉ nacked → j ≠ i → (app i).Precedes (app j)) ∧
      (r = none ↔ ∀ j ∈ active, j ∈ nacked) ∧
      ∀ active', active'.Perm active → selectNewPrimary app nacked active' = some r := by
  refine ⟨_, selectNewPrimary_eq h, fun i hi => ?_, ?_, fun active' hperm => ?_⟩
  · obtain ⟨hmem, hnacked⟩ := mem_candidates.mp (List.argmin_mem hi)
    refine ⟨hmem, hnacked, fun j hj hjn hne => Application.precedes_iff.mpr ?_⟩
    have hle := List.le_of_mem_argmin (mem_candidates.mpr ⟨hj, hjn⟩) hi
    refine lt_of_le_of_ne hle fun heq => ?_
    exact app_ne h hmem hj hne.symm (Application.key_injective heq)
  · rw [List.argmin_eq_none, candidates, List.filter_eq_nil_iff]
    exact forall₂_congr fun j _ => by rw [decide_eq_true_eq, not_not]
  · have h' : active'.Pairwise fun i j => app i ≠ app j :=
      (hperm.pairwise_iff fun hij => hij.symm).mpr h
    rw [selectNewPrimary_eq h', argmin_perm h hperm]

/-- Three servers on two hypervisors, which are the instances 0, 1 and 2. -/
def names (i : ℕ) : Application :=
  { appName := ⟨['d'.toUInt8], by decide⟩
    hostName :=
      if i = 0 then ⟨['v'.toUInt8, 'm'.toUInt8], by decide⟩ else ⟨['v'.toUInt8], by decide⟩
    vmmName :=
      if i = 2 then ⟨['k'.toUInt8], by decide⟩ else ⟨['k'.toUInt8, '2'.toUInt8], by decide⟩ }

/-- The server with the first names has nacked, and the one on the host `v` is the primary. -/
theorem selectNewPrimary_names : ∃ r, selectNewPrimary names {2} [0, 1, 2] = some r ∧
    (∀ i ∈ r, i ∈ [0, 1, 2] ∧ i ∉ ({2} : Finset ℕ) ∧
      ∀ j ∈ [0, 1, 2], j ∉ ({2} : Finset ℕ) → j ≠ i → (names i).Precedes (names j)) ∧
    (r = none ↔ ∀ j ∈ [0, 1, 2], j ∈ ({2} : Finset ℕ)) ∧
    ∀ active' : List ℕ, active'.Perm [0, 1, 2] → selectNewPrimary names {2} active' = some r :=
  selectNewPrimary_spec names {2} [0, 1, 2] (by decide)

example : selectNewPrimary names {2} [0, 1, 2] = some (some 1) := by decide

end Loop

end Falcon.Diomedes
