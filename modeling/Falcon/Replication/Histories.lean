import Falcon.Replication.Once

/-!
# Replication/Histories — what the cohorts have executed, compared

A cohort executes what leads from the start of the first view to the last entry it has executed.
Every entry but the formations of views follows the one before it in its view, so two cohorts can
only part where one of them goes on to another view.

* `histories_of_steady` — in every run in which proposals are unequivocal and no view is formed
  twice, an entry has one history: cohorts that have executed it have executed the same before it.
  Cohorts that are in the same view have executed the same, as far as they have come; and where two
  cohorts part, one of them executes a formation that follows the last entry both have executed.
-/

namespace Falcon

namespace Cohort

variable {L : Viewstamp → ExecuteArg → Prop} {v : ViewId} {i k : ℕ} {l : List Viewstamp}
  {a b b' : Viewstamp}

/-- The way to an entry of a view leads through the earlier entries of the view. -/
theorem Succeeds.exists_prefix (hl : Lineage (Succeeds L) .zero ⟨v, i + k⟩ l) :
    ∃ l', Lineage (Succeeds L) .zero ⟨v, i⟩ l' ∧ l' <+: l := by
  induction k generalizing l with
  | zero => exact ⟨l, hl, List.prefix_rfl⟩
  | succ k ih =>
    generalize hw : (⟨v, i + (k + 1)⟩ : Viewstamp) = w at hl
    cases hl with
    | root => exact absurd (congrArg Viewstamp.ts hw) (Nat.succ_ne_zero (i + k))
    | @step u _ l₁ hl₁ h =>
      subst hw
      cases h with
      | form hts => exact absurd hts (Nat.succ_ne_zero (i + k))
      | entry hvid hts =>
        have hu : u = ⟨v, i + k⟩ := Viewstamp.eq_iff.mpr ⟨hvid.symm, Nat.succ.inj hts.symm⟩
        obtain ⟨l', hl', hpre⟩ := ih (hu ▸ hl₁)
        exact ⟨l', hl', hpre.trans (List.prefix_append _ _)⟩

/-- Of two different successors one is the formation of a view. -/
theorem Succeeds.formation (h : Succeeds L a b) (h' : Succeeds L a b') (hne : b ≠ b') :
    (∃ f : ViewForm, b.ts = 0 ∧ L b f.arg ∧ f.prev = a) ∨
      ∃ f : ViewForm, b'.ts = 0 ∧ L b' f.arg ∧ f.prev = a := by
  cases h with
  | form hts hf hprev => exact Or.inl ⟨_, hts, hf, hprev⟩
  | entry hvid hts =>
    cases h' with
    | form hts' hf' hprev' => exact Or.inr ⟨_, hts', hf', hprev'⟩
    | entry hvid' hts' =>
      exact absurd (Viewstamp.eq_iff.mpr ⟨hvid.trans hvid'.symm, hts.trans hts'.symm⟩) hne

end Cohort

namespace Group

open Cohort

variable {s : Group} {m m' : Mid} {c c' : Cohort} {x x' : Viewstamp × ExecuteArg}
  {l l' : List (Viewstamp × ExecuteArg)}

/-- The last viewstamp of a history. -/
def lastOf (l : List (Viewstamp × ExecuteArg)) : Viewstamp :=
  (l.map Prod.fst).getLast?.getD .zero

/-- `x` is the formation of a view that follows the history `l`. -/
def Forms (x : Viewstamp × ExecuteArg) (l : List (Viewstamp × ExecuteArg)) : Prop :=
  ∃ f : ViewForm, x.1.ts = 0 ∧ x.2 = f.arg ∧ f.prev = lastOf l

/-- **The histories of the cohorts**, as they are handed to the execution step. -/
structure Histories (s : Group) : Prop where
  /-- What comes before an entry is the same everywhere. -/
  same : ∀ m m' c c' l l' x x', s.cohorts m = some c → s.cohorts m' = some c' →
    l ++ [x] <+: c.handed → l' ++ [x'] <+: c'.handed → x.1 = x'.1 → l = l' ∧ x = x'
  /-- Two cohorts in one view. -/
  view : ∀ m m' c c', s.cohorts m = some c → s.cohorts m' = some c' →
    c.executed.vid = c'.executed.vid → c.handed <+: c'.handed ∨ c'.handed <+: c.handed
  /-- Two cohorts that have parted. -/
  parted : ∀ m m' c c', s.cohorts m = some c → s.cohorts m' = some c' →
    c.handed <+: c'.handed ∨ c'.handed <+: c.handed ∨
      ∃ l x x', l ++ [x] <+: c.handed ∧ l ++ [x'] <+: c'.handed ∧ x.1 ≠ x'.1 ∧
        (Forms x l ∨ Forms x' l)

/-- An entry is what its viewstamp says. -/
theorem Traces.exists_content (h : s.Traces) : ∃ content : Viewstamp → ExecuteArg,
    ∀ m c, s.cohorts m = some c → ∀ x ∈ c.handed, x.2 = content x.1 := by
  have hone : ∀ vs, ∃ arg, ∀ arg', s.Logged vs arg' → arg' = arg := fun vs => by
    by_cases hl : ∃ arg, s.Logged vs arg
    · obtain ⟨arg, hl⟩ := hl
      exact ⟨arg, fun arg' hl' => h.matching.one vs arg' arg hl' hl⟩
    · exact ⟨(synthetic 0).arg, fun arg' hl' => absurd ⟨arg', hl'⟩ hl⟩
  choose content hcontent using hone
  exact ⟨content, fun m c hc x hx =>
    hcontent x.1 x.2 ⟨m, c, hc, (h.traced m c hc).handed x hx⟩⟩

/-- Entries that are what their viewstamps say are known by these. -/
theorem eq_map_of_content {content : Viewstamp → ExecuteArg} (h : ∀ x ∈ l, x.2 = content x.1) :
    l = (l.map Prod.fst).map fun vs => (vs, content vs) := by
  rw [List.map_map]
  conv_lhs => rw [← List.map_id l]
  exact List.map_congr_left fun x hx => Prod.ext rfl (h x hx)

/-- What leads to an entry that has been executed. -/
theorem Traces.lineage (h : s.Traces) (hc : s.cohorts m = some c) (hx : l ++ [x] <+: c.handed) :
    ∃ a, Lineage (Succeeds s.Logged) .zero a (l.map Prod.fst) ∧ Succeeds s.Logged a x.1 := by
  have hmap : l.map Prod.fst ++ [x.1] <+: c.handed.map Prod.fst := by
    rw [← List.map_singleton, ← List.map_append]
    exact hx.map Prod.fst
  exact (h.traced m c hc).lineage.exists_parent hmap

theorem Traces.unique (h : s.Traces) {a : Viewstamp} {u u' : List Viewstamp}
    (hu : Lineage (Succeeds s.Logged) .zero a u) (hu' : Lineage (Succeeds s.Logged) .zero a u') :
    u = u' :=
  Lineage.unique (P := Succeeds s.Logged) (fun _ _ _ => h.matching.succeeds_inj)
    (fun _ => h.matching.not_succeeds_zero) hu hu'

/-- **An entry has one history.** -/
theorem Traces.same (h : s.Traces) (hc : s.cohorts m = some c) (hc' : s.cohorts m' = some c')
    (hx : l ++ [x] <+: c.handed) (hx' : l' ++ [x'] <+: c'.handed) (hvs : x.1 = x'.1) :
    l = l' ∧ x = x' := by
  obtain ⟨a, hl, ha⟩ := h.lineage hc hx
  obtain ⟨a', hl', ha'⟩ := h.lineage hc' hx'
  have hmap : (l ++ [x]).map Prod.fst = (l' ++ [x']).map Prod.fst := by
    rw [List.map_append, List.map_append, List.map_singleton, List.map_singleton]
    rw [← hvs] at ha' ⊢
    exact h.unique (hl.step ha) (hl'.step ha')
  obtain ⟨content, hcontent⟩ := h.exists_content
  have heq : l ++ [x] = l' ++ [x'] := by
    rw [eq_map_of_content fun y hy => hcontent m c hc y (hx.subset hy), hmap,
      ← eq_map_of_content fun y hy => hcontent m' c' hc' y (hx'.subset hy)]
  obtain ⟨rfl, hx⟩ := List.append_inj' heq rfl
  exact ⟨rfl, List.singleton_inj.mp hx⟩

/-- Histories are compared by their viewstamps. -/
theorem Traces.prefix_of_map (h : s.Traces) (hc : s.cohorts m = some c)
    (hc' : s.cohorts m' = some c') (hmap : c.handed.map Prod.fst <+: c'.handed.map Prod.fst) :
    c.handed <+: c'.handed := by
  obtain ⟨content, hcontent⟩ := h.exists_content
  rw [eq_map_of_content (hcontent m c hc), eq_map_of_content (hcontent m' c' hc')]
  exact hmap.map _

/-- **In one view**, the cohort that has executed less has executed the beginning. -/
theorem Traces.view (h : s.Traces) (hc : s.cohorts m = some c) (hc' : s.cohorts m' = some c')
    (hvid : c.executed.vid = c'.executed.vid) (hle : c.executed.ts ≤ c'.executed.ts) :
    c.handed <+: c'.handed := by
  have heq : c'.executed = ⟨c.executed.vid, c.executed.ts + (c'.executed.ts - c.executed.ts)⟩ :=
    Viewstamp.eq_iff.mpr ⟨hvid.symm, (Nat.add_sub_cancel' hle).symm⟩
  obtain ⟨u, hu, hpre⟩ := Succeeds.exists_prefix (heq ▸ (h.traced m' c' hc').lineage)
  refine h.prefix_of_map hc hc' ?_
  rwa [h.unique (h.traced m c hc).lineage hu]

/-- **Where two cohorts part**, one of them goes on to another view. -/
theorem Traces.parted (h : s.Traces) (hc : s.cohorts m = some c) (hc' : s.cohorts m' = some c')
    (hne : x ≠ x') (hx : l ++ [x] <+: c.handed) (hx' : l ++ [x'] <+: c'.handed) :
    x.1 ≠ x'.1 ∧ (Forms x l ∨ Forms x' l) := by
  have hvs : x.1 ≠ x'.1 := fun hvs => hne (h.same hc hc' hx hx' hvs).2
  obtain ⟨a, hl, ha⟩ := h.lineage hc hx
  obtain ⟨a', hl', ha'⟩ := h.lineage hc' hx'
  obtain rfl : a = a' := hl.end_unique hl'
  have hforms : ∀ {m c x}, s.cohorts m = some c → l ++ [x] <+: c.handed → ∀ {f : ViewForm},
      x.1.ts = 0 → s.Logged x.1 f.arg → f.prev = a → Forms x l := by
    intro m c x hc hx f hts hf hprev
    have hentry := (h.traced m c hc).handed x (hx.subset (by simp))
    exact ⟨f, hts, h.matching.one x.1 _ _ ⟨m, c, hc, hentry⟩ hf, hprev.trans hl.getLast?.symm⟩
  refine ⟨hvs, (Succeeds.formation ha ha' hvs).imp ?_ ?_⟩
  · rintro ⟨f, hts, hf, hprev⟩
    exact hforms hc hx hts hf hprev
  · rintro ⟨f, hts, hf, hprev⟩
    exact hforms hc' hx' hts hf hprev

theorem Traces.histories (h : s.Traces) : s.Histories where
  same m m' c c' l l' x x' hc hc' hx hx' hvs := h.same hc hc' hx hx' hvs
  view m m' c c' hc hc' hvid := by
    obtain hle | hle := le_total c.executed.ts c'.executed.ts
    · exact Or.inl (h.view hc hc' hvid hle)
    · exact Or.inr (h.view hc' hc hvid.symm hle)
  parted m m' c c' hc hc' := by
    obtain hle | hle | ⟨l, x, x', hne, hx, hx'⟩ := Lineage.prefix_or_fork c.handed c'.handed
    · exact Or.inl hle
    · exact Or.inr (Or.inl hle)
    · exact Or.inr (Or.inr ⟨l, x, x', hx, hx', h.parted hc hc' hne hx hx'⟩)

/-- **Histories agree** but for the views that cohorts have gone on to, in every run in which
proposals are unequivocal and no view is formed twice. -/
theorem histories_of_steady (mid : Mid) (es : List Event)
    (h : Run.Along step Steady (init mid) es) : Run.Always step Histories (init mid) es :=
  Run.Always.of_inv (fun _ hs => hs.histories) (fun _ _ _ hs' hs hsteady => hs.step hs' hsteady)
    (traces_init mid) h

/-- The cohorts `1` and `2` have gone through four views, and `3` has stayed in the third one. -/
theorem histories_of_steady_onward : Run.Always step Histories (init 1) ((init 1).events onward) ∧
    ∃ s, ((init 1).events onward).foldlM step (init 1) = some s ∧
      (∃ c ∈ s.cohorts 1, ∃ c' ∈ s.cohorts 2, c.handed = c'.handed ∧ c.executed = ⟨⟨4, 1⟩, 0⟩) ∧
      ∃ c ∈ s.cohorts 3, c.executed = ⟨⟨3, 1⟩, 0⟩ :=
  ⟨histories_of_steady 1 _ (by decide +kernel), events_of_any (by decide +kernel)⟩

end Group

end Falcon
