import Falcon.Replication.Once

/-!
# Replication/Positions — how far a cohort has executed its log

One cohort on its own: it is told to join a group, or is the first one of it, and then takes
whatever comes (`Cohort.step`).  `committed_`, `executed_`, `latest_` and `view_` are written by
different handlers, and `form_view` takes `committed_` back; `executed_` and the view go forward
only, and stay together (`Placed`), as long as the formations that come lead from a viewstamp to a
later view.
-/

namespace Falcon

/-- A formation that is logged under `vs` leads to `vs` from a smaller viewstamp. -/
def ViewForm.LeadsTo (f : ViewForm) (vs : Viewstamp) : Prop := f.prev < vs ∧ f.view.vid = vs.vid

instance (f : ViewForm) (vs : Viewstamp) : Decidable (f.LeadsTo vs) := instDecidableAnd

/-- The formation of a view in an entry under `vs`, if it is one, leads to `vs`. -/
def ExecuteArg.LeadsTo (arg : ExecuteArg) (vs : Viewstamp) : Prop :=
  vs.ts = 0 → ∀ f, arg.request = .form f → f.LeadsTo vs

/-- The view formations that an input brings. -/
inductive Input.Brings : Input → Viewstamp → ExecuteArg → Prop
  | replicate (sbp : Sbp) (ra : ReplicateArg) : Brings (.call sbp (.replicate ra)) ra.vs ra.arg
  | initView (sbp : Sbp) (f : ViewForm) : Brings (.call sbp (.initView f)) ⟨f.view.vid, 0⟩ f.arg
  | fetchlog (n : ℕ) (p : PullRef) (vs : Viewstamp) (arg : ExecuteArg) :
      Brings (.callback n (.fetchlogCb p vs) (some (.fetchlog arg))) vs arg

/-- The view formations an input brings lead to their viewstamps. -/
def Input.Leads (i : Input) : Prop := ∀ vs arg, i.Brings vs arg → arg.LeadsTo vs

namespace Cohort

variable {i : Input} {s s' s₁ first : Cohort} {u vs w : Viewstamp} {arg : ExecuteArg} {f : ViewForm}
  {is : List Input}

/-! ## One cohort -/

/-- One step of a cohort; what it has given to the network is sent. -/
def step (s : Cohort) (i : Input) : Option Cohort := (s.handle i).map fun s => { s with out := [] }

theorem settled_handle (h : s.Managed) (hs' : s.handle i = some s') : Settled i s := by
  rintro n a u resp rfl
  change (if _ then _ else _) = _ at hs'
  split_ifs at hs' with hcb
  obtain ⟨hlt, hu, -⟩ := h.pending n a u hcb
  exact ⟨hlt, hu, fun n' hcb' => h.once n' n a u hcb' hcb⟩

/-! ## Where it is -/

/-- `executed_` is the last entry of the view that is committed at most, and the log leads on. -/
structure Placed (s : Cohort) : Prop where
  leads : ∀ vs arg, s.entry vs = some arg → arg.LeadsTo vs
  jumps : ∀ u w, s.jumps.lookup u = some w → u < w ∧ w.ts = 0
  committed : s.executed ≤ s.committed
  entered : s.validView = true → s.executed.vid = s.view.vid
  fresh : s.validView = false → s.executed.vid = .zero ∧ s.view.vid = .zero

/-- What is sent and waited for is of no matter. -/
theorem Placed.sends (h : s.Placed) (o : List Output) (k : ℕ) (S : Keyed ℕ Continuation) :
    Placed { s with out := o, nextCall := k, calls := S } :=
  ⟨h.leads, h.jumps, h.committed, h.entered, h.fresh⟩

/-- `executed_` and the view go forward. -/
structure Advances (s s' : Cohort) : Prop where
  executed : s.executed ≤ s'.executed
  view : s.view.vid ≤ s'.view.vid

theorem Advances.refl (s : Cohort) : Advances s s := ⟨le_rfl, le_rfl⟩

theorem Advances.trans {s₁ s₂ s₃ : Cohort} (h : Advances s₁ s₂) (h' : Advances s₂ s₃) :
    Advances s₁ s₃ :=
  ⟨h.executed.trans h'.executed, h.view.trans h'.view⟩

theorem lt_succ (h : vs.succ = some w) : vs < w :=
  Viewstamp.lt_iff.mpr (Or.inr ⟨(ts_succ h).1.symm, by have := (ts_succ h).2; omega⟩)

/-- The next viewstamp is a larger one, in the same view or at the start of another one. -/
theorem Placed.vsNext (h : s.Placed) (hw : s.vsNext u = some w) :
    u < w ∧ (w.ts = 0 ∨ w.vid = u.vid) := by
  unfold Cohort.vsNext at hw
  split at hw
  · next next hnext =>
    obtain rfl := Option.some.inj hw
    exact (h.jumps _ _ hnext).imp_right Or.inl
  · exact ⟨lt_succ hw, Or.inr (ts_succ hw).1⟩

/-- Whatever the view is, its id is that of `executed_`. -/
theorem Placed.vid (h : s.Placed) : s.executed.vid = s.view.vid := by
  cases hvalid : s.validView with
  | true => exact h.entered hvalid
  | false => exact (h.fresh hvalid).1.trans (h.fresh hvalid).2.symm

theorem Placed.move (h : s.Placed) (hmove : Move i s s') : s'.Placed ∧ Advances s s' := by
  have hleads : ∀ vs arg, s'.entry vs = some arg → arg.LeadsTo vs := hmove.entry ▸ h.leads
  have hjumps : ∀ u w, s'.jumps.lookup u = some w → u < w ∧ w.ts = 0 := hmove.jumps ▸ h.jumps
  cases hmove with
  | @run vs rle hvs hle hrle hts =>
    obtain ⟨hlt, hnext⟩ := h.vsNext hvs
    have hvid : vs.vid = s.executed.vid := hnext.resolve_left hts
    refine ⟨⟨hleads, hjumps, hle, fun hvalid => hvid.trans (h.entered hvalid), fun hvalid => ?_⟩,
      hlt.le, le_rfl⟩
    exact ⟨hvid.trans (h.fresh hvalid).1, (h.fresh hvalid).2⟩
  | @enter vs rle f hvs hle hrle hts hf =>
    obtain ⟨hlt, -⟩ := h.vsNext hvs
    have hform : f.view.vid = vs.vid :=
      (h.leads vs _ (entry_eq_some.mpr ⟨rle, hrle, rfl⟩) hts f hf).2
    refine ⟨⟨hleads, hjumps, hle, fun _ => hform.symm, nofun⟩, hlt.le, ?_⟩
    change s.view.vid ≤ f.view.vid
    rw [← h.vid, hform]
    exact Viewstamp.vid_le hlt.le
  | @commit vs rle ack hvs hle hrle hack hmaj =>
    obtain ⟨hlt, -⟩ := h.vsNext hvs
    exact ⟨⟨hleads, hjumps, h.committed.trans hlt.le, h.entered, h.fresh⟩, le_rfl, le_rfl⟩
  | _ => exact ⟨⟨hleads, hjumps, h.committed, h.entered, h.fresh⟩, le_rfl, le_rfl⟩

theorem Placed.moves (h : s.Placed) (hmoves : Moves i s s') : s'.Placed ∧ Advances s s' := by
  induction hmoves with
  | refl => exact ⟨h, .refl _⟩
  | tail _ hmove ih =>
    obtain ⟨h', hadv⟩ := ih.1.move hmove
    exact ⟨h', ih.2.trans hadv⟩

/-- What is logged leads to its viewstamp, if what the input brings does. -/
theorem Enters.leadsTo (h : Enters i s s₁ vs arg) (hi : i.Leads) : arg.LeadsTo vs := by
  cases h with
  | issue hin hissues hvs hlatest => exact fun hts => absurd hts (by have := (ts_succ hvs).2; omega)
  | form hin hprimary hlatest => exact hi _ _ (hin ▸ .initView _ _)
  | replicate hin => exact hi _ _ (hin ▸ .replicate _ _)
  | fetch hin hcb => exact hi _ _ (hin ▸ .fetchlog _ _ _ _)

/-- A formation never takes `committed_` below `executed_`. -/
theorem Placed.lt_form (h : s.Placed) (hf : f.LeadsTo ⟨f.view.vid, 0⟩)
    (hnew : s.validView = false ∨ s.view.vid < f.view.vid) : s.executed < ⟨f.view.vid, 0⟩ := by
  refine Viewstamp.lt_iff.mpr (Or.inl ?_)
  obtain hvalid | hlt := hnew
  · -- no view has been entered, and the formation comes after some viewstamp
    rw [(h.fresh hvalid).1]
    obtain hlt | ⟨-, hts⟩ := Viewstamp.lt_iff.mp hf.1
    · exact lt_of_le_of_lt (ViewId.zero_le _) hlt
    · exact absurd hts (Nat.not_lt_zero _)
  · rwa [h.vid]

theorem Placed.begins (h : s.Placed) (hi : ∀ vs arg, Enters i s s₁ vs arg → arg.LeadsTo vs)
    (hs₁ : Begins i s s₁) : s₁.Placed := by
  obtain ⟨hexec, -, hview⟩ := hs₁.executed
  have hleads : ∀ vs arg, s₁.entry vs = some arg → arg.LeadsTo vs := fun vs arg harg =>
    (hs₁.entry_cases harg).elim (h.leads vs arg) fun hnew => hi vs arg hnew.2
  have hjumps : ∀ u w, s₁.jumps.lookup u = some w → u < w ∧ w.ts = 0 := by
    intro u w hw
    obtain hw | ⟨hts, arg, f, hnew, hf, rfl⟩ := hs₁.jumps_cases hw
    · exact h.jumps u w hw
    · exact ⟨(hi _ _ hnew hts f hf).1, hts⟩
  have hcommitted : s.executed ≤ s₁.committed ∧ s₁.validView = s.validView := by
    cases hs₁ with
    | initiates hstart hs' =>
      obtain ⟨-, -, o, S, -, rfl⟩ := hs'
      exact ⟨h.committed, rfl⟩
    | issues hin hmode hvid hprimary hcache hvs hsends =>
      obtain ⟨L, rfl⟩ := hcache.eq
      exact ⟨h.committed, rfl⟩
    | @forms sbp f J hin hnew hprimary hJ =>
      have hf := hi _ _ (.form hin hprimary rfl) rfl f rfl
      exact ⟨(h.lt_form hf hnew).le, rfl⟩
    | logs hin hcheck hlt hnew hJ => exact ⟨h.committed.trans (le_max_left _ _), rfl⟩
    | adopts hin hcheck hold => exact ⟨h.committed.trans (le_max_left _ _), rfl⟩
    | _ => exact ⟨h.committed, rfl⟩
  refine ⟨hleads, hjumps, hexec ▸ hcommitted.1, fun hvalid => ?_, fun hvalid => ?_⟩
  · rw [hexec, hview]
    exact h.entered (hcommitted.2 ▸ hvalid)
  · rw [hexec, hview]
    exact h.fresh (hcommitted.2 ▸ hvalid)

/-- **One step.**  The positions stay together, and go forward. -/
theorem Placed.step (h : s.Placed) (hm : s.Managed) (hi : i.Leads) (hs' : s.step i = some s') :
    (s'.Placed ∧ s'.Managed) ∧ Advances s s' := by
  obtain ⟨s₂, hs₂, rfl⟩ := Option.map_eq_some_iff.mp hs'
  obtain ⟨s₁, hs₁, hmoves⟩ := handles_handle hm.steady hs₂
  obtain ⟨hm₁, hset⟩ := Group.managed_begins hm (settled_handle hm hs₂) hs₁
  obtain ⟨h₂, hadv⟩ := (h.begins (fun _ _ hnew => hnew.leadsTo hi) hs₁).moves hmoves
  obtain ⟨hexec, -, hview⟩ := hs₁.executed
  refine ⟨⟨h₂.sends _ _ _, ?_⟩, ?_⟩
  · exact (Group.managed_moves hm₁ hset hmoves).1.congr rfl rfl rfl rfl rfl
  · exact ⟨hexec ▸ hadv.executed, hview ▸ hadv.view⟩

theorem founder_lt (mid : Mid) : Viewstamp.zero < ⟨⟨1, mid⟩, 0⟩ :=
  Viewstamp.lt_iff.mpr (Or.inl (ViewId.lt_iff.mpr (Or.inl Nat.zero_lt_one)))

theorem placed_boot (mid : Mid) : (boot mid).Placed :=
  ⟨nofun, nofun, le_rfl, nofun, fun _ => ⟨rfl, rfl⟩⟩

theorem placed_founder (mid : Mid) : (founder mid).Placed := by
  refine ⟨fun vs arg harg => ?_, fun u w hw => ?_, le_rfl, fun _ => rfl, nofun⟩
  · obtain ⟨rfl, rfl⟩ := Group.entry_founder.mp harg
    rintro - f hf
    obtain rfl := Payload.form.inj hf
    exact ⟨founder_lt mid, rfl⟩
  · obtain ⟨rfl, rfl⟩ := Group.jumps_founder.mp hw
    exact ⟨founder_lt mid, rfl⟩

/-- **Along every run of one cohort** the positions stay together. -/
theorem placed_run {mid : Mid} (hfirst : first = boot mid ∨ first = founder mid)
    (hleads : ∀ i ∈ is, i.Leads) (hrun : is.foldlM step first = some s) :
    s.Placed ∧ s.Managed := by
  refine Run.keeps_of_mem (I := fun s => s.Placed ∧ s.Managed)
    (fun i hi s s' hs' h => (h.1.step h.2 (hleads i hi) hs').1) hrun ?_
  obtain rfl | rfl := hfirst
  · exact ⟨placed_boot mid, Group.managed_boot mid⟩
  · exact ⟨placed_founder mid, Group.managed_founder mid⟩

/-- **How far the log is executed.**  `executed_` is not past `committed_`, and in the view that has
been entered; no step takes it, or the view, back. -/
theorem positions_advance {mid : Mid} (hfirst : first = boot mid ∨ first = founder mid)
    (hleads : ∀ i ∈ is, i.Leads) (hrun : is.foldlM step first = some s) :
    s.executed ≤ s.committed ∧ (s.validView = true → s.executed.vid = s.view.vid) ∧
      ∀ i s', i.Leads → s.step i = some s' →
        s.executed ≤ s'.executed ∧ s.view.vid ≤ s'.view.vid := by
  obtain ⟨hplaced, hmanaged⟩ := placed_run hfirst hleads hrun
  refine ⟨hplaced.committed, hplaced.entered, fun i s' hi hs' => ?_⟩
  obtain ⟨-, hadv⟩ := hplaced.step hmanaged hi hs'
  exact ⟨hadv.executed, hadv.view⟩

/-- The first cohort of a group forms the next view on its own. -/
theorem positions_advance_founder : ∃ s,
    [Input.call ⟨1, 0⟩ (.initView ⟨⟨⟨1, 1⟩, 0⟩, ⟨⟨2, 1⟩, 1, []⟩⟩)].foldlM step (founder 1) =
      some s ∧
      s.executed ≤ s.committed ∧ (s.validView = true → s.executed.vid = s.view.vid) ∧
        ∀ i s', i.Leads → s.step i = some s' →
          s.executed ≤ s'.executed ∧ s.view.vid ≤ s'.view.vid := by
  have hleads : ∀ i ∈ [Input.call ⟨1, 0⟩ (.initView ⟨⟨⟨1, 1⟩, 0⟩, ⟨⟨2, 1⟩, 1, []⟩⟩)], i.Leads := by
    intro i hi vs arg hbrings
    obtain rfl := List.mem_singleton.mp hi
    cases hbrings
    rintro - f hf
    obtain rfl := Payload.form.inj hf
    decide
  obtain ⟨s, hs⟩ := Option.isSome_iff_exists.mp (by decide : ([Input.call ⟨1, 0⟩
    (.initView ⟨⟨⟨1, 1⟩, 0⟩, ⟨⟨2, 1⟩, 1, []⟩⟩)].foldlM step (founder 1)).isSome = true)
  exact ⟨s, hs, positions_advance (Or.inr (rfl : founder 1 = founder 1)) hleads hs⟩

end Cohort

end Falcon
