import Falcon.Machinery.Lineage
import Falcon.Replication.Pulls

/-!
# Replication/Once — how often a request is executed

A cohort executes what leads from the start of the first view to the last entry it has executed: an
entry follows the one before it in its view, and the formation of a view the entry it names.  The
primary of a view executes its formation before it gives out viewstamps in it, so it knows what
leads to a request it issues.

`REP_EXECUTE` asks only the reply cache, which has one request for each client: the last one that
was issued or that the back end is done with.

* `once_of_fresh` — no cohort executes a request twice if each request that is issued is neither
  executed nor logged in the view yet.
* `executed_twice` — a run in which a client that has two requests under way sends the first one
  again.
-/

namespace Falcon

/-- What identifies a request. -/
def ExecuteArg.requestId (arg : ExecuteArg) : Mid × Rid := (arg.client, arg.rid)

namespace Cohort

variable {i : Input} {s s' s₁ : Cohort} {u w vs : Viewstamp} {arg : ExecuteArg}
  {L L' : Viewstamp → ExecuteArg → Prop}

/-- The requests that have been handed to the back end. -/
def requests (s : Cohort) : List (Mid × Rid) :=
  (s.handed.filter fun x => x.1.ts ≠ 0).map fun x => x.2.requestId

/-- In the logs `L` the entry at `w` succeeds that at `u`. -/
inductive Succeeds (L : Viewstamp → ExecuteArg → Prop) (u w : Viewstamp) : Prop
  | entry (hvid : w.vid = u.vid) (hts : w.ts = u.ts + 1)
  | form {f : ViewForm} (hts : w.ts = 0) (hf : L w f.arg) (hprev : f.prev = u)

theorem Succeeds.mono (hL : ∀ vs arg, L vs arg → L' vs arg) (h : Succeeds L u w) :
    Succeeds L' u w := by
  cases h with
  | entry hvid hts => exact .entry hvid hts
  | form hts hf hprev => exact .form hts (hL _ _ hf) hprev

/-- The entries of a view follow its formation. -/
theorem Succeeds.lineage {v : ViewId} {l : List Viewstamp}
    (hl : Lineage (Succeeds L) .zero ⟨v, 0⟩ l) (k : ℕ) :
    ∃ l', Lineage (Succeeds L) .zero ⟨v, k⟩ l' ∧
      ∀ u ∈ l', u ∈ l ∨ u.vid = v ∧ u.ts ≠ 0 ∧ u.ts ≤ k := by
  induction k with
  | zero => exact ⟨l, hl, fun u hu => Or.inl hu⟩
  | succ k ih =>
    obtain ⟨l', hl', hmem⟩ := ih
    refine ⟨_, hl'.step (.entry rfl rfl), fun u hu => ?_⟩
    obtain hu | hu := List.mem_append.mp hu
    · exact (hmem u hu).imp_right fun ⟨hvid, hne, hle⟩ => ⟨hvid, hne, Nat.le_succ_of_le hle⟩
    · obtain rfl := List.mem_singleton.mp hu
      exact Or.inr ⟨rfl, Nat.succ_ne_zero k, le_refl _⟩

/-- A cohort has executed what leads to the last entry it has executed. -/
structure Traced (L : Viewstamp → ExecuteArg → Prop) (s : Cohort) : Prop where
  jumps : ∀ u w, s.jumps.lookup u = some w → Succeeds L u w
  lineage : Lineage (Succeeds L) .zero s.executed (s.handed.map Prod.fst)
  handed : ∀ x ∈ s.handed, s.entry x.1 = some x.2
  entered : s.view.vid = .zero ∨ ⟨s.view.vid, 0⟩ ∈ s.handed.map Prod.fst

theorem Traced.mono (h : s.Traced L) (hL : ∀ vs arg, L vs arg → L' vs arg) : s.Traced L' :=
  ⟨fun u w hw => (h.jumps u w hw).mono hL, h.lineage.mono fun _ _ => Succeeds.mono hL, h.handed,
    h.entered⟩

theorem Traced.vsNext (h : s.Traced L) (hw : s.vsNext u = some w) : Succeeds L u w := by
  unfold Cohort.vsNext at hw
  split at hw
  · next next hnext =>
    obtain rfl := Option.some.inj hw
    exact h.jumps _ _ hnext
  · exact .entry (ts_succ hw).1 (ts_succ hw).2

/-- The view is that of a formation that has been handed to the execution step. -/
theorem Move.entered (h : Move i s s') : s'.view = s.view ∨
    ∃ arg f, s.entry s'.executed = some arg ∧ s'.executed.ts = 0 ∧ arg.request = .form f ∧
      s'.view = f.view ∧ s'.handed = s.handed ++ [(s'.executed, arg)] := by
  cases h with
  | enter hvs hle hrle hts hf =>
    exact Or.inr ⟨_, _, entry_eq_some.mpr ⟨_, hrle, rfl⟩, hts, hf, rfl, rfl⟩
  | _ => exact Or.inl rfl

theorem Traced.move (h : s.Traced L) (hL : ∀ vs arg, s.entry vs = some arg → L vs arg)
    (hforms : Forms L) (hmove : Move i s s') : s'.Traced L := by
  have hentered : s'.view.vid = .zero ∨ ⟨s'.view.vid, 0⟩ ∈ s'.handed.map Prod.fst := by
    obtain hview | ⟨arg, f, harg, hts, hf, hview, hhanded⟩ := hmove.entered
    · rw [hview]
      refine h.entered.imp_right fun hmem => ?_
      obtain ⟨-, hhanded⟩ | ⟨-, -, arg, -, hhanded⟩ := hmove.executed
      · rwa [hhanded]
      · rw [hhanded, List.map_append]
        exact List.mem_append_left _ hmem
    · have hzero : s'.executed = ⟨s'.executed.vid, 0⟩ := Viewstamp.eq_iff.mpr ⟨rfl, hts⟩
      obtain ⟨f', rfl, hvid, -⟩ := hforms s'.executed.vid arg (hzero ▸ hL _ _ harg)
      obtain rfl : f' = f := Payload.form.inj hf
      rw [hview, hvid, ← hzero, hhanded, List.map_append]
      exact Or.inr (List.mem_append_right _ (List.mem_singleton_self _))
  refine ⟨hmove.jumps ▸ h.jumps, ?_, fun x hx => ?_, hentered⟩
  · obtain ⟨hexec, hhanded⟩ | ⟨hnext, -, arg, -, hhanded⟩ := hmove.executed
    · rw [hexec, hhanded]
      exact h.lineage
    · rw [hhanded, List.map_append]
      exact h.lineage.step (h.vsNext hnext)
  · rw [hmove.entry]
    obtain ⟨-, hhanded⟩ | ⟨-, -, arg, harg, hhanded⟩ := hmove.executed
    · exact h.handed x (hhanded ▸ hx)
    · rw [hhanded] at hx
      obtain hx | hx := List.mem_append.mp hx
      · exact h.handed x hx
      · obtain rfl := List.mem_singleton.mp hx
        exact harg

theorem Traced.moves (h : s.Traced L) (hL : ∀ vs arg, s.entry vs = some arg → L vs arg)
    (hforms : Forms L) (hmoves : Moves i s s') : s'.Traced L := by
  induction hmoves with
  | refl => exact h
  | tail hmoves hmove ih =>
    refine ih.move (fun vs arg hvs => hL vs arg ?_) hforms hmove
    rwa [Moves.entry hmoves] at hvs

/-- `latest_` is logged. -/
theorem Begins.latest_mem (h : Begins i s s₁) :
    s₁.latest = s.latest ∨ s₁.latest ∈ s₁.log ∧
      (s₁.latest.ts = 0 ∨ s.latest.succ = some s₁.latest) := by
  cases h with
  | initiates hstart hs' =>
    obtain ⟨-, -, o, S, -, rfl⟩ := hs'
    exact Or.inl rfl
  | issues hin hmode hvid hprimary hcache hvs hsends =>
    exact Or.inr ⟨Keyed.mem_add.mpr (Or.inl rfl), Or.inr hvs⟩
  | forms hin hnew hprimary hJ => exact Or.inr ⟨Keyed.mem_add.mpr (Or.inl rfl), Or.inl rfl⟩
  | _ => exact Or.inl rfl

/-- The log has what has been given out in the view of `latest_`. -/
theorem Begins.stored (h : Begins i s s₁) (hold : s.latest ≠ .zero → Stored s.latest s)
    (hne : s.latest.succ = some s₁.latest → s.latest ≠ .zero) (hne₁ : s₁.latest ≠ .zero) :
    Stored s₁.latest s₁ := by
  have hmem : ∀ {vs}, vs ∈ s.log → vs ∈ s₁.log := fun {vs} hvs => by
    obtain ⟨arg, harg⟩ := mem_log_iff.mp hvs
    exact mem_log_iff.mpr ⟨arg, h.entry_of_some harg⟩
  intro j hj
  obtain heq | ⟨hself, hnext⟩ := h.latest_mem
  · rw [heq] at hne₁ hj ⊢
    exact hmem (hold hne₁ j hj)
  · have hlast : j = s₁.latest.ts → ⟨s₁.latest.vid, j⟩ ∈ s₁.log := by
      rintro rfl
      exact hself
    obtain hts | hsucc := hnext
    · exact hlast (by omega)
    · obtain ⟨hvid, hts⟩ := ts_succ hsucc
      by_cases heq : j = s₁.latest.ts
      · exact hlast heq
      · rw [hvid]
        exact hmem (hold (hne hsucc) j (by omega))

/-- A request to be issued is new: viewstamps are given out in the view, and the request is neither
executed nor logged in the view. -/
structure Unseen (arg : ExecuteArg) (s : Cohort) : Prop where
  latest : s.latest.vid = s.view.vid
  executed : ∀ x ∈ s.handed, x.1.ts ≠ 0 → x.2.requestId ≠ arg.requestId
  logged : ∀ vs arg', s.entry vs = some arg' → vs.vid = s.view.vid → vs.ts ≠ 0 →
    arg'.requestId ≠ arg.requestId

instance (arg : ExecuteArg) (s : Cohort) : Decidable (s.Unseen arg) :=
  decidable_of_iff (s.latest.vid = s.view.vid ∧
      (∀ x ∈ s.handed, x.1.ts ≠ 0 → x.2.requestId ≠ arg.requestId) ∧
      ∀ vs ∈ s.log.keys, ∀ arg' ∈ s.entry vs, vs.vid = s.view.vid → vs.ts ≠ 0 →
        arg'.requestId ≠ arg.requestId)
    ⟨fun ⟨hlatest, hexec, hlogged⟩ => ⟨hlatest, hexec, fun vs arg' hentry =>
        hlogged vs (AList.mem_keys.mp (mem_log_iff.mpr ⟨arg', hentry⟩)) arg' hentry⟩,
      fun h => ⟨h.latest, h.executed, fun vs _ arg' hentry => h.logged vs arg' hentry⟩⟩

end Cohort

namespace Group

open Cohort

variable {s s' : Group} {e : Event} {m : Mid} {c c' c₁ : Cohort} {i : Input} {vs u w : Viewstamp}
  {arg arg' : ExecuteArg}

/-! ## Where a request is issued -/

theorem Matching.succeeds_inj (h : s.Matching) {u' : Viewstamp} (hu : Succeeds s.Logged u w)
    (hu' : Succeeds s.Logged u' w) : u = u' := by
  cases hu with
  | entry hvid hts =>
    cases hu' with
    | entry hvid' hts' => exact Viewstamp.eq_iff.mpr ⟨hvid.symm.trans hvid', by omega⟩
    | form hts' => omega
  | form hts hf hprev =>
    cases hu' with
    | entry hvid' hts' => omega
    | form hts' hf' hprev' =>
      have hzero : w = ⟨w.vid, 0⟩ := Viewstamp.eq_iff.mpr ⟨rfl, hts⟩
      rw [hzero] at hf hf'
      rw [← hprev, ← hprev', h.form_inj hf hf']

theorem Matching.not_succeeds_zero (h : s.Matching) : ¬Succeeds s.Logged u .zero := by
  rintro (⟨hvid, hts⟩ | ⟨hts, hf, hprev⟩)
  · exact absurd hts.symm (Nat.succ_ne_zero _)
  · exact absurd (h.counter hf) (by decide)

/-- The requests that lead to a request are other ones. -/
def Issued (s : Group) (vs : Viewstamp) (arg : ExecuteArg) : Prop :=
  ∃ l, Lineage (Succeeds s.Logged) .zero vs (l ++ [vs]) ∧
    ∀ u ∈ l, u.ts ≠ 0 → ∃ arg', s.Logged u arg' ∧ arg'.requestId ≠ arg.requestId

theorem Issued.mono (h : s.Issued vs arg) (hL : ∀ vs arg, s.Logged vs arg → s'.Logged vs arg) :
    s'.Issued vs arg := by
  obtain ⟨l, hl, hnew⟩ := h
  refine ⟨l, hl.mono fun _ _ => Succeeds.mono hL, fun u hu hts => ?_⟩
  obtain ⟨arg', harg', hne⟩ := hnew u hu hts
  exact ⟨arg', hL _ _ harg', hne⟩

/-- What the cohorts have executed. -/
structure Traces (s : Group) : Prop where
  matching : s.Matching
  latest : ∀ m c, s.cohorts m = some c → c.latest ≠ .zero → Stored c.latest c
  traced : ∀ m c, s.cohorts m = some c → c.Traced s.Logged

theorem Traces.stored_update (h : s.Traces) (ht : Takes s e i c c₁ c')
    (hne : c₁.latest ≠ .zero) : Stored c₁.latest c₁ := by
  refine ht.begins.stored (h.latest _ c ht.cohort) (fun hsucc => ?_) hne
  obtain heq | ⟨hold, -⟩ | ⟨sbp, f, -, -, -, -, heq, -⟩ := h.matching.latest_cases ht
  · have hts := (ts_succ hsucc).2
    rw [heq] at hts
    omega
  · exact hold
  · have hts := (ts_succ hsucc).2
    rw [heq] at hts
    exact absurd hts.symm (Nat.succ_ne_zero _)

theorem Traces.traced_update (h : s.Traces) (hone : s.Unequivocal) (ht : Takes s e i c c₁ c')
    (hmatching : (s.update e.actor c').Matching) : c'.Traced (s.update e.actor c').Logged := by
  have hL : ∀ vs arg, s.Logged vs arg → (s.update e.actor c').Logged vs arg :=
    fun _ _ => ht.logged h.matching.sound
  have htraced := (h.traced _ c ht.cohort).mono hL
  obtain ⟨hexec, hhanded, hview⟩ := ht.begins.executed
  have htraced₁ : c₁.Traced (s.update e.actor c').Logged := by
    refine ⟨fun u w hw => ?_, hexec ▸ hhanded ▸ htraced.lineage, fun x hx => ?_,
      hview ▸ hhanded ▸ htraced.entered⟩
    · obtain hw | ⟨hts, arg, f, henters, hf, rfl⟩ := ht.begins.jumps_cases hw
      · exact htraced.jumps u w hw
      · have hzero : w = ⟨w.vid, 0⟩ := Viewstamp.eq_iff.mpr ⟨rfl, hts⟩
        cases h.matching.news_of_enters ht.cohort ht.brings henters with
        | issue hcall hissues hne hvs hnew hlatest => rw [(ts_succ hvs).2] at hts; omega
        | form hin hprimary hcounter hprop hvs harg hlatest =>
          subst hvs harg
          have hmem := h.stored_update ht (hlatest ▸ start_ne_zero (by omega)) 0 (Nat.zero_le _)
          rw [hlatest] at hmem
          obtain ⟨arg, harg⟩ := mem_log_iff.mp hmem
          have hl := ht.entry harg
          obtain rfl := h.matching.agrees_update hone ht _ _ _ hin hl
          obtain rfl := Payload.form.inj hf
          exact .form rfl hl rfl
        | logged hl =>
          obtain ⟨f', rfl, -⟩ := h.matching.forms w.vid arg (hzero ▸ hl)
          obtain rfl := Payload.form.inj hf
          exact .form hts (hL _ _ hl) rfl
    · exact ht.begins.entry_of_some (htraced.handed x (hhanded ▸ hx))
  refine htraced₁.moves (fun _ _ => ht.entry) (fun v arg hl => ?_) ht.moves
  obtain ⟨f, harg, hvid, hcounter, -⟩ := hmatching.forms v arg hl
  exact ⟨f, harg, hvid, hcounter⟩

/-- What a run is asked for: proposals are unequivocal, and no view is formed twice. -/
structure Steady (s : Group) (e : Event) (s' : Group) : Prop where
  unequivocal : s.Unequivocal
  unused : FormsUnused s e s'

instance : Decidable (Steady s e s') :=
  decidable_of_iff (s.Unequivocal ∧ FormsUnused s e s')
    ⟨fun ⟨hone, hunused⟩ => ⟨hone, hunused⟩, fun h => ⟨h.unequivocal, h.unused⟩⟩

theorem Traces.update (h : s.Traces) (hsteady : Steady s e (s.update e.actor c'))
    (ht : Takes s e i c c₁ c') : (s.update e.actor c').Traces := by
  have hmatching := h.matching.update hsteady.unequivocal hsteady.unused ht
  have htraced := h.traced_update hsteady.unequivocal ht hmatching
  refine ⟨hmatching, fun m d hd hne => ?_, fun m d hd => ?_⟩
  · obtain ⟨-, rfl⟩ | hd := of_cohorts_update hd
    · dsimp only at hne ⊢
      rw [ht.moves.latest] at hne ⊢
      exact Stored.congr (s := c₁) ht.moves.entry (h.stored_update ht hne)
    · exact h.latest m d hd hne
  · obtain ⟨-, rfl⟩ | hd := of_cohorts_update hd
    · exact ⟨htraced.jumps, htraced.lineage, htraced.handed, htraced.entered⟩
    · exact (h.traced m d hd).mono fun _ _ => ht.logged h.matching.sound

theorem Traces.step (h : s.Traces) (hs' : s.step e = some s') (hsteady : Steady s e s') :
    s'.Traces := by
  have hs := h.matching.sound
  have hmatching := h.matching.step hsteady.unequivocal hs' hsteady.unused
  obtain ⟨mid, rfl, hnone, rfl⟩ | ⟨i, c, c₁, c', ht, rfl⟩ := exists_takes hs hs'
  · refine ⟨hmatching, fun m d hd hne => ?_, fun m d hd => ?_⟩
    · obtain ⟨-, rfl⟩ | hd := cohorts_boot m d hd
      · exact absurd rfl hne
      · exact h.latest m d hd hne
    · obtain ⟨-, rfl⟩ | hd := cohorts_boot m d hd
      · exact ⟨nofun, .root, nofun, Or.inl rfl⟩
      · exact (h.traced m d hd).mono fun _ _ hl => hl.step hs hs'
  · exact h.update hsteady ht

theorem traces_init (mid : Mid) : (init mid).Traces := by
  have hentry : (founder mid).entry ⟨⟨1, mid⟩, 0⟩ = some (synthetic mid).arg :=
    entry_founder.mpr ⟨rfl, rfl⟩
  refine ⟨matching_init mid, fun m c hc hne => ?_, fun m c hc => ?_⟩
  · obtain ⟨rfl, rfl⟩ := cohorts_init hc
    intro j hj
    obtain rfl := Nat.le_zero.mp hj
    exact mem_log_iff.mpr ⟨_, hentry⟩
  · obtain ⟨rfl, rfl⟩ := cohorts_init hc
    have hform : Succeeds (init m).Logged .zero ⟨⟨1, m⟩, 0⟩ :=
      .form (f := synthetic m) rfl ⟨m, _, hc, hentry⟩ rfl
    refine ⟨fun u w hw => ?_, Lineage.root.step hform, fun x hx => ?_,
      Or.inr (List.mem_singleton_self _)⟩
    · obtain ⟨rfl, rfl⟩ := jumps_founder.mp hw
      exact hform
    · obtain rfl := List.mem_singleton.mp hx
      exact hentry

/-- What the cohorts have executed, and what leads to each request. -/
structure Tracing (s : Group) : Prop where
  matching : s.Matching
  latest : ∀ m c, s.cohorts m = some c → c.latest ≠ .zero → Stored c.latest c
  traced : ∀ m c, s.cohorts m = some c → c.Traced s.Logged
  issued : ∀ vs arg, s.Logged vs arg → vs.ts ≠ 0 → s.Issued vs arg

theorem Tracing.traces (h : s.Tracing) : s.Traces := ⟨h.matching, h.latest, h.traced⟩

/-- A request that is issued is new. -/
def IssuesUnseen (s : Group) (e : Event) (_ : Group) : Prop :=
  ∀ c i sbp arg, s.cohorts e.actor = some c → Brings s c e i → i = .call sbp (.execute arg) →
    c.Issues arg → c.Unseen arg

/-- The request a call carries. -/
def requests : Call → Option ExecuteArg
  | .execute arg => some arg
  | _ => none

theorem requests_eq {k : Call} {arg : ExecuteArg} : requests k = some arg ↔ k = .execute arg := by
  cases k <;> simp [requests]

instance : ∀ e, Decidable (IssuesUnseen s e s')
  | .deliver p => decidable_of_iff (p ∈ s.calls → ∀ arg ∈ requests p.call, ∀ c ∈ s.cohorts p.dest,
      c.Issues arg → c.Unseen arg)
      ⟨fun h c i sbp arg hc hi hin => by
          cases hi with
          | deliver hp => exact h hp arg (requests_eq.mpr (Input.call.inj hin).2) c hc,
        fun h hp arg harg c hc => h c _ p.sbp arg hc (.deliver hp)
          (congrArg (Input.call _) (requests_eq.mp harg))⟩
  | .request mid _ arg => decidable_of_iff (∀ c ∈ s.cohorts mid, c.Issues arg → c.Unseen arg)
      ⟨fun h c i sbp arg' hc hi hin => by
          cases hi with
          | request =>
            obtain rfl := Call.execute.inj (Input.call.inj hin).2
            exact h c hc,
        fun h c hc => h c _ _ arg hc .request rfl⟩
  | .boot _ => isTrue fun _ _ _ _ _ hi => nomatch hi
  | .answer _ _ | .fail _ _ | .executed _ _ | .failed _ _ | .viewIsDown _ | .join _ _ =>
    isTrue fun _ _ _ _ _ hi hin => by cases hi; cases hin

/-- A primary knows what leads to the request it issues. -/
theorem Tracing.issue (h : s.Tracing) (hc : s.cohorts m = some c) (hissues : c.Issues arg)
    (hunseen : c.Unseen arg) (hne : c.latest ≠ .zero) (hvs : c.latest.succ = some vs) :
    s.Issued vs arg := by
  have htraced := h.traced m c hc
  have hknows := h.matching.knows .viewIsDown m c hc
  obtain ⟨f, hf, -⟩ := hknows.view (hknows.active hissues.mode)
  have hentered : ⟨c.view.vid, 0⟩ ∈ c.handed.map Prod.fst :=
    htraced.entered.resolve_left fun hzero => by
    have hcounter := h.matching.counter hf
    rw [hzero] at hcounter
    exact absurd hcounter (by decide)
  -- the way to the view, and on to the last viewstamp of it
  obtain ⟨l, hl, hpre⟩ := htraced.lineage.exists_prefix hentered
  obtain ⟨l', hl', hmem⟩ := Succeeds.lineage hl c.latest.ts
  obtain ⟨hvid, hts⟩ := ts_succ hvs
  refine ⟨l', hl'.step (.entry (hvid.trans hunseen.latest) hts), fun u hu hts => ?_⟩
  obtain hu | ⟨huvid, -, hle⟩ := hmem u hu
  · obtain ⟨x, hx, rfl⟩ := List.mem_map.mp (hpre.subset hu)
    exact ⟨x.2, ⟨m, c, hc, htraced.handed x hx⟩, hunseen.executed x hx hts⟩
  · have hlog : u ∈ c.log := by
      have hmem := h.latest m c hc hne u.ts hle
      rwa [hunseen.latest, ← huvid] at hmem
    obtain ⟨arg', harg'⟩ := mem_log_iff.mp hlog
    exact ⟨arg', ⟨m, c, hc, harg'⟩, hunseen.logged u arg' harg' huvid hts⟩

theorem Tracing.issued_update (h : s.Tracing) (hunseen : IssuesUnseen s e (s.update e.actor c'))
    (ht : Takes s e i c c₁ c') (hl : (s.update e.actor c').Logged vs arg) (hts : vs.ts ≠ 0) :
    (s.update e.actor c').Issued vs arg := by
  refine Issued.mono ?_ fun _ _ => ht.logged h.matching.sound
  cases h.matching.news_of_logged ht hl with
  | logged hl => exact h.issued vs arg hl hts
  | issue hcall hissues hne hvs hnew hlatest =>
    exact h.issue ht.cohort hissues (hunseen c i _ arg ht.cohort ht.brings hcall hissues) hne hvs
  | form hin hprimary hcounter hprop hvs harg hlatest =>
    exact absurd (congrArg Viewstamp.ts hvs) hts

/-- No cohort has handed a request to the back end twice. -/
def Once (s : Group) : Prop := ∀ m c, s.cohorts m = some c → c.requests.Nodup

theorem Tracing.once (h : s.Tracing) : s.Once := by
  intro m c hc
  have htraced := h.traced m c hc
  have hpairs : (c.handed.map Prod.fst).Pairwise fun u w => ∀ arg arg', s.Logged u arg →
      s.Logged w arg' → u.ts ≠ 0 → w.ts ≠ 0 → arg.requestId ≠ arg'.requestId := by
    refine htraced.lineage.pairwise fun w l hl u hu arg arg' harg harg' huts hwts => ?_
    obtain ⟨l', hl', hnew⟩ := h.issued w arg' harg' hwts
    have heq := Lineage.unique (P := Succeeds s.Logged) (fun _ _ _ => h.matching.succeeds_inj)
      (fun _ => h.matching.not_succeeds_zero) hl hl'
    obtain ⟨rfl, -⟩ := List.append_inj' heq rfl
    obtain ⟨arg₁, harg₁, hne⟩ := hnew u hu huts
    rwa [h.matching.one u arg arg₁ harg harg₁]
  refine List.pairwise_map.mpr ?_
  refine (List.pairwise_map.mp hpairs).filter _ |>.imp_of_mem fun {x y} hx hy hxy => ?_
  obtain ⟨hx, hxts⟩ := List.mem_filter.mp hx
  obtain ⟨hy, hyts⟩ := List.mem_filter.mp hy
  exact hxy x.2 y.2 ⟨m, c, hc, htraced.handed x hx⟩ ⟨m, c, hc, htraced.handed y hy⟩
    (of_decide_eq_true hxts) (of_decide_eq_true hyts)

/-! ## Runs -/

/-- What makes each request be executed once. -/
structure Fresh (s : Group) (e : Event) (s' : Group) : Prop where
  unequivocal : s.Unequivocal
  unused : FormsUnused s e s'
  unseen : IssuesUnseen s e s'

instance : Decidable (Fresh s e s') :=
  decidable_of_iff (s.Unequivocal ∧ FormsUnused s e s' ∧ IssuesUnseen s e s')
    ⟨fun ⟨hone, hunused, hunseen⟩ => ⟨hone, hunused, hunseen⟩,
      fun h => ⟨h.unequivocal, h.unused, h.unseen⟩⟩

theorem Tracing.update (h : s.Tracing) (hfresh : Fresh s e (s.update e.actor c'))
    (ht : Takes s e i c c₁ c') : (s.update e.actor c').Tracing := by
  have htraces := h.traces.update ⟨hfresh.unequivocal, hfresh.unused⟩ ht
  exact ⟨htraces.matching, htraces.latest, htraces.traced,
    fun vs arg hl hts => h.issued_update hfresh.unseen ht hl hts⟩

theorem Tracing.step (h : s.Tracing) (hs' : s.step e = some s') (hfresh : Fresh s e s') :
    s'.Tracing := by
  have hs := h.matching.sound
  obtain ⟨mid, rfl, hnone, rfl⟩ | ⟨i, c, c₁, c', ht, rfl⟩ := exists_takes hs hs'
  · have htraces := h.traces.step hs' ⟨hfresh.unequivocal, hfresh.unused⟩
    refine ⟨htraces.matching, htraces.latest, htraces.traced, fun vs arg hl hts => ?_⟩
    obtain ⟨m, d, hd, hentry⟩ := hl
    obtain ⟨-, rfl⟩ | hd := cohorts_boot m d hd
    · cases hentry
    · exact (h.issued vs arg ⟨m, d, hd, hentry⟩ hts).mono fun _ _ hl => hl.step hs hs'
  · exact h.update hfresh ht

theorem tracing_init (mid : Mid) : (init mid).Tracing := by
  have htraces := traces_init mid
  refine ⟨htraces.matching, htraces.latest, htraces.traced, fun vs arg hl hts => ?_⟩
  obtain ⟨m, c, hc, hentry⟩ := hl
  obtain ⟨rfl, rfl⟩ := cohorts_init hc
  obtain ⟨rfl, -⟩ := entry_founder.mp hentry
  exact absurd rfl hts

/-- **A request is executed once** by each cohort, in every run in which proposals are unequivocal,
each `REP_INIT_VIEW` that forms a view finds no request of it in the log, and each request that is
issued is issued in the view, and neither executed nor logged in the view yet. -/
theorem once_of_fresh (mid : Mid) (es : List Event) (h : Run.Along step Fresh (init mid) es) :
    Run.Always step Once (init mid) es :=
  Run.Always.of_inv (fun _ hs => hs.once) (fun _ _ _ hs' hs hfresh => hs.step hs' hfresh)
    (tracing_init mid) h

/-- A request that comes three times, and is executed by two cohorts. -/
theorem once_of_fresh_onward : Run.Always step Once (init 1) ((init 1).events onward) ∧
    ∃ s, ((init 1).events onward).foldlM step (init 1) = some s ∧
      (∃ c ∈ s.cohorts 1, c.requests = [(7, 1)]) ∧ ∃ c ∈ s.cohorts 2, c.requests = [(7, 1)] :=
  ⟨once_of_fresh 1 _ (by decide +kernel), events_of_any (by decide +kernel)⟩

/-- A client sends two requests, and the first one again. -/
def sentAgain : List Cue :=
  [.event (.request 1 0 ⟨7, 1, ⟨1, 1⟩, .operation []⟩),
    .event (.request 1 1 ⟨7, 2, ⟨1, 1⟩, .operation []⟩),
    .event (.request 1 2 ⟨7, 1, ⟨1, 1⟩, .operation []⟩)]

/-- The first request is handed to the back end twice. -/
theorem executed_twice : ∃ (es : List Event) (s : Group), es.foldlM step (init 1) = some s ∧
    ¬s.Once := by
  have h : ((init 1).play sentAgain).any (fun s => decide ((s.cohorts 1).any (fun c =>
      decide (c.requests = [(7, 1), (7, 2), (7, 1)])) = true)) = true := by
    decide +kernel
  obtain ⟨es, s, hes, htwice⟩ := exists_run_of_any h
  refine ⟨es, s, hes, fun honce => ?_⟩
  obtain ⟨c, hc, hrequests⟩ := (Option.any_eq_true _ _).mp htwice
  have hnodup := honce 1 c hc
  rw [of_decide_eq_true hrequests] at hnodup
  exact absurd hnodup (by decide)

end Group

end Falcon
