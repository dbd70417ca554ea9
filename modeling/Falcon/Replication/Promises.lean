import Falcon.Replication.Checks

/-!
# Replication/Promises — what a cohort has promised the managers of view changes

A cohort that answers a `REP_VIEW_CHANGE` promises to take part in no view with a smaller id, and
`proposed_vid_` records that.  It is not kept where views are accepted and entered: a `REP_NEW_VIEW`
sets `accepted_view_` and leaves `proposed_vid_` as it is, also when the cohort has not answered the
`REP_VIEW_CHANGE` before it, and the formation of a view sets `proposed_vid_` to the id of that
view, also when it has promised a larger one since.

* `promised_of_heeded` — the promise is kept in every run in which neither happens.
* `accepted_unpromised` — a run in which the first one does.
-/

namespace Falcon

namespace Cohort

variable {i : Input} {s s' s₁ : Cohort} {v : ViewId} {vs : Viewstamp} {arg : ExecuteArg}

/-! ## The views in line -/

/-- The next entry, as `vs_next` goes, if it is logged. -/
def Follows (s : Cohort) (vs vs' : Viewstamp) : Prop :=
  s.vsNext vs = some vs' ∧ (s.entry vs').isSome = true

/-- The entries after a viewstamp that are logged. -/
def InLine (s : Cohort) : Viewstamp → Viewstamp → Prop := Relation.TransGen s.Follows

/-- The views whose formation is to be executed have an id of at least `v`. -/
def Due (v : ViewId) (s : Cohort) : Prop :=
  ∀ vs arg f, s.InLine s.executed vs → s.entry vs = some arg → arg.request = .form f →
    vs.ts = 0 → vs ≤ max s.committed s.latest → v ≤ f.view.vid

theorem inLine_congr (hnext : s'.vsNext = s.vsNext) (hentry : s'.entry = s.entry) :
    s'.InLine = s.InLine := by
  unfold InLine Follows
  rw [hnext, hentry]

theorem Due.move (h : s.Due v) (hmove : Move i s s') : s'.Due v := by
  intro vs arg f hline hentry hf hts hle
  rw [inLine_congr hmove.vsNext hmove.entry] at hline
  rw [hmove.entry] at hentry
  refine h vs arg f ?_ hentry hf hts ?_
  · obtain ⟨hexec, -⟩ | ⟨hnext, -, arg', harg', -⟩ := hmove.executed
    · rwa [hexec] at hline
    · exact .head ⟨hnext, by rw [harg']; rfl⟩ hline
  · rw [hmove.latest] at hle
    obtain hcommit | ⟨-, hcommit⟩ := hmove.committed
    · rwa [hcommit] at hle
    · exact hle.trans (max_le (hcommit.trans (le_max_right _ _)) (le_max_right _ _))

/-! ## The promise -/

/-- The view a cohort has accepted is one it has promised to take part in. -/
def Promised (s : Cohort) : Prop := ∀ w, s.acceptedView = some w → w.vid ≤ s.proposedVid

/-- **The promise is kept in every move**, if the views to be entered are not smaller. -/
theorem promised_move (hv : v ≤ s.proposedVid) (hdue : s.Due v) (h : s.Promised)
    (hmove : Move i s s') : v ≤ s'.proposedVid ∧ s'.Promised := by
  cases hmove with
  | @enter vs rle f hvs hle hrle hts hf =>
    refine ⟨?_, nofun⟩
    have hentry : s.entry vs = some rle.arg := entry_eq_some.mpr ⟨rle, hrle, rfl⟩
    exact hdue vs rle.arg f (.single ⟨hvs, by rw [hentry]; rfl⟩) hentry hf hts
      (hle.trans (le_max_left _ _))
  | prepared hin hcalled hopen hnone hres hv' hatt hs' =>
    exact ⟨hv.trans hv', fun w hw => (h w hw).trans hv'⟩
  | _ => exact ⟨hv, h⟩

theorem promised_moves (hv : v ≤ s.proposedVid) (hdue : s.Due v) (h : s.Promised)
    (hmoves : Moves i s s') : v ≤ s'.proposedVid ∧ s'.Due v ∧ s'.Promised := by
  induction hmoves with
  | refl => exact ⟨hv, hdue, h⟩
  | tail _ hmove ih =>
    obtain ⟨hv, hdue, h⟩ := ih
    obtain ⟨hv', h'⟩ := promised_move hv hdue h hmove
    exact ⟨hv', hdue.move hmove, h'⟩

/-- A `REP_NEW_VIEW` that is taken has the id of the promise. -/
def Heeds (i : Input) (s : Cohort) : Prop :=
  ∀ sbp nv, i = .call sbp (.newView nv) →
    ¬(s.validView ∧ nv.view.vid < s.view.vid ∨ nv.view.vid < s.proposedVid) →
    nv.view.vid ≤ s.proposedVid

theorem promised_begins {s₁ : Cohort} (hi : Heeds i s) (h : s.Promised) (hs₁ : Begins i s s₁) :
    s.proposedVid ≤ s₁.proposedVid ∧ s₁.Promised := by
  cases hs₁ with
  | initiates hstart hs₁ =>
    obtain ⟨-, -, o, S, -, rfl⟩ := hs₁
    exact ⟨le_refl _, h⟩
  | issues hin hmode hvid hprimary hcache hvs hsends =>
    obtain ⟨L, rfl⟩ := hcache.eq
    exact ⟨le_refl _, h⟩
  | promises hin hfree hlatest =>
    have hle := not_lt.mp fun hlt => hfree (Or.inr hlt)
    exact ⟨hle, fun w hw => (h w hw).trans hle⟩
  | accepts hin hfree =>
    refine ⟨le_refl _, fun w hw => ?_⟩
    obtain rfl := Option.some.inj hw
    exact hi _ _ hin hfree
  | _ => exact ⟨le_refl _, h⟩

/-! ## The promise, by a look at the log -/

/-- The entry that an input brings. -/
def brought (s : Cohort) : Input → Option (Viewstamp × ExecuteArg)
  | .call _ (.execute arg) => s.latest.succ.map fun vs => (vs, arg)
  | .call _ (.replicate ra) => some (ra.vs, ra.arg)
  | .call _ (.initView f) => some (⟨f.view.vid, 0⟩, f.arg)
  | .callback _ (.fetchlogCb _ vs) (some (.fetchlog arg)) => some (vs, arg)
  | _ => none

theorem Enters.brought (h : Enters i s s₁ vs arg) : s.brought i = some (vs, arg) := by
  cases h with
  | issue hin hissues hvs hlatest => rw [hin, Cohort.brought, hvs, Option.map_some]
  | form hin hprimary hlatest => rw [hin, Cohort.brought]
  | replicate hin => rw [hin, Cohort.brought]
  | fetch hin hcb => rw [hin, Cohort.brought]

/-- What an input may have committed. -/
def reach (s : Cohort) : Input → Viewstamp
  | .call _ (.execute _) => max (max s.committed s.latest) (s.latest.succ.getD .zero)
  | .call _ (.replicate ra) => max (max s.committed s.latest) ra.committed
  | .call _ (.initView f) => max (max s.committed s.latest) ⟨f.view.vid, 0⟩
  | _ => max s.committed s.latest

theorem Begins.le_reach (h : Begins i s s₁) : max s₁.committed s₁.latest ≤ s.reach i := by
  have hstay : max s.committed s.latest ≤ s.reach i := by
    unfold reach
    split
    case h_4 => exact le_rfl
    all_goals exact le_max_left _ _
  cases h with
  | initiates hstart hs₁ =>
    obtain ⟨-, -, o, S, -, rfl⟩ := hs₁
    exact hstay
  | issues hin hmode hvid hprimary hcache hvs hsends =>
    obtain ⟨L, rfl⟩ := hcache.eq
    subst hin
    rw [reach, hvs]
    exact max_le ((le_max_left _ _).trans (le_max_left _ _)) (le_max_right _ _)
  | forms hin hnew hprimary hJ =>
    subst hin
    exact max_le (le_max_right _ _) (le_max_right _ _)
  | logs hin hcheck hlt hnew hJ =>
    subst hin
    exact max_le (max_le_max_right _ (le_max_left _ _)) ((le_max_right _ _).trans (le_max_left _ _))
  | adopts hin hcheck hold =>
    subst hin
    exact max_le (max_le_max_right _ (le_max_left _ _)) ((le_max_right _ _).trans (le_max_left _ _))
  | _ => exact hstay

/-- The formation of a view leads on; and it is executed, or not to be executed, or keeps the
promise. -/
def Suits (i : Input) (s : Cohort) (vs : Viewstamp) (arg : ExecuteArg) : Prop :=
  ∀ f, arg.request = .form f →
    f.prev < vs ∧ (vs ≤ s.executed ∨ s.reach i < vs ∨ s.proposedVid ≤ f.view.vid)

instance (vs : Viewstamp) (arg : ExecuteArg) : Decidable (Suits i s vs arg) :=
  match h : arg.request with
  | .form f => decidable_of_iff
      (f.prev < vs ∧ (vs ≤ s.executed ∨ s.reach i < vs ∨ s.proposedVid ≤ f.view.vid))
      ⟨fun hf _ heq => Payload.form.inj (h.symm.trans heq) ▸ hf, fun hsuits => hsuits f h⟩
  | .operation _ => isTrue fun _ heq => nomatch h.symm.trans heq

/-- The formations in the log suit the promise. -/
structure Suited (i : Input) (s : Cohort) : Prop where
  heeds : Heeds i s
  jumps : ∀ u ∈ s.jumps.keys, ∀ w ∈ s.jumps.lookup u, u < w
  log : ∀ vs ∈ s.log.keys, ∀ arg ∈ s.entry vs, Suits i s vs arg
  brought : ∀ x ∈ s.brought i, Suits i s x.1 x.2

theorem Suited.onward (h : Suited i s) (hs₁ : Begins i s s₁) : s₁.Onward := by
  intro u w hw
  unfold vsNext at hw
  split at hw
  · next next hnext =>
    obtain rfl := Option.some.inj hw
    obtain hold | ⟨-, arg, f, henters, hf, rfl⟩ := hs₁.jumps_cases hnext
    · exact h.jumps u (Keyed.mem_of_lookup hold) next hold
    · exact (h.brought _ henters.brought f hf).1
  · exact lt_succ hw

theorem Suited.due (h : Suited i s) (hs₁ : Begins i s s₁) : s₁.Due s.proposedVid := by
  intro vs arg f hline hentry hf hts hle
  have hlt : s.executed < vs := by
    rw [← hs₁.executed.1]
    exact (h.onward hs₁).walk_lt (Relation.TransGen.mono (fun _ _ hnext => hnext.1) _ _ hline)
  have hsuits : Suits i s vs arg := by
    obtain hold | ⟨-, henters⟩ := hs₁.entry_cases hentry
    · obtain ⟨rle, hrle, -⟩ := entry_eq_some.mp hold
      exact h.log vs (Keyed.mem_of_lookup hrle) arg hold
    · exact h.brought _ henters.brought
  obtain hexec | hreach | hv := (hsuits f hf).2
  · exact absurd hexec (not_le.mpr hlt)
  · exact absurd (hle.trans hs₁.le_reach) (not_le.mpr hreach)
  · exact hv

/-- The view a call proposes. -/
def proposes : Call → Option NewViewArg
  | .newView nv => some nv
  | _ => none

theorem proposes_eq {k : Call} {nv : NewViewArg} : proposes k = some nv ↔ k = .newView nv := by
  cases k <;> simp [proposes]

instance : ∀ i, Decidable (Heeds i s)
  | .call _ k => decidable_of_iff (∀ nv ∈ proposes k,
      ¬(s.validView ∧ nv.view.vid < s.view.vid ∨ nv.view.vid < s.proposedVid) →
      nv.view.vid ≤ s.proposedVid)
      ⟨fun h _ nv hin => h nv (proposes_eq.mpr (Input.call.inj hin).2),
        fun h nv hnv => h _ nv (congrArg (Input.call _) (proposes_eq.mp hnv))⟩
  | .callback _ _ _ | .executed _ | .failed _ | .viewIsDown | .join _ => isTrue nofun

instance : Decidable (Suited i s) :=
  decidable_of_iff (Heeds i s ∧ (∀ u ∈ s.jumps.keys, ∀ w ∈ s.jumps.lookup u, u < w) ∧
      (∀ vs ∈ s.log.keys, ∀ arg ∈ s.entry vs, Suits i s vs arg) ∧
      ∀ x ∈ s.brought i, Suits i s x.1 x.2)
    ⟨fun ⟨hheeds, hjumps, hlog, hbrought⟩ => ⟨hheeds, hjumps, hlog, hbrought⟩,
      fun h => ⟨h.heeds, h.jumps, h.log, h.brought⟩⟩

/-- A cohort rejects the calls of managers with an id smaller than `v`. -/
def Rejects (v : ViewId) (s : Cohort) : Prop :=
  (∀ sbp g, g.newvid < v → s.dispatch sbp (.viewChange g) = some (s.answer sbp
    (.viewChange (.reject (if s.validView then some s.view else none) s.proposedVid)))) ∧
  ∀ sbp nv, nv.view.vid < v → s.dispatch sbp (.newView nv) = some (s.answer sbp (.newView false))

theorem rejects_of_le (h : v ≤ s.proposedVid) : s.Rejects v :=
  ⟨fun _ _ hlt => if_pos (Or.inr (lt_of_lt_of_le hlt h)),
    fun _ _ hlt => if_pos (Or.inr (lt_of_lt_of_le hlt h))⟩

end Cohort

namespace Group

open Cohort

variable {s s' : Group} {e : Event} {m : Mid} {v : ViewId}

/-! ## Runs -/

/-- Neither a `REP_NEW_VIEW` nor the formation of a view goes past the promise of the cohort. -/
def Heeded (s : Group) (e : Event) (_ : Group) : Prop :=
  ∀ c i, s.cohorts e.actor = some c → Brings s c e i →
    Heeds i c ∧ ∀ c₁, Begins i c c₁ → c₁.Due c.proposedVid

/-- No cohort lowers `proposed_vid_`. -/
def Advances (s : Group) (_ : Event) (s' : Group) : Prop :=
  ∀ m c c', s.cohorts m = some c → s'.cohorts m = some c' → c.proposedVid ≤ c'.proposedVid

/-- Every cohort has promised the view it has accepted. -/
def AllPromised (s : Group) : Prop := ∀ m c, s.cohorts m = some c → c.Promised

theorem promised_step (hs : s.Sound) (h : s.AllPromised) (hs' : s.step e = some s')
    (hheed : Heeded s e s') : s'.AllPromised ∧ Advances s e s' := by
  obtain ⟨mid, rfl, hnone, rfl⟩ | ⟨i, c, c₁, c', hc, hi, hc₁, hmoves, rfl⟩ := exists_moves hs hs'
  · refine ⟨fun m d hd => ?_, fun m d d' hd hd' => ?_⟩
    · obtain ⟨-, rfl⟩ | hd := cohorts_boot m d hd
      · exact nofun
      · exact h m d hd
    · obtain ⟨rfl, -⟩ | hd' := cohorts_boot m d' hd'
      · exact nomatch hnone.symm.trans hd
      · rw [Option.some.inj (hd.symm.trans hd')]
  · obtain ⟨hheeds, hdue⟩ := hheed c i hc hi
    obtain ⟨hle₁, hp₁⟩ := promised_begins hheeds (h _ c hc) hc₁
    obtain ⟨hle, -, hp⟩ := promised_moves hle₁ (hdue c₁ hc₁) hp₁ hmoves
    refine ⟨fun m d hd => ?_, fun m d d' hd hd' => ?_⟩
    · obtain ⟨-, rfl⟩ | hd := of_cohorts_update hd
      · exact hp
      · exact h m d hd
    · obtain ⟨rfl, rfl⟩ | hd' := of_cohorts_update hd'
      · rw [Option.some.inj (hd.symm.trans hc)]
        exact hle
      · rw [Option.some.inj (hd.symm.trans hd')]

/-- The cohort `m` accepts a `REP_VIEW_CHANGE` or a `REP_NEW_VIEW` with the id `v`. -/
inductive Accepts (s : Group) : Event → Mid → ViewId → Prop
  | viewChange {p : Packet} {c : Cohort} {g : ViewChangeArg} (hc : s.cohorts p.dest = some c)
      (hp : p.call = .viewChange g)
      (h : ¬(c.validView ∧ g.oldview.vid < c.view.vid ∨ g.newvid < c.proposedVid)) :
      Accepts s (.deliver p) p.dest g.newvid
  | newView {p : Packet} {c : Cohort} {nv : NewViewArg} (hc : s.cohorts p.dest = some c)
      (hp : p.call = .newView nv)
      (h : ¬(c.validView ∧ nv.view.vid < c.view.vid ∨ nv.view.vid < c.proposedVid)) :
      Accepts s (.deliver p) p.dest nv.view.vid

/-- To accept is to promise. -/
theorem Accepts.le (hs : s.Accepts e m v) (hs' : s.step e = some s') (hheed : Heeded s e s')
    (hadv : Advances s e s') : ∃ c', s'.cohorts m = some c' ∧ v ≤ c'.proposedVid := by
  cases hs with
  | @viewChange p c g hc hp h =>
    obtain ⟨mid, heq, -⟩ | ⟨d, c', hd, hc', rfl⟩ := step_cases hs'
    · cases heq
    · obtain rfl : c = d := Option.some.inj (hc.symm.trans hd)
      refine ⟨_, (cohorts_update _ _ _ _).trans (if_pos rfl), ?_⟩
      change (if p ∈ s.calls then _ else _) = _ at hc'
      split_ifs at hc' with hmem
      rw [hp] at hc'
      change c.serveViewChange p.sbp g = some c' at hc'
      rw [serveViewChange, if_neg h] at hc'
      simp only [Option.bind_eq_bind, Option.bind_eq_some_iff] at hc'
      obtain ⟨vs, -, latest, -, hc'⟩ := hc'
      rw [yieldTo_with] at hc'
      exact Option.some.inj hc' ▸ le_refl _
  | @newView p c nv hc hp h =>
    obtain ⟨c', hc'⟩ := exists_cohort hs' hc
    have hmem : p ∈ s.calls := by
      obtain ⟨mid, heq, -⟩ | ⟨d, d', -, hd', -⟩ := step_cases hs'
      · cases heq
      · change (if p ∈ s.calls then _ else _) = _ at hd'
        split_ifs at hd' with hmem
        exact hmem
    have hle := (hheed c _ hc (.deliver hmem)).1 p.sbp nv (by rw [hp]) h
    exact ⟨c', hc', hle.trans (hadv _ c c' hc hc')⟩

/-- What holds between steps in a run of heeded steps. -/
structure Faithful (s : Group) : Prop where
  sound : s.Sound
  promised : s.AllPromised

theorem faithful_init (mid : Mid) : (init mid).Faithful := by
  refine ⟨sound_init mid, fun m c hc w hw => ?_⟩
  obtain ⟨-, rfl⟩ := cohorts_init hc
  cases hw

/-- **The promises of the cohorts are kept** in every run in which no `REP_NEW_VIEW` and no
formation of a view goes past one: `proposed_vid_` does not decrease, a view that has been accepted
has been promised, and after a manager's call has been accepted those with smaller ids are rejected.
-/
theorem promised_of_heeded (mid : Mid) (es : List Event)
    (h : Run.Along step Heeded (init mid) es) :
    Run.Along step Advances (init mid) es ∧ Run.Always step AllPromised (init mid) es ∧
      ∀ pre e rest s₁ s₂ s₃ m v c, pre ++ e :: rest <+: es → pre.foldlM step (init mid) = some s₁ →
        s₁.step e = some s₂ → s₁.Accepts e m v → rest.foldlM step s₂ = some s₃ →
        s₃.cohorts m = some c → c.Rejects v := by
  have hstep : ∀ s e s', step s e = some s' → s.Faithful → Heeded s e s' →
      s'.Faithful ∧ Advances s e s' := fun s e s' hs' hs hheed => by
    obtain ⟨hp, hadv⟩ := promised_step hs.sound hs.promised hs' hheed
    exact ⟨⟨hs.sound.step hs', hp⟩, hadv⟩
  have hadvances : Run.Along step Advances (init mid) es :=
    Run.Along.of_inv hstep es _ (faithful_init mid) h
  refine ⟨hadvances, Run.Always.of_inv (fun _ hs => hs.promised)
    (fun s e s' hs' hs hheed => (hstep s e s' hs' hs hheed).1) (faithful_init mid) h, ?_⟩
  intro pre e rest s₁ s₂ s₃ m v c hes hs₁ hs₂ hacc hs₃ hc
  have hheed := Run.Along.after h hes hs₁ s₂ hs₂
  have hadv := Run.Along.after hadvances hes hs₁ s₂ hs₂
  -- the promise made when the call was accepted is still there
  obtain ⟨c', hc', hle⟩ := Run.Along.keeps (I := fun s => ∃ c, s.cohorts m = some c ∧
      v ≤ c.proposedVid) hadv.2 hs₃ (fun s e s' hs' ⟨d, hd, hle⟩ hadv => by
    obtain ⟨d', hd'⟩ := exists_cohort hs' hd
    exact ⟨d', hd', hle.trans (hadv m d d' hd hd')⟩) (hacc.le hs₂ hheed.1 hadv.1)
  rw [hc] at hc'
  exact rejects_of_le (Option.some.inj hc' ▸ hle)

/-- What an event is for the cohort it happens at. -/
def input (c : Cohort) : Event → Option Input
  | .boot _ => none
  | .deliver p => some (.call p.sbp p.call)
  | .answer sbp ans => (c.calls.lookup sbp.call).map fun cb => .callback sbp.call cb (some ans)
  | .fail _ n => (c.calls.lookup n).map fun cb => .callback n cb none
  | .request _ n arg => some (.call ⟨arg.client, n⟩ (.execute arg))
  | .executed _ reply => some (.executed reply)
  | .failed _ failed => some (.failed failed)
  | .viewIsDown _ => some .viewIsDown
  | .join _ dest => some (.join dest)

theorem Brings.input {c : Cohort} {i : Input} (h : Brings s c e i) : input c e = some i := by
  cases h with
  | answer hans hcb => rw [Group.input, hcb, Option.map_some]
  | fail hcb => rw [Group.input, hcb, Option.map_some]
  | _ => rfl

/-- The logs of a group suit the promises. -/
def SuitedAt (s : Group) (e : Event) (_ : Group) : Prop :=
  ∀ c ∈ s.cohorts e.actor, ∀ i ∈ input c e, Suited i c

instance : Decidable (SuitedAt s e s') :=
  inferInstanceAs (Decidable (∀ c ∈ s.cohorts e.actor, ∀ i ∈ input c e, Suited i c))

theorem heeded_of_suited (h : SuitedAt s e s') : Heeded s e s' := fun c i hc hi =>
  ⟨(h c hc i hi.input).heeds, fun _ hc₁ => (h c hc i hi.input).due hc₁⟩

/-- Cohort `1` has entered the view `⟨2, 1⟩`, and it and `2` have promised `⟨3, 1⟩`, when the calls
of the first view change come again. -/
def outdated : List Cue := pair.dropLast ++ [.event (.boot 3), .event (.join 3 1), .call 3 0,
  .call 1 6, .call 1 7, .answer 1 6, .answer 1 7, .event (.fail 1 8), .call 1 9, .call 1 2,
  .call 1 1]

theorem promised_of_heeded_outdated :
    Run.Along step Advances (init 1) ((init 1).events outdated) ∧
    Run.Always step AllPromised (init 1) ((init 1).events outdated) ∧
    ∃ s c, ((init 1).events outdated).foldlM step (init 1) = some s ∧ s.cohorts 2 = some c ∧
      c.Rejects ⟨3, 1⟩ ∧ (⟨1, 1⟩, .viewChange (.reject none ⟨3, 1⟩)) ∈ s.answers ∧
      (⟨1, 2⟩, .newView false) ∈ s.answers := by
  have halong : Run.Along step SuitedAt (init 1) ((init 1).events outdated) := by decide +kernel
  obtain ⟨hadv, hall, hrejects⟩ :=
    promised_of_heeded 1 _ (halong.mono fun _ _ _ => heeded_of_suited)
  refine ⟨hadv, hall, ?_⟩
  have hend : ((init 1).play outdated).any (fun s => decide ((s.cohorts 2).isSome = true ∧
      (⟨1, 1⟩, .viewChange (.reject none ⟨3, 1⟩)) ∈ s.answers ∧
      (⟨1, 2⟩, .newView false) ∈ s.answers)) = true := by
    decide +kernel
  obtain ⟨s, hs, hsome, hreject, hfalse⟩ := events_of_any hend
  obtain ⟨c, hc⟩ := Option.isSome_iff_exists.mp hsome
  refine ⟨s, c, hs, hc, ?_, hreject, hfalse⟩
  -- `2` accepts the `REP_VIEW_CHANGE` of the second view change
  let p : Packet := ⟨⟨1, 7⟩, 2, .viewChange ⟨⟨⟨2, 1⟩, 1, [2]⟩, ⟨3, 1⟩⟩⟩
  have hes : (init 1).events outdated = ((init 1).events outdated).take 18 ++
      .deliver p :: ((init 1).events outdated).drop 19 := by
    decide +kernel
  have hfree : ((((init 1).events outdated).take 18).foldlM step (init 1)).any (fun s₁ => decide (
      (s₁.cohorts 2).any (fun c => decide ¬(c.validView ∧ (⟨2, 1⟩ : ViewId) < c.view.vid ∨
        (⟨3, 1⟩ : ViewId) < c.proposedVid)) = true)) = true := by
    decide +kernel
  obtain ⟨s₁, hs₁, hfree⟩ := (Option.any_eq_true _ _).mp hfree
  obtain ⟨c₁, hc₁, hfree⟩ := (Option.any_eq_true _ _).mp (of_decide_eq_true hfree)
  have hrest := hs
  rw [hes, List.foldlM_append, hs₁, Option.bind_eq_bind, Option.bind_some,
    List.foldlM_cons] at hrest
  obtain ⟨s₂, hs₂, hrest⟩ := Option.bind_eq_some_iff.mp hrest
  have hacc : s₁.Accepts (.deliver p) p.dest ⟨3, 1⟩ :=
    .viewChange (p := p) hc₁ rfl (of_decide_eq_true hfree)
  exact hrejects _ _ _ s₁ s₂ s 2 _ c (hes ▸ List.prefix_rfl) hs₁ hs₂ hacc hrest hc

/-- A cohort that a manager has not asked yet accepts its view: `accepted_view_` is `⟨2, 1⟩`, and
`proposed_vid_` is zero. -/
theorem accepted_unpromised : ∃ (es : List Event) (s : Group), es.foldlM step (init 1) = some s ∧
    ¬s.AllPromised := by
  have h : ((init 1).play [.event (.boot 2), .event (.join 2 1), .call 2 0, .call 1 0, .answer 1 0,
      .event (.fail 1 1), .call 1 3]).any (fun s => decide ((s.cohorts 2).map (fun c =>
        (c.acceptedView, c.proposedVid)) = some (some ⟨⟨2, 1⟩, 1, []⟩, .zero))) = true := by
    decide +kernel
  obtain ⟨es, s, hes, hs⟩ := exists_run_of_any h
  refine ⟨es, s, hes, fun hp => ?_⟩
  obtain ⟨c, hc, heq⟩ := Option.map_eq_some_iff.mp hs
  obtain ⟨hacc, hprop⟩ := Prod.mk.inj heq
  have hle := hp 2 c hc _ hacc
  rw [hprop] at hle
  exact absurd hle (by decide)

end Group

end Falcon
