import Falcon.Replication.Offers

/-!
# Replication/Reports — how far a cohort's log goes once it has reported it

A cohort that accepts a `REP_VIEW_CHANGE` reports the last of its consecutive entries, and stays
where it is from then on: it takes no requests before it enters a view.  If the log has no gap and
no entry is being fetched, that is the last entry there is, and what comes in later is part of the
log of a view proposed since, or a view is formed.

* `Kept.handle` — the log of a cohort stays within a bound, or has an entry of a view from `v` on,
  or the cohort has accepted a view after `v`.
-/

namespace Falcon

namespace Cohort

variable {i : Input} {s s' s₁ : Cohort} {x vs l latest : Viewstamp} {v : ViewId} {n : ℕ}
  {p : PullRef} {sbp : Sbp}

/-! ## The last entry -/

/-- The log has no gap: what is not executed is in line to be. -/
def Whole (s : Cohort) : Prop := ∀ vs ∈ s.log, vs ≤ s.executed ∨ s.InLine s.executed vs

/-- No entry is being fetched. -/
def Settles (s : Cohort) : Prop := ∀ n p vs, s.calls.lookup n ≠ some (.fetchlogCb p vs)

/-- Whatever is logged is at the end of the line at most. -/
theorem Whole.le_last (h : s.Whole) (hc : s.Charted)
    (hl : Relation.ReflTransGen s.Follows s.executed l)
    (hend : ∃ w, s.vsNext l = some w ∧ w ∉ s.log) (hvs : vs ∈ s.log) : vs ≤ l := by
  obtain hle | hline := h vs hvs
  · exact hle.trans (follows_le hc hl)
  · have hright : Relator.RightUnique s.Follows := fun _ _ _ hb hb' =>
      Option.some.inj (hb.1.symm.trans hb'.1)
    obtain hback | hfront := hl.total_of_right_unique hright hline.to_reflTransGen
    · obtain rfl | ⟨w, hw, -⟩ := hback.cases_head
      · exact le_rfl
      · -- nothing in line comes after the last entry
        obtain ⟨w', hw', hnew⟩ := hend
        obtain rfl := Option.some.inj (hw.1.symm.trans hw')
        obtain ⟨arg, harg⟩ := Option.isSome_iff_exists.mp hw.2
        exact absurd (mem_log_iff.mpr ⟨arg, harg⟩) hnew
    · exact follows_le hc hfront

theorem Move.mem (h : Move i s s') : vs ∈ s'.log ↔ vs ∈ s.log := by
  rw [mem_log_iff, h.entry, ← mem_log_iff]

theorem Charted.moves (h : s.Charted) (hmoves : Moves i s s') : s'.Charted :=
  h.congr (Moves.entry hmoves) (Moves.jumps hmoves)

theorem Charted.handles (h : s.Charted) (hleads : i.Leads) (hs' : Handles i s s') : s'.Charted := by
  obtain ⟨s₁, hs₁, hmoves⟩ := hs'
  exact (h.begins (fun _ _ henters => henters.leadsTo hleads) hs₁).moves hmoves

theorem Placed.handles (h : s.Placed) (hleads : i.Leads) (hs' : Handles i s s') : s'.Placed := by
  obtain ⟨s₁, hs₁, hmoves⟩ := hs'
  exact ((h.begins (fun _ _ henters => henters.leadsTo hleads) hs₁).moves hmoves).1

/-- The viewstamp is one that has been logged or executed. -/
def Reached (x : Viewstamp) (s : Cohort) : Prop := x ∈ s.log ∨ x ≤ s.executed

theorem reached_of_follows (hl : Relation.ReflTransGen s.Follows s.executed l) : s.Reached l := by
  obtain rfl | ⟨b, -, hb⟩ := hl.cases_tail
  · exact Or.inr le_rfl
  · obtain ⟨arg, harg⟩ := Option.isSome_iff_exists.mp hb.2
    exact Or.inl (mem_log_iff.mpr ⟨arg, harg⟩)

theorem Reached.le_last (h : s.Reached x) (hw : s.Whole) (hc : s.Charted)
    (hl : Relation.ReflTransGen s.Follows s.executed l)
    (hend : ∃ w, s.vsNext l = some w ∧ w ∉ s.log) : x ≤ l :=
  h.elim (hw.le_last hc hl hend) fun hle => hle.trans (follows_le hc hl)

theorem Reached.handles (h : s.Reached x) (hc : s.Charted) (hleads : i.Leads)
    (hs' : Handles i s s') : s'.Reached x := by
  obtain ⟨s₁, hs₁, hmoves⟩ := hs'
  have hc₁ : s₁.Charted := hc.begins (fun _ _ henters => henters.leadsTo hleads) hs₁
  have h₁ : s₁.Reached x := h.imp hs₁.mem fun hle => hle.trans hs₁.executed.1.ge
  clear h hc hs₁
  induction hmoves with
  | refl => exact h₁
  | tail hmoves hmove ih =>
    refine ih.imp hmove.mem.mpr fun hle => hle.trans ?_
    obtain ⟨hexec, -⟩ | ⟨hnext, -⟩ := hmove.executed
    · exact hexec.ge
    · exact ((hc₁.moves hmoves).onward _ _ hnext).le

/-! ## What is logged after the report -/

/-- Nothing beyond `x` is logged, or on its way, and no request is taken. -/
structure Bounded (x : Viewstamp) (s : Cohort) : Prop where
  log : ∀ vs ∈ s.log, vs ≤ x
  executed : s.executed ≤ x
  mode : s.mode ≠ .active
  calls : ∀ n p vs, s.calls.lookup n = some (.fetchlogCb p vs) → vs ≤ x

/-- There is an entry of a view from `v` on. -/
def Past (v : ViewId) (s : Cohort) : Prop := ∃ vs ∈ s.log, v ≤ vs.vid

/-- The cohort has gone on to a view from `v` on, or is to go on to one after `v`. -/
def Gone (v : ViewId) (s : Cohort) : Prop := s.Past v ∨ ∃ w, s.acceptedView = some w ∧ v < w.vid

/-- The log is bounded, or the cohort has gone on. -/
def Kept (x : Viewstamp) (v : ViewId) (s : Cohort) : Prop := s.Bounded x ∨ s.Gone v

theorem Past.mono (h : s.Past v) (hlog : ∀ vs ∈ s.log, vs ∈ s'.log) : s'.Past v := by
  obtain ⟨vs, hvs, hle⟩ := h
  exact ⟨vs, hlog vs hvs, hle⟩

/-- What is asked for is not beyond what the log is pulled up to. -/
theorem pullUpto_le (hs' : s.pullUpto p latest = some s') {q : PullRef}
    (hcb : s'.calls.lookup n = some (.fetchlogCb q vs)) :
    s.calls.lookup n = some (.fetchlogCb q vs) ∨ vs ≤ latest := by
  obtain ⟨vss, hwants, hvss⟩ := wants_pullUpto hs'
  obtain hcb | ⟨-, hmem, -⟩ := hwants.calls n q vs hcb
  · exact Or.inl hcb
  · obtain ⟨hvid, hts, -⟩ := (hvss vs).mp hmem
    refine Or.inr (Viewstamp.le_iff.mpr ?_)
    obtain hlt | heq := hts.lt_or_eq
    · exact Or.inl (Viewstamp.lt_iff.mpr (Or.inr ⟨hvid, hlt⟩))
    · exact Or.inr (Viewstamp.eq_iff.mpr ⟨hvid, heq⟩)

/-- The cohort has entered a view after `u`, and promised no less since. -/
structure Onto (u : ViewId) (s : Cohort) : Prop where
  lt : u < s.view.vid
  promised : s.view.vid ≤ s.proposedVid
  past : s.Past s.view.vid

/-- The view that is entered is a later one, and its formation is logged. -/
theorem Placed.enter {rle : LogEntry} {f : ViewForm} (h : s.Placed)
    (hvs : s.vsNext s.executed = some vs) (hrle : s.log.lookup vs = some rle) (hts : vs.ts = 0)
    (hf : rle.arg.request = .form f) : s.view.vid < f.view.vid ∧ s.Past f.view.vid := by
  have hvid : f.view.vid = vs.vid :=
    (h.leads vs _ (entry_eq_some.mpr ⟨rle, hrle, rfl⟩) hts f hf).2
  refine ⟨?_, vs, Keyed.mem_of_lookup hrle, hvid.le⟩
  obtain hlt | ⟨-, hlt⟩ := Viewstamp.lt_iff.mp (h.vsNext hvs).1
  · rwa [h.vid, ← hvid] at hlt
  · exact absurd hlt (hts ▸ Nat.not_lt_zero _)

/-- A view is entered in a move, or the promise stays. -/
theorem Move.onto (hp : s.Placed) (hmove : Move i s s') :
    s'.view = s.view ∧ s.proposedVid ≤ s'.proposedVid ∧ s'.acceptedView = s.acceptedView ∨
      s'.Onto s.view.vid ∧ s'.acceptedView = none := by
  have hlog : ∀ vs ∈ s.log, vs ∈ s'.log := fun _ => hmove.mem.mpr
  cases hmove with
  | enter hvs hle hrle hts hf =>
    obtain ⟨hlt, hpast⟩ := hp.enter hvs hrle hts hf
    exact Or.inr ⟨⟨hlt, le_rfl, hpast.mono hlog⟩, rfl⟩
  | prepared hin hcalled hopen hnone hres hv hatt hs' => exact Or.inl ⟨rfl, hv, rfl⟩
  | _ => exact Or.inl ⟨rfl, le_rfl, rfl⟩

theorem Onto.mono {u u' : ViewId} (h : s.Onto u) (hle : u' ≤ u) : s.Onto u' :=
  ⟨lt_of_le_of_lt hle h.lt, h.promised, h.past⟩

theorem Onto.move {u : ViewId} (h : s.Onto u) (hp : s.Placed) (hmove : Move i s s') :
    s'.Onto u := by
  obtain ⟨hview, hle, -⟩ | ⟨honto, -⟩ := hmove.onto hp
  · refine ⟨?_, ?_, ?_⟩
    all_goals rw [hview]
    · exact h.lt
    · exact h.promised.trans hle
    · exact h.past.mono fun _ => hmove.mem.mpr
  · exact honto.mono h.lt.le

/-- A pull goes down to what the formations in the log follow. -/
theorem Bounded.descend (h : s.Bounded x) (hc : s.Charted) (hs' : s.descend p = some s')
    {q : PullRef} (hcb : s'.calls.lookup n = some (.fetchlogCb q vs)) : vs ≤ x := by
  cases descends hs' with
  | waits hnext hlt hnone => exact h.calls n q vs hcb
  | @goes next rle f _ hnext hlt hrle hf hs' =>
    have hleads := hc.leads _ _ (entry_eq_some.mpr ⟨rle, hrle, rfl⟩) rfl f hf
    exact (pullUpto_le hs' hcb).elim (h.calls n q vs) fun hle =>
      hle.trans (hleads.1.le.trans (h.log _ (Keyed.mem_of_lookup hrle)))
  | ends hnext hge => exact h.calls n q vs hcb

/-- A bounded log stays so in a move, or a view is entered. -/
theorem Bounded.move (h : s.Bounded x) (hc : s.Charted) (hp : s.Placed)
    (hpulls : ∀ src latest cb, Pulls i src latest cb → latest ≤ x) (hmove : Move i s s') :
    s'.Bounded x ∨ s'.Onto s.view.vid := by
  have hmem : ∀ w ∈ s.log, w ∈ s'.log := fun _ => hmove.mem.mpr
  have hlog : ∀ w ∈ s'.log, w ≤ x := fun w hw => h.log w (hmove.mem.mp hw)
  cases hmove with
  | called hin hcb =>
    exact Or.inl ⟨hlog, h.executed, h.mode, fun n p vs hcb =>
      h.calls n p vs (Keyed.lookup_of_lookup_erase hcb)⟩
  | run hvs hle hrle hts =>
    exact Or.inl ⟨hlog, h.log _ (Keyed.mem_of_lookup hrle), h.mode, h.calls⟩
  | enter hvs hle hrle hts hf =>
    obtain ⟨hlt, hpast⟩ := hp.enter hvs hrle hts hf
    exact Or.inr ⟨hlt, le_rfl, hpast.mono hmem⟩
  | replicateForm hin hprimary hmem hsends =>
    exact Or.inl ⟨hlog, h.executed, h.mode, fun n p vs hcb =>
      h.calls n p vs (hsends.lookup (fun _ => nofun) hcb)⟩
  | pull hin hs' =>
    exact Or.inl ⟨hlog, h.executed, h.mode, fun n p vs hcb =>
      (pullUpto_le hs' hcb).elim (h.calls n p vs) fun hle => hle.trans (hpulls _ _ _ hin)⟩
  | descend hs' =>
    exact Or.inl ⟨hlog, h.executed, h.mode, fun n p vs hcb => h.descend hc hs' hcb⟩
  | ask hw hu hnew hopen hcurrent hnone =>
    refine Or.inl ⟨hlog, h.executed, h.mode, fun n p vs hcb => ?_⟩
    obtain ⟨-, heq⟩ | ⟨-, hcb⟩ := Keyed.lookup_of_lookup_insert hcb
    · cases heq
    · exact h.calls n p vs hcb
  | propose hopen hdone hmaj hmaj' hnone hnv hsends =>
    exact Or.inl ⟨hlog, h.executed, h.mode, fun n p vs hcb =>
      h.calls n p vs (hsends.lookup (fun _ => nofun) hcb)⟩
  | _ => exact Or.inl ⟨hlog, h.executed, h.mode, h.calls⟩

/-- The view that has been accepted is forgotten when a view is entered. -/
theorem Gone.move (h : s.Gone v) (hp : s.Placed) (hmove : Move i s s') :
    s'.Gone v ∨ s'.Onto s.view.vid := by
  obtain h | ⟨w, hw, hlt⟩ := h
  · exact Or.inl (Or.inl (h.mono fun _ => hmove.mem.mpr))
  · obtain ⟨-, -, hview⟩ | ⟨honto, -⟩ := hmove.onto hp
    · exact Or.inl (Or.inr ⟨w, hview.trans hw, hlt⟩)
    · exact Or.inr honto

/-- A view is entered in the moves of a step, or the promise stays; a view that has been accepted
has been promised. -/
theorem Promised.moves (h : s.Promised) (hp : s.Placed) (hmoves : Moves i s s') :
    s'.Promised ∧ (s'.view = s.view ∧ s.proposedVid ≤ s'.proposedVid ∨ s'.Onto s.view.vid) := by
  induction hmoves with
  | refl => exact ⟨h, Or.inl ⟨rfl, le_rfl⟩⟩
  | tail hmoves hmove ih =>
    obtain ⟨h, hstays⟩ := ih
    obtain ⟨hview, hle, haccepted⟩ | ⟨honto, hnone⟩ := hmove.onto (hp.moves hmoves).1
    · refine ⟨fun w hw => (h w (haccepted ▸ hw)).trans hle, ?_⟩
      exact hstays.imp (fun ⟨hview', hle'⟩ => ⟨hview.trans hview', hle'.trans hle⟩)
        fun honto => honto.move (hp.moves hmoves).1 hmove
    · refine ⟨fun w hw => ?_, Or.inr (honto.mono (hp.moves hmoves).2.view)⟩
      cases hnone.symm.trans hw

theorem Bounded.moves (h : s.Bounded x) (hc : s.Charted) (hp : s.Placed)
    (hpulls : ∀ src latest cb, Pulls i src latest cb → latest ≤ x) (hmoves : Moves i s s') :
    s'.Bounded x ∨ s'.Onto s.view.vid := by
  induction hmoves with
  | refl => exact Or.inl h
  | tail hmoves hmove ih =>
    obtain ⟨hp', hadv⟩ := hp.moves hmoves
    obtain h | honto := ih
    · exact (h.move (hc.moves hmoves) hp' hpulls hmove).imp_right (·.mono hadv.view)
    · exact Or.inr (honto.move hp' hmove)

theorem Gone.moves (h : s.Gone v) (hp : s.Placed) (hmoves : Moves i s s') :
    s'.Gone v ∨ s'.Onto s.view.vid := by
  induction hmoves with
  | refl => exact Or.inl h
  | tail hmoves hmove ih =>
    obtain ⟨hp', hadv⟩ := hp.moves hmoves
    obtain h | honto := ih
    · exact (h.move hp' hmove).imp_right (·.mono hadv.view)
    · exact Or.inr (honto.move hp' hmove)

/-- A step that leads into a view leads into one from the promise on. -/
def Honours (s s' : Cohort) : Prop := s'.view = s.view ∨ s.proposedVid ≤ s'.view.vid

theorem Honours.le (h : Honours s s') (honto : s'.Onto s.view.vid) : s.proposedVid ≤ s'.view.vid :=
  h.resolve_left fun heq => absurd (heq ▸ honto.lt) (lt_irrefl _)

/-! ## What an input brings -/

/-- A formation that comes in is logged already, or it is of a view from the promise on and will be
logged. -/
structure Forming (i : Input) (s : Cohort) : Prop where
  initView : ∀ sbp f, i = .call sbp (.initView f) → s.validView = false ∨ s.view.vid < f.view.vid →
    ⟨f.view.vid, 0⟩ ∈ s.log ∨ s.proposedVid ≤ f.view.vid
  replicate : ∀ sbp ra, i = .call sbp (.replicate ra) → ra.vs.ts = 0 →
    ra.vs ∈ s.log ∨ s.committed < ra.vs ∧ s.proposedVid ≤ ra.vs.vid

theorem Gone.begins (h : s.Gone v) (hp : s.Promised) (hs₁ : Begins i s s₁) : s₁.Gone v := by
  obtain h | ⟨w, hw, hlt⟩ := h
  · exact Or.inl (h.mono fun _ => hs₁.mem)
  · cases hs₁ with
    | initiates hstart hs' =>
      obtain ⟨-, -, o, S, -, rfl⟩ := hs'
      exact Or.inr ⟨w, hw, hlt⟩
    | issues hin hmode hvid hprimary hcache hvs hsends =>
      obtain ⟨L, rfl⟩ := hcache.eq
      exact Or.inr ⟨w, hw, hlt⟩
    | accepts hin hfree =>
      have hle := not_lt.mp fun hlt => hfree (Or.inr hlt)
      exact Or.inr ⟨_, rfl, hlt.trans_le ((hp w hw).trans hle)⟩
    | _ => exact Or.inr ⟨w, hw, hlt⟩

theorem Kept.begins (h : s.Kept x v) (hv : v ≤ s.proposedVid) (hp : s.Promised) (hi : Forming i s)
    (hs₁ : Begins i s s₁) : s₁.Kept x v := by
  obtain h | h := h
  · cases hs₁ with
    | stays => exact Or.inl h
    | initiates hstart hs' =>
      obtain ⟨-, -, o, S, hsends, rfl⟩ := hs'
      refine Or.inl ⟨h.log, h.executed, nofun, fun n p vs hcb => h.calls n p vs ?_⟩
      exact hsends.lookup (fun _ => nofun) hcb
    | issues hin hmode => exact absurd hmode h.mode
    | @forms sbp f J hin hnew hprimary hJ =>
      obtain hmem | hle := hi.initView sbp f hin hnew
      · refine Or.inl ⟨fun vs hvs => h.log vs ?_, h.executed, h.mode, h.calls⟩
        obtain rfl | hvs := Keyed.mem_add.mp hvs
        · exact hmem
        · exact hvs
      · exact Or.inr (Or.inl ⟨_, Keyed.mem_add.mpr (Or.inl rfl), hv.trans hle⟩)
    | @logs sbp ra J hin hcheck hlt hnew hJ =>
      by_cases hts : ra.vs.ts = 0
      · obtain hmem | ⟨-, hle⟩ := hi.replicate sbp ra hin hts
        · exact absurd hmem hnew
        · exact Or.inr (Or.inl ⟨_, Keyed.mem_add.mpr (Or.inl rfl), hv.trans hle⟩)
      · exact absurd (hcheck hts).1 h.mode
    | adopts hin hcheck hold => exact Or.inl ⟨h.log, h.executed, h.mode, h.calls⟩
    | @fetches n p vs arg J hin hcb hnew hJ =>
      refine Or.inl ⟨fun w hw => ?_, h.executed, h.mode, fun n p vs hcb =>
        h.calls n p vs (Keyed.lookup_of_lookup_erase hcb)⟩
      obtain rfl | hw := Keyed.mem_add.mp hw
      · exact h.calls n p w hcb
      · exact h.log w hw
    | promises hin hfree hlatest => exact Or.inl ⟨h.log, h.executed, nofun, h.calls⟩
    | accepts hin hfree => exact Or.inl ⟨h.log, h.executed, nofun, h.calls⟩
  · exact Or.inr (h.begins hp hs₁)

/-- A formation that is not committed is logged when it comes in. -/
theorem logged_of_serveReplicate {ra : ReplicateArg} (hts : ra.vs.ts = 0)
    (hlt : s.committed < ra.vs) (hs' : s.serveReplicate sbp ra = some s') : ra.vs ∈ s'.log := by
  have hmoves : ∀ {s₁ s₂ : Cohort} {src : Mid}, ra.vs ∈ s₁.log →
      ({ s₁ with committed := max s₁.committed ra.committed }.advanceExecuted.bind fun s =>
        s.pullLog src ra.vs (.replicate sbp ra.vs)) = some s₂ → ra.vs ∈ s₂.log := by
    intro s₁ s₂ src hmem hs₂
    obtain ⟨s₃, hs₃, hs₂⟩ := Option.bind_eq_some_iff.mp hs₂
    have hall : Moves (.call sbp (.replicate ra)) _ s₂ :=
      (moves_advanceExecuted hs₃).trans (moves_pullLog (.replicate rfl src) hs₂)
    rw [mem_log_iff, hall.entry, ← mem_log_iff]
    exact hmem
  unfold serveReplicate at hs'
  rw [if_neg (not_not.mpr hts)] at hs'
  split at hs'
  · unfold replicated at hs'
    by_cases hmem : ra.vs ∈ s.log
    · rw [if_neg fun h => h.2 hmem] at hs'
      exact hmoves hmem hs'
    · rw [if_pos ⟨hlt, hmem⟩] at hs'
      obtain ⟨s₁, hs₁, hs'⟩ := Option.bind_eq_some_iff.mp hs'
      obtain ⟨J, rfl⟩ := insert_eq hs₁
      exact hmoves (Keyed.mem_add.mpr (Or.inl rfl)) hs'
  · cases hs'

/-- A `REP_NEW_VIEW` is refused, or accepted. -/
theorem serveNewView_cases {nv : NewViewArg} (hi : i = .call sbp (.newView nv))
    (hs' : s.serveNewView sbp nv = some s') : s' = s.answer sbp (.newView false) ∨
      s.proposedVid ≤ nv.view.vid ∧ ∃ s₁, Begins i s s₁ ∧ Moves i s₁ s' ∧
        s₁.acceptedView = some nv.view ∧ (s.Bounded x → s₁.Bounded x) := by
  unfold serveNewView at hs'
  by_cases hreject : s.validView ∧ nv.view.vid < s.view.vid ∨ nv.view.vid < s.proposedVid
  · rw [if_pos hreject] at hs'
    exact Or.inl (Option.some.inj hs').symm
  · have hyield := yieldTo_with (s := s) .viewchange s.proposedVid nv.view.vid
    rw [if_neg hreject, hyield] at hs'
    exact Or.inr ⟨not_lt.mp fun hlt => hreject (Or.inr hlt), _, .accepts hi hreject,
      moves_pullLog (.newView hi) hs', rfl, fun h => ⟨h.log, h.executed, nofun, h.calls⟩⟩

/-- An accepted `REP_NEW_VIEW` pulls the log up to its `latest`. -/
theorem Bounded.serveNewView {nv : NewViewArg} (h : s.Bounded x) (hv : v ≤ s.proposedVid)
    (hc : s.Charted) (hp : s.Placed) (hi : i = .call sbp (.newView nv))
    (hbid : nv.view.vid = v → nv.latest ≤ x) (hs' : s.serveNewView sbp nv = some s') :
    s'.Kept x v ∨ s'.Onto s.view.vid := by
  obtain rfl | ⟨hle, s₁, hs₁, hmoves, haccepted, hbound⟩ := serveNewView_cases (x := x) hi hs'
  · exact Or.inl (Or.inl ⟨h.log, h.executed, h.mode, h.calls⟩)
  · have hleads : ∀ vs arg, Enters i s s₁ vs arg → arg.LeadsTo vs := fun vs arg henters =>
      henters.leadsTo (fun vs arg hbrings => by rw [hi] at hbrings; cases hbrings)
    have hc₁ := hc.begins hleads hs₁
    have hp₁ := hp.begins hleads hs₁
    rw [← hs₁.executed.2.2]
    obtain heq | hlt := (hv.trans hle).eq_or_lt
    · refine ((hbound h).moves hc₁ hp₁ (fun src latest cb hpull => ?_) hmoves).imp_left Or.inl
      cases hpull with
      | replicate hin => cases hi.symm.trans hin
      | newView hin =>
        obtain ⟨-, hin⟩ := Input.call.inj (hi.symm.trans hin)
        exact Call.newView.inj hin ▸ hbid heq.symm
    · exact (Gone.moves (Or.inr ⟨_, haccepted, hlt⟩) hp₁ hmoves).imp_left Or.inr

/-- What is answered with an accept, and the state the cohort is in then. -/
theorem serveViewChange_cases {g : ViewChangeArg} (hs' : s.serveViewChange sbp g = some s')
    (hfree : ¬(s.validView ∧ g.oldview.vid < s.view.vid ∨ g.newvid < s.proposedVid)) :
    s'.log = s.log ∧ s'.executed = s.executed ∧ s'.mode ≠ .active ∧ s'.calls = s.calls ∧
      s'.proposedVid = g.newvid := by
  rw [serveViewChange, if_neg hfree] at hs'
  simp only [Option.bind_eq_bind, Option.bind_eq_some_iff] at hs'
  obtain ⟨vs, -, latest, -, hs'⟩ := hs'
  rw [yieldTo_with] at hs'
  obtain rfl := Option.some.inj hs'
  exact ⟨rfl, rfl, fun hmode => (by cases hmode), rfl, rfl⟩

/-- The promise is kept, and not lowered, in a step that honours it. -/
theorem Promised.handles (h : s.Promised) (hi : Heeds i s) (hp : s.Placed) (hleads : i.Leads)
    (hs' : Handles i s s') (hhonours : Honours s s') :
    s'.Promised ∧ s.proposedVid ≤ s'.proposedVid := by
  obtain ⟨s₁, hs₁, hmoves⟩ := hs'
  obtain ⟨hle₁, h₁⟩ := promised_begins hi h hs₁
  obtain ⟨h', ⟨-, hle⟩ | honto⟩ :=
    h₁.moves (hp.begins (fun _ _ henters => henters.leadsTo hleads) hs₁) hmoves
  · exact ⟨h', hle₁.trans hle⟩
  · rw [hs₁.executed.2.2] at honto
    exact ⟨h', (hhonours.le honto).trans honto.promised⟩

/-- **What is kept is kept in every step** that honours the promise, if the `REP_NEW_VIEW` with the
id `v` do not go beyond the bound. -/
theorem Kept.handle (h : s.Kept x v) (hm : s.Steady) (hv : v ≤ s.proposedVid) (hpr : s.Promised)
    (hc : s.Charted) (hp : s.Placed) (hi : Forming i s) (hleads : i.Leads)
    (hhonours : Honours s s')
    (hbids : ∀ sbp nv, i = .call sbp (.newView nv) → nv.view.vid = v → nv.latest ≤ x)
    (hs' : s.handle i = some s') : s'.Kept x v := by
  suffices hkept : s'.Kept x v ∨ s'.Onto s.view.vid by
    obtain hkept | honto := hkept
    · exact hkept
    · obtain ⟨vs, hvs, hle⟩ := honto.past
      exact Or.inr (Or.inl ⟨vs, hvs, hv.trans ((hhonours.le honto).trans hle)⟩)
  obtain ⟨s₁, hs₁, hmoves⟩ := handles_handle hm hs'
  have henters : ∀ vs arg, Enters i s s₁ vs arg → arg.LeadsTo vs := fun _ _ h => h.leadsTo hleads
  have hc₁ := hc.begins henters hs₁
  have hp₁ := hp.begins henters hs₁
  have hgone : s₁.Gone v → s'.Kept x v ∨ s'.Onto s.view.vid := fun hgone => by
    rw [← hs₁.executed.2.2]
    exact (hgone.moves hp₁ hmoves).imp_left Or.inr
  obtain hbound | hgone' := h
  · have hpulled : (∀ src latest cb, Pulls i src latest cb → latest ≤ x) →
        s'.Kept x v ∨ s'.Onto s.view.vid := fun hpulls => by
      obtain h₁ | h₁ := Kept.begins (Or.inl hbound) hv hpr hi hs₁
      · rw [← hs₁.executed.2.2]
        exact (h₁.moves hc₁ hp₁ hpulls hmoves).imp_left Or.inl
      · exact hgone h₁
    by_cases hrep : ∃ sbp ra, i = .call sbp (.replicate ra)
    · obtain ⟨sbp, ra, rfl⟩ := hrep
      have hmem : ra.vs ∈ s.log → s'.Kept x v ∨ s'.Onto s.view.vid := fun hmem =>
        hpulled fun src latest cb hpull => by
          cases hpull with
          | replicate hin =>
            obtain ⟨-, hin⟩ := Input.call.inj hin
            exact Call.replicate.inj hin ▸ hbound.log _ hmem
          | newView hin => cases hin
      by_cases hts : ra.vs.ts = 0
      · obtain hmem' | ⟨hlt, hle⟩ := hi.replicate sbp ra rfl hts
        · exact hmem hmem'
        · exact Or.inl (Or.inr (Or.inl ⟨_, logged_of_serveReplicate hts hlt hs', hv.trans hle⟩))
      · -- it is ignored outside a view
        have hsame : s.serveReplicate sbp ra = some s := by
          rw [serveReplicate, if_pos hts, if_pos hbound.mode]
        obtain rfl := Option.some.inj (hsame.symm.trans hs')
        exact Or.inl (Or.inl hbound)
    · by_cases hnew : ∃ sbp nv, i = .call sbp (.newView nv)
      · obtain ⟨sbp, nv, rfl⟩ := hnew
        exact hbound.serveNewView hv hc hp rfl (hbids sbp nv rfl) hs'
      · refine hpulled fun src latest cb hpull => ?_
        cases hpull with
        | replicate hin => exact absurd ⟨_, _, hin⟩ hrep
        | newView hin => exact absurd ⟨_, _, hin⟩ hnew
  · exact hgone (hgone'.begins hpr hs₁)

theorem Kept.sent (h : s.Kept x v) : Kept x v { s with out := [] } :=
  h.imp (fun h => ⟨h.log, h.executed, h.mode, h.calls⟩) id

/-! ## The guards, by a look at the log -/

/-- The entries in line after a viewstamp, as far as `n` steps on. -/
def line (s : Cohort) : ℕ → Viewstamp → List Viewstamp
  | 0, _ => []
  | n + 1, u => (s.vsNext u).elim [] fun w => if w ∈ s.log then w :: s.line n w else []

theorem inLine_of_mem_line {u : Viewstamp} (h : vs ∈ s.line n u) : s.InLine u vs := by
  induction n generalizing u with
  | zero => cases h
  | succ n ih =>
    cases hw : s.vsNext u with
    | none =>
      rw [line, hw] at h
      cases h
    | some w =>
      rw [line, hw, Option.elim_some] at h
      split_ifs at h with hmem
      · have hfollows : s.Follows u w := by
          obtain ⟨arg, harg⟩ := mem_log_iff.mp hmem
          exact ⟨hw, by rw [harg]; rfl⟩
        obtain rfl | h := List.mem_cons.mp h
        · exact .single hfollows
        · exact .head hfollows (ih h)
      · cases h

/-- The callback of a `REP_FETCHLOG`. -/
def fetches : Continuation → Bool
  | .fetchlogCb _ _ => true
  | _ => false

/-- The view change an input asks for. -/
def viewChangeOf : Input → Option ViewChangeArg
  | .call _ (.viewChange g) => some g
  | _ => none

/-- The formation an input has the primary log. -/
def initViewOf : Input → Option ViewForm
  | .call _ (.initView f) => some f
  | _ => none

/-- The entry an input has a backup log. -/
def replicateOf : Input → Option ReplicateArg
  | .call _ (.replicate ra) => some ra
  | _ => none

/-- What is asked of the log when an input comes in. -/
def Admits (s : Cohort) (i : Input) : Prop :=
  (∀ g ∈ viewChangeOf i,
    ¬(s.validView ∧ g.oldview.vid < s.view.vid ∨ g.newvid < s.proposedVid) →
      (∀ vs ∈ s.log.keys, vs ≤ s.executed ∨ vs ∈ s.line s.log.size s.executed) ∧
        ∀ n ∈ s.calls.keys, ∀ cb ∈ s.calls.lookup n, fetches cb = false) ∧
  (∀ f ∈ initViewOf i, s.validView = false ∨ s.view.vid < f.view.vid →
    ⟨f.view.vid, 0⟩ ∈ s.log ∨ s.proposedVid ≤ f.view.vid) ∧
  ∀ ra ∈ replicateOf i, ra.vs.ts = 0 →
    ra.vs ∈ s.log ∨ s.committed < ra.vs ∧ s.proposedVid ≤ ra.vs.vid

instance : Decidable (s.Admits i) := instDecidableAnd

instance : Decidable (Honours s s') := instDecidableOr

theorem Admits.forming (h : s.Admits i) : Forming i s := by
  refine ⟨fun sbp f hin => ?_, fun sbp ra hin => ?_⟩
  · exact h.2.1 f (by rw [hin]; rfl)
  · exact h.2.2 ra (by rw [hin]; rfl)

theorem Admits.settled {g : ViewChangeArg} (h : s.Admits (.call sbp (.viewChange g)))
    (hfree : ¬(s.validView ∧ g.oldview.vid < s.view.vid ∨ g.newvid < s.proposedVid)) :
    s.Whole ∧ s.Settles := by
  obtain ⟨hlog, hcalls⟩ := h.1 g rfl hfree
  refine ⟨fun vs hvs => (hlog vs hvs).imp_right inLine_of_mem_line, fun n p vs hcb => ?_⟩
  cases hcalls n (Keyed.mem_of_lookup hcb) _ hcb

end Cohort

end Falcon
