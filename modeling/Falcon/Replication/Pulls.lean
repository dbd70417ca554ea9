import Falcon.Replication.Matching

/-!
# Replication/Pulls — the log of a cohort, and what it asks other cohorts for

A log is executed from the start of a view on, so the entries of the view up to the last one that is
executed are in the log.  A pull asks for the others up to a viewstamp; it is over when all that has
been asked for is in the log, or one call has failed.
-/

namespace Falcon

/-- What a pull has received is part of what it expects, and in the log. -/
structure PullLogState.Sane (pls : PullLogState) (log : Keyed Viewstamp LogEntry) : Prop where
  expected : OrdSet.Sorted pls.ack.expected
  received : OrdSet.Sorted pls.ack.received
  subset : pls.ack.received ⊆ pls.ack.expected
  stored : ∀ vs ∈ pls.ack.received, vs ∈ log

/-- What is expected comes in. -/
theorem PullLogState.Sane.receive {pls : PullLogState} {log log' : Keyed Viewstamp LogEntry}
    {vs : Viewstamp} (h : pls.Sane log) (hlog : ∀ w ∈ log, w ∈ log') (hmem : vs ∈ log')
    (hexp : vs ∈ pls.ack.expected) :
    { pls with ack := { pls.ack with received := pls.ack.received.insert vs } }.Sane log' := by
  refine ⟨h.expected, h.received.insert, fun w hw => ?_, fun w hw => ?_⟩
  · obtain rfl | hw := OrdSet.mem_insert.mp hw
    · exact hexp
    · exact h.subset hw
  · obtain rfl | hw := OrdSet.mem_insert.mp hw
    · exact hmem
    · exact hlog w (h.stored w hw)

namespace Cohort

variable {i : Input} {s s' : Cohort} {vs : Viewstamp} {p q : PullRef}
  {R : Sbp → Viewstamp → Prop}

theorem mem_log_iff : vs ∈ s.log ↔ ∃ arg, s.entry vs = some arg := by
  rw [← not_iff_not, ← entry_eq_none, not_exists]
  exact Option.eq_none_iff_forall_ne_some

/-- The log has the entries of the view of `vs` up to `vs`. -/
def Stored (vs : Viewstamp) (s : Cohort) : Prop := ∀ j ≤ vs.ts, ⟨vs.vid, j⟩ ∈ s.log

instance : Decidable (Stored vs s) :=
  inferInstanceAs (Decidable (∀ j ≤ vs.ts, ⟨vs.vid, j⟩ ∈ s.log))

/-! ## The execution of the log -/

/-- The log up to the last entry that is executed. -/
structure Lined (s : Cohort) : Prop where
  jumps : ∀ u w, s.jumps.lookup u = some w → w.ts = 0
  executed : s.executed = .zero ∨ Stored s.executed s
  /-- Views are counted from `1`. -/
  counter : ∀ vs ∈ s.log, 1 ≤ vs.vid.counter

theorem Stored.congr (hentry : s'.entry = s.entry) (h : Stored vs s) : Stored vs s' := by
  intro j hj
  rw [mem_log_iff, hentry, ← mem_log_iff]
  exact h j hj

/-- The next viewstamp is that of a view, or of an entry of the same view. -/
theorem Lined.vsNext_cases (h : s.Lined) {u w : Viewstamp} (hw : s.vsNext u = some w) :
    w.ts = 0 ∨ w.vid = u.vid ∧ w.ts = u.ts + 1 := by
  unfold vsNext at hw
  split at hw
  · next next hnext =>
    obtain rfl := Option.some.inj hw
    exact Or.inl (h.jumps _ _ hnext)
  · exact Or.inr (ts_succ hw)

/-- The entry that is executed next. -/
theorem Lined.stored_next (h : s.Lined) (hnext : s.vsNext s.executed = some vs)
    (hvs : vs ∈ s.log) : Stored vs s := by
  intro j hj
  have hself : j = vs.ts → ⟨vs.vid, j⟩ ∈ s.log := by
    rintro rfl
    exact hvs
  obtain hts | ⟨hvid, hts⟩ := h.vsNext_cases hnext
  · exact hself (by omega)
  · by_cases heq : j = vs.ts
    · exact hself heq
    · obtain hzero | hstored := h.executed
      · -- nothing is logged in the view that comes before the first one
        have hcounter := h.counter vs hvs
        rw [hvid, hzero] at hcounter
        exact absurd hcounter (by decide)
      · rw [hvid]
        exact hstored j (by omega)

theorem Lined.move (h : s.Lined) (hmove : Move i s s') : s'.Lined := by
  have hmem : ∀ {vs}, vs ∈ s'.log ↔ vs ∈ s.log := fun {vs} => by
    rw [mem_log_iff, mem_log_iff, hmove.entry]
  refine ⟨hmove.jumps ▸ h.jumps, ?_, fun vs hvs => h.counter vs (hmem.mp hvs)⟩
  obtain ⟨hexec, -⟩ | ⟨hnext, -, arg, harg, -⟩ := hmove.executed
  · rw [hexec]
    exact h.executed.imp_right (Stored.congr hmove.entry)
  · exact Or.inr (.congr hmove.entry (h.stored_next hnext (mem_log_iff.mpr ⟨arg, harg⟩)))

/-! ## Pulls -/

/-- A pull asks for what it expects. -/
structure Pulling (s : Cohort) : Prop where
  asked : ∀ n p vs, s.calls.lookup n = some (.fetchlogCb p vs) →
    p < s.nextPull ∧ vs ∈ (s.pulls p).ack.expected
  sane : ∀ p, (s.pulls p).Sane s.log
  unused : ∀ p, s.nextPull ≤ p → (s.pulls p).bottomview = .zero

theorem sane_update {P : PullRef → PullLogState} {pls : PullLogState}
    {log : Keyed Viewstamp LogEntry} (h : ∀ q, (P q).Sane log) (hpls : pls.Sane log)
    (q : PullRef) : (Function.update P p pls q).Sane log := by
  by_cases hq : q = p
  · subst hq
    rwa [Function.update_self]
  · rw [Function.update_of_ne hq]
    exact h q

/-- The pull expects what is missing up to `vs`. -/
def Expects (p : PullRef) (vs : Viewstamp) (s : Cohort) : Prop :=
  ∀ j ≤ vs.ts, ⟨vs.vid, j⟩ ∈ s.log ∨ ⟨vs.vid, j⟩ ∈ (s.pulls p).ack.expected

/-- A pull for a `REP_REPLICATE`, one of `R`, expects the entries up to it. -/
def Expecting (R : Sbp → Viewstamp → Prop) (s : Cohort) : Prop :=
  ∀ p sbp vs, (s.pulls p).donecb = some (.replicate sbp vs) → R sbp vs ∧ Expects p vs s

/-- The callback that runs belongs to something that is expected. -/
def Expected (i : Input) (s : Cohort) : Prop := ∀ n p vs resp,
  i = .callback n (.fetchlogCb p vs) resp → p < s.nextPull ∧ vs ∈ (s.pulls p).ack.expected

/-- Nothing is expected any more that was not, and nothing less. -/
structure Extends (s s' : Cohort) : Prop where
  log : s'.log = s.log
  nextPull : s'.nextPull = s.nextPull
  donecb : ∀ p, (s'.pulls p).donecb = (s.pulls p).donecb
  expected : ∀ p, (s.pulls p).ack.expected ⊆ (s'.pulls p).ack.expected

theorem Extends.refl (s : Cohort) : Extends s s :=
  ⟨rfl, rfl, fun _ => rfl, fun _ => List.Subset.refl _⟩

theorem Extends.trans {s₁ s₂ s₃ : Cohort} (h : Extends s₁ s₂) (h' : Extends s₂ s₃) :
    Extends s₁ s₃ where
  log := h'.log.trans h.log
  nextPull := h'.nextPull.trans h.nextPull
  donecb p := (h'.donecb p).trans (h.donecb p)
  expected p := List.Subset.trans (h.expected p) (h'.expected p)

theorem Extends.expects (h : Extends s s') (hp : Expects p vs s) : Expects p vs s' := fun j hj =>
  (hp j hj).imp (fun hmem => h.log ▸ hmem) fun hmem => h.expected p hmem

theorem extends_pullOne (p : PullRef) (s : Cohort) (vs : Viewstamp) :
    Extends s (s.pullOne p vs) := by
  unfold pullOne
  split_ifs
  · exact .refl s
  · refine ⟨rfl, rfl, fun q => ?_, fun q => ?_⟩
    · simp only [call, setPull, Function.update_apply]
      split_ifs with hq
      · rw [hq]
      · rfl
    · simp only [call, setPull, Function.update_apply]
      split_ifs with hq
      · subst hq
        exact fun w hw => OrdSet.mem_insert.mpr (Or.inr hw)
      · exact List.Subset.refl _

theorem extends_pullUpto (hs' : s.pullUpto p vs = some s') : Extends s s' := by
  obtain ⟨-, rfl⟩ | ⟨-, base, -, rfl⟩ := pullUpto_cases hs'
  · exact .refl _
  · exact Run.foldl_rel Extends.refl (fun _ _ _ => Extends.trans) (extends_pullOne p) _ s

/-- A pull that changes keeps `donecb`. -/
theorem donecb_setPull {pls : PullLogState} (h : pls.donecb = (s.pulls p).donecb) (q : PullRef) :
    ((s.setPull p pls).pulls q).donecb = (s.pulls q).donecb := by
  simp only [setPull, Function.update_apply]
  split_ifs with hq
  · rw [hq, h]
  · rfl

theorem Descends.donecb (h : Descends p s s') (q : PullRef) :
    (s'.pulls q).donecb = (s.pulls q).donecb := by
  cases h with
  | waits hnext hlt hnone => rfl
  | goes hnext hlt hrle hf hs' =>
    rw [(extends_pullUpto hs').donecb, donecb_setPull]
    rfl
  | ends hnext hge =>
    rw [donecb_setPull]
    rfl

theorem pulls_opened {src : Mid} {latest : Viewstamp} {cb : DoneCb} (hq : q ≠ s.nextPull) :
    (s.opened src latest cb).pulls q = s.pulls q := by
  simp only [opened, setPull, Function.update_of_ne hq]

/-- **What waits for a pull** is what waited before, or what the pull has been opened for. -/
theorem Move.donecb (h : Move i s s') {cb : DoneCb} (hcb : (s'.pulls q).donecb = some cb) :
    (s.pulls q).donecb = some cb ∨ ∃ src latest, Pulls i src latest cb := by
  cases h with
  | @pull src latest cb' o k S P hpulls hs' =>
    have hsame : (P q).donecb = ((s.opened src latest cb').pulls q).donecb :=
      (extends_pullUpto hs').donecb q
    by_cases hq : q = s.nextPull
    · subst hq
      refine Or.inr ⟨src, latest, ?_⟩
      simp only [hsame, opened, setPull, Function.update_self] at hcb
      exact Option.some.inj hcb ▸ hpulls
    · rw [hsame, pulls_opened hq] at hcb
      exact Or.inl hcb
  | descend hs' => exact Or.inl (((descends hs').donecb q).symm.trans hcb)
  | @closed p o hend ho =>
    simp only [setPull, Function.update_apply] at hcb
    split_ifs at hcb with hq
    exact Or.inl hcb
  | received hin hmem =>
    refine Or.inl ((Eq.symm ?_).trans hcb)
    rw [donecb_setPull]
    rfl
  | notFetched hin hnew =>
    refine Or.inl ((Eq.symm ?_).trans hcb)
    rw [donecb_setPull]
    rfl
  | _ => exact Or.inl hcb

/-- Nothing is executed as an input is taken in. -/
theorem Begins.executed (h : Begins i s s') :
    s'.executed = s.executed ∧ s'.handed = s.handed ∧ s'.view = s.view := by
  cases h with
  | initiates hstart hs' =>
    obtain ⟨-, -, o, S, -, rfl⟩ := hs'
    exact ⟨rfl, rfl, rfl⟩
  | issues hin hmode hvid hprimary hcache hvs hsends =>
    obtain ⟨L', rfl⟩ := hcache.eq
    exact ⟨rfl, rfl, rfl⟩
  | _ => exact ⟨rfl, rfl, rfl⟩

theorem Begins.pulls (h : Begins i s s') : s'.pulls = s.pulls := by
  cases h with
  | initiates hstart hs' =>
    obtain ⟨-, -, o, S, -, rfl⟩ := hs'
    rfl
  | issues hin hmode hvid hprimary hcache hvs hsends =>
    obtain ⟨L, rfl⟩ := hcache.eq
    rfl
  | _ => rfl

theorem Pulling.one (h : s.Pulling) (hp : p < s.nextPull) (vs : Viewstamp) :
    (s.pullOne p vs).Pulling := by
  have hext := extends_pullOne p s vs
  unfold Cohort.pullOne at hext ⊢
  split_ifs at hext ⊢ with hmem
  · exact h
  · refine ⟨fun n q w hcb => ?_, sane_update h.sane ?_, fun q hq => ?_⟩
    · by_cases hn : n = s.nextCall
      · subst hn
        have heq := Option.some.inj ((AList.lookup_insert _).symm.trans hcb)
        obtain ⟨rfl, rfl⟩ := Continuation.fetchlogCb.inj heq
        refine ⟨hp, ?_⟩
        simp only [call, setPull, Function.update_self]
        exact OrdSet.mem_insert.mpr (Or.inl rfl)
      · obtain ⟨hlt, hw⟩ := h.asked n q w ((AList.lookup_insert_ne hn).symm.trans hcb)
        exact ⟨hlt, hext.expected q hw⟩
    · have hsane := h.sane p
      exact ⟨hsane.expected.insert, hsane.received, fun w hw =>
        OrdSet.mem_insert.mpr (Or.inr (hsane.subset hw)), hsane.stored⟩
    · simp only [call, setPull, Function.update_of_ne (ne_of_gt (lt_of_lt_of_le hp hq))]
      exact h.unused q hq

/-- What is asked for is expected, unless it is in the log. -/
theorem Pulling.all (h : s.Pulling) (vss : List Viewstamp) (hp : p < s.nextPull) :
    (vss.foldl (pullOne p) s).Pulling ∧ Extends s (vss.foldl (pullOne p) s) ∧
      ∀ vs ∈ vss, vs ∈ s.log ∨ vs ∈ ((vss.foldl (pullOne p) s).pulls p).ack.expected := by
  induction vss generalizing s with
  | nil => exact ⟨h, .refl s, nofun⟩
  | cons vs vss ih =>
    have hext := extends_pullOne p s vs
    obtain ⟨h', hext', hvss⟩ := ih (h.one hp vs) (hext.nextPull ▸ hp)
    refine ⟨h', hext.trans hext', fun w hw => ?_⟩
    obtain rfl | hw := List.mem_cons.mp hw
    · by_cases hmem : w ∈ s.log
      · exact Or.inl hmem
      · refine Or.inr (hext'.expected p ?_)
        rw [Cohort.pullOne, if_neg hmem]
        simp only [call, setPull, Function.update_self]
        exact OrdSet.mem_insert.mpr (Or.inl rfl)
    · exact (hvss w hw).imp_left fun hmem => hext.log ▸ hmem

theorem Pulling.upto (h : s.Pulling) (hp : p < s.nextPull) (hs' : s.pullUpto p vs = some s') :
    s'.Pulling ∧ Extends s s' := by
  obtain ⟨-, rfl⟩ | ⟨-, base, -, rfl⟩ := pullUpto_cases hs'
  · exact ⟨h, .refl _⟩
  · obtain ⟨h', hext, -⟩ := h.all (viewstamps base vs) hp
    exact ⟨h', hext⟩

/-- The pulls stay as they are. -/
theorem Pulling.frame (h : s.Pulling) (hlog : ∀ vs ∈ s.log, vs ∈ s'.log)
    (hpulls : s'.pulls = s.pulls) (hnext : s'.nextPull = s.nextPull)
    (hcalls : ∀ n p vs, s'.calls.lookup n = some (.fetchlogCb p vs) →
      s.calls.lookup n = some (.fetchlogCb p vs)) : s'.Pulling := by
  refine ⟨fun n p vs hcb => ?_, fun p => ?_, ?_⟩
  · rw [hpulls, hnext]
    exact h.asked n p vs (hcalls n p vs hcb)
  · rw [hpulls]
    have hsane := h.sane p
    exact ⟨hsane.expected, hsane.received, hsane.subset, fun vs hvs =>
      hlog vs (hsane.stored vs hvs)⟩
  · rw [hpulls, hnext]
    exact h.unused

/-- The pulls of a cohort while it handles an input. -/
structure Fetching (R : Sbp → Viewstamp → Prop) (i : Input) (s : Cohort) : Prop where
  pulling : s.Pulling
  expecting : s.Expecting R
  expected : Expected i s

/-- A pull changes, and expects what it did. -/
theorem Pulling.setPull (h : s.Pulling) (pls : PullLogState) (hpls : pls.Sane s.log)
    (hexpected : pls.ack.expected = (s.pulls p).ack.expected)
    (hbottom : s.nextPull ≤ p → pls.bottomview = .zero) :
    (s.setPull p pls).Pulling ∧
      ∀ q, ((s.setPull p pls).pulls q).ack.expected = (s.pulls q).ack.expected := by
  have hexp : ∀ q, ((s.setPull p pls).pulls q).ack.expected = (s.pulls q).ack.expected := by
    intro q
    simp only [Cohort.setPull, Function.update_apply]
    split_ifs with hq
    · rw [hq, hexpected]
    · rfl
  refine ⟨⟨fun n q vs hcb => ?_, sane_update h.sane hpls, fun q hq => ?_⟩, hexp⟩
  · rw [hexp]
    exact h.asked n q vs hcb
  · simp only [Cohort.setPull, Function.update_apply]
    split_ifs with hqp
    · exact hbottom (hqp ▸ hq)
    · exact h.unused q hq

theorem Pulling.opened (h : s.Pulling) (src : Mid) (latest : Viewstamp) (cb : DoneCb) :
    (s.opened src latest cb).Pulling := by
  refine ⟨fun n q w hcb => ?_, sane_update h.sane ?_, fun q hq => ?_⟩
  · obtain ⟨hlt, hmem⟩ := h.asked n q w hcb
    rw [pulls_opened (ne_of_lt hlt)]
    exact ⟨Nat.lt_succ_of_lt hlt, hmem⟩
  · exact ⟨List.Pairwise.nil, List.Pairwise.nil, nofun, nofun⟩
  · have hlt : s.nextPull < q := hq
    rw [pulls_opened (ne_of_gt hlt)]
    exact h.unused q hlt.le

/-- A new pull; `cb` waits for what is pulled. -/
theorem Fetching.pull (h : Fetching R i s) {src : Mid} {latest : Viewstamp} {cb : DoneCb}
    (hs' : (s.opened src latest cb).pullUpto s.nextPull vs = some s')
    (hcb : ∀ sbp vs, cb = .replicate sbp vs → R sbp vs ∧ Expects s.nextPull vs s') :
    Fetching R i s' := by
  obtain ⟨hpulling', hext⟩ := (h.pulling.opened src latest cb).upto (Nat.lt_succ_self _) hs'
  refine ⟨hpulling', fun q sbp w hdone => ?_, fun n q w resp hin => ?_⟩
  · rw [hext.donecb] at hdone
    by_cases hq : q = s.nextPull
    · subst hq
      simp only [Cohort.opened, Cohort.setPull, Function.update_self] at hdone
      exact hcb sbp w (Option.some.inj hdone)
    · rw [pulls_opened hq] at hdone
      refine (h.expecting q sbp w hdone).imp_right fun hexpects => hext.expects fun j hj => ?_
      rw [pulls_opened hq]
      exact hexpects j hj
  · obtain ⟨hlt, hmem⟩ := h.expected n q w resp hin
    rw [← pulls_opened (ne_of_lt hlt)] at hmem
    exact ⟨hext.nextPull ▸ Nat.lt_succ_of_lt hlt, hext.expected q hmem⟩

theorem Pulling.descend (h : s.Pulling) (hs' : Descends p s s') : s'.Pulling ∧
    s'.nextPull = s.nextPull ∧ s'.log = s.log ∧
      ∀ q, (s.pulls q).ack.expected ⊆ (s'.pulls q).ack.expected := by
  have hsane := h.sane p
  cases hs' with
  | waits hnext hlt hnone => exact ⟨h, rfl, rfl, fun _ => List.Subset.refl _⟩
  | @goes next rle f s' hnext hlt hrle hf hs' =>
    -- a pull that has not been opened has come to the bottom
    have hp : p < s.nextPull := by
      by_contra hge
      rw [h.unused p (not_lt.mp hge)] at hlt
      exact absurd hlt (not_lt.mpr (ViewId.zero_le _))
    obtain ⟨h', hexp⟩ := h.setPull { s.pulls p with bottomview := f.prev.vid }
      ⟨hsane.expected, hsane.received, hsane.subset, hsane.stored⟩ rfl
      fun hge => absurd hp (not_lt.mpr hge)
    obtain ⟨h'', hext⟩ := h'.upto hp hs'
    exact ⟨h'', hext.nextPull, hext.log, fun q => hexp q ▸ hext.expected q⟩
  | ends hnext hge =>
    obtain ⟨h', hexp⟩ := h.setPull { s.pulls p with bottomdone := true }
      ⟨hsane.expected, hsane.received, hsane.subset, hsane.stored⟩ rfl (h.unused p)
    exact ⟨h', rfl, rfl, fun q => (hexp q).symm ▸ List.Subset.refl _⟩

/-- A new pull asks for what is missing. -/
theorem Pulling.pull (h : s.Pulling) {src : Mid} {latest : Viewstamp} {cb : DoneCb}
    (hs' : (s.opened src latest cb).pullUpto s.nextPull vs = some s') :
    s'.Pulling ∧ s'.nextPull = s.nextPull + 1 ∧
      ∀ q, q ≠ s.nextPull → (s.pulls q).ack.expected ⊆ (s'.pulls q).ack.expected := by
  obtain ⟨h', hext⟩ := (h.opened src latest cb).upto (Nat.lt_succ_self _) hs'
  refine ⟨h', hext.nextPull, fun q hq => ?_⟩
  rw [← pulls_opened hq]
  exact hext.expected q

/-- **The pulls ask for what they expect, in every move.** -/
theorem Pulling.move (h : s.Pulling) (hexp : Expected i s) (hmove : Move i s s') :
    s'.Pulling ∧ Expected i s' := by
  have hlog : ∀ vs ∈ s.log, vs ∈ s'.log := fun vs hvs => by
    rwa [mem_log_iff, hmove.entry, ← mem_log_iff]
  have hsame : s'.nextPull = s.nextPull →
      (∀ q, (s.pulls q).ack.expected ⊆ (s'.pulls q).ack.expected) → Expected i s' := by
    intro hnext hsub n p vs resp hin
    obtain ⟨hlt, hmem⟩ := hexp n p vs resp hin
    exact ⟨hnext ▸ hlt, hsub p hmem⟩
  cases hmove with
  | called hin hcb =>
    exact ⟨h.frame hlog rfl rfl fun _ _ _ hcb => Keyed.lookup_of_lookup_erase hcb, hexp⟩
  | replicateForm hin hprimary hmem hsends =>
    refine ⟨h.frame hlog rfl rfl fun n p vs hcb => ?_, hexp⟩
    exact (hsends.calls n _ hcb).resolve_right fun ⟨_, _, _, _, heq⟩ => nomatch heq
  | propose hopen hdone hmaj hmaj' hnone hnv hsends =>
    refine ⟨h.frame hlog rfl rfl fun n p vs hcb => ?_, hexp⟩
    exact (hsends.calls n _ hcb).resolve_right fun ⟨_, _, _, _, heq⟩ => nomatch heq
  | pull hpulls hs' =>
    obtain ⟨h', hnext, hsub⟩ := h.pull hs'
    refine ⟨h', fun n p vs resp hin => ?_⟩
    obtain ⟨hlt, hmem⟩ := hexp n p vs resp hin
    exact ⟨hnext ▸ Nat.lt_succ_of_lt hlt, hsub p (ne_of_lt hlt) hmem⟩
  | descend hs' =>
    obtain ⟨h', hnext, -, hsub⟩ := h.descend (descends hs')
    exact ⟨h', hsame hnext hsub⟩
  | @closed p o hend ho =>
    have hsane := h.sane p
    obtain ⟨h', hexp'⟩ := h.setPull { s.pulls p with donecb := none }
      ⟨hsane.expected, hsane.received, hsane.subset, hsane.stored⟩ rfl (h.unused p)
    exact ⟨h'.frame (fun _ => id) rfl rfl fun _ _ _ => id,
      hsame rfl fun q => (hexp' q).symm ▸ List.Subset.refl _⟩
  | @received n p vs resp hin hmem =>
    obtain ⟨-, hvs⟩ := hexp n p vs resp hin
    obtain ⟨h', hexp'⟩ := h.setPull (p := p) _ ((h.sane p).receive (fun _ => id) hmem hvs) rfl
      (h.unused p)
    exact ⟨h', hsame rfl fun q => (hexp' q).symm ▸ List.Subset.refl _⟩
  | @notFetched n p vs resp hin hnew =>
    have hsane := h.sane p
    obtain ⟨h', hexp'⟩ := h.setPull { s.pulls p with ok := false }
      ⟨hsane.expected, hsane.received, hsane.subset, hsane.stored⟩ rfl (h.unused p)
    exact ⟨h', hsame rfl fun q => (hexp' q).symm ▸ List.Subset.refl _⟩
  | @ask a u w hw hu hnew hopen hcurrent hnone =>
    refine ⟨h.frame hlog rfl rfl fun n p vs hcb => ?_, hexp⟩
    by_cases hn : n = s.nextCall
    · subst hn
      exact nomatch Option.some.inj ((AList.lookup_insert _).symm.trans hcb)
    · exact (AList.lookup_insert_ne hn).symm.trans hcb
  | _ => exact ⟨h.frame hlog rfl rfl fun _ _ _ hcb => hcb, hexp⟩

theorem Expecting.extends (h : s.Expecting R) (hlog : ∀ vs ∈ s.log, vs ∈ s'.log)
    (hdone : ∀ q cb, (s'.pulls q).donecb = some cb → (s.pulls q).donecb = some cb)
    (hsub : ∀ q, (s.pulls q).ack.expected ⊆ (s'.pulls q).ack.expected) : s'.Expecting R :=
  fun p sbp vs hcb => (h p sbp vs (hdone p _ hcb)).imp_right fun hexp j hj =>
    (hexp j hj).imp (hlog _) fun hmem => hsub p hmem

/-- A new pull; `cb` waits for what is pulled. -/
theorem Expecting.pull (h : s.Expecting R) {src : Mid} {latest : Viewstamp} {cb : DoneCb}
    (hs' : (s.opened src latest cb).pullUpto s.nextPull vs = some s')
    (hcb : ∀ sbp vs, cb = .replicate sbp vs → R sbp vs ∧ Expects s.nextPull vs s') :
    s'.Expecting R := by
  have hext := extends_pullUpto hs'
  intro q sbp w hdone
  rw [hext.donecb] at hdone
  by_cases hq : q = s.nextPull
  · subst hq
    simp only [Cohort.opened, Cohort.setPull, Function.update_self] at hdone
    exact hcb sbp w (Option.some.inj hdone)
  · rw [pulls_opened hq] at hdone
    refine (h q sbp w hdone).imp_right fun hexpects => hext.expects fun j hj => ?_
    rw [pulls_opened hq]
    exact hexpects j hj

/-- **The pulls stay as they should in every move** on an input that is no `REP_REPLICATE`. -/
theorem Fetching.move (h : Fetching R i s) (hi : ∀ sbp ra, i ≠ .call sbp (.replicate ra))
    (hmove : Move i s s') : Fetching R i s' := by
  obtain ⟨hpulling, hexpected⟩ := h.pulling.move h.expected hmove
  refine ⟨hpulling, ?_, hexpected⟩
  have hlog : ∀ vs ∈ s.log, vs ∈ s'.log := fun vs hvs => by
    rwa [mem_log_iff, hmove.entry, ← mem_log_iff]
  -- a pull that changes expects what it did
  have hset : ∀ {p} {pls : PullLogState}, pls.ack.expected = (s.pulls p).ack.expected → ∀ q,
      (s.pulls q).ack.expected ⊆ ((s.setPull p pls).pulls q).ack.expected := fun {p pls} heq q => by
    simp only [Cohort.setPull, Function.update_apply]
    split_ifs with hq
    · rw [hq, heq]
      exact List.Subset.refl _
    · exact List.Subset.refl _
  cases hmove with
  | pull hpulls hs' =>
    refine h.expecting.pull hs' fun sbp vs heq => ?_
    cases hpulls with
    | replicate hin => exact absurd hin (hi _ _)
    | newView hin => cases heq
  | descend hs' =>
    obtain ⟨-, -, -, hsub⟩ := h.pulling.descend (descends hs')
    exact h.expecting.extends hlog (fun q cb => ((descends hs').donecb q).symm.trans) hsub
  | @closed p o hend ho =>
    refine h.expecting.extends hlog (fun q cb hcb => ?_) (hset rfl)
    simp only [Cohort.setPull, Function.update_apply] at hcb
    split_ifs at hcb with hq
    exact hcb
  | received hin hmem =>
    exact h.expecting.extends hlog (fun q cb => (donecb_setPull (by rfl) q).symm.trans) (hset rfl)
  | notFetched hin hnew =>
    exact h.expecting.extends hlog (fun q cb => (donecb_setPull (by rfl) q).symm.trans) (hset rfl)
  | _ => exact h.expecting.extends hlog (fun _ _ => id) fun _ => List.Subset.refl _

/-- The acknowledgements a cohort has given are of what is in its log. -/
def Acknowledges (R : Sbp → Viewstamp → Prop) (s : Cohort) : Prop :=
  ∀ sbp vs, .answer sbp (.replicate vs) ∈ s.out → R sbp vs ∧ Stored vs s

/-- **A pull that is over without a failure has all it was opened for.** -/
theorem Fetching.said (h : Fetching R i s) {sbp : Sbp}
    (hsaid : Says i s (.answer sbp (.replicate vs))) : R sbp vs ∧ Stored vs s := by
  generalize hx : Output.answer sbp (.replicate vs) = x at hsaid
  cases hsaid with
  | answer hans => cases hans with | _ => cases hx
  | @pulled p cb hcb hend =>
    have hsane := h.pulling.sane p
    cases hok : (s.pulls p).ok && (s.pulls p).bottomdone with
    | false =>
      rw [hok] at hx
      cases cb with | _ => cases hx
    | true =>
      rw [hok] at hx
      cases cb with
      | newView sbp' => cases hx
      | replicate sbp' vs' =>
        obtain ⟨rfl, hx'⟩ := Output.answer.inj hx
        rw [if_pos rfl] at hx'
        obtain rfl := Answer.replicate.inj hx'
        obtain ⟨hR, hexp⟩ := h.expecting p sbp vs hcb
        have hlen := hend.resolve_left (by rw [(Bool.and_eq_true_iff.mp hok).1]; nofun)
        refine ⟨hR, fun j hj => (hexp j hj).elim id fun hmem => hsane.stored _ ?_⟩
        exact mem_of_length_eq hsane.received hsane.subset hlen.symm hmem
  | _ => cases hx

theorem Fetching.moves (h : Fetching R i s) (hl : s.Lined) (ha : s.Acknowledges R)
    (hi : ∀ sbp ra, i ≠ .call sbp (.replicate ra)) (hmoves : Moves i s s') :
    Fetching R i s' ∧ s'.Lined ∧ s'.Acknowledges R := by
  induction hmoves with
  | refl => exact ⟨h, hl, ha⟩
  | tail _ hmove ih =>
    obtain ⟨h, hl, ha⟩ := ih
    refine ⟨h.move hi hmove, hl.move hmove, fun sbp vs hmem => ?_⟩
    obtain hmem | hsaid := hmove.said hmem
    · exact (ha sbp vs hmem).imp_right (.congr hmove.entry)
    · exact (h.said hsaid).imp_right (.congr hmove.entry)

theorem Pulling.begins (h : s.Pulling) (hs' : Begins i s s') : s'.Pulling := by
  have hlog : ∀ vs ∈ s.log, vs ∈ s'.log := fun vs hvs => by
    obtain ⟨arg, harg⟩ := mem_log_iff.mp hvs
    exact mem_log_iff.mpr ⟨arg, hs'.entry_of_some harg⟩
  cases hs' with
  | initiates hstart hs' =>
    obtain ⟨-, -, o, S, hsends, rfl⟩ := hs'
    refine h.frame hlog rfl rfl fun n p vs hcb => ?_
    exact (hsends.calls n _ hcb).resolve_right fun ⟨_, _, _, _, heq⟩ => nomatch heq
  | issues hin hmode hvid hprimary hcache hvs hsends =>
    obtain ⟨L, rfl⟩ := hcache.eq
    refine h.frame hlog rfl rfl fun n p vs hcb => ?_
    exact (hsends.calls n _ hcb).resolve_right fun ⟨_, _, _, _, heq⟩ => nomatch heq
  | fetches hin hcb hnew hJ =>
    exact h.frame hlog rfl rfl fun _ _ _ hcb => Keyed.lookup_of_lookup_erase hcb
  | _ => exact h.frame hlog rfl rfl fun _ _ _ hcb => hcb

theorem Begins.nextPull (h : Begins i s s') : s'.nextPull = s.nextPull := by
  cases h with
  | initiates hstart hs' =>
    obtain ⟨-, -, o, S, -, rfl⟩ := hs'
    rfl
  | issues hin hmode hvid hprimary hcache hvs hsends =>
    obtain ⟨L, rfl⟩ := hcache.eq
    rfl
  | _ => rfl

theorem Fetching.begins {j : Input} (h : Fetching R j s) (hs' : Begins i s s') :
    Fetching R j s' := by
  refine ⟨h.pulling.begins hs', ?_, fun n p vs resp hin => ?_⟩
  · refine h.expecting.extends (fun vs hvs => ?_) ?_ fun q => ?_
    · obtain ⟨arg, harg⟩ := mem_log_iff.mp hvs
      exact mem_log_iff.mpr ⟨arg, hs'.entry_of_some harg⟩
    · rw [hs'.pulls]
      exact fun _ _ => id
    · rw [hs'.pulls]
      exact List.Subset.refl _
  · rw [hs'.pulls, hs'.nextPull]
    exact h.expected n p vs resp hin

theorem Lined.begins (h : s.Lined) (hs' : Begins i s s')
    (hcounter : ∀ vs ∈ s'.log, 1 ≤ vs.vid.counter) : s'.Lined := by
  refine ⟨fun u w hw => ?_, ?_, hcounter⟩
  · obtain hw | ⟨hts, -⟩ := hs'.jumps_cases hw
    · exact h.jumps u w hw
    · exact hts
  · rw [hs'.executed.1]
    refine h.executed.imp_right fun hstored j hj => ?_
    obtain ⟨arg, harg⟩ := mem_log_iff.mp (hstored j hj)
    exact mem_log_iff.mpr ⟨arg, hs'.entry_of_some harg⟩

/-- No acknowledgement is given before the moves. -/
theorem acknowledges_begins (hquiet : s.out = []) (hs' : Begins i s s') : s'.Acknowledges R := by
  intro sbp vs hmem
  obtain hmem | hopens := hs'.said hmem
  · rw [hquiet] at hmem
    cases hmem
  · cases hopens

theorem pulling_boot (mid : Mid) : (boot mid).Pulling :=
  ⟨nofun, fun _ => ⟨List.Pairwise.nil, List.Pairwise.nil, nofun, nofun⟩, fun _ _ => rfl⟩

/-! ## `REP_REPLICATE` -/

theorem mem_viewstamps {base : Viewstamp} {j : ℕ} (hbase : base.ts ≤ j) (hj : j ≤ vs.ts) :
    ⟨base.vid, j⟩ ∈ viewstamps base vs := by
  refine List.mem_map.mpr ⟨j - base.ts, List.mem_range.mpr (by omega), ?_⟩
  rw [Nat.add_sub_cancel' hbase]

/-- A new pull expects what is missing of the view of `vs`, unless a later view is executed. -/
theorem expects_pullUpto {src : Mid} {cb : DoneCb} (h : Fetching R i s) (hl : s.Lined)
    (hs' : (s.opened src vs cb).pullUpto s.nextPull vs = some s') (hvs : 1 ≤ vs.vid.counter)
    (hlate : vs.vid < s.executed.vid → Stored vs s) : Expects s.nextPull vs s' := by
  obtain ⟨hlt, rfl⟩ | ⟨hle, base, hbase, rfl⟩ := pullUpto_cases hs'
  · exact fun j hj => Or.inl (hlate hlt j hj)
  · obtain ⟨-, hext, hvss⟩ := (h.pulling.opened src vs cb).all (viewstamps base vs)
      (Nat.lt_succ_self _)
    have hasked : ∀ j, base.vid = vs.vid → base.ts ≤ j → j ≤ vs.ts → ⟨vs.vid, j⟩ ∈ s.log ∨
        ⟨vs.vid, j⟩ ∈ (((viewstamps base vs).foldl (pullOne s.nextPull)
          (s.opened src vs cb)).pulls s.nextPull).ack.expected := by
      intro j hvid hbase hj
      have hmem := mem_viewstamps hbase hj
      rw [hvid] at hmem
      exact hvss _ hmem
    refine fun j hj => Or.imp_left (fun hmem => hext.log ▸ hmem) ?_
    split_ifs at hbase with hvid
    · have hvid : vs.vid = s.executed.vid := hvid
      obtain ⟨hsucc, hts⟩ := ts_succ (v := s.executed) hbase
      by_cases hold : j ≤ s.executed.ts
      · obtain hzero | hstored := hl.executed
        · rw [hvid, hzero] at hvs
          exact absurd hvs (by decide)
        · rw [hvid]
          exact Or.inl (hstored j hold)
      · exact hasked j (hsucc.trans hvid.symm) (by omega) hj
    · obtain rfl := Option.some.inj hbase
      exact hasked j rfl (Nat.zero_le j) hj

/-- `REP_REPLICATE` up to `pull_log`. -/
def adopted (ra : ReplicateArg) (s : Cohort) : Option Cohort := do
  let s ← if s.committed < ra.vs ∧ ra.vs ∉ s.log then s.insert ra.vs (.plain ra.arg) else some s
  { s with committed := max s.committed ra.committed }.advanceExecuted

theorem replicated_eq {sbp : Sbp} {src : Mid} {ra : ReplicateArg} : s.replicated sbp src ra =
    (s.adopted ra).bind fun s => s.pullLog src ra.vs (.replicate sbp ra.vs) := by
  unfold replicated adopted
  by_cases hnew : s.committed < ra.vs ∧ ra.vs ∉ s.log
  · rw [if_pos hnew, if_pos hnew]
    simp only [Option.bind_eq_bind, Option.bind_assoc]
  · rw [if_neg hnew, if_neg hnew]
    rfl

theorem serveReplicate_cases {sbp : Sbp} {ra : ReplicateArg}
    (hs' : s.serveReplicate sbp ra = some s') : s' = s ∨ s' = s.answer sbp .error ∨
      ∃ src s₂, s.Checks ra ∧ s.adopted ra = some s₂ ∧
        s₂.pullLog src ra.vs (.replicate sbp ra.vs) = some s' := by
  unfold serveReplicate at hs'
  split_ifs at hs' with hts hmode hprimary hmember
  · exact Or.inl (Option.some.inj hs').symm
  · exact Or.inr (Or.inl (Option.some.inj hs').symm)
  · exact Or.inr (Or.inl (Option.some.inj hs').symm)
  · rw [replicated_eq] at hs'
    obtain ⟨s₂, hs₂, hs'⟩ := Option.bind_eq_some_iff.mp hs'
    exact Or.inr (Or.inr ⟨_, s₂, fun _ => ⟨not_not.mp hmode, hprimary, by simpa using hmember⟩,
      hs₂, hs'⟩)
  · split at hs'
    · rw [replicated_eq] at hs'
      obtain ⟨s₂, hs₂, hs'⟩ := Option.bind_eq_some_iff.mp hs'
      exact Or.inr (Or.inr ⟨_, s₂, fun h => absurd h hts, hs₂, hs'⟩)
    · cases hs'

theorem adopted_moves {j : Input} (sbp : Sbp) {ra : ReplicateArg} (hcheck : s.Checks ra)
    (hs' : s.adopted ra = some s') :
    ∃ s₁, Begins (.call sbp (.replicate ra)) s s₁ ∧ Moves j s₁ s' := by
  unfold adopted at hs'
  by_cases hnew : s.committed < ra.vs ∧ ra.vs ∉ s.log
  · rw [if_pos hnew] at hs'
    obtain ⟨s₁, hs₁, hs'⟩ := Option.bind_eq_some_iff.mp hs'
    obtain ⟨J, rfl⟩ := insert_eq hs₁
    exact ⟨_, .logs rfl hcheck hnew.1 hnew.2 hs₁, moves_advanceExecuted hs'⟩
  · rw [if_neg hnew] at hs'
    exact ⟨_, .adopts rfl hcheck hnew, moves_advanceExecuted hs'⟩

/-- **A `REP_REPLICATE` is acknowledged with its view up to it in the log**, unless a later view is
executed. -/
theorem Fetching.replicated {sbp : Sbp} {src : Mid} {ra : ReplicateArg}
    (h : Fetching R .viewIsDown s) (hl : s.Lined) (ha : s.Acknowledges R) (hR : R sbp ra.vs)
    (hvs : 1 ≤ ra.vs.vid.counter) (hlate : ra.vs.vid < s.executed.vid → Stored ra.vs s)
    (hs' : s.pullLog src ra.vs (.replicate sbp ra.vs) = some s') :
    Fetching R .viewIsDown s' ∧ s'.Lined ∧ s'.Acknowledges R := by
  simp only [pullLog, Option.bind_eq_bind, Option.bind_eq_some_iff] at hs'
  obtain ⟨s₃, hs₃, hs'⟩ := hs'
  have hexp := expects_pullUpto h hl hs₃ hvs hlate
  have h₃ : Fetching R .viewIsDown s₃ := ⟨(h.pulling.pull hs₃).1,
    h.expecting.pull hs₃ fun sbp' vs' heq => by
      obtain ⟨rfl, rfl⟩ := DoneCb.replicate.inj heq
      exact ⟨hR, hexp⟩, fun _ _ _ _ heq => by cases heq⟩
  have hout := (asks_pullUpto hs₃).out
  obtain ⟨o, k, S, P, rfl⟩ := pullUpto_eq hs₃
  refine h₃.moves ⟨hl.jumps, hl.executed, hl.counter⟩ (fun sbp' vs' hmem => ?_)
    (fun _ _ h => by cases h)
    (moves_fetchlogCheck hs')
  obtain hmem | ⟨n, d, vs, heq, -⟩ := hout _ hmem
  · exact ha sbp' vs' hmem
  · cases heq

end Cohort

end Falcon
