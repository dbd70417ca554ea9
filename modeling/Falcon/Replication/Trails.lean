import Falcon.Replication.Promises

/-!
# Replication/Trails — what a pull has asked for, whatever else is logged

While a log is pulled, the cohort goes on: it logs what the primary sends, and it may learn of views
that have nothing to do with the viewstamp the pull is for.  A pull that has come down to the view
`bottomview` has asked for all that is on the chain of that viewstamp down to this view (`Trails`),
as far as the cohort's own log tells the chain; and it comes to the bottom only when what is
executed, or executed next, is of that view or a later one.

* `Trails.descends` — the pull goes down a view, or is at the bottom.
* `Trailing.move` — the pulls have asked for what they should, in every move.
-/

namespace Falcon

namespace Cohort

variable {i : Input} {s s' s₁ : Cohort} {p q : PullRef} {u w l vs latest : Viewstamp}
  {arg : ExecuteArg} {rle : LogEntry} {f : ViewForm} {src : Mid} {cb : DoneCb}

/-! ## The jump table of a log that grows -/

theorem insert_jump_of_some (hs' : s.insert vs rle = some s') (hw : s.jumps.lookup u = some w) :
    ∃ w', s'.jumps.lookup u = some w' ∧ w ≤ w' := by
  obtain ⟨-, rfl⟩ | ⟨-, f, -, rfl⟩ := insert_cases hs'
  · exact ⟨w, hw, le_rfl⟩
  · change ∃ w', (s.jump vs f).jumps.lookup u = some w' ∧ w ≤ w'
    unfold jump
    by_cases hu : u = f.prev
    · subst hu
      rw [hw]
      dsimp only
      split_ifs with hlt
      · exact ⟨vs, AList.lookup_insert _, hlt.le⟩
      · exact ⟨w, hw, le_rfl⟩
    · have hnew : (s.jumps.insert f.prev vs).lookup u = some w :=
        (AList.lookup_insert_ne hu).trans hw
      split
      · exact ⟨w, hnew, le_rfl⟩
      · split_ifs
        · exact ⟨w, hnew, le_rfl⟩
        · exact ⟨w, hw, le_rfl⟩

theorem insert_jump_prev (hs' : s.insert vs rle = some s') (hts : vs.ts = 0)
    (hf : rle.arg.request = .form f) : ∃ w, s'.jumps.lookup f.prev = some w := by
  obtain ⟨hne, -⟩ | ⟨-, g, hg, rfl⟩ := insert_cases hs'
  · exact absurd hts hne
  · obtain rfl := Payload.form.inj (hf.symm.trans hg)
    change ∃ w, (s.jump vs f).jumps.lookup f.prev = some w
    unfold jump
    split
    · exact ⟨vs, AList.lookup_insert _⟩
    · next next hnext =>
      split_ifs
      · exact ⟨vs, AList.lookup_insert _⟩
      · exact ⟨next, hnext⟩

theorem Begins.jumps_of_some (h : Begins i s s₁) (hw : s.jumps.lookup u = some w) :
    ∃ w', s₁.jumps.lookup u = some w' ∧ w ≤ w' := by
  cases h with
  | initiates hstart hs' =>
    obtain ⟨-, -, o, S, -, rfl⟩ := hs'
    exact ⟨w, hw, le_rfl⟩
  | issues hin hmode hvid hprimary hcache hvs hsends =>
    obtain ⟨L, rfl⟩ := hcache.eq
    exact ⟨w, hw, le_rfl⟩
  | forms hin hnew hprimary hJ =>
    obtain ⟨w', hw', hle⟩ := insert_jump_of_some hJ hw
    exact ⟨w', hw', hle⟩
  | logs hin hcheck hlt hnew hJ =>
    obtain ⟨w', hw', hle⟩ := insert_jump_of_some hJ hw
    exact ⟨w', hw', hle⟩
  | fetches hin hcb hnew hJ =>
    obtain ⟨w', hw', hle⟩ := insert_jump_of_some hJ hw
    exact ⟨w', hw', hle⟩
  | _ => exact ⟨w, hw, le_rfl⟩

theorem Begins.mem (h : Begins i s s₁) (hvs : vs ∈ s.log) : vs ∈ s₁.log := by
  obtain ⟨arg, harg⟩ := mem_log_iff.mp hvs
  exact mem_log_iff.mpr ⟨arg, h.entry_of_some harg⟩

/-- What follows a viewstamp is later at most, once more is logged. -/
theorem Begins.vsNext (h : Begins i s s₁)
    (hleads : ∀ vs arg, Enters i s s₁ vs arg → arg.LeadsTo vs) (hw : s.vsNext u = some w) :
    ∃ w', s₁.vsNext u = some w' ∧ w ≤ w' := by
  unfold Cohort.vsNext at hw
  split at hw
  · next next hnext =>
    obtain rfl := Option.some.inj hw
    obtain ⟨w', hw', hle⟩ := h.jumps_of_some hnext
    exact ⟨w', by rw [Cohort.vsNext, hw'], hle⟩
  · next hnone =>
    cases hnew : s₁.jumps.lookup u with
    | none => exact ⟨w, by rw [Cohort.vsNext, hnew, hw], le_rfl⟩
    | some w' =>
      refine ⟨w', by rw [Cohort.vsNext, hnew], ?_⟩
      obtain hold | ⟨hts, arg, f, henters, hf, rfl⟩ := h.jumps_cases hnew
      · exact nomatch hnone.symm.trans hold
      · obtain hlt | ⟨-, hlt⟩ := Viewstamp.lt_iff.mp (hleads _ _ henters hts f hf).1
        · exact (Viewstamp.lt_iff.mpr (Or.inl ((ts_succ hw).1 ▸ hlt))).le
        · rw [hts] at hlt
          exact absurd hlt (Nat.not_lt_zero _)

/-- The jump table is one of the log: it leads on, to entries, from what the formations follow. -/
structure Charted (s : Cohort) : Prop where
  leads : ∀ vs arg, s.entry vs = some arg → arg.LeadsTo vs
  jumps : ∀ u w, s.jumps.lookup u = some w → u < w ∧ w ∈ s.log
  forms : ∀ vs arg f, s.entry vs = some arg → vs.ts = 0 → arg.request = .form f →
    ∃ w, s.jumps.lookup f.prev = some w

theorem Charted.congr (h : s.Charted) (hentry : s'.entry = s.entry) (hjumps : s'.jumps = s.jumps) :
    s'.Charted := by
  refine ⟨hentry ▸ h.leads, fun u w hw => ?_, fun vs arg f harg => ?_⟩
  · rw [mem_log_iff, hentry, ← mem_log_iff]
    exact h.jumps u w (hjumps ▸ hw)
  · rw [hjumps]
    exact h.forms vs arg f (hentry ▸ harg)

theorem Charted.onward (h : s.Charted) : s.Onward := by
  intro u w hw
  unfold Cohort.vsNext at hw
  split at hw
  · next next hnext =>
    obtain rfl := Option.some.inj hw
    exact (h.jumps u next hnext).1
  · exact lt_succ hw

theorem Charted.insert {J : Keyed Viewstamp Viewstamp} (h : s.Charted)
    (harg : rle.arg.LeadsTo vs)
    (hJ : s.insert vs rle = some { s with jumps := J, log := s.log.add vs rle }) :
    Charted { s with jumps := J, log := s.log.add vs rle } := by
  refine ⟨fun w arg hw => ?_, fun u w hw => ?_, fun w arg f hw hts hf => ?_⟩
  · obtain hw | ⟨-, rfl, rfl⟩ := entry_add_cases rfl hw
    · exact h.leads w arg hw
    · exact harg
  · obtain hw | ⟨hts, rfl, f, hf, rfl⟩ := insert_jumps hJ hw
    · exact (h.jumps u w hw).imp_right fun hmem => Keyed.mem_add.mpr (Or.inr hmem)
    · exact ⟨(harg hts f hf).1, Keyed.mem_add.mpr (Or.inl rfl)⟩
  · obtain hw | ⟨-, rfl, rfl⟩ := entry_add_cases rfl hw
    · obtain ⟨w', hw'⟩ := h.forms w arg f hw hts hf
      exact (insert_jump_of_some hJ hw').imp fun _ => And.left
    · exact insert_jump_prev hJ hts hf

theorem Charted.begins (h : s.Charted)
    (hleads : ∀ vs arg, Enters i s s₁ vs arg → arg.LeadsTo vs) (hs₁ : Begins i s s₁) :
    s₁.Charted := by
  cases hs₁ with
  | initiates hstart hs' =>
    obtain ⟨-, -, o, S, -, rfl⟩ := hs'
    exact h.congr rfl rfl
  | @issues sbp arg reply vs o S s₀ hin hmode hvid hprimary hcache hvs hsends =>
    have h₀ : s₀.Charted := h.congr hcache.entry (by obtain ⟨L, rfl⟩ := hcache.eq; rfl)
    have hts : vs.ts ≠ 0 := by
      rw [(ts_succ hvs).2]
      exact Nat.succ_ne_zero _
    exact (h₀.insert (fun hzero => absurd hzero hts) (if_pos hts)).congr rfl rfl
  | forms hin hnew hprimary hJ =>
    exact (h.insert (hleads _ _ (.form hin hprimary rfl)) hJ).congr rfl rfl
  | logs hin hcheck hlt hnew hJ => exact (h.insert (hleads _ _ (.replicate hin)) hJ).congr rfl rfl
  | fetches hin hcb hnew hJ => exact (h.insert (hleads _ _ (.fetch hin hcb)) hJ).congr rfl rfl
  | _ => exact h.congr rfl rfl

/-! ## What a pull has asked for -/

/-- A pull has asked for what is on the chain of what it is for, down to the view it is at; at the
bottom, that is the view of what is executed, or of what is executed next. -/
structure Trails (p : PullRef) (s : Cohort) : Prop where
  bottom : ∃ w, Chain s.entry (s.pulls p).latest w ∧ w.vid = (s.pulls p).bottomview
  covers : ∀ u, Chain s.entry (s.pulls p).latest u → s.executed < u →
    (s.pulls p).bottomview ≤ u.vid → Held p u s
  done : (s.pulls p).bottomdone = true → (s.pulls p).bottomview ≤ s.executed.vid ∨
    ∃ next, s.vsNext s.executed = some next ∧ (s.pulls p).bottomview ≤ next.vid

/-- The pull expects what it did, at least. -/
theorem Trails.keep (h : Trails p s) (hentry : s'.entry = s.entry) (hjumps : s'.jumps = s.jumps)
    (hexec : s'.executed = s.executed) (hlatest : (s'.pulls p).latest = (s.pulls p).latest)
    (hbottom : (s'.pulls p).bottomview = (s.pulls p).bottomview)
    (hdone : (s'.pulls p).bottomdone = (s.pulls p).bottomdone)
    (hexp : (s.pulls p).ack.expected ⊆ (s'.pulls p).ack.expected) : Trails p s' := by
  have hnext : s'.vsNext = s.vsNext := by
    funext u
    rw [Cohort.vsNext, Cohort.vsNext, hjumps]
  refine ⟨?_, fun u hu hlt hle => ?_, ?_⟩
  · rw [hentry, hlatest, hbottom]
    exact h.bottom
  · rw [hentry, hlatest] at hu
    rw [hexec] at hlt
    rw [hbottom] at hle
    refine (h.covers u hu hlt hle).imp (fun hmem => ?_) fun hmem => hexp hmem
    rwa [mem_log_iff, hentry, ← mem_log_iff]
  · rw [hdone, hbottom, hexec, hnext]
    exact h.done

/-- The next entry is executed. -/
theorem Trails.executes (h : Trails p s) (hc : s.Charted)
    (hnext : s.vsNext s.executed = some s'.executed) (hentry : s'.entry = s.entry)
    (hpulls : s'.pulls = s.pulls) : Trails p s' := by
  have hlt : s.executed < s'.executed := hc.onward _ _ hnext
  refine ⟨?_, fun u hu hlt' hle => ?_, fun hdone => Or.inl ?_⟩
  · rw [hentry, hpulls]
    exact h.bottom
  · rw [hentry, hpulls] at hu
    rw [hpulls] at hle
    refine (h.covers u hu (hlt.trans hlt') hle).imp (fun hmem => ?_) fun hmem => ?_
    · rwa [mem_log_iff, hentry, ← mem_log_iff]
    · rwa [hpulls]
  · rw [hpulls] at hdone ⊢
    obtain hle | ⟨next, hnext', hle⟩ := h.done hdone
    · exact hle.trans (Viewstamp.vid_le hlt.le)
    · obtain rfl := Option.some.inj (hnext.symm.trans hnext')
      exact hle

/-- More is logged. -/
theorem Trails.begins (h : Trails p s) (hc : s₁.Charted)
    (hleads : ∀ vs arg, Enters i s s₁ vs arg → arg.LeadsTo vs) (hs₁ : Begins i s s₁) :
    Trails p s₁ := by
  have hgrow : ∀ vs arg, s.entry vs = some arg → s₁.entry vs = some arg := fun _ _ harg =>
    hs₁.entry_of_some harg
  obtain ⟨w, hw, hvid⟩ := h.bottom
  refine ⟨⟨w, ?_, ?_⟩, fun u hu hlt hle => ?_, ?_⟩
  · rw [hs₁.pulls]
    exact hw.grow hgrow
  · rw [hs₁.pulls]
    exact hvid
  · rw [hs₁.pulls] at hu hle
    rw [hs₁.executed.1] at hlt
    have hold := Chain.of_grown hc.leads hgrow hw hu (hvid ▸ hle)
    refine (h.covers u hold hlt hle).imp hs₁.mem fun hmem => ?_
    rwa [hs₁.pulls]
  · rw [hs₁.pulls, hs₁.executed.1]
    refine fun hdone => (h.done hdone).imp id fun ⟨next, hnext, hle⟩ => ?_
    obtain ⟨next', hnext', hle'⟩ := hs₁.vsNext hleads hnext
    exact ⟨next', hnext', hle.trans (Viewstamp.vid_le hle')⟩

/-- The pull asks for the view of `w`, where the chain goes on. -/
theorem Trails.upto (hw : Chain s.entry (s.pulls p).latest w)
    (hbottom : (s.pulls p).bottomview = w.vid)
    (hcovers : ∀ u, Chain s.entry (s.pulls p).latest u → s.executed < u → w.vid ≤ u.vid →
      u ≤ w ∨ Held p u s)
    (hdone : (s.pulls p).bottomdone = true → (s.pulls p).bottomview ≤ s.executed.vid ∨
      ∃ next, s.vsNext s.executed = some next ∧ (s.pulls p).bottomview ≤ next.vid)
    (hs' : s.pullUpto p w = some s') : Trails p s' := by
  obtain ⟨vss, hwants, hvss⟩ := wants_pullUpto hs'
  obtain ⟨E, hE⟩ := hwants.pull
  have hexp := hwants.expected
  obtain ⟨o, k, S, P, rfl⟩ := hwants.eq
  have hE : P p = _ := hE
  refine ⟨⟨w, ?_, ?_⟩, fun u hu hlt hle => ?_, ?_⟩
  · change Chain s.entry (P p).latest w
    rw [hE]
    exact hw
  · change w.vid = (P p).bottomview
    rw [hE]
    exact hbottom.symm
  · change Chain s.entry (P p).latest u at hu
    change (P p).bottomview ≤ u.vid at hle
    rw [hE] at hu hle
    rw [show (s.pulls p).bottomview = w.vid from hbottom] at hle
    obtain hle' | hheld := hcovers u hu hlt hle
    · by_cases hmem : u ∈ s.log
      · exact Or.inl hmem
      · have hvid : u.vid = w.vid := le_antisymm (Viewstamp.vid_le hle') hle
        have hts : u.ts ≤ w.ts := by
          obtain (hlt | ⟨-, hlt⟩) | rfl := Viewstamp.le_iff.mp hle'
          · exact absurd hvid (ne_of_lt hlt)
          · exact hlt.le
          · exact le_rfl
        exact Or.inr ((hexp u).mpr (Or.inr ⟨(hvss u).mpr ⟨hvid, hts, hlt⟩, hmem⟩))
    · exact hheld.imp id fun hmem => (hexp u).mpr (Or.inl hmem)
  · change (P p).bottomdone = true → (P p).bottomview ≤ s.executed.vid ∨
      ∃ next, s.vsNext s.executed = some next ∧ (P p).bottomview ≤ next.vid
    rw [hE]
    exact hdone

/-- A pull is opened. -/
theorem trails_opened (hc : s.Charted)
    (hs' : (s.opened src latest cb).pullUpto s.nextPull latest = some s') :
    Trails s.nextPull s' := by
  have hnew : (s.opened src latest cb).pulls s.nextPull =
      ⟨⟨[], []⟩, latest.vid, src, some cb, true, false, latest⟩ := pulls_setPull
  refine Trails.upto (s := s.opened src latest cb) ?_ ?_ (fun u hu _ _ => Or.inl ?_) ?_ hs'
  · rw [hnew]
  · rw [hnew]
  · rw [hnew] at hu
    exact Chain.le hc.leads hu
  · rw [hnew]
    nofun

/-- **The pull goes down a view, or is at the bottom.** -/
theorem Trails.descends (h : Trails p s) (hc : s.Charted) (hs' : Descends p s s') :
    Trails p s' := by
  cases hs' with
  | waits hnext hlt hnone => exact h
  | @ends next hnext hge =>
    refine ⟨?_, fun u => ?_, fun _ => Or.inr ⟨next, hnext, ?_⟩⟩
    · rw [pulls_setPull]
      exact h.bottom
    · unfold Held
      rw [pulls_setPull]
      exact h.covers u
    · rw [pulls_setPull]
      exact not_lt.mp hge
  | @goes next rle f s' hnext hlt hrle hf hs' =>
    obtain ⟨w, hw, hvid⟩ := h.bottom
    have hentry : s.entry ⟨(s.pulls p).bottomview, 0⟩ = some rle.arg :=
      entry_eq_some.mpr ⟨rle, hrle, rfl⟩
    have hB : Chain s.entry (s.pulls p).latest ⟨(s.pulls p).bottomview, 0⟩ := by
      rw [← hvid]
      exact Chain.down (k := w.ts) hw (Nat.zero_le _)
    have hbefore := before_form (T := s.entry) rfl hentry hf
    have hlead := (hc.leads _ _ hentry rfl f hf).1
    have hself : (s.setPull p { s.pulls p with bottomview := f.prev.vid }).pulls p =
        { s.pulls p with bottomview := f.prev.vid } := pulls_setPull
    refine Trails.upto (s := s.setPull p { s.pulls p with bottomview := f.prev.vid })
      ?_ ?_ (fun u hu hlt' hle => ?_) ?_ hs'
    · rw [hself]
      exact hB.tail hbefore
    · rw [hself]
    · rw [hself] at hu
      by_cases hhigh : (s.pulls p).bottomview ≤ u.vid
      · refine Or.inr ((h.covers u hu hlt' hhigh).imp id fun hmem => ?_)
        rw [hself]
        exact hmem
      · refine Or.inl (Chain.below hc.leads hB hu ?_ hbefore)
        exact Viewstamp.lt_iff.mpr (Or.inl (not_le.mp hhigh))
    · rw [hself]
      refine fun hdone => (h.done hdone).imp (le_trans (Viewstamp.vid_le hlead.le)) ?_
      exact fun ⟨next, hnext, hle⟩ => ⟨next, hnext, (Viewstamp.vid_le hlead.le).trans hle⟩

theorem pulls_descends_ne (hs' : Descends p s s') (hq : q ≠ p) : s'.pulls q = s.pulls q := by
  cases hs' with
  | waits hnext hlt hnone => rfl
  | goes hnext hlt hrle hf hs' =>
    exact (pulls_pullUpto_ne hs' hq).trans (Function.update_of_ne hq _ _)
  | ends hnext hge => exact Function.update_of_ne hq _ _

/-! ## Runs -/

/-- The pulls of a cohort, and the log they are for. -/
structure Trailing (s : Cohort) : Prop where
  charted : s.Charted
  pulling : s.Pulling
  trails : ∀ p < s.nextPull, Trails p s

/-- The pulls stay as they are. -/
theorem Trailing.frame (h : s.Trailing) (hs' : s'.Pulling) (hentry : s'.entry = s.entry)
    (hjumps : s'.jumps = s.jumps) (hexec : s'.executed = s.executed) (hpulls : s'.pulls = s.pulls)
    (hnext : s'.nextPull = s.nextPull) : s'.Trailing := by
  refine ⟨h.charted.congr hentry hjumps, hs', fun p hp => ?_⟩
  refine (h.trails p (hnext ▸ hp)).keep hentry hjumps hexec ?_ ?_ ?_ ?_
  · rw [hpulls]
  · rw [hpulls]
  · rw [hpulls]
  · rw [hpulls]
    exact List.Subset.refl _

/-- A pull changes; it is where it was. -/
theorem Trails.setPull (h : Trails q s) {pls : PullLogState}
    (hlatest : pls.latest = (s.pulls p).latest) (hbottom : pls.bottomview = (s.pulls p).bottomview)
    (hdone : pls.bottomdone = (s.pulls p).bottomdone)
    (hexp : pls.ack.expected = (s.pulls p).ack.expected) : Trails q (s.setPull p pls) := by
  obtain rfl | hq := eq_or_ne q p
  · have hself : (s.setPull q pls).pulls q = pls := pulls_setPull
    refine h.keep rfl rfl rfl ?_ ?_ ?_ ?_
    · rw [hself, hlatest]
    · rw [hself, hbottom]
    · rw [hself, hdone]
    · rw [hself, hexp]
      exact List.Subset.refl _
  · have hold : (s.setPull p pls).pulls q = s.pulls q := Function.update_of_ne hq _ _
    refine h.keep rfl rfl rfl ?_ ?_ ?_ ?_
    · rw [hold]
    · rw [hold]
    · rw [hold]
    · rw [hold]
      exact List.Subset.refl _

/-- **The pulls have asked for what they should, in every move.** -/
theorem Trailing.move (h : s.Trailing) (hexp : Expected i s) (hmove : Move i s s') :
    s'.Trailing := by
  have hentry := hmove.entry
  have hcharted := h.charted.congr hentry hmove.jumps
  have hpulling := (h.pulling.move hexp hmove).1
  have hexecutes : s.vsNext s.executed = some s'.executed → s'.pulls = s.pulls →
      s'.nextPull = s.nextPull → s'.Trailing := fun hnext hpulls hsame =>
    ⟨hcharted, hpulling, fun p hp =>
      (h.trails p (hsame ▸ hp)).executes h.charted hnext hentry hpulls⟩
  cases hmove with
  | run hvs hle hrle hts => exact hexecutes hvs rfl rfl
  | enter hvs hle hrle hts hf => exact hexecutes hvs rfl rfl
  | @pull src latest cb o k S P hpulls hs' =>
    refine ⟨hcharted, hpulling, fun p hp => ?_⟩
    obtain rfl | hne := eq_or_ne p s.nextPull
    · exact trails_opened h.charted hs'
    · have hold : P p = s.pulls p := (pulls_pullUpto_ne hs' hne).trans (pulls_opened hne)
      refine (h.trails p (lt_of_le_of_ne (Nat.le_of_lt_succ hp) hne)).keep rfl rfl rfl ?_ ?_ ?_ ?_
      · exact congrArg _ hold
      · exact congrArg _ hold
      · exact congrArg _ hold
      · exact (congrArg (fun pls => pls.ack.expected) hold) ▸ List.Subset.refl _
  | @descend q o k S P hs' =>
    refine ⟨hcharted, hpulling, fun p hp => ?_⟩
    obtain rfl | hne := eq_or_ne p q
    · exact (h.trails p hp).descends h.charted (Cohort.descends hs')
    · have hold : P p = s.pulls p := pulls_descends_ne (Cohort.descends hs') hne
      refine (h.trails p hp).keep rfl rfl rfl ?_ ?_ ?_ ?_
      · exact congrArg _ hold
      · exact congrArg _ hold
      · exact congrArg _ hold
      · exact (congrArg (fun pls => pls.ack.expected) hold) ▸ List.Subset.refl _
  | @closed q o hend ho =>
    refine ⟨hcharted, hpulling, fun p hp => ?_⟩
    have h' : Trails p (s.setPull q { s.pulls q with donecb := none }) :=
      (h.trails p hp).setPull rfl rfl rfl rfl
    exact h'.keep rfl rfl rfl rfl rfl rfl (List.Subset.refl _)
  | received hin hmem =>
    exact ⟨hcharted, hpulling, fun p hp => (h.trails p hp).setPull rfl rfl rfl rfl⟩
  | notFetched hin hnew =>
    exact ⟨hcharted, hpulling, fun p hp => (h.trails p hp).setPull rfl rfl rfl rfl⟩
  | _ => exact h.frame hpulling hentry rfl rfl rfl rfl

theorem Trailing.handles (h : s.Trailing) (hi : i.Leads) (hs' : Handles i s s')
    (hasked : Expected i s) : s'.Trailing := by
  obtain ⟨s₁, hs₁, hmoves⟩ := hs'
  have hleads : ∀ vs arg, Enters i s s₁ vs arg → arg.LeadsTo vs := fun _ _ hvs => hvs.leadsTo hi
  have hcharted := h.charted.begins hleads hs₁
  have h₁ : s₁.Trailing := ⟨hcharted, h.pulling.begins hs₁, fun p hp =>
    (h.trails p (hs₁.nextPull ▸ hp)).begins hcharted hleads hs₁⟩
  have hexp : Expected i s₁ := fun n p vs resp hin => by
    rw [hs₁.pulls, hs₁.nextPull]
    exact hasked n p vs resp hin
  have hboth : s'.Trailing ∧ Expected i s' := by
    induction hmoves with
    | refl => exact ⟨h₁, hexp⟩
    | tail _ hmove ih => exact ⟨ih.1.move ih.2 hmove, (ih.1.pulling.move ih.2 hmove).2⟩
  exact hboth.1

/-- What a cohort has sent is no part of it. -/
theorem Trailing.sent (h : s.Trailing) : Trailing { s with out := [] } :=
  h.frame (h.pulling.frame (fun _ => id) rfl rfl fun _ _ _ => id) rfl rfl rfl rfl rfl

theorem trailing_founder (mid : Mid) : (founder mid).Trailing := by
  have hplaced := placed_founder mid
  refine ⟨⟨hplaced.leads, fun u w hw => ?_, fun vs arg f harg hts hf => ?_⟩, ?_, nofun⟩
  · obtain ⟨rfl, rfl⟩ := Group.jumps_founder.mp hw
    refine ⟨?_, mem_log_iff.mpr ⟨_, Group.entry_founder.mpr ⟨rfl, rfl⟩⟩⟩
    exact (hplaced.leads _ _ (Group.entry_founder.mpr ⟨rfl, rfl⟩) rfl _ rfl).1
  · obtain ⟨rfl, rfl⟩ := Group.entry_founder.mp harg
    obtain rfl := Payload.form.inj hf
    exact ⟨_, Group.jumps_founder.mpr ⟨rfl, rfl⟩⟩
  · exact ⟨nofun, fun _ => ⟨List.Pairwise.nil, List.Pairwise.nil, nofun, nofun⟩, fun _ _ => rfl⟩

theorem trailing_boot (mid : Mid) : (boot mid).Trailing :=
  ⟨⟨nofun, nofun, nofun⟩, pulling_boot mid, nofun⟩

end Cohort

end Falcon
