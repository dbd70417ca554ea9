import Falcon.Replication.Checks
import Mathlib.Data.Prod.Lex

/-!
# Replication/Outcomes — what a pull of the log ends with

The source answers all calls of a pull.  Each answer has the pull checked once, and a check goes
down one view at most, or finds that the pull is at the bottom: so a pull can run out of calls above
the bottom (`Stuck`), and ends with `false` though nothing is missing.  Whether it does depends on
the order of the answers.

* `pull_outcome_iff` — the answers come to an end, and the pull ends with `true` iff it was never
  stuck.
* `pull_outcome_by_order` — two orders of the same answers, and two outcomes.
-/

namespace Falcon

/-- A descending sequence of views comes to an end. -/
instance ViewId.wellFoundedLT : WellFoundedLT ViewId := by
  refine ⟨Subrelation.wf (r := InvImage (Prod.Lex (· < ·) (· < ·)) fun v : ViewId =>
    (v.counter, v.manager)) (fun {a b} h => ?_) (InvImage.wf _
      (Prod.lex Nat.lt_wfRel Nat.lt_wfRel).wf)⟩
  obtain hlt | ⟨heq, hlt⟩ := ViewId.lt_iff.mp h
  · exact Prod.Lex.left _ _ hlt
  · change Prod.Lex _ _ (a.counter, _) (b.counter, _)
    rw [heq]
    exact Prod.Lex.right _ hlt

namespace Cohort

variable {s s' s₁ s₂ t : Cohort} {p : PullRef} {n : ℕ} {u w vs latest : Viewstamp} {v : ViewId}
  {arg : ExecuteArg} {resp : Option ExecuteArg} {T : Viewstamp → Option ExecuteArg} {cb : DoneCb}

/-! ## The calls of a pull -/

/-- The calls of the pull `p`: there is one for each entry that is expected and has not come. -/
structure Awaits (p : PullRef) (s : Cohort) : Prop where
  numbered : ∀ n k, s.calls.lookup n = some k → n < s.nextCall
  pending : ∀ n vs, s.calls.lookup n = some (.fetchlogCb p vs) →
    vs ∈ (s.pulls p).ack.expected ∧ vs ∉ (s.pulls p).ack.received
  once : ∀ n n' vs, s.calls.lookup n = some (.fetchlogCb p vs) →
    s.calls.lookup n' = some (.fetchlogCb p vs) → n = n'
  awaited : ∀ vs ∈ (s.pulls p).ack.expected, vs ∉ (s.pulls p).ack.received →
    ∃ n, s.calls.lookup n = some (.fetchlogCb p vs)

theorem Awaits.congr (h : s.Awaits p) (hcalls : s'.calls = s.calls)
    (hnext : s'.nextCall = s.nextCall) (hack : (s'.pulls p).ack = (s.pulls p).ack) :
    s'.Awaits p := by
  refine ⟨?_, ?_, ?_, ?_⟩
  · rw [hcalls, hnext]
    exact h.numbered
  · rw [hcalls, hack]
    exact h.pending
  · rw [hcalls]
    exact h.once
  · rw [hcalls, hack]
    exact h.awaited

/-- An entry that is missing, and has not been asked for, is asked for. -/
theorem Awaits.one (h : s.Awaits p) (hnew : vs ∉ s.log → vs ∉ (s.pulls p).ack.expected)
    (hstored : ∀ w ∈ (s.pulls p).ack.received, w ∈ s.log) : (s.pullOne p vs).Awaits p := by
  unfold pullOne
  split_ifs with hmem
  · exact h
  · have hcases : ∀ {n k}, ((s.setPull p { s.pulls p with ack :=
        { (s.pulls p).ack with expected := (s.pulls p).ack.expected.insert vs } }).call
          (s.pulls p).src (.fetchlog vs) (some (.fetchlogCb p vs))).calls.lookup n = some k →
        n = s.nextCall ∧ k = .fetchlogCb p vs ∨ n ≠ s.nextCall ∧ s.calls.lookup n = some k := by
      intro n k hk
      by_cases hn : n = s.nextCall
      · subst hn
        exact Or.inl ⟨rfl, Option.some.inj (hk.symm.trans (AList.lookup_insert _))⟩
      · exact Or.inr ⟨hn, (AList.lookup_insert_ne hn).symm.trans hk⟩
    refine ⟨fun n k hk => ?_, fun n w hcb => ?_, fun n n' w hcb hcb' => ?_, fun w hw hnot => ?_⟩
    · obtain ⟨rfl, -⟩ | ⟨-, hk⟩ := hcases hk
      · exact Nat.lt_succ_self _
      · exact Nat.lt_succ_of_lt (h.numbered n k hk)
    · simp only [call, setPull, Function.update_self]
      rw [OrdSet.mem_insert]
      obtain ⟨-, heq⟩ | ⟨-, hcb⟩ := hcases hcb
      · obtain ⟨-, rfl⟩ := Continuation.fetchlogCb.inj heq
        exact ⟨Or.inl rfl, fun hrec => hmem (hstored w hrec)⟩
      · exact (h.pending n w hcb).imp_left Or.inr
    · obtain ⟨rfl, heq⟩ | ⟨-, hold⟩ := hcases hcb
      · obtain ⟨rfl, -⟩ | ⟨-, hold⟩ := hcases hcb'
        · rfl
        · obtain ⟨-, rfl⟩ := Continuation.fetchlogCb.inj heq
          exact absurd (h.pending n' w hold).1 (hnew hmem)
      · obtain ⟨rfl, heq⟩ | ⟨-, hold'⟩ := hcases hcb'
        · obtain ⟨-, rfl⟩ := Continuation.fetchlogCb.inj heq
          exact absurd (h.pending n w hold).1 (hnew hmem)
        · exact h.once n n' w hold hold'
    · simp only [call, setPull, Function.update_self] at hw hnot
      obtain rfl | hw := OrdSet.mem_insert.mp hw
      · exact ⟨s.nextCall, AList.lookup_insert _⟩
      · obtain ⟨n, hn⟩ := h.awaited w hw hnot
        exact ⟨n, (AList.lookup_insert_ne (ne_of_lt (h.numbered n _ hn))).trans hn⟩

theorem Awaits.all {vss : List Viewstamp} (h : s.Awaits p) (hnodup : vss.Nodup)
    (hnew : ∀ vs ∈ vss, vs ∉ s.log → vs ∉ (s.pulls p).ack.expected)
    (hstored : ∀ w ∈ (s.pulls p).ack.received, w ∈ s.log) : (vss.foldl (pullOne p) s).Awaits p := by
  induction vss generalizing s with
  | nil => exact h
  | cons vs vss ih =>
    obtain ⟨hvs, hnodup⟩ := List.nodup_cons.mp hnodup
    have hone : Wants p [vs] s (s.pullOne p vs) := wants_foldl p [vs] s
    obtain ⟨o, k, S, P, heq⟩ := hone.eq
    have hlog : (s.pullOne p vs).log = s.log := by rw [heq]
    obtain ⟨E, hE⟩ := hone.pull
    rw [List.foldl_cons]
    refine ih (h.one (hnew vs List.mem_cons_self) hstored) hnodup (fun w hw hmem hexp => ?_)
      fun w hw => ?_
    · rw [hlog] at hmem
      obtain hexp | ⟨heq, -⟩ := (hone.expected w).mp hexp
      · exact hnew w (List.mem_cons_of_mem _ hw) hmem hexp
      · exact hvs (List.mem_singleton.mp heq ▸ hw)
    · rw [hlog]
      rw [hE] at hw
      exact hstored w hw

theorem nodup_viewstamps {base : Viewstamp} : (viewstamps base latest).Nodup := by
  refine List.Nodup.map (fun i j hij => ?_) List.nodup_range
  have := (Viewstamp.mk.inj hij).2
  omega

/-- The view of `latest` is asked for. -/
theorem Awaits.upto (h : s.Awaits p) (hnew : ∀ vs ∈ (s.pulls p).ack.expected, vs.vid ≠ latest.vid)
    (hstored : ∀ w ∈ (s.pulls p).ack.received, w ∈ s.log)
    (hs' : s.pullUpto p latest = some s') : s'.Awaits p := by
  obtain ⟨-, rfl⟩ | ⟨-, base, hbase, rfl⟩ := pullUpto_cases hs'
  · exact h
  · refine h.all nodup_viewstamps (fun vs hvs _ hexp => ?_) hstored
    refine hnew vs hexp ((mem_viewstamps_iff.mp hvs).1.trans ?_)
    split_ifs at hbase with hvid
    · exact (ts_succ hbase).1.trans hvid.symm
    · rw [← Option.some.inj hbase]

/-! ## A pull whose calls succeed -/

/-- A pull none of whose calls has failed: it asks for views from `bottomview` on, and once it is at
the bottom it stays there. -/
structure Underway (p : PullRef) (s : Cohort) : Prop where
  tabled : s.Tabled
  awaits : s.Awaits p
  sane : (s.pulls p).Sane s.log
  ok : (s.pulls p).ok = true
  above : ∀ vs ∈ (s.pulls p).ack.expected, (s.pulls p).bottomview ≤ vs.vid
  head : s.executed < ⟨(s.pulls p).bottomview, 0⟩ → Held p ⟨(s.pulls p).bottomview, 0⟩ s
  bottom : (s.pulls p).bottomdone = true → (s.pulls p).bottomview ≤ s.executed.vid ∨
    ∃ w, s.jumps.lookup s.executed = some w ∧ (s.pulls p).bottomview ≤ w.vid

/-- At the bottom, what is executed next is not of an earlier view. -/
theorem Underway.le_next (h : Underway p s) (hdone : (s.pulls p).bottomdone = true)
    (hw : s.vsNext s.executed = some w) : (s.pulls p).bottomview ≤ w.vid := by
  obtain hle | ⟨w', hw', hle⟩ := h.bottom hdone
  · exact hle.trans (Viewstamp.vid_le (h.tabled.lt hw).le)
  · unfold Cohort.vsNext at hw
    rw [hw'] at hw
    exact Option.some.inj hw ▸ hle

theorem Underway.executes (h : Underway p s) (he : Executes s s') : Underway p s' := by
  have hle := he.le h.tabled
  have hsane : (s'.pulls p).Sane s'.log := by
    rw [he.pulls]
    exact ⟨h.sane.expected, h.sane.received, h.sane.subset,
      fun vs hvs => he.mem.mpr (h.sane.stored vs hvs)⟩
  refine ⟨h.tabled.congr he.entry he.jumps, h.awaits.congr he.calls he.nextCall (by rw [he.pulls]),
    hsane, ?_, ?_, fun hlt => ?_, fun hdone => ?_⟩
  · rw [he.pulls]
    exact h.ok
  · rw [he.pulls]
    exact h.above
  · unfold Held
    rw [he.pulls] at hlt ⊢
    rw [he.mem]
    exact h.head (lt_of_le_of_lt hle hlt)
  · rw [he.pulls] at hdone ⊢
    obtain heq | ⟨next, hnext, hrest⟩ := he.walk.cases_head
    · rw [← heq, he.jumps]
      exact h.bottom hdone
    · -- what is executed now is not before what was executed next
      have hexec : next ≤ s'.executed := by
        generalize s'.executed = u at hrest
        induction hrest with
        | refl => exact le_rfl
        | tail _ hstep ih => exact ih.trans (h.tabled.lt hstep).le
      exact Or.inl ((h.le_next hdone hnext).trans (Viewstamp.vid_le hexec))

/-- A jump is changed to a later view only. -/
theorem jumps_insert {rle : LogEntry} (hs' : s.insert vs rle = some s')
    (hw : s.jumps.lookup u = some w) : ∃ w', s'.jumps.lookup u = some w' ∧ w ≤ w' := by
  obtain ⟨-, rfl⟩ | ⟨-, f, -, rfl⟩ := insert_cases hs'
  · exact ⟨w, hw, le_rfl⟩
  · change ∃ w', (s.jump vs f).jumps.lookup u = some w' ∧ w ≤ w'
    by_cases hu : u = f.prev
    · subst hu
      unfold jump
      rw [hw]
      dsimp only
      split_ifs with hlt
      · exact ⟨vs, AList.lookup_insert _, hlt.le⟩
      · exact ⟨w, hw, le_rfl⟩
    · refine ⟨w, ?_, le_rfl⟩
      unfold jump
      split
      · exact (AList.lookup_insert_ne hu).trans hw
      · split_ifs
        · exact (AList.lookup_insert_ne hu).trans hw
        · exact hw

/-- **The answer to a call comes in**; `arg` is what the source has. -/
theorem Underway.gets (h : Underway p s) (hcb : s.calls.lookup n = some (.fetchlogCb p vs))
    (harg : arg.LeadsTo vs)
    (ht : Receives p vs (some arg) { s with calls := s.calls.erase n } t) : Underway p t := by
  obtain ⟨hexp, hnot⟩ := h.awaits.pending n vs hcb
  have hawaits : ∀ {t : Cohort}, t.calls = s.calls.erase n → t.nextCall = s.nextCall →
      (t.pulls p).ack = { (s.pulls p).ack with received := (s.pulls p).ack.received.insert vs } →
        t.Awaits p := by
    intro t hcalls hnext hack
    refine ⟨fun n' k hk => ?_, fun n' w hw => ?_, fun n₁ n₂ w h₁ h₂ => ?_, fun w hw hw' => ?_⟩
    · rw [hnext]
      exact h.awaits.numbered n' k (Keyed.lookup_of_lookup_erase (hcalls ▸ hk))
    · rw [hcalls] at hw
      have hold := Keyed.lookup_of_lookup_erase hw
      rw [hack]
      refine ⟨(h.awaits.pending n' w hold).1, fun hrec => ?_⟩
      obtain rfl | hrec := OrdSet.mem_insert.mp hrec
      · obtain rfl := h.awaits.once n' n w hold hcb
        rw [AList.lookup_erase] at hw
        cases hw
      · exact (h.awaits.pending n' w hold).2 hrec
    · rw [hcalls] at h₁ h₂
      exact h.awaits.once n₁ n₂ w (Keyed.lookup_of_lookup_erase h₁)
        (Keyed.lookup_of_lookup_erase h₂)
    · rw [hack] at hw hw'
      have hne : w ≠ vs := fun heq => hw' (OrdSet.mem_insert.mpr (Or.inl heq))
      obtain ⟨n', hn'⟩ :=
        h.awaits.awaited w hw fun hrec => hw' (OrdSet.mem_insert.mpr (Or.inr hrec))
      refine ⟨n', ?_⟩
      rw [hcalls, AList.lookup_erase_ne]
      · exact hn'
      · rintro rfl
        exact hne (Continuation.fetchlogCb.inj (Option.some.inj (hn'.symm.trans hcb))).2
  cases ht with
  | stored hmem =>
    refine ⟨h.tabled.congr rfl rfl, hawaits rfl rfl (by rw [pulls_setPull]), ?_, ?_, ?_, ?_, ?_⟩
    all_goals rw [pulls_setPull]
    · exact h.sane.receive (fun _ => id) hmem hexp
    · exact h.ok
    · exact h.above
    · exact fun hlt => (h.head hlt).imp_right fun hexp => by rwa [pulls_setPull]
    · exact h.bottom
  | failed hnew hnone => cases hnone
  | @logged arg' J hnew hsome hJ =>
    obtain rfl := Option.some.inj hsome
    have hmem : ∀ w ∈ s.log, w ∈ s.log.add vs (.plain arg) := fun w hw =>
      Keyed.mem_add.mpr (Or.inr hw)
    have htabled : Tabled { s with
        calls := s.calls.erase n
        jumps := J
        log := s.log.add vs (.plain arg) } :=
      Tabled.logged (s := { s with calls := s.calls.erase n }) (h.tabled.congr rfl rfl) harg hJ hnew
    refine ⟨htabled.congr rfl rfl, hawaits rfl rfl (by rw [pulls_setPull]), ?_, ?_, ?_, ?_, ?_⟩
    all_goals rw [pulls_setPull]
    · exact h.sane.receive hmem (Keyed.mem_add.mpr (Or.inl rfl)) hexp
    · exact h.ok
    · exact h.above
    · exact fun hlt => (h.head hlt).imp (hmem _) fun hexp => by rwa [pulls_setPull]
    · refine fun hdone => (h.bottom hdone).imp_right fun ⟨w, hw, hle⟩ => ?_
      obtain ⟨w', hw', hlt⟩ := jumps_insert hJ hw
      exact ⟨w', hw', hle.trans (Viewstamp.vid_le hlt)⟩

/-- A pull comes to the view of `latest`, and asks for it. -/
theorem underway_upto (htabled : s.Tabled) (hawaits : s.Awaits p) (hsane : (s.pulls p).Sane s.log)
    (hok : (s.pulls p).ok = true) (hview : (s.pulls p).bottomview = latest.vid)
    (habove : ∀ vs ∈ (s.pulls p).ack.expected, latest.vid < vs.vid)
    (hopen : (s.pulls p).bottomdone = false) (hs' : s.pullUpto p latest = some s') :
    Underway p s' := by
  have hawaits' := hawaits.upto (fun vs hvs => ne_of_gt (habove vs hvs)) hsane.stored hs'
  obtain ⟨vss, hwants, hvss⟩ := wants_pullUpto hs'
  obtain ⟨E, hE⟩ := hwants.pull
  obtain ⟨o, k, S, P, rfl⟩ := hwants.eq
  have hpulls : P p = { s.pulls p with ack := { (s.pulls p).ack with expected := E } } := hE
  have hexpected := hwants.expected
  have hsorted := hwants.sorted hsane.expected
  rw [hE] at hexpected hsorted
  refine ⟨htabled.congr rfl rfl, hawaits', ?_, ?_, ?_, ?_, ?_⟩
  all_goals rw [hE]
  · exact ⟨hsorted, hsane.received, fun vs hvs => (hexpected vs).mpr (Or.inl (hsane.subset hvs)),
      hsane.stored⟩
  · exact hok
  · intro vs hvs
    change (s.pulls p).bottomview ≤ vs.vid
    rw [hview]
    obtain hvs | ⟨hvs, -⟩ := (hexpected vs).mp hvs
    · exact (habove vs hvs).le
    · exact ((hvss vs).mp hvs).1.ge
  · intro hlt
    change Held p ⟨(s.pulls p).bottomview, 0⟩ _
    rw [hview]
    by_cases hmem : ⟨latest.vid, 0⟩ ∈ s.log
    · exact Or.inl hmem
    · right
      rw [hE]
      refine (hexpected _).mpr (Or.inr ⟨(hvss _).mpr ⟨rfl, Nat.zero_le _, ?_⟩, hmem⟩)
      exact hview ▸ hlt
  · intro hdone
    exact absurd hdone (by simp [hopen])

theorem Underway.onward (h : Underway p s) (hs' : Descends p s s') : Underway p s' := by
  cases hs' with
  | waits hnext hlt hnone => exact h
  | @goes next rle f s' hnext hlt hrle hf hs' =>
    have hprev : f.prev.vid < (s.pulls p).bottomview := by
      have hleads := h.tabled.leads _ rle.arg (entry_eq_some.mpr ⟨rle, hrle, rfl⟩) rfl f hf
      obtain hlt | ⟨-, hts⟩ := Viewstamp.lt_iff.mp hleads.1
      · exact hlt
      · exact absurd hts (Nat.not_lt_zero _)
    have hopen : (s.pulls p).bottomdone = false := by
      by_contra hdone
      exact absurd (h.le_next (Bool.not_eq_false _ ▸ hdone) hnext) (not_le.mpr hlt)
    refine underway_upto (s := s.setPull p { s.pulls p with bottomview := f.prev.vid })
      (h.tabled.congr rfl rfl) (h.awaits.congr rfl rfl (by rw [pulls_setPull])) ?_ ?_ ?_ ?_ ?_ hs'
    all_goals rw [pulls_setPull]
    · exact ⟨h.sane.expected, h.sane.received, h.sane.subset, h.sane.stored⟩
    · exact h.ok
    · exact fun vs hvs => lt_of_lt_of_le hprev (h.above vs hvs)
    · exact hopen
  | @ends next hnext hge =>
    refine ⟨h.tabled.congr rfl rfl, h.awaits.congr rfl rfl (by rw [pulls_setPull]), ?_, ?_, ?_,
      ?_, ?_⟩
    all_goals rw [pulls_setPull]
    · exact ⟨h.sane.expected, h.sane.received, h.sane.subset, h.sane.stored⟩
    · exact h.ok
    · exact h.above
    · exact fun hlt => (h.head hlt).imp_right fun hexp => by rwa [pulls_setPull]
    · intro _
      unfold Cohort.vsNext at hnext
      split at hnext
      · next hjump =>
        obtain rfl := Option.some.inj hnext
        exact Or.inr ⟨_, hjump, not_lt.mp hge⟩
      · exact Or.inl ((ts_succ hnext).1 ▸ not_lt.mp hge)

/-! ## Running out of calls -/

/-- The pull has received all it has asked for, what is executed next is before the view it is at,
and nothing is missing in the view before that. -/
structure Stuck (p : PullRef) (s : Cohort) : Prop where
  above : ∃ next, s.vsNext s.executed = some next ∧ next.vid < (s.pulls p).bottomview
  received : ∀ vs ∈ (s.pulls p).ack.expected, vs ∈ (s.pulls p).ack.received
  stored : ∀ rle f, s.log.lookup ⟨(s.pulls p).bottomview, 0⟩ = some rle →
    rle.arg.request = .form f →
      ∀ vs, vs.vid = f.prev.vid → vs.ts ≤ f.prev.ts → s.executed < vs → vs ∈ s.log

/-- A pull has as many answers as calls when it has all answers. -/
theorem Underway.over_iff (h : Underway p s) :
    Over p s ↔ ∀ vs ∈ (s.pulls p).ack.expected, vs ∈ (s.pulls p).ack.received := by
  constructor
  · intro hover vs hvs
    have hlen := hover.resolve_left (by rw [h.ok]; nofun)
    exact mem_of_length_eq h.sane.received h.sane.subset hlen.symm hvs
  · intro hall
    have heq : (s.pulls p).ack.expected = (s.pulls p).ack.received :=
      h.sane.expected.ext h.sane.received fun vs => ⟨hall vs, fun hvs => h.sane.subset hvs⟩
    exact Or.inr (congrArg List.length heq)

/-- **A check ends the pull above the bottom** just when it is stuck. -/
theorem Underway.stuck_iff (h : Underway p s) (hs' : Descends p s s') :
    Stuck p s ↔ Over p s' ∧ (s'.pulls p).bottomdone = false := by
  have hopen : ∀ {next}, s.vsNext s.executed = some next → next.vid < (s.pulls p).bottomview →
      (s.pulls p).bottomdone = false := fun {next} hnext hlt => by
    by_contra hdone
    exact absurd (h.le_next (Bool.not_eq_false _ ▸ hdone) hnext) (not_le.mpr hlt)
  have hover := (h.onward hs').over_iff
  cases hs' with
  | @waits next hnext hlt hnone =>
    -- the formation of the view is missing, so it is expected
    have hnot : ¬∀ vs ∈ (s.pulls p).ack.expected, vs ∈ (s.pulls p).ack.received := by
      intro hall
      have hexec : s.executed < ⟨(s.pulls p).bottomview, 0⟩ :=
        Viewstamp.lt_iff.mpr (Or.inl (lt_of_le_of_lt (Viewstamp.vid_le (h.tabled.lt hnext).le) hlt))
      have hmem : ⟨(s.pulls p).bottomview, 0⟩ ∈ s.log :=
        (h.head hexec).elim id fun hexp => h.sane.stored _ (hall _ hexp)
      obtain ⟨arg, harg⟩ := mem_log_iff.mp hmem
      obtain ⟨rle, hrle, -⟩ := entry_eq_some.mp harg
      cases hrle.symm.trans hnone
    exact iff_of_false (fun hstuck => hnot hstuck.received) fun hend => hnot (hover.mp hend.1)
  | @goes next rle f s' hnext hlt hrle hf hs' =>
    obtain ⟨vss, hwants, hvss⟩ := wants_pullUpto hs'
    obtain ⟨E, hE⟩ := hwants.pull
    have hexpected := hwants.expected
    rw [pulls_setPull] at hE hexpected
    have hreceived : (s'.pulls p).ack.received = (s.pulls p).ack.received := by rw [hE]
    have hdone : (s'.pulls p).bottomdone = (s.pulls p).bottomdone := by rw [hE]
    rw [hover, hreceived, hdone]
    constructor
    · intro hstuck
      refine ⟨fun vs hvs => ?_, hopen hnext hlt⟩
      obtain hvs | ⟨hvs, hnew⟩ := (hexpected vs).mp hvs
      · exact hstuck.received vs hvs
      · obtain ⟨hvid, hts, hexec⟩ := (hvss vs).mp hvs
        exact absurd (hstuck.stored rle f hrle hf vs hvid hts hexec) hnew
    · rintro ⟨hall, -⟩
      refine ⟨⟨next, hnext, hlt⟩, fun vs hvs => hall vs ((hexpected vs).mpr (Or.inl hvs)),
        fun rle' f' hrle' hf' vs hvid hts hexec => ?_⟩
      obtain rfl := Option.some.inj (hrle.symm.trans hrle')
      obtain rfl := Payload.form.inj (hf.symm.trans hf')
      by_contra hnew
      exact hnew (h.sane.stored vs (hall vs ((hexpected vs).mpr
        (Or.inr ⟨(hvss vs).mpr ⟨hvid, hts, hexec⟩, hnew⟩))))
  | @ends next hnext hge =>
    refine iff_of_false (fun hstuck => ?_) fun hend => ?_
    · obtain ⟨next', hnext', hlt⟩ := hstuck.above
      obtain rfl := Option.some.inj (hnext.symm.trans hnext')
      exact hge hlt
    · have hdone := hend.2
      rw [pulls_setPull] at hdone
      cases hdone

/-! ## The end of a pull -/

/-- `donecb` has not been called, and there is a call that has not been answered. -/
structure Waiting (cb : DoneCb) (p : PullRef) (s : Cohort) : Prop where
  donecb : (s.pulls p).donecb = some cb
  quiet : Group.sentAnswers s.out = []
  call : ∃ n vs, s.calls.lookup n = some (.fetchlogCb p vs)

/-- `donecb` has been called once, with `ok`, and all calls have been answered. -/
structure Finished (cb : DoneCb) (p : PullRef) (ok : Bool) (s : Cohort) : Prop where
  donecb : (s.pulls p).donecb = none
  called : Group.sentAnswers s.out = Group.sentAnswers [answerOf cb ok]
  calls : ∀ n vs, s.calls.lookup n ≠ some (.fetchlogCb p vs)

/-- **One check.**  It ends the pull, or leaves a call that has not been answered; `donecb` is
called with `false` just when the pull is stuck. -/
theorem Underway.check (h : Underway p s) (hcb : (s.pulls p).donecb = some cb)
    (hquiet : Group.sentAnswers s.out = []) (hs' : s.fetchlogCheck p = some s') :
    Underway p s' ∧ ∃ s₁, s.advanceCommitted = some s₁ ∧
      (¬Stuck p s₁ ∧ (Waiting cb p s' ∨ Finished cb p true s') ∨
        Stuck p s₁ ∧ Finished cb p false s') := by
  obtain ⟨s₁, s₂, hs₁, hs₂, hs'⟩ := fetchlogCheck_cases hs'
  have he := executes_advanceCommitted hs₁
  have h₁ := h.executes he
  have hdescends := descends hs₂
  have h₂ := h₁.onward hdescends
  have hstuck := h₁.stuck_iff hdescends
  have hcb₂ : (s₂.pulls p).donecb = some cb := by rw [hdescends.donecb p, he.pulls, hcb]
  have hquiet₂ : Group.sentAnswers s₂.out = [] := by rw [hdescends.answers, he.out, hquiet]
  obtain ⟨hover, rfl⟩ | ⟨hover, o, ho, rfl⟩ := hs'
  · refine ⟨h₂, s₁, hs₁, Or.inl ⟨fun hs => hover (hstuck.mp hs).1, Or.inl ⟨hcb₂, hquiet₂, ?_⟩⟩⟩
    rw [h₂.over_iff] at hover
    push Not at hover
    obtain ⟨vs, hvs, hnot⟩ := hover
    obtain ⟨n, hn⟩ := h₂.awaits.awaited vs hvs hnot
    exact ⟨n, vs, hn⟩
  · have hcalls : ∀ n vs, s₂.calls.lookup n ≠ some (.fetchlogCb p vs) := fun n vs hn => by
      obtain ⟨hexp, hnot⟩ := h₂.awaits.pending n vs hn
      exact hnot (h₂.over_iff.mp hover vs hexp)
    have h₃ : Underway p { s₂.setPull p { s₂.pulls p with donecb := none } with out := o } := by
      refine ⟨h₂.tabled.congr rfl rfl, h₂.awaits.congr rfl rfl (by rw [pulls_setPull]), ?_, ?_, ?_,
        ?_, ?_⟩
      all_goals rw [pulls_setPull]
      · exact ⟨h₂.sane.expected, h₂.sane.received, h₂.sane.subset, h₂.sane.stored⟩
      · exact h₂.ok
      · exact h₂.above
      · exact fun hlt => (h₂.head hlt).imp_right fun hexp => by rwa [pulls_setPull]
      · exact h₂.bottom
    have hfinished : Finished cb p (s₂.pulls p).bottomdone
        { s₂.setPull p { s₂.pulls p with donecb := none } with out := o } := by
      refine ⟨by rw [pulls_setPull], ?_, hcalls⟩
      cases ho with
      | silent hnone => cases hnone.symm.trans hcb₂
      | answer hsome =>
        obtain rfl := Option.some.inj (hcb₂.symm.trans hsome)
        rw [h₂.ok, Bool.true_and]
        change Group.sentAnswers ([_] ++ s₂.out) = _
        rw [Group.sentAnswers, List.filterMap_append]
        change _ ++ Group.sentAnswers s₂.out = _
        rw [hquiet₂, List.append_nil]
        rfl
    refine ⟨h₃, s₁, hs₁, ?_⟩
    cases hdone : (s₂.pulls p).bottomdone with
    | true =>
      rw [hdone] at hfinished
      refine Or.inl ⟨fun hs => ?_, Or.inr hfinished⟩
      cases hdone.symm.trans (hstuck.mp hs).2
    | false =>
      rw [hdone] at hfinished
      exact Or.inr ⟨hstuck.mpr ⟨hover, hdone⟩, hfinished⟩

/-- The check that an answer makes does not find the pull stuck. -/
def Smooth (T : Viewstamp → Option ExecuteArg) (p : PullRef) (s : Cohort) (e : Fetch) : Prop :=
  ∀ n vs t t₁, e = .reply n → s.calls.lookup n = some (.fetchlogCb p vs) →
    { s with calls := s.calls.erase n }.received p vs (T vs) = some t →
      t.advanceCommitted = some t₁ → ¬Stuck p t₁

/-- An answer to a pull under way is added to those it has, and then the pull is checked. -/
theorem Underway.answered (h : Underway p s) (hT : ∀ vs arg, T vs = some arg → arg.LeadsTo vs)
    (hsource : ∀ vs, ∃ arg, T vs = some arg) (hs' : s.fetch T p (.reply n) = some s') :
    ∃ vs t, s.calls.lookup n = some (.fetchlogCb p vs) ∧
      { s with calls := s.calls.erase n }.received p vs (T vs) = some t ∧ Underway p t ∧
      t.out = s.out ∧ t.pulls p = { s.pulls p with ack :=
        { (s.pulls p).ack with received := (s.pulls p).ack.received.insert vs } } ∧
      t.fetchlogCheck p = some s' := by
  obtain ⟨vs, t, hcb, ht, hs'⟩ := replied_cases hs'
  obtain ⟨arg, harg⟩ := hsource vs
  have hreceives := receives ht
  rw [harg] at hreceives
  obtain ⟨-, hout, -, -⟩ := hreceives.frame
  refine ⟨vs, t, hcb, ht, h.gets hcb (hT vs arg harg) hreceives, hout, ?_, hs'⟩
  cases hreceives with
  | stored hmem => rw [pulls_setPull]
  | failed hnew hnone => cases hnone
  | logged hnew hsome hJ => rw [pulls_setPull]

theorem Underway.replied (h : Underway p s) (hw : Waiting cb p s)
    (hT : ∀ vs arg, T vs = some arg → arg.LeadsTo vs) (hsource : ∀ vs, ∃ arg, T vs = some arg)
    (hs' : s.fetch T p (.reply n) = some s') :
    Underway p s' ∧ (Smooth T p s (.reply n) ∧ (Waiting cb p s' ∨ Finished cb p true s') ∨
      ¬Smooth T p s (.reply n) ∧ Finished cb p false s') := by
  obtain ⟨vs, t, hcb, ht, ht', hout, hpulls, hs'⟩ := h.answered hT hsource hs'
  have hdone : (t.pulls p).donecb = some cb := by
    rw [hpulls]
    exact hw.donecb
  obtain ⟨h', t₁, ht₁, hend⟩ := ht'.check hdone (by rw [hout]; exact hw.quiet) hs'
  have hsmooth : Smooth T p s (.reply n) ↔ ¬Stuck p t₁ := by
    refine ⟨fun hs => hs n vs t t₁ rfl hcb ht ht₁, fun hs n' vs' t' t₁' heq hcb' ht' ht₁' => ?_⟩
    obtain rfl := Fetch.reply.inj heq
    obtain ⟨-, rfl⟩ := Continuation.fetchlogCb.inj (Option.some.inj (hcb.symm.trans hcb'))
    obtain rfl := Option.some.inj (ht.symm.trans ht')
    obtain rfl := Option.some.inj (ht₁.symm.trans ht₁')
    exact hs
  rw [hsmooth, not_not]
  exact ⟨h', hend⟩

/-- Execution leaves the pull as it is. -/
theorem Underway.committed (h : Underway p s) (hs' : s.fetch T p (.commit vs) = some s') :
    Underway p s' ∧ (Waiting cb p s → Waiting cb p s') ∧
      ∀ ok, Finished cb p ok s → Finished cb p ok s' := by
  have h₀ : Underway p { s with committed := max s.committed vs } :=
    ⟨h.tabled.congr rfl rfl, h.awaits.congr rfl rfl rfl, h.sane, h.ok, h.above, h.head, h.bottom⟩
  have he := executes_advanceExecuted hs'
  refine ⟨h₀.executes he, fun hw => ⟨?_, ?_, ?_⟩, fun ok hf => ⟨?_, ?_, ?_⟩⟩
  · rw [he.pulls]
    exact hw.donecb
  · rw [he.out]
    exact hw.quiet
  · rw [he.calls]
    exact hw.call
  · rw [he.pulls]
    exact hf.donecb
  · rw [he.out]
    exact hf.called
  · rw [he.calls]
    exact hf.calls

/-- **Along a run of a pull** whose calls are all answered, `donecb` is called once, and with `true`
just when no check finds the pull stuck. -/
theorem Underway.run {es : List Fetch} (h : Underway p s) (cb : DoneCb)
    (hT : ∀ vs arg, T vs = some arg → arg.LeadsTo vs) (hsource : ∀ vs, ∃ arg, T vs = some arg)
    (hfail : ∀ n, .fail n ∉ es) (hrun : es.foldlM (fetch T p) s = some s')
    (hall : ∀ n vs, s'.calls.lookup n ≠ some (.fetchlogCb p vs)) :
    (Waiting cb p s → ∃ ok, Finished cb p ok s' ∧
        (ok = true ↔ Run.Along (fetch T p) (fun s e _ => Smooth T p s e) s es)) ∧
      ∀ ok, Finished cb p ok s → Finished cb p ok s' ∧
        Run.Along (fetch T p) (fun s e _ => Smooth T p s e) s es := by
  induction es generalizing s with
  | nil =>
    obtain rfl := Option.some.inj hrun
    refine ⟨fun hw => ?_, fun ok hf => ⟨hf, Run.Along.nil⟩⟩
    obtain ⟨n, vs, hn⟩ := hw.call
    exact absurd hn (hall n vs)
  | cons e es ih =>
    rw [List.foldlM_cons] at hrun
    obtain ⟨s₁, hs₁, hrest⟩ := Option.bind_eq_some_iff.mp hrun
    have hfail' : ∀ n, .fail n ∉ es := fun n hn => hfail n (List.mem_cons_of_mem _ hn)
    have halong : Run.Along (fetch T p) (fun s e _ => Smooth T p s e) s (e :: es) ↔
        Smooth T p s e ∧ Run.Along (fetch T p) (fun s e _ => Smooth T p s e) s₁ es := by
      refine ⟨fun ha => ha s₁ hs₁, fun ha s₂ hs₂ => ?_⟩
      obtain rfl := Option.some.inj (hs₁.symm.trans hs₂)
      exact ha
    rw [halong]
    cases e with
    | fail n => exact absurd List.mem_cons_self (hfail n)
    | commit vs =>
      obtain ⟨h₁, hwaiting, hfinished⟩ := h.committed hs₁
      have hsmooth : Smooth T p s (.commit vs) := fun n vs t t₁ heq => by cases heq
      obtain ⟨hw, hf⟩ := ih h₁ hfail' hrest
      refine ⟨fun hopen => ?_, fun ok hend => ?_⟩
      · obtain ⟨ok, hok, hiff⟩ := hw (hwaiting hopen)
        exact ⟨ok, hok, hiff.trans (and_iff_right hsmooth).symm⟩
      · obtain ⟨hok, ha⟩ := hf ok (hfinished ok hend)
        exact ⟨hok, hsmooth, ha⟩
    | reply n =>
      refine ⟨fun hopen => ?_, fun ok hend => ?_⟩
      · obtain ⟨h₁, ⟨hsmooth, hend⟩ | ⟨hsmooth, hend⟩⟩ := h.replied hopen hT hsource hs₁
        · obtain ⟨hw, hf⟩ := ih h₁ hfail' hrest
          obtain hopen | hend := hend
          · obtain ⟨ok, hok, hiff⟩ := hw hopen
            exact ⟨ok, hok, hiff.trans (and_iff_right hsmooth).symm⟩
          · obtain ⟨hok, ha⟩ := hf true hend
            exact ⟨true, hok, iff_of_true rfl ⟨hsmooth, ha⟩⟩
        · obtain ⟨hok, -⟩ := (ih h₁ hfail' hrest).2 false hend
          exact ⟨false, hok, iff_of_false nofun fun ha => hsmooth ha.1⟩
      · obtain ⟨vs, t, hcb, -⟩ := replied_cases hs₁
        exact absurd hcb (hend.calls n vs)

/-! ## Progress -/

/-- The number of calls that have not been answered. -/
def missing (p : PullRef) (s : Cohort) : ℕ :=
  (s.pulls p).ack.expected.length - (s.pulls p).ack.received.length

/-- With each answer the pull comes to an earlier view, or it has less to wait for. -/
theorem Underway.less (h : Underway p s) (hT : ∀ vs arg, T vs = some arg → arg.LeadsTo vs)
    (hsource : ∀ vs, ∃ arg, T vs = some arg) (hs' : s.fetch T p (.reply n) = some s') :
    toLex ((s'.pulls p).bottomview, s'.missing p) <
      toLex ((s.pulls p).bottomview, s.missing p) := by
  obtain ⟨vs, t, hcb, -, ht', -, hpulls, hs'⟩ := h.answered hT hsource hs'
  obtain ⟨hexp, hnot⟩ := h.awaits.pending n vs hcb
  have hopen : t.missing p < s.missing p := by
    have hle := (List.subperm_of_subset ht'.sane.received.nodup ht'.sane.subset).length_le
    rw [hpulls] at hle
    have hlen := OrdSet.length_insert hnot
    unfold missing
    rw [hpulls]
    dsimp only at hle ⊢
    omega
  obtain ⟨s₁, s₂, hs₁, hs₂, hs'⟩ := fetchlogCheck_cases hs'
  have he := executes_advanceCommitted hs₁
  have hpulls' : (s'.pulls p).bottomview = (s₂.pulls p).bottomview ∧
      s'.missing p = s₂.missing p := by
    obtain ⟨-, rfl⟩ | ⟨-, o, -, rfl⟩ := hs'
    · exact ⟨rfl, rfl⟩
    · unfold missing
      change ((s₂.setPull p _).pulls p).bottomview = _ ∧
        ((s₂.setPull p _).pulls p).ack.expected.length -
        ((s₂.setPull p _).pulls p).ack.received.length = _
      rw [pulls_setPull]
      exact ⟨rfl, rfl⟩
  rw [hpulls'.1, hpulls'.2, Prod.Lex.toLex_lt_toLex]
  have hview : (s₁.pulls p).bottomview = (s.pulls p).bottomview := by rw [he.pulls, hpulls]
  have hless : s₁.missing p < s.missing p := by
    unfold missing at hopen ⊢
    rwa [he.pulls]
  cases descends hs₂ with
  | waits hnext hlt hnone => exact Or.inr ⟨hview, hless⟩
  | @goes next rle f s₂ hnext hlt hrle hf hs₂ =>
    left
    obtain ⟨vss, hwants, -⟩ := wants_pullUpto hs₂
    obtain ⟨E, hE⟩ := hwants.pull
    rw [hE, pulls_setPull, ← hview]
    have hleads :=
      (ht'.executes he).tabled.leads _ rle.arg (entry_eq_some.mpr ⟨rle, hrle, rfl⟩) rfl f hf
    obtain hlt | ⟨-, hts⟩ := Viewstamp.lt_iff.mp hleads.1
    · exact hlt
    · exact absurd hts (Nat.not_lt_zero _)
  | ends hnext hge =>
    unfold missing at hless ⊢
    rw [pulls_setPull]
    exact Or.inr ⟨hview, hless⟩

/-- **The answers to a pull come to an end.** -/
theorem Underway.ends (h : Underway p s) (hT : ∀ vs arg, T vs = some arg → arg.LeadsTo vs)
    (hsource : ∀ vs, ∃ arg, T vs = some arg)
    (hw : Waiting cb p s ∨ ∃ ok, Finished cb p ok s) (ns : ℕ → ℕ) :
    ∃ k, ((List.range k).map fun i => Fetch.reply (ns i)).foldlM (fetch T p) s = none := by
  induction hm : toLex ((s.pulls p).bottomview, s.missing p) using WellFoundedLT.induction
    generalizing s ns with
  | ind m ih =>
    subst hm
    cases hs' : s.fetch T p (.reply (ns 0)) with
    | none =>
      refine ⟨1, ?_⟩
      change (s.fetch T p (.reply (ns 0))).bind _ = none
      rw [hs']
      rfl
    | some s' =>
      obtain hopen | ⟨ok, hend⟩ := hw
      · obtain ⟨h', hend⟩ := h.replied hopen hT hsource hs'
        have hw' : Waiting cb p s' ∨ ∃ ok, Finished cb p ok s' := by
          obtain ⟨-, hopen | hend⟩ | ⟨-, hend⟩ := hend
          · exact Or.inl hopen
          · exact Or.inr ⟨_, hend⟩
          · exact Or.inr ⟨_, hend⟩
        obtain ⟨k, hk⟩ := ih _ (h.less hT hsource hs') h' hw' (fun i => ns (i + 1)) rfl
        refine ⟨k + 1, ?_⟩
        rw [List.range_succ_eq_map, List.map_cons, List.map_map, List.foldlM_cons, hs']
        exact hk
      · obtain ⟨vs, t, hcb, -⟩ := replied_cases hs'
        exact absurd hcb (hend.calls _ vs)

/-- A pull is opened. -/
theorem Ready.underway (h : s.Ready) (hnumbered : ∀ n k, s.calls.lookup n = some k → n < s.nextCall)
    {src : Mid} (hs' : (s.opened src latest cb).pullUpto s.nextPull latest = some s') :
    Underway s.nextPull s' ∧ (s'.pulls s.nextPull).donecb = some cb ∧
      Group.sentAnswers s'.out = Group.sentAnswers s.out := by
  have hnew : (s.opened src latest cb).pulls s.nextPull =
      ⟨⟨[], []⟩, latest.vid, src, some cb, true, false, latest⟩ := pulls_setPull
  have hnone : ∀ n vs, s.calls.lookup n ≠ some (.fetchlogCb s.nextPull vs) := fun n vs hn =>
    absurd (h.fresh n _ vs hn) (lt_irrefl _)
  have hawaits : (s.opened src latest cb).Awaits s.nextPull := by
    refine ⟨hnumbered, fun n vs hn => absurd hn (hnone n vs),
      fun n n' vs hn => absurd hn (hnone n vs), ?_⟩
    rw [hnew]
    nofun
  refine ⟨underway_upto (s := s.opened src latest cb) (h.tabled.congr rfl rfl) hawaits
    ?_ ?_ ?_ ?_ ?_ hs', ?_⟩
  any_goals rw [hnew]
  · exact ⟨List.Pairwise.nil, List.Pairwise.nil, nofun, nofun⟩
  · nofun
  · obtain ⟨vss, hwants, -⟩ := wants_pullUpto hs'
    obtain ⟨E, hE⟩ := hwants.pull
    rw [hE, hnew]
    exact ⟨rfl, hwants.answers⟩

/-- A pull is opened and checked. -/
theorem Ready.checked (h : s.Ready) (hnumbered : ∀ n k, s.calls.lookup n = some k → n < s.nextCall)
    (hquiet : Group.sentAnswers s.out = []) {src : Mid} {s₀ : Cohort}
    (hs₀ : s.pullLog src latest cb = some s₀) : Underway s.nextPull s₀ ∧ ∃ s₁ s₂,
      (s.opened src latest cb).pullUpto s.nextPull latest = some s₁ ∧
        s₁.advanceCommitted = some s₂ ∧ (¬Stuck s.nextPull s₂ ∧
          (Waiting cb s.nextPull s₀ ∨ Finished cb s.nextPull true s₀) ∨
            Stuck s.nextPull s₂ ∧ Finished cb s.nextPull false s₀) := by
  simp only [pullLog, Option.bind_eq_bind, Option.bind_eq_some_iff] at hs₀
  obtain ⟨s₁, hs₁, hs₀⟩ := hs₀
  have hs₁ : (s.opened src latest cb).pullUpto s.nextPull latest = some s₁ := hs₁
  obtain ⟨h₁, hcb, hout⟩ := h.underway hnumbered hs₁
  obtain ⟨h₀, s₂, hs₂, hend⟩ := h₁.check hcb (hout.trans hquiet) hs₀
  exact ⟨h₀, s₁, s₂, hs₁, hs₂, hend⟩

/-- What `donecb` answers tells what it was called with. -/
theorem Finished.answers_iff {ok : Bool} (h : Finished cb p ok s) :
    Group.sentAnswers s.out = Group.sentAnswers [answerOf cb true] ↔ ok = true := by
  rw [h.called]
  refine ⟨fun heq => ?_, fun heq => heq ▸ rfl⟩
  cases cb with
  | replicate sbp vs =>
    cases ok with
    | true => rfl
    | false => cases heq
  | newView sbp =>
    cases ok with
    | true => rfl
    | false => cases heq

/-- No check finds the pull stuck: neither that of `pull_log` nor the ones the answers make. -/
def NeverStuck (T : Viewstamp → Option ExecuteArg) (src : Mid) (latest : Viewstamp) (cb : DoneCb)
    (s s₀ : Cohort) (es : List Fetch) : Prop :=
  (∀ s₁ s₂, (s.opened src latest cb).pullUpto s.nextPull latest = some s₁ →
    s₁.advanceCommitted = some s₂ → ¬Stuck s.nextPull s₂) ∧
  Run.Along (fetch T s.nextPull) (fun t e _ => Smooth T s.nextPull t e) s₀ es

theorem Ready.outcome {src : Mid} {s₀ : Cohort} {es : List Fetch} (h : s.Ready)
    (hnumbered : ∀ n k, s.calls.lookup n = some k → n < s.nextCall)
    (hquiet : Group.sentAnswers s.out = [])
    (hT : ∀ vs arg, T vs = some arg → arg.LeadsTo vs) (hsource : ∀ vs, ∃ arg, T vs = some arg)
    (hs₀ : s.pullLog src latest cb = some s₀)
    (hrun : es.foldlM (fetch T s.nextPull) s₀ = some s') (hfail : ∀ n, .fail n ∉ es)
    (hall : ∀ n vs, s'.calls.lookup n ≠ some (.fetchlogCb s.nextPull vs)) :
    ∃ ok, Finished cb s.nextPull ok s' ∧ (ok = true ↔ NeverStuck T src latest cb s s₀ es) := by
  obtain ⟨h₀, s₁, s₂, hs₁, hs₂, hend⟩ := h.checked hnumbered hquiet hs₀
  have hfirst : (∀ s₁ s₂, (s.opened src latest cb).pullUpto s.nextPull latest = some s₁ →
      s₁.advanceCommitted = some s₂ → ¬Stuck s.nextPull s₂) ↔ ¬Stuck s.nextPull s₂ := by
    refine ⟨fun hs => hs s₁ s₂ hs₁ hs₂, fun hs s₁' s₂' hs₁' hs₂' => ?_⟩
    obtain rfl := Option.some.inj (hs₁.symm.trans hs₁')
    obtain rfl := Option.some.inj (hs₂.symm.trans hs₂')
    exact hs
  obtain ⟨hw, hf⟩ := h₀.run cb hT hsource hfail hrun hall
  rw [NeverStuck, hfirst]
  obtain ⟨hstuck, hopen | hend⟩ | ⟨hstuck, hend⟩ := hend
  · obtain ⟨ok, hok, hiff⟩ := hw hopen
    exact ⟨ok, hok, hiff.trans (and_iff_right hstuck).symm⟩
  · obtain ⟨hok, ha⟩ := hf true hend
    exact ⟨true, hok, iff_of_true rfl ⟨hstuck, ha⟩⟩
  · obtain ⟨hok, -⟩ := hf false hend
    exact ⟨false, hok, iff_of_false nofun fun hs => hs.1 hstuck⟩

/-- When the log is in order, a pull goes on until all its calls have been answered. -/
structure GoesOn (T : Viewstamp → Option ExecuteArg) (p : PullRef) (s₀ : Cohort) : Prop where
  answered : ∀ (es : List Fetch) (s' : Cohort) n vs, es.foldlM (fetch T p) s₀ = some s' →
    (∀ n, .fail n ∉ es) →
    (∀ w, .commit w ∈ es → w.Short) → s'.calls.lookup n = some (.fetchlogCb p vs) →
      ∃ s'', s'.fetch T p (.reply n) = some s''
  ends : ∀ ns : ℕ → ℕ,
    ∃ k, ((List.range k).map fun i => Fetch.reply (ns i)).foldlM (fetch T p) s₀ = none

theorem Fit.run {es : List Fetch} (h : Fit p s) (hu : Underway p s)
    (hw : Waiting cb p s ∨ ∃ ok, Finished cb p ok s)
    (hT : ∀ vs arg, T vs = some arg → arg.LeadsTo vs) (hforms : FormsFirst T)
    (hsource : ∀ vs, ∃ arg, T vs = some arg) (hrun : es.foldlM (fetch T p) s = some s')
    (hfail : ∀ n, .fail n ∉ es) (hcommit : ∀ w, .commit w ∈ es → w.Short) :
    Fit p s' ∧ Underway p s' := by
  induction es generalizing s with
  | nil => exact Option.some.inj hrun ▸ ⟨h, hu⟩
  | cons e es ih =>
    rw [List.foldlM_cons] at hrun
    obtain ⟨s₁, hs₁, hrest⟩ := Option.bind_eq_some_iff.mp hrun
    have hfail' : ∀ n, .fail n ∉ es := fun n hn => hfail n (List.mem_cons_of_mem _ hn)
    have hcommit' : ∀ w, .commit w ∈ es → w.Short := fun w hw =>
      hcommit w (List.mem_cons_of_mem _ hw)
    cases e with
    | fail n => exact absurd List.mem_cons_self (hfail n)
    | commit w =>
      obtain ⟨s₁', hs₁', h₁⟩ := h.commit (T := T) (hcommit w List.mem_cons_self)
      obtain rfl := Option.some.inj (hs₁.symm.trans hs₁')
      obtain ⟨hu₁, hwaiting, hfinished⟩ := hu.committed hs₁
      exact ih h₁ hu₁ (hw.imp hwaiting fun ⟨ok, hok⟩ => ⟨ok, hfinished ok hok⟩) hrest hfail'
        hcommit'
    | reply n =>
      obtain ⟨vs, t, hcb, -⟩ := replied_cases hs₁
      obtain hopen | ⟨ok, hend⟩ := hw
      · obtain ⟨arg, harg⟩ := hsource vs
        obtain ⟨s₁', hs₁', h₁⟩ := h.reply hcb (hu.awaits.pending n vs hcb).1 hT hforms harg
        obtain rfl := Option.some.inj (hs₁.symm.trans hs₁')
        obtain ⟨hu₁, hend⟩ := hu.replied hopen hT hsource hs₁
        refine ih h₁ hu₁ ?_ hrest hfail' hcommit'
        obtain ⟨-, hopen | hend⟩ | ⟨-, hend⟩ := hend
        · exact Or.inl hopen
        · exact Or.inr ⟨_, hend⟩
        · exact Or.inr ⟨_, hend⟩
      · exact absurd hcb (hend.calls n vs)

theorem Ready.goesOn {src : Mid} (h : s.Ready)
    (hnumbered : ∀ n k, s.calls.lookup n = some k → n < s.nextCall)
    (hquiet : Group.sentAnswers s.out = [])
    (hT : ∀ vs arg, T vs = some arg → arg.LeadsTo vs) (hsource : ∀ vs, ∃ arg, T vs = some arg)
    (hlog : s.Sturdy) (hforms : FormsFirst T) (hlatest : latest.Short) :
    ∃ s₀, s.pullLog src latest cb = some s₀ ∧ GoesOn T s.nextPull s₀ := by
  have hopened : Fit s.nextPull (s.opened src latest cb) := by
    have hnew : (s.opened src latest cb).pulls s.nextPull =
        ⟨⟨[], []⟩, latest.vid, src, some cb, true, false, latest⟩ := pulls_setPull
    refine ⟨hlog.same rfl rfl rfl rfl rfl, ?_⟩
    rw [hnew]
    nofun
  obtain ⟨s₁, hs₁, h₁⟩ := hopened.upto hlatest
  obtain ⟨s₀, hs₀, h₀⟩ := h₁.check
  have hpull : s.pullLog src latest cb = some s₀ := Option.bind_eq_some_iff.mpr ⟨s₁, hs₁, hs₀⟩
  obtain ⟨hu, s₁', s₂, -, -, hend⟩ := h.checked hnumbered hquiet hpull
  have hw : Waiting cb s.nextPull s₀ ∨ ∃ ok, Finished cb s.nextPull ok s₀ := by
    obtain ⟨-, hopen | hend⟩ | ⟨-, hend⟩ := hend
    · exact Or.inl hopen
    · exact Or.inr ⟨_, hend⟩
    · exact Or.inr ⟨_, hend⟩
  refine ⟨s₀, hpull, fun es s' n vs hrun hfail hcommit hcb => ?_, hu.ends hT hsource hw⟩
  obtain ⟨h', hu'⟩ := h₀.run hu hw hT hforms hsource hrun hfail hcommit
  obtain ⟨arg, harg⟩ := hsource vs
  obtain ⟨s'', hs'', -⟩ := h'.reply hcb (hu'.awaits.pending n vs hcb).1 hT hforms harg
  exact ⟨s'', hs''⟩

/-- **What a pull ends with.**  The source answers all calls, in whatever order.  When the pull has
run, `donecb` has been called once, and with `true` iff no check found the pull stuck; and it does
run until then when the logs are in order. -/
theorem pull_outcome_iff {src : Mid} (h : s.Ready)
    (hnumbered : ∀ n k, s.calls.lookup n = some k → n < s.nextCall)
    (hquiet : Group.sentAnswers s.out = [])
    (hT : ∀ vs arg, T vs = some arg → arg.LeadsTo vs) (hsource : ∀ vs, ∃ arg, T vs = some arg) :
    (∀ (s₀ : Cohort) (es : List Fetch) (s' : Cohort), s.pullLog src latest cb = some s₀ →
      es.foldlM (fetch T s.nextPull) s₀ = some s' → (∀ n, .fail n ∉ es) →
      (∀ n vs, s'.calls.lookup n ≠ some (.fetchlogCb s.nextPull vs)) →
      (Group.sentAnswers s'.out = Group.sentAnswers [answerOf cb true] ↔
        NeverStuck T src latest cb s s₀ es)) ∧
    (s.Sturdy → FormsFirst T → latest.Short →
      ∃ s₀, s.pullLog src latest cb = some s₀ ∧ GoesOn T s.nextPull s₀) := by
  refine ⟨fun s₀ es s' hs₀ hrun hfail hall => ?_, h.goesOn hnumbered hquiet hT hsource⟩
  obtain ⟨ok, hend, hiff⟩ := h.outcome hnumbered hquiet hT hsource hs₀ hrun hfail hall
  exact hend.answers_iff.trans hiff

/-- Two views, and any operations. -/
def source (vs : Viewstamp) : Option ExecuteArg :=
  (twoViews vs).or (some ⟨0, 0, .zero, .operation []⟩)

/-- The formation of the second view comes, and then that of the first one. -/
theorem pull_outcome_iff_joiner : ∃ s₀ s',
    (boot 2).pullLog 1 ⟨⟨2, 1⟩, 0⟩ (.newView ⟨1, 0⟩) = some s₀ ∧
      [Fetch.reply 0, .reply 1].foldlM (fetch source 0) s₀ = some s' ∧
        NeverStuck source 1 ⟨⟨2, 1⟩, 0⟩ (.newView ⟨1, 0⟩) (boot 2) s₀ [.reply 0, .reply 1] := by
  have hrun : (((boot 2).pullLog 1 ⟨⟨2, 1⟩, 0⟩ (.newView ⟨1, 0⟩)).bind fun s₀ =>
      [Fetch.reply 0, .reply 1].foldlM (fetch source 0) s₀).any (fun s' => decide
        (s'.calls.entries = [] ∧ Group.sentAnswers s'.out = [(⟨1, 0⟩, .newView true)])) = true := by
    decide
  obtain ⟨s', hs', hend⟩ := (Option.any_eq_true _ _).mp hrun
  obtain ⟨s₀, hs₀, hs'⟩ := Option.bind_eq_some_iff.mp hs'
  obtain ⟨hcalls, hout⟩ := of_decide_eq_true hend
  refine ⟨s₀, s', hs₀, hs',
    ((pull_outcome_iff (ready_boot 2) ?_ rfl ?_ ?_).1 s₀ _ s' hs₀ hs' ?_ ?_).mp
    hout⟩
  · exact fun n k hk => by cases hk
  · intro vs arg harg
    unfold source at harg
    cases htwo : twoViews vs with
    | some arg' =>
      rw [htwo] at harg
      exact leadsTo_twoViews vs arg (htwo.trans harg)
    | none =>
      rw [htwo] at harg
      obtain rfl := Option.some.inj harg
      exact fun _ f hf => by cases hf
  · intro vs
    unfold source
    cases twoViews vs with
    | some arg => exact ⟨arg, rfl⟩
    | none => exact ⟨_, rfl⟩
  · exact fun n hn => by simp at hn
  · intro n vs hn
    have hmem := Keyed.mem_entries_iff.mpr hn
    rw [hcalls] at hmem
    exact absurd hmem List.not_mem_nil

/-- A cohort that has logged the formation of the second view, and not executed it. -/
def lagging : Option Cohort :=
  [Input.call ⟨2, 0⟩ (.newView ⟨⟨⟨2, 2⟩, 0⟩, ⟨⟨3, 2⟩, 2, [1]⟩⟩),
    .callback 0 (.fetchlogCb 0 ⟨⟨2, 2⟩, 0⟩)
      (some (.fetchlog (ViewForm.arg ⟨⟨⟨1, 1⟩, 0⟩, ⟨⟨2, 2⟩, 2, [1]⟩⟩)))].foldlM step (founder 1)

/-- The source has the third view. -/
def thirdView (vs : Viewstamp) : Option ExecuteArg :=
  if vs = ⟨⟨3, 2⟩, 0⟩ then some (ViewForm.arg ⟨⟨⟨2, 2⟩, 0⟩, ⟨⟨3, 2⟩, 2, [1]⟩⟩)
  else some ⟨0, 0, .zero, .operation []⟩

/-- The formation of the third view and its first entry are pulled: the pull succeeds if the
formation comes first, and fails if it comes last. -/
theorem pull_outcome_by_order : ∃ s s₀ s₁ s₂, lagging = some s ∧
    s.pullLog 2 ⟨⟨3, 2⟩, 1⟩ (.newView ⟨2, 1⟩) = some s₀ ∧
    [Fetch.reply 1, .reply 2].foldlM (fetch thirdView 1) s₀ = some s₁ ∧
    [Fetch.reply 2, .reply 1].foldlM (fetch thirdView 1) s₀ = some s₂ ∧
    Group.sentAnswers s₁.out = [(⟨2, 1⟩, .newView true)] ∧
    Group.sentAnswers s₂.out = [(⟨2, 1⟩, .newView false)] := by
  have hrun : (lagging.bind fun s => s.pullLog 2 ⟨⟨3, 2⟩, 1⟩ (.newView ⟨2, 1⟩)).any (fun s₀ =>
      ([Fetch.reply 1, .reply 2].foldlM (fetch thirdView 1) s₀).any (fun s₁ =>
          decide (Group.sentAnswers s₁.out = [(⟨2, 1⟩, .newView true)])) &&
        ([Fetch.reply 2, .reply 1].foldlM (fetch thirdView 1) s₀).any (fun s₂ =>
          decide (Group.sentAnswers s₂.out = [(⟨2, 1⟩, .newView false)]))) = true := by decide
  obtain ⟨s₀, hs₀, hrun⟩ := (Option.any_eq_true _ _).mp hrun
  obtain ⟨s, hs, hs₀⟩ := Option.bind_eq_some_iff.mp hs₀
  obtain ⟨h₁, h₂⟩ := Bool.and_eq_true_iff.mp hrun
  obtain ⟨s₁, hs₁, h₁⟩ := (Option.any_eq_true _ _).mp h₁
  obtain ⟨s₂, hs₂, h₂⟩ := (Option.any_eq_true _ _).mp h₂
  exact ⟨s, s₀, s₁, s₂, hs, hs₀, hs₁, hs₂, of_decide_eq_true h₁, of_decide_eq_true h₂⟩

end Cohort

end Falcon
