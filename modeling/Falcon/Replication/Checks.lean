import Falcon.Replication.Fetches
import Mathlib.Data.Finset.Card

/-!
# Replication/Checks — the loops over the log come to an end

A round of a loop over the log is about an entry, and goes on to a later one, so there are as many
rounds as entries at most.  `advance_executed` and `advance_committed` go through when the log is in
order (`Sturdy`): a view starts with its formation, no timestamp wraps around, and what has been
sent out and is not committed waits for acknowledgements.
-/

namespace Falcon

/-- The timestamp does not wrap around. -/
def Viewstamp.Short (vs : Viewstamp) : Prop := vs.ts + 1 < UInt32.size

instance (vs : Viewstamp) : Decidable vs.Short := Nat.decLt _ _

theorem Viewstamp.Short.succ {vs : Viewstamp} (h : vs.Short) : ∃ w, vs.succ = some w :=
  ⟨_, if_pos h⟩

namespace Cohort

variable {s s' s₁ : Cohort} {p : PullRef} {n k : ℕ} {u w vs latest : Viewstamp} {rle : LogEntry}
  {arg : ExecuteArg} {T : Viewstamp → Option ExecuteArg}

/-! ## The rounds of a loop -/

/-- The number of entries from `vs` on. -/
def ahead (s : Cohort) (vs : Viewstamp) : ℕ := (s.log.keys.toFinset.filter fun w => vs ≤ w).card

theorem ahead_lt_rounds (s : Cohort) (vs : Viewstamp) : s.ahead vs < s.log.size + 1 := by
  refine Nat.lt_succ_of_le ?_
  calc (s.log.keys.toFinset.filter fun w => vs ≤ w).card
      ≤ s.log.keys.toFinset.card := Finset.card_filter_le _ _
    _ ≤ s.log.keys.length := s.log.keys.toFinset_card_le
    _ = s.log.size := List.length_map _

/-- There are fewer entries to go after one of them. -/
theorem ahead_lt (hmem : vs ∈ s.log) (hlt : vs < w) : s.ahead w < s.ahead vs := by
  refine Finset.card_lt_card (Finset.ssubset_iff_subset_ne.mpr ⟨fun u hu => ?_, fun heq => ?_⟩)
  · obtain ⟨hu, hle⟩ := Finset.mem_filter.mp hu
    exact Finset.mem_filter.mpr ⟨hu, hlt.le.trans hle⟩
  · have hvs : vs ∈ s.log.keys.toFinset.filter fun u => vs ≤ u :=
      Finset.mem_filter.mpr ⟨List.mem_toFinset.mpr (AList.mem_keys.mp hmem), le_rfl⟩
    rw [← heq] at hvs
    exact absurd (Finset.mem_filter.mp hvs).2 (not_le.mpr hlt)

theorem ahead_congr (h : s'.entry = s.entry) : s'.ahead = s.ahead := by
  have hkeys : s'.log.keys.toFinset = s.log.keys.toFinset := by
    ext u
    rw [List.mem_toFinset, List.mem_toFinset, ← AList.mem_keys, ← AList.mem_keys, mem_log_iff,
      mem_log_iff, h]
  funext vs
  rw [ahead, ahead, hkeys]

/-! ## A log in order -/

/-- What follows is further. -/
def Onward (s : Cohort) : Prop := ∀ u w, s.vsNext u = some w → u < w

theorem Onward.walk_lt (h : s.Onward) (hwalk : s.Walk u w) : u < w := by
  induction hwalk with
  | single hw => exact h _ _ hw
  | tail _ hw ih => exact ih.trans (h _ _ hw)

/-- What has been sent out and is not committed waits for acknowledgements. -/
def Outstanding (s : Cohort) : Prop := ∀ w, s.committed < w → w ≤ s.latest →
  ∃ rle ack, s.log.lookup w = some rle ∧ rle.ack = some ack

/-- The loops over the log go through. -/
structure Passable (s : Cohort) : Prop where
  onward : s.Onward
  forms : ∀ vs arg, s.entry vs = some arg → vs.ts = 0 → ∃ f, arg.request = .form f
  short : ∀ vs ∈ s.log, vs.Short
  executed : s.executed.Short
  committed : s.committed.Short
  waits : s.Outstanding

theorem exists_vsNext (h : u.Short) : ∃ w, s.vsNext u = some w := by
  unfold Cohort.vsNext
  split
  · exact ⟨_, rfl⟩
  · exact h.succ

/-- The entries wait for the same acknowledgements. -/
def SameAcks (s s' : Cohort) : Prop := ∀ w rle, s.log.lookup w = some rle →
  ∃ rle', s'.log.lookup w = some rle' ∧ rle'.ack = rle.ack

theorem Passable.executes (h : s.Passable) (he : Executes s s') (hacks : SameAcks s s')
    (hcommitted : s'.committed = s.committed) (hexec : s'.executed.Short) : s'.Passable := by
  refine ⟨fun u w hw => h.onward u w (he.vsNext ▸ hw), he.entry ▸ h.forms,
    fun vs hvs => h.short vs (he.mem.mp hvs), hexec, hcommitted ▸ h.committed, fun w hlt hle => ?_⟩
  obtain ⟨rle, ack, hrle, hack⟩ := h.waits w (hcommitted ▸ hlt) (he.latest ▸ hle)
  obtain ⟨rle', hrle', hsame⟩ := hacks w rle hrle
  exact ⟨rle', ack, hrle', hsame.trans hack⟩

/-- A round of `advance_executed` goes through. -/
theorem Passable.execute (h : s.Passable) (hvs : s.vsNext s.executed = some vs)
    (hrle : s.log.lookup vs = some rle) : ∃ s', s.execute vs rle = some s' ∧ s'.Passable ∧
      Executes s s' ∧ s'.committed = s.committed := by
  have hsome : ∃ s', s.execute vs rle = some s' := by
    unfold Cohort.execute
    by_cases hts : vs.ts = 0
    · obtain ⟨f, hf⟩ := h.forms vs rle.arg (entry_eq_some.mpr ⟨rle, hrle, rfl⟩) hts
      rw [if_neg (not_not.mpr hts)]
      split
      · exact ⟨_, rfl⟩
      · next hop => cases hf.symm.trans hop
    · rw [if_pos hts]
      exact ⟨_, rfl⟩
  obtain ⟨s', hs'⟩ := hsome
  have he := executes_execute hvs hrle hs'
  have hshort : s'.executed.Short := by
    rw [executed_execute hs']
    exact h.short vs (Keyed.mem_of_lookup hrle)
  have hacks : SameAcks s s' := by
    have hlog : s'.log = s.log.insert vs { rle with state := .executing } := by
      obtain ⟨-, rfl⟩ | ⟨-, f, -, rfl⟩ := execute_cases hs'
      · rfl
      · rfl
    intro w rle' hrle'
    rw [hlog]
    by_cases hw : w = vs
    · subst hw
      obtain rfl := Option.some.inj (hrle.symm.trans hrle')
      exact ⟨_, AList.lookup_insert _, rfl⟩
    · exact ⟨rle', (AList.lookup_insert_ne hw).trans hrle', rfl⟩
  have hcommitted : s'.committed = s.committed := by
    obtain ⟨-, rfl⟩ | ⟨-, f, -, rfl⟩ := execute_cases hs'
    · rfl
    · rfl
  exact ⟨s', hs', h.executes he hacks hcommitted hshort, he, hcommitted⟩

theorem exists_executeFrom (h : s.Passable) (hvs : s.vsNext s.executed = some vs)
    (hk : s.ahead vs < k) :
    ∃ s', executeFrom k vs s = some s' ∧ s'.Passable ∧ s'.committed = s.committed := by
  induction k generalizing s vs with
  | zero => exact absurd hk (Nat.not_lt_zero _)
  | succ k ih =>
    unfold executeFrom
    split_ifs with hle
    · split
      · exact ⟨s, rfl, h, rfl⟩
      · next rle hrle =>
        have hmem := Keyed.mem_of_lookup hrle
        obtain ⟨s₁, hs₁, h₁, he, hcommitted⟩ := h.execute hvs hrle
        obtain ⟨w, hw⟩ := exists_vsNext (s := s₁) (h.short vs hmem)
        have hrest : s₁.ahead w < k := by
          have hlt := ahead_lt hmem (h₁.onward _ _ hw)
          rw [ahead_congr he.entry]
          omega
        obtain ⟨s', hs', h', hsame⟩ := ih h₁ ((executed_execute hs₁).symm ▸ hw) hrest
        refine ⟨s', ?_, h', hsame.trans hcommitted⟩
        rw [hs₁, Option.bind_eq_bind, Option.bind_some, hw]
        exact hs'
    · exact ⟨s, rfl, h, rfl⟩

/-- **`advance_executed` comes to an end.** -/
theorem Passable.advanceExecuted (h : s.Passable) :
    ∃ s', s.advanceExecuted = some s' ∧ s'.Passable ∧ s'.committed = s.committed := by
  obtain ⟨vs, hvs⟩ := exists_vsNext (s := s) h.executed
  obtain ⟨s', hs', h'⟩ := exists_executeFrom h hvs (ahead_lt_rounds s vs)
  refine ⟨s', ?_, h'⟩
  rw [Cohort.advanceExecuted, hvs]
  exact hs'

/-- An entry is committed: nothing waits for it any more. -/
theorem Passable.commit (h : s.Passable) (ack : Ackset Mid) (hlt : s.committed < vs)
    (hrle : s.log.lookup vs = some rle) :
    Passable { s.setEntry vs { rle with ack := none, state := .committed } with
      committed := vs, decided := (vs, rle.arg, ack) :: s.decided } := by
  have hentry : entry { s.setEntry vs { rle with ack := none, state := .committed } with
      committed := vs, decided := (vs, rle.arg, ack) :: s.decided } = s.entry :=
    entry_insert rfl rfl hrle rfl
  refine ⟨h.onward, hentry ▸ h.forms, fun w hw => h.short w ?_, h.executed,
    h.short vs (Keyed.mem_of_lookup hrle), fun w hlt' hle' => ?_⟩
  · rw [mem_log_iff] at hw ⊢
    exact hentry ▸ hw
  · obtain ⟨rle', ack', hrle', hack'⟩ := h.waits w (hlt.trans hlt') hle'
    exact ⟨rle', ack', (AList.lookup_insert_ne (ne_of_gt hlt')).trans hrle', hack'⟩

theorem exists_commitFrom (h : s.Passable) (hvs : s.vsNext s.committed = some vs)
    (hk : s.ahead vs < k) :
    ∃ s', commitFrom k vs s = some s' ∧ s'.Passable ∧ s.committed ≤ s'.committed := by
  induction k generalizing s vs with
  | zero => exact absurd hk (Nat.not_lt_zero _)
  | succ k ih =>
    unfold commitFrom
    split_ifs with hle
    · have hlt := h.onward _ _ hvs
      obtain ⟨rle, ack, hrle, hack⟩ := h.waits vs hlt hle
      rw [hrle, Option.bind_eq_bind, Option.bind_some, hack, Option.bind_eq_bind, Option.bind_some]
      split_ifs
      · have hmem := Keyed.mem_of_lookup hrle
        have h₁ := h.commit ack hlt hrle
        obtain ⟨w, hw⟩ := exists_vsNext (s := s) (h.short vs hmem)
        have hentry : (s.setEntry vs { rle with ack := none, state := .committed }).entry =
            s.entry := entry_insert rfl rfl hrle rfl
        have hrest : (s.setEntry vs { rle with ack := none, state := .committed }).ahead w < k := by
          rw [ahead_congr hentry]
          exact lt_of_lt_of_le (ahead_lt hmem (h.onward _ _ hw)) (Nat.le_of_lt_succ hk)
        obtain ⟨s', hs', h', hrise⟩ := ih h₁ hw hrest
        exact ⟨s', Option.bind_eq_some_iff.mpr ⟨w, hw, hs'⟩, h', hlt.le.trans hrise⟩
      · exact ⟨s, rfl, h, le_rfl⟩
    · exact ⟨s, rfl, h, le_rfl⟩

/-- **`advance_committed` comes to an end.** -/
theorem Passable.advanceCommitted (h : s.Passable) :
    ∃ s', s.advanceCommitted = some s' ∧ s'.Passable ∧ s.committed ≤ s'.committed := by
  obtain ⟨vs, hvs⟩ := exists_vsNext (s := s) h.committed
  obtain ⟨s₁, hs₁, h₁, hrise⟩ := exists_commitFrom h hvs (ahead_lt_rounds s vs)
  obtain ⟨s', hs', h', hsame⟩ := h₁.advanceExecuted
  refine ⟨s', ?_, h', hrise.trans hsame.ge⟩
  rw [Cohort.advanceCommitted, hvs, Option.bind_eq_bind, Option.bind_some, hs₁]
  exact hs'

/-- The log is in order: the loops over it go through, and so do the pulls. -/
structure Sturdy (s : Cohort) : Prop where
  tabled : s.Tabled
  forms : ∀ vs arg, s.entry vs = some arg → vs.ts = 0 → ∃ f, arg.request = .form f ∧ f.prev.Short
  short : ∀ vs ∈ s.log, vs.Short
  executed : s.executed.Short
  committed : s.committed.Short
  /-- What is not committed is of the view of what is, and waits for acknowledgements. -/
  waits : ∀ w, s.committed < w → w ≤ s.latest →
    w.vid = s.committed.vid ∧ ∃ rle ack, s.log.lookup w = some rle ∧ rle.ack = some ack

theorem Sturdy.passable (h : s.Sturdy) : s.Passable where
  onward _ _ hw := h.tabled.lt hw
  forms vs arg harg hts := (h.forms vs arg harg hts).imp fun _ => And.left
  short := h.short
  executed := h.executed
  committed := h.committed
  waits w hlt hle := (h.waits w hlt hle).2

/-- A log stays in order while it is executed. -/
theorem Sturdy.executes (h : s.Sturdy) (he : Executes s s') (h' : s'.Passable)
    (hrise : s.committed ≤ s'.committed) : s'.Sturdy := by
  refine ⟨h.tabled.congr he.entry he.jumps, he.entry ▸ h.forms, h'.short, h'.executed, h'.committed,
    fun w hlt hle => ⟨?_, h'.waits w hlt hle⟩⟩
  have hvid := (h.waits w (lt_of_le_of_lt hrise hlt) (he.latest ▸ hle)).1
  exact le_antisymm (hvid.le.trans (Viewstamp.vid_le hrise)) (Viewstamp.vid_le hlt.le)

theorem Sturdy.advanceExecuted (h : s.Sturdy) : ∃ s', s.advanceExecuted = some s' ∧ s'.Sturdy := by
  obtain ⟨s', hs', h', hsame⟩ := h.passable.advanceExecuted
  exact ⟨s', hs', h.executes (executes_advanceExecuted hs') h' hsame.ge⟩

theorem Sturdy.advanceCommitted (h : s.Sturdy) :
    ∃ s', s.advanceCommitted = some s' ∧ s'.Sturdy := by
  obtain ⟨s', hs', h', hrise⟩ := h.passable.advanceCommitted
  exact ⟨s', hs', h.executes (executes_advanceCommitted hs') h' hrise⟩

/-! ## The checks of a pull -/

theorem Sturdy.same (h : s.Sturdy) (hlog : s'.log = s.log) (hjumps : s'.jumps = s.jumps)
    (hexec : s'.executed = s.executed) (hcommitted : s'.committed = s.committed)
    (hlatest : s'.latest = s.latest) : s'.Sturdy := by
  have hentry : s'.entry = s.entry := by
    funext vs
    rw [entry, entry, hlog]
  refine ⟨h.tabled.congr hentry hjumps, hentry ▸ h.forms, hlog ▸ h.short, hexec ▸ h.executed,
    hcommitted ▸ h.committed, ?_⟩
  rw [hcommitted, hlatest, hlog]
  exact h.waits

/-- A log in order, and what the pull `p` has asked for can be in one. -/
structure Fit (p : PullRef) (s : Cohort) : Prop where
  sturdy : s.Sturdy
  asked : ∀ vs ∈ (s.pulls p).ack.expected, .zero < vs ∧ vs.Short

/-- A view is asked for. -/
theorem Fit.upto (h : Fit p s) (hlatest : latest.Short) :
    ∃ s', s.pullUpto p latest = some s' ∧ Fit p s' := by
  have hsome : ∃ s', s.pullUpto p latest = some s' := by
    obtain ⟨next, hnext⟩ := hlatest.succ
    obtain ⟨base, hbase⟩ := h.sturdy.executed.succ
    unfold Cohort.pullUpto
    rw [hnext]
    split_ifs
    · exact ⟨s, rfl⟩
    · rw [hbase, Option.bind_eq_bind, Option.bind_some]
      exact ⟨_, if_neg fun hend => by cases hend.2⟩
    · rw [Option.bind_eq_bind, Option.bind_some]
      exact ⟨_, if_neg fun hend => by cases hend.2⟩
  obtain ⟨s', hs'⟩ := hsome
  obtain ⟨vss, hwants, hvss⟩ := wants_pullUpto hs'
  refine ⟨s', hs', ?_, fun vs hvs => ?_⟩
  · obtain ⟨o, k, S, P, rfl⟩ := hwants.eq
    exact h.sturdy.same rfl rfl rfl rfl rfl
  · obtain hvs | ⟨hvs, -⟩ := (hwants.expected vs).mp hvs
    · exact h.asked vs hvs
    · obtain ⟨-, hts, hlt⟩ := (hvss vs).mp hvs
      exact ⟨lt_of_le_of_lt (Viewstamp.zero_le _) hlt,
        lt_of_le_of_lt (Nat.succ_le_succ hts) hlatest⟩

theorem Fit.setPull (h : Fit p s) (pls : PullLogState)
    (hpls : pls.ack.expected = (s.pulls p).ack.expected) : Fit p (s.setPull p pls) := by
  refine ⟨h.sturdy.same rfl rfl rfl rfl rfl, ?_⟩
  rw [pulls_setPull, hpls]
  exact h.asked

/-- The pull goes down a view, if it can. -/
theorem Fit.descend (h : Fit p s) : ∃ s', s.descend p = some s' ∧ Fit p s' := by
  obtain ⟨next, hnext⟩ := exists_vsNext (s := s) h.sturdy.executed
  unfold Cohort.descend
  rw [hnext, Option.bind_eq_bind, Option.bind_some]
  split_ifs
  · split
    · exact ⟨s, rfl, h⟩
    · next rle hrle =>
      obtain ⟨f, hf, hprev⟩ := h.sturdy.forms _ rle.arg (entry_eq_some.mpr ⟨rle, hrle, rfl⟩) rfl
      split
      · next f' hf' =>
        obtain rfl := Payload.form.inj (hf.symm.trans hf')
        exact (h.setPull { s.pulls p with bottomview := f.prev.vid } rfl).upto hprev
      · next hop => cases hf.symm.trans hop
  · exact ⟨_, rfl, h.setPull _ rfl⟩

/-- **A check goes through.** -/
theorem Fit.check (h : Fit p s) : ∃ s', s.fetchlogCheck p = some s' ∧ Fit p s' := by
  obtain ⟨s₁, hs₁, h₁⟩ := h.sturdy.advanceCommitted
  have hasked : Fit p s₁ := by
    refine ⟨h₁, ?_⟩
    rw [(executes_advanceCommitted hs₁).pulls]
    exact h.asked
  obtain ⟨s₂, hs₂, h₂⟩ := hasked.descend
  unfold fetchlogCheck
  rw [hs₁, Option.bind_eq_bind, Option.bind_some, hs₂, Option.bind_some]
  dsimp only
  split_ifs
  · obtain ⟨o, -, heq⟩ := closed_eq p s₂
    have h₃ := h₂.setPull { s₂.pulls p with donecb := none } rfl
    refine ⟨_, rfl, ?_⟩
    change Fit p (s₂.closed p)
    rw [heq]
    exact ⟨h₃.sturdy.same rfl rfl rfl rfl rfl, h₃.asked⟩
  · exact ⟨s₂, rfl, h₂⟩

/-! ## The answers to a pull -/

/-- What is fetched is logged. -/
theorem Sturdy.logged (h : s.Sturdy) (hleads : arg.LeadsTo vs) (hshort : vs.Short)
    (hform : vs.ts = 0 → ∃ f, arg.request = .form f ∧ f.prev.Short) (hnew : vs ∉ s.log)
    {J : Keyed Viewstamp Viewstamp} (hJ : s.insert vs (.plain arg) =
      some { s with jumps := J, log := s.log.add vs (.plain arg) }) :
    Sturdy { s with jumps := J, log := s.log.add vs (.plain arg) } := by
  refine ⟨h.tabled.logged hleads hJ hnew, fun w arg' hw hts => ?_, fun w hw => ?_, h.executed,
    h.committed, fun w hlt hle => ?_⟩
  · obtain hw | ⟨-, rfl, rfl⟩ := entry_add_cases rfl hw
    · exact h.forms w arg' hw hts
    · exact hform hts
  · obtain rfl | hw := Keyed.mem_add.mp hw
    · exact hshort
    · exact h.short w hw
  · obtain ⟨hvid, rle, ack, hrle, hack⟩ := h.waits w hlt hle
    have hne : w ≠ vs := fun heq => hnew (heq ▸ Keyed.mem_of_lookup hrle)
    exact ⟨hvid, rle, ack, (Keyed.lookup_add_ne hne).trans hrle, hack⟩

/-- The source has formations where views start. -/
def FormsFirst (T : Viewstamp → Option ExecuteArg) : Prop :=
  ∀ vs arg, T vs = some arg → .zero < vs → vs.ts = 0 → ∃ f, arg.request = .form f ∧ f.prev.Short

theorem exists_insert (s : Cohort) (h : vs.ts = 0 → ∃ f, rle.arg.request = .form f) :
    ∃ s', s.insert vs rle = some s' := by
  unfold Cohort.insert
  split_ifs with hts
  · exact ⟨_, rfl⟩
  · obtain ⟨f, hf⟩ := h (not_not.mp hts)
    split
    · exact ⟨_, rfl⟩
    · next hop => cases hf.symm.trans hop

/-- An answer is taken in. -/
theorem Fit.received (h : Fit p s) (hleads : arg.LeadsTo vs) (hshort : vs.Short)
    (hform : vs.ts = 0 → ∃ f, arg.request = .form f ∧ f.prev.Short) :
    ∃ t, s.received p vs (some arg) = some t ∧ Fit p t := by
  have hsome : ∃ t, s.received p vs (some arg) = some t := by
    unfold Cohort.received
    dsimp only
    split_ifs
    · exact ⟨_, rfl⟩
    · have hplain : vs.ts = 0 → ∃ f, (LogEntry.plain arg).arg.request = .form f := fun hts =>
        (hform hts).imp fun f hf => hf.1
      obtain ⟨s₁, hs₁⟩ := exists_insert s hplain
      rw [hs₁]
      exact ⟨_, rfl⟩
  obtain ⟨t, ht⟩ := hsome
  refine ⟨t, ht, ?_⟩
  cases receives ht with
  | stored hmem => exact h.setPull _ rfl
  | failed hnew hnone => cases hnone
  | @logged arg' J hnew hsome hJ =>
    obtain rfl := Option.some.inj hsome
    have hlogged : Fit p { s with jumps := J, log := s.log.add vs (.plain arg) } :=
      ⟨h.sturdy.logged hleads hshort hform hnew hJ, h.asked⟩
    exact hlogged.setPull _ rfl

/-- **An answer goes through.** -/
theorem Fit.reply (h : Fit p s) (hcb : s.calls.lookup n = some (.fetchlogCb p vs))
    (hexp : vs ∈ (s.pulls p).ack.expected) (hT : ∀ vs arg, T vs = some arg → arg.LeadsTo vs)
    (hforms : FormsFirst T) (harg : T vs = some arg) :
    ∃ s', s.fetch T p (.reply n) = some s' ∧ Fit p s' := by
  obtain ⟨hpos, hshort⟩ := h.asked vs hexp
  have h₀ : Fit p { s with calls := s.calls.erase n } :=
    ⟨h.sturdy.same rfl rfl rfl rfl rfl, h.asked⟩
  obtain ⟨t, ht, h₁⟩ := h₀.received (hT vs arg harg) hshort (hforms vs arg harg hpos)
  obtain ⟨s', hs', h'⟩ := h₁.check
  refine ⟨s', ?_, h'⟩
  change s.replied p n T = some s'
  unfold replied
  rw [hcb]
  dsimp only
  rw [if_pos rfl, Group.completed, hcb, harg]
  change fetchlogCb p vs (some arg) { s with calls := s.calls.erase n } = some s'
  rw [fetchlogCb_eq, ht]
  exact hs'

theorem Fit.commit (h : Fit p s) (hvs : vs.Short) :
    ∃ s', s.fetch T p (.commit vs) = some s' ∧ Fit p s' := by
  have hshort : (max s.committed vs).Short := by
    obtain heq | heq := max_choice s.committed vs
    · rw [heq]
      exact h.sturdy.committed
    · rw [heq]
      exact hvs
  have h₀ : Sturdy { s with committed := max s.committed vs } := by
    refine ⟨h.sturdy.tabled.congr rfl rfl, h.sturdy.forms, h.sturdy.short, h.sturdy.executed,
      hshort, fun w hlt hle => ?_⟩
    · obtain ⟨hlt, hlt'⟩ := max_lt_iff.mp hlt
      obtain ⟨hvid, hrest⟩ := h.sturdy.waits w hlt hle
      refine ⟨le_antisymm ?_ (Viewstamp.vid_le (max_lt hlt hlt').le), hrest⟩
      exact hvid.le.trans (Viewstamp.vid_le (le_max_left _ _))
  obtain ⟨s', hs', h'⟩ := h₀.advanceExecuted
  refine ⟨s', hs', h', ?_⟩
  rw [(executes_advanceExecuted hs').pulls]
  exact h.asked

end Cohort

end Falcon
