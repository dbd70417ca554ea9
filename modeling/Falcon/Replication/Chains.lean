import Falcon.Replication.Positions

/-!
# Replication/Chains — what leads to an entry of the log, and the tables a cohort walks by

What leads to an entry is a chain: the one before it in the same view, and from the start of a view
the one its formation follows (`Chain`).  A cohort walks it forwards by its jump table, as it
executes its log, and backwards by the formations it has logged, as it pulls what is missing; the
table is that of the formations (`Tabled`).
-/

namespace Falcon

/-! ## Chains -/

/-- What is before `vs` in the logs `T`: the entry before it in its view, or the one that the
formation of the view follows. -/
def before (T : Viewstamp → Option ExecuteArg) (vs : Viewstamp) : Option Viewstamp :=
  match vs.ts with
  | k + 1 => some ⟨vs.vid, k⟩
  | 0 => (T vs).bind fun arg =>
    match arg.request with
    | .form f => some f.prev
    | .operation _ => none

/-- The entries that lead to the first one. -/
abbrev Chain (T : Viewstamp → Option ExecuteArg) : Viewstamp → Viewstamp → Prop :=
  Relation.ReflTransGen fun a b => before T a = some b

section Chains

variable {T : Viewstamp → Option ExecuteArg} {a b u l : Viewstamp} {v : ViewId} {j k : ℕ}
  {arg : ExecuteArg} {f : ViewForm}

theorem before_cases (h : before T a = some b) : b.vid = a.vid ∧ a.ts = b.ts + 1 ∨
    a.ts = 0 ∧ ∃ arg f, T a = some arg ∧ arg.request = .form f ∧ b = f.prev := by
  unfold before at h
  split at h
  · next k hk =>
    obtain rfl := Option.some.inj h
    exact Or.inl ⟨rfl, hk⟩
  · next hzero =>
    obtain ⟨arg, harg, h⟩ := Option.bind_eq_some_iff.mp h
    split at h
    · next f hf => exact Or.inr ⟨hzero, arg, f, harg, hf, (Option.some.inj h).symm⟩
    · cases h

theorem before_form (hts : a.ts = 0) (harg : T a = some arg) (hf : arg.request = .form f) :
    before T a = some f.prev := by
  unfold before
  split
  · next k hk => omega
  · simp only [harg, Option.bind_some, hf]

/-- Chains go back. -/
theorem before_lt (hT : ∀ vs arg, T vs = some arg → arg.LeadsTo vs) (h : before T a = some b) :
    b < a := by
  obtain ⟨hvid, hts⟩ | ⟨hts, arg, f, harg, hf, rfl⟩ := before_cases h
  · exact Viewstamp.lt_iff.mpr (Or.inr ⟨hvid, by omega⟩)
  · exact (hT a arg harg hts f hf).1

theorem Chain.le (hT : ∀ vs arg, T vs = some arg → arg.LeadsTo vs) (h : Chain T a b) : b ≤ a := by
  induction h with
  | refl => exact le_rfl
  | tail _ h ih => exact (before_lt hT h).le.trans ih

/-- The entries of a view lead to the later ones. -/
theorem Chain.down (h : Chain T l ⟨v, k⟩) (hj : j ≤ k) : Chain T l ⟨v, j⟩ := by
  induction k with
  | zero =>
    obtain rfl := Nat.le_zero.mp hj
    exact h
  | succ k ih =>
    obtain rfl | hj := Nat.eq_or_lt_of_le hj
    · exact h
    · exact ih (h.tail rfl) (Nat.le_of_lt_succ hj)

/-- **A chain has one entry before another.** -/
theorem Chain.below (hT : ∀ vs arg, T vs = some arg → arg.LeadsTo vs) (ha : Chain T l a)
    (hu : Chain T l u) (hlt : u < a) (hb : before T a = some b) : u ≤ b := by
  have hunique : Relator.RightUnique fun a b : Viewstamp => before T a = some b :=
    fun _ _ _ h h' => Option.some.inj (h.symm.trans h')
  obtain hau | hua := Relation.ReflTransGen.total_of_right_unique hunique ha hu
  · obtain rfl | ⟨c, hc, hcu⟩ := hau.cases_head
    · exact absurd hlt (lt_irrefl _)
    · obtain rfl := Option.some.inj (hb.symm.trans hc)
      exact Chain.le hT hcu
  · exact absurd (Chain.le hT hua) (not_le.mpr hlt)

theorem before_grow {T' : Viewstamp → Option ExecuteArg}
    (hgrow : ∀ vs arg, T vs = some arg → T' vs = some arg) (h : before T a = some b) :
    before T' a = some b := by
  obtain ⟨hvid, hts⟩ | ⟨hts, arg, f, harg, hf, rfl⟩ := before_cases h
  · unfold before
    rw [hts, ← hvid]
  · exact before_form hts (hgrow a arg harg) hf

/-- A chain stays one as more is logged. -/
theorem Chain.grow {T' : Viewstamp → Option ExecuteArg}
    (hgrow : ∀ vs arg, T vs = some arg → T' vs = some arg) (h : Chain T l a) : Chain T' l a :=
  Relation.ReflTransGen.mono (fun _ _ => before_grow hgrow) _ _ h

/-- A chain down to `a` has all that there is above `a` once more is logged. -/
theorem Chain.of_grown {T' : Viewstamp → Option ExecuteArg}
    (hT' : ∀ vs arg, T' vs = some arg → arg.LeadsTo vs)
    (hgrow : ∀ vs arg, T vs = some arg → T' vs = some arg) (ha : Chain T l a) (hu : Chain T' l u)
    (hle : a.vid ≤ u.vid) : Chain T l u := by
  have habove : ∀ a, Chain T l a → ∀ u, Chain T' l u → a ≤ u → Chain T l u := by
    intro a ha
    induction ha with
    | refl => exact fun u hu hle => le_antisymm hle (Chain.le hT' hu) ▸ .refl
    | @tail b c hb hc ih =>
      intro u hu hle
      obtain hbu | hub := le_or_gt b u
      · exact ih u hu hbu
      · have hle' := Chain.below hT' (Chain.grow hgrow hb) hu hub (before_grow hgrow hc)
        exact le_antisymm hle hle' ▸ hb.tail hc
  obtain hau | hua := le_or_gt a u
  · exact habove a ha u hu hau
  · obtain hlt | ⟨hvid, hts⟩ := Viewstamp.lt_iff.mp hua
    · exact absurd hle (not_le.mpr hlt)
    · have heq : u = ⟨a.vid, u.ts⟩ := Viewstamp.eq_iff.mpr ⟨hvid, rfl⟩
      rw [heq]
      exact Chain.down (k := a.ts) ha hts.le

/-- What is above an entry of a chain has another one of the chain before it. -/
theorem Chain.above (ha : Chain T l a) (hne : a ≠ l) : ∃ b, Chain T l b ∧ before T b = some a := by
  obtain rfl | ⟨b, hb, hba⟩ := ha.cases_tail
  · exact absurd rfl hne
  · exact ⟨b, hb, hba⟩

end Chains

namespace Cohort

variable {s s' s₁ s₂ : Cohort} {p : PullRef} {n : ℕ} {u w vs latest : Viewstamp}
  {arg : ExecuteArg}

/-! ## What a check changes -/

/-- Entries are committed and executed; what is executed goes on as the log does. -/
structure Executes (s s' : Cohort) : Prop where
  entry : s'.entry = s.entry
  jumps : s'.jumps = s.jumps
  latest : s'.latest = s.latest
  pulls : s'.pulls = s.pulls
  nextPull : s'.nextPull = s.nextPull
  calls : s'.calls = s.calls
  nextCall : s'.nextCall = s.nextCall
  out : s'.out = s.out
  walk : Relation.ReflTransGen (fun u w => s.vsNext u = some w) s.executed s'.executed

theorem Executes.refl (s : Cohort) : Executes s s := ⟨rfl, rfl, rfl, rfl, rfl, rfl, rfl, rfl, .refl⟩

theorem Executes.vsNext (h : Executes s s') : s'.vsNext = s.vsNext := by
  funext vs
  unfold Cohort.vsNext
  rw [h.jumps]

theorem Executes.trans (h : Executes s s₁) (h' : Executes s₁ s₂) : Executes s s₂ where
  entry := h'.entry.trans h.entry
  jumps := h'.jumps.trans h.jumps
  latest := h'.latest.trans h.latest
  pulls := h'.pulls.trans h.pulls
  nextPull := h'.nextPull.trans h.nextPull
  calls := h'.calls.trans h.calls
  nextCall := h'.nextCall.trans h.nextCall
  out := h'.out.trans h.out
  walk := h.walk.trans (h.vsNext ▸ h'.walk)

theorem Executes.mem (h : Executes s s') : vs ∈ s'.log ↔ vs ∈ s.log := by
  rw [mem_log_iff, mem_log_iff, h.entry]

/-- The next entry is executed. -/
theorem executes_execute {rle : LogEntry} (hvs : s.vsNext s.executed = some vs)
    (hrle : s.log.lookup vs = some rle) (hs' : s.execute vs rle = some s') : Executes s s' := by
  obtain ⟨hts, rfl⟩ | ⟨hts, f, hf, rfl⟩ := execute_cases hs'
  · exact ⟨entry_insert rfl rfl hrle rfl, rfl, rfl, rfl, rfl, rfl, rfl, rfl, .single hvs⟩
  · exact ⟨entry_insert rfl rfl hrle rfl, rfl, rfl, rfl, rfl, rfl, rfl, rfl, .single hvs⟩

theorem executes_executeFrom {k : ℕ} (hvs : s.vsNext s.executed = some vs)
    (hs' : executeFrom k vs s = some s') : Executes s s' := by
  induction k generalizing s vs with
  | zero => cases hs'
  | succ k ih =>
    unfold executeFrom at hs'
    split_ifs at hs' with hle
    · split at hs'
      · exact Option.some.inj hs' ▸ .refl s
      · next rle hrle =>
        simp only [Option.bind_eq_bind, Option.bind_eq_some_iff] at hs'
        obtain ⟨s₁, hs₁, vs', hvs', hs'⟩ := hs'
        rw [← executed_execute hs₁] at hvs'
        exact (executes_execute hvs hrle hs₁).trans (ih hvs' hs')
    · exact Option.some.inj hs' ▸ .refl s

theorem executes_advanceExecuted (hs' : s.advanceExecuted = some s') : Executes s s' := by
  obtain ⟨vs, hvs, hs'⟩ := Option.bind_eq_some_iff.mp hs'
  exact executes_executeFrom hvs hs'

theorem executes_commitFrom {k : ℕ} (hs' : commitFrom k vs s = some s') : Executes s s' := by
  induction k generalizing s vs with
  | zero => cases hs'
  | succ k ih =>
    unfold commitFrom at hs'
    split_ifs at hs' with hle
    · simp only [Option.bind_eq_bind, Option.bind_eq_some_iff] at hs'
      obtain ⟨rle, hrle, ack, hack, hs'⟩ := hs'
      split_ifs at hs' with hmaj
      · obtain ⟨vs', -, hs'⟩ := Option.bind_eq_some_iff.mp hs'
        refine Executes.trans ?_ (ih hs')
        exact ⟨entry_insert rfl rfl hrle rfl, rfl, rfl, rfl, rfl, rfl, rfl, rfl, .refl⟩
      · exact Option.some.inj hs' ▸ .refl s
    · exact Option.some.inj hs' ▸ .refl s

theorem executes_advanceCommitted (hs' : s.advanceCommitted = some s') : Executes s s' := by
  simp only [advanceCommitted, Option.bind_eq_bind, Option.bind_eq_some_iff] at hs'
  obtain ⟨vs, -, s₁, hs₁, hs'⟩ := hs'
  exact (executes_commitFrom hs₁).trans (executes_advanceExecuted hs')

/-- The pull `p` asks for those of `vss` that are missing. -/
structure Wants (p : PullRef) (vss : List Viewstamp) (s s' : Cohort) : Prop where
  eq : ∃ o k S P, s' = { s with out := o, nextCall := k, calls := S, pulls := P }
  pull : ∃ E, s'.pulls p = { s.pulls p with ack := { (s.pulls p).ack with expected := E } }
  expected : ∀ vs, vs ∈ (s'.pulls p).ack.expected ↔
    vs ∈ (s.pulls p).ack.expected ∨ vs ∈ vss ∧ vs ∉ s.log
  sorted : OrdSet.Sorted (s.pulls p).ack.expected → OrdSet.Sorted (s'.pulls p).ack.expected
  answers : Group.sentAnswers s'.out = Group.sentAnswers s.out
  calls : ∀ n q vs, s'.calls.lookup n = some (.fetchlogCb q vs) →
    s.calls.lookup n = some (.fetchlogCb q vs) ∨ q = p ∧ vs ∈ vss ∧ vs ∉ s.log

theorem wants_foldl (p : PullRef) (vss : List Viewstamp) (s : Cohort) :
    Wants p vss s (vss.foldl (pullOne p) s) := by
  induction vss generalizing s with
  | nil => exact ⟨⟨_, _, _, _, rfl⟩, ⟨_, rfl⟩, by simp, id, rfl, fun _ _ _ h => Or.inl h⟩
  | cons vs vss ih =>
    have h := ih (s.pullOne p vs)
    rw [List.foldl_cons]
    generalize vss.foldl (pullOne p) (s.pullOne p vs) = s' at h
    unfold pullOne at h
    split_ifs at h with hmem
    · refine ⟨h.eq, h.pull, fun w => ?_, h.sorted, h.answers, fun n q w hcb => ?_⟩
      · rw [h.expected, List.mem_cons]
        refine or_congr_right ⟨fun hw => ⟨Or.inr hw.1, hw.2⟩, fun hw => ⟨?_, hw.2⟩⟩
        exact hw.1.resolve_left fun heq => hw.2 (heq ▸ hmem)
      · exact (h.calls n q w hcb).imp_right fun hw => ⟨hw.1, List.mem_cons_of_mem _ hw.2.1, hw.2.2⟩
    · obtain ⟨o, k, S, P, heq⟩ := h.eq
      refine ⟨⟨o, k, S, P, heq⟩, ?_, fun w => ?_, fun hsorted => h.sorted ?_, h.answers,
        fun n q w hcb => ?_⟩
      · obtain ⟨E, hE⟩ := h.pull
        refine ⟨E, hE.trans ?_⟩
        simp only [call, setPull, Function.update_self]
      · rw [h.expected, List.mem_cons]
        simp only [call, setPull, Function.update_self, OrdSet.mem_insert]
        constructor
        · rintro ((rfl | hw) | hw)
          · exact Or.inr ⟨Or.inl rfl, hmem⟩
          · exact Or.inl hw
          · exact Or.inr ⟨Or.inr hw.1, hw.2⟩
        · rintro (hw | ⟨rfl | hw, hnew⟩)
          · exact Or.inl (Or.inr hw)
          · exact Or.inl (Or.inl rfl)
          · exact Or.inr ⟨hw, hnew⟩
      · simp only [call, setPull, Function.update_self]
        exact hsorted.insert
      · obtain hcb | ⟨rfl, hw, hnew⟩ := h.calls n q w hcb
        · by_cases hn : n = s.nextCall
          · subst hn
            have heq := Option.some.inj ((AList.lookup_insert _).symm.trans hcb)
            obtain ⟨rfl, rfl⟩ := Continuation.fetchlogCb.inj heq
            exact Or.inr ⟨rfl, List.mem_cons_self, hmem⟩
          · exact Or.inl ((AList.lookup_insert_ne hn).symm.trans hcb)
        · exact Or.inr ⟨rfl, List.mem_cons_of_mem _ hw, hnew⟩

theorem mem_viewstamps_iff {base : Viewstamp} : u ∈ viewstamps base latest ↔
    u.vid = base.vid ∧ base.ts ≤ u.ts ∧ u.ts ≤ latest.ts := by
  constructor
  · intro hu
    obtain ⟨i, hi, rfl⟩ := List.mem_map.mp hu
    have := List.mem_range.mp hi
    exact ⟨rfl, by simp, by simp; omega⟩
  · rintro ⟨hvid, hge, hle⟩
    have heq : u = ⟨base.vid, u.ts⟩ := Viewstamp.eq_iff.mpr ⟨hvid, rfl⟩
    rw [heq]
    exact mem_viewstamps hge hle

/-- A pull asks for what is missing in the view of `latest`, after what is executed. -/
theorem wants_pullUpto (hs' : s.pullUpto p latest = some s') : ∃ vss, Wants p vss s s' ∧
    ∀ vs, vs ∈ vss ↔ vs.vid = latest.vid ∧ vs.ts ≤ latest.ts ∧ s.executed < vs := by
  obtain ⟨hlt, rfl⟩ | ⟨hle, base, hbase, rfl⟩ := pullUpto_cases hs'
  · refine ⟨[], wants_foldl p [] s', fun vs => iff_of_false (List.not_mem_nil) ?_⟩
    rintro ⟨hvid, -, hexec⟩
    exact absurd (Viewstamp.vid_le hexec.le) (not_le.mpr (hvid ▸ hlt))
  · refine ⟨_, wants_foldl p _ s, fun vs => mem_viewstamps_iff.trans ?_⟩
    split_ifs at hbase with hvid
    · obtain ⟨hbvid, hbts⟩ := ts_succ hbase
      constructor
      · rintro ⟨h1, h2, h3⟩
        refine ⟨h1.trans (hbvid.trans hvid.symm), h3, Viewstamp.lt_iff.mpr (Or.inr ⟨?_, by omega⟩)⟩
        exact (h1.trans hbvid).symm
      · rintro ⟨h1, h2, h3⟩
        refine ⟨h1.trans (hvid.trans hbvid.symm), ?_, h2⟩
        obtain hlt | ⟨-, hlt⟩ := Viewstamp.lt_iff.mp h3
        · exact absurd (hvid.symm.trans h1.symm) (ne_of_lt hlt)
        · omega
    · obtain rfl := Option.some.inj hbase
      constructor
      · rintro ⟨h1, h2, h3⟩
        refine ⟨h1, h3, Viewstamp.lt_iff.mpr (Or.inl ?_)⟩
        exact lt_of_le_of_ne (hle.trans h1.ge) fun heq => hvid (h1.symm.trans heq.symm)
      · exact fun ⟨h1, h2, h3⟩ => ⟨h1, Nat.zero_le _, h2⟩

/-! ## The jump table -/

/-- The jump table is that of the formations that are logged, and these lead on. -/
structure Tabled (s : Cohort) : Prop where
  leads : ∀ vs arg, s.entry vs = some arg → arg.LeadsTo vs
  jumps : ∀ u w, s.jumps.lookup u = some w → w.ts = 0 ∧
    ∃ arg f, s.entry w = some arg ∧ arg.request = .form f ∧ f.prev = u

theorem Tabled.congr (h : s.Tabled) (hentry : s'.entry = s.entry) (hjumps : s'.jumps = s.jumps) :
    s'.Tabled := by
  refine ⟨hentry ▸ h.leads, fun u w hw => ?_⟩
  rw [hentry]
  exact h.jumps u w (hjumps ▸ hw)

theorem Tabled.lt (h : s.Tabled) (hw : s.vsNext u = some w) : u < w := by
  unfold Cohort.vsNext at hw
  split at hw
  · next next hnext =>
    obtain rfl := Option.some.inj hw
    obtain ⟨hts, arg, f, harg, hf, rfl⟩ := h.jumps _ _ hnext
    exact (h.leads _ arg harg hts f hf).1
  · exact lt_succ hw

theorem Tabled.logged {rle : LogEntry} {J : Keyed Viewstamp Viewstamp} (h : s.Tabled)
    (harg : rle.arg.LeadsTo vs)
    (hJ : s.insert vs rle = some { s with jumps := J, log := s.log.add vs rle })
    (hnew : vs ∉ s.log) : { s with jumps := J, log := s.log.add vs rle }.Tabled := by
  refine ⟨fun u arg hu => ?_, fun u w hw => ?_⟩
  · obtain hu | ⟨-, rfl, rfl⟩ := entry_add_cases rfl hu
    · exact h.leads u arg hu
    · exact harg
  · obtain hw | ⟨hts, rfl, f, hf, hu⟩ := insert_jumps hJ hw
    · obtain ⟨hts, arg, f, harg, hf⟩ := h.jumps u w hw
      exact ⟨hts, arg, f, entry_add_of_some rfl harg, hf⟩
    · exact ⟨hts, _, f, entry_add_self rfl (entry_eq_none.mpr hnew), hf, hu⟩

/-- What is executed goes forward. -/
theorem Executes.le (h : Executes s s') (ht : s.Tabled) : s.executed ≤ s'.executed := by
  have hwalk := h.walk
  generalize s'.executed = w at hwalk
  induction hwalk with
  | refl => exact le_rfl
  | tail _ hnext ih => exact ih.trans (ht.lt hnext).le

theorem pulls_setPull {pls : PullLogState} : (s.setPull p pls).pulls p = pls :=
  Function.update_self _ _ _

/-! ## The tables of a cohort -/

/-- What a cohort has in its tables: the jumps are those of its log, and pulls are numbered in the
order in which they are opened. -/
structure Ready (s : Cohort) : Prop where
  tabled : s.Tabled
  fresh : ∀ n q vs, s.calls.lookup n = some (.fetchlogCb q vs) → q < s.nextPull
  /-- A pull that is not open is at no view. -/
  unused : ∀ q, s.nextPull ≤ q → (s.pulls q).bottomview = .zero

theorem Ready.frame (h : s.Ready) (htabled : s'.Tabled)
    (hcalls : ∀ n q vs, s'.calls.lookup n = some (.fetchlogCb q vs) →
      s.calls.lookup n = some (.fetchlogCb q vs)) (hnext : s'.nextPull = s.nextPull)
    (hbottom : ∀ q, (s'.pulls q).bottomview = (s.pulls q).bottomview) : s'.Ready := by
  refine ⟨htabled, fun n q vs hcb => ?_, fun q hq => ?_⟩
  · rw [hnext]
    exact h.fresh n q vs (hcalls n q vs hcb)
  · rw [hbottom]
    exact h.unused q (hnext ▸ hq)

theorem bottomview_setPull {pls : PullLogState} (h : pls.bottomview = (s.pulls p).bottomview)
    (q : PullRef) : ((s.setPull p pls).pulls q).bottomview = (s.pulls q).bottomview := by
  simp only [setPull, Function.update_apply]
  split_ifs with hq
  · rw [hq, h]
  · rfl

/-- A pull that has been opened asks for something. -/
theorem Ready.wants (h : s.Ready) (htabled : s'.Tabled) (hp : p < s.nextPull) {vss : List Viewstamp}
    (hs' : Wants p vss s s') (hother : ∀ q ≠ p, s'.pulls q = s.pulls q) : s'.Ready := by
  obtain ⟨o, k, S, P, rfl⟩ := hs'.eq
  refine ⟨htabled, fun n q vs hcb => ?_, fun q hq => ?_⟩
  · obtain hcb | ⟨rfl, -⟩ := hs'.calls n q vs hcb
    · exact h.fresh n q vs hcb
    · exact hp
  · have hne : q ≠ p := ne_of_gt (lt_of_lt_of_le hp hq)
    rw [hother q hne]
    exact h.unused q hq

theorem pulls_pullUpto_ne (hs' : s.pullUpto p w = some s') {q : PullRef} (hq : q ≠ p) :
    s'.pulls q = s.pulls q := by
  obtain ⟨-, rfl⟩ | ⟨-, base, -, rfl⟩ := pullUpto_cases hs'
  · rfl
  · refine Run.foldl_rel (r := fun s s' : Cohort => s'.pulls q = s.pulls q) (fun _ => rfl)
      (fun _ _ _ h h' => h'.trans h) (fun s vs => ?_) _ s
    unfold pullOne
    split_ifs
    · rfl
    · exact Function.update_of_ne hq _ _

theorem Ready.upto (h : s.Ready) (hp : p < s.nextPull) (hs' : s.pullUpto p w = some s') :
    s'.Ready := by
  obtain ⟨vss, hwants, -⟩ := wants_pullUpto hs'
  refine h.wants ?_ hp hwants fun q hq => pulls_pullUpto_ne hs' hq
  obtain ⟨o, k, S, P, rfl⟩ := hwants.eq
  exact h.tabled.congr rfl rfl

theorem Ready.opened (h : s.Ready) (src : Mid) (latest : Viewstamp) (cb : DoneCb) :
    (s.opened src latest cb).Ready := by
  refine ⟨h.tabled.congr rfl rfl, fun n q vs hcb => Nat.lt_succ_of_lt (h.fresh n q vs hcb),
    fun q hq => ?_⟩
  have hlt : s.nextPull < q := hq
  rw [pulls_opened (ne_of_gt hlt)]
  exact h.unused q hlt.le

theorem Ready.descend (h : s.Ready) (hs' : s.descend p = some s') : s'.Ready := by
  cases descends hs' with
  | waits hnext hlt hnone => exact h
  | @goes next rle f s' hnext hlt hrle hf hs' =>
    -- a pull that is not open is at the bottom
    have hp : p < s.nextPull := by
      by_contra hge
      rw [h.unused p (not_lt.mp hge)] at hlt
      exact absurd hlt (not_lt.mpr (ViewId.zero_le _))
    have h₁ : (s.setPull p { s.pulls p with bottomview := f.prev.vid }).Ready := by
      refine ⟨h.tabled.congr rfl rfl, h.fresh, fun q hq => ?_⟩
      simp only [setPull, Function.update_of_ne (ne_of_gt (lt_of_lt_of_le hp hq))]
      exact h.unused q hq
    exact h₁.upto hp hs'
  | ends hnext hge =>
    exact h.frame (h.tabled.congr rfl rfl) (fun _ _ _ => id) rfl (bottomview_setPull rfl)

/-- **A move leaves the tables in order.** -/
theorem Ready.move {i : Input} (h : s.Ready) (hmove : Move i s s') : s'.Ready := by
  have htabled := h.tabled.congr hmove.entry hmove.jumps
  cases hmove with
  | called hi hcb =>
    exact h.frame htabled (fun _ _ _ hcb => Keyed.lookup_of_lookup_erase hcb) rfl fun _ => rfl
  | replicateForm hi hprimary hlog hsends =>
    refine h.frame htabled (fun n q vs hcb => ?_) rfl fun _ => rfl
    refine (hsends.calls n _ hcb).resolve_right fun ⟨_, _, _, _, heq⟩ => ?_
    cases heq
  | propose hopen hdone hmaj hmaj' hnone hnv hsends =>
    refine h.frame htabled (fun n q vs hcb => ?_) rfl fun _ => rfl
    refine (hsends.calls n _ hcb).resolve_right fun ⟨_, _, _, _, heq⟩ => ?_
    cases heq
  | pull hpulls hs' => exact (h.opened _ _ _).upto (Nat.lt_succ_self _) hs'
  | descend hs' => exact h.descend hs'
  | closed hend ho =>
    exact h.frame htabled (fun _ _ _ => id) rfl (bottomview_setPull rfl)
  | received hi hmem => exact h.frame htabled (fun _ _ _ => id) rfl (bottomview_setPull rfl)
  | notFetched hi hnew => exact h.frame htabled (fun _ _ _ => id) rfl (bottomview_setPull rfl)
  | @ask a u w hw hu hnew hopen hcurrent hnone =>
    refine h.frame htabled (fun n q vs hcb => ?_) rfl fun _ => rfl
    by_cases hn : n = s.nextCall
    · subst hn
      cases Option.some.inj ((AList.lookup_insert _).symm.trans hcb)
    · exact (AList.lookup_insert_ne hn).symm.trans hcb
  | _ => exact h.frame htabled (fun _ _ _ => id) rfl fun _ => rfl

theorem Ready.moves {i : Input} (h : s.Ready) (hmoves : Moves i s s') : s'.Ready := by
  induction hmoves with
  | refl => exact h
  | tail _ hmove ih => exact ih.move hmove

/-- A view that is formed is not logged yet, or as it is. -/
def Renews (i : Input) (s : Cohort) : Prop := ∀ sbp f, i = .call sbp (.initView f) →
  ∀ arg, s.entry ⟨f.view.vid, 0⟩ = some arg → arg = f.arg

theorem Tabled.begins {i : Input} (h : s.Tabled) (hi : i.Leads) (hsame : s.Renews i)
    (hs₁ : Begins i s s₁) : s₁.Tabled := by
  have hold : ∀ {u w}, s.jumps.lookup u = some w → w.ts = 0 ∧
      ∃ arg f, s₁.entry w = some arg ∧ arg.request = .form f ∧ f.prev = u := fun hw => by
    obtain ⟨hts, arg, f, harg, hf⟩ := h.jumps _ _ hw
    exact ⟨hts, arg, f, hs₁.entry_of_some harg, hf⟩
  refine ⟨fun vs arg harg => ?_, fun u w hw => ?_⟩
  · exact (hs₁.entry_cases harg).elim (h.leads vs arg) fun hnew => hnew.2.leadsTo hi
  · cases hs₁ with
    | initiates hstart hs' =>
      obtain ⟨-, -, o, S, hsends, rfl⟩ := hs'
      exact hold hw
    | issues hin hmode hvid hprimary hcache hvs hsends =>
      obtain ⟨L, rfl⟩ := hcache.eq
      exact hold hw
    | @forms sbp f J hin hnew hprimary hJ =>
      obtain hw | ⟨hts, rfl, g, hg, hu⟩ := insert_jumps hJ hw
      · exact hold hw
      · refine ⟨hts, f.arg, g, ?_, hg, hu⟩
        cases hentry : s.entry ⟨f.view.vid, 0⟩ with
        | some arg => exact hsame sbp f hin arg hentry ▸ entry_add_of_some rfl hentry
        | none =>
          refine Eq.trans (entry_add_self rfl hentry) ?_
          rfl
    | logs hin hcheck hlt hnew hJ =>
      obtain hw | ⟨hts, rfl, g, hg, hu⟩ := insert_jumps hJ hw
      · exact hold hw
      · exact ⟨hts, _, g, entry_add_self rfl (entry_eq_none.mpr hnew), hg, hu⟩
    | fetches hin hcb hnew hJ =>
      obtain hw | ⟨hts, rfl, g, hg, hu⟩ := insert_jumps hJ hw
      · exact hold hw
      · exact ⟨hts, _, g, entry_add_self rfl (entry_eq_none.mpr hnew), hg, hu⟩
    | _ => exact hold hw

theorem Ready.begins {i : Input} (h : s.Ready) (hi : i.Leads) (hsame : s.Renews i)
    (hs₁ : Begins i s s₁) : s₁.Ready := by
  have htabled := h.tabled.begins hi hsame hs₁
  cases hs₁ with
  | initiates hstart hs' =>
    obtain ⟨-, -, o, S, hsends, rfl⟩ := hs'
    refine h.frame htabled (fun n q vs hcb => ?_) rfl fun _ => rfl
    refine (hsends.calls n _ hcb).resolve_right fun ⟨_, _, _, _, heq⟩ => ?_
    cases heq
  | issues hin hmode hvid hprimary hcache hvs hsends =>
    obtain ⟨L, rfl⟩ := hcache.eq
    refine h.frame htabled (fun n q vs hcb => ?_) rfl fun _ => rfl
    refine (hsends.calls n _ hcb).resolve_right fun ⟨_, _, _, _, heq⟩ => ?_
    cases heq
  | fetches hin hcb hnew hJ =>
    exact h.frame htabled (fun _ _ _ hcb => Keyed.lookup_of_lookup_erase hcb) rfl fun _ => rfl
  | _ => exact h.frame htabled (fun _ _ _ => id) rfl fun _ => rfl

/-- **The tables of a cohort stay in order**, whatever it handles. -/
theorem Ready.step {i : Input} (h : s.Ready) (hm : s.Managed) (hi : i.Leads) (hsame : s.Renews i)
    (hs' : s.step i = some s') : s'.Ready := by
  obtain ⟨s₂, hs₂, rfl⟩ := Option.map_eq_some_iff.mp hs'
  obtain ⟨s₁, hs₁, hmoves⟩ := handles_handle hm.steady hs₂
  have h₂ := (h.begins hi hsame hs₁).moves hmoves
  exact ⟨h₂.tabled.congr rfl rfl, h₂.fresh, h₂.unused⟩

theorem ready_boot (mid : Mid) : (boot mid).Ready := by
  refine ⟨⟨fun _ _ harg => ?_, fun _ _ hw => ?_⟩, fun _ _ _ hcb => ?_, fun _ _ => rfl⟩
  · cases harg
  · cases hw
  · cases hcb

end Cohort

end Falcon
