import Falcon.Replication.Chains

/-!
# Replication/Fetches — a pull of the log, from `pull_log` to `donecb`

A cohort pulls its log up to `latest` from another one.  The pull goes down the chain of `latest`
view by view, as the formations come in; the answers come in any order, and what is committed is
executed meanwhile (`Cohort.fetch`).
-/

namespace Falcon

/-- What happens while a log is pulled. -/
inductive Fetch
  /-- The call `n` is answered. -/
  | reply (n : ℕ)
  /-- The call `n` fails. -/
  | fail (n : ℕ)
  /-- The log is committed up to `vs` at least, and executed. -/
  | commit (vs : Viewstamp)
  deriving DecidableEq, Repr

namespace Cohort

variable {s s' s₁ s₂ t : Cohort} {p : PullRef} {n : ℕ} {u w vs latest : Viewstamp}
  {arg : ExecuteArg} {resp : Option ExecuteArg} {A T : Viewstamp → Option ExecuteArg}

/-- The callback of the call `n` of the pull `p` runs, with what `A` has. -/
def replied (p : PullRef) (n : ℕ) (A : Viewstamp → Option ExecuteArg) (s : Cohort) :
    Option Cohort :=
  match s.calls.lookup n with
  | some (.fetchlogCb q vs) =>
    if q = p then Group.completed n ((A vs).map .fetchlog) s else none
  | _ => none

/-- A step of the pull `p`; `T` is what the source has. -/
def fetch (T : Viewstamp → Option ExecuteArg) (p : PullRef) (s : Cohort) : Fetch → Option Cohort
  | .reply n => s.replied p n T
  | .fail n => s.replied p n fun _ => none
  | .commit vs => { s with committed := max s.committed vs }.advanceExecuted

/-- `fetchlog_cb` up to `fetchlog_check`. -/
def received (p : PullRef) (vs : Viewstamp) (resp : Option ExecuteArg) (s : Cohort) :
    Option Cohort :=
  let receive (s : Cohort) : Cohort :=
    s.setPull p { s.pulls p with
      ack := { (s.pulls p).ack with received := (s.pulls p).ack.received.insert vs } }
  if vs ∈ s.log then some (receive s)
  else
    match resp with
    | none => some (s.setPull p { s.pulls p with ok := false })
    | some arg => (s.insert vs (.plain arg)).map receive

theorem fetchlogCb_eq :
    s.fetchlogCb p vs resp = (s.received p vs resp).bind fun s => s.fetchlogCheck p := by
  unfold fetchlogCb received
  dsimp only
  split_ifs
  · rfl
  · cases resp with
    | none => rfl
    | some arg =>
      simp only [Option.bind_eq_bind, Option.bind_map]
      rfl

/-- An answer is taken in, and then the pull is checked. -/
theorem replied_cases (hs' : s.replied p n A = some s') :
    ∃ vs t, s.calls.lookup n = some (.fetchlogCb p vs) ∧
      { s with calls := s.calls.erase n }.received p vs (A vs) = some t ∧
        t.fetchlogCheck p = some s' := by
  unfold replied at hs'
  split at hs'
  · next q vs hcb =>
    split_ifs at hs' with hq
    subst hq
    obtain ⟨cb, hcb', hs'⟩ := Option.bind_eq_some_iff.mp hs'
    obtain rfl := Option.some.inj (hcb.symm.trans hcb')
    have hs' : { s with calls := s.calls.erase n }.fetchlogCb q vs (A vs) = some s' := by
      cases hA : A vs with
      | none =>
        rw [hA] at hs'
        exact hs'
      | some arg =>
        rw [hA] at hs'
        exact hs'
    rw [fetchlogCb_eq] at hs'
    obtain ⟨t, ht, hs'⟩ := Option.bind_eq_some_iff.mp hs'
    exact ⟨vs, t, hcb, ht, hs'⟩
  · cases hs'

/-- What an answer changes. -/
inductive Receives (p : PullRef) (vs : Viewstamp) (resp : Option ExecuteArg) (s : Cohort) :
    Cohort → Prop
  | stored (hmem : vs ∈ s.log) : Receives p vs resp s (s.setPull p { s.pulls p with
      ack := { (s.pulls p).ack with received := (s.pulls p).ack.received.insert vs } })
  | failed (hnew : vs ∉ s.log) (hresp : resp = none) :
      Receives p vs resp s (s.setPull p { s.pulls p with ok := false })
  | logged {arg : ExecuteArg} {J : Keyed Viewstamp Viewstamp} (hnew : vs ∉ s.log)
      (hresp : resp = some arg) (hJ : s.insert vs (.plain arg) =
        some { s with jumps := J, log := s.log.add vs (.plain arg) }) :
      Receives p vs resp s ({ s with jumps := J, log := s.log.add vs (.plain arg) }.setPull p
        { s.pulls p with
          ack := { (s.pulls p).ack with received := (s.pulls p).ack.received.insert vs } })

theorem receives (ht : s.received p vs resp = some t) : Receives p vs resp s t := by
  unfold received at ht
  dsimp only at ht
  split_ifs at ht with hmem
  · exact Option.some.inj ht ▸ .stored hmem
  · cases resp with
    | none => exact Option.some.inj ht ▸ .failed hmem rfl
    | some arg =>
      obtain ⟨s₁, hs₁, rfl⟩ := Option.map_eq_some_iff.mp ht
      obtain ⟨J, rfl⟩ := insert_eq hs₁
      exact .logged hmem rfl hs₁

/-! ## What a pull follows -/

/-- `u` is in the log, or asked for. -/
def Held (p : PullRef) (u : Viewstamp) (s : Cohort) : Prop :=
  u ∈ s.log ∨ u ∈ (s.pulls p).ack.expected

/-- The pull `p` follows the chain of `latest`: it has asked for what is on the chain down to the
view `v`, and for all of it once it is at the bottom. -/
structure Tracks (T : Viewstamp → Option ExecuteArg) (latest : Viewstamp) (p : PullRef)
    (v : ViewId) (s : Cohort) : Prop where
  tabled : s.Tabled
  forms : ∀ vs arg, vs.ts = 0 → s.executed < vs → s.entry vs = some arg →
    T vs = some arg ∧ Chain T latest vs
  asked : ∀ n vs, s.calls.lookup n = some (.fetchlogCb p vs) →
    Chain T latest vs ∧ vs ∈ (s.pulls p).ack.expected
  sane : (s.pulls p).Sane s.log
  covers : ∀ u, Chain T latest u → s.executed < u → v ≤ u.vid → Held p u s
  bottom : (s.pulls p).bottomdone = true → ∀ u, Chain T latest u → s.executed < u → Held p u s

theorem Tracks.executes (h : Tracks T latest p v s) (he : Executes s s') :
    Tracks T latest p v s' := by
  have hle := he.le h.tabled
  have hheld : ∀ {u}, Held p u s → Held p u s' := fun hu => by
    unfold Held
    rw [he.mem, he.pulls]
    exact hu
  refine ⟨h.tabled.congr he.entry he.jumps, fun vs arg hts hlt harg => ?_, ?_, ?_,
    fun u hu hlt hvid => ?_, fun hdone u hu hlt => ?_⟩
  · exact h.forms vs arg hts (lt_of_le_of_lt hle hlt) (he.entry ▸ harg)
  · rw [he.calls, he.pulls]
    exact h.asked
  · rw [he.pulls]
    exact ⟨h.sane.expected, h.sane.received, h.sane.subset,
      fun vs hvs => he.mem.mpr (h.sane.stored vs hvs)⟩
  · exact hheld (h.covers u hu (lt_of_le_of_lt hle hlt) hvid)
  · rw [he.pulls] at hdone
    exact hheld (h.bottom hdone u hu (lt_of_le_of_lt hle hlt))

/-- The pull changes, and asks for what it did. -/
theorem Tracks.pull (h : Tracks T latest p v s) (pls : PullLogState) (hpls : pls.Sane s.log)
    (hexpected : pls.ack.expected = (s.pulls p).ack.expected)
    (hdone : pls.bottomdone = true → ∀ u, Chain T latest u → s.executed < u → Held p u s) :
    Tracks T latest p v (s.setPull p pls) := by
  have hself : (s.setPull p pls).pulls p = pls := pulls_setPull
  have hheld : ∀ {u}, Held p u s → Held p u (s.setPull p pls) := fun hu => by
    unfold Held
    rw [hself, hexpected]
    exact hu
  refine ⟨h.tabled.congr rfl rfl, h.forms, fun n vs hcb => ?_, ?_, fun u hu hlt hvid => ?_,
    fun hend u hu hlt => ?_⟩
  · rw [hself, hexpected]
    exact h.asked n vs hcb
  · rw [hself]
    exact hpls
  · exact hheld (h.covers u hu hlt hvid)
  · rw [hself] at hend
    exact hheld (hdone hend u hu hlt)

/-- An answer to the call for `vs` is taken in. -/
theorem Tracks.receives (h : Tracks T latest p v s)
    (hT : ∀ vs arg, T vs = some arg → arg.LeadsTo vs)
    (hresp : ∀ arg, resp = some arg → T vs = some arg) (hvs : Chain T latest vs)
    (hexp : vs ∈ (s.pulls p).ack.expected) (ht : Receives p vs resp s t) :
    Tracks T latest p v t := by
  cases ht with
  | stored hmem => exact h.pull _ (h.sane.receive (fun _ => id) hmem hexp) rfl h.bottom
  | failed hnew hnone =>
    exact h.pull _ ⟨h.sane.expected, h.sane.received, h.sane.subset, h.sane.stored⟩ rfl h.bottom
  | @logged arg J hnew hsome hJ =>
    have harg := hresp arg hsome
    have hmem : ∀ w ∈ s.log, w ∈ s.log.add vs (.plain arg) := fun w hw =>
      Keyed.mem_add.mpr (Or.inr hw)
    have hlog : Tracks T latest p v { s with jumps := J, log := s.log.add vs (.plain arg) } := by
      refine ⟨h.tabled.logged (hT vs arg harg) hJ hnew, fun w arg' hts hlt hw => ?_, h.asked,
        ⟨h.sane.expected, h.sane.received, h.sane.subset, fun w hw => hmem w (h.sane.stored w hw)⟩,
        fun u hu hlt hvid => (h.covers u hu hlt hvid).imp_left (hmem u),
        fun hdone u hu hlt => (h.bottom hdone u hu hlt).imp_left (hmem u)⟩
      obtain hw | ⟨-, rfl, rfl⟩ := entry_add_cases rfl hw
      · exact h.forms w arg' hts hlt hw
      · exact ⟨harg, hvs⟩
    exact hlog.pull _ (h.sane.receive hmem (Keyed.mem_add.mpr (Or.inl rfl)) hexp) rfl hlog.bottom

/-- The pull asks for a part of the chain. -/
theorem Tracks.wants (h : Tracks T latest p v s) {vss : List Viewstamp} (hs' : Wants p vss s s')
    (hvss : ∀ vs ∈ vss, Chain T latest vs) : Tracks T latest p v s' := by
  obtain ⟨o, k, S, P, rfl⟩ := hs'.eq
  obtain ⟨E, hE⟩ := hs'.pull
  have hsub : ∀ {vs}, vs ∈ (s.pulls p).ack.expected → vs ∈ (P p).ack.expected := fun hvs =>
    (hs'.expected _).mpr (Or.inl hvs)
  have hsane : (P p).Sane s.log := by
    refine ⟨hs'.sorted h.sane.expected, ?_, ?_, ?_⟩
    · rw [show P p = _ from hE]
      exact h.sane.received
    · intro vs hvs
      rw [show P p = _ from hE] at hvs
      exact hsub (h.sane.subset hvs)
    · intro vs hvs
      rw [show P p = _ from hE] at hvs
      exact h.sane.stored vs hvs
  refine ⟨h.tabled.congr rfl rfl, h.forms, fun n vs hcb => ?_, hsane, fun u hu hlt hvid => ?_,
    fun hdone u hu hlt => ?_⟩
  · obtain hcb | ⟨-, hvs, hnew⟩ := hs'.calls n p vs hcb
    · exact (h.asked n vs hcb).imp_right hsub
    · exact ⟨hvss vs hvs, (hs'.expected vs).mpr (Or.inr ⟨hvs, hnew⟩)⟩
  · exact (h.covers u hu hlt hvid).imp_right hsub
  · change (P p).bottomdone = true at hdone
    rw [show P p = _ from hE] at hdone
    exact (h.bottom hdone u hu hlt).imp_right hsub

/-- The pull asks for the view of `w`, the next entry of the chain. -/
theorem Tracks.upto (h : Tracks T latest p v s) (hw : Chain T latest w)
    (hbetween : ∀ u, Chain T latest u → u.vid < v → u ≤ w) (hs' : s.pullUpto p w = some s') :
    Tracks T latest p w.vid s' := by
  obtain ⟨vss, hwants, hvss⟩ := wants_pullUpto hs'
  have h' := h.wants hwants fun vs hvs => by
    obtain ⟨hvid, hts, -⟩ := (hvss vs).mp hvs
    have heq : vs = ⟨w.vid, vs.ts⟩ := Viewstamp.eq_iff.mpr ⟨hvid, rfl⟩
    rw [heq]
    exact Chain.down hw hts
  obtain ⟨o, k, S, P, rfl⟩ := hwants.eq
  refine ⟨h'.tabled, h'.forms, h'.asked, h'.sane, fun u hu hlt hvid => ?_, h'.bottom⟩
  by_cases hold : v ≤ u.vid
  · exact h'.covers u hu hlt hold
  · have hle := hbetween u hu (not_le.mp hold)
    have hts : u.ts ≤ w.ts := by
      obtain (hlt | ⟨-, hlt⟩) | rfl := Viewstamp.le_iff.mp hle
      · exact absurd (lt_of_lt_of_le hlt hvid) (lt_irrefl _)
      · exact hlt.le
      · exact le_rfl
    by_cases hmem : u ∈ s.log
    · exact Or.inl hmem
    · refine Or.inr ((hwants.expected u).mpr (Or.inr ⟨(hvss u).mpr ⟨?_, hts, hlt⟩, hmem⟩))
      exact le_antisymm (Viewstamp.vid_le hle) hvid

/-- **The pull goes on to the view before**, or has come to the bottom: what is executed next is on
the chain. -/
theorem Tracks.descends (h : Tracks T latest p (s.pulls p).bottomview s)
    (hT : ∀ vs arg, T vs = some arg → arg.LeadsTo vs) (hs' : Descends p s s') :
    Tracks T latest p (s'.pulls p).bottomview s' := by
  cases hs' with
  | waits hnext hlt hnone => exact h
  | @ends next hnext hge =>
    rw [pulls_setPull]
    refine h.pull _ ⟨h.sane.expected, h.sane.received, h.sane.subset, h.sane.stored⟩ rfl
      fun _ u hu hlt => ?_
    by_cases hvid : (s.pulls p).bottomview ≤ u.vid
    · exact h.covers u hu hlt hvid
    · -- `u` is between what is executed and what is executed next
      have hbelow : u.vid < next.vid := lt_of_lt_of_le (not_le.mp hvid) (not_lt.mp hge)
      unfold Cohort.vsNext at hnext
      split at hnext
      · next hjump =>
        obtain rfl := Option.some.inj hnext
        obtain ⟨hts, arg, f, harg, hf, hprev⟩ := h.tabled.jumps _ _ hjump
        have hexec : s.executed < _ := hprev ▸ (h.tabled.leads _ arg harg hts f hf).1
        obtain ⟨hTw, hw⟩ := h.forms _ arg hts hexec harg
        have hle := Chain.below hT hw hu (Viewstamp.lt_iff.mpr (Or.inl hbelow))
          (before_form hts hTw hf)
        exact absurd (hprev ▸ hle) (not_le.mpr hlt)
      · rw [(ts_succ hnext).1] at hbelow
        exact absurd (Viewstamp.vid_le hlt.le) (not_le.mpr hbelow)
  | @goes next rle f s' hnext hlt hrle hf hs' =>
    have hexec : s.executed < ⟨(s.pulls p).bottomview, 0⟩ :=
      Viewstamp.lt_iff.mpr (Or.inl (lt_of_le_of_lt (Viewstamp.vid_le (h.tabled.lt hnext).le) hlt))
    obtain ⟨hTB, hB⟩ := h.forms _ rle.arg rfl hexec (entry_eq_some.mpr ⟨rle, hrle, rfl⟩)
    have hbefore := before_form (T := T) (a := ⟨(s.pulls p).bottomview, 0⟩) rfl hTB hf
    have hprev : Chain T latest f.prev := hB.tail hbefore
    have hbottom : (s'.pulls p).bottomview = f.prev.vid := by
      obtain ⟨vss, hwants, -⟩ := wants_pullUpto hs'
      obtain ⟨E, hE⟩ := hwants.pull
      rw [hE, pulls_setPull]
    rw [hbottom]
    refine (h.pull { s.pulls p with bottomview := f.prev.vid }
      ⟨h.sane.expected, h.sane.received, h.sane.subset, h.sane.stored⟩ rfl h.bottom).upto
      hprev (fun u hu hlt => ?_) hs'
    exact Chain.below hT hB hu (Viewstamp.lt_iff.mpr (Or.inl hlt)) hbefore

/-- The pull is over: a call has failed, or all answers are in. -/
def Over (p : PullRef) (s : Cohort) : Prop :=
  (s.pulls p).ok = false ∨ (s.pulls p).ack.expected.length = (s.pulls p).ack.received.length

theorem fetchlogCheck_cases (hs' : s.fetchlogCheck p = some s') :
    ∃ s₁ s₂, s.advanceCommitted = some s₁ ∧ s₁.descend p = some s₂ ∧
      (¬Over p s₂ ∧ s' = s₂ ∨ Over p s₂ ∧ ∃ o, s₂.Concludes p o ∧
        s' = { s₂.setPull p { s₂.pulls p with donecb := none } with out := o }) := by
  simp only [fetchlogCheck, Option.bind_eq_bind, Option.bind_eq_some_iff] at hs'
  obtain ⟨s₁, hs₁, s₂, hs₂, hs'⟩ := hs'
  refine ⟨s₁, s₂, hs₁, hs₂, ?_⟩
  split_ifs at hs' with hover
  · obtain ⟨o, ho, heq⟩ := closed_eq p s₂
    exact Or.inr ⟨hover, o, ho, (Option.some.inj hs').symm.trans heq⟩
  · exact Or.inl ⟨hover, (Option.some.inj hs').symm⟩

theorem ok_of_answerOf {cb cb' : DoneCb} {ok : Bool} (h : answerOf cb true = answerOf cb' ok) :
    ok = true := by
  cases cb' with
  | replicate sbp vs =>
    cases ok with
    | true => rfl
    | false => cases cb with | _ => cases h
  | newView sbp =>
    cases ok with
    | true => rfl
    | false => cases cb with | _ => cases h

/-- The log has what is on the chain after what is executed. -/
def Complete (T : Viewstamp → Option ExecuteArg) (latest : Viewstamp) (s : Cohort) : Prop :=
  ∀ u, Chain T latest u → s.executed < u → u ∈ s.log

/-- A pull for `cb`, which is called with `true` when the log is complete. -/
structure Pursues (T : Viewstamp → Option ExecuteArg) (latest : Viewstamp) (cb : DoneCb)
    (p : PullRef) (s : Cohort) : Prop where
  tracks : Tracks T latest p (s.pulls p).bottomview s
  done : answerOf cb true ∈ s.out → Complete T latest s

theorem mem_out_iff {o o' : List Output} {cb : DoneCb} {ok : Bool}
    (h : Group.sentAnswers o = Group.sentAnswers o') :
    answerOf cb ok ∈ o ↔ answerOf cb ok ∈ o' := by
  cases cb with
  | replicate sbp vs =>
    rw [answerOf, ← Group.mem_sentAnswers, h, Group.mem_sentAnswers]
  | newView sbp => rw [answerOf, ← Group.mem_sentAnswers, h, Group.mem_sentAnswers]

theorem Descends.answers (h : Descends p s s') :
    Group.sentAnswers s'.out = Group.sentAnswers s.out := by
  cases h with
  | waits hnext hlt hnone => rfl
  | goes hnext hlt hrle hf hs' =>
    obtain ⟨vss, hwants, -⟩ := wants_pullUpto hs'
    exact hwants.answers
  | ends hnext hge => rfl

variable {cb : DoneCb}

theorem Pursues.executes (h : Pursues T latest cb p s) (he : Executes s s') :
    Pursues T latest cb p s' := by
  refine ⟨?_, fun hmem u hu hlt => ?_⟩
  · rw [he.pulls]
    exact h.tracks.executes he
  · rw [he.out] at hmem
    exact he.mem.mpr (h.done hmem u hu (lt_of_le_of_lt (he.le h.tracks.tabled) hlt))

/-- **A pull that is over at the bottom, without a failure, has what is on the chain.** -/
theorem Tracks.complete (h : Tracks T latest p v s) (hover : Over p s)
    (hok : ((s.pulls p).ok && (s.pulls p).bottomdone) = true) : Complete T latest s := by
  obtain ⟨hok, hbottom⟩ := Bool.and_eq_true_iff.mp hok
  have hlen := hover.resolve_left (by rw [hok]; nofun)
  intro u hu hlt
  obtain hmem | hexp := h.bottom hbottom u hu hlt
  · exact hmem
  · exact h.sane.stored u (mem_of_length_eq h.sane.received h.sane.subset hlen.symm hexp)

theorem Pursues.check (h : Pursues T latest cb p s)
    (hT : ∀ vs arg, T vs = some arg → arg.LeadsTo vs) (hs' : s.fetchlogCheck p = some s') :
    Pursues T latest cb p s' := by
  obtain ⟨s₁, s₂, hs₁, hs₂, hs'⟩ := fetchlogCheck_cases hs'
  have h₁ := h.executes (executes_advanceCommitted hs₁)
  have hdescends := descends hs₂
  have h₂ : Pursues T latest cb p s₂ := by
    refine ⟨h₁.tracks.descends hT hdescends, fun hmem => ?_⟩
    have hdone := h₁.done ((mem_out_iff hdescends.answers).mp hmem)
    obtain ⟨o, k, S, P, rfl⟩ := descend_eq hs₂
    exact hdone
  obtain ⟨-, rfl⟩ | ⟨hover, o, ho, rfl⟩ := hs'
  · exact h₂
  · have hsane := h₂.tracks.sane
    have h₃ := h₂.tracks.pull { s₂.pulls p with donecb := none }
      ⟨hsane.expected, hsane.received, hsane.subset, hsane.stored⟩ rfl h₂.tracks.bottom
    have hbottom : ((s₂.setPull p { s₂.pulls p with donecb := none }).pulls p).bottomview =
        (s₂.pulls p).bottomview := by rw [pulls_setPull]
    rw [← hbottom] at h₃
    refine ⟨⟨h₃.tabled.congr rfl rfl, h₃.forms, h₃.asked, h₃.sane, h₃.covers, h₃.bottom⟩,
      fun hmem => ?_⟩
    cases ho with
    | silent hnone => exact h₂.done hmem
    | answer hcb =>
      obtain heq | hmem := List.mem_cons.mp hmem
      · exact h₂.tracks.complete hover (ok_of_answerOf heq)
      · exact h₂.done hmem

theorem Receives.frame (ht : Receives p vs resp s t) :
    t.executed = s.executed ∧ t.out = s.out ∧ (t.pulls p).bottomview = (s.pulls p).bottomview ∧
      ∀ w ∈ s.log, w ∈ t.log := by
  cases ht with
  | stored hmem => exact ⟨rfl, rfl, by rw [pulls_setPull], fun _ => id⟩
  | failed hnew hresp => exact ⟨rfl, rfl, by rw [pulls_setPull], fun _ => id⟩
  | logged hnew hresp hJ =>
    exact ⟨rfl, rfl, by rw [pulls_setPull], fun _ hw => Keyed.mem_add.mpr (Or.inr hw)⟩

theorem Pursues.replied (h : Pursues T latest cb p s)
    (hT : ∀ vs arg, T vs = some arg → arg.LeadsTo vs)
    (hA : ∀ vs arg, A vs = some arg → T vs = some arg) (hs' : s.replied p n A = some s') :
    Pursues T latest cb p s' := by
  obtain ⟨vs, t, hcb, ht, hs'⟩ := replied_cases hs'
  have hreceives := receives ht
  obtain ⟨hexec, hout, hbottom, hlog⟩ := hreceives.frame
  obtain ⟨hvs, hexp⟩ := h.tracks.asked n vs hcb
  have h₀ : Tracks T latest p (s.pulls p).bottomview { s with calls := s.calls.erase n } :=
    ⟨h.tracks.tabled.congr rfl rfl, h.tracks.forms,
      fun n' vs' hcb' => h.tracks.asked n' vs' (Keyed.lookup_of_lookup_erase hcb'),
      h.tracks.sane, h.tracks.covers, h.tracks.bottom⟩
  have h₁ := h₀.receives hT (hA vs) hvs hexp hreceives
  refine Pursues.check ⟨hbottom ▸ h₁, fun hmem u hu hlt => ?_⟩ hT hs'
  rw [hout] at hmem
  rw [hexec] at hlt
  exact hlog u (h.done hmem u hu hlt)

/-- **One step of a pull.** -/
theorem Pursues.fetch (h : Pursues T latest cb p s)
    (hT : ∀ vs arg, T vs = some arg → arg.LeadsTo vs) {e : Fetch} (hs' : s.fetch T p e = some s') :
    Pursues T latest cb p s' := by
  cases e with
  | reply n => exact h.replied hT (fun _ _ => id) hs'
  | fail n => exact h.replied hT (fun _ _ hnone => by cases hnone) hs'
  | commit vs =>
    have h₀ : Pursues T latest cb p { s with committed := max s.committed vs } :=
      ⟨⟨h.tracks.tabled.congr rfl rfl, h.tracks.forms, h.tracks.asked, h.tracks.sane,
        h.tracks.covers, h.tracks.bottom⟩, h.done⟩
    exact h₀.executes (executes_advanceExecuted hs')

/-- A pull is opened: it is at the view of `latest`. -/
theorem Ready.pursues (h : s.Ready) (hT : ∀ vs arg, T vs = some arg → arg.LeadsTo vs)
    (hforms : ∀ vs arg, vs.ts = 0 → s.executed < vs → s.entry vs = some arg →
      T vs = some arg ∧ Chain T latest vs) (hcb : answerOf cb true ∉ s.out) {src : Mid}
    (hs' : s.pullLog src latest cb = some s') : Pursues T latest cb s.nextPull s' := by
  simp only [pullLog, Option.bind_eq_bind, Option.bind_eq_some_iff] at hs'
  obtain ⟨s₁, hs₁, hs'⟩ := hs'
  have hs₁ : (s.opened src latest cb).pullUpto s.nextPull latest = some s₁ := hs₁
  refine Pursues.check ?_ hT hs'
  have hnew : (s.opened src latest cb).pulls s.nextPull =
      ⟨⟨[], []⟩, latest.vid, src, some cb, true, false, latest⟩ := pulls_setPull
  have h₀ : Tracks T latest s.nextPull ⟨latest.vid.counter + 1, 0⟩
      (s.opened src latest cb) := by
    refine ⟨h.tabled.congr rfl rfl, hforms, fun n vs hcall => ?_, ?_, fun u hu hlt hvid => ?_, ?_⟩
    · exact absurd (h.fresh n _ vs hcall) (lt_irrefl _)
    · rw [hnew]
      exact ⟨List.Pairwise.nil, List.Pairwise.nil, fun _ h => absurd h List.not_mem_nil,
        fun _ h => absurd h List.not_mem_nil⟩
    · -- nothing on the chain is after `latest`
      have hle := Viewstamp.vid_le (Chain.le hT hu)
      refine absurd (hvid.trans hle) (not_le.mpr (ViewId.lt_iff.mpr (Or.inl ?_)))
      exact Nat.lt_succ_self _
    · rw [hnew]
      intro h
      cases h
  have h₁ := h₀.upto .refl (fun u hu _ => Chain.le hT hu) hs₁
  obtain ⟨vss, hwants, -⟩ := wants_pullUpto hs₁
  obtain ⟨E, hE⟩ := hwants.pull
  refine ⟨?_, fun hmem => ?_⟩
  · rw [hE, hnew]
    exact h₁
  · exact absurd ((mem_out_iff hwants.answers).mp hmem) hcb

/-- **A finished pull is complete**, if the jump table is that of the log and the formations lead
on.  In whatever order the answers come, and whatever is executed meanwhile, the log has all that
leads to `latest` and is not executed when `donecb` is called with `true`. -/
theorem pull_complete {src : Mid} {s₀ : Cohort} {es : List Fetch} (h : s.Ready)
    (hT : ∀ vs arg, T vs = some arg → arg.LeadsTo vs)
    (hforms : ∀ vs arg, vs.ts = 0 → s.executed < vs → s.entry vs = some arg →
      T vs = some arg ∧ Chain T latest vs) (hcb : answerOf cb true ∉ s.out)
    (hs₀ : s.pullLog src latest cb = some s₀) (hrun : es.foldlM (fetch T s.nextPull) s₀ = some s')
    (hdone : answerOf cb true ∈ s'.out) :
    ∀ u, Chain T latest u → s'.executed < u → u ∈ s'.log := by
  have hpursues : Pursues T latest cb s.nextPull s' :=
    Run.keeps (I := Pursues T latest cb s.nextPull) (fun _ _ _ hs' h => h.fetch hT hs') hrun
      (h.pursues hT hforms hcb hs₀)
  exact hpursues.done hdone

/-- The formations of the first two views of a group. -/
def twoViews (vs : Viewstamp) : Option ExecuteArg :=
  if vs = ⟨⟨2, 1⟩, 0⟩ then some (ViewForm.arg ⟨⟨⟨1, 1⟩, 0⟩, ⟨⟨2, 1⟩, 1, [2]⟩⟩)
  else if vs = ⟨⟨1, 1⟩, 0⟩ then some (synthetic 1).arg
  else none

theorem leadsTo_twoViews (vs : Viewstamp) (arg : ExecuteArg) (h : twoViews vs = some arg) :
    arg.LeadsTo vs := by
  unfold twoViews at h
  rintro - f hf
  split_ifs at h with htwo hone
  · subst htwo
    obtain rfl := Option.some.inj h
    obtain rfl := Payload.form.inj hf
    decide
  · subst hone
    obtain rfl := Option.some.inj h
    obtain rfl := Payload.form.inj hf
    decide

/-- A cohort that joins pulls the formation of the second view, and then that of the first one. -/
theorem pull_complete_joiner : ∃ s₀ s',
    (boot 2).pullLog 1 ⟨⟨2, 1⟩, 0⟩ (.newView ⟨1, 0⟩) = some s₀ ∧
      [Fetch.reply 0, .reply 1].foldlM (fetch twoViews 0) s₀ = some s' ∧
        ∀ u, Chain twoViews ⟨⟨2, 1⟩, 0⟩ u → s'.executed < u → u ∈ s'.log := by
  have hrun : (((boot 2).pullLog 1 ⟨⟨2, 1⟩, 0⟩ (.newView ⟨1, 0⟩)).bind fun s₀ =>
      [Fetch.reply 0, .reply 1].foldlM (fetch twoViews 0) s₀).any
        (fun s' => decide (answerOf (.newView ⟨1, 0⟩) true ∈ s'.out)) = true := by decide
  obtain ⟨s', hs', hdone⟩ := (Option.any_eq_true _ _).mp hrun
  obtain ⟨s₀, hs₀, hs'⟩ := Option.bind_eq_some_iff.mp hs'
  exact ⟨s₀, s', hs₀, hs', pull_complete (ready_boot 2) leadsTo_twoViews
    (fun _ _ _ _ harg => by cases harg) (by decide) hs₀ hs' (of_decide_eq_true hdone)⟩

/-- A cohort that joins, with a jump past the first view that no entry of its log accounts for. -/
def misled : Cohort := { boot 2 with jumps := AList.insert .zero ⟨⟨2, 1⟩, 0⟩ ∅ }

/-- Its pull does not go down to the first view. -/
theorem pull_incomplete : ∃ s₀ s', misled.executed.vid ≤ (⟨2, 1⟩ : ViewId) ∧ misled.log.keys = [] ∧
    misled.pullLog 1 ⟨⟨2, 1⟩, 0⟩ (.newView ⟨1, 0⟩) = some s₀ ∧
    [Fetch.reply 0].foldlM (fetch twoViews 0) s₀ = some s' ∧
    answerOf (.newView ⟨1, 0⟩) true ∈ s'.out ∧
    ∃ u, Chain twoViews ⟨⟨2, 1⟩, 0⟩ u ∧ s'.executed < u ∧ u ∉ s'.log := by
  have hrun : ((misled.pullLog 1 ⟨⟨2, 1⟩, 0⟩ (.newView ⟨1, 0⟩)).bind fun s₀ =>
      [Fetch.reply 0].foldlM (fetch twoViews 0) s₀).any (fun s' => decide (
        answerOf (.newView ⟨1, 0⟩) true ∈ s'.out ∧ s'.executed = .zero ∧
        ⟨⟨1, 1⟩, 0⟩ ∉ s'.log)) = true := by decide
  obtain ⟨s', hs', hrun⟩ := (Option.any_eq_true _ _).mp hrun
  obtain ⟨hdone, hexec, hmissing⟩ := of_decide_eq_true hrun
  obtain ⟨s₀, hs₀, hs'⟩ := Option.bind_eq_some_iff.mp hs'
  exact ⟨s₀, s', by decide, rfl, hs₀, hs', hdone, ⟨⟨1, 1⟩, 0⟩, .single (by decide),
    hexec ▸ by decide, hmissing⟩

end Cohort

end Falcon
