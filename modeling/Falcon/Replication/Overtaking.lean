import Falcon.Replication.Accepts
import Falcon.Replication.Assertions
import Falcon.Replication.Reports

/-!
# Replication/Overtaking — what keeps the members of a view behind its primary

The primary of a view that is proposed has the furthest log of those that have accepted.  Until the
view is formed its members fetch what they lack of that log and take nothing else, so none of them
comes to report more than the primary.

* `Reporting.step` — what a cohort has reported bounds its log, until a view is formed or a later
  one is accepted.
* `Reporting.foremost` — of those that have accepted, no member of the view found is further than
  its primary.
* `asserted_of_guarded` — the assertion of `view_change_choose_view` holds in every run in which a
  `REP_VIEW_CHANGE` is accepted with no gap in the log and no entry on its way, the promises are
  kept, and the views proposed again have been heard of by those that accept, and not formed.
-/

namespace Falcon

namespace Group

open Cohort

variable {s s' : Group} {e : Event} {m : Mid} {c c₁ c' : Cohort} {i : Input} {v v' : ViewId}
  {r r' : ViewChangeAccept} {x : Viewstamp} {w : View} {rs : List ViewChangeAccept}
  {nv nv' : NewViewArg}

/-! ## One proposal for each id -/

/-- The attempt that has made a proposal. -/
theorem Collecting.proposer (h : s.Collecting) (hnv : s.Proposal nv) :
    ∃ d b, s.cohorts nv.view.vid.manager = some d ∧ (d.attempts b).nvarg = some nv := by
  obtain ⟨p, hp, hcall⟩ := hnv
  obtain ⟨d, b, hd, hb⟩ := h.proposed.packets p hp nv hcall
  have hm := h.sound.managed _ d hd
  have hlt : b < d.nextAttempt := by
    by_contra hge
    exact nomatch (hm.unused b (not_lt.mp hge)).2.symm.trans hb
  have hmanager := h.named _ d hd b hlt
  rw [← ((hm.sane b).proposed nv hb).2, h.sound.self _ d hd] at hmanager
  exact ⟨d, b, hmanager ▸ hd, hb⟩

/-- **An id has one proposal.** -/
theorem Collecting.unequivocal (h : s.Collecting) : s.Unequivocal := by
  intro nv nv' hnv hnv' hvid
  obtain ⟨d, b, hd, hb⟩ := h.proposer hnv
  obtain ⟨d', b', hd', hb'⟩ := h.proposer hnv'
  rw [← hvid, hd] at hd'
  obtain rfl := Option.some.inj hd'
  obtain rfl := (h.proposed.proposing _ d hd).unique b b' nv nv' hb hb' hvid
  exact Option.some.inj (hb.symm.trans hb')

/-! ## What has been reported -/

/-- The proposals with the id `v` ask for no more than `x`. -/
def Bids (s : Group) (v : ViewId) (x : Viewstamp) : Prop :=
  ∀ nv, s.Proposal nv → nv.view.vid = v → nv.latest ≤ x

/-- The cohort that has reported `r` in the view change `v` has kept to it. -/
structure Answered (s : Group) (v : ViewId) (r : ViewChangeAccept) : Prop where
  newview : ∀ w, r.newview = some w → w.vid ≤ v ∧ ∃ nv, s.Proposal nv ∧ nv.view = w
  cohort : ∃ c, s.cohorts r.myid = some c ∧ v ≤ c.proposedVid ∧ c.Reached r.latest ∧
    ∀ x, r.latest ≤ x → s.Bids v x → c.Kept x v

/-- A later report of a cohort does not fall behind; and it stays within the bound, is of a view
from `v` on, or comes with a view after `v`. -/
structure Continues (s : Group) (v : ViewId) (r r' : ViewChangeAccept) : Prop where
  ahead : r.latest ≤ r'.latest
  within : ∀ x, r.latest ≤ x → s.Bids v x →
    r'.latest ≤ x ∨ v ≤ r'.latest.vid ∨ ∃ w, r'.newview = some w ∧ v < w.vid

/-- The logs of a group, and what has been reported of them. -/
structure Reporting (s : Group) : Prop where
  collecting : s.Collecting
  promised : s.AllPromised
  placed : ∀ m c, s.cohorts m = some c → c.Placed
  charted : ∀ m c, s.cohorts m = some c → c.Charted
  accepted : ∀ m c w, s.cohorts m = some c → c.acceptedView = some w →
    ∃ nv, s.Proposal nv ∧ nv.view = w
  answers : ∀ sbp r, (sbp, .viewChange (.accept r)) ∈ s.answers →
    ∃ p ∈ s.calls, ∃ g, p.sbp = sbp ∧ p.call = .viewChange g ∧ s.Answered g.newvid r
  continues : ∀ v r v' r', s.Reported v r → s.Reported v' r' → r.myid = r'.myid → v < v' →
    s.Continues v r r'

theorem Reporting.answered (h : s.Reporting) (hr : s.Reported v r) : s.Answered v r := by
  obtain ⟨p, hp, g, hcall, rfl, hans⟩ := hr
  obtain ⟨p', hp', g', hsbp, hcall', hanswered⟩ := h.answers p.sbp r hans
  obtain rfl := h.collecting.wired.unique p' hp' p hp hsbp
  rw [hcall] at hcall'
  exact Call.viewChange.inj hcall' ▸ hanswered

/-! ## The accepts a view is chosen from -/

/-- The manager of `w` had an accept of `m` when it proposed `w`. -/
def Heard (s : Group) (w : View) (m : Mid) : Prop :=
  ∃ d ∈ s.cohorts w.vid.manager, ∃ b < d.nextAttempt, ∃ nv ∈ (d.attempts b).nvarg, nv.view = w ∧
    ∃ r ∈ (d.attempts b).vcaccepts, r.myid = m

/-- The view that is proposed again has not been formed, as far as its members know that have
accepted, and each of these was heard when it was proposed before. -/
def Unformed (s : Group) (e : Event) : Prop :=
  ∀ w rs, Chooses s e w rs → ∀ r ∈ rs, r.myid ∈ w.mids → s.Heard w r.myid ∧ r.latest.vid < w.vid

theorem mem_considered {att : ViewChangeAttempt} (h : r ∈ considered att) : r ∈ att.vcaccepts := by
  unfold considered at h
  split at h
  · exact (List.mem_filter.mp h).1
  · exact h

/-- What a view has been chosen from. -/
theorem Collecting.chosen (h : s.Collecting) (hnv : s.Proposal nv) : ∃ qs : List ViewChangeAccept,
    (∀ q ∈ qs, s.Reported nv.view.vid q ∧ q.latest ≤ nv.latest) ∧
      (∃ q ∈ qs, q.myid = nv.view.primary ∧ q.latest = nv.latest) ∧
        ∀ m ∈ nv.view.mids, s.Heard nv.view m → ∃ q ∈ qs, q.myid = m := by
  obtain ⟨d, b, hd, hb⟩ := h.proposer hnv
  have hhearing := h.hears _ d hd b
  have hchosen := hhearing.chosen nv hb
  obtain ⟨hprimary, hmax, hmembers⟩ := furthest_of_chosen hchosen
  refine ⟨considered (d.attempts b), fun q hq => ⟨?_, hmax q hq⟩, hprimary, fun m hm hheard => ?_⟩
  · rw [vid_viewChangeChooseView hchosen]
    exact hhearing.accepts q (mem_considered hq)
  · obtain ⟨d', hd', b', -, nv', hb', hview, q, hq, rfl⟩ := hheard
    obtain rfl : d = d' := Option.some.inj (hd.symm.trans hd')
    obtain rfl := (h.proposed.proposing _ d hd).unique b b' nv nv' hb hb'
      (congrArg View.vid hview).symm
    exact ⟨q, hmembers q hq hm, rfl⟩

/-- The id of an attempt that has proposed nothing is a new one. -/
theorem Collecting.vid_ne {a : AttemptRef} (h : s.Collecting) (hc : s.cohorts m = some c)
    (hopen : (c.attempts a).aborted = false) (hnone : (c.attempts a).nvarg = none)
    (hnv : s.Proposal nv) : nv.view.vid ≠ (c.attempts a).proposedVid := by
  intro hvid
  obtain ⟨d, b, hd, hb⟩ := h.proposer hnv
  have halloc := (h.sound.managed m c hc).alloc hopen
  rw [hvid, h.named m c hc a halloc, h.sound.self m c hc, hc] at hd
  obtain rfl := Option.some.inj hd
  obtain rfl := (h.proposed.proposing m c hc).ahead a b nv hopen hb hvid
  exact nomatch hnone.symm.trans hb

/-- What a manager has heard once it has taken an answer in. -/
theorem Collecting.hearing {n : ℕ} {a : AttemptRef} {u : Mid} {resp : Option Answer}
    (h : s.Collecting) (hc : s.cohorts e.actor = some c)
    (hi : Brings s c e (.callback n (.viewChangePrepareCb a u) resp)) :
    ((c.hears n a u resp).attempts a).Hearing (s.Reported (c.attempts a).proposedVid) := by
  obtain ⟨hcb, -⟩ := act_of_brings hi
  refine hearing_prepared (s := { c with calls := c.calls.erase n }) (h.hears _ c hc a)
    ((h.sound.managed _ c hc).steady.undecided n a u hcb) fun r hr => ?_
  refine h.hearsOf hc hi n a u r ?_
  unfold viewChangeRes at hr
  split at hr
  · rw [Option.some.inj hr]
  · cases hr

/-- **No member of the view found is further than its primary**, if the view has not been formed. -/
theorem Reporting.foremost (h : s.Reporting) (hu : s.Unformed e) (hch : Chooses s e w rs) :
    Foremost w rs := by
  have hmembers := hu w rs hch
  cases hch with
  | @intro c n a u resp hc hi hopen hchoosing =>
    obtain ⟨hcb, -⟩ := act_of_brings hi
    have hnone := (h.collecting.sound.managed _ c hc).steady.undecided n a u hcb
    have hhearing := h.collecting.hearing hc hi
    obtain ⟨r₀, hr₀, hr₀w⟩ := hhearing.found w hchoosing.found
    obtain ⟨hle, nv, hnv, rfl⟩ := (h.answered (hhearing.accepts r₀ hr₀)).newview w hr₀w
    have hlt := lt_of_le_of_ne hle (h.collecting.vid_ne hc hopen hnone hnv)
    obtain ⟨qs, hqs, ⟨q₁, hq₁, hprimary, hlatest⟩, hheard⟩ := h.collecting.chosen hnv
    have hbids : s.Bids nv.view.vid nv.latest := fun nv' hnv' hvid =>
      h.collecting.unequivocal nv' nv hnv' hnv hvid ▸ le_rfl
    intro q hq r hr hqprimary hmem
    refine Or.inr ?_
    -- the primary reports what the view goes on from, and the others no more
    calc r.latest ≤ nv.latest := ?_
      _ = q₁.latest := hlatest.symm
      _ ≤ q.latest := (h.continues _ q₁ _ q (hqs q₁ hq₁).1 (hhearing.accepts q hq)
        (hprimary.trans hqprimary.symm) hlt).ahead
    obtain ⟨hin, hvid⟩ := hmembers r hr hmem
    obtain ⟨r₁, hr₁, hmid⟩ := hheard r.myid hmem hin
    obtain ⟨hreported, hle₁⟩ := hqs r₁ hr₁
    obtain hle' | hpast | ⟨w, hw, hlater⟩ := (h.continues _ r₁ _ r hreported
      (hhearing.accepts r hr) hmid hlt).within nv.latest hle₁ hbids
    · exact hle'
    · exact absurd hvid (not_lt.mpr hpast)
    · obtain ⟨w', hw', hnewest⟩ := hhearing.newest r hr w hw
      obtain rfl := Option.some.inj (hchoosing.found.symm.trans hw')
      exact absurd hlater (not_lt.mpr hnewest)

/-! ## Runs -/

/-- What keeps the members of a view from overtaking its primary.  An attempt has an id of its own;
no view is accepted beyond the promise, none is left behind it, and formations lead on; who accepts
a `REP_VIEW_CHANGE` has a log without a gap and fetches nothing. -/
structure Guarded (s : Group) (e : Event) : Prop where
  renewed : RenewedAt s e s
  heeds : ∀ c i, s.cohorts e.actor = some c → Brings s c e i → Heeds i c
  honours : ∀ c c', s.cohorts e.actor = some c → s.act e c = some c' → c.Honours c'
  leads : ∀ c i, s.cohorts e.actor = some c → Brings s c e i → i.Leads
  forming : ∀ c i, s.cohorts e.actor = some c → Brings s c e i → Forming i c
  settled : ∀ c sbp g, s.cohorts e.actor = some c → Brings s c e (.call sbp (.viewChange g)) →
    ¬(c.validView ∧ g.oldview.vid < c.view.vid ∨ g.newvid < c.proposedVid) → c.Whole ∧ c.Settles
  unformed : s.Unformed e

/-- A report of this step. -/
structure Reports (i : Input) (c : Cohort) (sbp : Sbp) (v : ViewId) (r : ViewChangeAccept) :
    Prop where
  input : ∃ g, i = .call sbp (.viewChange g) ∧ g.newvid = v ∧
    ¬(c.validView ∧ g.oldview.vid < c.view.vid ∨ g.newvid < c.proposedVid)
  myid : r.myid = c.self
  newview : r.newview = c.acceptedView
  line : Relation.ReflTransGen c.Follows c.executed r.latest
  last : ∃ w, c.vsNext r.latest = some w ∧ w ∉ c.log

theorem Reports.le {sbp : Sbp} (h : Reports i c sbp v r) : c.proposedVid ≤ v := by
  obtain ⟨g, -, rfl, hfree⟩ := h.input
  exact not_lt.mp fun hlt => hfree (Or.inr hlt)

theorem Reports.settled {sbp : Sbp} (h : Reports i c sbp v r) (hg : Guarded s e)
    (hc : s.cohorts e.actor = some c) (hi : Brings s c e i) : c.Whole ∧ c.Settles := by
  obtain ⟨g, rfl, rfl, hfree⟩ := h.input
  exact hg.settled c sbp g hc hi hfree

/-- An accept that is new in the group is a report of this step. -/
theorem Reporting.reports (h : s.Reporting) (ht : Takes s e i c c₁ c') {sbp : Sbp}
    (hout : .answer sbp (.viewChange (.accept r)) ∈ c'.out) : ∃ p ∈ s.calls, ∃ g, p.sbp = sbp ∧
      p.call = .viewChange g ∧ Reports i c sbp g.newvid r := by
  obtain ⟨g, hin, hfree, hmyid, hnewview, hline, hlast⟩ :=
    handles_accept (h.collecting.sound.quiet _ c ht.cohort) ⟨c₁, ht.begins, ht.moves⟩ hout
  obtain ⟨p, hp, hsbp, hcall, -⟩ := ht.brings.packet hin nofun
  exact ⟨p, hp, g, hsbp, hcall, ⟨g, hin, rfl, hfree⟩, hmyid, hnewview, hline, hlast⟩

theorem Reporting.reported_cases (h : s.Reporting) (ht : Takes s e i c c₁ c')
    (hr : (s.update e.actor c').Reported v r) : s.Reported v r ∨ ∃ sbp, Reports i c sbp v r := by
  obtain ⟨p, hp, g, hcall, rfl, hans⟩ := hr
  have hunique := (h.collecting.wired.update h.collecting.sound ht).unique
  have hold : ∀ p' ∈ s.calls, p'.sbp = p.sbp → p' = p := fun p' hp' hsbp =>
    hunique p' (mem_calls_update.mpr (Or.inl hp')) p hp hsbp
  obtain hans | hout := mem_answers_update.mp hans
  · obtain ⟨p', hp', g', hsbp, -, -⟩ := h.answers p.sbp r hans
    exact Or.inl ⟨p, hold p' hp' hsbp ▸ hp', g, hcall, rfl, hans⟩
  · obtain ⟨p', hp', g', hsbp, hcall', hreports⟩ := h.reports ht hout
    obtain rfl := hold p' hp' hsbp
    obtain rfl := Call.viewChange.inj (hcall'.symm.trans hcall)
    exact Or.inr ⟨_, hreports⟩

theorem Bids.of_update (h : (s.update m c).Bids v x) : s.Bids v x := fun nv hnv hvid =>
  h nv hnv.update hvid

/-- The promise of the cohort. -/
theorem Reporting.promise (h : s.Reporting) (hg : Guarded s e) (ht : Takes s e i c c₁ c') :
    c'.Promised ∧ c.proposedVid ≤ c'.proposedVid :=
  (h.promised _ c ht.cohort).handles (hg.heeds c i ht.cohort ht.brings) (h.placed _ c ht.cohort)
    (hg.leads c i ht.cohort ht.brings) ⟨c₁, ht.begins, ht.moves⟩ (hg.honours c c' ht.cohort ht.act)

/-- What has been reported is kept to. -/
theorem Answered.update (h : s.Reporting) (hg : Guarded s e) (ht : Takes s e i c c₁ c')
    (ha : s.Answered v r) : (s.update e.actor c').Answered v r := by
  refine ⟨fun w hw => (ha.newview w hw).imp_right fun ⟨nv, hnv, hview⟩ =>
    ⟨nv, hnv.update, hview⟩, ?_⟩
  obtain ⟨d, hd, hv, hreached, hkept⟩ := ha.cohort
  by_cases hm : r.myid = e.actor
  · rw [hm] at hd ⊢
    obtain rfl : c = d := Option.some.inj (ht.cohort.symm.trans hd)
    have hcharted := h.charted _ c ht.cohort
    have hleads := hg.leads c i ht.cohort ht.brings
    obtain ⟨-, hadv⟩ := h.promise hg ht
    obtain ⟨j, hj, hhandle⟩ := handle_of_act ht.act
    obtain rfl : i = j := Option.some.inj (ht.brings.input.symm.trans hj.input)
    have hreached' := hreached.handles hcharted hleads ⟨c₁, ht.begins, ht.moves⟩
    refine ⟨_, ht.self, hv.trans hadv, hreached', fun x hle hbids => ?_⟩
    refine Kept.sent ((hkept x hle hbids.of_update).handle
      (h.collecting.sound.managed _ c ht.cohort).steady hv (h.promised _ c ht.cohort) hcharted
      (h.placed _ c ht.cohort) (hg.forming c i ht.cohort ht.brings) hleads
      (hg.honours c c' ht.cohort ht.act) (fun sbp nv hin hvid => ?_) hhandle)
    obtain ⟨p, hp, -, hcall, -⟩ := ht.brings.packet hin nofun
    exact hbids.of_update nv ⟨p, hp, hcall⟩ hvid
  · exact ⟨d, (ht.other hm).trans hd, hv, hreached, fun x hle hbids => hkept x hle hbids.of_update⟩

/-- What is reported now is kept to. -/
theorem Reports.answered {sbp : Sbp} (hr : Reports i c sbp v r) (h : s.Reporting)
    (hg : Guarded s e) (ht : Takes s e i c c₁ c') : (s.update e.actor c').Answered v r := by
  obtain ⟨hwhole, hsettles⟩ := hr.settled hg ht.cohort ht.brings
  have hcharted := h.charted _ c ht.cohort
  have hself : r.myid = e.actor := hr.myid.trans (h.collecting.sound.self _ c ht.cohort)
  refine ⟨fun w hw => ?_, ?_⟩
  · rw [hr.newview] at hw
    obtain ⟨nv, hnv, hview⟩ := h.accepted _ c w ht.cohort hw
    exact ⟨(h.promised _ c ht.cohort w hw).trans hr.le, nv, hnv.update, hview⟩
  · obtain ⟨g, rfl, rfl, hfree⟩ := hr.input
    obtain ⟨j, hj, hhandle⟩ := handle_of_act ht.act
    obtain rfl := Option.some.inj (ht.brings.input.symm.trans hj.input)
    obtain ⟨hlog, hexec, hmode, hcalls, hvid⟩ := serveViewChange_cases hhandle hfree
    rw [hself]
    refine ⟨_, ht.self, hvid.ge, ?_, fun x hle _ => Kept.sent (Or.inl ⟨fun vs hvs => ?_, ?_, hmode,
      fun n p vs hcb => ?_⟩)⟩
    · have hreached := reached_of_follows hr.line
      exact hreached.imp (fun hmem => hlog ▸ hmem) fun hle => hle.trans hexec.ge
    · exact (hwhole.le_last hcharted hr.line hr.last (hlog ▸ hvs)).trans hle
    · exact hexec.le.trans ((follows_le hcharted hr.line).trans hle)
    · exact absurd (hcalls ▸ hcb) (hsettles n p vs)

/-- What is reported now goes on from what has been. -/
theorem Reports.continues {sbp : Sbp} (hr' : Reports i c sbp v' r') (h : s.Reporting)
    (hg : Guarded s e) (hc : s.cohorts e.actor = some c) (hi : Brings s c e i)
    (hr : s.Reported v r) (hmid : r.myid = r'.myid) : s.Continues v r r' := by
  obtain ⟨hwhole, -⟩ := hr'.settled hg hc hi
  have hcharted := h.charted _ c hc
  obtain ⟨d, hd, -, hreached, hkept⟩ := (h.answered hr).cohort
  rw [hmid, hr'.myid, h.collecting.sound.self _ c hc, hc] at hd
  obtain rfl := Option.some.inj hd
  refine ⟨hreached.le_last hwhole hcharted hr'.line hr'.last, fun x hle hbids => ?_⟩
  obtain hbound | ⟨vs, hvs, hpast⟩ | ⟨w, hw, hlt⟩ := hkept x hle hbids
  · obtain hmem | hexec := reached_of_follows hr'.line
    · exact Or.inl (hbound.log _ hmem)
    · exact Or.inl (hexec.trans hbound.executed)
  · exact Or.inr (Or.inl (hpast.trans (Viewstamp.vid_le
      (hwhole.le_last hcharted hr'.line hr'.last hvs))))
  · exact Or.inr (Or.inr ⟨w, hr'.newview.trans hw, hlt⟩)

/-- The reports of a group, after a step of one of its cohorts. -/
theorem Reporting.update (h : s.Reporting) (hg : Guarded s e) (ht : Takes s e i c c₁ c') :
    (s.update e.actor c').Reporting := by
  have hhandles : Handles i c c' := ⟨c₁, ht.begins, ht.moves⟩
  have hleads := hg.leads c i ht.cohort ht.brings
  refine ⟨h.collecting.update ht hg.renewed, fun m d hd => ?_, fun m d hd => ?_, fun m d hd => ?_,
    fun m d w hd hw => ?_, fun sbp r hans => ?_, fun v r v' r' hr hr' hmid hlt => ?_⟩
  · obtain ⟨-, rfl⟩ | hd := of_cohorts_update hd
    · have hpromised := (h.promise hg ht).1
      exact hpromised
    · exact h.promised m d hd
  · obtain ⟨-, rfl⟩ | hd := of_cohorts_update hd
    · have hplaced := (h.placed _ c ht.cohort).handles hleads hhandles
      exact hplaced.sends _ _ _
    · exact h.placed m d hd
  · obtain ⟨-, rfl⟩ | hd := of_cohorts_update hd
    · have hcharted := (h.charted _ c ht.cohort).handles hleads hhandles
      exact hcharted.congr rfl rfl
    · exact h.charted m d hd
  · have hold : ∀ {m d}, s.cohorts m = some d → d.acceptedView = some w →
        ∃ nv, (s.update e.actor c').Proposal nv ∧ nv.view = w := fun hd hw =>
      (h.accepted _ _ w hd hw).imp fun _ => And.imp_left Proposal.update
    obtain ⟨-, rfl⟩ | hd := of_cohorts_update hd
    · obtain hw | ⟨sbp, nv, hin, rfl⟩ := handles_acceptedView hhandles hw
      · exact hold ht.cohort hw
      · obtain ⟨p, hp, -, hcall, -⟩ := ht.brings.packet hin nofun
        exact ⟨nv, ⟨p, mem_calls_update.mpr (Or.inl hp), hcall⟩, rfl⟩
    · exact hold hd hw
  · obtain hans | hout := mem_answers_update.mp hans
    · obtain ⟨p, hp, g, hsbp, hcall, hanswered⟩ := h.answers sbp r hans
      exact ⟨p, mem_calls_update.mpr (Or.inl hp), g, hsbp, hcall, hanswered.update h hg ht⟩
    · obtain ⟨p, hp, g, hsbp, hcall, hreports⟩ := h.reports ht hout
      exact ⟨p, mem_calls_update.mpr (Or.inl hp), g, hsbp, hcall, hreports.answered h hg ht⟩
  · have hcontinues : s.Continues v r r' := by
      obtain hr | ⟨sbp, hr⟩ := h.reported_cases ht hr
      · obtain hr' | ⟨sbp, hr'⟩ := h.reported_cases ht hr'
        · exact h.continues v r v' r' hr hr' hmid hlt
        · exact hr'.continues h hg ht.cohort ht.brings hr hmid
      · obtain hr' | ⟨sbp', hr'⟩ := h.reported_cases ht hr'
        · -- a report of before is of a view change no later than the promise
          obtain ⟨d, hd, hle, -⟩ := (h.answered hr').cohort
          rw [← hmid, hr.myid, h.collecting.sound.self _ c ht.cohort, ht.cohort] at hd
          obtain rfl := Option.some.inj hd
          exact absurd hlt (not_lt.mpr (hle.trans hr.le))
        · obtain ⟨g, hin, rfl, -⟩ := hr.input
          obtain ⟨g', hin', rfl, -⟩ := hr'.input
          obtain ⟨-, hcall⟩ := Input.call.inj (hin.symm.trans hin')
          exact absurd (Call.viewChange.inj hcall ▸ hlt) (lt_irrefl _)
    exact ⟨hcontinues.ahead, fun x hle hbids => hcontinues.within x hle hbids.of_update⟩

/-- **A guarded step keeps to what has been reported.** -/
theorem Reporting.step (h : s.Reporting) (hg : Guarded s e) (hs' : s.step e = some s') :
    s'.Reporting := by
  obtain ⟨mid, rfl, hnone, rfl⟩ | ⟨i, c, c₁, c', ht, rfl⟩ := exists_takes h.collecting.sound hs'
  · refine ⟨h.collecting.step hs' hg.renewed, fun m d hd => ?_, fun m d hd => ?_, fun m d hd => ?_,
      fun m d w hd hw => ?_, fun sbp r hans => ?_, fun v r v' r' hr hr' hmid hlt => ?_⟩
    · obtain ⟨-, rfl⟩ | hd := cohorts_boot m d hd
      · exact nofun
      · exact h.promised m d hd
    · obtain ⟨-, rfl⟩ | hd := cohorts_boot m d hd
      · exact placed_boot mid
      · exact h.placed m d hd
    · obtain ⟨-, rfl⟩ | hd := cohorts_boot m d hd
      · exact (trailing_boot mid).charted
      · exact h.charted m d hd
    · obtain ⟨-, rfl⟩ | hd := cohorts_boot m d hd
      · cases hw
      · exact h.accepted m d w hd hw
    · obtain ⟨p, hp, g, hsbp, hcall, hnewview, d, hd, hcohort⟩ := h.answers sbp r hans
      exact ⟨p, hp, g, hsbp, hcall, hnewview, d, cohorts_boot_of_some hnone hd, hcohort⟩
    · have hcontinues := h.continues v r v' r' hr hr' hmid hlt
      exact ⟨hcontinues.ahead, hcontinues.within⟩
  · exact h.update hg ht

theorem reporting_init (mid : Mid) : (init mid).Reporting := by
  refine ⟨collecting_init mid, (faithful_init mid).promised, fun m c hc => ?_, fun m c hc => ?_,
    fun m c w hc hw => ?_, nofun, fun v r v' r' hr => ?_⟩
  · obtain ⟨-, rfl⟩ := cohorts_init hc
    exact placed_founder mid
  · obtain ⟨-, rfl⟩ := cohorts_init hc
    exact (trailing_founder mid).charted
  · obtain ⟨-, rfl⟩ := cohorts_init hc
    cases hw
  · obtain ⟨p, hp, -⟩ := hr
    cases hp

/-- **The assertion of `view_change_choose_view` holds in every guarded run**, in whatever order the
accepts come in. -/
theorem asserted_of_guarded (mid : Mid) (es : List Event)
    (h : Run.Tried step Guarded (init mid) es) : Run.Tried step Asserted (init mid) es := by
  have hasserted : ∀ s e, s.Reporting → Guarded s e → Asserted s e := fun s e hs hg w rs hch =>
    foremost_iff.mpr (hs.foremost hg.unformed hch)
  exact Run.Tried.of_inv (fun _ _ _ hs' hs hg => hs.step hg hs') hasserted es _
    (reporting_init mid) h

instance : Decidable (s.Heard w m) := by
  unfold Heard
  infer_instance

/-- The accepts that an answer completes are of members that have been heard, and have not formed
the view that is found. -/
def Sifts (s : Group) (c : Cohort) : Input → Prop
  | .callback n (.viewChangePrepareCb a u) resp =>
      ∀ w ∈ ((c.hears n a u resp).attempts a).newview,
        ∀ r ∈ ((c.hears n a u resp).attempts a).vcaccepts, r.myid ∈ w.mids →
          s.Heard w r.myid ∧ r.latest.vid < w.vid
  | _ => True

instance : Decidable (s.Sifts c i) := by
  unfold Sifts
  split <;> infer_instance

/-- The same by a look at the logs, whatever comes of the answers. -/
def GuardedAt (s : Group) (e : Event) : Prop :=
  RenewedNow s e s ∧ ∀ c ∈ s.cohorts e.actor, (∀ c' ∈ s.act e c, c.Honours c') ∧
    ∀ i ∈ input c e, Heeds i c ∧ (∀ x ∈ c.brought i, ExecuteArg.LeadsTo x.2 x.1) ∧ c.Admits i ∧
      s.Sifts c i

instance : Decidable (GuardedAt s e) := instDecidableAnd

theorem guarded_of_guardedAt (hs : s.Sound) (h : GuardedAt s e) : Guarded s e := by
  obtain ⟨hrenewed, h⟩ := h
  refine ⟨renewed_of_now hs hrenewed, fun c i hc hi => ((h c hc).2 i hi.input).1,
    fun c c' hc => (h c hc).1 c', fun c i hc hi => leads_of_brought ((h c hc).2 i hi.input).2.1,
    fun c i hc hi => ((h c hc).2 i hi.input).2.2.1.forming,
    fun c sbp g hc hi hfree => ((h c hc).2 _ hi.input).2.2.1.settled hfree, fun w rs hch => ?_⟩
  cases hch with
  | intro hc hi hopen hchoosing => exact ((h _ hc).2 _ hi.input).2.2.2 w hchoosing.found

theorem guarded_of_tried (mid : Mid) {es : List Event}
    (h : Run.Tried step GuardedAt (init mid) es) : Run.Tried step Guarded (init mid) es :=
  Run.Tried.of_inv (I := Sound) (fun _ _ _ hs' hs _ => hs.step hs')
    (fun _ _ hs => guarded_of_guardedAt hs) es _ (sound_init mid) h

/-- Of two requests, `3` lacks the second one when it accepts the view that `2` proposes, and it
fetches it; the view is not formed, and `2` finds it in the accepts of the next view change. -/
def caughtUp : List Cue := trio ++
  [.event (.request 1 0 ⟨7, 1, ⟨3, 1⟩, .operation []⟩),
    .event (.request 1 1 ⟨7, 2, ⟨3, 1⟩, .operation []⟩), .call 1 15, .call 1 16, .call 1 17,
    .event (.boot 4), .event (.join 4 2), .call 4 0, .call 2 3, .call 2 4, .answer 2 3, .answer 2 4,
    .event (.fail 2 2), .event (.fail 2 5), .call 2 7, .call 2 8, .call 3 3, .answer 3 3,
    .event (.fail 2 6), .event (.fail 2 7), .event (.fail 2 8), .event (.fail 2 9),
    .event (.join 4 2), .call 4 1, .call 2 11, .call 2 12, .event (.fail 2 10),
    .event (.fail 2 13), .answer 2 11, .answer 2 12]

/-- `3` had one of the requests when the view was proposed, and has both now, as `2` has. -/
theorem asserted_of_guarded_caughtUp :
    Run.Tried step Asserted (init 1) ((init 1).events caughtUp) ∧
    ∃ s, ((init 1).events caughtUp).foldlM step (init 1) = some s ∧
      (⟨2, 4⟩, .viewChange (.accept ⟨3, ⟨⟨3, 1⟩, 1⟩, none⟩)) ∈ s.answers ∧
      (⟨2, 12⟩, .viewChange (.accept ⟨3, ⟨⟨3, 1⟩, 2⟩, some ⟨⟨4, 2⟩, 2, [3]⟩⟩)) ∈ s.answers ∧
      (⟨2, 11⟩, .viewChange (.accept ⟨2, ⟨⟨3, 1⟩, 2⟩, some ⟨⟨4, 2⟩, 2, [3]⟩⟩)) ∈ s.answers ∧
      ⟨⟨2, 16⟩, 3, .newView ⟨⟨⟨3, 1⟩, 2⟩, ⟨5, 2⟩, 2, [3]⟩⟩ ∈ s.calls := by
  have hguarded : Run.Tried step GuardedAt (init 1) ((init 1).events caughtUp) := by
    decide +kernel
  exact ⟨asserted_of_guarded 1 _ (guarded_of_tried 1 hguarded), events_of_any (by decide +kernel)⟩

end Group

end Falcon
