import Falcon.Replication.Choice
import Falcon.Replication.Matching

/-!
# Replication/Accepts — the accepts of an attempt, and where they are from

The manager of a view change collects the accepts of its own calls, takes the newest view they carry
for the view to be proposed again, and chooses a view once.  What it has chosen from is not changed
after that.

* `hearing_prepared` — an answer is taken in.
* `Collecting.step` — in every run the accepts of an attempt are answers to calls with its id.
-/

namespace Falcon

/-- The accepts of an attempt are in `R`, and `newview` is the newest view that they carry. -/
structure ViewChangeAttempt.Hearing (R : ViewChangeAccept → Prop) (att : ViewChangeAttempt) :
    Prop where
  accepts : ∀ r ∈ att.vcaccepts, R r
  found : ∀ w, att.newview = some w → ∃ r ∈ att.vcaccepts, r.newview = some w
  newest : ∀ r ∈ att.vcaccepts, ∀ w, r.newview = some w →
    ∃ w', att.newview = some w' ∧ w.vid ≤ w'.vid
  /-- The view has been chosen from these accepts. -/
  chosen : ∀ nv, att.nvarg = some nv → Cohort.viewChangeChooseView att = some nv

namespace Cohort

variable {i : Input} {s s' s₁ : Cohort} {n : ℕ} {a b : AttemptRef} {u : Mid}
  {att att' : ViewChangeAttempt} {nv : NewViewArg} {joiners : List Mid}
  {R : ViewChangeAccept → Prop}

/-! ## The choice -/

/-- The view that is chosen has the furthest of the accepts considered as its primary, and the
accepts of its members are considered. -/
theorem furthest_of_chosen (h : viewChangeChooseView att = some nv) :
    (∃ r ∈ considered att, r.myid = nv.view.primary ∧ r.latest = nv.latest) ∧
      (∀ r ∈ considered att, r.latest ≤ nv.latest) ∧
        ∀ r ∈ att.vcaccepts, r.myid ∈ nv.view.mids → r ∈ considered att := by
  have hfound : ∀ {rs : List ViewChangeAccept} {l : Viewstamp} {c : Mid},
      best rs (.zero, none) = (l, some c) →
        (∃ r ∈ rs, r.myid = c ∧ r.latest = l) ∧ ∀ r ∈ rs, r.latest ≤ l := by
    intro rs l c hbest
    obtain ⟨hcase, -, hmax⟩ := best_spec rs (.zero, none)
    rw [hbest] at hcase hmax
    obtain heq | ⟨r, hr, heq⟩ := hcase
    · cases heq
    · obtain ⟨rfl, hc⟩ := Prod.mk.inj heq
      exact ⟨⟨r, hr, (Option.some.inj hc).symm, rfl⟩, hmax⟩
  unfold viewChangeChooseView at h
  cases hw : att.newview with
  | none =>
    rw [hw] at h
    dsimp only at h
    obtain ⟨c, hc, h⟩ := Option.bind_eq_some_iff.mp h
    obtain rfl := Option.some.inj h
    have hcons : considered att = att.vcaccepts := by rw [considered, hw]
    obtain ⟨hprimary, hmax⟩ := hfound (Prod.ext rfl hc)
    rw [hcons]
    exact ⟨hprimary, hmax, fun r hr _ => hr⟩
  | some w =>
    rw [hw] at h
    dsimp only at h
    obtain ⟨⟨l, c⟩, hbest, h⟩ := Option.bind_eq_some_iff.mp h
    obtain ⟨c, rfl, h⟩ := Option.bind_eq_some_iff.mp h
    have hcons : considered att = att.vcaccepts.filter (·.myid ∈ w.mids) := by rw [considered, hw]
    obtain ⟨⟨q, hq, rfl, rfl⟩, hmax⟩ := hfound (best_of_bestMember hbest)
    rw [hcons]
    have hqw : q.myid ∈ w.mids := of_decide_eq_true (List.mem_filter.mp hq).2
    have hmem : q.myid = nv.view.primary ∧ q.latest = nv.latest ∧ nv.view.mids ⊆ w.mids := by
      split_ifs at h with hprimary
      · obtain rfl := Option.some.inj h
        exact ⟨hprimary, rfl, fun u hu => hu⟩
      · obtain rfl := Option.some.inj h
        refine ⟨rfl, rfl, fun u hu => ?_⟩
        obtain rfl | hu := View.mem_mids.mp hu
        · exact hqw
        · obtain ⟨b, hb, rfl⟩ := List.mem_map.mp hu
          split_ifs
          · exact View.mem_mids.mpr (Or.inl rfl)
          · exact View.mem_mids.mpr (Or.inr hb)
    refine ⟨⟨q, hq, hmem.1, hmem.2.1⟩, hmem.2.1 ▸ hmax, fun r hr hin => ?_⟩
    exact List.mem_filter.mpr ⟨hr, decide_eq_true (hmem.2.2 hin)⟩

/-! ## The accepts of an attempt -/

/-- The choice depends on what has been heard. -/
theorem choice_congr (hrs : att'.vcaccepts = att.vcaccepts) (hw : att'.newview = att.newview)
    (hv : att'.proposedVid = att.proposedVid) :
    viewChangeChooseView att' = viewChangeChooseView att := by
  unfold viewChangeChooseView
  rw [hrs, hw, hv]

theorem Retains.hearing (h : Retains att att') (hatt : att.Hearing R) : att'.Hearing R where
  accepts := h.vcaccepts ▸ hatt.accepts
  found := by
    rw [h.vcaccepts, h.newview]
    exact hatt.found
  newest := by
    rw [h.vcaccepts, h.newview]
    exact hatt.newest
  chosen nv hnv := (choice_congr h.vcaccepts h.newview h.proposedVid).trans
    (hatt.chosen nv (h.nvarg.symm.trans hnv))

/-- The view is chosen from what has been heard. -/
theorem hearing_chosen (h : att.Hearing R) (hnv : viewChangeChooseView att = some nv) :
    { att with nvarg := some nv }.Hearing R where
  accepts := h.accepts
  found := h.found
  newest := h.newest
  chosen _ hnv' := Option.some.inj hnv' ▸ hnv

theorem mergeNewview_cases {found reported : Option View} {w : View}
    (h : mergeNewview found reported = some w) : found = some w ∨ reported = some w := by
  unfold mergeNewview at h
  split at h
  · exact Or.inl h
  · exact Or.inr h
  · split_ifs at h
    · exact Or.inr h
    · exact Or.inl h

theorem le_mergeNewview {found reported : Option View} {w : View}
    (h : found = some w ∨ reported = some w) :
    ∃ w', mergeNewview found reported = some w' ∧ w.vid ≤ w'.vid := by
  unfold mergeNewview
  split
  · exact ⟨w, h.resolve_right nofun, le_rfl⟩
  · exact ⟨w, h.resolve_left nofun, le_rfl⟩
  · next w₁ w₂ =>
    obtain h | h := h
    · obtain rfl := Option.some.inj h
      split_ifs with hlt
      · exact ⟨w₂, rfl, hlt.le⟩
      · exact ⟨w₁, rfl, le_rfl⟩
    · obtain rfl := Option.some.inj h
      split_ifs with hlt
      · exact ⟨w₂, rfl, le_rfl⟩
      · exact ⟨w₁, rfl, not_lt.mp hlt⟩

/-- **An answer is taken in** by an attempt that has chosen no view. -/
theorem hearing_prepared {res : Option ViewChangeRes} (h : (s.attempts a).Hearing R)
    (hnone : (s.attempts a).nvarg = none) (hr : ∀ r, res = some (.accept r) → R r) :
    ((s.prepared a u res).attempts a).Hearing R := by
  have hopen : ∀ {P : Prop} {nv : NewViewArg}, (s.attempts a).nvarg = some nv → P := fun hnv =>
    nomatch hnone.symm.trans hnv
  have hsame : ∀ {att}, Retains (s.attempts a) att → att.Hearing R := fun hsame =>
    hsame.hearing h
  unfold prepared
  split
  · rw [attempts_setAttempt]
    exact hsame ⟨rfl, rfl, rfl, rfl⟩
  · rw [attempts_setAttempt]
    exact hsame ⟨rfl, rfl, rfl, rfl⟩
  · next r =>
    dsimp only
    split_ifs
    · rw [attempts_setAttempt]
      exact hsame ⟨rfl, rfl, rfl, rfl⟩
    · rw [attempts_setAttempt]
      refine ⟨fun q hq => ?_, fun w hw => ?_, fun q hq w hw => ?_, fun _ => hopen⟩
      · obtain hq | hq := List.mem_append.mp hq
        · exact h.accepts q hq
        · exact List.mem_singleton.mp hq ▸ hr r rfl
      · obtain hw | hw := mergeNewview_cases hw
        · obtain ⟨q, hq, hqw⟩ := h.found w hw
          exact ⟨q, List.mem_append_left _ hq, hqw⟩
        · exact ⟨r, List.mem_append_right _ (List.mem_singleton_self r), hw⟩
      · obtain hq | hq := List.mem_append.mp hq
        · obtain ⟨w', hw', hle⟩ := h.newest q hq w hw
          obtain ⟨w₂, hw₂, hle₂⟩ : ∃ w₂, mergeNewview (s.attempts a).newview r.newview = some w₂ ∧
              w'.vid ≤ w₂.vid := le_mergeNewview (Or.inl hw')
          exact ⟨w₂, hw₂, hle.trans hle₂⟩
        · obtain rfl := List.mem_singleton.mp hq
          exact le_mergeNewview (Or.inr hw)

/-- What the attempts of a cohort have heard; `R` has the accepts there are for an id. -/
def Hears (R : ViewId → ViewChangeAccept → Prop) (s : Cohort) : Prop :=
  ∀ b, (s.attempts b).Hearing (R (s.attempts b).proposedVid)

/-- The answer that comes in is one for the id of its attempt. -/
def HearsOf (R : ViewId → ViewChangeAccept → Prop) (i : Input) (s : Cohort) : Prop :=
  ∀ n a u r, i = .callback n (.viewChangePrepareCb a u) (some (.viewChange (.accept r))) →
    R (s.attempts a).proposedVid r

section Hears

variable {Q Q' : ViewId → ViewChangeAccept → Prop}

theorem Hears.weaken (h : s.Hears Q) (hQ : ∀ v r, Q v r → Q' v r) : s.Hears Q' := fun b =>
  { h b with accepts := fun r hr => hQ _ r ((h b).accepts r hr) }

theorem Hears.still (h : s.Hears Q) (hatt : ∀ b, Retains (s.attempts b) (s'.attempts b)) :
    s'.Hears Q := by
  intro b
  rw [(hatt b).proposedVid]
  exact (hatt b).hearing (h b)

theorem Hears.update (h : s.Hears Q) (hA : s'.attempts = Function.update s.attempts a att)
    (hatt : att.Hearing (Q att.proposedVid)) : s'.Hears Q := by
  intro b
  rw [hA]
  by_cases hb : b = a
  · subst hb
    rwa [Function.update_self]
  · rw [Function.update_of_ne hb]
    exact h b

theorem Hears.retain (h : s.Hears Q) (hA : s'.attempts = Function.update s.attempts a att)
    (hatt : Retains (s.attempts a) att) : s'.Hears Q := by
  refine h.update hA ?_
  rw [hatt.proposedVid]
  exact hatt.hearing (h a)

/-- **What has been heard is from the accepts there are**, after every move. -/
theorem Hears.move (h : s.Hears Q) (hi : HearsOf Q i s) (hmove : Move i s s') : s'.Hears Q := by
  cases hmove with
  | @enter vs rle f hvs hle hrle hts hf => exact h.still fun b => (keeps_enter f b).toRetains
  | @prepared n a u resp res v att hin hcalled hopen hnone hres hv hatt hs' =>
    have heq : (s.prepared a u res).attempts a = att := by
      rw [hs']
      exact Function.update_self ..
    refine h.update (a := a) rfl ?_
    rw [hatt.proposedVid, ← heq]
    exact hearing_prepared (h a) hnone fun r hr => hi n a u r (hres _ hr ▸ hin)
  | @propose a nv o S hopen hdone hmaj hmaj' hnone hnv hsends =>
    exact h.update (a := a) rfl (hearing_chosen (h a) hnv)
  | abort a => exact h.still fun b => (keeps_abort a b).toRetains
  | @ask a u w hw hu hnew hopen hcurrent hnone => exact h.retain rfl ⟨rfl, rfl, rfl, rfl⟩
  | @merged a vid => exact h.retain rfl ⟨rfl, rfl, rfl, rfl⟩
  | @newviewed n a u resp accepted hin haccepted => exact h.retain rfl ⟨rfl, rfl, rfl, rfl⟩
  | _ => exact h

theorem Move.proposedVid (hmove : Move i s s') (b : AttemptRef) :
    (s'.attempts b).proposedVid = (s.attempts b).proposedVid := by
  obtain ⟨hatt, -⟩ | ⟨a, nv, -, hs', -⟩ := hmove.proposes
  · exact (hatt b).proposedVid
  · rw [hs'.attempts]
    by_cases hb : b = a
    · subst hb
      rw [Function.update_self]
    · rw [Function.update_of_ne hb]

theorem Hears.moves (h : s.Hears Q) (hi : HearsOf Q i s) (hmoves : Moves i s s') :
    s'.Hears Q ∧ HearsOf Q i s' := by
  induction hmoves with
  | refl => exact ⟨h, hi⟩
  | tail _ hmove ih =>
    refine ⟨ih.1.move ih.2 hmove, fun n a u r hin => ?_⟩
    rw [hmove.proposedVid]
    exact ih.2 n a u r hin

theorem hearing_firstAttempt : (s.firstAttempt joiners).Hearing R := by
  obtain ⟨b, heq⟩ := firstAttempt_eq s joiners
  rw [heq]
  exact ⟨nofun, nofun, nofun, nofun⟩

theorem Hears.begins (h : s.Hears Q) (hs₁ : Begins i s s₁) : s₁.Hears Q := by
  cases hs₁ with
  | initiates hstart hs' =>
    obtain ⟨-, -, o, S, -, rfl⟩ := hs'
    exact Hears.update (s := s) h rfl hearing_firstAttempt
  | issues hin hmode hvid hprimary hcache hvs hsends =>
    obtain ⟨L, rfl⟩ := hcache.eq
    exact h
  | promises hin hfree hlatest => exact h.still fun b => (keeps_yieldTo _ b).toRetains
  | accepts hin hfree => exact h.still fun b => (keeps_yieldTo _ b).toRetains
  | _ => exact h

/-- The callback of a `REP_VIEW_CHANGE` brings nothing else. -/
theorem begins_prepareCb {resp : Option Answer}
    (hs₁ : Begins (.callback n (.viewChangePrepareCb a u) resp) s s₁) : s₁ = s := by
  cases hs₁ with
  | stays => rfl
  | initiates hstart hs' => cases hstart
  | issues hin => cases hin
  | forms hin => cases hin
  | logs hin => cases hin
  | adopts hin => cases hin
  | fetches hin => cases hin
  | promises hin => cases hin
  | accepts hin => cases hin

theorem Hears.handles (h : s.Hears Q) (hi : HearsOf Q i s) (hs' : Handles i s s') :
    s'.Hears Q := by
  obtain ⟨s₁, hs₁, hmoves⟩ := hs'
  refine ((h.begins hs₁).moves (fun n a u r hin => ?_) hmoves).1
  subst hin
  exact begins_prepareCb hs₁ ▸ hi n a u r rfl

end Hears

/-! ## The ids of the attempts -/

/-- An attempt has an id of this cohort. -/
def Named (s : Cohort) : Prop :=
  ∀ a < s.nextAttempt, (s.attempts a).proposedVid.manager = s.self

theorem Move.nextAttempt (h : Move i s s') : s'.nextAttempt = s.nextAttempt := by
  cases h <;> rfl

theorem Named.begins (h : s.Named) (hs₁ : Begins i s s₁) : s₁.Named := by
  cases hs₁ with
  | initiates hstart hs' =>
    obtain ⟨-, -, o, S, -, rfl⟩ := hs'
    intro a ha
    dsimp only at ha ⊢
    by_cases heq : a = s.nextAttempt
    · subst heq
      rw [Function.update_self, proposedVid_firstAttempt]
      rfl
    · rw [Function.update_of_ne heq]
      exact h a (lt_of_le_of_ne (Nat.lt_succ_iff.mp ha) heq)
  | issues hin hmode hvid hprimary hcache hvs hsends =>
    obtain ⟨L, rfl⟩ := hcache.eq
    exact h
  | promises hin hfree hlatest =>
    exact fun a ha => (congrArg ViewId.manager (keeps_yieldTo _ a).proposedVid).trans (h a ha)
  | accepts hin hfree =>
    exact fun a ha => (congrArg ViewId.manager (keeps_yieldTo _ a).proposedVid).trans (h a ha)
  | _ => exact h

theorem Named.handles (h : s.Named) (hs' : Handles i s s') : s'.Named := by
  obtain ⟨s₁, hs₁, hmoves⟩ := hs'
  have h₁ := h.begins hs₁
  clear h hs₁
  induction hmoves with
  | refl => exact h₁
  | tail _ hmove ih =>
    intro a ha
    rw [hmove.proposedVid, hmove.self]
    exact ih a (hmove.nextAttempt ▸ ha)

/-! ## The calls of the attempts -/

/-- The calls of `REP_VIEW_CHANGE` that wait have the id of their attempt; `K` has those that have
been sent. -/
def Addressed (K : ℕ → ViewId → Prop) (s : Cohort) : Prop :=
  ∀ n a u, s.calls.lookup n = some (.viewChangePrepareCb a u) → K n (s.attempts a).proposedVid ∨
    ∃ d g, .call n d (.viewChange g) ∈ s.out ∧ g.newvid = (s.attempts a).proposedVid

section Addressed

variable {K : ℕ → ViewId → Prop}

theorem Addressed.mono (h : s.Addressed K) (hout : s.out ⊆ s'.out)
    (hvid : ∀ n a u, s.calls.lookup n = some (.viewChangePrepareCb a u) →
      (s'.attempts a).proposedVid = (s.attempts a).proposedVid)
    (hcalls : ∀ n a u, s'.calls.lookup n = some (.viewChangePrepareCb a u) →
      s.calls.lookup n = some (.viewChangePrepareCb a u) ∨ ∃ d g,
        .call n d (.viewChange g) ∈ s'.out ∧ g.newvid = (s'.attempts a).proposedVid) :
    s'.Addressed K := by
  intro n a u hcb
  obtain hcb | hnew := hcalls n a u hcb
  · rw [hvid n a u hcb]
    exact (h n a u hcb).imp_right fun ⟨d, g, hmem, hg⟩ => ⟨d, g, hout hmem, hg⟩
  · exact Or.inr hnew

theorem Asks.prepareCb {p : PullRef} (h : Asks p s s')
    (hcb : s'.calls.lookup n = some (.viewChangePrepareCb a u)) :
    s.calls.lookup n = some (.viewChangePrepareCb a u) :=
  (h.calls n _ hcb).resolve_right fun ⟨_, _, heq, _⟩ => nomatch heq

theorem Addressed.move (h : s.Addressed K) (hmove : Move i s s') : s'.Addressed K := by
  have hvid := hmove.proposedVid
  refine h.mono hmove.emits.mono (fun _ a _ _ => hvid a) fun n a u hcb => ?_
  cases hmove with
  | called hin hcb' => exact Or.inl (Keyed.lookup_of_lookup_erase hcb)
  | replicateForm hin hprimary hlog hsends => exact Or.inl (hsends.lookup (fun _ => nofun) hcb)
  | pull hin hs' => exact Or.inl ((asks_pullUpto hs').prepareCb hcb)
  | descend hs' => exact Or.inl ((asks_descend hs').prepareCb hcb)
  | propose hopen hdone hmaj hmaj' hnone hnv hsends =>
    exact Or.inl (hsends.lookup (fun _ => nofun) hcb)
  | @ask b u' w hw hu hnew hopen hcurrent hnone =>
    obtain ⟨rfl, heq⟩ | ⟨-, hcb⟩ := Keyed.lookup_of_lookup_insert hcb
    · obtain ⟨rfl, rfl⟩ := Continuation.viewChangePrepareCb.inj heq
      exact Or.inr ⟨_, _, List.mem_cons_self, (hvid _).symm⟩
    · exact Or.inl hcb
  | _ => exact Or.inl hcb

theorem Addressed.begins (h : s.Addressed K) (hm : s.Managed) (hs₁ : Begins i s s₁) :
    s₁.Addressed K := by
  cases hs₁ with
  | @initiates A joiners k _ hstart hs' =>
    obtain ⟨-, -, o, S, hsends, rfl⟩ := hs'
    refine h.mono (fun x hx => (hsends.out x).mpr (Or.inl hx)) (fun n a u hcb => ?_)
      fun n a u hcb => ?_
    · dsimp only
      rw [Function.update_of_ne (Nat.ne_of_lt (hm.pending n a u hcb).1)]
    · obtain hcb | ⟨j, d, hj, rfl, heq⟩ := hsends.calls n _ hcb
      · exact Or.inl hcb
      · obtain ⟨rfl, rfl⟩ := Continuation.viewChangePrepareCb.inj heq
        refine Or.inr ⟨_, _, (hsends.out _).mpr (Or.inr ⟨j, _, hj, rfl⟩), ?_⟩
        dsimp only
        rw [Function.update_self, proposedVid_firstAttempt]
  | issues hin hmode hvid hprimary hcache hvs hsends =>
    obtain ⟨L, rfl⟩ := hcache.eq
    exact h.mono (fun x hx => (hsends.out x).mpr (Or.inl hx)) (fun _ _ _ _ => rfl)
      fun n a u hcb => Or.inl (hsends.lookup (fun _ => nofun) hcb)
  | fetches hin hcb hnew hJ =>
    exact h.mono (List.Subset.refl _) (fun _ _ _ _ => rfl) fun n a u hcb =>
      Or.inl (Keyed.lookup_of_lookup_erase hcb)
  | promises hin hfree hlatest =>
    exact h.mono (List.subset_cons_self _ _) (fun _ a _ _ => (keeps_yieldTo _ a).proposedVid)
      fun n a u hcb => Or.inl hcb
  | accepts hin hfree =>
    exact h.mono (List.Subset.refl _) (fun _ a _ _ => (keeps_yieldTo _ a).proposedVid)
      fun n a u hcb => Or.inl hcb
  | _ => exact h

theorem Addressed.handles (h : s.Addressed K) (hm : s.Managed) (hs' : Handles i s s') :
    s'.Addressed K := by
  obtain ⟨s₁, hs₁, hmoves⟩ := hs'
  have h₁ := h.begins hm hs₁
  clear h hs₁
  induction hmoves with
  | refl => exact h₁
  | tail _ hmove ih => exact ih.move hmove

end Addressed

end Cohort

namespace Group

open Cohort

variable {s s' : Group} {e : Event} {m : Mid} {c c₁ c' : Cohort} {i : Input} {v : ViewId}
  {r : ViewChangeAccept}

/-! ## The answers of a group -/

/-- A `REP_VIEW_CHANGE` with the id `v` has been answered with `r`. -/
def Reported (s : Group) (v : ViewId) (r : ViewChangeAccept) : Prop :=
  ∃ p ∈ s.calls, ∃ g, p.call = .viewChange g ∧ g.newvid = v ∧
    (p.sbp, .viewChange (.accept r)) ∈ s.answers

theorem Reported.update (h : s.Reported v r) : (s.update m c).Reported v r := by
  obtain ⟨p, hp, g, hg, hv, hans⟩ := h
  exact ⟨p, mem_calls_update.mpr (Or.inl hp), g, hg, hv, mem_answers_update.mpr (Or.inl hans)⟩

/-- The call `n` of the cohort `m` is a `REP_VIEW_CHANGE` with the id `v`. -/
def Asked (s : Group) (m : Mid) (n : ℕ) (v : ViewId) : Prop :=
  ∃ d g, (⟨⟨m, n⟩, d, .viewChange g⟩ : Packet) ∈ s.calls ∧ g.newvid = v

/-- What the managers of a group have asked and heard. -/
structure Collecting (s : Group) : Prop where
  proposed : s.Proposed
  wired : s.Wired
  named : ∀ m c, s.cohorts m = some c → c.Named
  hears : ∀ m c, s.cohorts m = some c → c.Hears s.Reported
  addressed : ∀ m c, s.cohorts m = some c → c.Addressed (s.Asked m)

theorem Collecting.sound (h : s.Collecting) : s.Sound := h.proposed.sound

/-- **An answer that comes in is one to a call with the id of its attempt.** -/
theorem Collecting.hearsOf (h : s.Collecting) (hc : s.cohorts e.actor = some c)
    (hi : Brings s c e i) : HearsOf s.Reported i c := by
  intro n a u r hin
  obtain ⟨hans, hcb⟩ := hi.answered hin
  obtain ⟨d, g, hcall, hv⟩ | ⟨d, g, hmem, -⟩ := h.addressed _ c hc n a u hcb
  · exact ⟨_, hcall, g, rfl, hv, hans⟩
  · exact absurd hmem (h.sound.silent hc)

theorem Collecting.update (h : s.Collecting) (ht : Takes s e i c c₁ c')
    (hr : RenewedAt s e (s.update e.actor c')) : (s.update e.actor c').Collecting := by
  have hhandles : Handles i c c' := ⟨c₁, ht.begins, ht.moves⟩
  have hm := h.sound.managed _ c ht.cohort
  refine ⟨h.proposed.step ht.step hr, h.wired.update h.sound ht, fun m d hd => ?_, fun m d hd => ?_,
    fun m d hd => ?_⟩
  · obtain ⟨-, rfl⟩ | hd := of_cohorts_update hd
    · have hnamed := (h.named _ c ht.cohort).handles hhandles
      exact hnamed
    · exact h.named m d hd
  · obtain ⟨-, rfl⟩ | hd := of_cohorts_update hd
    · have hhears := (h.hears _ c ht.cohort).handles (h.hearsOf ht.cohort ht.brings) hhandles
      exact hhears.weaken fun _ _ => Reported.update
    · exact (h.hears m d hd).weaken fun _ _ => Reported.update
  · have hasked : ∀ {k n v}, s.Asked k n v → (s.update e.actor c').Asked k n v :=
      fun ⟨d, g, hcall, hv⟩ => ⟨d, g, mem_calls_update.mpr (Or.inl hcall), hv⟩
    obtain ⟨rfl, rfl⟩ | hd := of_cohorts_update hd
    · intro n a u hcb
      obtain hold | ⟨d, g, hmem, hv⟩ :=
        (h.addressed _ c ht.cohort).handles hm hhandles n a u hcb
      · exact Or.inl (hasked hold)
      · exact Or.inl ⟨d, g, mem_calls_update.mpr (Or.inr ⟨n, d, _, hmem, rfl⟩), hv⟩
    · exact fun n a u hcb => (h.addressed m d hd n a u hcb).imp_left hasked

theorem Collecting.step (h : s.Collecting) (hs' : s.step e = some s') (hr : RenewedAt s e s') :
    s'.Collecting := by
  obtain ⟨mid, rfl, hnone, rfl⟩ | ⟨i, c, c₁, c', ht, rfl⟩ := exists_takes h.sound hs'
  · refine ⟨h.proposed.step hs' hr, h.wired.step h.sound hs', fun m d hd => ?_, fun m d hd => ?_,
      fun m d hd => ?_⟩
    · obtain ⟨-, rfl⟩ | hd := cohorts_boot m d hd
      · exact nofun
      · exact h.named m d hd
    · obtain ⟨-, rfl⟩ | hd := cohorts_boot m d hd
      · exact fun _ => ⟨nofun, nofun, nofun, nofun⟩
      · exact h.hears m d hd
    · obtain ⟨-, rfl⟩ | hd := cohorts_boot m d hd
      · exact nofun
      · exact h.addressed m d hd
  · exact h.update ht hr

theorem collecting_init (mid : Mid) : (init mid).Collecting := by
  refine ⟨proposed_init mid, wired_init mid, fun m c hc => ?_, fun m c hc => ?_, fun m c hc => ?_⟩
  · obtain ⟨-, rfl⟩ := cohorts_init hc
    exact nofun
  · obtain ⟨-, rfl⟩ := cohorts_init hc
    exact fun _ => ⟨nofun, nofun, nofun, nofun⟩
  · obtain ⟨-, rfl⟩ := cohorts_init hc
    exact nofun

end Group

end Falcon
