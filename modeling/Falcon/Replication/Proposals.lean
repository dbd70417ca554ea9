import Falcon.Replication.Attempts

/-!
# Replication/Proposals — one view for one view id

`view_change_initiate` takes the counter after that of `view_.vid` and `proposed_vid_`, and it is
the cohort's own `REP_VIEW_CHANGE`, sent to itself, that raises `proposed_vid_`.  An attempt can do
without it: it goes on when the other members of the view have answered, and if its proposal comes
to nothing the next attempt takes the same id.

* `oneProposal_of_renewed` — as long as no attempt starts with the counter of an earlier proposal,
  there is one proposal for each id.
* `proposed_twice` — a run with two.
-/

namespace Falcon

namespace Cohort

variable {i : Input} {s s' : Cohort} {a : AttemptRef} {joiners : List Mid}

/-! ## What a cohort proposes -/

/-- An attempt that proposes nothing new. -/
structure Silent (att att' : ViewChangeAttempt) : Prop where
  nvarg : att'.nvarg = att.nvarg
  proposedVid : att'.proposedVid = att.proposedVid
  aborted : att.aborted = true → att'.aborted = true

theorem Keeps.silent {att att' : ViewChangeAttempt} (h : Keeps att att') : Silent att att' :=
  ⟨h.nvarg, h.proposedVid, h.aborted⟩

theorem silent_update {A : AttemptRef → ViewChangeAttempt} {att : ViewChangeAttempt}
    (h : Silent (A a) att) (b : AttemptRef) : Silent (A b) (Function.update A a att b) := by
  by_cases hb : b = a
  · subst hb
    rwa [Function.update_self]
  · rw [Function.update_of_ne hb]
    exact ⟨rfl, rfl, id⟩

/-- The attempt `a` proposes `nv`. -/
structure Proposes (a : AttemptRef) (nv : NewViewArg) (s s' : Cohort) : Prop where
  aborted : (s.attempts a).aborted = false
  vid : nv.view.vid = (s.attempts a).proposedVid
  attempts : s'.attempts = Function.update s.attempts a { s.attempts a with nvarg := some nv }
  sent : ∀ u ∈ (s.attempts a).underlings, ∃ n, .call n u (.newView nv) ∈ s'.out

/-- The calls of `REP_NEW_VIEW` are those of `s`, or carry `nv`. -/
def Offers (nv : Option NewViewArg) (s s' : Cohort) : Prop :=
  ∀ n d nv', .call n d (.newView nv') ∈ s'.out → .call n d (.newView nv') ∈ s.out ∨ nv = some nv'

theorem offers_sends {c : Mid → Call} {cb : Mid → Continuation} {us : List Mid} {o : List Output}
    {S : Keyed ℕ Continuation} {nv : Option NewViewArg} (h : s.Sends c cb us o S)
    (hc : ∀ d nv', c d = .newView nv' → nv = some nv') : Offers nv s { s with out := o } := by
  intro n d nv' hmem
  obtain hmem | ⟨j, d', -, heq⟩ := (h.out _).mp hmem
  · exact Or.inl hmem
  · obtain ⟨-, rfl, heq⟩ := Output.call.inj heq
    exact Or.inr (hc d nv' heq.symm)

theorem offers_asks {p : PullRef} (h : Asks p s s') : Offers none s s' := by
  intro n d nv hmem
  obtain hmem | ⟨n', d', vs, heq, -⟩ := h.out _ hmem
  · exact Or.inl hmem
  · cases heq

theorem offers_cons {x : Output} (hx : ∀ n d nv, x ≠ .call n d (.newView nv)) :
    Offers none s { s with out := x :: s.out } := by
  intro n d nv hmem
  obtain heq | hmem := List.mem_cons.mp hmem
  · exact absurd heq.symm (hx n d nv)
  · exact Or.inl hmem

/-- **A move proposes a view, or nothing.** -/
theorem Move.proposes (h : Move i s s') :
    ((∀ a, Silent (s.attempts a) (s'.attempts a)) ∧ Offers none s s') ∨
      ∃ a nv, (s.attempts a).nvarg = none ∧ Proposes a nv s s' ∧ Offers (some nv) s s' := by
  have hsame : ∀ a, Silent (s.attempts a) (s.attempts a) := fun _ => ⟨rfl, rfl, id⟩
  cases h with
  | propose hopen hdone hmaj hmaj' hnone hnv hsends =>
    refine Or.inr ⟨_, _, hnone, ⟨hopen, vid_viewChangeChooseView hnv, rfl, fun u hu => ?_⟩,
      offers_sends hsends fun d nv' heq => by rw [Call.newView.inj heq]⟩
    obtain ⟨j, hj⟩ := List.getElem?_of_mem hu
    exact ⟨_, (hsends.out _).mpr (Or.inr ⟨j, u, hj, rfl⟩)⟩
  | replicateForm hin hprimary hlog hsends => exact Or.inl ⟨hsame, offers_sends hsends nofun⟩
  | pull hpulls hs' =>
    have hoffers := offers_asks (asks_pullUpto hs')
    exact Or.inl ⟨hsame, hoffers⟩
  | descend hs' => exact Or.inl ⟨hsame, offers_asks (asks_descend hs')⟩
  | @enter vs rle f hvs hle hrle hts hf =>
    exact Or.inl ⟨fun a => (keeps_enter f a).silent, fun _ _ _ hmem => Or.inl hmem⟩
  | abort a => exact Or.inl ⟨fun b => (keeps_abort a b).silent, fun _ _ _ hmem => Or.inl hmem⟩
  | prepared hin hcalled hopen hnone hres hv hatt hs' =>
    exact Or.inl ⟨silent_update ⟨hatt.nvarg, hatt.proposedVid, hatt.aborted⟩,
      fun _ _ _ hmem => Or.inl hmem⟩
  | ask hw hu hnew hopen hcurrent hnone =>
    exact Or.inl ⟨silent_update ⟨rfl, rfl, id⟩, offers_cons nofun⟩
  | merged vid => exact Or.inl ⟨silent_update ⟨rfl, rfl, id⟩, fun _ _ _ hmem => Or.inl hmem⟩
  | newviewed hin haccepted =>
    exact Or.inl ⟨silent_update ⟨rfl, rfl, id⟩, fun _ _ _ hmem => Or.inl hmem⟩
  | initView hopen hnv hmaj hmaj' => exact Or.inl ⟨hsame, offers_cons nofun⟩
  | join dest => exact Or.inl ⟨hsame, offers_cons nofun⟩
  | answer hans => exact Or.inl ⟨hsame, offers_cons nofun⟩
  | cached hin hrce hrid hrle hdone => exact Or.inl ⟨hsame, offers_cons nofun⟩
  | executeDone hin hvs hrle ho =>
    refine Or.inl ⟨hsame, fun n d nv hmem => Or.inl ?_⟩
    obtain ⟨-, rfl, -⟩ | ⟨sbp, -, rfl, -⟩ := ho
    · exact hmem
    · exact (List.mem_cons.mp hmem).resolve_left nofun
  | closed hend ho =>
    refine Or.inl ⟨hsame, fun n d nv hmem => Or.inl ?_⟩
    cases ho with
    | silent h => exact hmem
    | @answer cb h =>
      cases cb with
      | replicate sbp vs => exact (List.mem_cons.mp hmem).resolve_left nofun
      | newView sbp => exact (List.mem_cons.mp hmem).resolve_left nofun
  | _ => exact Or.inl ⟨hsame, fun _ _ _ hmem => Or.inl hmem⟩

/-- A cohort has proposed one view for each id, and an attempt that goes on has an id of its own. -/
structure Proposing (s : Cohort) : Prop where
  unique : ∀ a a' nv nv', (s.attempts a).nvarg = some nv → (s.attempts a').nvarg = some nv' →
    nv.view.vid = nv'.view.vid → a = a'
  ahead : ∀ a a' nv, (s.attempts a).aborted = false → (s.attempts a').nvarg = some nv →
    nv.view.vid = (s.attempts a).proposedVid → a' = a
  sent : ∀ n d nv, .call n d (.newView nv) ∈ s.out → ∃ a, (s.attempts a).nvarg = some nv

/-- What has been proposed stays so. -/
def Remembers (s s' : Cohort) : Prop :=
  ∀ a nv, (s.attempts a).nvarg = some nv → (s'.attempts a).nvarg = some nv

theorem Proposing.silent (h : s.Proposing) (hatt : ∀ a, Silent (s.attempts a) (s'.attempts a))
    (hout : Offers none s s') : s'.Proposing ∧ Remembers s s' := by
  have hnv : ∀ {a nv}, (s'.attempts a).nvarg = some nv → (s.attempts a).nvarg = some nv :=
    fun {a} _ h => (hatt a).nvarg.symm.trans h
  refine ⟨⟨fun a a' nv nv' ha ha' => h.unique a a' nv nv' (hnv ha) (hnv ha'), ?_, ?_⟩,
    fun a nv ha => (hatt a).nvarg.trans ha⟩
  · intro a a' nv hopen ha' hvid
    refine h.ahead a a' nv (Bool.eq_false_iff.mpr fun habort => ?_) (hnv ha')
      (hvid.trans (hatt a).proposedVid)
    exact absurd ((hatt a).aborted habort) (Bool.eq_false_iff.mp hopen)
  · intro n d nv hmem
    obtain hmem | heq := hout n d nv hmem
    · obtain ⟨a, ha⟩ := h.sent n d nv hmem
      exact ⟨a, (hatt a).nvarg.trans ha⟩
    · cases heq

theorem Proposing.proposes {nv : NewViewArg} (h : s.Proposing) (hm : s.Managed)
    (hnone : (s.attempts a).nvarg = none) (hs' : Proposes a nv s s')
    (hout : Offers (some nv) s s') : s'.Proposing ∧ Remembers s s' := by
  have hself : s'.attempts a = { s.attempts a with nvarg := some nv } := by
    rw [hs'.attempts, Function.update_self]
  have hother : ∀ {b}, b ≠ a → s'.attempts b = s.attempts b := fun hb => by
    rw [hs'.attempts, Function.update_of_ne hb]
  -- a proposal is that of `a`, or an earlier one
  have hnv : ∀ {b nv'}, (s'.attempts b).nvarg = some nv' →
      (b = a ∧ nv' = nv) ∨ (b ≠ a ∧ (s.attempts b).nvarg = some nv') := fun {b nv'} hb => by
    by_cases hba : b = a
    · rw [hba, hself] at hb
      exact Or.inl ⟨hba, (Option.some.inj hb).symm⟩
    · exact Or.inr ⟨hba, hother hba ▸ hb⟩
  have hremembers : Remembers s s' := fun b nv' hb => by
    by_cases hba : b = a
    · rw [hba, hnone] at hb
      cases hb
    · rwa [hother hba]
  have hopen : ∀ {b}, (s'.attempts b).aborted = false → b = a := fun {b} hb => by
    by_contra hba
    rw [hother hba] at hb
    exact hba (Option.some.inj ((hm.current b hb).symm.trans (hm.current a hs'.aborted)))
  refine ⟨⟨?_, ?_, ?_⟩, hremembers⟩
  · intro b b' nv₁ nv₂ hb hb' hvid
    obtain ⟨rfl, rfl⟩ | ⟨-, hb⟩ := hnv hb
    · obtain ⟨rfl, -⟩ | ⟨-, hb'⟩ := hnv hb'
      · rfl
      · exact (h.ahead b b' nv₂ hs'.aborted hb' (hvid.symm.trans hs'.vid)).symm
    · obtain ⟨rfl, rfl⟩ | ⟨-, hb'⟩ := hnv hb'
      · exact h.ahead b' b nv₁ hs'.aborted hb (hvid.trans hs'.vid)
      · exact h.unique b b' nv₁ nv₂ hb hb' hvid
  · intro b b' nv' hb hb' hvid
    obtain rfl := hopen hb
    obtain ⟨rfl, -⟩ | ⟨-, hb'⟩ := hnv hb'
    · rfl
    · rw [hself] at hvid
      exact h.ahead b b' nv' hs'.aborted hb' hvid
  · intro n d nv' hmem
    obtain hmem | heq := hout n d nv' hmem
    · obtain ⟨b, hb⟩ := h.sent n d nv' hmem
      exact ⟨b, hremembers b nv' hb⟩
    · obtain rfl := Option.some.inj heq
      exact ⟨a, congrArg ViewChangeAttempt.nvarg hself⟩

theorem Proposing.move (h : s.Proposing) (hm : s.Managed) (hmove : Move i s s') :
    s'.Proposing ∧ Remembers s s' := by
  obtain ⟨hatt, hout⟩ | ⟨a, nv, hnone, hs', hout⟩ := hmove.proposes
  · exact h.silent hatt hout
  · exact h.proposes hm hnone hs' hout

/-! ## A new attempt -/

/-- The next attempt does not get the counter of a proposal of this cohort. -/
def Renewed (s : Cohort) : Prop := ∀ a nv, (s.attempts a).nvarg = some nv →
  nv.view.vid.counter ≠ (max s.view.vid s.proposedVid).counter + 1

theorem Proposing.initiate (h : s.Proposing) (hm : s.Managed) (hr : s.Renewed)
    (hs' : s.Initiates joiners s') : s'.Proposing ∧ Remembers s s' := by
  obtain ⟨hfree, -, o, S, hsends, rfl⟩ := hs'
  have hunused : (s.attempts s.nextAttempt).nvarg = none := (hm.unused _ (le_refl _)).2
  have hnv : ∀ {b nv}, (Function.update s.attempts s.nextAttempt (s.firstAttempt joiners) b).nvarg =
      some nv ↔ (s.attempts b).nvarg = some nv := fun {b nv} => by
    by_cases hb : b = s.nextAttempt
    · rw [hb, Function.update_self, nvarg_firstAttempt, hunused]
    · rw [Function.update_of_ne hb]
  refine ⟨⟨?_, ?_, ?_⟩, fun a nv ha => hnv.mpr ha⟩
  · exact fun a a' nv nv' ha ha' => h.unique a a' nv nv' (hnv.mp ha) (hnv.mp ha')
  · intro a a' nv hopen ha' hvid
    dsimp only at hopen hvid
    by_cases ha : a = s.nextAttempt
    · subst ha
      rw [Function.update_self, proposedVid_firstAttempt] at hvid
      exact absurd (congrArg ViewId.counter hvid) (hr a' nv (hnv.mp ha'))
    · rw [Function.update_of_ne ha] at hopen
      exact absurd (hm.aborted hfree a) (Bool.eq_false_iff.mp hopen)
  · intro n d nv hmem
    have hoffers : Offers none s { s with out := o } := offers_sends hsends nofun
    obtain hmem | heq := hoffers n d nv hmem
    · obtain ⟨a, ha⟩ := h.sent n d nv hmem
      exact ⟨a, hnv.mpr ha⟩
    · cases heq

end Cohort

namespace Group

open Cohort

variable {s s' : Group} {e : Event} {c c' c₁ : Cohort} {i : Input}

/-! ## Runs -/

/-- No cohort has sent two `REP_NEW_VIEW` with the same id and different contents. -/
def OneProposal (s : Group) : Prop :=
  ∀ p ∈ s.calls, ∀ p' ∈ s.calls, ∀ nv nv', p.call = .newView nv → p'.call = .newView nv' →
    p.sbp.caller = p'.sbp.caller → nv.view.vid = nv'.view.vid → nv = nv'

/-- When an attempt starts, no proposal of the cohort has the counter it gets. -/
def RenewedAt (s : Group) (e : Event) (_ : Group) : Prop :=
  ∀ c i, s.cohorts e.actor = some c → Brings s c e i → Starts c i → c.attempting = false →
    c.isViewMember c.self = true → c.Renewed

/-- The proposals of a group, and the messages that carry them. -/
structure Proposed (s : Group) : Prop where
  sound : s.Sound
  proposing : ∀ m c, s.cohorts m = some c → c.Proposing
  packets : ∀ p ∈ s.calls, ∀ nv, p.call = .newView nv →
    ∃ c a, s.cohorts p.sbp.caller = some c ∧ (c.attempts a).nvarg = some nv

theorem Proposed.oneProposal (h : s.Proposed) : s.OneProposal := by
  intro p hp p' hp' nv nv' hnv hnv' hcaller hvid
  obtain ⟨c, a, hc, ha⟩ := h.packets p hp nv hnv
  obtain ⟨c', a', hc', ha'⟩ := h.packets p' hp' nv' hnv'
  rw [← hcaller] at hc'
  obtain rfl : c = c' := Option.some.inj (hc.symm.trans hc')
  obtain rfl := (h.proposing _ c hc).unique a a' nv nv' ha ha' hvid
  exact Option.some.inj (ha.symm.trans ha')

theorem mem_calls_update {m : Mid} {p : Packet} : p ∈ (s.update m c).calls ↔
    p ∈ s.calls ∨ ∃ n d k, .call n d k ∈ c.out ∧ p = ⟨⟨m, n⟩, d, k⟩ := by
  rw [update, List.mem_append, or_comm]
  refine or_congr_right ?_
  rw [sentCalls, List.mem_filterMap]
  constructor
  · rintro ⟨x, hx, heq⟩
    cases x with
    | call n d k => exact ⟨n, d, k, hx, (Option.some.inj heq).symm⟩
    | answer sbp ans => cases heq
  · rintro ⟨n, d, k, hx, rfl⟩
    exact ⟨_, hx, rfl⟩

theorem proposing_begins (hc : c.Proposing) (hm : c.Managed)
    (hr : Starts c i → c.attempting = false → c.isViewMember c.self = true → c.Renewed)
    (hc₁ : Begins i c c₁) : c₁.Proposing ∧ Remembers c c₁ := by
  cases hc₁ with
  | @initiates A joiners k _ hstart hc₁ =>
    have hc₀ : { c with activeServers := A, timers := k }.Proposing :=
      ⟨hc.unique, hc.ahead, hc.sent⟩
    exact hc₀.initiate (hm.congr rfl rfl rfl rfl rfl) (hr hstart hc₁.free hc₁.member) hc₁
  | issues hin hmode hvid hprimary hcache hvs hsends =>
    obtain ⟨L, rfl⟩ := hcache.eq
    exact hc.silent (fun _ => ⟨rfl, rfl, id⟩) (offers_sends hsends nofun)
  | promises hin hfree hlatest =>
    exact hc.silent (fun b => (keeps_yieldTo _ b).silent) (offers_cons nofun)
  | accepts hin hfree =>
    exact hc.silent (fun b => (keeps_yieldTo _ b).silent) fun _ _ _ hmem => Or.inl hmem
  | _ => exact hc.silent (fun _ => ⟨rfl, rfl, id⟩) fun _ _ _ hmem => Or.inl hmem

theorem proposing_moves (hc : c.Proposing) (hm : c.Managed) (hi : Settled i c)
    (hmoves : Moves i c c') : c'.Proposing ∧ Remembers c c' := by
  induction hmoves with
  | refl => exact ⟨hc, fun _ _ h => h⟩
  | tail hmoves hmove ih =>
    obtain ⟨hc', hkeep⟩ := ih.1.move (managed_moves hm hi hmoves).1 hmove
    exact ⟨hc', fun a nv ha => hkeep a nv (ih.2 a nv ha)⟩

theorem Proposed.step (h : s.Proposed) (hs' : s.step e = some s') (hr : RenewedAt s e s') :
    s'.Proposed := by
  have hsound := h.sound.step hs'
  obtain ⟨mid, rfl, hnone, rfl⟩ | ⟨i, c, c₁, c', hc, hi, hc₁, hmoves, rfl⟩ :=
    exists_moves h.sound hs'
  · refine ⟨hsound, fun m d hd => ?_, fun p hp nv hnv => ?_⟩
    · obtain ⟨-, rfl⟩ | hd := cohorts_boot m d hd
      · exact ⟨nofun, nofun, nofun⟩
      · exact h.proposing m d hd
    · obtain ⟨d, a, hd, ha⟩ := h.packets p hp nv hnv
      exact ⟨d, a, cohorts_boot_of_some hnone hd, ha⟩
  · have hm := h.sound.managed _ c hc
    obtain ⟨hm₁, hi₁⟩ := managed_begins hm (settled_of_brings hm hi) hc₁
    obtain ⟨hp₁, hkeep₁⟩ := proposing_begins (h.proposing _ c hc) hm (hr c i hc hi) hc₁
    obtain ⟨hp', hkeep⟩ := proposing_moves hp₁ hm₁ hi₁ hmoves
    refine ⟨hsound, fun m d hd => ?_, fun p hp nv hnv => ?_⟩
    · rw [cohorts_update] at hd
      split_ifs at hd with hmid
      · obtain rfl := Option.some.inj hd
        exact ⟨hp'.unique, hp'.ahead, nofun⟩
      · exact h.proposing m d hd
    · obtain hp | ⟨n, d, k, hmem, rfl⟩ := mem_calls_update.mp hp
      · obtain ⟨d, a, hd, ha⟩ := h.packets p hp nv hnv
        by_cases hmid : p.sbp.caller = e.actor
        · rw [hmid] at hd
          obtain rfl : c = d := Option.some.inj (hc.symm.trans hd)
          exact ⟨_, a, (cohorts_update _ _ _ _).trans (if_pos hmid), hkeep a nv (hkeep₁ a nv ha)⟩
        · exact ⟨d, a, ((cohorts_update _ _ _ _).trans (if_neg hmid)).trans hd, ha⟩
      · obtain rfl : k = .newView nv := hnv
        obtain ⟨a, ha⟩ := hp'.sent n d nv hmem
        exact ⟨_, a, (cohorts_update _ _ _ _).trans (if_pos rfl), ha⟩

theorem proposed_init (mid : Mid) : (init mid).Proposed := by
  refine ⟨sound_init mid, fun m c hc => ?_, nofun⟩
  obtain ⟨-, rfl⟩ := cohorts_init hc
  exact ⟨nofun, nofun, nofun⟩

/-- **One proposal for each view id**, in every run in which no attempt starts with the counter of
an earlier proposal of its cohort. -/
theorem oneProposal_of_renewed (mid : Mid) (es : List Event)
    (h : Run.Along step RenewedAt (init mid) es) : Run.Always step OneProposal (init mid) es :=
  Run.Always.of_inv (fun _ hs => hs.oneProposal) (fun _ _ _ hs' hs hr => hs.step hs' hr)
    (proposed_init mid) h

/-- The same for the attempts there have been, at whichever event. -/
def RenewedNow (s : Group) (e : Event) (_ : Group) : Prop :=
  ∀ c ∈ s.cohorts e.actor, c.attempting = false → ∀ a < c.nextAttempt,
    ∀ nv ∈ (c.attempts a).nvarg, nv.view.vid.counter ≠ (max c.view.vid c.proposedVid).counter + 1

instance : Decidable (RenewedNow s e s') :=
  inferInstanceAs (Decidable (∀ c ∈ s.cohorts e.actor, _ → ∀ a < c.nextAttempt,
    ∀ nv ∈ (c.attempts a).nvarg, _))

theorem renewed_of_now (hs : s.Sound) (h : RenewedNow s e s') : RenewedAt s e s' := by
  intro c i hc _ _ hfree _ a nv hnv
  refine h c hc hfree a (not_le.mp fun hle => ?_) nv hnv
  rw [((hs.managed _ c hc).unused a hle).2] at hnv
  cases hnv

theorem renewedAt_of_now (mid : Mid) {es : List Event}
    (h : Run.Along step RenewedNow (init mid) es) : Run.Along step RenewedAt (init mid) es :=
  Run.Along.of_inv (I := Sound) (fun _ _ _ hs' hs hnow => ⟨hs.step hs', renewed_of_now hs hnow⟩)
    es _ (sound_init mid) h

/-- A view of three cohorts, of which the first one is asked twice to let `4` in, and proposes
twice: the other calls of either attempt are lost. -/
def again : List Cue := pair ++ third ++
  [.event (.boot 4), .event (.join 4 1), .call 4 0, .call 1 15, .call 1 16, .answer 1 15,
    .answer 1 16, .event (.fail 1 17), .event (.fail 1 18), .event (.fail 1 19),
    .event (.fail 1 20), .event (.fail 1 21), .event (.fail 1 22), .event (.join 4 1), .call 4 1,
    .call 1 23, .call 1 24, .answer 1 23, .answer 1 24, .event (.fail 1 25), .event (.fail 1 26)]

/-- The second attempt proposes `⟨5, 1⟩`. -/
theorem oneProposal_of_renewed_again :
    Run.Always step OneProposal (init 1) ((init 1).events again) ∧
    ∃ s, ((init 1).events again).foldlM step (init 1) = some s ∧
      ⟨⟨1, 19⟩, 1, .newView ⟨⟨⟨3, 1⟩, 0⟩, ⟨4, 1⟩, 1, [2, 3]⟩⟩ ∈ s.calls ∧
      ⟨⟨1, 27⟩, 1, .newView ⟨⟨⟨3, 1⟩, 0⟩, ⟨5, 1⟩, 1, [2, 3]⟩⟩ ∈ s.calls :=
  ⟨oneProposal_of_renewed 1 _ (renewedAt_of_now 1 (by decide +kernel)),
    events_of_any (by decide +kernel)⟩

/-- A view of three cohorts, of which the first one is asked twice to let `4` in, and proposes
twice: its own `REP_VIEW_CHANGE` is lost, and so are the first four `REP_NEW_VIEW`. -/
def twice : List Cue := pair ++ third ++
  [.event (.boot 4), .event (.join 4 1), .call 4 0, .event (.fail 1 15), .call 1 16, .call 1 17,
    .answer 1 16, .answer 1 17, .event (.fail 1 18), .event (.fail 1 19), .event (.fail 1 20),
    .event (.fail 1 21), .event (.fail 1 22), .event (.join 4 1), .call 4 1, .call 1 23,
    .call 1 24, .answer 1 23, .answer 1 24, .event (.fail 1 25), .event (.fail 1 26)]

/-- Two proposals with the id `⟨4, 1⟩`, of different primaries. -/
theorem proposed_twice : ∃ (es : List Event) (s : Group), es.foldlM step (init 1) = some s ∧
    ¬s.OneProposal := by
  have h : ((init 1).play twice).any (fun s =>
      decide (⟨⟨1, 19⟩, 1, .newView ⟨⟨⟨2, 1⟩, 0⟩, ⟨4, 1⟩, 2, [1, 3]⟩⟩ ∈ s.calls ∧
        ⟨⟨1, 27⟩, 1, .newView ⟨⟨⟨3, 1⟩, 0⟩, ⟨4, 1⟩, 1, [2, 3]⟩⟩ ∈ s.calls)) = true := by
    decide +kernel
  obtain ⟨es, s, hes, hp, hp'⟩ := exists_run_of_any h
  refine ⟨es, s, hes, fun hone => ?_⟩
  exact absurd (hone _ hp _ hp' _ _ rfl rfl rfl rfl) (by decide)

end Group

end Falcon
