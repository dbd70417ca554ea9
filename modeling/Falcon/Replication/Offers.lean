import Falcon.Replication.Trails

/-!
# Replication/Offers — what a cohort reports of the view it has accepted

A `REP_NEW_VIEW` names a view and the viewstamp its log goes up to, and a cohort that accepts it
pulls the log that it has not got.  `accepted_view_` is set at once, and a `REP_VIEW_CHANGE` that
comes before the log does is answered with the view and with a log that stops short of it.

* `reaches_of_pulled` — when the pull is over, the log goes as far as the view asks for, unless what
  is executed, or the jump table, leads off the way there.
* `backed_of_awaited` — the view a cohort reports is backed by its log in every run in which a
  `REP_VIEW_CHANGE` is accepted only after that.
* `offered_unbacked` — a run in which one is accepted before.
* `strayed_unbacked` — a run in which the pull is over, and what is executed leads off the way.
-/

namespace Falcon

namespace Cohort

variable {i : Input} {s s' : Cohort} {vs last latest l : Viewstamp} {n : ℕ} {sbp : Sbp}

/-! ## The log that is reported -/

/-- The last entry in line: it is reached from `executed_`, and what follows it is not logged. -/
theorem lastFrom_spec (hvs : s.vsNext last = some vs) (h : lastFrom n vs last s = some l) :
    Relation.ReflTransGen s.Follows last l ∧ ∃ x, s.vsNext l = some x ∧ x ∉ s.log := by
  induction n generalizing vs last with
  | zero => cases h
  | succ n ih =>
    unfold lastFrom at h
    split_ifs at h with hmem
    · obtain ⟨next, hnext, h⟩ := Option.bind_eq_some_iff.mp h
      obtain ⟨hline, hend⟩ := ih hnext h
      have hsome : (s.entry vs).isSome = true := by
        rw [Option.isSome_iff_ne_none, ne_eq, entry_eq_none, not_not]
        exact hmem
      exact ⟨.head ⟨hvs, hsome⟩ hline, hend⟩
    · obtain rfl := Option.some.inj h
      exact ⟨.refl, vs, hvs, hmem⟩

/-- A pull for `latest` has come to the bottom, and all that it has asked for is there. -/
def Pulled (latest : Viewstamp) (s : Cohort) : Prop :=
  ∃ p < s.nextPull, (s.pulls p).latest = latest ∧ (s.pulls p).bottomdone = true ∧
    (s.pulls p).ack.expected.length = (s.pulls p).ack.received.length

/-- What is executed is on the way to `latest`, and the jump table does not lead off it. -/
structure Unforked (latest : Viewstamp) (s : Cohort) : Prop where
  executed : Chain s.entry latest s.executed ∨ latest ≤ s.executed
  jumps : ∀ u w, s.jumps.lookup u = some w → Chain s.entry latest u → s.executed ≤ u →
    u < latest → Chain s.entry latest w ∨ latest ≤ w

theorem follows_le (h : s.Charted) (hl : Relation.ReflTransGen s.Follows last l) : last ≤ l := by
  induction hl with
  | refl => exact le_rfl
  | tail _ hx ih => exact ih.trans (h.onward _ _ hx.1).le

/-- The way to `latest` goes on by the jump table, or in the same view. -/
theorem Charted.next_of_before (h : s.Charted) {u w : Viewstamp} (hu : before s.entry w = some u)
    (hnone : s.jumps.lookup u = none) : w = ⟨u.vid, u.ts + 1⟩ := by
  obtain ⟨hvid, hts⟩ | ⟨hts, arg, f, harg, hf, rfl⟩ := before_cases hu
  · exact Viewstamp.eq_iff.mpr ⟨hvid.symm, hts⟩
  · obtain ⟨w', hw'⟩ := h.forms w arg f harg hts hf
    exact nomatch hnone.symm.trans hw'

/-- What is in line before `latest` is on the way there. -/
theorem Unforked.chain (h : s.Unforked latest) (hc : s.Charted)
    (hl : Relation.ReflTransGen s.Follows s.executed l) (hlt : l < latest) :
    Chain s.entry latest l := by
  induction hl with
  | refl => exact h.executed.resolve_right (not_le.mpr hlt)
  | @tail y x hy hx ih =>
    have hyx : y < x := hc.onward _ _ hx.1
    have hchain := ih (hyx.trans hlt)
    obtain ⟨hnext, -⟩ := hx
    unfold Cohort.vsNext at hnext
    split at hnext
    · next w hw =>
      obtain rfl := Option.some.inj hnext
      exact (h.jumps y w hw hchain (follows_le hc hy) (hyx.trans hlt)).resolve_right
        (not_le.mpr hlt)
    · next hnone =>
      obtain ⟨hvid, hts⟩ := ts_succ hnext
      obtain ⟨b, hb, hby⟩ := hchain.above (ne_of_lt (hyx.trans hlt))
      obtain rfl := hc.next_of_before hby hnone
      exact Viewstamp.eq_iff (a := x) (b := ⟨y.vid, y.ts + 1⟩) |>.mpr ⟨hvid, hts⟩ ▸ hb

/-- What a pull has asked for is in the log once it is over. -/
theorem Pulled.mem (h : s.Trailing) (hp : s.Pulled latest)
    (hl : Relation.ReflTransGen s.Follows s.executed l)
    (hend : ∃ x, s.vsNext l = some x ∧ x ∉ s.log)
    {b : Viewstamp} (hb : Chain s.entry latest b) (hlt : l < b) : b ∈ s.log := by
  obtain ⟨p, hp, rfl, hdone, hlen⟩ := hp
  have htrails := h.trails p hp
  have hexec : s.executed ≤ l := follows_le h.charted hl
  have hbottom : (s.pulls p).bottomview ≤ b.vid := by
    obtain hle | ⟨next, hnext, hle⟩ := htrails.done hdone
    · exact hle.trans (Viewstamp.vid_le (hexec.trans hlt.le))
    · obtain rfl | ⟨y, hy, hyl⟩ := hl.cases_head
      · -- nothing is executed next, so it is no view that comes next
        obtain ⟨x, hx, hnew⟩ := hend
        obtain rfl := Option.some.inj (hnext.symm.trans hx)
        unfold Cohort.vsNext at hnext
        split at hnext
        · next w hw => exact absurd (Option.some.inj hnext ▸ (h.charted.jumps _ w hw).2) hnew
        · exact hle.trans ((ts_succ hnext).1 ▸ Viewstamp.vid_le hlt.le)
      · obtain rfl := Option.some.inj (hnext.symm.trans hy.1)
        exact hle.trans (Viewstamp.vid_le ((follows_le h.charted hyl).trans hlt.le))
  obtain hmem | hmem := htrails.covers b hb (hexec.trans_lt hlt) hbottom
  · exact hmem
  · have hsane := h.pulling.sane p
    exact hsane.stored b (mem_of_length_eq hsane.received hsane.subset hlen.symm hmem)

/-- **The log goes as far as what has been pulled**, if nothing leads off the way there. -/
theorem reaches_of_pulled (h : s.Trailing) (hp : s.Pulled latest) (hu : s.Unforked latest)
    (hl : Relation.ReflTransGen s.Follows s.executed l)
    (hend : ∃ x, s.vsNext l = some x ∧ x ∉ s.log) : latest ≤ l := by
  by_contra hlt
  have hlt := not_le.mp hlt
  obtain ⟨b, hb, hbl⟩ := (hu.chain h.charted hl hlt).above (ne_of_lt hlt)
  have hmem := hp.mem h hl hend hb (before_lt h.charted.leads hbl)
  obtain ⟨x, hx, hnew⟩ := hend
  unfold Cohort.vsNext at hx
  split at hx
  · next w hw => exact hnew (Option.some.inj hx ▸ (h.charted.jumps l w hw).2)
  · next hnone =>
    obtain rfl := h.charted.next_of_before hbl hnone
    obtain ⟨hvid, hts⟩ := ts_succ hx
    obtain rfl : x = ⟨l.vid, l.ts + 1⟩ := Viewstamp.eq_iff.mpr ⟨hvid, hts⟩
    exact hnew hmem

/-! ## Who reports -/

theorem move_accept {r : ViewChangeAccept} (h : Move i s s')
    (hmem : .answer sbp (.viewChange (.accept r)) ∈ s'.out) :
    .answer sbp (.viewChange (.accept r)) ∈ s.out := by
  cases h with
  | answer hans =>
    obtain heq | hmem := List.mem_cons.mp hmem
    · cases hans <;> cases heq
    · exact hmem
  | cached hin hrce hrid hrle hdone => exact (List.mem_cons.mp hmem).resolve_left nofun
  | executeDone hin hvs hrle ho =>
    obtain ⟨-, rfl, -⟩ | ⟨sbp, -, rfl, -⟩ := ho
    · exact hmem
    · exact (List.mem_cons.mp hmem).resolve_left nofun
  | replicateForm hin hprimary hlog hsends =>
    exact ((hsends.out _).mp hmem).resolve_right fun ⟨_, _, _, heq⟩ => nomatch heq
  | propose hopen hdone hmaj hmaj' hnone hnv hsends =>
    exact ((hsends.out _).mp hmem).resolve_right fun ⟨_, _, _, heq⟩ => nomatch heq
  | pull hpulls hs' =>
    have hasks := (asks_pullUpto hs').out _ hmem
    exact hasks.resolve_right fun ⟨_, _, _, heq, _⟩ => nomatch heq
  | descend hs' =>
    exact ((asks_descend hs').out _ hmem).resolve_right fun ⟨_, _, _, heq, _⟩ => nomatch heq
  | closed hend ho =>
    cases ho with
    | silent h => exact hmem
    | @answer cb h =>
      cases cb with
      | replicate sbp vs =>
        refine (List.mem_cons.mp hmem).resolve_left fun heq => ?_
        obtain ⟨-, heq⟩ := Output.answer.inj heq
        split_ifs at heq
      | newView sbp => exact (List.mem_cons.mp hmem).resolve_left nofun
  | ask hw hu hnew hopen hcurrent hnone => exact (List.mem_cons.mp hmem).resolve_left nofun
  | initView hopen hnv hmaj hmaj' => exact (List.mem_cons.mp hmem).resolve_left nofun
  | join dest => exact (List.mem_cons.mp hmem).resolve_left nofun
  | _ => exact hmem

theorem moves_accept {r : ViewChangeAccept} (h : Moves i s s')
    (hmem : .answer sbp (.viewChange (.accept r)) ∈ s'.out) :
    .answer sbp (.viewChange (.accept r)) ∈ s.out := by
  induction h with
  | refl => exact hmem
  | tail _ hmove ih => exact ih (move_accept hmove hmem)

/-- A cohort reports its log on a `REP_VIEW_CHANGE` it accepts. -/
theorem handles_accept {r : ViewChangeAccept} (hout : s.out = []) (h : Handles i s s')
    (hmem : .answer sbp (.viewChange (.accept r)) ∈ s'.out) :
    ∃ g, i = .call sbp (.viewChange g) ∧
      ¬(s.validView ∧ g.oldview.vid < s.view.vid ∨ g.newvid < s.proposedVid) ∧
      r.myid = s.self ∧ r.newview = s.acceptedView ∧
      Relation.ReflTransGen s.Follows s.executed r.latest ∧
      ∃ x, s.vsNext r.latest = some x ∧ x ∉ s.log := by
  obtain ⟨s₁, hs₁, hmoves⟩ := h
  have hmem := moves_accept hmoves hmem
  have hnot : ∀ {o : List Output}, o = s.out → .answer sbp (.viewChange (.accept r)) ∉ o :=
    fun ho hmem => by
      rw [ho, hout] at hmem
      cases hmem
  cases hs₁ with
  | stays => exact absurd hmem (hnot rfl)
  | initiates hstart hs₁ =>
    obtain ⟨-, -, o, S, hsends, rfl⟩ := hs₁
    obtain hmem | ⟨_, _, _, heq⟩ := (hsends.out _).mp hmem
    · exact absurd hmem (hnot rfl)
    · cases heq
  | issues hin hmode hvid hprimary hcache hvs hsends =>
    obtain hmem | ⟨_, _, _, heq⟩ := (hsends.out _).mp hmem
    · exact absurd hmem (hnot rfl)
    · cases heq
  | forms hin hnew hprimary hJ => exact absurd hmem (hnot rfl)
  | logs hin hcheck hlt hnew hJ => exact absurd hmem (hnot rfl)
  | adopts hin hcheck hold => exact absurd hmem (hnot rfl)
  | fetches hin hcb hnew hJ => exact absurd hmem (hnot rfl)
  | promises hin hfree hlatest =>
    obtain heq | hmem := List.mem_cons.mp hmem
    · obtain ⟨rfl, hres⟩ := Output.answer.inj heq
      obtain rfl := ViewChangeRes.accept.inj (Answer.viewChange.inj hres)
      obtain ⟨vs, hvs, hlast⟩ := Option.bind_eq_some_iff.mp hlatest
      obtain ⟨hline, hend⟩ := lastFrom_spec hvs hlast
      exact ⟨_, hin, hfree, rfl, rfl, hline, hend⟩
    · exact absurd hmem (hnot rfl)
  | accepts hin hfree => exact absurd hmem (hnot rfl)

/-! ## Where the view is from -/

/-- `accepted_view_` is that of the last `REP_NEW_VIEW` that has been accepted. -/
def Offered (s : Cohort) : Prop := s.acceptedView = s.offer.map NewViewArg.view

theorem offered_move (h : s.Offered) (hmove : Move i s s') : s'.Offered := by
  cases hmove with
  | enter hvs hle hrle hts hf => exact rfl
  | _ => exact h

theorem offered_handles (h : s.Offered) (hs' : Handles i s s') : s'.Offered := by
  obtain ⟨s₁, hs₁, hmoves⟩ := hs'
  have h₁ : s₁.Offered := by
    cases hs₁ with
    | initiates hstart hs₁ =>
      obtain ⟨-, -, o, S, hsends, rfl⟩ := hs₁
      exact h
    | issues hin hmode hvid hprimary hcache hvs hsends =>
      obtain ⟨L, rfl⟩ := hcache.eq
      exact h
    | accepts hin hfree => exact rfl
    | _ => exact h
  induction hmoves with
  | refl => exact h₁
  | tail _ hmove ih => exact offered_move ih hmove

/-- A view that has been accepted is that of a `REP_NEW_VIEW` when it is a new one. -/
theorem handles_acceptedView {w : View} (hs' : Handles i s s') (hw : s'.acceptedView = some w) :
    s.acceptedView = some w ∨ ∃ sbp nv, i = .call sbp (.newView nv) ∧ nv.view = w := by
  obtain ⟨s₁, hs₁, hmoves⟩ := hs'
  have hw₁ : s₁.acceptedView = some w := by
    induction hmoves with
    | refl => exact hw
    | tail _ hmove ih =>
      refine ih ?_
      cases hmove with
      | enter hvs hle hrle hts hf => cases hw
      | _ => exact hw
  cases hs₁ with
  | initiates hstart hs₁ =>
    obtain ⟨-, -, o, S, -, rfl⟩ := hs₁
    exact Or.inl hw₁
  | issues hin hmode hvid hprimary hcache hvs hsends =>
    obtain ⟨L, rfl⟩ := hcache.eq
    exact Or.inl hw₁
  | accepts hin hfree => exact Or.inr ⟨_, _, hin, Option.some.inj hw₁⟩
  | _ => exact Or.inl hw₁

/-! ## The way to `latest`, by a look at the log -/

/-- What leads to the first viewstamp, as far as `n` steps back. -/
def way (T : Viewstamp → Option ExecuteArg) : ℕ → Viewstamp → List Viewstamp
  | 0, l => [l]
  | n + 1, l => l :: (before T l).elim [] (way T n)

theorem chain_of_mem_way {T : Viewstamp → Option ExecuteArg} {a : Viewstamp}
    (h : a ∈ way T n l) : Chain T l a := by
  induction n generalizing l with
  | zero =>
    obtain rfl := List.mem_singleton.mp h
    exact .refl
  | succ n ih =>
    obtain rfl | h := List.mem_cons.mp h
    · exact .refl
    · cases hb : before T l with
      | none =>
        rw [hb] at h
        cases h
      | some b =>
        rw [hb] at h
        exact .head hb (ih h)

/-- What is executed, and what comes after it by the jump table, is on the way. -/
def OnWay (latest : Viewstamp) (s : Cohort) : Prop :=
  s.executed ∈ way s.entry s.log.size latest ∧
    ∀ u ∈ s.jumps.keys, ∀ w ∈ s.jumps.lookup u, w ∈ way s.entry s.log.size latest

instance : Decidable (OnWay latest s) := instDecidableAnd

theorem OnWay.unforked (h : s.OnWay latest) : s.Unforked latest :=
  ⟨Or.inl (chain_of_mem_way h.1), fun u w hw _ _ _ =>
    Or.inl (chain_of_mem_way (h.2 u (Keyed.mem_of_lookup hw) w hw))⟩

instance : Decidable (Pulled latest s) :=
  inferInstanceAs (Decidable (∃ p < s.nextPull, (s.pulls p).latest = latest ∧
    (s.pulls p).bottomdone = true ∧
      (s.pulls p).ack.expected.length = (s.pulls p).ack.received.length))

instance (vs : Viewstamp) (arg : ExecuteArg) : Decidable (arg.LeadsTo vs) :=
  match h : arg.request with
  | .form f => decidable_of_iff (vs.ts = 0 → f.LeadsTo vs)
      ⟨fun hf hts _ heq => Payload.form.inj (h.symm.trans heq) ▸ hf hts,
        fun hleads hts => hleads hts f h⟩
  | .operation _ => isTrue fun _ _ heq => nomatch h.symm.trans heq

/-- What an input brings leads on, if the entry it brings does. -/
theorem leads_of_brought (h : ∀ x ∈ s.brought i, ExecuteArg.LeadsTo x.2 x.1) : i.Leads := by
  intro vs arg hb
  cases hb with
  | replicate => exact h _ rfl
  | initView => exact h _ rfl
  | fetchlog => exact h _ rfl

/-- A `REP_VIEW_CHANGE` finds the log of the accepted view pulled. -/
def Finds (s : Cohort) : Input → Prop
  | .call _ (.viewChange g) => ¬(s.validView ∧ g.oldview.vid < s.view.vid ∨
      g.newvid < s.proposedVid) → ∀ nv ∈ s.offer, s.Pulled nv.latest ∧ s.OnWay nv.latest
  | _ => True

instance : Decidable (s.Finds i) := by
  unfold Finds
  split <;> infer_instance

end Cohort

namespace Group

open Cohort

variable {s s' : Group} {e : Event}

/-! ## Runs -/

/-- A cohort that answers a `REP_VIEW_CHANGE` with the view it has accepted reports a log that goes
as far as the `REP_NEW_VIEW` of that view has asked for. -/
def Backed (s : Group) (e : Event) (_ : Group) : Prop :=
  ∀ p c c' r w, e = .deliver p → s.cohorts p.dest = some c → c.dispatch p.sbp p.call = some c' →
    .answer p.sbp (.viewChange (.accept r)) ∈ c'.out → r.newview = some w →
    ∃ nv, c.offer = some nv ∧ nv.view = w ∧ nv.latest ≤ r.latest

/-- The formations that come in lead from earlier views; and a `REP_VIEW_CHANGE` is accepted only
when the log that the accepted view asks for has been pulled, and nothing leads off the way to it.
-/
def Awaited (s : Group) (e : Event) (_ : Group) : Prop :=
  ∀ c i, s.cohorts e.actor = some c → Brings s c e i → i.Leads ∧
    ∀ sbp g nv, i = .call sbp (.viewChange g) →
      ¬(c.validView ∧ g.oldview.vid < c.view.vid ∨ g.newvid < c.proposedVid) →
      c.offer = some nv → c.Pulled nv.latest ∧ c.Unforked nv.latest

/-- What holds of the views that have been accepted, and of the logs they ask for. -/
structure Offering (s : Group) : Prop where
  sound : s.Sound
  offered : ∀ m c, s.cohorts m = some c → c.Offered
  trailing : ∀ m c, s.cohorts m = some c → c.Trailing

theorem expected_of_brings {c : Cohort} {i : Input} (h : c.Pulling) (hi : Brings s c e i) :
    Expected i c := by
  rintro n p vs resp rfl
  cases hi with
  | answer hmem hcb => exact h.asked _ p vs hcb
  | fail hcb => exact h.asked _ p vs hcb

/-- **A step in which the pull is awaited** is one in which the view reported is backed. -/
theorem Offering.step (h : s.Offering) (hs' : s.step e = some s') (hawaited : Awaited s e s') :
    s'.Offering ∧ Backed s e s' := by
  refine ⟨⟨h.sound.step hs', ?_, ?_⟩, ?_⟩
  · intro m d hd
    obtain ⟨mid, rfl, hnone, rfl⟩ | ⟨i, c, c₁, c', hc, hi, hc₁, hmoves, rfl⟩ :=
      exists_moves h.sound hs'
    · obtain ⟨-, rfl⟩ | hd := cohorts_boot m d hd
      · rfl
      · exact h.offered m d hd
    · obtain ⟨-, rfl⟩ | hd := of_cohorts_update hd
      · have hoffered := offered_handles (h.offered _ c hc) ⟨c₁, hc₁, hmoves⟩
        exact hoffered
      · exact h.offered m d hd
  · intro m d hd
    obtain ⟨mid, rfl, hnone, rfl⟩ | ⟨i, c, c₁, c', hc, hi, hc₁, hmoves, rfl⟩ :=
      exists_moves h.sound hs'
    · obtain ⟨-, rfl⟩ | hd := cohorts_boot m d hd
      · exact trailing_boot mid
      · exact h.trailing m d hd
    · obtain ⟨-, rfl⟩ | hd := of_cohorts_update hd
      · have htrailing := h.trailing _ c hc
        have h' := htrailing.handles (hawaited c i hc hi).1 ⟨c₁, hc₁, hmoves⟩
          (expected_of_brings htrailing.pulling hi)
        exact h'.sent
      · exact h.trailing m d hd
  · rintro p c c' r w rfl hc hc' hout hw
    obtain ⟨g, hcall, hfree, -, hview, hline, hend⟩ :=
      handles_accept (h.sound.quiet _ c hc) (handles_dispatch rfl hc') hout
    rw [hw, h.offered _ c hc] at hview
    obtain ⟨nv, hnv, hvw⟩ := Option.map_eq_some_iff.mp hview.symm
    refine ⟨nv, hnv, hvw, ?_⟩
    have hmem : p ∈ s.calls := by
      obtain ⟨mid, heq, -⟩ | ⟨d, d', hd, hd', -⟩ := step_cases hs'
      · cases heq
      · change (if p ∈ s.calls then _ else _) = _ at hd'
        split_ifs at hd' with hmem
        exact hmem
    obtain ⟨hpulled, hunforked⟩ := (hawaited c _ hc (.deliver hmem)).2 _ g nv hcall hfree hnv
    exact reaches_of_pulled (h.trailing _ c hc) hpulled hunforked hline hend

theorem offering_init (mid : Mid) : (init mid).Offering := by
  refine ⟨sound_init mid, fun m c hc => ?_, fun m c hc => ?_⟩
  · obtain ⟨-, rfl⟩ := cohorts_init hc
    rfl
  · obtain ⟨-, rfl⟩ := cohorts_init hc
    exact trailing_founder mid

/-- **The view a cohort reports is backed by its log in every run in which the pull of the log is
awaited.** -/
theorem backed_of_awaited (mid : Mid) (es : List Event) :
    Run.Along step Awaited (init mid) es → Run.Along step Backed (init mid) es := by
  have hstep : ∀ s e s', step s e = some s' → Offering s → Awaited s e s' →
      Offering s' ∧ Backed s e s' := fun _ _ _ hs' hs hawaited => hs.step hs' hawaited
  exact Run.Along.of_inv hstep es (init mid) (offering_init mid)

/-- What comes in leads on, and finds the log of the accepted view pulled. -/
def AwaitedAt (s : Group) (e : Event) (_ : Group) : Prop :=
  ∀ c ∈ s.cohorts e.actor, ∀ i ∈ input c e,
    (∀ x ∈ c.brought i, ExecuteArg.LeadsTo x.2 x.1) ∧ c.Finds i

instance : Decidable (AwaitedAt s e s') :=
  inferInstanceAs (Decidable (∀ c ∈ s.cohorts e.actor, ∀ i ∈ input c e,
    (∀ x ∈ c.brought i, ExecuteArg.LeadsTo x.2 x.1) ∧ c.Finds i))

theorem awaited_of_awaitedAt (h : AwaitedAt s e s') : Awaited s e s' := by
  intro c i hc hi
  obtain ⟨hbrought, hfinds⟩ := h c hc i hi.input
  refine ⟨leads_of_brought hbrought, fun sbp g nv hcall hfree hnv => ?_⟩
  rw [hcall] at hfinds
  exact (hfinds hfree nv hnv).imp_right OnWay.unforked

/-- Cohort `3` joins the two others after a request; it pulls the log of both views for the
`REP_NEW_VIEW`, and then the `REP_VIEW_CHANGE`s come again. -/
def repeated : List Cue := pair ++ [.event (.request 1 0 ⟨7, 1, ⟨2, 1⟩, .operation [5]⟩), .call 1 6,
  .answer 1 6, .event (.boot 3), .event (.join 3 1), .call 3 0, .call 1 7, .call 1 8, .call 1 9,
  .answer 1 7, .answer 1 8, .answer 1 9, .call 1 10, .call 1 11, .call 1 12, .call 3 1, .answer 3 1,
  .call 3 2, .answer 3 2, .call 3 3, .answer 3 3, .call 1 8, .call 1 9]

theorem backed_of_awaited_repeated :
    Run.Along step Backed (init 1) ((init 1).events repeated) ∧
    ∃ s, ((init 1).events repeated).foldlM step (init 1) = some s ∧
      ∀ m ∈ [2, 3], ((⟨1, m + 6⟩ : Sbp), Answer.viewChange
        (.accept ⟨m, ⟨⟨2, 1⟩, 1⟩, some ⟨⟨3, 1⟩, 1, [2, 3]⟩⟩)) ∈ s.answers := by
  have halong : Run.Along step AwaitedAt (init 1) ((init 1).events repeated) := by decide +kernel
  refine ⟨backed_of_awaited 1 _ (halong.mono fun _ _ _ => awaited_of_awaitedAt), ?_⟩
  have hend : ((init 1).play repeated).any (fun s => decide (∀ m ∈ [2, 3], ((⟨1, m + 6⟩ : Sbp),
      Answer.viewChange (.accept ⟨m, ⟨⟨2, 1⟩, 1⟩, some ⟨⟨3, 1⟩, 1, [2, 3]⟩⟩)) ∈ s.answers)) =
        true := by
    decide +kernel
  exact events_of_any hend

/-- A `REP_VIEW_CHANGE` is answered with a log that stops short of what the view asks for. -/
theorem not_backed {mid : Mid} {es : List Event} {p : Packet} {c c' : Cohort}
    {r : ViewChangeAccept} {nv : NewViewArg} {w : View}
    (hes : es.foldlM step (init mid) = some s) (hmem : p ∈ s.calls)
    (hc : s.cohorts p.dest = some c) (hc' : c.dispatch p.sbp p.call = some c')
    (hout : c'.out = [.answer p.sbp (.viewChange (.accept r))]) (hw : r.newview = some w)
    (hnv : c.offer = some nv) (hlt : r.latest < nv.latest) :
    ¬Run.Along step Backed (init mid) (es ++ [.deliver p]) := by
  intro halong
  have hstep : s.step (.deliver p) = some (s.update p.dest c') := by
    have hact : s.act (.deliver p) c = some c' := (if_pos hmem).trans hc'
    have hcohort : s.cohorts (Event.deliver p).actor = some c := hc
    unfold step
    rw [hcohort]
    exact Option.bind_eq_some_iff.mpr ⟨c', hact, rfl⟩
  have hbacked := Run.along_iff_run.mp halong es _ List.prefix_rfl s _ hes hstep
  obtain ⟨nv', hnv', -, hle⟩ := hbacked p c c' r w rfl hc hc' (hout ▸ List.mem_singleton_self _) hw
  obtain rfl := Option.some.inj (hnv.symm.trans hnv')
  exact absurd hle (not_le.mpr hlt)

/-- A `REP_VIEW_CHANGE` is delivered twice, and between the two a `REP_NEW_VIEW` that asks for the
log up to the formation of the first view. -/
theorem offered_unbacked : ∃ es, ¬Run.Along step Backed (init 1) es := by
  let g : ViewChangeArg := ⟨⟨⟨1, 1⟩, 1, []⟩, ⟨2, 1⟩⟩
  have h : ((init 1).play [.event (.boot 2), .event (.join 2 1), .call 2 0, .call 1 0, .call 1 1,
      .answer 1 0, .answer 1 1, .call 1 3]).any (fun s => decide (
        (⟨⟨1, 1⟩, 2, .viewChange g⟩ : Packet) ∈ s.calls ∧ (s.cohorts 2).map (fun c =>
          (c.offer, (c.dispatch ⟨1, 1⟩ (.viewChange g)).map (·.out))) =
            some (some ⟨⟨⟨1, 1⟩, 0⟩, ⟨2, 1⟩, 1, [2]⟩, some [.answer ⟨1, 1⟩ (.viewChange
              (.accept ⟨2, .zero, some ⟨⟨2, 1⟩, 1, [2]⟩⟩))]))) = true := by
    decide +kernel
  obtain ⟨es, s, hes, hmem, hs⟩ := exists_run_of_any h
  obtain ⟨c, hc, heq⟩ := Option.map_eq_some_iff.mp hs
  obtain ⟨hoffer, hout⟩ := Prod.mk.inj heq
  obtain ⟨c', hc', hout⟩ := Option.map_eq_some_iff.mp hout
  exact ⟨_, not_backed hes hmem hc hc' hout rfl hoffer (by decide)⟩

/-- Cohort `1` alone enters the view `⟨4, 1⟩`; the others go on in `⟨5, 2⟩`, and `1` pulls the log
of that view for the `REP_NEW_VIEW` of the next one. -/
def strayed : List Cue := trio ++
  [.event (.boot 4), .event (.join 4 1), .call 4 0, .call 1 15, .call 1 16, .call 1 17,
    .answer 1 15, .answer 1 16, .answer 1 17, .event (.fail 1 18), .call 1 19, .call 1 20,
    .call 1 21, .answer 1 19, .answer 1 20, .call 1 23, .event (.join 4 2), .call 4 1, .call 2 3,
    .call 2 4, .answer 2 3, .answer 2 4, .event (.fail 2 2), .event (.fail 2 5), .call 2 7,
    .call 2 8, .answer 2 7, .answer 2 8, .call 2 10,
    .event (.request 2 0 ⟨7, 1, ⟨5, 2⟩, .operation []⟩), .event (.join 4 2), .call 4 2, .call 2 15,
    .call 2 16, .answer 2 15, .answer 2 16, .event (.fail 2 17), .event (.fail 2 18), .call 2 19,
    .call 1 26, .call 1 27, .answer 1 26, .answer 1 27]

/-- The pull is over, and what has been executed is not on the way to what it was for. -/
theorem strayed_unbacked : ∃ (es : List Event) (s : Group) (c : Cohort) (p : Packet),
    es.foldlM step (init 1) = some s ∧ s.cohorts 1 = some c ∧ c.Pulled ⟨⟨5, 2⟩, 1⟩ ∧
      (⟨2, 19⟩, .newView true) ∈ s.answers ∧
        ¬Run.Along step Backed (init 1) (es ++ [.deliver p]) := by
  let g : ViewChangeArg := ⟨⟨⟨5, 2⟩, 2, [1, 3]⟩, ⟨6, 2⟩⟩
  have h : ((init 1).play strayed).any (fun s => decide (
      (⟨⟨2, 15⟩, 1, .viewChange g⟩ : Packet) ∈ s.calls ∧
      ((⟨2, 19⟩ : Sbp), Answer.newView true) ∈ s.answers ∧ (s.cohorts 1).map (fun c =>
        (decide (c.Pulled ⟨⟨5, 2⟩, 1⟩), c.offer,
          (c.dispatch ⟨2, 15⟩ (.viewChange g)).map (·.out))) =
        some (true, some ⟨⟨⟨5, 2⟩, 1⟩, ⟨6, 2⟩, 2, [1]⟩, some [.answer ⟨2, 15⟩ (.viewChange
          (.accept ⟨1, ⟨⟨4, 1⟩, 0⟩, some ⟨⟨6, 2⟩, 2, [1]⟩⟩))]))) = true := by
    decide +kernel
  obtain ⟨es, s, hes, hmem, hans, hs⟩ := exists_run_of_any h
  obtain ⟨c, hc, heq⟩ := Option.map_eq_some_iff.mp hs
  obtain ⟨hpulled, heq⟩ := Prod.mk.inj heq
  obtain ⟨hoffer, hout⟩ := Prod.mk.inj heq
  obtain ⟨c', hc', hout⟩ := Option.map_eq_some_iff.mp hout
  exact ⟨es, s, c, ⟨⟨2, 15⟩, 1, .viewChange g⟩, hes, hc, of_decide_eq_true hpulled, hans,
    not_backed hes hmem hc hc' hout rfl hoffer (by decide)⟩

end Group

end Falcon
