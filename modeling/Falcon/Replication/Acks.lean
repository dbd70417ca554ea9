import Falcon.Replication.Pulls

/-!
# Replication/Acks — what an acknowledgement says

A backup answers a `REP_REPLICATE` when the pull it has opened for it reports that nothing is
missing, and the primary takes the answer for all entries of its view up to the one it has sent.  A
backup that has gone on to a later view asks for nothing of the earlier one, and answers all the
same.

* `acked_of_stored` — who is counted has the entry, and what is committed is stored by a majority,
  as long as a `REP_REPLICATE` of an earlier view finds its entries in the log.
* `committed_unstored` — a run in which a request is committed that one cohort of three has.
-/

namespace Falcon

namespace Cohort

variable {i : Input} {s s' : Cohort} {u w vs : Viewstamp} {arg : ExecuteArg} {rle : LogEntry}

/-! ## The walk of `replicate_cb` -/

/-- The views go up. -/
def Ascends (s : Cohort) : Prop := ∀ u w, s.jumps.lookup u = some w → u.vid < w.vid

theorem Ascends.walk (h : s.Ascends) (hw : s.Walk u w) : u.vid ≤ w.vid := by
  have hnext : ∀ {u w}, s.vsNext u = some w → u.vid ≤ w.vid := fun {u w} hw => by
    unfold vsNext at hw
    split at hw
    · next next hnext => exact Option.some.inj hw ▸ (h _ _ hnext).le
    · exact (ts_succ hw).1.ge
  induction hw with
  | single hw => exact hnext hw
  | tail _ hw ih => exact ih.trans (hnext hw)

/-! ## Acknowledgements -/

/-- Who has acknowledged an entry has it (`S`), and those who are to are the members of a view of
this cohort (`V`). -/
structure Acks (S : Mid → Viewstamp → ExecuteArg → Prop) (V : OrdSet Mid → Prop) (s : Cohort) :
    Prop where
  received : ∀ vs rle ack, s.log.lookup vs = some rle → rle.ack = some ack →
    V ack.expected ∧ ∀ b ∈ ack.received, S b vs rle.arg
  decided : ∀ vs arg ack, (vs, arg, ack) ∈ s.decided →
    V ack.expected ∧ ack.received.containsMajorityOf ack.expected = true ∧
      ∀ b ∈ ack.received, S b vs arg

section Acks

variable {S S' : Mid → Viewstamp → ExecuteArg → Prop} {V V' : OrdSet Mid → Prop}

theorem Acks.weaken (h : s.Acks S V) (hS : ∀ b vs arg, S b vs arg → S' b vs arg)
    (hV : ∀ E, V E → V' E) : s.Acks S' V' where
  received vs rle ack hrle hack := by
    obtain ⟨hE, hb⟩ := h.received vs rle ack hrle hack
    exact ⟨hV _ hE, fun b hmem => hS _ _ _ (hb b hmem)⟩
  decided vs arg ack hmem := by
    obtain ⟨hE, hmaj, hb⟩ := h.decided vs arg ack hmem
    exact ⟨hV _ hE, hmaj, fun b hmem => hS _ _ _ (hb b hmem)⟩

/-- An entry changes. -/
theorem Acks.insert (h : s.Acks S V) (hlog : s'.log = s.log.insert vs rle)
    (hdecided : s'.decided = s.decided)
    (hrle : ∀ ack, rle.ack = some ack → V ack.expected ∧ ∀ b ∈ ack.received, S b vs rle.arg) :
    s'.Acks S V := by
  refine ⟨fun w rle' ack hlookup hack => ?_, hdecided ▸ h.decided⟩
  rw [hlog] at hlookup
  by_cases hw : w = vs
  · subst hw
    rw [AList.lookup_insert] at hlookup
    obtain rfl := Option.some.inj hlookup
    exact hrle ack hack
  · rw [AList.lookup_insert_ne hw] at hlookup
    exact h.received w rle' ack hlookup hack

/-- What changes is nothing of the acknowledgements. -/
theorem Acks.same (h : s.Acks S V) {rle' : LogEntry} (hlog : s'.log = s.log.insert vs rle')
    (hdecided : s'.decided = s.decided) (hrle : s.log.lookup vs = some rle)
    (hack : rle'.ack = rle.ack) (harg : rle'.arg = rle.arg) : s'.Acks S V := by
  refine h.insert hlog hdecided fun ack hack' => ?_
  rw [harg]
  exact h.received vs rle ack hrle (hack.symm.trans hack')

/-- An entry is logged, unless there is one. -/
theorem Acks.add (h : s.Acks S V) (hlog : s'.log = s.log.add vs rle)
    (hdecided : s'.decided = s.decided)
    (hrle : ∀ ack, vs ∉ s.log → rle.ack = some ack →
      V ack.expected ∧ ∀ b ∈ ack.received, S b vs rle.arg) : s'.Acks S V := by
  by_cases hmem : vs ∈ s.log
  · rw [Keyed.add, if_pos hmem] at hlog
    exact ⟨hlog ▸ h.received, hdecided ▸ h.decided⟩
  · rw [Keyed.add, if_neg hmem] at hlog
    exact h.insert hlog hdecided fun ack => hrle ack hmem

theorem Acks.move (h : s.Acks S V) (hasc : s.Ascends)
    (hacks : ∀ n b last vs arg, i = .callback n (.replicateCb b) (some (.replicate last)) →
      s.entry vs = some arg → vs.vid = last.vid → vs.ts ≤ last.ts → S b vs arg)
    (hmove : Move i s s') : s'.Acks S V := by
  cases hmove with
  | run hvs hle hrle hts => exact h.same rfl rfl hrle rfl rfl
  | enter hvs hle hrle hts hf => exact h.same rfl rfl hrle rfl rfl
  | caller sbp hrle => exact h.same rfl rfl hrle rfl rfl
  | executeDone hin hvs hrle ho => exact h.same rfl rfl hrle rfl rfl
  | @commit vs rle ack hvs hle hrle hack hmaj =>
    obtain ⟨hE, hb⟩ := h.received _ _ _ hrle hack
    have h' : (s.setEntry vs { rle with ack := none, state := .committed }).Acks S V :=
      h.insert rfl rfl fun _ hnone => nomatch hnone
    refine ⟨h'.received, fun w arg ack' hmem => ?_⟩
    obtain heq | hmem := List.mem_cons.mp hmem
    · obtain ⟨rfl, heq'⟩ := Prod.mk.inj heq
      obtain ⟨rfl, rfl⟩ := Prod.mk.inj heq'
      exact ⟨hE, hmaj, hb⟩
    · exact h.decided w arg ack' hmem
  | @acknowledge n backup last vs rle ack hin hprimary hvid hlast hmember hwalk hle hrle hack =>
    obtain ⟨hE, hb⟩ := h.received _ _ _ hrle hack
    -- the walk stays in the view of `last`
    have hfrom := hasc.walk hwalk
    have hto := (Viewstamp.vid_le hlast).trans hvid.le
    have heq : vs.vid = last.vid := le_antisymm (Viewstamp.vid_le hle) (hto.trans hfrom)
    refine h.insert rfl rfl fun ack' hack' => ?_
    obtain rfl := Option.some.inj hack'
    refine ⟨hE, fun b hmem => ?_⟩
    obtain rfl | hmem := OrdSet.mem_insert.mp hmem
    · exact hacks n b last vs _ hin (entry_eq_some.mpr ⟨rle, hrle, rfl⟩) heq
        (Viewstamp.ts_le hle heq)
    · exact hb b hmem
  | _ => exact ⟨h.received, h.decided⟩

theorem Acks.moves (h : s.Acks S V) (hasc : s.Ascends)
    (hacks : ∀ n b last vs arg, i = .callback n (.replicateCb b) (some (.replicate last)) →
      s.entry vs = some arg → vs.vid = last.vid → vs.ts ≤ last.ts → S b vs arg)
    (hmoves : Moves i s s') : s'.Acks S V := by
  induction hmoves with
  | refl => exact h
  | @tail s₂ s₃ hmoves hmove ih =>
    refine ih.move (fun u w hw => hasc u w (Moves.jumps hmoves ▸ hw))
      (fun n b last vs arg hin hentry => ?_) hmove
    rw [Moves.entry hmoves] at hentry
    exact hacks n b last vs arg hin hentry

theorem Acks.begins (h : s.Acks S V)
    (hself : s.mode = .active → s.view.primary = s.self → V s.view.mids)
    (hissue : ∀ vs arg, s'.entry vs = some arg → S s.self vs arg) (hs' : Begins i s s') :
    s'.Acks S V := by
  cases hs' with
  | initiates hstart hs' =>
    obtain ⟨-, -, o, S, -, rfl⟩ := hs'
    exact ⟨h.received, h.decided⟩
  | @issues sbp arg reply vs o C s₀ hin hmode hvid hprimary hcache hvs hsends =>
    have h₀ : s₀.Acks S V := by
      cases hcache with
      | none hnone => exact h
      | other hrce hrid => exact h
      | lost hrce hrid hrle hstate hlost =>
        exact h.same rfl rfl hrle rfl rfl
    refine h₀.add rfl rfl fun ack hnew hack => ?_
    obtain rfl := Option.some.inj hack
    refine ⟨?_, fun b hb => ?_⟩
    · have hE := hself hmode hprimary
      unfold View.mids at hE
      rwa [hprimary] at hE
    · obtain rfl := List.mem_singleton.mp hb
      exact hissue _ _ (entry_add_self rfl (entry_eq_none.mpr hnew))
  | forms hin hnew hprimary hJ => exact h.add rfl rfl fun ack _ hack => nomatch hack
  | logs hin hcheck hlt hnew hJ => exact h.add rfl rfl fun ack _ hack => nomatch hack
  | fetches hin hcb hnew hJ => exact h.add rfl rfl fun ack _ hack => nomatch hack
  | _ => exact ⟨h.received, h.decided⟩

end Acks

end Cohort

namespace Group

open Cohort

variable {s s' : Group} {e : Event} {m : Mid} {c c' c₁ : Cohort} {i : Input} {vs : Viewstamp}
  {arg : ExecuteArg} {sbp : Sbp}

/-! ## What holds between steps -/

/-- The cohort `b` has the entry. -/
def Stores (s : Group) (b : Mid) (vs : Viewstamp) (arg : ExecuteArg) : Prop :=
  ∃ c, s.cohorts b = some c ∧ c.entry vs = some arg

/-- `E` are the members of a view with the primary `m`. -/
def Views (s : Group) (m : Mid) (E : OrdSet Mid) : Prop :=
  ∃ f, s.Logged ⟨f.view.vid, 0⟩ (ViewForm.arg f) ∧ f.view.primary = m ∧ E = f.view.mids

/-- There is a `REP_REPLICATE` of `vs` to the cohort `m`. -/
def Replicates (s : Group) (m : Mid) (sbp : Sbp) (vs : Viewstamp) : Prop :=
  ∃ p ∈ s.calls, p.sbp = sbp ∧ p.dest = m ∧ ∃ ra, p.call = .replicate ra ∧ ra.vs = vs

/-- Proposals follow an entry of an earlier view. -/
def Ascending (s : Group) : Prop := ∀ nv, s.Proposal nv → nv.latest.vid < nv.view.vid

/-- A `REP_REPLICATE` that is taken when a later view is executed finds the entries of its view up
to it in the log. -/
def LateStored (s : Group) (e : Event) (_ : Group) : Prop :=
  ∀ c p ra c₂, s.cohorts e.actor = some c → e = .deliver p → p.call = .replicate ra → c.Checks ra →
    c.adopted ra = some c₂ → ra.vs.vid < c₂.executed.vid → Stored ra.vs c₂

instance : Decidable s.Ascending :=
  decidable_of_iff (∀ nv ∈ s.proposals, nv.latest.vid < nv.view.vid)
    (forall_congr' fun _ => by rw [proposal_iff])

/-- The entry a call replicates. -/
def replicates : Call → Option ReplicateArg
  | .replicate ra => some ra
  | _ => none

theorem replicates_eq {k : Call} {ra : ReplicateArg} :
    replicates k = some ra ↔ k = .replicate ra := by
  cases k <;> simp [replicates]

instance : Decidable (LateStored s e s') :=
  decidable_of_iff (∀ p ∈ e.packet, ∀ ra ∈ replicates p.call, ∀ c ∈ s.cohorts p.dest,
      c.Checks ra → ∀ c₂ ∈ c.adopted ra, ra.vs.vid < c₂.executed.vid → Stored ra.vs c₂)
    ⟨fun h c p ra c₂ hc he hp hcheck hc₂ => by
        subst he
        exact h p rfl ra (replicates_eq.mpr hp) c hc hcheck c₂ hc₂,
      fun h p hp ra hra c hc hcheck c₂ hc₂ => by
        obtain rfl := Event.packet_eq.mp hp
        exact h c p ra c₂ hc rfl (replicates_eq.mp hra) hcheck hc₂⟩

/-- What the cohorts have acknowledged. -/
structure Acking (s : Group) : Prop where
  matching : s.Matching
  lined : ∀ m c, s.cohorts m = some c → c.Lined
  ascends : ∀ m c, s.cohorts m = some c → c.Ascends
  pulling : ∀ m c, s.cohorts m = some c → c.Pulling
  expecting : ∀ m c, s.cohorts m = some c → c.Expecting (s.Replicates m)
  answers : ∀ sbp vs, (sbp, .replicate vs) ∈ s.answers →
    ∃ m c, s.Replicates m sbp vs ∧ s.cohorts m = some c ∧ Stored vs c
  acks : ∀ m c, s.cohorts m = some c → c.Acks s.Stores (s.Views m)

theorem Matching.counter_of_news (h : s.Matching) (hc : s.cohorts e.actor = some c)
    (hnews : News s i c c₁ vs arg) : 1 ≤ vs.vid.counter := by
  cases hnews with
  | logged hl => exact h.counter hl
  | issue hcall hissues hne hvs hnew hlatest =>
    obtain ⟨f, hf, -⟩ := h.primary _ c hc hne
    have hcounter := h.counter hf
    rwa [(ts_succ hvs).1]
  | form hin hprimary hcounter hprop hvs harg hlatest =>
    subst hvs
    dsimp only
    omega

theorem Matching.counter_of_begins (h : s.Matching) (hc : s.cohorts e.actor = some c)
    (hi : Brings s c e i) (hc₁ : Begins i c c₁) : ∀ vs ∈ c₁.log, 1 ≤ vs.vid.counter := by
  intro vs hvs
  obtain ⟨arg, harg⟩ := mem_log_iff.mp hvs
  exact h.counter_of_news hc (h.news hc hi hc₁ harg)

/-- The formations a cohort logs follow entries of earlier views. -/
theorem Matching.ascends_begins (h : s.Matching) (hasc : s.Ascending)
    (hc : s.cohorts e.actor = some c) (hi : Brings s c e i) (hc₁ : Begins i c c₁)
    (hold : c.Ascends) : c₁.Ascends := by
  intro u w hw
  obtain hw | ⟨hts, arg, f, henters, hf, rfl⟩ := hc₁.jumps_cases hw
  · exact hold u w hw
  · cases h.news_of_enters hc hi henters with
    | issue hcall hissues hne hvs hnew hlatest => rw [(ts_succ hvs).2] at hts; omega
    | @form sbp f' hin hprimary hcounter hprop hvs harg hlatest =>
      subst hvs harg
      obtain rfl := Payload.form.inj hf
      exact hasc _ hprop
    | logged hl =>
      have hzero : w = ⟨w.vid, 0⟩ := Viewstamp.eq_iff.mpr ⟨rfl, hts⟩
      obtain ⟨f', rfl, hvid, hcounter, ⟨-, hprev⟩ | hprop⟩ := h.forms w.vid arg (hzero ▸ hl)
      · obtain rfl := Payload.form.inj hf
        rw [hprev]
        exact Or.inl hcounter
      · obtain rfl := Payload.form.inj hf
        exact hvid ▸ hasc _ hprop

/-- A cohort takes a `REP_REPLICATE`. -/
theorem Acking.replicated (h : s.Acking) (hlate : LateStored s e s')
    (ht : Takes s e i c c₁ c') {ra : ReplicateArg} (hin : i = .call sbp (.replicate ra)) :
    c'.Lined ∧ c'.Pulling ∧ c'.Expecting (s.Replicates e.actor) ∧
      c'.Acknowledges (s.Replicates e.actor) := by
  obtain ⟨p, hp, -, hcall, rfl⟩ := ht.brings.packet hin nofun
  have hc := ht.cohort
  have hi : Brings s c (.deliver p) (.call p.sbp (.replicate ra)) := hcall ▸ .deliver hp
  have hl := h.lined _ c hc
  have hexp := h.expecting _ c hc
  have hnone : ∀ {x}, x ∉ c.out := h.matching.sound.silent hc
  have hact := ht.act
  change (if p ∈ s.calls then c.dispatch p.sbp p.call else none) = some c' at hact
  rw [if_pos hp, hcall] at hact
  obtain rfl | rfl | ⟨src, c₂, hcheck, hc₂, hact⟩ := serveReplicate_cases hact
  · exact ⟨hl, h.pulling _ _ hc, hexp, fun _ _ hmem => absurd hmem hnone⟩
  · refine ⟨⟨hl.jumps, hl.executed, hl.counter⟩, ?_, hexp, fun _ _ hmem => ?_⟩
    · exact ⟨(h.pulling _ c hc).asked, (h.pulling _ c hc).sane, (h.pulling _ c hc).unused⟩
    · obtain heq | hmem := List.mem_cons.mp hmem
      · cases heq
      · exact absurd hmem hnone
  · obtain ⟨c₀, hc₀, hmoves⟩ := adopted_moves (j := .viewIsDown) p.sbp hcheck hc₂
    have hl₀ := hl.begins hc₀ (h.matching.counter_of_begins hc hi hc₀)
    have hf : Fetching (s.Replicates p.dest) .viewIsDown c := ⟨h.pulling _ c hc, hexp, nofun⟩
    obtain ⟨hf₂, hl₂, ha₂⟩ := (hf.begins hc₀).moves hl₀
      (acknowledges_begins (h.matching.sound.quiet _ c hc) hc₀) nofun hmoves
    obtain ⟨hf', hl', ha'⟩ := hf₂.replicated hl₂ ha₂ ⟨p, hp, rfl, rfl, ra, hcall, rfl⟩
      (h.matching.counter (h.matching.replicate p hp ra hcall))
      (hlate c p ra c₂ hc rfl hcall hcheck hc₂) hact
    exact ⟨hl', hf'.pulling, hf'.expecting, ha'⟩

theorem Acking.fetching (h : s.Acking) (hlate : LateStored s e s')
    (ht : Takes s e i c c₁ c') : c'.Lined ∧ c'.Pulling ∧ c'.Expecting (s.Replicates e.actor) ∧
      c'.Acknowledges (s.Replicates e.actor) := by
  by_cases hrep : ∃ sbp ra, i = .call sbp (.replicate ra)
  · obtain ⟨sbp, ra, hin⟩ := hrep
    exact h.replicated hlate ht hin
  · have hc := ht.cohort
    have hf : Fetching (s.Replicates e.actor) i c := by
      refine ⟨h.pulling _ c hc, h.expecting _ c hc, ?_⟩
      rintro n p vs resp rfl
      have hcb : c.calls.lookup n = some (.fetchlogCb p vs) := by
        cases ht.brings with
        | answer hmem hcb => exact hcb
        | fail hcb => exact hcb
      exact (h.pulling _ c hc).asked n p vs hcb
    have hl₁ := (h.lined _ c hc).begins ht.begins
      (h.matching.counter_of_begins hc ht.brings ht.begins)
    obtain ⟨hf', hl', ha'⟩ := (hf.begins ht.begins).moves hl₁
      (acknowledges_begins (h.matching.sound.quiet _ c hc) ht.begins)
      (fun sbp ra hin => hrep ⟨sbp, ra, hin⟩) ht.moves
    exact ⟨hl', hf'.pulling, hf'.expecting, ha'⟩

/-- An answer that comes in is that of a backup that has the entries. -/
theorem Acking.answered (h : s.Acking) (hi : Brings s c e i) (hc : s.cohorts e.actor = some c)
    {n : ℕ} {b : Mid} {last : Viewstamp}
    (hin : i = .callback n (.replicateCb b) (some (.replicate last))) :
    ∃ d, s.cohorts b = some d ∧ Stored last d := by
  obtain ⟨hmem, hcb⟩ := hi.answered hin
  obtain ⟨m, d, ⟨⟨sbp, dest, k⟩, hp, hsbp, rfl, -⟩, hd, hstored⟩ := h.answers _ _ hmem
  have hfits := h.matching.wired.fits hc hcb hp hsbp
  cases hfits with
  | replicate b ra => exact ⟨d, hd, hstored⟩

theorem stored_step (hs : s.Sound) (hs' : s.step e = some s') (hc : s.cohorts m = some c)
    (hstored : Stored vs c) : ∃ c', s'.cohorts m = some c' ∧ Stored vs c' := by
  obtain ⟨c', hc', hlog⟩ := log_step hs hs' hc
  refine ⟨c', hc', fun j hj => ?_⟩
  obtain ⟨arg, harg⟩ := mem_log_iff.mp (hstored j hj)
  exact mem_log_iff.mpr ⟨arg, hlog _ arg harg⟩

theorem Stores.step {b : Mid} (hst : s.Stores b vs arg) (hs : s.Sound)
    (hs' : s.step e = some s') : s'.Stores b vs arg := by
  obtain ⟨c, hc, hentry⟩ := hst
  exact entry_step hs hs' hc hentry

theorem Views.step {E : OrdSet Mid} (hv : s.Views m E) (hs : s.Sound)
    (hs' : s.step e = some s') : s'.Views m E := by
  obtain ⟨f, hf, hm, hE⟩ := hv
  exact ⟨f, hf.step hs hs', hm, hE⟩

theorem Acking.acks_update (h : s.Acking) (hasc : s.Ascending) (ht : Takes s e i c c₁ c')
    (hmatching : (s.update e.actor c').Matching) :
    c'.Acks (s.update e.actor c').Stores ((s.update e.actor c').Views e.actor) := by
  have hc := ht.cohort
  have hs := h.matching.sound
  have hself : ∀ {vs arg}, c₁.entry vs = some arg → (s.update e.actor c').Stores e.actor vs arg :=
    fun hentry => ⟨_, ht.self, (congrFun ht.moves.entry _).trans hentry⟩
  have hacks := (h.acks _ c hc).weaken (fun b vs arg hst => Stores.step hst hs ht.step)
    fun E hv => Views.step hv hs ht.step
  refine Acks.moves
    (Acks.begins hacks (fun hmode hprimary => ?_) (fun vs arg hentry => ?_) ht.begins)
    (h.matching.ascends_begins hasc hc ht.brings ht.begins (h.ascends _ c hc)) ?_ ht.moves
  · have hknows := h.matching.knows i _ c hc
    obtain ⟨f, hf, hview⟩ := hknows.view (hknows.active hmode)
    rw [← hview] at hf
    refine Views.step ⟨f, hf, ?_, by rw [hview]⟩ hs ht.step
    rw [hview, hprimary, hs.self _ c hc]
  · rw [hs.self _ c hc]
    exact hself hentry
  · intro n b last vs arg hin hentry hvid hts
    obtain ⟨d, hd, hstored⟩ := h.answered ht.brings hc hin
    have hvs : vs ∈ d.log := by
      have hmem := hstored vs.ts hts
      rwa [← hvid] at hmem
    obtain ⟨arg', harg'⟩ := mem_log_iff.mp hvs
    obtain ⟨d', hd', hentry'⟩ := entry_step hs ht.step hd harg'
    -- both logs have the content of `vs`
    obtain rfl := hmatching.one vs arg arg' (ht.entry hentry) ⟨b, d', hd', hentry'⟩
    exact ⟨d', hd', hentry'⟩

/-- Who has acknowledged an entry has it, and what is committed a majority of a view of its primary
has. -/
structure Acked (s : Group) : Prop where
  stored : ∀ m c vs rle ack b, s.cohorts m = some c → c.log.lookup vs = some rle →
    rle.ack = some ack → b ∈ ack.received → s.Stores b vs rle.arg
  committed : ∀ m c vs arg ack, s.cohorts m = some c → (vs, arg, ack) ∈ c.decided →
    s.Views m ack.expected ∧ ack.received.containsMajorityOf ack.expected = true ∧
      ∀ b ∈ ack.received, s.Stores b vs arg

theorem Acking.acked (h : s.Acking) : s.Acked where
  stored m c vs rle ack b hc hrle hack hb := ((h.acks m c hc).received vs rle ack hrle hack).2 b hb
  committed m c vs arg ack hc hmem := (h.acks m c hc).decided vs arg ack hmem

/-- What makes acknowledgements sound. -/
structure Orderly (s : Group) (e : Event) (s' : Group) : Prop where
  unequivocal : s.Unequivocal
  ascending : s.Ascending
  unused : FormsUnused s e s'
  stored : LateStored s e s'

instance : Decidable (Orderly s e s') :=
  decidable_of_iff (s.Unequivocal ∧ s.Ascending ∧ FormsUnused s e s' ∧ LateStored s e s')
    ⟨fun ⟨hone, hasc, hunused, hstored⟩ => ⟨hone, hasc, hunused, hstored⟩,
      fun h => ⟨h.unequivocal, h.ascending, h.unused, h.stored⟩⟩

theorem Acking.update (h : s.Acking) (ho : Orderly s e (s.update e.actor c'))
    (ht : Takes s e i c c₁ c') : (s.update e.actor c').Acking := by
  have hs := h.matching.sound
  have hmatching := h.matching.update ho.unequivocal ho.unused ht
  obtain ⟨hlined, hpulling, hexpecting, hanswers⟩ := h.fetching ho.stored ht
  have hacks := h.acks_update ho.ascending ht hmatching
  have hrep : ∀ {m sbp vs}, s.Replicates m sbp vs → (s.update e.actor c').Replicates m sbp vs :=
    fun ⟨p, hp, hrest⟩ => ⟨p, mem_calls_update.mpr (Or.inl hp), hrest⟩
  refine ⟨hmatching, fun m d hd => ?_, fun m d hd => ?_, fun m d hd => ?_, fun m d hd => ?_,
    fun sbp vs hmem => ?_, fun m d hd => ?_⟩
  · obtain ⟨-, rfl⟩ | hd := of_cohorts_update hd
    · exact ⟨hlined.jumps, hlined.executed, hlined.counter⟩
    · exact h.lined m d hd
  · obtain ⟨-, rfl⟩ | hd := of_cohorts_update hd
    · intro u w hw
      exact h.matching.ascends_begins ho.ascending ht.cohort ht.brings ht.begins
        (h.ascends _ c ht.cohort) u w (ht.moves.jumps ▸ hw)
    · exact h.ascends m d hd
  · obtain ⟨-, rfl⟩ | hd := of_cohorts_update hd
    · exact ⟨hpulling.asked, hpulling.sane, hpulling.unused⟩
    · exact h.pulling m d hd
  · obtain ⟨rfl, rfl⟩ | hd := of_cohorts_update hd
    · exact fun p sbp vs hdone => (hexpecting p sbp vs hdone).imp_left hrep
    · exact fun p sbp vs hdone => (h.expecting m d hd p sbp vs hdone).imp_left hrep
  · obtain hmem | hmem := mem_answers_update.mp hmem
    · obtain ⟨m, d, hr, hd, hstored⟩ := h.answers sbp vs hmem
      obtain ⟨d', hd', hstored'⟩ := stored_step hs ht.step hd hstored
      exact ⟨m, d', hrep hr, hd', hstored'⟩
    · obtain ⟨hr, hstored⟩ := hanswers sbp vs hmem
      exact ⟨_, _, hrep hr, ht.self, hstored⟩
  · obtain ⟨rfl, rfl⟩ | hd := of_cohorts_update hd
    · exact ⟨hacks.received, hacks.decided⟩
    · exact (h.acks m d hd).weaken (fun b vs arg hst => Stores.step hst hs ht.step)
        fun E hv => Views.step hv hs ht.step

theorem Acking.step (h : s.Acking) (hs' : s.step e = some s') (ho : Orderly s e s') :
    s'.Acking := by
  have hs := h.matching.sound
  have hmatching := h.matching.step ho.unequivocal hs' ho.unused
  obtain ⟨mid, rfl, hnone, rfl⟩ | ⟨i, c, c₁, c', ht, rfl⟩ := exists_takes hs hs'
  · refine ⟨hmatching, fun m d hd => ?_, fun m d hd => ?_, fun m d hd => ?_, fun m d hd => ?_,
      fun sbp vs hmem => ?_, fun m d hd => ?_⟩
    · obtain ⟨-, rfl⟩ | hd := cohorts_boot m d hd
      · exact ⟨nofun, Or.inl rfl, nofun⟩
      · exact h.lined m d hd
    · obtain ⟨-, rfl⟩ | hd := cohorts_boot m d hd
      · exact nofun
      · exact h.ascends m d hd
    · obtain ⟨-, rfl⟩ | hd := cohorts_boot m d hd
      · exact pulling_boot mid
      · exact h.pulling m d hd
    · obtain ⟨-, rfl⟩ | hd := cohorts_boot m d hd
      · exact nofun
      · exact h.expecting m d hd
    · obtain ⟨m, d, hr, hd, hstored⟩ := h.answers sbp vs hmem
      obtain ⟨d', hd', hstored'⟩ := stored_step hs hs' hd hstored
      exact ⟨m, d', hr, hd', hstored'⟩
    · obtain ⟨-, rfl⟩ | hd := cohorts_boot m d hd
      · exact ⟨nofun, nofun⟩
      · exact (h.acks m d hd).weaken (fun b vs arg hst => Stores.step hst hs hs')
          fun E hv => Views.step hv hs hs'
  · exact h.update ho ht

end Group

end Falcon
