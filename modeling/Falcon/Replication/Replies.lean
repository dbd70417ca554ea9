import Falcon.Replication.Acks
import Falcon.Replication.Promises

/-!
# Replication/Replies — the replies to a primary

`replicate_cb` takes a reply for one of the view the cohort is the primary of, and asserts that
`latest_` and `committed_` are of one view.  A primary that has been deposed still takes itself for
one when a `REP_REPLICATE` of a later view raises `committed_`, until it has the log that leads to
that view.

* `unfailing_of_prompt` — replies do not end the program of a primary, as long as views are entered
  at once.
* `reply_fails` — a run in which the assertion fails.
-/

namespace Falcon

namespace Cohort

variable {i : Input} {s s' s₁ : Cohort} {u vs w : Viewstamp} {arg : ExecuteArg} {rle : LogEntry}
  {ack : Ackset Mid} {f : ViewForm} {ra : ReplicateArg} {sbp : Sbp} {n k : ℕ} {b : Mid}

/-! ## The log that leads on -/

/-- The `n`-th entry after `executed_`, if all up to it are in the log. -/
def after (s : Cohort) : ℕ → Option Viewstamp
  | 0 => some s.executed
  | n + 1 => ((s.after n).bind s.vsNext).filter fun vs => vs ∈ s.log

/-- The log leads from `executed_` to an entry with `P`. -/
def Continues (s : Cohort) (P : Viewstamp → Prop) : Prop := ∃ n ≤ s.log.size, ∃ vs ∈ s.after n, P vs

instance (P : Viewstamp → Prop) [DecidablePred P] : Decidable (s.Continues P) :=
  inferInstanceAs (Decidable (∃ n ≤ _, ∃ vs ∈ s.after n, P vs))

/-- What `REP_REPLICATE` logs first. -/
def logged (ra : ReplicateArg) (s : Cohort) : Option Cohort :=
  if s.committed < ra.vs ∧ ra.vs ∉ s.log then s.insert ra.vs (.plain ra.arg) else some s

/-- A view that is formed is entered at once, and so is another one that a primary learns of; and a
request gets a viewstamp of its own. -/
def Prompt (s : Cohort) : Call → Prop
  | .initView f => s.validView = false ∨ s.view.vid < f.view.vid →
      f.prev < ⟨f.view.vid, 0⟩ ∧ ∀ s₁ ∈ s.insert ⟨f.view.vid, 0⟩ (.plain f.arg),
        s₁.Continues fun vs => vs = ⟨f.view.vid, 0⟩
  | .replicate ra => s.validView = true → s.view.primary = s.self → ra.vs.ts = 0 →
      s.committed < ra.committed → ∀ s₁ ∈ s.logged ra,
        s₁.Continues fun vs => s.executed < vs ∧ vs.ts = 0 ∧ vs ≤ ra.committed
  | .execute arg => s.Issues arg → ∀ vs ∈ s.latest.succ, vs ∉ s.log
  | _ => True

instance : ∀ k, Decidable (s.Prompt k)
  | .initView _ => inferInstanceAs (Decidable (_ → _ ∧ ∀ s₁ ∈ s.insert _ _, s₁.Continues _))
  | .replicate ra =>
    inferInstanceAs (Decidable (_ → _ → _ → _ → ∀ s₁ ∈ s.logged ra, s₁.Continues _))
  | .execute arg => inferInstanceAs (Decidable (s.Issues arg → ∀ vs ∈ s.latest.succ, vs ∉ s.log))
  | .viewChange _ | .newView _ | .fetchlog _ | .letMeIn _ => isTrue trivial

theorem inLog_of_after (h : s.after n = some vs) :
    Relation.ReflTransGen s.Follows s.executed vs := by
  induction n generalizing vs with
  | zero => exact Option.some.inj h ▸ .refl
  | succ n ih =>
    obtain ⟨h, hmem⟩ := Option.filter_eq_some_iff.mp h
    obtain ⟨u, hu, hvs⟩ := Option.bind_eq_some_iff.mp h
    obtain ⟨arg, harg⟩ := mem_log_iff.mp (of_decide_eq_true hmem)
    exact (ih hu).tail ⟨hvs, by rw [harg]; rfl⟩

theorem Onward.le (h : s.Onward)
    (hwalk : Relation.ReflTransGen (fun u w => s.vsNext u = some w) u w) : u ≤ w := by
  induction hwalk with
  | refl => exact le_rfl
  | tail _ hw ih => exact ih.trans (h _ _ hw).le

theorem walk_of_inLine (h : Relation.ReflTransGen s.Follows u w) :
    Relation.ReflTransGen (fun u w => s.vsNext u = some w) u w :=
  Relation.ReflTransGen.mono (fun _ _ hnext => hnext.1) _ _ h

/-- **`advance_executed` goes as far as the log does**, up to what is committed. -/
theorem Onward.le_executeFrom (h : s.Onward)
    (hline : Relation.ReflTransGen s.Follows s.executed u) (hu : u ≤ s.committed)
    (hvs : s.vsNext s.executed = some vs) (hs' : executeFrom k vs s = some s') :
    u ≤ s'.executed := by
  induction k generalizing s vs with
  | zero => cases hs'
  | succ k ih =>
    obtain heq | ⟨x, hx, hrest⟩ := hline.cases_head
    · exact heq ▸ h.le (executes_executeFrom hvs hs').walk
    · obtain rfl : vs = x := Option.some.inj (hvs.symm.trans hx.1)
      obtain ⟨rle, hrle, -⟩ := entry_eq_some.mp (Option.eq_some_of_isSome hx.2)
      unfold executeFrom at hs'
      rw [if_pos ((h.le (walk_of_inLine hrest)).trans hu), hrle] at hs'
      simp only [Option.bind_eq_bind, Option.bind_eq_some_iff] at hs'
      obtain ⟨s₁, hs₁, w, hw, hs'⟩ := hs'
      have he := executes_execute hvs hrle hs₁
      have hcommitted : s₁.committed = s.committed := by
        obtain ⟨-, rfl⟩ | ⟨-, f, -, rfl⟩ := execute_cases hs₁
        · rfl
        · rfl
      have hexec := executed_execute hs₁
      refine ih (fun u w hw => h u w (he.vsNext ▸ hw)) ?_ (hcommitted ▸ hu) (hexec.symm ▸ hw) hs'
      rw [hexec]
      have hfollows : s₁.Follows = s.Follows := by
        funext a b
        rw [Follows, Follows, he.vsNext, he.entry]
      exact hfollows ▸ hrest

theorem Onward.le_advanceExecuted (h : s.Onward)
    (hline : Relation.ReflTransGen s.Follows s.executed u) (hu : u ≤ s.committed)
    (hs' : s.advanceExecuted = some s') : u ≤ s'.executed := by
  obtain ⟨vs, hvs, hs'⟩ := Option.bind_eq_some_iff.mp hs'
  exact h.le_executeFrom hline hu hvs hs'

/-! ## A cohort and what it waits for -/

/-- A cohort between two inputs: `latest_` is not past what is committed, or the view. -/
structure Poised (s : Cohort) : Prop where
  placed : s.Placed
  waits : s.Outstanding
  behind : s.latest.vid ≤ s.committed.vid
  within : s.latest.vid ≤ s.view.vid
  joined : s.validView = false → s.latest = .zero
  active : s.mode = .active → s.validView = true
  replied : ∀ n b, s.calls.lookup n = some (.replicateCb b) → s.validView = true

/-- What is sent is of no matter. -/
theorem Poised.sends (h : s.Poised) (o : List Output) : Poised { s with out := o } :=
  ⟨h.placed.sends _ _ _, h.waits, h.behind, h.within, h.joined, h.active, h.replied⟩

theorem Placed.onward (h : s.Placed) : s.Onward := fun _ _ hw => (h.vsNext hw).1

/-- An entry that is changed waits as before. -/
theorem acks_insert (hrle : s.log.lookup w = some rle) (hack : rle.ack = some ack) {rle' : LogEntry}
    (hlog : s'.log = s.log.insert vs rle') (hsame : w = vs → ∃ ack', rle'.ack = some ack') :
    ∃ rle ack, s'.log.lookup w = some rle ∧ rle.ack = some ack := by
  rw [hlog]
  by_cases hw : w = vs
  · obtain ⟨ack', hack'⟩ := hsame hw
    exact ⟨rle', ack', hw ▸ AList.lookup_insert _, hack'⟩
  · exact ⟨rle, ack, (AList.lookup_insert_ne hw).trans hrle, hack⟩

/-- What waits goes on waiting, unless it is committed. -/
theorem Move.acks (h : Move i s s') (hrle : s.log.lookup w = some rle) (hack : rle.ack = some ack) :
    w = s'.committed ∨ ∃ rle ack, s'.log.lookup w = some rle ∧ rle.ack = some ack := by
  have hkeep : ∀ {vs} {rle₁ rle₂ : LogEntry}, s.log.lookup vs = some rle₁ →
      rle₂.ack = rle₁.ack → w = vs → ∃ ack', rle₂.ack = some ack' := by
    rintro vs rle₁ rle₂ hrle₁ hsame rfl
    obtain rfl := Option.some.inj (hrle.symm.trans hrle₁)
    exact ⟨ack, hsame.trans hack⟩
  cases h with
  | run hvs hle hrle' hts => exact Or.inr (acks_insert hrle hack rfl (hkeep hrle' rfl))
  | enter hvs hle hrle' hts hf => exact Or.inr (acks_insert hrle hack rfl (hkeep hrle' rfl))
  | caller sbp hrle' => exact Or.inr (acks_insert hrle hack rfl (hkeep hrle' rfl))
  | executeDone hi hvs hrle' ho => exact Or.inr (acks_insert hrle hack rfl (hkeep hrle' rfl))
  | acknowledge hi hprimary hvid hlast hmember hwalk hle hrle' hack' =>
    exact Or.inr (acks_insert hrle hack rfl fun _ => ⟨_, rfl⟩)
  | @commit vs rle₁ ack₁ hvs hle hrle' hack' hmaj =>
    by_cases hw : w = vs
    · exact Or.inl hw
    · exact Or.inr ⟨rle, ack, (AList.lookup_insert_ne hw).trans hrle, hack⟩
  | _ => exact Or.inr ⟨rle, ack, hrle, hack⟩

/-- A reply is waited for when a view has been formed or a request issued. -/
theorem Move.replied (h : Move i s s') (hi : ∀ sbp f, i ≠ .call sbp (.initView f))
    (hcb : s'.calls.lookup n = some (.replicateCb b)) :
    s.calls.lookup n = some (.replicateCb b) := by
  cases h with
  | called hin hcb' => exact Keyed.lookup_of_lookup_erase hcb
  | replicateForm hin hprimary hlog hsends => exact absurd hin (hi _ _)
  | pull hpulls hs' =>
    exact ((asks_pullUpto hs').calls n _ hcb).resolve_right fun ⟨_, _, heq, _⟩ => by cases heq
  | descend hs' =>
    exact ((asks_descend hs').calls n _ hcb).resolve_right fun ⟨_, _, heq, _⟩ => by cases heq
  | ask hw hu hnew hopen hcurrent hnone =>
    obtain ⟨-, heq⟩ | ⟨-, hcb⟩ := Keyed.lookup_of_lookup_insert hcb
    · cases heq
    · exact hcb
  | propose hopen hdone hmaj hmaj' hnone hnv hsends =>
    exact (hsends.calls n _ hcb).resolve_right fun ⟨_, _, _, _, heq⟩ => by cases heq
  | _ => exact hcb

theorem Placed.committed_le (h : s.Placed) (hmove : Move i s s') : s.committed ≤ s'.committed := by
  obtain heq | ⟨hnext, -⟩ := hmove.committed
  · exact heq.ge
  · exact (h.onward _ _ hnext).le

theorem Outstanding.move (h : s.Outstanding) (hplaced : s.Placed) (hmove : Move i s s') :
    s'.Outstanding := by
  intro w hlt hle
  rw [hmove.latest] at hle
  obtain ⟨rle, ack, hrle, hack⟩ := h w (lt_of_le_of_lt (hplaced.committed_le hmove) hlt) hle
  exact (hmove.acks hrle hack).resolve_left (ne_of_gt hlt)

theorem Outstanding.moves (h : s.Outstanding) (hplaced : s.Placed) (hmoves : Moves i s s') :
    s'.Outstanding := by
  induction hmoves with
  | refl => exact h
  | tail hmoves hmove ih => exact ih.move (hplaced.moves hmoves).1 hmove

theorem Poised.move (h : s.Poised) (hi : ∀ sbp f, i ≠ .call sbp (.initView f))
    (hmove : Move i s s') : s'.Poised := by
  obtain ⟨hplaced, hadv⟩ := h.placed.move hmove
  have hcommitted := h.placed.committed_le hmove
  have hvalid : s.validView = true → s'.validView = true := fun hvalid => by
    obtain ⟨-, heq, -⟩ | ⟨-, -, -, -, -, -, -, heq⟩ := hmove.view
    · exact heq.trans hvalid
    · exact heq
  refine ⟨hplaced, h.waits.move h.placed hmove, ?_, ?_, fun hfalse => ?_, fun hmode => ?_,
    fun n b hcb => hvalid (h.replied n b (hmove.replied hi hcb))⟩
  · rw [hmove.latest]
    exact h.behind.trans (Viewstamp.vid_le hcommitted)
  · rw [hmove.latest]
    exact h.within.trans hadv.view
  · rw [hmove.latest]
    refine h.joined (Bool.eq_false_iff.mpr fun htrue => ?_)
    rw [hvalid htrue] at hfalse
    cases hfalse
  · obtain ⟨-, heq, hsame⟩ | ⟨-, -, -, -, -, -, -, heq⟩ := hmove.view
    · exact heq.trans (h.active (hsame ▸ hmode))
    · exact heq

theorem Poised.moves (h : s.Poised) (hi : ∀ sbp f, i ≠ .call sbp (.initView f))
    (hmoves : Moves i s s') : s'.Poised := by
  induction hmoves with
  | refl => exact h
  | tail _ hmove ih => exact ih.move hi hmove

theorem le_of_lt_succ (hvs : u.succ = some vs) (hlt : w < vs) : w ≤ u := by
  obtain ⟨hvid, hts⟩ := ts_succ hvs
  obtain hlt | ⟨heq, hlt⟩ := Viewstamp.lt_iff.mp hlt
  · exact (Viewstamp.lt_iff.mpr (Or.inl (hvid ▸ hlt))).le
  · obtain hlt | heq' := Nat.lt_or_eq_of_le (Nat.le_of_lt_succ (hts ▸ hlt))
    · exact (Viewstamp.lt_iff.mpr (Or.inr ⟨heq.trans hvid, hlt⟩)).le
    · exact (Viewstamp.eq_iff.mpr ⟨heq.trans hvid, heq'⟩).le

/-- What is logged besides does not touch what waits. -/
theorem Poised.waits_add (h : s.Poised) {rle' : LogEntry} (hnew : vs ∉ s.log)
    (hlog : s'.log = s.log.add vs rle') (hlt : s.committed < w) (hle : w ≤ s.latest) :
    ∃ rle ack, s'.log.lookup w = some rle ∧ rle.ack = some ack := by
  obtain ⟨rle, ack, hrle, hack⟩ := h.waits w hlt hle
  have hw : w ≠ vs := fun heq => hnew (heq ▸ Keyed.mem_of_lookup hrle)
  refine ⟨rle, ack, ?_, hack⟩
  rw [hlog]
  exact (Keyed.lookup_add_ne hw).trans hrle

/-- A request is issued under a viewstamp of its own. -/
theorem Poised.waits_issue (h : s.Poised) {s₀ : Cohort} (hcache : s.Unanswered arg s₀)
    (hvs : s.latest.succ = some vs) (hnew : vs ∉ s.log) (hack : rle.ack = some ack)
    (hlog : s'.log = s₀.log.add vs rle) (hlt : s.committed < w) (hle : w ≤ vs) :
    ∃ rle ack, s'.log.lookup w = some rle ∧ rle.ack = some ack := by
  have hnew₀ : vs ∉ s₀.log := by rwa [mem_log_iff, hcache.entry, ← mem_log_iff]
  rw [hlog]
  by_cases hw : w = vs
  · subst hw
    exact ⟨rle, ack, Keyed.lookup_add_self hnew₀, hack⟩
  · obtain ⟨rle, ack, hrle, hack⟩ := h.waits w hlt (le_of_lt_succ hvs (lt_of_le_of_ne hle hw))
    have hrle₀ : ∃ rle ack, s₀.log.lookup w = some rle ∧ rle.ack = some ack := by
      cases hcache with
      | none hnone => exact ⟨rle, ack, hrle, hack⟩
      | other hrce hrid => exact ⟨rle, ack, hrle, hack⟩
      | lost hrce hrid hrle' hstate hvid =>
        refine acks_insert hrle hack rfl fun heq => ?_
        obtain rfl := Option.some.inj ((heq ▸ hrle).symm.trans hrle')
        exact ⟨ack, hack⟩
    obtain ⟨rle, ack, hrle, hack⟩ := hrle₀
    exact ⟨rle, ack, (Keyed.lookup_add_ne hw).trans hrle, hack⟩

/-- **What an input brings** leaves the cohort in order, if no view is formed. -/
theorem Poised.begins (h : s.Poised) (hi : ∀ sbp f, i ≠ .call sbp (.initView f))
    (hleads : ∀ vs arg, Enters i s s₁ vs arg → arg.LeadsTo vs)
    (hprompt : ∀ sbp c, i = .call sbp c → s.Prompt c) (hs₁ : Begins i s s₁) : s₁.Poised := by
  have hplaced := h.placed.begins hleads hs₁
  cases hs₁ with
  | stays => exact h
  | initiates hstart hs' =>
    obtain ⟨-, -, o, S, hsends, rfl⟩ := hs'
    refine ⟨hplaced, h.waits, h.behind, h.within, h.joined, (fun hmode => by cases hmode),
      fun n b hcb => h.replied n b ?_⟩
    exact (hsends.calls n _ hcb).resolve_right fun ⟨_, _, _, _, heq⟩ => by cases heq
  | @issues sbp arg reply vs o S s₀ hin hmode hvid hprimary hcache hvs hsends =>
    have hvalid := h.active hmode
    have hnew := hprompt _ _ hin ⟨hmode, hvid, hprimary, _, hcache⟩ vs hvs
    have hsame : vs.vid = s.latest.vid := (ts_succ hvs).1
    obtain ⟨L, rfl⟩ := hcache.eq
    refine ⟨hplaced, fun w hlt hle => h.waits_issue hcache hvs hnew rfl rfl hlt hle, ?_, ?_,
      fun hfalse => absurd hvalid (Bool.eq_false_iff.mp hfalse), fun _ => hvalid,
      fun _ _ _ => hvalid⟩
    · exact hsame.le.trans h.behind
    · exact hsame.le.trans h.within
  | forms hin hnew hprimary hJ => exact absurd hin (hi _ _)
  | logs hin hcheck hlt hnew hJ =>
    refine ⟨hplaced, fun w hlt' hle => ?_, ?_, h.within, h.joined, h.active, h.replied⟩
    · exact h.waits_add hnew rfl (lt_of_le_of_lt (le_max_left _ _) hlt') hle
    · exact h.behind.trans (Viewstamp.vid_le (le_max_left _ _))
  | adopts hin hcheck hold =>
    refine ⟨hplaced, fun w hlt' hle => ?_, ?_, h.within, h.joined, h.active, h.replied⟩
    · exact h.waits w (lt_of_le_of_lt (le_max_left _ _) hlt') hle
    · exact h.behind.trans (Viewstamp.vid_le (le_max_left _ _))
  | fetches hin hcb hnew hJ =>
    refine ⟨hplaced, fun w hlt hle => h.waits_add hnew rfl hlt hle, h.behind, h.within, h.joined,
      h.active, fun n b hcb => h.replied n b (Keyed.lookup_of_lookup_erase hcb)⟩
  | promises hin hfree hlatest =>
    exact ⟨hplaced, h.waits, h.behind, h.within, h.joined, (fun hmode => by cases hmode), h.replied⟩
  | accepts hin hfree =>
    exact ⟨hplaced, h.waits, h.behind, h.within, h.joined, (fun hmode => by cases hmode), h.replied⟩

/-! ## The primary -/

/-- `latest_` and `committed_` of a primary are of one view. -/
def Level (s : Cohort) : Prop :=
  s.validView = true → s.view.primary = s.self → s.latest.vid = s.committed.vid

/-- The views of this cohort that are in the log have been entered. -/
def OwnEntered (s : Cohort) : Prop := ∀ vs arg f, s.entry vs = some arg → vs.ts = 0 →
  arg.request = .form f → f.view.primary = s.self → vs ≤ s.executed

/-- The cohort stays in its view, or comes to one of another primary. -/
def StaysOrLeaves (s s' : Cohort) : Prop :=
  s'.view = s.view ∧ s'.validView = s.validView ∧ s'.executed.vid = s.executed.vid ∨
    s'.view.primary ≠ s'.self

theorem OwnEntered.staysOrLeaves (h : s.OwnEntered) (hplaced : s.Placed) (hmove : Move i s s') :
    StaysOrLeaves s s' := by
  cases hmove with
  | run hvs hle hrle hts =>
    exact Or.inl ⟨rfl, rfl, (hplaced.vsNext hvs).2.resolve_left hts⟩
  | @enter vs rle f hvs hle hrle hts hf =>
    refine Or.inr fun hprimary => ?_
    have hentered := h vs _ f (entry_eq_some.mpr ⟨rle, hrle, rfl⟩) hts hf hprimary
    exact absurd (hplaced.vsNext hvs).1 (not_lt.mpr hentered)
  | _ => exact Or.inl ⟨rfl, rfl, rfl⟩

theorem OwnEntered.move (h : s.OwnEntered) (hplaced : s.Placed) (hmove : Move i s s') :
    s'.OwnEntered := by
  intro vs arg f hentry hts hf hprimary
  rw [hmove.entry] at hentry
  rw [hmove.self] at hprimary
  exact (h vs arg f hentry hts hf hprimary).trans (hplaced.move hmove).2.executed

theorem OwnEntered.moves (h : s.OwnEntered) (hplaced : s.Placed) (hmoves : Moves i s s') :
    s'.OwnEntered ∧ StaysOrLeaves s s' := by
  induction hmoves with
  | refl => exact ⟨h, Or.inl ⟨rfl, rfl, rfl⟩⟩
  | @tail s₁ s₂ hmoves hmove ih =>
    have hplaced₁ := (hplaced.moves hmoves).1
    refine ⟨ih.1.move hplaced₁ hmove, ?_⟩
    obtain ⟨hview, hvalid, hexec⟩ | hleaves := ih.1.staysOrLeaves hplaced₁ hmove
    · obtain ⟨hview', hvalid', hexec'⟩ | hne := ih.2
      · exact Or.inl ⟨hview.trans hview', hvalid.trans hvalid', hexec.trans hexec'⟩
      · refine Or.inr ?_
        rwa [hview, hmove.self]
    · exact Or.inr hleaves

/-- A primary commits what it has sent out in its view. -/
theorem Placed.level_moves (h : s.Placed) (hlevel : s.latest.vid = s.committed.vid)
    (hmoves : Moves i s s') : s'.latest.vid = s'.committed.vid := by
  induction hmoves with
  | refl => exact hlevel
  | @tail s₁ s₂ hmoves hmove ih =>
    rw [hmove.latest]
    obtain heq | ⟨hnext, hle⟩ := hmove.committed
    · rw [heq]
      exact ih
    · have hlt := (h.moves hmoves).1.onward _ _ hnext
      exact le_antisymm (ih.le.trans (Viewstamp.vid_le hlt.le)) (Viewstamp.vid_le hle)

theorem Level.moves (h : s.Level) (hplaced : s.Placed) (hown : s.OwnEntered)
    (hmoves : Moves i s s') : s'.Level := by
  intro hvalid hprimary
  obtain ⟨hview, hsame, -⟩ | hleaves := (hown.moves hplaced hmoves).2
  · rw [hview, hmoves.self] at hprimary
    exact hplaced.level_moves (h (hsame ▸ hvalid) hprimary) hmoves
  · exact absurd hprimary hleaves

/-- A primary learns of what is committed in a later view. -/
structure Overtaken (i : Input) (s : Cohort) (ra : ReplicateArg) : Prop where
  input : ∃ sbp, i = .call sbp (.replicate ra)
  valid : s.validView = true
  primary : s.view.primary = s.self
  form : ra.vs.ts = 0
  committed : s.committed < ra.committed

theorem Level.begins (h : s.Level) (hi : ∀ sbp f, i ≠ .call sbp (.initView f))
    (hs₁ : Begins i s s₁) : s₁.Level ∨ ∃ ra, s.Overtaken i ra := by
  have hraised : ∀ {sbp ra}, i = .call sbp (.replicate ra) → s.Checks ra →
      (s.validView = true → s.view.primary = s.self →
        s.latest.vid = (max s.committed ra.committed).vid) ∨ ∃ ra, s.Overtaken i ra := by
    intro sbp ra hin hcheck
    by_cases hover : s.Overtaken i ra
    · exact Or.inr ⟨ra, hover⟩
    · refine Or.inl fun hvalid hprimary => ?_
      have hts : ra.vs.ts = 0 := by
        by_contra hne
        exact (hcheck hne).2.1 hprimary
      have hle : ra.committed ≤ s.committed := not_lt.mp fun hlt =>
        hover ⟨⟨sbp, hin⟩, hvalid, hprimary, hts, hlt⟩
      rw [max_eq_left hle]
      exact h hvalid hprimary
  cases hs₁ with
  | initiates hstart hs' =>
    obtain ⟨-, -, o, S, hsends, rfl⟩ := hs'
    exact Or.inl h
  | issues hin hmode hvid hprimary hcache hvs hsends =>
    obtain ⟨L, rfl⟩ := hcache.eq
    exact Or.inl fun hvalid hprimary => (ts_succ hvs).1.trans (h hvalid hprimary)
  | forms hin hnew hprimary hJ => exact absurd hin (hi _ _)
  | logs hin hcheck hlt hnew hJ => exact hraised hin hcheck
  | adopts hin hcheck hold => exact hraised hin hcheck
  | _ => exact Or.inl h

/-! ## The calls that take a cohort into a view -/

theorem Onward.insert (h : s.Onward) (hleads : rle.arg.LeadsTo vs)
    (hs₁ : s.insert vs rle = some s₁) :
    s₁.Onward := by
  intro u w hw
  unfold vsNext at hw
  split at hw
  · next next hnext =>
    obtain rfl := Option.some.inj hw
    obtain hold | ⟨hts, rfl, f, hf, rfl⟩ := insert_jumps hs₁ hnext
    · refine h u next ?_
      rw [vsNext, hold]
    · exact (hleads hts f hf).1
  · exact lt_succ hw

theorem adopted_eq : s.adopted ra = (s.logged ra).bind fun s =>
    { s with committed := max s.committed ra.committed }.advanceExecuted := by
  unfold adopted logged
  by_cases hnew : s.committed < ra.vs ∧ ra.vs ∉ s.log
  · rw [if_pos hnew, if_pos hnew]
    rfl
  · rw [if_neg hnew, if_neg hnew]
    rfl

/-- A primary that has the log leaves its view for that of another one. -/
theorem le_adopted {P : Viewstamp → Prop} (h : s.Onward) (hleads : ra.arg.LeadsTo ra.vs)
    (hcontinues : ∀ s₁ ∈ s.logged ra, s₁.Continues P) (hP : ∀ vs, P vs → vs ≤ ra.committed)
    (hs' : s.adopted ra = some s') : ∃ vs, P vs ∧ vs ≤ s'.executed := by
  rw [adopted_eq] at hs'
  obtain ⟨s₁, hs₁, hs'⟩ := Option.bind_eq_some_iff.mp hs'
  obtain ⟨n, -, vs, hvs, hPvs⟩ := hcontinues s₁ hs₁
  have h₁ : s₁.Onward := by
    unfold logged at hs₁
    split_ifs at hs₁
    · exact h.insert hleads hs₁
    · exact Option.some.inj hs₁ ▸ h
  have hline := inLog_of_after hvs
  refine ⟨vs, hPvs, Onward.le_advanceExecuted ?_ ?_ ((hP vs hPvs).trans (le_max_right _ _)) hs'⟩
  · exact h₁
  · exact hline

theorem commitFrom_of_lt (hlt : s.latest < vs) (hs' : commitFrom k vs s = some s') : s' = s := by
  cases k with
  | zero => cases hs'
  | succ k =>
    unfold commitFrom at hs'
    rw [if_neg (not_le.mpr hlt)] at hs'
    exact (Option.some.inj hs').symm

/-- What `form_view` leaves when the view is entered at once. -/
structure Formed (f : ViewForm) (s' : Cohort) : Prop where
  poised : s'.Poised
  executed : ⟨f.view.vid, 0⟩ ≤ s'.executed
  latest : s'.latest = ⟨f.view.vid, 0⟩
  level : s'.latest.vid = s'.committed.vid

/-- The calls that are made do not matter once a view is entered. -/
theorem Formed.calls (h : Formed f s) (hvalid : s.validView = true) (o : List Output) (k : ℕ)
    (S : Keyed ℕ Continuation) : Formed f { s with out := o, nextCall := k, calls := S } := by
  obtain ⟨⟨hplaced, hwaits, hbehind, hwithin, hjoined, hactive, -⟩, hexec, hlatest, hlevel⟩ := h
  exact ⟨⟨hplaced.sends _ _ _, hwaits, hbehind, hwithin, hjoined, hactive, fun _ _ _ => hvalid⟩,
    hexec, hlatest, hlevel⟩

theorem vid_lt_of_lt {v : ViewId} (h : u < ⟨v, 0⟩) : u.vid < v :=
  (Viewstamp.lt_iff.mp h).resolve_right fun ⟨_, hts⟩ => Nat.not_lt_zero _ hts

theorem leadsTo_of_prev (hprev : f.prev < ⟨f.view.vid, 0⟩) : f.arg.LeadsTo ⟨f.view.vid, 0⟩ := by
  rintro - g hg
  obtain rfl := Payload.form.inj hg
  exact ⟨hprev, rfl⟩

/-- The log leads to the formation, which is executed. -/
theorem formed_of_line (hplaced : s.Placed) (hprev : f.prev < ⟨f.view.vid, 0⟩)
    (hlatest : s.latest = ⟨f.view.vid, 0⟩) (hcommitted : s.committed = ⟨f.view.vid, 0⟩)
    (hline : Relation.ReflTransGen s.Follows s.executed ⟨f.view.vid, 0⟩)
    (hs' : s.advanceCommitted = some s') : Formed f s' ∧ s'.validView = true := by
  have hmoves := moves_advanceCommitted (i := .viewIsDown) hs'
  obtain ⟨hplaced', -⟩ := hplaced.moves hmoves
  have hexec : ⟨f.view.vid, 0⟩ ≤ s'.executed := by
    simp only [advanceCommitted, Option.bind_eq_bind, Option.bind_eq_some_iff] at hs'
    obtain ⟨next, hnext, s₁, hs₁, hs'⟩ := hs'
    -- nothing is committed besides
    have hlt := hplaced.onward _ _ hnext
    rw [hcommitted, ← hlatest] at hlt
    obtain rfl := commitFrom_of_lt hlt hs₁
    exact hplaced.onward.le_advanceExecuted hline hcommitted.ge hs'
  have hlevel := hplaced.level_moves (by rw [hlatest, hcommitted]) hmoves
  have hwaits : s'.Outstanding := by
    refine Outstanding.moves (fun w hlt hle => ?_) hplaced hmoves
    rw [hlatest, ← hcommitted] at hle
    exact absurd hle (not_le.mpr hlt)
  have hlatest' : s'.latest = ⟨f.view.vid, 0⟩ := hmoves.latest.trans hlatest
  have hvalid : s'.validView = true := by
    by_contra hfalse
    have hle := Viewstamp.vid_le hexec
    rw [(hplaced'.fresh (Bool.eq_false_iff.mpr hfalse)).1] at hle
    exact absurd hle (not_le.mpr (lt_of_le_of_lt (ViewId.zero_le _) (vid_lt_of_lt hprev)))
  refine ⟨⟨⟨hplaced', hwaits, hlevel.le, ?_, ?_, fun _ => hvalid, fun _ _ _ => hvalid⟩, hexec,
    hlatest', hlevel⟩, hvalid⟩
  · rw [hlatest', ← hplaced'.vid]
    exact Viewstamp.vid_le hexec
  · exact fun hfalse => absurd hvalid (Bool.eq_false_iff.mp hfalse)

/-- The view `f` is formed and entered, by its primary and after the log so far. -/
structure Entered (f : ViewForm) (s s' : Cohort) : Prop extends Formed f s' where
  primary : f.view.primary = s.self
  prev : f.prev < ⟨f.view.vid, 0⟩
  executed_le : s.executed ≤ s'.executed
  latest_le : s.latest ≤ s'.latest

theorem Poised.formView (h : s.Poised) (hnew : s.validView = false ∨ s.view.vid < f.view.vid)
    (hprompt : s.Prompt (.initView f)) (hs' : s.formView f = some s') :
    Entered f s s' ∧ s'.validView = true := by
  obtain ⟨hprev, hcontinues⟩ := hprompt hnew
  unfold Cohort.formView at hs'
  split_ifs at hs' with hprimary
  simp only [Option.bind_eq_bind, Option.bind_eq_some_iff] at hs'
  obtain ⟨s₁, hs₁, s₂, hs₂, hs'⟩ := hs'
  rw [insert_with] at hs₁
  obtain ⟨s₀, hs₀, rfl⟩ := Option.map_eq_some_iff.mp hs₁
  obtain ⟨n, -, -, hvs, rfl⟩ := hcontinues s₀ hs₀
  have hline := inLog_of_after hvs
  obtain ⟨J, rfl⟩ := insert_eq hs₀
  have hplaced := h.placed.begins (fun vs arg henters => ?_)
    (Begins.forms (i := .call ⟨0, 0⟩ (.initView f)) rfl hnew hprimary hs₀)
  obtain ⟨hformed, hvalid⟩ := formed_of_line hplaced hprev rfl rfl hline hs₂
  obtain ⟨o, S, heq, -⟩ := callEach_eq
    (fun _ => .replicate ⟨⟨f.view.vid, 0⟩, f.arg, ⟨f.view.vid, 0⟩⟩) .replicateCb f.view.backups s₂
  obtain rfl : s' = _ := (Option.some.inj hs').symm.trans heq
  · refine ⟨⟨hformed.calls hvalid _ _ _, hprimary, hprev, ?_, ?_⟩, hvalid⟩
    · exact (h.placed.lt_form ⟨hprev, rfl⟩ hnew).le.trans hformed.executed
    · change s.latest ≤ s₂.latest
      rw [hformed.latest]
      obtain hfalse | hlt := hnew
      · rw [h.joined hfalse]
        exact Viewstamp.zero_le _
      · exact (Viewstamp.lt_iff.mpr (Or.inl (lt_of_le_of_lt h.within hlt))).le
  · cases henters with
    | form hin hprimary hlatest =>
      obtain ⟨-, hcall⟩ := Input.call.inj hin
      obtain rfl := Call.initView.inj hcall
      exact leadsTo_of_prev hprev
    | issue hin hissues hvs hlatest => cases hin
    | replicate hin => cases hin
    | fetch hin hcb => cases hin

/-! ## `replicate_cb` -/

/-- What `replicate_cb` and `advance_committed` take for granted when `vs` is acknowledged. -/
structure Unfailing (s : Cohort) (vs : Viewstamp) : Prop where
  vid : s.latest.vid = s.committed.vid
  known : vs ≤ s.latest ∨ vs ≤ s.committed
  logged : ∀ w, s.Walk s.committed w → w ≤ vs → w ∈ s.log
  acked : ∀ w, s.Walk s.committed w → w ≤ s.latest →
    ∃ rle ack, s.log.lookup w = some rle ∧ rle.ack = some ack

/-- No timestamp wraps around. -/
structure Short (s : Cohort) : Prop where
  log : ∀ vs ∈ s.log, vs.Short
  executed : s.executed.Short
  committed : s.committed.Short

theorem Poised.unfailing (h : s.Poised) (hlevel : s.latest.vid = s.committed.vid)
    (hvs : vs ≤ s.latest) : s.Unfailing vs := by
  have hacked : ∀ w, s.Walk s.committed w → w ≤ s.latest →
      ∃ rle ack, s.log.lookup w = some rle ∧ rle.ack = some ack :=
    fun w hwalk hle => h.waits w (h.placed.onward.walk_lt hwalk) hle
  refine ⟨hlevel, Or.inl hvs, fun w hwalk hle => ?_, hacked⟩
  obtain ⟨rle, ack, hrle, -⟩ := hacked w hwalk (hle.trans hvs)
  exact Keyed.mem_of_lookup hrle

/-- An acknowledgement leaves the log in order. -/
theorem Passable.acknowledge (h : s.Passable) (hrle : s.log.lookup vs = some rle)
    (ack : Ackset Mid) :
    (s.setEntry vs { rle with ack := some ack }).Passable := by
  have hentry : (s.setEntry vs { rle with ack := some ack }).entry = s.entry :=
    entry_insert rfl rfl hrle rfl
  refine ⟨h.onward, hentry ▸ h.forms, fun w hw => h.short w ?_, h.executed, h.committed,
    fun w hlt hle => ?_⟩
  · rw [mem_log_iff] at hw ⊢
    exact hentry ▸ hw
  · obtain ⟨rle', ack', hrle', hack'⟩ := h.waits w hlt hle
    exact acks_insert hrle' hack' rfl fun _ => ⟨ack, rfl⟩

theorem exists_acknowledgeFrom (h : s.Passable) {last : Viewstamp} (hlast : last ≤ s.latest)
    (hlt : s.committed < vs) (hk : s.ahead vs < k) :
    ∃ s', acknowledgeFrom b last k vs s = some s' ∧ s'.Passable := by
  induction k generalizing s vs with
  | zero => exact absurd hk (Nat.not_lt_zero _)
  | succ k ih =>
    unfold acknowledgeFrom
    split_ifs with hle
    · obtain ⟨rle, ack, hrle, hack⟩ := h.waits vs hlt (hle.trans hlast)
      have hmem := Keyed.mem_of_lookup hrle
      have h₁ := h.acknowledge hrle { ack with received := ack.received.insert b }
      obtain ⟨w, hw⟩ := exists_vsNext (s := s) (h.short vs hmem)
      have hentry : (s.setEntry vs { rle with
          ack := some { ack with received := ack.received.insert b } }).entry = s.entry :=
        entry_insert rfl rfl hrle rfl
      have hrest : (s.setEntry vs { rle with
          ack := some { ack with received := ack.received.insert b } }).ahead w < k := by
        rw [ahead_congr hentry]
        exact lt_of_lt_of_le (ahead_lt hmem (h.onward _ _ hw)) (Nat.le_of_lt_succ hk)
      obtain ⟨s', hs', h'⟩ := ih h₁ hlast (hlt.trans (h.onward _ _ hw)) hrest
      refine ⟨s', ?_, h'⟩
      simp only [hrle, hack, Option.bind_eq_bind, Option.bind_some]
      exact Option.bind_eq_some_iff.mpr ⟨w, hw, hs'⟩
    · exact ⟨s, rfl, h⟩

/-- **`replicate_cb` comes to an end.** -/
theorem Passable.replicateCb (h : s.Passable) (hlevel : s.latest.vid = s.committed.vid)
    (hvs : vs ≤ s.latest) : ∃ s', s.replicateCb b vs = some s' := by
  unfold Cohort.replicateCb
  split_ifs with hprimary hvid hold hlast hmember
  · exact ⟨s, rfl⟩
  · exact absurd hlevel hvid
  · exact ⟨s, rfl⟩
  · exact absurd hvs (not_le.mpr hlast)
  · exact ⟨s, rfl⟩
  · obtain ⟨w, hw⟩ := exists_vsNext (s := s) h.committed
    obtain ⟨s₁, hs₁, h₁⟩ := exists_acknowledgeFrom (b := b) h hvs (h.onward _ _ hw)
      (ahead_lt_rounds s w)
    obtain ⟨s', hs', -⟩ := h₁.advanceCommitted
    refine ⟨s', ?_⟩
    rw [hw, Option.bind_eq_bind, Option.bind_some, hs₁]
    exact hs'

/-! ## What a move says -/

/-- A move replicates nothing but a formation. -/
theorem Says.form_of_replicate {d : Mid} (h : Says i s (.call n d (.replicate ra))) :
    ∃ sbp f, i = .call sbp (.initView f) ∧
      ra = ⟨⟨f.view.vid, 0⟩, f.arg, ⟨f.view.vid, 0⟩⟩ := by
  generalize hx : Output.call n d (.replicate ra) = x at h
  cases h with
  | form n d hin hlog =>
    obtain ⟨-, -, heq⟩ := Output.call.inj hx
    exact ⟨_, _, hin, Call.replicate.inj heq⟩
  | @pulled q cb hcb hend => cases cb with | _ => cases hx
  | _ => cases hx

/-- An entry that is fetched is one of the log. -/
theorem Says.entry_of_fetchlog (h : Says i s (.answer sbp (.fetchlog arg))) :
    ∃ vs, i = .call sbp (.fetchlog vs) ∧ s.entry vs = some arg := by
  generalize hx : Output.answer sbp (.fetchlog arg) = x at h
  cases h with
  | answer hans =>
    cases hans with
    | entry hin hrle =>
      obtain ⟨rfl, heq⟩ := Output.answer.inj hx
      obtain rfl := Answer.fetchlog.inj heq
      exact ⟨_, hin, entry_eq_some.mpr ⟨_, hrle, rfl⟩⟩
    | _ => cases hx
  | @pulled q cb hcb hend =>
    cases cb with
    | replicate sbp' vs' =>
      obtain ⟨-, heq⟩ := Output.answer.inj hx
      split_ifs at heq
    | newView sbp' => cases hx
  | _ => cases hx

/-- A `REP_REPLICATE` is answered when its pull is over. -/
theorem Says.donecb_of_replicate (h : Says i s (.answer sbp (.replicate vs))) :
    ∃ q, (s.pulls q).donecb = some (.replicate sbp vs) := by
  generalize hx : Output.answer sbp (.replicate vs) = x at h
  cases h with
  | answer hans => cases hans with | _ => cases hx
  | @pulled q cb hcb hend =>
    cases cb with
    | replicate sbp' vs' =>
      obtain ⟨rfl, heq⟩ := Output.answer.inj hx
      split_ifs at heq
      obtain rfl := Answer.replicate.inj heq
      exact ⟨q, hcb⟩
    | newView sbp' => cases hx
  | _ => cases hx

/-- A step leaves a cohort in order, and takes it forward. -/
structure Goes (s s' : Cohort) : Prop where
  poised : s'.Poised
  level : s'.Level
  executed : s.executed ≤ s'.executed
  latest : s.latest ≤ s'.latest

/-- `latest_` goes forward, unless a view is formed. -/
theorem Begins.latest_le (hi : ∀ sbp f, i ≠ .call sbp (.initView f)) (hs₁ : Begins i s s₁) :
    s.latest ≤ s₁.latest := by
  cases hs₁ with
  | initiates hstart hs' =>
    obtain ⟨-, -, o, S, hsends, rfl⟩ := hs'
    exact le_rfl
  | issues hin hmode hvid hprimary hcache hvs hsends => exact (lt_succ hvs).le
  | forms hin hnew hprimary hJ => exact absurd hin (hi _ _)
  | _ => exact le_rfl

end Cohort

namespace Group

open Cohort

variable {s s' : Group} {e : Event} {m : Mid} {c c₁ c' : Cohort} {i : Input} {vs : Viewstamp}
  {arg : ExecuteArg} {sbp : Sbp} {f : ViewForm} {ra : ReplicateArg}

/-! ## A group whose primaries are in one view -/

/-- No call leaves a primary between two views. -/
def Prompt (s : Group) : Event → Prop
  | .deliver p => p ∈ s.calls → ∀ c ∈ s.cohorts p.dest, c.Prompt p.call
  | .request mid _ arg => ∀ c ∈ s.cohorts mid, c.Prompt (.execute arg)
  | _ => True

instance : ∀ e, Decidable (s.Prompt e)
  | .deliver p =>
    inferInstanceAs (Decidable (p ∈ s.calls → ∀ c ∈ s.cohorts p.dest, c.Prompt p.call))
  | .request mid _ arg => inferInstanceAs (Decidable (∀ c ∈ s.cohorts mid, c.Prompt (.execute arg)))
  | .boot _ | .answer _ _ | .fail _ _ | .executed _ _ | .failed _ _ | .viewIsDown _ | .join _ _ =>
    isTrue trivial

theorem Brings.prompt (hi : Brings s c e i) (hc : s.cohorts e.actor = some c) (hp : s.Prompt e)
    {k : Call} (hin : i = .call sbp k) : c.Prompt k := by
  cases hi with
  | deliver h =>
    obtain ⟨-, rfl⟩ := Input.call.inj hin
    exact hp h c hc
  | request =>
    obtain ⟨-, rfl⟩ := Input.call.inj hin
    exact hp c hc
  | _ => cases hin

/-- A view starts with its formation, which leads there, and its primary has entered the view. -/
def Known (s : Group) (vs : Viewstamp) (arg : ExecuteArg) : Prop :=
  vs.ts = 0 → ∃ f c, arg.request = .form f ∧ f.LeadsTo vs ∧
    s.cohorts f.view.primary = some c ∧ vs ≤ c.executed

theorem Known.leadsTo (h : s.Known vs arg) : arg.LeadsTo vs := by
  intro hts f hf
  obtain ⟨g, c, hg, hleads, -⟩ := h hts
  obtain rfl := Payload.form.inj (hf.symm.trans hg)
  exact hleads

theorem Known.entered (h : s.Known vs arg) (hts : vs.ts = 0) (hf : arg.request = .form f) :
    ∃ c, s.cohorts f.view.primary = some c ∧ vs ≤ c.executed := by
  obtain ⟨g, c, hg, -, hc⟩ := h hts
  obtain rfl := Payload.form.inj (hf.symm.trans hg)
  exact ⟨c, hc⟩

theorem known_of_ts (h : vs.ts ≠ 0) : s.Known vs arg := fun hts => absurd hts h

/-- The replies of a group: what they are for, and who gets them. -/
structure Replying (s : Group) : Prop where
  sound : s.Sound
  wired : s.Wired
  poised : ∀ m c, s.cohorts m = some c → c.Poised
  level : ∀ m c, s.cohorts m = some c → c.Level
  logged : ∀ m c vs arg, s.cohorts m = some c → c.entry vs = some arg → s.Known vs arg
  replicate : ∀ p ∈ s.calls, ∀ ra, p.call = .replicate ra →
    s.Known ra.vs ra.arg ∧ ∃ c, s.cohorts p.sbp.caller = some c ∧ ra.vs ≤ c.latest
  fetchlog : ∀ sbp arg, (sbp, .fetchlog arg) ∈ s.answers →
    ∃ p ∈ s.calls, ∃ vs, p.sbp = sbp ∧ p.call = .fetchlog vs ∧ s.Known vs arg
  pulls : ∀ m c q sbp vs, s.cohorts m = some c → (c.pulls q).donecb = some (.replicate sbp vs) →
    s.Replicates m sbp vs
  answers : ∀ sbp vs, (sbp, .replicate vs) ∈ s.answers → ∃ m, s.Replicates m sbp vs

/-- What is logged is known, unless it is the formation of a view of the cohort. -/
theorem Replying.known_of_enters (h : s.Replying) (hc : s.cohorts e.actor = some c)
    (hi : Brings s c e i) (hin : ∀ sbp f, i ≠ .call sbp (.initView f))
    (henters : Enters i c c₁ vs arg) : s.Known vs arg := by
  cases henters with
  | issue hcall hissues hvs hlatest =>
    have hts : vs.ts ≠ 0 := by
      rw [(ts_succ hvs).2]
      exact Nat.succ_ne_zero _
    exact known_of_ts hts
  | form hcall hprimary hlatest => exact absurd hcall (hin _ _)
  | replicate hcall =>
    obtain ⟨p, hp, -, hcall, -⟩ := hi.packet hcall nofun
    exact (h.replicate p hp _ hcall).1
  | fetch hcall hcb =>
    obtain ⟨hmem, -⟩ := hi.answered hcall
    obtain ⟨p, hp, vs', hsbp, hcall, hknown⟩ := h.fetchlog _ _ hmem
    have hfits := h.wired.fits hc hcb hp hsbp
    rw [hcall] at hfits
    cases hfits with
    | fetchlog q _ _ => exact hknown

/-- What a cohort has in its log is known, before it handles anything else. -/
theorem Replying.known_begins (h : s.Replying) (ht : Takes s e i c c₁ c')
    (hin : ∀ sbp f, i ≠ .call sbp (.initView f)) (hentry : c₁.entry vs = some arg) :
    s.Known vs arg := by
  obtain hentry | ⟨-, henters⟩ := ht.begins.entry_cases hentry
  · exact h.logged _ c vs arg ht.cohort hentry
  · exact h.known_of_enters ht.cohort ht.brings hin henters

/-- The views of a cohort have been entered. -/
theorem Replying.ownEntered (h : s.Replying) (ht : Takes s e i c c₁ c')
    (hin : ∀ sbp f, i ≠ .call sbp (.initView f)) : c₁.OwnEntered := by
  intro vs arg f hentry hts hf hprimary
  obtain ⟨d, hd, hle⟩ := (h.known_begins ht hin hentry).entered hts hf
  rw [hprimary, self_begins ht.begins, h.sound.self _ c ht.cohort, ht.cohort] at hd
  rw [ht.begins.executed.1]
  exact Option.some.inj hd ▸ hle

/-- **A primary that learns of a later view** goes to one of another primary. -/
theorem Replying.leaves (h : s.Replying) (hp : s.Prompt e) (ht : Takes s e i c c₁ c')
    (hover : c.Overtaken i ra) : c'.Level := by
  obtain ⟨⟨sbp, rfl⟩, hvalid, hprimary, hts, hlt⟩ := hover
  have hc := ht.cohort
  have hin : ∀ sbp' f, Input.call sbp (.replicate ra) ≠ .call sbp' (.initView f) :=
    fun _ _ heq => by cases heq
  have hleads : ∀ {c₁}, ∀ vs arg, Enters (.call sbp (.replicate ra)) c c₁ vs arg →
      arg.LeadsTo vs := fun vs arg henters => (h.known_of_enters hc ht.brings hin henters).leadsTo
  obtain ⟨p, hmem, rfl, hcall, rfl⟩ := ht.brings.packet rfl nofun
  have hact := ht.act
  change (if p ∈ s.calls then c.dispatch p.sbp p.call else none) = some c' at hact
  rw [if_pos hmem, hcall] at hact
  obtain rfl | rfl | ⟨src, c₂, hcheck, hc₂, hact⟩ := serveReplicate_cases hact
  · exact h.level _ c' hc
  · exact h.level _ c hc
  · obtain ⟨vs, ⟨hnew, hform, -⟩, hvs⟩ := le_adopted (h.poised _ c hc).placed.onward
      (h.replicate p hmem ra hcall).1.leadsTo (ht.brings.prompt hc hp rfl hvalid hprimary hts hlt)
      (fun vs hvs => hvs.2.2) hc₂
    obtain ⟨c₀, hc₀, hmoves⟩ := adopted_moves (j := .viewIsDown) p.sbp hcheck hc₂
    have hplaced₂ := (((h.poised _ c hc).placed.begins hleads hc₀).moves hmoves).1
    have hle := hvs.trans (hplaced₂.moves
      (moves_pullLog (i := .call p.sbp (.replicate ra)) (.replicate rfl src) hact)).2.executed
    have hplaced₁ := (h.poised _ c hc).placed.begins hleads ht.begins
    obtain ⟨-, -, hvid⟩ | hleaves := ((h.ownEntered ht hin).moves hplaced₁ ht.moves).2
    · -- the cohort has executed the formation of a later view
      have hzero : vs = ⟨vs.vid, 0⟩ := Viewstamp.eq_iff.mpr ⟨rfl, hform⟩
      have hfurther := vid_lt_of_lt (hzero ▸ hnew)
      rw [ht.begins.executed.1] at hvid
      exact absurd (hvid ▸ Viewstamp.vid_le hle) (not_le.mpr hfurther)
    · exact fun _ hself => absurd hself hleaves

/-- **A cohort that forms no view** stays in order. -/
theorem Replying.proceeds (h : s.Replying) (hp : s.Prompt e) (ht : Takes s e i c c₁ c')
    (hin : ∀ sbp f, i ≠ .call sbp (.initView f)) : Goes c c' := by
  have hc := ht.cohort
  have h₁ := (h.poised _ c hc).begins hin
    (fun vs arg henters => (h.known_of_enters hc ht.brings hin henters).leadsTo)
    (fun sbp k hcall => ht.brings.prompt hc hp hcall) ht.begins
  have hadv := (h₁.placed.moves ht.moves).2
  refine ⟨h₁.moves hin ht.moves, ?_, ?_, ?_⟩
  · obtain hlevel | ⟨ra, hover⟩ := (h.level _ c hc).begins hin ht.begins
    · exact hlevel.moves h₁.placed (h.ownEntered ht hin) ht.moves
    · exact h.leaves hp ht hover
  · exact ht.begins.executed.1 ▸ hadv.executed
  · rw [ht.moves.latest]
    exact ht.begins.latest_le hin

/-! ## A view is formed -/

/-- **A `REP_INIT_VIEW`** has the view entered, or changes nothing. -/
theorem Replying.forms (h : s.Replying) (hp : s.Prompt e)
    (ht : Takes s e (.call sbp (.initView f)) c c₁ c') :
    c' = c.answer sbp .void ∨ Entered f c c' := by
  have hprompt := ht.brings.prompt ht.cohort hp rfl
  obtain ⟨p, hmem, rfl, hcall, rfl⟩ := ht.brings.packet rfl nofun
  have hact := ht.act
  change (if p ∈ s.calls then c.dispatch p.sbp p.call else none) = some c' at hact
  rw [if_pos hmem, hcall] at hact
  change c.serveInitView p.sbp f = some c' at hact
  unfold serveInitView at hact
  by_cases hnew : c.validView = false ∨ c.view.vid < f.view.vid
  · rw [if_pos hnew] at hact
    obtain ⟨c₂, hc₂, hact⟩ := Option.bind_eq_some_iff.mp hact
    obtain rfl := Option.some.inj hact
    obtain ⟨hentered, hvalid⟩ := (h.poised _ c ht.cohort).formView hnew hprompt hc₂
    exact Or.inr ⟨hentered.calls hvalid _ _ _, hentered.primary, hentered.prev,
      hentered.executed_le, hentered.latest_le⟩
  · rw [if_neg hnew] at hact
    exact Or.inl (Option.some.inj hact).symm

/-! ## One step -/

theorem Replying.goes (h : s.Replying) (hp : s.Prompt e) (ht : Takes s e i c c₁ c') :
    Goes c c' := by
  by_cases hin : ∃ sbp f, i = .call sbp (.initView f)
  · obtain ⟨sbp, f, rfl⟩ := hin
    obtain rfl | hentered := h.forms hp ht
    · exact ⟨(h.poised _ c ht.cohort).sends _, h.level _ c ht.cohort, le_rfl, le_rfl⟩
    · exact ⟨hentered.poised, fun _ _ => hentered.level, hentered.executed_le,
        hentered.latest_le⟩
  · exact h.proceeds hp ht fun sbp f heq => hin ⟨sbp, f, heq⟩

/-- The cohorts go forward. -/
theorem Replying.grows (h : s.Replying) (hp : s.Prompt e) (ht : Takes s e i c c₁ c') {d : Cohort}
    (hd : s.cohorts m = some d) : ∃ d', (s.update e.actor c').cohorts m = some d' ∧
      d.executed ≤ d'.executed ∧ d.latest ≤ d'.latest := by
  have hgoes := h.goes hp ht
  by_cases hm : m = e.actor
  · subst hm
    obtain rfl := Option.some.inj (hd.symm.trans ht.cohort)
    exact ⟨_, ht.self, hgoes.executed, hgoes.latest⟩
  · exact ⟨d, (ht.other hm).trans hd, le_rfl, le_rfl⟩

theorem Replying.known_update (h : s.Replying) (hp : s.Prompt e) (ht : Takes s e i c c₁ c')
    (hknown : s.Known vs arg) : (s.update e.actor c').Known vs arg := by
  intro hts
  obtain ⟨f, d, hf, hleads, hd, hle⟩ := hknown hts
  obtain ⟨d', hd', hexec, -⟩ := h.grows hp ht hd
  exact ⟨f, d', hf, hleads, hd', hle.trans hexec⟩

/-- The formation of a view that has been entered is known. -/
theorem Takes.known_form (ht : Takes s e i c c₁ c') (hs : s.Sound) (hentered : Entered f c c') :
    (s.update e.actor c').Known ⟨f.view.vid, 0⟩ f.arg := by
  refine fun _ => ⟨f, _, rfl, ⟨hentered.prev, rfl⟩, (congrArg _ ?_).trans ht.self,
    hentered.executed⟩
  exact hentered.primary.trans (hs.self _ c ht.cohort)

/-- **What is logged is known.** -/
theorem Replying.known_entry (h : s.Replying) (hp : s.Prompt e) (ht : Takes s e i c c₁ c')
    (hentry : c'.entry vs = some arg) : (s.update e.actor c').Known vs arg := by
  have hc := ht.cohort
  by_cases hin : ∃ sbp f, i = .call sbp (.initView f)
  · obtain ⟨sbp, f, rfl⟩ := hin
    obtain rfl | hentered := h.forms hp ht
    · exact h.known_update hp ht (h.logged _ c vs arg hc hentry)
    · rw [ht.moves.entry] at hentry
      obtain hold | ⟨-, henters⟩ := ht.begins.entry_cases hentry
      · exact h.known_update hp ht (h.logged _ c vs arg hc hold)
      · cases henters with
        | form hcall hprimary hlatest =>
          obtain ⟨-, heq⟩ := Input.call.inj hcall
          obtain rfl := Call.initView.inj heq
          exact ht.known_form h.sound hentered
        | issue hcall hissues hvs hlatest => cases hcall
        | replicate hcall => cases hcall
        | fetch hcall hcb => cases hcall
  · rw [ht.moves.entry] at hentry
    exact h.known_update hp ht (h.known_begins ht (fun sbp f heq => hin ⟨sbp, f, heq⟩) hentry)

/-- **A `REP_REPLICATE` is known**, and not past `latest_`. -/
theorem Replying.known_replicate (h : s.Replying) (hp : s.Prompt e) (ht : Takes s e i c c₁ c')
    {n : ℕ} {d : Mid} (hmem : .call n d (.replicate ra) ∈ c'.out) :
    (s.update e.actor c').Known ra.vs ra.arg ∧ ra.vs ≤ c'.latest := by
  obtain hopens | ⟨c₂, -, hsays⟩ := ht.said h.sound hmem
  · cases hopens with
    | issue n d hcall hvs hlatest =>
      have hts : c₁.latest.ts ≠ 0 := by
        rw [hlatest, (ts_succ hvs).2]
        exact Nat.succ_ne_zero _
      subst hlatest
      exact ⟨known_of_ts hts, ht.moves.latest.ge⟩
  · obtain ⟨sbp, f, rfl, rfl⟩ := hsays.form_of_replicate
    obtain rfl | hentered := h.forms hp ht
    · obtain heq | hmem := List.mem_cons.mp hmem
      · cases heq
      · exact absurd hmem (h.sound.silent ht.cohort)
    · exact ⟨ht.known_form h.sound hentered, hentered.latest.ge⟩

/-- **An entry that is fetched is known.** -/
theorem Replying.known_fetchlog (h : s.Replying) (hp : s.Prompt e) (ht : Takes s e i c c₁ c')
    (hmem : .answer sbp (.fetchlog arg) ∈ c'.out) : ∃ p ∈ s.calls, ∃ vs, p.sbp = sbp ∧
      p.call = .fetchlog vs ∧ (s.update e.actor c').Known vs arg := by
  obtain hopens | ⟨c₂, hmoves, hsays⟩ := ht.said h.sound hmem
  · cases hopens
  · obtain ⟨vs, rfl, hentry⟩ := hsays.entry_of_fetchlog
    obtain ⟨p, hp', hsbp, hcall, -⟩ := ht.brings.packet rfl nofun
    refine ⟨p, hp', vs, hsbp, hcall, h.known_entry hp ht ?_⟩
    rw [ht.moves.entry, ← hmoves.entry]
    exact hentry

/-- What waits for a pull of a cohort is a `REP_REPLICATE` to it. -/
theorem Replying.replicates (h : s.Replying) (ht : Takes s e i c c₁ c') {c₂ : Cohort} {q : PullRef}
    (hmoves : Moves i c₁ c₂) (hcb : (c₂.pulls q).donecb = some (.replicate sbp vs)) :
    s.Replicates e.actor sbp vs := by
  induction hmoves with
  | refl =>
    rw [ht.begins.pulls] at hcb
    exact h.pulls _ c q sbp vs ht.cohort hcb
  | tail _ hmove ih =>
    obtain hold | ⟨src, latest, hpulls⟩ := hmove.donecb hcb
    · exact ih hold
    · cases hpulls with
      | replicate hcall =>
        obtain ⟨p, hp', hsbp, hpcall, rfl⟩ := ht.brings.packet hcall nofun
        exact ⟨p, hp', hsbp, rfl, _, hpcall, rfl⟩

/-- **A reply is for a `REP_REPLICATE`.** -/
theorem Replying.replied (h : s.Replying) (ht : Takes s e i c c₁ c')
    (hmem : .answer sbp (.replicate vs) ∈ c'.out) : s.Replicates e.actor sbp vs := by
  obtain hopens | ⟨c₂, hmoves, hsays⟩ := ht.said h.sound hmem
  · cases hopens
  · obtain ⟨q, hcb⟩ := hsays.donecb_of_replicate
    exact h.replicates ht hmoves hcb

theorem Replying.update (h : s.Replying) (hp : s.Prompt e) (ht : Takes s e i c c₁ c') :
    (s.update e.actor c').Replying := by
  have hrep : ∀ {m sbp vs}, s.Replicates m sbp vs → (s.update e.actor c').Replicates m sbp vs :=
    fun ⟨p, hp, hrest⟩ => ⟨p, mem_calls_update.mpr (Or.inl hp), hrest⟩
  refine ⟨h.sound.step ht.step, h.wired.step h.sound ht.step, fun m d hd => ?_, fun m d hd => ?_,
    fun m d vs arg hd hentry => ?_, fun p hmem ra hcall => ?_, fun sbp arg hmem => ?_,
    fun m d q sbp vs hd hcb => ?_, fun sbp vs hmem => ?_⟩
  · obtain ⟨-, rfl⟩ | hd := of_cohorts_update hd
    · exact (h.goes hp ht).poised.sends _
    · exact h.poised m d hd
  · obtain ⟨-, rfl⟩ | hd := of_cohorts_update hd
    · exact (h.goes hp ht).level
    · exact h.level m d hd
  · obtain ⟨-, rfl⟩ | hd := of_cohorts_update hd
    · exact h.known_entry hp ht hentry
    · exact h.known_update hp ht (h.logged m d vs arg hd hentry)
  · obtain hold | ⟨n, d, k, hout, rfl⟩ := mem_calls_update.mp hmem
    · obtain ⟨hknown, d, hd, hle⟩ := h.replicate p hold ra hcall
      obtain ⟨d', hd', -, hlatest⟩ := h.grows hp ht hd
      exact ⟨h.known_update hp ht hknown, d', hd', hle.trans hlatest⟩
    · subst hcall
      obtain ⟨hknown, hle⟩ := h.known_replicate hp ht hout
      exact ⟨hknown, _, ht.self, hle⟩
  · obtain hmem | hmem := mem_answers_update.mp hmem
    · obtain ⟨p, hp', vs, hsbp, hcall, hknown⟩ := h.fetchlog sbp arg hmem
      exact ⟨p, mem_calls_update.mpr (Or.inl hp'), vs, hsbp, hcall, h.known_update hp ht hknown⟩
    · obtain ⟨p, hp', vs, hsbp, hcall, hknown⟩ := h.known_fetchlog hp ht hmem
      exact ⟨p, mem_calls_update.mpr (Or.inl hp'), vs, hsbp, hcall, hknown⟩
  · obtain ⟨rfl, rfl⟩ | hd := of_cohorts_update hd
    · exact hrep (h.replicates ht ht.moves hcb)
    · exact hrep (h.pulls m d q sbp vs hd hcb)
  · obtain hmem | hmem := mem_answers_update.mp hmem
    · obtain ⟨m, hr⟩ := h.answers sbp vs hmem
      exact ⟨m, hrep hr⟩
    · exact ⟨_, hrep (h.replied ht hmem)⟩

theorem poised_boot (mid : Mid) : (Cohort.boot mid).Poised :=
  ⟨placed_boot mid, fun w hlt hle => absurd hle (not_le.mpr hlt), le_rfl, le_rfl, fun _ => rfl,
    (fun hmode => by cases hmode), nofun⟩

theorem Replying.step (h : s.Replying) (hs' : s.step e = some s') (hp : s.Prompt e) :
    s'.Replying := by
  obtain ⟨mid, rfl, hnone, rfl⟩ | ⟨i, c, c₁, c', ht, rfl⟩ := exists_takes h.sound hs'
  · have hknown : ∀ {vs arg}, s.Known vs arg →
        Known { s with cohorts := Function.update s.cohorts mid (some (.boot mid)) } vs arg :=
        fun hknown hts => by
      obtain ⟨f, c, hf, hleads, hc, hle⟩ := hknown hts
      exact ⟨f, c, hf, hleads, cohorts_boot_of_some hnone hc, hle⟩
    refine ⟨h.sound.step hs', h.wired.step h.sound hs', fun m d hd => ?_, fun m d hd => ?_,
      fun m d vs arg hd hentry => ?_, fun p hmem ra hcall => ?_, fun sbp arg hmem => ?_,
      fun m d q sbp vs hd hcb => ?_, h.answers⟩
    · obtain ⟨-, rfl⟩ | hd := cohorts_boot m d hd
      · exact poised_boot mid
      · exact h.poised m d hd
    · obtain ⟨-, rfl⟩ | hd := cohorts_boot m d hd
      · exact nofun
      · exact h.level m d hd
    · obtain ⟨-, rfl⟩ | hd := cohorts_boot m d hd
      · cases hentry
      · exact hknown (h.logged m d vs arg hd hentry)
    · obtain ⟨hk, c, hc, hle⟩ := h.replicate p hmem ra hcall
      exact ⟨hknown hk, c, cohorts_boot_of_some hnone hc, hle⟩
    · obtain ⟨p, hp', vs, hsbp, hcall, hk⟩ := h.fetchlog sbp arg hmem
      exact ⟨p, hp', vs, hsbp, hcall, hknown hk⟩
    · obtain ⟨-, rfl⟩ | hd := cohorts_boot m d hd
      · cases hcb
      · exact h.pulls m d q sbp vs hd hcb
  · exact h.update hp ht

theorem replying_init (mid : Mid) : (init mid).Replying := by
  refine ⟨sound_init mid, wired_init mid, fun m c hc => ?_, fun m c hc => ?_,
    fun m c vs arg hc hentry => ?_, nofun, nofun, fun m c q sbp vs hc hcb => ?_, nofun⟩
  all_goals obtain ⟨rfl, rfl⟩ := cohorts_init hc
  · exact ⟨placed_founder m, fun w hlt hle => absurd hle (not_le.mpr hlt), le_rfl, le_rfl, nofun,
      fun _ => rfl, nofun⟩
  · exact fun _ _ => rfl
  · obtain ⟨rfl, rfl⟩ := entry_founder.mp hentry
    exact fun _ => ⟨_, _, rfl, ⟨founder_lt m, rfl⟩, hc, le_rfl⟩
  · cases hcb

/-! ## Every run -/

/-- A reply that a primary gets does not end the program. -/
def Unfailing (s : Group) : Event → Prop
  | .answer sbp (.replicate vs) => (sbp, .replicate vs) ∈ s.answers →
      ∀ c ∈ s.cohorts sbp.caller, ∀ b, c.calls.lookup sbp.call = some (.replicateCb b) →
        c.view.primary = c.self → c.Unfailing vs ∧
          (c.Short → ∃ s', s.step (.answer sbp (.replicate vs)) = some s')
  | _ => True

theorem Replying.unfailing (h : s.Replying) : s.Unfailing e := by
  unfold Unfailing
  split
  · next sbp vs =>
    intro hmem c hc b hcb hprimary
    have hpoised := h.poised _ c hc
    have hlevel := h.level _ c hc (hpoised.replied _ b hcb) hprimary
    obtain ⟨m, p, hp, rfl, -, ra, hcall, rfl⟩ := h.answers sbp vs hmem
    obtain ⟨-, d, hd, hle⟩ := h.replicate p hp ra hcall
    obtain rfl := Option.some.inj (hd.symm.trans hc)
    refine ⟨hpoised.unfailing hlevel hle, fun hshort => ?_⟩
    have hpassable : Passable { d with calls := d.calls.erase p.sbp.call } := by
      refine ⟨hpoised.placed.onward, fun vs arg hentry hts => ?_, hshort.log, hshort.executed,
        hshort.committed, hpoised.waits⟩
      obtain ⟨f, -, hf, -⟩ := h.logged _ d vs arg hc hentry hts
      exact ⟨f, hf⟩
    obtain ⟨c', hc'⟩ := hpassable.replicateCb (b := b) hlevel hle
    have hcompleted : completed p.sbp.call (some (.replicate ra.vs)) d = some c' := by
      rw [completed, hcb]
      exact hc'
    refine ⟨s.update p.sbp.caller c', ?_⟩
    have hactor : s.cohorts (Event.answer p.sbp (.replicate ra.vs)).actor = some d := hc
    unfold Group.step
    rw [hactor]
    simp only [act, hmem, if_true, hcompleted]
    rfl
  · trivial

/-- **Replies do not end the program of a primary** in a run in which every view that is formed is
entered at once, and every other one that a primary learns of, and every request gets a viewstamp
of its own. -/
theorem unfailing_of_prompt (mid : Mid) (es : List Event)
    (h : Run.Tried step Prompt (init mid) es) : Run.Tried step Unfailing (init mid) es :=
  Run.Tried.of_inv (I := Replying) (fun _ _ _ hs' hs hp => hs.step hs' hp)
    (fun _ _ hs _ => hs.unfailing) es _ (replying_init mid) h

/-- Cohort `2` joins, and `1` commits a request when `2` acknowledges it. -/
def joined : List Cue :=
  [.event (.boot 2), .event (.join 2 1), .call 2 0, .call 1 0, .call 1 1, .answer 1 0, .answer 1 1,
    .call 1 2, .answer 1 2, .call 1 3, .call 2 1, .answer 2 1, .answer 1 3, .call 1 4, .call 1 5,
    .answer 1 5, .event (.request 1 0 ⟨7, 1, ⟨2, 1⟩, .operation []⟩), .call 1 6, .answer 1 6]

theorem unfailing_of_prompt_joined :
    Run.Tried step Unfailing (init 1) ((init 1).events joined) :=
  unfailing_of_prompt 1 _ (by decide +kernel)

/-- Cohort `1` has sent the formation of the view of all three, and `2` forms two later views, of
the second of which `1` gets the formation. -/
def deposed : List Cue := trio ++
  [.event (.boot 4), .event (.join 4 2), .call 4 0, .call 2 2, .call 2 3, .call 2 4, .answer 2 3,
    .answer 2 2, .answer 2 4, .event (.fail 2 5), .call 2 7, .call 2 8, .answer 2 7, .answer 2 8,
    .call 2 10, .call 2 12, .event (.join 4 2), .call 4 1, .call 2 13, .call 2 14, .call 2 15,
    .event (.fail 2 16), .answer 2 14, .answer 2 13, .answer 2 15, .call 2 18, .call 2 19,
    .answer 2 18, .answer 2 19, .call 2 21, .call 2 22]

/-- `1` still takes itself for the primary, and when `2` acknowledges what `1` has sent, the
assertion of `replicate_cb` fails. -/
theorem reply_fails : ∃ (es : List Event) (s : Group) (c : Cohort),
    es.foldlM step (init 1) = some s ∧ s.cohorts 1 = some c ∧
    (⟨1, 13⟩, .replicate ⟨⟨3, 1⟩, 0⟩) ∈ s.answers ∧
    c.calls.lookup 13 = some (.replicateCb 2) ∧ c.view.primary = c.self ∧
    c.latest.vid ≠ c.committed.vid ∧ s.step (.answer ⟨1, 13⟩ (.replicate ⟨⟨3, 1⟩, 0⟩)) = none := by
  have h : ((init 1).play deposed).any (fun s => decide ((s.cohorts 1).any (fun c => decide (
      (⟨1, 13⟩, Answer.replicate ⟨⟨3, 1⟩, 0⟩) ∈ s.answers ∧
      c.calls.lookup 13 = some (.replicateCb 2) ∧ c.view.primary = c.self ∧
      c.latest.vid ≠ c.committed.vid ∧
      (s.step (.answer ⟨1, 13⟩ (.replicate ⟨⟨3, 1⟩, 0⟩))).isNone = true)) = true)) = true := by
    decide +kernel
  obtain ⟨es, s, hes, h⟩ := exists_run_of_any h
  obtain ⟨c, hc, h⟩ := (Option.any_eq_true _ _).mp h
  obtain ⟨hmem, hcb, hprimary, hvid, hnone⟩ := of_decide_eq_true h
  exact ⟨es, s, c, hes, hc, hmem, hcb, hprimary, hvid, Option.isNone_iff_eq_none.mp hnone⟩

end Group

end Falcon
