import Falcon.Replication.Network

/-!
# Replication/Matching — one content for one viewstamp

An entry comes into a log by `REP_EXECUTE` and `form_view` at the primary of its view, and from
there by `REP_REPLICATE` and `REP_FETCHLOG`.  The primary gives a viewstamp once, as long as
`latest_` goes on in its view; but `form_view` sets it back to the start, and `REP_INIT_VIEW` runs
`form_view` again for a view that is formed and not entered.

* `matched_of_unused` — a viewstamp has one content in all logs and messages of a run, at all times,
  if each `REP_INIT_VIEW` that forms a view finds no request of it in the log.
* `logged_twice` — a run in which a primary forms a view twice.
-/

namespace Falcon

namespace Cohort

variable {i : Input} {s s' s₀ s₁ : Cohort} {vs w : Viewstamp} {arg : ExecuteArg} {rle : LogEntry}
  {a : AttemptRef}

/-! ## What is new in a log -/

theorem entry_add_of_some (hlog : s'.log = s.log.add vs rle) (h : s.entry w = some arg) :
    s'.entry w = some arg := by
  have hmem : w ∈ s.log := by
    obtain ⟨rle', hrle', -⟩ := entry_eq_some.mp h
    exact Keyed.mem_of_lookup hrle'
  rw [entry, hlog]
  by_cases hw : w = vs
  · subst hw
    rw [Keyed.lookup_add_of_mem hmem]
    exact h
  · rw [Keyed.lookup_add_ne hw]
    exact h

theorem entry_add_self (hlog : s'.log = s.log.add vs rle) (h : s.entry vs = none) :
    s'.entry vs = some rle.arg := by
  rw [entry, hlog, Keyed.lookup_add_self (entry_eq_none.mp h), Option.map_some]

theorem entry_add_cases (hlog : s'.log = s.log.add vs rle) (h : s'.entry w = some arg) :
    s.entry w = some arg ∨ s.entry w = none ∧ w = vs ∧ arg = rle.arg := by
  cases hold : s.entry w with
  | some arg' => exact Or.inl ((entry_add_of_some hlog hold).symm.trans h)
  | none =>
    by_cases hw : w = vs
    · subst hw
      exact Or.inr ⟨rfl, rfl, Option.some.inj (h.symm.trans (entry_add_self hlog hold))⟩
    · rw [entry, hlog, Keyed.lookup_add_ne hw] at h
      cases hold.symm.trans h

/-- The entry that has been lost keeps its request. -/
theorem Unanswered.entry (h : s.Unanswered arg s₀) : s₀.entry = s.entry := by
  cases h with
  | none h => rfl
  | other h hrid => rfl
  | lost h hrid hrle hstate hvid => exact entry_insert rfl rfl hrle rfl

/-- A request passes the tests of `REP_EXECUTE`. -/
structure Issues (arg : ExecuteArg) (s : Cohort) : Prop where
  mode : s.mode = .active
  vid : arg.vid = s.view.vid
  primary : s.view.primary = s.self
  unanswered : ∃ s', s.Unanswered arg s'

instance : Decidable (s.Issues arg) :=
  decidable_of_iff (s.mode = .active ∧ arg.vid = s.view.vid ∧ s.view.primary = s.self ∧
      ∀ rce ∈ s.replycache.lookup arg.client, rce.rid = arg.rid →
        ∃ rle ∈ s.log.lookup rce.rle, rle.state = .logged ∧ rce.rle.vid < s.view.vid) <| by
    refine ⟨fun ⟨hmode, hvid, hprimary, h⟩ => ⟨hmode, hvid, hprimary, ?_⟩,
      fun ⟨hmode, hvid, hprimary, h⟩ => ⟨hmode, hvid, hprimary, fun rce hrce hrid => ?_⟩⟩
    · cases hrce : s.replycache.lookup arg.client with
      | none => exact ⟨s, .none hrce⟩
      | some rce =>
        by_cases hrid : rce.rid = arg.rid
        · obtain ⟨rle, hrle, hstate, hlt⟩ := h rce hrce hrid
          exact ⟨_, .lost hrce hrid hrle hstate hlt⟩
        · exact ⟨s, .other hrce hrid⟩
    · obtain ⟨s', hs'⟩ := h
      cases hs' with
      | none h => cases h.symm.trans hrce
      | other h hne => exact absurd (Option.some.inj (hrce.symm.trans h) ▸ hrid) hne
      | lost h _ hrle hstate hlt =>
        obtain rfl := Option.some.inj (hrce.symm.trans h)
        exact ⟨_, hrle, hstate, hlt⟩

/-- What an input brings into the log. -/
inductive Enters (i : Input) (s s₁ : Cohort) : Viewstamp → ExecuteArg → Prop
  | issue {sbp : Sbp} {arg : ExecuteArg} {vs : Viewstamp} (hi : i = .call sbp (.execute arg))
      (hissues : s.Issues arg) (hvs : s.latest.succ = some vs) (hlatest : s₁.latest = vs) :
      Enters i s s₁ vs arg
  | form {sbp : Sbp} {f : ViewForm} (hi : i = .call sbp (.initView f))
      (hprimary : f.view.primary = s.self) (hlatest : s₁.latest = ⟨f.view.vid, 0⟩) :
      Enters i s s₁ ⟨f.view.vid, 0⟩ f.arg
  | replicate {sbp : Sbp} {ra : ReplicateArg} (hi : i = .call sbp (.replicate ra)) :
      Enters i s s₁ ra.vs ra.arg
  | fetch {n : ℕ} {p : PullRef} {vs : Viewstamp} {arg : ExecuteArg}
      (hi : i = .callback n (.fetchlogCb p vs) (some (.fetchlog arg)))
      (hcb : s.calls.lookup n = some (.fetchlogCb p vs)) : Enters i s s₁ vs arg

/-- What is logged stays as it is. -/
theorem Begins.entry_of_some (h : Begins i s s₁) (hvs : s.entry vs = some arg) :
    s₁.entry vs = some arg := by
  cases h with
  | initiates hstart hs' =>
    obtain ⟨-, -, o, S, -, rfl⟩ := hs'
    exact hvs
  | issues hin hmode hvid hprimary hcache hnext hsends =>
    refine entry_add_of_some rfl ?_
    rwa [hcache.entry]
  | forms hin hnew hprimary hJ => exact entry_add_of_some rfl hvs
  | logs hin hcheck hlt hnew hJ => exact entry_add_of_some rfl hvs
  | fetches hin hcb hnew hJ => exact entry_add_of_some rfl hvs
  | _ => exact hvs

theorem Begins.entry_cases (h : Begins i s s₁) (hvs : s₁.entry vs = some arg) :
    s.entry vs = some arg ∨ s.entry vs = none ∧ Enters i s s₁ vs arg := by
  cases h with
  | initiates hstart hs' =>
    obtain ⟨-, -, o, S, -, rfl⟩ := hs'
    exact Or.inl hvs
  | issues hin hmode hvid hprimary hcache hnext hsends =>
    rw [← hcache.entry]
    obtain hvs | ⟨hnone, rfl, rfl⟩ := entry_add_cases rfl hvs
    · exact Or.inl hvs
    · exact Or.inr ⟨hnone, .issue hin ⟨hmode, hvid, hprimary, _, hcache⟩ hnext rfl⟩
  | forms hin hnew hprimary hJ =>
    obtain hvs | ⟨hnone, rfl, rfl⟩ := entry_add_cases rfl hvs
    · exact Or.inl hvs
    · exact Or.inr ⟨hnone, .form hin hprimary rfl⟩
  | logs hin hcheck hlt hnew hJ =>
    obtain hvs | ⟨hnone, rfl, rfl⟩ := entry_add_cases rfl hvs
    · exact Or.inl hvs
    · exact Or.inr ⟨hnone, .replicate hin⟩
  | fetches hin hcb hnew hJ =>
    obtain hvs | ⟨hnone, rfl, rfl⟩ := entry_add_cases rfl hvs
    · exact Or.inl hvs
    · exact Or.inr ⟨hnone, .fetch hin hcb⟩
  | _ => exact Or.inl hvs

/-- A jump that is new leads to the formation of a view that has come in. -/
theorem Begins.jumps_cases (h : Begins i s s₁) {u : Viewstamp}
    (hw : s₁.jumps.lookup u = some w) : s.jumps.lookup u = some w ∨ w.ts = 0 ∧
      ∃ arg f, Enters i s s₁ w arg ∧ arg.request = .form f ∧ f.prev = u := by
  cases h with
  | initiates hstart hs' =>
    obtain ⟨-, -, o, S, -, rfl⟩ := hs'
    exact Or.inl hw
  | issues hin hmode hvid hprimary hcache hnext hsends =>
    obtain ⟨L, rfl⟩ := hcache.eq
    exact Or.inl hw
  | forms hin hnew hprimary hJ =>
    obtain hw | ⟨hts, rfl, f, hf, hu⟩ := insert_jumps hJ hw
    · exact Or.inl hw
    · exact Or.inr ⟨hts, _, f, .form hin hprimary rfl, hf, hu⟩
  | logs hin hcheck hlt hnew hJ =>
    obtain hw | ⟨hts, rfl, f, hf, hu⟩ := insert_jumps hJ hw
    · exact Or.inl hw
    · exact Or.inr ⟨hts, _, f, .replicate hin, hf, hu⟩
  | fetches hin hcb hnew hJ =>
    obtain hw | ⟨hts, rfl, f, hf, hu⟩ := insert_jumps hJ hw
    · exact Or.inl hw
    · exact Or.inr ⟨hts, _, f, .fetch hin hcb, hf, hu⟩
  | _ => exact Or.inl hw

/-! ## What a cohort knows -/

/-- What a message says of what is logged (`L`) and of what has been proposed (`N`). -/
def Told (i : Input) (L : Viewstamp → ExecuteArg → Prop) (N : NewViewArg → Prop) : Output → Prop
  | .call _ _ (.replicate ra) => L ra.vs ra.arg
  | .call _ _ (.newView nv) => 2 ≤ nv.view.vid.counter
  | .call _ _ (.initView f) => 2 ≤ f.view.vid.counter ∧ N ⟨f.prev, f.view⟩
  | .answer sbp (.fetchlog arg) => ∃ vs, i = .call sbp (.fetchlog vs) ∧ L vs arg
  | _ => True

theorem Told.mono {L : Viewstamp → ExecuteArg → Prop} {N N' : NewViewArg → Prop} {x : Output}
    (h : Told i L N x) (hN : ∀ nv, N nv → N' nv) : Told i L N' x := by
  cases x with
  | answer sbp ans =>
    cases ans with
    | fetchlog arg => exact h
    | _ => trivial
  | call n d k =>
    cases k with
    | initView f => exact ⟨h.1, hN _ h.2⟩
    | _ => exact h

/-- A view that has been proposed, by the group before or by this cohort now. -/
def Sent (N : NewViewArg → Prop) (s : Cohort) (nv : NewViewArg) : Prop :=
  N nv ∨ ∃ n d, .call n d (.newView nv) ∈ s.out

/-- What a cohort knows of its group. -/
structure Knows (i : Input) (L : Viewstamp → ExecuteArg → Prop) (N : NewViewArg → Prop)
    (s : Cohort) : Prop where
  entry : ∀ vs arg, s.entry vs = some arg → L vs arg
  view : s.validView = true → ∃ f, L ⟨s.view.vid, 0⟩ (ViewForm.arg f) ∧ f.view = s.view
  active : s.mode = .active → s.validView = true
  attempt : ∀ a, (s.attempts a).aborted = false → 2 ≤ (s.attempts a).proposedVid.counter
  nvarg : ∀ a nv, (s.attempts a).nvarg = some nv → 2 ≤ nv.view.vid.counter ∧ s.Sent N nv
  out : ∀ x ∈ s.out, Told i L (s.Sent N) x

/-- More is logged and proposed. -/
theorem Knows.weaken {j : Input} {L L' : Viewstamp → ExecuteArg → Prop} {N N' : NewViewArg → Prop}
    (h : s.Knows j L N) (hquiet : s.out = []) (hL : ∀ vs arg, L vs arg → L' vs arg)
    (hN : ∀ nv, N nv → N' nv) : s.Knows i L' N' where
  entry vs arg hvs := hL vs arg (h.entry vs arg hvs)
  view hvalid := by
    obtain ⟨f, hf, hview⟩ := h.view hvalid
    exact ⟨f, hL _ _ hf, hview⟩
  active := h.active
  attempt := h.attempt
  nvarg a nv hnv := (h.nvarg a nv hnv).imp_right fun hsent => hsent.imp_left (hN nv)
  out x hx := by
    rw [hquiet] at hx
    cases hx

/-- What is logged under the first viewstamp of a view is its formation. -/
def Forms (L : Viewstamp → ExecuteArg → Prop) : Prop :=
  ∀ v arg, L ⟨v, 0⟩ arg → ∃ f, arg = ViewForm.arg f ∧ f.view.vid = v ∧ 1 ≤ v.counter

/-- What is logged under the first viewstamp of a view to be formed is that formation. -/
def Agrees (i : Input) (L : Viewstamp → ExecuteArg → Prop) : Prop :=
  ∀ sbp f arg, i = .call sbp (.initView f) → L ⟨f.view.vid, 0⟩ arg → arg = f.arg

section Knows

variable {L : Viewstamp → ExecuteArg → Prop} {N : NewViewArg → Prop}

theorem sent_mono (hmono : s.out ⊆ s'.out) (nv : NewViewArg) (h : s.Sent N nv) : s'.Sent N nv :=
  h.imp_right fun ⟨n, d, hmem⟩ => ⟨n, d, hmono hmem⟩

/-- Nothing new is proposed. -/
theorem Knows.frame (h : s.Knows i L N) (hL : ∀ vs arg, s'.entry vs = some arg → L vs arg)
    (hview : s'.validView = true → ∃ f, L ⟨s'.view.vid, 0⟩ (ViewForm.arg f) ∧ f.view = s'.view)
    (hactive : s'.mode = .active → s'.validView = true)
    (hatt : ∀ a, Silent (s.attempts a) (s'.attempts a)) (hmono : s.out ⊆ s'.out)
    (hout : ∀ x ∈ s'.out, x ∈ s.out ∨ Told i L (s.Sent N) x) : s'.Knows i L N where
  entry := hL
  view := hview
  active := hactive
  attempt a hopen := by
    rw [(hatt a).proposedVid]
    refine h.attempt a (Bool.eq_false_iff.mpr fun habort => ?_)
    exact absurd ((hatt a).aborted habort) (Bool.eq_false_iff.mp hopen)
  nvarg a nv hnv := by
    obtain ⟨hcounter, hsent⟩ := h.nvarg a nv ((hatt a).nvarg.symm.trans hnv)
    exact ⟨hcounter, sent_mono hmono nv hsent⟩
  out x hx := ((hout x hx).elim (h.out x) id).mono (sent_mono hmono)

/-- What a move says is true. -/
theorem Knows.told {x : Output} (h : s.Knows i L N) (hform : Agrees i L) (hx : Says i s x)
    (hnew : ∀ n d nv, x ≠ .call n d (.newView nv)) : Told i L (s.Sent N) x := by
  cases hx with
  | answer hans =>
    cases hans with
    | entry hin hrle => exact ⟨_, hin, h.entry _ _ (entry_eq_some.mpr ⟨_, hrle, rfl⟩)⟩
    | _ => trivial
  | form n d hin hlog =>
    obtain ⟨rle, hrle⟩ := Keyed.exists_lookup hlog
    have hL := h.entry _ _ (entry_eq_some.mpr ⟨rle, hrle, rfl⟩)
    exact hform _ _ _ hin hL ▸ hL
  | @pulled p cb hcb hend =>
    cases cb with
    | replicate sbp vs =>
      cases (s.pulls p).ok && (s.pulls p).bottomdone with
      | true => trivial
      | false => trivial
    | newView sbp => trivial
  | newView n d hnv => exact absurd rfl (hnew n d _)
  | initView n d hnv => exact h.nvarg _ _ hnv
  | _ => trivial

theorem Knows.move (h : s.Knows i L N) (hm : s.Managed) (hforms : Forms L) (hagree : Agrees i L)
    (hmove : Move i s s') : s'.Knows i L N := by
  have hL : ∀ vs arg, s'.entry vs = some arg → L vs arg := by
    rw [hmove.entry]
    exact h.entry
  have hview : (s'.validView = true → ∃ f, L ⟨s'.view.vid, 0⟩ (ViewForm.arg f) ∧ f.view = s'.view) ∧
      (s'.mode = .active → s'.validView = true) := by
    obtain ⟨hv, hvalid, hmode⟩ | ⟨vs, arg, f, hvs, hts, hf, hv, hvalid⟩ := hmove.view
    · rw [hv, hvalid, hmode]
      exact ⟨h.view, h.active⟩
    · have hzero : vs = ⟨vs.vid, 0⟩ := Viewstamp.eq_iff.mpr ⟨rfl, hts⟩
      obtain ⟨f', rfl, hvid, -⟩ := hforms vs.vid arg (hzero ▸ h.entry vs arg hvs)
      obtain rfl : f' = f := Payload.form.inj hf
      refine ⟨fun _ => ⟨f', ?_, hv.symm⟩, fun _ => hvalid⟩
      rw [hv, hvid, ← hzero]
      exact h.entry vs _ hvs
  obtain ⟨hatt, hout⟩ | ⟨a, nv, hnone, hs', hout⟩ := hmove.proposes
  · refine h.frame hL hview.1 hview.2 hatt hmove.emits.mono fun x hx => ?_
    obtain hx' | hsaid := hmove.said hx
    · exact Or.inl hx'
    · by_cases hnew : ∃ n d nv, x = .call n d (.newView nv)
      · obtain ⟨n, d, nv, rfl⟩ := hnew
        exact Or.inl ((hout n d nv hx).resolve_right nofun)
      · exact Or.inr (h.told hagree hsaid fun n d nv heq => hnew ⟨n, d, nv, heq⟩)
  · have hcounter : 2 ≤ nv.view.vid.counter := hs'.vid ▸ h.attempt a hs'.aborted
    obtain ⟨u, hu⟩ := List.exists_mem_of_ne_nil _ ((hm.sane a).nonempty hs'.aborted)
    obtain ⟨n, hsent⟩ := hs'.sent u hu
    have hmono := hmove.emits.mono
    refine ⟨hL, hview.1, hview.2, fun b hopen => ?_, fun b nv' hnv' => ?_, fun x hx => ?_⟩
    · rw [hs'.attempts] at hopen ⊢
      by_cases hb : b = a
      · subst hb
        rw [Function.update_self]
        exact h.attempt b hs'.aborted
      · rw [Function.update_of_ne hb] at hopen ⊢
        exact h.attempt b hopen
    · rw [hs'.attempts] at hnv'
      by_cases hb : b = a
      · subst hb
        rw [Function.update_self] at hnv'
        obtain rfl := Option.some.inj hnv'
        exact ⟨hcounter, Or.inr ⟨n, u, hsent⟩⟩
      · rw [Function.update_of_ne hb] at hnv'
        obtain ⟨hcounter', hsent'⟩ := h.nvarg b nv' hnv'
        exact ⟨hcounter', sent_mono hmono _ hsent'⟩
    · obtain hx' | hsaid := hmove.said hx
      · exact (h.out x hx').mono (sent_mono hmono)
      · by_cases hnew : ∃ n d nv, x = .call n d (.newView nv)
        · obtain ⟨n', d, nv', rfl⟩ := hnew
          obtain hx' | heq := hout n' d nv' hx
          · exact h.out _ hx'
          · obtain rfl := Option.some.inj heq
            exact hcounter
        · exact (h.told hagree hsaid fun n d nv heq => hnew ⟨n, d, nv, heq⟩).mono (sent_mono hmono)

theorem Knows.moves (h : s.Knows i L N) (hm : s.Managed) (hi : Settled i s) (hforms : Forms L)
    (hagree : Agrees i L) (hmoves : Moves i s s') : s'.Knows i L N := by
  induction hmoves with
  | refl => exact h
  | tail hmoves hmove ih =>
    exact ih.move (Group.managed_moves hm hi hmoves).1 hforms hagree hmove

theorem Knows.initiate {joiners : List Mid} (h : s.Knows i L N) (hforms : Forms L)
    (hs' : s.Initiates joiners s') : s'.Knows i L N := by
  obtain ⟨-, hmember, o, S, hsends, rfl⟩ := hs'
  have hvalid : s.validView = true := by
    unfold isViewMember at hmember
    exact (Bool.and_eq_true_iff.mp hmember).1
  have hmono : s.out ⊆ o := fun x hx => (hsends.out x).mpr (Or.inl hx)
  refine ⟨h.entry, h.view, nofun, fun a hopen => ?_, fun a nv hnv => ?_, fun x hx => ?_⟩
  · dsimp only at hopen ⊢
    by_cases ha : a = s.nextAttempt
    · subst ha
      obtain ⟨f, hf, hfv⟩ := h.view hvalid
      obtain ⟨f', -, -, hcounter⟩ := hforms _ _ hf
      have hle : s.view.vid.counter ≤ (max s.view.vid s.proposedVid).counter := by
        obtain hlt | heq := ViewId.le_iff.mp (le_max_left s.view.vid s.proposedVid)
        · rw [ViewId.lt_iff] at hlt
          omega
        · rw [← heq]
      rw [Function.update_self, proposedVid_firstAttempt]
      change 2 ≤ (max s.view.vid s.proposedVid).counter + 1
      omega
    · rw [Function.update_of_ne ha] at hopen ⊢
      exact h.attempt a hopen
  · dsimp only at hnv
    by_cases ha : a = s.nextAttempt
    · subst ha
      rw [Function.update_self, nvarg_firstAttempt] at hnv
      cases hnv
    · rw [Function.update_of_ne ha] at hnv
      obtain ⟨hcounter, hsent⟩ := h.nvarg a nv hnv
      exact ⟨hcounter, sent_mono hmono nv hsent⟩
  · obtain hx | ⟨j, d, -, rfl⟩ := (hsends.out x).mp hx
    · exact (h.out x hx).mono (sent_mono hmono)
    · trivial

/-- What is known once the input has been taken in; `L` has what is new. -/
theorem Knows.begins (h : s.Knows i L N) (hforms : Forms L)
    (hL : ∀ vs arg, s₁.entry vs = some arg → L vs arg)
    (hfresh : ∀ vs, s.mode = .active → s.view.primary = s.self → s.latest.succ = some vs →
      s.entry vs = none)
    (hs₁ : Begins i s s₁) : s₁.Knows i L N := by
  have hsame : ∀ a, Silent (s.attempts a) (s.attempts a) := fun _ => ⟨rfl, rfl, id⟩
  cases hs₁ with
  | @initiates A joiners k _ hstart hs₁ =>
    have h₀ : { s with activeServers := A, timers := k }.Knows i L N :=
      ⟨h.entry, h.view, h.active, h.attempt, h.nvarg, h.out⟩
    exact h₀.initiate hforms hs₁
  | issues hin hmode hvid hprimary hcache hvs hsends =>
    have hnew := hL _ _ (entry_add_self rfl
      (by rw [hcache.entry]; exact hfresh _ hmode hprimary hvs))
    obtain ⟨L', rfl⟩ := hcache.eq
    refine h.frame hL h.view h.active hsame (fun x hx => (hsends.out x).mpr (Or.inl hx))
      fun x hx => ?_
    obtain hx | ⟨j, d, -, rfl⟩ := (hsends.out x).mp hx
    · exact Or.inl hx
    · exact Or.inr hnew
  | promises hin hfree hlatest =>
    refine h.frame hL h.view nofun (fun b => (keeps_yieldTo _ b).silent) (List.subset_cons_self _ _)
      fun x hx => ?_
    obtain rfl | hx := List.mem_cons.mp hx
    · exact Or.inr trivial
    · exact Or.inl hx
  | accepts hin hfree =>
    exact h.frame hL h.view nofun (fun b => (keeps_yieldTo _ b).silent) (List.Subset.refl _)
      fun x hx => Or.inl hx
  | _ => exact h.frame hL h.view h.active hsame (List.Subset.refl _) fun x hx => Or.inl hx

end Knows

end Cohort

namespace Group

open Cohort

variable {s s' : Group} {e : Event} {m : Mid} {c c' c₁ : Cohort} {i : Input} {vs : Viewstamp}
  {arg : ExecuteArg}

/-! ## The logs of a group -/

/-- An entry of a log of the group. -/
def Logged (s : Group) (vs : Viewstamp) (arg : ExecuteArg) : Prop :=
  ∃ m c, s.cohorts m = some c ∧ c.entry vs = some arg

/-- A view that has been proposed. -/
def Proposal (s : Group) (nv : NewViewArg) : Prop := ∃ p ∈ s.calls, p.call = .newView nv

/-- The proposals of a group. -/
def proposals (s : Group) : List NewViewArg := s.calls.filterMap fun p =>
  match p.call with
  | .newView nv => some nv
  | _ => none

theorem proposal_iff {nv : NewViewArg} : s.Proposal nv ↔ nv ∈ s.proposals := by
  refine ⟨fun ⟨p, hp, hcall⟩ => List.mem_filterMap.mpr ⟨p, hp, by rw [hcall]⟩, fun hnv => ?_⟩
  obtain ⟨p, hp, hnv⟩ := List.mem_filterMap.mp hnv
  refine ⟨p, hp, ?_⟩
  split at hnv
  · next hcall => exact hcall.trans (congrArg Call.newView (Option.some.inj hnv))
  · cases hnv

/-- No two `REP_NEW_VIEW` have the same id and different contents. -/
def Unequivocal (s : Group) : Prop :=
  ∀ nv nv', s.Proposal nv → s.Proposal nv' → nv.view.vid = nv'.view.vid → nv = nv'

instance (s : Group) : Decidable s.Unequivocal :=
  decidable_of_iff (∀ nv ∈ s.proposals, ∀ nv' ∈ s.proposals, nv.view.vid = nv'.view.vid → nv = nv')
    ⟨fun h nv nv' hnv hnv' => h nv (proposal_iff.mp hnv) nv' (proposal_iff.mp hnv'),
      fun h nv hnv nv' hnv' => h nv nv' (proposal_iff.mpr hnv) (proposal_iff.mpr hnv')⟩

/-- **What is logged stays as it is.** -/
theorem log_step (hs : s.Sound) (hs' : s.step e = some s') (hc : s.cohorts m = some c) :
    ∃ c', s'.cohorts m = some c' ∧ ∀ vs arg, c.entry vs = some arg → c'.entry vs = some arg := by
  obtain ⟨mid, rfl, hnone, rfl⟩ | ⟨i, d, d₁, d', ht, rfl⟩ := exists_takes hs hs'
  · exact ⟨c, cohorts_boot_of_some hnone hc, fun _ _ => id⟩
  · by_cases hm : m = e.actor
    · subst hm
      obtain rfl : c = d := Option.some.inj (hc.symm.trans ht.cohort)
      exact ⟨_, ht.self, fun vs arg hentry =>
        (congrFun ht.moves.entry vs).trans (ht.begins.entry_of_some hentry)⟩
    · exact ⟨c, (ht.other hm).trans hc, fun _ _ => id⟩

theorem entry_step (hs : s.Sound) (hs' : s.step e = some s') (hc : s.cohorts m = some c)
    (hentry : c.entry vs = some arg) : ∃ c', s'.cohorts m = some c' ∧ c'.entry vs = some arg := by
  obtain ⟨c', hc', hlog⟩ := log_step hs hs' hc
  exact ⟨c', hc', hlog vs arg hentry⟩

theorem Logged.step (h : s.Logged vs arg) (hs : s.Sound) (hs' : s.step e = some s') :
    s'.Logged vs arg := by
  obtain ⟨m, c, hc, hentry⟩ := h
  obtain ⟨c', hc', hentry'⟩ := entry_step hs hs' hc hentry
  exact ⟨m, c', hc', hentry'⟩

theorem Takes.logged (ht : Takes s e i c c₁ c') (hs : s.Sound) (h : s.Logged vs arg) :
    (s.update e.actor c').Logged vs arg := h.step hs ht.step

theorem Takes.entry (ht : Takes s e i c c₁ c') (h : c₁.entry vs = some arg) :
    (s.update e.actor c').Logged vs arg :=
  ⟨_, _, ht.self, (congrFun ht.moves.entry vs).trans h⟩

theorem Takes.logged_cases (ht : Takes s e i c c₁ c')
    (h : (s.update e.actor c').Logged vs arg) : s.Logged vs arg ∨ c₁.entry vs = some arg := by
  obtain ⟨m, d, hd, hvs⟩ := h
  obtain ⟨-, rfl⟩ | hd := of_cohorts_update hd
  · exact Or.inr ((congrFun ht.moves.entry vs).symm.trans hvs)
  · exact Or.inl ⟨m, d, hd, hvs⟩

theorem Proposal.update {nv : NewViewArg} (h : s.Proposal nv) : (s.update m c).Proposal nv := by
  obtain ⟨p, hp, hcall⟩ := h
  exact ⟨p, mem_calls_update.mpr (Or.inl hp), hcall⟩

theorem proposal_of_sent {nv : NewViewArg} (h : c.Sent s.Proposal nv) :
    (s.update m c).Proposal nv := by
  obtain h | ⟨n, d, hmem⟩ := h
  · exact h.update
  · exact ⟨_, mem_calls_update.mpr (Or.inr ⟨n, d, _, hmem, rfl⟩), rfl⟩

/-- The primary of the view of an entry has it. -/
def Held (s : Group) (vs : Viewstamp) (arg : ExecuteArg) : Prop :=
  ∃ f c, s.Logged ⟨vs.vid, 0⟩ (ViewForm.arg f) ∧ s.cohorts f.view.primary = some c ∧
    c.entry vs = some arg ∧ c.latest ≠ .zero

/-- The entries of a group, and the messages that carry them. -/
structure Matching (s : Group) : Prop where
  sound : s.Sound
  wired : s.Wired
  one : ∀ vs arg arg', s.Logged vs arg → s.Logged vs arg' → arg = arg'
  forms : ∀ v arg, s.Logged ⟨v, 0⟩ arg → ∃ f, arg = ViewForm.arg f ∧ f.view.vid = v ∧
    1 ≤ v.counter ∧ (v.counter = 1 ∧ f.prev = .zero ∨ s.Proposal ⟨f.prev, f.view⟩)
  held : ∀ vs arg, s.Logged vs arg → s.Held vs arg
  /-- A cohort is the primary of the view it gives viewstamps in. -/
  primary : ∀ m c, s.cohorts m = some c → c.latest ≠ .zero →
    ∃ f, s.Logged ⟨c.latest.vid, 0⟩ (ViewForm.arg f) ∧ f.view.primary = m
  latest : ∀ m c vs arg, s.cohorts m = some c → c.latest ≠ .zero → c.entry vs = some arg →
    vs.vid = c.latest.vid → vs.ts ≤ c.latest.ts
  knows : ∀ i m c, s.cohorts m = some c → c.Knows i s.Logged s.Proposal
  replicate : ∀ p ∈ s.calls, ∀ ra, p.call = .replicate ra → s.Logged ra.vs ra.arg
  initView : ∀ p ∈ s.calls, ∀ f, p.call = .initView f →
    2 ≤ f.view.vid.counter ∧ s.Proposal ⟨f.prev, f.view⟩
  fetchlog : ∀ sbp arg, (sbp, .fetchlog arg) ∈ s.answers →
    ∃ p ∈ s.calls, ∃ vs, p.sbp = sbp ∧ p.call = .fetchlog vs ∧ s.Logged vs arg

/-- A view has one formation. -/
theorem Matching.form_inj (h : s.Matching) {v : ViewId} {f f' : ViewForm}
    (hf : s.Logged ⟨v, 0⟩ f.arg) (hf' : s.Logged ⟨v, 0⟩ f'.arg) : f = f' :=
  Payload.form.inj (congrArg ExecuteArg.request (h.one _ _ _ hf hf'))

/-- Views are counted from `1`. -/
theorem Matching.counter (h : s.Matching) (hl : s.Logged vs arg) : 1 ≤ vs.vid.counter := by
  obtain ⟨f, -, hf, -⟩ := h.held vs arg hl
  obtain ⟨-, -, -, hcounter, -⟩ := h.forms _ _ hf
  exact hcounter

/-- The formation a `REP_INIT_VIEW` brings is the one that is logged, if one is. -/
theorem Matching.agrees (h : s.Matching) (hone : s.Unequivocal) (hi : Brings s c e i) :
    Agrees i s.Logged := by
  intro sbp f arg hin hlogged
  obtain ⟨p, hp, -, hcall, -⟩ := hi.packet hin nofun
  obtain ⟨hcounter, hprop⟩ := h.initView p hp f hcall
  obtain ⟨f', rfl, hvid, -, ⟨hfirst, -⟩ | hprop'⟩ := h.forms _ _ hlogged
  · omega
  · obtain ⟨hprev, hview⟩ := NewViewArg.mk.inj (hone _ _ hprop' hprop hvid)
    unfold ViewForm.arg
    rw [show f' = f from congrArg₂ ViewForm.mk hprev hview]

/-- A primary has logged the formation of its view itself. -/
theorem Matching.latest_ne_zero (h : s.Matching) (hc : s.cohorts m = some c)
    (hmode : c.mode = .active) (hprimary : c.view.primary = c.self) : c.latest ≠ .zero := by
  have hknows := h.knows .viewIsDown m c hc
  obtain ⟨f, hf, hview⟩ := hknows.view (hknows.active hmode)
  obtain ⟨f', d, hf', hd, -, hne⟩ := h.held _ _ hf
  obtain rfl := h.form_inj hf hf'
  rw [hview, hprimary, h.sound.self m c hc, hc] at hd
  exact Option.some.inj hd ▸ hne

/-- A primary has all entries of the view it gives viewstamps in. -/
theorem Matching.entry_of_logged (h : s.Matching) (hc : s.cohorts m = some c)
    (hne : c.latest ≠ .zero) (hlogged : s.Logged vs arg) (hvid : vs.vid = c.latest.vid) :
    c.entry vs = some arg := by
  obtain ⟨f, hf, hfm⟩ := h.primary m c hc hne
  obtain ⟨f', d, hf', hd, hentry, -⟩ := h.held _ _ hlogged
  rw [hvid] at hf'
  obtain rfl := h.form_inj hf hf'
  rw [hfm, hc] at hd
  exact Option.some.inj hd ▸ hentry

theorem Matching.le_latest (h : s.Matching) (hc : s.cohorts m = some c) (hne : c.latest ≠ .zero)
    (hlogged : s.Logged vs arg) (hvid : vs.vid = c.latest.vid) : vs.ts ≤ c.latest.ts :=
  h.latest m c vs arg hc hne (h.entry_of_logged hc hne hlogged hvid) hvid

/-- The next viewstamp of a primary is new. -/
theorem Matching.fresh (h : s.Matching) (hc : s.cohorts m = some c) (hne : c.latest ≠ .zero)
    (hvs : c.latest.succ = some vs) : ¬s.Logged vs arg := by
  intro hlogged
  obtain ⟨hvid, hts⟩ := ts_succ hvs
  have hle := h.le_latest hc hne hlogged hvid
  omega

/-! ## What a step logs -/

/-- What a cohort logs: something that is logged elsewhere, a request it issues or a view it forms.
-/
inductive News (s : Group) (i : Input) (c c₁ : Cohort) (vs : Viewstamp) (arg : ExecuteArg) : Prop
  | logged (h : s.Logged vs arg)
  | issue {sbp : Sbp} (hi : i = .call sbp (.execute arg)) (hissues : c.Issues arg)
      (hne : c.latest ≠ .zero) (hvs : c.latest.succ = some vs) (hnew : ∀ arg', ¬s.Logged vs arg')
      (hlatest : c₁.latest = vs)
  | form {sbp : Sbp} {f : ViewForm} (hi : i = .call sbp (.initView f))
      (hprimary : f.view.primary = c.self) (hcounter : 2 ≤ f.view.vid.counter)
      (hprop : s.Proposal ⟨f.prev, f.view⟩) (hvs : vs = ⟨f.view.vid, 0⟩) (harg : arg = f.arg)
      (hlatest : c₁.latest = vs)

theorem Matching.news_of_enters (h : s.Matching) (hc : s.cohorts e.actor = some c)
    (hi : Brings s c e i) (henters : Enters i c c₁ vs arg) : News s i c c₁ vs arg := by
  cases henters with
  | issue hin hissues hvs hlatest =>
    have hne := h.latest_ne_zero hc hissues.mode hissues.primary
    exact .issue hin hissues hne hvs (fun arg' => h.fresh hc hne hvs) hlatest
  | form hin hprimary hlatest =>
    obtain ⟨p, hp, -, hcall, -⟩ := hi.packet hin nofun
    obtain ⟨hcounter, hprop⟩ := h.initView p hp _ hcall
    exact .form hin hprimary hcounter hprop rfl rfl hlatest
  | replicate hin =>
    obtain ⟨p, hp, -, hcall, -⟩ := hi.packet hin nofun
    exact .logged (h.replicate p hp _ hcall)
  | fetch hin hcb =>
    obtain ⟨hmem, -⟩ := hi.answered hin
    obtain ⟨p, hp, vs', hsbp, hcall, hlogged⟩ := h.fetchlog _ _ hmem
    have hfits := h.wired.fits hc hcb hp hsbp
    rw [hcall] at hfits
    cases hfits with
    | fetchlog q _ _ => exact .logged hlogged

theorem Matching.news (h : s.Matching) (hc : s.cohorts e.actor = some c) (hi : Brings s c e i)
    (hc₁ : Begins i c c₁) (hentry : c₁.entry vs = some arg) : News s i c c₁ vs arg := by
  obtain hentry | ⟨-, henters⟩ := hc₁.entry_cases hentry
  · exact .logged ⟨_, c, hc, hentry⟩
  · exact h.news_of_enters hc hi henters

theorem Matching.news_of_logged (h : s.Matching) (ht : Takes s e i c c₁ c')
    (hl : (s.update e.actor c').Logged vs arg) : News s i c c₁ vs arg :=
  (ht.logged_cases hl).elim .logged (h.news ht.cohort ht.brings ht.begins)

/-- What a cohort logs agrees with what is logged elsewhere. -/
theorem Matching.news_inj (h : s.Matching) (hone : s.Unequivocal) (hi : Brings s c e i)
    (hnews : News s i c c₁ vs arg) {arg' : ExecuteArg} (hlogged : s.Logged vs arg') :
    arg' = arg := by
  cases hnews with
  | logged hlogged' => exact h.one _ _ _ hlogged hlogged'
  | issue hcall hissues hne hvs hnew hlatest => exact absurd hlogged (hnew arg')
  | form hin hprimary hcounter hprop hvs harg hlatest =>
    subst hvs harg
    exact h.agrees hone hi _ _ _ hin hlogged

theorem Matching.one_update (h : s.Matching) (hone : s.Unequivocal) (ht : Takes s e i c c₁ c')
    {arg' : ExecuteArg} (hl : (s.update e.actor c').Logged vs arg)
    (hl' : (s.update e.actor c').Logged vs arg') : arg = arg' := by
  obtain hold | hnew := ht.logged_cases hl
  · exact h.news_inj hone ht.brings (h.news_of_logged ht hl') hold
  · obtain hold' | hnew' := ht.logged_cases hl'
    · exact (h.news_inj hone ht.brings (h.news ht.cohort ht.brings ht.begins hnew) hold').symm
    · exact Option.some.inj (hnew.symm.trans hnew')

theorem Matching.forms_update (h : s.Matching) (ht : Takes s e i c c₁ c') {v : ViewId}
    (hl : (s.update e.actor c').Logged ⟨v, 0⟩ arg) : ∃ f, arg = ViewForm.arg f ∧ f.view.vid = v ∧
      1 ≤ v.counter ∧ (v.counter = 1 ∧ f.prev = .zero ∨
        (s.update e.actor c').Proposal ⟨f.prev, f.view⟩) := by
  cases h.news_of_logged ht hl with
  | logged hl =>
    obtain ⟨f, rfl, hvid, hcounter, hfirst⟩ := h.forms v arg hl
    exact ⟨f, rfl, hvid, hcounter, hfirst.imp_right Proposal.update⟩
  | issue hcall hissues hne hvs hnew hlatest =>
    exact absurd (ts_succ hvs).2 (Nat.succ_ne_zero _).symm
  | @form sbp f hin hprimary hcounter hprop hvs harg hlatest =>
    obtain rfl : v = f.view.vid := congrArg Viewstamp.vid hvs
    exact ⟨f, harg, rfl, by omega, Or.inr hprop.update⟩

theorem Matching.agrees_update (h : s.Matching) (hone : s.Unequivocal)
    (ht : Takes s e i c c₁ c') : Agrees i (s.update e.actor c').Logged := by
  intro sbp f arg hin hl
  cases h.news_of_logged ht hl with
  | logged hl => exact h.agrees hone ht.brings sbp f arg hin hl
  | issue hcall hissues hne hvs hnew hlatest =>
    exact absurd (ts_succ hvs).2 (Nat.succ_ne_zero _).symm
  | form hin' hprimary hcounter hprop hvs harg hlatest =>
    obtain ⟨-, heq⟩ := Input.call.inj (hin.symm.trans hin')
    obtain rfl := Call.initView.inj heq
    exact harg

theorem Matching.knows_update (h : s.Matching) (hone : s.Unequivocal)
    (ht : Takes s e i c c₁ c') : c'.Knows i (s.update e.actor c').Logged s.Proposal := by
  have hm := h.sound.managed _ c ht.cohort
  obtain ⟨hm₁, hi₁⟩ := managed_begins hm (settled_of_brings hm ht.brings) ht.begins
  have hforms : Forms (s.update e.actor c').Logged := fun v arg hl => by
    obtain ⟨f, harg, hvid, hcounter, -⟩ := h.forms_update ht hl
    exact ⟨f, harg, hvid, hcounter⟩
  have hknows : c.Knows i (s.update e.actor c').Logged s.Proposal :=
    (h.knows i _ c ht.cohort).weaken (h.sound.quiet _ c ht.cohort)
      (fun _ _ => ht.logged h.sound) fun _ => id
  refine (hknows.begins hforms (fun _ _ => ht.entry) (fun vs hmode hprimary hvs => ?_)
    ht.begins).moves hm₁ hi₁ hforms (h.agrees_update hone ht) ht.moves
  by_contra hsome
  obtain ⟨arg, harg⟩ := Option.ne_none_iff_exists'.mp hsome
  exact h.fresh ht.cohort (h.latest_ne_zero ht.cohort hmode hprimary) hvs ⟨_, c, ht.cohort, harg⟩

/-! ## The viewstamps a primary gives -/

/-- No request of the view `v` is in the log. -/
def Unused (v : ViewId) (c : Cohort) : Prop := ∀ vs ∈ c.log, vs.vid = v → vs.ts = 0

instance (v : ViewId) (c : Cohort) : Decidable (Unused v c) :=
  inferInstanceAs (Decidable (∀ vs ∈ c.log.keys, vs.vid = v → vs.ts = 0))

/-- The view a call forms. -/
def forms : Call → Option ViewForm
  | .initView f => some f
  | _ => none

theorem forms_eq {k : Call} {f : ViewForm} : forms k = some f ↔ k = .initView f := by
  cases k <;> simp [forms]

/-- A `REP_INIT_VIEW` that forms a view finds no request of it in the log. -/
def FormsUnused (s : Group) (e : Event) (_ : Group) : Prop :=
  ∀ c p f, s.cohorts e.actor = some c → e = .deliver p → p.call = .initView f →
    c.validView = false ∨ c.view.vid < f.view.vid → Unused f.view.vid c

instance : Decidable (FormsUnused s e s') :=
  decidable_of_iff (∀ p ∈ e.packet, ∀ f ∈ forms p.call, ∀ c ∈ s.cohorts p.dest,
      c.validView = false ∨ c.view.vid < f.view.vid → Unused f.view.vid c)
    ⟨fun h c p f hc he hp => by subst he; exact h p rfl f (forms_eq.mpr hp) c hc,
      fun h p hp f hf c hc => by
        obtain rfl := Event.packet_eq.mp hp
        exact h c p f hc rfl (forms_eq.mp hf)⟩

/-- `latest_` goes on, or a view is formed. -/
theorem Matching.latest_cases (h : s.Matching) (ht : Takes s e i c c₁ c') :
    c₁.latest = c.latest ∨
      (c.latest ≠ .zero ∧ c.latest.succ = some c₁.latest) ∨
      ∃ sbp f, i = .call sbp (.initView f) ∧ (c.validView = false ∨ c.view.vid < f.view.vid) ∧
        f.view.primary = c.self ∧ 2 ≤ f.view.vid.counter ∧ c₁.latest = ⟨f.view.vid, 0⟩ ∧
        ∃ arg, c₁.entry ⟨f.view.vid, 0⟩ = some arg := by
  have hc₁ := ht.begins
  cases hc₁ with
  | initiates hstart hc₁ =>
    obtain ⟨-, -, o, S, -, rfl⟩ := hc₁
    exact Or.inl rfl
  | issues hin hmode hvid hself hcache hvs hsends =>
    exact Or.inr (Or.inl ⟨h.latest_ne_zero ht.cohort hmode hself, hvs⟩)
  | @forms sbp f J hin hnew hself hJ =>
    obtain ⟨p, hp, -, hcall, -⟩ := ht.brings.packet hin nofun
    refine Or.inr (Or.inr ⟨sbp, f, hin, hnew, hself, (h.initView p hp f hcall).1, rfl, ?_⟩)
    cases hold : c.entry ⟨f.view.vid, 0⟩ with
    | none => exact ⟨_, entry_add_self rfl hold⟩
    | some arg => exact ⟨arg, entry_add_of_some rfl hold⟩
  | _ => exact Or.inl rfl

theorem start_ne_zero {v : ViewId} (h : 1 ≤ v.counter) : (⟨v, 0⟩ : Viewstamp) ≠ .zero := by
  intro hzero
  rw [show v = ViewId.zero from congrArg Viewstamp.vid hzero] at h
  exact absurd h (by decide)

theorem Matching.latest_ne_zero_update (h : s.Matching) (ht : Takes s e i c c₁ c')
    (hne : c.latest ≠ .zero) : c₁.latest ≠ .zero := by
  obtain heq | ⟨-, hvs⟩ | ⟨sbp, f, -, -, -, hcounter, heq, -⟩ := h.latest_cases ht
  · rwa [heq]
  · intro hzero
    have hts := (ts_succ hvs).2
    rw [hzero] at hts
    cases hts
  · rw [heq]
    exact start_ne_zero (by omega)

/-- A cohort gives viewstamps in a view of which it is the primary. -/
theorem Matching.primary_update (h : s.Matching) (hone : s.Unequivocal)
    (ht : Takes s e i c c₁ c') (hne : c₁.latest ≠ .zero) :
    ∃ f, (s.update e.actor c').Logged ⟨c₁.latest.vid, 0⟩ (ViewForm.arg f) ∧
      f.view.primary = e.actor := by
  have hold : c.latest ≠ .zero → c₁.latest.vid = c.latest.vid →
      ∃ f, (s.update e.actor c').Logged ⟨c₁.latest.vid, 0⟩ (ViewForm.arg f) ∧
        f.view.primary = e.actor := by
    intro hne hvid
    obtain ⟨f, hf, hfm⟩ := h.primary _ c ht.cohort hne
    exact ⟨f, hvid ▸ ht.logged h.sound hf, hfm⟩
  obtain heq | ⟨hne, hvs⟩ | ⟨sbp, f, hin, -, hself, -, heq, arg, harg⟩ := h.latest_cases ht
  · exact hold (heq ▸ hne) (congrArg Viewstamp.vid heq)
  · exact hold hne (ts_succ hvs).1
  · refine ⟨f, ?_, hself.trans (h.sound.self _ c ht.cohort)⟩
    have hl := ht.entry harg
    rw [heq]
    exact h.agrees_update hone ht sbp f arg hin hl ▸ hl

/-- The viewstamps of a view that a primary has logged are those it has given. -/
theorem Matching.latest_update (h : s.Matching) (hfresh : FormsUnused s e s')
    (ht : Takes s e i c c₁ c') (hne : c₁.latest ≠ .zero) (hentry : c₁.entry vs = some arg)
    (hvid : vs.vid = c₁.latest.vid) : vs.ts ≤ c₁.latest.ts := by
  cases h.news ht.cohort ht.brings ht.begins hentry with
  | issue hcall hissues hne hvs hnew hlatest => rw [hlatest]
  | form hin hprimary hcounter hprop hvs harg hlatest => rw [hlatest]
  | logged hlogged =>
    obtain heq | ⟨hne, hvs⟩ | ⟨sbp, f, hin, hnew, hself, -, heq, -⟩ := h.latest_cases ht
    · rw [heq] at hne hvid ⊢
      exact h.le_latest ht.cohort hne hlogged hvid
    · obtain ⟨hsucc, hts⟩ := ts_succ hvs
      have hle := h.le_latest ht.cohort hne hlogged (hvid.trans hsucc)
      omega
    · obtain ⟨p, -, -, hcall, rfl⟩ := ht.brings.packet hin nofun
      rw [heq] at hvid ⊢
      obtain hentry | ⟨-, henters⟩ := ht.begins.entry_cases hentry
      · obtain ⟨rle, hrle, -⟩ := entry_eq_some.mp hentry
        exact (hfresh c p f ht.cohort rfl hcall hnew vs (Keyed.mem_of_lookup hrle) hvid).le
      · cases henters with
        | form hin' hself' hlatest => exact le_refl _
        | issue hin' => cases hin.symm.trans hin'
        | replicate hin' => cases hin.symm.trans hin'
        | fetch hin' => cases hin.symm.trans hin'

theorem Matching.held_update (h : s.Matching) (ht : Takes s e i c c₁ c')
    (hl : (s.update e.actor c').Logged vs arg) : (s.update e.actor c').Held vs arg := by
  -- the actor is the primary
  have hself : ∀ f, f.view.primary = e.actor →
      (s.update e.actor c').Logged ⟨vs.vid, 0⟩ (ViewForm.arg f) → c₁.entry vs = some arg →
      c₁.latest ≠ .zero → (s.update e.actor c').Held vs arg := by
    intro f hm hf hentry hne
    refine ⟨f, { c' with out := [] }, hf, ?_, (congrFun ht.moves.entry vs).trans hentry, ?_⟩
    · rw [hm]
      exact ht.self
    · exact fun hzero => hne (ht.moves.latest.symm.trans hzero)
  have hold : s.Logged vs arg → (s.update e.actor c').Held vs arg := by
    intro hl
    obtain ⟨f, d, hf, hd, hentry, hne⟩ := h.held vs arg hl
    by_cases hm : f.view.primary = e.actor
    · rw [hm, ht.cohort] at hd
      obtain rfl := Option.some.inj hd
      exact hself f hm (ht.logged h.sound hf) (ht.begins.entry_of_some hentry)
        (h.latest_ne_zero_update ht hne)
    · exact ⟨f, d, ht.logged h.sound hf, (ht.other hm).trans hd, hentry, hne⟩
  obtain hl | hentry := ht.logged_cases hl
  · exact hold hl
  · cases h.news ht.cohort ht.brings ht.begins hentry with
    | logged hl => exact hold hl
    | issue hcall hissues hne hvs hnew hlatest =>
      obtain ⟨f, hf, hm⟩ := h.primary _ c ht.cohort hne
      refine hself f hm ?_ hentry (h.latest_ne_zero_update ht hne)
      rw [(ts_succ hvs).1]
      exact ht.logged h.sound hf
    | @form sbp f hin hprimary hcounter hprop hvs harg hlatest =>
      subst hvs harg
      refine hself f (hprimary.trans (h.sound.self _ c ht.cohort)) hl hentry ?_
      rw [hlatest]
      exact start_ne_zero (by omega)

/-! ## Steps -/

theorem Matching.update (h : s.Matching) (hone : s.Unequivocal)
    (hfresh : FormsUnused s e (s.update e.actor c')) (ht : Takes s e i c c₁ c') :
    (s.update e.actor c').Matching := by
  have hlatest : c'.latest = c₁.latest := ht.moves.latest
  have hknows := h.knows_update hone ht
  constructor
  · exact h.sound.step ht.step
  · exact h.wired.step h.sound ht.step
  · exact fun vs arg arg' => h.one_update hone ht
  · exact fun v arg => h.forms_update ht
  · exact fun vs arg => h.held_update ht
  · intro m d hd hne
    obtain ⟨rfl, rfl⟩ | hd := of_cohorts_update hd
    · dsimp only at hne ⊢
      rw [hlatest] at hne ⊢
      exact h.primary_update hone ht hne
    · obtain ⟨f, hf, hm⟩ := h.primary m d hd hne
      exact ⟨f, ht.logged h.sound hf, hm⟩
  · intro m d vs arg hd hne hentry hvid
    obtain ⟨-, rfl⟩ | hd := of_cohorts_update hd
    · dsimp only at hne hvid ⊢
      rw [hlatest] at hne hvid ⊢
      exact h.latest_update hfresh ht hne ((congrFun ht.moves.entry vs).symm.trans hentry) hvid
    · exact h.latest m d vs arg hd hne hentry hvid
  · intro j m d hd
    obtain ⟨-, rfl⟩ | hd := of_cohorts_update hd
    · exact ⟨hknows.entry, hknows.view, hknows.active, hknows.attempt, fun a nv hnv =>
        (hknows.nvarg a nv hnv).imp_right fun hsent => Or.inl (proposal_of_sent hsent), nofun⟩
    · exact (h.knows i m d hd).weaken (h.sound.quiet m d hd) (fun _ _ => ht.logged h.sound)
        fun _ => Proposal.update
  · intro p hp ra hcall
    obtain hp | ⟨n, d, k, hmem, rfl⟩ := mem_calls_update.mp hp
    · exact ht.logged h.sound (h.replicate p hp ra hcall)
    · obtain rfl : k = .replicate ra := hcall
      exact hknows.out _ hmem
  · intro p hp f hcall
    obtain hp | ⟨n, d, k, hmem, rfl⟩ := mem_calls_update.mp hp
    · exact (h.initView p hp f hcall).imp_right Proposal.update
    · obtain rfl : k = .initView f := hcall
      exact (hknows.out _ hmem).imp_right proposal_of_sent
  · intro sbp arg hmem
    obtain hmem | hmem := mem_answers_update.mp hmem
    · obtain ⟨p, hp, vs, hsbp, hcall, hl⟩ := h.fetchlog sbp arg hmem
      exact ⟨p, mem_calls_update.mpr (Or.inl hp), vs, hsbp, hcall, ht.logged h.sound hl⟩
    · obtain ⟨vs, hin, hl⟩ := hknows.out _ hmem
      obtain ⟨p, hp, hsbp, hcall, -⟩ := ht.brings.packet hin nofun
      exact ⟨p, mem_calls_update.mpr (Or.inl hp), vs, hsbp, hcall, hl⟩

/-- A cohort joins. -/
theorem Matching.boot (h : s.Matching) {mid : Mid} (hs' : s.step (.boot mid) = some s')
    (hcases : ∀ m c, s'.cohorts m = some c → c = .boot mid ∨ s.cohorts m = some c)
    (hold : ∀ m c, s.cohorts m = some c → s'.cohorts m = some c) (hcalls : s'.calls = s.calls)
    (hanswers : s'.answers = s.answers) : s'.Matching := by
  have hlogged : ∀ {vs arg}, s'.Logged vs arg ↔ s.Logged vs arg := by
    intro vs arg
    constructor
    · rintro ⟨m, d, hd, hentry⟩
      obtain rfl | hd := hcases m d hd
      · cases hentry
      · exact ⟨m, d, hd, hentry⟩
    · exact fun hl => hl.step h.sound hs'
  have hprop : s'.Proposal = s.Proposal := by
    unfold Proposal
    rw [hcalls]
  constructor
  · exact h.sound.step hs'
  · exact h.wired.step h.sound hs'
  · exact fun vs arg arg' hl hl' => h.one vs arg arg' (hlogged.mp hl) (hlogged.mp hl')
  · rw [hprop]
    exact fun v arg hl => h.forms v arg (hlogged.mp hl)
  · intro vs arg hl
    obtain ⟨f, d, hf, hd, hentry, hne⟩ := h.held vs arg (hlogged.mp hl)
    exact ⟨f, d, hlogged.mpr hf, hold _ d hd, hentry, hne⟩
  · intro m d hd hne
    obtain rfl | hd := hcases m d hd
    · exact absurd rfl hne
    · obtain ⟨f, hf, hm⟩ := h.primary m d hd hne
      exact ⟨f, hlogged.mpr hf, hm⟩
  · intro m d vs arg hd hne hentry hvid
    obtain rfl | hd := hcases m d hd
    · exact absurd rfl hne
    · exact h.latest m d vs arg hd hne hentry hvid
  · intro j m d hd
    rw [hprop]
    obtain rfl | hd := hcases m d hd
    · exact ⟨nofun, nofun, nofun, nofun, nofun, nofun⟩
    · exact (h.knows j m d hd).weaken (h.sound.quiet m d hd) (fun _ _ => hlogged.mpr) fun _ => id
  · rw [hcalls]
    exact fun p hp ra hcall => hlogged.mpr (h.replicate p hp ra hcall)
  · rw [hcalls, hprop]
    exact h.initView
  · rw [hcalls, hanswers]
    intro sbp arg hmem
    obtain ⟨p, hp, vs, hsbp, hcall, hl⟩ := h.fetchlog sbp arg hmem
    exact ⟨p, hp, vs, hsbp, hcall, hlogged.mpr hl⟩

theorem Matching.step (h : s.Matching) (hone : s.Unequivocal) (hs' : s.step e = some s')
    (hfresh : FormsUnused s e s') : s'.Matching := by
  obtain ⟨mid, rfl, hnone, rfl⟩ | ⟨i, c, c₁, c', ht, rfl⟩ := exists_takes h.sound hs'
  · exact h.boot hs' (fun m c hc => (cohorts_boot m c hc).imp_left And.right)
      (fun _ _ => cohorts_boot_of_some hnone) rfl rfl
  · exact h.update hone hfresh ht

/-! ## Runs -/

theorem log_founder {mid : Mid} {rle : LogEntry} : (founder mid).log.lookup vs = some rle ↔
    vs = ⟨⟨1, mid⟩, 0⟩ ∧ rle = .plain (synthetic mid).arg := by
  have hlog : (founder mid).log = (∅ : Keyed Viewstamp LogEntry).insert ⟨⟨1, mid⟩, 0⟩
      (.plain (synthetic mid).arg) := (AList.insert_empty _ _).symm
  rw [hlog]
  by_cases hvs : vs = ⟨⟨1, mid⟩, 0⟩
  · rw [hvs, AList.lookup_insert]
    exact ⟨fun h => ⟨rfl, (Option.some.inj h).symm⟩, fun h => congrArg some h.2.symm⟩
  · rw [AList.lookup_insert_ne hvs, AList.lookup_empty]
    exact ⟨nofun, fun h => absurd h.1 hvs⟩

theorem jumps_founder {mid : Mid} {u w : Viewstamp} :
    (founder mid).jumps.lookup u = some w ↔ u = .zero ∧ w = ⟨⟨1, mid⟩, 0⟩ := by
  have hjumps : (founder mid).jumps = (∅ : Keyed Viewstamp Viewstamp).insert .zero
      ⟨⟨1, mid⟩, 0⟩ := (AList.insert_empty _ _).symm
  rw [hjumps]
  by_cases hu : u = .zero
  · rw [hu, AList.lookup_insert]
    exact ⟨fun h => ⟨rfl, (Option.some.inj h).symm⟩, fun h => congrArg some h.2.symm⟩
  · rw [AList.lookup_insert_ne hu, AList.lookup_empty]
    exact ⟨nofun, fun h => absurd h.1 hu⟩

theorem entry_founder {mid : Mid} : (founder mid).entry vs = some arg ↔
    vs = ⟨⟨1, mid⟩, 0⟩ ∧ arg = (synthetic mid).arg := by
  rw [entry_eq_some]
  constructor
  · rintro ⟨rle, hrle, rfl⟩
    obtain ⟨hvs, rfl⟩ := log_founder.mp hrle
    exact ⟨hvs, rfl⟩
  · rintro ⟨hvs, rfl⟩
    exact ⟨_, log_founder.mpr ⟨hvs, rfl⟩, rfl⟩

theorem matching_init (mid : Mid) : (init mid).Matching := by
  have hfounder : (init mid).cohorts mid = some (founder mid) := by
    change Function.update (fun _ => none) mid (some (founder mid)) mid = _
    rw [Function.update_self]
  have hlogged : ∀ {vs arg}, (init mid).Logged vs arg ↔
      vs = ⟨⟨1, mid⟩, 0⟩ ∧ arg = (synthetic mid).arg := by
    intro vs arg
    constructor
    · rintro ⟨m, c, hc, hentry⟩
      obtain ⟨-, rfl⟩ := cohorts_init hc
      exact entry_founder.mp hentry
    · exact fun h => ⟨mid, _, hfounder, entry_founder.mpr h⟩
  have hfirst : (init mid).Logged ⟨⟨1, mid⟩, 0⟩ (synthetic mid).arg := hlogged.mpr ⟨rfl, rfl⟩
  constructor
  · exact sound_init mid
  · exact wired_init mid
  · exact fun vs arg arg' h h' => (hlogged.mp h).2.trans (hlogged.mp h').2.symm
  · intro v arg h
    obtain ⟨hv, harg⟩ := hlogged.mp h
    obtain rfl : v = ⟨1, mid⟩ := congrArg Viewstamp.vid hv
    exact ⟨synthetic mid, harg, rfl, le_refl _, Or.inl ⟨rfl, rfl⟩⟩
  · intro vs arg h
    obtain ⟨rfl, rfl⟩ := hlogged.mp h
    exact ⟨synthetic mid, _, hfirst, hfounder, entry_founder.mpr ⟨rfl, rfl⟩, nofun⟩
  · intro m c hc hne
    obtain ⟨rfl, rfl⟩ := cohorts_init hc
    exact ⟨_, hfirst, rfl⟩
  · intro m c vs arg hc hne hentry hvid
    obtain ⟨-, rfl⟩ := cohorts_init hc
    obtain ⟨rfl, -⟩ := entry_founder.mp hentry
    exact le_refl _
  · intro i m c hc
    obtain ⟨rfl, rfl⟩ := cohorts_init hc
    exact ⟨fun vs arg hentry => ⟨_, _, hc, hentry⟩, fun _ => ⟨_, hfirst, rfl⟩, fun _ => rfl, nofun,
      nofun, nofun⟩
  · exact nofun
  · exact nofun
  · exact nofun

/-- What binds a viewstamp to a content: an entry of a log, a `REP_REPLICATE`, or the reply to a
`REP_FETCHLOG`. -/
inductive Binds (s : Group) (vs : Viewstamp) (arg : ExecuteArg) : Prop
  | entry (m : Mid) (c : Cohort) (hc : s.cohorts m = some c) (h : c.entry vs = some arg)
  | replicate (p : Packet) (committed : Viewstamp) (hp : p ∈ s.calls)
      (hcall : p.call = .replicate ⟨vs, arg, committed⟩)
  | fetchlog (p : Packet) (hp : p ∈ s.calls) (hcall : p.call = .fetchlog vs)
      (h : (p.sbp, .fetchlog arg) ∈ s.answers)

theorem Matching.logged_of_binds (h : s.Matching) (hb : s.Binds vs arg) : s.Logged vs arg := by
  cases hb with
  | entry m c hc hentry => exact ⟨m, c, hc, hentry⟩
  | replicate p committed hp hcall => exact h.replicate p hp _ hcall
  | fetchlog p hp hcall hmem =>
    obtain ⟨p', hp', vs', hsbp, hcall', hl⟩ := h.fetchlog _ _ hmem
    obtain rfl := h.wired.unique p' hp' p hp hsbp
    obtain rfl := Call.fetchlog.inj (hcall'.symm.trans hcall)
    exact hl

/-- **A viewstamp has one content**, in all logs and messages of a run and at all times, if no two
proposals with one id differ and each `REP_INIT_VIEW` that forms a view finds no request of it in
the log; and an entry stays as it is. -/
theorem matched_of_unused (mid : Mid) (es : List Event)
    (hone : Run.Always step Unequivocal (init mid) es)
    (h : Run.Along step FormsUnused (init mid) es) :
    (∀ pre pre' s s' vs arg arg', pre <+: es → pre' <+: es →
      pre.foldlM step (init mid) = some s → pre'.foldlM step (init mid) = some s' →
      s.Binds vs arg → s'.Binds vs arg' → arg = arg') ∧
    ∀ pre rest s s' m c vs arg, pre ++ rest <+: es → pre.foldlM step (init mid) = some s →
      rest.foldlM step s = some s' → s.cohorts m = some c → c.entry vs = some arg →
      ∃ c', s'.cohorts m = some c' ∧ c'.entry vs = some arg := by
  have hrun := hone.and_along h
  have hmatching : ∀ {pre s}, pre <+: es → pre.foldlM step (init mid) = some s → s.Matching :=
    fun hpre hs => (hrun.before hpre).keeps hs
      (fun s e s' hs' hI hC => hI.step hC.1 hs' hC.2) (matching_init mid)
  have hkeeps : ∀ {pre rest s s' m c vs arg}, pre ++ rest <+: es →
      pre.foldlM step (init mid) = some s → rest.foldlM step s = some s' →
      s.cohorts m = some c → c.entry vs = some arg →
      ∃ c', s'.cohorts m = some c' ∧ c'.entry vs = some arg := by
    intro pre rest s s' m c vs arg hes hs hs' hc hentry
    have hsound := (hmatching ((List.prefix_append _ _).trans hes) hs).sound
    refine ((hrun.after hes hs).keeps (I := fun s => s.Sound ∧ ∃ c, s.cohorts m = some c ∧
      c.entry vs = some arg) hs' (fun s e s' hs' hI _ => ?_) ⟨hsound, c, hc, hentry⟩).2
    obtain ⟨hsound, d, hd, hentry⟩ := hI
    exact ⟨hsound.step hs', entry_step hsound hs' hd hentry⟩
  -- what is logged at one time is logged later
  have hlater : ∀ {pre pre' s s' vs arg arg'}, pre <+: pre' → pre' <+: es →
      pre.foldlM step (init mid) = some s → pre'.foldlM step (init mid) = some s' →
      s.Binds vs arg → s'.Binds vs arg' → arg = arg' := by
    rintro pre _ s s' vs arg arg' ⟨rest, rfl⟩ hpre hs hs' hb hb'
    rw [List.foldlM_append, hs] at hs'
    have hmatching' : s'.Matching := hmatching hpre (by rw [List.foldlM_append, hs]; exact hs')
    obtain ⟨m, c, hc, hentry⟩ :=
      (hmatching ((List.prefix_append _ _).trans hpre) hs).logged_of_binds hb
    obtain ⟨c', hc', hentry'⟩ := hkeeps hpre hs hs' hc hentry
    exact hmatching'.one vs arg arg' ⟨m, c', hc', hentry'⟩ (hmatching'.logged_of_binds hb')
  refine ⟨fun pre pre' s s' vs arg arg' hpre hpre' hs hs' hb hb' => ?_,
    fun pre rest s s' m c vs arg => hkeeps⟩
  obtain hle | hle := List.prefix_or_prefix_of_prefix hpre hpre'
  · exact hlater hle hpre' hs hs' hb hb'
  · exact (hlater hle hpre hs' hs hb' hb).symm

/-- Four cohorts with the logs of three views. -/
theorem matched_of_unused_onward : ∃ s, ((init 1).events onward).foldlM step (init 1) = some s ∧
    (∀ vs arg arg', s.Binds vs arg → s.Binds vs arg' → arg = arg') ∧
    (∀ pre rest s₁ m c vs arg, pre ++ rest = (init 1).events onward →
      pre.foldlM step (init 1) = some s₁ → rest.foldlM step s₁ = some s →
      s₁.cohorts m = some c → c.entry vs = some arg →
      ∃ c', s.cohorts m = some c' ∧ c'.entry vs = some arg) ∧
    s.Binds ⟨⟨3, 1⟩, 1⟩ ⟨7, 1, ⟨3, 1⟩, .operation []⟩ := by
  have h : ((init 1).play onward).any (fun s => decide (
      (s.cohorts 2).bind (·.entry ⟨⟨3, 1⟩, 1⟩) = some ⟨7, 1, ⟨3, 1⟩, .operation []⟩)) = true := by
    decide +kernel
  obtain ⟨s, hs, hlog⟩ := events_of_any h
  obtain ⟨c, hc, hentry⟩ := Option.bind_eq_some_iff.mp hlog
  obtain ⟨hone, hkept⟩ := matched_of_unused 1 ((init 1).events onward)
    ⟨by decide +kernel, by decide +kernel⟩ (by decide +kernel)
  refine ⟨s, hs, fun vs arg arg' => ?_, fun pre rest s₁ m c vs arg hes => ?_, .entry 2 c hc hentry⟩
  · exact hone _ _ s s vs arg arg' List.prefix_rfl List.prefix_rfl hs hs
  · exact hkept pre rest s₁ s m c vs arg (hes ▸ List.prefix_rfl)

theorem Proposal.step {nv : NewViewArg} (h : s.Proposal nv) (hs' : s.step e = some s') :
    s'.Proposal nv := by
  obtain ⟨mid, -, -, rfl⟩ | ⟨c, c', -, -, rfl⟩ := step_cases hs'
  · exact h
  · exact h.update

/-- Two view changes of the cohorts `1` and `2` lead to views with the primary `1`, which enters the
first one.  The second one is formed on each `REP_INIT_VIEW` and not entered; the next request of
either time is the first one of its log. -/
def formedTwice : List Cue := pair ++
  [.event (.boot 3), .event (.join 3 1), .call 3 0, .call 1 6, .call 1 7, .answer 1 6, .answer 1 7,
    .event (.fail 1 8), .call 1 9, .call 1 10, .answer 1 9, .answer 1 10,
    .event (.boot 4), .event (.join 4 2), .call 4 0, .call 2 2, .call 2 3, .answer 2 2, .answer 2 3,
    .event (.fail 2 4), .call 2 5, .call 2 6, .answer 2 5, .answer 2 6,
    .call 1 12, .call 2 8, .event (.request 1 0 ⟨7, 1, ⟨3, 1⟩, .operation []⟩),
    .call 2 8, .event (.request 1 0 ⟨8, 1, ⟨3, 1⟩, .operation []⟩), .call 1 14, .call 1 17]

/-- The requests of the clients `7` and `8` are logged under one viewstamp. -/
theorem logged_twice : ∃ (es : List Event) (s : Group), es.foldlM step (init 1) = some s ∧
    Run.Always step Unequivocal (init 1) es ∧
    s.Logged ⟨⟨4, 2⟩, 1⟩ ⟨7, 1, ⟨3, 1⟩, .operation []⟩ ∧
    s.Logged ⟨⟨4, 2⟩, 1⟩ ⟨8, 1, ⟨3, 1⟩, .operation []⟩ := by
  have h : ((init 1).play formedTwice).any (fun s => decide (
      (∀ nv ∈ s.proposals, ∀ nv' ∈ s.proposals, nv.view.vid = nv'.view.vid → nv = nv') ∧
      (s.cohorts 1).bind (·.entry ⟨⟨4, 2⟩, 1⟩) = some ⟨7, 1, ⟨3, 1⟩, .operation []⟩ ∧
      (s.cohorts 2).bind (·.entry ⟨⟨4, 2⟩, 1⟩) = some ⟨8, 1, ⟨3, 1⟩, .operation []⟩)) = true := by
    decide +kernel
  obtain ⟨es, s, hes, hone, h₁, h₂⟩ := exists_run_of_any h
  obtain ⟨c₁, hc₁, hentry₁⟩ := Option.bind_eq_some_iff.mp h₁
  obtain ⟨c₂, hc₂, hentry₂⟩ := Option.bind_eq_some_iff.mp h₂
  refine ⟨es, s, hes, .of_last ?_ hes fun nv nv' hnv hnv' =>
    hone nv (proposal_iff.mp hnv) nv' (proposal_iff.mp hnv'), ⟨1, c₁, hc₁, hentry₁⟩,
    2, c₂, hc₂, hentry₂⟩
  exact fun s e s' hs' hP nv nv' hnv hnv' => hP nv nv' (hnv.step hs') (hnv'.step hs')

end Group

end Falcon
