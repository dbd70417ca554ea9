import Falcon.Replication.Choice
import Falcon.Replication.Attempts

/-!
# Replication/Assertions — the assertion of `view_change_choose_view`

A manager that proposes again a view that was never formed goes through the accepts of the members
of that view, and keeps the furthest one.  Once that is the primary of the view, a member that is
further fails an assertion: the primary of a view that was accepted is thought to have the log the
view goes on from.

* `foremost_iff` — in no order of the accepts does the search fail iff, of those that have accepted,
  no member of the view is further than its primary.
* `Chooses.act`, `Asserted.act` — when the search is made, and of which accepts; a manager comes
  through when the assertion holds.
* `assertion_fails` — a backup that had a gap in its log accepts the view, fetches what it lacks,
  and is further than the primary then.
-/

namespace Falcon

namespace Cohort

variable {s : Cohort} {a : AttemptRef} {w : View} {rs : List ViewChangeAccept} {m : Best}
  {us : List Mid}

/-! ## The search -/

/-- The primary of `w` has reported no log at all, or no member of `w` has reported a longer one. -/
def Foremost (w : View) (rs : List ViewChangeAccept) : Prop :=
  ∀ q ∈ rs, ∀ r ∈ rs, q.myid = w.primary → r.myid ∈ w.mids →
    q.latest = .zero ∨ r.latest ≤ q.latest

/-- The search goes through when nothing is further than the primary, which may have been found. -/
theorem bestMember_ne_none (h : Foremost w rs)
    (hm : m.2 = some w.primary → ∀ r ∈ rs, r.myid ∈ w.mids → r.latest ≤ m.1) :
    bestMember w rs m ≠ none := by
  induction rs generalizing m with
  | nil => exact Option.some_ne_none m
  | cons r rs ih =>
    have hrest : Foremost w rs := fun q hq r hr =>
      h q (List.mem_cons_of_mem _ hq) r (List.mem_cons_of_mem _ hr)
    unfold bestMember
    split_ifs with hmem hlt hprimary
    · exact absurd hlt (not_lt.mpr (hm hprimary r List.mem_cons_self hmem))
    · refine ih hrest fun heq r' hr' hmem' => ?_
      have hzero : r.latest ≠ .zero := fun heq => by
        rw [heq] at hlt
        exact absurd hlt (not_lt.mpr (Viewstamp.zero_le _))
      exact (h r List.mem_cons_self r' (List.mem_cons_of_mem _ hr') (Option.some.inj heq)
        hmem').resolve_left hzero
    · exact ih hrest fun heq r' hr' => hm heq r' (List.mem_cons_of_mem _ hr')
    · exact ih hrest fun heq r' hr' => hm heq r' (List.mem_cons_of_mem _ hr')

/-- **The assertion holds for every order of the accepts** iff nothing is further than the primary.
-/
theorem foremost_iff :
    (∀ rs', rs'.Perm rs → bestMember w rs' (.zero, none) ≠ none) ↔ Foremost w rs := by
  constructor
  · intro h q hq r hr hprimary hmem
    by_contra hnot
    rw [not_or, not_le] at hnot
    obtain ⟨hzero, hlt⟩ := hnot
    have hne : r ≠ q := fun heq => by
      rw [heq] at hlt
      exact lt_irrefl _ hlt
    -- the primary comes first, and then the member that is further
    have hperm : (q :: r :: (rs.erase q).erase r).Perm rs :=
      ((List.perm_cons_erase ((List.mem_erase_of_ne hne).mpr hr)).symm.cons q).trans
        (List.perm_cons_erase hq).symm
    have hpos : Viewstamp.zero < q.latest := lt_of_le_of_ne (Viewstamp.zero_le _) (Ne.symm hzero)
    have hq' : q.myid ∈ w.mids := View.mem_mids.mpr (Or.inl hprimary)
    refine h _ hperm ?_
    rw [bestMember, if_neg (not_not.mpr hq'), if_pos hpos, if_neg nofun, bestMember,
      if_neg (not_not.mpr hmem), if_pos hlt, if_pos (congrArg some hprimary)]
  · exact fun h rs' hrs' => bestMember_ne_none
      (fun q hq r hr => h q (hrs'.mem_iff.mp hq) r (hrs'.mem_iff.mp hr)) nofun

/-! ## When the search is made -/

/-- The attempt `a` has all answers and its majorities, and has found the view `w`, whose members
have all been asked: `view_change_check_prepare` calls `view_change_choose_view`. -/
structure Choosing (a : AttemptRef) (w : View) (s : Cohort) : Prop where
  found : (s.attempts a).newview = some w
  aborted : (s.attempts a).aborted = false
  done : (s.attempts a).prepareDone.length = (s.attempts a).underlings.length
  asked : (s.attempts a).mergedVid < w.vid → w.mids ⊆ (s.attempts a).underlings
  current : (s.attempts a).prepareAccepted.containsMajorityOf s.view.mids = true
  members : (s.attempts a).prepareAccepted.containsMajorityOf w.mids = true

/-- To ask further cohorts adds underlings; it adds none when all have been asked. -/
theorem asked_attempt (us : List Mid) (s : Cohort) :
    ∃ U, (us.foldl (viewChangeAsk a a) s).attempts a = { s.attempts a with underlings := U } ∧
      (us.foldl (viewChangeAsk a a) s).view = s.view ∧
      (s.attempts a).underlings.length ≤ U.length ∧
      ((s.attempts a).underlings.length = U.length ↔ us ⊆ (s.attempts a).underlings) := by
  induction us generalizing s with
  | nil => exact ⟨_, rfl, rfl, le_rfl, iff_of_true rfl (List.nil_subset _)⟩
  | cons u us ih =>
    rw [List.foldl_cons, List.cons_subset]
    obtain ⟨U, hU, hview, hle, hiff⟩ := ih (s.viewChangeAsk a a u)
    by_cases hu : u ∈ (s.attempts a).underlings
    · have heq : s.viewChangeAsk a a u = s := if_pos hu
      rw [heq] at hU hview hle hiff ⊢
      exact ⟨U, hU, hview, hle, hiff.trans (and_iff_right hu).symm⟩
    · rw [viewChangeAsk_of_notMem hu] at hU hview hle ⊢
      have hatt : ((s.setAttempt a { s.attempts a with
          underlings := (s.attempts a).underlings.insert u }).call u
          (.viewChange ⟨s.view, (s.attempts a).proposedVid⟩)
          (some (.viewChangePrepareCb a u))).attempts a = { s.attempts a with
            underlings := (s.attempts a).underlings.insert u } := attempts_setAttempt
      rw [hatt] at hU hle
      have hlt : (s.attempts a).underlings.length < U.length := by
        have hlen := OrdSet.length_insert hu
        change ((s.attempts a).underlings.insert u).length ≤ U.length at hle
        omega
      exact ⟨U, hU, hview, hlt.le, iff_of_false (ne_of_lt hlt) fun hsub => hu hsub.1⟩

/-- Before the view is chosen, the members of the view that has been found are asked. -/
theorem viewChangeCheckPrepare_found (hw : (s.attempts a).newview = some w)
    (hcurrent : s.vcattempt = some a) (hopen : (s.attempts a).aborted = false)
    (hdone : (s.attempts a).prepareDone.length = (s.attempts a).underlings.length)
    (hmaj : (s.attempts a).prepareAccepted.containsMajorityOf s.view.mids = true) :
    ∃ (t : Cohort) (U : OrdSet Mid) (vid : ViewId),
      s.viewChangeCheckPrepare a = t.viewChangeCheckMerged a ∧ t.view = s.view ∧
      t.attempts a = { s.attempts a with underlings := U, mergedVid := vid } ∧
      ((s.attempts a).underlings.length = U.length ↔
        ((s.attempts a).mergedVid < w.vid → w.mids ⊆ (s.attempts a).underlings)) := by
  have hend : ¬((s.attempts a).aborted = true ∨
      (s.attempts a).prepareDone.length ≠ (s.attempts a).underlings.length) := by
    rw [hopen]
    exact not_or.mpr ⟨nofun, not_not.mpr hdone⟩
  unfold viewChangeCheckPrepare
  dsimp only
  rw [if_neg hend, if_neg (Bool.not_eq_false _ ▸ hmaj)]
  split
  · next w' hw' =>
    obtain rfl := Option.some.inj (hw.symm.trans hw')
    split_ifs with hmerge
    · rw [hcurrent, Option.bind_eq_bind, Option.bind_some]
      obtain ⟨U, hU, hview, -, hlen⟩ := asked_attempt (a := a) w.mids s
      rw [hU]
      exact ⟨_, U, w.vid, rfl, hview, attempts_setAttempt,
        hlen.trans (imp_iff_right hmerge).symm⟩
    · exact ⟨s, _, _, rfl, rfl, rfl, iff_of_true rfl fun hlt => absurd hlt hmerge⟩
  · next hnone => cases hw.symm.trans hnone

/-- **The view is chosen then**, from the accepts the attempt has. -/
theorem Choosing.proposes (h : s.Choosing a w) (hcurrent : s.vcattempt = some a) :
    ∃ (t : Cohort) (U : OrdSet Mid) (vid : ViewId),
      s.viewChangeCheckPrepare a = t.viewChangePropose a ∧
      t.attempts a = { s.attempts a with underlings := U, mergedVid := vid } := by
  obtain ⟨t, U, vid, heq, hview, hatt, hlen⟩ :=
    viewChangeCheckPrepare_found h.found hcurrent h.aborted h.done h.current
  refine ⟨t, U, vid, heq.trans ?_, hatt⟩
  have hend : ¬((s.attempts a).aborted = true ∨ (s.attempts a).prepareDone.length ≠ U.length) := by
    rw [h.aborted]
    exact not_or.mpr ⟨nofun, not_not.mpr (h.done.trans (hlen.mpr h.asked))⟩
  unfold viewChangeCheckMerged
  rw [hatt, hview]
  dsimp only
  rw [if_neg hend, if_neg (Bool.not_eq_false _ ▸ h.current)]
  split
  · next w' hw' =>
    obtain rfl := Option.some.inj (h.found.symm.trans hw')
    exact if_neg (Bool.not_eq_false _ ▸ h.members)
  · rfl

/-- **And only then**: otherwise `view_change_check_prepare` ends before. -/
theorem choosing_of_none (hw : (s.attempts a).newview = some w) (hcurrent : s.vcattempt = some a)
    (hnone : s.viewChangeCheckPrepare a = none) : s.Choosing a w := by
  obtain ⟨hopen, hdone, hmaj⟩ : (s.attempts a).aborted = false ∧
      (s.attempts a).prepareDone.length = (s.attempts a).underlings.length ∧
      (s.attempts a).prepareAccepted.containsMajorityOf s.view.mids = true := by
    unfold viewChangeCheckPrepare at hnone
    dsimp only at hnone
    split_ifs at hnone with hend hmaj
    rw [not_or, not_not, Bool.not_eq_true] at hend
    exact ⟨hend.1, hend.2, Bool.not_eq_false _ ▸ hmaj⟩
  obtain ⟨t, U, vid, heq, hview, hatt, hlen⟩ :=
    viewChangeCheckPrepare_found hw hcurrent hopen hdone hmaj
  rw [heq, viewChangeCheckMerged, hatt, hview] at hnone
  dsimp only at hnone
  split_ifs at hnone with hend hmaj'
  rw [not_or, not_not] at hend
  split at hnone
  · next w' hw' =>
    obtain rfl := Option.some.inj (hw.symm.trans hw')
    split_ifs at hnone with hmajw
    exact ⟨hw, hopen, hdone, hlen.mp (hdone.symm.trans hend.2), hmaj, Bool.not_eq_false _ ▸ hmajw⟩
  · next hnone' => cases hw.symm.trans hnone'

/-- What the callback of `REP_VIEW_CHANGE` makes of an answer. -/
def viewChangeRes : Option Answer → Option ViewChangeRes
  | some (.viewChange res) => some res
  | _ => none

/-- The cohort once it has taken in what the call `n`, of `REP_VIEW_CHANGE` to `u`, has come to. -/
def hears (n : ℕ) (a : AttemptRef) (u : Mid) (resp : Option Answer) (s : Cohort) : Cohort :=
  { s with calls := s.calls.erase n }.prepared a u (viewChangeRes resp)

theorem completed_viewChangePrepareCb {n : ℕ} {u : Mid} {resp : Option Answer}
    (hcb : s.calls.lookup n = some (.viewChangePrepareCb a u)) :
    Group.completed n resp s =
      if (s.attempts a).aborted then some { s with calls := s.calls.erase n }
      else (s.hears n a u resp).viewChangeCheckPrepare a := by
  have hcomplete : ∀ t : Cohort, t.complete (.viewChangePrepareCb a u) resp =
      t.viewChangePrepareCb a u (viewChangeRes resp) := fun t => by
    cases resp with
    | none => rfl
    | some ans => cases ans <;> rfl
  rw [Group.completed, hcb, Option.bind_eq_bind, Option.bind_some, hcomplete,
    viewChangePrepareCb_eq]
  rfl

/-- The attempt goes on as the last one. -/
theorem hears_current {n : ℕ} {u : Mid} {resp : Option Answer} (h : s.Managed)
    (hopen : (s.attempts a).aborted = false) : (s.hears n a u resp).vcattempt = some a := by
  obtain ⟨v, att, heq, -⟩ := prepared_cases a u (viewChangeRes resp)
    { s with calls := s.calls.erase n }
  rw [hears, heq]
  exact h.current a hopen

end Cohort

namespace Group

open Cohort

variable {s : Group} {e : Event} {w : View} {rs : List ViewChangeAccept}

/-! ## Runs -/

/-- In the event `e` a manager goes through the accepts `rs`, having found the view `w`. -/
inductive Chooses (s : Group) (e : Event) (w : View) : List ViewChangeAccept → Prop
  | intro {c : Cohort} {n : ℕ} {a : AttemptRef} {u : Mid} {resp : Option Answer}
      (hc : s.cohorts e.actor = some c)
      (hi : Brings s c e (.callback n (.viewChangePrepareCb a u) resp))
      (hopen : (c.attempts a).aborted = false) (h : (c.hears n a u resp).Choosing a w) :
      Chooses s e w ((c.hears n a u resp).attempts a).vcaccepts

/-- An event that brings a callback runs it. -/
theorem act_of_brings {c : Cohort} {n : ℕ} {cb : Continuation} {resp : Option Answer}
    (h : Brings s c e (.callback n cb resp)) :
    c.calls.lookup n = some cb ∧ s.act e c = completed n resp c := by
  cases h with
  | answer hans hcb => exact ⟨hcb, if_pos hans⟩
  | fail hcb => exact ⟨hcb, rfl⟩

/-- **`Chooses` is when `view_change_choose_view` is called with a view found**, and on what. -/
theorem Chooses.act (hs : s.Sound) (h : Chooses s e w rs) : ∃ (c t : Cohort) (a : AttemptRef),
    s.cohorts e.actor = some c ∧ s.act e c = t.viewChangePropose a ∧
      (t.attempts a).newview = some w ∧ (t.attempts a).vcaccepts = rs := by
  cases h with
  | @intro c n a u resp hc hi hopen h =>
    obtain ⟨hcb, hact⟩ := act_of_brings hi
    obtain ⟨t, U, vid, heq, hatt⟩ := h.proposes (hears_current (hs.managed _ c hc) hopen)
    refine ⟨c, t, a, hc, ?_, ?_, ?_⟩
    · rw [hact, completed_viewChangePrepareCb hcb, if_neg (Bool.eq_false_iff.mp hopen), heq]
    · rw [hatt]
      exact h.found
    · rw [hatt]

/-- The assertion of `view_change_choose_view` holds, in whatever order the accepts have come. -/
def Asserted (s : Group) (e : Event) : Prop :=
  ∀ w rs, Chooses s e w rs → ∀ rs', rs'.Perm rs → bestMember w rs' (.zero, none) ≠ none

/-- **What `Asserted` is for**: a manager that has found a view, one of whose members has reported a
log, comes through when it takes an answer in. -/
theorem Asserted.act {c : Cohort} {n : ℕ} {a : AttemptRef} {u : Mid} {resp : Option Answer}
    {r : ViewChangeAccept} (h : s.Asserted e) (hs : s.Sound) (hc : s.cohorts e.actor = some c)
    (hi : Brings s c e (.callback n (.viewChangePrepareCb a u) resp))
    (hw : ((c.hears n a u resp).attempts a).newview = some w)
    (hr : r ∈ ((c.hears n a u resp).attempts a).vcaccepts) (hmem : r.myid ∈ w.mids)
    (hlog : r.latest ≠ .zero) : s.act e c ≠ none := by
  intro hnone
  obtain ⟨hcb, hact⟩ := act_of_brings hi
  rw [hact, completed_viewChangePrepareCb hcb] at hnone
  split_ifs at hnone with haborted
  have hopen := Bool.eq_false_iff.mpr haborted
  have hcurrent : (c.hears n a u resp).vcattempt = some a :=
    hears_current (hs.managed _ c hc) hopen
  have hchoosing := choosing_of_none hw hcurrent hnone
  -- so the search is made, and finds the furthest of the members
  obtain ⟨t, U, vid, heq, hatt⟩ := hchoosing.proposes hcurrent
  obtain ⟨⟨l, m⟩, hbest⟩ := Option.ne_none_iff_exists'.mp
    (h w _ (.intro hc hi hopen hchoosing) _ (List.Perm.refl _))
  obtain ⟨hcase, -, hmax⟩ := best_spec
    (((c.hears n a u resp).attempts a).vcaccepts.filter (·.myid ∈ w.mids)) (.zero, none)
  rw [best_of_bestMember hbest] at hcase hmax
  obtain hzero | ⟨q, -, hq⟩ := hcase
  · have hle := hmax r (List.mem_filter.mpr ⟨hr, decide_eq_true hmem⟩)
    rw [hzero] at hle
    exact hlog (le_antisymm hle (Viewstamp.zero_le _))
  · obtain ⟨rfl, rfl⟩ := Prod.mk.inj hq
    rw [heq, viewChangePropose, hatt, viewChangeChooseView] at hnone
    dsimp only at hnone
    rw [hw] at hnone
    dsimp only at hnone
    rw [hbest] at hnone
    simp only [Option.bind_eq_bind, Option.bind_some] at hnone
    split_ifs at hnone <;> cases hnone

/-- A view of three cohorts, in which `2` has the first of two requests and `3` the second one.  The
second view that `2` proposes is the one that it and `3` have accepted, and before it does, `3` has
fetched the first request. -/
def overtaken : List Cue := trio ++
  [.event (.request 1 0 ⟨7, 1, ⟨3, 1⟩, .operation []⟩),
    .event (.request 1 1 ⟨7, 2, ⟨3, 1⟩, .operation []⟩), .call 1 15, .call 1 18,
    .event (.boot 4), .event (.join 4 2), .call 4 0, .call 2 3, .call 2 4, .answer 2 3, .answer 2 4,
    .event (.fail 2 2), .event (.fail 2 5), .call 2 7, .call 2 8, .call 3 3, .answer 3 3,
    .event (.fail 2 6), .event (.fail 2 7), .event (.fail 2 8), .event (.fail 2 9),
    .event (.join 4 2), .call 4 1, .call 2 11, .call 2 12, .event (.fail 2 10),
    .event (.fail 2 13), .answer 2 11]

/-- The primary `2` is met first, and `3` is further. -/
theorem assertion_fails : ∃ (es : List Event) (s : Group) (e : Event) (w : View)
    (rs : List ViewChangeAccept), es.foldlM step (init 1) = some s ∧ Chooses s e w rs ∧
      bestMember w rs (.zero, none) = none ∧ s.step e = none := by
  let w : View := ⟨⟨4, 2⟩, 2, [3]⟩
  let rs : List ViewChangeAccept := [⟨2, ⟨⟨3, 1⟩, 1⟩, some w⟩, ⟨3, ⟨⟨3, 1⟩, 2⟩, some w⟩]
  let ans : Answer := .viewChange (.accept ⟨3, ⟨⟨3, 1⟩, 2⟩, some w⟩)
  have h : ((init 1).play overtaken).any (fun s => decide ((⟨2, 12⟩, ans) ∈ s.answers ∧
      (s.step (.answer ⟨2, 12⟩ ans)).isNone = true ∧ (s.cohorts 2).map (fun c =>
        (c.calls.lookup 12, (c.attempts 1).aborted, (c.hears 12 1 3 (some ans)).attempts 1,
          (c.hears 12 1 3 (some ans)).view)) =
        some (some (.viewChangePrepareCb 1 3), false,
          ⟨[2, 3], [1, 2, 3, 4], [], [], rs, some w, .zero, none, ⟨5, 2⟩, [1, 2, 3, 4], false⟩,
          ⟨⟨3, 1⟩, 1, [2, 3]⟩))) = true := by
    decide +kernel
  obtain ⟨es, s, hes, hans, hnone, hc⟩ := exists_run_of_any h
  obtain ⟨c, hc, heq⟩ := Option.map_eq_some_iff.mp hc
  obtain ⟨hcb, hopen, hatt, hview⟩ : c.calls.lookup 12 = some (.viewChangePrepareCb 1 3) ∧
      (c.attempts 1).aborted = false ∧ (c.hears 12 1 3 (some ans)).attempts 1 =
        ⟨[2, 3], [1, 2, 3, 4], [], [], rs, some w, .zero, none, ⟨5, 2⟩, [1, 2, 3, 4], false⟩ ∧
      (c.hears 12 1 3 (some ans)).view = ⟨⟨3, 1⟩, 1, [2, 3]⟩ := by
    simpa only [Prod.mk.injEq] using heq
  refine ⟨es, s, .answer ⟨2, 12⟩ ans, w, rs, hes, ?_, by decide, Option.isNone_iff_eq_none.mp hnone⟩
  have hchoosing : (c.hears 12 1 3 (some ans)).Choosing 1 w := by
    refine ⟨?_, ?_, ?_, ?_, ?_, ?_⟩
    all_goals rw [hatt]
    · exact fun _ => by decide
    · rw [hview]
      decide
    · decide
  have hchooses := Chooses.intro hc (.answer hans hcb) hopen hchoosing
  rwa [hatt] at hchooses

end Group

end Falcon
