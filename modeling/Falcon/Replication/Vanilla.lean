import Falcon.Replication.Group
import Mathlib.Data.Set.Basic
import Mathlib.Data.List.Induction

/-!
# Replication/Vanilla — starting a view change with and without Falcon

`pmp_vanilla` is the replication service before Falcon: its `view_change_initiate` asks every
underling and waits for those that are down.  That of `pmp_falcon_leader` does not ask a server that
Falcon has reported, and runs the callback of the call it has not made, as if it had timed out, in
the middle of the loop that makes the calls.

* `viewChangeInitiate_refines` — the cohort is where the vanilla one is once the calls to the
  servers that are down have timed out, in whatever order.
-/

namespace Falcon

/-- The attempt after a call to `u` has timed out, as long as nobody has accepted. -/
def ViewChangeAttempt.expire (att : ViewChangeAttempt) (u : Mid) : ViewChangeAttempt :=
  if att.aborted then att
  else
    { att with
      prepareDone := att.prepareDone.insert u
      aborted := decide ((att.prepareDone.insert u).length = att.underlings.length) }

namespace Cohort

/-! ## The vanilla cohort -/

/-- A `REP_VIEW_CHANGE` to each of the underlings. -/
def ask (a : AttemptRef) (arg : ViewChangeArg) (us : List Mid) (s : Cohort) : Cohort :=
  us.foldl (fun s u => s.call u (.viewChange arg) (some (.viewChangePrepareCb a u))) s

/-- `view_change_initiate` of `pmp_vanilla`, but for the timers of the pings. -/
def vanillaInitiate (joiners : List Mid) (s : Cohort) : Cohort :=
  if s.attempting ∨ s.isViewMember s.self = false then s
  else
    let a := s.nextAttempt
    let att := s.newAttempt joiners
    { s.setAttempt a att with
      nextAttempt := a + 1
      vcattempt := some a
      mode := .viewchange }.ask a ⟨s.view, att.proposedVid⟩ att.underlings

/-- The calls that wait for an answer: whom they go to, what they ask and what their answer runs. -/
def outstanding (s : Cohort) : Set (Mid × Call × Continuation) :=
  fun x => ∃ n, Output.call n x.1 x.2.1 ∈ s.out ∧ s.calls.lookup n = some x.2.2

/-- Calls are numbered in the order in which they are made. -/
structure Numbered (s : Cohort) : Prop where
  calls : ∀ n cb, s.calls.lookup n = some cb → n < s.nextCall
  out : ∀ n dest c, Output.call n dest c ∈ s.out → n < s.nextCall

/-- A server is down: it is no joiner, and Falcon has reported it. -/
def Down (s : Cohort) (joiners : List Mid) (u : Mid) : Prop := u ∉ joiners ∧ u ∉ s.activeServers

instance (s : Cohort) (joiners : List Mid) : DecidablePred (s.Down joiners) :=
  fun _ => inferInstanceAs (Decidable (_ ∧ _))

variable {s s' : Cohort} {a : AttemptRef} {u : Mid} {us ul joiners : List Mid} {arg : ViewChangeArg}
  {att : ViewChangeAttempt} {n : ℕ}

/-! ## A call that times out -/

@[simp] theorem expire_prepareAccepted :
    (ViewChangeAttempt.expire att u).prepareAccepted = att.prepareAccepted := by
  unfold ViewChangeAttempt.expire
  split
  · rfl
  · rfl

theorem setAttempt_self : s.setAttempt a (s.attempts a) = s := by
  simp [setAttempt]

theorem setAttempt_setAttempt {att' : ViewChangeAttempt} :
    (s.setAttempt a att).setAttempt a att' = s.setAttempt a att' := by
  simp [setAttempt]

@[simp] theorem attempts_setAttempt : (s.setAttempt a att).attempts a = att := by
  simp [setAttempt]

theorem not_containsMajorityOf_nil (S : OrdSet Mid) : OrdSet.containsMajorityOf [] S = false := by
  simp [OrdSet.containsMajorityOf, OrdSet.intersectWith]

/-- With nobody that has accepted, a call that times out is marked as done, and the last one ends
the attempt. -/
theorem viewChangePrepareCb_expire (hnone : (s.attempts a).prepareAccepted = []) :
    s.viewChangePrepareCb a u none = some (s.setAttempt a ((s.attempts a).expire u)) := by
  unfold viewChangePrepareCb ViewChangeAttempt.expire
  by_cases habort : (s.attempts a).aborted = true
  · simp only [habort, if_true]
    rw [setAttempt_self]
  · simp only [habort, Bool.false_eq_true, if_false]
    unfold viewChangeCheckPrepare
    simp only [attempts_setAttempt, Bool.false_eq_true, false_or, hnone,
      not_containsMajorityOf_nil, if_true, abort, setAttempt_setAttempt]
    by_cases hlen : ((s.attempts a).prepareDone.insert u).length = (s.attempts a).underlings.length
    · simp [hlen]
    · simp [hlen]

/-- The attempt after calls to all of `us` have timed out. -/
theorem foldl_expire (hopen : att.aborted = false) (hdone : att.prepareDone = [])
    (hul : att.underlings ≠ []) :
    ∀ us : List Mid, us.Nodup → us ⊆ att.underlings →
      us.foldl ViewChangeAttempt.expire att = { att with
        prepareDone := us.foldl (fun S u => OrdSet.insert u S) []
        aborted := decide (us.length = att.underlings.length) } := by
  intro us
  -- the last call that times out is the only one that can end the attempt
  induction us using List.reverseRec with
  | nil =>
    intro _ _
    have hlen : ([] : List Mid).length ≠ att.underlings.length := fun h =>
      hul (List.eq_nil_of_length_eq_zero h.symm)
    rw [decide_eq_false hlen, ← hopen]
    cases att
    cases hdone
    rfl
  | append_singleton us u ih =>
    intro hnodup hsub
    obtain ⟨hus, -, -⟩ := List.nodup_append.mp hnodup
    have hsub' : us ⊆ att.underlings := fun x hx => hsub (List.mem_append_left _ hx)
    have hlt : us.length ≠ att.underlings.length := fun heq => by
      have hle := (List.subperm_of_subset hnodup hsub).length_le
      simp only [List.length_append, List.length_singleton] at hle
      omega
    have hlen := OrdSet.length_foldl_insert (S := []) hnodup fun _ _ => List.not_mem_nil
    rw [List.foldl_append, ih hus hsub', List.foldl_cons, List.foldl_nil, ViewChangeAttempt.expire]
    simp only [List.foldl_append, List.foldl_cons, List.foldl_nil, List.length_nil,
      Nat.zero_add] at hlen
    simp only [hlt, decide_false, Bool.false_eq_true, if_false, List.foldl_append, List.foldl_cons,
      List.foldl_nil, hlen]

/-- The order in which calls time out does not matter. -/
theorem foldl_expire_perm {us us' : List Mid} (hopen : att.aborted = false)
    (hdone : att.prepareDone = []) (hul : att.underlings ≠ []) (hperm : us.Perm us')
    (hnodup : us.Nodup) (hsub : us ⊆ att.underlings) :
    us.foldl ViewChangeAttempt.expire att = us'.foldl ViewChangeAttempt.expire att := by
  have hset : us.foldl (fun S u => OrdSet.insert u S) [] =
      us'.foldl (fun S u => OrdSet.insert u S) [] := by
    refine OrdSet.Sorted.ext (OrdSet.Sorted.foldl_insert List.Pairwise.nil)
      (OrdSet.Sorted.foldl_insert List.Pairwise.nil) fun u => ?_
    rw [OrdSet.mem_foldl_insert, OrdSet.mem_foldl_insert, hperm.mem_iff]
  rw [foldl_expire hopen hdone hul us hnodup hsub,
    foldl_expire hopen hdone hul us' (hperm.nodup_iff.mp hnodup)
      fun u hu => hsub (hperm.mem_iff.mpr hu), hset, hperm.length_eq]

/-! ## The calls -/

@[simp] theorem ask_cons : s.ask a arg (u :: us) =
    (s.call u (.viewChange arg) (some (.viewChangePrepareCb a u))).ask a arg us := rfl

theorem ask_setAttempt : (s.setAttempt a att).ask a arg us = (s.ask a arg us).setAttempt a att := by
  induction us generalizing s with
  | nil => rfl
  | cons u us ih =>
    rw [ask_cons, ask_cons, ← ih]
    rfl

/-- Asking changes nothing but the calls. -/
theorem ask_eq (s : Cohort) (a : AttemptRef) (arg : ViewChangeArg) (us : List Mid) :
    ∃ o k S, s.ask a arg us = { s with out := o, nextCall := k, calls := S } := by
  induction us generalizing s with
  | nil => exact ⟨_, _, _, rfl⟩
  | cons u us ih =>
    obtain ⟨o, k, S, h⟩ := ih (s.call u (.viewChange arg) (some (.viewChangePrepareCb a u)))
    exact ⟨o, k, S, h⟩

@[simp] theorem attempts_ask : (s.ask a arg us).attempts = s.attempts := by
  obtain ⟨o, k, S, h⟩ := ask_eq s a arg us
  rw [h]

theorem Numbered.call (hs : s.Numbered) {dest : Mid} {c : Call} {cb : Continuation} :
    (s.call dest c (some cb)).Numbered where
  calls n cb' h := by
    by_cases hn : n = s.nextCall
    · exact hn ▸ Nat.lt_succ_self _
    · exact Nat.lt_succ_of_lt (hs.calls n cb'
        (by rwa [Cohort.call, AList.lookup_insert_ne hn] at h))
  out n dest' c' h := by
    obtain h | h := List.mem_cons.mp h
    · obtain ⟨rfl, -, -⟩ := Output.call.inj h
      exact Nat.lt_succ_self _
    · exact Nat.lt_succ_of_lt (hs.out n dest' c' h)

/-- The calls after asking `us` are those before and one to each of `us`. -/
theorem ask_calls {s : Cohort} (hs : s.Numbered) {d : Mid} {c : Call} {cb : Continuation} :
    (Output.call n d c ∈ (s.ask a arg us).out ∧ (s.ask a arg us).calls.lookup n = some cb) ↔
      (Output.call n d c ∈ s.out ∧ s.calls.lookup n = some cb) ∨
        (∃ i, us[i]? = some d ∧ n = s.nextCall + i ∧ c = .viewChange arg ∧
          cb = .viewChangePrepareCb a d) := by
  induction us generalizing s with
  | nil => simp [ask]
  | cons u us ih =>
    rw [ask_cons, ih hs.call]
    have hone : (Output.call n d c ∈
        (s.call u (.viewChange arg) (some (.viewChangePrepareCb a u))).out ∧
        (s.call u (.viewChange arg) (some (.viewChangePrepareCb a u))).calls.lookup n = some cb) ↔
        (Output.call n d c ∈ s.out ∧ s.calls.lookup n = some cb) ∨
          (n = s.nextCall ∧ d = u ∧ c = .viewChange arg ∧ cb = .viewChangePrepareCb a u) := by
      by_cases hn : n = s.nextCall
      · have hold : Output.call n d c ∉ s.out := fun h => absurd (hs.out n d c h) (by omega)
        subst hn
        simp [call, hold, eq_comm, and_assoc]
      · simp [call, hn, AList.lookup_insert_ne hn]
    rw [hone, or_assoc]
    refine or_congr_right ⟨?_, ?_⟩
    · rintro (⟨rfl, rfl, rfl, rfl⟩ | ⟨i, hi, rfl, rfl, rfl⟩)
      · exact ⟨0, by simp, rfl, rfl, rfl⟩
      · exact ⟨i + 1, by simpa using hi, by simp only [call]; omega, rfl, rfl⟩
    · rintro ⟨_ | i, hi, rfl, rfl, rfl⟩
      · exact Or.inl ⟨rfl, (Option.some.inj (by simpa using hi)).symm, rfl,
          by simp_all⟩
      · exact Or.inr ⟨i, by simpa using hi, by simp only [call]; omega, rfl, rfl⟩

/-! ## Both at once -/

/-- The loop of `view_change_initiate` asks the servers that are up, and lets the others time out.
-/
theorem viewChangeAskAll_eq (hnone : (s.attempts a).prepareAccepted = []) :
    s.viewChangeAskAll a joiners arg ul =
      some ((s.ask a arg (ul.filter fun u => ¬s.Down joiners u)).setAttempt a
        ((ul.filter fun u => s.Down joiners u).foldl ViewChangeAttempt.expire (s.attempts a))) := by
  unfold viewChangeAskAll
  induction ul generalizing s with
  | nil => simp [ask, setAttempt_self]
  | cons u ul ih =>
    rw [List.foldlM_cons]
    by_cases hdown : s.Down joiners u
    · have hu : ¬(u ∈ joiners ∨ u ∈ s.activeServers) := not_or.mpr hdown
      rw [if_neg hu, viewChangePrepareCb_expire hnone, Option.bind_eq_bind, Option.bind_some,
        ih (by simpa using hnone), attempts_setAttempt, ask_setAttempt, setAttempt_setAttempt,
        List.filter_cons_of_pos (by simpa using hdown),
        List.filter_cons_of_neg (by simpa using hdown)]
      rfl
    · have hu : u ∈ joiners ∨ u ∈ s.activeServers := by
        simpa [Down, imp_iff_not_or] using hdown
      rw [if_pos hu, Option.bind_eq_bind, Option.bind_some, ih (by simpa [call] using hnone),
        List.filter_cons_of_neg (by simpa using hdown),
        List.filter_cons_of_pos (by simpa using hdown)]
      rfl

/-- Calls time out one after the other; `dest n` is whom the call `n` goes to. -/
theorem foldlM_completed {ns : List ℕ} {dest : ℕ → Mid}
    (hcalls : ∀ n ∈ ns, s.calls.lookup n = some (.viewChangePrepareCb a (dest n)))
    (hnodup : ns.Nodup) (hnone : (s.attempts a).prepareAccepted = []) :
    ns.foldlM (fun c n => Group.completed n none c) s =
      some ({ s with calls := ns.foldl (fun S n => S.erase n) s.calls }.setAttempt a
        ((ns.map dest).foldl ViewChangeAttempt.expire (s.attempts a))) := by
  induction ns generalizing s with
  | nil =>
    rw [List.foldlM_nil, List.map_nil, List.foldl_nil]
    exact congrArg some setAttempt_self.symm
  | cons n ns ih =>
    obtain ⟨hmem, hnodup⟩ := List.nodup_cons.mp hnodup
    have hone : Group.completed n none s = some ({ s with calls := s.calls.erase n }.setAttempt a
        ((s.attempts a).expire (dest n))) := by
      unfold Group.completed
      rw [hcalls n List.mem_cons_self, Option.bind_eq_bind, Option.bind_some]
      exact viewChangePrepareCb_expire (s := { s with calls := s.calls.erase n }) hnone
    rw [List.foldlM_cons, hone, Option.bind_eq_bind, Option.bind_some, ih]
    · simp only [attempts_setAttempt, List.foldl_cons, List.map_cons]
      simp [setAttempt]
    · intro n' hn'
      have hne : n' ≠ n := fun heq => hmem (heq ▸ hn')
      rw [setAttempt, AList.lookup_erase_ne hne]
      exact hcalls n' (List.mem_cons_of_mem _ hn')
    · exact hnodup
    · simpa using hnone

/-! ## The calls that are lost -/

section Lost

variable {base : Cohort} {ns : List ℕ} {down : Mid → Prop} [DecidablePred down]

/-- Whom the calls that `ask` makes go to. -/
def dest (base : Cohort) (ul : List Mid) (n : ℕ) : Mid := (ul[n - base.nextCall]?).getD 0

theorem dest_add {i : ℕ} (hi : ul[i]? = some u) : dest base ul (base.nextCall + i) = u := by
  simp only [dest, Nat.add_sub_cancel_left, hi, Option.getD_some]

/-- The calls to the servers that are down, in whatever order they time out. -/
theorem perm_dest (hul : ul.Nodup) (hnodup : ns.Nodup)
    (hns : ∀ n, n ∈ ns ↔ ∃ i u, ul[i]? = some u ∧ n = base.nextCall + i ∧ down u) :
    (ul.filter fun u => down u).Perm (ns.map (dest base ul)) := by
  refine (List.perm_ext_iff_of_nodup (hul.filter _) ?_).mpr fun u => ?_
  · refine hnodup.map_on fun n hn n' hn' heq => ?_
    obtain ⟨i, u, hi, rfl, -⟩ := (hns n).mp hn
    obtain ⟨i', u', hi', rfl, -⟩ := (hns n').mp hn'
    rw [dest_add hi, dest_add hi'] at heq
    rw [(List.getElem?_inj (List.getElem?_eq_some_iff.mp hi).1 hul).mp (hi.trans (heq ▸ hi').symm)]
  · simp only [List.mem_filter, List.mem_map, decide_eq_true_eq]
    constructor
    · rintro ⟨hu, hdown⟩
      obtain ⟨i, hi⟩ := List.mem_iff_getElem?.mp hu
      exact ⟨base.nextCall + i, (hns _).mpr ⟨i, u, hi, rfl, hdown⟩, dest_add hi⟩
    · rintro ⟨n, hn, rfl⟩
      obtain ⟨i, u, hi, rfl, hdown⟩ := (hns n).mp hn
      rw [dest_add hi]
      exact ⟨List.mem_of_getElem? hi, hdown⟩

/-- The calls to the servers that are up wait for an answer, and those that are not lost. -/
theorem outstanding_ask (hbase : base.Numbered)
    (hns : ∀ n, n ∈ ns ↔ ∃ i u, ul[i]? = some u ∧ n = base.nextCall + i ∧ down u) :
    (base.ask a arg (ul.filter fun u => ¬down u)).outstanding =
      { base.ask a arg ul with
        calls := ns.foldl (fun S n => S.erase n) (base.ask a arg ul).calls }.outstanding := by
  ext ⟨d, c, cb⟩
  change (∃ n, _) ↔
    ∃ n, _ ∧ (ns.foldl (fun S n => S.erase n) (base.ask a arg ul).calls).lookup n = _
  simp only [Keyed.lookup_foldl_erase]
  constructor
  · rintro ⟨n, hn⟩
    obtain ⟨hout, hcb⟩ | ⟨i, hi, rfl, rfl, rfl⟩ := (ask_calls hbase).mp hn
    · obtain ⟨hout', hcb'⟩ := (ask_calls (a := a) hbase).mpr (Or.inl ⟨hout, hcb⟩)
      refine ⟨n, hout', hcb', fun hn => ?_⟩
      obtain ⟨i, u, -, rfl, -⟩ := (hns n).mp hn
      exact absurd (hbase.out _ _ _ hout) (by omega)
    · have hd := List.mem_filter.mp (List.mem_of_getElem? hi)
      obtain ⟨j, hj⟩ := List.mem_iff_getElem?.mp hd.1
      obtain ⟨hout, hcb⟩ := (ask_calls hbase).mpr (Or.inr ⟨j, hj, rfl, rfl, rfl⟩)
      refine ⟨base.nextCall + j, hout, hcb, fun hn => ?_⟩
      obtain ⟨i', u, hi', heq, hdown⟩ := (hns _).mp hn
      obtain rfl : j = i' := by omega
      obtain rfl : d = u := Option.some.inj (hj.symm.trans hi')
      exact absurd hdown (by simpa using hd.2)
  · rintro ⟨n, hout, hcb, hn⟩
    obtain hold | ⟨j, hj, rfl, rfl, rfl⟩ := (ask_calls hbase).mp ⟨hout, hcb⟩
    · exact ⟨n, (ask_calls hbase).mpr (Or.inl hold)⟩
    · have hup : ¬down d := fun hdown => hn ((hns _).mpr ⟨j, d, hj, rfl, hdown⟩)
      have hmem : d ∈ ul.filter fun u => ¬down u :=
        List.mem_filter.mpr ⟨List.mem_of_getElem? hj, by simpa using hup⟩
      obtain ⟨i, hi⟩ := List.mem_iff_getElem?.mp hmem
      exact ⟨base.nextCall + i, (ask_calls hbase).mpr (Or.inr ⟨i, hi, rfl, rfl, rfl⟩)⟩

end Lost

/-- A call to a server that is down, of those `view_change_initiate` of the vanilla cohort makes. -/
def Lost (s : Cohort) (joiners : List Mid) (n : ℕ) : Prop :=
  ∃ u arg cb, Output.call n u (.viewChange arg) ∈ (s.vanillaInitiate joiners).out ∧
    (s.vanillaInitiate joiners).calls.lookup n = some cb ∧ s.nextCall ≤ n ∧ s.Down joiners u

/-- **Not to ask the servers that are down is to ask them and to let the calls time out.**  The two
cohorts differ in nothing but the numbers of their calls and the calls that have been sent. -/
theorem viewChangeInitiate_refines (s : Cohort) (joiners : List Mid) (hs : s.Numbered) (ns : List ℕ)
    (hnodup : ns.Nodup) (hns : ∀ n, n ∈ ns ↔ s.Lost joiners n) :
    ∃ l w, s.viewChangeInitiate joiners = some l ∧
      ns.foldlM (fun c n => Group.completed n none c) (s.vanillaInitiate joiners) = some w ∧
      { w with out := l.out, nextCall := l.nextCall, calls := l.calls } = l ∧
      l.outstanding = w.outstanding := by
  by_cases hearly : s.attempting ∨ s.isViewMember s.self = false
  · have hsame : s.vanillaInitiate joiners = s := if_pos hearly
    have hnil : ns = [] := List.eq_nil_iff_forall_not_mem.mpr fun n hn => by
      obtain ⟨u, arg, cb, hout, -, hle, -⟩ := (hns n).mp hn
      rw [hsame] at hout
      exact absurd (hs.out n _ _ hout) (not_lt.mpr hle)
    rw [hsame, hnil]
    exact ⟨s, s, if_pos hearly, rfl, rfl, rfl⟩
  · let a := s.nextAttempt
    let att := s.newAttempt joiners
    let arg : ViewChangeArg := ⟨s.view, att.proposedVid⟩
    let base : Cohort := { s.setAttempt a att with
      nextAttempt := a + 1, vcattempt := some a, mode := .viewchange }
    have hbase : base.Numbered := ⟨hs.calls, hs.out⟩
    have hatt : base.attempts a = att := attempts_setAttempt
    have hv : s.vanillaInitiate joiners = base.ask a arg att.underlings := if_neg hearly
    have hul : OrdSet.Sorted att.underlings := s.view.sorted_mids.foldl_insert
    have hne : att.underlings ≠ [] := List.ne_nil_of_mem
      (OrdSet.mem_foldl_insert.mpr (Or.inr (View.mem_mids.mpr (Or.inl rfl))))
    have hlost : ∀ n, n ∈ ns ↔ ∃ i u, att.underlings[i]? = some u ∧ n = base.nextCall + i ∧
        s.Down joiners u := fun n => by
      rw [hns, Lost, hv]
      constructor
      · rintro ⟨u, arg, cb, hout, hcb, hle, hdown⟩
        obtain ⟨hout, -⟩ | ⟨i, hi, hn, -, -⟩ := (ask_calls hbase).mp ⟨hout, hcb⟩
        · exact absurd (hs.out n _ _ hout) (not_lt.mpr hle)
        · exact ⟨i, u, hi, hn, hdown⟩
      · rintro ⟨i, u, hi, rfl, hdown⟩
        obtain ⟨hout, hcb⟩ := (ask_calls hbase).mpr (Or.inr ⟨i, hi, rfl, rfl, rfl⟩)
        exact ⟨u, _, _, hout, hcb, Nat.le_add_right _ _, hdown⟩
    have hcalls : ∀ n ∈ ns, (base.ask a arg att.underlings).calls.lookup n =
        some (.viewChangePrepareCb a (dest base att.underlings n)) := fun n hn => by
      obtain ⟨i, u, hi, rfl, -⟩ := (hlost n).mp hn
      rw [dest_add hi]
      exact ((ask_calls hbase).mpr (Or.inr ⟨i, hi, rfl, rfl, rfl⟩)).2
    have hend := foldl_expire_perm (rfl : att.aborted = false) rfl hne
      (perm_dest hul.nodup hnodup hlost)
      (hul.nodup.filter _) (List.filter_subset_self _)
    have hl : s.viewChangeInitiate joiners = _ := (if_neg hearly).trans (viewChangeAskAll_eq
      (s := base) (congrArg ViewChangeAttempt.prepareAccepted hatt))
    have hw := foldlM_completed hcalls hnodup (by rw [attempts_ask, hatt]; rfl)
    rw [attempts_ask, hatt, ← hend] at hw
    rw [hv]
    refine ⟨_, _, hl, hw, ?_, outstanding_ask hbase hlost⟩
    obtain ⟨o, k, S, hup⟩ := ask_eq base a arg (att.underlings.filter fun u => ¬base.Down joiners u)
    obtain ⟨o', k', S', hall⟩ := ask_eq base a arg att.underlings
    rw [hup, hall, hatt]
    rfl

/-- The first cohort of a group when Falcon has reported it, and a joiner. -/
theorem viewChangeInitiate_refines_founder :
    ∃ l w, { founder 1 with activeServers := [] }.viewChangeInitiate [2] = some l ∧
      [0].foldlM (fun c n => Group.completed n none c)
        ({ founder 1 with activeServers := [] }.vanillaInitiate [2]) = some w ∧
      { w with out := l.out, nextCall := l.nextCall, calls := l.calls } = l ∧
      l.outstanding = w.outstanding := by
  have hout : ({ founder 1 with activeServers := [] }.vanillaInitiate [2]).out =
      [.call 1 2 (.viewChange ⟨⟨⟨1, 1⟩, 1, []⟩, ⟨2, 1⟩⟩),
        .call 0 1 (.viewChange ⟨⟨⟨1, 1⟩, 1, []⟩, ⟨2, 1⟩⟩)] := by decide
  refine viewChangeInitiate_refines { founder 1 with activeServers := [] } [2] ⟨nofun, nofun⟩ [0]
    (List.nodup_singleton 0) fun n => ?_
  rw [List.mem_singleton, Lost, hout]
  constructor
  · rintro rfl
    exact ⟨1, ⟨⟨⟨1, 1⟩, 1, []⟩, ⟨2, 1⟩⟩, .viewChangePrepareCb 0 1, by decide, by decide,
      Nat.le_refl _, by decide⟩
  · rintro ⟨u, arg, cb, hmem, -, -, hdown⟩
    obtain h | h := List.mem_cons.mp hmem
    · obtain ⟨-, rfl, -⟩ := Output.call.inj h
      exact absurd List.mem_cons_self hdown.1
    · exact (Output.call.inj (List.mem_singleton.mp h)).1

end Cohort

end Falcon
