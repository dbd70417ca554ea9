import Falcon.Replication.Moves
import Falcon.Machinery.Run

/-!
# Replication/Attempts — the attempts of a view change manager

What holds of the attempts of a cohort in every run (`Managed`): a call of `REP_VIEW_CHANGE` that
waits for an answer is to an underling that is not done, there is one for each, and an attempt
proposes a view when all are done, so it proposes one view at most.
-/

namespace Falcon

/-- The underlings of an attempt, and who of them is done. -/
structure ViewChangeAttempt.Sane (att : ViewChangeAttempt) : Prop where
  underlings : OrdSet.Sorted att.underlings
  prepareDone : OrdSet.Sorted att.prepareDone
  subset : att.prepareDone ⊆ att.underlings
  /-- An attempt that goes on has somebody to ask. -/
  nonempty : att.aborted = false → att.underlings ≠ []
  /-- A view is proposed when all are done. -/
  proposed : ∀ nv, att.nvarg = some nv →
    att.prepareDone.length = att.underlings.length ∧ nv.view.vid = att.proposedVid

namespace Cohort

variable {i : Input} {s s' : Cohort} {n : ℕ} {a : AttemptRef} {u : Mid} {joiners : List Mid}

/-- The attempts of a cohort, and the calls that belong to them. -/
structure Managed (s : Cohort) : Prop where
  numbered : ∀ n cb, s.calls.lookup n = some cb → n < s.nextCall
  sane : ∀ a, (s.attempts a).Sane
  /-- An attempt that has not started. -/
  unused : ∀ a, s.nextAttempt ≤ a → (s.attempts a).aborted = true ∧ (s.attempts a).nvarg = none
  /-- A call that waits for an answer is to an underling that is not done. -/
  pending : ∀ n a u, s.calls.lookup n = some (.viewChangePrepareCb a u) →
    a < s.nextAttempt ∧ u ∈ (s.attempts a).underlings ∧ u ∉ (s.attempts a).prepareDone
  once : ∀ n n' a u, s.calls.lookup n = some (.viewChangePrepareCb a u) →
    s.calls.lookup n' = some (.viewChangePrepareCb a u) → n = n'
  current : ∀ a, (s.attempts a).aborted = false → s.vcattempt = some a

/-- The callback that runs is the only one of its call. -/
def Settled (i : Input) (s : Cohort) : Prop :=
  ∀ n a u resp, i = .callback n (.viewChangePrepareCb a u) resp →
    a < s.nextAttempt ∧ u ∈ (s.attempts a).underlings ∧
      ∀ n', s.calls.lookup n' = some (.viewChangePrepareCb a u) → n' = n

/-- A set that has as many members as one it is part of. -/
theorem mem_of_length_eq {α : Type} [LinearOrder α] {A B : OrdSet α} {x : α}
    (hA : OrdSet.Sorted A) (hsub : A ⊆ B) (hlen : A.length = B.length) (hx : x ∈ B) : x ∈ A :=
  ((List.subperm_of_subset hA.nodup hsub).perm_of_length_le hlen.ge).mem_iff.mpr hx

/-- **An attempt whose calls are not over has proposed no view.** -/
theorem Managed.steady (h : s.Managed) : s.Steady where
  undecided n a u hcb := by
    obtain ⟨-, hu, hdone⟩ := h.pending n a u hcb
    by_contra hsome
    obtain ⟨nv, hnv⟩ := Option.ne_none_iff_exists'.mp hsome
    exact hdone (mem_of_length_eq (h.sane a).prepareDone (h.sane a).subset
      ((h.sane a).proposed nv hnv).1 hu)
  current := h.current

/-! ## Moves that leave the attempts as they are -/

/-- What an attempt has heard and chosen stays so. -/
structure Retains (att att' : ViewChangeAttempt) : Prop where
  vcaccepts : att'.vcaccepts = att.vcaccepts
  newview : att'.newview = att.newview
  nvarg : att'.nvarg = att.nvarg
  proposedVid : att'.proposedVid = att.proposedVid

/-- What a move may change in an attempt without it being noticed. -/
structure Keeps (att att' : ViewChangeAttempt) : Prop extends Retains att att' where
  underlings : att'.underlings = att.underlings
  prepareDone : att'.prepareDone = att.prepareDone
  aborted : att.aborted = true → att'.aborted = true

theorem Keeps.sane {att att' : ViewChangeAttempt} (h : Keeps att att') (hatt : att.Sane) :
    att'.Sane where
  underlings := h.underlings ▸ hatt.underlings
  prepareDone := h.prepareDone ▸ hatt.prepareDone
  subset := by
    rw [h.prepareDone, h.underlings]
    exact hatt.subset
  nonempty hopen := by
    rw [h.underlings]
    refine hatt.nonempty (Bool.eq_false_iff.mpr fun habort => ?_)
    exact absurd (h.aborted habort) (Bool.eq_false_iff.mp hopen)
  proposed nv hnv := by
    rw [h.prepareDone, h.underlings, h.proposedVid]
    exact hatt.proposed nv (h.nvarg.symm.trans hnv)

theorem Keeps.refl (att : ViewChangeAttempt) : Keeps att att :=
  ⟨⟨rfl, rfl, rfl, rfl⟩, rfl, rfl, id⟩

/-- The other attempts stay. -/
theorem keeps_update {A : AttemptRef → ViewChangeAttempt} {att : ViewChangeAttempt}
    (h : Keeps (A a) att) (b : AttemptRef) : Keeps (A b) (Function.update A a att b) := by
  by_cases hb : b = a
  · subst hb
    rwa [Function.update_self]
  · rw [Function.update_of_ne hb]
    exact .refl _

theorem keeps_abort (a b : AttemptRef) : Keeps (s.attempts b) ((s.abort a).attempts b) := by
  have h : Keeps (s.attempts a) { s.attempts a with aborted := true } :=
    ⟨⟨rfl, rfl, rfl, rfl⟩, rfl, rfl, fun _ => rfl⟩
  exact keeps_update h b

theorem keeps_yieldTo (vid : ViewId) (b : AttemptRef) :
    Keeps (s.attempts b) ((s.yieldTo vid).attempts b) := by
  unfold yieldTo
  split
  · split_ifs
    · exact keeps_abort _ b
    · exact .refl _
  · exact .refl _

theorem keeps_enter (f : ViewForm) (b : AttemptRef) :
    Keeps (s.attempts b) ((s.enter f).attempts b) := by
  cases hcurrent : s.vcattempt with
  | none =>
    simp only [enter, hcurrent]
    exact .refl _
  | some a =>
    simp only [enter, hcurrent]
    exact keeps_abort a b

/-- New calls that are not of a view change. -/
def Adds (s s' : Cohort) : Prop :=
  s.nextCall ≤ s'.nextCall ∧ ∀ n cb, s'.calls.lookup n = some cb →
    s.calls.lookup n = some cb ∨ n < s'.nextCall ∧ ∀ a u, cb ≠ .viewChangePrepareCb a u

theorem Managed.frame (h : s.Managed) (hi : Settled i s) (hcalls : Adds s s')
    (hatt : ∀ a, Keeps (s.attempts a) (s'.attempts a)) (hnext : s'.nextAttempt = s.nextAttempt)
    (hcurrent : s'.vcattempt = s.vcattempt) : s'.Managed ∧ Settled i s' := by
  have hold : ∀ {n a u}, s'.calls.lookup n = some (.viewChangePrepareCb a u) →
      s.calls.lookup n = some (.viewChangePrepareCb a u) := fun hcb =>
    (hcalls.2 _ _ hcb).elim id fun hnew => absurd rfl (hnew.2 _ _)
  constructor
  · constructor
    · intro n cb hcb
      obtain hcb | hnew := hcalls.2 n cb hcb
      · exact lt_of_lt_of_le (h.numbered n cb hcb) hcalls.1
      · exact hnew.1
    · exact fun a => (hatt a).sane (h.sane a)
    · intro a ha
      obtain ⟨habort, hnone⟩ := h.unused a (hnext ▸ ha)
      exact ⟨(hatt a).aborted habort, (hatt a).nvarg.trans hnone⟩
    · intro n a u hcb
      rw [hnext, (hatt a).underlings, (hatt a).prepareDone]
      exact h.pending n a u (hold hcb)
    · exact fun n n' a u hcb hcb' => h.once n n' a u (hold hcb) (hold hcb')
    · intro a ha
      rw [hcurrent]
      refine h.current a (Bool.eq_false_iff.mpr fun htrue => ?_)
      exact absurd ((hatt a).aborted htrue) (Bool.eq_false_iff.mp ha)
  · intro n a u resp hin
    obtain ⟨hlt, hu, honly⟩ := hi n a u resp hin
    rw [hnext, (hatt a).underlings]
    exact ⟨hlt, hu, fun n' hcb => honly n' (hold hcb)⟩

/-- A move that makes no calls. -/
theorem Managed.still (h : s.Managed) (hi : Settled i s)
    (hatt : ∀ a, Keeps (s.attempts a) (s'.attempts a)) (hcalls : s'.calls = s.calls)
    (hn : s'.nextCall = s.nextCall) (hnext : s'.nextAttempt = s.nextAttempt)
    (hcurrent : s'.vcattempt = s.vcattempt) : s'.Managed ∧ Settled i s' :=
  h.frame hi ⟨hn.ge, fun _ _ hcb => Or.inl (hcalls ▸ hcb)⟩ hatt hnext hcurrent

/-- The rest of the state does not matter. -/
theorem Managed.congr (h : s.Managed) (hatt : s'.attempts = s.attempts)
    (hcalls : s'.calls = s.calls) (hn : s'.nextCall = s.nextCall)
    (hnext : s'.nextAttempt = s.nextAttempt) (hcurrent : s'.vcattempt = s.vcattempt) :
    s'.Managed :=
  (h.still (i := .viewIsDown) nofun (fun _ => hatt ▸ .refl _) hcalls hn hnext hcurrent).1

theorem Asks.adds {p : PullRef} (h : Asks p s s') : Adds s s' := by
  refine ⟨h.nextCall, fun n cb hcb => ?_⟩
  obtain hcb | ⟨d, vs, rfl, -, -, hlt⟩ := h.calls n cb hcb
  · exact Or.inl hcb
  · exact Or.inr ⟨hlt, nofun⟩

/-- The callbacks of another kind are those of before. -/
theorem Sends.lookup {c : Mid → Call} {cb : Mid → Continuation} {us : List Mid} {o : List Output}
    {S : Keyed ℕ Continuation} {k : Continuation} (h : s.Sends c cb us o S) (hcb : ∀ d, cb d ≠ k)
    (hk : S.lookup n = some k) : s.calls.lookup n = some k :=
  (h.calls n k hk).resolve_right fun ⟨_, d, _, _, heq⟩ => hcb d heq.symm

theorem Sends.adds {c : Mid → Call} {cb : Mid → Continuation} {us : List Mid} {o : List Output}
    {S : Keyed ℕ Continuation} (h : s.Sends c cb us o S)
    (hcb : ∀ d a u, cb d ≠ .viewChangePrepareCb a u) (hcalls : s'.calls = S)
    (hn : s'.nextCall = s.nextCall + us.length) : Adds s s' := by
  refine ⟨by omega, fun n k hk => ?_⟩
  obtain hk | ⟨j, d, hj, rfl, rfl⟩ := h.calls n k (hcalls ▸ hk)
  · exact Or.inl hk
  · have hlt := (List.getElem?_eq_some_iff.mp hj).1
    exact Or.inr ⟨by omega, hcb d⟩

/-! ## Moves of an attempt -/

/-- One attempt changes, and calls of it are made. -/
theorem Managed.change (h : s.Managed) {att : ViewChangeAttempt}
    (hatt : s'.attempts = Function.update s.attempts a att) (hsane : att.Sane)
    (hnext : s.nextAttempt ≤ s'.nextAttempt) (halloc : a < s'.nextAttempt)
    (hn : s.nextCall ≤ s'.nextCall)
    (hcalls : ∀ n cb, s'.calls.lookup n = some cb → s.calls.lookup n = some cb ∨
      n < s'.nextCall ∧ ∀ b u, cb = .viewChangePrepareCb b u → b = a)
    (hpending : ∀ n u, s'.calls.lookup n = some (.viewChangePrepareCb a u) →
      u ∈ att.underlings ∧ u ∉ att.prepareDone)
    (honce : ∀ n n' u, s'.calls.lookup n = some (.viewChangePrepareCb a u) →
      s'.calls.lookup n' = some (.viewChangePrepareCb a u) → n = n')
    (hcurrent : ∀ b, (s'.attempts b).aborted = false → s'.vcattempt = some b) : s'.Managed := by
  have hother : ∀ {b}, b ≠ a → s'.attempts b = s.attempts b := fun hb => by
    rw [hatt, Function.update_of_ne hb]
  have hself : s'.attempts a = att := by rw [hatt, Function.update_self]
  have hold : ∀ {n b u}, b ≠ a → s'.calls.lookup n = some (.viewChangePrepareCb b u) →
      s.calls.lookup n = some (.viewChangePrepareCb b u) := fun hb hcb =>
    (hcalls _ _ hcb).elim id fun hnew => absurd (hnew.2 _ _ rfl) hb
  constructor
  · intro n cb hcb
    obtain hcb | hnew := hcalls n cb hcb
    · exact lt_of_lt_of_le (h.numbered n cb hcb) hn
    · exact hnew.1
  · intro b
    by_cases hb : b = a
    · rwa [hb, hself]
    · rw [hother hb]
      exact h.sane b
  · intro b hb
    rw [hother (ne_of_gt (lt_of_lt_of_le halloc hb))]
    exact h.unused b (hnext.trans hb)
  · intro n b u hcb
    by_cases hb : b = a
    · subst hb
      rw [hself]
      exact ⟨halloc, hpending n u hcb⟩
    · rw [hother hb]
      obtain ⟨hlt, hrest⟩ := h.pending n b u (hold hb hcb)
      exact ⟨lt_of_lt_of_le hlt hnext, hrest⟩
  · intro n n' b u hcb hcb'
    by_cases hb : b = a
    · subst hb
      exact honce n n' u hcb hcb'
    · exact h.once n n' b u (hold hb hcb) (hold hb hcb')
  · exact hcurrent

/-- An attempt that goes on is the last one. -/
theorem Managed.current_update (h : s.Managed) {att : ViewChangeAttempt}
    (hopen : (s.attempts a).aborted = false) (b : AttemptRef)
    (hb : (Function.update s.attempts a att b).aborted = false) : s.vcattempt = some b := by
  by_cases hba : b = a
  · exact hba ▸ h.current a hopen
  · rw [Function.update_of_ne hba] at hb
    exact h.current b hb

theorem Managed.alloc (h : s.Managed) (hopen : (s.attempts a).aborted = false) :
    a < s.nextAttempt := by
  by_contra hge
  exact absurd (h.unused a (not_lt.mp hge)).1 (Bool.eq_false_iff.mp hopen)

theorem underlings_update {att : ViewChangeAttempt} {b : AttemptRef}
    (hatt : (s.attempts a).underlings ⊆ att.underlings) (hu : u ∈ (s.attempts b).underlings) :
    u ∈ (Function.update s.attempts a att b).underlings := by
  by_cases hb : b = a
  · subst hb
    rw [Function.update_self]
    exact hatt hu
  · rwa [Function.update_of_ne hb]

theorem Managed.prepared (h : s.Managed) (hi : Settled i s) {resp : Option Answer} {v : ViewId}
    {att : ViewChangeAttempt} (hin : i = .callback n (.viewChangePrepareCb a u) resp)
    (hcalled : s.calls.lookup n = none) (hopen : (s.attempts a).aborted = false)
    (hnone : (s.attempts a).nvarg = none) (hatt : Prepared u (s.attempts a) att) :
    { s with proposedVid := v, attempts := Function.update s.attempts a att }.Managed ∧
      Settled i { s with proposedVid := v, attempts := Function.update s.attempts a att } := by
  obtain ⟨hlt, hu, honly⟩ := hi n a u resp hin
  refine ⟨h.change rfl ?_ (le_refl _) hlt (le_refl _) (fun n cb hcb => Or.inl hcb) ?_
    (fun n n' u => h.once n n' a u) (h.current_update hopen), ?_⟩
  · constructor
    · exact hatt.underlings ▸ (h.sane a).underlings
    · rw [hatt.prepareDone]
      exact (h.sane a).prepareDone.insert
    · rw [hatt.prepareDone, hatt.underlings]
      intro x hx
      obtain rfl | hx := OrdSet.mem_insert.mp hx
      · exact hu
      · exact (h.sane a).subset hx
    · rw [hatt.underlings]
      exact fun _ => List.ne_nil_of_mem hu
    · exact fun nv hnv => nomatch (hatt.nvarg.trans hnone).symm.trans hnv
  · intro n' u' hcb
    obtain ⟨-, hu', hdone⟩ := h.pending n' a u' hcb
    rw [hatt.underlings, hatt.prepareDone, OrdSet.mem_insert, not_or]
    refine ⟨hu', ?_, hdone⟩
    -- the call that is over was the only one to `u`
    rintro rfl
    rw [honly n' hcb] at hcb
    exact nomatch hcalled.symm.trans hcb
  · intro n' b u' resp' hin'
    obtain ⟨hb, hu', honly'⟩ := hi n' b u' resp' hin'
    exact ⟨hb, underlings_update (hatt.underlings ▸ List.Subset.refl _) hu', honly'⟩

theorem Managed.ask (h : s.Managed) (hi : Settled i s) {c : Call}
    (hnew : u ∉ (s.attempts a).underlings) (hopen : (s.attempts a).aborted = false)
    (hnone : (s.attempts a).nvarg = none) :
    ((s.setAttempt a
        { s.attempts a with underlings := (s.attempts a).underlings.insert u }).call u c
        (some (.viewChangePrepareCb a u))).Managed ∧
      Settled i ((s.setAttempt a { s.attempts a with
        underlings := (s.attempts a).underlings.insert u }).call u c
        (some (.viewChangePrepareCb a u))) := by
  have hcalls : ∀ n cb, (s.calls.insert s.nextCall (.viewChangePrepareCb a u)).lookup n = some cb →
      s.calls.lookup n = some cb ∨ n = s.nextCall ∧ cb = .viewChangePrepareCb a u := by
    intro n cb hcb
    by_cases hn : n = s.nextCall
    · subst hn
      rw [AList.lookup_insert] at hcb
      exact Or.inr ⟨rfl, (Option.some.inj hcb).symm⟩
    · rw [AList.lookup_insert_ne hn] at hcb
      exact Or.inl hcb
  -- `u` was no underling, so it has not been asked
  have hfresh : ∀ n, s.calls.lookup n ≠ some (.viewChangePrepareCb a u) := fun n hcb =>
    hnew (h.pending n a u hcb).2.1
  have hsub : (s.attempts a).underlings ⊆ (s.attempts a).underlings.insert u := fun x hx =>
    OrdSet.mem_insert.mpr (Or.inr hx)
  refine ⟨h.change rfl ?_ (le_refl _) (h.alloc hopen) (Nat.le_succ _) ?_ ?_ ?_
    (h.current_update hopen), ?_⟩
  · exact ⟨(h.sane a).underlings.insert, (h.sane a).prepareDone,
      List.Subset.trans (h.sane a).subset hsub,
      fun _ => List.ne_nil_of_mem (OrdSet.mem_insert.mpr (Or.inl rfl)), fun nv hnv =>
        nomatch hnone.symm.trans hnv⟩
  · intro n cb hcb
    obtain hcb | ⟨rfl, rfl⟩ := hcalls n cb hcb
    · exact Or.inl hcb
    · exact Or.inr ⟨Nat.lt_succ_self _, fun b u' heq =>
        (Continuation.viewChangePrepareCb.inj heq).1.symm⟩
  · intro n u' hcb
    obtain hcb | ⟨-, heq⟩ := hcalls n _ hcb
    · obtain ⟨-, hu', hdone⟩ := h.pending n a u' hcb
      exact ⟨hsub hu', hdone⟩
    · obtain ⟨-, rfl⟩ := Continuation.viewChangePrepareCb.inj heq
      exact ⟨OrdSet.mem_insert.mpr (Or.inl rfl), fun hmem => hnew ((h.sane a).subset hmem)⟩
  · intro n n' u' hcb hcb'
    obtain hold | ⟨rfl, heq⟩ := hcalls n _ hcb
    · obtain hold' | ⟨rfl, heq⟩ := hcalls n' _ hcb'
      · exact h.once n n' a u' hold hold'
      · obtain ⟨-, rfl⟩ := Continuation.viewChangePrepareCb.inj heq
        exact absurd hold (hfresh n)
    · obtain ⟨-, rfl⟩ := Continuation.viewChangePrepareCb.inj heq
      obtain hold' | ⟨rfl, -⟩ := hcalls n' _ hcb'
      · exact absurd hold' (hfresh n')
      · rfl
  · intro n' b u' resp' hin'
    obtain ⟨hb, hu', honly⟩ := hi n' b u' resp' hin'
    refine ⟨hb, underlings_update hsub hu', fun n hcb => ?_⟩
    obtain hcb | ⟨-, heq⟩ := hcalls n _ hcb
    · exact honly n hcb
    · obtain ⟨rfl, rfl⟩ := Continuation.viewChangePrepareCb.inj heq
      exact absurd hu' hnew

theorem vid_viewChangeChooseView {att : ViewChangeAttempt} {nv : NewViewArg}
    (h : viewChangeChooseView att = some nv) : nv.view.vid = att.proposedVid := by
  unfold viewChangeChooseView at h
  split at h
  · obtain ⟨⟨latest, c⟩, -, h⟩ := Option.bind_eq_some_iff.mp h
    obtain ⟨c, -, h⟩ := Option.bind_eq_some_iff.mp h
    split_ifs at h
    · exact Option.some.inj h ▸ rfl
    · exact Option.some.inj h ▸ rfl
  · obtain ⟨c, -, h⟩ := Option.bind_eq_some_iff.mp h
    exact Option.some.inj h ▸ rfl

theorem Managed.propose (h : s.Managed) (hi : Settled i s) {nv : NewViewArg}
    {o : List Output} {S : Keyed ℕ Continuation} (hopen : (s.attempts a).aborted = false)
    (hdone : (s.attempts a).prepareDone.length = (s.attempts a).underlings.length)
    (hnv : viewChangeChooseView (s.attempts a) = some nv)
    (hsends : s.Sends (fun _ => .newView nv) (.viewChangeNewviewCb a) (s.attempts a).underlings
      o S) :
    { s.setAttempt a { s.attempts a with nvarg := some nv } with
        out := o, nextCall := s.nextCall + (s.attempts a).underlings.length, calls := S }.Managed ∧
      Settled i { s.setAttempt a { s.attempts a with nvarg := some nv } with
        out := o, nextCall := s.nextCall + (s.attempts a).underlings.length, calls := S } := by
  have hadds : Adds s { s with
      nextCall := s.nextCall + (s.attempts a).underlings.length, calls := S } :=
    hsends.adds nofun rfl rfl
  have hold : ∀ {n b u}, S.lookup n = some (.viewChangePrepareCb b u) →
      s.calls.lookup n = some (.viewChangePrepareCb b u) := fun hcb =>
    (hadds.2 _ _ hcb).elim id fun hnew => absurd rfl (hnew.2 _ _)
  refine ⟨h.change rfl ?_ (le_refl _) (h.alloc hopen) hadds.1 ?_
    (fun n u hcb => (h.pending n a u (hold hcb)).2)
    (fun n n' u hcb hcb' => h.once n n' a u (hold hcb) (hold hcb')) (h.current_update hopen), ?_⟩
  · refine ⟨(h.sane a).underlings, (h.sane a).prepareDone, (h.sane a).subset,
      (h.sane a).nonempty, fun nv' hnv' => ?_⟩
    obtain rfl := Option.some.inj hnv'
    exact ⟨hdone, vid_viewChangeChooseView hnv⟩
  · exact fun n cb hcb => (hadds.2 n cb hcb).imp_right fun hnew =>
      ⟨hnew.1, fun b u heq => absurd heq (hnew.2 b u)⟩
  · intro n' b u' resp' hin'
    obtain ⟨hb, hu', honly⟩ := hi n' b u' resp' hin'
    exact ⟨hb, underlings_update (List.Subset.refl _) hu', fun n hcb => honly n (hold hcb)⟩

/-- **The attempts stay managed in every move.** -/
theorem Managed.move (h : s.Managed) (hi : Settled i s) (hmove : Move i s s') :
    s'.Managed ∧ Settled i s' := by
  cases hmove with
  | called hin hcb =>
    refine h.frame hi ⟨le_refl _, fun n cb hcb => Or.inl (Keyed.lookup_of_lookup_erase hcb)⟩
      (fun a => .refl _) rfl rfl
  | @enter vs rle f hvs hle hrle hts hf => exact h.still hi (keeps_enter f) rfl rfl rfl rfl
  | replicateForm hin hprimary hlog hsends =>
    exact h.frame hi (hsends.adds nofun rfl rfl) (fun a => .refl _) rfl rfl
  | pull hpulls hs' =>
    have hadds := (asks_pullUpto hs').adds
    exact h.frame hi hadds (fun a => .refl _) rfl rfl
  | descend hs' => exact h.frame hi (asks_descend hs').adds (fun a => .refl _) rfl rfl
  | prepared hin hcalled hopen hnone hres hv hatt hs' =>
    exact h.prepared hi hin hcalled hopen hnone hatt
  | abort a => exact h.still hi (keeps_abort a) rfl rfl rfl rfl
  | ask hw hu hnew hopen hcurrent hnone => exact h.ask hi hnew hopen hnone
  | merged vid =>
    exact h.still hi (keeps_update ⟨⟨rfl, rfl, rfl, rfl⟩, rfl, rfl, id⟩) rfl rfl rfl rfl
  | propose hopen hdone hmaj hmaj' hnone hnv hsends =>
    exact h.propose hi hopen hdone hnv hsends
  | newviewed hin haccepted =>
    exact h.still hi (keeps_update ⟨⟨rfl, rfl, rfl, rfl⟩, rfl, rfl, id⟩) rfl rfl rfl rfl
  | initView hopen hnv hmaj hmaj' =>
    exact h.frame hi ⟨Nat.le_succ _, fun n cb hcb => Or.inl hcb⟩ (fun a => .refl _) rfl rfl
  | join dest =>
    exact h.frame hi ⟨Nat.le_succ _, fun n cb hcb => Or.inl hcb⟩ (fun a => .refl _) rfl rfl
  | _ => exact h.still hi (fun a => .refl _) rfl rfl rfl rfl

/-! ## A new attempt -/

theorem sorted_newAttempt (s : Cohort) (joiners : List Mid) :
    OrdSet.Sorted (s.newAttempt joiners).underlings := s.view.sorted_mids.foldl_insert

theorem underlings_newAttempt_ne_nil (s : Cohort) (joiners : List Mid) :
    (s.newAttempt joiners).underlings ≠ [] :=
  List.ne_nil_of_mem (OrdSet.mem_foldl_insert.mpr (Or.inr (View.mem_mids.mpr (Or.inl rfl))))

/-- The servers that are down are done. -/
theorem firstAttempt_eq (s : Cohort) (joiners : List Mid) :
    ∃ b, s.firstAttempt joiners = { s.newAttempt joiners with
      prepareDone := ((s.newAttempt joiners).underlings.filter fun u => s.Down joiners u).foldl
        (fun S u => OrdSet.insert u S) []
      aborted := b } := by
  exact ⟨_, foldl_expire rfl rfl (underlings_newAttempt_ne_nil s joiners) _
    ((sorted_newAttempt s joiners).nodup.filter _)
    (List.filter_subset_self _)⟩

theorem mem_prepareDone_firstAttempt : u ∈ (s.firstAttempt joiners).prepareDone ↔
    u ∈ (s.newAttempt joiners).underlings ∧ s.Down joiners u := by
  obtain ⟨b, heq⟩ := firstAttempt_eq s joiners
  rw [heq, OrdSet.mem_foldl_insert, List.mem_filter, decide_eq_true_eq]
  simp

@[simp] theorem underlings_firstAttempt :
    (s.firstAttempt joiners).underlings = (s.newAttempt joiners).underlings := by
  obtain ⟨b, heq⟩ := firstAttempt_eq s joiners
  rw [heq]

@[simp] theorem proposedVid_firstAttempt :
    (s.firstAttempt joiners).proposedVid = (s.newAttempt joiners).proposedVid := by
  obtain ⟨b, heq⟩ := firstAttempt_eq s joiners
  rw [heq]

@[simp] theorem nvarg_firstAttempt : (s.firstAttempt joiners).nvarg = none := by
  obtain ⟨b, heq⟩ := firstAttempt_eq s joiners
  rw [heq]
  rfl

theorem sane_firstAttempt : (s.firstAttempt joiners).Sane := by
  constructor
  · rw [underlings_firstAttempt]
    exact sorted_newAttempt s joiners
  · obtain ⟨b, heq⟩ := firstAttempt_eq s joiners
    rw [heq]
    exact OrdSet.Sorted.foldl_insert List.Pairwise.nil
  · intro u hu
    rw [underlings_firstAttempt]
    exact (mem_prepareDone_firstAttempt.mp hu).1
  · rw [underlings_firstAttempt]
    exact fun _ => underlings_newAttempt_ne_nil s joiners
  · intro nv hnv
    rw [nvarg_firstAttempt] at hnv
    cases hnv

/-- If no attempt goes on, all have been given up. -/
theorem Managed.aborted (h : s.Managed) (hfree : s.attempting = false) (a : AttemptRef) :
    (s.attempts a).aborted = true := by
  by_contra hopen
  rw [Bool.not_eq_true] at hopen
  simp [attempting, h.current a hopen, hopen] at hfree

theorem Managed.initiate (h : s.Managed) (hs' : s.Initiates joiners s') : s'.Managed := by
  obtain ⟨hfree, -, o, S, hsends, rfl⟩ := hs'
  have hnew : ∀ n u, S.lookup n = some (.viewChangePrepareCb s.nextAttempt u) →
      ∃ j, (s.asked joiners)[j]? = some u ∧ n = s.nextCall + j := by
    intro n u hcb
    obtain hcb | ⟨j, d, hj, hn, heq⟩ := hsends.calls n _ hcb
    · exact absurd (h.pending n _ u hcb).1 (lt_irrefl _)
    · obtain ⟨-, rfl⟩ := Continuation.viewChangePrepareCb.inj heq
      exact ⟨j, hj, hn⟩
  refine h.change rfl sane_firstAttempt (Nat.le_succ _) (Nat.lt_succ_self _) (Nat.le_add_right _ _)
    ?_ ?_ ?_ ?_
  · intro n cb hcb
    obtain hcb | ⟨j, d, hj, rfl, rfl⟩ := hsends.calls n cb hcb
    · exact Or.inl hcb
    · have hlt := (List.getElem?_eq_some_iff.mp hj).1
      exact Or.inr ⟨Nat.add_lt_add_left hlt _, fun b u heq =>
        (Continuation.viewChangePrepareCb.inj heq).1.symm⟩
  · intro n u hcb
    obtain ⟨j, hj, -⟩ := hnew n u hcb
    obtain ⟨hu, hup⟩ := List.mem_filter.mp (List.mem_of_getElem? hj)
    rw [underlings_firstAttempt, mem_prepareDone_firstAttempt]
    exact ⟨hu, fun hdown => absurd hdown.2 (of_decide_eq_true hup)⟩
  · intro n n' u hcb hcb'
    obtain ⟨j, hj, rfl⟩ := hnew n u hcb
    obtain ⟨j', hj', rfl⟩ := hnew n' u hcb'
    have hnodup : (s.asked joiners).Nodup := (sorted_newAttempt s joiners).nodup.filter _
    rw [(List.getElem?_inj (List.getElem?_eq_some_iff.mp hj).1 hnodup).mp (hj.trans hj'.symm)]
  · intro b hb
    by_cases hnext : b = s.nextAttempt
    · exact hnext ▸ rfl
    · have hopen : (s.attempts b).aborted = false := by
        simpa only [Function.update_of_ne hnext] using hb
      exact absurd (h.aborted hfree b) (Bool.eq_false_iff.mp hopen)

end Cohort

namespace Group

open Cohort

variable {s s' : Group} {e : Event} {c c' c₁ : Cohort} {m m' : Mid} {i : Input}

/-! ## Runs of a group -/

/-- What holds of the cohorts of a group between two steps. -/
structure Sound (s : Group) : Prop where
  quiet : ∀ m c, s.cohorts m = some c → c.out = []
  self : ∀ m c, s.cohorts m = some c → c.self = m
  managed : ∀ m c, s.cohorts m = some c → c.Managed

/-- Nothing is left to be sent. -/
theorem Sound.silent (h : s.Sound) (hc : s.cohorts m = some c) {x : Output} : x ∉ c.out := by
  rw [h.quiet m c hc]
  exact List.not_mem_nil

/-- A step is that of a new cohort, or one of a cohort of the group. -/
theorem step_cases (h : s.step e = some s') :
    (∃ mid, e = .boot mid ∧ s.cohorts mid = none ∧
        s' = { s with cohorts := Function.update s.cohorts mid (some (.boot mid)) }) ∨
      ∃ c c', s.cohorts e.actor = some c ∧ s.act e c = some c' ∧ s' = s.update e.actor c' := by
  unfold step at h
  split at h
  · next hnone =>
    split at h
    · next mid => exact Or.inl ⟨mid, rfl, hnone, (Option.some.inj h).symm⟩
    · cases h
  · next c hc =>
    obtain ⟨c', hc', h⟩ := Option.bind_eq_some_iff.mp h
    exact Or.inr ⟨c, c', hc, hc', (Option.some.inj h).symm⟩

theorem managed_boot (mid : Mid) : (Cohort.boot mid).Managed where
  numbered _ _ h := nomatch h
  sane _ := ⟨List.Pairwise.nil, List.Pairwise.nil, List.nil_subset _, nofun, nofun⟩
  unused _ _ := ⟨rfl, rfl⟩
  pending _ _ _ h := nomatch h
  once _ _ _ _ h := nomatch h
  current _ h := nomatch h

theorem managed_founder (mid : Mid) : (Cohort.founder mid).Managed := by
  exact (managed_boot mid).congr rfl rfl rfl rfl rfl

theorem settled_of_brings (hc : c.Managed) (hi : Brings s c e i) : Settled i c := by
  intro n a u resp heq
  have hcb : c.calls.lookup n = some (.viewChangePrepareCb a u) := by
    cases hi with
    | answer h hcb =>
      obtain ⟨rfl, rfl, -⟩ := Input.callback.inj heq
      exact hcb
    | fail hcb =>
      obtain ⟨rfl, rfl, -⟩ := Input.callback.inj heq
      exact hcb
    | _ => cases heq
  obtain ⟨hlt, hu, -⟩ := hc.pending n a u hcb
  exact ⟨hlt, hu, fun n' hcb' => hc.once n' n a u hcb' hcb⟩

/-- An attempt to change the view starts on no callback. -/
theorem managed_begins (hc : c.Managed) (hi : Settled i c) (hc₁ : Begins i c c₁) :
    c₁.Managed ∧ Settled i c₁ := by
  cases hc₁ with
  | stays => exact ⟨hc, hi⟩
  | @initiates A joiners k _ hstart hc₁ =>
    have hc₀ : { c with activeServers := A, timers := k }.Managed := hc.congr rfl rfl rfl rfl rfl
    refine ⟨hc₀.initiate hc₁, fun n a u resp heq => ?_⟩
    subst heq
    cases hstart
  | issues hin hmode hvid hprimary hcache hvs hsends =>
    obtain ⟨L, rfl⟩ := hcache.eq
    exact hc.frame hi (hsends.adds nofun rfl rfl) (fun a => .refl _) rfl rfl
  | forms hin hnew hprimary hJ => exact hc.still hi (fun a => .refl _) rfl rfl rfl rfl
  | logs hin hcheck hlt hnew hJ => exact hc.still hi (fun a => .refl _) rfl rfl rfl rfl
  | adopts hin hcheck hold => exact hc.still hi (fun a => .refl _) rfl rfl rfl rfl
  | fetches hin hcb hnew hJ =>
    exact hc.frame hi ⟨le_refl _, fun n cb hcb => Or.inl (Keyed.lookup_of_lookup_erase hcb)⟩
      (fun a => .refl _) rfl rfl
  | promises hin hfree hlatest => exact hc.still hi (keeps_yieldTo _) rfl rfl rfl rfl
  | accepts hin hfree => exact hc.still hi (keeps_yieldTo _) rfl rfl rfl rfl

theorem managed_moves (hc : c.Managed) (hi : Settled i c) (hmoves : Moves i c c') :
    c'.Managed ∧ Settled i c' := by
  induction hmoves with
  | refl => exact ⟨hc, hi⟩
  | tail _ hmove ih => exact ih.1.move ih.2 hmove

theorem cohorts_update (m m' : Mid) (c : Cohort) (s : Group) : (s.update m c).cohorts m' =
    if m' = m then some { c with out := [] } else s.cohorts m' := by
  simp only [update, Function.update_apply]

theorem of_cohorts_update {d : Cohort} (hd : (s.update m c).cohorts m' = some d) :
    (m' = m ∧ d = { c with out := [] }) ∨ s.cohorts m' = some d := by
  rw [cohorts_update] at hd
  split_ifs at hd with hm
  · exact Or.inl ⟨hm, (Option.some.inj hd).symm⟩
  · exact Or.inr hd

theorem cohorts_boot {mid : Mid} (m : Mid) (c : Cohort)
    (hc : Function.update s.cohorts mid (some (.boot mid)) m = some c) :
    (m = mid ∧ c = .boot mid) ∨ s.cohorts m = some c := by
  by_cases hm : m = mid
  · rw [hm, Function.update_self] at hc
    exact Or.inl ⟨hm, (Option.some.inj hc).symm⟩
  · rw [Function.update_of_ne hm] at hc
    exact Or.inr hc

/-- The cohorts there are stay when another one is told to join. -/
theorem cohorts_boot_of_some {mid : Mid} (hnone : s.cohorts mid = none)
    (hc : s.cohorts m = some c) :
    Function.update s.cohorts mid (some (.boot mid)) m = some c := by
  have hm : m ≠ mid := fun heq => by
    rw [heq, hnone] at hc
    cases hc
  exact (Function.update_of_ne hm _ _).trans hc

/-- A cohort stays in the group. -/
theorem exists_cohort (h : s.step e = some s') (hc : s.cohorts m = some c) :
    ∃ c', s'.cohorts m = some c' := by
  obtain ⟨mid, rfl, hnone, rfl⟩ | ⟨d, d', -, -, rfl⟩ := step_cases h
  · exact ⟨c, cohorts_boot_of_some hnone hc⟩
  · by_cases hm : m = e.actor
    · exact ⟨_, (cohorts_update _ _ _ _).trans (if_pos hm)⟩
    · exact ⟨c, ((cohorts_update _ _ _ _).trans (if_neg hm)).trans hc⟩

/-- **A cohort takes a step in moves.** -/
theorem exists_moves (hs : s.Sound) (h : s.step e = some s') :
    (∃ mid, e = .boot mid ∧ s.cohorts mid = none ∧
        s' = { s with cohorts := Function.update s.cohorts mid (some (.boot mid)) }) ∨
      ∃ i c c₁ c', s.cohorts e.actor = some c ∧ Brings s c e i ∧ Begins i c c₁ ∧
        Moves i c₁ c' ∧ s' = s.update e.actor c' := by
  obtain hboot | ⟨c, c', hc, hc', rfl⟩ := step_cases h
  · exact Or.inl hboot
  · obtain ⟨i, hi, c₁, hc₁, hmoves⟩ := handles_act (hs.managed _ c hc).steady hc'
    exact Or.inr ⟨i, c, c₁, c', hc, hi, hc₁, hmoves, rfl⟩

theorem self_begins (hc₁ : Begins i c c₁) : c₁.self = c.self := by
  cases hc₁ with
  | initiates h hc₁ =>
    obtain ⟨-, -, o, S, -, rfl⟩ := hc₁
    rfl
  | issues hin hmode hvid hprimary hcache hvs hsends =>
    obtain ⟨L, rfl⟩ := hcache.eq
    rfl
  | _ => rfl

theorem Sound.step (hs : s.Sound) (h : s.step e = some s') : s'.Sound := by
  obtain ⟨mid, rfl, hnone, rfl⟩ | ⟨i, c, c₁, c', hc, hi, hc₁, hmoves, rfl⟩ := exists_moves hs h
  · constructor
    · intro m c hc
      obtain ⟨-, rfl⟩ | hc := cohorts_boot m c hc
      · rfl
      · exact hs.quiet m c hc
    · intro m c hc
      obtain ⟨rfl, rfl⟩ | hc := cohorts_boot m c hc
      · rfl
      · exact hs.self m c hc
    · intro m c hc
      obtain ⟨-, rfl⟩ | hc := cohorts_boot m c hc
      · exact managed_boot mid
      · exact hs.managed m c hc
  · obtain ⟨hm₁, hi₁⟩ := managed_begins (hs.managed _ c hc)
      (settled_of_brings (hs.managed _ c hc) hi) hc₁
    obtain ⟨hm', -⟩ := managed_moves hm₁ hi₁ hmoves
    have hself : c'.self = e.actor :=
      hmoves.self.trans ((self_begins hc₁).trans (hs.self _ c hc))
    constructor
    · intro m d hd
      obtain ⟨-, rfl⟩ | hd := of_cohorts_update hd
      · rfl
      · exact hs.quiet m d hd
    · intro m d hd
      obtain ⟨rfl, rfl⟩ | hd := of_cohorts_update hd
      · exact hself
      · exact hs.self m d hd
    · intro m d hd
      obtain ⟨-, rfl⟩ | hd := of_cohorts_update hd
      · exact hm'.congr rfl rfl rfl rfl rfl
      · exact hs.managed m d hd

theorem cohorts_init {mid : Mid} (hc : (init mid).cohorts m = some c) :
    m = mid ∧ c = .founder mid := by
  change Function.update (fun _ => none) mid (some (.founder mid)) m = some c at hc
  by_cases hm : m = mid
  · subst hm
    rw [Function.update_self] at hc
    exact ⟨rfl, (Option.some.inj hc).symm⟩
  · rw [Function.update_of_ne hm] at hc
    cases hc

theorem sound_init (mid : Mid) : (init mid).Sound := by
  constructor
  · intro m c hc
    obtain ⟨-, rfl⟩ := cohorts_init hc
    rfl
  · intro m c hc
    obtain ⟨rfl, rfl⟩ := cohorts_init hc
    rfl
  · intro m c hc
    obtain ⟨-, rfl⟩ := cohorts_init hc
    exact managed_founder mid

end Group

end Falcon
