import Falcon.Replication.Dispatch

/-!
# Replication/Choice — the view a manager proposes

The manager of a view change makes the cohort with the largest `latest` the primary.  If a cohort
has accepted a view that was never formed, that view is proposed again under a new id, its primary
changing places with the backup that is furthest if it is not the furthest itself; else the view
consists of the cohorts that have accepted.

* `choice_wellFormed` — the members, the primary and `latest` of the view proposed.
-/

namespace Falcon

namespace Cohort

variable {att : ViewChangeAttempt} {nv : NewViewArg} {rs : List ViewChangeAccept} {m m' : Best}
  {w : View}

/-- The accepts the manager looks at: those of the members of the view found, if there is one. -/
def considered (att : ViewChangeAttempt) : List ViewChangeAccept :=
  match att.newview with
  | some w => att.vcaccepts.filter (·.myid ∈ w.mids)
  | none => att.vcaccepts

/-- The cohorts to be in the view: the members of the view found, or the cohorts that have accepted.
-/
def members (att : ViewChangeAttempt) : List Mid :=
  match att.newview with
  | some w => w.primary :: w.backups
  | none => att.vcaccepts.map (·.myid)

/-- A well-formed proposal. -/
structure Chosen (att : ViewChangeAttempt) (nv : NewViewArg) : Prop where
  vid : nv.view.vid = att.proposedVid
  nodup : (nv.view.primary :: nv.view.backups).Nodup
  members : ∀ mid, mid ∈ nv.view.primary :: nv.view.backups ↔ mid ∈ members att
  primary : ∃ r ∈ considered att, r.myid = nv.view.primary ∧ r.latest = nv.latest
  maximal : ∀ r ∈ considered att, r.latest ≤ nv.latest

/-! ## The furthest accept -/

/-- The result of the search is what it starts from, or the first of the furthest accepts. -/
theorem best_spec (rs : List ViewChangeAccept) (m : Best) :
    (best rs m = m ∨ ∃ r ∈ rs, best rs m = (r.latest, some r.myid)) ∧ m.1 ≤ (best rs m).1 ∧
      ∀ r ∈ rs, r.latest ≤ (best rs m).1 := by
  induction rs generalizing m with
  | nil => exact ⟨Or.inl rfl, le_rfl, by simp⟩
  | cons r rs ih =>
    rw [best, List.forall_mem_cons]
    split_ifs with hlt
    · obtain ⟨hcase, hle, hmax⟩ := ih (r.latest, some r.myid)
      refine ⟨Or.inr ?_, hlt.le.trans hle, hle, hmax⟩
      obtain heq | ⟨r', hr', heq⟩ := hcase
      · exact ⟨r, List.mem_cons_self, heq⟩
      · exact ⟨r', List.mem_cons_of_mem _ hr', heq⟩
    · obtain ⟨hcase, hle, hmax⟩ := ih m
      refine ⟨hcase.imp_right fun ⟨r', hr', heq⟩ => ?_, hle, (not_lt.mp hlt).trans hle, hmax⟩
      exact ⟨r', List.mem_cons_of_mem _ hr', heq⟩

/-- A search in which an accept is beyond the start finds one of the furthest. -/
theorem best_found (h : ∃ r ∈ rs, Viewstamp.zero < r.latest) : ∃ r ∈ rs,
    best rs (.zero, none) = (r.latest, some r.myid) ∧ ∀ r' ∈ rs, r'.latest ≤ r.latest := by
  obtain ⟨hcase, -, hmax⟩ := best_spec rs (.zero, none)
  obtain ⟨r₀, hr₀, hpos⟩ := h
  obtain heq | ⟨r, hr, heq⟩ := hcase
  · have hle := hmax r₀ hr₀
    rw [heq] at hle
    exact absurd hpos (not_lt.mpr hle)
  · refine ⟨r, hr, heq, fun r' hr' => ?_⟩
    have hle := hmax r' hr'
    rwa [heq] at hle

/-- The search among the members of a view is a search of their accepts. -/
theorem best_of_bestMember (h : bestMember w rs m = some m') :
    best (rs.filter (·.myid ∈ w.mids)) m = m' := by
  induction rs generalizing m with
  | nil => exact Option.some.inj h
  | cons r rs ih =>
    unfold bestMember at h
    split_ifs at h with hmem hlt hprimary
    · rw [List.filter_cons_of_pos (by simpa using hmem), best, if_pos hlt]
      exact ih h
    · rw [List.filter_cons_of_pos (by simpa using hmem), best, if_neg hlt]
      exact ih h
    · rw [List.filter_cons_of_neg (by simpa using hmem)]
      exact ih h

/-! ## The members -/

/-- To take one out of a list and put it in front. -/
theorem perm_cons_filter {c : Mid} {l : List Mid} (hl : l.Nodup) (hc : c ∈ l) :
    (c :: l.filter (· ≠ c)).Perm l := by
  have herase : l.filter (· ≠ c) = l.erase c := by
    rw [hl.erase_eq_filter]
    exact List.filter_congr fun b _ => by simp [bne, Bool.beq_eq_decide_eq]
  rw [herase]
  exact (List.perm_cons_erase hc).symm

/-- To let the first of a list and another one change places. -/
theorem perm_swap {p c : Mid} {l : List Mid} (hl : l.Nodup) (hc : c ∈ l) :
    (c :: l.map fun b => if b = c then p else b).Perm (p :: l) := by
  induction l with
  | nil => cases hc
  | cons b l ih =>
    obtain ⟨hb, hl⟩ := List.nodup_cons.mp hl
    by_cases heq : b = c
    · subst heq
      have hsame : (l.map fun b' => if b' = b then p else b') = l := by
        refine (List.map_congr_left fun b' hb' => ?_).trans (List.map_id l)
        exact if_neg (ne_of_mem_of_not_mem hb' hb)
      rw [List.map_cons, if_pos rfl, hsame]
      exact List.Perm.swap p b l
    · have hc : c ∈ l := (List.mem_cons.mp hc).resolve_left (Ne.symm heq)
      rw [List.map_cons, if_neg heq]
      calc (c :: b :: l.map fun b => if b = c then p else b).Perm
            (b :: c :: l.map fun b => if b = c then p else b) := List.Perm.swap _ _ _
        List.Perm _ (b :: p :: l) := (ih hl hc).cons b
        List.Perm _ (p :: b :: l) := List.Perm.swap _ _ _

/-! ## The proposal -/

/-- The accepts come from different cohorts, and a view that was found has different members. -/
structure Distinct (att : ViewChangeAttempt) : Prop where
  accepts : (att.vcaccepts.map (·.myid)).Nodup
  newview : ∀ w, att.newview = some w → (w.primary :: w.backups).Nodup

/-- **The view a manager proposes is well formed.**  Let the accepts come from different cohorts,
one of those considered be beyond the zero viewstamp, and a view found have different members.  What
`view_change_choose_view` returns has the members it is to have, each once, and the proposed id; its
primary is furthest among the accepts considered, and `latest` is that of the primary.  Without a
view found it does return. -/
theorem choice_wellFormed (hd : Distinct att)
    (hpos : ∃ r ∈ considered att, Viewstamp.zero < r.latest) :
    (∀ nv, viewChangeChooseView att = some nv → Chosen att nv) ∧
      (att.newview = none → ∃ nv, viewChangeChooseView att = some nv) := by
  obtain ⟨r, hr, hbest, hmax⟩ := best_found hpos
  cases hw : att.newview with
  | none =>
    have hcons : considered att = att.vcaccepts := by rw [considered, hw]
    have hmem : members att = att.vcaccepts.map (·.myid) := by rw [members, hw]
    rw [hcons] at hr hbest hmax
    have hperm := perm_cons_filter hd.accepts (List.mem_map_of_mem hr)
    simp only [viewChangeChooseView, hw, hbest]
    refine ⟨fun nv hnv => ?_, fun _ => ⟨_, rfl⟩⟩
    obtain rfl := Option.some.inj hnv
    refine ⟨rfl, hperm.nodup_iff.mpr hd.accepts, fun mid => ?_, ⟨r, ?_, rfl, rfl⟩, ?_⟩
    · rw [hmem]
      exact hperm.mem_iff
    · rwa [hcons]
    · rwa [hcons]
  | some w =>
    refine ⟨fun nv hnv => ?_, fun h => by cases h⟩
    have hcons : considered att = att.vcaccepts.filter (·.myid ∈ w.mids) := by rw [considered, hw]
    have hmem : members att = w.primary :: w.backups := by rw [members, hw]
    have hnodup := hd.newview w hw
    simp only [viewChangeChooseView, hw] at hnv
    obtain ⟨⟨latest, c⟩, hfound, hnv⟩ := Option.bind_eq_some_iff.mp hnv
    have heq := best_of_bestMember hfound
    rw [← hcons, hbest] at heq
    obtain ⟨rfl, rfl⟩ := Prod.mk.inj heq
    have hin : r.myid = w.primary ∨ r.myid ∈ w.backups := by
      rw [hcons] at hr
      exact View.mem_mids.mp (of_decide_eq_true (List.mem_filter.mp hr).2)
    dsimp only [Option.bind_eq_bind, Option.bind_some] at hnv
    split_ifs at hnv with hprimary
    · obtain rfl := Option.some.inj hnv
      exact ⟨rfl, hnodup, fun mid => by rw [hmem], ⟨r, hr, hprimary, rfl⟩, hmax⟩
    · obtain rfl := Option.some.inj hnv
      have hperm := perm_swap (p := w.primary) (List.nodup_cons.mp hnodup).2
        (hin.resolve_left hprimary)
      refine ⟨rfl, hperm.nodup_iff.mpr hnodup, fun mid => ?_, ⟨r, hr, rfl, rfl⟩, hmax⟩
      rw [hmem]
      exact hperm.mem_iff

/-- Two of three cohorts have accepted, and the second one a view with itself as a backup. -/
def choice : ViewChangeAttempt :=
  { noAttempt with
    vcaccepts := [⟨1, ⟨⟨1, 1⟩, 4⟩, none⟩, ⟨2, ⟨⟨1, 1⟩, 5⟩, some ⟨⟨2, 3⟩, 3, [1, 2]⟩⟩]
    newview := some ⟨⟨2, 3⟩, 3, [1, 2]⟩
    proposedVid := ⟨3, 1⟩ }

/-- The second one becomes the primary. -/
theorem choice_wellFormed_swapped : ∃ nv, viewChangeChooseView choice = some nv ∧
    nv = ⟨⟨⟨1, 1⟩, 5⟩, ⟨3, 1⟩, 2, [1, 3]⟩ ∧ Chosen choice nv := by
  refine ⟨_, rfl, by decide, (choice_wellFormed ⟨by decide, ?_⟩ ?_).1 _ rfl⟩
  · intro w hw
    obtain rfl := Option.some.inj hw
    decide
  · exact ⟨_, List.mem_cons_self, by decide⟩

end Cohort

end Falcon
