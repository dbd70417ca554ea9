import Falcon.Proxy.Client

/-!
# Proxy/Primary — the server Falcon watches is the primary in use

The view information of the proxy comes from two places of `cohort.C`.  The answer to
`REP_BCAST_VIEWINFO` says who the primary is (`primary_c`) and where; a redirect of a `REP_EXECUTE`
only says where, and `update_view` takes the server to watch from the field that has not been filled
in.

* `watched_iff` — the proxy watches the primary it uses as long as it takes no redirect for new.
* `unwatched` — after a redirect Falcon watches nobody.
-/

namespace Falcon

/-- What `falcon_connect` is told of a server. -/
def CohortId.target (c : CohortId) : String × String × Mid := (c.name, c.hypervisor, c.mid)

namespace RepClient

variable {primary : ViewId → CohortId} {s s' : RepClient} {r : Rid} {n : ℕ} {vi : ViewInfo}
  {mid : Mid} {e : Event}

/-- Falcon watches the primary in use, and the report of it is not ignored. -/
structure Watched (primary : ViewId → CohortId) (s : RepClient) : Prop where
  mid : ∀ vi, s.viewinfo = some vi → s.primaryMid = (primary vi.vid).mid
  connect : ∀ vi, s.viewinfo = some vi →
    s.connects.head?.map CohortId.target = some (primary vi.vid).target
  report : ∀ vi fd mid, s.viewinfo = some vi → fd + 1 = s.nextWatch →
    s.watches.lookup fd = some mid → mid = s.primaryMid

/-- A redirect that is taken for new says who the primary is. -/
def Filled (primary : ViewId → CohortId) (s : RepClient) (e : Event) (_ : RepClient) : Prop :=
  match e with
  | .redirected _ vid memory =>
    s.Newer (.redirect primary vid memory) → memory.target = (primary vid).target
  | _ => True

/-! ## What decides on the watch -/

/-- Only `viewinfo_`, `primary_mid_` and the connections to Falcon count. -/
theorem Watched.congr (h : Watched primary s) (hvi : s'.viewinfo = s.viewinfo)
    (hmid : s'.primaryMid = s.primaryMid) (hconnects : s'.connects = s.connects)
    (hnext : s'.nextWatch = s.nextWatch)
    (hwatches : ∀ fd mid, s'.watches.lookup fd = some mid → s.watches.lookup fd = some mid) :
    Watched primary s' := by
  refine ⟨fun vi h' => ?_, fun vi h' => ?_, fun vi fd mid h' hfd hmid' => ?_⟩
  · rw [hmid]
    exact h.mid vi (hvi ▸ h')
  · rw [hconnects]
    exact h.connect vi (hvi ▸ h')
  · rw [hmid]
    exact h.report vi fd mid (hvi ▸ h') (hnext ▸ hfd) (hwatches fd mid hmid')

theorem Watched.processRequest (h : Watched primary s) : Watched primary (s.processRequest r) := by
  unfold RepClient.processRequest
  split
  · exact h.congr rfl rfl rfl rfl fun _ _ => id
  · exact h.congr rfl rfl rfl rfl fun _ _ => id

theorem watched_of_processRequest (h : Watched primary (s.processRequest r)) :
    Watched primary s := by
  unfold RepClient.processRequest at h
  split at h
  · exact h.congr rfl rfl rfl rfl fun _ _ => id
  · exact h.congr rfl rfl rfl rfl fun _ _ => id

/-- New view information has its primary watched if it says who that is. -/
theorem watched_updateView_of_newer (hnew : s.Newer vi) :
    Watched primary (s.updateView vi) ↔ vi.primaryC.target = (primary vi.vid).target := by
  unfold RepClient.updateView
  rw [if_pos hnew]
  constructor
  · exact fun h => Option.some.inj (h.connect vi rfl)
  · intro h
    refine ⟨fun vi' h' => ?_, fun vi' h' => ?_, fun vi' fd mid h' hfd hmid => ?_⟩
    · obtain rfl := Option.some.inj h'
      exact (Prod.mk.inj (Prod.mk.inj h).2).2
    · obtain rfl := Option.some.inj h'
      exact congrArg some h
    · obtain rfl : fd = s.nextWatch := Nat.succ.inj hfd
      exact (Option.some.inj ((AList.lookup_insert _).symm.trans hmid)).symm

theorem updateView_of_not_newer (hold : ¬s.Newer vi) : s.updateView vi = s := if_neg hold

theorem Watched.updateView (h : Watched primary s)
    (hvi : s.Newer vi → vi.primaryC.target = (primary vi.vid).target) :
    Watched primary (s.updateView vi) := by
  by_cases hnew : s.Newer vi
  · exact (watched_updateView_of_newer hnew).mpr (hvi hnew)
  · rwa [updateView_of_not_newer hnew]

theorem Watched.handleFailed (h : Watched primary s) : Watched primary (s.handleFailed mid) := by
  unfold RepClient.handleFailed
  split_ifs with hmid
  · exact h
  · generalize s.falconMap.entries = es
    clear hmid
    induction es generalizing s with
    | nil => exact h
    | cons e es ih => exact ih (h.congr rfl rfl rfl rfl fun _ _ => id)

theorem Watched.completed {cb : Rid → RepClient → RepClient} (h : Watched primary s)
    (hs' : s.completed n cb = some s')
    (hcb : ∀ r, Watched primary { s with calls := s.calls.erase n } →
      Watched primary (cb r { s with calls := s.calls.erase n })) : Watched primary s' := by
  unfold RepClient.completed at hs'
  split at hs'
  · next r hn =>
    obtain rfl := Option.some.inj hs'
    exact hcb r (h.congr rfl rfl rfl rfl fun _ _ => id)
  · cases hs'

theorem Watched.repViewinfoCb {vid : ViewId} (h : Watched primary s)
    (hs' : s.repViewinfoCb (.bcast primary vid) n = some s') : Watched primary s' := by
  have hup : Watched primary (s.updateView (.bcast primary vid)) := h.updateView fun _ => rfl
  unfold RepClient.repViewinfoCb at hs'
  split at hs'
  · next r retried hn =>
    cases retried with
    | true => exact Option.some.inj hs' ▸ hup
    | false =>
      obtain rfl := Option.some.inj hs'
      exact Watched.processRequest (hup.congr rfl rfl rfl rfl fun _ _ => id)
  · cases hs'

/-! ## Runs -/

theorem Watched.step (h : Watched primary s) (hs' : step primary s e = some s')
    (hf : Filled primary s e s') : Watched primary s' := by
  cases e with
  | issueRequest =>
    obtain rfl := Option.some.inj hs'
    exact Watched.processRequest (h.congr rfl rfl rfl rfl fun _ _ => id)
  | executeFailed n => exact h.completed hs' fun r h => h.congr rfl rfl rfl rfl fun _ _ => id
  | executed n bytes => exact h.completed hs' fun r h => h.congr rfl rfl rfl rfl fun _ _ => id
  | redirected n vid memory => exact h.completed hs' fun r h => (h.updateView hf).processRequest
  | viewinfo n vid => exact h.repViewinfoCb hs'
  | viewinfoTimedOut n =>
    unfold RepClient.step viewinfoTimedOut at hs'
    simp only at hs'
    split at hs'
    · obtain rfl := Option.some.inj hs'
      split_ifs <;> exact h.congr rfl rfl rfl rfl fun _ _ => id
    · cases hs'
  | failed fd =>
    unfold RepClient.step at hs'
    simp only at hs'
    split at hs'
    · obtain rfl := Option.some.inj hs'
      exact Watched.handleFailed (h.congr rfl rfl rfl rfl fun _ _ => Keyed.lookup_of_lookup_erase)
    · cases hs'
  | timer old r =>
    unfold RepClient.step checkNewPrimary at hs'
    simp only at hs'
    split_ifs at hs' with hmem hold
    · obtain rfl := Option.some.inj hs'
      exact h.congr rfl rfl rfl rfl fun _ _ => id
    · obtain rfl := Option.some.inj hs'
      exact h.congr rfl rfl rfl rfl fun _ _ => id

/-- A redirect that is taken for new without the primary is seen at once. -/
theorem filled_of_watched (hs' : step primary s e = some s') (h' : Watched primary s') :
    Filled primary s e s' := by
  cases e with
  | redirected n vid memory =>
    intro hnew
    unfold RepClient.step RepClient.completed at hs'
    simp only at hs'
    split at hs'
    · obtain rfl := Option.some.inj hs'
      have hup : Watched primary
          ({ s with calls := s.calls.erase n }.updateView (.redirect primary vid memory)) :=
        watched_of_processRequest h'
      have hnew' : { s with calls := s.calls.erase n }.Newer (.redirect primary vid memory) := hnew
      exact (watched_updateView_of_newer hnew').mp hup
    · cases hs'
  | _ => trivial

/-- **Falcon watches the primary in use all along a run iff no redirect that is taken for new lacks
the primary.** -/
theorem watched_iff (primary : ViewId → CohortId) (rid : Rid) (es : List Event) :
    Run.Always (step primary) (Watched primary) (init rid) es ↔
      Run.Along (step primary) (Filled primary) (init rid) es :=
  Run.always_iff_of_inv (fun _ h => h) (fun _ _ _ hs' h hf => h.step hs' hf)
    (fun _ _ _ hs' _ h' => filled_of_watched hs' h') ⟨nofun, nofun, nofun⟩

/-- A cohort that is in a later view redirects a request; `primary_c` is all zeros. -/
def redirectRun : List Event :=
  [.issueRequest, .viewinfo 0 ⟨1, 1⟩, .redirected 1 ⟨2, 1⟩ ⟨0, 0, "", ""⟩]

/-- **After a redirect Falcon watches nobody.** -/
theorem unwatched : ¬Run.Always (step fun vid => ⟨vid.counter, vid.counter, "host", "vmm"⟩)
    (Watched fun vid => ⟨vid.counter, vid.counter, "host", "vmm"⟩) (init 0) redirectRun := by
  intro h
  obtain ⟨s, hs, hvi, hmid⟩ : ∃ s, redirectRun.foldlM
      (step fun vid => ⟨vid.counter, vid.counter, "host", "vmm"⟩) (init 0) = some s ∧
      s.viewinfo = some ⟨⟨2, 1⟩, 2, ⟨0, 0, "", ""⟩⟩ ∧ s.primaryMid = 0 :=
    ⟨_, rfl, rfl, rfl⟩
  have hw := Run.always_iff_run.mp h redirectRun List.prefix_rfl s hs
  exact absurd (hmid.symm.trans (hw.mid _ hvi)) (by decide)

end RepClient

end Falcon
