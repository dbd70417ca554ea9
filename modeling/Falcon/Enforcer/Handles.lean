import Falcon.Enforcer.Objects

/-!
# Enforcer/Handles — the targets an enforcer talks to its layer about

The layer-specific code is told to start, to stop and to kill, each time with the handle of a
target.  Such a handle comes from a request that `InvalidTarget` let pass, from the tables the
requests before it have filled, or from a down the layer has reported itself: `within_step`.
-/

namespace Falcon

/-- The target that the layer has to look up. -/
def Action.lookedUp : Action → Option Handle
  | .startMonitoring t | .stopMonitoring t | .kill t => some t
  | _ => none

namespace Enforcer

variable {s s' : Enforcer} {e : Event} {t : Handle} {c : ClientRef} {id : ClientId}
  {P : Handle → Prop}

/-- The targets that have clients or are in the table of one satisfy `P`. -/
structure Confined (P : Handle → Prop) (s : Enforcer) : Prop where
  clients : ∀ t, ∀ id ∈ s.targetClients t, P t
  intervals : ∀ c, ∀ t ∈ (s.clients c).upIntervals, P t

/-- As long as the targets satisfy `P` they go on to, and the layer is told of such targets only. -/
def Within (P : Handle → Prop) (s s' : Enforcer) : Prop :=
  s.Confined P → s'.Confined P ∧
    ∃ acts, s'.log = acts ++ s.log ∧ ∀ a ∈ acts, ∀ t, a.lookedUp = some t → P t

theorem Within.refl (s : Enforcer) : Within P s s := fun hs => ⟨hs, [], rfl, by simp⟩

theorem Within.trans {s₁ s₂ s₃ : Enforcer} (h : Within P s₁ s₂) (h' : Within P s₂ s₃) :
    Within P s₁ s₃ := by
  intro hs
  obtain ⟨hs₂, acts, hacts, hP⟩ := h hs
  obtain ⟨hs₃, acts', hacts', hP'⟩ := h' hs₂
  refine ⟨hs₃, acts' ++ acts, by rw [hacts', hacts, List.append_assoc], fun a ha => ?_⟩
  exact (List.mem_append.mp ha).elim (hP' a) (hP a)

/-- A method that tells the layer nothing. -/
theorem Within.of_confined (h : s.Confined P → s'.Confined P) (hlog : s'.log = s.log) :
    Within P s s' :=
  fun hs => ⟨h hs, [], hlog, by simp⟩

theorem within_note {a : Action} (h : ∀ t, a.lookedUp = some t → P t) : Within P s (s.note a) := by
  refine fun hs => ⟨⟨hs.clients, hs.intervals⟩, [a], rfl, fun a' ha' => ?_⟩
  rw [List.mem_singleton.mp ha']
  exact h

theorem within_await (cb : Callback) : Within P s (s.await cb) :=
  .of_confined (fun hs => ⟨hs.clients, hs.intervals⟩) rfl

theorem within_take (cb : Callback) : Within P s (s.take cb) :=
  .of_confined (fun hs => ⟨hs.clients, hs.intervals⟩) rfl

theorem within_setIntervals {m : Keyed Handle ℤ}
    (h : s.Confined P → ∀ t ∈ m, P t) : Within P s (s.setIntervals c m) := by
  refine .of_confined (fun hs => ⟨hs.clients, fun c' t ht => ?_⟩) rfl
  by_cases hc : c' = c
  · subst hc
    exact h hs t (by simpa using ht)
  · exact hs.intervals c' t (by simpa [hc] using ht)

theorem within_setInterval {delay : ℤ} (h : s.Confined P → P t) :
    Within P s (s.setInterval c t delay) := by
  refine within_setIntervals fun hs t' ht' => ?_
  obtain rfl | ht' := AList.mem_insert _ |>.mp ht'
  · exact h hs
  · exact hs.intervals c t' ht'

theorem within_eraseInterval : Within P s (s.eraseInterval c t) :=
  within_setIntervals fun hs t' ht' => hs.intervals c t' (AList.mem_erase.mp ht').2

theorem within_unregister : Within P s (s.unregister id t) := by
  refine .of_confined (fun hs => ⟨fun t' k hk => ?_, hs.intervals⟩) rfl
  simp only [unregister, update_erase, mem_dropWhere] at hk
  exact hs.clients t' k hk.1

theorem within_removeClient : Within P s (s.removeClient c) := by
  rw [removeClient_eq]
  refine fun hs => ⟨⟨fun t k hk => hs.clients t k (mem_dropWhere.mp hk).1, hs.intervals⟩,
    _, rfl, fun a ha t ht => ?_⟩
  obtain ⟨t', ht', -, rfl⟩ := mem_stops.mp ha
  obtain rfl := Option.some.inj ht
  exact hs.intervals c t' (AList.mem_keys.mpr ht')

theorem within_handleClientHeartbeat (n : ℕ) (st : ClntStat) :
    Within P s (s.handleClientHeartbeat c n st) :=
  handleClientHeartbeat_cases (fun _ => .refl s) (fun _ _ => within_await _)
    (fun _ _ _ => within_await _)
    fun _ _ _ => (within_note (by simp [Action.lookedUp])).trans within_removeClient

theorem within_getClient (addr : ClientAddr) : Within P s (s.getClient addr).1 := by
  unfold getClient
  split
  · exact .refl s
  · refine .of_confined (fun hs => ⟨hs.clients, fun c t ht => ?_⟩) rfl
    by_cases hc : c = s.nextRef
    · subst hc
      simp only [doHeartbeat, await, Function.update_self] at ht
      exact absurd ht (AList.notMem_empty t)
    · exact hs.intervals c t (by simpa [hc] using ht)

theorem within_addToWaiting : Within P s (s.addToWaiting t c) :=
  addToWaiting_cases (.refl s) fun _ => .of_confined (fun hs => ⟨hs.clients, hs.intervals⟩) rfl

theorem within_repeatWaiting : Within P s (s.repeatWaiting t c) := by
  refine repeatWaiting_cases (.refl s) (fun hmem => ?_) within_addToWaiting (within_await _)
  -- the interval `operator[]` enters is for a target with a client
  exact (within_setInterval fun hs => hs.clients t _ hmem).trans within_addToWaiting

theorem within_observeUp : Within P s (s.observeUp t) := by
  have h0 : Within P s { s with waitingForUp := Function.update s.waitingForUp t ∅ } :=
    .of_confined (fun hs => ⟨hs.clients, hs.intervals⟩) rfl
  exact h0.trans (Run.foldl_rel Within.refl (fun _ _ _ => Within.trans)
    (fun _ _ => (within_note (by simp [Action.lookedUp])).trans within_repeatWaiting) _ _)

theorem within_reportDown (arg : ClientDownArg) (n : ℕ) (st : ClntStat) :
    Within P s (s.reportDown c arg n st) := by
  have herase :
      Within P s ((s.eraseInterval c arg.handle).unregister (s.clients c).id arg.handle) :=
    within_eraseInterval.trans within_unregister
  exact reportDown_cases (fun _ => herase) (fun _ _ => herase.trans within_removeClient)
    (fun _ _ => (within_note (by simp [Action.lookedUp])).trans within_removeClient)
    fun _ _ => (within_note (by simp [Action.lookedUp])).trans (within_await _)

theorem within_observeDown (ht : P t) (st : UInt32) (k w : Bool) :
    Within P s (s.observeDown t st k w) := by
  have hsend : Within P s ((s.note (.observeDown t)).sendDowns t st k w) :=
    (within_note (by simp [Action.lookedUp])).trans (Run.foldl_rel Within.refl
      (fun _ _ _ => Within.trans) (fun _ _ => within_reportDown _ _ _) _ _)
  set s₁ := ((s.note (.observeDown t)).sendDowns t st k w).incrementGeneration t with hs₁
  have hinc : Within P s s₁ :=
    hsend.trans (.of_confined (fun hs => ⟨hs.clients, hs.intervals⟩) rfl)
  have hclear : Within P s₁ { s₁ with
      targetClients := Function.update s₁.targetClients t ∅
      waitingForUp := Function.update s₁.waitingForUp t ∅ } := by
    refine .of_confined (fun hs => ⟨fun t' k' hk' => ?_, hs.intervals⟩) rfl
    obtain ⟨v, hv⟩ := Keyed.exists_lookup hk'
    exact hs.clients t' k' (Keyed.mem_of_lookup (lookup_of_lookup_update_empty hv))
  exact (hinc.trans hclear).trans (within_note (a := .stopMonitoring t) fun t' ht' =>
    Option.some.inj ht' ▸ ht)

/-! ## Requests -/

theorem within_updateGenerations (layer : LayerAnswer) :
    Within P s (s.updateGenerations t layer) := by
  obtain ⟨lines, h⟩ := updateGenerations_eq t layer s
  rw [h]
  exact .of_confined (fun hs => ⟨hs.clients, hs.intervals⟩) rfl

/-- `GenCheck` lets no invalid target pass. -/
theorem valid_of_genCheck {q : List GenNo} {layer : LayerAnswer}
    (h : s.genCheck t q layer = .success) : layer.invalid = false := by
  unfold genCheck at h
  split at h
  · cases h
  · next hinv => exact Bool.not_eq_true _ ▸ hinv

theorem within_register (arg : SpyRegisterArg) (h : P arg.target.handle) :
    Within P s (s.register arg c) := by
  have henroll : Within P s (s.enroll c arg.target.handle) := by
    refine .of_confined (fun hs => ⟨fun t k hk => ?_, hs.intervals⟩) rfl
    by_cases ht : t = arg.target.handle
    · exact ht ▸ h
    · exact hs.clients t k (by simpa [enroll, ht] using hk)
  have hlicense : ∀ s : Enforcer, Within P s (s.license arg.lethal c arg.target.handle) := by
    intro s
    unfold license
    split
    · exact .of_confined (fun hs => ⟨hs.clients, hs.intervals⟩) rfl
    · exact .refl s
  have henlist : Within P s (s.enlist arg c) :=
    ((henroll.trans (within_setInterval fun _ => h)).trans within_repeatWaiting).trans (hlicense _)
  exact register_cases henlist (henlist.trans (within_note fun t ht => Option.some.inj ht ▸ h))

theorem within_cancel (h : P t) : Within P s (s.cancel t c) := by
  have herase : Within P s ((s.eraseInterval c t).unregister (s.clients c).id t) :=
    within_eraseInterval.trans within_unregister
  have hstop : ∀ s : Enforcer, Within P s (s.note (.stopMonitoring t)) := fun _ =>
    within_note fun t' ht' => Option.some.inj ht' ▸ h
  exact cancel_cases herase (herase.trans (hstop _)) (herase.trans within_removeClient)
    ((herase.trans (hstop _)).trans within_removeClient)

theorem within_dispatch (req : Request) (layer : LayerAnswer)
    (h : layer.invalid = false → P req.target) : Within P s (s.dispatch req layer) := by
  have hup : Within P s (s.updateGenerations req.target layer) := within_updateGenerations layer
  have hreply : ∀ (s : Enforcer) req res, Within P s (s.note (.reply req res)) := fun _ _ _ =>
    within_note (by simp [Action.lookedUp])
  refine dispatch_cases (fun _ => .refl s) (fun _ _ _ => hreply _ _ _)
    (fun _ => hup.trans (hreply _ _ _)) ?_ ?_ (fun arg _ _ _ => ?_) ?_
  · rintro arg rfl hok res
    exact ((hup.trans (within_getClient _)).trans
      (within_register arg (h (valid_of_genCheck hok)))).trans (hreply _ _ _)
  · rintro arg rfl hok res
    exact ((hup.trans (within_getClient _)).trans
      (within_cancel (h (valid_of_genCheck hok)))).trans (hreply _ _ _)
  · exact (hup.trans (within_getClient _)).trans (hreply _ _ _)
  · rintro target rfl hok res
    refine (hup.trans (within_note fun t ht => ?_)).trans (hreply _ _ _)
    exact Option.some.inj ht ▸ h (valid_of_genCheck hok)

theorem within_call (cb : Callback) (st : ClntStat) : Within P s (s.call cb st) := by
  cases cb with
  | heartbeatCall c n => exact within_handleClientHeartbeat n st
  | heartbeatTimer c n => exact within_await _
  | downCall c arg n => exact within_reportDown arg n st
  | waitingTimer t c => exact within_addToWaiting

/-- **The targets an enforcer deals with satisfy `P`** if those that `InvalidTarget` lets pass do,
and those the layer reports down. -/
theorem within_step (h : step s e = some s')
    (hreq : ∀ req layer, e = .request req layer → layer.invalid = false → P req.target)
    (hdown : ∀ t st k w, e = .observeDown t st k w → P t) : Within P s s' := by
  cases e with
  | request req layer => exact Option.some.inj h ▸ within_dispatch req layer (hreq req layer rfl)
  | fire cb st =>
    obtain ⟨-, rfl⟩ := step_fire.mp h
    exact (within_take cb).trans (within_call cb st)
  | observeUp t => exact Option.some.inj h ▸ within_observeUp
  | observeDown t st k w =>
    exact Option.some.inj h ▸ within_observeDown (hdown t st k w rfl) st k w

theorem confined_init (gv : List GenNo) (gens : Handle → GenNo) : (init gv gens).Confined P :=
  ⟨fun _ _ h => absurd h (AList.notMem_empty _), fun _ _ h => absurd h (AList.notMem_empty _)⟩

end Enforcer

end Falcon
