import Falcon.Enforcer.Handles
import Falcon.Vmm.Moves
import Falcon.Vmm.Watch

/-!
# Vmm/Lookups — the object behind a valid target

`InvalidTarget` asks whether `monitored_vmms_` has the handle, and every method looks the object up
with `operator[]` and `CHECK`s that it is one.  The two agree as long as the map holds no null
pointer, and a `VMM_OBS_CANCEL` for an unknown handle enters one.

* `lookups_iff` — valid targets have objects in every state of a run, and every object an event
  looks up is there, exactly if each `VMM_OBS_CANCEL` is for a handle that holds an object.
-/

namespace Falcon

namespace VMMEnforcer

open Enforcer (Within Confined)

variable {s s' : VMMEnforcer} {e : Event × Outside} {h : Handle} {v : VmmRef} {t : ActionRef}
  {out : Outside}

/-- There is an object under `h`. -/
def Occupied (s : VMMEnforcer) (h : Handle) : Prop := (s.installed h).isSome = true

/-- Where `InvalidTarget` is false there is an object. -/
def TargetsSound (s : VMMEnforcer) : Prop := ∀ h, (s.answer h).invalid = false → s.Occupied h

/-- The handles an event looks up under a `CHECK`. -/
def lookups (s : VMMEnforcer) : Event → List Handle
  | .observerCancel h => if (s.installed h).isSome then [h] else []
  | .timer t | .reply t | .timeout t | .failed t _ =>
    match s.pending.lookup t with
    | some (.check h _ _) | some (.probe h _ _ _ _) => [h]
    | _ => []
  | e => (s.baseActions e).filterMap Action.lookedUp

/-- `GetRXBytes` does not find the interface. -/
def Outside.Blind (out : Outside) : Prop := out.rxBytes = none ∨ out.newRxBytes = none

/-- What keeps an event from happening, or ends the program in it, besides the lookups: there is no
such callback, the interface is not found, a call is sent again that is over, or a probe fails. -/
def Ends (s : VMMEnforcer) : Event × Outside → Prop
  | (.request _, out) => out.Blind
  | (.fire cb _, out) => cb ∉ s.core.pending ∨ out.Blind
  | (.observerRegister _ _, _) | (.observerCancel _, _) => False
  | (.timer t, out) => (∀ h b c, s.pending.lookup t ≠ some (.check h b c)) ∨ out.Blind
  | (.reply t, out) => (∀ h b c v n, s.pending.lookup t ≠ some (.probe h b c v n)) ∨ out.Blind
  | (.timeout t, _) => ∀ h b c v n, s.pending.lookup t ≠ some (.probe h b c v n)
  | (.failed _ _, _) => True

/-- The lookups of the event find objects, and nothing else but `Ends` keeps it from ending well. -/
structure Checked (s : VMMEnforcer) (e : Event × Outside) : Prop where
  found : ∀ h ∈ s.lookups e.1, s.Occupied h
  ends : step s e = none → s.Ends e

/-- A `VMM_OBS_CANCEL` is for a handle that holds an object. -/
def CancelsKnown (s : VMMEnforcer) (e : Event × Outside) : Prop :=
  ∀ h, e.1 = .observerCancel h → s.Occupied h

theorem occupied_iff : s.Occupied h ↔ ∃ v, s.installed h = some v := Option.isSome_iff_exists

/-- The map has no null pointers. -/
theorem targetsSound_iff : s.TargetsSound ↔ ∀ h, s.monitoredVmms h ≠ some none := by
  simp only [TargetsSound, answer, Occupied, installed]
  refine forall_congr' fun h => ?_
  cases s.monitoredVmms h with
  | none => simp
  | some o => cases o <;> simp

/-- The targets of the base class, and of the pending `MonitorAction`s, have objects. -/
structure Rooted (s : VMMEnforcer) : Prop where
  core : s.core.Confined s.Occupied
  pending : ∀ t x h, s.pending.lookup t = some x → x.monitors h = true → s.Occupied h

/-! ## What the methods leave alone -/

/-- The map is as it was, and what is new is for targets with objects. -/
structure Steady (s s' : VMMEnforcer) : Prop where
  map : s'.monitoredVmms = s.monitoredVmms
  core : Within s.Occupied s.core s'.core
  pending : ∀ t x h, s'.pending.lookup t = some x → x.monitors h = true →
    s.pending.lookup t = some x ∨ s.Occupied h

theorem Steady.occupied (hs : Steady s s') : s'.Occupied = s.Occupied := by
  funext h
  rw [Occupied, Occupied, installed, installed, hs.map]

theorem Steady.refl (s : VMMEnforcer) : Steady s s := ⟨rfl, .refl _, fun _ _ _ h _ => Or.inl h⟩

theorem Steady.trans {s₁ s₂ s₃ : VMMEnforcer} (hs : Steady s₁ s₂) (hs' : Steady s₂ s₃) :
    Steady s₁ s₃ := by
  refine ⟨hs'.map.trans hs.map, hs.core.trans (hs.occupied ▸ hs'.core), fun t x h hx hm => ?_⟩
  obtain hx' | hocc := hs'.pending t x h hx hm
  · exact hs.pending t x h hx' hm
  · exact Or.inr (hs.occupied ▸ hocc)

theorem Steady.rooted (hs : Steady s s') (hr : s.Rooted) : s'.Rooted := by
  refine ⟨hs.occupied ▸ (hs.core hr.core).1, fun t x h hx hm => ?_⟩
  rw [hs.occupied]
  exact (hs.pending t x h hx hm).elim (fun hx' => hr.pending t x h hx' hm) id

/-- A method that leaves the map, the base class and the event loop alone. -/
theorem Steady.of_eq (hmap : s'.monitoredVmms = s.monitoredVmms) (hcore : s'.core = s.core)
    (hpending : s'.pending = s.pending) : Steady s s' :=
  ⟨hmap, hcore ▸ .refl _, fun _ _ _ hx _ => Or.inl (hpending ▸ hx)⟩

theorem steady_take : Steady s (s.take t) :=
  ⟨rfl, .refl _, fun _ _ _ hx _ => Or.inl (Keyed.lookup_of_lookup_erase hx)⟩

theorem steady_delaycb {x : Pending} (hx : ∀ h, x.monitors h = true → s.Occupied h) :
    Steady s (s.delaycb x) := by
  refine ⟨rfl, .refl _, fun t y h hy hm => ?_⟩
  by_cases ht : t = s.nextAction
  · subst ht
    simp only [delaycb, AList.lookup_insert] at hy
    obtain rfl := Option.some.inj hy
    exact Or.inr (hx h hm)
  · simp only [delaycb, AList.lookup_insert_ne ht] at hy
    exact Or.inl hy

theorem steady_clear (cb : Option ActionRef) : Steady s (s.clear cb) := by
  cases cb with
  | none => exact .refl s
  | some t => exact .of_eq rfl rfl rfl

theorem steady_core {c : Enforcer} (h : Within s.Occupied s.core c) :
    Steady s { s with core := c } :=
  ⟨rfl, h, fun _ _ _ hx _ => Or.inl hx⟩

theorem steady_sendProbe (hocc : s.Occupied h) (rxBytes : UInt64) :
    Steady s (s.sendProbe h v rxBytes) := by
  set probe := Pending.probe h rxBytes (s.vmms v).count.toUInt32 v (s.starts v) with hprobe
  have hsent : Steady s (s.delaycb probe) :=
    steady_delaycb fun h' hm => of_decide_eq_true hm ▸ hocc
  have hset : Steady s ({ s.delaycb probe with
      cbs := Function.update s.cbs s.nextAction true }.setVmm v
        { s.vmms v with count := (s.vmms v).count + 1 }) := hsent.trans (.of_eq rfl rfl rfl)
  exact hset.trans (steady_delaycb fun h' hm => (by cases hm))

theorem steady_monitorAction {rxBytes : UInt64} {counter : UInt32} {oldCb : Option ActionRef}
    (h₁ : s.monitorAction h rxBytes counter oldCb out = some s') : Steady s s' := by
  obtain ⟨v, hv, ⟨hs', -⟩ | ⟨-, -, rxBytes', hs'⟩⟩ := monitorAction_cases h₁
  · rw [hs']
    exact .refl s
  · have hup : Steady s ({ s with core := s.core.observeUp h }.clear oldCb) :=
      (steady_core Enforcer.within_observeUp).trans (steady_clear oldCb)
    have hocc : ({ s with core := s.core.observeUp h }.clear oldCb).Occupied h := by
      rw [hup.occupied]
      exact occupied_iff.mpr ⟨v, hv⟩
    obtain rfl | rfl := hs'
    · exact hup.trans (steady_sendProbe hocc rxBytes')
    · exact hup.trans (steady_delaycb fun h' hm => of_decide_eq_true hm ▸ hocc)

theorem steady_startMonitoring (h₁ : s.startMonitoring h out = some s') : Steady s s' := by
  simp only [startMonitoring, Option.bind_eq_bind, Option.bind_eq_some_iff] at h₁
  obtain ⟨v, -, rxBytes, -, h₁⟩ := h₁
  refine Steady.trans ?_ (steady_monitorAction h₁)
  exact .of_eq rfl rfl rfl

theorem steady_stopMonitoring (h₁ : s.stopMonitoring h = some s') : Steady s s' := by
  simp only [stopMonitoring, Option.bind_eq_bind, Option.bind_eq_some_iff, Option.some.injEq] at h₁
  obtain ⟨v, -, rfl⟩ := h₁
  exact .of_eq rfl rfl rfl

theorem steady_kill (h₁ : s.kill h = some s') : Steady s s' := by
  simp only [kill, Option.bind_eq_bind, Option.bind_eq_some_iff, Option.some.injEq] at h₁
  obtain ⟨v, -, rfl⟩ := h₁
  exact .of_eq rfl rfl rfl

theorem steady_observeDown {st : UInt32} {k w : Bool} (hocc : s.Occupied h)
    (h₁ : s.observeDown h st k w = some s') : Steady s s' :=
  (steady_core (Enforcer.within_observeDown hocc st k w)).trans (steady_stopMonitoring h₁)

theorem steady_probeTimedOut {cb : ActionRef} (h₁ : s.probeTimedOut h cb = some s') :
    Steady s s' := by
  simp only [probeTimedOut, Option.bind_eq_bind, Option.bind_eq_some_iff] at h₁
  obtain ⟨v, hv, h₁⟩ := h₁
  have hocc : s.Occupied h := occupied_iff.mpr ⟨v, hv⟩
  have hdown : ∀ s₁ : VMMEnforcer, Steady s s₁ → ∀ st k w,
      (s₁.clear (some cb)).observeDown h st k w = some s' → Steady s s' := by
    intro s₁ hs₁ st k w h₁
    have hclear := hs₁.trans (steady_clear (some cb))
    exact hclear.trans (steady_observeDown (hclear.occupied ▸ hocc) h₁)
  split_ifs at h₁
  · exact Option.some.inj h₁ ▸ .refl s
  · obtain ⟨s₁, hs₁, h₁⟩ := Option.bind_eq_some_iff.mp h₁
    exact hdown s₁ (steady_kill hs₁) _ _ _ h₁
  · obtain ⟨s₁, hs₁, h₁⟩ := Option.bind_eq_some_iff.mp h₁
    obtain rfl := Option.some.inj hs₁
    exact hdown s (.refl s) _ _ _ h₁

theorem steady_retry {cb : ActionRef} {n : ℕ} (h₁ : s.retry v cb n = some s') : Steady s s' := by
  unfold retry at h₁
  split_ifs at h₁
  · exact Option.some.inj h₁ ▸ steady_delaycb fun h' hm => (by cases hm)
  · exact Option.some.inj h₁ ▸ .refl s

theorem steady_probeFailed {counter : UInt32} (h₁ : s.probeFailed h counter = some s') :
    Steady s s' := by
  simp only [probeFailed, Option.bind_eq_bind, Option.bind_eq_some_iff] at h₁
  obtain ⟨v, -, h₁⟩ := h₁
  split_ifs at h₁
  · exact Option.some.inj h₁ ▸ .refl s
  · exact Option.some.inj h₁ ▸ .refl s

theorem steady_hook {a : Action} (h₁ : hook out s a = some s') : Steady s s' := by
  unfold hook at h₁
  split at h₁
  · exact steady_startMonitoring h₁
  · exact steady_stopMonitoring h₁
  · exact steady_kill h₁
  · exact Option.some.inj h₁ ▸ .refl s

theorem steady_runHooks {c : Enforcer} (hc : Within s.Occupied s.core c)
    (h₁ : s.runHooks c out = some s') : Steady s s' :=
  (steady_core hc).trans
    (Run.foldlM_rel Steady.refl (fun _ _ _ => Steady.trans) (fun _ _ _ => steady_hook) _ _ _ h₁)

/-! ## One event -/

/-- A monitor registers: the objects there were are still there, or replaced. -/
theorem occupied_observerRegister (port : UInt32) (h' : Handle) :
    (s.observerRegister h port).Occupied h' ↔ s.Occupied h' ∨ h' = h := by
  have hmap : (s.observerRegister h port).monitoredVmms =
      Function.update s.monitoredVmms h (some (some s.nextVmm)) := by
    unfold observerRegister retire
    split <;> rfl
  rw [Occupied, installed, hmap]
  by_cases heq : h' = h
  · simp [heq]
  · simp [heq, Occupied, installed]

theorem rooted_observerRegister (port : UInt32) (hr : s.Rooted) :
    (s.observerRegister h port).Rooted := by
  have hpending : (s.observerRegister h port).pending = s.pending := by
    unfold observerRegister retire
    split <;> rfl
  have hmono : ∀ h', s.Occupied h' → (s.observerRegister h port).Occupied h' := fun h' hh' =>
    (occupied_observerRegister port h').mpr (Or.inl hh')
  refine ⟨⟨fun t id hid => hmono t ?_, fun c t ht => hmono t ?_⟩, fun t x h' hx hm =>
    hmono h' (hr.pending t x h' (hpending ▸ hx) hm)⟩
  · exact hr.core.clients t id (observerRegister_core port ▸ hid)
  · exact hr.core.intervals c t (observerRegister_core port ▸ ht)

/-- What the base class asks the layer for in an event of its own. -/
theorem within_base {ev : Enforcer.Event} {c : Enforcer} (hsound : s.TargetsSound)
    (hc : s.core.step ev = some c)
    (hev : (∃ req, ev = .request req (s.answer req.target)) ∨ ∃ cb st, ev = .fire cb st) :
    Within s.Occupied s.core c := by
  refine Enforcer.within_step hc (fun req layer heq hvalid => ?_) fun t st k w heq => ?_
  · obtain ⟨req', rfl⟩ | ⟨cb, st, rfl⟩ := hev
    · obtain ⟨rfl, rfl⟩ := Enforcer.Event.request.inj heq
      exact hsound _ hvalid
    · cases heq
  · obtain ⟨req', rfl⟩ | ⟨cb, st, rfl⟩ := hev
    · cases heq
    · cases heq

/-- Every event but those of the observers leaves the map alone. -/
theorem steady_step (hsound : s.TargetsSound) (hreg : e.1.registers = none)
    (hcancel : ∀ h, e.1 = .observerCancel h → s.Occupied h) (h₁ : step s e = some s') :
    Steady s s' := by
  obtain ⟨e, out⟩ := e
  cases e with
  | request req =>
    exact steady_runHooks (within_base hsound rfl (Or.inl ⟨req, rfl⟩)) h₁
  | fire cb status =>
    obtain ⟨c, hc, h₁⟩ := Option.bind_eq_some_iff.mp h₁
    exact steady_runHooks (within_base hsound hc (Or.inr ⟨cb, status, rfl⟩)) h₁
  | observerRegister h port => cases hreg
  | observerCancel h =>
    obtain ⟨v, hv⟩ := occupied_iff.mp (hcancel h rfl)
    simp only [step, observerCancel, hv] at h₁
    obtain ⟨s₁, hs₁, h₁⟩ := Option.bind_eq_some_iff.mp h₁
    have hstop := steady_stopMonitoring hs₁
    exact hstop.trans (steady_observeDown (hstop.occupied ▸ hcancel h rfl) h₁)
  | timer t =>
    simp only [step] at h₁
    split at h₁
    · exact steady_take.trans (steady_monitorAction h₁)
    · exact steady_take.trans (steady_retry h₁)
    · cases h₁
  | reply t =>
    simp only [step] at h₁
    split at h₁
    · exact steady_take.trans (steady_monitorAction h₁)
    · cases h₁
  | timeout t =>
    simp only [step] at h₁
    split at h₁
    · exact steady_take.trans (steady_probeTimedOut h₁)
    · cases h₁
  | failed t counter =>
    simp only [step] at h₁
    split at h₁
    · exact steady_take.trans (steady_probeFailed h₁)
    · cases h₁

theorem rooted_step (hr : s.Rooted) (hsound : s.TargetsSound) (hknown : s.CancelsKnown e)
    (h₁ : step s e = some s') : s'.Rooted ∧ s'.TargetsSound := by
  by_cases hreg : e.1.registers = none
  · have hs := steady_step hsound hreg hknown h₁
    refine ⟨hs.rooted hr, targetsSound_iff.mpr fun h => ?_⟩
    rw [hs.map]
    exact targetsSound_iff.mp hsound h
  · obtain ⟨e, out⟩ := e
    cases e with
    | observerRegister h port =>
      obtain rfl := Option.some.inj h₁
      refine ⟨rooted_observerRegister port hr, fun h' hvalid => ?_⟩
      refine (occupied_observerRegister port h').mpr ?_
      by_cases heq : h' = h
      · exact Or.inr heq
      · refine Or.inl (hsound h' ?_)
        have hmap : (s.observerRegister h port).monitoredVmms h' = s.monitoredVmms h' := by
          unfold observerRegister retire
          split <;> exact Function.update_of_ne heq _ _
        rwa [answer, hmap] at hvalid
    | _ => exact (hreg rfl).elim

/-! ## What the lookups find -/

theorem exists_monitorAction {rxBytes : UInt64} {counter : UInt32} {oldCb : Option ActionRef}
    (hocc : s.Occupied h) (hout : ¬ out.Blind) :
    ∃ s', s.monitorAction h rxBytes counter oldCb out = some s' := by
  obtain ⟨v, hv⟩ := occupied_iff.mp hocc
  obtain ⟨rxBytes', hrx⟩ := Option.ne_none_iff_exists'.mp fun hnone => hout (Or.inr hnone)
  simp only [monitorAction, hv, hrx, Option.bind_eq_bind, Option.bind_some]
  split_ifs <;> exact ⟨_, rfl⟩

theorem exists_stopMonitoring (hocc : s.Occupied h) : ∃ s', s.stopMonitoring h = some s' := by
  obtain ⟨v, hv⟩ := occupied_iff.mp hocc
  simp only [stopMonitoring, hv, Option.bind_eq_bind, Option.bind_some]
  exact ⟨_, rfl⟩

theorem exists_kill (hocc : s.Occupied h) : ∃ s', s.kill h = some s' := by
  obtain ⟨v, hv⟩ := occupied_iff.mp hocc
  simp only [kill, hv, Option.bind_eq_bind, Option.bind_some]
  exact ⟨_, rfl⟩

theorem exists_observeDown (hocc : s.Occupied h) (st : UInt32) (k w : Bool) :
    ∃ s', s.observeDown h st k w = some s' :=
  exists_stopMonitoring (s := { s with core := s.core.observeDown h st k w }) hocc

theorem exists_probeTimedOut (hocc : s.Occupied h) (cb : ActionRef) :
    ∃ s', s.probeTimedOut h cb = some s' := by
  obtain ⟨v, hv⟩ := occupied_iff.mp hocc
  have hdown : ∀ s₁ : VMMEnforcer, Steady s s₁ → ∀ st k w,
      ∃ s', (s₁.clear (some cb)).observeDown h st k w = some s' := fun s₁ hs₁ st k w =>
    exists_observeDown ((hs₁.trans (steady_clear (some cb))).occupied ▸ hocc) st k w
  simp only [probeTimedOut, hv, Option.bind_eq_bind, Option.bind_some]
  split_ifs
  · exact ⟨_, rfl⟩
  · obtain ⟨s₁, hs₁⟩ := exists_kill hocc
    rw [hs₁]
    exact hdown s₁ (steady_kill hs₁) _ _ _
  · exact hdown s (.refl s) _ _ _

theorem exists_hook {a : Action} (hocc : ∀ h, a.lookedUp = some h → s.Occupied h)
    (hout : ¬ out.Blind) : ∃ s', hook out s a = some s' := by
  cases a with
  | startMonitoring h =>
    obtain ⟨v, hv⟩ := occupied_iff.mp (hocc h rfl)
    obtain ⟨rxBytes, hrx⟩ := Option.ne_none_iff_exists'.mp fun hnone => hout (Or.inl hnone)
    simp only [hook, startMonitoring, hv, hrx, Option.bind_eq_bind, Option.bind_some]
    exact exists_monitorAction (occupied_iff.mpr ⟨v, hv⟩) hout
  | stopMonitoring h => exact exists_stopMonitoring (hocc h rfl)
  | kill h => exact exists_kill (hocc h rfl)
  | _ => exact ⟨s, rfl⟩

theorem exists_runHooks {c : Enforcer} (hr : s.Rooted) (hc : Within s.Occupied s.core c)
    (hout : ¬ out.Blind) : ∃ s', s.runHooks c out = some s' := by
  obtain ⟨-, acts, hlog, hocc⟩ := hc hr.core
  refine Run.exists_run (I := fun s₁ => s₁.Occupied = s.Occupied) (fun a ha s₁ hs₁ => ?_) rfl
  rw [Enforcer.newer_of_log hlog, List.mem_reverse] at ha
  obtain ⟨s₂, hs₂⟩ := exists_hook (hs₁ ▸ hocc a ha) hout
  exact ⟨s₂, hs₂, (steady_hook hs₂).occupied.trans hs₁⟩

/-- The layer is asked for targets with objects. -/
theorem found_base {c : Enforcer} (hr : s.Rooted)
    (hc : Within s.Occupied s.core c) (hh : h ∈ (s.core.newer c).filterMap Action.lookedUp) :
    s.Occupied h := by
  obtain ⟨-, acts, hlog, hocc⟩ := hc hr.core
  rw [Enforcer.newer_of_log hlog] at hh
  obtain ⟨a, ha, hah⟩ := List.mem_filterMap.mp hh
  exact hocc a ha h hah

/-- A pending `MonitorAction` finds its object. -/
theorem found_pending (hr : s.Rooted) (hh : h ∈ match s.pending.lookup t with
      | some (.check h _ _) | some (.probe h _ _ _ _) => [h]
      | _ => []) : s.Occupied h := by
  split at hh
  · next hx =>
    obtain rfl := List.mem_singleton.mp hh
    exact hr.pending t _ h hx (by simp [Pending.monitors])
  · next hx =>
    obtain rfl := List.mem_singleton.mp hh
    exact hr.pending t _ h hx (by simp [Pending.monitors])
  · cases hh

/-- Every lookup of an event finds an object. -/
theorem found (hr : s.Rooted) (hsound : s.TargetsSound) {e : Event} (hh : h ∈ s.lookups e) :
    s.Occupied h := by
  cases e with
  | request req => exact found_base hr (within_base hsound rfl (Or.inl ⟨req, rfl⟩)) hh
  | fire cb status =>
    simp only [lookups, baseActions] at hh
    split at hh
    · next c hc => exact found_base hr (within_base hsound hc (Or.inr ⟨cb, status, rfl⟩)) hh
    · cases hh
  | observerRegister h port => cases hh
  | observerCancel h' =>
    simp only [lookups] at hh
    split at hh
    · next hocc =>
      obtain rfl := List.mem_singleton.mp hh
      exact hocc
    · cases hh
  | timer t | reply t | timeout t | failed t _ => exact found_pending hr hh

/-- And then nothing but `Ends` keeps the event from ending well. -/
theorem ends_of_none (hr : s.Rooted) (hsound : s.TargetsSound) (hnone : step s e = none) :
    s.Ends e := by
  obtain ⟨e, out⟩ := e
  by_contra hends
  refine Option.ne_none_iff_exists'.mpr ?_ hnone
  cases e with
  | request req => exact exists_runHooks hr (within_base hsound rfl (Or.inl ⟨req, rfl⟩)) hends
  | fire cb status =>
    obtain ⟨hmem, hout⟩ := not_or.mp hends
    have hc : s.core.step (.fire cb status) = some ((s.core.take cb).call cb status) :=
      Enforcer.step_fire.mpr ⟨not_not.mp hmem, rfl⟩
    simp only [step, hc, Option.bind_eq_bind, Option.bind_some]
    exact exists_runHooks hr (within_base hsound hc (Or.inr ⟨cb, status, rfl⟩)) hout
  | observerRegister h port => exact ⟨_, rfl⟩
  | observerCancel h =>
    simp only [step, observerCancel]
    split
    · next v hv =>
      have hocc : s.Occupied h := occupied_iff.mpr ⟨v, hv⟩
      obtain ⟨s₁, hs₁⟩ := exists_stopMonitoring hocc
      simp only [hs₁, Option.bind_eq_bind, Option.bind_some]
      exact exists_observeDown ((steady_stopMonitoring hs₁).occupied ▸ hocc) _ _ _
    · exact ⟨_, rfl⟩
  | timer t =>
    obtain ⟨hcheck, hout⟩ := not_or.mp hends
    push Not at hcheck
    obtain ⟨h, rxBytes, counter, hx⟩ := hcheck
    simp only [step, hx]
    exact exists_monitorAction (hr.pending t _ h hx (by simp [Pending.monitors])) hout
  | reply t =>
    obtain ⟨hprobe, hout⟩ := not_or.mp hends
    push Not at hprobe
    obtain ⟨h, rxBytes, counter, v, n, hx⟩ := hprobe
    simp only [step, hx]
    exact exists_monitorAction (hr.pending t _ h hx (by simp [Pending.monitors])) hout
  | timeout t =>
    simp only [Ends] at hends
    push Not at hends
    obtain ⟨h, rxBytes, counter, v, n, hx⟩ := hends
    simp only [step, hx]
    exact exists_probeTimedOut (s := s.take t) (hr.pending t _ h hx (by simp [Pending.monitors])) t
  | failed t counter => exact (hends trivial).elim

/-! ## Runs -/

/-- **Valid targets have objects**, in every state of a run, and every event that comes finds the
objects it looks up and ends for other reasons only, exactly if each `VMM_OBS_CANCEL` of the run is
for a handle that holds an object. -/
theorem lookups_iff (gv : List GenNo) (gens : Handle → GenNo) (es : List (Event × Outside)) :
    (Run.Always step TargetsSound (init gv gens) es ∧ Run.Tried step Checked (init gv gens) es) ↔
      Run.Along step (fun s e _ => s.CancelsKnown e) (init gv gens) es := by
  have hrooted : (init gv gens).Rooted ∧ (init gv gens).TargetsSound :=
    ⟨⟨Enforcer.confined_init gv gens, fun _ _ _ h => (by cases h)⟩,
      targetsSound_iff.mpr fun _ h => (by cases h)⟩
  have hstep : ∀ s e s', step s e = some s' → s.Rooted ∧ s.TargetsSound → s.CancelsKnown e →
      s'.Rooted ∧ s'.TargetsSound := fun s e s' h₁ hs hknown => rooted_step hs.1 hs.2 hknown h₁
  constructor
  · rintro ⟨halways, -⟩
    refine (Run.always_iff_of_inv (fun s hs => hs.2) hstep ?_ hrooted).mp halways
    rintro s ⟨e, out⟩ s' h₁ - hsound h rfl
    by_contra hocc
    have hnone : s.installed h = none := by
      simpa [Occupied] using hocc
    simp only [step, observerCancel, hnone, Option.some.injEq] at h₁
    subst h₁
    exact targetsSound_iff.mp hsound h (Function.update_self _ _ _)
  · intro hknown
    have halways : Run.Always step (fun s => s.Rooted ∧ s.TargetsSound) (init gv gens) es :=
      Run.Always.of_inv (fun _ hs => hs) hstep hrooted hknown
    refine ⟨Run.Always.of_inv (fun _ hs => hs.2) hstep hrooted hknown, ?_⟩
    exact Run.Tried.of_always (fun s e hs => ⟨fun _ => found hs.1 hs.2, ends_of_none hs.1 hs.2⟩)
      es _ halways

/-- A cancellation for a handle that no monitor has, and a request for it. -/
def unknownCancelled : List (Event × Outside) :=
  [(.observerCancel "vmm", silent),
   (.request (.register ⟨⟨"vmm", [0]⟩, false, -1, ⟨1, 0, 7⟩⟩), silent)]

/-- The handle becomes a valid target without an object, and the request ends the program. -/
theorem null_looked_up :
    ¬ (Run.Always step TargetsSound (init [] fun _ => 0) unknownCancelled ∧
        Run.Tried step Checked (init [] fun _ => 0) unknownCancelled) ∧
      unknownCancelled.foldlM step (init [] fun _ => 0) = none := by
  refine ⟨fun h => ?_, rfl⟩
  have hocc := (h.1.2 _ rfl).1 "vmm" rfl
  cases hocc

end VMMEnforcer

end Falcon
