import Falcon.Machinery.Run
import Falcon.Vmm.Moves

/-!
# Vmm/Probes — which probes condemn a virtual machine monitor

A late answer to a probe is told from a current one by its counter; a time-out is not.  It condemns
the target whose handle the probe carries, whatever object is installed there and however often the
monitoring has been stopped and started since.

* `condemned_by_current_probe` — a time-out reports a target down only if the probe was sent to the
  object installed, and since its last `StartMonitoring`; as long as the monitoring of a target does
  not start while a probe of it is outstanding.
-/

namespace Falcon

/-- A probe of `h`. -/
def Pending.probes (h : Handle) : Pending → Bool
  | .probe h' _ _ _ _ => h' = h
  | _ => false

namespace VMMEnforcer

variable {s s' : VMMEnforcer} {e : Event × Outside} {h : Handle} {v : VmmRef} {t : ActionRef}
  {x : Pending} {out : Outside}

/-- No probe of `h` is outstanding. -/
def unprobed (s : VMMEnforcer) (h : Handle) : Bool :=
  s.pending.entries.all fun x => !x.2.probes h

/-- The step reports a target down, or stops a port. -/
def Condemns (s s' : VMMEnforcer) : Prop :=
  (∃ h, .observeDown h ∈ s.core.newer s'.core) ∨ s'.stopped ≠ s.stopped

/-- A time-out reports no target down but that of the probe, and condemns it only if the probe was
sent to the object installed, and since its last `StartMonitoring`. -/
def CondemnedByCurrent (s : VMMEnforcer) (e : Event × Outside) (s' : VMMEnforcer) : Prop :=
  ∀ t h rxBytes counter v n, e.1 = .timeout t →
    s.pending.lookup t = some (.probe h rxBytes counter v n) →
    (∀ h', .observeDown h' ∈ s.core.newer s'.core → h' = h) ∧
    (s.Condemns s' → s.installed h = some v ∧ s.starts v = n)

/-! ## The probes of a monitored object -/

/-- The probes of a handle whose object is monitored were sent to the object, and since its last
`StartMonitoring`. -/
structure Fresh (s : VMMEnforcer) : Prop where
  named : s.core.Named
  allocated : ∀ h v, s.installed h = some v → v < s.nextVmm
  apart : ∀ h h' v, s.installed h = some v → s.installed h' = some v → h = h'
  armed : ∀ t x, s.pending.lookup t = some x → t < s.nextAction
  current : ∀ h v t rxBytes counter v' n, s.installed h = some v → (s.vmms v).monitored = true →
    s.pending.lookup t = some (.probe h rxBytes counter v' n) → v' = v ∧ n = s.starts v

theorem unprobed_iff : s.unprobed h = true ↔
    ∀ t rxBytes counter v n, s.pending.lookup t ≠ some (.probe h rxBytes counter v n) := by
  rw [unprobed, List.all_eq_true]
  constructor
  · intro hun t rxBytes counter v n hx
    simpa [Pending.probes] using hun ⟨t, _⟩ (Keyed.mem_entries_iff.mpr hx)
  · rintro hun ⟨t, x⟩ hmem
    have hx := Keyed.mem_entries_iff.mp hmem
    cases x with
    | probe h' rxBytes counter v n =>
      have hne : h' ≠ h := by
        rintro rfl
        exact hun t rxBytes counter v n hx
      simp [Pending.probes, hne]
    | check => rfl
    | retry => rfl

/-- Something is handed to the event loop that is not a probe, or a current one. -/
theorem Fresh.delaycb (hs : Fresh s)
    (hx : ∀ h v rxBytes counter v' n, s.installed h = some v → x = .probe h rxBytes counter v' n →
      v' = v ∧ n = s.starts v) : Fresh (s.delaycb x) := by
  refine ⟨hs.named, hs.allocated, hs.apart, fun t y hy => ?_,
    fun h v t rxBytes counter v' n hv hm hy => ?_⟩
  · by_cases ht : t = s.nextAction
    · exact ht ▸ Nat.lt_succ_self _
    · exact Nat.lt_succ_of_lt (hs.armed t y ((AList.lookup_insert_ne ht).symm.trans hy))
  · by_cases ht : t = s.nextAction
    · subst ht
      exact hx h v rxBytes counter v' n hv (Option.some.inj ((AList.lookup_insert _).symm.trans hy))
    · exact hs.current h v t rxBytes counter v' n hv hm ((AList.lookup_insert_ne ht).symm.trans hy)

/-- An object changes that is not monitored afterwards unless it was before. -/
theorem Fresh.setVmm (hs : Fresh s) {o : VMM}
    (ho : o.monitored = true → (s.vmms v).monitored = true) : Fresh (s.setVmm v o) := by
  refine ⟨hs.named, hs.allocated, hs.apart, hs.armed,
    fun h v₁ t rxBytes counter v' n hv hm hx => ?_⟩
  refine hs.current h v₁ t rxBytes counter v' n hv ?_ hx
  by_cases heq : v₁ = v
  · subst heq
    exact ho (by simpa [VMMEnforcer.setVmm] using hm)
  · simpa [VMMEnforcer.setVmm, heq] using hm

/-- The monitoring starts with no probe outstanding. -/
theorem Fresh.monitor (hs : Fresh s) (hv : s.installed h = some v) (hun : s.unprobed h = true) :
    Fresh { s.setVmm v { s.vmms v with monitored := true } with
      starts := Function.update s.starts v (s.starts v + 1) } := by
  refine ⟨hs.named, hs.allocated, hs.apart, hs.armed,
    fun h' v₁ t rxBytes counter v' n hv₁ hm hx => ?_⟩
  have hne : v₁ ≠ v := by
    rintro rfl
    obtain rfl := hs.apart h' h v₁ hv₁ hv
    exact unprobed_iff.mp hun t rxBytes counter v' n hx
  have hm' : (s.vmms v₁).monitored = true := by simpa [VMMEnforcer.setVmm, hne] using hm
  obtain ⟨rfl, rfl⟩ := hs.current h' v₁ t rxBytes counter v' n hv₁ hm' hx
  exact ⟨rfl, (Function.update_of_ne hne _ _).symm⟩

/-- A new object is not monitored. -/
theorem Fresh.install (hs : Fresh s) (port : UInt32) : Fresh (s.install h port) := by
  have hinst : ∀ h' v, (s.install h port).installed h' = some v →
      h' = h ∧ v = s.nextVmm ∨ h' ≠ h ∧ s.installed h' = some v := by
    intro h' v hv
    by_cases heq : h' = h
    · subst heq
      exact Or.inl ⟨rfl, by simpa [VMMEnforcer.install, installed, eq_comm] using hv⟩
    · exact Or.inr ⟨heq, by simpa [VMMEnforcer.install, installed, heq] using hv⟩
  refine ⟨hs.named, fun h' v hv => ?_, fun h₁ h₂ v hv₁ hv₂ => ?_, hs.armed,
    fun h' v t rxBytes counter v' n hv hm hx => ?_⟩
  · obtain ⟨-, rfl⟩ | ⟨-, hv⟩ := hinst h' v hv
    · exact Nat.lt_succ_self _
    · exact Nat.lt_succ_of_lt (hs.allocated h' v hv)
  · obtain ⟨heq₁, hv₁⟩ | ⟨-, hv₁⟩ := hinst h₁ v hv₁ <;>
      obtain ⟨heq₂, hv₂⟩ | ⟨-, hv₂⟩ := hinst h₂ v hv₂
    · exact heq₁.trans heq₂.symm
    · exact absurd hv₁ (Nat.ne_of_lt (hs.allocated h₂ v hv₂))
    · exact absurd hv₂ (Nat.ne_of_lt (hs.allocated h₁ v hv₁))
    · exact hs.apart h₁ h₂ v hv₁ hv₂
  · obtain ⟨-, rfl⟩ | ⟨-, hv⟩ := hinst h' v hv
    · simp [VMMEnforcer.install] at hm
    · have hne : v ≠ s.nextVmm := Nat.ne_of_lt (hs.allocated h' v hv)
      have hm' : (s.vmms v).monitored = true := by simpa [VMMEnforcer.install, hne] using hm
      exact hs.current h' v t rxBytes counter v' n hv hm' hx

theorem Fresh.move (hs : Fresh s) (hm : Move (fun s h => s.unprobed h = true) s s') : Fresh s' := by
  cases hm with
  | base hc =>
    exact ⟨Enforcer.named_step hs.named hc, hs.allocated, hs.apart, hs.armed, hs.current⟩
  | take t =>
    refine ⟨hs.named, hs.allocated, hs.apart, fun t' x hx => ?_,
      fun h v t' rxBytes counter v' n hv hm hx => ?_⟩
    · exact hs.armed t' x (Keyed.lookup_of_lookup_erase hx)
    · exact hs.current h v t' rxBytes counter v' n hv hm (Keyed.lookup_of_lookup_erase hx)
  | check h rxBytes counter => exact hs.delaycb fun _ _ _ _ _ _ _ hx => (by cases hx)
  | retry v cb n => exact hs.delaycb fun _ _ _ _ _ _ _ hx => (by cases hx)
  | @probe h v rxBytes hv =>
    refine hs.delaycb fun h' v₁ rxBytes' counter v' n hv₁ hx => ?_
    cases hx
    obtain rfl := Option.some.inj (hv.symm.trans hv₁)
    exact ⟨rfl, rfl⟩
  | cbs f => exact ⟨hs.named, hs.allocated, hs.apart, hs.armed, hs.current⟩
  | stopped port => exact ⟨hs.named, hs.allocated, hs.apart, hs.armed, hs.current⟩
  | count v count => exact hs.setVmm id
  | unmonitor v => exact hs.setVmm fun hm => (by cases hm)
  | monitor hv hun => exact hs.monitor hv hun
  | install h port => exact hs.install port
  | @null h hnone =>
    have hinst : ∀ h' v, ({ s with
        monitoredVmms := Function.update s.monitoredVmms h (some none) }).installed h' = some v →
        s.installed h' = some v := by
      intro h' v hv
      by_cases heq : h' = h
      · subst heq
        simp [installed] at hv
      · simpa [installed, heq] using hv
    exact ⟨hs.named, fun h' v hv => hs.allocated h' v (hinst h' v hv),
      fun h₁ h₂ v hv₁ hv₂ => hs.apart h₁ h₂ v (hinst h₁ v hv₁) (hinst h₂ v hv₂), hs.armed,
      fun h' v t rxBytes counter v' n hv hm hx =>
        hs.current h' v t rxBytes counter v' n (hinst h' v hv) hm hx⟩

theorem fresh_init (gv : List GenNo) (gens : Handle → GenNo) : Fresh (init gv gens) :=
  ⟨Enforcer.named_init gv gens, fun _ _ h => (by cases h), fun _ _ _ h => (by cases h),
    fun _ _ h => (by cases h), fun _ _ _ _ _ _ _ h => (by cases h)⟩

/-- **What a time-out does**: nothing if the object is not monitored, else it is reported down. -/
theorem probeTimedOut_cases {cb : ActionRef} (h₁ : s.probeTimedOut h cb = some s') :
    ∃ v, s.installed h = some v ∧ ((s.vmms v).monitored = false ∧ s' = s ∨
      (s.vmms v).monitored = true ∧ ∃ k, s'.core = s.core.observeDown h vmmTimedout k true) := by
  simp only [probeTimedOut, Option.bind_eq_bind, Option.bind_eq_some_iff] at h₁
  obtain ⟨v, hv, h₁⟩ := h₁
  refine ⟨v, hv, ?_⟩
  split_ifs at h₁ with hidle hkill
  · exact Or.inl ⟨hidle, (Option.some.inj h₁).symm⟩
  · obtain ⟨s₁, hs₁, h₁⟩ := Option.bind_eq_some_iff.mp h₁
    simp only [kill, hv, Option.bind_eq_bind, Option.bind_some, Option.some.injEq] at hs₁
    subst hs₁
    have hcore := core_of_observeDown h₁
    exact Or.inr ⟨Bool.not_eq_false _ ▸ hidle, _, hcore⟩
  · obtain ⟨s₁, hs₁, h₁⟩ := Option.bind_eq_some_iff.mp h₁
    obtain rfl := Option.some.inj hs₁
    have hcore := core_of_observeDown h₁
    exact Or.inr ⟨Bool.not_eq_false _ ▸ hidle, _, hcore⟩

theorem Fresh.condemnedByCurrent (hs : Fresh s) (h₁ : step s e = some s') :
    s.CondemnedByCurrent e s' := by
  rintro t h rxBytes counter v n he hx
  obtain ⟨e, out⟩ := e
  obtain rfl : e = .timeout t := he
  simp only [step, hx] at h₁
  obtain ⟨v', hv', ⟨-, rfl⟩ | ⟨hm, k, hcore⟩⟩ := probeTimedOut_cases h₁
  · have hnil : s.core.newer (s.take t).core = [] := Enforcer.newer_of_log rfl
    refine ⟨fun h' hh => ?_, fun hcond => ?_⟩
    · rw [hnil] at hh
      cases hh
    · obtain ⟨h', hh⟩ | hstop := hcond
      · rw [hnil] at hh
        cases hh
      · exact absurd rfl hstop
  · refine ⟨fun h' hh => ?_, fun _ => ?_⟩
    · rw [hcore] at hh
      exact Enforcer.eq_of_newer_observeDown hh
    · obtain ⟨rfl, rfl⟩ := hs.current h v' t rxBytes counter v n hv' hm hx
      exact ⟨hv', rfl⟩

/-- **Only current probes condemn a monitor.**  In a run in which the monitoring of a target does
not start while a probe of it is outstanding, a time-out kills a target or reports it down only if
the probe was sent to the object installed, and since its last `StartMonitoring`. -/
theorem condemned_by_current_probe (gv : List GenNo) (gens : Handle → GenNo)
    (es : List (Event × Outside))
    (h : Run.Along step (fun s e _ => ∀ h ∈ s.starting e.1, s.unprobed h = true)
      (init gv gens) es) : Run.Along step CondemnedByCurrent (init gv gens) es :=
  Run.Along.of_inv (fun _ _ _ h₁ hs hun =>
    ⟨(moves_step hs.named (fun h hh _ => hun h hh) h₁).keeps (fun _ _ hm hs => hs.move hm) hs,
      hs.condemnedByCurrent h₁⟩) es _ (fresh_init gv gens) h

/-- The monitor `"vmm"` registers, gets a client and is probed; after `e` it registers again, gets a
client and is probed. -/
def probedAfter (e : Event) : List (Event × Outside) :=
  [(.observerRegister "vmm" 3, silent),
   (.request (.register ⟨⟨"vmm", [0]⟩, false, -1, ⟨1, 0, 7⟩⟩), silent), (e, silent),
   (.observerRegister "vmm" 3, silent),
   (.request (.register ⟨⟨"vmm", [1]⟩, false, -1, ⟨1, 0, 8⟩⟩), silent)]

/-- Both probes time out, each in its time. -/
theorem condemned_by_current_probe_twice : Run.Along step CondemnedByCurrent (init [] fun _ => 0)
    (probedAfter (.timeout 0) ++ [(.timeout 2, silent)]) :=
  condemned_by_current_probe [] (fun _ => 0) _ (by decide)

/-- The monitor signs off before the first probe times out: the first probe, sent to the first
object, reports the second one down. -/
theorem condemned_by_earlier_probe : ¬ Run.Along step CondemnedByCurrent (init [] fun _ => 0)
    (probedAfter (.observerCancel "vmm") ++ [(.timeout 0, silent)]) := by
  obtain ⟨s, s', hs, hs', hprobe, hdown, hinst⟩ : ∃ s s',
      (probedAfter (.observerCancel "vmm")).foldlM step (init [] fun _ => 0) = some s ∧
      step s (.timeout 0, silent) = some s' ∧
      s.pending.lookup 0 = some (.probe "vmm" 0 0 0 1) ∧
      .observeDown "vmm" ∈ s.core.newer s'.core ∧ s.installed "vmm" = some 1 :=
    ⟨_, _, rfl, rfl, by decide, by decide, by decide⟩
  intro h
  have hcur := Run.along_iff_run.mp h _ _ List.prefix_rfl s s' hs hs'
  obtain ⟨hold, -⟩ := (hcur 0 "vmm" 0 0 0 1 rfl hprobe).2 (Or.inl ⟨"vmm", hdown⟩)
  exact absurd (hinst.symm.trans hold) (by decide)

end VMMEnforcer

end Falcon
