import Falcon.Machinery.Run
import Falcon.Vmm.Moves

/-!
# Vmm/Watch — a virtual machine monitor with clients is being watched

The watching of a monitor is a chain of `MonitorAction`s, each on a timer or on the completion of a
probe, and each handing the next one to the event loop.  `StartMonitoring` begins a chain, and a
chain ends when the object installed is not `monitored`, or the sign of life is older than the
probes sent since.

* `clients_watched` — as long as no monitor registers again while it has clients, every target with
  clients has its object monitored, and a `MonitorAction` pending.
-/

namespace Falcon

/-- A `MonitorAction` for `h`. -/
def Pending.monitors (h : Handle) : Pending → Bool
  | .check h' _ _ => h' = h
  | .probe h' _ _ _ _ => h' = h
  | .retry _ _ _ => false

/-- The sign of life it stands for is not older than the probes sent so far. -/
def Pending.current (count : UInt64) : Pending → Bool
  | .check _ _ counter => count ≤ counter.toUInt64
  | .probe _ _ counter _ _ => count ≤ (counter + 1).toUInt64
  | .retry _ _ _ => false

namespace VMMEnforcer

variable {s s' : VMMEnforcer} {e : Event × Outside} {h : Handle} {v : VmmRef} {t : ActionRef}
  {x : Pending} {K K' : Handle → Prop} {out : Outside}

/-- The object under `h` is monitored, and a `MonitorAction` for `h` is pending. -/
def Watched (s : VMMEnforcer) (h : Handle) : Prop :=
  ∃ v, s.installed h = some v ∧ (s.vmms v).monitored = true ∧
    ∃ t x, s.pending.lookup t = some x ∧ x.monitors h

/-- Every target with clients is watched. -/
def ClientsWatched (s : VMMEnforcer) : Prop :=
  ∀ h, (s.core.targetClients h).isEmpty = false → s.Watched h

/-- The handle of a `VMM_OBS_REGISTER`. -/
def Event.registers : Event → Option Handle
  | .observerRegister h _ => some h
  | _ => none

/-- A probe ends with an error other than `RPC_TIMEDOUT`. -/
def Event.fails : Event → Bool
  | .failed _ _ => true
  | _ => false

/-- No monitor registers while it has clients, no object has been sent `2 ^ 32 - 1` probes, and a
probe is answered or times out. -/
structure Undisturbed (s : VMMEnforcer) (e : Event × Outside) : Prop where
  kept : ∀ h ∈ e.1.registers, (s.core.targetClients h).isEmpty = true
  few : ∀ v < s.nextVmm, (s.vmms v).count.toNat + 1 < UInt32.size
  ends : e.1.fails = false

instance (s : VMMEnforcer) (e : Event × Outside) : Decidable (s.Undisturbed e) :=
  decidable_of_iff ((∀ h ∈ e.1.registers, (s.core.targetClients h).isEmpty = true) ∧
      (∀ v < s.nextVmm, (s.vmms v).count.toNat + 1 < UInt32.size) ∧ e.1.fails = false)
    ⟨fun ⟨h₁, h₂, h₃⟩ => ⟨h₁, h₂, h₃⟩, fun ⟨h₁, h₂, h₃⟩ => ⟨h₁, h₂, h₃⟩⟩

/-! ## Chains -/

/-- A `MonitorAction` for `h` is pending that does not end the chain of the object `v`. -/
def Live (s : VMMEnforcer) (h : Handle) (v : VmmRef) : Prop :=
  ∃ t x, s.pending.lookup t = some x ∧ x.monitors h ∧ x.current (s.vmms v).count

/-- The objects are installed under one handle each, and those monitored under a handle in `K` have
a chain. -/
structure Sound (K : Handle → Prop) (s : VMMEnforcer) : Prop where
  named : s.core.Named
  allocated : ∀ h v, s.installed h = some v → v < s.nextVmm
  apart : ∀ h h' v, s.installed h = some v → s.installed h' = some v → h = h'
  armed : ∀ t x, s.pending.lookup t = some x → t < s.nextAction
  chain : ∀ h v, K h → s.installed h = some v → (s.vmms v).monitored = true → s.Live h v

theorem Live.mono (hlive : s.Live h v) (hcount : (s'.vmms v).count = (s.vmms v).count)
    (hkeep : ∀ t x, s.pending.lookup t = some x → x.monitors h → s'.pending.lookup t = some x) :
    s'.Live h v := by
  obtain ⟨t, x, hx, hmon, hcur⟩ := hlive
  exact ⟨t, x, hkeep t x hx hmon, hmon, hcount ▸ hcur⟩

theorem Sound.imp (hs : Sound K s) (hK : ∀ h, K' h → K h) : Sound K' s :=
  ⟨hs.named, hs.allocated, hs.apart, hs.armed, fun h v hh => hs.chain h v (hK h hh)⟩

theorem or_eq_of_ne {h' : Handle} (hh : K h') : (K h' ∧ h' ≠ h) ∨ h' = h := by
  by_cases heq : h' = h
  · exact Or.inr heq
  · exact Or.inl ⟨hh, heq⟩

theorem Sound.core (hs : Sound K s) {c : Enforcer} (hc : c.Named) : Sound K { s with core := c } :=
  ⟨hc, hs.allocated, hs.apart, hs.armed, hs.chain⟩

theorem lookup_delaycb_of_lookup (hs : Sound K s) {y : Pending} (hx : s.pending.lookup t = some x) :
    (s.delaycb y).pending.lookup t = some x :=
  (AList.lookup_insert_ne (Nat.ne_of_lt (hs.armed t x hx))).trans hx

theorem Sound.delaycb (hs : Sound K s) (y : Pending) : Sound K (s.delaycb y) := by
  refine ⟨hs.named, hs.allocated, hs.apart, fun t x hx => ?_, fun h v hh hv hm => ?_⟩
  · by_cases ht : t = s.nextAction
    · exact ht ▸ Nat.lt_succ_self _
    · exact Nat.lt_succ_of_lt (hs.armed t x ((AList.lookup_insert_ne ht).symm.trans hx))
  · exact (hs.chain h v hh hv hm).mono rfl fun t x hx _ => lookup_delaycb_of_lookup hs hx

/-- What is taken out of the event loop can end the chain of its own handle only. -/
theorem Sound.take (hs : Sound K s) (hx : s.pending.lookup t = some x) :
    Sound (fun h => K h ∧ x.monitors h = false) (s.take t) := by
  refine ⟨hs.named, hs.allocated, hs.apart, fun t' y hy => ?_, fun h v hh hv hm => ?_⟩
  · exact hs.armed t' y (Keyed.lookup_of_lookup_erase hy)
  · refine (hs.chain h v hh.1 hv hm).mono rfl fun t' y hy hmon => ?_
    refine (AList.lookup_erase_ne fun ht => ?_).trans hy
    subst ht
    obtain rfl := Option.some.inj (hx.symm.trans hy)
    exact nomatch hh.2.symm.trans hmon

theorem Sound.take_monitors (hs : Sound K s) (hx : s.pending.lookup t = some x)
    (hmon : ∀ h', x.monitors h' = true ↔ h' = h) : Sound (fun h' => K h' ∧ h' ≠ h) (s.take t) :=
  (hs.take hx).imp fun h' hh => ⟨hh.1, Bool.eq_false_iff.mpr fun hm => hh.2 ((hmon h').mp hm)⟩

/-- A change of the object under `h` that makes it unmonitored. -/
theorem Sound.unmonitor (hs : Sound K s) (hv : s.installed h = some v) :
    Sound (fun h' => K h' ∨ h' = h) (s.setVmm v { s.vmms v with monitored := false }) := by
  refine ⟨hs.named, hs.allocated, hs.apart, hs.armed, fun h' v' hh hv' hm => ?_⟩
  by_cases hne : v' = v
  · subst hne
    simp [setVmm] at hm
  · have hsame : (s.setVmm v { s.vmms v with monitored := false }).vmms v' = s.vmms v' :=
      Function.update_of_ne hne _ _
    have hK : K h' := by
      refine hh.resolve_right fun heq => hne ?_
      subst heq
      exact Option.some.inj (hv'.symm.trans hv)
    rw [hsame] at hm
    exact (hs.chain h' v' hK hv' hm).mono (by rw [hsame]) fun _ _ hx _ => hx

/-- The object under `h` changes, and nothing is said of its chain. -/
theorem Sound.setVmm (hs : Sound K s) (hv : s.installed h = some v) (o : VMM) :
    Sound (fun h' => K h' ∧ h' ≠ h) (s.setVmm v o) := by
  refine ⟨hs.named, hs.allocated, hs.apart, hs.armed, fun h' v' hh hv' hm => ?_⟩
  have hne : v' ≠ v := by
    rintro rfl
    exact hh.2 (hs.apart h' h v' hv' hv)
  have hsame : (s.setVmm v o).vmms v' = s.vmms v' := Function.update_of_ne hne _ _
  rw [hsame] at hm
  exact (hs.chain h' v' hh.1 hv' hm).mono (by rw [hsame]) fun _ _ hx _ => hx

/-- A chain for `h`. -/
theorem Sound.live (hs : Sound K s) (hv : s.installed h = some v) (hlive : s.Live h v) :
    Sound (fun h' => K h' ∨ h' = h) s := by
  refine ⟨hs.named, hs.allocated, hs.apart, hs.armed, fun h' v' hh hv' hm => ?_⟩
  obtain hK | rfl := hh
  · exact hs.chain h' v' hK hv' hm
  · exact Option.some.inj (hv.symm.trans hv') ▸ hlive

/-! ## The methods -/

/-- The answer to the probe just sent is not ignored. -/
theorem current_probe {count : UInt64} (hfew : count.toNat + 1 < UInt32.size) {rxBytes : UInt64}
    {n : ℕ} : (Pending.probe h rxBytes count.toUInt32 v n).current (count + 1) := by
  have hsize : UInt32.size = 4294967296 := rfl
  simp only [Pending.current, decide_eq_true_eq, UInt64.le_iff_toNat_le, UInt64.toNat_add,
    UInt32.toNat_toUInt64, UInt32.toNat_add, UInt64.toNat_toUInt32]
  simp only [UInt64.toNat_one, UInt32.toNat_one]
  omega

theorem Sound.sendProbe (hs : Sound K s) (hv : s.installed h = some v)
    (hfew : (s.vmms v).count.toNat + 1 < UInt32.size) (rxBytes : UInt64) :
    Sound (fun h' => K h' ∨ h' = h) (s.sendProbe h v rxBytes) := by
  set o := s.vmms v with ho
  set probe := Pending.probe h rxBytes o.count.toUInt32 v (s.starts v) with hprobe
  have hsent : Sound K { s.delaycb probe with cbs := Function.update s.cbs s.nextAction true } := by
    have hs₁ := hs.delaycb probe
    exact ⟨hs₁.named, hs₁.allocated, hs₁.apart, hs₁.armed, hs₁.chain⟩
  have hset := (hsent.setVmm hv { o with count := o.count + 1 }).live hv
    ⟨s.nextAction, probe, AList.lookup_insert _, by simp [hprobe, Pending.monitors], by
      simpa [VMMEnforcer.setVmm, hprobe] using current_probe hfew⟩
  refine (hset.delaycb (.retry v s.nextAction 0)).imp fun h' hh => ?_
  by_cases heq : h' = h
  · exact Or.inr heq
  · exact Or.inl ⟨hh.resolve_right heq, heq⟩

/-- **What `MonitorAction` does on a sign of life**: nothing if the object is not monitored or the
sign is an old one, else it sends a probe or waits on. -/
theorem monitorAction_cases {rxBytes : UInt64} {counter : UInt32} {oldCb : Option ActionRef}
    (h₁ : s.monitorAction h rxBytes counter oldCb out = some s') : ∃ v, s.installed h = some v ∧
      (s' = s ∧ ((s.vmms v).monitored = false ∨ counter.toUInt64 < (s.vmms v).count) ∨
      (s.vmms v).monitored = true ∧ (s.vmms v).count ≤ counter.toUInt64 ∧
        ∃ rxBytes',
          s' = ({ s with core := s.core.observeUp h }.clear oldCb).sendProbe h v rxBytes' ∨
          s' = ({ s with core := s.core.observeUp h }.clear oldCb).delaycb
            (.check h rxBytes' counter)) := by
  simp only [monitorAction, Option.bind_eq_bind, Option.bind_eq_some_iff] at h₁
  obtain ⟨v, hv, h₁⟩ := h₁
  refine ⟨v, hv, ?_⟩
  split_ifs at h₁ with hidle hold
  · exact Or.inl ⟨(Option.some.inj h₁).symm, Or.inl hidle⟩
  · exact Or.inl ⟨(Option.some.inj h₁).symm, Or.inr hold⟩
  · obtain ⟨rxBytes', -, h₁⟩ := Option.bind_eq_some_iff.mp h₁
    refine Or.inr ⟨Bool.not_eq_false _ ▸ hidle, UInt64.not_lt.mp hold, rxBytes', ?_⟩
    split_ifs at h₁
    · exact Or.inl (Option.some.inj h₁).symm
    · exact Or.inr (Option.some.inj h₁).symm

/-- The state past `ObserveUp`. -/
theorem Sound.observeUp (hs : Sound K s) (cb : Option ActionRef) :
    Sound K ({ s with core := s.core.observeUp h }.clear cb) := by
  have hnamed := Enforcer.named_step (e := .observeUp h) hs.named rfl
  cases cb with
  | none => exact ⟨hnamed, hs.allocated, hs.apart, hs.armed, hs.chain⟩
  | some cb => exact ⟨hnamed, hs.allocated, hs.apart, hs.armed, hs.chain⟩

/-- **A sign of life carries the chain on**, unless it is older than the probes sent since. -/
theorem Sound.monitorAction {rxBytes : UInt64} {counter : UInt32} {oldCb : Option ActionRef}
    (hs : Sound (fun h' => K h' ∧ h' ≠ h) s)
    (hfew : ∀ v, s.installed h = some v → (s.vmms v).count.toNat + 1 < UInt32.size)
    (hlive : ∀ v, s.installed h = some v → (s.vmms v).monitored = true →
      (s.vmms v).count ≤ counter.toUInt64 ∨ s.Live h v)
    (h₁ : s.monitorAction h rxBytes counter oldCb out = some s') : Sound K s' := by
  have hup : Sound (fun h' => K h' ∧ h' ≠ h) ({ s with core := s.core.observeUp h }.clear oldCb) :=
    hs.observeUp oldCb
  obtain ⟨v, hv, ⟨rfl, hend⟩ | ⟨hmon, hcur, rxBytes', rfl | rfl⟩⟩ := monitorAction_cases h₁
  · refine ⟨hs.named, hs.allocated, hs.apart, hs.armed, fun h' v' hh hv' hm => ?_⟩
    obtain hK | rfl := or_eq_of_ne (h := h) hh
    · exact hs.chain h' v' hK hv' hm
    · obtain rfl := Option.some.inj (hv.symm.trans hv')
      refine (hlive v hv hm).resolve_left fun hle => ?_
      obtain hidle | hold := hend
      · exact nomatch hidle.symm.trans hm
      · exact UInt64.not_le.mpr hold hle
  · refine (hup.sendProbe (v := v) ?_ ?_ rxBytes').imp fun _ => or_eq_of_ne
    · cases oldCb <;> exact hv
    · cases oldCb <;> exact hfew v hv
  · refine ((hup.delaycb (.check h rxBytes' counter)).live (v := v) ?_ ?_).imp fun _ => or_eq_of_ne
    · cases oldCb <;> exact hv
    · refine ⟨_, _, AList.lookup_insert _, by simp [Pending.monitors], ?_⟩
      cases oldCb <;> exact decide_eq_true hcur

/-- A counter of fewer than `2 ^ 32` probes fits in a message. -/
theorem le_toUInt32 {count : UInt64} (hfew : count.toNat + 1 < UInt32.size) :
    count ≤ count.toUInt32.toUInt64 := by
  have hsize : UInt32.size = 4294967296 := rfl
  rw [UInt64.le_iff_toNat_le, UInt32.toNat_toUInt64, UInt64.toNat_toUInt32]
  omega

theorem Sound.startMonitoring (hs : Sound K s)
    (hfew : ∀ v < s.nextVmm, (s.vmms v).count.toNat + 1 < UInt32.size)
    (h₁ : s.startMonitoring h out = some s') : Sound K s' := by
  simp only [VMMEnforcer.startMonitoring, Option.bind_eq_bind, Option.bind_eq_some_iff] at h₁
  obtain ⟨v, hv, rxBytes, -, h₁⟩ := h₁
  have hcount := hfew v (hs.allocated h v hv)
  set s₁ : VMMEnforcer := { s.setVmm v { s.vmms v with monitored := true } with
    starts := Function.update s.starts v (s.starts v + 1) } with hs₁
  have hset := hs.setVmm hv { s.vmms v with monitored := true }
  have hstarted : Sound (fun h' => K h' ∧ h' ≠ h) s₁ :=
    ⟨hset.named, hset.allocated, hset.apart, hset.armed, hset.chain⟩
  have hobj : ∀ v', s₁.installed h = some v' → (s₁.vmms v').count = (s.vmms v).count := by
    intro v' hv'
    obtain rfl : v = v' := Option.some.inj (hv.symm.trans hv')
    simp [hs₁, VMMEnforcer.setVmm]
  refine hstarted.monitorAction (fun v' hv' => ?_) (fun v' hv' _ => Or.inl ?_) h₁
  · rw [hobj v' hv']
    exact hcount
  · rw [hobj v' hv']
    exact le_toUInt32 hcount

theorem Sound.stopMonitoring (hs : Sound K s) (h₁ : s.stopMonitoring h = some s') :
    Sound (fun h' => K h' ∨ h' = h) s' := by
  simp only [VMMEnforcer.stopMonitoring, Option.bind_eq_bind, Option.bind_eq_some_iff,
    Option.some.injEq] at h₁
  obtain ⟨v, hv, rfl⟩ := h₁
  exact hs.unmonitor hv

theorem Sound.kill (hs : Sound K s) (h₁ : s.kill h = some s') : Sound K s' := by
  simp only [VMMEnforcer.kill, Option.bind_eq_bind, Option.bind_eq_some_iff,
    Option.some.injEq] at h₁
  obtain ⟨v, -, rfl⟩ := h₁
  exact ⟨hs.named, hs.allocated, hs.apart, hs.armed, hs.chain⟩

theorem Sound.observeDown {st : UInt32} {k w : Bool} (hs : Sound K s)
    (h₁ : s.observeDown h st k w = some s') : Sound (fun h' => K h' ∨ h' = h) s' :=
  (hs.core (Enforcer.named_step (e := .observeDown h st k w) hs.named rfl)).stopMonitoring h₁

/-- Only the chain of `h` can be missing, and it is not if `h` is not monitored. -/
theorem Sound.of_idle (hs : Sound (fun h' => K h' ∧ h' ≠ h) s) (hv : s.installed h = some v)
    (hidle : (s.vmms v).monitored = false) : Sound K s := by
  refine ⟨hs.named, hs.allocated, hs.apart, hs.armed, fun h' v' hh hv' hm => ?_⟩
  by_cases heq : h' = h
  · subst heq
    obtain rfl := Option.some.inj (hv.symm.trans hv')
    exact nomatch hidle.symm.trans hm
  · exact hs.chain h' v' ⟨hh, heq⟩ hv' hm

theorem Sound.probeTimedOut {cb : ActionRef} (hs : Sound (fun h' => K h' ∧ h' ≠ h) s)
    (h₁ : s.probeTimedOut h cb = some s') : Sound K s' := by
  simp only [VMMEnforcer.probeTimedOut, Option.bind_eq_bind, Option.bind_eq_some_iff] at h₁
  obtain ⟨v, hv, h₁⟩ := h₁
  split_ifs at h₁ with hidle hkill
  · obtain rfl := Option.some.inj h₁
    exact hs.of_idle hv hidle
  all_goals
    obtain ⟨s₁, hs₁, h₁⟩ := Option.bind_eq_some_iff.mp h₁
    have hsound : Sound (fun h' => K h' ∧ h' ≠ h) s₁ := by
      first
        | exact hs.kill hs₁
        | exact Option.some.inj hs₁ ▸ hs
    have hclear : Sound (fun h' => K h' ∧ h' ≠ h) (s₁.clear (some cb)) :=
      ⟨hsound.named, hsound.allocated, hsound.apart, hsound.armed, hsound.chain⟩
    exact (hclear.observeDown h₁).imp fun _ => or_eq_of_ne

theorem Sound.retry {cb : ActionRef} {n : ℕ} (hs : Sound K s)
    (h₁ : s.retry v cb n = some s') : Sound K s' := by
  unfold VMMEnforcer.retry at h₁
  split_ifs at h₁
  · exact Option.some.inj h₁ ▸ hs.delaycb _
  · exact Option.some.inj h₁ ▸ hs

theorem installed_install {port : UInt32} {h' : Handle}
    (hv : (s.install h port).installed h' = some v) :
    h' = h ∧ v = s.nextVmm ∨ h' ≠ h ∧ s.installed h' = some v := by
  change (Function.update s.monitoredVmms h (some (some s.nextVmm)) h').join = some v at hv
  by_cases heq : h' = h
  · subst heq
    rw [Function.update_self] at hv
    exact Or.inl ⟨rfl, (Option.some.inj hv).symm⟩
  · rw [Function.update_of_ne heq] at hv
    exact Or.inr ⟨heq, hv⟩

theorem Sound.install (hs : Sound K s) (port : UInt32) : Sound K (s.install h port) := by
  refine ⟨hs.named, fun h' v' hv' => ?_, fun h' h'' v' hv' hv'' => ?_, hs.armed,
    fun h' v' hh hv' hm => ?_⟩
  · obtain ⟨-, rfl⟩ | ⟨-, hv'⟩ := installed_install hv'
    · exact Nat.lt_succ_self _
    · exact Nat.lt_succ_of_lt (hs.allocated h' v' hv')
  · have hnew : ∀ h₁, s.installed h₁ ≠ some s.nextVmm := fun h₁ hv =>
      Nat.lt_irrefl _ (hs.allocated h₁ _ hv)
    obtain ⟨rfl, rfl⟩ | ⟨-, hv'⟩ := installed_install hv'
    · obtain ⟨rfl, -⟩ | ⟨-, hv''⟩ := installed_install hv''
      · rfl
      · exact (hnew _ hv'').elim
    · obtain ⟨-, rfl⟩ | ⟨-, hv''⟩ := installed_install hv''
      · exact (hnew _ hv').elim
      · exact hs.apart h' h'' v' hv' hv''
  · obtain ⟨-, rfl⟩ | ⟨-, hv'⟩ := installed_install hv'
    · simp [VMMEnforcer.install] at hm
    · have hsame : (s.install h port).vmms v' = s.vmms v' :=
        Function.update_of_ne (Nat.ne_of_lt (hs.allocated h' v' hv')) _ _
      exact (hs.chain h' v' hh hv' (hsame ▸ hm)).mono (congrArg VMM.count hsame)
        fun _ _ hx _ => hx

theorem Sound.observerRegister (hs : Sound K s) (port : UInt32) :
    Sound K (s.observerRegister h port) := by
  refine Sound.install ?_ port
  cases hv : s.installed h with
  | none => exact hs
  | some v => exact (hs.unmonitor hv).imp fun _ => Or.inl

theorem Sound.observerCancel (hs : Sound K s) (h₁ : s.observerCancel h = some s') : Sound K s' := by
  unfold VMMEnforcer.observerCancel at h₁
  split at h₁
  · obtain ⟨s₁, hs₁, h₁⟩ := Option.bind_eq_some_iff.mp h₁
    exact ((hs.stopMonitoring hs₁).observeDown h₁).imp fun _ hh => Or.inl (Or.inl hh)
  · next hnone =>
    obtain rfl := Option.some.inj h₁
    have hinst : ∀ h' v, { s with
        monitoredVmms := Function.update s.monitoredVmms h (some none) }.installed h' = some v →
        s.installed h' = some v := by
      intro h' v hv
      change (Function.update s.monitoredVmms h (some none) h').join = some v at hv
      by_cases heq : h' = h
      · subst heq
        rw [Function.update_self] at hv
        cases hv
      · rwa [Function.update_of_ne heq] at hv
    exact ⟨hs.named, fun h' v hv => hs.allocated h' v (hinst h' v hv),
      fun h' h'' v hv hv' => hs.apart h' h'' v (hinst h' v hv) (hinst h'' v hv'), hs.armed,
      fun h' v hh hv hm => hs.chain h' v hh (hinst h' v hv) hm⟩

/-! ## Clients -/

/-- Every target in `K` with clients has its object monitored. -/
def Held (K : Handle → Prop) (s : VMMEnforcer) : Prop :=
  ∀ h id, K h → id ∈ s.core.targetClients h →
    ∃ v, s.installed h = some v ∧ (s.vmms v).monitored = true

/-- Nothing happens to the clients and to what is monitored. -/
structure Alike (s s' : VMMEnforcer) : Prop where
  targetClients : s'.core.targetClients = s.core.targetClients
  installed : s'.installed = s.installed
  monitored : ∀ v, (s'.vmms v).monitored = (s.vmms v).monitored

theorem Held.alike (hs : Held K s) (h₁ : Alike s s') : Held K s' := by
  intro h id hh hid
  rw [h₁.targetClients] at hid
  obtain ⟨v, hv, hm⟩ := hs h id hh hid
  exact ⟨v, h₁.installed ▸ hv, (h₁.monitored v).trans hm⟩

theorem Held.of_none (hs : Held (fun h' => K h' ∧ h' ≠ h) s)
    (hnone : ∀ id, id ∉ s.core.targetClients h) : Held K s := by
  intro h' id hh hid
  refine hs h' id ⟨hh, ?_⟩ hid
  rintro rfl
  exact hnone id hid

theorem alike_monitorAction {rxBytes : UInt64} {counter : UInt32} {oldCb : Option ActionRef}
    (h₁ : s.monitorAction h rxBytes counter oldCb out = some s') : Alike s s' := by
  have hup : (s.core.observeUp h).targetClients = s.core.targetClients :=
    (Enforcer.quiet_observeUp (s := s.core) (t := h)).targetClients
  obtain ⟨v, hv, ⟨rfl, -⟩ | ⟨hmon, -, rxBytes', rfl | rfl⟩⟩ := monitorAction_cases h₁
  · exact ⟨rfl, rfl, fun _ => rfl⟩
  · have hflag : ∀ v', (Function.update s.vmms v { s.vmms v with count := (s.vmms v).count + 1 }
        v').monitored = (s.vmms v').monitored := by
      intro v'
      by_cases heq : v' = v
      · rw [heq, Function.update_self]
      · rw [Function.update_of_ne heq]
    cases oldCb <;> exact ⟨hup, rfl, hflag⟩
  · cases oldCb <;> exact ⟨hup, rfl, fun _ => rfl⟩

theorem alike_kill (h₁ : s.kill h = some s') : Alike s s' := by
  simp only [VMMEnforcer.kill, Option.bind_eq_bind, Option.bind_eq_some_iff,
    Option.some.injEq] at h₁
  obtain ⟨v, -, rfl⟩ := h₁
  exact ⟨rfl, rfl, fun _ => rfl⟩

theorem alike_retry {cb : ActionRef} {n : ℕ} (h₁ : s.retry v cb n = some s') : Alike s s' := by
  unfold VMMEnforcer.retry at h₁
  split_ifs at h₁
  · exact Option.some.inj h₁ ▸ ⟨rfl, rfl, fun _ => rfl⟩
  · exact Option.some.inj h₁ ▸ ⟨rfl, rfl, fun _ => rfl⟩

theorem observerRegister_core (port : UInt32) : (s.observerRegister h port).core = s.core := by
  unfold VMMEnforcer.observerRegister retire
  split <;> rfl

theorem Held.stopMonitoring (hs : Held K s) (hsound : Sound K' s)
    (h₁ : s.stopMonitoring h = some s') : Held (fun h' => K h' ∧ h' ≠ h) s' := by
  simp only [VMMEnforcer.stopMonitoring, Option.bind_eq_bind, Option.bind_eq_some_iff,
    Option.some.injEq] at h₁
  obtain ⟨v, hv, rfl⟩ := h₁
  intro h' id hh hid
  obtain ⟨v', hv', hm⟩ := hs h' id hh.1 hid
  have hne : v' ≠ v := by
    rintro rfl
    exact hh.2 (hsound.apart h' h v' hv' hv)
  refine ⟨v', hv', ?_⟩
  change (Function.update s.vmms v _ v').monitored = true
  rw [Function.update_of_ne hne]
  exact hm

/-- A target is down: it has no clients any more. -/
theorem Held.observeDown {st : UInt32} {k w : Bool} (hs : Held (fun h' => K h' ∧ h' ≠ h) s)
    (hsound : Sound K' s) (h₁ : s.observeDown h st k w = some s') : Held K s' := by
  have hclients : (s.core.observeDown h st k w).targetClients =
      Function.update s.core.targetClients h ∅ := by rw [Enforcer.observeDown_eq]
  have hnone : ∀ id, id ∉ (s.core.observeDown h st k w).targetClients h := by
    intro id hid
    rw [hclients, Function.update_self] at hid
    exact AList.notMem_empty _ hid
  have hdown : Held K { s with core := s.core.observeDown h st k w } := by
    refine Held.of_none (h := h) (fun h' id hh hid => hs h' id hh ?_) hnone
    change id ∈ (s.core.observeDown h st k w).targetClients h' at hid
    rwa [hclients, Function.update_of_ne hh.2] at hid
  have hnamed := Enforcer.named_step (e := .observeDown h st k w) hsound.named rfl
  have hstop := hdown.stopMonitoring (hsound.core hnamed) h₁
  exact hstop.of_none (core_of_observeDown h₁ ▸ hnone)

theorem Held.probeTimedOut {cb : ActionRef} (hs : Held K s) (hsound : Sound K' s)
    (h₁ : s.probeTimedOut h cb = some s') : Held K s' := by
  have hbut : ∀ s₁ : VMMEnforcer, Held K s₁ → Sound K' s₁ → ∀ st k w,
      (s₁.clear (some cb)).observeDown h st k w = some s' → Held K s' := by
    intro s₁ hs₁ hsound₁ st k w h₁
    have hclear : Sound K' (s₁.clear (some cb)) :=
      ⟨hsound₁.named, hsound₁.allocated, hsound₁.apart, hsound₁.armed, hsound₁.chain⟩
    have hheld : Held (fun h' => K h' ∧ h' ≠ h) (s₁.clear (some cb)) :=
      fun h' id hh => hs₁ h' id hh.1
    exact hheld.observeDown hclear h₁
  simp only [VMMEnforcer.probeTimedOut, Option.bind_eq_bind, Option.bind_eq_some_iff] at h₁
  obtain ⟨v, -, h₁⟩ := h₁
  split_ifs at h₁
  · exact Option.some.inj h₁ ▸ hs
  · obtain ⟨s₁, hs₁, h₁⟩ := Option.bind_eq_some_iff.mp h₁
    exact hbut s₁ (hs.alike (alike_kill hs₁)) (hsound.kill hs₁) _ _ _ h₁
  · obtain ⟨s₁, hs₁, h₁⟩ := Option.bind_eq_some_iff.mp h₁
    obtain rfl := Option.some.inj hs₁
    exact hbut s hs hsound _ _ _ h₁

theorem Held.install (hs : Held K s) (hsound : Sound K' s) (port : UInt32) :
    Held (fun h' => K h' ∧ h' ≠ h) (s.install h port) := by
  intro h' id hh hid
  obtain ⟨v, hv, hm⟩ := hs h' id hh.1 hid
  refine ⟨v, ?_, ?_⟩
  · change (Function.update s.monitoredVmms h _ h').join = some v
    rw [Function.update_of_ne hh.2]
    exact hv
  · change (Function.update s.vmms s.nextVmm _ v).monitored = true
    rw [Function.update_of_ne (Nat.ne_of_lt (hsound.allocated h' v hv))]
    exact hm

/-- A monitor registers, again or for the first time. -/
theorem Held.observerRegister (hs : Held K s) (hsound : Sound K' s) (port : UInt32) :
    Held (fun h' => K h' ∧ h' ≠ h) (s.observerRegister h port) := by
  have hretired : Held (fun h' => K h' ∧ h' ≠ h) (s.retire (s.installed h)) ∧
      Sound K' (s.retire (s.installed h)) := by
    cases hv : s.installed h with
    | none => exact ⟨fun h' id hh => hs h' id hh.1, hsound⟩
    | some v =>
      have hstop : s.stopMonitoring h = some (s.retire (some v)) := by
        simp [VMMEnforcer.stopMonitoring, hv, retire]
      exact ⟨hs.stopMonitoring hsound hstop, (hsound.stopMonitoring hstop).imp fun _ => Or.inl⟩
  refine fun h' id hh => hretired.1.install hretired.2 port h' id ⟨hh, hh.2⟩

theorem Held.observerCancel (hs : Held K s) (hsound : Sound K' s)
    (h₁ : s.observerCancel h = some s') : Held K s' := by
  unfold VMMEnforcer.observerCancel at h₁
  split at h₁
  · obtain ⟨s₁, hs₁, h₁⟩ := Option.bind_eq_some_iff.mp h₁
    exact (hs.stopMonitoring hsound hs₁).observeDown (hsound.stopMonitoring hs₁) h₁
  · next hnone =>
    obtain rfl := Option.some.inj h₁
    intro h' id hh hid
    obtain ⟨v, hv, hm⟩ := hs h' id hh hid
    refine ⟨v, ?_, hm⟩
    change (Function.update s.monitoredVmms h (some none) h').join = some v
    rw [Function.update_of_ne fun heq => ?_]
    · exact hv
    · rw [heq, hnone] at hv
      cases hv

/-- The monitoring of `h` starts. -/
theorem Held.startMonitoring (hs : Held (fun h' => K h' ∧ h' ≠ h) s)
    (h₁ : s.startMonitoring h out = some s') : Held K s' := by
  simp only [VMMEnforcer.startMonitoring, Option.bind_eq_bind, Option.bind_eq_some_iff] at h₁
  obtain ⟨v, hv, rxBytes, -, h₁⟩ := h₁
  refine Held.alike (fun h' id hh hid => ?_) (alike_monitorAction h₁)
  by_cases heq : h' = h
  · exact ⟨v, heq ▸ hv, by simp [VMMEnforcer.setVmm]⟩
  · obtain ⟨v', hv', hm⟩ := hs h' id ⟨hh, heq⟩ hid
    refine ⟨v', hv', ?_⟩
    change (Function.update s.vmms v _ v').monitored = true
    by_cases hv'' : v' = v
    · rw [hv'', Function.update_self]
    · rw [Function.update_of_ne hv'']
      exact hm

/-! ## Runs -/

/-- What a run keeps. -/
structure Kept (s : VMMEnforcer) : Prop where
  sound : Sound (fun _ => True) s
  held : Held (fun _ => True) s

theorem Kept.clientsWatched (hs : Kept s) : ClientsWatched s := by
  intro h hh
  obtain ⟨id, hid⟩ := Keyed.not_isEmpty_iff.mp hh
  obtain ⟨v, hv, hm⟩ := hs.held h id trivial hid
  obtain ⟨t, x, hx, hmon, -⟩ := hs.sound.chain h v trivial hv hm
  exact ⟨v, hv, hm, t, x, hx, hmon⟩

/-- The layer has only monitoring to stop, and ports. -/
theorem Kept.hooks {acts : List Action} (hs : Kept s)
    (hstart : ∀ h, .startMonitoring h ∉ acts)
    (hstop : ∀ h, .stopMonitoring h ∈ acts → ∀ id, id ∉ s.core.targetClients h)
    (h₁ : acts.foldlM (hook out) s = some s') : Kept s' := by
  refine (Run.keeps_of_mem (I := fun s' => Kept s' ∧ s'.core = s.core)
    (fun a ha s₁ s₂ hs₂ hone => ?_) h₁ ⟨hs, rfl⟩).1
  obtain ⟨hs₁, hcore₁⟩ := hone
  unfold hook at hs₂
  split at hs₂
  · exact (hstart _ ha).elim
  · next h =>
    have hcore : s₂.core = s₁.core := core_of_stopMonitoring hs₂
    refine ⟨⟨(hs₁.sound.stopMonitoring hs₂).imp fun _ => Or.inl, ?_⟩, hcore.trans hcore₁⟩
    refine Held.of_none (h := h) (hs₁.held.stopMonitoring hs₁.sound hs₂) ?_
    rw [hcore, hcore₁]
    exact hstop h ha
  · refine ⟨⟨hs₁.sound.kill hs₂, hs₁.held.alike (alike_kill hs₂)⟩, ?_⟩
    simp only [VMMEnforcer.kill, Option.bind_eq_bind, Option.bind_eq_some_iff,
      Option.some.injEq] at hs₂
    obtain ⟨v, -, rfl⟩ := hs₂
    exact hcore₁
  · obtain rfl := Option.some.inj hs₂
    exact ⟨hs₁, hcore₁⟩

/-- **The base class's events**: the first client of a target starts its monitoring, and the last
one stops it. -/
theorem Kept.runHooks {c : Enforcer} {ev : Enforcer.Event} (hs : Kept s)
    (hfew : ∀ v < s.nextVmm, (s.vmms v).count.toNat + 1 < UInt32.size)
    (hc : s.core.step ev = some c) (h₁ : s.runHooks c out = some s') : Kept s' := by
  have hclient : ∀ h id, id ∈ c.targetClients h → .stopMonitoring h ∉ s.core.newer c ∧
      (.startMonitoring h ∈ s.core.newer c ∨ ∃ id, id ∈ s.core.targetClients h) :=
    fun h id => Enforcer.monitored_of_client hs.sound.named hc
  have hsound : Sound (fun _ => True) { s with core := c } :=
    hs.sound.core (Enforcer.named_step hs.sound.named hc)
  obtain ⟨h, req, res, hnew, hbegin⟩ | ⟨hnone, hhooks⟩ := runHooks_cases hs.sound.named hc h₁
  · refine ⟨hsound.startMonitoring hfew hbegin,
      Held.startMonitoring (fun h' id hh hid => ?_) hbegin⟩
    obtain hnew' | ⟨id', hid'⟩ := (hclient h' id hid).2
    · rw [hnew] at hnew'
      simp only [List.mem_cons, reduceCtorEq, Action.startMonitoring.injEq, List.not_mem_nil,
        or_false, false_or] at hnew'
      exact (hh.2 hnew').elim
    · exact hs.held h' id' trivial hid'
  · have hheld : Held (fun _ => True) { s with core := c } := by
      intro h id _ hid
      obtain ⟨id', hid'⟩ := (hclient h id hid).2.resolve_left (List.mem_reverse.not.mp (hnone h))
      exact hs.held h id' trivial hid'
    refine Kept.hooks ⟨hsound, hheld⟩ hnone (fun h hh id hid => ?_) hhooks
    exact (hclient h id hid).1 (List.mem_reverse.mp hh)

/-- A `MonitorAction` on a timer or an answer. -/
theorem Kept.fire {rxBytes : UInt64} {counter : UInt32} {oldCb : Option ActionRef} (hs : Kept s)
    (hfew : ∀ v < s.nextVmm, (s.vmms v).count.toNat + 1 < UInt32.size)
    (hx : s.pending.lookup t = some x) (hmon : ∀ h', x.monitors h' = true ↔ h' = h)
    (hcur : ∀ count, x.current count = true → count ≤ counter.toUInt64)
    (h₁ : (s.take t).monitorAction h rxBytes counter oldCb out = some s') : Kept s' := by
  have htaken := hs.sound.take_monitors hx hmon
  refine ⟨htaken.monitorAction (fun v hv => hfew v (hs.sound.allocated h v hv)) ?_ h₁,
    Held.alike (s := s.take t) hs.held (alike_monitorAction h₁)⟩
  intro v hv hm
  obtain ⟨t', y, hy, hymon, hycur⟩ := hs.sound.chain h v trivial hv hm
  by_cases ht : t' = t
  · subst ht
    obtain rfl := Option.some.inj (hx.symm.trans hy)
    exact Or.inl (hcur _ hycur)
  · exact Or.inr ⟨t', y, (AList.lookup_erase_ne ht).trans hy, hymon, hycur⟩

theorem kept_step (hs : Kept s) (hun : s.Undisturbed e) (h₁ : step s e = some s') : Kept s' := by
  obtain ⟨e, out⟩ := e
  cases e with
  | request req =>
    refine hs.runHooks hun.few (?_ : s.core.step (.request req (s.answer req.target)) = _) h₁
    rfl
  | fire cb status =>
    obtain ⟨c, hc, h₁⟩ := Option.bind_eq_some_iff.mp h₁
    exact hs.runHooks hun.few hc h₁
  | observerRegister h port =>
    obtain rfl := Option.some.inj h₁
    refine ⟨hs.sound.observerRegister port, (hs.held.observerRegister hs.sound port).of_none ?_⟩
    rw [observerRegister_core]
    exact Keyed.isEmpty_iff.mp (hun.kept h rfl)
  | observerCancel h =>
    exact ⟨hs.sound.observerCancel h₁, hs.held.observerCancel hs.sound h₁⟩
  | timer t =>
    simp only [step] at h₁
    split at h₁
    · next h rxBytes counter hx =>
      refine hs.fire hun.few hx (fun h' => ?_) (fun count hcur => ?_) h₁
      · simp [Pending.monitors, eq_comm]
      · simpa [Pending.current] using hcur
    · next v cb retries hx =>
      refine ⟨((hs.sound.take hx).imp fun _ _ => ⟨trivial, rfl⟩).retry h₁, ?_⟩
      exact Held.alike (s := s.take t) hs.held (alike_retry h₁)
    · cases h₁
  | reply t =>
    simp only [step] at h₁
    split at h₁
    · next h rxBytes counter v n hx =>
      refine hs.fire hun.few hx (fun h' => ?_) (fun count hcur => ?_) h₁
      · simp [Pending.monitors, eq_comm]
      · simpa [Pending.current] using hcur
    · cases h₁
  | timeout t =>
    simp only [step] at h₁
    split at h₁
    · next h rxBytes counter v n hx =>
      have htaken : Sound (fun h' => True ∧ h' ≠ h) (s.take t) :=
        hs.sound.take_monitors hx fun h' => by simp [Pending.monitors, eq_comm]
      exact ⟨htaken.probeTimedOut h₁, Held.probeTimedOut (s := s.take t) hs.held htaken h₁⟩
    · cases h₁
  | failed t counter => cases hun.ends

theorem kept_init (gv : List GenNo) (gens : Handle → GenNo) : Kept (init gv gens) :=
  ⟨⟨Enforcer.named_init gv gens, fun _ _ h => (by cases h), fun _ _ _ h => (by cases h),
    fun _ _ h => (by cases h), fun _ _ _ h => (by cases h)⟩,
    fun _ _ _ h => (AList.notMem_empty _ h).elim⟩

/-- **A registered monitor is really being watched.**  In a run in which no monitor registers while
it has clients, no object is sent `2 ^ 32` probes and no probe fails, every target with clients has
its object monitored and a `MonitorAction` pending, in every state. -/
theorem clients_watched (gv : List GenNo) (gens : Handle → GenNo) (es : List (Event × Outside))
    (h : Run.Along step (fun s e _ => s.Undisturbed e) (init gv gens) es) :
    Run.Always step ClientsWatched (init gv gens) es :=
  Run.Always.of_inv (fun _ hs => hs.clientsWatched) (fun _ _ _ h hs hun => kept_step hs hun h)
    (kept_init gv gens) h

/-- The monitor `"vmm"` registers and gets a client. -/
def firstClient : List (Event × Outside) :=
  [(.observerRegister "vmm" 3, silent),
   (.request (.register ⟨⟨"vmm", [0]⟩, false, -1, ⟨1, 0, 7⟩⟩), silent)]

/-- It answers a probe, and lets the next one time out; then it registers again. -/
theorem clients_watched_timeout : Run.Always step ClientsWatched (init [] fun _ => 0)
    (firstClient ++ [(.reply 0, silent), (.timer 1, silent), (.timeout 2, silent),
      (.observerRegister "vmm" 3, silent)]) :=
  clients_watched [] (fun _ => 0) _ (by decide)

/-- It reboots and registers again before the probe times out, and the probe times out. -/
def reboot : List (Event × Outside) :=
  firstClient ++ [(.observerRegister "vmm" 3, silent), (.timeout 0, silent)]

/-- The new object is not monitored, and nothing is pending that could watch it; the client waits
on. -/
theorem rebooted_vmm_unwatched : ¬ Run.Always step ClientsWatched (init [] fun _ => 0) reboot ∧
    ∃ s, reboot.foldlM step (init [] fun _ => 0) = some s ∧
      (s.core.targetClients "vmm").keys = [⟨1, 0, 7⟩] ∧ s.pending.keys = [1] ∧
      s.pending.lookup 1 = some (.retry 0 0 0) := by
  obtain ⟨s, hs, hclients, hkeys, hretry⟩ : ∃ s, reboot.foldlM step (init [] fun _ => 0) = some s ∧
      (s.core.targetClients "vmm").keys = [⟨1, 0, 7⟩] ∧ s.pending.keys = [1] ∧
      s.pending.lookup 1 = some (.retry 0 0 0) :=
    ⟨_, rfl, by decide, by decide, by decide⟩
  refine ⟨fun h => ?_, s, hs, hclients, hkeys, hretry⟩
  have hwatched := Run.always_iff_run.mp h reboot List.prefix_rfl s hs
  have hmem : (⟨1, 0, 7⟩ : ClientId) ∈ s.core.targetClients "vmm" := by
    rw [AList.mem_keys, hclients]
    exact List.mem_singleton_self _
  obtain ⟨v, -, -, t, x, hx, hmon⟩ := hwatched "vmm" (Keyed.not_isEmpty_iff.mpr ⟨_, hmem⟩)
  have ht : t ∈ s.pending.keys := AList.mem_keys.mp (Keyed.mem_of_lookup hx)
  rw [hkeys, List.mem_singleton] at ht
  subst ht
  obtain rfl := Option.some.inj (hretry.symm.trans hx)
  cases hmon

end VMMEnforcer

end Falcon
