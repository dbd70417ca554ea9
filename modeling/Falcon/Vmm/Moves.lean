import Falcon.Enforcer.Effect
import Falcon.Vmm.Step
import Mathlib.Logic.Relation

/-!
# Vmm/Moves — what the methods of `class VMMEnforcer` are made of

Every event is a sequence of small moves (`Move`): the base class handles an event of its own,
something is handed to the event loop or taken out of it, an object changes or is installed.
Invariants of runs are checked move by move.

The move that starts the monitoring of a target is allowed as a predicate `S` on the state and the
target says.
-/

namespace Falcon

namespace VMMEnforcer

variable {s s' : VMMEnforcer} {e : Event × Outside} {h : Handle} {v : VmmRef} {t : ActionRef}
  {out : Outside} {S : VMMEnforcer → Handle → Prop}

/-- What the base class does in an event. -/
def baseActions (s : VMMEnforcer) : Event → List Action
  | .request req => s.core.newer (s.core.dispatch req (s.answer req.target))
  | .fire cb status =>
    match s.core.step (.fire cb status) with
    | some c => s.core.newer c
    | none => []
  | _ => []

/-- The targets whose monitoring starts. -/
def starting (s : VMMEnforcer) (e : Event) : List Handle :=
  (s.baseActions e).filterMap Action.started

/-- A small change of the state, with monitoring starting as `S` allows. -/
inductive Move (S : VMMEnforcer → Handle → Prop) (s : VMMEnforcer) : VMMEnforcer → Prop
  /-- The base class handles an event of its own. -/
  | base {c : Enforcer} {e : Enforcer.Event} (hc : s.core.step e = some c) :
      Move S s { s with core := c }
  | take (t : ActionRef) : Move S s (s.take t)
  | check (h : Handle) (rxBytes : UInt64) (counter : UInt32) :
      Move S s (s.delaycb (.check h rxBytes counter))
  | retry (v : VmmRef) (cb : ActionRef) (n : ℕ) : Move S s (s.delaycb (.retry v cb n))
  /-- A probe is sent to the object installed. -/
  | probe {h : Handle} {v : VmmRef} (rxBytes : UInt64) (hv : s.installed h = some v) :
      Move S s (s.delaycb (.probe h rxBytes (s.vmms v).count.toUInt32 v (s.starts v)))
  | cbs (f : ActionRef → Bool) : Move S s { s with cbs := f }
  | stopped (port : UInt32) : Move S s (s.stopPort port)
  | count (v : VmmRef) (count : UInt64) : Move S s (s.setVmm v { s.vmms v with count := count })
  | unmonitor (v : VmmRef) : Move S s (s.setVmm v { s.vmms v with monitored := false })
  /-- The monitoring of the object under `h` starts. -/
  | monitor {h : Handle} {v : VmmRef} (hv : s.installed h = some v)
      (hS : S s h) :
      Move S s { s.setVmm v { s.vmms v with monitored := true } with
        starts := Function.update s.starts v (s.starts v + 1) }
  | install (h : Handle) (port : UInt32) : Move S s (s.install h port)
  | null {h : Handle} (hnone : s.installed h = none) :
      Move S s { s with monitoredVmms := Function.update s.monitoredVmms h (some none) }

/-- A sequence of moves. -/
abbrev Moves (S : VMMEnforcer → Handle → Prop) : VMMEnforcer → VMMEnforcer → Prop :=
  Relation.ReflTransGen (Move S)

/-! ## The methods -/

theorem moves_clear (cb : Option ActionRef) : Moves S s (s.clear cb) := by
  cases cb with
  | none => exact .refl
  | some t => exact .single (.cbs _)

theorem moves_sendProbe (hv : s.installed h = some v) (rxBytes : UInt64) :
    Moves S s (s.sendProbe h v rxBytes) := by
  refine .head (.probe rxBytes hv) (.head (.cbs (Function.update s.cbs s.nextAction true)) ?_)
  exact .head (.count v ((s.vmms v).count + 1)) (.single (.retry v s.nextAction 0))

theorem moves_monitorAction {rxBytes : UInt64} {counter : UInt32} {oldCb : Option ActionRef}
    (h₁ : s.monitorAction h rxBytes counter oldCb out = some s') : Moves S s s' := by
  simp only [monitorAction, Option.bind_eq_bind, Option.bind_eq_some_iff] at h₁
  obtain ⟨v, hv, h₁⟩ := h₁
  split_ifs at h₁
  · exact Option.some.inj h₁ ▸ .refl
  · exact Option.some.inj h₁ ▸ .refl
  · obtain ⟨rxBytes', -, h₁⟩ := Option.bind_eq_some_iff.mp h₁
    have hup : Moves S s ({ s with core := s.core.observeUp h }.clear oldCb) :=
      .head (.base (e := .observeUp h) rfl) (moves_clear oldCb)
    split_ifs at h₁
    · obtain rfl := Option.some.inj h₁
      refine hup.trans (moves_sendProbe ?_ rxBytes')
      cases oldCb <;> exact hv
    · exact Option.some.inj h₁ ▸ hup.tail (.check h rxBytes' counter)

theorem moves_startMonitoring (hS : S s h) (h₁ : s.startMonitoring h out = some s') :
    Moves S s s' := by
  simp only [startMonitoring, Option.bind_eq_bind, Option.bind_eq_some_iff] at h₁
  obtain ⟨v, hv, rxBytes, -, h₁⟩ := h₁
  exact .head (.monitor hv hS) (moves_monitorAction h₁)

theorem moves_stopMonitoring (h₁ : s.stopMonitoring h = some s') : Moves S s s' := by
  simp only [stopMonitoring, Option.bind_eq_bind, Option.bind_eq_some_iff, Option.some.injEq] at h₁
  obtain ⟨v, -, rfl⟩ := h₁
  exact .single (.unmonitor v)

theorem moves_kill (h₁ : s.kill h = some s') : Moves S s s' := by
  simp only [kill, Option.bind_eq_bind, Option.bind_eq_some_iff, Option.some.injEq] at h₁
  obtain ⟨v, -, rfl⟩ := h₁
  exact .single (.stopped _)

theorem moves_observeDown {st : UInt32} {k w : Bool} (h₁ : s.observeDown h st k w = some s') :
    Moves S s s' :=
  .head (.base (e := .observeDown h st k w) rfl)
    (moves_stopMonitoring h₁)

theorem moves_probeTimedOut {cb : ActionRef} (h₁ : s.probeTimedOut h cb = some s') :
    Moves S s s' := by
  simp only [probeTimedOut, Option.bind_eq_bind, Option.bind_eq_some_iff] at h₁
  obtain ⟨v, -, h₁⟩ := h₁
  split_ifs at h₁
  · exact Option.some.inj h₁ ▸ .refl
  · obtain ⟨s₁, hs₁, h₁⟩ := Option.bind_eq_some_iff.mp h₁
    exact (moves_kill hs₁).trans ((moves_clear _).trans (moves_observeDown h₁))
  · obtain ⟨s₁, hs₁, h₁⟩ := Option.bind_eq_some_iff.mp h₁
    obtain rfl := Option.some.inj hs₁
    exact (moves_clear _).trans (moves_observeDown h₁)

theorem moves_observerCancel (h₁ : s.observerCancel h = some s') : Moves S s s' := by
  unfold observerCancel at h₁
  split at h₁
  · obtain ⟨s₁, hs₁, h₁⟩ := Option.bind_eq_some_iff.mp h₁
    exact (moves_stopMonitoring hs₁).trans (moves_observeDown h₁)
  · next hnone => exact Option.some.inj h₁ ▸ .single (.null hnone)

theorem moves_observerRegister (port : UInt32) : Moves S s (s.observerRegister h port) := by
  unfold observerRegister
  cases s.installed h with
  | none => exact .single (.install h port)
  | some v => exact .head (.unmonitor v) (.single (.install h port))

theorem moves_hooks {acts : List Action} (hstart : ∀ h, .startMonitoring h ∉ acts)
    (h₁ : acts.foldlM (hook out) s = some s') : Moves S s s' := by
  refine Run.keeps_of_mem (I := Moves S s) (fun a ha s₁ s₂ hs₂ hmoves => ?_) h₁ .refl
  refine hmoves.trans ?_
  unfold hook at hs₂
  split at hs₂
  · exact absurd ha (hstart _)
  · exact moves_stopMonitoring hs₂
  · exact moves_kill hs₂
  · exact Option.some.inj hs₂ ▸ .refl

/-- **The hooks of an event** start the monitoring of one target and do nothing else, or they start
none. -/
theorem runHooks_cases {c : Enforcer} {ev : Enforcer.Event} (hn : s.core.Named)
    (hc : s.core.step ev = some c) (h₁ : s.runHooks c out = some s') :
    (∃ h req res, s.core.newer c = [.reply req res, .startMonitoring h] ∧
      { s with core := c }.startMonitoring h out = some s') ∨
    (∀ h, .startMonitoring h ∉ (s.core.newer c).reverse) ∧
      (s.core.newer c).reverse.foldlM (hook out) { s with core := c } = some s' := by
  by_cases hstart : ∃ h, .startMonitoring h ∈ s.core.newer c
  · obtain ⟨h, hh⟩ := hstart
    obtain ⟨req, res, hnew⟩ := Enforcer.newer_of_start hn hc hh
    rw [runHooks, hnew] at h₁
    obtain ⟨s₁, hs₁, h₁⟩ := Option.bind_eq_some_iff.mp h₁
    obtain rfl : s₁ = s' := Option.some.inj h₁
    exact Or.inl ⟨h, req, res, hnew, hs₁⟩
  · exact Or.inr ⟨fun h hh => hstart ⟨h, List.mem_reverse.mp hh⟩, h₁⟩

/-- The monitoring starts before anything else happens in the event. -/
theorem moves_runHooks {c : Enforcer} {ev : Enforcer.Event} (hn : s.core.Named)
    (hc : s.core.step ev = some c)
    (hS : ∀ h, .startMonitoring h ∈ s.core.newer c → S { s with core := c } h)
    (h₁ : s.runHooks c out = some s') : Moves S s s' := by
  refine .head (.base hc) ?_
  obtain ⟨h, req, res, hnew, hbegin⟩ | ⟨hnone, hhooks⟩ := runHooks_cases hn hc h₁
  · exact moves_startMonitoring (hS h (by simp [hnew])) hbegin
  · exact moves_hooks hnone hhooks

/-- **An event is a sequence of moves**, and what it starts is started before anything else. -/
theorem moves_step (hn : s.core.Named) (hS : ∀ h ∈ s.starting e.1, ∀ c, S { s with core := c } h)
    (h₁ : step s e = some s') : Moves S s s' := by
  obtain ⟨e, out⟩ := e
  cases e with
  | request req =>
    refine moves_runHooks hn (?_ : s.core.step (.request req (s.answer req.target)) = _)
      (fun h hh => hS h ?_ _) h₁
    · rfl
    · exact List.mem_filterMap.mpr ⟨_, hh, rfl⟩
  | fire cb status =>
    obtain ⟨c, hc, h₁⟩ := Option.bind_eq_some_iff.mp h₁
    refine moves_runHooks hn hc (fun h hh => hS h ?_ _) h₁
    have hmem : .startMonitoring h ∈ s.baseActions (.fire cb status) := by
      simpa [baseActions, hc] using hh
    exact List.mem_filterMap.mpr ⟨_, hmem, rfl⟩
  | observerRegister h port => exact Option.some.inj h₁ ▸ moves_observerRegister port
  | observerCancel h => exact moves_observerCancel h₁
  | timer t =>
    simp only [step] at h₁
    split at h₁
    · exact .head (.take t) (moves_monitorAction h₁)
    · refine .head (.take t) ?_
      unfold retry at h₁
      split_ifs at h₁
      · exact Option.some.inj h₁ ▸ .single (.retry _ _ _)
      · exact Option.some.inj h₁ ▸ .refl
    · cases h₁
  | reply t =>
    simp only [step] at h₁
    split at h₁
    · exact .head (.take t) (moves_monitorAction h₁)
    · cases h₁
  | timeout t =>
    simp only [step] at h₁
    split at h₁
    · exact .head (.take t) (moves_probeTimedOut h₁)
    · cases h₁
  | failed t counter =>
    simp only [step] at h₁
    split at h₁
    · refine .head (.take t) ?_
      simp only [probeFailed, Option.bind_eq_bind, Option.bind_eq_some_iff] at h₁
      obtain ⟨v, -, h₁⟩ := h₁
      split_ifs at h₁
      · exact Option.some.inj h₁ ▸ .refl
      · exact Option.some.inj h₁ ▸ .refl
    · cases h₁

theorem Move.named (hm : Move S s s') (hn : s.core.Named) : s'.core.Named := by
  cases hm with
  | base hc => exact Enforcer.named_step hn hc
  | _ => exact hn

/-- What a run of moves keeps, one move keeps. -/
theorem Moves.keeps {I : VMMEnforcer → Prop} (hI : ∀ s s', Move S s s' → I s → I s')
    (hm : Moves S s s') (hs : I s) : I s' := by
  induction hm with
  | refl => exact hs
  | tail _ hm ih => exact hI _ _ hm ih

end VMMEnforcer

end Falcon
