import Falcon.Machinery.Since
import Falcon.Os.Workers

/-!
# Os/Kills — a `SPY_KILL` for a domain nobody monitors

`InvalidTarget` takes a domain that is not active if `libvirt` knows it, and `UpdateGenerations`
moves its generation to what `libvirt` says; so a `SPY_KILL` for it can pass `GenCheck`.  `Kill`
then looks in `active_domains_` only.

* `kill_finds_iff_monitored` — along a run, the requests that pass find an active domain exactly if
  their target was being monitored: `StartMonitoring` was called for it, and `StopMonitoring` was
  not called since.
-/

namespace Falcon

namespace OSEnforcer

variable {s s' s₁ s₂ : OSEnforcer} {e : Event × Outside} {h : Handle} {out : Outside}
  {acts acts' : List Action}

/-- `GenCheck` accepts the target of a `SPY_KILL`. -/
def Passes (s : OSEnforcer) (target : TargetT) (out : Outside) : Prop :=
  (s.core.updateGenerations target.handle (s.answer target.handle out)).genCheck target.handle
    target.generation (s.answer target.handle out) = .success

/-- The state in which `Dispatch` has called `Kill` for a `SPY_KILL` that passes. -/
def atKill (s : OSEnforcer) (target : TargetT) (out : Outside) : OSEnforcer :=
  { s with core := s.core.dispatch (.kill target) (s.answer target.handle out) }

/-- If a `SPY_KILL` passes, there is an active domain when `Kill` runs; and unless `libvirt` fails
to destroy it, the program goes on. -/
def KillFinds (s : OSEnforcer) (e : Event × Outside) : Prop :=
  ∀ target, e.1 = .request (.kill target) → s.Passes target e.2 →
    (s.atKill target e.2).activeDomains target.handle = true ∧
      (e.2.destroyed = true → (step s e).isSome)

/-- The base class has called `StartMonitoring` for `h`, and not `StopMonitoring` since. -/
def Monitors (c : Enforcer) (h : Handle) : Prop :=
  Since (· ≠ .stopMonitoring h) (· = .startMonitoring h) c.log

/-- A `SPY_KILL` that passes is for a target that is being monitored. -/
def KillsMonitored (s : OSEnforcer) (e : Event × Outside) : Prop :=
  ∀ target, e.1 = .request (.kill target) → s.Passes target e.2 → Monitors s.core target.handle

/-! ## Active domains are the monitored ones -/

/-- The active domains are the ones the base class has monitored. -/
structure Tracks (s : OSEnforcer) : Prop where
  named : s.core.Named
  active : ∀ h, s.activeDomains h = true ↔ Monitors s.core h

/-- Actions without a start leave the monitoring of the domains they do not stop. -/
theorem monitors_append {c c' : Enforcer} {l : List Action} (hlog : c'.log = l ++ c.log)
    (hl : .startMonitoring h ∉ l) : Monitors c' h ↔ Monitors c h ∧ .stopMonitoring h ∉ l := by
  rw [Monitors, Monitors, hlog]
  constructor
  · intro hs
    obtain ⟨hstop, hs⟩ := Since.of_append (fun a ha => by rintro rfl; exact hl ha) hs
    exact ⟨hs, fun hmem => hstop _ hmem rfl⟩
  · rintro ⟨hs, hstop⟩
    exact Since.append (fun a ha => by rintro rfl; exact hstop ha) hs

/-- Some domains stop being active: those with a `StopMonitoring` in `acts` or in what is new in
the log, where there is no `StartMonitoring`. -/
structure Ends (acts : List Action) (s s' : OSEnforcer) : Prop where
  named : s.core.Named → s'.core.Named
  stops : ∃ l, s'.core.log = l ++ s.core.log ∧ (∀ h, .startMonitoring h ∉ l) ∧
    ∀ h, s'.activeDomains h = true ↔ s.activeDomains h = true ∧ .stopMonitoring h ∉ l ++ acts

theorem Ends.refl (s : OSEnforcer) : Ends [] s s := ⟨id, [], rfl, by simp, by simp⟩

theorem Ends.trans (h₁ : Ends acts s s₁) (h₂ : Ends acts' s₁ s₂) : Ends (acts ++ acts') s s₂ := by
  obtain ⟨hn, l, hlog, hstart, hact⟩ := h₁
  obtain ⟨hn', l', hlog', hstart', hact'⟩ := h₂
  refine ⟨hn' ∘ hn, l' ++ l, by rw [hlog', hlog, List.append_assoc], fun h hmem => ?_, fun h => ?_⟩
  · exact (List.mem_append.mp hmem).elim (hstart' h) (hstart h)
  · rw [hact', hact]
    simp only [List.mem_append]
    tauto

/-- The base class has recorded `acts` before they happen. -/
theorem Ends.tracks {c : Enforcer} (hs : Tracks s) (hc : c.Named)
    (hnew : c.log = acts.reverse ++ s.core.log) (hstart : ∀ h, .startMonitoring h ∉ acts)
    (hends : Ends acts { s with core := c } s') : Tracks s' := by
  obtain ⟨hn, l, hlog, hl, hact⟩ := hends
  refine ⟨hn hc, fun h => ?_⟩
  have hlog' : s'.core.log = (l ++ acts.reverse) ++ s.core.log := by
    rw [hlog, List.append_assoc, ← hnew]
  have hnone : .startMonitoring h ∉ l ++ acts.reverse := by simp [hl h, hstart h]
  rw [hact, monitors_append hlog' hnone, ← hs.active]
  simp

theorem ends_stopMonitoring (h : Handle) : Ends [.stopMonitoring h] s (s.stopMonitoring h) := by
  refine ⟨id, [], rfl, by simp, fun h' => ?_⟩
  by_cases heq : h' = h
  · subst heq
    simp [OSEnforcer.stopMonitoring, setActive]
  · simp [OSEnforcer.stopMonitoring, setActive, heq]

/-- A domain is down: its monitoring ends. -/
theorem ends_observeDown (h : Handle) (st : UInt32) (k w : Bool) :
    Ends [] s (s.observeDown h st k w) := by
  obtain ⟨downs, hdowns, hlog⟩ := s.core.observeDown_log h st k w
  have hmem : ∀ h', .startMonitoring h' ∉ downs ∧ .stopMonitoring h' ∉ downs := by
    refine fun h' => ⟨fun hmem => ?_, fun hmem => ?_⟩
    · obtain ⟨id, arg, heq⟩ := hdowns _ hmem
      cases heq
    · obtain ⟨id, arg, heq⟩ := hdowns _ hmem
      cases heq
  refine ⟨fun hn => Enforcer.named_step (e := .observeDown h st k w) hn rfl, _, hlog,
    fun h' => by simp [(hmem h').1], fun h' => ?_⟩
  change (s.stopMonitoring h).activeDomains h' = true ↔ _
  by_cases heq : h' = h
  · simp [OSEnforcer.stopMonitoring, setActive, heq]
  · simp [OSEnforcer.stopMonitoring, setActive, heq, (hmem h').2]

theorem ends_kill (h₁ : s.kill h out = some s') : Ends [] s s' := by
  unfold kill at h₁
  split_ifs at h₁
  exact Option.some.inj h₁ ▸ ends_observeDown h 0 true true

theorem ends_hook {a : Action} (ha : ∀ h, a ≠ .startMonitoring h) (h₁ : s.hook out a = some s') :
    Ends [a] s s' := by
  have hskip : (∀ h, a ≠ .stopMonitoring h) → Ends [] s s' → Ends [a] s s' := by
    rintro ha ⟨hn, l, hlog, hstart, hact⟩
    refine ⟨hn, l, hlog, hstart, fun h => ?_⟩
    rw [hact h]
    simp [(ha h).symm]
  unfold hook at h₁
  split at h₁
  · exact (ha _ rfl).elim
  · exact Option.some.inj h₁ ▸ ends_stopMonitoring _
  · exact hskip (by simp) (ends_kill h₁)
  · next _ hstop _ =>
    obtain rfl : s = s' := Option.some.inj h₁
    exact hskip hstop (Ends.refl s)

theorem ends_hooks (hstart : ∀ h, .startMonitoring h ∉ acts)
    (h₁ : acts.foldlM (hook out) s = some s') : Ends acts s s' := by
  induction acts generalizing s with
  | nil => exact Option.some.inj h₁ ▸ Ends.refl s
  | cons a acts ih =>
    rw [List.foldlM_cons] at h₁
    obtain ⟨s₁, hs₁, h₁⟩ := Option.bind_eq_some_iff.mp h₁
    have hhead : Ends [a] s s₁ :=
      ends_hook (fun h heq => hstart h (heq ▸ List.mem_cons_self)) hs₁
    exact hhead.trans (ih (fun h hmem => hstart h (List.mem_cons_of_mem _ hmem)) h₁)

/-- The monitoring of a domain starts. -/
theorem Tracks.startMonitoring {c : Enforcer} (hs : Tracks s) (hc : c.Named) {req : Request}
    {res : SpyRes} (hnew : c.log = [.reply req res, .startMonitoring h] ++ s.core.log)
    (h₁ : ({ s with core := c } : OSEnforcer).startMonitoring h out = some s') : Tracks s' := by
  unfold OSEnforcer.startMonitoring at h₁
  split_ifs at h₁
  obtain rfl := Option.some.inj h₁
  refine ⟨hc, fun h' => ?_⟩
  by_cases heq : h' = h
  · subst heq
    have hmon : Monitors c h' := by
      rw [Monitors, hnew]
      exact Or.inr ⟨by simp, Or.inl rfl⟩
    simp [setActive, fdcb, hmon]
  · have hmon : Monitors c h' ↔ Monitors s.core h' := by
      rw [monitors_append hnew (by simp [heq])]
      simp
    simpa [setActive, fdcb, heq, hmon] using hs.active h'

theorem Tracks.runHooks {c : Enforcer} {ev : Enforcer.Event} (hs : Tracks s)
    (hc : s.core.step ev = some c) (h₁ : s.runHooks c out = some s') : Tracks s' := by
  have hcn : c.Named := Enforcer.named_step hs.named hc
  have hlog : c.log = s.core.newer c ++ s.core.log := Enforcer.newer_append hs.named hc
  obtain ⟨h, req, res, hnew, hbegin⟩ | ⟨hnone, hhooks⟩ := runHooks_cases hs.named hc h₁
  · exact hs.startMonitoring hcn (hnew ▸ hlog) hbegin
  · exact Ends.tracks hs hcn (by rwa [List.reverse_reverse]) hnone (ends_hooks hnone hhooks)

theorem Ends.tracks_nil (hs : Tracks s) (hends : Ends [] s s') : Tracks s' :=
  Ends.tracks (c := s.core) hs hs.named rfl (by simp) hends

theorem Tracks.handleWorker {fd : PipeFd} {state : Option WorkerState} (hs : Tracks s)
    (h₁ : s.handleWorker h fd state out = some s') : Tracks s' := by
  obtain ⟨-, rfl⟩ | ⟨-, rfl | ⟨st, s₁, hok, hs₁, rfl⟩⟩ := handleWorker_cases h₁
  · exact ⟨hs.named, hs.active⟩
  · obtain ⟨-, -, -, -, l, hlog, hquiet⟩ := Enforcer.quiet_observeUp (s := s.core) (t := h)
    refine ⟨Enforcer.named_step (e := .observeUp h) hs.named rfl, fun h' => ?_⟩
    rw [hs.active, monitors_append hlog fun hmem => (hquiet _ hmem)]
    exact (and_iff_left fun hmem => hquiet _ hmem).symm
  · obtain ⟨status, k, w, rfl⟩ := eq_of_verdict hok hs₁
    have hdown : Tracks (s.observeDown h status k w) :=
      (ends_observeDown h status k w).tracks_nil hs
    have hidle : (((s.observeDown h status k w).close fd).setActive h false).activeDomains =
        (s.observeDown h status k w).activeDomains :=
      Function.update_idem _ _ _
    exact ⟨hdown.named, fun h' => hidle ▸ hdown.active h'⟩

theorem tracks_step (hs : Tracks s) (h₁ : step s e = some s') : Tracks s' := by
  unfold step at h₁
  split at h₁
  · obtain ⟨c, hc, h₁⟩ := Option.bind_eq_some_iff.mp h₁
    exact hs.runHooks hc h₁
  · split at h₁
    · split_ifs at h₁
      unfold setGeneration at h₁
      split_ifs at h₁
      exact Option.some.inj h₁ ▸ ⟨⟨hs.named.1, hs.named.2⟩, hs.active⟩
    · obtain ⟨w, -, h₁⟩ := Option.bind_eq_some_iff.mp h₁
      exact hs.handleWorker h₁
    · cases h₁

theorem tracks_init (gens : Handle → GenNo) : Tracks (init gens) :=
  ⟨Enforcer.named_init [] gens, fun h => by simp [init, Monitors, Enforcer.init, Since]⟩

/-! ## Requests that pass -/

/-- A `SPY_KILL` that passes runs `Kill`. -/
theorem step_kill {target : TargetT} (hpass : s.Passes target out) :
    step s (.request (.kill target), out) = (s.atKill target out).kill target.handle out := by
  obtain ⟨lines, hupdate⟩ := Enforcer.updateGenerations_eq target.handle
    (s.answer target.handle out) s.core
  have hdispatch : ∃ res, (s.atKill target out).core.log =
      [.reply (.kill target) res, .kill target.handle] ++ s.core.log := by
    refine ⟨⟨⟨target.handle, s.core.genOf target.handle⟩, .killAck⟩, ?_⟩
    rw [Passes] at hpass
    simp only [atKill, Enforcer.dispatch, hpass]
    rw [hupdate]
    rfl
  obtain ⟨res, hlog⟩ := hdispatch
  change s.runHooks (s.atKill target out).core out = _
  rw [runHooks, Enforcer.newer_of_log hlog]
  change ((s.atKill target out).kill target.handle out).bind some = _
  exact Option.bind_fun_some _

/-- `Kill` finds a domain exactly if it is monitored. -/
theorem Tracks.killFinds_iff (hs : Tracks s) : KillFinds s e ↔ KillsMonitored s e := by
  obtain ⟨ev, out⟩ := e
  constructor
  · intro hfind target he hpass
    exact (hs.active _).mp (hfind target he hpass).1
  · intro hmon target he hpass
    obtain rfl : ev = .request (.kill target) := he
    have hact : (s.atKill target out).activeDomains target.handle = true :=
      (hs.active _).mpr (hmon target rfl hpass)
    refine ⟨hact, fun hdestroyed => ?_⟩
    rw [step_kill hpass, OSEnforcer.kill, if_pos ⟨hact, hdestroyed⟩]
    rfl

/-- **`Kill` aborts on what is not monitored.**  In any run, the `SPY_KILL`s that pass find an
active domain, and `Kill` goes through if `libvirt` can destroy it, exactly if each of them is for a
target whose monitoring was started and has not been stopped since. -/
theorem kill_finds_iff_monitored (gens : Handle → GenNo) (es : List (Event × Outside)) :
    Run.Tried step KillFinds (init gens) es ↔ Run.Tried step KillsMonitored (init gens) es := by
  rw [Run.tried_iff_run, Run.tried_iff_run]
  refine forall₅_congr fun pre e _ s hs => ?_
  have htracks : Tracks s := Run.keeps (fun _ _ _ h₁ hs => tracks_step hs h₁) hs (tracks_init gens)
  exact htracks.killFinds_iff

/-- The router has answered; `"vm"` is running, nobody has registered for it, and a `SPY_KILL` with
its generation vector comes in. -/
def killUnmonitored : List (Event × Outside) :=
  [(.router ⟨⟨"host", [3]⟩, .genResp⟩ .success, running 0),
   (.request (.kill ⟨"vm", [3, 0]⟩), running 0)]

/-- It passes, and `CHECK(target)` fails. -/
theorem kill_aborts_unmonitored : ¬ Run.Tried step KillFinds (init fun _ => 0) killUnmonitored ∧
    killUnmonitored.foldlM step (init fun _ => 0) = none := by
  refine ⟨fun h => ?_, rfl⟩
  obtain ⟨-, h⟩ := h
  have hfind := (h _ rfl).1 ⟨"vm", [3, 0]⟩ rfl rfl
  exact absurd hfind.1 (by decide)

end OSEnforcer

end Falcon
