import Falcon.Enforcer.Effect
import Falcon.Machinery.Run
import Falcon.Os.Step

/-!
# Os/Workers — whose verdict counts

`StopMonitoring` neither kills the worker of a domain nor removes the callback of its pipe: the
callback finds out that the domain is not active the next time the worker writes.  By then the
domain can be active again.

* `judged_by_current_worker` — the verdict of a worker reports a domain down only if the worker was
  spawned by the last `StartMonitoring` of the domain; as long as the monitoring of a domain does
  not start while a pipe of it has a callback.
-/

namespace Falcon

namespace OSEnforcer

variable {s s' : OSEnforcer} {e : Event × Outside} {h : Handle} {fd : PipeFd} {w : Worker}
  {out : Outside}

/-- The domains whose monitoring starts. -/
def starting (s : OSEnforcer) (e : Event × Outside) : List Handle :=
  match (s.baseEvent e).bind s.core.step with
  | some c => (s.core.newer c).filterMap Action.started
  | none => []

/-- No pipe of `h` has a callback. -/
def unattended (s : OSEnforcer) (h : Handle) : Bool :=
  s.pipes.entries.all fun x => x.2.handle ≠ h

/-- A report that a target is down, or a `CLIENT_DOWN`. -/
def condemns : Action → Bool
  | .observeDown _ => true
  | .clientDown _ _ => true
  | _ => false

/-- What a worker writes reports no domain down but its own, and this only if it was spawned by the
last `StartMonitoring`; else no client is told. -/
def JudgedByCurrent (s : OSEnforcer) (e : Event × Outside) (s' : OSEnforcer) : Prop :=
  ∀ fd state w, e.1 = .worker fd state → s.pipes.lookup fd = some w →
    (∀ h, .observeDown h ∈ s.core.newer s'.core → h = w.handle) ∧
    ((∃ a ∈ s.core.newer s'.core, condemns a) → w.start = s.starts w.handle)

/-! ## The workers of an active domain -/

/-- The workers of an active domain were spawned by its last `StartMonitoring`. -/
structure Fresh (s : OSEnforcer) : Prop where
  named : s.core.Named
  armed : ∀ fd w, s.pipes.lookup fd = some w → fd < s.nextPipe
  current : ∀ fd w, s.pipes.lookup fd = some w → s.activeDomains w.handle = true →
    w.start = s.starts w.handle

theorem unattended_iff :
    s.unattended h = true ↔ ∀ fd w, s.pipes.lookup fd = some w → w.handle ≠ h := by
  rw [unattended, List.all_eq_true]
  constructor
  · intro hun fd w hw
    exact of_decide_eq_true (hun ⟨fd, w⟩ (Keyed.mem_entries_iff.mpr hw))
  · rintro hun ⟨fd, w⟩ hmem
    exact decide_eq_true (hun fd w (Keyed.mem_entries_iff.mp hmem))

theorem Fresh.core (hs : Fresh s) {c : Enforcer} (hc : c.Named) : Fresh { s with core := c } :=
  ⟨hc, hs.armed, hs.current⟩

theorem Fresh.close (hs : Fresh s) : Fresh (s.close fd) :=
  ⟨hs.named, fun fd' w hw => hs.armed fd' w (Keyed.lookup_of_lookup_erase hw),
    fun fd' w hw => hs.current fd' w (Keyed.lookup_of_lookup_erase hw)⟩

theorem Fresh.stopMonitoring (hs : Fresh s) : Fresh (s.stopMonitoring h) := by
  refine ⟨hs.named, hs.armed, fun fd w hw hact => hs.current fd w hw ?_⟩
  by_cases heq : w.handle = h
  · rw [heq] at hact
    simp [OSEnforcer.stopMonitoring, setActive] at hact
  · simpa [OSEnforcer.stopMonitoring, setActive, heq] using hact

theorem Fresh.startMonitoring (hs : Fresh s) (hun : s.unattended h = true)
    (h₁ : s.startMonitoring h out = some s') : Fresh s' := by
  unfold OSEnforcer.startMonitoring at h₁
  split_ifs at h₁
  obtain rfl := Option.some.inj h₁
  refine ⟨hs.named, fun fd w hw => ?_, fun fd w hw hact => ?_⟩
  · by_cases hfd : fd = s.nextPipe
    · exact hfd ▸ Nat.lt_succ_self _
    · exact Nat.lt_succ_of_lt (hs.armed fd w ((AList.lookup_insert_ne hfd).symm.trans hw))
  · by_cases hfd : fd = s.nextPipe
    · subst hfd
      obtain rfl := Option.some.inj ((AList.lookup_insert _).symm.trans hw)
      change s.starts h + 1 = Function.update s.starts h (s.starts h + 1) h
      rw [Function.update_self]
    · have hw' : s.pipes.lookup fd = some w := (AList.lookup_insert_ne hfd).symm.trans hw
      have hne : w.handle ≠ h := unattended_iff.mp hun fd w hw'
      have hact' : s.activeDomains w.handle = true := by
        simpa [setActive, fdcb, hne] using hact
      change w.start = Function.update s.starts h (s.starts h + 1) w.handle
      rw [Function.update_of_ne hne]
      exact hs.current fd w hw' hact'

theorem Fresh.observeDown (hs : Fresh s) (st : UInt32) (k w : Bool) :
    Fresh (s.observeDown h st k w) :=
  (hs.core (Enforcer.named_step (e := .observeDown h st k w) hs.named rfl)).stopMonitoring

/-- `Kill` reports the domain down. -/
theorem eq_of_kill (h₁ : s.kill h out = some s') : s' = s.observeDown h 0 true true := by
  unfold kill at h₁
  split_ifs at h₁
  exact (Option.some.inj h₁).symm

/-- A verdict reports the domain down, by itself or through `Kill`. -/
theorem eq_of_verdict {st : WorkerState} (hok : st ≠ .ok) (h₁ : s.verdict h st out = some s') :
    ∃ status k w, s' = s.observeDown h status k w := by
  unfold verdict at h₁
  split at h₁
  · exact absurd rfl hok
  · split_ifs at h₁
    · exact ⟨_, _, _, eq_of_kill h₁⟩
    · exact ⟨_, _, _, (Option.some.inj h₁).symm⟩
  · split_ifs at h₁
    · exact ⟨_, _, _, eq_of_kill h₁⟩
    · exact ⟨_, _, _, (Option.some.inj h₁).symm⟩
  · exact ⟨_, _, _, (Option.some.inj h₁).symm⟩
  · exact ⟨_, _, _, (Option.some.inj h₁).symm⟩

theorem Fresh.kill (hs : Fresh s) (h₁ : s.kill h out = some s') : Fresh s' :=
  eq_of_kill h₁ ▸ hs.observeDown 0 true true

theorem Fresh.hooks {acts : List Action} (hs : Fresh s) (hstart : ∀ h, .startMonitoring h ∉ acts)
    (h₁ : acts.foldlM (hook out) s = some s') : Fresh s' := by
  refine Run.keeps_of_mem (I := Fresh) (fun a ha s s' hs' hs => ?_) h₁ hs
  unfold hook at hs'
  split at hs'
  · exact absurd ha (hstart _)
  · exact Option.some.inj hs' ▸ hs.stopMonitoring
  · exact hs.kill hs'
  · exact Option.some.inj hs' ▸ hs

/-- **The hooks of an event** start the monitoring of one target and do nothing else, or they start
none. -/
theorem runHooks_cases {c : Enforcer} {ev : Enforcer.Event} (hn : s.core.Named)
    (hc : s.core.step ev = some c) (h₁ : s.runHooks c out = some s') :
    (∃ h req res, s.core.newer c = [.reply req res, .startMonitoring h] ∧
      { s with core := c }.startMonitoring h out = some s') ∨
    (∀ h, .startMonitoring h ∉ (s.core.newer c).reverse) ∧
      (s.core.newer c).reverse.foldlM (hook out) { s with core := c } = some s' := by
  by_cases hstart : ∃ h, .startMonitoring h ∈ s.core.newer c
  · obtain ⟨h, hh⟩ := hstart
    obtain ⟨req, res, hnew⟩ := Enforcer.newer_of_start hn hc hh
    rw [OSEnforcer.runHooks, hnew] at h₁
    obtain ⟨s₁, hs₁, h₁⟩ := Option.bind_eq_some_iff.mp h₁
    obtain rfl : s₁ = s' := Option.some.inj h₁
    exact Or.inl ⟨h, req, res, hnew, hs₁⟩
  · exact Or.inr ⟨fun h hh => hstart ⟨h, List.mem_reverse.mp hh⟩, h₁⟩

/-- The monitoring starts before anything else happens in the event. -/
theorem Fresh.runHooks {c : Enforcer} {ev : Enforcer.Event} (hs : Fresh s)
    (hc : s.core.step ev = some c)
    (hun : ∀ h, .startMonitoring h ∈ s.core.newer c → s.unattended h = true)
    (h₁ : s.runHooks c out = some s') : Fresh s' := by
  have hcore : Fresh { s with core := c } := hs.core (Enforcer.named_step hs.named hc)
  obtain ⟨h, req, res, hnew, hbegin⟩ | ⟨hnone, hhooks⟩ := runHooks_cases hs.named hc h₁
  · exact hcore.startMonitoring (hun h (by simp [hnew])) hbegin
  · exact hcore.hooks hnone hhooks

theorem Fresh.verdict {st : WorkerState} (hok : st ≠ .ok) (hs : Fresh s)
    (h₁ : s.verdict h st out = some s') : Fresh s' := by
  obtain ⟨status, k, w, rfl⟩ := eq_of_verdict hok h₁
  exact hs.observeDown status k w

/-- **What a worker's message does**: it closes the pipe of an inactive domain, is a sign of life of
an active one, or a verdict on it. -/
theorem handleWorker_cases {state : Option WorkerState}
    (h₁ : s.handleWorker h fd state out = some s') :
    s.activeDomains h = false ∧ s' = s.close fd ∨
    s.activeDomains h = true ∧ (s' = { s with core := s.core.observeUp h } ∨
      ∃ st s₁, st ≠ .ok ∧ s.verdict h st out = some s₁ ∧ s' = (s₁.close fd).setActive h false) := by
  unfold handleWorker at h₁
  split_ifs at h₁ with hidle
  · exact Or.inl ⟨hidle, (Option.some.inj h₁).symm⟩
  · obtain ⟨st, -, h₁⟩ := Option.bind_eq_some_iff.mp h₁
    refine Or.inr ⟨Bool.not_eq_false _ ▸ hidle, ?_⟩
    split_ifs at h₁ with hok
    · exact Or.inl (Option.some.inj h₁).symm
    · obtain ⟨s₁, hs₁, h₁⟩ := Option.bind_eq_some_iff.mp h₁
      exact Or.inr ⟨st, s₁, hok, hs₁, (Option.some.inj h₁).symm⟩

theorem Fresh.handleWorker {state : Option WorkerState} (hs : Fresh s)
    (h₁ : s.handleWorker h fd state out = some s') : Fresh s' := by
  obtain ⟨-, rfl⟩ | ⟨-, rfl | ⟨st, s₁, hok, hs₁, rfl⟩⟩ := handleWorker_cases h₁
  · exact hs.close
  · exact hs.core (Enforcer.named_step (e := .observeUp h) hs.named rfl)
  · exact (hs.verdict hok hs₁).close.stopMonitoring

theorem fresh_step (hs : Fresh s) (hun : ∀ h ∈ s.starting e, s.unattended h = true)
    (h₁ : step s e = some s') : Fresh s' := by
  unfold step at h₁
  split at h₁
  · next ev hev =>
    obtain ⟨c, hc, h₁⟩ := Option.bind_eq_some_iff.mp h₁
    refine hs.runHooks hc (fun h hh => hun h ?_) h₁
    have hbase : (s.baseEvent e).bind s.core.step = some c := by rw [hev]; exact hc
    rw [starting, hbase]
    exact List.mem_filterMap.mpr ⟨_, hh, rfl⟩
  · split at h₁
    · split_ifs at h₁
      unfold setGeneration at h₁
      split_ifs at h₁
      exact Option.some.inj h₁ ▸ ⟨⟨hs.named.1, hs.named.2⟩, hs.armed, hs.current⟩
    · obtain ⟨w, -, h₁⟩ := Option.bind_eq_some_iff.mp h₁
      exact hs.handleWorker h₁
    · cases h₁

theorem fresh_init (gens : Handle → GenNo) : Fresh (init gens) :=
  ⟨Enforcer.named_init [] gens, fun _ _ h => (by cases h), fun _ _ h => (by cases h)⟩

/-! ## Verdicts -/

theorem Fresh.judgedByCurrent (hs : Fresh s) (h₁ : step s e = some s') :
    s.JudgedByCurrent e s' := by
  rintro fd state w he hw
  obtain ⟨e, out⟩ := e
  obtain rfl : e = .worker fd state := he
  simp only [step, baseEvent, hw, Option.bind_eq_bind, Option.bind_some] at h₁
  obtain ⟨-, rfl⟩ | ⟨hact, hcase⟩ := handleWorker_cases h₁
  · have hnil : s.core.newer (s.close fd).core = [] := Enforcer.newer_of_log rfl
    refine ⟨fun h hh => ?_, fun hcond => ?_⟩
    · rw [hnil] at hh
      cases hh
    · obtain ⟨a, ha, -⟩ := hcond
      rw [hnil] at ha
      cases ha
  · refine ⟨fun h hh => ?_, fun _ => hs.current fd w hw hact⟩
    obtain rfl | ⟨st, s₁, hok, hs₁, rfl⟩ := hcase
    · obtain ⟨-, -, -, -, l, hlog, hquiet⟩ :=
        Enforcer.quiet_observeUp (s := s.core) (t := w.handle)
      rw [Enforcer.newer_of_log hlog] at hh
      exact (hquiet _ hh).elim
    · obtain ⟨status, k, w', rfl⟩ := eq_of_verdict hok hs₁
      exact Enforcer.eq_of_newer_observeDown hh

/-- **Only the current worker's verdict counts.**  In a run in which the monitoring of a domain does
not start while a pipe of it has a callback, what a worker writes reports a domain down only if the
worker was spawned by the last `StartMonitoring` of the domain. -/
theorem judged_by_current_worker (gens : Handle → GenNo) (es : List (Event × Outside))
    (h : Run.Along step (fun s e _ => ∀ h ∈ s.starting e, s.unattended h = true) (init gens) es) :
    Run.Along step JudgedByCurrent (init gens) es :=
  Run.Along.of_inv (fun s e _ h₁ (hs : Fresh s) (hun : ∀ h ∈ s.starting e, s.unattended h = true) =>
    ⟨fresh_step hs hun h₁, hs.judgedByCurrent h₁⟩) es _ (fresh_init gens) h

/-- The domain `"vm"` gets a client, and after the events `mid` another one. -/
def twoClients (mid : List (Event × Outside)) : List (Event × Outside) :=
  (.request (.register ⟨⟨"vm", [0]⟩, false, -1, ⟨1, 0, 7⟩⟩), running 0) :: mid ++
    [(.request (.register ⟨⟨"vm", [1]⟩, false, -1, ⟨1, 0, 8⟩⟩), running 1)]

/-- Its first worker, then its second one, find it dead. -/
theorem judged_by_current_worker_twice : Run.Along step JudgedByCurrent (init fun _ => 0)
    (twoClients [(.worker 0 (some .dead), running 0)] ++ [(.worker 1 (some .dead), running 1)]) :=
  judged_by_current_worker (fun _ => 0) _ (by decide)

/-- It is killed, and the machine is started again and gets a new client: now the first worker, of
the generation before, writes that it is dead, and the new client is told. -/
theorem judged_by_earlier_worker : ¬ Run.Along step JudgedByCurrent (init fun _ => 0)
    (twoClients [(.request (.kill ⟨"vm", [0]⟩), running 0)] ++
      [(.worker 0 (some .dead), running 1)]) := by
  obtain ⟨s, s', hs, hs', hworker, hdown, hstarts⟩ : ∃ s s',
      (twoClients [(.request (.kill ⟨"vm", [0]⟩), running 0)]).foldlM step (init fun _ => 0) =
        some s ∧
      step s (.worker 0 (some .dead), running 1) = some s' ∧
      s.pipes.lookup 0 = some ⟨"vm", 1⟩ ∧
      .clientDown ⟨1, 0, 8⟩ ⟨"vm", [1], 4, false, false, 8⟩ ∈ s.core.newer s'.core ∧
      s.starts "vm" = 2 :=
    ⟨_, _, rfl, rfl, by decide, by decide, by decide⟩
  intro h
  have hcur := Run.along_iff_run.mp h _ _ List.prefix_rfl s s' hs hs'
  have hone : 1 = s.starts "vm" := (hcur 0 (some .dead) ⟨"vm", 1⟩ rfl hworker).2 ⟨_, hdown, rfl⟩
  exact absurd (hone.trans hstarts) (by decide)

end OSEnforcer

end Falcon
