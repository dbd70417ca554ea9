import Falcon.Enforcer.Downs
import Falcon.Os.Workers

/-!
# Os/Host — the enforcer of a host, its workers and the domains

The workers of `os_worker.cc` run next to the enforcer, and write to their pipes; domains start and
stop at any time.  A worker probes its domain until the probe says something else than `NTFA_ALIVE`,
or `libvirt` has sent it `SIGUSR1` because the domain has been shut down.  A worker that may kill
destroys a domain whose memory does not move; otherwise it leaves this to the enforcer.

Between what a worker finds and what the enforcer makes of it the domain can start again.  What can
be said is about the time from one start of the domain to the next: `boots` counts the starts, and
`watched` has the count when the monitoring of a domain last started.

* `down_is_down` — when the enforcer reports a domain down, and not only that it would kill it, then
  the domain as it ran when its monitoring started does not run any more.
-/

namespace Falcon

/-- What `virDomainDoNtfaProbe` returns. -/
inductive Ntfa
  | alive | inactive | dead | other
  deriving DecidableEq, Repr

/-- What `virDomainIsActive` returns: 1, 0, or -1. -/
inductive Active
  | yes | no | failed
  deriving DecidableEq, Repr

/-- A worker process.  No function of the program reads `boot`, the starts of its domain until it
was spawned. -/
structure Proc where
  name : Handle
  lethal : Bool
  running : Bool
  /-- What is in the pipe, oldest first. -/
  written : List WorkerState
  boot : ℕ
  deriving DecidableEq, Repr

/-- A host. -/
structure OSHost where
  enforcer : OSEnforcer
  /-- The worker that writes to a pipe. -/
  procs : PipeFd → Proc
  /-- The domains that run. -/
  on : Handle → Bool
  boots : Handle → ℕ
  watched : Handle → ℕ

/-- The target of a `Kill`. -/
def Action.killed : Action → Option Handle
  | .kill h => some h
  | _ => none

/-- The domains that `Kill` is called for; a verdict on a domain that is not active is dropped. -/
def OSEnforcer.killing (s : OSEnforcer) (e : OSEnforcer.Event × OSEnforcer.Outside) :
    List Handle :=
  match s.baseEvent e with
  | some ev => ((s.core.step ev).elim [] s.core.newer).filterMap Action.killed
  | none =>
    match e.1 with
    | .worker fd (some .error) | .worker fd (some .needsKill) =>
      ((s.pipes.lookup fd).map Worker.handle).toList.filter fun h =>
        s.activeDomains h && s.core.killable h
    | _ => []

namespace OSHost

inductive Event
  /-- A domain starts. -/
  | boot (h : Handle)
  /-- A domain stops by itself. -/
  | halt (h : Handle)
  /-- A round of the loop of a worker. -/
  | probe (fd : PipeFd) (res : Ntfa)
  /-- A worker gets `SIGUSR1`. -/
  | notify (fd : PipeFd) (ret : Active)
  /-- A worker does not find its domain. -/
  | lost (fd : PipeFd)
  | enforcer (e : OSEnforcer.Event) (out : OSEnforcer.Outside)
  deriving DecidableEq

/-- The host when `Init` is done; some domains run. -/
def init (gens : Handle → GenNo) (on : Handle → Bool) : OSHost where
  enforcer := OSEnforcer.init gens
  procs := fun _ => ⟨"", false, false, [], 0⟩
  on := on
  boots := fun _ => 0
  watched := fun _ => 0

/-! ## The workers -/

def setProc (fd : PipeFd) (p : Proc) (s : OSHost) : OSHost :=
  { s with procs := Function.update s.procs fd p }

/-- `put_status`, and then the worker goes on or not; it does not go on when the pipe is closed. -/
def putStatus (fd : PipeFd) (state : WorkerState) (running : Bool) (s : OSHost) : OSHost :=
  if (s.enforcer.pipes.lookup fd).isSome then
    s.setProc fd { s.procs fd with written := (s.procs fd).written ++ [state], running := running }
  else s.setProc fd { s.procs fd with running := false }

/-- Some domains do not run any more. -/
def destroy (hs : List Handle) (s : OSHost) : OSHost := { s with on := fun h => s.on h && h ∉ hs }

/-- A round of the loop of a worker; only a domain that does not run is inactive. -/
def probe (fd : PipeFd) (res : Ntfa) (s : OSHost) : Option OSHost :=
  match res with
  | .alive => some (s.putStatus fd .ok true)
  | .inactive =>
    if s.on (s.procs fd).name then none else some (s.putStatus fd .dead false)
  | .dead =>
    if (s.procs fd).lethal then some ((s.destroy [(s.procs fd).name]).putStatus fd .killed false)
    else some (s.putStatus fd .needsKill false)
  | .other => some (s.putStatus fd .error false)

/-- `shutdown_notification_callback`. -/
def notify (fd : PipeFd) (ret : Active) (s : OSHost) : Option OSHost :=
  match ret with
  | .yes => some s
  | .no => if s.on (s.procs fd).name then none else some (s.putStatus fd .dead false)
  | .failed => some (s.putStatus fd .needsKill false)

/-! ## The enforcer -/

/-- What is read from a pipe has been written to it. -/
def Reads (s : OSHost) : OSEnforcer.Event → Prop
  | .worker fd state => state = (s.procs fd).written.head? ∧
      (state = none → (s.procs fd).running = false)
  | _ => True

instance (s : OSHost) (e : OSEnforcer.Event) : Decidable (s.Reads e) :=
  match e with
  | .worker _ _ => inferInstanceAs (Decidable (_ ∧ _))
  | .request _ => isTrue trivial
  | .fire _ _ => isTrue trivial
  | .router _ _ => isTrue trivial

/-- A pipe is read. -/
def read (s : OSHost) : OSEnforcer.Event → OSHost
  | .worker fd _ => s.setProc fd { s.procs fd with written := (s.procs fd).written.tail }
  | _ => s

/-- `StartMonitoring` has spawned the worker of the pipe `fd`. -/
def spawn (fd : PipeFd) (h : Handle) (s : OSHost) : OSHost :=
  { s.setProc fd ⟨h, s.enforcer.core.killable h, true, [], s.boots h⟩ with
    watched := Function.update s.watched h (s.boots h) }

/-- An event of the enforcer: domains are destroyed, or a worker is spawned. -/
def serve (e : OSEnforcer.Event) (out : OSEnforcer.Outside) (s : OSHost) : Option OSHost := do
  let E ← s.enforcer.step (e, out)
  let s₁ := { (s.read e).destroy (s.enforcer.killing (e, out)) with enforcer := E }
  match s.enforcer.starting (e, out) with
  | [] => some s₁
  | h :: _ => some (s₁.spawn s.enforcer.nextPipe h)

/-- One event. -/
def step (s : OSHost) : Event → Option OSHost
  | .boot h =>
    if s.on h then none
    else some { s with
      on := Function.update s.on h true
      boots := Function.update s.boots h (s.boots h + 1) }
  | .halt h => some (s.destroy [h])
  | .probe fd res => if (s.procs fd).running then s.probe fd res else none
  | .notify fd ret => if (s.procs fd).running then s.notify fd ret else none
  | .lost fd => if (s.procs fd).running then some (s.putStatus fd .error false) else none
  | .enforcer e out => if s.Reads e then s.serve e out else none

/-! ## What is reported -/

/-- What the start number `n` of `h` has begun is over. -/
def Over (s : OSHost) (h : Handle) (n : ℕ) : Prop := s.on h = false ∨ n < s.boots h

/-- A report that says more than that the enforcer would kill the target. -/
def Certain (arg : ClientDownArg) : Prop :=
  arg.killed = true ∨ arg.layerStatus = WorkerState.killed.toUInt32 ∨
    arg.layerStatus = WorkerState.dead.toUInt32

end OSHost

namespace OSEnforcer

variable {s s' : OSEnforcer} {e : Event × Outside} {h : Handle} {fd : PipeFd} {w : Worker}
  {out : Outside} {st : WorkerState} {acts : List Action} {arg : ClientDownArg}

/-- A report of a domain that is down. -/
theorem downs_observeDown {status : UInt32} {k w : Bool}
    (h₁ : arg ∈ (s.observeDown h status k w).core.downs) :
    arg ∈ s.core.downs ∨ arg.handle = h ∧ arg.killed = k ∧ arg.layerStatus = status := by
  obtain h₁ | ⟨c, -, rfl⟩ := Enforcer.mem_downs_observeDown h₁
  · exact Or.inl h₁
  · exact Or.inr ⟨rfl, rfl, rfl⟩

theorem downs_kill (h₁ : s.kill h out = some s') (harg : arg ∈ s'.core.downs) :
    arg ∈ s.core.downs ∨ arg.handle = h := by
  rw [eq_of_kill h₁] at harg
  exact (downs_observeDown harg).imp_right And.left

/-- The hooks of an event report the domains that they kill. -/
theorem downs_hooks (h₁ : acts.foldlM (hook out) s = some s') (harg : arg ∈ s'.core.downs) :
    arg ∈ s.core.downs ∨ .kill arg.handle ∈ acts := by
  induction acts generalizing s with
  | nil =>
    obtain rfl : s = s' := Option.some.inj h₁
    exact Or.inl harg
  | cons a acts ih =>
    rw [List.foldlM_cons] at h₁
    obtain ⟨s₁, hs₁, h₁⟩ := Option.bind_eq_some_iff.mp h₁
    obtain harg | hmem := ih h₁
    · unfold hook at hs₁
      split at hs₁
      · unfold OSEnforcer.startMonitoring at hs₁
        split_ifs at hs₁
        obtain rfl := Option.some.inj hs₁
        exact Or.inl harg
      · obtain rfl := Option.some.inj hs₁
        exact Or.inl harg
      · obtain harg | rfl := downs_kill hs₁ harg
        · exact Or.inl harg
        · exact Or.inr List.mem_cons_self
      · exact Or.inl (Option.some.inj hs₁ ▸ harg)
    · exact Or.inr (List.mem_cons_of_mem _ hmem)

/-- A verdict reports the domain, which has been killed or not. -/
theorem downs_verdict (hok : st ≠ .ok) (h₁ : s.verdict h st out = some s')
    (harg : arg ∈ s'.core.downs) : arg ∈ s.core.downs ∨ arg.handle = h ∧
      ((st = .error ∨ st = .needsKill) ∧ s.core.killable h = true ∨
        arg.killed = false ∧ arg.layerStatus = st.toUInt32) := by
  unfold verdict at h₁
  split at h₁
  · exact absurd rfl hok
  · split_ifs at h₁ with hkillable
    · exact (downs_kill h₁ harg).imp_right fun heq => ⟨heq, Or.inl ⟨Or.inl rfl, hkillable⟩⟩
    · obtain rfl := Option.some.inj h₁
      exact (downs_observeDown harg).imp_right fun heq => ⟨heq.1, Or.inr heq.2⟩
  · split_ifs at h₁ with hkillable
    · exact (downs_kill h₁ harg).imp_right fun heq => ⟨heq, Or.inl ⟨Or.inr rfl, hkillable⟩⟩
    · obtain rfl := Option.some.inj h₁
      exact (downs_observeDown harg).imp_right fun heq => ⟨heq.1, Or.inr heq.2⟩
  · obtain rfl := Option.some.inj h₁
    exact (downs_observeDown harg).imp_right fun heq => ⟨heq.1, Or.inr heq.2⟩
  · obtain rfl := Option.some.inj h₁
    exact (downs_observeDown harg).imp_right fun heq => ⟨heq.1, Or.inr heq.2⟩

/-- **What an event of the enforcer is to its host**: the monitoring of a domain starts, or pipes
are closed, domains get inactive, and reports are made of domains that are killed or that a worker
has found down. -/
inductive Serves (s : OSEnforcer) (e : Event × Outside) (s' : OSEnforcer) : Prop
  | start (h : Handle) (rest : List Handle) (hstarting : s.starting e = h :: rest)
      (hpipes : s'.pipes = s.pipes.insert s.nextPipe ⟨h, s.starts h + 1⟩)
      (hactive : s'.activeDomains = Function.update s.activeDomains h true)
      (hdowns : s'.core.downs ⊆ s.core.downs)
  | rest (hstarting : s.starting e = [])
      (hpipes : ∀ fd w, s'.pipes.lookup fd = some w → s.pipes.lookup fd = some w)
      (hactive : ∀ h, s'.activeDomains h = true → s.activeDomains h = true)
      (hdowns : ∀ arg ∈ s'.core.downs, arg ∈ s.core.downs ∨ arg.handle ∈ s.killing e ∨
        ∃ fd st w, e.1 = .worker fd (some st) ∧ s.pipes.lookup fd = some w ∧
          s.activeDomains w.handle = true ∧ arg.handle = w.handle ∧ arg.killed = false ∧
          arg.layerStatus = st.toUInt32)

/-- The hooks of an event that starts no monitoring leave the pipes, and make no domain active. -/
theorem hooks_serve (hstart : ∀ h, .startMonitoring h ∉ acts)
    (h₁ : acts.foldlM (hook out) s = some s') :
    s'.pipes = s.pipes ∧ ∀ h, s'.activeDomains h = true → s.activeDomains h = true := by
  refine Run.keeps_of_mem
    (I := fun s' => s'.pipes = s.pipes ∧ ∀ h, s'.activeDomains h = true → s.activeDomains h = true)
    (fun a ha t t' ht' ht => ?_) h₁ ⟨rfl, fun _ h => h⟩
  have hstop : ∀ h h', (t.stopMonitoring h).activeDomains h' = true →
      t.activeDomains h' = true := by
    intro h h' hact
    by_cases heq : h' = h
    · simp [OSEnforcer.stopMonitoring, setActive, heq] at hact
    · simpa [OSEnforcer.stopMonitoring, setActive, heq] using hact
  unfold hook at ht'
  split at ht'
  · exact absurd ha (hstart _)
  · obtain rfl := Option.some.inj ht'
    exact ⟨ht.1, fun h hact => ht.2 h (hstop _ h hact)⟩
  · rw [eq_of_kill ht']
    exact ⟨ht.1, fun h hact => ht.2 h (hstop _ h hact)⟩
  · exact Option.some.inj ht' ▸ ht

theorem runHooks_serves {c : Enforcer} {ev : Enforcer.Event} (hn : s.core.Named)
    (hev : s.baseEvent e = some ev) (hc : s.core.step ev = some c)
    (h₁ : s.runHooks c e.2 = some s') : Serves s e s' := by
  have hstarting : s.starting e = (s.core.newer c).filterMap Action.started := by
    rw [starting, hev, Option.bind_some, hc]
  have hdowns : c.downs ⊆ s.core.downs := by
    refine Enforcer.downs_step hc fun t st k w heq => ?_
    subst heq
    obtain ⟨e, out⟩ := e
    cases e <;> cases hev
  obtain ⟨h, req, res, hnew, hbegin⟩ | ⟨hnone, hhooks⟩ := runHooks_cases hn hc h₁
  · unfold OSEnforcer.startMonitoring at hbegin
    split_ifs at hbegin
    obtain rfl := Option.some.inj hbegin
    rw [hnew] at hstarting
    exact .start h [] hstarting rfl rfl hdowns
  · obtain ⟨hpipes, hactive⟩ := hooks_serve hnone hhooks
    refine .rest ?_ (fun fd w hw => hpipes ▸ hw) hactive fun arg harg => ?_
    · rw [hstarting, List.filterMap_eq_nil_iff]
      intro a ha
      cases a with
      | startMonitoring h => exact absurd (List.mem_reverse.mpr ha) (hnone h)
      | _ => rfl
    · obtain harg | hmem := downs_hooks hhooks harg
      · exact Or.inl (hdowns harg)
      · refine Or.inr (Or.inl ?_)
        rw [killing, hev]
        dsimp only
        rw [hc]
        exact List.mem_filterMap.mpr ⟨_, List.mem_reverse.mp hmem, rfl⟩

theorem worker_serves {state : Option WorkerState} (he : e.1 = .worker fd state)
    (hw : s.pipes.lookup fd = some w) (h₁ : s.handleWorker w.handle fd state e.2 = some s') :
    Serves s e s' := by
  have hbase : s.baseEvent e = none := by
    obtain ⟨e, out⟩ := e
    subst he
    rfl
  have hstarting : s.starting e = [] := by rw [starting, hbase, Option.bind_none]
  have hclose : ∀ {t : OSEnforcer} fd' w', (t.close fd).pipes.lookup fd' = some w' →
      t.pipes.lookup fd' = some w' := fun _ _ hw' => Keyed.lookup_of_lookup_erase hw'
  unfold handleWorker at h₁
  split_ifs at h₁ with hidle
  · obtain rfl := Option.some.inj h₁
    exact .rest hstarting hclose (fun _ hact => hact) fun _ harg => Or.inl harg
  have hactive : s.activeDomains w.handle = true := Bool.not_eq_false _ ▸ hidle
  obtain ⟨st, hstate, h₂⟩ := Option.bind_eq_some_iff.mp h₁
  subst hstate
  split_ifs at h₂ with hok
  · obtain rfl := Option.some.inj h₂
    exact .rest hstarting (fun _ _ hw => hw) (fun _ hact => hact) fun arg harg =>
      Or.inl (Enforcer.downs_observeUp harg)
  obtain ⟨s₁, hs₁, h₂⟩ := Option.bind_eq_some_iff.mp h₂
  obtain rfl := Option.some.inj h₂
  obtain ⟨status, k, wk, heq⟩ := eq_of_verdict hok hs₁
  refine .rest hstarting (fun fd' w' hw' => ?_) (fun h hact => ?_) fun arg harg => ?_
  · have hpipes : s₁.pipes.lookup fd' = some w' := hclose fd' w' hw'
    rwa [heq] at hpipes
  · by_cases hh : h = w.handle
    · exact hh ▸ hactive
    · simpa [heq, OSEnforcer.observeDown, OSEnforcer.stopMonitoring, setActive, close,
        hh] using hact
  · obtain harg | ⟨hhandle, ⟨hst, hkillable⟩ | hrest⟩ := downs_verdict hok hs₁ harg
    · exact Or.inl harg
    · refine Or.inr (Or.inl ?_)
      obtain ⟨e, out⟩ := e
      obtain rfl : e = .worker fd (some st) := he
      have hmem : arg.handle ∈ ((s.pipes.lookup fd).map Worker.handle).toList.filter
          fun h => s.activeDomains h && s.core.killable h := by
        rw [hw, hhandle]
        simpa using ⟨hactive, hkillable⟩
      obtain rfl | rfl := hst
      · exact hmem
      · exact hmem
    · exact Or.inr (Or.inr ⟨fd, st, w, he, hw, hactive, hhandle, hrest⟩)

theorem step_serves (hn : s.core.Named) (h₁ : step s e = some s') : Serves s e s' := by
  unfold step at h₁
  split at h₁
  · next ev hev =>
    obtain ⟨c, hc, h₁⟩ := Option.bind_eq_some_iff.mp h₁
    exact runHooks_serves hn hev hc h₁
  · next hev =>
    split at h₁
    · have hstarting : s.starting e = [] := by rw [starting, hev, Option.bind_none]
      split_ifs at h₁
      unfold setGeneration at h₁
      split_ifs at h₁
      obtain rfl := Option.some.inj h₁
      exact .rest hstarting (fun _ _ hw => hw) (fun _ hact => hact) fun _ harg => Or.inl harg
    · next fd state he =>
      obtain ⟨w, hw, h₁⟩ := Option.bind_eq_some_iff.mp h₁
      exact worker_serves he hw h₁
    · cases h₁

end OSEnforcer

namespace OSHost

variable {s s' : OSHost} {e : Event} {h : Handle} {fd : PipeFd} {st : WorkerState} {n : ℕ}
  {running : Bool} {hs : List Handle} {es : List Event}

/-! ## Starts that are over -/

/-- What is over stays over, and a new start has a new number. -/
structure Later (s s' : OSHost) : Prop where
  boots : ∀ h, s.boots h ≤ s'.boots h
  ended : ∀ h n, n ≤ s.boots h → s.Over h n → s'.Over h n

theorem Later.of_eq (hon : s'.on = s.on) (hboots : s'.boots = s.boots) : Later s s' := by
  refine ⟨fun h => hboots ▸ le_rfl, fun h n _ hover => ?_⟩
  rwa [Over, hon, hboots]

theorem later_destroy (hs : List Handle) : Later s (s.destroy hs) := by
  refine ⟨fun _ => le_rfl, fun h n _ hover => hover.imp_left fun hoff => ?_⟩
  change (s.on h && _) = false
  rw [hoff, Bool.false_and]

/-- A domain that is destroyed is over. -/
theorem over_destroy (hh : h ∈ hs) : (s.destroy hs).Over h n := by
  refine Or.inl ?_
  change (s.on h && decide (h ∉ hs)) = false
  rw [decide_eq_false (not_not.mpr hh), Bool.and_false]

/-- A domain that does not run starts. -/
theorem later_boot (hoff : s.on h = false) : Later s { s with
    on := Function.update s.on h true
    boots := Function.update s.boots h (s.boots h + 1) } := by
  refine ⟨fun h' => ?_, fun h' n hn hover => ?_⟩
  · obtain rfl | hne := eq_or_ne h' h
    · simp
    · simp [hne]
  · obtain rfl | hne := eq_or_ne h' h
    · refine Or.inr ?_
      dsimp only
      rw [Function.update_self]
      exact Nat.lt_succ_of_le hn
    · simpa [Over, hne] using hover

/-! ## The invariant -/

/-- **What the workers of a host have written is true**, of the time since they were spawned; and
the worker of an active domain was spawned when its monitoring started. -/
structure Truthful (s : OSHost) : Prop where
  fresh : s.enforcer.Fresh
  name : ∀ fd w, s.enforcer.pipes.lookup fd = some w → (s.procs fd).name = w.handle
  current : ∀ fd w, s.enforcer.pipes.lookup fd = some w →
    s.enforcer.activeDomains w.handle = true → (s.procs fd).boot = s.watched w.handle
  bound : ∀ fd, (s.procs fd).boot ≤ s.boots (s.procs fd).name
  told : ∀ fd, ∀ st ∈ (s.procs fd).written, st = .killed ∨ st = .dead →
    s.Over (s.procs fd).name (s.procs fd).boot

/-- Domains start and stop. -/
theorem Truthful.later (ht : Truthful s) (hl : Later s s') (henforcer : s'.enforcer = s.enforcer)
    (hprocs : s'.procs = s.procs) (hwatched : s'.watched = s.watched) : Truthful s' := by
  refine ⟨henforcer ▸ ht.fresh, ?_, ?_, fun fd => ?_, fun fd st hst hcase => ?_⟩
  · rw [henforcer, hprocs]
    exact ht.name
  · rw [henforcer, hprocs, hwatched]
    exact ht.current
  · rw [hprocs]
    exact (ht.bound fd).trans (hl.boots _)
  · rw [hprocs] at hst ⊢
    exact hl.ended _ _ (ht.bound fd) (ht.told fd st hst hcase)

/-- A worker process changes, but not its domain. -/
theorem Truthful.setProc (ht : Truthful s) {p : Proc} (hname : p.name = (s.procs fd).name)
    (hboot : p.boot = (s.procs fd).boot)
    (htold : ∀ st ∈ p.written, st = .killed ∨ st = .dead → s.Over p.name p.boot) :
    Truthful (s.setProc fd p) := by
  have hproc : ∀ fd', ((s.setProc fd p).procs fd').name = (s.procs fd').name ∧
      ((s.setProc fd p).procs fd').boot = (s.procs fd').boot := by
    intro fd'
    change (Function.update s.procs fd p fd').name = _ ∧ (Function.update s.procs fd p fd').boot = _
    obtain rfl | hne := eq_or_ne fd' fd
    · rw [Function.update_self]
      exact ⟨hname, hboot⟩
    · rw [Function.update_of_ne hne]
      exact ⟨rfl, rfl⟩
  refine ⟨ht.fresh, fun fd' w hw => ?_, fun fd' w hw hact => ?_, fun fd' => ?_,
    fun fd' st hst hcase => ?_⟩
  · rw [(hproc fd').1]
    exact ht.name fd' w hw
  · rw [(hproc fd').2]
    exact ht.current fd' w hw hact
  · rw [(hproc fd').1, (hproc fd').2]
    exact ht.bound fd'
  · obtain rfl | hne := eq_or_ne fd' fd
    · have hp : (s.setProc fd' p).procs fd' = p := Function.update_self _ _ _
      rw [hp] at hst ⊢
      exact htold st hst hcase
    · have hp : (s.setProc fd p).procs fd' = s.procs fd' := Function.update_of_ne hne _ _
      rw [hp] at hst ⊢
      exact ht.told fd' st hst hcase

/-- **A worker writes**, and it says that its domain is down only if it is. -/
theorem Truthful.putStatus (ht : Truthful s)
    (hst : st = .killed ∨ st = .dead → s.Over (s.procs fd).name (s.procs fd).boot) :
    Truthful (s.putStatus fd st running) := by
  unfold OSHost.putStatus
  split_ifs
  · refine ht.setProc rfl rfl fun st' hst' hcase => ?_
    obtain hmem | hmem := List.mem_append.mp hst'
    · exact ht.told fd st' hmem hcase
    · exact hst (List.mem_singleton.mp hmem ▸ hcase)
  · exact ht.setProc rfl rfl (ht.told fd)

theorem Truthful.probe {res : Ntfa} (ht : Truthful s) (h₁ : s.probe fd res = some s') :
    Truthful s' := by
  cases res with
  | alive => exact Option.some.inj h₁ ▸ ht.putStatus (by simp)
  | inactive =>
    unfold OSHost.probe at h₁
    dsimp only at h₁
    split_ifs at h₁ with hon
    exact Option.some.inj h₁ ▸ ht.putStatus fun _ => Or.inl (Bool.not_eq_true _ ▸ hon)
  | dead =>
    unfold OSHost.probe at h₁
    dsimp only at h₁
    split_ifs at h₁
    · have hd := ht.later (later_destroy [(s.procs fd).name]) rfl rfl rfl
      exact Option.some.inj h₁ ▸ hd.putStatus fun _ => over_destroy List.mem_cons_self
    · exact Option.some.inj h₁ ▸ ht.putStatus (by simp)
  | other => exact Option.some.inj h₁ ▸ ht.putStatus (by simp)

theorem Truthful.notify {ret : Active} (ht : Truthful s) (h₁ : s.notify fd ret = some s') :
    Truthful s' := by
  cases ret with
  | yes => exact Option.some.inj h₁ ▸ ht
  | no =>
    unfold OSHost.notify at h₁
    dsimp only at h₁
    split_ifs at h₁ with hon
    exact Option.some.inj h₁ ▸ ht.putStatus fun _ => Or.inl (Bool.not_eq_true _ ▸ hon)
  | failed => exact Option.some.inj h₁ ▸ ht.putStatus (by simp)

/-! ## The enforcer -/

theorem Truthful.read {ev : OSEnforcer.Event} (ht : Truthful s) : Truthful (s.read ev) := by
  cases ev with
  | worker fd state =>
    exact ht.setProc rfl rfl fun st hst => ht.told fd st (List.mem_of_mem_tail hst)
  | _ => exact ht

/-- A worker is spawned for a domain that has no other one. -/
theorem Truthful.spawn {E E₀ : OSEnforcer} (ht : Truthful s) (h₀ : s.enforcer = E₀) (hE : E.Fresh)
    (hun : E₀.unattended h = true) {k : ℕ}
    (hpipes : E.pipes = E₀.pipes.insert E₀.nextPipe ⟨h, k⟩)
    (hactive : E.activeDomains = Function.update E₀.activeDomains h true) :
    Truthful ({ s with enforcer := E }.spawn E₀.nextPipe h) := by
  subst h₀
  have hnew : ({ s with enforcer := E }.spawn s.enforcer.nextPipe h).procs s.enforcer.nextPipe =
      ⟨h, E.core.killable h, true, [], s.boots h⟩ := Function.update_self _ _ _
  have hold : ∀ {fd}, fd ≠ s.enforcer.nextPipe →
      ({ s with enforcer := E }.spawn s.enforcer.nextPipe h).procs fd = s.procs fd :=
    fun hne => Function.update_of_ne hne _ _
  refine ⟨hE, fun fd w hw => ?_, fun fd w hw hact => ?_, fun fd => ?_, fun fd st hst hcase => ?_⟩
  · change E.pipes.lookup fd = some w at hw
    rw [hpipes] at hw
    obtain rfl | hne := eq_or_ne fd s.enforcer.nextPipe
    · obtain rfl := Option.some.inj ((AList.lookup_insert _).symm.trans hw)
      rw [hnew]
    · rw [hold hne]
      exact ht.name fd w ((AList.lookup_insert_ne hne).symm.trans hw)
  · change E.pipes.lookup fd = some w at hw
    change E.activeDomains w.handle = true at hact
    rw [hpipes] at hw
    change _ = Function.update s.watched h (s.boots h) w.handle
    obtain rfl | hne := eq_or_ne fd s.enforcer.nextPipe
    · obtain rfl := Option.some.inj ((AList.lookup_insert _).symm.trans hw)
      rw [hnew, Function.update_self]
    · have hw' := (AList.lookup_insert_ne hne).symm.trans hw
      have hother := OSEnforcer.unattended_iff.mp hun fd w hw'
      rw [hactive, Function.update_of_ne hother] at hact
      rw [hold hne, Function.update_of_ne hother]
      exact ht.current fd w hw' hact
  · obtain rfl | hne := eq_or_ne fd s.enforcer.nextPipe
    · rw [hnew]
      exact le_rfl
    · rw [hold hne]
      exact ht.bound fd
  · obtain rfl | hne := eq_or_ne fd s.enforcer.nextPipe
    · rw [hnew] at hst
      cases hst
    · rw [hold hne] at hst ⊢
      exact ht.told fd st hst hcase

/-- A report that is new says nothing of a domain, or it is down.  One with the contents of a report
that is in circulation already counts as that one, which is sent again. -/
def Honest (s s' : OSHost) : Prop :=
  ∀ arg ∈ s'.enforcer.core.downs, arg ∉ s.enforcer.core.downs → Certain arg →
    s'.Over arg.handle (s'.watched arg.handle)

/-- A verdict that is certain. -/
theorem certain_verdict {arg : ClientDownArg} (h : Certain arg) (hkilled : arg.killed = false)
    (hst : arg.layerStatus = st.toUInt32) : st = .killed ∨ st = .dead := by
  obtain h | h := h
  · rw [hkilled] at h
    cases h
  · rw [hst] at h
    cases st with
    | killed => exact Or.inl rfl
    | dead => exact Or.inr rfl
    | ok => exact absurd h (by decide)
    | error => exact absurd h (by decide)
    | needsKill => exact absurd h (by decide)

theorem Truthful.serve {ev : OSEnforcer.Event} {out : OSEnforcer.Outside} (ht : Truthful s)
    (hun : ∀ h ∈ s.enforcer.starting (ev, out), s.enforcer.unattended h = true)
    (hreads : s.Reads ev) (h₁ : s.serve ev out = some s') : Truthful s' ∧ Honest s s' := by
  obtain ⟨E, hE, h₁⟩ := Option.bind_eq_some_iff.mp h₁
  have hfresh := OSEnforcer.fresh_step ht.fresh hun hE
  have hread : (s.read ev).enforcer = s.enforcer ∧ (s.read ev).watched = s.watched ∧
      Later s (s.read ev) := by
    cases ev <;> exact ⟨rfl, rfl, .of_eq rfl rfl⟩
  obtain ⟨henforcer, hwatched, hlater⟩ := hread
  have hd : Truthful ((s.read ev).destroy (s.enforcer.killing (ev, out))) :=
    ht.read.later (later_destroy _) rfl rfl rfl
  cases OSEnforcer.step_serves ht.fresh.named hE with
  | start h rest hstarting hpipes hactive hdowns =>
    rw [hstarting] at h₁
    obtain rfl := Option.some.inj h₁
    refine ⟨?_, fun arg harg hnew => absurd (hdowns harg) hnew⟩
    exact hd.spawn henforcer hfresh (hun h (by rw [hstarting]; exact List.mem_cons_self)) hpipes
      hactive
  | rest hstarting hpipes hactive hdowns =>
    rw [hstarting] at h₁
    obtain rfl := Option.some.inj h₁
    rw [← henforcer] at hpipes hactive
    refine ⟨⟨hfresh, fun fd w hw => hd.name fd w (hpipes fd w hw),
      fun fd w hw hact => hd.current fd w (hpipes fd w hw) (hactive w.handle hact), hd.bound,
      hd.told⟩, fun arg harg hnew hcertain => ?_⟩
    obtain hold | hkilled | ⟨fd, st, w, he, hw, hact, hhandle, hkilled, hst⟩ := hdowns arg harg
    · exact absurd hold hnew
    · exact over_destroy hkilled
    · obtain rfl : ev = .worker fd (some st) := he
      have hmem : st ∈ (s.procs fd).written := List.mem_of_head? hreads.1.symm
      have htold := ht.told fd st hmem (certain_verdict hcertain hkilled hst)
      rw [ht.name fd w hw, ht.current fd w hw hact] at htold
      have hbound := ht.bound fd
      rw [ht.name fd w hw, ht.current fd w hw hact] at hbound
      rw [hhandle]
      refine (later_destroy _).ended _ _ (hbound.trans (hlater.boots _)) ?_
      exact hlater.ended _ _ hbound htold

/-- The enforcer starts no monitoring of a domain while a pipe of it has a callback. -/
def Attentive (s : OSHost) : Event → Prop
  | .enforcer e out => ∀ h ∈ s.enforcer.starting (e, out), s.enforcer.unattended h = true
  | _ => True

instance (s : OSHost) (e : Event) : Decidable (s.Attentive e) :=
  match e with
  | .enforcer _ _ => inferInstanceAs (Decidable (∀ _ ∈ _, _))
  | .boot _ => isTrue trivial
  | .halt _ => isTrue trivial
  | .probe _ _ => isTrue trivial
  | .notify _ _ => isTrue trivial
  | .lost _ => isTrue trivial

/-- Nothing new is reported. -/
theorem honest_of_eq (h : s'.enforcer = s.enforcer) : Honest s s' := fun _ harg hnew =>
  absurd (h ▸ harg) hnew

theorem enforcer_putStatus : (s.putStatus fd st running).enforcer = s.enforcer := by
  unfold OSHost.putStatus
  split_ifs
  · rfl
  · rfl

/-- The workers do not touch the enforcer. -/
theorem enforcer_probe {res : Ntfa} (h₁ : s.probe fd res = some s') :
    s'.enforcer = s.enforcer := by
  unfold OSHost.probe at h₁
  split at h₁
  · exact Option.some.inj h₁ ▸ enforcer_putStatus
  · split_ifs at h₁
    exact Option.some.inj h₁ ▸ enforcer_putStatus
  · split_ifs at h₁
    · exact Option.some.inj h₁ ▸ enforcer_putStatus
    · exact Option.some.inj h₁ ▸ enforcer_putStatus
  · exact Option.some.inj h₁ ▸ enforcer_putStatus

theorem enforcer_notify {ret : Active} (h₁ : s.notify fd ret = some s') :
    s'.enforcer = s.enforcer := by
  unfold OSHost.notify at h₁
  split at h₁
  · exact Option.some.inj h₁ ▸ rfl
  · split_ifs at h₁
    exact Option.some.inj h₁ ▸ enforcer_putStatus
  · exact Option.some.inj h₁ ▸ enforcer_putStatus

theorem Truthful.step (ht : Truthful s) (ha : s.Attentive e) (h₁ : step s e = some s') :
    Truthful s' ∧ Honest s s' := by
  cases e with
  | boot h =>
    unfold OSHost.step at h₁
    dsimp only at h₁
    split_ifs at h₁ with hon
    obtain rfl := Option.some.inj h₁
    exact ⟨ht.later (later_boot (Bool.not_eq_true _ ▸ hon)) rfl rfl rfl, honest_of_eq rfl⟩
  | halt h =>
    obtain rfl := Option.some.inj h₁
    exact ⟨ht.later (later_destroy [h]) rfl rfl rfl, honest_of_eq rfl⟩
  | probe fd res =>
    unfold OSHost.step at h₁
    dsimp only at h₁
    split_ifs at h₁
    exact ⟨ht.probe h₁, honest_of_eq (enforcer_probe h₁)⟩
  | notify fd ret =>
    unfold OSHost.step at h₁
    dsimp only at h₁
    split_ifs at h₁
    exact ⟨ht.notify h₁, honest_of_eq (enforcer_notify h₁)⟩
  | lost fd =>
    unfold OSHost.step at h₁
    dsimp only at h₁
    split_ifs at h₁
    obtain rfl := Option.some.inj h₁
    exact ⟨ht.putStatus (by simp), honest_of_eq enforcer_putStatus⟩
  | enforcer e out =>
    unfold OSHost.step at h₁
    dsimp only at h₁
    split_ifs at h₁ with hreads
    exact ht.serve ha hreads h₁

theorem truthful_init (gens : Handle → GenNo) (on : Handle → Bool) : Truthful (init gens on) :=
  ⟨OSEnforcer.fresh_init gens, fun _ _ h => (by cases h), fun _ _ h => (by cases h),
    fun _ => le_rfl, fun _ _ h => (by cases h)⟩

/-- **Down is down.**  In every run of a host in which the monitoring of a domain does not start
while a pipe of it has a callback, whenever the domains start and stop and whatever the probes say
of a domain that runs, a report that a domain is down, other than one that the enforcer would kill
it, is true of the domain as it ran when its monitoring last started. -/
theorem down_is_down (gens : Handle → GenNo) (on : Handle → Bool)
    (h : Run.Along step (fun s e _ => s.Attentive e) (init gens on) es) :
    Run.Along step (fun s _ s' => Honest s s') (init gens on) es :=
  Run.Along.of_inv (fun s e _ h₁ (ht : Truthful s) (ha : s.Attentive e) => ht.step ha h₁) es _
    (truthful_init gens on) h

/-- The domain `"vm"` gets a client, and stops.  Its worker finds that, and the domain starts again
before the enforcer reads it; then it gets a client of the next generation, and its memory does not
move. -/
def restarted : List Event :=
  [.enforcer (.request (.register ⟨⟨"vm", [0]⟩, true, -1, ⟨1, 0, 7⟩⟩)) (OSEnforcer.running 0),
    .probe 0 .alive, .enforcer (.worker 0 (some .ok)) (OSEnforcer.running 0), .halt "vm",
    .probe 0 .inactive, .boot "vm", .enforcer (.worker 0 (some .dead)) (OSEnforcer.running 0),
    .enforcer (.request (.register ⟨⟨"vm", [1]⟩, true, -1, ⟨1, 0, 8⟩⟩)) (OSEnforcer.running 1),
    .probe 1 .dead, .enforcer (.worker 1 (some .killed)) (OSEnforcer.running 1)]

theorem down_is_down_restarted :
    Run.Along step (fun s _ s' => Honest s s') (init (fun _ => 0) fun _ => true) restarted ∧
      (restarted.foldlM step (init (fun _ => 0) fun _ => true)).isSome :=
  ⟨down_is_down _ _ (by decide +kernel), by decide +kernel⟩

end OSHost

end Falcon
