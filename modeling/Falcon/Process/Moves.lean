import Falcon.Enforcer.Generations
import Falcon.Process.Step
import Mathlib.Logic.Relation

/-!
# Process/Moves — what the methods of `class ProcessEnforcer` are made of

Every event that brings no new process is a sequence of small moves (`Move`): the base class handles
an event of its own, a report is made, a timer is armed or removed, a record changes, a descriptor
gets a callback or is closed.  Invariants of runs are checked move by move.

Probing is the part that concerns one process: the moves that belong to the probing of `p` are
allowed for the `p` in a set `A` only, and the callback for answers changes on the descriptors in a
set `F` only, unless they are closed.
-/

namespace Falcon

/-- The process a timer carries. -/
def Timer.owner : Timer → Option ProcRef
  | .probeProcess p => some p
  | .processTimeout p => some p
  | .checkCPUTime p _ => some p
  | .confirmDeath _ _ _ _ => none

/-- What no method changes in a record. -/
def Process.ident (r : Process) : Process := { r with cb := none, state := 0, active := false }

theorem Process.same_of_ident {r r' : Process} (h : r.ident = r'.ident) :
    r.handle = r'.handle ∧ r.pid = r'.pid ∧ r.delay = r'.delay ∧ r.fd = r'.fd := by
  simp only [ident, mk.injEq, and_true] at h
  obtain ⟨hhandle, hpid, hdelay, -, hfd⟩ := h
  exact ⟨hhandle, hpid, hdelay, hfd⟩

namespace ProcessEnforcer

variable {s s' : ProcessEnforcer} {h : Handle} {p : ProcRef} {r : Process} {out : Outside}
  {A : ProcRef → Prop} {F : Fd → Prop}

@[simp] theorem setProc_procs_self : (s.setProc p r).procs p = some r := Function.update_self _ _ _

theorem setProc_procs_of_ne {q : ProcRef} (h : q ≠ p) : (s.setProc p r).procs q = s.procs q :=
  Function.update_of_ne h _ _

/-! `timecb_remove` touches the timers only. -/

section

variable (cb : Option TimerRef)

@[simp] theorem timecbRemove_core : (s.timecbRemove cb).core = s.core := by cases cb <;> rfl

@[simp] theorem timecbRemove_procs : (s.timecbRemove cb).procs = s.procs := by cases cb <;> rfl

@[simp] theorem timecbRemove_nextProc : (s.timecbRemove cb).nextProc = s.nextProc := by
  cases cb <;> rfl

@[simp] theorem timecbRemove_monitored : (s.timecbRemove cb).monitored = s.monitored := by
  cases cb <;> rfl

@[simp] theorem timecbRemove_nextTimer : (s.timecbRemove cb).nextTimer = s.nextTimer := by
  cases cb <;> rfl

@[simp] theorem timecbRemove_fdcbs : (s.timecbRemove cb).fdcbs = s.fdcbs := by cases cb <;> rfl

@[simp] theorem timecbRemove_opened : (s.timecbRemove cb).opened = s.opened := by cases cb <;> rfl

@[simp] theorem timecbRemove_history : (s.timecbRemove cb).history = s.history := by
  cases cb <;> rfl

theorem lookup_timecbRemove {t : TimerRef} {x : Timer}
    (hx : (s.timecbRemove cb).timers.lookup t = some x) : s.timers.lookup t = some x := by
  cases cb with
  | none => exact hx
  | some t' => exact Keyed.lookup_of_lookup_erase hx

end

/-- A small change of the state, with the probing of the processes in `A` only, over the descriptors
in `F`. -/
inductive Move (A : ProcRef → Prop) (F : Fd → Prop) (s : ProcessEnforcer) : ProcessEnforcer → Prop
  /-- The base class handles an event that is no down. -/
  | base {c : Enforcer} {ev : Enforcer.Event} (hc : s.core.step ev = some c) (hup : ev.NoUpdate)
      (hdown : ∀ t, ev.isDown t = false) : Move A F s { s with core := c }
  /-- The base class's part of `ObserveDown(h, ..)`. -/
  | report {p : ProcRef} {r : Process} {h : Handle} (st : UInt32) (k w : Bool)
      (hp : s.monitored h = some p) (hr : s.procs p = some r) : Move A F s { s with
        core := s.core.observeDown h st k w
        history := .reported p h (s.core.genOf h) k (s.table r.pid)
          (s.core.targetClients h).keys :: s.history }
  | signal (p : ProcRef) (h : Handle) (g : List GenNo) :
      Move A F s { s with history := .signalled p h g :: s.history }
  | confirm (h : Handle) (k w : Bool) (sig : Option Signalled) :
      Move A F s (s.delaycb (.confirmDeath h k w sig))
  /-- A timer expires. -/
  | expire {t : TimerRef} {x : Timer} (hx : s.timers.lookup t = some x)
      (hA : ∀ p, x.owner = some p → A p) : Move A F s { s with timers := s.timers.erase t }
  | exit (pid : Pid) : Move A F s (s.setTable pid false)
  | close (fd : Fd) : Move A F s (s.close fd)
  | stop {p : ProcRef} {r : Process} (hr : s.procs p = some r) :
      Move A F s ((s.timecbRemove r.cb).setProc p { r with cb := none, active := false })
  | activate {p : ProcRef} {r : Process} (hr : s.procs p = some r) (hA : A p) :
      Move A F s (s.setProc p { r with active := true })
  /-- A probe is sent. -/
  | probe {p : ProcRef} {r : Process} {out : Outside} {t : Timer} (hr : s.procs p = some r)
      (hA : A p) (hF : F r.fd) (ht : probeTimer p r out = some t) :
      Move A F s ((s.setTimer p r t).fdcb r.fd (some (.processResponse p)))
  /-- `CheckCPUTime` waits on. -/
  | rearm {p : ProcRef} {r : Process} (startTime : UInt32) (hr : s.procs p = some r) (hA : A p) :
      Move A F s (s.setTimer p r (.checkCPUTime p startTime))
  /-- An answer is read. -/
  | answered {p : ProcRef} {r : Process} (hr : s.procs p = some r) (hA : A p) :
      Move A F s ((s.timecbRemove r.cb).setProc p { r with cb := none })
  /-- The next probe is due after a poll period. -/
  | poll {p : ProcRef} {r : Process} (hr : s.procs p = some r) (hA : A p) :
      Move A F s (s.delaycb (.probeProcess p))
  /-- `p->state` and `p->cb` change. -/
  | mark {p : ProcRef} {r : Process} (state : UInt32) (hr : s.procs p = some r) (hA : A p) :
      Move A F s (s.setProc p { r with state := state, cb := none })
  /-- `fdcb(p->fd, selread, 0)`. -/
  | mute {p : ProcRef} {r : Process} (hr : s.procs p = some r) (hA : A p) (hF : F r.fd) :
      Move A F s (s.fdcb r.fd none)

/-- A sequence of moves. -/
abbrev Moves (A : ProcRef → Prop) (F : Fd → Prop) : ProcessEnforcer → ProcessEnforcer → Prop :=
  Relation.ReflTransGen (Move A F)

/-! ## The methods -/

theorem moves_stopMonitoring (hs : s.stopMonitoring h = some s') : Moves A F s s' := by
  simp only [stopMonitoring, Option.bind_eq_bind, Option.bind_eq_some_iff, Option.some.injEq] at hs
  obtain ⟨p, -, r, hr, rfl⟩ := hs
  exact .single (.stop hr)

theorem moves_observeDown {st : UInt32} {k w : Bool} (hs : s.observeDown h st k w = some s') :
    Moves A F s s' := by
  simp only [observeDown, Option.bind_eq_bind, Option.bind_eq_some_iff] at hs
  obtain ⟨p, hp, r, hr, hs⟩ := hs
  exact .head (.report st k w hp hr) (moves_stopMonitoring hs)

theorem moves_kill (hs : s.kill h out = some s') : Moves A F s s' := by
  simp only [kill, Option.bind_eq_bind, Option.bind_eq_some_iff] at hs
  obtain ⟨p, -, r, -, hs⟩ := hs
  split_ifs at hs
  · exact Option.some.inj hs ▸ .refl
  · exact moves_observeDown hs
  · split at hs
    · exact .head (.exit r.pid) (moves_observeDown hs)
    · obtain rfl := Option.some.inj hs
      exact .head (.signal p h (s.core.genOf h)) (.single (.confirm _ _ _ _))
    · exact Option.some.inj hs ▸ .single (.confirm _ _ _ _)
  · exact moves_observeDown hs

theorem moves_confirmDeath {k w : Bool} {sig : Option Signalled}
    (hs : s.confirmDeath h k w sig = some s') : Moves A F s s' := by
  simp only [confirmDeath, Option.bind_eq_bind, Option.bind_eq_some_iff] at hs
  obtain ⟨p, -, r, -, hs⟩ := hs
  split_ifs at hs
  · exact moves_observeDown hs
  · exact Option.some.inj hs ▸ .single (.confirm _ _ _ _)

theorem moves_giveUp (hs : s.giveUp r out = some s') : Moves A F s s' :=
  .head (.close r.fd) (moves_kill hs)

theorem owner_probeTimer {t : Timer} (ht : probeTimer p r out = some t) : t.owner = some p := by
  unfold probeTimer at ht
  split at ht
  · exact Option.some.inj ht ▸ rfl
  · obtain ⟨startTime, -, rfl⟩ := Option.map_eq_some_iff.mp ht
    rfl

theorem moves_probeProcess (hA : A p) (hF : ∀ r, s.procs p = some r → F r.fd)
    (hs : s.probeProcess p out = some s') : Moves A F s s' := by
  simp only [probeProcess, Option.bind_eq_bind, Option.bind_eq_some_iff] at hs
  obtain ⟨r, hr, hs⟩ := hs
  split_ifs at hs
  · obtain ⟨t, ht, hs⟩ := Option.bind_eq_some_iff.mp hs
    exact Option.some.inj hs ▸ .single (.probe hr hA (hF r hr) ht)
  · exact .head (.exit r.pid) (moves_giveUp hs)
  · exact moves_giveUp hs

theorem moves_startMonitoring (hA : ∀ p, s.monitored h = some p → A p)
    (hF : ∀ p r, s.monitored h = some p → s.procs p = some r → F r.fd)
    (hs : s.startMonitoring h out = some s') : Moves A F s s' := by
  simp only [startMonitoring, Option.bind_eq_bind, Option.bind_eq_some_iff] at hs
  obtain ⟨p, hp, r, hr, hs⟩ := hs
  refine .head (.activate hr (hA p hp)) (moves_probeProcess (hA p hp) (fun r' hr' => ?_) hs)
  obtain rfl := Option.some.inj (setProc_procs_self.symm.trans hr')
  exact hF p r hp hr

/-- The base class handles an event of its own. -/
theorem moves_base {c : Enforcer} {ev : Enforcer.Event} (hc : s.core.step ev = some c)
    (hup : ev.NoUpdate) (hdown : ∀ t, ev.isDown t = false) : Moves A F s { s with core := c } :=
  .single (.base hc hup hdown)

theorem moves_observeUp (h : Handle) : Moves A F s { s with core := s.core.observeUp h } :=
  moves_base (show s.core.step (.observeUp h) = some (s.core.observeUp h) from rfl) trivial
    fun _ => rfl

theorem moves_processResponse {reply : Option UInt32} (hA : A p)
    (hF : ∀ r, s.procs p = some r → F r.fd) (hs : s.processResponse p reply out = some s') :
    Moves A F s s' := by
  simp only [processResponse, Option.bind_eq_bind, Option.bind_eq_some_iff] at hs
  obtain ⟨r, hr, hs⟩ := hs
  refine .head (.answered hr hA) ?_
  have hr' : ((s.timecbRemove r.cb).setProc p { r with cb := none }).procs p =
      some { r with cb := none } := setProc_procs_self
  split at hs
  · split_ifs at hs
    · obtain rfl := Option.some.inj hs
      exact .single (.mute (r := { r with cb := none }) hr' hA (hF r hr))
    · obtain rfl := Option.some.inj hs
      exact (moves_observeUp r.handle).tail (.poll hr' hA)
    · exact .head (.mark _ hr' hA) (moves_kill hs)
  · exact moves_giveUp hs

theorem moves_timedOut {state : UInt32} (hr : s.procs p = some r) (hA : A p)
    (hs : s.timedOut p r state out = some s') : Moves A F s s' :=
  .head (.mark state hr hA) (moves_giveUp hs)

theorem moves_checkCPUTime {startTime : UInt32} (hA : A p)
    (hs : s.checkCPUTime p startTime out = some s') : Moves A F s s' := by
  simp only [checkCPUTime, Option.bind_eq_bind, Option.bind_eq_some_iff] at hs
  obtain ⟨r, hr, now, -, hs⟩ := hs
  split_ifs at hs
  · exact moves_timedOut hr hA hs
  · exact Option.some.inj hs ▸ .single (.rearm startTime hr hA)

theorem moves_expire {x : Timer} (hA : ∀ p, x.owner = some p → A p)
    (hF : ∀ p r, x = .probeProcess p → s.procs p = some r → F r.fd)
    (hs : s.expire x out = some s') : Moves A F s s' := by
  cases x with
  | probeProcess p => exact moves_probeProcess (hA p rfl) (fun r hr => hF p r rfl hr) hs
  | processTimeout p =>
    obtain ⟨r, hr, hs⟩ := Option.bind_eq_some_iff.mp hs
    exact moves_timedOut hr (hA p rfl) hs
  | checkCPUTime p startTime => exact moves_checkCPUTime (hA p rfl) hs
  | confirmDeath h k w sig => exact moves_confirmDeath hs

/-- No move installs a process. -/
theorem Move.monitored (hm : Move A F s s') : s'.monitored = s.monitored := by
  cases hm with
  | stop | answered => exact timecbRemove_monitored _
  | _ => rfl

theorem Moves.monitored (hm : Moves A F s s') : s'.monitored = s.monitored := by
  induction hm with
  | refl => rfl
  | tail _ hm ih => exact hm.monitored.trans ih

/-- A move keeps every record. -/
theorem Move.procs (hm : Move A F s s') (q : ProcRef) :
    (s'.procs q).map Process.ident = (s.procs q).map Process.ident := by
  have hset : ∀ (s₁ : ProcessEnforcer) (p : ProcRef) (r r' : Process), s₁.procs = s.procs →
      s.procs p = some r → r'.ident = r.ident →
      ((s₁.setProc p r').procs q).map Process.ident = (s.procs q).map Process.ident := by
    intro s₁ p r r' hs₁ hr hh
    rw [setProc]
    by_cases hq : q = p
    · subst hq
      simp [hr, hh]
    · simp [Function.update_of_ne hq, hs₁]
  cases hm with
  | stop hr | answered hr _ => exact hset _ _ _ _ (timecbRemove_procs _) hr rfl
  | activate hr _ | mark _ hr _ | rearm _ hr _ | probe hr _ _ => exact hset _ _ _ _ rfl hr rfl
  | _ => rfl

theorem Move.procs_of (hm : Move A F s s') (hr : s.procs p = some r) :
    ∃ r', s'.procs p = some r' ∧ r'.ident = r.ident := by
  have hmap := hm.procs p
  rw [hr] at hmap
  exact Option.map_eq_some_iff.mp hmap

theorem Move.of_procs (hm : Move A F s s') (hr : s'.procs p = some r) :
    ∃ r', s.procs p = some r' ∧ r'.ident = r.ident := by
  have hmap := hm.procs p
  rw [hr] at hmap
  exact Option.map_eq_some_iff.mp hmap.symm

theorem Moves.of_procs (hm : Moves A F s s') (hr : s'.procs p = some r) :
    ∃ r', s.procs p = some r' ∧ r'.ident = r.ident := by
  induction hm generalizing r with
  | refl => exact ⟨r, hr, rfl⟩
  | tail _ hm ih =>
    obtain ⟨r₁, hr₁, hident₁⟩ := hm.of_procs hr
    obtain ⟨r₂, hr₂, hident₂⟩ := ih hr₁
    exact ⟨r₂, hr₂, hident₂.trans hident₁⟩

/-- The virtual methods, run one after the other. -/
theorem moves_hooks {acts : List Action}
    (hA : ∀ h p, .startMonitoring h ∈ acts → s.monitored h = some p → A p)
    (hF : ∀ h p r, .startMonitoring h ∈ acts → s.monitored h = some p → s.procs p = some r → F r.fd)
    (hs : acts.foldlM (hook out) s = some s') : Moves A F s s' := by
  refine Run.keeps_of_mem (I := Moves A F s) (fun a ha s₁ s₂ hs₂ hmoves => ?_) hs .refl
  refine hmoves.trans ?_
  unfold hook at hs₂
  split at hs₂
  · refine moves_startMonitoring (fun p hp => ?_) (fun p r hp hr => ?_) hs₂
    · exact hA _ p ha (hmoves.monitored ▸ hp)
    · obtain ⟨r', hr', hident⟩ := hmoves.of_procs hr
      rw [← (Process.same_of_ident hident).2.2.2]
      exact hF _ p r' ha (hmoves.monitored ▸ hp) hr'
  · exact moves_stopMonitoring hs₂
  · exact moves_kill hs₂
  · exact Option.some.inj hs₂ ▸ .refl

/-! ## Events -/

/-- The base class's own event in an event. -/
def baseEvent (s : ProcessEnforcer) : Event → Option Enforcer.Event
  | .request req => some (.request req (s.answer req.target))
  | .fire cb status => some (.fire cb status)
  | _ => none

/-- What the base class does in an event. -/
def baseActions (s : ProcessEnforcer) (e : Event) : List Action :=
  match (s.baseEvent e).bind s.core.step with
  | some c => s.core.newer c
  | none => []

/-- The timer that expires. -/
def due (s : ProcessEnforcer) : Event → Option Timer
  | .timer t => s.timers.lookup t
  | _ => none

/-- The callback on the socket that is read. -/
def readable (s : ProcessEnforcer) : Event → Option FdCallback
  | .response fd _ => s.fdcbs fd
  | _ => none

/-- The processes whose monitoring starts. -/
def started (s : ProcessEnforcer) (e : Event) : List ProcRef :=
  ((s.baseActions e).filterMap Action.started).filterMap s.monitored

/-- The process whose poll timer expires. -/
def polled (s : ProcessEnforcer) (e : Event) : Option ProcRef :=
  match s.due e with
  | some (.probeProcess p) => some p
  | _ => none

/-- `ProbeProcess(p)` is called. -/
def Probes (s : ProcessEnforcer) (e : Event) (p : ProcRef) : Prop :=
  p ∈ s.started e ∨ s.polled e = some p

instance (s : ProcessEnforcer) (e : Event) (p : ProcRef) : Decidable (s.Probes e p) :=
  inferInstanceAs (Decidable (_ ∨ _))

/-- The event has to do with the probing of `p`: it probes `p`, is a timer of `p`, or something to
read for `p`. -/
def Concerns (s : ProcessEnforcer) (e : Event) (p : ProcRef) : Prop :=
  s.Probes e p ∨ (∃ x, s.due e = some x ∧ x.owner = some p) ∨
    s.readable e = some (.processResponse p)

theorem moves_runHooks {e : Event} {ev : Enforcer.Event} {c : Enforcer}
    (hA : ∀ p, s.Concerns e p → A p) (hF : ∀ p r, s.Probes e p → s.procs p = some r → F r.fd)
    (hev : s.baseEvent e = some ev) (hc : s.core.step ev = some c)
    (hs : s.runHooks c out = some s') : Moves A F s s' := by
  have hbase : ev.NoUpdate ∧ ∀ t, ev.isDown t = false := by
    cases e with
    | request req => exact Option.some.inj hev ▸ ⟨rfl, fun _ => rfl⟩
    | fire cb status => exact Option.some.inj hev ▸ ⟨trivial, fun _ => rfl⟩
    | _ => cases hev
  have hprobes : ∀ h p, .startMonitoring h ∈ (s.core.newer c).reverse → s.monitored h = some p →
      s.Probes e p := by
    intro h p hh hp
    have hmem : .startMonitoring h ∈ s.baseActions e := by
      simpa [baseActions, hev, hc] using hh
    exact Or.inl (List.mem_filterMap.mpr ⟨h, List.mem_filterMap.mpr ⟨_, hmem, rfl⟩, hp⟩)
  refine (moves_base hc hbase.1 hbase.2).trans (moves_hooks ?_ ?_ hs)
  · exact fun h p hh hp => hA p (Or.inl (hprobes h p hh hp))
  · exact fun h p r hh hp hr => hF p r (hprobes h p hh hp) hr

/-- **An event is a sequence of moves**, unless it is a new process, its connection or its
handshake; and it probes only what it concerns. -/
theorem moves_step {e : Event} (hA : ∀ p, s.Concerns e p → A p)
    (hF : ∀ p r, s.Probes e p ∨ s.readable e = some (.processResponse p) → s.procs p = some r →
      F r.fd)
    (hs : step s (e, out) = some s') (haccept : ∀ fd, e ≠ .accept fd)
    (hshake : ∀ fd hs, e ≠ .handshake fd hs) (hspawn : ∀ pid, e ≠ .spawn pid) : Moves A F s s' := by
  cases e with
  | request req => exact moves_runHooks hA (fun p r hp => hF p r (Or.inl hp)) rfl rfl hs
  | fire cb status =>
    obtain ⟨c, hc, hs⟩ := Option.bind_eq_some_iff.mp hs
    exact moves_runHooks hA (fun p r hp => hF p r (Or.inl hp)) rfl hc hs
  | timer t =>
    obtain ⟨x, hx, hs⟩ := Option.bind_eq_some_iff.mp hs
    have hx' : ∀ p, x.owner = some p → A p := fun p hp => hA p (Or.inr (Or.inl ⟨x, hx, hp⟩))
    refine .head (.expire hx hx') (moves_expire hx' (fun p r hxp hr => ?_) hs)
    exact hF p r (Or.inl (Or.inr (by simp [polled, due, hx, hxp]))) hr
  | accept fd => exact (haccept fd rfl).elim
  | handshake fd hs' => exact (hshake fd hs' rfl).elim
  | response fd reply =>
    simp only [step] at hs
    split at hs
    · next p hp =>
      exact moves_processResponse (hA p (Or.inr (Or.inr hp))) (fun r hr => hF p r (Or.inr hp) hr) hs
    · cases hs
  | spawn pid => exact (hspawn pid rfl).elim
  | exit pid => exact Option.some.inj hs ▸ .single (.exit pid)

/-- What a run of moves keeps, one move keeps. -/
theorem Moves.keeps {I : ProcessEnforcer → Prop} (hI : ∀ s s', Move A F s s' → I s → I s')
    (hm : Moves A F s s') (hs : I s) : I s' := by
  induction hm with
  | refl => exact hs
  | tail _ hm ih => exact hI _ _ hm ih

end ProcessEnforcer

end Falcon
