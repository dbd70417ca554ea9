import Falcon.Vmm.State

/-!
# Vmm/Step — the methods of `class VMMEnforcer`, and the events that run them

The methods of `vmm_enforcer.cc` as functions on the state, in the order of the file.  A result
`none` is the end of the program: a failed `CHECK`, or a call that is used after it is gone.

What the network interface and the clock say during an event comes with the event (`Outside`).  A
reply to a probe carries the counter of the probe and one more, as `vmm_observer.cc` sends it.
-/

namespace Falcon

namespace VMMEnforcer

/-- What `/proc/net/dev` and the clock say during an event. -/
structure Outside where
  /-- `GetRXBytes` in `StartMonitoring`, if it finds the interface. -/
  rxBytes : Option UInt64
  /-- `GetRXBytes` in `MonitorAction`. -/
  newRxBytes : Option UInt64
  /-- The last probe is longer ago than `max_poll_period_`. -/
  overdue : Bool
  deriving DecidableEq, Repr

/-- The interface is silent. -/
def silent : Outside := ⟨some 0, some 0, false⟩

/-! ## Objects, timers and probes -/

/-- Change the object `v`. -/
def setVmm (v : VmmRef) (o : VMM) (s : VMMEnforcer) : VMMEnforcer :=
  { s with vmms := Function.update s.vmms v o }

/-- `delaycb(.., x)`. -/
def delaycb (x : Pending) (s : VMMEnforcer) : VMMEnforcer :=
  { s with pending := s.pending.insert s.nextAction x, nextAction := s.nextAction + 1 }

/-- Take something out of the event loop. -/
def take (t : ActionRef) (s : VMMEnforcer) : VMMEnforcer := { s with pending := s.pending.erase t }

/-- `*cb = NULL`; the cell of a timer's `cb` is null already. -/
def clear (cb : Option ActionRef) (s : VMMEnforcer) : VMMEnforcer :=
  match cb with
  | none => s
  | some t => { s with cbs := Function.update s.cbs t false }

/-- `stop_port(port)`. -/
def stopPort (port : UInt32) (s : VMMEnforcer) : VMMEnforcer :=
  { s with stopped := port :: s.stopped }

/-! ## Monitoring and killing -/

/-- `VMM_OBS_PROBE` to the object `v`, and the timer of its first retransmission. -/
def sendProbe (h : Handle) (v : VmmRef) (rxBytes : UInt64) (s : VMMEnforcer) : VMMEnforcer :=
  let o := s.vmms v
  let cb := s.nextAction
  let s := s.delaycb (.probe h rxBytes o.count.toUInt32 v (s.starts v))
  let s := { s with cbs := Function.update s.cbs cb true }
  (s.setVmm v { o with count := o.count + 1 }).delaycb (.retry v cb 0)

/-- `MonitorAction` on a sign of life; `counter` is that of `msg`, and `oldCb` the probe the sign
answers, if it is one. -/
def monitorAction (h : Handle) (rxBytes : UInt64) (counter : UInt32) (oldCb : Option ActionRef)
    (out : Outside) (s : VMMEnforcer) : Option VMMEnforcer := do
  let v ← s.installed h
  if (s.vmms v).monitored = false then some s
  else if counter.toUInt64 < (s.vmms v).count then some s
  else
    let s := { s with core := s.core.observeUp h }.clear oldCb
    let newRxBytes ← out.newRxBytes
    if out.overdue ∨ newRxBytes = rxBytes then some (s.sendProbe h v newRxBytes)
    else some (s.delaycb (.check h newRxBytes counter))

def startMonitoring (h : Handle) (out : Outside) (s : VMMEnforcer) : Option VMMEnforcer := do
  let v ← s.installed h
  let o := s.vmms v
  let s := { s.setVmm v { o with monitored := true } with
    starts := Function.update s.starts v (s.starts v + 1) }
  let rxBytes ← out.rxBytes
  s.monitorAction h rxBytes o.count.toUInt32 none out

def stopMonitoring (h : Handle) (s : VMMEnforcer) : Option VMMEnforcer := do
  let v ← s.installed h
  some (s.setVmm v { s.vmms v with monitored := false })

def kill (h : Handle) (s : VMMEnforcer) : Option VMMEnforcer := do
  let v ← s.installed h
  some (s.stopPort (s.vmms v).switchPort)

/-- `Enforcer::ObserveDown`, which ends in `StopMonitoring`. -/
def observeDown (h : Handle) (status : UInt32) (killed wouldKill : Bool) (s : VMMEnforcer) :
    Option VMMEnforcer :=
  { s with core := s.core.observeDown h status killed wouldKill }.stopMonitoring h

theorem core_of_stopMonitoring {s s' : VMMEnforcer} {h : Handle}
    (h₁ : s.stopMonitoring h = some s') : s'.core = s.core := by
  simp only [stopMonitoring, Option.bind_eq_bind, Option.bind_eq_some_iff, Option.some.injEq] at h₁
  obtain ⟨v, -, rfl⟩ := h₁
  rfl

theorem core_of_observeDown {s s' : VMMEnforcer} {h : Handle} {status : UInt32}
    {killed wouldKill : Bool} (h₁ : s.observeDown h status killed wouldKill = some s') :
    s'.core = s.core.observeDown h status killed wouldKill :=
  core_of_stopMonitoring h₁

/-- `MonitorAction` on `RPC_TIMEDOUT` of the probe `cb`. -/
def probeTimedOut (h : Handle) (cb : ActionRef) (s : VMMEnforcer) : Option VMMEnforcer := do
  let v ← s.installed h
  if (s.vmms v).monitored = false then some s
  else
    let killable := s.core.killable h
    let s ← if killable then s.kill h else some s
    (s.clear (some cb)).observeDown h vmmTimedout killable true

/-- `MonitorAction` on any other error of a probe; `counter` is what the result has. -/
def probeFailed (h : Handle) (counter : UInt32) (s : VMMEnforcer) : Option VMMEnforcer := do
  let v ← s.installed h
  if (s.vmms v).monitored = false then some s
  else if counter.toUInt64 < (s.vmms v).count then some s
  else none

/-- `Retry`; a retransmission of a call that is over ends the program. -/
def retry (v : VmmRef) (cb : ActionRef) (retries : ℕ) (s : VMMEnforcer) : Option VMMEnforcer :=
  if (s.vmms v).monitored ∧ s.cbs cb ∧ retries < kVMMRetry then
    if cb ∈ s.pending then some (s.delaycb (.retry v cb (retries + 1))) else none
  else some s

/-! ## The observers -/

/-- `if (old_vmm) old_vmm->monitored = false`. -/
def retire (old : Option VmmRef) (s : VMMEnforcer) : VMMEnforcer :=
  match old with
  | none => s
  | some v => s.setVmm v { s.vmms v with monitored := false }

/-- `monitored_vmms_[handle] = new_vmm` for a new object. -/
def install (h : Handle) (port : UInt32) (s : VMMEnforcer) : VMMEnforcer :=
  { s with
    vmms := Function.update s.vmms s.nextVmm ⟨port, false, 0⟩
    nextVmm := s.nextVmm + 1
    monitoredVmms := Function.update s.monitoredVmms h (some (some s.nextVmm)) }

/-- `VMM_OBS_REGISTER`; `port` is the port of the switch the sender is behind. -/
def observerRegister (h : Handle) (port : UInt32) (s : VMMEnforcer) : VMMEnforcer :=
  (s.retire (s.installed h)).install h port

/-- `VMM_OBS_CANCEL`; `operator[]` enters an unknown handle with a null pointer. -/
def observerCancel (h : Handle) (s : VMMEnforcer) : Option VMMEnforcer :=
  match s.installed h with
  | some _ => do
    let s ← s.stopMonitoring h
    s.observeDown h vmmCanceled false false
  | none => some { s with monitoredVmms := Function.update s.monitoredVmms h (some none) }

/-! ## The base class -/

/-- `UpdateGenerations`, which does nothing, and `InvalidTarget`. -/
def answer (s : VMMEnforcer) (h : Handle) : Enforcer.LayerAnswer :=
  ⟨none, (s.monitoredVmms h).isNone⟩

/-- The virtual methods. -/
def hook (out : Outside) (s : VMMEnforcer) : Action → Option VMMEnforcer
  | .startMonitoring h => s.startMonitoring h out
  | .stopMonitoring h => s.stopMonitoring h
  | .kill h => s.kill h
  | _ => some s

/-- The base class has gone to `c'`: its calls of virtual methods are run, oldest first. -/
def runHooks (c' : Enforcer) (out : Outside) (s : VMMEnforcer) : Option VMMEnforcer :=
  (s.core.newer c').reverse.foldlM (hook out) { s with core := c' }

/-! ## The event loop -/

inductive Event
  | request (req : Request)
  /-- A callback of the base class runs. -/
  | fire (cb : Callback) (status : ClntStat)
  | observerRegister (h : Handle) (port : UInt32)
  | observerCancel (h : Handle)
  /-- A timer of the layer expires. -/
  | timer (t : ActionRef)
  /-- The observer answers a probe. -/
  | reply (t : ActionRef)
  | timeout (t : ActionRef)
  | failed (t : ActionRef) (counter : UInt32)
  deriving DecidableEq, Repr

/-- One turn of the event loop. -/
def step (s : VMMEnforcer) : Event × Outside → Option VMMEnforcer
  | (.request req, out) => s.runHooks (s.core.dispatch req (s.answer req.target)) out
  | (.fire cb status, out) => do
    let c ← s.core.step (.fire cb status)
    s.runHooks c out
  | (.observerRegister h port, _) => some (s.observerRegister h port)
  | (.observerCancel h, _) => s.observerCancel h
  | (.timer t, out) =>
    match s.pending.lookup t with
    | some (.check h rxBytes counter) => (s.take t).monitorAction h rxBytes counter none out
    | some (.retry v cb retries) => (s.take t).retry v cb retries
    | _ => none
  | (.reply t, out) =>
    match s.pending.lookup t with
    | some (.probe h rxBytes counter _ _) =>
      (s.take t).monitorAction h rxBytes (counter + 1) (some t) out
    | _ => none
  | (.timeout t, _) =>
    match s.pending.lookup t with
    | some (.probe h _ _ _ _) => (s.take t).probeTimedOut h t
    | _ => none
  | (.failed t counter, _) =>
    match s.pending.lookup t with
    | some (.probe h _ _ _ _) => (s.take t).probeFailed h counter
    | _ => none

end VMMEnforcer

end Falcon
