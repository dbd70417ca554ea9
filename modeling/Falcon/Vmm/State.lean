import Falcon.Enforcer.Step

/-!
# Vmm/State — the state of `class VMMEnforcer`

The enforcer of the virtual machine monitors behind one switch.  A monitor registers with
`VMM_OBS_REGISTER` and is then installed under its handle as an object of `class VMM`; while it has
clients, its traffic is watched, and it is probed when there is none.

Next to the base class the state has the objects, the map `monitored_vmms_`, and what is handed to
the event loop: timers, and the probes that are neither answered nor timed out.  A probe carries the
object it was sent to and the number of `StartMonitoring` calls made for the object until then; no
function of the enforcer reads these two.
-/

namespace Falcon

/-- A `ptr<VMM>`. -/
abbrev VmmRef := ℕ

/-- A timer, or an outstanding probe. -/
abbrev ActionRef := ℕ

/-- `kVMMRetry`. -/
def kVMMRetry : ℕ := 5

/-- `VMM_TIMEDOUT`. -/
def vmmTimedout : UInt32 := 0

/-- `VMM_CANCELED`. -/
def vmmCanceled : UInt32 := 1

/-- `class VMM`. -/
structure VMM where
  switchPort : UInt32
  monitored : Bool
  count : UInt64
  deriving DecidableEq, Repr

/-- What is handed to the event loop. -/
inductive Pending
  /-- `MonitorAction(handle, rx_bytes, msg, old_cb, RPC_SUCCESS)` on a timer. -/
  | check (h : Handle) (rxBytes : UInt64) (counter : UInt32)
  /-- `MonitorAction(handle, rx_bytes, res, cb)` on the completion of a probe; `counter` is that of
  the probe. -/
  | probe (h : Handle) (rxBytes : UInt64) (counter : UInt32) (vmm : VmmRef) (start : ℕ)
  /-- `Retry(vmm, cb, retries)` on a timer, for the probe `cb`. -/
  | retry (vmm : VmmRef) (cb : ActionRef) (retries : ℕ)
  deriving DecidableEq, Repr

/-- `class VMMEnforcer`. -/
structure VMMEnforcer where
  /-- The base class. -/
  core : Enforcer
  vmms : VmmRef → VMM
  nextVmm : VmmRef
  /-- An entry of the map can be a null pointer. -/
  monitoredVmms : Handle → Option (Option VmmRef)
  pending : Keyed ActionRef Pending
  nextAction : ActionRef
  /-- `*cb` of a probe is not null. -/
  cbs : ActionRef → Bool
  /-- The `StartMonitoring` calls made for an object. -/
  starts : VmmRef → ℕ
  /-- The ports stopped so far. -/
  stopped : List UInt32

namespace VMMEnforcer

/-- The enforcer after `Init`. -/
def init (gv : List GenNo) (gens : Handle → GenNo) : VMMEnforcer where
  core := Enforcer.init gv gens
  vmms := fun _ => ⟨0, false, 0⟩
  nextVmm := 0
  monitoredVmms := fun _ => none
  pending := ∅
  nextAction := 0
  cbs := fun _ => false
  starts := fun _ => 0
  stopped := []

/-- The object installed under `h`. -/
def installed (s : VMMEnforcer) (h : Handle) : Option VmmRef := (s.monitoredVmms h).join

end VMMEnforcer

end Falcon
