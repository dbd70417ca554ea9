import Falcon.Enforcer.Step

/-!
# Os/State — the state of `class OSEnforcer`

The enforcer of the virtual machines of one host.  A machine is watched by a worker, a process of
its own that `StartMonitoring` spawns and that writes what it finds to a pipe; the enforcer reads
the other end of the pipe.

Next to the base class the state has the domains that are active, the ends of the pipes with a
callback, and the call to the router that `Init` makes.  A pipe carries the number of
`StartMonitoring` calls made for its domain until then; no function of the enforcer reads it.
-/

namespace Falcon

/-- A descriptor `pipefds[0]`. -/
abbrev PipeFd := ℕ

/-- `enum worker_state`. -/
inductive WorkerState
  | ok | error | needsKill | killed | dead
  deriving DecidableEq, Repr

/-- The value of the enumerator, as `ObserveDown` gets it. -/
def WorkerState.toUInt32 : WorkerState → UInt32
  | .ok => 0
  | .error => 1
  | .needsKill => 2
  | .killed => 3
  | .dead => 4

/-- `HandleWorker(handle, fd)` on a pipe. -/
structure Worker where
  handle : Handle
  start : ℕ
  deriving DecidableEq, Repr

/-- `class OSEnforcer`. -/
structure OSEnforcer where
  /-- The base class. -/
  core : Enforcer
  /-- `active_domains_[handle]` is not null. -/
  activeDomains : Handle → Bool
  pipes : Keyed PipeFd Worker
  nextPipe : PipeFd
  /-- The `SPY_GET_GEN` sent to the router is not answered. -/
  asking : Bool
  /-- The `StartMonitoring` calls made for a domain. -/
  starts : Handle → ℕ

namespace OSEnforcer

/-- The enforcer after `Init`. -/
def init (gens : Handle → GenNo) : OSEnforcer where
  core := Enforcer.init [] gens
  activeDomains := fun _ => false
  pipes := ∅
  nextPipe := 0
  asking := true
  starts := fun _ => 0

end OSEnforcer

end Falcon
