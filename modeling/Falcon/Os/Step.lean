import Falcon.Os.State

/-!
# Os/Step — the methods of `class OSEnforcer`, and the events that run them

The methods of `os_enforcer.cc` as functions on the state, in the order of the file.  A result
`none` is the end of the program: a failed `CHECK`.

What `libvirt` says of the domain an event is about comes with the event (`Outside`); the domain is
looked up anew by each method that needs it.
-/

namespace Falcon

namespace OSEnforcer

/-- What `libvirt` says during an event. -/
structure Outside where
  /-- `StartMonitoring` finds the domain. -/
  found : Bool
  /-- `InvalidTarget` finds it. -/
  known : Bool
  /-- `virDomainGetNtfaGeneration`, if `UpdateGenerations` finds it. -/
  generation : Option GenNo
  /-- `Kill` finds it inactive, or destroys it. -/
  destroyed : Bool
  deriving DecidableEq, Repr

/-- `libvirt` has a running domain of generation `g`. -/
def running (g : GenNo) : Outside := ⟨true, true, some g, true⟩

/-- `SetGeneration(res)`. -/
def setGeneration (res : SpyRes) (status : ClntStat) (s : OSEnforcer) : Option OSEnforcer :=
  if status = .success then
    some { s with core := { s.core with genVec := res.target.generation }, asking := false }
  else none

/-! ## Monitoring and killing -/

/-- `fdcb(fd, selread, ..)` on a new pipe. -/
def fdcb (w : Worker) (s : OSEnforcer) : OSEnforcer :=
  { s with pipes := s.pipes.insert s.nextPipe w, nextPipe := s.nextPipe + 1 }

/-- `close(fd)` and `fdcb(fd, selread, 0)`. -/
def close (fd : PipeFd) (s : OSEnforcer) : OSEnforcer := { s with pipes := s.pipes.erase fd }

/-- `active_domains_[handle] = ..`. -/
def setActive (h : Handle) (b : Bool) (s : OSEnforcer) : OSEnforcer :=
  { s with activeDomains := Function.update s.activeDomains h b }

def startMonitoring (h : Handle) (out : Outside) (s : OSEnforcer) : Option OSEnforcer :=
  if out.found then
    let n := s.starts h + 1
    some (({ s with starts := Function.update s.starts h n }.fdcb ⟨h, n⟩).setActive h true)
  else none

def stopMonitoring (h : Handle) (s : OSEnforcer) : OSEnforcer := s.setActive h false

/-- `Enforcer::ObserveDown`, which ends in `StopMonitoring`. -/
def observeDown (h : Handle) (status : UInt32) (killed wouldKill : Bool) (s : OSEnforcer) :
    OSEnforcer :=
  { s with core := s.core.observeDown h status killed wouldKill }.stopMonitoring h

def kill (h : Handle) (out : Outside) (s : OSEnforcer) : Option OSEnforcer :=
  if s.activeDomains h ∧ out.destroyed then some (s.observeDown h 0 true true) else none

/-- The verdict of a worker other than `VM_OK`. -/
def verdict (h : Handle) (state : WorkerState) (out : Outside) (s : OSEnforcer) :
    Option OSEnforcer :=
  match state with
  | .ok => some s
  | .error | .needsKill =>
    if s.core.killable h then s.kill h out
    else some (s.observeDown h state.toUInt32 false true)
  | .killed => some (s.observeDown h state.toUInt32 false true)
  | .dead => some (s.observeDown h state.toUInt32 false false)

/-- `HandleWorker(handle, fd)`; `state` is what a whole `read` fills in. -/
def handleWorker (h : Handle) (fd : PipeFd) (state : Option WorkerState) (out : Outside)
    (s : OSEnforcer) : Option OSEnforcer :=
  if s.activeDomains h = false then some (s.close fd)
  else do
    let state ← state
    if state = .ok then some { s with core := s.core.observeUp h }
    else
      let s ← s.verdict h state out
      some ((s.close fd).setActive h false)

/-! ## The base class -/

/-- `UpdateGenerations` and `InvalidTarget`, which look up a domain that is not active. -/
def answer (s : OSEnforcer) (h : Handle) (out : Outside) : Enforcer.LayerAnswer :=
  if s.activeDomains h then ⟨none, false⟩ else ⟨out.generation, !out.known⟩

/-- The virtual methods. -/
def hook (out : Outside) (s : OSEnforcer) : Action → Option OSEnforcer
  | .startMonitoring h => s.startMonitoring h out
  | .stopMonitoring h => some (s.stopMonitoring h)
  | .kill h => s.kill h out
  | _ => some s

/-- The base class has gone to `c'`: its calls of virtual methods are run, oldest first. -/
def runHooks (c' : Enforcer) (out : Outside) (s : OSEnforcer) : Option OSEnforcer :=
  (s.core.newer c').reverse.foldlM (hook out) { s with core := c' }

/-! ## The event loop -/

inductive Event
  | request (req : Request)
  /-- A callback of the base class runs. -/
  | fire (cb : Callback) (status : ClntStat)
  /-- The call to the router completes. -/
  | router (res : SpyRes) (status : ClntStat)
  /-- A pipe is readable. -/
  | worker (fd : PipeFd) (state : Option WorkerState)
  deriving DecidableEq, Repr

/-- The event of the base class an event is, if it is one. -/
def baseEvent (s : OSEnforcer) : Event × Outside → Option Enforcer.Event
  | (.request req, out) => some (.request req (s.answer req.target out))
  | (.fire cb status, _) => some (.fire cb status)
  | _ => none

/-- One turn of the event loop. -/
def step (s : OSEnforcer) (e : Event × Outside) : Option OSEnforcer :=
  match s.baseEvent e with
  | some ev => do
    let c ← s.core.step ev
    s.runHooks c e.2
  | none =>
    match e.1 with
    | .router res status => if s.asking then s.setGeneration res status else none
    | .worker fd state => do
      let w ← s.pipes.lookup fd
      s.handleWorker w.handle fd state e.2
    | _ => none

end OSEnforcer

end Falcon
