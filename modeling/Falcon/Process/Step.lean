import Falcon.Process.State

/-!
# Process/Step — the methods of `class ProcessEnforcer`, and the events that run them

The methods of `process_enforcer.cc` as functions on the state, in the order of the file.  A result
`none` is the end of the program: a failed `CHECK`, or a record that is used after it is gone.

What the operating system answers during an event comes with the event (`Outside`).  The virtual
methods of the base class are run after the base class's part of the event, in the order of its
calls (`hook`); the base class does nothing to its tables after such a call that the layer could
tell.
-/

namespace Falcon

namespace ProcessEnforcer

/-- The outcome of `kill(pid, SIGKILL)`: success, `ESRCH`, or any other error. -/
inductive Signal
  | delivered | noSuchProcess | refused
  deriving DecidableEq, Repr

/-- What the operating system answers during an event. -/
structure Outside where
  /-- `send` wrote the whole probe. -/
  sent : Bool
  /-- The process leaves the process table after `ProbeProcess` has looked. -/
  exits : Bool
  signal : Signal
  /-- `GetCPUTime`, if `/proc` still has the process. -/
  cpuTime : Option UInt32
  deriving DecidableEq, Repr

/-- The operating system does what it is asked to. -/
def obliging : Outside := ⟨true, false, .delivered, none⟩

/-! ## Records, timers and sockets -/

/-- Change the record `p`. -/
def setProc (p : ProcRef) (r : Process) (s : ProcessEnforcer) : ProcessEnforcer :=
  { s with procs := Function.update s.procs p (some r) }

/-- `delaycb(.., t)`. -/
def delaycb (t : Timer) (s : ProcessEnforcer) : ProcessEnforcer :=
  { s with timers := s.timers.insert s.nextTimer t, nextTimer := s.nextTimer + 1 }

/-- `if (cb) timecb_remove(cb)`. -/
def timecbRemove (cb : Option TimerRef) (s : ProcessEnforcer) : ProcessEnforcer :=
  match cb with
  | none => s
  | some t => { s with timers := s.timers.erase t }

/-- `fdcb(fd, selread, cb)`. -/
def fdcb (fd : Fd) (cb : Option FdCallback) (s : ProcessEnforcer) : ProcessEnforcer :=
  { s with fdcbs := Function.update s.fdcbs fd cb }

/-- `close(fd)` and `fdcb(fd, selread, 0)`. -/
def close (fd : Fd) (s : ProcessEnforcer) : ProcessEnforcer :=
  { s with
    opened := Function.update s.opened fd false
    fdcbs := Function.update s.fdcbs fd none }

/-- The process table gains or loses a process. -/
def setTable (pid : Pid) (b : Bool) (s : ProcessEnforcer) : ProcessEnforcer :=
  { s with table := Function.update s.table pid b }

/-! ## Monitoring and killing -/

def stopMonitoring (h : Handle) (s : ProcessEnforcer) : Option ProcessEnforcer := do
  let p ← s.monitored h
  let r ← s.procs p
  some ((s.timecbRemove r.cb).setProc p { r with cb := none, active := false })

/-- `Enforcer::ObserveDown`, which ends in `StopMonitoring`. -/
def observeDown (h : Handle) (status : UInt32) (killed wouldKill : Bool) (s : ProcessEnforcer) :
    Option ProcessEnforcer := do
  let p ← s.monitored h
  let r ← s.procs p
  let deed := Deed.reported p h (s.core.genOf h) killed (s.table r.pid)
    (s.core.targetClients h).keys
  stopMonitoring h { s with
    core := s.core.observeDown h status killed wouldKill
    history := deed :: s.history }

/-- `kill(p->pid, SIGKILL)` with an answer other than `ESRCH`, and the timer that follows. -/
def sendKill (h : Handle) (p : ProcRef) (delivered : Bool) (s : ProcessEnforcer) :
    ProcessEnforcer :=
  if delivered then
    { s with history := .signalled p h (s.core.genOf h) :: s.history }.delaycb
      (.confirmDeath h true true (some (p, s.core.genOf h)))
  else s.delaycb (.confirmDeath h true true none)

def kill (h : Handle) (out : Outside) (s : ProcessEnforcer) : Option ProcessEnforcer := do
  let p ← s.monitored h
  let r ← s.procs p
  if r.active = false then some s
  else if s.table r.pid = false then s.observeDown h r.state false false
  else if s.core.killable h then
    match out.signal with
    | .noSuchProcess => (s.setTable r.pid false).observeDown h r.state false false
    | .delivered => some (s.sendKill h p true)
    | .refused => some (s.sendKill h p false)
  else s.observeDown h r.state false true

def confirmDeath (h : Handle) (killed wouldKill : Bool) (signalled : Option Signalled)
    (s : ProcessEnforcer) : Option ProcessEnforcer := do
  let p ← s.monitored h
  let r ← s.procs p
  if s.table r.pid = false ∨ s.core.killable h = false then
    s.observeDown h r.state killed wouldKill
  else some (s.delaycb (.confirmDeath h killed wouldKill signalled))

/-! ## Probing -/

/-- `p->cb = delaycb(.., t)`. -/
def setTimer (p : ProcRef) (r : Process) (t : Timer) (s : ProcessEnforcer) : ProcessEnforcer :=
  (s.delaycb t).setProc p { r with cb := some s.nextTimer }

/-- A probe or its answer has failed: `close(p->fd)`, and `Kill`. -/
def giveUp (r : Process) (out : Outside) (s : ProcessEnforcer) : Option ProcessEnforcer :=
  (s.close r.fd).kill r.handle out

/-- The timer a probe of `p` is given; for a delay of CPU time it starts at `GetCPUTime(p)`. -/
def probeTimer (p : ProcRef) (r : Process) (out : Outside) : Option Timer :=
  if r.delay = delayRealtime then some (.processTimeout p)
  else out.cpuTime.map (.checkCPUTime p)

def probeProcess (p : ProcRef) (out : Outside) (s : ProcessEnforcer) : Option ProcessEnforcer := do
  let r ← s.procs p
  if s.table r.pid = true ∧ out.sent then
    let t ← probeTimer p r out
    some ((s.setTimer p r t).fdcb r.fd (some (.processResponse p)))
  else if out.exits then (s.setTable r.pid false).giveUp r out
  else s.giveUp r out

def startMonitoring (h : Handle) (out : Outside) (s : ProcessEnforcer) :
    Option ProcessEnforcer := do
  let p ← s.monitored h
  let r ← s.procs p
  (s.setProc p { r with active := true }).probeProcess p out

/-- `ProcessResponse(p)`; `reply` is the state of a whole `process_observer_reply`. -/
def processResponse (p : ProcRef) (reply : Option UInt32) (out : Outside) (s : ProcessEnforcer) :
    Option ProcessEnforcer := do
  let r ← s.procs p
  let r' := { r with cb := none }
  let s := (s.timecbRemove r.cb).setProc p r'
  match reply with
  | some state =>
    if r.active = false then some (s.fdcb r.fd none)
    else if state = procObsAlive then
      some ({ s with core := s.core.observeUp r.handle }.delaycb (.probeProcess p))
    else (s.setProc p { r' with state := state }).kill r.handle out
  | none => s.giveUp r out

/-- `p->state = state`, `p->cb = NULL`, and giving up on `p`. -/
def timedOut (p : ProcRef) (r : Process) (state : UInt32) (out : Outside) (s : ProcessEnforcer) :
    Option ProcessEnforcer :=
  (s.setProc p { r with state := state, cb := none }).giveUp r out

def processTimeout (p : ProcRef) (out : Outside) (s : ProcessEnforcer) :
    Option ProcessEnforcer := do
  let r ← s.procs p
  s.timedOut p r enfTimedout out

/-- `_SC_CLK_TCK`. -/
def clckTick : ℕ := 100

/-- The comparison of `CheckCPUTime`: the ticks used, as a duration, against `delay_ms`. -/
def cpuExceeded (used delayMs : UInt32) : Bool := delayMs.toNat * clckTick < used.toNat * 1000

def checkCPUTime (p : ProcRef) (startTime : UInt32) (out : Outside) (s : ProcessEnforcer) :
    Option ProcessEnforcer := do
  let r ← s.procs p
  let now ← out.cpuTime
  if cpuExceeded (now - startTime) r.delayMs then s.timedOut p r enfCpuTimeout out
  else some (s.setTimer p r (.checkCPUTime p startTime))

/-! ## New processes -/

/-- `monitored_[*(p->handle)] = p` for a new record `p`. -/
def install (hs : Handshake) (fd : Fd) (s : ProcessEnforcer) : ProcessEnforcer :=
  { s.setProc s.nextProc (hs.process fd) with
    nextProc := s.nextProc + 1
    monitored := Function.update s.monitored hs.handle (some s.nextProc) }

/-- `ClientAcceptor(fd)`; `handshake` is what a whole `recv` fills in. -/
def clientAcceptor (fd : Fd) (handshake : Option Handshake) (s : ProcessEnforcer) :
    Option ProcessEnforcer :=
  match handshake with
  | none => some (s.close fd)
  | some hs =>
    match s.monitored hs.handle with
    | none => some (s.install hs fd)
    | some p => do
      let current ← s.procs p
      if current.active = false ∧ s.table current.pid = false then
        some ({ s with procs := Function.update s.procs p none }.install hs fd)
      else some (s.close fd)

def acceptProcess (newfd : Fd) (s : ProcessEnforcer) : ProcessEnforcer :=
  { s with opened := Function.update s.opened newfd true }.fdcb newfd (some .clientAcceptor)

/-! ## The base class -/

/-- `UpdateGenerations`, which does nothing, and `InvalidTarget`. -/
def answer (s : ProcessEnforcer) (h : Handle) : Enforcer.LayerAnswer :=
  ⟨none, (s.monitored h).isNone⟩

/-- The virtual methods. -/
def hook (out : Outside) (s : ProcessEnforcer) : Action → Option ProcessEnforcer
  | .startMonitoring h => s.startMonitoring h out
  | .stopMonitoring h => s.stopMonitoring h
  | .kill h => s.kill h out
  | _ => some s

/-- The base class has gone to `c'`: its calls of virtual methods are run, oldest first. -/
def runHooks (c' : Enforcer) (out : Outside) (s : ProcessEnforcer) : Option ProcessEnforcer :=
  (s.core.newer c').reverse.foldlM (hook out) { s with core := c' }

/-! ## The event loop -/

inductive Event
  | request (req : Request)
  /-- A callback of the base class runs. -/
  | fire (cb : Callback) (status : ClntStat)
  /-- A timer of the layer expires. -/
  | timer (t : TimerRef)
  /-- A process connects, and gets the descriptor `fd`. -/
  | accept (fd : Fd)
  /-- A socket with a `ClientAcceptor` is readable. -/
  | handshake (fd : Fd) (hs : Option Handshake)
  /-- A socket with a `ProcessResponse` is readable. -/
  | response (fd : Fd) (reply : Option UInt32)
  /-- A process enters or leaves the process table. -/
  | spawn (pid : Pid)
  | exit (pid : Pid)
  deriving DecidableEq, Repr

/-- Run a timer. -/
def expire (t : Timer) (out : Outside) (s : ProcessEnforcer) : Option ProcessEnforcer :=
  match t with
  | .probeProcess p => s.probeProcess p out
  | .processTimeout p => s.processTimeout p out
  | .checkCPUTime p startTime => s.checkCPUTime p startTime out
  | .confirmDeath h killed wouldKill signalled => s.confirmDeath h killed wouldKill signalled

/-- One turn of the event loop. -/
def step (s : ProcessEnforcer) : Event × Outside → Option ProcessEnforcer
  | (.request req, out) => s.runHooks (s.core.dispatch req (s.answer req.target)) out
  | (.fire cb status, out) => do
    let c ← s.core.step (.fire cb status)
    s.runHooks c out
  | (.timer t, out) => do
    let timer ← s.timers.lookup t
    { s with timers := s.timers.erase t }.expire timer out
  | (.accept fd, _) => if s.opened fd then none else some (s.acceptProcess fd)
  | (.handshake fd hs, _) =>
    if s.fdcbs fd = some .clientAcceptor then s.clientAcceptor fd hs else none
  | (.response fd reply, out) =>
    match s.fdcbs fd with
    | some (.processResponse p) => s.processResponse p reply out
    | _ => none
  | (.spawn pid, _) => some (s.setTable pid true)
  | (.exit pid, _) => some (s.setTable pid false)

end ProcessEnforcer

end Falcon
