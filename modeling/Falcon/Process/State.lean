import Falcon.Enforcer.Step

/-!
# Process/State — the state of `class ProcessEnforcer`

The enforcer of the processes of one virtual machine.  A process connects to a UNIX socket and names
itself in a handshake; it is then installed under its handle, and while it has clients it is probed
over its socket.

Next to the base class the state has the `Process` records behind the pointers (a `delete`d record
is absent), the map `monitored_`, the timers and socket callbacks handed to the event loop, the open
descriptors, and the process table.  `history` records the signals sent and the reports made, newest
first; no function of the enforcer reads it.
-/

namespace Falcon

/-- A `Process*`. -/
abbrev ProcRef := ℕ

/-- A `timecb_t*`. -/
abbrev TimerRef := ℕ

abbrev Fd := ℕ

/-- `pid_t`. -/
abbrev Pid := UInt32

/-- `DELAY_REALTIME`; any other delay type is a delay of CPU time. -/
def delayRealtime : UInt8 := 0

/-- `PROC_OBS_ALIVE`. -/
def procObsAlive : UInt32 := 0

/-- `ENF_TIMEDOUT`. -/
def enfTimedout : UInt32 := 1

/-- `ENF_CPU_TIMEOUT`. -/
def enfCpuTimeout : UInt32 := 2

/-- `struct process_observer_handshake`; the handle is the text up to the first zero byte. -/
structure Handshake where
  handle : Handle
  pid : Pid
  delayMs : UInt32
  delay : UInt8
  deriving DecidableEq, Repr

/-- `struct Process`. -/
structure Process where
  handle : Handle
  pid : Pid
  delay : UInt8
  delayMs : UInt32
  fd : Fd
  cb : Option TimerRef
  state : UInt32
  active : Bool
  deriving DecidableEq, Repr

/-- `Process(h, cfd)`. -/
def Handshake.process (h : Handshake) (cfd : Fd) : Process where
  handle := h.handle
  pid := h.pid
  delay := h.delay
  delayMs := h.delayMs
  fd := cfd
  cb := none
  state := 0
  active := false

/-- The generation vector of a target at which a process was sent `SIGKILL`. -/
abbrev Signalled := ProcRef × List GenNo

/-- A timer of the layer. -/
inductive Timer
  /-- `ProbeProcess(p)`, a poll period after an answer. -/
  | probeProcess (p : ProcRef)
  | processTimeout (p : ProcRef)
  | checkCPUTime (p : ProcRef) (startTime : UInt32)
  /-- `ConfirmDeath(handle, killed, would_kill)`, with the process and the generation the signal
  that armed it went to; no function reads these two. -/
  | confirmDeath (h : Handle) (killed wouldKill : Bool) (signalled : Option Signalled)
  deriving DecidableEq, Repr

/-- A callback on a readable socket. -/
inductive FdCallback
  | clientAcceptor
  | processResponse (p : ProcRef)
  deriving DecidableEq, Repr

/-- What the layer does that concerns the death of processes. -/
inductive Deed
  /-- `kill(pid, SIGKILL)` succeeded for `p`, installed under `h` with the vector `g` current. -/
  | signalled (p : ProcRef) (h : Handle) (g : List GenNo)
  /-- `ObserveDown(h, .., killed, ..)` with `p` installed under `h` and the vector `g` current; then
  whether `p` is in the process table, and who is told. -/
  | reported (p : ProcRef) (h : Handle) (g : List GenNo) (killed inTable : Bool)
      (told : List ClientId)
  deriving DecidableEq, Repr

/-- `class ProcessEnforcer`. -/
structure ProcessEnforcer where
  /-- The base class. -/
  core : Enforcer
  procs : ProcRef → Option Process
  nextProc : ProcRef
  monitored : Handle → Option ProcRef
  timers : Keyed TimerRef Timer
  nextTimer : TimerRef
  fdcbs : Fd → Option FdCallback
  opened : Fd → Bool
  /-- `check_process_table(pid)`: what `kill(pid, 0)` answers. -/
  table : Pid → Bool
  history : List Deed

/-- The enforcer after `Init`, with the two generations of the layers below. -/
def ProcessEnforcer.init (gv : List GenNo) (gens : Handle → GenNo) : ProcessEnforcer where
  core := Enforcer.init gv gens
  procs := fun _ => none
  nextProc := 0
  monitored := fun _ => none
  timers := ∅
  nextTimer := 0
  fdcbs := fun _ => none
  opened := fun _ => false
  table := fun _ => false
  history := []

end Falcon
