import Falcon.Spy.Protocol

/-!
# Enforcer/State — the state of `class Enforcer`

The members of `enforcer.h`, with what surrounds them at run time: the `FalconClient` objects behind
the `ref`s, and the callbacks handed to the event loop and not yet run.  The sets of clients compare
by `id` (`FalconClient::operator<`) but hold *objects*: an object that has left `all_clients_` lives
on as long as a callback carries it, next to a newer object of the same name.

`log` records what the enforcer has done, newest first; no function of the enforcer reads it.
-/

namespace Falcon

/-- A `ref<FalconClient>`. -/
abbrev ClientRef := ℕ

/-- `std::set<ref<FalconClient> >`. -/
abbrev ClientSet := Keyed ClientId ClientRef

/-- `struct FalconClient`; the RPC client `clnt_` is bound to the address `id` prints. -/
structure FalconClient where
  id : ClientId
  clientTag : UInt32
  upIntervals : Keyed Handle ℤ

/-- A callback given to the event loop: the completion of an RPC, or a timer. -/
inductive Callback
  /-- `HandleClientHeartbeat(cl, retry_count)` on completion of `CLIENT_NULL`. -/
  | heartbeatCall (cl : ClientRef) (retryCount : ℕ)
  /-- `DoHeartbeat(cl, retry_count)` on a timer. -/
  | heartbeatTimer (cl : ClientRef) (retryCount : ℕ)
  /-- `ReportDown(cl, arg, retries)` on completion of `CLIENT_DOWN`. -/
  | downCall (cl : ClientRef) (arg : ClientDownArg) (retries : ℕ)
  /-- `AddToWaiting(target, cl)` on a timer. -/
  | waitingTimer (target : Handle) (cl : ClientRef)
  deriving DecidableEq, Repr

/-- What an enforcer does that can be seen from outside its tables. -/
inductive Action
  /-- `sbp->reply(&res)`. -/
  | reply (req : Request) (res : SpyRes)
  | startMonitoring (target : Handle)
  | stopMonitoring (target : Handle)
  | kill (target : Handle)
  /-- An RPC to the client `c`. -/
  | clientUp (c : ClientId) (arg : ClientUpArg)
  | clientDown (c : ClientId) (arg : ClientDownArg)
  /-- The layer-specific code reported the target down. -/
  | observeDown (target : Handle)
  /-- `RemoveClient` because heartbeats, or the attempts at a down report, are exhausted. -/
  | gaveUp (c : ClientId)
  deriving DecidableEq, Repr

/-- The target of a `StartMonitoring`. -/
def Action.started : Action → Option Handle
  | .startMonitoring h => some h
  | _ => none

/-- `class Enforcer`. -/
structure Enforcer where
  genVec : List GenNo
  generations : Handle → GenNo
  /-- The lines of `generation_log_`, oldest first. -/
  generationLog : List Handle
  clients : ClientRef → FalconClient
  nextRef : ClientRef
  allClients : ClientSet
  waitingForUp : Handle → ClientSet
  targetClients : Handle → ClientSet
  deadly : Handle → ClientSet
  pending : List Callback
  log : List Action

namespace Enforcer

/-- A constructed enforcer with base vector `gv`, after `InitGenerations` found `gens`. -/
def init (gv : List GenNo) (gens : Handle → GenNo) : Enforcer where
  genVec := gv
  generations := gens
  generationLog := []
  clients := fun _ => ⟨⟨0, 0, 0⟩, 0, ∅⟩
  nextRef := 0
  allClients := ∅
  waitingForUp := fun _ => ∅
  targetClients := fun _ => ∅
  deadly := fun _ => ∅
  pending := []
  log := []

/-- `gen_vec_` with `generations_[target]` pushed back. -/
def genOf (s : Enforcer) (t : Handle) : List GenNo := s.genVec ++ [s.generations t]

/-- What has been done between two states, newest first. -/
def newer (s s' : Enforcer) : List Action := s'.log.take (s'.log.length - s.log.length)

theorem newer_of_log {s s' : Enforcer} {l : List Action} (h : s'.log = l ++ s.log) :
    s.newer s' = l := by
  simp [newer, h]

/-- `Killable(target)`. -/
def killable (s : Enforcer) (t : Handle) : Bool := !(s.deadly t).isEmpty

end Enforcer

end Falcon
