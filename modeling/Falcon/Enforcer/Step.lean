import Falcon.Enforcer.State
import Mathlib.Logic.Function.Iterate

/-!
# Enforcer/Step — the methods of `class Enforcer`, and the events that run them

The methods of `enforcer.cc` as functions on the state, in the order of the file, then `step`: what
one turn of the event loop does.  An event is a request, the completion of an RPC or the expiry of a
timer (`fire`), or a call of `ObserveUp` / `ObserveDown` by the layer-specific code.

The virtual methods are the layer's.  `StartMonitoring`, `StopMonitoring` and `Kill` are recorded in
the log; what the layer does from inside them is a later event, since the enforcer touches none of
its tables after the call.  What the layer answers to `UpdateGenerations` and `InvalidTarget` comes
with the request (`LayerAnswer`).
-/

namespace Falcon

namespace Enforcer

/-- Do something that can be seen from outside. -/
def note (a : Action) (s : Enforcer) : Enforcer := { s with log := a :: s.log }

/-- Hand a callback to the event loop. -/
def await (cb : Callback) (s : Enforcer) : Enforcer := { s with pending := cb :: s.pending }

/-- `cl->up_intervals_ = m`. -/
def setIntervals (c : ClientRef) (m : Keyed Handle ℤ) (s : Enforcer) : Enforcer :=
  { s with clients := Function.update s.clients c ⟨(s.clients c).id, (s.clients c).clientTag, m⟩ }

/-- `cl->up_intervals_[target] = delay`. -/
def setInterval (c : ClientRef) (t : Handle) (delay : ℤ) (s : Enforcer) : Enforcer :=
  s.setIntervals c ((s.clients c).upIntervals.insert t delay)

/-- `cl->up_intervals_.erase(target)`. -/
def eraseInterval (c : ClientRef) (t : Handle) (s : Enforcer) : Enforcer :=
  s.setIntervals c ((s.clients c).upIntervals.erase t)

/-- `target_clients_[target].erase(cl)` and `deadly_[target].erase(cl)`. -/
def unregister (id : ClientId) (t : Handle) (s : Enforcer) : Enforcer :=
  { s with
    targetClients := Function.update s.targetClients t ((s.targetClients t).erase id)
    deadly := Function.update s.deadly t ((s.deadly t).erase id) }

/-! ## Generations -/

def incrementGeneration (t : Handle) (s : Enforcer) : Enforcer :=
  { s with
    generationLog := s.generationLog ++ [t]
    generations := Function.update s.generations t (s.generations t + 1) }

def fastForwardGeneration (t : Handle) (newGen : GenNo) (s : Enforcer) : Enforcer :=
  if newGen < s.generations t then
    { s with generations := Function.update s.generations t newGen }
  else (incrementGeneration t)^[newGen.toNat - (s.generations t).toNat] s

/-! ## Clients and their heartbeats -/

def kClientRetry : ℕ := 5

def doHeartbeat (c : ClientRef) (retryCount : ℕ) (s : Enforcer) : Enforcer :=
  s.await (.heartbeatCall c retryCount)

/-- One round of the loop of `RemoveClient`. -/
def dropTarget (id : ClientId) (s : Enforcer) (t : Handle) : Enforcer :=
  let s := s.unregister id t
  if (s.targetClients t).isEmpty then s.note (.stopMonitoring t) else s

def removeClient (c : ClientRef) (s : Enforcer) : Enforcer :=
  (s.clients c).upIntervals.keys.foldl (dropTarget (s.clients c).id)
    { s with allClients := s.allClients.erase (s.clients c).id }

def handleClientHeartbeat (c : ClientRef) (retryCount : ℕ) (status : ClntStat) (s : Enforcer) :
    Enforcer :=
  if (s.clients c).id ∉ s.allClients then s
  else if status = .success then s.await (.heartbeatTimer c 0)
  else if retryCount < kClientRetry then s.doHeartbeat c (retryCount + 1)
  else (s.note (.gaveUp (s.clients c).id)).removeClient c

def getClient (addr : ClientAddr) (s : Enforcer) : Enforcer × ClientRef :=
  match s.allClients.lookup addr.id with
  | some c => (s, c)
  | none =>
    (({ s with
        clients := Function.update s.clients s.nextRef ⟨addr.id, addr.clientTag, ∅⟩
        nextRef := s.nextRef + 1
        allClients := s.allClients.add addr.id s.nextRef } : Enforcer).doHeartbeat s.nextRef 0,
      s.nextRef)

/-! ## Signs of life -/

def addToWaiting (t : Handle) (c : ClientRef) (s : Enforcer) : Enforcer :=
  if (s.clients c).id ∈ s.targetClients t then
    { s with waitingForUp :=
        Function.update s.waitingForUp t ((s.waitingForUp t).add (s.clients c).id c) }
  else s

def repeatWaiting (t : Handle) (c : ClientRef) (s : Enforcer) : Enforcer :=
  if (s.clients c).id ∈ s.targetClients t then
    match (s.clients c).upIntervals.lookup t with
    -- `operator[]` enters a missing interval as 0
    | none => (s.setInterval c t 0).addToWaiting t c
    | some delay =>
      if delay < 0 then s
      else if delay = 0 then s.addToWaiting t c
      else s.await (.waitingTimer t c)
  else s

/-- One `CLIENT_UP`. -/
def signOfLife (t : Handle) (s : Enforcer) (c : ClientRef) : Enforcer :=
  repeatWaiting t c
    (s.note (.clientUp (s.clients c).id ⟨t, s.genOf t, (s.clients c).clientTag⟩))

def observeUp (t : Handle) (s : Enforcer) : Enforcer :=
  ((s.waitingForUp t).entries.map Sigma.snd).foldl (signOfLife t)
    { s with waitingForUp := Function.update s.waitingForUp t ∅ }

/-! ## Down reports -/

def kMaxRetries : ℕ := 3

def reportDown (c : ClientRef) (arg : ClientDownArg) (retries : ℕ) (status : ClntStat)
    (s : Enforcer) : Enforcer :=
  if status = .success ∧ retries ≠ 0 then
    let s := (s.eraseInterval c arg.handle).unregister (s.clients c).id arg.handle
    if (s.clients c).upIntervals.isEmpty then s.removeClient c else s
  else if retries = kMaxRetries then (s.note (.gaveUp (s.clients c).id)).removeClient c
  else (s.note (.clientDown (s.clients c).id arg)).await (.downCall c arg (retries + 1))

/-- The report `ObserveDown` makes to one client; the status it passes is ignored. -/
def sendDown (t : Handle) (status : UInt32) (killed wouldKill : Bool) (s : Enforcer)
    (c : ClientRef) : Enforcer :=
  s.reportDown c ⟨t, s.genOf t, status, killed, wouldKill, (s.clients c).clientTag⟩ 0 .success

/-- The loop of `ObserveDown`. -/
def sendDowns (t : Handle) (status : UInt32) (killed wouldKill : Bool) (s : Enforcer) : Enforcer :=
  ((s.targetClients t).entries.map Sigma.snd).foldl (sendDown t status killed wouldKill) s

def observeDown (t : Handle) (status : UInt32) (killed wouldKill : Bool) (s : Enforcer) :
    Enforcer :=
  let s := ((s.note (.observeDown t)).sendDowns t status killed wouldKill).incrementGeneration t
  ({ s with
      targetClients := Function.update s.targetClients t ∅
      waitingForUp := Function.update s.waitingForUp t ∅ } : Enforcer).note (.stopMonitoring t)

/-! ## Requests -/

/-- What the layer-specific code answers during a request: the generation `UpdateGenerations` fast
forwards the target to, if it does, and `InvalidTarget`. -/
structure LayerAnswer where
  newGen : Option GenNo
  invalid : Bool
  deriving DecidableEq, Repr

def updateGenerations (t : Handle) (layer : LayerAnswer) (s : Enforcer) : Enforcer :=
  match layer.newGen with
  | none => s
  | some g => s.fastForwardGeneration t g

/-- The loop of `GenCheck` on two vectors of one size. -/
def genCompare : List GenNo → List GenNo → SpyStatus
  | mine :: ms, query :: qs =>
    if mine < query then .futureGen else if mine > query then .longDead else genCompare ms qs
  | _, _ => .success

/-- `GenCheck`, after its call of `UpdateGenerations`. -/
def genCheck (t : Handle) (queryGen : List GenNo) (layer : LayerAnswer) (s : Enforcer) :
    SpyStatus :=
  if layer.invalid then .unknownTarget
  else if (s.genOf t).length ≠ queryGen.length then .badGenVec
  else genCompare (s.genOf t) queryGen

/-- `target_clients_[target].insert(cl)`. -/
def enroll (c : ClientRef) (t : Handle) (s : Enforcer) : Enforcer :=
  { s with targetClients :=
      Function.update s.targetClients t ((s.targetClients t).add (s.clients c).id c) }

/-- `if (argp->lethal) deadly_[target].insert(cl)`. -/
def license (lethal : Bool) (c : ClientRef) (t : Handle) (s : Enforcer) : Enforcer :=
  if lethal then
    { s with deadly := Function.update s.deadly t ((s.deadly t).add (s.clients c).id c) }
  else s

/-- `SPY_REGISTER` past `GetClient`, up to the decision to start monitoring. -/
def enlist (arg : SpyRegisterArg) (c : ClientRef) (s : Enforcer) : Enforcer :=
  let t := arg.target.handle
  (((s.enroll c t).setInterval c t arg.upIntervalMs).repeatWaiting t c).license arg.lethal c t

/-- `SPY_REGISTER` past `GetClient`, up to the reply. -/
def register (arg : SpyRegisterArg) (c : ClientRef) (s : Enforcer) : Enforcer :=
  let t := arg.target.handle
  let newClient := decide ((s.clients c).id ∉ s.targetClients t)
  let s := s.enlist arg c
  if (s.targetClients t).size = 1 ∧ newClient then s.note (.startMonitoring t) else s

/-- `SPY_CANCEL` past `GetClient`, up to the reply, for a client of the target. -/
def cancel (t : Handle) (c : ClientRef) (s : Enforcer) : Enforcer :=
  let s := (s.eraseInterval c t).unregister (s.clients c).id t
  let s := if (s.targetClients t).isEmpty then s.note (.stopMonitoring t) else s
  if (s.clients c).upIntervals.isEmpty then s.removeClient c else s

/-- `Dispatch`; `SPY_NULL` is answered without a result. -/
def dispatch (req : Request) (layer : LayerAnswer) (s : Enforcer) : Enforcer :=
  match req with
  | .null => s
  | .register arg =>
    let t := arg.target.handle
    let myVec := s.genOf t
    let s := s.updateGenerations t layer
    match s.genCheck t arg.target.generation layer with
    | .success =>
      let (s, c) := s.getClient arg.client
      (s.register arg c).note (.reply req ⟨⟨t, myVec⟩, .registerAck⟩)
    | status => s.note (.reply req ⟨⟨t, myVec⟩, status⟩)
  | .cancel arg =>
    let t := arg.target.handle
    let myVec := s.genOf t
    let s := s.updateGenerations t layer
    match s.genCheck t arg.target.generation layer with
    | .success =>
      let (s, c) := s.getClient arg.client
      if (s.clients c).id ∈ s.targetClients t then
        (s.cancel t c).note (.reply req ⟨⟨t, myVec⟩, .cancelAck⟩)
      else s.note (.reply req ⟨⟨t, myVec⟩, .cancelError⟩)
    | status => s.note (.reply req ⟨⟨t, myVec⟩, status⟩)
  | .kill target =>
    let t := target.handle
    let myVec := s.genOf t
    let s := s.updateGenerations t layer
    match s.genCheck t target.generation layer with
    | .success => (s.note (.kill t)).note (.reply req ⟨⟨t, myVec⟩, .killAck⟩)
    | status => s.note (.reply req ⟨⟨t, myVec⟩, status⟩)
  | .getGen target =>
    let t := target.handle
    if layer.invalid then s.note (.reply req ⟨⟨t, []⟩, .unknownTarget⟩)
    else
      let s := s.updateGenerations t layer
      s.note (.reply req ⟨⟨t, s.genOf t⟩, .genResp⟩)

/-! ## The event loop -/

inductive Event
  | request (req : Request) (layer : LayerAnswer)
  /-- A pending callback runs; the status is that of the completed RPC, and no timer reads it. -/
  | fire (cb : Callback) (status : ClntStat)
  | observeUp (t : Handle)
  | observeDown (t : Handle) (status : UInt32) (killed wouldKill : Bool)
  deriving DecidableEq, Repr

/-- Take a callback out of the event loop. -/
def take (cb : Callback) (s : Enforcer) : Enforcer := { s with pending := s.pending.erase cb }

/-- Run a callback. -/
def call (cb : Callback) (status : ClntStat) (s : Enforcer) : Enforcer :=
  match cb with
  | .heartbeatCall c retryCount => s.handleClientHeartbeat c retryCount status
  | .heartbeatTimer c retryCount => s.doHeartbeat c retryCount
  | .downCall c arg retries => s.reportDown c arg retries status
  | .waitingTimer t c => s.addToWaiting t c

/-- One turn of the event loop. -/
def step (s : Enforcer) : Event → Option Enforcer
  | .request req layer => some (s.dispatch req layer)
  | .fire cb status =>
    if cb ∈ s.pending then some ((s.take cb).call cb status) else none
  | .observeUp t => some (s.observeUp t)
  | .observeDown t status killed wouldKill => some (s.observeDown t status killed wouldKill)

end Enforcer

end Falcon
