import Falcon.Client.Layer

/-!
# Client/Tree — requests, reports and watchdogs on the tree of layers

`FalconClient.cc` with the server side of `client_ops.cc`, the part of `Watchdog::Run` that touches
the tree, and the calls of `client.cc`: the events that change a client, each taken in one step
(`step`).  A request walks its id list from the last id to the first, `AddChild` by `AddChild`; the
reports come by the tag of the layer that registered for them.
-/

namespace Falcon.Client

/-- A report of an enforcer, as `client_prot.x` has it. -/
inductive Message
  | up (arg : ClientUpArg)
  | down (arg : ClientDownArg)
  deriving DecidableEq, Repr

/-- The layer tag a report is for. -/
def Message.cid : Message → UInt32
  | .up arg => arg.clientTag
  | .down arg => arg.clientTag

def Message.handle : Message → LayerId
  | .up arg => arg.handle
  | .down arg => arg.handle

def Message.generation : Message → List GenNo
  | .up arg => arg.generation
  | .down arg => arg.generation

/-- The status `client_down_1_svc` makes of a report. -/
def downStatus (arg : ClientDownArg) : UInt32 :=
  if !arg.killed && !arg.wouldKill then ClientStatus.downFromRemote
  else if arg.killed then ClientStatus.killedByRemote
  else ClientStatus.remoteWouldKill

/-- A `StartMonitoring` request: the fields of `FalconRequest`, and what the deferred fields of the
`FalconCallback` made for it happen to hold. -/
structure StartRequest where
  idlist : List LayerId
  lethal : Bool
  cb : Option CallbackFn
  clientData : ClientData
  e2etimeout : ℤ
  garbageStatus : UInt32
  garbageRemote : UInt32
  garbageIndex : ℤ
  deriving DecidableEq, Repr

/-- How the loop of `start_builder` ends: at the top layer, or with a layer that could not be added
and the ids of the list in front of its own. -/
inductive Built
  | top (L : LayerRef)
  | failed (rest : List LayerId)
  deriving DecidableEq, Repr

namespace FalconClient

/-! ## Layers by tag -/

/-- `AddLayer`; its `CHECK` aborts. -/
def addLayer (cid : UInt32) (L : LayerRef) (s : FalconClient) : Option FalconClient :=
  if (s.layerMap cid).any s.live then none
  else some { s with layerMap := Function.update s.layerMap cid (some L) }

def getLayer (cid : UInt32) (s : FalconClient) : Option LayerRef := (s.layerMap cid).filter s.live

def receivedUp (cid : UInt32) (handle : LayerId) (gen : List GenNo) (s : FalconClient) :
    FalconClient :=
  match s.getLayer cid with
  | none => s
  | some L => s.doChildUp L handle gen

def receivedDown (cid : UInt32) (handle : LayerId) (gen : List GenNo)
    (falconStatus remoteStatus : UInt32) (s : FalconClient) : FalconClient :=
  match s.getLayer cid with
  | none => s
  | some L => s.doChildDown L handle gen falconStatus remoteStatus

/-- `client_up_1_svc` and `client_down_1_svc`. -/
def receive (s : FalconClient) : Message → FalconClient
  | .up arg => s.receivedUp arg.clientTag arg.handle arg.generation
  | .down arg =>
    s.receivedDown arg.clientTag arg.handle arg.generation (downStatus arg) arg.layerStatus

/-! ## Requests -/

/-- The arguments the loop gives to `AddChild` for the id `x` with the ids `rest` to follow. -/
def addChildArg (req : StartRequest) (cb : CallbackRef) (x : LayerId) (rest : List LayerId)
    (s : FalconClient) : AddChildArg where
  child := x
  killable := req.lethal
  addr := { s.addr with clientTag := s.layerIdCounter + 1 }
  timeout := req.e2etimeout
  leafLayer := rest.isEmpty
  cb := cb

/-- `GetNextLayerId`. -/
def nextLayerId (s : FalconClient) : FalconClient :=
  { s with layerIdCounter := s.layerIdCounter + 1 }

/-- The loop of `start_builder` from the layer `L` on, over the ids that remain (last id first). -/
def build (req : StartRequest) (cb : CallbackRef) : List LayerId → (ℕ → AddChildAnswers) →
    LayerRef → FalconClient → Option (FalconClient × Built)
  | [], _, L, s => some (s, .top L)
  | x :: rest, ans, L, s =>
    match s.nextLayerId.addChild L (s.addChildArg req cb x rest) (ans 0) with
    | none => none
    | some (s', none) => some (s', .failed rest)
    | some (s', some c) =>
      -- the leaf needs no tag in the catalogue
      (if rest.isEmpty then some s' else s'.addLayer (s.layerIdCounter + 1) c).bind
        (build req cb rest (fun i => ans (i + 1)) c)

/-- A `START` request.  After a failure the index has already moved on: the callback gets the id in
front of the one that failed, or `junk`, what lies in front of the list. -/
def start (req : StartRequest) (ans : ℕ → AddChildAnswers) (junk : LayerId) (s : FalconClient) :
    Option FalconClient :=
  let cb := s.nextCallback
  let s : FalconClient := { s with
    callbacks := Function.update s.callbacks cb
      (.create req.cb req.idlist req.clientData req.garbageStatus req.garbageRemote
        req.garbageIndex)
    nextCallback := cb + 1 }
  match s.build req cb req.idlist.reverse ans 0 with
  | none => none
  | some (s', .top L) => some (s'.note (.completed cb L))
  | some (s', .failed rest) =>
    some (s'.runCallback (rest.headD junk) ClientStatus.registrationError 0 cb)

/-! ## Watchdogs -/

/-- The loop of the cancellation pass: a layer that is gone is skipped. -/
def cancelPath : List (LayerRef × LayerId) → (ℕ → Reply) → FalconClient → Option FalconClient
  | [], _, s => some s
  | (L, x) :: path, replies, s =>
    (if s.live L then s.cancelChild L x (replies 0) else some s).bind
      (cancelPath path fun i => replies (i + 1))

/-- The end of `Watchdog::Run`. -/
def cancelPass (leaf : LayerRef) (replies : ℕ → Reply) (s : FalconClient) : Option FalconClient :=
  cancelPath (s.layers leaf).path replies { s with watchdogs := s.watchdogs.erase leaf }

/-! ## The client's own calls -/

/-- `StartTimer` on a layer with a watchdog. -/
def startTimer (leaf : LayerRef) (cb : CallbackRef) (s : FalconClient) : FalconClient :=
  if (s.layers leaf).watchdog then s.modify leaf fun l => { l with upCallback := some cb } else s

/-- An operation of the client on the callback of a target. -/
def useCallback (cb : CallbackRef) (op : FalconCallback.Op) (s : FalconClient) : FalconClient :=
  let r := (s.callbacks cb).apply op
  { s with
    callbacks := Function.update s.callbacks cb r.1
    log := r.2.map (.invoked cb) ++ s.log }

def setCallback (cb : CallbackRef) (f : CallbackFn) (s : FalconClient) : FalconClient :=
  s.useCallback cb (.reactivate f 0)

def removeCallback (cb : CallbackRef) (s : FalconClient) : FalconClient :=
  s.useCallback cb .deactivate

/-! ## Events -/

inductive Event
  | start (req : StartRequest) (ans : ℕ → AddChildAnswers) (junk : LayerId)
  | report (m : Message)
  /-- A watchdog on the war path kills `x` at `L`. -/
  | kill (leaf L : LayerRef) (x : LayerId) (reply : Reply)
  | cancelPass (leaf : LayerRef) (replies : ℕ → Reply)
  | startTimer (leaf : LayerRef) (cb : CallbackRef)
  | setCallback (cb : CallbackRef) (f : CallbackFn)
  | removeCallback (cb : CallbackRef)

def step (s : FalconClient) : Event → Option FalconClient
  | .start req ans junk => s.start req ans junk
  | .report m => some (s.receive m)
  | .kill leaf L x reply =>
    if leaf ∈ s.watchdogs ∧ (L, x) ∈ (s.layers leaf).path ∧ s.live L then
      (s.killChild L x reply).map Prod.fst
    else none
  | .cancelPass leaf replies =>
    if leaf ∈ s.watchdogs then s.cancelPass leaf replies else none
  | .startTimer leaf cb => if s.live leaf then some (s.startTimer leaf cb) else none
  | .setCallback cb f => some (s.setCallback cb f)
  | .removeCallback cb => some (s.removeCallback cb)

end FalconClient

end Falcon.Client
