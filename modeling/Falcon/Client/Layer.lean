import Falcon.Client.Callback
import Falcon.Spy.Protocol
import Mathlib.Logic.Function.Basic

/-!
# Client/Layer — the tree of layers a client library keeps

`FalconLayer.cc`, `CallbackList.cc` and `Generation.cc`, on a heap of layer objects.  A layer owns
its children (`children_` holds shared pointers) and knows its parent by a weak pointer.  Parents
never change, so a layer carries the walk up to the base that `Watchdog::Run` makes (`path`), and a
weak pointer locks as long as the object is `live`: when a layer is erased from its parent's
`children_`, it goes with all layers below it (`destroy`).

An RPC is a call that returns: the reply is an argument of the method.  A method that calls through
a null `clnt_`, or never returns, has no result (`none`).  `log` records what the client did, newest
first; nothing reads it.
-/

namespace Falcon

/-! ## `Generation.cc` -/

/-- `operator==`: the loop compares the elements of `g1` with themselves. -/
def genEq (g1 g2 : List GenNo) : Bool :=
  g1.length = g2.length ∧ (List.range g1.length).all fun i => g1[i]? = g1[i]?

/-- `IsChild`; its loop is the same one.  No vector has the length the unsigned `size() - 1` wraps
to. -/
def isChild (g1 g2 : List GenNo) : Bool :=
  g1.length + 1 = g2.length ∧ (List.range g1.length).all fun i => g1[i]? = g1[i]?

theorem genEq_iff {g1 g2 : List GenNo} : genEq g1 g2 = true ↔ g1.length = g2.length := by
  simp [genEq]

namespace Client

/-! ## The objects -/

/-- A pointer to a `FalconLayer`. -/
abbrev LayerRef := ℕ

/-- A `FalconCallbackPtr`. -/
abbrev CallbackRef := ℕ

/-- `class FalconLayer`, with the `up_callback_` of its watchdog. -/
structure FalconLayer where
  handle : LayerId
  gen : List GenNo
  killable : Bool
  baseLayer : Bool
  /-- `watchdog_` is set: the layer was created as a leaf. -/
  watchdog : Bool
  /-- `clnt_` is set. -/
  clnt : Bool
  addr : ClientAddr
  /-- The parent with this layer's handle, the parent's parent with its handle, up to the base: what
  `Watchdog::Run` collects from a leaf. -/
  path : List (LayerRef × LayerId)
  cbList : List CallbackRef
  upCallback : Option CallbackRef
  /-- `children_`; a null entry is no entry. -/
  children : LayerId → Option LayerRef
  childLeaves : LayerId → ℤ

/-- What `clnt_call` brings back. -/
structure Reply where
  st : ClntStat
  res : SpyRes
  deriving DecidableEq, Repr

/-- The call succeeded and the enforcer answered `status`. -/
def Reply.is (r : Reply) (status : SpyStatus) : Bool := r.st = .success ∧ r.res.status = status

/-- What a client library does that can be seen from outside its tree. -/
inductive Action
  /-- An RPC through the `clnt_` of a layer. -/
  | called (layer : LayerRef) (req : Request) (reply : Reply)
  | invoked (cb : CallbackRef) (i : Invocation)
  /-- `Watchdog::Pet` of a leaf. -/
  | pet (leaf : LayerRef)
  /-- A request is completed with a target. -/
  | completed (cb : CallbackRef) (top : LayerRef)
  deriving DecidableEq, Repr

/-- `class FalconClient`, with the heap and the running watchdogs. -/
structure FalconClient where
  layers : LayerRef → FalconLayer
  nextLayer : LayerRef
  live : LayerRef → Bool
  addr : ClientAddr
  layerMap : UInt32 → Option LayerRef
  layerIdCounter : UInt32
  callbacks : CallbackRef → FalconCallback
  nextCallback : CallbackRef
  /-- The leaves whose watchdog has not yet made its cancellation pass. -/
  watchdogs : List LayerRef
  log : List Action

namespace FalconClient

/-- The base layer, `base_layer_`. -/
def base (addr : ClientAddr) : FalconLayer where
  handle := ""
  gen := []
  killable := false
  baseLayer := true
  watchdog := false
  clnt := false
  addr := addr
  path := []
  cbList := []
  upCallback := none
  children := fun _ => none
  childLeaves := fun _ => 0

/-- A constructed client at the address `addr`; the base layer is object 0. -/
def init (addr : ClientAddr) : FalconClient where
  layers := fun _ => base addr
  nextLayer := 1
  live := fun L => L = 0
  addr := addr
  layerMap := fun _ => none
  layerIdCounter := 0
  callbacks := fun _ => .create none [] 0 0 0 0
  nextCallback := 0
  watchdogs := []
  log := []

/-- Do something that can be seen from outside. -/
def note (a : Action) (s : FalconClient) : FalconClient := { s with log := a :: s.log }

/-- Change one layer. -/
def modify (L : LayerRef) (f : FalconLayer → FalconLayer) (s : FalconClient) : FalconClient :=
  { s with layers := Function.update s.layers L (f (s.layers L)) }

/-! ## Callbacks -/

def addCallback (L : LayerRef) (cb : CallbackRef) (s : FalconClient) : FalconClient :=
  s.modify L fun l => { l with cbList := l.cbList ++ [cb] }

/-- `operator()` of one callback. -/
def runCallback (lid : LayerId) (falconStatus remoteStatus : UInt32) (s : FalconClient)
    (cb : CallbackRef) : FalconClient :=
  let r := (s.callbacks cb).call lid falconStatus remoteStatus
  { s with
    callbacks := Function.update s.callbacks cb r.1
    log := r.2.map (.invoked cb) ++ s.log }

/-- `RunCallbacks`: the list is emptied, then run. -/
def runCallbacks (L : LayerRef) (lid : LayerId) (falconStatus remoteStatus : UInt32)
    (s : FalconClient) : FalconClient :=
  (s.layers L).cbList.foldl (runCallback lid falconStatus remoteStatus)
    (s.modify L fun l => { l with cbList := [] })

/-! ## Reports -/

/-- `Watchdog::Pet`. -/
def pet (L : LayerRef) (s : FalconClient) : FalconClient :=
  let s := s.note (.pet L)
  match (s.layers L).upCallback with
  | none => s
  | some cb => s.runCallback (s.layers L).handle ClientStatus.signOfLife 0 cb

def setUpCallbackTime (L : LayerRef) (s : FalconClient) : FalconClient :=
  if (s.layers L).watchdog then s.pet L else s

def doChildUp (L : LayerRef) (child : LayerId) (gen : List GenNo) (s : FalconClient) :
    FalconClient :=
  match (s.layers L).children child with
  | none => s
  | some c => if genEq (s.layers c).gen gen then s.setUpCallbackTime c else s

/-- The last shared pointer to a layer goes: it and everything below it is deleted. -/
def destroy (c : LayerRef) (s : FalconClient) : FalconClient :=
  { s with live := fun L => s.live L && !(L = c || (s.layers L).path.any fun e => e.1 = c) }

/-- `children_.erase(child)`. -/
def eraseChild (L : LayerRef) (child : LayerId) (s : FalconClient) : FalconClient :=
  s.modify L fun l => { l with children := Function.update l.children child none }

def doChildDown (L : LayerRef) (child : LayerId) (gen : List GenNo)
    (falconStatus remoteStatus : UInt32) (s : FalconClient) : FalconClient :=
  match (s.layers L).children child with
  | none => s
  | some c =>
    if genEq (s.layers c).gen gen then
      ((s.runCallbacks c child falconStatus remoteStatus).eraseChild L child).destroy c
    else s

/-! ## `CancelChild` and `KillChild` -/

/-- The generation `InitRPCArgs` finds for a child. -/
def genOfChild (L : LayerRef) (child : LayerId) (s : FalconClient) : List GenNo :=
  match (s.layers L).children child with
  | none => []
  | some c => (s.layers c).gen

def cancelArg (L : LayerRef) (child : LayerId) (s : FalconClient) : SpyCancelArg :=
  ⟨⟨child, s.genOfChild L child⟩, (s.layers L).addr⟩

/-- `child_leaves_[child] += d`. -/
def countLeaf (L : LayerRef) (child : LayerId) (d : ℤ) (s : FalconClient) : FalconClient :=
  s.modify L fun l =>
    { l with childLeaves := Function.update l.childLeaves child (l.childLeaves child + d) }

def cancelChild (L : LayerRef) (child : LayerId) (reply : Reply) (s : FalconClient) :
    Option FalconClient :=
  if (s.layers L).baseLayer then some s
  else
    let s := s.countLeaf L child (-1)
    if (s.layers L).childLeaves child ≠ 0 then some s
    else if (s.layers L).clnt then
      some (s.note (.called L (.cancel (s.cancelArg L child)) reply))
    else none

/-- `KillChild`, with what it returns; on the base layer it loops for ever. -/
def killChild (L : LayerRef) (child : LayerId) (reply : Reply) (s : FalconClient) :
    Option (FalconClient × ℤ) :=
  if (s.layers L).baseLayer then none
  else
    match (s.layers L).children child with
    | none => some (s, -1)
    | some c =>
      if (s.layers c).killable then
        if (s.layers L).clnt then
          let s := s.note (.called L (.kill ⟨child, s.genOfChild L child⟩) reply)
          if reply.is .killAck then some (s, -1)
          else if reply.is .longDead then
            some (s.runCallbacks c child ClientStatus.killLongDead 0, 0)
          else some (s, 1)
        else none
      else some (s.runCallbacks c child ClientStatus.falconE2ETimeout 0, 0)

/-! ## `AddChild` -/

/-- The arguments of `AddChild`. -/
structure AddChildArg where
  child : LayerId
  killable : Bool
  addr : ClientAddr
  timeout : ℤ
  leafLayer : Bool
  cb : CallbackRef
  deriving DecidableEq, Repr

/-- What the world answers to one `AddChild`: `getaddrinfo`, then the two calls. -/
structure AddChildAnswers where
  resolves : Bool
  genReply : Reply
  registerReply : Reply
  deriving DecidableEq, Repr

/-- `new FalconLayer(..)` for a child of `L`. -/
def newLayer (L : LayerRef) (a : AddChildArg) (gen : List GenNo) (s : FalconClient) :
    FalconLayer where
  handle := a.child
  gen := gen
  killable := a.killable
  baseLayer := false
  watchdog := a.leafLayer
  clnt := !a.leafLayer
  addr := a.addr
  path := (L, a.child) :: (s.layers L).path
  cbList := [a.cb]
  upCallback := none
  children := fun _ => none
  childLeaves := fun _ => 0

/-- The child is constructed and entered; a leaf starts its watchdog. -/
def install (L : LayerRef) (a : AddChildArg) (gen : List GenNo) (s : FalconClient) : FalconClient :=
  let s' := (s.countLeaf L a.child 1).modify L fun l =>
    { l with children := Function.update l.children a.child (some s.nextLayer) }
  { s' with
    layers := Function.update s'.layers s.nextLayer (s.newLayer L a gen)
    nextLayer := s.nextLayer + 1
    live := Function.update s.live s.nextLayer true
    watchdogs := if a.leafLayer then s.nextLayer :: s.watchdogs else s.watchdogs }

/-- `AddChild` up to its first call: it may have returned by then. -/
def addChildBegin (L : LayerRef) (a : AddChildArg) (resolves : Bool) (s : FalconClient) :
    FalconClient × Option (Option LayerRef) :=
  match (s.layers L).children a.child with
  | some c => (s.addCallback c a.cb, some (some c))
  | none =>
    if !a.leafLayer && !resolves then (s, some none)
    else if (s.layers L).baseLayer then
      (s.install L a (s.layers L).gen, some (some s.nextLayer))
    else (s, none)

/-- The generation `AddChild` goes on with after `SPY_GET_GEN`, if it does. -/
def newGen (gen : List GenNo) (reply : Reply) : Option (List GenNo) :=
  if reply.is .genResp && isChild gen reply.res.target.generation then
    some reply.res.target.generation
  else none

/-- `kSecondsToMilliseconds * timeout` for a leaf with a timeout. -/
def upInterval (a : AddChildArg) : ℤ := if a.leafLayer ∧ 0 ≤ a.timeout then 1000 * a.timeout else -1

def registerArg (L : LayerRef) (a : AddChildArg) (gen : List GenNo) (s : FalconClient) :
    SpyRegisterArg :=
  ⟨⟨a.child, gen⟩, a.killable, upInterval a, (s.layers L).addr⟩

/-- `AddChild` past the reply to `SPY_REGISTER`. -/
def addChildEnd (L : LayerRef) (a : AddChildArg) (gen : List GenNo) (reply : Reply)
    (s : FalconClient) : FalconClient × Option LayerRef :=
  if reply.is .registerAck then (s.install L a gen, some s.nextLayer) else (s, none)

def addChild (L : LayerRef) (a : AddChildArg) (ans : AddChildAnswers) (s : FalconClient) :
    Option (FalconClient × Option LayerRef) :=
  match s.addChildBegin L a ans.resolves with
  | (s, some ret) => some (s, ret)
  | (s, none) =>
    if (s.layers L).clnt then
      let s := s.note (.called L (.getGen ⟨a.child, []⟩) ans.genReply)
      match newGen (s.layers L).gen ans.genReply with
      | none => some (s, none)
      | some gen =>
        let s := s.note (.called L (.register (s.registerArg L a gen)) ans.registerReply)
        some (s.addChildEnd L a gen ans.registerReply)
    else none

end FalconClient

end Client

end Falcon
