import Falcon.Client.Tree
import Falcon.Enforcer.Step

/-!
# System/Link — one layer of a client, and the enforcer it registers at

`AddChild` is two calls, with whatever happens in between: the enforcer serves a call at some
moment, its answer reaches the client at a later one or is lost, and meanwhile the enforcer goes on
and its reports come in on the other socket, in another thread.  `add_child_active_` keeps the
`AddChild`s of one layer apart, and no lock is held during a call.

Calls are datagrams: they are sent again while there is no answer, so the enforcer may serve a call
more than once, and still after it has ended at the client.  The enforcer is any enforcer: its other
clients and the layer-specific code do what they like.  A report that was sent can be delivered at
any time, more than once or never.  `history` records what the two parties do that concerns the
layer's children, newest first; nobody reads it.
-/

namespace Falcon

open Client (LayerRef Reply downStatus)
open Client.FalconClient (AddChildArg newGen)

/-- Where an `AddChild` of the layer stands: which call is out, and the answer on its way. -/
inductive Phase
  | idle
  | getGen (a : AddChildArg) (answer : Option SpyRes)
  | register (a : AddChildArg) (gen : List GenNo) (answer : Option SpyRes)
  deriving DecidableEq, Repr

/-- The call that is out is answered. -/
def Phase.answered (res : SpyRes) : Phase → Phase
  | .idle => .idle
  | .getGen a _ => .getGen a (some res)
  | .register a gen _ => .register a gen (some res)

/-- What happens to the layer's children. -/
inductive Mark
  /-- The enforcer acknowledges the registration of `x` at `g`. -/
  | accepted (x : LayerId) (g : List GenNo)
  /-- The enforcer sends the layer a `CLIENT_DOWN`. -/
  | sent (x : LayerId) (g : List GenNo)
  /-- The client handles, and so acknowledges, a `CLIENT_DOWN`. -/
  | delivered (x : LayerId) (g : List GenNo)
  /-- The client runs the callbacks of `x`. -/
  | ran (x : LayerId)
  deriving DecidableEq, Repr

/-- The two parties, and what is under way between them. -/
structure Link where
  client : Client.FalconClient
  layer : LayerRef
  enforcer : Enforcer
  phase : Phase
  /-- The registrations whose call has ended; a copy may still reach the enforcer. -/
  stray : List SpyRegisterArg
  history : List Mark

namespace Link

/-- The name the enforcer has for the layer. -/
def me (s : Link) : ClientId := (s.client.layers s.layer).addr.id

/-- What an action of the enforcer is to the client `me`. -/
def mark (me : ClientId) : Action → Option Mark
  | .reply (.register arg) res =>
    if arg.client.id = me ∧ res.status = .registerAck then
      some (.accepted arg.target.handle arg.target.generation)
    else none
  | .clientDown id arg => if id = me then some (.sent arg.handle arg.generation) else none
  | _ => none

/-- The enforcer handles an event. -/
def enforce (e : Enforcer.Event) (s : Link) : Option Link := do
  let enforcer ← s.enforcer.step e
  some { s with
    enforcer := enforcer
    history := (s.enforcer.newer enforcer).filterMap (mark s.me) ++ s.history }

/-! ## `AddChild` -/

/-- A thread calls `AddChild`; it may return before its first call. -/
def addChild (a : AddChildArg) (resolves : Bool) (s : Link) : Option Link :=
  match s.phase, s.client.addChildBegin s.layer a resolves with
  | .idle, (c, some _) => some { s with client := c }
  | .idle, (c, none) =>
    if (c.layers s.layer).clnt then some { s with client := c, phase := .getGen a none } else none
  | _, _ => none

/-- The call that is out. -/
def outstanding (s : Link) : Option Request :=
  match s.phase with
  | .idle => none
  | .getGen a _ => some (.getGen ⟨a.child, []⟩)
  | .register a gen _ => some (.register (s.client.registerArg s.layer a gen))

/-- The answer among what the enforcer has just done. -/
def answerOf : List Action → Option SpyRes
  | .reply _ res :: _ => some res
  | _ => none

/-- The enforcer serves the call that is out; its answer gets on its way, in the place of an earlier
one, or is lost. -/
def serve (layer : Enforcer.LayerAnswer) (kept : Bool) (s : Link) : Option Link := do
  let req ← s.outstanding
  let s' ← s.enforce (.request req layer)
  let res ← answerOf (s.enforcer.newer s'.enforcer)
  some (if kept then { s' with phase := s.phase.answered res } else s')

/-- The call that is out returns. -/
def conclude (reply : Reply) (s : Link) : Link :=
  match s.phase with
  | .idle => s
  | .getGen a _ =>
    let c := s.client.note (.called s.layer (.getGen ⟨a.child, []⟩) reply)
    match newGen (s.client.layers s.layer).gen reply with
    | none => { s with client := c, phase := .idle }
    | some gen => { s with client := c, phase := .register a gen none }
  | .register a gen _ =>
    let c := s.client.note (.called s.layer (.register (s.client.registerArg s.layer a gen)) reply)
    { s with
      client := (c.addChildEnd s.layer a gen reply).1
      phase := .idle
      stray := s.client.registerArg s.layer a gen :: s.stray }

/-- The answer the enforcer has given reaches the client. -/
def answer (s : Link) : Option Link :=
  match s.phase with
  | .getGen _ (some res) => some (s.conclude ⟨.success, res⟩)
  | .register _ _ (some res) => some (s.conclude ⟨.success, res⟩)
  | _ => none

/-- What `clnt_call` returns when no answer has come in `kFalconWait`. -/
def timedOut : Reply := ⟨.timedOut, ⟨⟨"", []⟩, .success⟩⟩

/-- The call that is out times out. -/
def timeout (s : Link) : Option Link :=
  match s.phase with
  | .idle => none
  | _ => some (s.conclude timedOut)

/-! ## Reports -/

/-- `DoChildDown` will find the child, and run its callbacks. -/
def runsCallbacks (arg : ClientDownArg) (s : Link) : Bool :=
  match (s.client.layers s.layer).children arg.handle with
  | none => false
  | some c => genEq (s.client.layers c).gen arg.generation

/-- A `CLIENT_DOWN` is delivered. -/
def deliver (arg : ClientDownArg) (s : Link) : Link :=
  { s with
    client := s.client.doChildDown s.layer arg.handle arg.generation (downStatus arg)
      arg.layerStatus
    history := (if s.runsCallbacks arg then [.ran arg.handle] else []) ++
      .delivered arg.handle arg.generation :: s.history }

/-! ## Events -/

inductive Event
  | addChild (a : AddChildArg) (resolves : Bool)
  | serve (layer : Enforcer.LayerAnswer) (kept : Bool)
  | answer
  | timeout
  /-- The enforcer serves a registration whose call has ended. -/
  | serveStray (arg : SpyRegisterArg) (layer : Enforcer.LayerAnswer)
  /-- The enforcer does something else than serving a registration of the layer. -/
  | enforcer (e : Enforcer.Event)
  | deliver (arg : ClientDownArg)
  deriving DecidableEq, Repr

/-- The event is a registration of the client `me`. -/
def registers (me : ClientId) : Enforcer.Event → Bool
  | .request (.register arg) _ => arg.client.id = me
  | _ => false

def step (s : Link) : Event → Option Link
  | .addChild a resolves => s.addChild a resolves
  | .serve layer kept => s.serve layer kept
  | .answer => s.answer
  | .timeout => s.timeout
  | .serveStray arg layer =>
    if arg ∈ s.stray then s.enforce (.request (.register arg) layer) else none
  | .enforcer e => if registers s.me e then none else s.enforce e
  | .deliver arg => if .clientDown s.me arg ∈ s.enforcer.log then some (s.deliver arg) else none

/-- The layer `L` of a client, and an enforcer that has just started. -/
def start (client : Client.FalconClient) (L : LayerRef) (gv : List GenNo) (gens : Handle → GenNo) :
    Link where
  client := client
  layer := L
  enforcer := Enforcer.init gv gens
  phase := .idle
  stray := []
  history := []

/-- **`AddChild` is what its two calls amount to when nothing comes between**: the method on the
tree of layers, given the replies, does what the phases do. -/
theorem addChild_conclude {s s' : Link} {a : AddChildArg} {resolves : Bool} (r₁ r₂ : Reply)
    (h : s.addChild a resolves = some s') :
    (s.client.addChild s.layer a ⟨resolves, r₁, r₂⟩).map Prod.fst =
      some ((s'.conclude r₁).conclude r₂).client := by
  unfold addChild at h
  unfold Client.FalconClient.addChild
  dsimp only
  split at h
  · next c ret hphase hbegin =>
    obtain rfl := Option.some.inj h
    simp [hbegin, conclude, hphase]
  · next c hphase hbegin =>
    split at h
    · next hclnt =>
      obtain rfl := Option.some.inj h
      simp only [hbegin, hclnt, if_true, conclude, Client.FalconClient.note]
      cases newGen (c.layers s.layer).gen r₁ with
      | none => rfl
      | some gen => rfl
    · cases h
  · cases h

end Link

end Falcon
