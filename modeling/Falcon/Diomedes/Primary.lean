import Falcon.Diomedes.Votes

/-!
# Diomedes/Primary — the event loop of a primary

`RunAsPrimary`, and `RunFromRequestCache`, which is called at the end of an election and has an
event loop of its own: it comes back when every cached request has been run.  Each event of an epoll
loop first looks at the number of active servers; `ProcessBackupMessages` then takes one message
after another from the socket.  A `Responder` is a thread that waits for the acknowledgements of one
request.

Servers that join after the start are not part of it, and the branch of `ProcessBackupMessage` for a
`JOIN` is left out: one of a server that is not in `active_servers_` sets `mode_` to
`ADDING_REPLICA`, which the source calls unused; one of an active server leaves the primary as it
is.

`voters`, `acknowledgers`, `collected` and `acked` are read by no function of the program.
-/

namespace Falcon.Diomedes

open TcpRpcMsg (Fits)

/-- `sockaddr_in`. -/
structure Address where
  addr : UInt32
  port : UInt16
  deriving DecidableEq, Repr

/-- A thread that runs `Responder`. -/
structure Responder where
  reqId : UInt32
  clientId : UInt32
  deriving DecidableEq, Repr

/-- A replica with what it needs as the primary. -/
structure Server extends Replica where
  self : DiomedesId
  /-- `failures_`. -/
  failures : ℤ
  failuresObserved : UInt32
  acksNeeded : UInt32
  ackers : Finset String
  clientMap : Keyed UInt32 Address
  responders : List Responder
  /-- `RunFromRequestCache` is running. -/
  settling : Bool
  /-- The loop of `ProcessBackupMessages` is where it takes the next message. -/
  pulling : Bool
  /-- Whose votes `CountVote` has counted. -/
  voters : Finset DiomedesId
  /-- Who has acknowledged the current request. -/
  acknowledgers : Finset DiomedesId
  /-- The requests that enough backups have acknowledged, newest first. -/
  collected : List UInt32
  /-- The last request that needed no more acknowledgements. -/
  acked : UInt32

/-- What a backup sends; `response` is for a `RunRequest` in `CountVote`. -/
inductive BackupMessage
  | vote (msg : VoteMessage) (response : Option TcpRpcMsg)
  | primaryRequest
  | unknown
  deriving DecidableEq, Repr

/-- What happens at a primary. -/
inductive Event
  /-- A failure on the pipe; the pointers that stand for no server are sent by the spy. -/
  | failure (failed : Option DiomedesId)
  /-- A message; `first` if a round of the event loop begins with it. -/
  | message (first : Bool) (msg : BackupMessage)
  /-- A datagram of a client. -/
  | request (msg : RequestMessage) (response : Option TcpRpcMsg)
  /-- `RunFromRequestCache` runs a request. -/
  | cached (response : Option TcpRpcMsg)
  /-- A `Responder` is done waiting. -/
  | respond (r : Responder)
  deriving DecidableEq, Repr

/-- A condition on events is decided for each kind of event. -/
def Event.decidable {p : Event → Prop} (spy : Decidable (p (.failure none)))
    (failure : ∀ f, Decidable (p (.failure (some f))))
    (vote : ∀ first msg response, Decidable (p (.message first (.vote msg response))))
    (primaryRequest : ∀ first, Decidable (p (.message first .primaryRequest)))
    (unknown : ∀ first, Decidable (p (.message first .unknown)))
    (request : ∀ m response, Decidable (p (.request m response)))
    (cached : ∀ response, Decidable (p (.cached response)))
    (respond : ∀ r, Decidable (p (.respond r))) : ∀ e, Decidable (p e)
  | .failure none => spy
  | .failure (some f) => failure f
  | .message first (.vote msg response) => vote first msg response
  | .message first .primaryRequest => primaryRequest first
  | .message first .unknown => unknown first
  | .request m response => request m response
  | .cached response => cached response
  | .respond r => respond r

namespace Replica

variable {s s' : Replica} {msg : VoteMessage} {response : Option TcpRpcMsg} {el el' : Election}
  {b : Bool} {m : RequestMessage} {preq : PrimaryRequest}

/-! ## What the parts leave alone -/

theorem runRequest_eq (h : s.runRequest preq response = some (b, s')) :
    ∃ R, s' = { s.note (.ran preq) with responseMap := R } ∧
      ∀ id, id ≠ preq.clientId → R.lookup id = s.responseMap.lookup id := by
  obtain ⟨-, -, rfl⟩ | ⟨-, -, -, r, -, rfl⟩ := runRequest_cases h
  · exact ⟨s.responseMap, rfl, fun _ _ => rfl⟩
  · exact ⟨_, rfl, fun _ hne => AList.lookup_insert_ne hne⟩

theorem runRequest_ran (h : s.runRequest preq response = some (b, s')) :
    (b = true ↔
      (s.responseMap.lookup preq.clientId).map TcpRpcMsg.xid ≠ some preq.request.xid) ∧
    (b = true → Fits preq.request.sendBytes) := by
  obtain ⟨hcached, rfl, -⟩ | ⟨hcached, rfl, hfits, -⟩ := runRequest_cases h
  · exact ⟨iff_of_false (by simp) (not_not.mpr hcached), nofun⟩
  · exact ⟨iff_of_true rfl hcached, fun _ => hfits⟩

theorem clearRequestCache_eq (h : s.clearRequestCache = some s') :
    ∃ M D, s' = { s with requestMap := M, deeds := D } := by
  refine Run.keeps (I := fun s' => ∃ M D, s' = { s with requestMap := M, deeds := D })
    (fun s₁ id s₂ h₁ hs₁ => ?_) h ⟨s.requestMap, s.deeds, rfl⟩
  obtain ⟨M, D, rfl⟩ := hs₁
  obtain ⟨request, response, -, -, ⟨-, -, rfl⟩ | ⟨-, rfl⟩⟩ := clearRequest_eq h₁
  · exact ⟨_, _, rfl⟩
  · exact ⟨M, D, rfl⟩

theorem reconcile_eq (h : s.reconcile msg response el = some (el', s')) :
    ∃ L R D, s' = { s with lastPrimaryRequest := L, responseMap := R, deeds := D } := by
  unfold reconcile at h
  dsimp only at h
  split_ifs at h
  · obtain ⟨s₁, hs₁, h⟩ := Option.bind_eq_some_iff.mp h
    obtain ⟨-, rfl⟩ := Prod.mk.inj (Option.some.inj h)
    exact ⟨_, _, _, (broadcastPrimaryRequest_eq hs₁).2⟩
  · obtain ⟨s₁, hs₁, h⟩ := Option.bind_eq_some_iff.mp h
    obtain ⟨⟨b, s₂⟩, hs₂, h⟩ := Option.bind_eq_some_iff.mp h
    obtain ⟨-, rfl⟩ := Prod.mk.inj (Option.some.inj h)
    obtain ⟨R, rfl, -⟩ := runRequest_eq hs₂
    rw [(broadcastPrimaryRequest_eq hs₁).2]
    exact ⟨_, _, _, rfl⟩
  · obtain ⟨-, rfl⟩ := Prod.mk.inj (Option.some.inj h)
    exact ⟨_, _, _, rfl⟩

/-- What `reconcile` does not touch of the count. -/
theorem reconcile_count (h : s.reconcile msg response el = some (el', s')) :
    el'.votesNeeded = el.votesNeeded ∧ el'.votes = el.votes := by
  obtain ⟨-, ⟨-, rfl, -⟩ | ⟨-, rfl, -⟩ | ⟨-, rfl, -⟩⟩ := reconcile_spec h
  · exact ⟨rfl, rfl⟩
  · exact ⟨rfl, rfl⟩
  · exact ⟨rfl, rfl⟩

/-- **A vote is counted**: the new primary waits for the next one, or it has all of them. -/
structure CountedVote (msg : VoteMessage) (s r : Replica) (el : Election) : Prop where
  election : r.election = some el
  votes : el.votes = insert msg.voter.name s.tally.votes
  votesNeeded : el.votesNeeded = s.tally.votesNeeded
  activeServers : r.activeServers = s.activeServers
  currReqId : r.currReqId = s.currReqId
  ends : el.votesNeeded ≠ el.votes.card ∧ r.mode = s.mode ∧ r.lastValidReqId = s.lastValidReqId ∧
      r.requestMap = s.requestMap ∨
    el.votesNeeded = el.votes.card ∧ r.mode = .waitingForRequests ∧
      r.lastValidReqId = if el.minReqId = el.maxReqId then s.currReqId else s.lastValidReqId

theorem countVote_cases {r : Replica} (h : countVote s (msg, response) = some r) :
    s.tally.votesNeeded = 0 ∧ r = { s with election := some s.tally } ∨
      s.tally.votesNeeded ≠ 0 ∧ ∃ el, CountedVote msg s r el := by
  unfold countVote at h
  dsimp only at h
  split_ifs at h with hzero
  · exact Or.inl ⟨hzero, (Option.some.inj h).symm⟩
  · obtain ⟨⟨el, s₁⟩, hs₁, h⟩ := Option.bind_eq_some_iff.mp h
    obtain ⟨hneeded, hvotes⟩ := reconcile_count hs₁
    obtain ⟨L, R, D, rfl⟩ := reconcile_eq hs₁
    refine Or.inr ⟨hzero, el, ?_⟩
    dsimp only at h
    split_ifs at h with hall
    · unfold beKing at h
      obtain ⟨s₂, hs₂, h⟩ := Option.bind_eq_some_iff.mp h
      obtain ⟨M, D', rfl⟩ := clearRequestCache_eq hs₂
      obtain rfl := Option.some.inj h
      split_ifs with hagree
      · exact ⟨rfl, hvotes, hneeded, rfl, rfl, Or.inr ⟨hall, rfl, (if_pos hagree).symm⟩⟩
      · exact ⟨rfl, hvotes, hneeded, rfl, rfl, Or.inr ⟨hall, rfl, (if_neg hagree).symm⟩⟩
    · obtain rfl := Option.some.inj h
      exact ⟨rfl, hvotes, hneeded, rfl, rfl, Or.inl ⟨hall, rfl, rfl, rfl⟩⟩

theorem buildPrimaryRequest_eq (h : s.buildPrimaryRequest m = some (b, s')) :
    s.mode = .waitingForRequests ∧
      (b = false ∧ m.type ≠ clientRequest ∧ s' = s ∨
        b = true ∧ m.type = clientRequest ∧ s' = { s with
          lastPrimaryRequest :=
            { m with
              type := primaryRequest
              preq := { m.preq with reqId := s.currReqId + 1 } } }) := by
  unfold buildPrimaryRequest at h
  split_ifs at h with hmode htype
  · obtain ⟨rfl, rfl⟩ := Prod.mk.inj (Option.some.inj h)
    exact ⟨hmode, Or.inl ⟨rfl, htype, rfl⟩⟩
  · obtain ⟨rfl, rfl⟩ := Prod.mk.inj (Option.some.inj h)
    exact ⟨hmode, Or.inr ⟨rfl, not_not.mp htype, rfl⟩⟩

end Replica

namespace Server

/-- `failures_ - failures_observed_` as an `uint32_t`. -/
def threshold (s : Server) : UInt32 := .ofInt (s.failures - s.failuresObserved.toNat)

/-- What an event loop does first with an event: the only server left waits for requests. -/
def wake (s : Server) : Server :=
  if s.activeServers.length = 1 then { s with mode := .waitingForRequests, pulling := false }
  else { s with pulling := false }

/-- The request that is processed has been acknowledged by as many backups as are needed. -/
def Acknowledged (s : Server) : Prop :=
  s.mode = .processingRequest ∧ s.acknowledgers.Nonempty ∧
    s.acksNeeded.toNat ≤ s.acknowledgers.card

instance (s : Server) : Decidable s.Acknowledged := inferInstanceAs (Decidable (_ ∧ _))

/-- Keep in `collected` and `acked` that the current request is acknowledged. -/
def collect (s : Server) : Server :=
  { s with
    collected := if s.Acknowledged then s.currReqId :: s.collected else s.collected
    acked := if s.Acknowledged ∧ s.acked < s.currReqId then s.currReqId else s.acked }

/-- `ProcessFailure`. -/
def processFailure (failed : Option DiomedesId) (s : Server) : Server :=
  match failed with
  | none => s
  | some failed =>
    let s := { s with
      activeServers := s.activeServers.filter (· ≠ failed)
      failuresObserved := s.failuresObserved + 1 }
    collect { s with acksNeeded := s.threshold }

/-- `AddToAckers`. -/
def addToAckers (msg : VoteMessage) (s : Server) : Option Server :=
  if msg.lastReq.reqId < s.currReqId then some s
  else if s.lastPrimaryRequest.preq.request.xid ≠ msg.lastReq.request.xid then none
  else
    let s := collect { s with
      ackers := insert msg.voter.name s.ackers
      acknowledgers := insert msg.voter s.acknowledgers }
    if s.ackers.card = s.acksNeeded.toNat then
      some { s with
        lastValidReqId := s.lastValidReqId + 1
        ackers := ∅
        mode := .waitingForRequests }
    else some s

/-- The votes of an election agree with the new primary. -/
def Agreed (r : Replica) : Prop := r.tally.minReqId = r.tally.maxReqId

instance (r : Replica) : Decidable (Agreed r) := inferInstanceAs (Decidable (_ = _))

/-- `CountVote`, up to the loop of the `RunFromRequestCache` it ends with. -/
def countVote (msg : VoteMessage) (response : Option TcpRpcMsg) (s : Server) : Option Server := do
  let r ← Replica.countVote s.toReplica (msg, response)
  let elected := r.mode = .waitingForRequests
  some { s with
    toReplica := r
    voters := insert msg.voter s.voters
    settling := elected ∧ r.requestMap.isEmpty = false
    acked := if elected ∧ Agreed r then r.currReqId else s.acked }

/-- `ProcessBackupMessage`. -/
def processBackupMessage (msg : BackupMessage) (s : Server) : Option Server :=
  match msg with
  | .vote msg response =>
    if s.mode = .newPrimary then s.countVote msg response
    else if s.mode = .processingRequest then s.addToAckers msg
    else some s
  | .primaryRequest => none
  | .unknown => some s

/-- What follows a `RunRequest`: wait for the acknowledgements, in a new thread. -/
def await (s : Server) : Server :=
  { s with
    mode := .processingRequest
    ackers := ∅
    acknowledgers := ∅
    acksNeeded := s.threshold
    responders := ⟨s.currReqId, s.lastPrimaryRequest.preq.clientId⟩ :: s.responders }

/-- `SendClientResponse`; the response is a pointer of `response_map_`. -/
def sendClientResponse (clientId : UInt32) (s : Server) : Option Server := do
  let response ← s.responseMap.lookup clientId
  let r ← s.toReplica.sendClientResponse clientId response
  some { s with toReplica := r }

/-- A built request gets its id, is sent to the backups and is run. -/
def execute (response : Option TcpRpcMsg) (r : Replica) : Option (Bool × Replica) := do
  let r ← { r with currReqId := r.currReqId + 1 }.broadcastPrimaryRequest
  r.runRequest r.lastPrimaryRequest.preq response

/-- `HandleRequestAsPrimary`. -/
def handleRequestAsPrimary (msg : RequestMessage) (response : Option TcpRpcMsg) (s : Server) :
    Option Server := do
  let (built, r) ← s.toReplica.buildPrimaryRequest msg
  if built = false then some s
  else
    let (ran, r) ← execute response r
    let s := { s with toReplica := r }
    if ran then some s.await else s.sendClientResponse r.lastPrimaryRequest.preq.clientId

/-- `request_map_.begin()`. -/
def firstCached (s : Replica) : Option UInt32 := (s.requestMap.keys.insertionSort (· ≤ ·)).head?

/-- A round of `RunFromRequestCache` that runs a request. -/
def runFromRequestCache (response : Option TcpRpcMsg) (s : Server) : Option Server := do
  let id ← firstCached s.toReplica
  let request ← s.requestMap.lookup id
  let _source ← s.clientMap.lookup request.preq.clientId
  let (built, r) ← s.toReplica.buildPrimaryRequest request
  if built = false then none
  else
    let (ran, r) ← execute response r
    if ran = false then none
    else
      let s := await { s with toReplica := r }
      let s := { s with requestMap := s.requestMap.erase id }
      -- when nothing is left, the caller takes the next message
      some { s with
        settling := s.requestMap.isEmpty = false
        pulling := s.requestMap.isEmpty }

/-- A `Responder` that has been released sends the response. -/
def respond (r : Responder) (s : Server) : Option Server :=
  if r ∈ s.responders ∧ ¬ (s.lastValidReqId < r.reqId ∧ s.acksNeeded ≠ 0) then
    let s := { s with responders := s.responders.erase r }
    let s := if s.acksNeeded = 0 then
        { s with
          lastValidReqId := r.reqId
          acked := if s.acked < r.reqId then r.reqId else s.acked }
      else s
    s.sendClientResponse r.clientId
  else none

/-- One event.  The primary does not monitor itself. -/
def step (s : Server) : Event → Option Server
  | .failure failed => if failed = some s.self then none else some (s.wake.processFailure failed)
  | .message first msg =>
    if first then do
      let s' ← s.wake.processBackupMessage msg
      some { s' with pulling := s'.settling = false ∨ s.settling }
    else if s.pulling then do
      let s' ← s.processBackupMessage msg
      some { s' with pulling := s'.settling = false ∨ s.settling }
    else none
  | .request msg response =>
    let s := s.wake
    if s.settling ∨ s.mode ≠ .waitingForRequests then some s
    else s.handleRequestAsPrimary msg response
  | .cached response =>
    if s.settling ∧ s.mode = .waitingForRequests then s.runFromRequestCache response else none
  | .respond r => s.respond r

/-! ## What the handlers do -/

variable {s s' : Server} {msg : VoteMessage} {m : RequestMessage} {response : Option TcpRpcMsg}
  {failed : Option DiomedesId} {f : DiomedesId} {r : Responder} {e : Event} {b : Bool}
  {first : Bool} {bm : BackupMessage}

/-- The response of a client is sent. -/
theorem sendClientResponse_eq {clientId : UInt32} (h : s.sendClientResponse clientId = some s') :
    ∃ x, s.responseMap.lookup clientId = some x ∧
      s' = { s with deeds := .responded clientId x.sent :: s.deeds } := by
  obtain ⟨x, hx, h⟩ := Option.bind_eq_some_iff.mp h
  obtain ⟨r, hr, h⟩ := Option.bind_eq_some_iff.mp h
  obtain ⟨-, rfl⟩ := Replica.sendClientResponse_eq hr
  exact ⟨x, hx, (Option.some.inj h).symm⟩

/-- A request is executed: only the response of its client is new. -/
theorem execute_eq {r r' : Replica} (h : execute response r = some (b, r')) :
    (b = true ↔ (r.responseMap.lookup r.lastPrimaryRequest.preq.clientId).map TcpRpcMsg.xid ≠
      some r.lastPrimaryRequest.preq.request.xid) ∧
    (b = true → Fits r.lastPrimaryRequest.preq.request.sendBytes) ∧
    r.lastPrimaryRequest.Sendable ∧ ∃ R, (∀ id, id ≠ r.lastPrimaryRequest.preq.clientId →
        R.lookup id = r.responseMap.lookup id) ∧
      r' = { r with
        currReqId := r.currReqId + 1
        responseMap := R
        deeds :=
          .ran r.lastPrimaryRequest.preq :: .broadcast r.lastPrimaryRequest :: r.deeds } := by
  obtain ⟨r₁, hr₁, h⟩ := Option.bind_eq_some_iff.mp h
  obtain ⟨hsend, rfl⟩ := Replica.broadcastPrimaryRequest_eq hr₁
  obtain ⟨hran, hfits⟩ := Replica.runRequest_ran h
  obtain ⟨R, rfl, hframe⟩ := Replica.runRequest_eq h
  exact ⟨hran, hfits, hsend, R, hframe, rfl⟩

/-- The server after it has executed a request. -/
def executed (L : RequestMessage) (R : Keyed UInt32 TcpRpcMsg) (D : List Deed)
    (s : Server) : Server :=
  { s with
    currReqId := s.currReqId + 1
    lastPrimaryRequest := L
    responseMap := R
    deeds := D }

/-- The request of a client: it is no request, or it is executed, and then it waits for the
acknowledgements unless it has been answered from the cache. -/
theorem handleRequestAsPrimary_cases (h : s.handleRequestAsPrimary m response = some s') :
    s.mode = .waitingForRequests ∧ (m.type ≠ clientRequest ∧ s' = s ∨
      m.type = clientRequest ∧ ∃ L R D,
        ((s.responseMap.lookup m.preq.clientId).map TcpRpcMsg.xid ≠ some m.preq.request.xid ∧
            s' = (s.executed L R D).await ∨
          (s.responseMap.lookup m.preq.clientId).map TcpRpcMsg.xid = some m.preq.request.xid ∧
            s' = s.executed L R D)) := by
  unfold handleRequestAsPrimary at h
  obtain ⟨⟨built, r⟩, hbuild, h⟩ := Option.bind_eq_some_iff.mp h
  obtain ⟨hmode, ⟨rfl, htype, rfl⟩ | ⟨rfl, htype, rfl⟩⟩ := Replica.buildPrimaryRequest_eq hbuild
  · exact ⟨hmode, Or.inl ⟨htype, (Option.some.inj h).symm⟩⟩
  refine ⟨hmode, Or.inr ⟨htype, ?_⟩⟩
  dsimp only at h
  rw [if_neg (by simp)] at h
  obtain ⟨⟨ran, r⟩, hrun, h⟩ := Option.bind_eq_some_iff.mp h
  obtain ⟨hran, -, -, R, -, rfl⟩ := execute_eq hrun
  dsimp only at h hran
  split_ifs at h with hb
  · exact ⟨_, R, _, Or.inl ⟨hran.mp hb, (Option.some.inj h).symm⟩⟩
  · obtain ⟨x, -, rfl⟩ := sendClientResponse_eq h
    exact ⟨_, R, _, Or.inr ⟨not_not.mp fun hne => hb (hran.mpr hne), rfl⟩⟩

/-- **A cached request is run**: the first one, which is a request that can be sent and has not been
answered; it is taken out of the cache. -/
theorem runFromRequestCache_spec (h : s.runFromRequestCache response = some s') :
    ∃ id request R L, firstCached s.toReplica = some id ∧ s.requestMap.lookup id = some request ∧
      request.type = clientRequest ∧ request.Sendable ∧ Fits request.preq.request.sendBytes ∧
      (∀ id', id' ≠ request.preq.clientId → R.lookup id' = s.responseMap.lookup id') ∧
      L.preq.clientId = request.preq.clientId ∧ L.preq.request = request.preq.request ∧
      s' = { (s.executed L R (.ran L.preq :: .broadcast L :: s.deeds)).await with
        requestMap := s.requestMap.erase id
        settling := Keyed.isEmpty (s.requestMap.erase id) = false
        pulling := Keyed.isEmpty (s.requestMap.erase id) } := by
  unfold runFromRequestCache at h
  obtain ⟨id, hid, h⟩ := Option.bind_eq_some_iff.mp h
  obtain ⟨request, hrequest, h⟩ := Option.bind_eq_some_iff.mp h
  obtain ⟨source, -, h⟩ := Option.bind_eq_some_iff.mp h
  obtain ⟨⟨built, r⟩, hbuild, h⟩ := Option.bind_eq_some_iff.mp h
  obtain ⟨-, ⟨rfl, -, rfl⟩ | ⟨rfl, htype, rfl⟩⟩ := Replica.buildPrimaryRequest_eq hbuild
  · cases h
  dsimp only at h
  rw [if_neg (by simp)] at h
  obtain ⟨⟨ran, r⟩, hrun, h⟩ := Option.bind_eq_some_iff.mp h
  obtain ⟨-, hfits, hsend, R, hframe, rfl⟩ := execute_eq hrun
  dsimp only at h
  split_ifs at h with hran
  refine ⟨id, request, R, { request with
    type := primaryRequest
    preq := { request.preq with reqId := s.currReqId + 1 } }, hid, hrequest, htype, hsend,
    hfits (Bool.eq_true_of_not_eq_false hran), hframe, rfl, rfl, (Option.some.inj h).symm⟩

theorem runFromRequestCache_cases (h : s.runFromRequestCache response = some s') :
    ∃ L R D id, s' = { (s.executed L R D).await with
      requestMap := s.requestMap.erase id
      settling := Keyed.isEmpty (s.requestMap.erase id) = false
      pulling := Keyed.isEmpty (s.requestMap.erase id) } := by
  obtain ⟨id, request, R, L, -, -, -, -, -, -, -, -, h⟩ := runFromRequestCache_spec h
  exact ⟨L, R, _, id, h⟩

theorem addToAckers_spec (h : s.addToAckers msg = some s') :
    msg.lastReq.reqId < s.currReqId ∧ s' = s ∨
    ¬ msg.lastReq.reqId < s.currReqId ∧
      ((insert msg.voter.name s.ackers).card ≠ s.acksNeeded.toNat ∧ s' = collect { s with
          ackers := insert msg.voter.name s.ackers
          acknowledgers := insert msg.voter s.acknowledgers } ∨
        (insert msg.voter.name s.ackers).card = s.acksNeeded.toNat ∧ s' =
          { collect { s with acknowledgers := insert msg.voter s.acknowledgers } with
            ackers := ∅
            lastValidReqId := s.lastValidReqId + 1
            mode := .waitingForRequests }) := by
  unfold addToAckers at h
  dsimp only at h
  split_ifs at h with hold hxid hall
  · exact Or.inl ⟨hold, (Option.some.inj h).symm⟩
  · exact Or.inr ⟨hold, Or.inr ⟨hall, (Option.some.inj h).symm⟩⟩
  · exact Or.inr ⟨hold, Or.inl ⟨hall, (Option.some.inj h).symm⟩⟩

theorem addToAckers_cases (h : s.addToAckers msg = some s') :
    msg.lastReq.reqId < s.currReqId ∧ s' = s ∨
    ¬ msg.lastReq.reqId < s.currReqId ∧ ∃ C a,
      ((insert msg.voter.name s.ackers).card ≠ s.acksNeeded.toNat ∧ s' = { s with
          ackers := insert msg.voter.name s.ackers
          acknowledgers := insert msg.voter s.acknowledgers
          collected := C
          acked := a } ∨
        (insert msg.voter.name s.ackers).card = s.acksNeeded.toNat ∧ s' = { s with
          ackers := ∅
          acknowledgers := insert msg.voter s.acknowledgers
          lastValidReqId := s.lastValidReqId + 1
          mode := .waitingForRequests
          collected := C
          acked := a }) := by
  obtain hold | ⟨hnew, ⟨hmore, rfl⟩ | ⟨hall, rfl⟩⟩ := addToAckers_spec h
  · exact Or.inl hold
  · exact Or.inr ⟨hnew, _, _, Or.inl ⟨hmore, rfl⟩⟩
  · exact Or.inr ⟨hnew, _, _, Or.inr ⟨hall, rfl⟩⟩

/-- A `Responder` is released, and stores its id if no acknowledgements are needed any more. -/
theorem respond_cases (h : s.respond r = some s') : r ∈ s.responders ∧ ∃ x,
    s.responseMap.lookup r.clientId = some x ∧
      (s.acksNeeded = 0 ∧ s' = { s with
          responders := s.responders.erase r
          deeds := .responded r.clientId x.sent :: s.deeds
          lastValidReqId := r.reqId
          acked := if s.acked < r.reqId then r.reqId else s.acked } ∨
        s.acksNeeded ≠ 0 ∧ s' = { s with
          responders := s.responders.erase r
          deeds := .responded r.clientId x.sent :: s.deeds }) := by
  unfold respond at h
  split_ifs at h with hr
  dsimp only at h
  by_cases hzero : s.acksNeeded = 0
  · rw [if_pos hzero] at h
    obtain ⟨x, hx, rfl⟩ := sendClientResponse_eq h
    exact ⟨hr.1, x, hx, Or.inl ⟨hzero, rfl⟩⟩
  · rw [if_neg hzero] at h
    obtain ⟨x, hx, rfl⟩ := sendClientResponse_eq h
    exact ⟨hr.1, x, hx, Or.inr ⟨hzero, rfl⟩⟩

theorem countVote_eq (h : s.countVote msg response = some s') :
    ∃ r, Replica.countVote s.toReplica (msg, response) = some r ∧ s' = { s with
      toReplica := r
      voters := insert msg.voter s.voters
      settling := r.mode = .waitingForRequests ∧ r.requestMap.isEmpty = false
      acked := if r.mode = .waitingForRequests ∧ Agreed r then r.currReqId else s.acked } := by
  obtain ⟨r, hr, h⟩ := Option.bind_eq_some_iff.mp h
  exact ⟨r, hr, (Option.some.inj h).symm⟩

/-- A message is ignored, or it is a vote that is counted or an acknowledgement. -/
theorem processBackupMessage_cases (h : s.processBackupMessage bm = some s') :
    s' = s ∧ (∀ msg response, bm = .vote msg response →
        s.mode ≠ .newPrimary ∧ s.mode ≠ .processingRequest) ∨
    ∃ msg response, bm = .vote msg response ∧
      (s.mode = .newPrimary ∧ s.countVote msg response = some s' ∨
        s.mode = .processingRequest ∧ s.addToAckers msg = some s') := by
  cases bm with
  | vote msg response =>
    unfold processBackupMessage at h
    dsimp only at h
    split_ifs at h with hnew hproc
    · exact Or.inr ⟨msg, response, rfl, Or.inl ⟨hnew, h⟩⟩
    · exact Or.inr ⟨msg, response, rfl, Or.inr ⟨hproc, h⟩⟩
    · exact Or.inl ⟨(Option.some.inj h).symm, fun _ _ _ => ⟨hnew, hproc⟩⟩
  | primaryRequest => cases h
  | unknown => exact Or.inl ⟨(Option.some.inj h).symm, fun _ _ heq => by cases heq⟩

/-- A message is handled in the state it finds, which is awake if a round begins with it. -/
theorem step_message (h : s.step (.message first bm) = some s') : ∃ t s₁ p,
    (first = true ∧ t = s.wake ∨ first = false ∧ s.pulling = true ∧ t = s) ∧
      t.processBackupMessage bm = some s₁ ∧ s' = { s₁ with pulling := p } := by
  unfold step at h
  dsimp only at h
  split_ifs at h with hfirst hpull
  · obtain ⟨s₁, hs₁, h⟩ := Option.bind_eq_some_iff.mp h
    exact ⟨s.wake, s₁, _, Or.inl ⟨hfirst, rfl⟩, hs₁, (Option.some.inj h).symm⟩
  · obtain ⟨s₁, hs₁, h⟩ := Option.bind_eq_some_iff.mp h
    exact ⟨s, s₁, _, Or.inr ⟨Bool.eq_false_iff.mpr hfirst, hpull, rfl⟩, hs₁,
      (Option.some.inj h).symm⟩

theorem step_failure (h : s.step (.failure failed) = some s') :
    failed ≠ some s.self ∧ s' = s.wake.processFailure failed := by
  unfold step at h
  dsimp only at h
  split_ifs at h with hself
  exact ⟨hself, (Option.some.inj h).symm⟩

theorem step_request (h : s.step (.request m response) = some s') :
    (s.wake.settling = true ∨ s.wake.mode ≠ .waitingForRequests) ∧ s' = s.wake ∨
    s.wake.settling = false ∧ s.wake.handleRequestAsPrimary m response = some s' := by
  unfold step at h
  dsimp only at h
  split_ifs at h with hidle
  · exact Or.inl ⟨hidle, (Option.some.inj h).symm⟩
  · exact Or.inr ⟨Bool.eq_false_iff.mpr fun hs => hidle (Or.inl hs), h⟩

theorem step_cached (h : s.step (.cached response) = some s') :
    s.settling = true ∧ s.mode = .waitingForRequests ∧
      s.runFromRequestCache response = some s' := by
  unfold step at h
  dsimp only at h
  split_ifs at h with hset
  exact ⟨hset.1, hset.2, h⟩

@[simp] theorem wake_settling (s : Server) : s.wake.settling = s.settling := by
  unfold wake
  split_ifs
  · rfl
  · rfl

/-- Only the mode changes when the last server wakes. -/
theorem wake_eq (s : Server) :
    s.activeServers.length = 1 ∧ s.wake = { s with mode := .waitingForRequests, pulling := false } ∨
      s.activeServers.length ≠ 1 ∧ s.wake = { s with pulling := false } := by
  unfold wake
  split_ifs with hone
  · exact Or.inl ⟨hone, rfl⟩
  · exact Or.inr ⟨hone, rfl⟩

/-- Nothing but the mode depends on who is left. -/
theorem wake_frame (s : Server) : s.wake = { s with mode := s.wake.mode, pulling := false } := by
  obtain ⟨-, heq⟩ | ⟨-, heq⟩ := s.wake_eq
  · rw [heq]
  · rw [heq]

end Server

end Falcon.Diomedes
