import Falcon.Diomedes.Handover
import Falcon.Diomedes.Instances
import Falcon.Diomedes.Settling

/-!
# Diomedes/Backup — the position of a backup

`Run` elects a primary, and as long as that is another server, `RunAsBackup` handles the datagrams
of the primary, those of clients, and failures, and votes from time to time.  It goes on until the
primary has failed or nacked; then the next one is elected.  A backup takes a `PRIMARY_REQUEST` if
its id is the next one, and every vote checks the last one it has taken against its position.

An event can come after the primary has failed, as the last ones of a round do.  A vote for a
request that is too large for it is written past the end of a buffer; nothing is said of the program
after that.

* `positioned` — whatever it receives, a backup has run the requests `1, …, curr_req_id_`, each
  once, the last one it has taken is the last of these, and so no check of a vote on it fails.
* `elected` — a backup that becomes the primary has run every request up to its position.
-/

namespace Falcon.Diomedes

/-- `JOIN`. -/
def joinType : UInt8 := 'J'.toUInt8

/-- `NACK`. -/
def nackType : UInt8 := 'N'.toUInt8

/-- `PRIMARY_JOIN`. -/
def primaryJoinType : UInt8 := 'j'.toUInt8

/-- Where `broadcast` is in a join. -/
def broadcastOffset : ℕ := kDiomedesHeaderSize + 2 * 96

/-- What a backup sends, and where to. -/
inductive Sent
  | vote (msg : VoteMessage) (addr : UInt32)
  | join (addr : UInt32)
  deriving DecidableEq, Repr

/-- What ends the program: the checks that can fail, and a write past the end of a buffer. -/
inductive Abort
  /-- The mode is not `BACKUP`. -/
  | mode
  /-- The last request does not fit into `vote_buffer`. -/
  | overflow
  /-- `last_preq_id == curr_req_id_` in `SendVote`. -/
  | voteReqId
  /-- The check of the type in `SendVote`. -/
  | voteType
  /-- A check of `RunRequest`. -/
  | runRequest
  /-- `PRIMARY_JOIN` is unimplemented. -/
  | primaryJoin
  /-- `recvfrom` has failed, or there was an empty datagram. -/
  | recv
  /-- Two servers have the same names. -/
  | sameNames
  /-- There is no server that has not nacked. -/
  | noPrimary
  | getaddrinfo
  deriving DecidableEq, Repr

/-- A replica with what it needs as a backup; `primary_` has the names of `primary_instance_`. -/
structure Backup extends Server where
  primaryInstance : Option DiomedesId
  primaryAddr : UInt32
  primaryActive : Bool
  bootstrapPrimaryActive : Bool
  nacked : Finset DiomedesId
  /-- Newest first; no function of the program reads it. -/
  sent : List Sent

/-- What is not in the program: where `rpc_msg` has `rm_xid`, the names of an instance, and the
addresses of hosts. -/
structure Host where
  /-- `rm_xid`, from the first bytes of a `tcp_rpc_msg`. -/
  rmXid : Bytes → UInt64
  app : DiomedesId → Application
  getaddrinfo : DiomedesId → Option UInt32

/-- Where `rm_xid` ends at the latest, in a `tcp_rpc_msg`. -/
def sizeofRmXid : ℕ := 16

/-- The request at the beginning of `b`, as far as `RunRequest` sends it. -/
def Host.rpc (host : Host) (b : Bytes) : TcpRpcMsg :=
  let m : TcpRpcMsg := ⟨host.rmXid (b.take sizeofRmXid), b⟩
  { m with bytes := b.take m.sendBytes }

/-- The message in a buffer, as the last request. -/
def Host.requestOf (host : Host) (buf : Buffer) : RequestMessage where
  type := buf.msg.type
  length := .ofNat (ntohs buf.msg.length)
  preq := ⟨.ofNat (ntohl buf.msg.reqId), .ofNat buf.msg.clientId, host.rpc buf.msg.request⟩

/-- The ids of the requests that have been handed to `RunRequest`, in this order. -/
def Replica.ranIds (s : Replica) : List UInt32 :=
  (s.deeds.filterMap fun | .ran preq => some preq.reqId | _ => none).reverse

/-- A datagram of a client is stored. -/
theorem Server.handleRequestAsBackup_eq (s : Server) (msg : RequestMessage) (source : Address) :
    ∃ C, s.handleRequestAsBackup msg source = { s with
      requestMap := s.requestMap.insert msg.preq.clientId msg
      clientMap := C } := by
  obtain ⟨C, heq, -⟩ := updateClientMap_eq
    { s with requestMap := s.requestMap.insert msg.preq.clientId msg } msg.preq.clientId source
  exact ⟨C, heq⟩

namespace Backup

/-- What happens at a backup. -/
inductive Event
  /-- No primary is active. -/
  | elect
  /-- A failure on the pipe; the pointers that stand for no server are sent by the spy. -/
  | failure (failed : Option DiomedesId)
  /-- A datagram of a server; `response` is for a `RunRequest`. -/
  | datagram (source : UInt32) (bytes : Bytes) (response : Option TcpRpcMsg)
  /-- There is no other datagram; `again` is what `errno` says of it. -/
  | drained (again : Bool)
  /-- A datagram of a client. -/
  | request (msg : RequestMessage) (source : Address)
  /-- The last vote is a while ago. -/
  | poll
  deriving DecidableEq, Repr

variable (host : Host)

/-- The replica at the end of `JoinDiomedesGroup`; `s` has the servers it has found. -/
def joinDiomedesGroup (s : Server) : Backup :=
  { s with
    mode := .backup
    currReqId := 0
    lastValidReqId := 0
    lastPrimaryRequest := host.requestOf (Buffer.receive [])
    requestMap := ∅
    responseMap := ∅
    clientMap := ∅
    election := none
    deeds := []
    primaryInstance := none
    primaryAddr := 0
    primaryActive := false
    bootstrapPrimaryActive := true
    nacked := ∅
    sent := [] }

/-- `SendVote`. -/
def sendVote (s : Backup) : Except Abort Backup :=
  let last := s.lastPrimaryRequest
  if voteRoom < last.length.toNat then .error .overflow
  else if last.preq.reqId ≠ s.currReqId then .error .voteReqId
  else if last.type ≠ primaryRequest ∧ last.type ≠ 0 then .error .voteType
  else
    let msg := ⟨sizeofDiomedesId + last.length, s.self, last.preq⟩
    .ok { s with sent := .vote msg s.primaryAddr :: s.sent }

/-- `RunRequest`, whose result is not used. -/
def runRequest (preq : PrimaryRequest) (response : Option TcpRpcMsg) (s : Backup) :
    Except Abort Backup :=
  match s.toReplica.runRequest preq response with
  | none => .error .runRequest
  | some (_, r) => .ok { s with toReplica := r }

/-- `ProcessPrimaryMessage` for a `PRIMARY_REQUEST`. -/
def processPrimaryRequest (msg : RequestMessage) (response : Option TcpRpcMsg) (s : Backup) :
    Except Abort Backup :=
  let s := { s with nacked := ∅ }
  if msg.preq.reqId ≤ s.currReqId then s.sendVote
  else if msg.preq.reqId - 1 = s.currReqId then do
    let s ← runRequest msg.preq response { s with lastPrimaryRequest := msg }
    sendVote { s with lastValidReqId := s.currReqId, currReqId := s.currReqId + 1 }
  else .ok s

/-- `ProcessPrimaryMessage`. -/
def processPrimaryMessage (buf : Buffer) (response : Option TcpRpcMsg) (s : Backup) :
    Except Abort Backup :=
  let type := buf.msg.type
  if s.mode ≠ .backup then .error .mode
  else if type = primaryRequest then s.processPrimaryRequest (host.requestOf buf) response
  else if type = joinType then
    if s.bootstrapPrimaryActive ∧ buf.1.getD broadcastOffset 0 ≠ 0 then
      .ok { s with sent := .join s.primaryAddr :: s.sent }
    else .ok s
  else if type = nackType then
    if s.bootstrapPrimaryActive then .ok s
    else
      .ok { s with
        primaryActive := false
        nacked := s.primaryInstance.elim s.nacked fun primary => insert primary s.nacked }
  else if type = primaryJoinType then .error .primaryJoin
  else .ok s

/-- A round of the loop of `ProcessPrimaryMessages`: anything that is not from the primary, or is
invalid, is ignored. -/
def processPrimaryMessages (source : UInt32) (bytes : Bytes) (response : Option TcpRpcMsg)
    (s : Backup) : Except Abort Backup :=
  let buf := Buffer.receive bytes
  if source = s.primaryAddr ∧
      ntohs buf.msg.length + kDiomedesHeaderSize = min bytes.length kMaxDiomedesMessage then
    s.processPrimaryMessage host buf response
  else .ok s

/-- `ProcessFailure`. -/
def processFailure (failed : Option DiomedesId) (s : Backup) : Backup :=
  let lost := failed.isSome ∧ failed = s.primaryInstance
  { s with
    toServer := s.toServer.processFailure failed
    primaryActive := s.primaryActive ∧ ¬ lost
    bootstrapPrimaryActive := s.bootstrapPrimaryActive ∧ ¬ lost }

/-- `ElectPrimary`. -/
def electPrimary (s : Backup) : Except Abort Backup :=
  match selectNewPrimary host.app s.nacked s.activeServers with
  | none => .error .sameNames
  | some none => .error .noPrimary
  | some (some primary) =>
    match host.getaddrinfo primary with
    | none => .error .getaddrinfo
    | some addr =>
      .ok { s with
        primaryInstance := some primary
        primaryAddr := addr
        primaryActive := true }

/-- A round of the loop of `Run`, up to the loop of `RunAsBackup` or of `RunAsPrimary`. -/
def run (s : Backup) : Except Abort Backup := do
  let s ← s.electPrimary host
  if s.primaryInstance.map host.app = some (host.app s.self) then
    .ok { s with mode := .newPrimary }
  else if s.mode ≠ .backup then .error .mode
  else s.sendVote

/-- What is done with an event. -/
def handle (s : Backup) : Event → Except Abort Backup
  | .elect => s.run host
  | .failure failed => .ok (s.processFailure failed)
  | .datagram source bytes response => s.processPrimaryMessages host source bytes response
  | .drained again => if again then .ok s else .error .recv
  | .request msg source => .ok { s with toServer := s.toServer.handleRequestAsBackup msg source }
  | .poll => s.sendVote

/-- `Run` elects if no primary is active; the other events are those of the rounds of
`RunAsBackup`. -/
def Enabled (s : Backup) (e : Event) : Prop :=
  s.mode = .backup ∧
    if e = .elect then s.primaryActive = false else s.primaryInstance.isSome

instance (s : Backup) (e : Event) : Decidable (s.Enabled e) :=
  inferInstanceAs (Decidable (_ ∧ _))

/-- One event. -/
def step (s : Backup) (e : Event) : Option Backup :=
  if s.Enabled e then (s.handle host e).toOption else none

/-- **The position of a backup.** -/
structure Positioned (s : Backup) : Prop where
  reqId : s.lastPrimaryRequest.preq.reqId = s.currReqId
  type : s.lastPrimaryRequest.type = 0 ∨ s.lastPrimaryRequest.type = primaryRequest
  ran : s.ranIds.map UInt32.toNat = List.range' 1 s.currReqId.toNat

/-- Handling the event does not end at a check of `SendVote` on the last request. -/
def Votes (s : Backup) (e : Event) : Prop :=
  s.handle host e ≠ .error .voteReqId ∧ s.handle host e ≠ .error .voteType

/-- The invariant of a backup: it has a position, and has counted no vote. -/
structure Following (s : Backup) : Prop extends Positioned s where
  election : s.election = none

/-- What a handler may do: it keeps the invariant, or it does not end at a check of a vote. -/
def Sound : Except Abort Backup → Prop
  | .ok s => s.Following
  | .error a => a ≠ .voteReqId ∧ a ≠ .voteType

variable {host} {s s' : Backup} {msg : RequestMessage} {response : Option TcpRpcMsg}
  {failed : Option DiomedesId} {buf : Buffer} {source : UInt32} {bytes : Bytes} {e : Event}

theorem Sound.bind {r : Except Abort Backup} {f : Backup → Except Abort Backup} (h : Sound r)
    (hf : ∀ s, s.Following → Sound (f s)) : Sound (r >>= f) := by
  cases r with
  | ok s => exact hf s h
  | error a => exact h

/-! ## Requests that are run -/

theorem ranIds_cons {s s' : Replica} {preq : PrimaryRequest}
    (h : s'.deeds = .ran preq :: s.deeds) : s'.ranIds = s.ranIds ++ [preq.reqId] := by
  rw [Replica.ranIds, h]
  exact List.reverse_cons

theorem lastRun_eq (s : Replica) : s.lastRun = s.ranIds.getLast?.getD 0 := by
  rw [Replica.ranIds, List.getLast?_reverse]
  rfl

/-- The next id, by the comparisons of unsigned integers. -/
theorem toNat_next {id curr : UInt32} (hnew : ¬ id ≤ curr) (hnext : id - 1 = curr) :
    id = curr + 1 ∧ (curr + 1).toNat = curr.toNat + 1 := by
  have hid : id = curr + 1 := by rw [← hnext, UInt32.sub_add_cancel]
  refine ⟨hid, ?_⟩
  rw [UInt32.not_le, UInt32.lt_iff_toNat_lt] at hnew
  have hlt := id.toNat_lt
  rw [UInt32.toNat_add, UInt32.toNat_one, Nat.mod_eq_of_lt (by omega)]

/-! ## What keeps the position -/

/-- What the position is about. -/
theorem Following.frame (h : s.Following)
    (hlast : s'.lastPrimaryRequest = s.lastPrimaryRequest) (hcurr : s'.currReqId = s.currReqId)
    (hdeeds : s'.deeds = s.deeds) (hel : s'.election = s.election) : s'.Following where
  reqId := by rw [hlast, hcurr, h.reqId]
  type := hlast ▸ h.type
  ran := by rw [Replica.ranIds, hdeeds, ← Replica.ranIds, hcurr, h.ran]
  election := hel.trans h.election

/-- **No check of a vote on the last request fails.** -/
theorem Following.sendVote (h : s.Following) : Sound s.sendVote := by
  unfold Backup.sendVote
  dsimp only
  split_ifs with hroom hreqId htype
  · exact ⟨by decide, by decide⟩
  · exact absurd h.reqId hreqId
  · exact absurd h.type fun hor => hor.elim htype.2 htype.1
  · exact h.frame rfl rfl rfl rfl

/-- **The next request is taken**, and then it is the last one. -/
theorem Following.take (h : s.Following) (htype : msg.type = primaryRequest)
    (hnew : ¬ msg.preq.reqId ≤ s.currReqId) (hnext : msg.preq.reqId - 1 = s.currReqId)
    (hdeeds : s'.deeds = .ran msg.preq :: s.deeds) (hlast : s'.lastPrimaryRequest = msg)
    (hcurr : s'.currReqId = s.currReqId + 1) (hel : s'.election = s.election) :
    s'.Following := by
  obtain ⟨hid, hsucc⟩ := toNat_next hnew hnext
  refine ⟨⟨?_, Or.inr ?_, ?_⟩, hel.trans h.election⟩
  · rw [hlast, hcurr, hid]
  · rw [hlast, htype]
  · rw [ranIds_cons hdeeds, List.map_append, h.ran, hcurr, hsucc, List.range'_concat, hid,
      List.map_singleton, hsucc, Nat.one_mul, Nat.add_comm]

theorem Following.processPrimaryRequest (h : s.Following) (htype : msg.type = primaryRequest) :
    Sound (s.processPrimaryRequest msg response) := by
  unfold Backup.processPrimaryRequest
  dsimp only
  split_ifs with hold hnext
  · exact Following.sendVote (h.frame rfl rfl rfl rfl)
  · unfold Backup.runRequest
    cases hrun : { s with lastPrimaryRequest := msg }.toReplica.runRequest msg.preq response with
    | none => exact ⟨by decide, by decide⟩
    | some x =>
      obtain ⟨b, r⟩ := x
      obtain ⟨R, rfl, -⟩ := Replica.runRequest_eq hrun
      exact Following.sendVote (h.take htype hold hnext rfl rfl rfl rfl)
  · exact h.frame rfl rfl rfl rfl

theorem Following.processPrimaryMessage (h : s.Following) :
    Sound (s.processPrimaryMessage host buf response) := by
  unfold Backup.processPrimaryMessage
  dsimp only
  split_ifs with hmode htype
  · exact ⟨by decide, by decide⟩
  · exact h.processPrimaryRequest htype
  -- a `JOIN`
  · exact h.frame rfl rfl rfl rfl
  · exact h
  -- a `NACK`
  · exact h
  · exact h.frame rfl rfl rfl rfl
  · exact ⟨by decide, by decide⟩
  · exact h

theorem Following.processPrimaryMessages (h : s.Following) :
    Sound (s.processPrimaryMessages host source bytes response) := by
  unfold Backup.processPrimaryMessages
  dsimp only
  split_ifs
  · exact h.processPrimaryMessage
  · exact h

theorem Following.processFailure (h : s.Following) : (s.processFailure failed).Following := by
  cases failed with
  | none => exact h.frame rfl rfl rfl rfl
  | some failed => exact h.frame rfl rfl rfl rfl

theorem Following.electPrimary (h : s.Following) : Sound (s.electPrimary host) := by
  unfold Backup.electPrimary
  split
  · exact ⟨by decide, by decide⟩
  · exact ⟨by decide, by decide⟩
  · split
    · exact ⟨by decide, by decide⟩
    · exact h.frame rfl rfl rfl rfl

theorem Following.run (h : s.Following) : Sound (s.run host) := by
  refine h.electPrimary.bind fun s h => ?_
  split_ifs
  · exact h.frame rfl rfl rfl rfl
  · exact ⟨by decide, by decide⟩
  · exact h.sendVote

/-- **Whatever comes**, the position is kept. -/
theorem Following.handle (h : s.Following) (e : Event) : Sound (s.handle host e) := by
  cases e with
  | elect => exact h.run
  | failure failed => exact h.processFailure
  | datagram source bytes response => exact h.processPrimaryMessages
  | drained again =>
    cases again with
    | true => exact h
    | false => exact ⟨by decide, by decide⟩
  | request msg source =>
    obtain ⟨C, heq⟩ := s.handleRequestAsBackup_eq msg source
    change Following { s with toServer := s.handleRequestAsBackup msg source }
    rw [heq]
    exact h.frame rfl rfl rfl rfl
  | poll => exact h.sendVote

theorem joinDiomedesGroup_following (host : Host) (s : Server) :
    (joinDiomedesGroup host s).Following where
  reqId := by
    change UInt32.ofNat (ntohl (Buffer.receive []).msg.reqId) = 0
    decide
  type := Or.inl rfl
  ran := rfl
  election := rfl

/-! ## What a backup takes -/

theorem sendVote_eq (h : s.sendVote = .ok s') : ∃ v, s' = { s with sent := v :: s.sent } := by
  unfold sendVote at h
  dsimp only at h
  split_ifs at h
  exact ⟨_, (Except.ok.inj h).symm⟩

theorem runRequest_eq {preq : PrimaryRequest} (h : s.runRequest preq response = .ok s') :
    ∃ R, s' = { s with responseMap := R, deeds := .ran preq :: s.deeds } := by
  unfold runRequest at h
  cases hrun : s.toReplica.runRequest preq response with
  | none =>
    rw [hrun] at h
    cases h
  | some x =>
    obtain ⟨b, r⟩ := x
    obtain ⟨R, rfl, -⟩ := Replica.runRequest_eq hrun
    rw [hrun] at h
    exact ⟨R, (Except.ok.inj h).symm⟩

theorem exists_of_bind {r : Except Abort Backup} {f : Backup → Except Abort Backup}
    (h : (r >>= f) = .ok s') : ∃ s, r = .ok s ∧ f s = .ok s' := by
  cases r with
  | ok s => exact ⟨s, rfl, h⟩
  | error a => cases h

/-- A request is taken if its id is the next one; nothing else changes the last request. -/
theorem processPrimaryRequest_eq (h : s.processPrimaryRequest msg response = .ok s') :
    s'.lastPrimaryRequest =
      if s.currReqId < msg.preq.reqId ∧ msg.preq.reqId - 1 = s.currReqId then msg
      else s.lastPrimaryRequest := by
  unfold processPrimaryRequest at h
  dsimp only at h
  split_ifs at h with hold hnext
  · obtain ⟨v, rfl⟩ := sendVote_eq h
    rw [if_neg fun hand => UInt32.not_lt.mpr hold hand.1]
  · obtain ⟨s₁, hrun, h⟩ := exists_of_bind h
    obtain ⟨R, rfl⟩ := runRequest_eq hrun
    obtain ⟨v, rfl⟩ := sendVote_eq h
    rw [if_pos ⟨UInt32.not_le.mp hold, hnext⟩]
  · rw [if_neg fun hand => hnext hand.2, ← Except.ok.inj h]

/-- The ids are compared as they are in `takeRequest`. -/
theorem next_iff {n : ℕ} (hn : n < 2 ^ 32) (curr : UInt32) :
    curr < .ofNat n ∧ .ofNat n - 1 = curr ↔ curr.toNat < n ∧ n - 1 = curr.toNat := by
  have htoNat : (UInt32.ofNat n).toNat = n := UInt32.toNat_ofNat_of_lt' hn
  rw [UInt32.lt_iff_toNat_lt, htoNat]
  refine and_congr_right fun hlt => ?_
  have hle : (1 : UInt32) ≤ .ofNat n := by
    rw [UInt32.le_iff_toNat_le, htoNat, UInt32.toNat_one]
    omega
  rw [← UInt32.toNat_inj, UInt32.toNat_sub_of_le _ _ hle, htoNat, UInt32.toNat_one]

theorem processPrimaryMessage_cases (h : s.processPrimaryMessage host buf response = .ok s') :
    buf.msg.type = primaryRequest ∧
        s.processPrimaryRequest (host.requestOf buf) response = .ok s' ∨
      buf.msg.type ≠ primaryRequest ∧ s'.lastPrimaryRequest = s.lastPrimaryRequest := by
  unfold processPrimaryMessage at h
  dsimp only at h
  split_ifs at h with hmode htype
  · exact Or.inl ⟨htype, h⟩
  -- what is no request: a `JOIN`, a `NACK`, or something else
  all_goals exact Or.inr ⟨htype, by rw [← Except.ok.inj h]⟩

/-- **What a backup takes** of the primary is what `takeRequest` takes. -/
theorem processPrimaryMessages_takes
    (h : s.processPrimaryMessages host s.primaryAddr bytes response = .ok s') :
    s'.lastPrimaryRequest =
      ((takeRequest s.currReqId.toNat bytes).map host.requestOf).getD s.lastPrimaryRequest := by
  have hnext := next_iff (Bytes.swap_lt 4 (Buffer.receive bytes).msg.reqId) s.currReqId
  unfold processPrimaryMessages at h
  unfold takeRequest
  dsimp only at h ⊢
  split_ifs at h with hvalid
  · obtain ⟨htype, h⟩ | ⟨htype, h⟩ := processPrimaryMessage_cases h
    · rw [processPrimaryRequest_eq h]
      by_cases hid : s.currReqId < (host.requestOf (Buffer.receive bytes)).preq.reqId ∧
          (host.requestOf (Buffer.receive bytes)).preq.reqId - 1 = s.currReqId
      · rw [if_pos hid, if_pos ⟨hvalid.2, htype, hnext.mp hid⟩]
        rfl
      · rw [if_neg hid, if_neg fun hall => hid (hnext.mpr hall.2.2)]
        rfl
    · rw [if_neg fun hall => htype hall.2.1, h]
      rfl
  · rw [if_neg fun hall => hvalid ⟨rfl, hall.1⟩, ← Except.ok.inj h]
    rfl

/-! ## Runs -/

/-- What a step is. -/
theorem step_eq (h : s.step host e = some s') : s.Enabled e ∧ s.handle host e = .ok s' := by
  unfold step at h
  split_ifs at h with hen
  cases hr : s.handle host e with
  | ok s₁ =>
    rw [hr] at h
    exact ⟨hen, congrArg Except.ok (Option.some.inj h)⟩
  | error a =>
    rw [hr] at h
    cases h

theorem Following.step (h : s.Following) (hs : s.step host e = some s') : s'.Following := by
  have hsound : Sound (s.handle host e) := h.handle e
  rwa [(step_eq hs).2] at hsound

theorem Following.votes (h : s.Following) (e : Event) : Votes host s e := by
  have hsound : Sound (s.handle host e) := h.handle e
  refine ⟨fun hr => ?_, fun hr => ?_⟩
  · rw [hr] at hsound
    exact hsound.1 rfl
  · rw [hr] at hsound
    exact hsound.2 rfl

theorem following_run {s : Server} {es : List Event} {s' : Backup}
    (h : es.foldlM (Backup.step host) (joinDiomedesGroup host s) = some s') : s'.Following :=
  Run.keeps (fun _ _ _ hs hf => hf.step hs) h (joinDiomedesGroup_following host s)

/-- The last request it has run is the one at its position. -/
theorem Positioned.lastRun (h : s.Positioned) : s.lastRun = s.currReqId := by
  have hlast : s.ranIds.getLast?.map UInt32.toNat =
      (List.range' 1 s.currReqId.toNat).getLast? := by rw [← h.ran, List.getLast?_map]
  rw [List.getLast?_range'] at hlast
  rw [lastRun_eq, ← UInt32.toNat_inj]
  cases hrun : s.ranIds.getLast? with
  | none =>
    have hzero : s.currReqId.toNat = 0 := by simpa [hrun] using hlast
    rw [hzero]
    rfl
  | some id =>
    rw [hrun, Option.map_some] at hlast
    split_ifs at hlast with hzero
    have hid := Option.some.inj hlast
    rw [Option.getD_some]
    omega

/-- **A backup that becomes the primary** has run every request up to its position. -/
theorem elected {s : Server} {es : List Event} {s' : Backup}
    (h : es.foldlM (Backup.step host) (joinDiomedesGroup host s) = some s')
    (hmode : s'.mode = .newPrimary) : s'.toReplica.Elected := by
  have hf := following_run h
  exact ⟨hmode, hf.lastRun, hf.election⟩

/-- **A backup and its position.**  In every run after `JoinDiomedesGroup`, whatever datagrams come
and however often the primary changes, the last request of the backup is the one at its position,
and it has run the requests up to it in order, each once.  No check of `SendVote` on them fails. -/
theorem positioned (host : Host) (s : Server) (es : List Event) :
    Run.Always (step host) Positioned (joinDiomedesGroup host s) es ∧
      Run.Tried (step host) (Votes host) (joinDiomedesGroup host s) es := by
  refine ⟨Run.always_iff_run.mpr fun pre _ s' hs' => ?_,
    Run.tried_iff_run.mpr fun pre e _ s' hs' => ?_⟩
  · exact (following_run hs').toPositioned
  · exact (following_run hs').votes e

/-- The backup on `b`; `a` is elected first, and then `c`. -/
def servers : Host where
  rmXid b := .ofNat (Bytes.leNat ((b.drop 4).take 4))
  app id := names (if id.domain = "a" then 2 else if id.domain = "c" then 1 else 0)
  getaddrinfo id := some (if id.domain = "a" then 1 else if id.domain = "c" then 3 else 2)

/-- A record of twelve bytes. -/
def rpcOf (xid : UInt8) : TcpRpcMsg :=
  ⟨.ofNat xid.toNat, [128, 0, 0, 12, xid, 0, 0, 0, 0, 0, 0, 0, 0, 0, 0, 0]⟩

/-- A datagram with a request of client 7. -/
def requestFrom (addr : UInt32) (id xid : UInt8) : Event :=
  .datagram addr ([primaryRequest, 0, 0, 24, 0, 0, 0, id, 7, 0, 0, 0] ++ (rpcOf xid).bytes)
    (some (rpcOf xid))

/-- The second primary sends the first request again, and then the second one. -/
example : ([.elect, requestFrom 1 1 100, requestFrom 1 3 102, .failure (some (Server.serverOn "a")),
    .elect, requestFrom 3 1 100, requestFrom 3 2 101].foldlM (step servers)
      (joinDiomedesGroup servers Server.joined)).map (fun s => (s.ranIds, s.sent.length)) =
    some ([1, 2], 5) := by decide

end Backup

end Falcon.Diomedes
