import Falcon.Diomedes.Relay
import Falcon.Diomedes.State
import Falcon.Machinery.Run
import Mathlib.Data.List.Sort

/-!
# Diomedes/Votes — a new primary counts votes

A replica that has become the primary waits for a vote of every other replica.  A vote carries the
last request of the voter: if the voter is behind, the new primary broadcasts its own last request
again; if the voter is ahead, it takes over the request of the voter, broadcasts and runs it.
`CountVote` keeps the smallest and the largest id it has seen, but it never sets `curr_req_id_`.

* `numbered_iff` — when the new primary starts to wait for requests, it numbers them after
  everything that has been executed exactly if no voter was ahead of it (and its next id does not
  wrap around).
-/

namespace Falcon.Diomedes

open Bytes

namespace TcpRpcMsg

/-- `size`, as it is in memory. -/
def size (m : TcpRpcMsg) : ℕ := leNat (m.bytes.take 4)

/-- How much `RunRequest` sends to the state machine: the record mark, and the length in it. -/
def sendBytes (m : TcpRpcMsg) : ℕ := 4 + ntohl m.size % 2 ^ 24

/-- How much `SendClientResponse` copies: it takes the length without `ntohl`. -/
def msgSize (m : TcpRpcMsg) : ℕ := m.size % 2 ^ 24

/-- What `SendClientResponse` copies of a response that has been received into its buffer. -/
def sent (m : TcpRpcMsg) : Bytes := (receive m.bytes).take m.msgSize

/-- `n` bytes of a request or a response are in a message. -/
def Fits (n : ℕ) : Prop := requestOffset + n ≤ kMaxDiomedesMessage

instance (n : ℕ) : Decidable (Fits n) := inferInstanceAs (Decidable (_ ≤ _))

end TcpRpcMsg

open TcpRpcMsg (Fits)

/-- What is sent of a request is in its buffer. -/
def RequestMessage.Sendable (m : RequestMessage) : Prop :=
  m.length.toNat + kDiomedesHeaderSize ≤ kMaxDiomedesMessage

instance (m : RequestMessage) : Decidable m.Sendable := inferInstanceAs (Decidable (_ ≤ _))

namespace Replica

/-- Record something. -/
def note (d : Deed) (s : Replica) : Replica := { s with deeds := d :: s.deeds }

/-- `BroadcastPrimaryRequest`. -/
def broadcastPrimaryRequest (s : Replica) : Option Replica :=
  if s.lastPrimaryRequest.type = primaryRequest ∧ s.lastPrimaryRequest.Sendable then
    some (s.note (.broadcast s.lastPrimaryRequest))
  else none

/-- `BuildPrimaryRequest`; the flag is its result. -/
def buildPrimaryRequest (msg : RequestMessage) (s : Replica) : Option (Bool × Replica) :=
  if s.mode = .waitingForRequests then
    if msg.type ≠ clientRequest then some (false, s)
    else some (true, { s with
      lastPrimaryRequest :=
        { msg with type := primaryRequest, preq := { msg.preq with reqId := s.currReqId + 1 } } })
  else none

/-- `RunRequest` for a request and its client; `response` is what `recv` gets from the state
machine. -/
def runRequest (preq : PrimaryRequest) (response : Option TcpRpcMsg) (s : Replica) :
    Option (Bool × Replica) :=
  let s := s.note (.ran preq)
  if (s.responseMap.lookup preq.clientId).map TcpRpcMsg.xid = some preq.request.xid then
    some (false, s)
  else if Fits preq.request.sendBytes then do
    let response ← response
    some (true, { s with responseMap := s.responseMap.insert preq.clientId response })
  else none

/-- `SendClientResponse` for a pointer of `response_map_`. -/
def sendClientResponse (clientId : UInt32) (response : TcpRpcMsg) (s : Replica) : Option Replica :=
  if Fits response.msgSize then some (s.note (.responded clientId response.sent)) else none

/-- One round of the loop of `ClearRequestCache`; `operator[]` of `response_map_` enters a null
pointer for a client without a response, and the comparison reads it. -/
def clearRequest (s : Replica) (id : UInt32) : Option Replica := do
  let request ← s.requestMap.lookup id
  let response ← s.responseMap.lookup id
  if request.preq.request.xid = response.xid then
    sendClientResponse id response { s with requestMap := s.requestMap.erase id }
  else some s

/-- `ClearRequestCache`, in the order of the map. -/
def clearRequestCache (s : Replica) : Option Replica :=
  (s.requestMap.keys.insertionSort (· ≤ ·)).foldlM clearRequest s

/-- The vote of a replica that is behind: the last request is broadcast again.  The vote of one that
is ahead: its last request is taken over and run. -/
def reconcile (msg : VoteMessage) (response : Option TcpRpcMsg) (el : Election) (s : Replica) :
    Option (Election × Replica) :=
  let voteReqId := msg.lastReq.reqId
  if voteReqId < el.minReqId then do
    let s ← s.broadcastPrimaryRequest
    some ({ el with minReqId := voteReqId }, s)
  else if voteReqId > el.maxReqId then do
    let s ← { s with
      lastPrimaryRequest :=
        { s.lastPrimaryRequest with
          length := msg.length - sizeofDiomedesId
          preq := msg.lastReq } }.broadcastPrimaryRequest
    let (_, s) ← s.runRequest msg.lastReq response
    some ({ el with maxReqId := voteReqId }, s)
  else some (el, s)

/-- The end of `CountVote`, when all votes are there.  `RunFromRequestCache` is next. -/
def beKing (el : Election) (s : Replica) : Option Replica := do
  let s := if el.minReqId = el.maxReqId then { s with lastValidReqId := s.currReqId } else s
  let s ← s.clearRequestCache
  some { s with mode := .waitingForRequests }

/-- The static variables; the first call initializes them. -/
def tally (s : Replica) : Election :=
  s.election.getD ⟨s.activeServers.length - 1, ∅, s.currReqId, s.currReqId⟩

/-- `CountVote`; `response` is for a `RunRequest` it calls. -/
def countVote (s : Replica) (e : VoteMessage × Option TcpRpcMsg) : Option Replica :=
  let (msg, response) := e
  let el := s.tally
  if el.votesNeeded = 0 then some { s with election := some el }
  else do
    let (el, s) ← s.reconcile msg response { el with votes := insert msg.voter.name el.votes }
    let s := { s with election := some el }
    if el.votesNeeded = el.votes.card then s.beKing el else some s

/-! ## Elections -/

variable {s s₀ s' s₁ : Replica} {el el' : Election} {vs : List (VoteMessage × Option TcpRpcMsg)}
  {e : VoteMessage × Option TcpRpcMsg} {response : Option TcpRpcMsg} {msg : VoteMessage}

/-- A replica that starts to be the primary: it has handed every request up to its position to
`RunRequest`, the last one last, and has counted no vote. -/
structure Elected (s : Replica) : Prop where
  mode : s.mode = .newPrimary
  ran : s.lastRun = s.currReqId
  election : s.election = none

/-- The last of the votes moves the replica to `WAITING_FOR_REQUESTS`. -/
def Elects (s₀ : Replica) (vs : List (VoteMessage × Option TcpRpcMsg)) (s : Replica) : Prop :=
  ∃ pre e s₁, vs = pre ++ [e] ∧ pre.foldlM countVote s₀ = some s₁ ∧ s₁.mode = .newPrimary ∧
    countVote s₁ e = some s ∧ s.mode = .waitingForRequests

/-- The largest of a position and the voted ids. -/
def largest (curr : UInt32) (vs : List (VoteMessage × Option TcpRpcMsg)) : ℕ :=
  vs.foldl (fun top e => max top e.1.lastReq.reqId.toNat) curr.toNat

/-- The primary is at the largest of the ids, the one it has run last, and the next request gets a
larger id than all of them. -/
structure Numbered (s₀ : Replica) (vs : List (VoteMessage × Option TcpRpcMsg)) (s : Replica) :
    Prop where
  current : s.currReqId.toNat = largest s₀.currReqId vs
  ran : s.currReqId = s.lastRun
  next : ∀ msg s', s.buildPrimaryRequest msg = some (true, s') →
    largest s₀.currReqId vs < s'.lastPrimaryRequest.preq.reqId.toNat

/-- What has been counted: the position stays, and the largest id is the one run last. -/
structure Counted (s₀ : Replica) (vs : List (VoteMessage × Option TcpRpcMsg)) (s : Replica) :
    Prop where
  position : s.currReqId = s₀.currReqId
  tally : s.tally.votesNeeded ≠ 0 → s.tally.maxReqId = s.lastRun ∧
    s.tally.maxReqId.toNat = largest s₀.currReqId vs ∧ s.tally.minReqId ≤ s.tally.maxReqId

theorem Elected.counted (h : Elected s) : Counted s [] s := by
  have htally : s.tally = ⟨s.activeServers.length - 1, ∅, s.currReqId, s.currReqId⟩ := by
    rw [Replica.tally, h.election]
    rfl
  rw [← h.ran] at htally
  refine ⟨rfl, fun _ => ?_⟩
  rw [htally, ← h.ran]
  exact ⟨rfl, rfl, UInt32.le_refl _⟩

/-! ## The parts of `CountVote` -/

theorem broadcastPrimaryRequest_eq (h : s.broadcastPrimaryRequest = some s') :
    s.lastPrimaryRequest.Sendable ∧ s' = s.note (.broadcast s.lastPrimaryRequest) := by
  unfold broadcastPrimaryRequest at h
  split_ifs at h with hsend
  exact ⟨hsend.2, (Option.some.inj h).symm⟩

theorem lastRun_ran (preq : PrimaryRequest) : (s.note (.ran preq)).lastRun = preq.reqId := rfl

/-- **A request is run**: it is answered from the cache, or the state machine answers it. -/
theorem runRequest_cases {preq : PrimaryRequest} {b : Bool}
    (h : s.runRequest preq response = some (b, s')) :
    (s.responseMap.lookup preq.clientId).map TcpRpcMsg.xid = some preq.request.xid ∧ b = false ∧
        s' = s.note (.ran preq) ∨
      (s.responseMap.lookup preq.clientId).map TcpRpcMsg.xid ≠ some preq.request.xid ∧ b = true ∧
        Fits preq.request.sendBytes ∧ ∃ r, response = some r ∧
          s' = { s.note (.ran preq) with
            responseMap := s.responseMap.insert preq.clientId r } := by
  unfold runRequest at h
  dsimp only [note] at h
  split_ifs at h with hcached hfits
  · obtain ⟨rfl, rfl⟩ := Prod.mk.inj (Option.some.inj h)
    exact Or.inl ⟨hcached, rfl, rfl⟩
  · obtain ⟨r, hr, h⟩ := Option.bind_eq_some_iff.mp h
    obtain ⟨rfl, rfl⟩ := Prod.mk.inj (Option.some.inj h)
    exact Or.inr ⟨hcached, rfl, hfits, r, hr, rfl⟩

/-- What is run is the last request run. -/
theorem runRequest_spec {preq : PrimaryRequest} {b : Bool}
    (h : s.runRequest preq response = some (b, s')) :
    s'.currReqId = s.currReqId ∧ s'.lastRun = preq.reqId := by
  obtain ⟨-, -, rfl⟩ | ⟨-, -, -, r, -, rfl⟩ := runRequest_cases h
  · exact ⟨rfl, lastRun_ran preq⟩
  · exact ⟨rfl, lastRun_ran preq⟩

/-- The response of a client is sent, as far as its size says. -/
theorem sendClientResponse_eq {clientId : UInt32} {r : TcpRpcMsg}
    (h : s.sendClientResponse clientId r = some s') :
    Fits r.msgSize ∧ s' = s.note (.responded clientId r.sent) := by
  unfold sendClientResponse at h
  split_ifs at h with hfits
  exact ⟨hfits, (Option.some.inj h).symm⟩

/-- A round of `ClearRequestCache`: the request is answered, or it is left. -/
theorem clearRequest_eq {id : UInt32} (h : s.clearRequest id = some s') :
    ∃ request response, s.requestMap.lookup id = some request ∧
      s.responseMap.lookup id = some response ∧
      (request.preq.request.xid = response.xid ∧ Fits response.msgSize ∧ s' = { s with
          requestMap := s.requestMap.erase id
          deeds := .responded id response.sent :: s.deeds } ∨
        request.preq.request.xid ≠ response.xid ∧ s' = s) := by
  unfold clearRequest at h
  obtain ⟨request, hrequest, h⟩ := Option.bind_eq_some_iff.mp h
  obtain ⟨response, hresponse, h⟩ := Option.bind_eq_some_iff.mp h
  refine ⟨request, response, hrequest, hresponse, ?_⟩
  split_ifs at h with hxid
  · obtain ⟨hfits, rfl⟩ := sendClientResponse_eq h
    exact Or.inl ⟨hxid, hfits, rfl⟩
  · exact Or.inr ⟨hxid, (Option.some.inj h).symm⟩

/-- Sending responses does not change the position. -/
theorem clearRequestCache_spec (h : s.clearRequestCache = some s') :
    s'.currReqId = s.currReqId ∧ s'.lastRun = s.lastRun ∧ s'.election = s.election := by
  refine Run.keeps (I := fun s' => s'.currReqId = s.currReqId ∧ s'.lastRun = s.lastRun ∧
    s'.election = s.election) (fun s₁ id s₂ h₁ hs₁ => ?_) h ⟨rfl, rfl, rfl⟩
  obtain ⟨request, response, -, -, ⟨-, -, rfl⟩ | ⟨-, rfl⟩⟩ := clearRequest_eq h₁
  · exact hs₁
  · exact hs₁

/-- **What a vote does to the bounds**: it lowers the smaller one, or it raises the larger one and
its request is run, or it is between them. -/
theorem reconcile_spec (h : s.reconcile msg response el = some (el', s')) :
    s'.currReqId = s.currReqId ∧
      (msg.lastReq.reqId < el.minReqId ∧ el' = { el with minReqId := msg.lastReq.reqId } ∧
          s'.lastRun = s.lastRun ∨
        el.maxReqId < msg.lastReq.reqId ∧ el' = { el with maxReqId := msg.lastReq.reqId } ∧
          s'.lastRun = msg.lastReq.reqId ∨
        msg.lastReq.reqId ≤ el.maxReqId ∧ el' = el ∧ s'.lastRun = s.lastRun) := by
  unfold reconcile at h
  dsimp only at h
  split_ifs at h with hlt hgt
  · obtain ⟨s₁, hs₁, h⟩ := Option.bind_eq_some_iff.mp h
    obtain ⟨rfl, rfl⟩ := Prod.mk.inj (Option.some.inj h)
    rw [(broadcastPrimaryRequest_eq hs₁).2]
    exact ⟨rfl, Or.inl ⟨hlt, rfl, rfl⟩⟩
  · obtain ⟨s₁, hs₁, h⟩ := Option.bind_eq_some_iff.mp h
    obtain ⟨⟨b, s₂⟩, hs₂, h⟩ := Option.bind_eq_some_iff.mp h
    obtain ⟨rfl, rfl⟩ := Prod.mk.inj (Option.some.inj h)
    obtain ⟨hcurr, hran⟩ := runRequest_spec hs₂
    refine ⟨hcurr.trans ?_, Or.inr (Or.inl ⟨hgt, rfl, hran⟩)⟩
    rw [(broadcastPrimaryRequest_eq hs₁).2]
    rfl
  · obtain ⟨rfl, rfl⟩ := Prod.mk.inj (Option.some.inj h)
    exact ⟨rfl, Or.inr (Or.inr ⟨UInt32.not_lt.mp hgt, rfl, rfl⟩)⟩

theorem beKing_spec (h : s.beKing el = some s') :
    s'.currReqId = s.currReqId ∧ s'.lastRun = s.lastRun ∧ s'.election = s.election ∧
      s'.mode = .waitingForRequests := by
  unfold beKing at h
  obtain ⟨s₁, hs₁, h⟩ := Option.bind_eq_some_iff.mp h
  obtain ⟨hcurr, hran, hel⟩ := clearRequestCache_spec hs₁
  obtain rfl := Option.some.inj h
  split_ifs at hcurr hran hel
  · exact ⟨hcurr, hran, hel, rfl⟩
  · exact ⟨hcurr, hran, hel, rfl⟩

/-- A vote is counted: the bounds of the new tally come from the old one. -/
theorem countVote_spec (h : countVote s e = some s') : s'.currReqId = s.currReqId ∧
    s'.tally.votesNeeded = s.tally.votesNeeded ∧
    (s.tally.votesNeeded = 0 ∧ s'.mode = s.mode ∨ s.tally.votesNeeded ≠ 0 ∧
      (e.1.lastReq.reqId < s.tally.minReqId ∧ s'.tally.minReqId = e.1.lastReq.reqId ∧
          s'.tally.maxReqId = s.tally.maxReqId ∧ s'.lastRun = s.lastRun ∨
        s.tally.maxReqId < e.1.lastReq.reqId ∧ s'.tally.minReqId = s.tally.minReqId ∧
          s'.tally.maxReqId = e.1.lastReq.reqId ∧ s'.lastRun = e.1.lastReq.reqId ∨
        e.1.lastReq.reqId ≤ s.tally.maxReqId ∧ s'.tally.minReqId = s.tally.minReqId ∧
          s'.tally.maxReqId = s.tally.maxReqId ∧ s'.lastRun = s.lastRun)) := by
  obtain ⟨msg, response⟩ := e
  unfold countVote at h
  dsimp only at h
  split_ifs at h with hzero
  · obtain rfl := Option.some.inj h
    exact ⟨rfl, rfl, Or.inl ⟨hzero, rfl⟩⟩
  · obtain ⟨⟨el, s₁⟩, hs₁, h⟩ := Option.bind_eq_some_iff.mp h
    obtain ⟨hcurr, hcase⟩ := reconcile_spec hs₁
    have hend : s'.currReqId = s₁.currReqId ∧ s'.lastRun = s₁.lastRun ∧ s'.tally = el := by
      dsimp only at h
      split_ifs at h
      · obtain ⟨hcurr, hran, hel, -⟩ := beKing_spec h
        refine ⟨hcurr, hran, ?_⟩
        rw [tally, hel]
        rfl
      · exact Option.some.inj h ▸ ⟨rfl, rfl, rfl⟩
    obtain ⟨hcurr', hran', htally⟩ := hend
    rw [htally, hcurr', hran']
    obtain ⟨hlt, rfl, hran⟩ | ⟨hgt, rfl, hran⟩ | ⟨hle, rfl, hran⟩ := hcase
    · exact ⟨hcurr, rfl, Or.inr ⟨hzero, Or.inl ⟨hlt, rfl, rfl, hran⟩⟩⟩
    · exact ⟨hcurr, rfl, Or.inr ⟨hzero, Or.inr (Or.inl ⟨hgt, rfl, rfl, hran⟩)⟩⟩
    · exact ⟨hcurr, rfl, Or.inr ⟨hzero, Or.inr (Or.inr ⟨hle, rfl, rfl, hran⟩)⟩⟩

theorem largest_snoc (curr : UInt32) :
    largest curr (vs ++ [e]) = max (largest curr vs) e.1.lastReq.reqId.toNat := by
  rw [largest, List.foldl_append]
  rfl

theorem Counted.step (hs : Counted s₀ vs s) (h : countVote s e = some s') :
    Counted s₀ (vs ++ [e]) s' := by
  obtain ⟨hcurr, hneeded, hcase⟩ := countVote_spec h
  refine ⟨hcurr.trans hs.position, fun hn => ?_⟩
  rw [hneeded] at hn
  obtain ⟨hran, hlargest, hle⟩ := hs.tally hn
  rw [UInt32.le_iff_toNat_le] at hle ⊢
  rw [largest_snoc, ← hlargest]
  obtain ⟨hzero, -⟩ | ⟨-, ⟨hlt, hmin, hmax, hrun⟩ | ⟨hgt, hmin, hmax, hrun⟩ |
    ⟨hin, hmin, hmax, hrun⟩⟩ := hcase
  · exact (hn hzero).elim
  · rw [UInt32.lt_iff_toNat_lt] at hlt
    rw [hmin, hmax, hrun]
    exact ⟨hran, by omega, by omega⟩
  · rw [UInt32.lt_iff_toNat_lt] at hgt
    rw [hmin, hmax, hrun]
    exact ⟨rfl, by omega, by omega⟩
  · rw [UInt32.le_iff_toNat_le] at hin
    rw [hmin, hmax, hrun]
    exact ⟨hran, by omega, hle⟩

theorem counted_run (h₀ : Elected s₀) (h : vs.foldlM countVote s₀ = some s) : Counted s₀ vs s := by
  induction vs using List.reverseRecOn generalizing s with
  | nil => exact Option.some.inj h ▸ h₀.counted
  | append_singleton vs e ih =>
    rw [List.foldlM_append] at h
    obtain ⟨s₁, hs₁, h⟩ := Option.bind_eq_some_iff.mp h
    obtain ⟨s₂, hs₂, h⟩ := Option.bind_eq_some_iff.mp h
    exact Option.some.inj h ▸ (ih hs₁).step hs₂

/-- An elected replica has run the largest of the ids last, and is where it was. -/
theorem elects_spec (h₀ : Elected s₀) (h : Elects s₀ vs s) : s.currReqId = s₀.currReqId ∧
    s.lastRun.toNat = largest s₀.currReqId vs ∧ s.mode = .waitingForRequests := by
  obtain ⟨pre, e, s₁, rfl, hpre, hmode₁, hs, hmode⟩ := h
  have hcounted : Counted s₀ (pre ++ [e]) s := (counted_run h₀ hpre).step hs
  have hneeded : s.tally.votesNeeded ≠ 0 := by
    obtain ⟨-, hneeded, ⟨-, hsame⟩ | ⟨hn, -⟩⟩ := countVote_spec hs
    · rw [hsame, hmode₁] at hmode
      cases hmode
    · rwa [hneeded]
  obtain ⟨hran, hlargest, -⟩ := hcounted.tally hneeded
  exact ⟨hcounted.position, hran ▸ hlargest, hmode⟩

theorem largest_eq_iff (curr : UInt32) : largest curr vs = curr.toNat ↔
    ∀ e ∈ vs, e.1.lastReq.reqId ≤ curr := by
  have hge : ∀ vs, curr.toNat ≤ largest curr vs := by
    intro vs
    induction vs using List.reverseRecOn with
    | nil => exact le_rfl
    | append_singleton vs e ih => rw [largest_snoc]; exact ih.trans (le_max_left _ _)
  induction vs using List.reverseRecOn with
  | nil => exact iff_of_true rfl (by simp)
  | append_singleton vs e ih =>
    have hvs := hge vs
    have hpre : largest curr vs = curr.toNat ↔ ∀ e ∈ vs, e.1.lastReq.reqId ≤ curr := ih
    rw [largest_snoc, List.forall_mem_append, ← hpre, List.forall_mem_singleton,
      UInt32.le_iff_toNat_le]
    omega

/-- **Where a new primary starts.**  When `CountVote` moves a new primary to
`WAITING_FOR_REQUESTS`, it is at the largest of its own id and the voted ones, which is the id it
has run last, and its next request gets a larger id, exactly if no voter was ahead of it and the
next id is not 0 again. -/
theorem numbered_iff (h₀ : Elected s₀) (h : Elects s₀ vs s) : Numbered s₀ vs s ↔
    (∀ e ∈ vs, e.1.lastReq.reqId ≤ s₀.currReqId) ∧ s₀.currReqId + 1 ≠ 0 := by
  obtain ⟨hcurr, hran, hmode⟩ := elects_spec h₀ h
  have hbuild : ∀ msg s', s.buildPrimaryRequest msg = some (true, s') →
      s'.lastPrimaryRequest.preq.reqId = s₀.currReqId + 1 := by
    intro msg s' hs'
    rw [buildPrimaryRequest, if_pos hmode] at hs'
    split_ifs at hs'
    · cases hs'
    · obtain ⟨-, rfl⟩ := Prod.mk.inj (Option.some.inj hs')
      rw [← hcurr]
  have hnext : s₀.currReqId + 1 ≠ 0 ↔ s₀.currReqId.toNat < (s₀.currReqId + 1).toNat := by
    rw [ne_eq, ← UInt32.toNat_inj, UInt32.toNat_add]
    have hlt := s₀.currReqId.toNat_lt
    change (s₀.currReqId.toNat + 1) % 2 ^ 32 ≠ 0 ↔ _ < (s₀.currReqId.toNat + 1) % 2 ^ 32
    omega
  rw [← largest_eq_iff, hnext]
  constructor
  · rintro ⟨hcurrent, -, hlt⟩
    have heq : largest s₀.currReqId vs = s₀.currReqId.toNat := by rw [← hcurrent, hcurr]
    refine ⟨heq, ?_⟩
    obtain ⟨s', hs'⟩ : ∃ s', s.buildPrimaryRequest { s.lastPrimaryRequest with
        type := clientRequest } = some (true, s') :=
      ⟨_, by rw [buildPrimaryRequest, if_pos hmode, if_neg (by simp)]⟩
    have hlast := hlt _ s' hs'
    rwa [hbuild _ s' hs', heq] at hlast
  · rintro ⟨heq, hlt⟩
    refine ⟨by rw [hcurr, heq], ?_, fun msg s' hs' => ?_⟩
    · exact UInt32.toNat_inj.mp (by rw [hran, hcurr, heq])
    · rwa [hbuild msg s' hs', heq]

/-- A replica elected after one request, in a group of two. -/
def afterOne : Replica where
  mode := .newPrimary
  currReqId := 1
  lastValidReqId := 0
  lastPrimaryRequest := ⟨primaryRequest, 60, ⟨1, 7, ⟨100, []⟩⟩⟩
  activeServers := [⟨"a", "vm", "host"⟩, ⟨"b", "vm", "host"⟩]
  requestMap := ∅
  responseMap := (∅ : Keyed UInt32 TcpRpcMsg).insert 7 ⟨100, []⟩
  election := none
  deeds := [.ran ⟨1, 7, ⟨100, []⟩⟩]

/-- The vote of the other replica, which has executed `reqId` requests. -/
def voteFor (reqId : UInt32) : VoteMessage × Option TcpRpcMsg :=
  (⟨156, ⟨"b", "vm", "host"⟩, ⟨reqId, 7, ⟨99 + reqId.toUInt64, []⟩⟩⟩,
    some ⟨99 + reqId.toUInt64, []⟩)

/-- The other replica is at the same request. -/
theorem numbered_same : ∃ s, Elects afterOne [voteFor 1] s ∧ Numbered afterOne [voteFor 1] s := by
  have helects : Elects afterOne [voteFor 1] _ :=
    ⟨[], voteFor 1, afterOne, rfl, rfl, rfl, rfl, rfl⟩
  refine ⟨_, helects, (numbered_iff ⟨rfl, rfl, rfl⟩ helects).mpr ⟨?_, by decide⟩⟩
  simp [voteFor, afterOne]

/-- The old primary sent request 2 to the other replica only: the new primary runs it, and gives the
id 2 to the next request of a client. -/
theorem numbered_twice : ∃ s, Elected afterOne ∧ Elects afterOne [voteFor 2] s ∧
    ¬ Numbered afterOne [voteFor 2] s ∧ s.lastRun = 2 ∧
    (s.buildPrimaryRequest ⟨clientRequest, 60, ⟨0, 8, ⟨300, []⟩⟩⟩).map
      (fun r => r.2.lastPrimaryRequest.preq) = some ⟨2, 8, ⟨300, []⟩⟩ := by
  have helects : Elects afterOne [voteFor 2] _ :=
    ⟨[], voteFor 2, afterOne, rfl, rfl, rfl, rfl, rfl⟩
  refine ⟨_, ⟨rfl, rfl, rfl⟩, helects, fun h => ?_, rfl, rfl⟩
  exact absurd h.current (by decide)

end Replica

end Falcon.Diomedes
