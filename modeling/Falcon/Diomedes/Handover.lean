import Falcon.Diomedes.Relay
import Falcon.Diomedes.State

/-!
# Diomedes/Handover — the last request on its way through a vote

A backup keeps the last `PRIMARY_REQUEST` it has taken, as it is in memory, and its votes carry it
behind the name of the voter.  A new primary that is one request behind copies it from the vote into
its own last request, and broadcasts that.  It sets the length of its own last request, and leaves
the type as it is.

* `handedOver_iff` — which requests come through a vote, and to which new primaries.
-/

namespace Falcon.Diomedes

open Bytes

/-! ## Buffers -/

/-- A buffer of the size of a message. -/
abbrev Buffer := { b : Bytes // b.length = kMaxDiomedesMessage }

theorem length_receive (b : Bytes) : (receive b).length = kMaxDiomedesMessage := by
  rw [receive, List.length_append, List.length_take, length_zeros]
  omega

/-- A datagram has been received into a buffer that was cleared before. -/
def Buffer.receive (datagram : Bytes) : Buffer := ⟨Diomedes.receive datagram, length_receive _⟩

/-- The message in a buffer. -/
def Buffer.msg (b : Buffer) : Message := Message.ofBytes b.1

/-- The bytes of a `diomedes_id`. -/
abbrev IdBytes := { b : Bytes // b.length = 96 }

/-- `VOTE`. -/
def vote : UInt8 := 'V'.toUInt8

/-- Where the request of a vote is. -/
def lastReqOffset : ℕ := kDiomedesHeaderSize + 96

/-- The room for a request in a vote. -/
def voteRoom : ℕ := kMaxDiomedesMessage - lastReqOffset

/-! ## The backup -/

/-- `ProcessPrimaryMessages` and `ProcessPrimaryMessage` for a datagram of the primary: the last
request, if it is taken as the next one. -/
def takeRequest (currReqId : ℕ) (datagram : Bytes) : Option Buffer :=
  let buf := Buffer.receive datagram
  let reqId := ntohl buf.msg.reqId
  if ntohs buf.msg.length + kDiomedesHeaderSize = min datagram.length kMaxDiomedesMessage ∧
      buf.msg.type = primaryRequest ∧ currReqId < reqId ∧ reqId - 1 = currReqId then some buf
  else none

/-- `SendVote`: the datagram.  `voteBuffer` is what the static buffer holds. -/
def sendVote (self : IdBytes) (currReqId : ℕ) (last voteBuffer : Buffer) : Option Bytes := do
  let length := ntohs last.msg.length
  let lastReq ← memcpy (voteBuffer.1.drop lastReqOffset) (last.1.drop kDiomedesHeaderSize) length
  if ntohl last.msg.reqId ≠ currReqId then none
  else if last.msg.type ≠ primaryRequest ∧ last.msg.type ≠ 0 then none
  else
    let length := htons (96 + length)
    send ([vote, 0] ++ leBytes 2 length ++ (self.1 ++ lastReq)) (ntohs length + kDiomedesHeaderSize)

/-! ## The new primary -/

/-- `BroadcastPrimaryRequest` for the buffer of the last request: the datagram. -/
def broadcastBuffer (last : Bytes) : Option Bytes :=
  let msg := Message.ofBytes last
  if msg.type = primaryRequest then send last (ntohs msg.length + kDiomedesHeaderSize) else none

/-- The request of a vote is taken over as the last request; a negative size is a very large one. -/
def adopt (vote last : Buffer) : Option Bytes := do
  let length := ntohs vote.msg.length
  let size ← if 96 ≤ length then some (length - 96) else none
  let preq ← memcpy (last.1.drop kDiomedesHeaderSize) (vote.1.drop lastReqOffset) size
  some ([last.msg.type, last.msg.version] ++ leBytes 2 (htons size) ++ preq)

/-- `ProcessBackupMessages` for a vote, up to the `RunRequest` of `CountVote`: the last request, and
what is broadcast. -/
def processVote (datagram : Bytes) (minReqId maxReqId : ℕ) (last : Buffer) :
    Option (Bytes × Option Bytes) :=
  let buf := Buffer.receive datagram
  let voteReqId := ntohl (leNat ((buf.1.drop lastReqOffset).take 4))
  if ntohs buf.msg.length + kDiomedesHeaderSize ≠ min datagram.length kMaxDiomedesMessage ∨
      buf.msg.type ≠ vote then some (last.1, none)
  else if voteReqId < minReqId then do
    let d ← broadcastBuffer last.1
    some (last.1, some d)
  else if maxReqId < voteReqId then do
    let last ← adopt buf last
    let d ← broadcastBuffer last
    some (last, some d)
  else some (last.1, none)

/-! ## The way of a request -/

/-- `m'` is the request `m`, as a primary broadcasts it. -/
structure Intact (m m' : Message) : Prop where
  type : m'.type = primaryRequest
  length : m'.length = m.length
  reqId : m'.reqId = m.reqId
  clientId : m'.clientId = m.clientId
  request : m'.request = m.request

/-- The vote of a backup that has taken `buf` as its request `reqId` fits in a message, and a new
primary that is one request behind broadcasts the request when it counts the vote. -/
def HandedOver (self : IdBytes) (reqId : ℕ) (buf voteBuffer : Buffer) (minReqId : ℕ)
    (last : Buffer) : Prop :=
  ∃ v, sendVote self reqId buf voteBuffer = some v ∧ v.length ≤ kMaxDiomedesMessage ∧
    ∃ last' d, processVote v minReqId (reqId - 1) last = some (last', some d) ∧
      Intact buf.msg (Buffer.receive d).msg

variable {datagram : Bytes} {self : IdBytes} {last buf voteBuffer : Buffer}
  {currReqId minReqId length : ℕ}

/-! ## A message in a buffer -/

/-- A message is read as it has been put together. -/
theorem ofBytes_append (t v : UInt8) (payload : Bytes) (h : length < 256 ^ 2) :
    Message.ofBytes ([t, v] ++ leBytes 2 length ++ payload) =
      ⟨t, v, length, leNat (payload.take 4), leNat ((payload.drop 4).take 4), payload.drop 8⟩ := by
  have hl : leNat (leBytes 2 length) = length := leNat_leBytes h
  change Message.mk t v (leNat (leBytes 2 length)) _ _ _ = _
  rw [hl]
  rfl

/-- A length is one of 16 bits. -/
theorem Message.length_lt (b : Bytes) : (Message.ofBytes b).length < 256 ^ 2 :=
  (leNat_lt _).trans_le (Nat.pow_le_pow_right (by decide) (List.length_take_le _ _))

/-- What a datagram of the right length looks like once it has been received. -/
theorem receive_datagram (t v : UInt8) {p : Bytes} (h : p.length + kDiomedesHeaderSize ≤
    kMaxDiomedesMessage) : receive ([t, v] ++ leBytes 2 length ++ p) =
      [t, v] ++ leBytes 2 length ++ (p ++ zeros (kMaxDiomedesMessage - kDiomedesHeaderSize -
        p.length)) := by
  have hlen : ([t, v] ++ leBytes 2 length ++ p).length = p.length + kDiomedesHeaderSize := by
    simp only [List.length_append, length_leBytes, List.length_cons, List.length_nil,
      kDiomedesHeaderSize]
    omega
  rw [receive_eq (hlen.trans_le h), hlen, List.append_assoc _ p, Nat.sub_sub,
    Nat.add_comm kDiomedesHeaderSize]

theorem receive_take (b : Bytes) : receive (b.take kMaxDiomedesMessage) = receive b := by
  rw [receive, receive, List.take_take, Nat.min_self, List.length_take]
  congr 2
  omega

/-- The bytes of a request as it is in a buffer: `p` is its payload, and nothing is behind it. -/
structure Holds (buf : Buffer) (p : Bytes) : Prop where
  fits : p.length + kDiomedesHeaderSize ≤ kMaxDiomedesMessage
  payload : buf.1.drop kDiomedesHeaderSize =
    p ++ zeros (kMaxDiomedesMessage - kDiomedesHeaderSize - p.length)
  length : buf.msg.length = htons p.length

/-- **What a backup has taken.** -/
theorem takeRequest_spec (h : takeRequest currReqId datagram = some buf) :
    ∃ p, Holds buf p ∧ buf.msg.type = primaryRequest ∧ ntohl buf.msg.reqId = currReqId + 1 := by
  unfold takeRequest at h
  dsimp only at h
  split_ifs at h with hguard
  obtain ⟨hlen, htype, hlt, hnext⟩ := hguard
  obtain rfl := Option.some.inj h
  have hb : (Buffer.receive datagram).1 = receive (datagram.take kMaxDiomedesMessage) :=
    (receive_take datagram).symm
  have hsize : (datagram.take kMaxDiomedesMessage).length =
      min datagram.length kMaxDiomedesMessage := by
    rw [List.length_take, Nat.min_comm]
  rw [← hsize] at hlen
  have hle : (datagram.take kMaxDiomedesMessage).length ≤ kMaxDiomedesMessage :=
    List.length_take_le _ _
  generalize datagram.take kMaxDiomedesMessage = d at hb hlen hle
  have hdrop : (Buffer.receive datagram).1.drop kDiomedesHeaderSize =
      d.drop kDiomedesHeaderSize ++ zeros (kMaxDiomedesMessage - d.length) := by
    rw [hb, receive_eq hle, List.drop_append_of_le_length (hlen ▸ Nat.le_add_left _ _)]
  have hp : (d.drop kDiomedesHeaderSize).length = ntohs (Buffer.receive datagram).msg.length := by
    rw [List.length_drop, ← hlen, Nat.add_sub_cancel]
  refine ⟨d.drop kDiomedesHeaderSize, ⟨?_, ?_, ?_⟩, htype, by omega⟩
  · rw [hp, hlen]
    exact hle
  · rw [hdrop, hp, ← hlen, Nat.sub_sub, Nat.add_comm kDiomedesHeaderSize]
  · rw [hp]
    exact (swap_swap (Message.length_lt _)).symm

/-- What is in front is sent. -/
theorem send_append {a b : Bytes} {n : ℕ} (h : a.length = n) : send (a ++ b) n = some a := by
  rw [send, if_pos, List.take_left' h]
  rw [List.length_append, h]
  exact Nat.le_add_right _ _

/-! ## The vote -/

theorem htons_lt (n : ℕ) : htons n < 256 ^ 2 := swap_lt 2 n

theorem ntohs_htons {n : ℕ} (h : n < 256 ^ 2) : ntohs (htons n) = n := swap_swap h

variable {p : Bytes}

theorem Holds.length_lt (h : Holds buf p) : p.length < 256 ^ 2 := by
  have hfits := h.fits
  unfold kDiomedesHeaderSize kMaxDiomedesMessage at hfits
  omega

theorem Holds.ntohs_length (h : Holds buf p) : ntohs buf.msg.length = p.length := by
  rw [h.length, ntohs_htons h.length_lt]

/-- The vote of a backup that has taken `p`. -/
def voteFor (self : IdBytes) (p : Bytes) : Bytes :=
  [vote, 0] ++ leBytes 2 (htons (96 + p.length)) ++ (self.1 ++ p)

theorem length_voteFor (self : IdBytes) (p : Bytes) :
    (voteFor self p).length = lastReqOffset + p.length := by
  rw [voteFor, List.length_append, List.length_append, List.length_append, length_leBytes, self.2,
    ← Nat.add_assoc]
  rfl

/-- The request is copied behind the name of the voter, if there is room for it. -/
theorem Holds.memcpy (h : Holds buf p) (hroom : p.length ≤ voteRoom) :
    Bytes.memcpy (voteBuffer.1.drop lastReqOffset) (buf.1.drop kDiomedesHeaderSize) p.length =
      some (p ++ (voteBuffer.1.drop lastReqOffset).drop p.length) := by
  rw [Bytes.memcpy, if_pos, h.payload, List.take_left]
  refine ⟨?_, ?_⟩
  · rw [List.length_drop, voteBuffer.2]
    exact hroom
  · rw [h.payload, List.length_append]
    exact Nat.le_add_right _ _

theorem sendVote_small (self : IdBytes) (voteBuffer : Buffer) (h : Holds buf p)
    (htype : buf.msg.type = primaryRequest)
    (hreq : ntohl buf.msg.reqId = currReqId) (hroom : p.length ≤ voteRoom) :
    sendVote self currReqId buf voteBuffer = some (voteFor self p) := by
  have hlen : ntohs (htons (96 + p.length)) = 96 + p.length := by
    refine ntohs_htons ?_
    unfold voteRoom kMaxDiomedesMessage lastReqOffset kDiomedesHeaderSize at hroom
    omega
  unfold sendVote
  simp only [h.ntohs_length, h.memcpy hroom, Option.bind_eq_bind, Option.bind_some, hreq, hlen]
  rw [if_neg (by simp), if_neg (by simp [htype]), ← List.append_assoc self.1, ← List.append_assoc,
    ← voteFor]
  refine send_append ?_
  rw [length_voteFor, lastReqOffset]
  omega

/-- Any other copy leaves the buffer. -/
theorem sendVote_large (h : Holds buf p) (hlarge : voteRoom < p.length) :
    sendVote self currReqId buf voteBuffer = none := by
  have hcopy : Bytes.memcpy (voteBuffer.1.drop lastReqOffset) (buf.1.drop kDiomedesHeaderSize)
      p.length = none := by
    rw [Bytes.memcpy, if_neg]
    rw [List.length_drop, voteBuffer.2]
    exact fun hle => absurd hle.1 (not_le.mpr hlarge)
  unfold sendVote
  simp only [h.ntohs_length, hcopy, Option.bind_eq_bind, Option.bind_none]

/-! ## The new primary takes it over -/

/-- What a vote for `p` is in the buffer of the new primary. -/
theorem receive_voteFor (self : IdBytes) (hroom : p.length ≤ voteRoom) :
    receive (voteFor self p) = [vote, 0] ++ leBytes 2 (htons (96 + p.length)) ++
      (self.1 ++ (p ++ zeros (voteRoom - p.length))) := by
  have hself := self.2
  have hle : p.length ≤ 1372 := hroom
  rw [voteFor, receive_datagram, List.append_assoc self.1, List.length_append, hself, Nat.sub_sub,
    ← Nat.sub_sub, ← Nat.sub_sub]
  · rfl
  · rw [List.length_append, hself]
    unfold kMaxDiomedesMessage kDiomedesHeaderSize
    omega

/-- Its request is where `CountVote` looks for it. -/
theorem drop_receive_voteFor (self : IdBytes) (hroom : p.length ≤ voteRoom) :
    (receive (voteFor self p)).drop lastReqOffset = p ++ zeros (voteRoom - p.length) := by
  rw [receive_voteFor self hroom, ← List.append_assoc _ self.1]
  refine List.drop_left' ?_
  rw [List.length_append, List.length_append, length_leBytes, self.2]
  rfl

/-- The last request of a new primary that has taken over `p`. -/
def adopted (last : Buffer) (p : Bytes) : Bytes :=
  [last.msg.type, last.msg.version] ++ leBytes 2 (htons p.length) ++
    (p ++ (last.1.drop kDiomedesHeaderSize).drop p.length)

theorem adopt_voteFor (hroom : p.length ≤ voteRoom) :
    adopt (Buffer.receive (voteFor self p)) last = some (adopted last p) := by
  have hlast : last.1.length = 1472 := last.2
  have hle : p.length ≤ 1372 := hroom
  have hlen : ntohs (Buffer.receive (voteFor self p)).msg.length = 96 + p.length := by
    have hlt : 96 + p.length < 256 ^ 2 := by omega
    change ntohs (Message.ofBytes (receive (voteFor self p))).length = _
    rw [receive_voteFor self hroom, ofBytes_append _ _ _ (htons_lt _)]
    exact ntohs_htons hlt
  have hcopy : memcpy (last.1.drop kDiomedesHeaderSize)
      ((Buffer.receive (voteFor self p)).1.drop lastReqOffset) p.length =
      some (p ++ (last.1.drop kDiomedesHeaderSize).drop p.length) := by
    change memcpy _ ((receive (voteFor self p)).drop lastReqOffset) _ = _
    rw [drop_receive_voteFor self hroom, memcpy, if_pos, List.take_left]
    refine ⟨?_, ?_⟩
    · rw [List.length_drop, hlast]
      exact hle.trans (by decide)
    · rw [List.length_append]
      exact Nat.le_add_right _ _
  unfold adopt
  simp only [hlen, if_pos (Nat.le_add_right 96 p.length), Nat.add_sub_cancel_left,
    Option.bind_eq_bind, Option.bind_some, hcopy]
  rfl

/-- **The new primary broadcasts** what it has taken over if its own last request is a
`PRIMARY_REQUEST`, and ends otherwise. -/
theorem broadcastBuffer_adopted (h : p.length + kDiomedesHeaderSize ≤ kMaxDiomedesMessage) :
    broadcastBuffer (adopted last p) =
      if last.msg.type = primaryRequest then
        some ([last.msg.type, last.msg.version] ++ leBytes 2 (htons p.length) ++ p)
      else none := by
  have hlt : p.length < 256 ^ 2 := by
    unfold kDiomedesHeaderSize kMaxDiomedesMessage at h
    omega
  have hsend : send (adopted last p) (p.length + kDiomedesHeaderSize) =
      some ([last.msg.type, last.msg.version] ++ leBytes 2 (htons p.length) ++ p) := by
    rw [adopted, ← List.append_assoc]
    refine send_append ?_
    simp only [List.length_append, length_leBytes, List.length_cons, List.length_nil,
      kDiomedesHeaderSize]
    omega
  have hmsg : Message.ofBytes (adopted last p) = _ := ofBytes_append _ _ _ (htons_lt _)
  simp only [broadcastBuffer, hmsg, ntohs_htons hlt, hsend]

/-- What is read past the end of a payload is zero, wherever the buffer ends. -/
theorem take_append_zeros {m n : ℕ} (p : Bytes) (h : n ≤ p.length + m) :
    (p ++ zeros m).take n = p.take n ++ zeros (n - p.length) := by
  rw [List.take_append, take_zeros (by omega)]

/-- The vote of a backup that is ahead. -/
theorem processVote_voteFor (self : IdBytes) (last : Buffer) {reqId maxReqId : ℕ}
    (hroom : p.length ≤ voteRoom)
    (hreq : ntohl (leNat ((p ++ zeros (voteRoom - p.length)).take 4)) = reqId)
    (hmin : minReqId ≤ reqId) (hmax : maxReqId < reqId) :
    processVote (voteFor self p) minReqId maxReqId last =
      if last.msg.type = primaryRequest then
        some (adopted last p, some ([last.msg.type, last.msg.version] ++
          leBytes 2 (htons p.length) ++ p))
      else none := by
  have hle : p.length ≤ 1372 := hroom
  have hmsg : (Buffer.receive (voteFor self p)).msg = _ :=
    (congrArg Message.ofBytes (receive_voteFor self hroom)).trans
      (ofBytes_append _ _ _ (htons_lt _))
  have hlen : ntohs (htons (96 + p.length)) + kDiomedesHeaderSize =
      min (voteFor self p).length kMaxDiomedesMessage := by
    rw [length_voteFor, ntohs_htons (by omega)]
    unfold lastReqOffset kDiomedesHeaderSize kMaxDiomedesMessage
    omega
  have hvote : (Buffer.receive (voteFor self p)).1.drop lastReqOffset =
      p ++ zeros (voteRoom - p.length) := drop_receive_voteFor self hroom
  have hfits : p.length + kDiomedesHeaderSize ≤ kMaxDiomedesMessage := by
    unfold kDiomedesHeaderSize kMaxDiomedesMessage
    omega
  unfold processVote
  simp only [hvote, hreq, adopt_voteFor hroom]
  rw [if_neg, if_neg (not_lt.mpr hmin), if_pos hmax]
  · simp only [Option.bind_eq_bind, Option.bind_some, broadcastBuffer_adopted hfits]
    split_ifs
    · rfl
    · rfl
  · rw [hmsg, not_or, not_not, not_not]
    exact ⟨hlen, rfl⟩

/-- What is broadcast is the request as it was taken. -/
theorem Holds.intact (h : Holds buf p) (v : UInt8) : Intact buf.msg
    (Buffer.receive ([primaryRequest, v] ++ leBytes 2 (htons p.length) ++ p)).msg := by
  have hmsg : (Buffer.receive ([primaryRequest, v] ++ leBytes 2 (htons p.length) ++ p)).msg = _ :=
    (congrArg Message.ofBytes (receive_datagram _ _ h.fits)).trans
      (ofBytes_append _ _ _ (htons_lt _))
  rw [hmsg, ← h.payload]
  refine ⟨rfl, h.length.symm, rfl, ?_, ?_⟩
  · dsimp only
    rw [List.drop_drop]
    rfl
  · dsimp only
    rw [List.drop_drop]
    rfl

/-- **A vote hands the last request over intact** exactly if the request leaves room for the name of
the voter, and the new primary has had a request before. -/
theorem handedOver_iff (self : IdBytes) (voteBuffer last : Buffer) (datagram : Bytes)
    (h : takeRequest currReqId datagram = some buf) (hmin : minReqId ≤ currReqId) :
    HandedOver self (currReqId + 1) buf voteBuffer minReqId last ↔
      ntohs buf.msg.length ≤ voteRoom ∧ last.msg.type = primaryRequest := by
  obtain ⟨p, hholds, htype, hreq⟩ := takeRequest_spec h
  rw [hholds.ntohs_length]
  by_cases hroom : p.length ≤ voteRoom
  · have hsend := sendVote_small self voteBuffer hholds htype hreq hroom
    have hreq' : ntohl (leNat ((p ++ zeros (voteRoom - p.length)).take 4)) = currReqId + 1 := by
      rw [← hreq]
      change _ = ntohl (leNat ((buf.1.drop kDiomedesHeaderSize).take 4))
      rw [hholds.payload, take_append_zeros p, take_append_zeros p]
      · unfold kDiomedesHeaderSize kMaxDiomedesMessage
        omega
      · unfold voteRoom lastReqOffset kDiomedesHeaderSize kMaxDiomedesMessage
        omega
    have hprocess := processVote_voteFor self last hroom hreq'
      (hmin.trans (Nat.le_succ _)) (Nat.lt_succ_self currReqId)
    rw [and_iff_right hroom]
    constructor
    · rintro ⟨v, hv, -, last', d, hd, -⟩
      obtain rfl := Option.some.inj (hsend.symm.trans hv)
      by_contra hne
      rw [Nat.add_sub_cancel, hprocess, if_neg hne] at hd
      cases hd
    · intro heq
      rw [if_pos heq, heq] at hprocess
      refine ⟨_, hsend, ?_, _, _, hprocess, hholds.intact _⟩
      rw [length_voteFor]
      exact Nat.add_le_of_le_sub' (by decide) hroom
  · refine ⟨?_, fun hle => absurd hle.1 hroom⟩
    rintro ⟨v, hv, -⟩
    rw [sendVote_large hholds (not_le.mp hroom)] at hv
    cases hv

/-- A buffer that nothing has been put into. -/
def cleared : Buffer := Buffer.receive []

/-- A replica whose names are of one letter. -/
def selfId : IdBytes :=
  ⟨'b'.toUInt8 :: zeros 31 ++ 'v'.toUInt8 :: zeros 31 ++ 'h'.toUInt8 :: zeros 31, rfl⟩

/-- A request of client 7 whose RPC has `n` bytes. -/
def requestBytes (reqId n : ℕ) : Bytes :=
  [primaryRequest, 0] ++ leBytes 2 (htons (8 + n)) ++ leBytes 4 (htonl reqId) ++ leBytes 4 7 ++
    List.replicate n 1

/-- The new primary has had request 1, and the backup request 2. -/
theorem handedOver_second : HandedOver selfId 2 (Buffer.receive (requestBytes 2 100)) cleared 1
    (Buffer.receive (requestBytes 1 100)) := by
  have h : takeRequest 1 (requestBytes 2 100) = some (Buffer.receive (requestBytes 2 100)) := by
    decide +kernel
  exact (handedOver_iff selfId cleared _ _ h le_rfl).mpr ⟨by decide +kernel, by decide +kernel⟩

/-- The new primary has had no request: it ends when it broadcasts request 1.  A request of 1373
bytes does not fit in a vote. -/
theorem not_handedOver_first :
    takeRequest 0 (requestBytes 1 100) = some (Buffer.receive (requestBytes 1 100)) ∧
    ¬ HandedOver selfId 1 (Buffer.receive (requestBytes 1 100)) cleared 0 cleared ∧
    takeRequest 1 (requestBytes 2 1365) = some (Buffer.receive (requestBytes 2 1365)) ∧
    ¬ HandedOver selfId 2 (Buffer.receive (requestBytes 2 1365)) cleared 1
      (Buffer.receive (requestBytes 1 100)) := by
  have hend : (sendVote selfId 1 (Buffer.receive (requestBytes 1 100)) cleared).bind
      (fun v => processVote v 0 0 cleared) = none := by decide +kernel
  have hlarge : sendVote selfId 2 (Buffer.receive (requestBytes 2 1365)) cleared = none := by
    decide +kernel
  refine ⟨by decide +kernel, ?_, by decide +kernel, ?_⟩
  · rintro ⟨v, hv, -, last', d, hd, -⟩
    rw [hv, Option.bind_some] at hend
    cases hend.symm.trans hd
  · rintro ⟨v, hv, -⟩
    cases hlarge.symm.trans hv

end Falcon.Diomedes
