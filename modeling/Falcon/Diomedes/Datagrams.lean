import Falcon.Diomedes.Backup
import Falcon.Diomedes.Identities

/-!
# Diomedes/Datagrams — requests and votes as they are sent

A primary broadcasts as many bytes of its last request as the length field says, and a vote carries
as many of it; the length field is that of the client.  A receiver takes what does not come to be
zero.

* `Host.requestOf_broadcast`, `Backup.sendVote_datagram` — a request whose length covers its record
  comes in as it has been broadcast, and so does a vote for it.
* `Replica.reconcile_datagram` — a new primary takes over what a vote carries.
* `sendClientResponse_datagram` — what a client gets is what is sent of the response.
-/

namespace Falcon.Diomedes

open Bytes TcpRpcMsg

/-- The names in the bytes of a `diomedes_id`. -/
def DiomedesId.ofBytes (b : Bytes) : DiomedesId where
  handle := text ((b.take kNameLength).takeWhile (· ≠ 0))
  domain := text (((b.drop kNameLength).take kNameLength).takeWhile (· ≠ 0))
  hypervisor := text (((b.drop (2 * kNameLength)).take kNameLength).takeWhile (· ≠ 0))

/-- A `diomedes_primary_request` at the beginning of `b`. -/
def Host.preqOf (host : Host) (b : Bytes) : PrimaryRequest :=
  ⟨.ofNat (ntohl (leNat (b.take 4))), .ofNat (leNat ((b.drop 4).take 4)), host.rpc (b.drop 8)⟩

/-- The vote in a buffer. -/
def Host.voteOf (host : Host) (buf : Buffer) : VoteMessage where
  length := .ofNat (ntohs buf.msg.length)
  voter := .ofBytes ((buf.1.drop kDiomedesHeaderSize).take 96)
  lastReq := host.preqOf (buf.1.drop lastReqOffset)

/-- How much of a `diomedes_primary_request` is read. -/
def PrimaryRequest.size (preq : PrimaryRequest) : ℕ := 8 + max preq.request.sendBytes sizeofRmXid

/-- The length covers what is read of the request. -/
def RequestMessage.Whole (m : RequestMessage) : Prop := m.preq.size ≤ m.length.toNat

/-- There is no request yet, or the length covers what is read of it. -/
def VoteMessage.Whole (m : VoteMessage) : Prop :=
  m.lastReq.reqId = 0 ∨ 96 + m.lastReq.size ≤ m.length.toNat

instance (m : RequestMessage) : Decidable m.Whole := inferInstanceAs (Decidable (_ ≤ _))

instance (m : VoteMessage) : Decidable m.Whole := inferInstanceAs (Decidable (_ ∨ _))

variable {host : Host} {b b' : Bytes} {k n : ℕ}

/-! ## What is read of a request -/

theorem take_of_take (h : b'.take n = b.take n) (hk : k ≤ n) : b'.take k = b.take k := by
  have := congrArg (List.take k) h
  rwa [List.take_take, List.take_take, Nat.min_eq_left hk] at this

theorem drop_take_of_take (h : b'.take n = b.take n) (i : ℕ) (hk : i + k ≤ n) :
    (b'.drop i).take k = (b.drop i).take k := by
  have := congrArg (List.drop i) (take_of_take h hk)
  rwa [List.drop_take, List.drop_take, Nat.add_sub_cancel_left] at this

theorem sendBytes_rpc (host : Host) (b : Bytes) :
    (host.rpc b).sendBytes = sendBytes ⟨0, b⟩ := by
  have hfour : ∀ m, (b.take (4 + m)).take 4 = b.take 4 := fun m => by
    rw [List.take_take, Nat.min_eq_left (Nat.le_add_right 4 m)]
  unfold Host.rpc sendBytes size
  dsimp only
  rw [hfour]

/-- **A record is read** no further than `RunRequest` sends it. -/
theorem rpc_congr (h : b'.take n = b.take n) (hn : max (host.rpc b).sendBytes sizeofRmXid ≤ n) :
    host.rpc b' = host.rpc b := by
  have hxid : b'.take sizeofRmXid = b.take sizeofRmXid :=
    take_of_take h ((le_max_right _ _).trans hn)
  have hfour : b'.take 4 = b.take 4 :=
    take_of_take h (le_trans (by decide) ((le_max_right _ sizeofRmXid).trans hn))
  have hsend : sendBytes ⟨0, b'⟩ = sendBytes ⟨0, b⟩ := by
    unfold sendBytes size
    rw [hfour]
  have hle : sendBytes ⟨0, b⟩ ≤ n := by
    rw [← sendBytes_rpc host b]
    exact (le_max_left _ _).trans hn
  change TcpRpcMsg.mk _ (b'.take (sendBytes ⟨0, b'⟩)) = TcpRpcMsg.mk _ (b.take (sendBytes ⟨0, b⟩))
  rw [hsend, take_of_take h hle, hxid]

theorem preqOf_congr (h : b'.take n = b.take n) (hn : (host.preqOf b).size ≤ n) :
    host.preqOf b' = host.preqOf b := by
  have hle : 8 + max (host.rpc (b.drop 8)).sendBytes sizeofRmXid ≤ n := hn
  have hrpc : host.rpc (b'.drop 8) = host.rpc (b.drop 8) :=
    rpc_congr (n := n - 8) (drop_take_of_take h 8 (by omega)) (by omega)
  unfold Host.preqOf
  rw [take_of_take h (by omega), drop_take_of_take h 4 (by omega), hrpc]

/-- The first bytes of a buffer are its type and its length. -/
theorem ofBytes_congr (h : b'.take n = b.take n) (hn : kDiomedesHeaderSize ≤ n) :
    (Message.ofBytes b').type = (Message.ofBytes b).type ∧
      (Message.ofBytes b').length = (Message.ofBytes b).length := by
  have hget : ∀ c : Bytes, c.getD 0 0 = (c.take kDiomedesHeaderSize).getD 0 0 := fun c => by
    rw [List.getD_eq_getElem?_getD, List.getD_eq_getElem?_getD,
      List.getElem?_take_of_lt (by decide)]
  refine ⟨?_, ?_⟩
  · change b'.getD 0 0 = b.getD 0 0
    rw [hget b', hget b, take_of_take h hn]
  · change leNat ((b'.drop 2).take 2) = leNat ((b.drop 2).take 2)
    rw [drop_take_of_take h 2 hn]

theorem requestOf_preq (host : Host) (buf : Buffer) :
    (host.requestOf buf).preq = host.preqOf (buf.1.drop kDiomedesHeaderSize) := by
  change PrimaryRequest.mk _ _ (host.rpc (buf.1.drop requestOffset)) =
    PrimaryRequest.mk _ _ (host.rpc ((buf.1.drop kDiomedesHeaderSize).drop 8))
  rw [List.drop_drop, List.drop_drop]
  rfl

/-! ## What is broadcast -/

/-- What has been received of the first bytes of a buffer. -/
theorem take_receive_take (hb : b.length = kMaxDiomedesMessage) (hn : n ≤ kMaxDiomedesMessage) :
    (receive (b.take n)).take n = b.take n := by
  have hlen : (b.take n).length = n := by rw [List.length_take, hb, Nat.min_eq_left hn]
  rw [receive_eq (hlen.trans_le hn), List.take_left' hlen]

theorem ntohs_lt (n : ℕ) : ntohs n < 2 ^ 16 := swap_lt 2 n

/-- **What comes of a broadcast request**: its type and its length, and the request if the length
covers it. -/
theorem Host.requestOf_broadcast {buf : Buffer} {d : Bytes} (hd : broadcastBuffer buf.1 = some d) :
    (host.requestOf (Buffer.receive d)).type = (host.requestOf buf).type ∧
      (host.requestOf (Buffer.receive d)).length = (host.requestOf buf).length ∧
      ((host.requestOf buf).Whole → host.requestOf (Buffer.receive d) = host.requestOf buf) := by
  unfold broadcastBuffer at hd
  dsimp only at hd
  split_ifs at hd
  unfold send at hd
  split_ifs at hd with hn
  obtain rfl := Option.some.inj hd
  set n := ntohs (Message.ofBytes buf.1).length + kDiomedesHeaderSize with hndef
  have htake : (Buffer.receive (buf.1.take n)).1.take n = buf.1.take n :=
    take_receive_take buf.2 (buf.2 ▸ hn)
  obtain ⟨htype, hlength⟩ := ofBytes_congr htake (Nat.le_add_left _ _)
  have hlength' : (host.requestOf (Buffer.receive (buf.1.take n))).length =
      (host.requestOf buf).length := congrArg (fun l => UInt16.ofNat (ntohs l)) hlength
  refine ⟨htype, hlength', fun hw => ?_⟩
  have hnat : (host.requestOf buf).length.toNat = ntohs (Message.ofBytes buf.1).length :=
    UInt16.toNat_ofNat_of_lt' (ntohs_lt _)
  refine RequestMessage.ext htype hlength' ?_
  unfold RequestMessage.Whole at hw
  rw [hnat, requestOf_preq] at hw
  rw [requestOf_preq, requestOf_preq]
  exact preqOf_congr (drop_take_of_take htake kDiomedesHeaderSize (by omega)) hw

/-! ## Votes -/

/-- What `SendVote` sends, if it does not end. -/
theorem sendVote_eq {self : IdBytes} {currReqId : ℕ} {last voteBuffer : Buffer} {d : Bytes}
    (hd : sendVote self currReqId last voteBuffer = some d) :
    ntohs last.msg.length ≤ voteRoom ∧ ntohl last.msg.reqId = currReqId ∧
      (last.msg.type = primaryRequest ∨ last.msg.type = 0) ∧
      d = voteFor self ((last.1.drop kDiomedesHeaderSize).take (ntohs last.msg.length)) := by
  unfold sendVote at hd
  dsimp only at hd
  obtain ⟨lastReq, hcopy, hd⟩ := Option.bind_eq_some_iff.mp hd
  unfold memcpy at hcopy
  split_ifs at hcopy with hroom
  obtain rfl := Option.some.inj hcopy
  have hle : ntohs last.msg.length ≤ voteRoom := by
    have := hroom.1
    rwa [List.length_drop, voteBuffer.2] at this
  split_ifs at hd with hreq htype
  refine ⟨hle, not_not.mp hreq, ?_, ?_⟩
  · by_contra hnot
    exact htype (not_or.mp hnot)
  · have hlen : ((last.1.drop kDiomedesHeaderSize).take (ntohs last.msg.length)).length =
        ntohs last.msg.length := by
      rw [List.length_take, Nat.min_eq_left hroom.2]
    have hsum : ntohs (htons (96 + ntohs last.msg.length)) = 96 + ntohs last.msg.length := by
      refine ntohs_htons ?_
      unfold voteRoom kMaxDiomedesMessage lastReqOffset kDiomedesHeaderSize at hle
      omega
    have hbytes (rest : Bytes) : [vote, 0] ++ leBytes 2 (htons (96 + ntohs last.msg.length)) ++
        (self.1 ++ ((last.1.drop kDiomedesHeaderSize).take (ntohs last.msg.length) ++ rest)) =
        voteFor self ((last.1.drop kDiomedesHeaderSize).take (ntohs last.msg.length)) ++ rest := by
      simp only [voteFor, hlen, List.append_assoc]
    rw [hsum, hbytes, send_append (by rw [length_voteFor, hlen, lastReqOffset]; omega)] at hd
    exact (Option.some.inj hd).symm

/-- Nothing is in a buffer that has been cleared. -/
theorem size_preqOf_zeros (host : Host) (h : 12 ≤ n) : (host.preqOf (zeros n)).size = 24 := by
  have hzeros : ∀ k, (zeros n).drop k = zeros (n - k) := fun k => List.drop_replicate
  unfold PrimaryRequest.size Host.preqOf
  dsimp only
  rw [sendBytes_rpc, hzeros, sendBytes, size, take_zeros (by omega)]
  rfl

theorem preqOf_zeros (host : Host) {m : ℕ} (hm : 24 ≤ m) (hn : 24 ≤ n) :
    host.preqOf (zeros m) = host.preqOf (zeros n) := by
  refine preqOf_congr (n := 24) ?_ (size_preqOf_zeros host (by omega)).le
  rw [take_zeros hm, take_zeros hn]

/-- **What comes of a vote**: the voter, the length, and the request if the length covers it. -/
theorem Backup.sendVote_datagram {s : Backup} {self : IdBytes} {last voteBuffer : Buffer}
    {d : Bytes} (hself : DiomedesId.ofBytes self.1 = s.self)
    (hlast : host.requestOf last = s.lastPrimaryRequest)
    (hfirst : s.currReqId = 0 → last = Buffer.receive [])
    (hd : Diomedes.sendVote self s.currReqId.toNat last voteBuffer = some d) :
    ∃ msg, s.sendVote = .ok { s with sent := .vote msg s.primaryAddr :: s.sent } ∧
      (host.voteOf (Buffer.receive d)).voter = msg.voter ∧
      (host.voteOf (Buffer.receive d)).length = msg.length ∧
      (msg.Whole → host.voteOf (Buffer.receive d) = msg) := by
  obtain ⟨hroom, hreq, htype, rfl⟩ := Diomedes.sendVote_eq hd
  set len := ntohs last.msg.length with hlen
  set p := (last.1.drop kDiomedesHeaderSize).take len with hp
  have hle : len ≤ 1372 := hroom
  have hplen : p.length = len := by
    rw [hp, List.length_take, List.length_drop, last.2]
    unfold kMaxDiomedesMessage kDiomedesHeaderSize
    omega
  have hlength : s.lastPrimaryRequest.length.toNat = len := by
    rw [← hlast]
    exact UInt16.toNat_ofNat_of_lt' (ntohs_lt _)
  have hpreq : s.lastPrimaryRequest.preq = host.preqOf (last.1.drop kDiomedesHeaderSize) := by
    rw [← hlast, requestOf_preq]
  have hreqId : s.lastPrimaryRequest.preq.reqId = s.currReqId := by
    rw [← hlast]
    change UInt32.ofNat (ntohl last.msg.reqId) = _
    rw [hreq, UInt32.ofNat_toNat]
  have hmsg : (Buffer.receive (voteFor self p)).msg = _ :=
    (congrArg Message.ofBytes (receive_voteFor self (hplen ▸ hroom))).trans
      (ofBytes_append _ _ _ (htons_lt _))
  have hvoteLength : (host.voteOf (Buffer.receive (voteFor self p))).length =
      sizeofDiomedesId + s.lastPrimaryRequest.length := by
    refine UInt16.toNat_inj.mp ?_
    change (UInt16.ofNat (ntohs (Buffer.receive (voteFor self p)).msg.length)).toNat = _
    rw [hmsg, ntohs_htons (by omega), hplen, UInt16.toNat_add, hlength]
    rfl
  have hvoter : (host.voteOf (Buffer.receive (voteFor self p))).voter = s.self := by
    rw [← hself]
    change DiomedesId.ofBytes (((receive (voteFor self p)).drop kDiomedesHeaderSize).take 96) = _
    rw [receive_voteFor self (hplen ▸ hroom)]
    congr 1
    exact List.take_left' self.2
  refine ⟨⟨sizeofDiomedesId + s.lastPrimaryRequest.length, s.self, s.lastPrimaryRequest.preq⟩, ?_,
    hvoter, hvoteLength, fun hw => VoteMessage.ext hvoteLength hvoter ?_⟩
  · have htype' : ¬ (s.lastPrimaryRequest.type ≠ primaryRequest ∧
        s.lastPrimaryRequest.type ≠ 0) := by
      rw [← hlast]
      exact fun hnot => htype.elim hnot.1 hnot.2
    unfold Backup.sendVote
    dsimp only
    rw [if_neg (by omega), if_neg (not_not.mpr hreqId), if_neg htype']
  · change host.preqOf ((receive (voteFor self p)).drop lastReqOffset) = s.lastPrimaryRequest.preq
    rw [drop_receive_voteFor self (hplen ▸ hroom), hpreq]
    obtain hzero | hcovers := hw
    · -- the buffer has been cleared, and nothing has been put into it
      have hcleared := hfirst (hreqId.symm.trans hzero)
      have hnone : p = [] := by
        refine List.eq_nil_of_length_eq_zero (hplen.trans ?_)
        rw [hlen, hcleared]
        decide +kernel
      rw [hnone, hcleared]
      exact preqOf_zeros host (by decide) (by decide)
    · dsimp only at hcovers
      rw [UInt16.toNat_add, hlength, hpreq] at hcovers
      change _ ≤ (96 + len) % 2 ^ 16 at hcovers
      refine preqOf_congr (n := len) ?_ (by omega)
      rw [List.take_left' hplen]

/-! ## Counting a vote -/

/-- The last request is broadcast: its bytes are sent. -/
theorem broadcastBuffer_of {s s' : Replica} {last : Buffer}
    (hlast : host.requestOf last = s.lastPrimaryRequest)
    (h : s.broadcastPrimaryRequest = some s') :
    ∃ d, broadcastBuffer last.1 = some d ∧ s' = s.note (.broadcast s.lastPrimaryRequest) := by
  unfold Replica.broadcastPrimaryRequest at h
  split_ifs at h with hcan
  obtain ⟨htype, hsend⟩ := hcan
  rw [← hlast] at htype hsend
  have hlength : (host.requestOf last).length.toNat = ntohs (Message.ofBytes last.1).length :=
    UInt16.toNat_ofNat_of_lt' (ntohs_lt _)
  unfold RequestMessage.Sendable at hsend
  rw [hlength] at hsend
  refine ⟨last.1.take (ntohs (Message.ofBytes last.1).length + kDiomedesHeaderSize), ?_,
    (Option.some.inj h).symm⟩
  unfold broadcastBuffer send
  dsimp only
  rw [if_pos (show (Message.ofBytes last.1).type = primaryRequest from htype),
    if_pos (hsend.trans last.2.ge)]

/-- A request that is taken over from a vote. -/
theorem adopt_datagram {vote last : Buffer}
    (hlen : ntohs vote.msg.length + kDiomedesHeaderSize ≤ kMaxDiomedesMessage)
    (hcovers : 96 + (host.voteOf vote).lastReq.size ≤ (host.voteOf vote).length.toNat) :
    ∃ last' : Buffer, adopt vote last = some last'.1 ∧ host.requestOf last' =
      ⟨last.msg.type, (host.voteOf vote).length - sizeofDiomedesId,
        (host.voteOf vote).lastReq⟩ := by
  have hlength : (host.voteOf vote).length.toNat = ntohs vote.msg.length :=
    UInt16.toNat_ofNat_of_lt' (ntohs_lt _)
  rw [hlength] at hcovers
  obtain ⟨size, hsize⟩ := Nat.le.dest ((Nat.le_add_right 96 _).trans hcovers)
  have hle : size ≤ 1372 := by
    unfold kMaxDiomedesMessage kDiomedesHeaderSize at hlen
    omega
  have hvote : (vote.1.drop lastReqOffset).length = 1372 := by
    rw [List.length_drop, vote.2]
    rfl
  have hlast : (last.1.drop kDiomedesHeaderSize).length = 1468 := by
    rw [List.length_drop, last.2]
    rfl
  set preq := (vote.1.drop lastReqOffset).take size ++ (last.1.drop kDiomedesHeaderSize).drop size
    with hpreq
  have htake : preq.take size = (vote.1.drop lastReqOffset).take size := by
    rw [hpreq, List.take_left']
    rw [List.length_take, hvote, Nat.min_eq_left hle]
  have hbytes : ([last.msg.type, last.msg.version] ++ leBytes 2 (htons size) ++ preq).length =
      kMaxDiomedesMessage := by
    have hlen' : preq.length = 1468 := by
      rw [hpreq, List.length_append, List.length_take, hvote, List.length_drop (i := size), hlast]
      omega
    rw [List.length_append, hlen', List.length_append, length_leBytes]
    rfl
  refine ⟨⟨_, hbytes⟩, ?_, ?_⟩
  · unfold adopt memcpy
    simp only [← hsize, if_pos (Nat.le_add_right 96 size), Nat.add_sub_cancel_left,
      Option.bind_eq_bind, Option.bind_some]
    rw [if_pos ⟨by omega, by omega⟩]
    rfl
  · have hmsg := @ofBytes_append (htons size) last.msg.type last.msg.version preq
      (htons_lt _)
    refine RequestMessage.ext (congrArg (fun m => m.type) hmsg) (UInt16.toNat_inj.mp ?_) ?_
    · change (UInt16.ofNat (ntohs (Message.ofBytes _).length)).toNat = _
      rw [hmsg, ntohs_htons (by omega), UInt16.toNat_sub, hlength, ← hsize,
        UInt16.toNat_ofNat_of_lt' (by rw [UInt16.size]; omega)]
      change size = (2 ^ 16 - 96 + (96 + size)) % 2 ^ 16
      omega
    · rw [requestOf_preq]
      have hle' : (host.preqOf (vote.1.drop lastReqOffset)).size ≤ size := by
        change 96 + (host.preqOf (vote.1.drop lastReqOffset)).size ≤ _ at hcovers
        omega
      exact preqOf_congr htake hle'

/-- **A vote is counted** as it comes: what the new primary takes over, and what it broadcasts. -/
theorem Replica.reconcile_datagram {s s' : Replica} {last : Buffer} {datagram : Bytes}
    {response : Option TcpRpcMsg} {el el' : Election}
    (hlast : host.requestOf last = s.lastPrimaryRequest)
    (hvalid : ntohs (Buffer.receive datagram).msg.length + kDiomedesHeaderSize =
      min datagram.length kMaxDiomedesMessage)
    (htype : (Buffer.receive datagram).msg.type = vote)
    (hw : (host.voteOf (Buffer.receive datagram)).Whole)
    (h : s.reconcile (host.voteOf (Buffer.receive datagram)) response el = some (el', s')) :
    ∃ (last' : Buffer) (sent : Option Bytes),
      processVote datagram el.minReqId.toNat el.maxReqId.toNat last = some (last'.1, sent) ∧
      host.requestOf last' = s'.lastPrimaryRequest ∧ ∀ d ∈ sent,
        broadcastBuffer last'.1 = some d ∧ .broadcast (host.requestOf last') ∈ s'.deeds := by
  have hid : (host.voteOf (Buffer.receive datagram)).lastReq.reqId.toNat =
      ntohl (leNat (((Buffer.receive datagram).1.drop lastReqOffset).take 4)) :=
    UInt32.toNat_ofNat_of_lt' (swap_lt 4 _)
  have hnot : ¬ (ntohs (Buffer.receive datagram).msg.length + kDiomedesHeaderSize ≠
      min datagram.length kMaxDiomedesMessage ∨ (Buffer.receive datagram).msg.type ≠ vote) := by
    rw [not_or, not_not, not_not]
    exact ⟨hvalid, htype⟩
  unfold Replica.reconcile at h
  dsimp only at h
  unfold processVote
  simp only [if_neg hnot, ← hid, ← UInt32.lt_iff_toNat_lt]
  split_ifs at h with hlt hgt
  · obtain ⟨s₁, hs₁, h⟩ := Option.bind_eq_some_iff.mp h
    obtain ⟨-, rfl⟩ := Prod.mk.inj (Option.some.inj h)
    obtain ⟨d, hd, rfl⟩ := broadcastBuffer_of hlast hs₁
    rw [if_pos hlt]
    refine ⟨last, some d, ?_, hlast, fun d' hd' => ?_⟩
    · rw [hd]
      rfl
    · obtain rfl := Option.some.inj hd'
      exact ⟨hd, hlast ▸ List.mem_cons_self⟩
  · obtain ⟨s₁, hs₁, h⟩ := Option.bind_eq_some_iff.mp h
    obtain ⟨⟨b, s₂⟩, hs₂, h⟩ := Option.bind_eq_some_iff.mp h
    obtain ⟨-, rfl⟩ := Prod.mk.inj (Option.some.inj h)
    have hne : (host.voteOf (Buffer.receive datagram)).lastReq.reqId ≠ 0 := fun hzero => by
      rw [hzero] at hgt
      exact absurd hgt UInt32.not_lt_zero
    obtain ⟨last', hadopt, hlast'⟩ := @adopt_datagram host (Buffer.receive datagram) last
      (hvalid.trans_le (min_le_right _ _)) (hw.resolve_left hne)
    have htype' : last.msg.type = s.lastPrimaryRequest.type := by rw [← hlast]; rfl
    rw [htype'] at hlast'
    obtain ⟨d, hd, rfl⟩ := broadcastBuffer_of hlast' hs₁
    obtain ⟨R, rfl, -⟩ := Replica.runRequest_eq hs₂
    rw [if_neg hlt, if_pos hgt]
    refine ⟨last', some d, ?_, hlast', fun d' hd' => ?_⟩
    · rw [hadopt, Option.bind_eq_bind, Option.bind_some, hd]
      rfl
    · obtain rfl := Option.some.inj hd'
      exact ⟨hd, hlast' ▸ List.mem_cons_of_mem _ List.mem_cons_self⟩
  · obtain ⟨-, rfl⟩ := Prod.mk.inj (Option.some.inj h)
    rw [if_neg hlt, if_neg hgt]
    exact ⟨last, none, rfl, hlast, fun d hd => by cases hd⟩

/-! ## Responses -/

theorem leNat_append_zeros (b : Bytes) (k : ℕ) : leNat (b ++ zeros k) = leNat b := by
  induction b with
  | nil =>
    induction k with
    | zero => rfl
    | succ k ih =>
      change 0 + 256 * leNat ([] ++ zeros k) = 0
      rw [ih]
      rfl
  | cons a b ih => rw [List.cons_append, leNat, ih, leNat]

theorem size_receive (x : TcpRpcMsg) : leNat ((receive x.bytes).take 4) = x.size := by
  have hfour : (x.bytes.take kMaxDiomedesMessage).take 4 = x.bytes.take 4 := by
    rw [List.take_take]
    rfl
  rw [receive, List.take_append, hfour, zeros, List.take_replicate, size]
  exact leNat_append_zeros _ _

/-- **What a client gets of a response**, behind the header, is what is recorded. -/
theorem sendClientResponse_datagram (clientId : UInt32) (x : TcpRpcMsg) :
    (sendClientResponse clientId.toNat (receive x.bytes)).map (List.drop requestOffset) =
      if Fits x.msgSize then some x.sent else none := by
  have hsize : leNat ((receive x.bytes).take 4) % 2 ^ 24 = x.msgSize := by
    rw [size_receive, msgSize]
  unfold sendClientResponse memcpy
  simp only [hsize, length_zeros, length_receive]
  by_cases hfits : Fits x.msgSize
  · have hle : x.msgSize ≤ 1460 := by
      unfold Fits requestOffset kMaxDiomedesMessage kDiomedesHeaderSize at hfits
      omega
    have hcan : x.msgSize ≤ kMaxDiomedesMessage - requestOffset ∧
        x.msgSize ≤ kMaxDiomedesMessage := ⟨hle, hle.trans (by decide)⟩
    have hsent : x.sent.length = x.msgSize := by
      rw [sent, List.length_take, length_receive, Nat.min_eq_left hcan.2]
    rw [if_pos hfits, if_pos hcan, Option.bind_eq_bind, Option.bind_some, ntohs_htons (by omega)]
    change (send (_ ++ (x.sent ++ _)) _).map _ = _
    rw [← List.append_assoc, send_append, Option.map_some]
    · rfl
    · rw [List.length_append, hsent, Message.length_head, requestOffset]
      omega
  · rw [if_neg hfits, if_neg, Option.bind_eq_bind, Option.bind_none, Option.map_none]
    intro hcan
    refine hfits ?_
    have hle : x.msgSize ≤ 1460 := hcan.1
    unfold Fits requestOffset kMaxDiomedesMessage kDiomedesHeaderSize
    omega

end Falcon.Diomedes
