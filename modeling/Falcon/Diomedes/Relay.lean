import Falcon.Machinery.Bytes

/-!
# Diomedes/Relay — the way of a response to the client

`RunRequest` receives the response of the state machine, a record of the RPC record marking
standard: four bytes of record mark, with the last-fragment bit and the length of the payload in
network order, and the payload.  `SendClientResponse` puts it in a datagram to the proxy, and
`ProcessDiomedesResponse` writes it to the connection of the client.  The hosts are little-endian.

`SendClientResponse` takes the length from the record mark as it is in memory, without `ntohl`: for
a record of less than 256 bytes it reads 128 whatever the length is.

* `relayed_iff` — which responses come to the client as they are.
-/

namespace Falcon.Diomedes

open Bytes

/-! ## Messages -/

def kMaxDiomedesMessage : ℕ := 1472

def kDiomedesHeaderSize : ℕ := 4

/-- `diomedes_message`, with a request or a response as its payload; the integers are as they are in
memory.  `request` is the `tcp_rpc_msg` and what is behind it in the buffer. -/
structure Message where
  type : UInt8
  version : UInt8
  length : ℕ
  reqId : ℕ
  clientId : ℕ
  request : Bytes
  deriving DecidableEq, Repr

/-- What is in front of `request`. -/
def requestOffset : ℕ := kDiomedesHeaderSize + 8

def Message.head (m : Message) : Bytes :=
  [m.type, m.version] ++ leBytes 2 m.length ++ leBytes 4 m.reqId ++ leBytes 4 m.clientId

/-- The bytes of the buffer a message is in. -/
def Message.bytes (m : Message) : Bytes := m.head ++ m.request

/-- The message in a buffer. -/
def Message.ofBytes (b : Bytes) : Message where
  type := b.getD 0 0
  version := b.getD 1 0
  length := leNat ((b.drop 2).take 2)
  reqId := leNat ((b.drop 4).take 4)
  clientId := leNat ((b.drop 8).take 4)
  request := b.drop requestOffset

def htons (n : ℕ) : ℕ := swap 2 n

def ntohs (n : ℕ) : ℕ := swap 2 n

def htonl (n : ℕ) : ℕ := swap 4 n

def ntohl (n : ℕ) : ℕ := swap 4 n

/-- The first `n` bytes of a buffer, as `sendto` takes them. -/
def send (b : Bytes) (n : ℕ) : Option Bytes := if n ≤ b.length then some (b.take n) else none

/-- A buffer of the size of a message into which a datagram or a record has been received. -/
def receive (b : Bytes) : Bytes :=
  b.take kMaxDiomedesMessage ++ zeros (kMaxDiomedesMessage - b.length)

/-! ## The response -/

/-- `SendClientResponse` for the buffer `response` of `response_map_`: the datagram. -/
def sendClientResponse (clientId : ℕ) (response : Bytes) : Option Bytes := do
  let msgSize := leNat (response.take 4) % 2 ^ 24
  let request ← memcpy (zeros (kMaxDiomedesMessage - requestOffset)) response msgSize
  let msg : Message := ⟨'S'.toUInt8, 0, htons (msgSize + 8), 0, clientId, request⟩
  send msg.bytes (ntohs msg.length + kDiomedesHeaderSize)

/-- `ProcessDiomedesResponse`: the client, and what is written to its connection. -/
def processDiomedesResponse (datagram : Bytes) : Option (ℕ × Bytes) :=
  if datagram = [] then none
  else do
    let msg := Message.ofBytes (receive datagram)
    let length := ntohl (leNat (msg.request.take 4)) % 2 ^ 24
    let bytes ← send msg.request (length + 4)
    some (ntohl msg.clientId, bytes)

/-- A response of the state machine that fits in a message. -/
structure Response where
  payload : Bytes
  fits : requestOffset + 4 + payload.length ≤ kMaxDiomedesMessage

/-- The record mark, and the payload. -/
def Response.record (r : Response) : Bytes :=
  (leBytes 4 (2 ^ 31 + r.payload.length)).reverse ++ r.payload

/-- What is written for a response that `RunRequest` has received for the client `clientId`. -/
def relay (clientId : ℕ) (r : Response) : Option (ℕ × Bytes) := do
  processDiomedesResponse (← sendClientResponse clientId (receive r.record))

variable {r : Response} {clientId : ℕ} {rest : Bytes}

theorem Message.length_head (m : Message) : m.head.length = requestOffset := rfl

/-- A message is read as it has been written. -/
theorem Message.ofBytes_head (m : Message) (rest : Bytes) (hlength : m.length < 2 ^ 16)
    (hreq : m.reqId < 2 ^ 32) (hclient : m.clientId < 2 ^ 32) :
    Message.ofBytes (m.head ++ rest) = { m with request := rest } := by
  have hl : leNat (leBytes 2 m.length) = m.length := leNat_leBytes hlength
  have hr : leNat (leBytes 4 m.reqId) = m.reqId := leNat_leBytes hreq
  have hc : leNat (leBytes 4 m.clientId) = m.clientId := leNat_leBytes hclient
  change Message.mk m.type m.version (leNat (leBytes 2 m.length)) (leNat (leBytes 4 m.reqId))
    (leNat (leBytes 4 m.clientId)) rest = _
  rw [hl, hr, hc]

theorem Response.length_le (r : Response) : r.payload.length ≤ 1456 := by
  have hfits := r.fits
  unfold requestOffset kDiomedesHeaderSize kMaxDiomedesMessage at hfits
  omega

theorem Response.length_record (r : Response) : r.record.length = r.payload.length + 4 := by
  rw [record, List.length_append, List.length_reverse, length_leBytes]
  omega

/-- What is received is in the buffer. -/
theorem receive_eq {b : Bytes} (h : b.length ≤ kMaxDiomedesMessage) :
    receive b = b ++ zeros (kMaxDiomedesMessage - b.length) := by
  rw [receive, List.take_of_length_le h]

theorem Response.receive_record (r : Response) :
    receive r.record = r.record ++ zeros (kMaxDiomedesMessage - r.record.length) := by
  have hle := r.length_le
  refine receive_eq ?_
  rw [r.length_record]
  unfold kMaxDiomedesMessage
  omega

/-- The record mark as it is in memory. -/
theorem Response.mark (r : Response) (rest : Bytes) :
    leNat ((r.record ++ rest).take 4) = swap 4 (2 ^ 31 + r.payload.length) := by
  rw [record, List.append_assoc, List.take_append_of_le_length (by simp), List.take_of_length_le
    (by simp), swap]

/-- **The size `SendClientResponse` reads**: the length is in its upper bits. -/
theorem Response.msgSize (r : Response) (rest : Bytes) :
    leNat ((r.record ++ rest).take 4) % 2 ^ 24 = 128 + 2 ^ 16 * (r.payload.length / 256) := by
  have hle := r.length_le
  have h24 : (2 ^ 31 + r.payload.length) / 2 ^ 24 % 256 = 128 := by omega
  have h16 : (2 ^ 31 + r.payload.length) / 2 ^ 16 % 256 = 0 := by omega
  have h8 : (2 ^ 31 + r.payload.length) / 2 ^ 8 % 256 = r.payload.length / 256 := by omega
  rw [r.mark, swap_four, h24, h16, h8]
  omega

/-- The size `ProcessDiomedesResponse` reads. -/
theorem Response.length_eq (r : Response) (rest : Bytes) :
    ntohl (leNat ((r.record ++ rest).take 4)) % 2 ^ 24 = r.payload.length := by
  have hle := r.length_le
  rw [r.mark, ntohl, swap_swap (by omega)]
  omega

theorem Response.length_receive (r : Response) :
    (receive r.record).length = kMaxDiomedesMessage := by
  have hle := r.length_le
  rw [r.receive_record, List.length_append, length_zeros, r.length_record]
  unfold kMaxDiomedesMessage
  omega

/-- The 128 bytes that are sent are there. -/
theorem Response.length_sent (r : Response) : ((receive r.record).take 128).length = 128 := by
  rw [List.length_take, r.length_receive]
  rfl

/-- For a payload of less than 256 bytes, the first 128 bytes of the buffer are sent. -/
theorem sendClientResponse_small (clientId : ℕ) (hsmall : r.payload.length < 256) :
    ∃ m : Message, m.length < 2 ^ 16 ∧ m.reqId < 2 ^ 32 ∧ m.clientId = clientId ∧
      sendClientResponse clientId (receive r.record) =
        some (m.head ++ (receive r.record).take 128) := by
  have hsize : leNat ((receive r.record).take 4) % 2 ^ 24 = 128 := by
    rw [r.receive_record, r.msgSize]
    omega
  have hcopy : memcpy (zeros 1460) (receive r.record) 128 =
      some ((receive r.record).take 128 ++ zeros 1332) := by
    rw [memcpy, if_pos (by rw [r.length_receive, length_zeros]; decide)]
    rfl
  have hswap : ntohs (htons 136) = 136 := swap_swap (by decide)
  refine ⟨⟨'S'.toUInt8, 0, htons 136, 0, clientId, []⟩, swap_lt 2 136, Nat.two_pow_pos 32, rfl, ?_⟩
  unfold sendClientResponse
  rw [hsize]
  change (memcpy (zeros 1460) (receive r.record) 128).bind _ = _
  rw [hcopy, Option.bind_some]
  dsimp only
  rw [hswap, Message.bytes, ← List.append_assoc, send, if_pos, List.take_left']
  · rfl
  · rw [List.length_append, r.length_sent]
    rfl
  · rw [List.length_append, List.length_append, r.length_sent]
    change 140 ≤ 12 + 128 + (zeros 1332).length
    rw [length_zeros]
    decide

/-- For any other, the copy leaves the buffer. -/
theorem sendClientResponse_large (hlarge : 256 ≤ r.payload.length) :
    sendClientResponse clientId (receive r.record) = none := by
  have hle := r.length_le
  have hsize := r.msgSize (zeros (kMaxDiomedesMessage - r.record.length))
  rw [← r.receive_record] at hsize
  have hcopy : memcpy (zeros 1460) (receive r.record)
      (leNat ((receive r.record).take 4) % 2 ^ 24) = none := by
    rw [memcpy, if_neg]
    rw [hsize, length_zeros]
    omega
  unfold sendClientResponse
  change (memcpy (zeros 1460) (receive r.record) _).bind _ = _
  rw [hcopy, Option.bind_none]

/-- What the proxy has of the record once it has received the first 128 bytes of the buffer. -/
theorem take_received (r : Response) (hsmall : r.payload.length < 256) :
    ((receive r.record).take 128 ++ zeros 1332).take (r.payload.length + 4) =
      r.record.take 128 ++ zeros (r.payload.length - 124) := by
  have hrecord : (receive r.record).take (r.payload.length + 4) = r.record := by
    rw [r.receive_record]
    exact List.take_left' r.length_record
  rw [List.take_append, r.length_sent, take_zeros (by omega), List.take_take, Nat.min_comm,
    ← List.take_take, hrecord]
  congr 2

/-- What `ProcessDiomedesResponse` makes of the first 128 bytes of the buffer. -/
theorem processDiomedesResponse_small {m : Message} (hsmall : r.payload.length < 256)
    (hlength : m.length < 2 ^ 16) (hreq : m.reqId < 2 ^ 32) (hclient : m.clientId < 2 ^ 32) :
    processDiomedesResponse (m.head ++ (receive r.record).take 128) =
      some (ntohl m.clientId, r.record.take 128 ++ zeros (r.payload.length - 124)) := by
  have hlen : (m.head ++ (receive r.record).take 128).length = 140 := by
    rw [List.length_append, r.length_sent, m.length_head]
    rfl
  have hreceive : receive (m.head ++ (receive r.record).take 128) =
      m.head ++ ((receive r.record).take 128 ++ zeros 1332) := by
    rw [receive_eq (by rw [hlen]; decide), hlen, List.append_assoc]
    rfl
  have hmark : ((receive r.record).take 128 ++ zeros 1332).take 4 = (receive r.record).take 4 := by
    rw [List.take_append_of_le_length (by rw [r.length_sent]; decide), List.take_take]
    rfl
  have hsize : ntohl (leNat ((receive r.record).take 4)) % 2 ^ 24 = r.payload.length := by
    rw [r.receive_record, r.length_eq]
  have hsend : send ((receive r.record).take 128 ++ zeros 1332) (r.payload.length + 4) =
      some (r.record.take 128 ++ zeros (r.payload.length - 124)) := by
    rw [send, if_pos, take_received r hsmall]
    rw [List.length_append, r.length_sent, length_zeros]
    omega
  have hne : m.head ++ (receive r.record).take 128 ≠ [] := fun hnil => by
    rw [hnil] at hlen
    cases hlen
  rw [processDiomedesResponse, if_neg hne, hreceive, Message.ofBytes_head m _ hlength hreq hclient]
  dsimp only
  rw [hmark, hsize, hsend]
  rfl

theorem relay_eq (clientId : ℕ) (r : Response) : relay clientId r =
    (sendClientResponse clientId (receive r.record)).bind processDiomedesResponse := rfl

/-- What is written for a payload of less than 256 bytes. -/
theorem relay_small (client : UInt32) (hsmall : r.payload.length < 256) :
    relay (htonl client.toNat) r =
      some (client.toNat, r.record.take 128 ++ zeros (r.payload.length - 124)) := by
  obtain ⟨m, hlength, hreq, hid, hsend⟩ := sendClientResponse_small (htonl client.toNat) hsmall
  have hproc := processDiomedesResponse_small hsmall hlength hreq (hid ▸ swap_lt 4 client.toNat)
  have hntohl : ntohl (htonl client.toNat) = client.toNat := swap_swap client.toNat_lt
  rw [hid, hntohl] at hproc
  rw [relay_eq, hsend, Option.bind_some, hproc]

/-- **A response is relayed intact** if it has less than 256 bytes, and those past the 128 that are
sent are zero. -/
theorem relayed_iff (client : UInt32) (r : Response) :
    relay (htonl client.toNat) r = some (client.toNat, r.record) ↔
      r.payload.length < 256 ∧ ∀ b ∈ r.payload.drop 124, b = 0 := by
  by_cases hsmall : r.payload.length < 256
  · have hdrop : r.record.drop 128 = r.payload.drop 124 := by
      rw [Response.record, List.drop_append, List.length_reverse, length_leBytes]
      exact List.nil_append _
    have hcut : r.record.take 128 ++ r.payload.drop 124 = r.record := by
      rw [← hdrop, List.take_append_drop]
    rw [relay_small client hsmall, Option.some_inj, Prod.mk_right_inj]
    calc r.record.take 128 ++ zeros (r.payload.length - 124) = r.record
        ↔ zeros (r.payload.length - 124) = r.payload.drop 124 := by
          nth_rewrite 2 [← hcut]
          exact List.append_right_inj _
      _ ↔ r.payload.drop 124 = List.replicate (r.payload.length - 124) 0 := eq_comm
      _ ↔ ∀ b ∈ r.payload.drop 124, b = 0 := by
          rw [List.eq_replicate_iff, List.length_drop]
          exact and_iff_right rfl
      _ ↔ _ := (and_iff_right hsmall).symm
  · rw [relay_eq, sendClientResponse_large (not_lt.mp hsmall)]
    exact ⟨nofun, fun h => absurd h.1 hsmall⟩

/-- A payload of 125 bytes that are not zero. -/
def cutResponse : Response where
  payload := List.replicate 125 1
  fits := by
    rw [List.length_replicate]
    decide

/-- The last byte of it does not come to the client. -/
theorem relay_cut : relay (htonl 65536) cutResponse ≠ some (65536, cutResponse.record) := by
  decide +kernel

end Falcon.Diomedes
