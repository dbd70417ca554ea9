import Falcon.Machinery.Bytes
import Falcon.Machinery.Keyed
import Mathlib.Data.Finset.Card
import Mathlib.Data.UInt

/-!
# Diomedes/State — the state of a replica

The globals of `diomedes.cc` that the processing of requests and the counting of votes read and
write.  Integers of messages are as `ntohl` and `ntohs` read them.

`deeds` records what the replica has done, newest first; no function of the program reads it.
-/

namespace Falcon.Diomedes

/-- `replica_mode`. -/
inductive Mode
  | bootstrap | backup | addingReplica | processingRequest | waitingForRequests | newPrimary
  | newBackup
  deriving DecidableEq, Repr

/-- `tcp_rpc_msg`: `rm_xid`, which is where the host has it, and the bytes, from the record mark
on. -/
structure TcpRpcMsg where
  xid : UInt64
  bytes : Bytes
  deriving DecidableEq, Repr

/-- `diomedes_primary_request`. -/
structure PrimaryRequest where
  reqId : UInt32
  clientId : UInt32
  request : TcpRpcMsg
  deriving DecidableEq, Repr

/-- `PRIMARY_REQUEST`. -/
def primaryRequest : UInt8 := 'R'.toUInt8

/-- `CLIENT_REQUEST`. -/
def clientRequest : UInt8 := 'Q'.toUInt8

/-- A `diomedes_message` with a request of a client or of a primary. -/
@[ext] structure RequestMessage where
  type : UInt8
  length : UInt16
  preq : PrimaryRequest
  deriving DecidableEq, Repr

/-- `diomedes_id`. -/
structure DiomedesId where
  handle : String
  domain : String
  hypervisor : String
  deriving DecidableEq, Repr

/-- `sizeof(diomedes_id)`. -/
def sizeofDiomedesId : UInt16 := 96

/-- The string of a voter or an acker. -/
def DiomedesId.name (id : DiomedesId) : String := id.handle ++ id.domain ++ id.hypervisor

/-- A `diomedes_message` with a vote. -/
@[ext] structure VoteMessage where
  length : UInt16
  voter : DiomedesId
  lastReq : PrimaryRequest
  deriving DecidableEq, Repr

/-- The static variables of `CountVote`. -/
structure Election where
  votesNeeded : ℕ
  votes : Finset String
  minReqId : UInt32
  maxReqId : UInt32
  deriving DecidableEq

/-- What a replica does that concerns requests. -/
inductive Deed
  | broadcast (msg : RequestMessage)
  /-- A request is handed to `RunRequest`. -/
  | ran (preq : PrimaryRequest)
  /-- `SendClientResponse`, and what it sends of the response. -/
  | responded (clientId : UInt32) (sent : Bytes)
  deriving DecidableEq, Repr

/-- A replica. -/
structure Replica where
  mode : Mode
  currReqId : UInt32
  lastValidReqId : UInt32
  lastPrimaryRequest : RequestMessage
  /-- `active_servers_`, itself included. -/
  activeServers : List DiomedesId
  requestMap : Keyed UInt32 RequestMessage
  responseMap : Keyed UInt32 TcpRpcMsg
  /-- The static variables of `CountVote`, after its first call. -/
  election : Option Election
  deeds : List Deed

/-- The id of the last request handed to `RunRequest`; ids start at 1. -/
def Replica.lastRun (s : Replica) : UInt32 :=
  ((s.deeds.filterMap fun | .ran preq => some preq.reqId | _ => none).head?).getD 0

end Falcon.Diomedes
