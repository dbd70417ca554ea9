import Falcon.Machinery.Keyed

/-!
# Spy/Protocol — the messages between a client library and an enforcer

`spy_prot.x` (requests to an enforcer) and `client_prot.x` (reports to a client), with the status
codes of `status.h`.  A target is named by its handle *and* the generation vector the client
believes it to be at: the generations of the layers below it, then its own.
-/

namespace Falcon

/-- `str`: the string identifier of a target. -/
abbrev Handle := String

/-- `gen_no`. -/
abbrev GenNo := UInt32

/-- `enum spy_status`. -/
inductive SpyStatus
  | success | unknownTarget | badGenVec | futureGen | longDead | registerAck | cancelAck
  | cancelError | killAck | genResp | up | down | unknownError
  deriving DecidableEq, Repr

/-- `enum clnt_stat`, as far as the code tells its values apart: `failed` is every other code. -/
inductive ClntStat
  | success | timedOut | failed
  deriving DecidableEq, Repr

/-- `struct target_t`. -/
structure TargetT where
  handle : Handle
  generation : List GenNo
  deriving DecidableEq, Repr

/-- `struct client_addr_t`; `ipaddr` and `port` are in network byte order. -/
structure ClientAddr where
  ipaddr : UInt32
  port : UInt32
  clientTag : UInt32
  deriving DecidableEq, Repr

/-- `struct spy_register_arg`. -/
structure SpyRegisterArg where
  target : TargetT
  lethal : Bool
  upIntervalMs : ℤ
  client : ClientAddr
  deriving DecidableEq, Repr

/-- `struct spy_cancel_arg`. -/
structure SpyCancelArg where
  target : TargetT
  client : ClientAddr
  deriving DecidableEq, Repr

/-- A call to the program `SPY_PROG`; `SPY_KILL` and `SPY_GET_GEN` carry a target only. -/
inductive Request
  | null
  | register (arg : SpyRegisterArg)
  | cancel (arg : SpyCancelArg)
  | kill (target : TargetT)
  | getGen (target : TargetT)
  deriving DecidableEq, Repr

/-- The target of a request; `SPY_NULL` has none, and an enforcer asks its layer nothing then. -/
def Request.target : Request → Handle
  | .null => ""
  | .register arg => arg.target.handle
  | .cancel arg => arg.target.handle
  | .kill target => target.handle
  | .getGen target => target.handle

/-- `struct spy_res`. -/
structure SpyRes where
  target : TargetT
  status : SpyStatus
  deriving DecidableEq, Repr

/-- `struct client_up_arg`. -/
structure ClientUpArg where
  handle : Handle
  generation : List GenNo
  clientTag : UInt32
  deriving DecidableEq, Repr

/-- `struct client_down_arg`. -/
structure ClientDownArg where
  handle : Handle
  generation : List GenNo
  layerStatus : UInt32
  killed : Bool
  wouldKill : Bool
  clientTag : UInt32
  deriving DecidableEq, Repr

/-- The text `"%s:%u:%u"` an enforcer names a client by, kept as the three numbers it prints: the
dotted address, the port in host order and the tag. -/
structure ClientId where
  ipaddr : UInt32
  port : UInt16
  clientTag : UInt32
  deriving DecidableEq, Repr

/-- `ntohs` on a little-endian host. -/
def ntohs (p : UInt16) : UInt16 := (p <<< 8) ||| (p >>> 8)

/-- The name `GetClient` prints for an address; `ntohs` takes the low 16 bits of the `uint32_t`. -/
def ClientAddr.id (addr : ClientAddr) : ClientId :=
  ⟨addr.ipaddr, ntohs addr.port.toUInt16, addr.clientTag⟩

end Falcon
