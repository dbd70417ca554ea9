import Falcon.Machinery.Keyed
import Falcon.Replication.Protocol

/-!
# Replication/State — the state of `class cohort`

One cohort of a replication group.  It is in a view, and has a log that it executes as far as it
knows it to be committed; a change of view is run by a manager, which may be any of the cohorts
(`view_change_attempt`), and a cohort fetches what is missing in its log from another one
(`pull_log_state`).

`handed` records what is given to the execution step of `advance_executed`, `answered` the requests
answered with `ok`, `decided` the entries `advance_committed` has committed, with who had
acknowledged them, `offer` the call `accepted_view_` is from, and `latest` of a pull what
`pull_log` was called with; nobody reads them.  The
constructor of the first cohort of a group forms its synthetic view by itself, and this counts as
executed.
-/

namespace Falcon

/-- A `svccb *`: the call it answers, by its caller and its number there. -/
structure Sbp where
  caller : Mid
  call : ℕ
  deriving DecidableEq, Repr

/-- The calls of `REP_PROG` a cohort makes or serves; `REP_BCAST_LETMEIN` is a `letMeIn` to all. -/
inductive Call
  | execute (arg : ExecuteArg)
  | replicate (arg : ReplicateArg)
  | fetchlog (vs : Viewstamp)
  | letMeIn (joiner : Mid)
  | viewChange (arg : ViewChangeArg)
  | newView (arg : NewViewArg)
  | initView (f : ViewForm)
  deriving DecidableEq, Repr

/-- What a call is answered with. -/
inductive Answer
  | execute (res : ExecuteRes)
  | replicate (vs : Viewstamp)
  | fetchlog (arg : ExecuteArg)
  | viewChange (res : ViewChangeRes)
  | newView (accepted : Bool)
  | void
  /-- `reject(SYSTEM_ERR)`. -/
  | error
  deriving DecidableEq, Repr

/-- What a handler gives to the network. -/
inductive Output
  | call (n : ℕ) (dest : Mid) (c : Call)
  | answer (sbp : Sbp) (a : Answer)
  deriving DecidableEq, Repr

/-- `struct ackset`. -/
structure Ackset (α : Type) where
  received : OrdSet α
  expected : OrdSet α
  deriving DecidableEq, Repr

/-- `enum request_state`. -/
inductive RequestState
  | logged | committed | executing | executed
  deriving DecidableEq, Repr

/-- `struct request_log_entry`, under its viewstamp. -/
structure LogEntry where
  ack : Option (Ackset Mid)
  sbp : Option Sbp
  state : RequestState
  arg : ExecuteArg
  deriving DecidableEq, Repr

/-- A new entry that waits for no acknowledgement. -/
def LogEntry.plain (arg : ExecuteArg) : LogEntry := ⟨none, none, .logged, arg⟩

/-- `struct reply_cache_entry`, under its client; `rle` is the viewstamp of the log entry. -/
structure ReplyCacheEntry where
  rid : Rid
  rle : Viewstamp
  reply : List UInt8
  deriving DecidableEq, Repr

/-- A `ptr<view_change_attempt>`. -/
abbrev AttemptRef := ℕ

/-- `struct view_change_attempt`. -/
structure ViewChangeAttempt where
  prepareAccepted : OrdSet Mid
  prepareDone : OrdSet Mid
  nvAccepted : OrdSet Mid
  nvDone : OrdSet Mid
  /-- The accepts, oldest first. -/
  vcaccepts : List ViewChangeAccept
  newview : Option View
  mergedVid : ViewId
  /-- `nvarg`, once the view is chosen. -/
  nvarg : Option NewViewArg
  proposedVid : ViewId
  underlings : OrdSet Mid
  aborted : Bool
  deriving DecidableEq, Repr

/-- A `ptr<pull_log_state>`. -/
abbrev PullRef := ℕ

/-- `donecb` of a pull. -/
inductive DoneCb
  /-- `replicate_pulldone(sbp, vs)`. -/
  | replicate (sbp : Sbp) (vs : Viewstamp)
  /-- `new_view_pulldone(sbp)`. -/
  | newView (sbp : Sbp)
  deriving DecidableEq, Repr

/-- `struct pull_log_state`; `donecb` is `cbb_null` once it has been called. -/
structure PullLogState where
  ack : Ackset Viewstamp
  bottomview : ViewId
  src : Mid
  donecb : Option DoneCb
  ok : Bool
  bottomdone : Bool
  /-- What the log is pulled up to. -/
  latest : Viewstamp
  deriving DecidableEq, Repr

/-- The callback of a call. -/
inductive Continuation
  | replicateCb (backup : Mid)
  | viewChangePrepareCb (attempt : AttemptRef) (c : Mid)
  | viewChangeNewviewCb (attempt : AttemptRef) (c : Mid)
  | fetchlogCb (pls : PullRef) (vs : Viewstamp)
  deriving DecidableEq, Repr

/-- `mode_`. -/
inductive Mode
  | active | bootstrap | viewchange
  deriving DecidableEq, Repr

/-- `class cohort`. -/
structure Cohort where
  self : Mid
  mode : Mode
  validView : Bool
  view : View
  proposedVid : ViewId
  acceptedView : Option View
  vcattempt : Option AttemptRef
  latest : Viewstamp
  committed : Viewstamp
  executed : Viewstamp
  log : Keyed Viewstamp LogEntry
  jumps : Keyed Viewstamp Viewstamp
  replycache : Keyed Mid ReplyCacheEntry
  /-- `active_servers_`, sorted. -/
  activeServers : List Mid
  /-- How many timers of `view_is_down` have been started and have not expired. -/
  timers : ℕ
  /-- `ping_timeout_cb_` is set. -/
  pingTimeout : Bool
  attempts : AttemptRef → ViewChangeAttempt
  nextAttempt : AttemptRef
  pulls : PullRef → PullLogState
  nextPull : PullRef
  /-- The calls that wait for an answer. -/
  calls : Keyed ℕ Continuation
  nextCall : ℕ
  /-- The requests given to the back end and not done, oldest first. -/
  executing : List Viewstamp
  /-- What the handler that runs has given to the network, newest first. -/
  out : List Output
  /-- What has been given to the execution step, oldest first. -/
  handed : List (Viewstamp × ExecuteArg)
  /-- The requests answered with `ok`. -/
  answered : List (Viewstamp × ExecuteArg)
  /-- The entries that have been committed, newest first. -/
  decided : List (Viewstamp × ExecuteArg × Ackset Mid)
  /-- The `REP_NEW_VIEW` of `acceptedView`. -/
  offer : Option NewViewArg

namespace Cohort

/-- An attempt that has just been allocated. -/
def noAttempt : ViewChangeAttempt := ⟨[], [], [], [], [], none, .zero, none, .zero, [], true⟩

/-- A pull that has ended. -/
def noPull : PullLogState := ⟨⟨[], []⟩, .zero, 0, none, false, false, .zero⟩

/-- A cohort that has been told to join a group. -/
def boot (mid : Mid) : Cohort where
  self := mid
  mode := .bootstrap
  validView := false
  view := ⟨.zero, 0, []⟩
  proposedVid := .zero
  acceptedView := none
  vcattempt := none
  latest := .zero
  committed := .zero
  executed := .zero
  log := ∅
  jumps := ∅
  replycache := ∅
  activeServers := []
  timers := 0
  pingTimeout := false
  attempts := fun _ => noAttempt
  nextAttempt := 0
  pulls := fun _ => noPull
  nextPull := 0
  calls := ∅
  nextCall := 0
  executing := []
  out := []
  handed := []
  answered := []
  decided := []
  offer := none

/-- The formation of the synthetic view of the cohort `mid`. -/
def synthetic (mid : Mid) : ViewForm := ⟨.zero, ⟨⟨1, mid⟩, mid, []⟩⟩

/-- The first cohort of a group. -/
def founder (mid : Mid) : Cohort :=
  let f := synthetic mid
  let vs : Viewstamp := ⟨f.view.vid, 0⟩
  { boot mid with
    mode := .active
    validView := true
    view := f.view
    latest := vs
    committed := vs
    executed := vs
    log := AList.singleton vs (.plain f.arg)
    jumps := AList.singleton f.prev vs
    activeServers := [mid]
    handed := [(vs, f.arg)] }

end Cohort

end Falcon
