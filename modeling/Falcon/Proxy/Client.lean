import Falcon.Machinery.Keyed
import Falcon.Machinery.Run
import Falcon.Replication.Protocol

/-!
# Proxy/Client — `class rep_client` of the client proxy

`clientproxy.C`.  The proxy sends a request to the primary of the view it knows, and asks all
cohorts for their view when it knows none or has got no answer.  It has Falcon watch the primary;
when the primary is reported, the calls under way are cancelled, and each request waits for a timer
that looks for a new primary.

A request is known by its `rid`.  Which cohort is the primary of a view is a parameter: a cohort
that answers is in some view, and says who its primary is.  The answers come from the two places of
`cohort.C` that fill in an `execute_viewinfo`, and only one of them sets all its fields.
-/

namespace Falcon

/-- `struct cohort_t`; an address is a number. -/
structure CohortId where
  mid : Mid
  addr : ℕ
  name : String
  hypervisor : String
  deriving DecidableEq, Repr

/-- `struct execute_viewinfo`. -/
structure ViewInfo where
  vid : ViewId
  primary : ℕ
  primaryC : CohortId
  deriving DecidableEq, Repr

/-- The answer of a cohort to `REP_BCAST_VIEWINFO`. -/
def ViewInfo.bcast (primary : ViewId → CohortId) (vid : ViewId) : ViewInfo :=
  ⟨vid, (primary vid).addr, primary vid⟩

/-- What a cohort redirects a `REP_EXECUTE` with: `primary_c` is what it has found in `memory`. -/
def ViewInfo.redirect (primary : ViewId → CohortId) (vid : ViewId) (memory : CohortId) : ViewInfo :=
  ⟨vid, (primary vid).addr, memory⟩

/-- A call of the proxy. -/
inductive ProxyCall
  /-- `REP_EXECUTE`, with `rep_execute_cb` to run. -/
  | execute (r : Rid)
  /-- `REP_BCAST_VIEWINFO`, with `rep_viewinfo_cb` to run; it stays until it times out. -/
  | refresh (r : Rid) (retried : Bool)
  deriving DecidableEq, Repr

/-- `class rep_client`. -/
structure RepClient where
  rid : Rid
  primaryMid : Mid
  viewinfo : Option ViewInfo
  /-- `falcon_map_`: the call made last for a request. -/
  falconMap : Keyed Rid ℕ
  /-- The calls that wait for an answer. -/
  calls : Keyed ℕ ProxyCall
  nextCall : ℕ
  /-- The timers of `check_new_primary`: `old_primary_mid` and the request. -/
  timers : List (Mid × Rid)
  /-- The connections to Falcon, with the `mid` their `handle_failed` gets. -/
  watches : Keyed ℕ Mid
  nextWatch : ℕ
  /-- The servers `falcon_connect` has been called for, newest first. -/
  connects : List CohortId
  /-- The requests given to `issue_request`. -/
  issued : List Rid
  /-- The callbacks that have run, newest first. -/
  answered : List (Rid × List UInt8)

namespace RepClient

/-- The constructor; `rid_` is not initialised. -/
def init (rid : Rid) : RepClient where
  rid := rid
  primaryMid := 0
  viewinfo := none
  falconMap := ∅
  calls := ∅
  nextCall := 0
  timers := []
  watches := ∅
  nextWatch := 0
  connects := []
  issued := []
  answered := []

/-- A call is made. -/
def call (c : ProxyCall) (s : RepClient) : RepClient :=
  { s with calls := s.calls.insert s.nextCall c, nextCall := s.nextCall + 1 }

def refreshView (r : Rid) (s : RepClient) : RepClient := s.call (.refresh r false)

def processRequest (r : Rid) (s : RepClient) : RepClient :=
  match s.viewinfo with
  | none => s.refreshView r
  | some _ => { s.call (.execute r) with falconMap := s.falconMap.insert r s.nextCall }

def issueRequest (s : RepClient) : RepClient :=
  let r := s.rid
  { s with rid := r + 1, issued := r :: s.issued }.processRequest r

/-- `falcon_connect(name, hypervisor, mid)`, for the cohort `c`. -/
def falconConnect (c : CohortId) (s : RepClient) : RepClient :=
  { s with
    watches := s.watches.insert s.nextWatch c.mid
    nextWatch := s.nextWatch + 1
    connects := c :: s.connects }

/-- The view information is newer than what the proxy has. -/
def Newer (s : RepClient) (vi : ViewInfo) : Prop := ∀ vi' ∈ s.viewinfo, vi'.vid < vi.vid

instance (s : RepClient) (vi : ViewInfo) : Decidable (s.Newer vi) :=
  inferInstanceAs (Decidable (∀ vi' ∈ s.viewinfo, _))

def updateView (vi : ViewInfo) (s : RepClient) : RepClient :=
  if s.Newer vi then
    { s with viewinfo := some vi, primaryMid := vi.primaryC.mid }.falconConnect vi.primaryC
  else s

/-- `check_new_primary(old_primary_mid, req, cb)`. -/
def checkNewPrimary (old : Mid) (r : Rid) (s : RepClient) : RepClient :=
  if old = s.primaryMid then
    { s.refreshView r with timers := s.timers ++ [(old, r)] }
  else s

/-- `handle_failed(.., mid, fd)`.  Cancelling a call that is over does nothing here; in the code its
`rpc_cb_` dangles, and only a run in which no such call is cancelled is well defined. -/
def handleFailed (mid : Mid) (s : RepClient) : RepClient :=
  if mid ≠ s.primaryMid then s
  else s.falconMap.entries.foldl (fun s e =>
    { s with calls := s.calls.erase e.2, timers := s.timers ++ [(mid, e.1)] }) s

/-! ## Steps -/

inductive Event
  | issueRequest
  /-- `rep_execute_cb` with an error or a time-out. -/
  | executeFailed (n : ℕ)
  /-- `rep_execute_cb` with a reply. -/
  | executed (n : ℕ) (bytes : List UInt8)
  /-- `rep_execute_cb` with a redirect, from a cohort in the view `vid`. -/
  | redirected (n : ℕ) (vid : ViewId) (memory : CohortId)
  /-- `rep_viewinfo_cb` with an answer, from a cohort in the view `vid`. -/
  | viewinfo (n : ℕ) (vid : ViewId)
  /-- `rep_viewinfo_cb` with `RPC_TIMEDOUT`; other errors change nothing. -/
  | viewinfoTimedOut (n : ℕ)
  /-- Falcon reports on the connection `fd`. -/
  | failed (fd : ℕ)
  /-- A timer of `check_new_primary` expires. -/
  | timer (old : Mid) (r : Rid)
  deriving DecidableEq, Repr

/-- The `REP_EXECUTE` `n` is over: `rep_execute_cb` does `cb`, for its request. -/
def completed (n : ℕ) (cb : Rid → RepClient → RepClient) (s : RepClient) : Option RepClient :=
  match s.calls.lookup n with
  | some (.execute r) => some (cb r { s with calls := s.calls.erase n })
  | _ => none

/-- `rep_execute_cb` on a reply: the callback of the request runs. -/
def reply (bytes : List UInt8) (r : Rid) (s : RepClient) : RepClient :=
  { s with falconMap := s.falconMap.erase r, answered := (r, bytes) :: s.answered }

/-- `rep_execute_cb` on a redirect. -/
def redirect (vi : ViewInfo) (r : Rid) (s : RepClient) : RepClient :=
  (s.updateView vi).processRequest r

/-- `rep_viewinfo_cb` with an answer to the call `n`. -/
def repViewinfoCb (vi : ViewInfo) (n : ℕ) (s : RepClient) : Option RepClient :=
  match s.calls.lookup n with
  | some (.refresh r retried) =>
    let s := s.updateView vi
    if retried then some s
    else some ({ s with calls := s.calls.insert n (.refresh r true) }.processRequest r)
  | _ => none

/-- `rep_viewinfo_cb` with `RPC_TIMEDOUT`. -/
def viewinfoTimedOut (n : ℕ) (s : RepClient) : Option RepClient :=
  match s.calls.lookup n with
  | some (.refresh r retried) =>
    let s := { s with calls := s.calls.erase n }
    some (if retried then s else s.refreshView r)
  | _ => none

def step (primary : ViewId → CohortId) (s : RepClient) (e : Event) : Option RepClient :=
  match e with
  | .issueRequest => some s.issueRequest
  | .executeFailed n => s.completed n refreshView
  | .executed n bytes => s.completed n (reply bytes)
  | .redirected n vid memory => s.completed n (redirect (.redirect primary vid memory))
  | .viewinfo n vid => s.repViewinfoCb (.bcast primary vid) n
  | .viewinfoTimedOut n => s.viewinfoTimedOut n
  | .failed fd =>
    match s.watches.lookup fd with
    | some mid => some ({ s with watches := s.watches.erase fd }.handleFailed mid)
    | none => none
  | .timer old r =>
    if (old, r) ∈ s.timers then
      some ({ s with timers := s.timers.erase (old, r) }.checkNewPrimary old r)
    else none

end RepClient

end Falcon
