import Falcon.Replication.State

/-!
# Replication/Step — the methods of `class cohort`

The methods of `cohort.C` as functions on the state.  A result `none` is the end of the program: a
failed `assert`, a `fatal`, a null pointer or an uninitialised cohort that is used, or a loop that
does not end.

A loop over the log visits an entry in every round, and follows the jump table, which can lead back
to an entry it has visited: it is given as many rounds as there are entries.
-/

namespace Falcon

namespace Cohort

/-! ## The network -/

/-- `c_->call(.., cb)`. -/
def call (dest : Mid) (c : Call) (cb : Option Continuation) (s : Cohort) : Cohort :=
  { s with
    out := .call s.nextCall dest c :: s.out
    nextCall := s.nextCall + 1
    calls := match cb with
      | some cb => s.calls.insert s.nextCall cb
      | none => s.calls }

/-- `sbp->reply(..)` or `sbp->reject(SYSTEM_ERR)`. -/
def answer (sbp : Sbp) (a : Answer) (s : Cohort) : Cohort :=
  { s with out := .answer sbp a :: s.out }

/-! ## The log -/

def isViewMember (s : Cohort) (mid : Mid) : Bool := s.validView && decide (mid ∈ s.view.mids)

def vsNext (s : Cohort) (vs : Viewstamp) : Option Viewstamp :=
  match s.jumps.lookup vs with
  | some next => some next
  | none => vs.succ

/-- `vs_jumps_update(rle)`, for a view formation that can be unmarshaled. -/
def jump (vs : Viewstamp) (f : ViewForm) (s : Cohort) : Cohort :=
  match s.jumps.lookup f.prev with
  | none => { s with jumps := s.jumps.insert f.prev vs }
  | some next => if next < vs then { s with jumps := s.jumps.insert f.prev vs } else s

/-- `log_.insert(rle)`. -/
def logEntry (vs : Viewstamp) (rle : LogEntry) (s : Cohort) : Cohort :=
  { s with log := s.log.add vs rle }

/-- `vs_jumps_update(rle)` and `log_.insert(rle)`. -/
def insert (vs : Viewstamp) (rle : LogEntry) (s : Cohort) : Option Cohort :=
  if vs.ts ≠ 0 then some (s.logEntry vs rle)
  else
    match rle.arg.request with
    | .form f => some ((s.jump vs f).logEntry vs rle)
    | .operation _ => none

/-- Change an entry that is in the log. -/
def setEntry (vs : Viewstamp) (rle : LogEntry) (s : Cohort) : Cohort :=
  { s with log := s.log.insert vs rle }

/-! ## Execution -/

/-- The rest of `advance_executed` for the formation of a view. -/
def enter (f : ViewForm) (s : Cohort) : Cohort :=
  { s with
    view := f.view
    proposedVid := f.view.vid
    validView := true
    acceptedView := none
    offer := none
    attempts := match s.vcattempt with
      | some a => Function.update s.attempts a { s.attempts a with aborted := true }
      | none => s.attempts
    mode := .active
    timers := if s.pingTimeout then s.timers - 1 else s.timers
    pingTimeout := false
    activeServers := f.view.mids }

/-- One round of the loop of `advance_executed`. -/
def execute (vs : Viewstamp) (rle : LogEntry) (s : Cohort) : Option Cohort := do
  let s ← if vs.ts ≠ 0 then some { s with executing := s.executing ++ [vs] }
    else match rle.arg.request with
      | .form f => some (s.enter f)
      | .operation _ => none
  some { s.setEntry vs { rle with state := .executing } with
    executed := vs
    handed := s.handed ++ [(vs, rle.arg)] }

/-- The loop of `advance_executed`. -/
def executeFrom : ℕ → Viewstamp → Cohort → Option Cohort
  | 0, _, _ => none
  | n + 1, vs, s =>
    if vs ≤ s.committed then
      match s.log.lookup vs with
      | none => some s
      | some rle => do
        let s ← s.execute vs rle
        executeFrom n (← s.vsNext vs) s
    else some s

def advanceExecuted (s : Cohort) : Option Cohort := do
  executeFrom (s.log.size + 1) (← s.vsNext s.executed) s

/-- The loop of `advance_committed`. -/
def commitFrom : ℕ → Viewstamp → Cohort → Option Cohort
  | 0, _, _ => none
  | n + 1, vs, s =>
    if vs ≤ s.latest then do
      let rle ← s.log.lookup vs
      let ack ← rle.ack
      if ack.received.containsMajorityOf ack.expected then
        let s := { s.setEntry vs { rle with ack := none, state := .committed } with
          committed := vs
          decided := (vs, rle.arg, ack) :: s.decided }
        commitFrom n (← s.vsNext vs) s
      else some s
    else some s

def advanceCommitted (s : Cohort) : Option Cohort := do
  let s ← commitFrom (s.log.size + 1) (← s.vsNext s.committed) s
  s.advanceExecuted

def executeDone (vs : Viewstamp) (reply : List UInt8) (s : Cohort) : Option Cohort := do
  let rle ← s.log.lookup vs
  let s := { s with
    replycache := s.replycache.insert rle.arg.client ⟨rle.arg.rid, vs, reply⟩
    log := s.log.insert vs { rle with state := .executed, sbp := none } }
  match rle.sbp with
  | some sbp =>
    some { s.answer sbp (.execute (.ok reply)) with answered := (vs, rle.arg) :: s.answered }
  | none => some s

/-! ## Replication -/

/-- A `REP_REPLICATE` to each of the backups. -/
def replicateTo (ra : ReplicateArg) (s : Cohort) (backups : List Mid) : Cohort :=
  backups.foldl (fun s b => s.call b (.replicate ra) (some (.replicateCb b))) s

def formView (f : ViewForm) (s : Cohort) : Option Cohort :=
  if f.view.primary = s.self then do
    let vs : Viewstamp := ⟨f.view.vid, 0⟩
    let s ← { s with latest := vs, committed := vs }.insert vs (.plain f.arg)
    let s ← s.advanceCommitted
    some (s.replicateTo ⟨vs, f.arg, vs⟩ f.view.backups)
  else none

/-- The loop of `replicate_cb`: the entries up to `last` are acknowledged by `backup`. -/
def acknowledgeFrom (backup : Mid) (last : Viewstamp) : ℕ → Viewstamp → Cohort → Option Cohort
  | 0, _, _ => none
  | n + 1, vs, s =>
    if vs ≤ last then do
      let rle ← s.log.lookup vs
      let s := match rle.ack with
        | some ack =>
          s.setEntry vs { rle with ack := some { ack with received := ack.received.insert backup } }
        | none => s
      acknowledgeFrom backup last n (← s.vsNext vs) s
    else some s

/-- `replicate_cb(backup_mid, resp)` on an answer. -/
def replicateCb (backup : Mid) (vs : Viewstamp) (s : Cohort) : Option Cohort :=
  if s.view.primary ≠ s.self then some s
  else if s.latest.vid ≠ s.committed.vid then none
  else if vs ≤ s.committed then some s
  else if s.latest < vs then none
  else if s.isViewMember backup = false then some s
  else do
    let s ← acknowledgeFrom backup vs (s.log.size + 1) (← s.vsNext s.committed) s
    s.advanceCommitted

/-! ## Fetching the log -/

/-- Change the pull `p`. -/
def setPull (p : PullRef) (pls : PullLogState) (s : Cohort) : Cohort :=
  { s with pulls := Function.update s.pulls p pls }

/-- `pull_upto` for one viewstamp. -/
def pullOne (p : PullRef) (s : Cohort) (vs : Viewstamp) : Cohort :=
  if vs ∈ s.log then s
  else
    let pls := s.pulls p
    (s.setPull p { pls with ack := { pls.ack with expected := pls.ack.expected.insert vs } }).call
      pls.src (.fetchlog vs) (some (.fetchlogCb p vs))

/-- The viewstamps from `base` up to `latest`, of one view. -/
def viewstamps (base latest : Viewstamp) : List Viewstamp :=
  (List.range (latest.ts + 1 - base.ts)).map fun i => ⟨base.vid, base.ts + i⟩

def pullUpto (p : PullRef) (latest : Viewstamp) (s : Cohort) : Option Cohort :=
  if latest.vid < s.executed.vid then some s
  else do
    let fetchbase ← if latest.vid = s.executed.vid then s.executed.succ else some ⟨latest.vid, 0⟩
    let vss := viewstamps fetchbase latest
    -- the loop ends on the viewstamp after `latest`
    if vss.isEmpty = false ∧ latest.succ = none then none
    else some (vss.foldl (pullOne p) s)

/-- `(*donecb)(ok)`. -/
def done (cb : DoneCb) (ok : Bool) (s : Cohort) : Cohort :=
  match cb with
  | .replicate sbp vs => s.answer sbp (if ok then .replicate vs else .error)
  | .newView sbp => s.answer sbp (.newView ok)

/-- `fetchlog_check` up to the test whether the pull is over. -/
def descend (p : PullRef) (s : Cohort) : Option Cohort := do
  let pls := s.pulls p
  if (← s.vsNext s.executed).vid < pls.bottomview then
    match s.log.lookup ⟨pls.bottomview, 0⟩ with
    | none => some s
    | some rle =>
      match rle.arg.request with
      | .form f => (s.setPull p { pls with bottomview := f.prev.vid }).pullUpto p f.prev
      | .operation _ => none
  else some (s.setPull p { pls with bottomdone := true })

def fetchlogCheck (p : PullRef) (s : Cohort) : Option Cohort := do
  let s ← s.advanceCommitted
  let s ← s.descend p
  let pls := s.pulls p
  if pls.ok = false ∨ pls.ack.expected.length = pls.ack.received.length then
    let s := match pls.donecb with
      | some cb => s.done cb (pls.ok && pls.bottomdone)
      | none => s
    some (s.setPull p { pls with donecb := none })
  else some s

/-- `fetchlog_cb(pls, vs, resp, stat)`; `resp` is there if the call has succeeded. -/
def fetchlogCb (p : PullRef) (vs : Viewstamp) (resp : Option ExecuteArg) (s : Cohort) :
    Option Cohort := do
  let received (s : Cohort) : Option Cohort :=
    let pls := s.pulls p
    let ack := { pls.ack with received := pls.ack.received.insert vs }
    (s.setPull p { pls with ack := ack }).fetchlogCheck p
  if vs ∈ s.log then received s
  else
    match resp with
    | none => (s.setPull p { s.pulls p with ok := false }).fetchlogCheck p
    | some arg => received (← s.insert vs (.plain arg))

def pullLog (src : Mid) (latest : Viewstamp) (donecb : DoneCb) (s : Cohort) : Option Cohort := do
  let p := s.nextPull
  let s := { s with nextPull := p + 1 }.setPull p
    ⟨⟨[], []⟩, latest.vid, src, some donecb, true, false, latest⟩
  (← s.pullUpto p latest).fetchlogCheck p

end Cohort

end Falcon
