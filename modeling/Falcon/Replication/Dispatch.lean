import Falcon.Replication.Step

/-!
# Replication/Dispatch — the view change manager, and the calls a cohort serves

The rest of the methods of `class cohort`: the manager's side of a view change, in the order of the
file, and `dispatch`, with one function for each call.
-/

namespace Falcon

namespace Cohort

/-! ## The view change manager -/

/-- Change the attempt `a`. -/
def setAttempt (a : AttemptRef) (att : ViewChangeAttempt) (s : Cohort) : Cohort :=
  { s with attempts := Function.update s.attempts a att }

/-- `attempt->aborted = true`. -/
def abort (a : AttemptRef) (s : Cohort) : Cohort :=
  s.setAttempt a { s.attempts a with aborted := true }

def viewChangeCheckNewview (a : AttemptRef) (s : Cohort) : Option Cohort :=
  let att := s.attempts a
  if att.aborted then some s
  else do
    let nvarg ← att.nvarg
    if att.nvAccepted.containsMajorityOf nvarg.view.mids ∧
        att.nvAccepted.containsMajorityOf s.view.mids then
      some (s.call nvarg.view.primary (.initView ⟨nvarg.latest, nvarg.view⟩) none)
    else if att.nvDone.length = att.underlings.length then some (s.abort a)
    else some s

/-- `view_change_newview_cb(attempt, c, resp, stat)`; `accepted` is `false` if the call has failed.
-/
def viewChangeNewviewCb (a : AttemptRef) (c : Mid) (accepted : Bool) (s : Cohort) :
    Option Cohort :=
  let att := s.attempts a
  (s.setAttempt a { att with
    nvDone := att.nvDone.insert c
    nvAccepted := if accepted then att.nvAccepted.insert c else att.nvAccepted
    }).viewChangeCheckNewview a

/-- `max_latest` and `max_latest_c`. -/
abbrev Best := Viewstamp × Option Mid

/-- The search for the accept with the largest `latest`; `max_latest_c` is uninitialised at first.
-/
def best : List ViewChangeAccept → Best → Best
  | [], m => m
  | r :: rs, m => best rs (if m.1 < r.latest then (r.latest, some r.myid) else m)

/-- The same among the members of the view `w`; once the primary of `w` is the best one, a larger
`latest` fails an assertion. -/
def bestMember (w : View) : List ViewChangeAccept → Best → Option Best
  | [], m => some m
  | r :: rs, m =>
    if r.myid ∉ w.mids then bestMember w rs m
    else if m.1 < r.latest then
      if m.2 = some w.primary then none else bestMember w rs (r.latest, some r.myid)
    else bestMember w rs m

def viewChangeChooseView (att : ViewChangeAttempt) : Option NewViewArg :=
  match att.newview with
  | some w => do
    let (latest, c) ← bestMember w att.vcaccepts (.zero, none)
    let c ← c
    if c = w.primary then some ⟨latest, { w with vid := att.proposedVid }⟩
    else
      some ⟨latest, att.proposedVid, c, w.backups.map fun b => if b = c then w.primary else b⟩
  | none => do
    let (latest, c) := best att.vcaccepts (.zero, none)
    let c ← c
    some ⟨latest, att.proposedVid, c, (att.vcaccepts.map (·.myid)).filter (· ≠ c)⟩

def viewChangeIssueNewview (a : AttemptRef) (nvarg : NewViewArg) (s : Cohort) : Cohort :=
  (s.attempts a).underlings.foldl
    (fun s u => s.call u (.newView nvarg) (some (.viewChangeNewviewCb a u))) s

/-- The end of `view_change_check_prepare`. -/
def viewChangePropose (a : AttemptRef) (s : Cohort) : Option Cohort := do
  let att := s.attempts a
  let nvarg ← viewChangeChooseView att
  some ((s.setAttempt a { att with nvarg := some nvarg }).viewChangeIssueNewview a nvarg)

/-- A `REP_VIEW_CHANGE` to a member of the view found that is not an underling yet. -/
def viewChangeAsk (a : AttemptRef) (current : AttemptRef) (s : Cohort) (u : Mid) : Cohort :=
  let att := s.attempts a
  if u ∈ att.underlings then s
  else
    (s.setAttempt a { att with underlings := att.underlings.insert u }).call u
      (.viewChange ⟨s.view, att.proposedVid⟩) (some (.viewChangePrepareCb current u))

/-- `view_change_check_prepare` for an attempt that has merged the view found, if there is one. -/
def viewChangeCheckMerged (a : AttemptRef) (s : Cohort) : Option Cohort :=
  let att := s.attempts a
  if att.aborted ∨ att.prepareDone.length ≠ att.underlings.length then some s
  else if att.prepareAccepted.containsMajorityOf s.view.mids = false then some (s.abort a)
  else
    match att.newview with
    | some w =>
      if att.prepareAccepted.containsMajorityOf w.mids = false then some (s.abort a)
      else s.viewChangePropose a
    | none => s.viewChangePropose a

def viewChangeCheckPrepare (a : AttemptRef) (s : Cohort) : Option Cohort :=
  let att := s.attempts a
  if att.aborted ∨ att.prepareDone.length ≠ att.underlings.length then some s
  else if att.prepareAccepted.containsMajorityOf s.view.mids = false then some (s.abort a)
  else
    match att.newview with
    | some w =>
      if att.mergedVid < w.vid then do
        let s := w.mids.foldl (viewChangeAsk a (← s.vcattempt)) s
        (s.setAttempt a { s.attempts a with mergedVid := w.vid }).viewChangeCheckMerged a
      else s.viewChangeCheckMerged a
    | none => s.viewChangePropose a

/-- The newer one of the view found so far and the one an accept carries. -/
def mergeNewview (found reported : Option View) : Option View :=
  match found, reported with
  | found, none => found
  | none, some w => some w
  | some w', some w => if w'.vid < w.vid then some w else some w'

/-- `view_change_prepare_cb(attempt, c, resp, stat)`; `resp` is there if the call has succeeded. -/
def viewChangePrepareCb (a : AttemptRef) (c : Mid) (resp : Option ViewChangeRes) (s : Cohort) :
    Option Cohort :=
  let att := s.attempts a
  if att.aborted then some s
  else
    let att := { att with prepareDone := att.prepareDone.insert c }
    match resp with
    | none => (s.setAttempt a att).viewChangeCheckPrepare a
    | some (.reject _ newvid) =>
      ({ s with proposedVid := max s.proposedVid newvid }.setAttempt a
        { att with aborted := true }).viewChangeCheckPrepare a
    | some (.accept r) =>
      if c ∈ att.prepareAccepted then (s.setAttempt a att).viewChangeCheckPrepare a
      else
        (s.setAttempt a { att with
          prepareAccepted := att.prepareAccepted.insert c
          vcaccepts := att.vcaccepts ++ [r]
          newview := mergeNewview att.newview r.newview }).viewChangeCheckPrepare a

/-- The loop of `view_change_initiate`: a server Falcon has reported is not asked. -/
def viewChangeAskAll (a : AttemptRef) (joiners : List Mid) (arg : ViewChangeArg) (ul : List Mid)
    (s : Cohort) : Option Cohort :=
  ul.foldlM (fun s u =>
    if u ∈ joiners ∨ u ∈ s.activeServers then
      some (s.call u (.viewChange arg) (some (.viewChangePrepareCb a u)))
    else s.viewChangePrepareCb a u none) s

/-- The attempt `view_change_initiate` makes. -/
def newAttempt (s : Cohort) (joiners : List Mid) : ViewChangeAttempt :=
  { noAttempt with
    proposedVid := ⟨(max s.view.vid s.proposedVid).counter + 1, s.self⟩
    underlings := joiners.foldl (fun S j => OrdSet.insert j S) s.view.mids
    aborted := false }

/-- `vcattempt_ && !vcattempt_->aborted`. -/
def attempting (s : Cohort) : Bool :=
  match s.vcattempt with
  | some a => !(s.attempts a).aborted
  | none => false

def viewChangeInitiate (joiners : List Mid) (s : Cohort) : Option Cohort :=
  if s.attempting ∨ s.isViewMember s.self = false then some s
  else
    let a := s.nextAttempt
    let att := s.newAttempt joiners
    { s.setAttempt a att with
      nextAttempt := a + 1
      vcattempt := some a
      mode := .viewchange }.viewChangeAskAll a joiners ⟨s.view, att.proposedVid⟩ att.underlings

def viewIsDown (s : Cohort) : Option Cohort := s.viewChangeInitiate []

def handleFailed (mid : Mid) (s : Cohort) : Option Cohort :=
  let s := { s with activeServers := s.activeServers.filter (· ≠ mid) }
  if s.activeServers.head? = some s.self then do
    let s ← s.viewIsDown
    some { s with timers := s.timers + 1, pingTimeout := true }
  else some s

/-- A timer of `view_is_down` expires. -/
def timedOut (s : Cohort) : Option Cohort :=
  if s.timers = 0 then none else { s with timers := s.timers - 1 }.viewIsDown

/-- `join_view(join_addr)`; the address is that of the cohort `dest`. -/
def joinView (dest : Mid) (s : Cohort) : Cohort :=
  if s.isViewMember s.self then s
  else s.call (if s.validView then s.view.primary else dest) (.letMeIn s.self) none

/-! ## Requests -/

/-- `REP_EXECUTE` that this cohort accepts as the primary; `reply` is that of the cache.  The cache
gets the viewstamp of the entry, for a pointer to it: where the viewstamp has been logged before, it
stands for the entry that is in the log, and the pointer is to the new one. -/
def accept (sbp : Sbp) (arg : ExecuteArg) (reply : List UInt8) (s : Cohort) : Option Cohort := do
  let vs ← s.latest.succ
  let ra : ReplicateArg := ⟨vs, arg, s.committed⟩
  let ack : Ackset Mid :=
    ⟨[s.self], s.view.backups.foldl (fun S b => OrdSet.insert b S) [s.self]⟩
  let s ← { s with latest := vs }.insert vs ⟨some ack, some sbp, .logged, arg⟩
  let s := { s with replycache := s.replycache.insert arg.client ⟨arg.rid, vs, reply⟩ }
  (s.replicateTo ra s.view.backups).advanceCommitted

/-- `REP_EXECUTE` past the reply cache. -/
def executeNew (sbp : Sbp) (arg : ExecuteArg) (reply : List UInt8) (s : Cohort) : Option Cohort :=
  if arg.vid ≠ s.view.vid ∨ s.self ≠ s.view.primary then
    some (s.answer sbp (.execute (.viewinfo s.view.vid s.view.primary)))
  else s.accept sbp arg reply

def serveExecute (sbp : Sbp) (arg : ExecuteArg) (s : Cohort) : Option Cohort :=
  if s.mode ≠ .active then some s
  else
    match s.replycache.lookup arg.client with
    | none => s.executeNew sbp arg []
    | some rce =>
      if rce.rid ≠ arg.rid then s.executeNew sbp arg rce.reply
      else do
        let rle ← s.log.lookup rce.rle
        if rle.state = .executed then
          some { s.answer sbp (.execute (.ok rce.reply)) with
            answered := (rce.rle, rle.arg) :: s.answered }
        else if rle.state = .logged ∧ rce.rle.vid < s.view.vid then
          (s.setEntry rce.rle { rle with sbp := none }).executeNew sbp arg rce.reply
        else some (s.setEntry rce.rle { rle with sbp := some sbp })

/-! ## Replication -/

/-- `REP_REPLICATE` past its checks. -/
def replicated (sbp : Sbp) (primary : Mid) (ra : ReplicateArg) (s : Cohort) : Option Cohort := do
  let s ← if s.committed < ra.vs ∧ ra.vs ∉ s.log then s.insert ra.vs (.plain ra.arg) else some s
  let s ← { s with committed := max s.committed ra.committed }.advanceExecuted
  s.pullLog primary ra.vs (.replicate sbp ra.vs)

def serveReplicate (sbp : Sbp) (ra : ReplicateArg) (s : Cohort) : Option Cohort :=
  if ra.vs.ts ≠ 0 then
    if s.mode ≠ .active then some s
    else if s.view.primary = s.self then some (s.answer sbp .error)
    else if s.isViewMember s.self = false then some (s.answer sbp .error)
    else s.replicated sbp s.view.primary ra
  else
    match ra.arg.request with
    | .form f => s.replicated sbp f.view.primary ra
    | .operation _ => none

def serveFetchlog (sbp : Sbp) (vs : Viewstamp) (s : Cohort) : Cohort :=
  match s.log.lookup vs with
  | some rle => s.answer sbp (.fetchlog rle.arg)
  | none => s.answer sbp .error

/-! ## View changes -/

/-- The loop of `REP_VIEW_CHANGE`: the last of the consecutive entries from `vs` on, after `last`.
-/
def lastFrom : ℕ → Viewstamp → Viewstamp → Cohort → Option Viewstamp
  | 0, _, _, _ => none
  | n + 1, vs, last, s =>
    if vs ∈ s.log then do lastFrom n (← s.vsNext vs) vs s else some last

/-- `vcattempt_` is aborted unless it proposes `vid`. -/
def yieldTo (vid : ViewId) (s : Cohort) : Cohort :=
  match s.vcattempt with
  | some a => if (s.attempts a).proposedVid ≠ vid then s.abort a else s
  | none => s

def serveViewChange (sbp : Sbp) (arg : ViewChangeArg) (s : Cohort) : Option Cohort :=
  if s.validView ∧ arg.oldview.vid < s.view.vid ∨ arg.newvid < s.proposedVid then
    some (s.answer sbp (.viewChange (.reject (if s.validView then some s.view else none)
      s.proposedVid)))
  else do
    let latest ← lastFrom (s.log.size + 1) (← s.vsNext s.executed) s.executed s
    some ((({ s with mode := .viewchange, proposedVid := arg.newvid }).yieldTo arg.newvid).answer
      sbp (.viewChange (.accept ⟨s.self, latest, s.acceptedView⟩)))

def serveNewView (sbp : Sbp) (arg : NewViewArg) (s : Cohort) : Option Cohort :=
  if s.validView ∧ arg.view.vid < s.view.vid ∨ arg.view.vid < s.proposedVid then
    some (s.answer sbp (.newView false))
  else
    { { s with mode := .viewchange }.yieldTo arg.view.vid with
      acceptedView := some arg.view
      offer := some arg }.pullLog arg.view.primary arg.latest (.newView sbp)

def serveInitView (sbp : Sbp) (f : ViewForm) (s : Cohort) : Option Cohort := do
  let s ← if s.validView = false ∨ s.view.vid < f.view.vid then s.formView f else some s
  some (s.answer sbp .void)

/-- `dispatch`, for the calls above. -/
def dispatch (sbp : Sbp) (c : Call) (s : Cohort) : Option Cohort :=
  match c with
  | .execute arg => s.serveExecute sbp arg
  | .replicate ra => s.serveReplicate sbp ra
  | .fetchlog vs => some (s.serveFetchlog sbp vs)
  | .letMeIn joiner => do
    let s ← s.viewChangeInitiate [joiner]
    some (s.answer sbp .void)
  | .viewChange arg => s.serveViewChange sbp arg
  | .newView arg => s.serveNewView sbp arg
  | .initView f => s.serveInitView sbp f

/-- The callback of a call runs; `resp` is there if the call has succeeded. -/
def complete (cb : Continuation) (resp : Option Answer) (s : Cohort) : Option Cohort :=
  match cb, resp with
  | .replicateCb backup, some (.replicate vs) => s.replicateCb backup vs
  | .replicateCb _, _ => some s
  | .viewChangePrepareCb a c, some (.viewChange res) => s.viewChangePrepareCb a c (some res)
  | .viewChangePrepareCb a c, _ => s.viewChangePrepareCb a c none
  | .viewChangeNewviewCb a c, some (.newView accepted) => s.viewChangeNewviewCb a c accepted
  | .viewChangeNewviewCb a c, _ => s.viewChangeNewviewCb a c false
  | .fetchlogCb p vs, some (.fetchlog arg) => s.fetchlogCb p vs (some arg)
  | .fetchlogCb p vs, _ => s.fetchlogCb p vs none

end Cohort

end Falcon
