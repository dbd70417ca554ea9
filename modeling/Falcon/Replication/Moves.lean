import Falcon.Replication.Shapes
import Falcon.Replication.Vanilla
import Mathlib.Logic.Relation

/-!
# Replication/Moves — what the methods of `class cohort` are made of

A cohort handles a call, or the callback of a call of its own, in one step of the group.  The step
is a sequence of small moves (`Move`), each with what the code has checked when it makes it; an
entry is logged or executed, a call is made or answered, an attempt or a pull goes on.  Invariants
of runs are checked move by move.

An attempt to change the view proposes one view, so a callback of `REP_VIEW_CHANGE` finds that its
attempt has proposed none yet; and only the last attempt is not aborted.  These are invariants of
every run (`Steady`), and are taken as given here.
-/

namespace Falcon

/-- What a cohort handles. -/
inductive Input
  | call (sbp : Sbp) (c : Call)
  /-- The callback `cb` of the call `n`; `resp` is there if the call has succeeded. -/
  | callback (n : ℕ) (cb : Continuation) (resp : Option Answer)
  /-- The back end has executed a request. -/
  | executed (reply : List UInt8)
  /-- Falcon reports the cohort `mid`. -/
  | failed (mid : Mid)
  /-- A timer of `view_is_down` expires. -/
  | viewIsDown
  /-- The timer of `join_view` expires. -/
  | join (dest : Mid)
  deriving DecidableEq, Repr

namespace Cohort

variable {i : Input} {s s' : Cohort} {vs last : Viewstamp} {rle : LogEntry} {sbp : Sbp} {n : ℕ}
  {p : PullRef} {a : AttemptRef} {u : Mid} {arg : ExecuteArg} {f : ViewForm} {reply : List UInt8}

/-! ## What the moves rest on -/

/-- The viewstamps after `vs`, as `vs_next` goes. -/
def Walk (s : Cohort) : Viewstamp → Viewstamp → Prop :=
  Relation.TransGen fun vs vs' => s.vsNext vs = some vs'

/-- The answers to a call that is served at once. -/
inductive Answers (i : Input) (s : Cohort) : Sbp → Answer → Prop
  | redirect {sbp : Sbp} {arg : ExecuteArg} (hi : i = .call sbp (.execute arg)) :
      Answers i s sbp (.execute (.viewinfo s.view.vid s.view.primary))
  | refused {sbp : Sbp} {ra : ReplicateArg} (hi : i = .call sbp (.replicate ra)) :
      Answers i s sbp .error
  | entry {sbp : Sbp} {vs : Viewstamp} {rle : LogEntry} (hi : i = .call sbp (.fetchlog vs))
      (hrle : s.log.lookup vs = some rle) : Answers i s sbp (.fetchlog rle.arg)
  | missing {sbp : Sbp} {vs : Viewstamp} (hi : i = .call sbp (.fetchlog vs)) :
      Answers i s sbp .error
  | void {sbp : Sbp} {c : Call} (hi : i = .call sbp c) : Answers i s sbp .void
  | rejected {sbp : Sbp} {g : ViewChangeArg} (hi : i = .call sbp (.viewChange g))
      (hreject : s.validView ∧ g.oldview.vid < s.view.vid ∨ g.newvid < s.proposedVid) :
      Answers i s sbp (.viewChange (.reject (if s.validView then some s.view else none)
        s.proposedVid))
  | notAccepted {sbp : Sbp} {nv : NewViewArg} (hi : i = .call sbp (.newView nv))
      (hreject : s.validView ∧ nv.view.vid < s.view.vid ∨ nv.view.vid < s.proposedVid) :
      Answers i s sbp (.newView false)

/-- What a log is pulled for. -/
inductive Pulls (i : Input) : Mid → Viewstamp → DoneCb → Prop
  | replicate {sbp : Sbp} {ra : ReplicateArg} (hi : i = .call sbp (.replicate ra)) (src : Mid) :
      Pulls i src ra.vs (.replicate sbp ra.vs)
  | newView {sbp : Sbp} {nv : NewViewArg} (hi : i = .call sbp (.newView nv)) :
      Pulls i nv.view.primary nv.latest (.newView sbp)

/-- What a cohort checks of a `REP_REPLICATE` that is no formation of a view. -/
def Checks (s : Cohort) (ra : ReplicateArg) : Prop :=
  ra.vs.ts ≠ 0 → s.mode = .active ∧ s.view.primary ≠ s.self ∧ s.isViewMember s.self = true

instance (ra : ReplicateArg) : Decidable (s.Checks ra) := inferInstanceAs (Decidable (_ → _ ∧ _))

/-- The reply cache does not stop a request; `s'` is the state once the cache has been looked at. -/
inductive Unanswered (s : Cohort) (arg : ExecuteArg) : Cohort → Prop
  | none (h : s.replycache.lookup arg.client = none) : Unanswered s arg s
  | other {rce : ReplyCacheEntry} (h : s.replycache.lookup arg.client = some rce)
      (hrid : rce.rid ≠ arg.rid) : Unanswered s arg s
  /-- The request is logged, of an earlier view and not committed. -/
  | lost {rce : ReplyCacheEntry} {rle : LogEntry} (h : s.replycache.lookup arg.client = some rce)
      (hrid : rce.rid = arg.rid) (hrle : s.log.lookup rce.rle = some rle)
      (hstate : rle.state = .logged) (hvid : rce.rle.vid < s.view.vid) :
      Unanswered s arg (s.setEntry rce.rle { rle with sbp := none })

/-- A small change of the state, on the input `i`. -/
inductive Move (i : Input) (s : Cohort) : Cohort → Prop
  /-- A call is over. -/
  | called {n : ℕ} {cb : Continuation} {resp : Option Answer} (hi : i = .callback n cb resp)
      (hcb : s.calls.lookup n = some cb) : Move i s { s with calls := s.calls.erase n }
  | answer {sbp : Sbp} {ans : Answer} (h : Answers i s sbp ans) : Move i s (s.answer sbp ans)
  /-- The next entry is given to the back end. -/
  | run {vs : Viewstamp} {rle : LogEntry} (hvs : s.vsNext s.executed = some vs)
      (hle : vs ≤ s.committed) (hrle : s.log.lookup vs = some rle) (hts : vs.ts ≠ 0) :
      Move i s { s.setEntry vs { rle with state := .executing } with
        executing := s.executing ++ [vs], executed := vs, handed := s.handed ++ [(vs, rle.arg)] }
  /-- The next entry is the formation of a view. -/
  | enter {vs : Viewstamp} {rle : LogEntry} {f : ViewForm} (hvs : s.vsNext s.executed = some vs)
      (hle : vs ≤ s.committed) (hrle : s.log.lookup vs = some rle) (hts : vs.ts = 0)
      (hf : rle.arg.request = .form f) :
      Move i s { (s.enter f).setEntry vs { rle with state := .executing } with
        executed := vs, handed := s.handed ++ [(vs, rle.arg)] }
  /-- The next entry is committed. -/
  | commit {vs : Viewstamp} {rle : LogEntry} {ack : Ackset Mid}
      (hvs : s.vsNext s.committed = some vs) (hle : vs ≤ s.latest)
      (hrle : s.log.lookup vs = some rle) (hack : rle.ack = some ack)
      (hmaj : ack.received.containsMajorityOf ack.expected = true) :
      Move i s { s.setEntry vs { rle with ack := none, state := .committed } with
        committed := vs, decided := (vs, rle.arg, ack) :: s.decided }
  /-- A backup acknowledges an entry. -/
  | acknowledge {n : ℕ} {backup : Mid} {last vs : Viewstamp} {rle : LogEntry} {ack : Ackset Mid}
      (hi : i = .callback n (.replicateCb backup) (some (.replicate last)))
      (hprimary : s.view.primary = s.self) (hvid : s.latest.vid = s.committed.vid)
      (hlast : last ≤ s.latest) (hmember : s.isViewMember backup = true)
      (hwalk : s.Walk s.committed vs) (hle : vs ≤ last)
      (hrle : s.log.lookup vs = some rle) (hack : rle.ack = some ack) :
      Move i s (s.setEntry vs
        { rle with ack := some { ack with received := ack.received.insert backup } })
  | cached {sbp : Sbp} {g : ExecuteArg} {rce : ReplyCacheEntry} {rle : LogEntry}
      (hi : i = .call sbp (.execute g)) (hrce : s.replycache.lookup g.client = some rce)
      (hrid : rce.rid = g.rid) (hrle : s.log.lookup rce.rle = some rle)
      (hdone : rle.state = .executed) :
      Move i s { s.answer sbp (.execute (.ok rce.reply)) with
        answered := (rce.rle, rle.arg) :: s.answered }
  /-- The client of an entry is another one, or none. -/
  | caller {vs : Viewstamp} {rle : LogEntry} (sbp : Option Sbp)
      (hrle : s.log.lookup vs = some rle) :
      Move i s (s.setEntry vs { rle with sbp := sbp })
  | executeDone {vs : Viewstamp} {rest : List Viewstamp} {reply : List UInt8} {rle : LogEntry}
      {o : List Output} {ans : List (Viewstamp × ExecuteArg)} (hi : i = .executed reply)
      (hvs : s.executing = vs :: rest) (hrle : s.log.lookup vs = some rle)
      (ho : (rle.sbp = none ∧ o = s.out ∧ ans = s.answered) ∨
        ∃ sbp, rle.sbp = some sbp ∧ o = .answer sbp (.execute (.ok reply)) :: s.out ∧
          ans = (vs, rle.arg) :: s.answered) :
      Move i s { s with
        executing := rest
        replycache := s.replycache.insert rle.arg.client ⟨rle.arg.rid, vs, reply⟩
        log := s.log.insert vs { rle with state := .executed, sbp := none }
        out := o
        answered := ans }
  | replicateForm {sbp : Sbp} {f : ViewForm} {o : List Output} {S : Keyed ℕ Continuation}
      (hi : i = .call sbp (.initView f)) (hprimary : f.view.primary = s.self)
      (hlog : ⟨f.view.vid, 0⟩ ∈ s.log)
      (hsends : s.Sends (fun _ => .replicate ⟨⟨f.view.vid, 0⟩, f.arg, ⟨f.view.vid, 0⟩⟩) .replicateCb
        f.view.backups o S) :
      Move i s { s with out := o, nextCall := s.nextCall + f.view.backups.length, calls := S }
  | pull {src : Mid} {latest : Viewstamp} {cb : DoneCb} {o : List Output} {k : ℕ}
      {S : Keyed ℕ Continuation} {P : PullRef → PullLogState} (h : Pulls i src latest cb)
      (hs' : (s.opened src latest cb).pullUpto s.nextPull latest = some { s with
        nextPull := s.nextPull + 1, out := o, nextCall := k, calls := S, pulls := P }) :
      Move i s { s with
        nextPull := s.nextPull + 1, out := o, nextCall := k, calls := S, pulls := P }
  | descend {p : PullRef} {o : List Output} {k : ℕ} {S : Keyed ℕ Continuation}
      {P : PullRef → PullLogState}
      (hs' : s.descend p = some { s with out := o, nextCall := k, calls := S, pulls := P }) :
      Move i s { s with out := o, nextCall := k, calls := S, pulls := P }
  /-- A pull is over. -/
  | closed {p : PullRef} {o : List Output}
      (hend : (s.pulls p).ok = false ∨
        (s.pulls p).ack.expected.length = (s.pulls p).ack.received.length)
      (ho : s.Concludes p o) :
      Move i s { s.setPull p { s.pulls p with donecb := none } with out := o }
  | received {n : ℕ} {p : PullRef} {vs : Viewstamp} {resp : Option Answer}
      (hi : i = .callback n (.fetchlogCb p vs) resp) (hmem : vs ∈ s.log) :
      Move i s (s.setPull p { s.pulls p with
        ack := { (s.pulls p).ack with received := (s.pulls p).ack.received.insert vs } })
  | notFetched {n : ℕ} {p : PullRef} {vs : Viewstamp} {resp : Option Answer}
      (hi : i = .callback n (.fetchlogCb p vs) resp) (hnew : vs ∉ s.log) :
      Move i s (s.setPull p { s.pulls p with ok := false })
  /-- A `REP_VIEW_CHANGE` of this cohort is over. -/
  | prepared {n : ℕ} {a : AttemptRef} {u : Mid} {resp : Option Answer} {res : Option ViewChangeRes}
      {v : ViewId} {att : ViewChangeAttempt} (hi : i = .callback n (.viewChangePrepareCb a u) resp)
      (hcalled : s.calls.lookup n = none) (hopen : (s.attempts a).aborted = false)
      (hnone : (s.attempts a).nvarg = none)
      (hres : ∀ r, res = some r → resp = some (.viewChange r))
      (hv : s.proposedVid ≤ v) (hatt : Prepared u (s.attempts a) att)
      (hs' : s.prepared a u res = { s with
        proposedVid := v, attempts := Function.update s.attempts a att }) :
      Move i s { s with proposedVid := v, attempts := Function.update s.attempts a att }
  | abort (a : AttemptRef) : Move i s (s.abort a)
  /-- A further server is asked to change the view. -/
  | ask {a : AttemptRef} {u : Mid} {w : View} (hw : (s.attempts a).newview = some w)
      (hu : u ∈ w.mids) (hnew : u ∉ (s.attempts a).underlings)
      (hopen : (s.attempts a).aborted = false) (hcurrent : s.vcattempt = some a)
      (hnone : (s.attempts a).nvarg = none) :
      Move i s ((s.setAttempt a { s.attempts a with
        underlings := (s.attempts a).underlings.insert u }).call u
        (.viewChange ⟨s.view, (s.attempts a).proposedVid⟩) (some (.viewChangePrepareCb a u)))
  | merged {a : AttemptRef} (vid : ViewId) :
      Move i s (s.setAttempt a { s.attempts a with mergedVid := vid })
  /-- A view is proposed. -/
  | propose {a : AttemptRef} {nv : NewViewArg} {o : List Output} {S : Keyed ℕ Continuation}
      (hopen : (s.attempts a).aborted = false)
      (hdone : (s.attempts a).prepareDone.length = (s.attempts a).underlings.length)
      (hmaj : (s.attempts a).prepareAccepted.containsMajorityOf s.view.mids = true)
      (hmaj' : ∀ w, (s.attempts a).newview = some w →
        (s.attempts a).prepareAccepted.containsMajorityOf w.mids = true)
      (hnone : (s.attempts a).nvarg = none) (hnv : viewChangeChooseView (s.attempts a) = some nv)
      (hsends : s.Sends (fun _ => .newView nv) (.viewChangeNewviewCb a) (s.attempts a).underlings
        o S) :
      Move i s { s.setAttempt a { s.attempts a with nvarg := some nv } with
        out := o, nextCall := s.nextCall + (s.attempts a).underlings.length, calls := S }
  /-- A `REP_NEW_VIEW` of this cohort is over. -/
  | newviewed {n : ℕ} {a : AttemptRef} {u : Mid} {resp : Option Answer} {accepted : Bool}
      (hi : i = .callback n (.viewChangeNewviewCb a u) resp)
      (haccepted : accepted = true → resp = some (.newView true)) :
      Move i s (s.setAttempt a { s.attempts a with
        nvDone := (s.attempts a).nvDone.insert u
        nvAccepted := if accepted then (s.attempts a).nvAccepted.insert u
          else (s.attempts a).nvAccepted })
  | initView {a : AttemptRef} {nv : NewViewArg} (hopen : (s.attempts a).aborted = false)
      (hnv : (s.attempts a).nvarg = some nv)
      (hmaj : (s.attempts a).nvAccepted.containsMajorityOf nv.view.mids = true)
      (hmaj' : (s.attempts a).nvAccepted.containsMajorityOf s.view.mids = true) :
      Move i s (s.call nv.view.primary (.initView ⟨nv.latest, nv.view⟩) none)
  /-- Falcon reports a cohort, or a timer of `view_is_down` starts or expires. -/
  | watch (A : List Mid) (k : ℕ) (b : Bool) :
      Move i s { s with activeServers := A, timers := k, pingTimeout := b }
  | join (dest : Mid) : Move i s (s.call dest (.letMeIn s.self) none)

/-- The attempt that `view_change_initiate` leaves: the calls to the servers that are down have
timed out. -/
def firstAttempt (s : Cohort) (joiners : List Mid) : ViewChangeAttempt :=
  ((s.newAttempt joiners).underlings.filter fun u => s.Down joiners u).foldl
    ViewChangeAttempt.expire (s.newAttempt joiners)

/-- The servers `view_change_initiate` asks. -/
def asked (s : Cohort) (joiners : List Mid) : List Mid :=
  (s.newAttempt joiners).underlings.filter fun u => ¬s.Down joiners u

/-- An attempt to change the view starts: the servers that are up are asked. -/
structure Initiates (joiners : List Mid) (s s' : Cohort) : Prop where
  free : s.attempting = false
  member : s.isViewMember s.self = true
  eq : ∃ o S, s.Sends (fun _ => .viewChange ⟨s.view, (s.newAttempt joiners).proposedVid⟩)
      (.viewChangePrepareCb s.nextAttempt) (s.asked joiners) o S ∧
    s' = { s with
      nextAttempt := s.nextAttempt + 1
      vcattempt := some s.nextAttempt
      mode := .viewchange
      attempts := Function.update s.attempts s.nextAttempt (s.firstAttempt joiners)
      out := o
      nextCall := s.nextCall + (s.asked joiners).length
      calls := S }

/-- What starts an attempt to change the view, unless there is one or the cohort is no member of its
view. -/
inductive Starts (s : Cohort) : Input → Prop
  | letMeIn {sbp : Sbp} {joiner : Mid} : Starts s (.call sbp (.letMeIn joiner))
  | failed {mid : Mid} (h : (s.activeServers.filter (· ≠ mid)).head? = some s.self) :
      Starts s (.failed mid)
  | viewIsDown : Starts s .viewIsDown

/-- The first part of what a cohort does: it takes in what the input brings.  An entry is logged, or
an attempt to change the view starts. -/
inductive Begins (i : Input) (s : Cohort) : Cohort → Prop
  | stays : Begins i s s
  | initiates {A joiners : List Mid} {k : ℕ} {s' : Cohort} (h : Starts s i)
      (hs' : { s with activeServers := A, timers := k }.Initiates joiners s') : Begins i s s'
  /-- A request of this cohort is logged and replicated. -/
  | issues {sbp : Sbp} {arg : ExecuteArg} {reply : List UInt8} {vs : Viewstamp} {o : List Output}
      {S : Keyed ℕ Continuation} {s₀ : Cohort} (hi : i = .call sbp (.execute arg))
      (hmode : s.mode = .active) (hvid : arg.vid = s.view.vid) (hprimary : s.view.primary = s.self)
      (hcache : s.Unanswered arg s₀) (hvs : s.latest.succ = some vs)
      (hsends :
        s.Sends (fun _ => .replicate ⟨vs, arg, s.committed⟩) .replicateCb s.view.backups o S) :
      Begins i s { s₀ with
        latest := vs
        log := s₀.log.add vs ⟨some ⟨[s.self], s.view.backups.foldl
          (fun S b => OrdSet.insert b S) [s.self]⟩, some sbp, .logged, arg⟩
        replycache := s.replycache.insert arg.client ⟨arg.rid, vs, reply⟩
        out := o
        nextCall := s.nextCall + s.view.backups.length
        calls := S }
  /-- A view is formed. -/
  | forms {sbp : Sbp} {f : ViewForm} {J : Keyed Viewstamp Viewstamp}
      (hi : i = .call sbp (.initView f))
      (hnew : s.validView = false ∨ s.view.vid < f.view.vid) (hprimary : f.view.primary = s.self)
      (hJ : s.insert ⟨f.view.vid, 0⟩ (.plain f.arg) =
        some { s with jumps := J, log := s.log.add ⟨f.view.vid, 0⟩ (.plain f.arg) }) :
      Begins i s { s with
        latest := ⟨f.view.vid, 0⟩
        committed := ⟨f.view.vid, 0⟩
        jumps := J
        log := s.log.add ⟨f.view.vid, 0⟩ (.plain f.arg) }
  /-- An entry of the primary is logged. -/
  | logs {sbp : Sbp} {ra : ReplicateArg} {J : Keyed Viewstamp Viewstamp}
      (hi : i = .call sbp (.replicate ra)) (hcheck : s.Checks ra)
      (hlt : s.committed < ra.vs) (hnew : ra.vs ∉ s.log)
      (hJ : s.insert ra.vs (.plain ra.arg) =
        some { s with jumps := J, log := s.log.add ra.vs (.plain ra.arg) }) :
      Begins i s { s with
        jumps := J
        log := s.log.add ra.vs (.plain ra.arg)
        committed := max s.committed ra.committed }
  /-- There is nothing to log. -/
  | adopts {sbp : Sbp} {ra : ReplicateArg} (hi : i = .call sbp (.replicate ra))
      (hcheck : s.Checks ra) (hold : ¬(s.committed < ra.vs ∧ ra.vs ∉ s.log)) :
      Begins i s { s with committed := max s.committed ra.committed }
  /-- An entry that has been asked for is logged. -/
  | fetches {n : ℕ} {p : PullRef} {vs : Viewstamp} {arg : ExecuteArg}
      {J : Keyed Viewstamp Viewstamp}
      (hi : i = .callback n (.fetchlogCb p vs) (some (.fetchlog arg)))
      (hcb : s.calls.lookup n = some (.fetchlogCb p vs)) (hnew : vs ∉ s.log)
      (hJ : s.insert vs (.plain arg) =
        some { s with jumps := J, log := s.log.add vs (.plain arg) }) :
      Begins i s { s with
        calls := s.calls.erase n, jumps := J, log := s.log.add vs (.plain arg) }
  /-- A `REP_VIEW_CHANGE` is accepted. -/
  | promises {sbp : Sbp} {g : ViewChangeArg} {latest : Viewstamp}
      (hi : i = .call sbp (.viewChange g))
      (hfree : ¬(s.validView ∧ g.oldview.vid < s.view.vid ∨ g.newvid < s.proposedVid))
      (hlatest : ((s.vsNext s.executed).bind fun vs =>
        lastFrom (s.log.size + 1) vs s.executed s) = some latest) :
      Begins i s { s with
        mode := .viewchange
        proposedVid := g.newvid
        attempts := (s.yieldTo g.newvid).attempts
        out := .answer sbp (.viewChange (.accept ⟨s.self, latest, s.acceptedView⟩)) :: s.out }
  /-- A `REP_NEW_VIEW` is accepted. -/
  | accepts {sbp : Sbp} {nv : NewViewArg} (hi : i = .call sbp (.newView nv))
      (hfree : ¬(s.validView ∧ nv.view.vid < s.view.vid ∨ nv.view.vid < s.proposedVid)) :
      Begins i s { s with
        mode := .viewchange
        attempts := (s.yieldTo nv.view.vid).attempts
        acceptedView := some nv.view
        offer := some nv }

/-- A sequence of moves. -/
abbrev Moves (i : Input) : Cohort → Cohort → Prop := Relation.ReflTransGen (Move i)

/-- A cohort handles an input. -/
def Handles (i : Input) (s s' : Cohort) : Prop := ∃ s₁, Begins i s s₁ ∧ Moves i s₁ s'

/-- An attempt whose calls are not over has proposed no view, and only the last one goes on. -/
structure Steady (s : Cohort) : Prop where
  undecided : ∀ n a u, s.calls.lookup n = some (.viewChangePrepareCb a u) →
    (s.attempts a).nvarg = none
  current : ∀ a, (s.attempts a).aborted = false → s.vcattempt = some a

/-! ## Execution -/

theorem moves_executeFrom (hvs : s.vsNext s.executed = some vs)
    (hs' : executeFrom n vs s = some s') : Moves i s s' := by
  induction n generalizing s vs with
  | zero => cases hs'
  | succ n ih =>
    unfold executeFrom at hs'
    split_ifs at hs' with hle
    · split at hs'
      · exact Option.some.inj hs' ▸ .refl
      · next rle hrle =>
        simp only [Option.bind_eq_bind, Option.bind_eq_some_iff] at hs'
        obtain ⟨s₁, hs₁, vs', hvs', hs'⟩ := hs'
        rw [← executed_execute hs₁] at hvs'
        refine .head ?_ (ih hvs' hs')
        obtain ⟨hts, rfl⟩ | ⟨hts, f, hf, rfl⟩ := execute_cases hs₁
        · exact .run hvs hle hrle hts
        · exact .enter hvs hle hrle hts hf
    · exact Option.some.inj hs' ▸ .refl

theorem moves_advanceExecuted (hs' : s.advanceExecuted = some s') : Moves i s s' := by
  simp only [advanceExecuted, Option.bind_eq_bind, Option.bind_eq_some_iff] at hs'
  obtain ⟨vs, hvs, hs'⟩ := hs'
  exact moves_executeFrom hvs hs'

theorem moves_commitFrom (hvs : s.vsNext s.committed = some vs)
    (hs' : commitFrom n vs s = some s') : Moves i s s' := by
  induction n generalizing s vs with
  | zero => cases hs'
  | succ n ih =>
    unfold commitFrom at hs'
    split_ifs at hs' with hle
    · simp only [Option.bind_eq_bind, Option.bind_eq_some_iff] at hs'
      obtain ⟨rle, hrle, ack, hack, hs'⟩ := hs'
      split_ifs at hs' with hmaj
      · obtain ⟨vs', hvs', hs'⟩ := Option.bind_eq_some_iff.mp hs'
        exact .head (.commit hvs hle hrle hack hmaj) (ih hvs' hs')
      · exact Option.some.inj hs' ▸ .refl
    · exact Option.some.inj hs' ▸ .refl

theorem moves_advanceCommitted (hs' : s.advanceCommitted = some s') : Moves i s s' := by
  simp only [advanceCommitted, Option.bind_eq_bind, Option.bind_eq_some_iff] at hs'
  obtain ⟨vs, hvs, s₁, hs₁, hs'⟩ := hs'
  exact (moves_commitFrom hvs hs₁).trans (moves_advanceExecuted hs')

/-- A cohort stays the same cohort. -/
theorem Move.self (h : Move i s s') : s'.self = s.self := by
  cases h <;> rfl

theorem Moves.self (h : Moves i s s') : s'.self = s.self := by
  induction h with
  | refl => rfl
  | tail _ h ih => exact h.self.trans ih

/-! ## What moves leave as it is -/

/-- What is logged under a viewstamp. -/
def entry (s : Cohort) (vs : Viewstamp) : Option ExecuteArg := (s.log.lookup vs).map LogEntry.arg

theorem entry_eq_some : s.entry vs = some arg ↔ ∃ rle, s.log.lookup vs = some rle ∧ rle.arg = arg :=
  Option.map_eq_some_iff

theorem entry_eq_none : s.entry vs = none ↔ vs ∉ s.log := by
  rw [entry, Option.map_eq_none_iff, AList.lookup_eq_none]

/-- An entry that changes keeps its request. -/
theorem entry_insert {L : Keyed Viewstamp LogEntry} {rle' : LogEntry}
    (hlog : s'.log = L.insert vs rle')
    (hL : L = s.log) (hrle : s.log.lookup vs = some rle) (harg : rle'.arg = rle.arg) :
    s'.entry = s.entry := by
  funext w
  rw [entry, entry, hlog, hL]
  by_cases hw : w = vs
  · rw [hw, AList.lookup_insert, hrle, Option.map_some, Option.map_some, harg]
  · rw [AList.lookup_insert_ne hw]

/-- The log keeps its requests. -/
theorem Move.entry (h : Move i s s') : s'.entry = s.entry := by
  cases h with
  | run hvs hle hrle hts => exact entry_insert rfl rfl hrle rfl
  | enter hvs hle hrle hts hf => exact entry_insert rfl rfl hrle rfl
  | commit hvs hle hrle hack hmaj => exact entry_insert rfl rfl hrle rfl
  | acknowledge hi hprimary hvid hlast hmember hwalk hle hrle hack =>
    exact entry_insert rfl rfl hrle rfl
  | caller sbp hrle => exact entry_insert rfl rfl hrle rfl
  | executeDone hi hvs hrle ho => exact entry_insert rfl rfl hrle rfl
  | _ => rfl

theorem Move.jumps (h : Move i s s') : s'.jumps = s.jumps := by
  cases h <;> rfl

theorem Move.latest (h : Move i s s') : s'.latest = s.latest := by
  cases h <;> rfl

theorem Move.vsNext (h : Move i s s') : s'.vsNext = s.vsNext := by
  funext vs
  unfold Cohort.vsNext
  rw [h.jumps]

/-- What is committed goes on to the next viewstamp. -/
theorem Move.committed (h : Move i s s') : s'.committed = s.committed ∨
    (s.vsNext s.committed = some s'.committed ∧ s'.committed ≤ s.latest) := by
  cases h with
  | commit hvs hle hrle hack hmaj => exact Or.inr ⟨hvs, hle⟩
  | _ => exact Or.inl rfl

/-- What is executed goes on to the next viewstamp, if it is logged and committed. -/
theorem Move.executed (h : Move i s s') :
    (s'.executed = s.executed ∧ s'.handed = s.handed) ∨
      (s.vsNext s.executed = some s'.executed ∧ s'.executed ≤ s.committed ∧
        ∃ arg, s.entry s'.executed = some arg ∧ s'.handed = s.handed ++ [(s'.executed, arg)]) := by
  cases h with
  | run hvs hle hrle hts =>
    exact Or.inr ⟨hvs, hle, _, entry_eq_some.mpr ⟨_, hrle, rfl⟩, rfl⟩
  | enter hvs hle hrle hts hf =>
    exact Or.inr ⟨hvs, hle, _, entry_eq_some.mpr ⟨_, hrle, rfl⟩, rfl⟩
  | _ => exact Or.inl ⟨rfl, rfl⟩

/-- The view is that of the last formation. -/
theorem Move.view (h : Move i s s') :
    (s'.view = s.view ∧ s'.validView = s.validView ∧ s'.mode = s.mode) ∨
      ∃ vs arg f, s.entry vs = some arg ∧ vs.ts = 0 ∧ arg.request = .form f ∧ s'.view = f.view ∧
        s'.validView = true := by
  cases h with
  | @enter vs rle f hvs hle hrle hts hf =>
    exact Or.inr ⟨vs, _, f, entry_eq_some.mpr ⟨_, hrle, rfl⟩, hts, hf, rfl, rfl⟩
  | _ => exact Or.inl ⟨rfl, rfl, rfl⟩

theorem Moves.entry (h : Moves i s s') : s'.entry = s.entry := by
  induction h with
  | refl => rfl
  | tail _ h ih => exact h.entry.trans ih

theorem Moves.jumps (h : Moves i s s') : s'.jumps = s.jumps := by
  induction h with
  | refl => rfl
  | tail _ h ih => exact h.jumps.trans ih

theorem Moves.latest (h : Moves i s s') : s'.latest = s.latest := by
  induction h with
  | refl => rfl
  | tail _ h ih => exact h.latest.trans ih

/-! ## Replication -/

theorem handles_formView (hi : i = .call sbp (.initView f))
    (hnew : s.validView = false ∨ s.view.vid < f.view.vid) (hs' : s.formView f = some s') :
    Handles i s s' := by
  unfold formView at hs'
  split_ifs at hs' with hprimary
  simp only [Option.bind_eq_bind, Option.bind_eq_some_iff] at hs'
  obtain ⟨s₁, hs₁, s₂, hs₂, hs'⟩ := hs'
  rw [insert_with] at hs₁
  obtain ⟨s₀, hs₀, rfl⟩ := Option.map_eq_some_iff.mp hs₁
  obtain ⟨J, rfl⟩ := insert_eq hs₀
  have hmoves : Moves i _ s₂ := moves_advanceCommitted hs₂
  obtain ⟨o, S, heq, hsends⟩ := callEach_eq
    (fun _ => .replicate ⟨⟨f.view.vid, 0⟩, f.arg, ⟨f.view.vid, 0⟩⟩) .replicateCb f.view.backups s₂
  obtain rfl : s' = _ := (Option.some.inj hs').symm.trans heq
  have hlog : ⟨f.view.vid, 0⟩ ∈ s₂.log := by
    by_contra hnot
    rw [← entry_eq_none, hmoves.entry, entry_eq_none] at hnot
    exact hnot (Keyed.mem_add.mpr (Or.inl rfl))
  exact ⟨_, .forms hi hnew hprimary hs₀,
    hmoves.tail (.replicateForm hi (hprimary.trans hmoves.self.symm) hlog hsends)⟩

/-- A backup acknowledges the entries after the last one that is committed. -/
theorem moves_acknowledgeFrom {backup : Mid} {k : ℕ}
    (hi : i = .callback n (.replicateCb backup) (some (.replicate last)))
    (hprimary : s.view.primary = s.self) (hvid : s.latest.vid = s.committed.vid)
    (hlast : last ≤ s.latest) (hmember : s.isViewMember backup = true)
    (hwalk : s.Walk s.committed vs) (hs' : acknowledgeFrom backup last k vs s = some s') :
    Moves i s s' := by
  induction k generalizing s vs with
  | zero => cases hs'
  | succ k ih =>
    unfold acknowledgeFrom at hs'
    split_ifs at hs' with hle
    · simp only [Option.bind_eq_bind, Option.bind_eq_some_iff] at hs'
      obtain ⟨rle, hrle, vs', hvs', hs'⟩ := hs'
      split at hvs'
      · next ack hack =>
        rw [hack] at hs'
        exact .head (.acknowledge hi hprimary hvid hlast hmember hwalk hle hrle hack)
          (ih hprimary hvid hlast hmember (hwalk.tail hvs') hs')
      · next hack =>
        rw [hack] at hs'
        exact ih hprimary hvid hlast hmember (hwalk.tail hvs') hs'
    · exact Option.some.inj hs' ▸ .refl

theorem moves_replicateCb {backup : Mid}
    (hi : i = .callback n (.replicateCb backup) (some (.replicate last)))
    (hs' : s.replicateCb backup last = some s') : Moves i s s' := by
  unfold replicateCb at hs'
  split_ifs at hs' with hprimary hvid hold hlast hmember
  · exact Option.some.inj hs' ▸ .refl
  · exact Option.some.inj hs' ▸ .refl
  · exact Option.some.inj hs' ▸ .refl
  · simp only [Option.bind_eq_bind, Option.bind_eq_some_iff] at hs'
    obtain ⟨vs, hvs, s₁, hs₁, hs'⟩ := hs'
    exact (moves_acknowledgeFrom hi (not_not.mp hprimary) (not_not.mp hvid) (not_lt.mp hlast)
      (by simpa using hmember) (.single hvs) hs₁).trans (moves_advanceCommitted hs')

/-! ## Fetching the log -/

theorem moves_descend (hs' : s.descend p = some s') : Moves i s s' := by
  obtain ⟨o, k, S, P, rfl⟩ := descend_eq hs'
  exact .single (.descend hs')

theorem moves_fetchlogCheck (hs' : s.fetchlogCheck p = some s') : Moves i s s' := by
  simp only [fetchlogCheck, Option.bind_eq_bind, Option.bind_eq_some_iff] at hs'
  obtain ⟨s₁, hs₁, s₂, hs₂, hs'⟩ := hs'
  refine (moves_advanceCommitted hs₁).trans ((moves_descend hs₂).trans ?_)
  split_ifs at hs' with hend
  · obtain ⟨o, ho, heq⟩ := closed_eq p s₂
    obtain rfl : s' = _ := (Option.some.inj hs').symm.trans heq
    exact .single (.closed hend ho)
  · exact Option.some.inj hs' ▸ .refl

theorem handles_fetchlogCb {resp : Option Answer} {entry : Option ExecuteArg}
    (hi : i = .callback n (.fetchlogCb p vs) resp)
    (hcb : s.calls.lookup n = some (.fetchlogCb p vs))
    (hentry : ∀ arg, entry = some arg → resp = some (.fetchlog arg))
    (hs' : { s with calls := s.calls.erase n }.fetchlogCb p vs entry = some s') :
    Handles i s s' := by
  unfold fetchlogCb at hs'
  dsimp only at hs'
  split_ifs at hs' with hmem
  · exact ⟨s, .stays, .head (.called hi hcb) (.head (.received hi hmem) (moves_fetchlogCheck hs'))⟩
  · cases entry with
    | none =>
      exact ⟨s, .stays,
        .head (.called hi hcb) (.head (.notFetched hi hmem) (moves_fetchlogCheck hs'))⟩
    | some arg =>
      obtain ⟨s₁, hs₁, hs'⟩ := Option.bind_eq_some_iff.mp hs'
      rw [insert_calls] at hs₁
      obtain ⟨s₀, hs₀, rfl⟩ := Option.map_eq_some_iff.mp hs₁
      obtain ⟨J, rfl⟩ := insert_eq hs₀
      have hin : vs ∈ s.log.add vs (.plain arg) := Keyed.mem_add.mpr (Or.inl rfl)
      rw [hentry arg rfl] at hi
      exact ⟨_, .fetches hi hcb hmem hs₀, .head (.received hi hin) (moves_fetchlogCheck hs')⟩

theorem moves_pullLog {src : Mid} {cb : DoneCb} (h : Pulls i src last cb)
    (hs' : s.pullLog src last cb = some s') : Moves i s s' := by
  simp only [pullLog, Option.bind_eq_bind, Option.bind_eq_some_iff] at hs'
  obtain ⟨s₁, hs₁, hs'⟩ := hs'
  obtain ⟨o, k, S, P, rfl⟩ := pullUpto_eq hs₁
  exact .head (.pull h hs₁) (moves_fetchlogCheck hs')

/-! ## The view change manager -/

theorem moves_viewChangeCheckNewview (hs' : s.viewChangeCheckNewview a = some s') :
    Moves i s s' := by
  unfold viewChangeCheckNewview at hs'
  by_cases hopen : (s.attempts a).aborted = true
  · rw [if_pos hopen] at hs'
    exact Option.some.inj hs' ▸ .refl
  · rw [if_neg hopen] at hs'
    obtain ⟨nv, hnv, hs'⟩ := Option.bind_eq_some_iff.mp hs'
    split_ifs at hs' with hmaj
    · exact Option.some.inj hs' ▸ .single (.initView (by simpa using hopen) hnv hmaj.1 hmaj.2)
    · exact Option.some.inj hs' ▸ .single (.abort a)
    · exact Option.some.inj hs' ▸ .refl

theorem moves_viewChangeNewviewCb {resp : Option Answer} {accepted : Bool}
    (hi : i = .callback n (.viewChangeNewviewCb a u) resp)
    (haccepted : accepted = true → resp = some (.newView true))
    (hs' : s.viewChangeNewviewCb a u accepted = some s') : Moves i s s' :=
  .head (.newviewed hi haccepted) (moves_viewChangeCheckNewview hs')

theorem moves_viewChangePropose (hopen : (s.attempts a).aborted = false)
    (hdone : (s.attempts a).prepareDone.length = (s.attempts a).underlings.length)
    (hmaj : (s.attempts a).prepareAccepted.containsMajorityOf s.view.mids = true)
    (hmaj' : ∀ w, (s.attempts a).newview = some w →
      (s.attempts a).prepareAccepted.containsMajorityOf w.mids = true)
    (hnone : (s.attempts a).nvarg = none) (hs' : s.viewChangePropose a = some s') :
    Moves i s s' := by
  obtain ⟨nv, o, S, hnv, hsends, rfl⟩ := viewChangePropose_eq hs'
  exact .single (.propose hopen hdone hmaj hmaj' hnone hnv hsends)

theorem moves_viewChangeCheckMerged (hnone : (s.attempts a).nvarg = none)
    (hs' : s.viewChangeCheckMerged a = some s') : Moves i s s' := by
  unfold viewChangeCheckMerged at hs'
  dsimp only at hs'
  split_ifs at hs' with hend hmaj
  · exact Option.some.inj hs' ▸ .refl
  · exact Option.some.inj hs' ▸ .single (.abort a)
  · rw [not_or, not_not, Bool.not_eq_true] at hend
    rw [Bool.not_eq_false] at hmaj
    split at hs'
    · next w hw =>
      split_ifs at hs' with hmaj'
      · exact Option.some.inj hs' ▸ .single (.abort a)
      · refine moves_viewChangePropose hend.1 hend.2 hmaj (fun w' hw' => ?_) hnone hs'
        obtain rfl : w = w' := Option.some.inj (hw.symm.trans hw')
        exact by simpa using hmaj'
    · next hw =>
      exact moves_viewChangePropose hend.1 hend.2 hmaj (fun w hw' => by cases hw.symm.trans hw')
        hnone hs'

/-- An attempt under way that has proposed no view; `w` is the view it has found. -/
structure Open (s : Cohort) (a : AttemptRef) (w : View) : Prop where
  aborted : (s.attempts a).aborted = false
  nvarg : (s.attempts a).nvarg = none
  current : s.vcattempt = some a
  found : (s.attempts a).newview = some w

theorem Open.asked {w : View} (h : s.Open a w) (hu : u ∈ w.mids) :
    Moves i s (s.viewChangeAsk a a u) ∧ (s.viewChangeAsk a a u).Open a w := by
  by_cases hmem : u ∈ (s.attempts a).underlings
  · have heq : s.viewChangeAsk a a u = s := if_pos hmem
    rw [heq]
    exact ⟨.refl, h⟩
  · rw [viewChangeAsk_of_notMem hmem]
    refine ⟨.single (.ask h.found hu hmem h.aborted h.current h.nvarg), ?_⟩
    constructor
    · simpa [call, setAttempt] using h.aborted
    · simpa [call, setAttempt] using h.nvarg
    · exact h.current
    · simpa [call, setAttempt] using h.found

/-- The members of the view that has been found are asked. -/
theorem Open.asked_all {w : View} {us : List Mid} (h : s.Open a w) (hus : us ⊆ w.mids) :
    Moves i s (us.foldl (viewChangeAsk a a) s) ∧ (us.foldl (viewChangeAsk a a) s).Open a w := by
  induction us generalizing s with
  | nil => exact ⟨.refl, h⟩
  | cons u us ih =>
    obtain ⟨hmove, hopen⟩ := h.asked (i := i) (hus List.mem_cons_self)
    obtain ⟨hmoves, hopen⟩ := ih hopen (List.subset_of_cons_subset hus)
    exact ⟨hmove.trans hmoves, hopen⟩

theorem moves_viewChangeCheckPrepare (hnone : (s.attempts a).nvarg = none)
    (hcurrent : (s.attempts a).aborted = false → s.vcattempt = some a)
    (hs' : s.viewChangeCheckPrepare a = some s') : Moves i s s' := by
  unfold viewChangeCheckPrepare at hs'
  dsimp only at hs'
  split_ifs at hs' with hend hmaj
  · exact Option.some.inj hs' ▸ .refl
  · exact Option.some.inj hs' ▸ .single (.abort a)
  · rw [not_or, not_not, Bool.not_eq_true] at hend
    rw [Bool.not_eq_false] at hmaj
    split at hs'
    · next w hw =>
      by_cases hmerge : (s.attempts a).mergedVid < w.vid
      · rw [if_pos hmerge, hcurrent hend.1] at hs'
        have hopen : s.Open a w := ⟨hend.1, hnone, hcurrent hend.1, hw⟩
        obtain ⟨hmoves, hopen⟩ := hopen.asked_all (i := i) (List.Subset.refl _)
        exact hmoves.trans (.head (.merged w.vid)
          (moves_viewChangeCheckMerged (by simpa [setAttempt] using hopen.nvarg) hs'))
      · rw [if_neg hmerge] at hs'
        exact moves_viewChangeCheckMerged hnone hs'
    · next hw =>
      exact moves_viewChangePropose hend.1 hend.2 hmaj (fun w hw' => by cases hw.symm.trans hw')
        hnone hs'

theorem moves_viewChangePrepareCb {resp : Option Answer} {res : Option ViewChangeRes}
    (hi : i = .callback n (.viewChangePrepareCb a u) resp) (hcalled : s.calls.lookup n = none)
    (hres : ∀ r, res = some r → resp = some (.viewChange r))
    (hnone : (s.attempts a).nvarg = none)
    (hcurrent : (s.attempts a).aborted = false → s.vcattempt = some a)
    (hs' : s.viewChangePrepareCb a u res = some s') : Moves i s s' := by
  rw [viewChangePrepareCb_eq] at hs'
  split_ifs at hs' with hopen
  · exact Option.some.inj hs' ▸ .refl
  · rw [Bool.not_eq_true] at hopen
    obtain ⟨v, att, heq, hv, hatt⟩ := prepared_cases a u res s
    rw [heq] at hs'
    refine .head (.prepared hi hcalled hopen hnone hres hv hatt heq)
      (moves_viewChangeCheckPrepare ?_ ?_ hs')
    · simpa [setAttempt, hatt.nvarg] using hnone
    · exact fun _ => hcurrent hopen

theorem viewChangeInitiate_cases {joiners : List Mid}
    (hs' : s.viewChangeInitiate joiners = some s') : s' = s ∨ s.Initiates joiners s' := by
  by_cases hearly : s.attempting ∨ s.isViewMember s.self = false
  · exact Or.inl (Option.some.inj ((if_pos hearly).symm.trans hs')).symm
  · right
    let base : Cohort := { s.setAttempt s.nextAttempt (s.newAttempt joiners) with
      nextAttempt := s.nextAttempt + 1, vcattempt := some s.nextAttempt, mode := .viewchange }
    have hatt : base.attempts s.nextAttempt = s.newAttempt joiners := attempts_setAttempt
    have heq := ((if_neg hearly).trans (viewChangeAskAll_eq (s := base)
      (congrArg ViewChangeAttempt.prepareAccepted hatt))).symm.trans hs'
    obtain ⟨o, S, hcalls, hsends⟩ := callEach_eq
      (fun _ => .viewChange ⟨s.view, (s.newAttempt joiners).proposedVid⟩)
      (.viewChangePrepareCb s.nextAttempt)
      ((s.newAttempt joiners).underlings.filter fun u => ¬base.Down joiners u) base
    rw [not_or, Bool.not_eq_true, Bool.not_eq_false] at hearly
    refine ⟨hearly.1, hearly.2, o, S, ⟨hsends.out, hsends.calls⟩, ?_⟩
    rw [← Option.some.inj heq, hatt]
    change (base.callEach _ _ _).setAttempt _ _ = _
    rw [hcalls]
    simp only [setAttempt, base, Function.update_idem]
    rfl

theorem moves_joinView (dest : Mid) (s : Cohort) : Moves i s (s.joinView dest) := by
  unfold joinView
  split_ifs
  · exact .refl
  · exact .single (.join _)
  · exact .single (.join _)

/-! ## The calls that are served -/

/-- The reply cache changes nothing but the log. -/
theorem Unanswered.eq {s₀ : Cohort} (h : s.Unanswered arg s₀) : ∃ L, s₀ = { s with log := L } := by
  cases h with
  | none h => exact ⟨_, rfl⟩
  | other h hrid => exact ⟨_, rfl⟩
  | lost h hrid hrle hstate hvid => exact ⟨_, rfl⟩

/-- A request past the reply cache. -/
theorem handles_executeNew {s₀ : Cohort} (hi : i = .call sbp (.execute arg))
    (hmode : s.mode = .active) (hcache : s.Unanswered arg s₀)
    (hs' : s₀.executeNew sbp arg reply = some s') : Handles i s s' := by
  have hmoves : Moves i s s₀ := by
    cases hcache with
    | none h => exact .refl
    | other h hrid => exact .refl
    | lost h hrid hrle hstate hvid => exact .single (.caller none hrle)
  obtain ⟨L, rfl⟩ := hcache.eq
  unfold executeNew at hs'
  split_ifs at hs' with hredirect
  · exact Option.some.inj hs' ▸ ⟨s, .stays, hmoves.tail (.answer (.redirect hi))⟩
  · rw [not_or, not_not, not_not] at hredirect
    rw [accept_eq] at hs'
    obtain ⟨s₁, hs₁, hs'⟩ := Option.bind_eq_some_iff.mp hs'
    obtain ⟨vs, o, S, hvs, hsends, rfl⟩ := issue_eq hs₁
    exact ⟨_, .issues hi hmode hredirect.1 hredirect.2.symm hcache hvs ⟨hsends.out, hsends.calls⟩,
      moves_advanceCommitted hs'⟩

theorem handles_serveExecute (hi : i = .call sbp (.execute arg))
    (hs' : s.serveExecute sbp arg = some s') : Handles i s s' := by
  unfold serveExecute at hs'
  by_cases hmode : s.mode ≠ .active
  · rw [if_pos hmode] at hs'
    exact Option.some.inj hs' ▸ ⟨s, .stays, .refl⟩
  · rw [if_neg hmode] at hs'
    rw [not_not] at hmode
    split at hs'
    · next hrce => exact handles_executeNew hi hmode (.none hrce) hs'
    · next rce hrce =>
      by_cases hrid : rce.rid ≠ arg.rid
      · rw [if_pos hrid] at hs'
        exact handles_executeNew hi hmode (.other hrce hrid) hs'
      · rw [if_neg hrid] at hs'
        rw [not_not] at hrid
        obtain ⟨rle, hrle, hs'⟩ := Option.bind_eq_some_iff.mp hs'
        split_ifs at hs' with hdone hlost
        · exact Option.some.inj hs' ▸ ⟨s, .stays, .single (.cached hi hrce hrid hrle hdone)⟩
        · exact handles_executeNew hi hmode (.lost hrce hrid hrle hlost.1 hlost.2) hs'
        · exact Option.some.inj hs' ▸ ⟨s, .stays, .single (.caller (some sbp) hrle)⟩

theorem handles_replicated {primary : Mid} {ra : ReplicateArg} (hi : i = .call sbp (.replicate ra))
    (hcheck : s.Checks ra) (hs' : s.replicated sbp primary ra = some s') : Handles i s s' := by
  have hrest : ∀ s₁ : Cohort, Begins i s { s₁ with committed := max s₁.committed ra.committed } →
      ({ s₁ with committed := max s₁.committed ra.committed }.advanceExecuted.bind fun s =>
        s.pullLog primary ra.vs (.replicate sbp ra.vs)) = some s' → Handles i s s' :=
      fun s₁ h hs' => by
    obtain ⟨s₂, hs₂, hs'⟩ := Option.bind_eq_some_iff.mp hs'
    exact ⟨_, h, (moves_advanceExecuted hs₂).trans (moves_pullLog (.replicate hi primary) hs')⟩
  unfold replicated at hs'
  by_cases hnew : s.committed < ra.vs ∧ ra.vs ∉ s.log
  · rw [if_pos hnew] at hs'
    obtain ⟨s₁, hs₁, hs'⟩ := Option.bind_eq_some_iff.mp hs'
    obtain ⟨J, rfl⟩ := insert_eq hs₁
    exact hrest _ (.logs hi hcheck hnew.1 hnew.2 hs₁) hs'
  · rw [if_neg hnew] at hs'
    exact hrest s (.adopts hi hcheck hnew) hs'

theorem handles_serveReplicate {ra : ReplicateArg} (hi : i = .call sbp (.replicate ra))
    (hs' : s.serveReplicate sbp ra = some s') : Handles i s s' := by
  unfold serveReplicate at hs'
  split_ifs at hs' with hts hmode hprimary hmember
  · exact Option.some.inj hs' ▸ ⟨s, .stays, .refl⟩
  · exact Option.some.inj hs' ▸ ⟨s, .stays, .single (.answer (.refused hi))⟩
  · exact Option.some.inj hs' ▸ ⟨s, .stays, .single (.answer (.refused hi))⟩
  · exact handles_replicated hi (fun _ => ⟨not_not.mp hmode, hprimary, by simpa using hmember⟩) hs'
  · split at hs'
    · exact handles_replicated hi (fun h => absurd h hts) hs'
    · cases hs'

theorem moves_serveFetchlog (hi : i = .call sbp (.fetchlog vs)) :
    Moves i s (s.serveFetchlog sbp vs) := by
  unfold serveFetchlog
  split
  · next rle hrle => exact .single (.answer (.entry hi hrle))
  · exact .single (.answer (.missing hi))

theorem handles_serveViewChange {g : ViewChangeArg} (hi : i = .call sbp (.viewChange g))
    (hs' : s.serveViewChange sbp g = some s') : Handles i s s' := by
  unfold serveViewChange at hs'
  by_cases hreject : s.validView ∧ g.oldview.vid < s.view.vid ∨ g.newvid < s.proposedVid
  · rw [if_pos hreject] at hs'
    exact Option.some.inj hs' ▸ ⟨s, .stays, .single (.answer (.rejected hi hreject))⟩
  · rw [if_neg hreject] at hs'
    simp only [Option.bind_eq_bind, Option.bind_eq_some_iff] at hs'
    obtain ⟨vs, hvs, latest, hlatest, hs'⟩ := hs'
    rw [yieldTo_with] at hs'
    exact Option.some.inj hs' ▸
      ⟨_, .promises hi hreject (by rw [hvs]; exact hlatest), .refl⟩

theorem handles_serveNewView {nv : NewViewArg} (hi : i = .call sbp (.newView nv))
    (hs' : s.serveNewView sbp nv = some s') : Handles i s s' := by
  unfold serveNewView at hs'
  by_cases hreject : s.validView ∧ nv.view.vid < s.view.vid ∨ nv.view.vid < s.proposedVid
  · rw [if_pos hreject] at hs'
    exact Option.some.inj hs' ▸ ⟨s, .stays, .single (.answer (.notAccepted hi hreject))⟩
  · rw [if_neg hreject] at hs'
    have hyield := yieldTo_with (s := s) .viewchange s.proposedVid nv.view.vid
    rw [hyield] at hs'
    exact ⟨_, .accepts hi hreject, moves_pullLog (.newView hi) hs'⟩

theorem handles_serveInitView (hi : i = .call sbp (.initView f))
    (hs' : s.serveInitView sbp f = some s') : Handles i s s' := by
  unfold serveInitView at hs'
  by_cases hnew : s.validView = false ∨ s.view.vid < f.view.vid
  · rw [if_pos hnew] at hs'
    obtain ⟨s₁, hs₁, hs'⟩ := Option.bind_eq_some_iff.mp hs'
    obtain ⟨s₂, hs₂, hmoves⟩ := handles_formView hi hnew hs₁
    exact Option.some.inj hs' ▸ ⟨s₂, hs₂, hmoves.tail (.answer (.void hi))⟩
  · rw [if_neg hnew] at hs'
    exact Option.some.inj hs' ▸ ⟨s, .stays, .single (.answer (.void hi))⟩

/-- **A call is served in moves.** -/
theorem handles_dispatch {c : Call} (hi : i = .call sbp c) (hs' : s.dispatch sbp c = some s') :
    Handles i s s' := by
  cases c with
  | execute arg => exact handles_serveExecute hi hs'
  | replicate ra => exact handles_serveReplicate hi hs'
  | fetchlog vs => exact ⟨s, .stays, Option.some.inj hs' ▸ moves_serveFetchlog hi⟩
  | letMeIn joiner =>
    obtain ⟨s₁, hs₁, hs'⟩ := Option.bind_eq_some_iff.mp hs'
    obtain rfl := Option.some.inj hs'
    obtain rfl | hs₁ := viewChangeInitiate_cases hs₁
    · exact ⟨s₁, .stays, .single (.answer (.void hi))⟩
    · exact ⟨s₁, .initiates (hi ▸ .letMeIn) hs₁, .single (.answer (.void hi))⟩
  | viewChange g => exact handles_serveViewChange hi hs'
  | newView nv => exact handles_serveNewView hi hs'
  | initView f => exact handles_serveInitView hi hs'

theorem complete_replicateCb {backup : Mid} {resp : Option Answer}
    (hs' : s.complete (.replicateCb backup) resp = some s') :
    s' = s ∨ ∃ last, resp = some (.replicate last) ∧ s.replicateCb backup last = some s' := by
  cases resp with
  | none => exact Or.inl (Option.some.inj hs').symm
  | some r =>
    cases r with
    | replicate last => exact Or.inr ⟨last, rfl, hs'⟩
    | _ => exact Or.inl (Option.some.inj hs').symm

theorem complete_viewChangePrepareCb {resp : Option Answer}
    (hs' : s.complete (.viewChangePrepareCb a u) resp = some s') :
    ∃ res, (∀ r, res = some r → resp = some (.viewChange r)) ∧
      s.viewChangePrepareCb a u res = some s' := by
  cases resp with
  | none => exact ⟨none, nofun, hs'⟩
  | some r =>
    cases r with
    | viewChange res => exact ⟨some res, fun r hr => by rw [Option.some.inj hr], hs'⟩
    | _ => exact ⟨none, nofun, hs'⟩

theorem complete_viewChangeNewviewCb {resp : Option Answer}
    (hs' : s.complete (.viewChangeNewviewCb a u) resp = some s') :
    ∃ accepted, (accepted = true → resp = some (.newView true)) ∧
      s.viewChangeNewviewCb a u accepted = some s' := by
  cases resp with
  | none => exact ⟨false, nofun, hs'⟩
  | some r =>
    cases r with
    | newView accepted => exact ⟨accepted, fun h => by rw [h], hs'⟩
    | _ => exact ⟨false, nofun, hs'⟩

theorem complete_fetchlogCb {resp : Option Answer}
    (hs' : s.complete (.fetchlogCb p vs) resp = some s') :
    ∃ entry, (∀ arg, entry = some arg → resp = some (.fetchlog arg)) ∧
      s.fetchlogCb p vs entry = some s' := by
  cases resp with
  | none => exact ⟨none, nofun, hs'⟩
  | some r =>
    cases r with
    | fetchlog arg => exact ⟨some arg, fun r hr => by rw [Option.some.inj hr], hs'⟩
    | _ => exact ⟨none, nofun, hs'⟩

/-- **A callback runs in moves.** -/
theorem handles_completed {resp : Option Answer} (hs : s.Steady)
    (hs' : Group.completed n resp s = some s') :
    ∃ cb, s.calls.lookup n = some cb ∧ Handles (.callback n cb resp) s s' := by
  obtain ⟨cb, hcb, hs'⟩ := Option.bind_eq_some_iff.mp hs'
  refine ⟨cb, hcb, ?_⟩
  cases cb with
  | replicateCb backup =>
    refine ⟨s, .stays, .head (.called rfl hcb) ?_⟩
    obtain rfl | ⟨last, rfl, hs'⟩ := complete_replicateCb hs'
    · exact .refl
    · exact moves_replicateCb rfl hs'
  | viewChangePrepareCb a u =>
    refine ⟨s, .stays, .head (.called rfl hcb) ?_⟩
    obtain ⟨res, hres, hs'⟩ := complete_viewChangePrepareCb hs'
    exact moves_viewChangePrepareCb rfl (AList.lookup_erase _ _) hres (hs.undecided n a u hcb)
      (hs.current a) hs'
  | viewChangeNewviewCb a u =>
    refine ⟨s, .stays, .head (.called rfl hcb) ?_⟩
    obtain ⟨accepted, haccepted, hs'⟩ := complete_viewChangeNewviewCb hs'
    exact moves_viewChangeNewviewCb rfl haccepted hs'
  | fetchlogCb p vs =>
    obtain ⟨entry, hentry, hs'⟩ := complete_fetchlogCb hs'
    exact handles_fetchlogCb rfl hcb hentry hs'

theorem handles_executeDone (hi : i = .executed reply) {rest : List Viewstamp}
    (hvs : s.executing = vs :: rest)
    (hs' : { s with executing := rest }.executeDone vs reply = some s') : Handles i s s' := by
  obtain ⟨rle, hrle, o, ans, rfl, ho⟩ := executeDone_cases hs'
  exact ⟨s, .stays, .single (.executeDone hi hvs hrle ho)⟩

theorem handles_handleFailed {mid : Mid} (hi : i = .failed mid)
    (hs' : s.handleFailed mid = some s') : Handles i s s' := by
  unfold handleFailed at hs'
  dsimp only at hs'
  split_ifs at hs' with hfirst
  · obtain ⟨s₁, hs₁, hs'⟩ := Option.bind_eq_some_iff.mp hs'
    obtain rfl := Option.some.inj hs'
    obtain rfl | hs₁ := viewChangeInitiate_cases hs₁
    · exact ⟨s, .stays, .single (.watch _ _ _)⟩
    · exact ⟨s₁, .initiates (hi ▸ .failed hfirst) hs₁, .single (.watch _ _ _)⟩
  · exact ⟨s, .stays, Option.some.inj hs' ▸ .single (.watch _ _ _)⟩

theorem handles_timedOut (hi : i = .viewIsDown) (hs' : s.timedOut = some s') :
    Handles i s s' := by
  unfold timedOut at hs'
  split_ifs at hs'
  obtain rfl | hs' := viewChangeInitiate_cases hs'
  · exact ⟨s, .stays, .single (.watch _ _ _)⟩
  · exact ⟨s', .initiates (hi ▸ .viewIsDown) hs', .refl⟩

/-! ## One cohort -/

/-- What a cohort does on an input that is possible. -/
def handle (i : Input) (s : Cohort) : Option Cohort :=
  match i with
  | .call sbp c => s.dispatch sbp c
  | .callback n cb resp => if s.calls.lookup n = some cb then Group.completed n resp s else none
  | .executed reply =>
    match s.executing with
    | [] => none
    | vs :: rest => { s with executing := rest }.executeDone vs reply
  | .failed mid => s.handleFailed mid
  | .viewIsDown => s.timedOut
  | .join dest => some (s.joinView dest)

/-- **A cohort handles an input in moves.** -/
theorem handles_handle (h : s.Steady) (hs' : s.handle i = some s') : Handles i s s' := by
  cases i with
  | call sbp c => exact handles_dispatch rfl hs'
  | callback n cb resp =>
    change (if _ then _ else _) = _ at hs'
    split_ifs at hs' with hcb
    obtain ⟨cb', hcb', hs'⟩ := handles_completed h hs'
    obtain rfl := Option.some.inj (hcb.symm.trans hcb')
    exact hs'
  | executed reply =>
    simp only [handle] at hs'
    split at hs'
    · cases hs'
    · next vs rest hexec => exact handles_executeDone rfl hexec hs'
  | failed mid => exact handles_handleFailed rfl hs'
  | viewIsDown => exact handles_timedOut rfl hs'
  | join dest => exact ⟨s, .stays, Option.some.inj hs' ▸ moves_joinView dest s⟩

end Cohort

namespace Group

open Cohort

variable {s s' : Group} {e : Event} {c c' : Cohort}

/-- What an event gives to the cohort it happens at. -/
inductive Brings (s : Group) (c : Cohort) : Event → Input → Prop
  | deliver {p : Packet} (h : p ∈ s.calls) : Brings s c (.deliver p) (.call p.sbp p.call)
  | answer {sbp : Sbp} {ans : Answer} {cb : Continuation} (h : (sbp, ans) ∈ s.answers)
      (hcb : c.calls.lookup sbp.call = some cb) :
      Brings s c (.answer sbp ans) (.callback sbp.call cb (some ans))
  | fail {mid : Mid} {n : ℕ} {cb : Continuation} (hcb : c.calls.lookup n = some cb) :
      Brings s c (.fail mid n) (.callback n cb none)
  | request {mid : Mid} {n : ℕ} {arg : ExecuteArg} :
      Brings s c (.request mid n arg) (.call ⟨arg.client, n⟩ (.execute arg))
  | executed {mid : Mid} {reply : List UInt8} : Brings s c (.executed mid reply) (.executed reply)
  | failed {mid failed : Mid} : Brings s c (.failed mid failed) (.failed failed)
  | viewIsDown {mid : Mid} : Brings s c (.viewIsDown mid) .viewIsDown
  | join {mid dest : Mid} : Brings s c (.join mid dest) (.join dest)

/-- What happens at a cohort of a group is an input of the cohort. -/
theorem handle_of_act (hc' : s.act e c = some c') : ∃ i, Brings s c e i ∧ c.handle i = some c' := by
  have hcompleted : ∀ {n resp}, completed n resp c = some c' →
      ∃ cb, c.calls.lookup n = some cb ∧ c.handle (.callback n cb resp) = some c' := by
    intro n resp hc'
    obtain ⟨cb, hcb, -⟩ := Option.bind_eq_some_iff.mp hc'
    exact ⟨cb, hcb, (if_pos hcb).trans hc'⟩
  cases e with
  | boot mid => cases hc'
  | deliver p =>
    change (if p ∈ s.calls then _ else _) = _ at hc'
    split_ifs at hc' with hp
    exact ⟨_, .deliver hp, hc'⟩
  | answer sbp ans =>
    change (if (sbp, ans) ∈ s.answers then _ else _) = _ at hc'
    split_ifs at hc' with hans
    obtain ⟨cb, hcb, hc'⟩ := hcompleted hc'
    exact ⟨_, .answer hans hcb, hc'⟩
  | fail mid n =>
    obtain ⟨cb, hcb, hc'⟩ := hcompleted hc'
    exact ⟨_, .fail hcb, hc'⟩
  | request mid n arg => exact ⟨_, .request, hc'⟩
  | executed mid reply => exact ⟨_, .executed, hc'⟩
  | failed mid failed => exact ⟨_, .failed, hc'⟩
  | viewIsDown mid => exact ⟨_, .viewIsDown, hc'⟩
  | join mid dest => exact ⟨_, .join, hc'⟩

/-- **A cohort handles an event in moves.** -/
theorem handles_act (hc : c.Steady) (hc' : s.act e c = some c') :
    ∃ i, Brings s c e i ∧ Handles i c c' := by
  obtain ⟨i, hi, hc'⟩ := handle_of_act hc'
  exact ⟨i, hi, handles_handle hc hc'⟩

end Group

end Falcon
