import Falcon.Replication.Dispatch

/-!
# Replication/Group — the cohorts of a group, and the network between them

Cohorts and the calls and answers between them.  Messages are datagrams: what has been sent can be
delivered at any time, any number of times or never, and in any order.  The callback of a call runs
once, on the first answer that arrives or because the call fails.  A cohort that has crashed takes
no further steps.

Falcon's reports, and the timers that repeat what has had no effect, come at any time.
-/

namespace Falcon

/-- A call under way. -/
structure Packet where
  sbp : Sbp
  dest : Mid
  call : Call
  deriving DecidableEq, Repr

/-- A replication group. -/
structure Group where
  cohorts : Mid → Option Cohort
  /-- The calls sent so far. -/
  calls : List Packet
  /-- The answers sent so far. -/
  answers : List (Sbp × Answer)

namespace Group

/-- The group of one cohort. -/
def init (mid : Mid) : Group where
  cohorts := Function.update (fun _ => none) mid (some (.founder mid))
  calls := []
  answers := []

/-- What the cohort `mid` has given to the network is sent. -/
def sentCalls (mid : Mid) (out : List Output) : List Packet :=
  out.filterMap fun
    | .call n dest c => some ⟨⟨mid, n⟩, dest, c⟩
    | .answer _ _ => none

def sentAnswers (out : List Output) : List (Sbp × Answer) :=
  out.filterMap fun
    | .call _ _ _ => none
    | .answer sbp a => some (sbp, a)

/-- The cohort `mid` has gone to `c`. -/
def update (mid : Mid) (c : Cohort) (s : Group) : Group where
  cohorts := Function.update s.cohorts mid (some { c with out := [] })
  calls := sentCalls mid c.out ++ s.calls
  answers := sentAnswers c.out ++ s.answers

inductive Event
  /-- A new cohort is told to join. -/
  | boot (mid : Mid)
  /-- A call is delivered. -/
  | deliver (p : Packet)
  /-- An answer is delivered. -/
  | answer (sbp : Sbp) (a : Answer)
  /-- A call fails. -/
  | fail (mid : Mid) (n : ℕ)
  /-- A client sends a request; `n` numbers its calls. -/
  | request (mid : Mid) (n : ℕ) (arg : ExecuteArg)
  /-- The back end has executed the oldest request. -/
  | executed (mid : Mid) (reply : List UInt8)
  /-- Falcon reports the cohort `failed` to `mid`. -/
  | failed (mid : Mid) (failed : Mid)
  /-- A timer of `view_is_down` expires. -/
  | viewIsDown (mid : Mid)
  /-- The timer of `join_view` expires. -/
  | join (mid : Mid) (dest : Mid)
  deriving DecidableEq, Repr

/-- The cohort a step is taken by. -/
def Event.actor : Event → Mid
  | .boot mid => mid
  | .deliver p => p.dest
  | .answer sbp _ => sbp.caller
  | .fail mid _ => mid
  | .request mid _ _ => mid
  | .executed mid _ => mid
  | .failed mid _ => mid
  | .viewIsDown mid => mid
  | .join mid _ => mid

/-- The call that is delivered. -/
def Event.packet : Event → Option Packet
  | .deliver p => some p
  | _ => none

theorem Event.packet_eq {e : Event} {p : Packet} : e.packet = some p ↔ e = .deliver p := by
  cases e <;> simp [packet]

/-- The callback of the call `n` runs. -/
def completed (n : ℕ) (resp : Option Answer) (c : Cohort) : Option Cohort := do
  let cb ← c.calls.lookup n
  { c with calls := c.calls.erase n }.complete cb resp

/-- What a cohort does in an event that is possible. -/
def act (s : Group) (e : Event) (c : Cohort) : Option Cohort :=
  match e with
  | .boot _ => none
  | .deliver p => if p ∈ s.calls then c.dispatch p.sbp p.call else none
  | .answer sbp a => if (sbp, a) ∈ s.answers then completed sbp.call (some a) c else none
  | .fail _ n => completed n none c
  | .request _ n arg => c.dispatch ⟨arg.client, n⟩ (.execute arg)
  | .executed _ reply =>
    match c.executing with
    | [] => none
    | vs :: rest => { c with executing := rest }.executeDone vs reply
  | .failed _ failed => c.handleFailed failed
  | .viewIsDown _ => c.timedOut
  | .join _ dest => some (c.joinView dest)

/-- One step of one cohort. -/
def step (s : Group) (e : Event) : Option Group :=
  match s.cohorts e.actor with
  | none =>
    match e with
    | .boot mid => some { s with cohorts := Function.update s.cohorts mid (some (.boot mid)) }
    | _ => none
  | some c => do
    let c ← s.act e c
    some (s.update e.actor c)

/-! ## Scripts -/

/-- An event of a run, a message by the call it belongs to. -/
inductive Cue
  | call (caller : Mid) (n : ℕ)
  | answer (caller : Mid) (n : ℕ)
  | event (e : Event)
  deriving DecidableEq, Repr

/-- The event a cue stands for. -/
def Cue.toEvent (s : Group) : Cue → Option Event
  | .call caller n => (s.calls.find? fun p => p.sbp = ⟨caller, n⟩).map .deliver
  | .answer caller n => (s.answers.find? fun p => p.1 = ⟨caller, n⟩).map fun p => .answer p.1 p.2
  | .event e => some e

/-- The group after the events of a script. -/
def play (s : Group) (script : List Cue) : Option Group :=
  script.foldlM (fun s cue => (cue.toEvent s).bind s.step) s

/-- The events of a script, as far as it goes. -/
def events (s : Group) : List Cue → List Event
  | [] => []
  | cue :: script =>
    match cue.toEvent s with
    | none => []
    | some e => e :: (s.step e).elim [] fun s' => s'.events script

/-- Cohort `2` joins the group of cohort `1`: the view `⟨2, 1⟩`. -/
def pair : List Cue :=
  [.event (.boot 2), .event (.join 2 1), .call 2 0, .call 1 0, .call 1 1, .answer 1 0, .answer 1 1,
    .call 1 2, .answer 1 2, .call 1 3, .call 2 1, .answer 2 1, .answer 1 3, .call 1 4, .call 1 5]

/-- Then cohort `3` joins: cohort `1` forms the view `⟨3, 1⟩`. -/
def third : List Cue :=
  [.event (.boot 3), .event (.join 3 1), .call 3 0, .call 1 6, .call 1 7, .call 1 8, .answer 1 6,
    .answer 1 7, .answer 1 8, .call 1 9, .call 1 10, .answer 1 9, .answer 1 10, .call 1 12]

/-- A group of three, all in the view `⟨3, 1⟩`. -/
def trio : List Cue :=
  pair ++ third ++ [.call 1 13, .call 1 14, .call 3 1, .answer 3 1, .call 3 2, .answer 3 2]

/-- A request is executed, and the client, which sends it two more times, gets the reply; then
cohort `4` joins, and `1` and `2` enter the view `⟨4, 1⟩`. -/
def onward : List Cue := trio ++
  [.event (.request 1 0 ⟨7, 1, ⟨3, 1⟩, .operation []⟩), .call 1 15, .answer 1 15,
    .event (.request 1 1 ⟨7, 1, ⟨3, 1⟩, .operation []⟩), .event (.executed 1 [5]),
    .event (.request 1 2 ⟨7, 1, ⟨3, 1⟩, .operation []⟩), .call 1 16, .answer 1 16,
    .event (.boot 4), .event (.join 4 1), .call 4 0, .call 1 17, .call 1 18, .call 1 19,
    .call 1 20, .answer 1 17, .answer 1 18, .answer 1 19, .answer 1 20, .call 1 21, .call 1 22,
    .call 1 23, .answer 1 21, .answer 1 22, .answer 1 23, .call 1 25, .call 1 26, .answer 1 26]

/-- A script is a run. -/
theorem foldlM_events {s s' : Group} {script : List Cue} (h : s.play script = some s') :
    (s.events script).foldlM step s = some s' := by
  unfold play at h
  induction script generalizing s with
  | nil => exact h
  | cons cue script ih =>
    rw [List.foldlM_cons] at h
    obtain ⟨s₁, hs₁, h⟩ := Option.bind_eq_some_iff.mp h
    obtain ⟨e, he, hs₁⟩ := Option.bind_eq_some_iff.mp hs₁
    unfold events
    rw [he]
    dsimp only
    rw [List.foldlM_cons, hs₁]
    exact ih h

/-- What a script leads to, its run leads to. -/
theorem events_of_any {s : Group} {script : List Cue} {P : Group → Prop} [DecidablePred P]
    (h : (s.play script).any (fun s => decide (P s)) = true) :
    ∃ s', (s.events script).foldlM step s = some s' ∧ P s' := by
  obtain ⟨s', hs', hP⟩ := (Option.any_eq_true _ _).mp h
  exact ⟨s', foldlM_events hs', of_decide_eq_true hP⟩

theorem exists_run_of_any {s : Group} {script : List Cue} {P : Group → Prop} [DecidablePred P]
    (h : (s.play script).any (fun s => decide (P s)) = true) :
    ∃ (es : List Event) (s' : Group), es.foldlM step s = some s' ∧ P s' :=
  ⟨_, events_of_any h⟩

end Group

end Falcon
