import Falcon.Machinery.Bytes
import Falcon.Machinery.Run

/-!
# Replication/Execution — the queue in front of the state machine

`exec_server` of `execute.h`.  Requests wait in `rq_`; the first one is also the one that has been
sent.  Four entry points look at the queue and at the connection to decide whether to send it:
`execute`, `connect_cb`, and `recv` with a packet or without one (the connection is lost).

The state machine sends one reply for each request that comes over a connection, in their order.  A
connection keeps here the requests that have been sent on it and not been answered.  The number of
its call in a request, and `calls`, `replies`, `fds` and `deeds` (newest first), are read by no
function of the program.

* `orderly` — in every run replies go to the callbacks in the order of the calls, each one is the
  reply to the request of its call, and no request is sent a second time before its connection is
  lost without a reply.
-/

namespace Falcon.Exec

/-- `exec_request`, with the number of its call. -/
structure ExecRequest (κ : Type) where
  call : ℕ
  input : Bytes
  cb : κ
  deriving DecidableEq, Repr

/-- A connection to the state machine, with the requests it has still to answer. -/
structure Axprt (κ : Type) where
  fd : ℕ
  outstanding : List (ExecRequest κ)
  deriving DecidableEq, Repr

/-- What a callback gets: a packet, which is the reply to the request of the call `answers`. -/
structure Reply (κ : Type) where
  cb : κ
  answers : ℕ
  pkt : Bytes
  deriving DecidableEq, Repr

/-- What happens on the connections. -/
inductive Deed (κ : Type)
  | sent (r : ExecRequest κ) (fd : ℕ)
  | received (fd : ℕ)
  | lost (fd : ℕ)
  deriving DecidableEq, Repr

/-- `exec_server`. -/
structure ExecServer (κ : Type) where
  /-- `x_`. -/
  x : Option (Axprt κ)
  /-- `rq_`. -/
  rq : List (ExecRequest κ)
  /-- How many calls of `tcpconnect` wait for `connect_cb`. -/
  connects : ℕ
  fds : ℕ
  calls : List κ
  replies : List (Reply κ)
  deeds : List (Deed κ)
  deriving DecidableEq, Repr

inductive Event (κ : Type)
  | execute (input : Bytes) (cb : κ)
  | connected
  | packet (pkt : Bytes)
  | lost
  deriving DecidableEq, Repr

namespace ExecServer

variable {κ : Type}

/-- A new `exec_server`. -/
def start : ExecServer κ := ⟨none, [], 0, 0, [], [], []⟩

/-- `sendreq`; there is no result if the queue is empty and its first element is sent. -/
def sendreq (s : ExecServer κ) : Option (ExecServer κ) :=
  match s.x with
  | none => some { s with connects := s.connects + 1 }
  | some a => s.rq.head?.map fun r =>
    { s with
      x := some { a with outstanding := a.outstanding ++ [r] }
      deeds := .sent r a.fd :: s.deeds }

/-- `execute(input, cb)`. -/
def execute (input : Bytes) (cb : κ) (s : ExecServer κ) : Option (ExecServer κ) :=
  let s := { s with
    rq := s.rq ++ [⟨s.calls.length, input, cb⟩]
    calls := s.calls ++ [cb] }
  if s.rq.length = 1 then s.sendreq else some s

/-- `connect_cb(fd)`. -/
def connectCb (s : ExecServer κ) : Option (ExecServer κ) :=
  sendreq { s with x := some ⟨s.fds, []⟩, fds := s.fds + 1, connects := s.connects - 1 }

/-- `recv` without a packet, from the connection `a`. -/
def recvNull (a : Axprt κ) (s : ExecServer κ) : Option (ExecServer κ) :=
  let s := { s with x := none, deeds := .lost a.fd :: s.deeds }
  if s.rq ≠ [] then s.sendreq else some s

/-- `recv` with a packet from the connection `a`, the reply to `q`; there is no result if a request
is taken from an empty queue. -/
def recv (pkt : Bytes) (a : Axprt κ) (q : ExecRequest κ) (s : ExecServer κ) :
    Option (ExecServer κ) :=
  match s.rq with
  | [] => none
  | r :: rq =>
    let s := { s with
      rq := rq
      x := some { a with outstanding := a.outstanding.tail }
      replies := s.replies ++ [⟨r.cb, q.call, pkt⟩]
      deeds := .received a.fd :: s.deeds }
    if s.rq ≠ [] then s.sendreq else some s

/-- A pending connect completes, and a connection delivers replies to what was sent on it. -/
def Possible (s : ExecServer κ) : Event κ → Prop
  | .execute _ _ => True
  | .connected => s.connects ≠ 0
  | .packet _ => ∃ a ∈ s.x, a.outstanding ≠ []
  | .lost => s.x ≠ none

/-- One event. -/
def step (s : ExecServer κ) : Event κ → Option (ExecServer κ)
  | .execute input cb => s.execute input cb
  | .connected => if s.connects = 0 then none else s.connectCb
  | .packet pkt => do
    let a ← s.x
    let q ← a.outstanding.head?
    s.recv pkt a q
  | .lost => do
    let a ← s.x
    s.recvNull a

/-! ## Histories -/

variable {s s' : ExecServer κ} {a : Axprt κ} {r q : ExecRequest κ} {fd fd' : ℕ}
  {d : Deed κ} {deeds : List (Deed κ)} {input pkt : Bytes} {cb : κ} {e : Event κ}

/-- What has happened since a request was sent: its connection is lost, and it has delivered
nothing. -/
def Unanswered (fd : ℕ) (since : List (Deed κ)) : Prop := .lost fd ∈ since ∧ .received fd ∉ since

/-- Each request that was sent twice was unanswered in between. -/
def Resent (deeds : List (Deed κ)) : Prop :=
  ∀ r fd fd' post mid pre, deeds = post ++ .sent r fd' :: mid ++ .sent r fd :: pre →
    Unanswered fd mid

/-- **What a client of `exec_server` sees.** -/
structure Orderly (s : ExecServer κ) : Prop where
  /-- The `i`-th callback invoked is the one of the `i`-th call. -/
  callbacks : s.replies.map Reply.cb <+: s.calls
  /-- It gets the reply to the request of that call. -/
  answers : s.replies.map Reply.answers = List.range s.replies.length
  outstanding : ∀ a ∈ s.x, a.outstanding.length ≤ 1
  connects : s.connects ≤ 1
  resent : Resent s.deeds

/-- An event that is possible is handled. -/
def Served (s : ExecServer κ) (e : Event κ) : Prop := s.Possible e → ∃ s', s.step e = some s'

/-- The queue holds the calls without a reply, in their order. -/
structure Ledger (s : ExecServer κ) : Prop where
  calls : s.replies.map Reply.cb ++ s.rq.map ExecRequest.cb = s.calls
  answers : s.replies.map Reply.answers = List.range s.replies.length
  numbered : s.rq.map ExecRequest.call = List.range' s.replies.length s.rq.length

/-- **The queue**: there is a connection or a pending connect for it, and its head is in flight. -/
structure Queue (s : ExecServer κ) : Prop extends Ledger s where
  waiting : s.x = none → s.connects = if s.rq = [] then 0 else 1
  flying : ∀ a ∈ s.x, s.connects = 0 ∧ a.outstanding = s.rq.head?.toList

/-- Before a call of `sendreq`: there is something to send, and nothing has been sent. -/
structure Idle (s : ExecServer κ) : Prop extends Ledger s where
  rq : s.rq ≠ []
  connects : s.connects = 0
  outstanding : ∀ a ∈ s.x, a.outstanding = []

/-- **What has been sent**: nothing behind the head of the queue, and a request without a reply is
in flight, or it is unanswered. -/
structure Posted (s : ExecServer κ) : Prop where
  bound : ∀ r fd, .sent r fd ∈ s.deeds → r.call ≤ s.replies.length
  unreplied : ∀ r fd post pre, s.deeds = post ++ .sent r fd :: pre → s.replies.length ≤ r.call →
    .received fd ∉ post ∧ (.lost fd ∈ post ∨ ∃ a ∈ s.x, a.fd = fd ∧ r ∈ a.outstanding)
  resent : Resent s.deeds

/-! ## Sending the head of the queue -/

theorem Ledger.head_call (h : s.Ledger) (hr : r ∈ s.rq.head?) : r.call = s.replies.length := by
  obtain ⟨rq, hrq⟩ := List.head?_eq_some_iff.mp hr
  have hnum := h.numbered
  rw [hrq, List.map_cons, List.length_cons, List.range'_succ] at hnum
  exact (List.cons.inj hnum).1

theorem sendreq_none (hx : s.x = none) :
    s.sendreq = some { s with connects := s.connects + 1 } := by
  rw [ExecServer.sendreq, hx]

theorem sendreq_some (hx : s.x = some a) (hr : s.rq.head? = some r) :
    s.sendreq = some { s with
      x := some { a with outstanding := a.outstanding ++ [r] }
      deeds := .sent r a.fd :: s.deeds } := by
  rw [ExecServer.sendreq, hx, hr]
  rfl

/-- `sendreq` finds a request to send. -/
theorem Idle.sendreq (h : s.Idle) : ∃ s', s.sendreq = some s' ∧ s'.Queue := by
  obtain ⟨r, rq, hrq⟩ := List.exists_cons_of_ne_nil h.rq
  have hr : s.rq.head? = some r := by rw [hrq, List.head?_cons]
  cases hx : s.x with
  | none =>
    refine ⟨_, sendreq_none hx, ⟨h.calls, h.answers, h.numbered⟩, fun _ => ?_, fun a ha => ?_⟩
    · rw [if_neg h.rq, h.connects]
    · exact absurd (hx.symm.trans ha) (Option.some_ne_none a).symm
  | some a =>
    refine ⟨_, sendreq_some hx hr, ⟨h.calls, h.answers, h.numbered⟩, fun hx => ?_, fun a' ha' => ?_⟩
    · exact absurd hx (Option.some_ne_none _)
    · obtain rfl := Option.some.inj ha'
      refine ⟨h.connects, ?_⟩
      rw [h.outstanding a hx, hr]
      rfl

theorem resent_cons (hd : ∀ r fd, d ≠ .sent r fd) (h : Resent deeds) : Resent (d :: deeds) := by
  intro r fd fd' post mid pre heq
  cases post with
  | nil => exact absurd (List.cons.inj heq).1 (hd r fd')
  | cons d' post => exact h r fd fd' post mid pre (List.cons.inj heq).2

/-- Sending the head of the queue: whatever has been sent before is unanswered. -/
theorem Posted.sendreq (h : s.Posted) (hidle : s.Idle) (hs : s.sendreq = some s') : s'.Posted := by
  cases hx : s.x with
  | none =>
    obtain rfl := Option.some.inj ((sendreq_none hx).symm.trans hs)
    exact ⟨h.bound, h.unreplied, h.resent⟩
  | some a =>
    obtain ⟨r, rq, hrq⟩ := List.exists_cons_of_ne_nil hidle.rq
    have hr : s.rq.head? = some r := by rw [hrq, List.head?_cons]
    obtain rfl := Option.some.inj ((sendreq_some hx hr).symm.trans hs)
    have hcall : r.call = s.replies.length := hidle.head_call hr
    have hopen : ∀ r' fd post pre, s.deeds = post ++ .sent r' fd :: pre →
        s.replies.length ≤ r'.call → Unanswered fd post := by
      intro r' fd post pre heq hle
      obtain ⟨hnot, hlost | ⟨a', ha', -, hmem⟩⟩ := h.unreplied r' fd post pre heq hle
      · exact ⟨hlost, hnot⟩
      · rw [hidle.outstanding a' ha'] at hmem
        exact absurd hmem List.not_mem_nil
    constructor
    case bound =>
      intro r' fd hmem
      obtain heq | hmem := List.mem_cons.mp hmem
      · obtain ⟨rfl, -⟩ := Deed.sent.inj heq
        exact hcall.le
      · exact h.bound r' fd hmem
    case unreplied =>
      intro r' fd post pre heq hle
      cases post with
      | nil =>
        obtain ⟨rfl, rfl⟩ := Deed.sent.inj (List.cons.inj heq).1
        exact ⟨List.not_mem_nil, Or.inr ⟨_, rfl, rfl, by simp⟩⟩
      | cons d post =>
        obtain ⟨rfl, htail⟩ := List.cons.inj heq
        obtain ⟨hlost, hnot⟩ := hopen r' fd post pre htail hle
        exact ⟨by simpa using hnot, Or.inl (List.mem_cons_of_mem _ hlost)⟩
    case resent =>
      intro r' fd fd' post mid pre heq
      cases post with
      | nil =>
        obtain ⟨hsent, heq⟩ := List.cons.inj heq
        obtain ⟨rfl, -⟩ := Deed.sent.inj hsent
        exact hopen r fd mid pre heq hcall.ge
      | cons d post => exact h.resent r' fd fd' post mid pre (List.cons.inj heq).2

/-! ## One event -/

/-- After a call of `sendreq` that has something to send. -/
theorem Posted.idle (h : s.Posted) (hidle : s.Idle) :
    ∃ s', s.sendreq = some s' ∧ s'.Queue ∧ s'.Posted := by
  obtain ⟨s', hs', hqueue⟩ := hidle.sendreq
  exact ⟨s', hs', hqueue, h.sendreq hidle hs'⟩

theorem Ledger.push (h : s.Ledger) (input : Bytes) (cb : κ) : Ledger { s with
    rq := s.rq ++ [⟨s.calls.length, input, cb⟩]
    calls := s.calls ++ [cb] } := by
  have hlen : s.calls.length = s.replies.length + s.rq.length := by
    rw [← h.calls, List.length_append, List.length_map, List.length_map]
  refine ⟨?_, h.answers, ?_⟩
  · rw [List.map_append, ← List.append_assoc, h.calls]
    rfl
  · rw [List.map_append, h.numbered, List.length_append, List.length_singleton,
      List.range'_concat, hlen, one_mul]
    rfl

theorem Ledger.pop (h : s.Ledger) {rq : List (ExecRequest κ)} (hrq : s.rq = q :: rq) (pkt : Bytes)
    (x : Option (Axprt κ)) (deeds : List (Deed κ)) : Ledger { s with
      rq := rq
      x := x
      replies := s.replies ++ [⟨q.cb, q.call, pkt⟩]
      deeds := deeds } := by
  have hcall : q.call = s.replies.length := h.head_call (by rw [hrq]; exact rfl)
  have hnum := h.numbered
  rw [hrq, List.map_cons, List.length_cons, List.range'_succ] at hnum
  refine ⟨?_, ?_, ?_⟩
  · rw [← h.calls, hrq, List.map_append, List.append_assoc]
    rfl
  · rw [List.map_append, h.answers, List.length_append, List.length_singleton, List.range_succ,
      ← hcall]
    rfl
  · rw [(List.cons.inj hnum).2, List.length_append, List.length_singleton]

theorem Queue.execute (h : s.Queue) (hp : s.Posted) :
    ∃ s', s.execute input cb = some s' ∧ s'.Queue ∧ s'.Posted := by
  have hledger := h.toLedger.push input cb
  have hposted : Posted { s with
      rq := s.rq ++ [⟨s.calls.length, input, cb⟩]
      calls := s.calls ++ [cb] } := ⟨hp.bound, hp.unreplied, hp.resent⟩
  unfold ExecServer.execute
  dsimp only
  cases hrq : s.rq with
  | nil =>
    rw [hrq] at hledger hposted
    refine hposted.idle ⟨hledger, by simp, ?_, fun a ha => ?_⟩
    · cases hx : s.x with
      | none => exact (h.waiting hx).trans (if_pos hrq)
      | some a => exact (h.flying a hx).1
    · rw [(h.flying a ha).2, hrq]
      rfl
  | cons r rq =>
    rw [hrq] at hledger hposted
    refine ⟨_, if_neg (by simp), ⟨hledger, fun hx => ?_, fun a ha => ?_⟩, hposted⟩
    · rw [h.waiting hx, hrq]
      rfl
    · rw [(h.flying a ha).2, hrq]
      exact ⟨(h.flying a ha).1, rfl⟩

theorem Queue.connectCb (h : s.Queue) (hp : s.Posted) (hc : s.connects ≠ 0) :
    ∃ s', s.connectCb = some s' ∧ s'.Queue ∧ s'.Posted := by
  have hx : s.x = none := Option.eq_none_iff_forall_ne_some.mpr fun a ha => hc (h.flying a ha).1
  have hwait := h.waiting hx
  have hrq : s.rq ≠ [] := fun hrq => hc (hwait.trans (if_pos hrq))
  rw [if_neg hrq] at hwait
  refine Posted.idle ⟨hp.bound, fun r fd post pre heq hle => ?_, hp.resent⟩
    ⟨⟨h.calls, h.answers, h.numbered⟩, hrq, by rw [hwait], fun a ha => ?_⟩
  · obtain ⟨hnot, hlost | ⟨a, ha, -⟩⟩ := hp.unreplied r fd post pre heq hle
    · exact ⟨hnot, Or.inl hlost⟩
    · exact absurd (hx.symm.trans ha) (Option.some_ne_none a).symm
  · obtain rfl := Option.some.inj ha
    rfl

theorem Queue.recvNull (h : s.Queue) (hp : s.Posted) (hx : s.x = some a) :
    ∃ s', s.recvNull a = some s' ∧ s'.Queue ∧ s'.Posted := by
  have hposted : Posted { s with x := none, deeds := .lost a.fd :: s.deeds } := by
    refine ⟨fun r fd hmem => ?_, fun r fd post pre heq hle => ?_, resent_cons (by simp) hp.resent⟩
    · exact hp.bound r fd (by simpa using hmem)
    · cases post with
      | nil => cases (List.cons.inj heq).1
      | cons d post =>
        obtain ⟨rfl, htail⟩ := List.cons.inj heq
        obtain ⟨hnot, hlost | ⟨a', ha', rfl, -⟩⟩ := hp.unreplied r fd post pre htail hle
        · exact ⟨by simpa using hnot, Or.inl (List.mem_cons_of_mem _ hlost)⟩
        · obtain rfl := Option.some.inj (hx.symm.trans ha')
          exact ⟨by simpa using hnot, Or.inl List.mem_cons_self⟩
  have hconnects : s.connects = 0 := (h.flying a hx).1
  unfold ExecServer.recvNull
  dsimp only
  split_ifs with hrq
  · exact hposted.idle ⟨⟨h.calls, h.answers, h.numbered⟩, hrq, hconnects,
      fun a' ha' => absurd ha' (Option.not_mem_none a')⟩
  · refine ⟨_, rfl, ⟨⟨h.calls, h.answers, h.numbered⟩, fun _ => ?_, fun a' ha' => ?_⟩, hposted⟩
    · rw [if_pos (not_not.mp hrq), hconnects]
    · exact absurd ha' (Option.not_mem_none a')

theorem Queue.recv (pkt : Bytes) (h : s.Queue) (hp : s.Posted) (hx : s.x = some a)
    (hq : a.outstanding.head? = some q) :
    ∃ s', s.recv pkt a q = some s' ∧ s'.Queue ∧ s'.Posted := by
  obtain ⟨hconnects, hout⟩ := h.flying a hx
  unfold ExecServer.recv
  cases hrq : s.rq with
  | nil =>
    rw [hout, hrq] at hq
    cases hq
  | cons r rq =>
    rw [hrq] at hout
    obtain rfl : r = q := by
      rw [hout] at hq
      exact Option.some.inj hq
    have hledger := h.toLedger.pop hrq pkt (some { a with outstanding := a.outstanding.tail })
      (.received a.fd :: s.deeds)
    have hposted : Posted { s with
        rq := rq
        x := some { a with outstanding := a.outstanding.tail }
        replies := s.replies ++ [⟨r.cb, r.call, pkt⟩]
        deeds := .received a.fd :: s.deeds } := by
      have hlen : (s.replies ++ [(⟨r.cb, r.call, pkt⟩ : Reply κ)]).length =
          s.replies.length + 1 := by
        simp
      refine ⟨fun r' fd hmem => ?_, fun r' fd post pre heq hle => ?_,
        resent_cons (by simp) hp.resent⟩
      · have hle := hp.bound r' fd (by simpa using hmem)
        exact hle.trans (by simp)
      -- what is not replied to yet has not been sent
      · cases post with
        | nil => cases (List.cons.inj heq).1
        | cons d post =>
          have hbound := hp.bound r' fd (by rw [(List.cons.inj heq).2]; simp)
          rw [hlen] at hle
          omega
    have htail : a.outstanding.tail = [] := by rw [hout]; rfl
    dsimp only
    split_ifs with hne
    · refine hposted.idle ⟨hledger, hne, hconnects, fun a' ha' => ?_⟩
      obtain rfl := Option.some.inj ha'
      exact htail
    · refine ⟨_, rfl, ⟨hledger, fun hnone => ?_, fun a' ha' => ?_⟩, hposted⟩
      · exact absurd hnone (Option.some_ne_none _)
      · obtain rfl := Option.some.inj ha'
        exact ⟨hconnects, by rw [htail, not_not.mp hne]; rfl⟩

/-- A possible event is handled, and keeps the invariants. -/
theorem Queue.served (h : s.Queue) (hp : s.Posted) (he : s.Possible e) :
    ∃ s', s.step e = some s' ∧ s'.Queue ∧ s'.Posted := by
  cases e with
  | execute input cb => exact h.execute hp
  | connected =>
    obtain ⟨s', hs', hinv⟩ := h.connectCb hp he
    exact ⟨s', (if_neg he).trans hs', hinv⟩
  | packet pkt =>
    obtain ⟨a, hx, hout⟩ := he
    obtain ⟨q, rest, hrest⟩ := List.exists_cons_of_ne_nil hout
    have hq : a.outstanding.head? = some q := by rw [hrest, List.head?_cons]
    obtain ⟨s', hs', hinv⟩ := h.recv pkt hp hx hq
    exact ⟨s', Option.bind_eq_some_iff.mpr ⟨a, hx, Option.bind_eq_some_iff.mpr ⟨q, hq, hs'⟩⟩, hinv⟩
  | lost =>
    obtain ⟨a, hx⟩ := Option.ne_none_iff_exists'.mp he
    obtain ⟨s', hs', hinv⟩ := h.recvNull hp hx
    exact ⟨s', Option.bind_eq_some_iff.mpr ⟨a, hx, hs'⟩, hinv⟩

/-- Only possible events are handled. -/
theorem possible_of_step (h : s.step e = some s') : s.Possible e := by
  cases e with
  | execute input cb => trivial
  | connected =>
    rintro hzero
    rw [ExecServer.step, if_pos hzero] at h
    cases h
  | packet pkt =>
    obtain ⟨a, hx, h⟩ := Option.bind_eq_some_iff.mp h
    obtain ⟨q, hq, -⟩ := Option.bind_eq_some_iff.mp h
    refine ⟨a, hx, fun hnil => ?_⟩
    rw [hnil] at hq
    cases hq
  | lost =>
    obtain ⟨a, hx, -⟩ := Option.bind_eq_some_iff.mp h
    exact fun hnone => absurd (hnone.symm.trans hx) (Option.some_ne_none a).symm

theorem inv_step (h : s.step e = some s') (hs : s.Queue ∧ s.Posted) : s'.Queue ∧ s'.Posted := by
  obtain ⟨s₁, hs₁, hinv⟩ := hs.1.served hs.2 (possible_of_step h)
  exact Option.some.inj (h.symm.trans hs₁) ▸ hinv

theorem inv_start : (start : ExecServer κ).Queue ∧ (start : ExecServer κ).Posted := by
  refine ⟨⟨⟨rfl, rfl, rfl⟩, fun _ => rfl, fun a ha => ?_⟩, ⟨fun r fd hmem => ?_, ?_, ?_⟩⟩
  · exact absurd ha (Option.not_mem_none a)
  · exact absurd hmem List.not_mem_nil
  · exact fun r fd post pre heq => by simp [start] at heq
  · exact fun r fd fd' post mid pre heq => by simp [start] at heq

theorem Queue.seen (h : s.Queue) (hp : s.Posted) : s.Orderly where
  callbacks := ⟨_, h.calls⟩
  answers := h.answers
  outstanding a ha := by
    rw [(h.flying a ha).2]
    cases s.rq with
    | nil => exact Nat.zero_le 1
    | cons r rq => exact le_rfl
  connects := by
    cases hx : s.x with
    | none =>
      rw [h.waiting hx]
      split_ifs
      · exact Nat.zero_le 1
      · exact le_rfl
    | some a => exact (h.flying a hx).1.trans_le (Nat.zero_le 1)
  resent := hp.resent

/-- **Replies match requests.**  In every run of calls, completed connects, packets and losses, the
callbacks are invoked in the order of the calls, each with the reply to its request; at most one
request is outstanding on the connection, and at most one connect is pending; a request is sent
again only after its connection was lost without a reply.  No event finds the queue empty when it
takes its head. -/
theorem orderly (es : List (Event κ)) :
    Run.Always step Orderly start es ∧ Run.Tried step Served start es := by
  have hany : Run.Along step (fun (_ : ExecServer κ) _ _ => True) start es :=
    Run.along_iff_run.mpr fun _ _ _ _ _ _ _ => trivial
  have hinv : Run.Always step (fun s : ExecServer κ => s.Queue ∧ s.Posted) start es :=
    Run.Always.of_inv (fun _ hs => hs) (fun s e s' h hs _ => inv_step h hs) inv_start hany
  constructor
  · exact Run.Always.of_inv (fun s hs => hs.1.seen hs.2) (fun s e s' h hs _ => inv_step h hs)
      inv_start hany
  · refine Run.Tried.of_always (fun s e hs he => ?_) es start hinv
    obtain ⟨s', hs', -⟩ := hs.1.served hs.2 he
    exact ⟨s', hs'⟩

/-- The connection is lost while the first of two requests is in flight. -/
example : ([.execute [1] 'a', .execute [2] 'b', .connected, .lost, .connected, .packet [10],
    .packet [20]].foldlM step start : Option (ExecServer Char)).map replies =
    some [⟨'a', 0, [10]⟩, ⟨'b', 1, [20]⟩] := rfl

end ExecServer

end Falcon.Exec
