import Falcon.Machinery.Run
import Falcon.Vmm.Moves

/-!
# Vmm/Budget — how often a probe is sent

A probe is sent by `timedcall`, which gives up after `max_vmm_retry_ + 1` response times, and sent
again by `Retry`, a timer that arms itself anew after each response time; both start with the probe.
`Retry` stops after `kVMMRetry` retransmissions, whatever `max_vmm_retry_` is, and when the cell the
two share has been cleared.

Here the events have times.  A timer expires at its time, an unanswered probe is given up at its
time, and no time passes while something is due; what is due at one instant happens in any order.

* `full_budget_iff` — a probe is sent once in each of the `max_vmm_retry_ + 1` response times
  exactly if `max_vmm_retry_` is `kVMMRetry`, or it is smaller and the probe is given up before the
  `Retry` that is due at the same instant; and a probe that is answered is not sent again if
  `MonitorAction` does not ignore the answer.
-/

namespace Falcon

/-- What is configured: `max_vmm_retry_`, the response time, and the time between two checks. -/
structure Timings where
  maxVmmRetry : ℕ
  resp : ℕ
  check : ℕ
  resp_pos : 0 < resp

/-- The time after which something handed to the event loop is due. -/
def Pending.delay (T : Timings) : Pending → ℕ
  | .check _ _ _ => T.check
  | .probe _ _ _ _ _ => T.resp * (T.maxVmmRetry + 1)
  | .retry _ _ _ => T.resp

/-- The object a probe was sent to. -/
def Pending.object : Pending → Option VmmRef
  | .probe _ _ _ v _ => some v
  | _ => none

namespace VMMEnforcer

/-- What an event takes out of the event loop at its time. -/
def Event.expires : Event → Option ActionRef
  | .timer t => some t
  | .timeout t => some t
  | _ => none

/-- What an event takes out of the event loop. -/
def Event.takes : Event → Option ActionRef
  | .timer t => some t
  | .reply t => some t
  | .timeout t => some t
  | .failed t _ => some t
  | _ => none

/-- The probe an event sends again: `Retry` passes its test. -/
def retransmits (s : VMMEnforcer) : Event → Option ActionRef
  | .timer t =>
    match s.pending.lookup t with
    | some (.retry v cb retries) =>
      if (s.vmms v).monitored ∧ s.cbs cb ∧ retries < kVMMRetry then some cb else none
    | _ => none
  | _ => none

/-- The object of the probe `t` is monitored. -/
def watched (s : VMMEnforcer) (t : ActionRef) : Bool :=
  match (s.pending.lookup t).bind Pending.object with
  | some v => (s.vmms v).monitored
  | none => false

/-- An enforcer and its clock. -/
structure Timed where
  vmm : VMMEnforcer
  now : ℕ
  due : ActionRef → ℕ
  /-- When a probe was first sent. -/
  sentAt : ActionRef → ℕ
  /-- The times at which a probe was sent, latest first. -/
  xmits : ActionRef → List ℕ
  /-- The object of a probe has been monitored since it was sent. -/
  steady : ActionRef → Bool
  /-- A probe has been answered. -/
  replied : ActionRef → Bool

/-- An event and its time. -/
abbrev TimedEvent := ℕ × Event × Outside

namespace Timed

def init (gv : List GenNo) (gens : Handle → GenNo) : Timed where
  vmm := VMMEnforcer.init gv gens
  now := 0
  due := fun _ => 0
  sentAt := fun _ => 0
  xmits := fun _ => []
  steady := fun _ => false
  replied := fun _ => false

/-- The event can happen at its time. -/
def Possible (s : Timed) (e : TimedEvent) : Prop :=
  s.now ≤ e.1 ∧ (∀ t ∈ s.vmm.pending.keys, e.1 ≤ s.due t) ∧
    ∀ t, e.2.1.expires = some t → s.due t = e.1

instance (s : Timed) (e : TimedEvent) : Decidable (s.Possible e) :=
  have : Decidable (∀ t, e.2.1.expires = some t → s.due t = e.1) :=
    match h : e.2.1.expires with
    | none => isTrue (by simp)
    | some t => decidable_of_iff (s.due t = e.1) (by simp)
  inferInstanceAs (Decidable (_ ∧ _ ∧ _))

/-- The enforcer has gone to `vmm` in an event: what it has handed to the event loop is due after
its delay, and a probe among it has been sent. -/
def advance (T : Timings) (s : Timed) (e : TimedEvent) (vmm : VMMEnforcer) : Timed where
  vmm := vmm
  now := e.1
  due t := if t < s.vmm.nextAction then s.due t
    else e.1 + ((vmm.pending.lookup t).map (Pending.delay T)).getD 0
  sentAt t := if t < s.vmm.nextAction then s.sentAt t else e.1
  xmits t := if t < s.vmm.nextAction then
      if s.vmm.retransmits e.2.1 = some t then e.1 :: s.xmits t else s.xmits t
    else [e.1]
  steady t := (decide (s.vmm.nextAction ≤ t) || s.steady t) && vmm.watched t
  replied t := s.replied t || decide (e.2.1 = .reply t)

/-- One turn of the event loop, at its time. -/
def step (T : Timings) (s : Timed) (e : TimedEvent) : Option Timed :=
  if s.Possible e then (s.vmm.step e.2).map (s.advance T e) else none

/-- The times of `n` transmissions that begin at `t₀`, latest first. -/
def times (T : Timings) (t₀ : ℕ) : ℕ → List ℕ
  | 0 => []
  | n + 1 => (t₀ + T.resp * n) :: times T t₀ n

/-- When a probe whose object has been monitored all the time is given up, it has been sent
`max_vmm_retry_ + 1` times, once in each response time. -/
def FullBudget (T : Timings) (s : Timed) (e : TimedEvent) : Prop :=
  ∀ t h rxBytes counter v n, e.2.1 = .timeout t → s.Possible e →
    s.vmm.pending.lookup t = some (.probe h rxBytes counter v n) → s.steady t = true →
    s.xmits t = times T (s.sentAt t) (T.maxVmmRetry + 1)

/-- A `Retry` for the probe `t` is due now. -/
def RetryDue (s : Timed) (t : ActionRef) (now : ℕ) : Prop :=
  ∃ t' v n, s.vmm.pending.lookup t' = some (.retry v t n) ∧ s.due t' = now

/-- `max_vmm_retry_` is `kVMMRetry`, or smaller; then the probe is given up before its `Retry` that
is due at the same instant. -/
def RetriesMatch (T : Timings) (s : Timed) (e : TimedEvent) : Prop :=
  ∀ t h rxBytes counter v n, e.2.1 = .timeout t → s.Possible e →
    s.vmm.pending.lookup t = some (.probe h rxBytes counter v n) → s.steady t = true →
    T.maxVmmRetry = kVMMRetry ∨ T.maxVmmRetry < kVMMRetry ∧ s.RetryDue t e.1

/-- A probe that has been answered is not sent again. -/
def NotAgain (s : Timed) (e : TimedEvent) : Prop :=
  ∀ t, s.Possible e → s.vmm.retransmits e.2.1 = some t → s.replied t = false

/-- `MonitorAction` does not ignore the answer to a probe: the object under its handle is monitored,
and no later probe has been counted. -/
def RepliesHeard (s : Timed) (e : TimedEvent) : Prop :=
  ∀ t h rxBytes counter v n, e.2.1 = .reply t →
    s.vmm.pending.lookup t = some (.probe h rxBytes counter v n) →
    ∃ v', s.vmm.installed h = some v' ∧ (s.vmm.vmms v').monitored = true ∧
      (s.vmm.vmms v').count ≤ (counter + 1).toUInt64

end Timed

variable {s s' : VMMEnforcer} {h : Handle} {v : VmmRef} {t t' : ActionRef} {out : Outside}

/-! ## What an event does to the event loop -/

/-- What is handed to the event loop, where it holds `pending`, the next action is `next` and the
cells are `cbs`: nothing, a check, or a probe with its `Retry`. -/
inductive Hands (next : ActionRef) (pending : Keyed ActionRef Pending) (cbs : ActionRef → Bool)
    (s' : VMMEnforcer) : Prop
  | nothing (hpending : s'.pending = pending) (hnext : s'.nextAction = next) (hcbs : s'.cbs = cbs) :
      Hands next pending cbs s'
  | check {h : Handle} {rxBytes : UInt64} {counter : UInt32}
      (hpending : s'.pending = pending.insert next (.check h rxBytes counter))
      (hnext : s'.nextAction = next + 1) (hcbs : s'.cbs = cbs) : Hands next pending cbs s'
  | probe {h : Handle} {rxBytes : UInt64} {counter : UInt32} {v : VmmRef} {n : ℕ}
      (hpending : s'.pending =
        (pending.insert next (.probe h rxBytes counter v n)).insert (next + 1)
        (.retry v next 0))
      (hnext : s'.nextAction = next + 2) (hcbs : s'.cbs = Function.update cbs next true) :
      Hands next pending cbs s'

/-- Nothing is handed to the event loop, and no cell changes. -/
structure Idle (s s' : VMMEnforcer) : Prop where
  pending : s'.pending = s.pending
  next : s'.nextAction = s.nextAction
  cbs : s'.cbs = s.cbs

theorem Idle.refl (s : VMMEnforcer) : Idle s s := ⟨rfl, rfl, rfl⟩

theorem Idle.trans {s₁ : VMMEnforcer} (h : Idle s s₁) (h' : Idle s₁ s') : Idle s s' :=
  ⟨h'.pending.trans h.pending, h'.next.trans h.next, h'.cbs.trans h.cbs⟩

theorem Idle.hands (h : Idle s s') : Hands s.nextAction s.pending s.cbs s' :=
  .nothing h.pending h.next h.cbs

theorem idle_stopMonitoring (h₁ : s.stopMonitoring h = some s') : Idle s s' := by
  simp only [stopMonitoring, Option.bind_eq_bind, Option.bind_eq_some_iff, Option.some.injEq] at h₁
  obtain ⟨v, -, rfl⟩ := h₁
  exact ⟨rfl, rfl, rfl⟩

theorem idle_kill (h₁ : s.kill h = some s') : Idle s s' := by
  simp only [kill, Option.bind_eq_bind, Option.bind_eq_some_iff, Option.some.injEq] at h₁
  obtain ⟨v, -, rfl⟩ := h₁
  exact ⟨rfl, rfl, rfl⟩

theorem idle_observeDown {st : UInt32} {k w : Bool} (h₁ : s.observeDown h st k w = some s') :
    Idle s s' := by
  have hcore : Idle s { s with core := s.core.observeDown h st k w } := ⟨rfl, rfl, rfl⟩
  exact hcore.trans (idle_stopMonitoring h₁)

theorem idle_observerCancel (h₁ : s.observerCancel h = some s') : Idle s s' := by
  unfold observerCancel at h₁
  split at h₁
  · obtain ⟨s₁, hs₁, h₁⟩ := Option.bind_eq_some_iff.mp h₁
    exact (idle_stopMonitoring hs₁).trans (idle_observeDown h₁)
  · exact Option.some.inj h₁ ▸ ⟨rfl, rfl, rfl⟩

theorem idle_observerRegister (port : UInt32) : Idle s (s.observerRegister h port) := by
  unfold observerRegister
  cases s.installed h with
  | none => exact ⟨rfl, rfl, rfl⟩
  | some v => exact ⟨rfl, rfl, rfl⟩

/-- To clear a cell. -/
theorem update_false (cbs : ActionRef → Bool) (t t' : ActionRef) :
    Function.update cbs t false t' = cbs t' ∨ Function.update cbs t false t' = false ∧ t' = t := by
  by_cases heq : t' = t
  · exact Or.inr ⟨by rw [heq, Function.update_self], heq⟩
  · exact Or.inl (Function.update_of_ne heq _ _)

/-- A time-out clears no cell but that of its probe. -/
theorem probeTimedOut_hands (h₁ : s.probeTimedOut h t = some s') :
    ∃ cbs, (∀ t', cbs t' = s.cbs t' ∨ cbs t' = false ∧ t' = t) ∧
      Hands s.nextAction s.pending cbs s' := by
  have hdown : ∀ {s₁ : VMMEnforcer} {k}, Idle s s₁ →
      (s₁.clear (some t)).observeDown h vmmTimedout k true = some s' →
      ∃ cbs, (∀ t', cbs t' = s.cbs t' ∨ cbs t' = false ∧ t' = t) ∧
        Hands s.nextAction s.pending cbs s' := by
    intro s₁ k hidle h₁
    obtain ⟨hp, hn, hc⟩ := idle_observeDown h₁
    refine ⟨_, update_false s.cbs t, .nothing (hp.trans hidle.pending) (hn.trans hidle.next) ?_⟩
    rw [hc, ← hidle.cbs]
    rfl
  simp only [probeTimedOut, Option.bind_eq_bind, Option.bind_eq_some_iff] at h₁
  obtain ⟨v, -, h₁⟩ := h₁
  split_ifs at h₁
  · exact ⟨s.cbs, fun _ => Or.inl rfl, Option.some.inj h₁ ▸ .nothing rfl rfl rfl⟩
  · obtain ⟨s₁, hs₁, h₁⟩ := Option.bind_eq_some_iff.mp h₁
    exact hdown (idle_kill hs₁) h₁
  · obtain ⟨s₁, hs₁, h₁⟩ := Option.bind_eq_some_iff.mp h₁
    obtain rfl := Option.some.inj hs₁
    exact hdown (Idle.refl _) h₁

/-- **What a sign of life hands to the event loop.**  It is ignored; or the cell of the probe it
answers is cleared, and a check or a probe comes next. -/
theorem monitorAction_hands {rxBytes : UInt64} {counter : UInt32} {oldCb : Option ActionRef}
    (h₁ : s.monitorAction h rxBytes counter oldCb out = some s') :
    s' = s ∧ (∀ v, s.installed h = some v → (s.vmms v).monitored = true →
        counter.toUInt64 < (s.vmms v).count) ∨
      Hands s.nextAction s.pending (s.clear oldCb).cbs s' := by
  simp only [monitorAction, Option.bind_eq_bind, Option.bind_eq_some_iff] at h₁
  obtain ⟨v, hv, h₁⟩ := h₁
  split_ifs at h₁ with hidle hold
  · refine Or.inl ⟨(Option.some.inj h₁).symm, fun v' hv' hm => ?_⟩
    obtain rfl := Option.some.inj (hv.symm.trans hv')
    exact absurd (hm.symm.trans hidle) (by decide)
  · refine Or.inl ⟨(Option.some.inj h₁).symm, fun v' hv' _ => ?_⟩
    obtain rfl := Option.some.inj (hv.symm.trans hv')
    exact hold
  · obtain ⟨rxBytes', -, h₁⟩ := Option.bind_eq_some_iff.mp h₁
    right
    cases oldCb with
    | none =>
      split_ifs at h₁
      · exact Option.some.inj h₁ ▸ .probe rfl rfl rfl
      · exact Option.some.inj h₁ ▸ .check rfl rfl rfl
    | some t =>
      split_ifs at h₁
      · exact Option.some.inj h₁ ▸ .probe rfl rfl rfl
      · exact Option.some.inj h₁ ▸ .check rfl rfl rfl

theorem startMonitoring_hands (h₁ : s.startMonitoring h out = some s') :
    Hands s.nextAction s.pending s.cbs s' := by
  simp only [startMonitoring, Option.bind_eq_bind, Option.bind_eq_some_iff] at h₁
  obtain ⟨v, -, rxBytes, -, h₁⟩ := h₁
  obtain ⟨rfl, -⟩ | hhands := monitorAction_hands h₁
  · exact .nothing rfl rfl rfl
  · exact hhands

theorem idle_hooks {acts : List Action} (hstart : ∀ h, .startMonitoring h ∉ acts)
    (h₁ : acts.foldlM (hook out) s = some s') : Idle s s' := by
  refine Run.keeps_of_mem (I := Idle s) (fun a ha s₁ s₂ hs₂ hidle => hidle.trans ?_) h₁
    (Idle.refl s)
  unfold hook at hs₂
  split at hs₂
  · exact absurd ha (hstart _)
  · exact idle_stopMonitoring hs₂
  · exact idle_kill hs₂
  · exact Option.some.inj hs₂ ▸ Idle.refl _

theorem runHooks_hands {c : Enforcer} {ev : Enforcer.Event} (hn : s.core.Named)
    (hc : s.core.step ev = some c) (h₁ : s.runHooks c out = some s') :
    Hands s.nextAction s.pending s.cbs s' := by
  obtain ⟨h, req, res, -, hbegin⟩ | ⟨hnone, hhooks⟩ := runHooks_cases hn hc h₁
  · exact startMonitoring_hands (s := { s with core := c }) hbegin
  · have hidle := idle_hooks hnone hhooks
    exact .nothing hidle.pending hidle.next hidle.cbs

/-- What is left in the event loop when an event takes what it takes. -/
def remaining (s : VMMEnforcer) (e : Event) : Keyed ActionRef Pending :=
  match e.takes with
  | some t => s.pending.erase t
  | none => s.pending

/-- **One event, as far as the event loop is concerned**: a retransmission, or something else. -/
inductive Turn (s : VMMEnforcer) (e : Event) (s' : VMMEnforcer) : Prop
  /-- A probe is sent again, and `Retry` arms itself anew. -/
  | again {t cb : ActionRef} {v : VmmRef} {n : ℕ} (he : e = .timer t)
      (hx : s.pending.lookup t = some (.retry v cb n)) (hn : n < kVMMRetry)
      (hagain : s.retransmits e = some cb)
      (hpending : s'.pending = (s.pending.erase t).insert s.nextAction (.retry v cb (n + 1)))
      (hnext : s'.nextAction = s.nextAction + 1) (hcbs : s'.cbs = s.cbs) : Turn s e s'
  /-- A cell is cleared only for a probe that is answered or given up. -/
  | other {cbs : ActionRef → Bool} (hagain : s.retransmits e = none)
      (hcbs : ∀ t, cbs t = s.cbs t ∨ cbs t = false ∧ e.takes = some t)
      (hhands : Hands s.nextAction (s.remaining e) cbs s') : Turn s e s'

theorem turn_step {e : Event} (hn : s.core.Named) (h₁ : step s (e, out) = some s') :
    Turn s e s' := by
  cases e with
  | request req =>
    have hcore : s.core.step (.request req (s.answer req.target)) =
        some (s.core.dispatch req (s.answer req.target)) := rfl
    exact .other rfl (fun _ => Or.inl rfl) (runHooks_hands hn hcore h₁)
  | fire cb status =>
    obtain ⟨c, hc, h₁⟩ := Option.bind_eq_some_iff.mp h₁
    exact .other rfl (fun _ => Or.inl rfl) (runHooks_hands hn hc h₁)
  | observerRegister h port =>
    obtain rfl := Option.some.inj h₁
    exact .other rfl (fun _ => Or.inl rfl) (idle_observerRegister port).hands
  | observerCancel h => exact .other rfl (fun _ => Or.inl rfl) (idle_observerCancel h₁).hands
  | timer t =>
    simp only [step] at h₁
    split at h₁
    · next h rxBytes counter hx =>
      refine .other (by simp only [retransmits, hx]) (fun _ => Or.inl rfl) ?_
      obtain ⟨rfl, -⟩ | hhands := monitorAction_hands h₁
      · exact .nothing rfl rfl rfl
      · exact hhands
    · next v cb n hx =>
      have hagain : s.retransmits (.timer t) =
          if (s.vmms v).monitored ∧ s.cbs cb ∧ n < kVMMRetry then some cb else none := by
        simp only [retransmits, hx]
      unfold retry at h₁
      change (if (s.vmms v).monitored ∧ s.cbs cb ∧ n < kVMMRetry then _ else _) = _ at h₁
      split_ifs at h₁ with hguard hcb
      · rw [if_pos hguard] at hagain
        exact Option.some.inj h₁ ▸ .again rfl hx hguard.2.2 hagain rfl rfl rfl
      · rw [if_neg hguard] at hagain
        exact Option.some.inj h₁ ▸ .other hagain (fun _ => Or.inl rfl) (.nothing rfl rfl rfl)
    · cases h₁
  | reply t =>
    simp only [step] at h₁
    split at h₁
    · obtain ⟨rfl, -⟩ | hhands := monitorAction_hands h₁
      · exact .other rfl (fun _ => Or.inl rfl) (.nothing rfl rfl rfl)
      · refine .other rfl (fun t' => ?_) hhands
        exact (update_false s.cbs t t').imp_right (And.imp_right fun heq : t' = t => heq ▸ rfl)
    · cases h₁
  | timeout t =>
    simp only [step] at h₁
    split at h₁
    · obtain ⟨cbs, hcbs, hhands⟩ := probeTimedOut_hands h₁
      exact .other rfl
        (fun t' => (hcbs t').imp_right (And.imp_right fun heq : t' = t => heq ▸ rfl)) hhands
    · cases h₁
  | failed t counter =>
    simp only [step] at h₁
    split at h₁
    · simp only [probeFailed, Option.bind_eq_bind, Option.bind_eq_some_iff] at h₁
      obtain ⟨v, -, h₁⟩ := h₁
      split_ifs at h₁
      · exact Option.some.inj h₁ ▸ .other rfl (fun _ => Or.inl rfl) (.nothing rfl rfl rfl)
      · exact Option.some.inj h₁ ▸ .other rfl (fun _ => Or.inl rfl) (.nothing rfl rfl rfl)
    · cases h₁

/-- A `Retry` is taken by its timer only. -/
theorem takes_retry {e : Event} {cb : ActionRef} {n : ℕ} (h₁ : step s (e, out) = some s')
    (ht : e.takes = some t) (hx : s.pending.lookup t = some (.retry v cb n)) : e = .timer t := by
  cases e with
  | timer t' => rw [Option.some.inj ht]
  | reply t' | timeout t' | failed t' counter =>
    obtain rfl := Option.some.inj ht
    simp only [step, hx] at h₁
    cases h₁
  | _ => cases ht

namespace Timed

variable {T : Timings} {s s' : Timed} {e : TimedEvent} {vmm : VMMEnforcer} {t t' : ActionRef}
  {v : VmmRef} {es : List TimedEvent}

/-! ## The chain of a probe -/

theorem advance_due (h : t < s.vmm.nextAction) : (s.advance T e vmm).due t = s.due t := if_pos h

theorem advance_sentAt (h : t < s.vmm.nextAction) :
    (s.advance T e vmm).sentAt t = s.sentAt t := if_pos h

theorem advance_xmits (h : t < s.vmm.nextAction) (hno : s.vmm.retransmits e.2.1 ≠ some t) :
    (s.advance T e vmm).xmits t = s.xmits t := (if_pos h).trans (if_neg hno)

theorem advance_due_new {x : Pending} (h : s.vmm.nextAction ≤ t)
    (hx : vmm.pending.lookup t = some x) : (s.advance T e vmm).due t = e.1 + x.delay T := by
  refine (if_neg (Nat.not_lt.mpr h)).trans ?_
  rw [hx]
  rfl

/-- After `k` retransmissions of the probe `t` to `v`, each a response time after the one before:
there is one `Retry` for it, due in another response time, unless there were `kVMMRetry` of them. -/
structure Chained (T : Timings) (s : Timed) (t : ActionRef) (v : VmmRef) (k : ℕ) : Prop where
  le_const : k ≤ kVMMRetry
  le_max : k ≤ T.maxVmmRetry + 1
  xmits : s.xmits t = times T (s.sentAt t) (k + 1)
  retries : ∀ t' v' n, s.vmm.pending.lookup t' = some (.retry v' t n) →
    v' = v ∧ n = k ∧ s.due t' = s.sentAt t + T.resp * (k + 1)
  unique : ∀ t₁ t₂ v₁ v₂ n₁ n₂, s.vmm.pending.lookup t₁ = some (.retry v₁ t n₁) →
    s.vmm.pending.lookup t₂ = some (.retry v₂ t n₂) → t₁ = t₂
  armed : k = kVMMRetry ∨ ∃ t', s.vmm.pending.lookup t' = some (.retry v t k)

/-- The probe `t` to `v` is outstanding: its cell is set, its object is monitored, and it will be
given up after `max_vmm_retry_ + 1` response times. -/
structure Outstanding (T : Timings) (s : Timed) (t : ActionRef) (v : VmmRef) : Prop where
  live : s.vmm.cbs t = true
  monitored : (s.vmm.vmms v).monitored = true
  due : s.due t = s.sentAt t + T.resp * (T.maxVmmRetry + 1)
  chain : ∃ k, Chained T s t v k

/-- The probes whose object has been monitored since are on their way. -/
structure Paced (T : Timings) (s : Timed) : Prop where
  named : s.vmm.core.Named
  armed : ∀ t x, s.vmm.pending.lookup t = some x → t < s.vmm.nextAction
  owned : ∀ t v cb n, s.vmm.pending.lookup t = some (.retry v cb n) → cb < s.vmm.nextAction
  probes : ∀ t h rxBytes counter v n,
    s.vmm.pending.lookup t = some (.probe h rxBytes counter v n) → s.steady t = true →
    Outstanding T s t v

theorem watched_probe {s : VMMEnforcer} {h : Handle} {rxBytes : UInt64} {counter : UInt32} {n : ℕ}
    (hx : s.pending.lookup t = some (.probe h rxBytes counter v n)) :
    s.watched t = (s.vmms v).monitored := by
  simp only [watched, hx, Option.bind_some, Pending.object]

/-- A probe that is not sent again stays as it is, if its `Retry` does or has come to its end. -/
theorem Outstanding.keep (ho : Outstanding T s t v)
    (harmed : ∀ t x, s.vmm.pending.lookup t = some x → t < s.vmm.nextAction)
    (ht : t < s.vmm.nextAction) (hcbs : vmm.cbs t = s.vmm.cbs t)
    (hmon : (vmm.vmms v).monitored = true) (hno : s.vmm.retransmits e.2.1 ≠ some t)
    (hold : ∀ t' v' n, vmm.pending.lookup t' = some (.retry v' t n) →
      s.vmm.pending.lookup t' = some (.retry v' t n))
    (hkeep : ∀ t' n, s.vmm.pending.lookup t' = some (.retry v t n) →
      vmm.pending.lookup t' = some (.retry v t n) ∨ kVMMRetry ≤ n) :
    Outstanding T (s.advance T e vmm) t v := by
  obtain ⟨k, hk⟩ := ho.chain
  refine ⟨hcbs.trans ho.live, hmon, ?_, k, hk.le_const, hk.le_max, ?_, fun t' v' n hx => ?_,
    fun t₁ t₂ v₁ v₂ n₁ n₂ h₁ h₂ => hk.unique t₁ t₂ v₁ v₂ n₁ n₂ (hold _ _ _ h₁) (hold _ _ _ h₂), ?_⟩
  · rw [advance_due ht, advance_sentAt ht, ho.due]
  · rw [advance_xmits ht hno, advance_sentAt ht, hk.xmits]
  · have hx' := hold t' v' n hx
    rw [advance_due (harmed t' _ hx'), advance_sentAt ht]
    exact hk.retries t' v' n hx'
  · obtain heq | ⟨t', ht'⟩ := hk.armed
    · exact Or.inl heq
    · obtain hx | hle := hkeep t' k ht'
      · exact Or.inr ⟨t', hx⟩
      · exact Or.inl (le_antisymm hk.le_const hle)

/-- A probe is sent again: its `Retry` was due, and so was not the end of the probe. -/
theorem Outstanding.again {n : ℕ} (ho : Outstanding T s t v) (hs : Paced T s) (hpos : s.Possible e)
    (ht : t ∈ s.vmm.pending) (he : e.2.1 = .timer t')
    (hx : s.vmm.pending.lookup t' = some (.retry v t n)) (hn : n < kVMMRetry)
    (hagain : s.vmm.retransmits e.2.1 = some t) (hmon : (vmm.vmms v).monitored = true)
    (hpending : vmm.pending =
      (s.vmm.pending.erase t').insert s.vmm.nextAction (.retry v t (n + 1)))
    (hcbs : vmm.cbs = s.vmm.cbs) : Outstanding T (s.advance T e vmm) t v := by
  obtain ⟨k, hk⟩ := ho.chain
  obtain ⟨-, rfl, hdue⟩ := hk.retries t' v n hx
  obtain ⟨x, hx'⟩ := Keyed.exists_lookup ht
  have hlt := hs.armed t x hx'
  have hnow : s.sentAt t + T.resp * (n + 1) = e.1 := by
    rw [← hdue]
    exact hpos.2.2 t' (by rw [he]; rfl)
  have hle : n + 1 ≤ T.maxVmmRetry + 1 := by
    have hend : e.1 ≤ s.due t := hpos.2.1 t (AList.mem_keys.mp ht)
    rw [ho.due, ← hnow] at hend
    exact Nat.le_of_mul_le_mul_left (Nat.le_of_add_le_add_left hend) T.resp_pos
  have hnew : ∀ t₁ v₁ m, vmm.pending.lookup t₁ = some (.retry v₁ t m) →
      t₁ = s.vmm.nextAction ∧ v₁ = v ∧ m = n + 1 := by
    intro t₁ v₁ m h₁
    by_cases heq : t₁ = s.vmm.nextAction
    · rw [hpending, heq, AList.lookup_insert] at h₁
      obtain ⟨rfl, -, rfl⟩ := Pending.retry.inj (Option.some.inj h₁)
      exact ⟨heq, rfl, rfl⟩
    · rw [hpending, AList.lookup_insert_ne heq] at h₁
      have hne : t₁ ≠ t' := fun heq => by rw [heq, AList.lookup_erase] at h₁; cases h₁
      exact absurd (hk.unique _ _ _ _ _ _ (Keyed.lookup_of_lookup_erase h₁) hx) hne
  have hlast : vmm.pending.lookup s.vmm.nextAction = some (.retry v t (n + 1)) := by
    rw [hpending, AList.lookup_insert]
  refine ⟨by rw [← ho.live]; exact congrFun hcbs t, hmon, ?_, n + 1, hn, hle, ?_,
    fun t₁ v₁ m h₁ => ?_, fun t₁ t₂ v₁ v₂ m₁ m₂ h₁ h₂ => ?_, Or.inr ⟨_, hlast⟩⟩
  · rw [advance_due hlt, advance_sentAt hlt, ho.due]
  · have hxmits : (s.advance T e vmm).xmits t = e.1 :: s.xmits t :=
      (if_pos hlt).trans (if_pos hagain)
    rw [hxmits, advance_sentAt hlt, hk.xmits, ← hnow]
    rfl
  · obtain ⟨rfl, rfl, rfl⟩ := hnew t₁ v₁ m h₁
    refine ⟨rfl, rfl, ?_⟩
    rw [advance_due_new le_rfl hlast, advance_sentAt hlt, ← hnow]
    change _ + T.resp = _
    rw [Nat.mul_add_one T.resp (n + 1), Nat.add_assoc]
  · exact (hnew t₁ v₁ m₁ h₁).1.trans (hnew t₂ v₂ m₂ h₂).1.symm

/-- A new probe has been sent once, and its `Retry` is armed. -/
theorem Outstanding.fresh {h : Handle} {rxBytes : UInt64} {counter : UInt32} {n : ℕ}
    {pending : Keyed ActionRef Pending} {cbs : ActionRef → Bool}
    (howned : ∀ t' v' m, pending.lookup t' ≠ some (.retry v' s.vmm.nextAction m))
    (hpending : vmm.pending =
      (pending.insert s.vmm.nextAction (.probe h rxBytes counter v n)).insert (s.vmm.nextAction + 1)
        (.retry v s.vmm.nextAction 0))
    (hcbs : vmm.cbs = Function.update cbs s.vmm.nextAction true)
    (hmon : (vmm.vmms v).monitored = true) :
    Outstanding T (s.advance T e vmm) s.vmm.nextAction v := by
  have hnot : ¬ s.vmm.nextAction < s.vmm.nextAction := lt_irrefl _
  have hsent : (s.advance T e vmm).sentAt s.vmm.nextAction = e.1 := if_neg hnot
  have hprobe : vmm.pending.lookup s.vmm.nextAction = some (.probe h rxBytes counter v n) := by
    rw [hpending, AList.lookup_insert_ne (Nat.ne_of_lt (Nat.lt_succ_self _)), AList.lookup_insert]
  have hretry : vmm.pending.lookup (s.vmm.nextAction + 1) =
      some (.retry v s.vmm.nextAction 0) := by
    rw [hpending, AList.lookup_insert]
  have hnew : ∀ t' v' m, vmm.pending.lookup t' = some (.retry v' s.vmm.nextAction m) →
      t' = s.vmm.nextAction + 1 ∧ v' = v ∧ m = 0 := by
    intro t' v' m hx
    by_cases heq : t' = s.vmm.nextAction + 1
    · rw [heq, hretry] at hx
      obtain ⟨rfl, -, rfl⟩ := Pending.retry.inj (Option.some.inj hx)
      exact ⟨heq, rfl, rfl⟩
    · rw [hpending, AList.lookup_insert_ne heq] at hx
      by_cases heq' : t' = s.vmm.nextAction
      · rw [heq', AList.lookup_insert] at hx
        cases hx
      · rw [AList.lookup_insert_ne heq'] at hx
        exact (howned t' v' m hx).elim
  refine ⟨?_, hmon, ?_, 0, Nat.zero_le _, Nat.zero_le _, ?_, fun t' v' m hx => ?_,
    fun t₁ t₂ v₁ v₂ m₁ m₂ h₁ h₂ => ?_, Or.inr ⟨_, hretry⟩⟩
  · change vmm.cbs _ = true
    rw [hcbs, Function.update_self]
  · rw [advance_due_new le_rfl hprobe, hsent]
    rfl
  · rw [hsent]
    exact if_neg hnot
  · obtain ⟨rfl, rfl, rfl⟩ := hnew t' v' m hx
    refine ⟨rfl, rfl, ?_⟩
    rw [advance_due_new (Nat.le_succ _) hretry, hsent, Nat.zero_add, Nat.mul_one]
    rfl
  · exact (hnew t₁ v₁ m₁ h₁).1.trans (hnew t₂ v₂ m₂ h₂).1.symm

theorem lookup_remaining {s : VMMEnforcer} {e : Event} {x : Pending}
    (h : (s.remaining e).lookup t = some x) : s.pending.lookup t = some x ∧ e.takes ≠ some t := by
  unfold remaining at h
  split at h
  · next t' ht' =>
    refine ⟨Keyed.lookup_of_lookup_erase h, fun heq => ?_⟩
    obtain rfl := Option.some.inj (ht'.symm.trans heq)
    rw [AList.lookup_erase] at h
    cases h
  · next hnone => exact ⟨h, fun heq => by rw [hnone] at heq; cases heq⟩

theorem lookup_remaining_of_ne {s : VMMEnforcer} {e : Event} (h : e.takes ≠ some t) :
    (s.remaining e).lookup t = s.pending.lookup t := by
  unfold remaining
  split
  · next t' ht' => exact AList.lookup_erase_ne fun heq => h (by rw [ht', heq])
  · rfl

theorem steady_advance {h : Handle} {rxBytes : UInt64} {counter : UInt32} {n : ℕ}
    (hx : vmm.pending.lookup t = some (.probe h rxBytes counter v n))
    (hsteady : (s.advance T e vmm).steady t = true) :
    (t < s.vmm.nextAction → s.steady t = true) ∧ (vmm.vmms v).monitored = true := by
  obtain ⟨hor, hwatched⟩ := (Bool.and_eq_true _ _).mp hsteady
  rw [watched_probe hx] at hwatched
  refine ⟨fun ht => ?_, hwatched⟩
  obtain hle | hsteady := (Bool.or_eq_true _ _).mp hor
  · exact absurd ht (Nat.not_lt.mpr (of_decide_eq_true hle))
  · exact hsteady

/-- A probe that is left in the event loop by an event that sends none again. -/
theorem Paced.keep {h : Handle} {rxBytes : UInt64} {counter : UInt32} {n : ℕ}
    {cbs : ActionRef → Bool} (hs : Paced T s) (h₁ : s.vmm.step e.2 = some vmm)
    (hagain : s.vmm.retransmits e.2.1 = none)
    (hcbs : ∀ t, cbs t = s.vmm.cbs t ∨ cbs t = false ∧ e.2.1.takes = some t)
    (hx : (s.vmm.remaining e.2.1).lookup t = some (.probe h rxBytes counter v n))
    (hsteady : s.steady t = true) (hmon : (vmm.vmms v).monitored = true)
    (hcell : vmm.cbs t = cbs t)
    (hretries : ∀ t' v' n, vmm.pending.lookup t' = some (.retry v' t n) ↔
      (s.vmm.remaining e.2.1).lookup t' = some (.retry v' t n)) :
    Outstanding T (s.advance T e vmm) t v := by
  obtain ⟨hx, htakes⟩ := lookup_remaining hx
  have ho : Outstanding T s t v := hs.probes t h rxBytes counter v n hx hsteady
  refine ho.keep hs.armed (hs.armed t _ hx) ?_ hmon (by rw [hagain]; simp)
    (fun t' v' n hx' => (lookup_remaining ((hretries t' v' n).mp hx')).1) fun t' n hx' => ?_
  · exact hcell.trans ((hcbs t).resolve_right fun h => htakes h.2)
  · by_cases htakes' : e.2.1.takes = some t'
    · have htimer : e.2.1 = .timer t' := takes_retry h₁ htakes' hx'
      right
      rw [htimer] at hagain
      simp only [retransmits, hx', ho.monitored, ho.live, true_and, ite_eq_right_iff,
        reduceCtorEq, imp_false] at hagain
      exact Nat.not_lt.mp hagain
    · exact Or.inl ((hretries t' v n).mpr (by rwa [lookup_remaining_of_ne htakes']))

theorem Paced.named_step (hs : Paced T s) (h₁ : s.vmm.step e.2 = some vmm) : vmm.core.Named :=
  (moves_step (S := fun _ _ => True) hs.named (fun _ _ _ => trivial) h₁).keeps
    (fun _ _ hm hn => hm.named hn) hs.named

/-- What is left in the event loop was there before. -/
theorem Paced.armed_remaining {ev : Event} {x : Pending} (hs : Paced T s)
    (hx : (s.vmm.remaining ev).lookup t = some x) : t < s.vmm.nextAction :=
  hs.armed t x (lookup_remaining hx).1

theorem Paced.owned_remaining {ev : Event} {cb : ActionRef} {n : ℕ} (hs : Paced T s)
    (hx : (s.vmm.remaining ev).lookup t = some (.retry v cb n)) : cb < s.vmm.nextAction :=
  hs.owned t v cb n (lookup_remaining hx).1

/-- A probe is sent again. -/
theorem Paced.again {t₀ cb : ActionRef} {v₀ : VmmRef} {n₀ : ℕ} (hs : Paced T s)
    (hpos : s.Possible e) (hvmm : s.vmm.step e.2 = some vmm) (he : e.2.1 = .timer t₀)
    (hx₀ : s.vmm.pending.lookup t₀ = some (.retry v₀ cb n₀)) (hlt : n₀ < kVMMRetry)
    (hagain : s.vmm.retransmits e.2.1 = some cb)
    (hpending : vmm.pending =
      (s.vmm.pending.erase t₀).insert s.vmm.nextAction (.retry v₀ cb (n₀ + 1)))
    (hnext : vmm.nextAction = s.vmm.nextAction + 1) (hcbs : vmm.cbs = s.vmm.cbs) :
    Paced T (s.advance T e vmm) := by
  have hn : vmm.core.Named := hs.named_step hvmm
  have hremaining : s.vmm.remaining e.2.1 = s.vmm.pending.erase t₀ := by
    rw [he]
    rfl
  rw [← hremaining] at hpending
  refine ⟨hn, fun t x hx => ?_, fun t v cb' n hx => ?_, fun t h rx c v n hx hsteady => ?_⟩
  · obtain ⟨rfl, -⟩ | ⟨-, hx⟩ := Keyed.lookup_of_lookup_insert (hpending ▸ hx)
    · exact hnext ▸ Nat.lt_succ_self _
    · exact hnext ▸ Nat.lt_succ_of_lt (hs.armed_remaining hx)
  · obtain ⟨-, heq⟩ | ⟨-, hx⟩ := Keyed.lookup_of_lookup_insert (hpending ▸ hx)
    · obtain ⟨-, rfl, -⟩ := Pending.retry.inj heq
      exact hnext ▸ Nat.lt_succ_of_lt (hs.owned t₀ v₀ cb' n₀ hx₀)
    · exact hnext ▸ Nat.lt_succ_of_lt (hs.owned_remaining hx)
  · obtain ⟨hsteady, hmon⟩ := steady_advance hx hsteady
    obtain ⟨-, heq⟩ | ⟨hne, hx⟩ := Keyed.lookup_of_lookup_insert (hpending ▸ hx)
    · cases heq
    · have hprobe := (lookup_remaining hx).1
      have hlt' := hs.armed_remaining hx
      have ho : Outstanding T s t v := hs.probes t h rx c v n hprobe (hsteady hlt')
      by_cases hcb : cb = t
      · subst hcb
        obtain ⟨k, hk⟩ := ho.chain
        obtain ⟨rfl, -, -⟩ := hk.retries t₀ v₀ n₀ hx₀
        exact ho.again hs hpos (Keyed.mem_of_lookup hprobe) he hx₀ hlt hagain hmon
          (hremaining ▸ hpending) hcbs
      · refine ho.keep hs.armed hlt' (congrFun hcbs t) hmon ?_ (fun t' v' n' hx' => ?_)
          fun t' n' hx' => Or.inl ?_
        · rw [hagain]
          exact fun heq => hcb (Option.some.inj heq)
        · obtain ⟨-, heq⟩ | ⟨-, hx'⟩ := Keyed.lookup_of_lookup_insert (hpending ▸ hx')
          · exact (hcb (Pending.retry.inj heq).2.1.symm).elim
          · exact (lookup_remaining hx').1
        · rw [hpending, AList.lookup_insert_ne (Nat.ne_of_lt (hs.armed t' _ hx')), hremaining,
            AList.lookup_erase_ne]
          · exact hx'
          · rintro rfl
            exact hcb (Pending.retry.inj (Option.some.inj (hx₀.symm.trans hx'))).2.1

/-- Something is handed to the event loop, and no probe is sent again. -/
theorem Paced.hands {cbs : ActionRef → Bool} (hs : Paced T s)
    (hvmm : s.vmm.step e.2 = some vmm) (hagain : s.vmm.retransmits e.2.1 = none)
    (hcbs : ∀ t, cbs t = s.vmm.cbs t ∨ cbs t = false ∧ e.2.1.takes = some t)
    (hhands : Hands s.vmm.nextAction (s.vmm.remaining e.2.1) cbs vmm) :
    Paced T (s.advance T e vmm) := by
  have hn : vmm.core.Named := hs.named_step hvmm
  cases hhands with
  | nothing hpending hnext hcells =>
    refine ⟨hn, fun t x hx => ?_, fun t v cb n hx => ?_, fun t h rx c v n hx hsteady => ?_⟩
    · change vmm.pending.lookup t = _ at hx
      rw [hpending] at hx
      exact hnext ▸ hs.armed_remaining hx
    · change vmm.pending.lookup t = _ at hx
      rw [hpending] at hx
      exact hnext ▸ hs.owned_remaining hx
    · change vmm.pending.lookup t = _ at hx
      obtain ⟨hsteady, hmon⟩ := steady_advance hx hsteady
      rw [hpending] at hx
      exact hs.keep hvmm hagain hcbs hx (hsteady (hs.armed_remaining hx)) hmon (congrFun hcells t)
        fun t' v' n => by rw [hpending]
  | @check h₀ rx₀ c₀ hpending hnext hcells =>
    refine ⟨hn, fun t x hx => ?_, fun t v cb n hx => ?_, fun t h rx c v n hx hsteady => ?_⟩
    · obtain ⟨rfl, -⟩ | ⟨-, hx⟩ := Keyed.lookup_of_lookup_insert (hpending ▸ hx)
      · exact hnext ▸ Nat.lt_succ_self _
      · exact hnext ▸ Nat.lt_succ_of_lt (hs.armed_remaining hx)
    · obtain ⟨-, heq⟩ | ⟨-, hx⟩ := Keyed.lookup_of_lookup_insert (hpending ▸ hx)
      · cases heq
      · exact hnext ▸ Nat.lt_succ_of_lt (hs.owned_remaining hx)
    · obtain ⟨hsteady, hmon⟩ := steady_advance hx hsteady
      obtain ⟨-, heq⟩ | ⟨-, hx⟩ := Keyed.lookup_of_lookup_insert (hpending ▸ hx)
      · cases heq
      · refine hs.keep hvmm hagain hcbs hx (hsteady (hs.armed_remaining hx)) hmon
          (congrFun hcells t) fun t' v' n => ?_
        rw [hpending]
        refine ⟨fun hx' => ?_, fun hx' => ?_⟩
        · exact ((Keyed.lookup_of_lookup_insert hx').resolve_left fun h => by cases h.2).2
        · rw [AList.lookup_insert_ne (Nat.ne_of_lt (hs.armed_remaining hx'))]
          exact hx'
  | @probe h₀ rx₀ c₀ v₀ n₀ hpending hnext hcells =>
    refine ⟨hn, fun t x hx => ?_, fun t v cb n hx => ?_, fun t h rx c v n hx hsteady => ?_⟩
    · obtain ⟨rfl, -⟩ | ⟨-, hx⟩ := Keyed.lookup_of_lookup_insert (hpending ▸ hx)
      · exact hnext ▸ Nat.lt_succ_self _
      · obtain ⟨rfl, -⟩ | ⟨-, hx⟩ := Keyed.lookup_of_lookup_insert hx
        · exact hnext ▸ Nat.lt_add_of_pos_right Nat.two_pos
        · exact hnext ▸ Nat.lt_add_right 2 (hs.armed_remaining hx)
    · obtain ⟨-, heq⟩ | ⟨-, hx⟩ := Keyed.lookup_of_lookup_insert (hpending ▸ hx)
      · obtain ⟨-, rfl, -⟩ := Pending.retry.inj heq
        exact hnext ▸ Nat.lt_add_of_pos_right Nat.two_pos
      · obtain ⟨-, heq⟩ | ⟨-, hx⟩ := Keyed.lookup_of_lookup_insert hx
        · cases heq
        · exact hnext ▸ Nat.lt_add_right 2 (hs.owned_remaining hx)
    · obtain ⟨hsteady, hmon⟩ := steady_advance hx hsteady
      obtain ⟨-, heq⟩ | ⟨-, hx⟩ := Keyed.lookup_of_lookup_insert (hpending ▸ hx)
      · cases heq
      · obtain ⟨rfl, heq⟩ | ⟨hne, hx⟩ := Keyed.lookup_of_lookup_insert hx
        · obtain ⟨-, -, -, rfl, -⟩ := Pending.probe.inj heq
          exact Outstanding.fresh (fun t' v' m hx' => lt_irrefl _ (hs.owned_remaining hx'))
            hpending hcells hmon
        · refine hs.keep hvmm hagain hcbs hx (hsteady (hs.armed_remaining hx)) hmon ?_
            fun t' v' n => ?_
          · rw [hcells, Function.update_of_ne hne]
          · rw [hpending]
            refine ⟨fun hx' => ?_, fun hx' => ?_⟩
            · obtain ⟨-, heq⟩ | ⟨-, hx'⟩ := Keyed.lookup_of_lookup_insert hx'
              · exact (hne (Pending.retry.inj heq).2.1).elim
              · exact ((Keyed.lookup_of_lookup_insert hx').resolve_left fun h => by cases h.2).2
            · have hlt := hs.armed_remaining hx'
              rw [AList.lookup_insert_ne (Nat.ne_of_lt (Nat.lt_succ_of_lt hlt)),
                AList.lookup_insert_ne (Nat.ne_of_lt hlt)]
              exact hx'

theorem Paced.step (hs : Paced T s) (h₁ : step T s e = some s') : Paced T s' := by
  unfold Timed.step at h₁
  split_ifs at h₁ with hpos
  obtain ⟨vmm, hvmm, rfl⟩ := Option.map_eq_some_iff.mp h₁
  cases turn_step hs.named hvmm with
  | again he hx hlt hagain hpending hnext hcbs =>
    exact hs.again hpos hvmm he hx hlt hagain hpending hnext hcbs
  | other hagain hcbs hhands => exact hs.hands hvmm hagain hcbs hhands

theorem paced_init (T : Timings) (gv : List GenNo) (gens : Handle → GenNo) :
    Paced T (init gv gens) :=
  ⟨Enforcer.named_init gv gens, fun _ _ h => (by cases h), fun _ _ _ _ h => (by cases h),
    fun _ _ _ _ _ _ h => (by cases h)⟩

/-! ## The budget of a probe -/

theorem length_times (t₀ : ℕ) : ∀ n, (times T t₀ n).length = n
  | 0 => rfl
  | n + 1 => by rw [times, List.length_cons, length_times t₀ n]

/-- The number of transmissions before a probe is given up. -/
theorem Paced.budget_iff {h : Handle} {rxBytes : UInt64} {counter : UInt32} {n : ℕ}
    (hs : Paced T s) (he : e.2.1 = .timeout t) (hpos : s.Possible e)
    (hx : s.vmm.pending.lookup t = some (.probe h rxBytes counter v n))
    (hsteady : s.steady t = true) :
    s.xmits t = times T (s.sentAt t) (T.maxVmmRetry + 1) ↔
      T.maxVmmRetry = kVMMRetry ∨ T.maxVmmRetry < kVMMRetry ∧ s.RetryDue t e.1 := by
  have ho : Outstanding T s t v := hs.probes t h rxBytes counter v n hx hsteady
  obtain ⟨k, hk⟩ := ho.chain
  have hnow : s.sentAt t + T.resp * (T.maxVmmRetry + 1) = e.1 := by
    rw [← ho.due]
    exact hpos.2.2 t (by rw [he]; rfl)
  have hcount : s.xmits t = times T (s.sentAt t) (T.maxVmmRetry + 1) ↔ k = T.maxVmmRetry := by
    rw [hk.xmits]
    refine ⟨fun heq => ?_, fun heq => by rw [heq]⟩
    have hlen := congrArg List.length heq
    rw [length_times, length_times] at hlen
    omega
  -- a `Retry` for the probe is not overdue, and due now if it is the one of the last response time
  have hdue : ∀ t' v' m, s.vmm.pending.lookup t' = some (.retry v' t m) →
      T.maxVmmRetry ≤ k ∧ (s.due t' = e.1 ↔ k = T.maxVmmRetry) := by
    intro t' v' m hx'
    obtain ⟨-, rfl, hdue⟩ := hk.retries t' v' m hx'
    have hle : e.1 ≤ s.due t' := hpos.2.1 t' (AList.mem_keys.mp (Keyed.mem_of_lookup hx'))
    rw [hdue, ← hnow] at hle
    have hle' : T.maxVmmRetry + 1 ≤ m + 1 :=
      Nat.le_of_mul_le_mul_left (Nat.le_of_add_le_add_left hle) T.resp_pos
    refine ⟨by omega, ?_⟩
    rw [hdue, ← hnow, Nat.add_left_cancel_iff, Nat.mul_right_inj (Nat.ne_of_gt T.resp_pos)]
    omega
  have hretry : s.RetryDue t e.1 → k = T.maxVmmRetry := by
    rintro ⟨t', v', m, hx', hnow'⟩
    exact (hdue t' v' m hx').2.mp hnow'
  have hconst := hk.le_const
  have hmax := hk.le_max
  rw [hcount]
  obtain hend | ⟨t', hx'⟩ := hk.armed
  · refine ⟨fun heq => Or.inl (heq ▸ hend), ?_⟩
    rintro (heq | ⟨hlt, hretry'⟩)
    · rw [hend, heq]
    · exact hretry hretry'
  · obtain ⟨hle, hiff⟩ := hdue t' v k hx'
    constructor
    · intro heq
      obtain hlt | heq' := Nat.lt_or_eq_of_le hconst
      · exact Or.inr ⟨heq ▸ hlt, t', v, k, hx', hiff.mpr heq⟩
      · exact Or.inl (heq ▸ heq')
    · rintro (heq | ⟨hlt, hretry'⟩)
      · omega
      · exact hretry hretry'

/-! ## Answers -/

/-- The cells of the probes that have been answered are cleared. -/
def Cleared (s : Timed) : Prop :=
  ∀ t, s.replied t = true → s.vmm.cbs t = false ∧ t < s.vmm.nextAction

/-- An answer that is heard clears the cell of its probe. -/
theorem cleared_of_heard {s s' : VMMEnforcer} {h : Handle} {rxBytes : UInt64} {counter : UInt32}
    {n : ℕ} {v' : VmmRef} {out : Outside} (h₁ : s.step (.reply t, out) = some s')
    (hx : s.pending.lookup t = some (.probe h rxBytes counter v n)) (ht : t < s.nextAction)
    (hv : s.installed h = some v') (hm : (s.vmms v').monitored = true)
    (hcount : (s.vmms v').count ≤ (counter + 1).toUInt64) : s'.cbs t = false := by
  simp only [VMMEnforcer.step, hx] at h₁
  obtain ⟨-, hignored⟩ | hhands := monitorAction_hands h₁
  · exact absurd (hignored v' hv hm) (UInt64.not_lt.mpr hcount)
  · have hcell : ((s.take t).clear (some t)).cbs t = false := Function.update_self _ _ _
    cases hhands with
    | nothing _ _ hcbs => rw [hcbs, hcell]
    | check _ _ hcbs => rw [hcbs, hcell]
    | probe _ _ hcbs =>
      have hne : t ≠ (s.take t).nextAction := Nat.ne_of_lt ht
      rw [hcbs, Function.update_of_ne hne, hcell]

/-- What an event does to the cells and the numbering of actions. -/
theorem turn_cells {s s' : VMMEnforcer} {e : Event} (h : Turn s e s') :
    s.nextAction ≤ s'.nextAction ∧
      ∀ t < s.nextAction, s.cbs t = false → s'.cbs t = false := by
  cases h with
  | again _ _ _ _ _ hnext hcbs =>
    exact ⟨hnext ▸ Nat.le_succ _, fun t _ ht => by rw [hcbs, ht]⟩
  | @other cbs _ hcbs hhands =>
    have hcell : ∀ t, s.cbs t = false → cbs t = false := fun t ht =>
      (hcbs t).elim (fun heq => heq.trans ht) And.left
    cases hhands with
    | nothing _ hnext hcells =>
      exact ⟨hnext ▸ le_rfl, fun t _ ht => by rw [hcells, hcell t ht]⟩
    | check _ hnext hcells =>
      exact ⟨hnext ▸ Nat.le_succ _, fun t _ ht => by rw [hcells, hcell t ht]⟩
    | probe _ hnext hcells =>
      refine ⟨hnext ▸ Nat.le_add_right _ _, fun t hlt ht => ?_⟩
      rw [hcells, Function.update_of_ne (Nat.ne_of_lt hlt), hcell t ht]

theorem Cleared.step (hs : Cleared s) (hp : Paced T s) (h₁ : step T s e = some s')
    (hheard : RepliesHeard s e) : Cleared s' := by
  unfold Timed.step at h₁
  split_ifs at h₁ with hpos
  obtain ⟨vmm, hvmm, rfl⟩ := Option.map_eq_some_iff.mp h₁
  obtain ⟨hnext, hcells⟩ := turn_cells (turn_step hp.named hvmm)
  intro t ht
  obtain ht | ht := (Bool.or_eq_true _ _).mp ht
  · obtain ⟨hcell, hlt⟩ := hs t ht
    exact ⟨hcells t hlt hcell, Nat.lt_of_lt_of_le hlt hnext⟩
  · have he : e.2.1 = .reply t := of_decide_eq_true ht
    obtain ⟨now, ev, out⟩ := e
    obtain rfl : ev = .reply t := he
    obtain ⟨h, rxBytes, counter, v, n, hx⟩ : ∃ h rxBytes counter v n,
        s.vmm.pending.lookup t = some (.probe h rxBytes counter v n) := by
      simp only [VMMEnforcer.step] at hvmm
      split at hvmm
      · next hx => exact ⟨_, _, _, _, _, hx⟩
      · cases hvmm
    obtain ⟨v', hv, hm, hcount⟩ := hheard t h rxBytes counter v n rfl hx
    have hlt := hp.armed t _ hx
    exact ⟨cleared_of_heard hvmm hx hlt hv hm hcount, Nat.lt_of_lt_of_le hlt hnext⟩

/-- A probe whose cell is cleared is not sent again. -/
theorem Cleared.notAgain (hs : Cleared s) : NotAgain s e := by
  intro t _ hagain
  by_contra hreplied
  obtain ⟨hcell, -⟩ := hs t (Bool.not_eq_false _ ▸ hreplied)
  unfold retransmits at hagain
  split at hagain
  · split at hagain
    · split_ifs at hagain with hguard
      obtain rfl := Option.some.inj hagain
      exact absurd (hguard.2.1.symm.trans hcell) (by decide)
    · cases hagain
  · cases hagain

/-- **The budget of a probe.**  In any run, the probes that are given up, with their object
monitored all the time, have been sent once in each of `max_vmm_retry_ + 1` response times exactly
if `max_vmm_retry_` is `kVMMRetry`, or it is smaller and they are given up before the `Retry` due at
the same instant.  If every answer to a probe is heard, no probe that has been answered is sent
again. -/
theorem full_budget_iff (T : Timings) (gv : List GenNo) (gens : Handle → GenNo)
    (es : List TimedEvent) :
    (Run.Tried (step T) (FullBudget T) (init gv gens) es ↔
      Run.Tried (step T) (RetriesMatch T) (init gv gens) es) ∧
    (Run.Tried (step T) RepliesHeard (init gv gens) es →
      Run.Tried (step T) NotAgain (init gv gens) es) := by
  constructor
  · rw [Run.tried_iff_run, Run.tried_iff_run]
    refine forall₅_congr fun pre e _ s hs => ?_
    have hp : Paced T s := Run.keeps (fun _ _ _ h₁ hp => hp.step h₁) hs (paced_init T gv gens)
    constructor
    · intro hfull t h rxBytes counter v n he hpos hx hsteady
      exact (hp.budget_iff he hpos hx hsteady).mp (hfull t h rxBytes counter v n he hpos hx hsteady)
    · intro hmatch t h rxBytes counter v n he hpos hx hsteady
      exact (hp.budget_iff he hpos hx hsteady).mpr
        (hmatch t h rxBytes counter v n he hpos hx hsteady)
  · refine Run.Tried.of_inv (I := fun s => Paced T s ∧ Cleared s) (fun s e s' h₁ hs hheard => ?_)
      (fun s e hs _ => hs.2.notAgain) es _ ⟨paced_init T gv gens, fun t ht => (by cases ht)⟩
    exact ⟨hs.1.step h₁, hs.2.step hs.1 h₁ hheard⟩

/-- Probes are to be sent seven times, once in a tick. -/
def sevenTimes : Timings := ⟨6, 1, 10, Nat.one_pos⟩

/-- `"vmm"` registers, gets a client, is probed and does not answer; after five retransmissions
`Retry` stops. -/
def unanswered : List TimedEvent :=
  [(0, .observerRegister "vmm" 3, silent),
   (0, .request (.register ⟨⟨"vmm", [0]⟩, false, -1, ⟨1, 0, 7⟩⟩), silent),
   (1, .timer 1, silent), (2, .timer 2, silent), (3, .timer 3, silent), (4, .timer 4, silent),
   (5, .timer 5, silent), (6, .timer 6, silent)]

/-- The probe is given up after seven response times, and six transmissions. -/
theorem full_budget_short : ¬ Run.Tried (step sevenTimes) (FullBudget sevenTimes)
    (init [] fun _ => 0) (unanswered ++ [(7, .timeout 0, silent)]) := by
  obtain ⟨s, hs, hpos, hprobe, hsteady, hxmits⟩ : ∃ s,
      unanswered.foldlM (step sevenTimes) (init [] fun _ => 0) = some s ∧
      s.Possible (7, .timeout 0, silent) ∧
      s.vmm.pending.lookup 0 = some (.probe "vmm" 0 0 0 1) ∧ s.steady 0 = true ∧
      s.xmits 0 = [5, 4, 3, 2, 1, 0] :=
    ⟨_, rfl, by decide, by decide, by decide, by decide⟩
  intro h
  have hfull := Run.tried_iff_run.mp h _ _ List.prefix_rfl s hs
  have hseven := hfull 0 "vmm" 0 0 0 1 rfl hpos hprobe hsteady
  rw [hxmits] at hseven
  exact absurd (congrArg List.length hseven) (by rw [length_times]; decide)

end Timed

end VMMEnforcer

end Falcon
