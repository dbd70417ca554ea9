import Falcon.Enforcer.Objects

/-!
# Enforcer/Refusals — what a refused request leaves behind

A request is refused by `GenCheck`, or by `SPY_CANCEL` when the client is none of the target's.  The
second refusal comes after `GetClient`, which answers the question for the client's object by making
one.

* `refused_iff` — a refused request leaves the registrations, and what is handed to the event loop,
  as they are, exactly if it is not a cancellation that gets as far as an unknown client.
-/

namespace Falcon

/-- The statuses that refuse a request. -/
def SpyStatus.refusals : List SpyStatus :=
  [.unknownTarget, .badGenVec, .futureGen, .longDead, .cancelError]

namespace Enforcer

variable {s s' : Enforcer} {t : Handle}

/-- The request is answered with a refusal. -/
def Refuses (s : Enforcer) (req : Request) (layer : LayerAnswer) : Prop :=
  ∃ tgt, ∃ status ∈ SpyStatus.refusals,
    (s.dispatch req layer).log.head? = some (.reply req ⟨tgt, status⟩)

/-- The clients, their registrations and intervals, and the pending callbacks are as before. -/
structure Undisturbed (s s' : Enforcer) : Prop where
  allClients : s'.allClients = s.allClients
  targetClients : s'.targetClients = s.targetClients
  deadly : s'.deadly = s.deadly
  waitingForUp : s'.waitingForUp = s.waitingForUp
  upIntervals : ∀ c, (s'.clients c).upIntervals = (s.clients c).upIntervals
  pending : s'.pending = s.pending

/-- The request is a cancellation that passes `GenCheck`, by a client there is no object for. -/
def StrangerCancels (s : Enforcer) (req : Request) (layer : LayerAnswer) : Prop :=
  ∃ arg, req = .cancel arg ∧ arg.client.id ∉ s.allClients ∧
    (s.updateGenerations arg.target.handle layer).genCheck arg.target.handle
      arg.target.generation layer = .success

/-! ## Where nothing is entered -/

theorem Undisturbed.note (h : Undisturbed s s') (a : Action) : Undisturbed s (s'.note a) :=
  ⟨h.allClients, h.targetClients, h.deadly, h.waitingForUp, h.upIntervals, h.pending⟩

theorem undisturbed_updateGenerations (layer : LayerAnswer) :
    Undisturbed s (s.updateGenerations t layer) := by
  obtain ⟨lines, h⟩ := updateGenerations_eq t layer s
  rw [h]
  exact ⟨rfl, rfl, rfl, rfl, fun _ => rfl, rfl⟩

/-- `GetClient` leaves things as they are when it finds the client. -/
theorem getClient_known {addr : ClientAddr} (h : addr.id ∈ s.allClients) :
    (s.getClient addr).1 = s := by
  obtain ⟨c, hc⟩ := Keyed.exists_lookup h
  unfold getClient
  rw [hc]

/-- And has entered it when it does not. -/
theorem getClient_unknown {addr : ClientAddr} (h : addr.id ∉ s.allClients) :
    addr.id ∈ (s.getClient addr).1.allClients := by
  unfold getClient
  rw [AList.lookup_eq_none.mpr h]
  exact Keyed.mem_add.mpr (Or.inl rfl)

/-- An acknowledgement is no refusal. -/
theorem not_refused {req : Request} {status : SpyStatus} {layer : LayerAnswer}
    (hlog : ∃ tgt, (s.dispatch req layer).log.head? = some (.reply req ⟨tgt, status⟩))
    (hack : status ∉ SpyStatus.refusals) : ¬ s.Refuses req layer := by
  obtain ⟨tgt, hlog⟩ := hlog
  rintro ⟨tgt', status', hmem, hlog'⟩
  rw [hlog] at hlog'
  injection hlog' with hlog'
  injection hlog' with _ hres
  injection hres with _ hstatus
  exact hack (hstatus ▸ hmem)

/-- What a cancellation does that passes `GenCheck` and is refused all the same. -/
theorem refused_cancel {arg : SpyCancelArg} {layer : LayerAnswer}
    (h : s.Refuses (.cancel arg) layer)
    (hok : (s.updateGenerations arg.target.handle layer).genCheck arg.target.handle
      arg.target.generation layer = .success) : ∃ a, s.dispatch (.cancel arg) layer =
        ((s.updateGenerations arg.target.handle layer).getClient arg.client).1.note a := by
  by_cases hmem : (((s.updateGenerations arg.target.handle layer).getClient
      arg.client).1.clients ((s.updateGenerations arg.target.handle layer).getClient
        arg.client).2).id ∈ ((s.updateGenerations arg.target.handle layer).getClient
          arg.client).1.targetClients arg.target.handle
  · have hack : ∃ tgt, (s.dispatch (.cancel arg) layer).log.head?
        = some (.reply (.cancel arg) ⟨tgt, .cancelAck⟩) := by
      simp only [dispatch, hok, if_pos hmem, note, List.head?_cons]
      exact ⟨_, rfl⟩
    exact absurd h (not_refused hack (by decide))
  · simp only [dispatch, hok, if_neg hmem]
    exact ⟨_, rfl⟩

theorem undisturbed_cancel {arg : SpyCancelArg} {layer : LayerAnswer}
    (h : s.Refuses (.cancel arg) layer) (hknown : ¬ s.StrangerCancels (.cancel arg) layer) :
    Undisturbed s (s.dispatch (.cancel arg) layer) := by
  have hup : Undisturbed s (s.updateGenerations arg.target.handle layer) :=
    undisturbed_updateGenerations layer
  cases hok : (s.updateGenerations arg.target.handle layer).genCheck arg.target.handle
      arg.target.generation layer with
  | success =>
    have hid : arg.client.id ∈ (s.updateGenerations arg.target.handle layer).allClients := by
      rw [hup.allClients]
      by_contra hid
      exact hknown ⟨arg, rfl, hid, hok⟩
    obtain ⟨a, ha⟩ := refused_cancel h hok
    rw [ha, getClient_known hid]
    exact hup.note a
  | _ =>
    simp only [dispatch, hok]
    exact hup.note _

theorem undisturbed_other {req : Request} {layer : LayerAnswer} (h : s.Refuses req layer)
    (hreq : ∀ arg, req ≠ .cancel arg) : Undisturbed s (s.dispatch req layer) := by
  have hup : ∀ t, Undisturbed s (s.updateGenerations t layer) := fun _ =>
    undisturbed_updateGenerations layer
  cases req with
  | null => exact ⟨rfl, rfl, rfl, rfl, fun _ => rfl, rfl⟩
  | register arg =>
    cases hok : (s.updateGenerations arg.target.handle layer).genCheck arg.target.handle
        arg.target.generation layer with
    | success =>
      have hack : ∃ tgt, (s.dispatch (.register arg) layer).log.head?
          = some (.reply (.register arg) ⟨tgt, .registerAck⟩) := by
        simp only [dispatch, hok, note, List.head?_cons]
        exact ⟨_, rfl⟩
      exact absurd h (not_refused hack (by decide))
    | _ =>
      simp only [dispatch, hok]
      exact (hup _).note _
  | cancel arg => exact absurd rfl (hreq arg)
  | kill target =>
    cases hok : (s.updateGenerations target.handle layer).genCheck target.handle
        target.generation layer with
    | success =>
      simp only [dispatch, hok]
      exact ((hup _).note _).note _
    | _ =>
      simp only [dispatch, hok]
      exact (hup _).note _
  | getGen target =>
    unfold dispatch
    dsimp only
    split
    · exact ⟨rfl, rfl, rfl, rfl, fun _ => rfl, rfl⟩
    · exact (hup _).note _

/-- **A refused request changes nothing**, exactly if it is not the cancellation of a stranger. -/
theorem refused_iff (s : Enforcer) (req : Request) (layer : LayerAnswer)
    (h : s.Refuses req layer) :
    Undisturbed s (s.dispatch req layer) ↔ ¬ s.StrangerCancels req layer := by
  constructor
  · rintro hsame ⟨arg, rfl, hid, hok⟩
    have hup : Undisturbed s (s.updateGenerations arg.target.handle layer) :=
      undisturbed_updateGenerations layer
    have hnew : arg.client.id ∈
        ((s.updateGenerations arg.target.handle layer).getClient arg.client).1.allClients :=
      getClient_unknown (by rwa [hup.allClients])
    obtain ⟨a, ha⟩ := refused_cancel h hok
    have hall := hsame.allClients
    rw [ha] at hall
    exact hid (hall ▸ hnew)
  · intro hknown
    by_cases hreq : ∀ arg, req ≠ .cancel arg
    · exact undisturbed_other h hreq
    · push Not at hreq
      obtain ⟨arg, rfl⟩ := hreq
      exact undisturbed_cancel h hknown

/-- A client that has never registered cancels. -/
def strangerRequest : Request := .cancel ⟨⟨"app", [0]⟩, ⟨1, 0, 7⟩⟩

/-- The cancellation is refused, and the stranger has become a client to be probed. -/
theorem stranger_entered : ¬ ∀ (s : Enforcer) (req : Request) (layer : LayerAnswer),
    s.Refuses req layer → Undisturbed s (s.dispatch req layer) := by
  intro h
  have hsame := h (init [] fun _ => 0) strangerRequest ⟨none, false⟩
    ⟨⟨"app", [0]⟩, .cancelError, by decide, by decide⟩
  have hpending : ((init [] fun _ => 0).dispatch strangerRequest ⟨none, false⟩).pending
      = [.heartbeatCall 0 0] := by decide
  rw [hsame.pending] at hpending
  cases hpending

/-- A registration for a generation to come is refused, and leaves the enforcer as it was. -/
theorem future_undisturbed : Undisturbed (init [] fun _ => 0)
    ((init [] fun _ => 0).dispatch (.register ⟨⟨"app", [1]⟩, true, 0, ⟨1, 0, 7⟩⟩)
      ⟨none, false⟩) := by
  refine (refused_iff _ _ _ ⟨⟨"app", [0]⟩, .futureGen, by decide, by decide⟩).mpr ?_
  rintro ⟨arg, h, -⟩
  cases h

end Enforcer

end Falcon
