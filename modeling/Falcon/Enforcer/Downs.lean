import Falcon.Enforcer.Effect
import Mathlib.Data.Set.Insert

/-!
# Enforcer/Downs — where the contents of a `CLIENT_DOWN` come from

A report is made once, by `ObserveDown`, and may then be sent up to three times.  So the reports in
circulation (`downs`: those sent, and those a call in flight may send again) only grow at a down of
the layer, and then by what the layer says there.

* `downs_step` — no event but a down adds a report.
* `downs_observeDown` — a down adds the report it makes, if there is a client to tell.
-/

namespace Falcon.Enforcer

variable {s s' : Enforcer} {e : Event} {t : Handle} {c : ClientRef}

/-- The down reports that have been sent, or that a call in flight may send again. -/
def downs (s : Enforcer) : Set ClientDownArg :=
  {arg | (∃ id, .clientDown id arg ∈ s.log) ∨ ∃ c n, .downCall c arg n ∈ s.pending}

/-- The action sends a down report. -/
def SendsDown : Action → Bool
  | .clientDown _ _ => true
  | _ => false

/-- The callback may send a down report. -/
def ResendsDown : Callback → Bool
  | .downCall _ _ _ => true
  | _ => false

/-- Reports are only looked for among the actions and the callbacks of their kind. -/
theorem downs_subset (hlog : ∀ id arg, .clientDown id arg ∈ s'.log → .clientDown id arg ∈ s.log)
    (hpending : ∀ c arg n, .downCall c arg n ∈ s'.pending → .downCall c arg n ∈ s.pending) :
    s'.downs ⊆ s.downs := by
  rintro arg (⟨id, h⟩ | ⟨c, n, h⟩)
  · exact Or.inl ⟨id, hlog id arg h⟩
  · exact Or.inr ⟨c, n, hpending c arg n h⟩

theorem downs_note {a : Action} (ha : SendsDown a = false) : (s.note a).downs ⊆ s.downs :=
  downs_subset (fun _ _ h => (List.mem_cons.mp h).resolve_left fun h => by subst h; cases ha)
    fun _ _ _ h => h

theorem downs_await {cb : Callback} (hcb : ResendsDown cb = false) : (s.await cb).downs ⊆ s.downs :=
  downs_subset (fun _ _ h => h)
    fun _ _ _ h => (List.mem_cons.mp h).resolve_left fun h => by subst h; cases hcb

theorem downs_removeClient : (s.removeClient c).downs ⊆ s.downs := by
  rw [removeClient_eq]
  refine downs_subset (fun id arg h => ?_) fun _ _ _ h => h
  obtain h | h := List.mem_append.mp h
  · obtain ⟨t, -, -, h⟩ := mem_stops.mp h
    exact (by cases h)
  · exact h

theorem downs_gaveUp {id : ClientId} : ((s.note (.gaveUp id)).removeClient c).downs ⊆ s.downs :=
  downs_removeClient.trans (downs_note rfl)

theorem downs_addToWaiting : (s.addToWaiting t c).downs ⊆ s.downs :=
  addToWaiting_cases (P := fun s' => s'.downs ⊆ s.downs) subset_rfl fun _ => subset_rfl

theorem downs_repeatWaiting : (s.repeatWaiting t c).downs ⊆ s.downs :=
  repeatWaiting_cases (P := fun s' => s'.downs ⊆ s.downs) subset_rfl
    (fun _ => downs_addToWaiting) downs_addToWaiting (downs_await rfl)

theorem downs_observeUp : (s.observeUp t).downs ⊆ s.downs :=
  Run.foldl_rel (r := fun s s' : Enforcer => s'.downs ⊆ s.downs) (fun _ => subset_rfl)
    (fun _ _ _ h h' => h'.trans h) (fun _ _ => downs_repeatWaiting.trans (downs_note rfl)) _ _

theorem downs_handleClientHeartbeat (n : ℕ) (st : ClntStat) :
    (s.handleClientHeartbeat c n st).downs ⊆ s.downs :=
  handleClientHeartbeat_cases (P := fun s' => s'.downs ⊆ s.downs) (fun _ => subset_rfl)
    (fun _ _ => downs_await rfl) (fun _ _ _ => downs_await rfl) fun _ _ _ => downs_gaveUp

/-- The completion of a report sends no other. -/
theorem downs_reportDown (arg : ClientDownArg) (n : ℕ) (st : ClntStat) :
    (s.reportDown c arg n st).downs ⊆ insert arg s.downs := by
  refine reportDown_cases (P := fun s' => s'.downs ⊆ insert arg s.downs)
    (fun _ => Set.subset_insert _ _) (fun _ _ => downs_removeClient.trans (Set.subset_insert _ _))
    (fun _ _ => downs_gaveUp.trans (Set.subset_insert _ _)) fun _ _ => ?_
  rintro arg' (⟨id, h⟩ | ⟨c', n', h⟩)
  · obtain h | h := List.mem_cons.mp h
    · exact Or.inl (Action.clientDown.inj h).2
    · exact Or.inr (Or.inl ⟨id, h⟩)
  · obtain h | h := List.mem_cons.mp h
    · exact Or.inl (Callback.downCall.inj h).2.1
    · exact Or.inr (Or.inr ⟨c', n', h⟩)

theorem downs_take (cb : Callback) : (s.take cb).downs ⊆ s.downs :=
  downs_subset (fun _ _ h => h) fun _ _ _ h => List.mem_of_mem_erase h

theorem downs_call {cb : Callback} (hcb : cb ∈ s.pending) (st : ClntStat) :
    ((s.take cb).call cb st).downs ⊆ s.downs := by
  cases cb with
  | heartbeatCall c n => exact (downs_handleClientHeartbeat n st).trans (downs_take _)
  | heartbeatTimer c n => exact (downs_await rfl).trans (downs_take _)
  | downCall c arg n =>
    refine (downs_reportDown arg n st).trans (Set.insert_subset ?_ (downs_take _))
    exact Or.inr ⟨c, n, hcb⟩
  | waitingTimer t c => exact downs_addToWaiting.trans (downs_take _)

/-! ## Requests -/

theorem downs_updateGenerations (layer : LayerAnswer) :
    (s.updateGenerations t layer).downs ⊆ s.downs := by
  obtain ⟨lines, h⟩ := updateGenerations_eq t layer s
  rw [h]
  exact subset_rfl

theorem downs_getClient (addr : ClientAddr) : (s.getClient addr).1.downs ⊆ s.downs := by
  unfold getClient
  split
  · exact subset_rfl
  · exact downs_await rfl

theorem downs_enlist (arg : SpyRegisterArg) : (s.enlist arg c).downs ⊆ s.downs := by
  unfold enlist license
  split <;> exact downs_repeatWaiting

theorem downs_register (arg : SpyRegisterArg) : (s.register arg c).downs ⊆ s.downs :=
  register_cases (P := fun s' => s'.downs ⊆ s.downs) (downs_enlist arg)
    ((downs_note rfl).trans (downs_enlist arg))

theorem downs_cancel : (s.cancel t c).downs ⊆ s.downs :=
  cancel_cases (P := fun s' => s'.downs ⊆ s.downs) subset_rfl (downs_note rfl)
    downs_removeClient (downs_removeClient.trans (downs_note rfl))

theorem downs_dispatch (req : Request) (layer : LayerAnswer) :
    (s.dispatch req layer).downs ⊆ s.downs := by
  have hup : (s.updateGenerations req.target layer).downs ⊆ s.downs :=
    downs_updateGenerations layer
  refine dispatch_cases (P := fun s' => s'.downs ⊆ s.downs) (fun _ => subset_rfl)
    (fun _ _ _ => downs_note rfl) (fun _ => (downs_note rfl).trans hup) (fun arg _ _ _ => ?_)
    (fun arg _ _ _ => ?_) (fun arg _ _ _ => ?_)
    fun _ _ _ _ => ((downs_note rfl).trans (downs_note rfl)).trans hup
  · exact (((downs_note rfl).trans (downs_register arg)).trans (downs_getClient _)).trans hup
  · exact (((downs_note rfl).trans downs_cancel).trans (downs_getClient _)).trans hup
  · exact ((downs_note rfl).trans (downs_getClient _)).trans hup

/-! ## Events -/

/-- **Only a down of the layer adds a report.** -/
theorem downs_step (h : step s e = some s') (hdown : ∀ t st k w, e ≠ .observeDown t st k w) :
    s'.downs ⊆ s.downs := by
  cases e with
  | request req layer => exact Option.some.inj h ▸ downs_dispatch req layer
  | fire cb st =>
    obtain ⟨hcb, rfl⟩ := step_fire.mp h
    exact downs_call hcb st
  | observeUp t => exact Option.some.inj h ▸ downs_observeUp
  | observeDown t st k w => exact (hdown t st k w rfl).elim

/-- The reports that a down makes. -/
theorem mem_downs_observeDown {st : UInt32} {k w : Bool} {arg : ClientDownArg}
    (h : arg ∈ (s.observeDown t st k w).downs) : arg ∈ s.downs ∨
      ∃ c ∈ (s.targetClients t).entries.map Sigma.snd, s.downArg t st k w c = arg := by
  rw [observeDown_eq] at h
  obtain ⟨id, h⟩ | ⟨c, n, h⟩ := h
  · obtain h | h := List.mem_cons.mp h
    · exact (by cases h)
    · obtain h | h := List.mem_append.mp h
      · obtain ⟨c, hc, heq⟩ := List.mem_map.mp (List.mem_reverse.mp h)
        exact Or.inr ⟨c, hc, (Action.clientDown.inj heq).2⟩
      · obtain h | h := List.mem_cons.mp h
        · exact (by cases h)
        · exact Or.inl (Or.inl ⟨id, h⟩)
  · obtain h | h := List.mem_append.mp h
    · obtain ⟨c', hc, heq⟩ := List.mem_map.mp (List.mem_reverse.mp h)
      exact Or.inr ⟨c', hc, (Callback.downCall.inj heq).2.1⟩
    · exact Or.inl (Or.inr ⟨c, n, h⟩)

/-- **What a down adds**: its own report, under the generation that ends, if there is a client. -/
theorem downs_observeDown {st : UInt32} {k w : Bool} {arg : ClientDownArg}
    (h : arg ∈ (s.observeDown t st k w).downs) : arg ∈ s.downs ∨
      arg.handle = t ∧ arg.generation = s.genOf t ∧ arg.killed = k ∧
        (s.targetClients t).keys ≠ [] := by
  obtain h | ⟨c, hc, rfl⟩ := mem_downs_observeDown h
  · exact Or.inl h
  · obtain ⟨a, ha, -⟩ := List.mem_map.mp hc
    exact Or.inr ⟨rfl, rfl, rfl, List.ne_nil_of_mem (List.mem_keys_of_mem ha)⟩

end Falcon.Enforcer
