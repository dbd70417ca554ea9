import Falcon.Enforcer.Objects

/-!
# Enforcer/Effect — what one event can do to the registrations

`step_effect`: whatever the event, what it does to `target_clients_`, `deadly_`, the generations and
the log is one of six things (`Effect`), after the layer has possibly moved a generation at the
start of a request (`refresh`).  Every invariant of the registrations is read off these six cases.
-/

namespace Falcon

/-- An action that neither starts nor ends a registration or the monitoring of a target. -/
def Action.Quiet : Action → Prop
  | .reply _ res => res.status ≠ .registerAck ∧ res.status ≠ .cancelAck
  | .kill _ | .clientUp _ _ | .clientDown _ _ => True
  | .startMonitoring _ | .stopMonitoring _ | .observeDown _ | .gaveUp _ => False

namespace Enforcer

variable {s s' s₁ : Enforcer} {e : Event} {t : Handle} {c : ClientRef}

/-! ## Nothing happens to a registration -/

/-- The registrations and the generations are as before. -/
structure Quiet (s s' : Enforcer) : Prop where
  targetClients : s'.targetClients = s.targetClients
  deadly : s'.deadly = s.deadly
  genVec : s'.genVec = s.genVec
  generations : s'.generations = s.generations
  log : ∃ acts, s'.log = acts ++ s.log ∧ ∀ a ∈ acts, a.Quiet

theorem Quiet.refl (s : Enforcer) : Quiet s s := ⟨rfl, rfl, rfl, rfl, [], rfl, by simp⟩

theorem Quiet.trans {s₁ s₂ s₃ : Enforcer} (h : Quiet s₁ s₂) (h' : Quiet s₂ s₃) : Quiet s₁ s₃ := by
  obtain ⟨acts, hacts, hq⟩ := h.log
  obtain ⟨acts', hacts', hq'⟩ := h'.log
  refine ⟨h'.targetClients.trans h.targetClients, h'.deadly.trans h.deadly,
    h'.genVec.trans h.genVec, h'.generations.trans h.generations, acts' ++ acts, ?_, ?_⟩
  · rw [hacts', hacts, List.append_assoc]
  · exact fun a ha => (List.mem_append.mp ha).elim (hq' a) (hq a)

theorem Quiet.note {a : Action} (ha : a.Quiet) : Quiet s (s.note a) :=
  ⟨rfl, rfl, rfl, rfl, [a], rfl, by simpa using ha⟩

theorem quiet_reply {req : Request} {tgt : TargetT} {st : SpyStatus} (h : st ≠ .registerAck)
    (h' : st ≠ .cancelAck) : Quiet s (s.note (.reply req ⟨tgt, st⟩)) :=
  Quiet.note (a := .reply req ⟨tgt, st⟩) ⟨h, h'⟩

theorem Quiet.genOf (h : Quiet s s') (t : Handle) : s'.genOf t = s.genOf t := by
  rw [Enforcer.genOf, Enforcer.genOf, h.genVec, h.generations]

theorem quiet_await (cb : Callback) : Quiet s (s.await cb) := ⟨rfl, rfl, rfl, rfl, [], rfl, by simp⟩

theorem quiet_setIntervals (m : Keyed Handle ℤ) : Quiet s (s.setIntervals c m) :=
  ⟨rfl, rfl, rfl, rfl, [], rfl, by simp⟩

theorem quiet_addToWaiting : Quiet s (s.addToWaiting t c) :=
  addToWaiting_cases (Quiet.refl s) fun _ => ⟨rfl, rfl, rfl, rfl, [], rfl, by simp⟩

theorem quiet_repeatWaiting : Quiet s (s.repeatWaiting t c) :=
  repeatWaiting_cases (Quiet.refl s) (fun _ => (quiet_setIntervals _).trans quiet_addToWaiting)
    quiet_addToWaiting (quiet_await _)

theorem quiet_observeUp : Quiet s (s.observeUp t) := by
  have h0 : Quiet s { s with waitingForUp := Function.update s.waitingForUp t ∅ } :=
    ⟨rfl, rfl, rfl, rfl, [], rfl, by simp⟩
  refine h0.trans (Run.foldl_rel Quiet.refl (fun _ _ _ => Quiet.trans) (fun s c => ?_) _ _)
  exact (Quiet.note (a := .clientUp _ _) trivial).trans quiet_repeatWaiting

theorem quiet_getClient (addr : ClientAddr) : Quiet s (s.getClient addr).1 := by
  unfold getClient
  split
  · exact Quiet.refl s
  · exact ⟨rfl, rfl, rfl, rfl, [], rfl, by simp⟩

theorem quiet_take (cb : Callback) : Quiet s (s.take cb) := ⟨rfl, rfl, rfl, rfl, [], rfl, by simp⟩

/-! ## The loop of `ObserveDown`, in closed form -/

/-- The report of a down of `t` to the object `c`. -/
def downArg (s : Enforcer) (t : Handle) (st : UInt32) (k w : Bool) (c : ClientRef) :
    ClientDownArg :=
  ⟨t, s.genOf t, st, k, w, (s.clients c).clientTag⟩

theorem foldl_sendDown (t : Handle) (st : UInt32) (k w : Bool) :
    ∀ (l : List ClientRef) (s : Enforcer), l.foldl (sendDown t st k w) s =
      { s with
        pending := (l.map fun c => .downCall c (s.downArg t st k w c) 1).reverse ++ s.pending
        log := (l.map fun c =>
          .clientDown (s.clients c).id (s.downArg t st k w c)).reverse ++ s.log }
  | [], s => by simp
  | c :: l, s => by
    rw [List.foldl_cons, foldl_sendDown t st k w l]
    simp [sendDown, reportDown, kMaxRetries, downArg, genOf]

theorem observeDown_eq (st : UInt32) (k w : Bool) : s.observeDown t st k w =
    { s with
      generationLog := s.generationLog ++ [t]
      generations := Function.update s.generations t (s.generations t + 1)
      waitingForUp := Function.update s.waitingForUp t ∅
      targetClients := Function.update s.targetClients t ∅
      pending := (((s.targetClients t).entries.map Sigma.snd).map fun c =>
        .downCall c (s.downArg t st k w c) 1).reverse ++ s.pending
      log := .stopMonitoring t :: ((((s.targetClients t).entries.map Sigma.snd).map fun c =>
        .clientDown (s.clients c).id (s.downArg t st k w c)).reverse ++
          .observeDown t :: s.log) } := by
  rw [observeDown, sendDowns, foldl_sendDown]
  rfl

/-- What a down adds to the log: reports to clients, between the down and the end of the
monitoring. -/
theorem observeDown_log (t : Handle) (st : UInt32) (k w : Bool) (s : Enforcer) :
    ∃ downs, (∀ a ∈ downs, ∃ id arg, a = .clientDown id arg) ∧
      (s.observeDown t st k w).log =
        (.stopMonitoring t :: (downs ++ [.observeDown t])) ++ s.log := by
  rw [observeDown_eq]
  refine ⟨_, fun a ha => ?_, by simp only [List.cons_append, List.append_assoc]; rfl⟩
  obtain ⟨c, -, rfl⟩ := List.mem_map.mp (List.mem_reverse.mp ha)
  exact ⟨_, _, rfl⟩

theorem eq_of_newer_observeDown {t' : Handle} {st : UInt32} {k w : Bool}
    (h : .observeDown t' ∈ s.newer (s.observeDown t st k w)) : t' = t := by
  rw [observeDown_eq, newer_of_log (l := .stopMonitoring t :: (_ ++ [.observeDown t]))
    (by simp; rfl)] at h
  simpa using h

/-! ## The six effects -/

/-- The generation a request makes the layer's `UpdateGenerations` fast forward its target to. -/
def Event.fastForwards : Event → Option (Handle × GenNo)
  | .request (.register arg) layer => layer.newGen.map (arg.target.handle, ·)
  | .request (.cancel arg) layer => layer.newGen.map (arg.target.handle, ·)
  | .request (.kill target) layer => layer.newGen.map (target.handle, ·)
  | .request (.getGen target) layer =>
    if layer.invalid then none else layer.newGen.map (target.handle, ·)
  | _ => none

/-- The state in which an event is decided: the layer has had its say on the generations. -/
def refresh (s : Enforcer) (e : Event) : Enforcer :=
  match e.fastForwards with
  | none => s
  | some (t, g) => s.fastForwardGeneration t g

/-- The generations an event is decided at. -/
theorem refresh_eq (s : Enforcer) (e : Event) : ∃ lines gens, s.refresh e =
    { s with generationLog := lines, generations := gens } ∧
      ∀ t, gens t = s.generations t ∨ e.fastForwards = some (t, gens t) := by
  unfold refresh
  split
  · exact ⟨_, _, rfl, fun t => Or.inl rfl⟩
  · next t g hf =>
    obtain ⟨lines, h⟩ := fastForwardGeneration_eq t g s
    refine ⟨lines, _, h, fun t' => ?_⟩
    by_cases ht : t' = t
    · subst ht; exact Or.inr (by simp [hf])
    · exact Or.inl (by simp [ht])

/-- **What one event can do to the registrations.** -/
inductive Effect (s : Enforcer) : Event → Enforcer → Prop
  | quiet {e : Event} {s' : Enforcer} : Quiet s s' → Effect s e s'
  /-- A registration is acknowledged; the first one starts the monitoring. -/
  | register {arg : SpyRegisterArg} {layer : LayerAnswer} {myVec : List GenNo} {c : ClientRef}
      {s' : Enforcer}
      (hgen : arg.target.generation = s.genOf arg.target.handle)
      (htarget : s'.targetClients = Function.update s.targetClients arg.target.handle
        ((s.targetClients arg.target.handle).add arg.client.id c))
      (hdeadly : s'.deadly = if arg.lethal then Function.update s.deadly arg.target.handle
        ((s.deadly arg.target.handle).add arg.client.id c) else s.deadly)
      (hsame : ∀ t, s'.genOf t = s.genOf t)
      (hlog : s'.log = .reply (.register arg) ⟨⟨arg.target.handle, myVec⟩, .registerAck⟩ ::
        ((if (s.targetClients arg.target.handle).isEmpty then
          [.startMonitoring arg.target.handle] else []) ++ s.log)) :
      Effect s (.request (.register arg) layer) s'
  /-- A cancellation is acknowledged; the last one stops the monitoring. -/
  | cancel {arg : SpyCancelArg} {layer : LayerAnswer} {myVec : List GenNo} {s' : Enforcer}
      (hmem : arg.client.id ∈ s.targetClients arg.target.handle)
      (htarget : s'.targetClients =
        dropWhere (· = arg.target.handle) arg.client.id s.targetClients)
      (hdeadly : s'.deadly = dropWhere (· = arg.target.handle) arg.client.id s.deadly)
      (hsame : ∀ t, s'.genOf t = s.genOf t)
      (hlog : s'.log = .reply (.cancel arg) ⟨⟨arg.target.handle, myVec⟩, .cancelAck⟩ ::
        (stops s arg.client.id [arg.target.handle] ++ s.log)) :
      Effect s (.request (.cancel arg) layer) s'
  /-- A target is down: its clients are told and forgotten. -/
  | down {t : Handle} {st : UInt32} {k w : Bool} {downs : List Action} {s' : Enforcer}
      (htarget : s'.targetClients = Function.update s.targetClients t ∅)
      (hdeadly : s'.deadly = s.deadly)
      (hsame : ∀ t' ≠ t, s'.genOf t' = s.genOf t')
      (hquiet : ∀ a ∈ downs, a.Quiet)
      (htold : ∀ id ∈ s.targetClients t, ∃ arg, .clientDown id arg ∈ downs ∧ arg.handle = t ∧
        arg.generation = s.genOf t)
      (hlog : s'.log = .stopMonitoring t :: (downs ++ .observeDown t :: s.log)) :
      Effect s (.observeDown t st k w) s'
  /-- Heartbeats or a report are exhausted: the client leaves the targets `ts`. -/
  | gaveUp {cb : Callback} {st : ClntStat} {id : ClientId} {ts : List Handle} {s' : Enforcer}
      (hnodup : ts.Nodup)
      (htarget : s'.targetClients = dropWhere (· ∈ ts) id s.targetClients)
      (hdeadly : s'.deadly = dropWhere (· ∈ ts) id s.deadly)
      (hsame : ∀ t, s'.genOf t = s.genOf t)
      (hlog : s'.log = stops s id ts ++ .gaveUp id :: s.log) : Effect s (.fire cb st) s'
  /-- A report is acknowledged: the client leaves the target it was told about. -/
  | acked {c : ClientRef} {arg : ClientDownArg} {n : ℕ} {s' : Enforcer} (hn : n ≠ 0)
      (htarget : s'.targetClients =
        dropWhere (· = arg.handle) (s.clients c).id s.targetClients)
      (hdeadly : s'.deadly = dropWhere (· = arg.handle) (s.clients c).id s.deadly)
      (hsame : ∀ t, s'.genOf t = s.genOf t)
      (hlog : s'.log = s.log) : Effect s (.fire (.downCall c arg n) .success) s'

/-- The log only grows. -/
theorem Effect.log_subset (h : Effect s e s') : ∀ a ∈ s.log, a ∈ s'.log := by
  intro a ha
  cases h with
  | quiet h =>
    obtain ⟨acts, hacts, -⟩ := h.log
    rw [hacts]; exact List.mem_append_right _ ha
  | register _ _ _ _ hlog | cancel _ _ _ _ hlog =>
    rw [hlog]; exact List.mem_cons_of_mem _ (List.mem_append_right _ ha)
  | down _ _ _ _ _ hlog =>
    rw [hlog]
    exact List.mem_cons_of_mem _ (List.mem_append_right _ (List.mem_cons_of_mem _ ha))
  | gaveUp _ _ _ _ hlog => rw [hlog]; exact List.mem_append_right _ (List.mem_cons_of_mem _ ha)
  | acked _ _ _ _ hlog => rw [hlog]; exact ha

/-- **Only the registration being served is acknowledged**, and only at the current generation. -/
theorem Effect.acks (h : Effect s e s') : ∃ acts, s'.log = acts ++ s.log ∧
    ((∀ a ∈ acts, ∀ req res, a = .reply req res → res.status ≠ .registerAck) ∨
      ∃ arg layer tgt rest, e = .request (.register arg) layer ∧
        acts = .reply (.register arg) ⟨tgt, .registerAck⟩ :: rest ∧
        (∀ a ∈ rest, ∃ t, a = .startMonitoring t) ∧
        arg.target.generation = s.genOf arg.target.handle) := by
  have hstops : ∀ id ts, ∀ a ∈ stops s id ts, ∀ req res, a = .reply req res →
      res.status ≠ .registerAck := by
    intro id ts a ha req res h
    obtain ⟨t, -, -, rfl⟩ := mem_stops.mp ha
    cases h
  have hquiet : ∀ a : Action, a.Quiet → ∀ req res, a = .reply req res →
      res.status ≠ .registerAck := by
    rintro _ h req res rfl
    exact h.1
  cases h with
  | quiet h =>
    obtain ⟨acts, hacts, hacts'⟩ := h.log
    exact ⟨acts, hacts, Or.inl fun a ha => hquiet a (hacts' a ha)⟩
  | @register arg layer myVec _ _ hgen _ _ _ hlog =>
    rw [← List.cons_append] at hlog
    refine ⟨_, hlog, Or.inr ⟨arg, layer, _, _, rfl, rfl, ?_, hgen⟩⟩
    intro a ha
    split at ha
    · exact ⟨_, List.mem_singleton.mp ha⟩
    · cases ha
  | cancel _ _ _ _ hlog =>
    rw [← List.cons_append] at hlog
    refine ⟨_, hlog, Or.inl fun a ha req res h => ?_⟩
    obtain rfl | ha := List.mem_cons.mp ha
    · obtain ⟨-, rfl⟩ := Action.reply.inj h
      exact (by simp)
    · exact hstops _ _ a ha req res h
  | @down t _ _ _ downs _ _ _ _ hdowns _ hlog =>
    refine ⟨.stopMonitoring t :: (downs ++ [.observeDown t]), by simp [hlog], Or.inl ?_⟩
    intro a ha req res h
    obtain rfl | ha := List.mem_cons.mp ha
    · cases h
    · obtain ha | ha := List.mem_append.mp ha
      · exact hquiet a (hdowns a ha) req res h
      · obtain rfl := List.mem_singleton.mp ha
        cases h
  | @gaveUp _ _ id ts _ _ _ _ _ hlog =>
    refine ⟨stops s id ts ++ [.gaveUp id], by simp [hlog], Or.inl fun a ha req res h => ?_⟩
    obtain ha | ha := List.mem_append.mp ha
    · exact hstops _ _ a ha req res h
    · obtain rfl := List.mem_singleton.mp ha
      cases h
  | acked _ _ _ _ hlog => exact ⟨[], by simpa using hlog, Or.inl (by simp)⟩

/-- A client comes into the set of a target by an acknowledged registration only. -/
theorem Effect.mem_target {id : ClientId} (h : Effect s e s') (hid : id ∈ s'.targetClients t) :
    id ∈ s.targetClients t ∨ ∃ arg : SpyRegisterArg, ∃ myVec, t = arg.target.handle ∧
      .reply (.register arg) ⟨⟨arg.target.handle, myVec⟩, .registerAck⟩ ∈ s'.log ∧
      id = arg.client.id ∧ arg.target.generation = s.genOf t := by
  cases h with
  | quiet h => exact Or.inl (h.targetClients ▸ hid)
  | @register arg _ myVec c _ hgen htarget _ _ hlog =>
    rw [htarget] at hid
    by_cases ht : t = arg.target.handle
    · subst ht
      rw [Function.update_self] at hid
      refine (Keyed.mem_add.mp hid).symm.imp_right fun hk => ?_
      exact ⟨arg, myVec, rfl, hlog ▸ List.mem_cons_self, hk, hgen⟩
    · exact Or.inl (by rwa [Function.update_of_ne ht] at hid)
  | cancel _ htarget _ _ _ => exact Or.inl (mem_dropWhere.mp (htarget ▸ hid)).1
  | @down t' _ _ _ _ _ htarget _ _ _ _ _ =>
    rw [htarget] at hid
    by_cases ht : t = t'
    · subst ht
      rw [Function.update_self] at hid
      exact (AList.notMem_empty id hid).elim
    · exact Or.inl (by rwa [Function.update_of_ne ht] at hid)
  | gaveUp _ htarget _ _ _ => exact Or.inl (mem_dropWhere.mp (htarget ▸ hid)).1
  | acked _ htarget _ _ _ => exact Or.inl (mem_dropWhere.mp (htarget ▸ hid)).1

/-! ## Each event has one of them -/

theorem addToWaiting_log : (s.addToWaiting t c).log = s.log :=
  addToWaiting_cases (P := fun s' => s'.log = s.log) rfl fun _ => rfl

theorem repeatWaiting_log : (s.repeatWaiting t c).log = s.log :=
  repeatWaiting_cases (P := fun s' => s'.log = s.log) rfl (fun _ => addToWaiting_log)
    addToWaiting_log rfl

theorem addToWaiting_clients : (s.addToWaiting t c).clients = s.clients :=
  addToWaiting_cases (P := fun s' => s'.clients = s.clients) rfl fun _ => rfl

theorem repeatWaiting_id (c' : ClientRef) :
    ((s.repeatWaiting t c).clients c').id = (s.clients c').id := by
  refine repeatWaiting_cases (P := fun s' => (s'.clients c').id = (s.clients c').id) rfl
    (fun _ => ?_) ?_ rfl
  · rw [addToWaiting_clients]
    exact setIntervals_id _ _
  · rw [addToWaiting_clients]

theorem getClient_log (addr : ClientAddr) : (s.getClient addr).1.log = s.log := by
  unfold getClient
  split <;> rfl

theorem enlist_log (arg : SpyRegisterArg) : (s.enlist arg c).log = s.log := by
  unfold enlist license
  dsimp only
  split <;> exact repeatWaiting_log

/-- Nothing is answered before the reply. -/
theorem register_log (arg : SpyRegisterArg) : ∃ l, (s.register arg c).log = l ++ s.log :=
  register_cases (P := fun s' => ∃ l, s'.log = l ++ s.log) ⟨[], enlist_log arg⟩
    ⟨[_], congrArg _ (enlist_log arg)⟩

/-- What the body of `SPY_REGISTER` does to the sets. -/
theorem enlist_spec (arg : SpyRegisterArg) (hid : (s.clients c).id = arg.client.id) :
    (s.enlist arg c).targetClients = Function.update s.targetClients arg.target.handle
        ((s.targetClients arg.target.handle).add arg.client.id c) ∧
      ((s.enlist arg c).deadly = if arg.lethal then Function.update s.deadly arg.target.handle
        ((s.deadly arg.target.handle).add arg.client.id c) else s.deadly) ∧
      (∀ t, (s.enlist arg c).genOf t = s.genOf t) := by
  set s₁ := (s.enroll c arg.target.handle).setInterval c arg.target.handle arg.upIntervalMs with hs₁
  have hq : Quiet s₁ (s₁.repeatWaiting arg.target.handle c) := quiet_repeatWaiting
  have hid₁ : ((s₁.repeatWaiting arg.target.handle c).clients c).id = arg.client.id :=
    (repeatWaiting_id c).trans ((setIntervals_id _ c).trans hid)
  have htarget : s₁.targetClients = Function.update s.targetClients arg.target.handle
      ((s.targetClients arg.target.handle).add arg.client.id c) := by rw [← hid]; rfl
  have henlist : s.enlist arg c =
      (s₁.repeatWaiting arg.target.handle c).license arg.lethal c arg.target.handle := rfl
  rw [henlist, license]
  split
  · next hl =>
    refine ⟨hq.targetClients.trans htarget, ?_, hq.genOf⟩
    simp only [hid₁, hq.deadly]
    rfl
  · next hl => exact ⟨hq.targetClients.trans htarget, hq.deadly, hq.genOf⟩

theorem register_spec (arg : SpyRegisterArg) (hid : (s.clients c).id = arg.client.id) :
    (s.register arg c).targetClients = Function.update s.targetClients arg.target.handle
        ((s.targetClients arg.target.handle).add arg.client.id c) ∧
      ((s.register arg c).deadly = if arg.lethal then Function.update s.deadly arg.target.handle
        ((s.deadly arg.target.handle).add arg.client.id c) else s.deadly) ∧
      (∀ t, (s.register arg c).genOf t = s.genOf t) ∧
      (s.register arg c).log = (if (s.targetClients arg.target.handle).isEmpty then
        [.startMonitoring arg.target.handle] else []) ++ s.log := by
  obtain ⟨htarget, hdeadly, hgen⟩ := enlist_spec arg hid
  have hfirst : (((s.enlist arg c).targetClients arg.target.handle).size = 1 ∧
      decide ((s.clients c).id ∉ s.targetClients arg.target.handle) = true) ↔
      (s.targetClients arg.target.handle).isEmpty = true := by
    rw [htarget, Function.update_self, decide_eq_true_iff, hid]
    exact Keyed.size_add_eq_one
  unfold register
  dsimp only
  split
  · next h =>
    rw [if_pos (hfirst.mp h)]
    exact ⟨htarget, hdeadly, hgen, congrArg _ (enlist_log arg)⟩
  · next h =>
    rw [if_neg fun h' => h (hfirst.mpr h')]
    exact ⟨htarget, hdeadly, hgen, enlist_log arg⟩

/-- What leaving a target does to the sets, for the two callers that erase the interval first. -/
theorem eraseInterval_unregister (id : ClientId) :
    ((s.eraseInterval c t).unregister id t).targetClients
        = dropWhere (· = t) id s.targetClients ∧
      ((s.eraseInterval c t).unregister id t).deadly = dropWhere (· = t) id s.deadly :=
  ⟨update_erase _, update_erase _⟩

theorem cancel_spec :
    (s.cancel t c).targetClients = dropWhere (· = t) (s.clients c).id s.targetClients ∧
      (s.cancel t c).deadly = dropWhere (· = t) (s.clients c).id s.deadly ∧
      (∀ t', (s.cancel t c).genOf t' = s.genOf t') ∧
      (s.cancel t c).log = stops s (s.clients c).id [t] ++ s.log := by
  obtain ⟨htarget, hdeadly⟩ := eraseInterval_unregister (s := s) (c := c) (t := t) (s.clients c).id
  set s₁ := (s.eraseInterval c t).unregister (s.clients c).id t with hs₁
  set s₂ := if (s₁.targetClients t).isEmpty then s₁.note (.stopMonitoring t) else s₁ with hs₂
  have hset : s₁.targetClients t = (s.targetClients t).erase (s.clients c).id := by
    rw [htarget]; exact if_pos rfl
  have h₂ : s₂.targetClients = s₁.targetClients ∧ s₂.deadly = s₁.deadly ∧
      (∀ t', s₂.genOf t' = s.genOf t') ∧ s₂.log = stops s (s.clients c).id [t] ++ s.log := by
    rw [hs₂]
    split
    · next h => exact ⟨rfl, rfl, fun _ => rfl, by rw [hset] at h; simp [stops, h, hs₁]⟩
    · next h => exact ⟨rfl, rfl, fun _ => rfl, by rw [hset] at h; simp [stops, h, hs₁]⟩
  have hcancel : s.cancel t c = if (s₂.clients c).upIntervals.isEmpty then s₂.removeClient c
      else s₂ := rfl
  rw [hcancel]
  split
  · next h =>
    rw [removeClient_idle h]
    exact ⟨h₂.1.trans htarget, h₂.2.1.trans hdeadly, h₂.2.2.1, h₂.2.2.2⟩
  · exact ⟨h₂.1.trans htarget, h₂.2.1.trans hdeadly, h₂.2.2.1, h₂.2.2.2⟩

/-- `RemoveClient` for a client that stopped answering. -/
theorem effect_gaveUp (cb : Callback) (st : ClntStat) :
    Effect s (.fire cb st) ((s.note (.gaveUp (s.clients c).id)).removeClient c) := by
  rw [removeClient_eq]
  exact .gaveUp (s.clients c).upIntervals.keys_nodup rfl rfl (fun _ => rfl) rfl

theorem effect_handleClientHeartbeat (cb : Callback) (n : ℕ) (st : ClntStat) :
    Effect s (.fire cb st) (s.handleClientHeartbeat c n st) :=
  handleClientHeartbeat_cases (fun _ => .quiet (Quiet.refl s)) (fun _ _ => .quiet (quiet_await _))
    (fun _ _ _ => .quiet (quiet_await _)) fun _ _ _ => effect_gaveUp cb st

theorem effect_reportDown (arg : ClientDownArg) (n : ℕ) (st : ClntStat) :
    Effect s (.fire (.downCall c arg n) st) (s.reportDown c arg n st) := by
  obtain ⟨htarget, hdeadly⟩ :=
    eraseInterval_unregister (s := s) (c := c) (t := arg.handle) (s.clients c).id
  refine reportDown_cases ?_ ?_ (fun _ _ => effect_gaveUp _ st)
    fun _ _ => .quiet ((Quiet.note (a := .clientDown _ _) trivial).trans (quiet_await _))
  · rintro ⟨rfl, hn⟩
    exact .acked hn htarget hdeadly (fun _ => rfl) rfl
  · rintro ⟨rfl, hn⟩ hidle
    rw [removeClient_idle hidle]
    exact .acked hn htarget hdeadly (fun _ => rfl) rfl

/-- The event acknowledges a down report to the object `c` about `t`. -/
def AcksDown (e : Event) (c : ClientRef) (t : Handle) : Prop :=
  ∃ arg n, e = .fire (.downCall c arg n) .success ∧ n ≠ 0 ∧ arg.handle = t

/-- **What the acknowledgement of a down report does**: the client leaves the target, quietly. -/
theorem acked_spec {arg : ClientDownArg} {n : ℕ}
    (h : step s (.fire (.downCall c arg n) .success) = some s') (hn : n ≠ 0) :
    s'.targetClients = dropWhere (· = arg.handle) (s.clients c).id s.targetClients ∧
      s'.log = s.log := by
  obtain ⟨-, rfl⟩ := step_fire.mp h
  set s₁ := s.take (.downCall c arg n)
  obtain ⟨htarget, -⟩ :=
    eraseInterval_unregister (s := s₁) (c := c) (t := arg.handle) (s.clients c).id
  have hcall : s₁.call (.downCall c arg n) .success = s₁.reportDown c arg n .success := rfl
  rw [hcall, reportDown, if_pos ⟨rfl, hn⟩]
  dsimp only
  split
  · next hidle => rw [removeClient_idle hidle]; exact ⟨htarget, rfl⟩
  · exact ⟨htarget, rfl⟩

theorem effect_call (cb : Callback) (st : ClntStat) : Effect s (.fire cb st) (s.call cb st) := by
  cases cb with
  | heartbeatCall c n => exact effect_handleClientHeartbeat _ n st
  | heartbeatTimer c n => exact .quiet (quiet_await _)
  | downCall c arg n => exact effect_reportDown arg n st
  | waitingTimer t c => exact .quiet quiet_addToWaiting

/-- Vectors of one size that `GenCheck` finds neither newer nor older are equal. -/
theorem eq_of_genCompare : ∀ (ms qs : List GenNo), ms.length = qs.length →
    genCompare ms qs = .success → ms = qs
  | [], [], _, _ => rfl
  | m :: ms, q :: qs, hlen, h => by
    unfold genCompare at h
    split_ifs at h with hlt hgt
    have hmq : m = q := UInt32.le_antisymm (UInt32.not_lt.mp hgt) (UInt32.not_lt.mp hlt)
    rw [hmq, eq_of_genCompare ms qs (Nat.succ.inj hlen) h]

/-- **A request passes `GenCheck` only at the target's current generation.** -/
theorem eq_of_genCheck {q : List GenNo} {layer : LayerAnswer}
    (h : s.genCheck t q layer = .success) : q = s.genOf t := by
  unfold genCheck at h
  split_ifs at h with _ hlen
  exact (eq_of_genCompare _ _ (not_not.mp hlen) h).symm

theorem genCompare_mem : ∀ ms qs : List GenNo, genCompare ms qs ∈ [.success, .futureGen, .longDead]
  | [], _ => by simp [genCompare]
  | _ :: _, [] => by simp [genCompare]
  | m :: ms, q :: qs => by
    unfold genCompare
    split_ifs
    · decide
    · decide
    · exact genCompare_mem ms qs

/-- What `GenCheck` answers. -/
theorem genCheck_mem (q : List GenNo) (layer : LayerAnswer) :
    s.genCheck t q layer ∈ [.success, .unknownTarget, .badGenVec, .futureGen, .longDead] := by
  unfold genCheck
  split_ifs
  · decide
  · decide
  · have hmem := genCompare_mem (s.genOf t) q
    simp only [List.mem_cons, List.not_mem_nil, or_false] at hmem ⊢
    tauto

/-- `GenCheck` acknowledges nothing. -/
theorem genCheck_ne_ack (q : List GenNo) (layer : LayerAnswer) :
    s.genCheck t q layer ≠ .registerAck ∧ s.genCheck t q layer ≠ .cancelAck := by
  have hmem := genCheck_mem (s := s) (t := t) q layer
  constructor
  · exact fun h => absurd (h ▸ hmem) (by decide)
  · exact fun h => absurd (h ▸ hmem) (by decide)

theorem quiet_refused {q : List GenNo} {layer : LayerAnswer} {req : Request} {tgt : TargetT} :
    Quiet s (s.note (.reply req ⟨tgt, s.genCheck t q layer⟩)) :=
  quiet_reply (genCheck_ne_ack q layer).1 (genCheck_ne_ack q layer).2

/-- A registration that has passed `GenCheck`. -/
theorem effect_registered {arg : SpyRegisterArg} {layer : LayerAnswer} (hn : s.Named)
    (hok : s.genCheck arg.target.handle arg.target.generation layer = .success)
    (myVec : List GenNo) :
    Effect s (.request (.register arg) layer)
      (((s.getClient arg.client).1.register arg (s.getClient arg.client).2).note
        (.reply (.register arg) ⟨⟨arg.target.handle, myVec⟩, .registerAck⟩)) := by
  obtain ⟨-, hnames, -⟩ := getClient_spec hn arg.client
  have hq : Quiet s (s.getClient arg.client).1 := quiet_getClient _
  obtain ⟨htarget, hdeadly, hgen, hlog⟩ := register_spec arg hnames.2
  rw [hq.targetClients] at htarget hlog
  rw [hq.deadly] at hdeadly
  refine .register (eq_of_genCheck hok) htarget hdeadly
    (fun t => (hgen t).trans (hq.genOf t)) (List.cons_eq_cons.mpr ⟨rfl, ?_⟩)
  rw [hlog, getClient_log]

/-- A cancellation by a client of the target. -/
theorem effect_cancelled {arg : SpyCancelArg} {layer : LayerAnswer} (hn : s.Named)
    (hmem : ((s.getClient arg.client).1.clients (s.getClient arg.client).2).id ∈
      (s.getClient arg.client).1.targetClients arg.target.handle) (myVec : List GenNo) :
    Effect s (.request (.cancel arg) layer)
      (((s.getClient arg.client).1.cancel arg.target.handle (s.getClient arg.client).2).note
        (.reply (.cancel arg) ⟨⟨arg.target.handle, myVec⟩, .cancelAck⟩)) := by
  obtain ⟨-, hnames, -⟩ := getClient_spec hn arg.client
  have hq : Quiet s (s.getClient arg.client).1 := quiet_getClient _
  obtain ⟨htarget, hdeadly, hgen, hlog⟩ :=
    cancel_spec (s := (s.getClient arg.client).1) (c := (s.getClient arg.client).2)
      (t := arg.target.handle)
  rw [hnames.2, hq.targetClients] at hmem
  rw [hnames.2, hq.targetClients] at htarget
  rw [hnames.2, hq.deadly] at hdeadly
  refine .cancel hmem htarget hdeadly (fun t => (hgen t).trans (hq.genOf t))
    (List.cons_eq_cons.mpr ⟨rfl, ?_⟩)
  rw [hlog, hnames.2, stops, stops, hq.targetClients, getClient_log]

/-- The state a request is decided in, if it fast forwards its target. -/
theorem updateGenerations_refresh {layer : LayerAnswer}
    (h : e.fastForwards = layer.newGen.map (t, ·)) : s.updateGenerations t layer = s.refresh e := by
  rw [refresh, h, updateGenerations]
  cases layer.newGen <;> rfl

theorem effect_dispatch (hs : Named s) (req : Request) (layer : LayerAnswer) :
    Effect (s.refresh (.request req layer)) (.request req layer) (s.dispatch req layer) := by
  have hn : Named (s.refresh (.request req layer)) := by
    obtain ⟨lines, gens, h, -⟩ := s.refresh_eq (.request req layer)
    rw [h]
    exact ⟨hs.all, hs.target⟩
  cases req with
  | null => exact .quiet (Quiet.refl s)
  | register arg =>
    have href : s.updateGenerations arg.target.handle layer
        = s.refresh (.request (.register arg) layer) := updateGenerations_refresh rfl
    unfold dispatch
    dsimp only
    rw [href]
    split
    · next hok => exact effect_registered hn hok _
    · exact .quiet quiet_refused
  | cancel arg =>
    have href : s.updateGenerations arg.target.handle layer
        = s.refresh (.request (.cancel arg) layer) := updateGenerations_refresh rfl
    unfold dispatch
    dsimp only
    rw [href]
    split
    · split
      · next hmem => exact effect_cancelled hn hmem _
      · exact .quiet ((quiet_getClient _).trans (quiet_reply (by decide) (by decide)))
    · exact .quiet quiet_refused
  | kill target =>
    have href : s.updateGenerations target.handle layer
        = s.refresh (.request (.kill target) layer) := updateGenerations_refresh rfl
    unfold dispatch
    dsimp only
    rw [href]
    split
    · exact .quiet ((Quiet.note (a := .kill _) trivial).trans
        (quiet_reply (by decide) (by decide)))
    · exact .quiet quiet_refused
  | getGen target =>
    unfold dispatch
    dsimp only
    split
    · next hinv =>
      have href : s.refresh (.request (.getGen target) layer) = s := by
        simp [refresh, Event.fastForwards, hinv]
      rw [href]
      exact .quiet (quiet_reply (by decide) (by decide))
    · next hinv =>
      have href : s.updateGenerations target.handle layer
          = s.refresh (.request (.getGen target) layer) :=
        updateGenerations_refresh (by simp [Event.fastForwards, hinv])
      rw [href]
      exact .quiet (quiet_reply (by decide) (by decide))

/-- A callback is decided in the state it is taken from. -/
theorem Effect.of_take {cb : Callback} {st : ClntStat} (h : Effect (s.take cb) (.fire cb st) s') :
    Effect s (.fire cb st) s' := by
  cases h with
  | quiet h => exact .quiet ((quiet_take cb).trans h)
  | gaveUp hnodup htarget hdeadly hsame hlog => exact .gaveUp hnodup htarget hdeadly hsame hlog
  | acked hn htarget hdeadly hsame hlog => exact .acked hn htarget hdeadly hsame hlog

/-- **What a down does**: every client of the target is told, under the generation that ends, and
forgotten; the licences to kill stay. -/
theorem down_spec (hs : Named s) {st : UInt32} {k w : Bool}
    (h : step s (.observeDown t st k w) = some s') :
    s'.targetClients = Function.update s.targetClients t ∅ ∧ s'.deadly = s.deadly ∧
      (∀ t' ≠ t, s'.genOf t' = s.genOf t') ∧
      ∃ downs, (∀ a ∈ downs, a.Quiet) ∧
        (∀ id ∈ s.targetClients t, ∃ arg, .clientDown id arg ∈ downs ∧ arg.handle = t ∧
          arg.generation = s.genOf t) ∧
        s'.log = .stopMonitoring t :: (downs ++ .observeDown t :: s.log) := by
  obtain rfl : s.observeDown t st k w = s' := Option.some.inj h
  rw [observeDown_eq]
  refine ⟨rfl, rfl, fun t' ht' => by simp [genOf, ht'], _, ?_, ?_, rfl⟩
  · intro a ha
    obtain ⟨c, -, rfl⟩ := List.mem_map.mp (List.mem_reverse.mp ha)
    trivial
  · intro id hid
    obtain ⟨c, hc⟩ := Keyed.exists_lookup hid
    refine ⟨s.downArg t st k w c, List.mem_reverse.mpr (List.mem_map.mpr ⟨c, ?_, ?_⟩), rfl, rfl⟩
    · exact List.mem_map.mpr ⟨⟨id, c⟩, Keyed.mem_entries_iff.mpr hc, rfl⟩
    · rw [(hs.target t id c hc).2]

/-! ## A late acknowledgement -/

/-- The registration of one fixed client for `"app"` at generation `g`. -/
def registerApp (g : GenNo) : SpyRegisterArg := ⟨⟨"app", [g]⟩, false, -1, ⟨1, 0, 7⟩⟩

/-- The client registers, the target goes down, the client registers again for the next generation,
and only then the report about the first one is acknowledged. -/
def lateAck : List Event :=
  [.request (.register (registerApp 0)) ⟨none, false⟩,
   .observeDown "app" 1 false false,
   .request (.register (registerApp 1)) ⟨none, false⟩,
   .fire (.downCall 0 ⟨"app", [0], 1, false, false, 7⟩ 1) .success]

/-- **Every event has one of the six effects**, on the state the layer's `UpdateGenerations` leaves.
-/
theorem step_effect (hs : Named s) (h : step s e = some s') : Effect (s.refresh e) e s' := by
  cases e with
  | request req layer => exact Option.some.inj h ▸ effect_dispatch hs req layer
  | fire cb st =>
    obtain ⟨-, rfl⟩ := step_fire.mp h
    exact (effect_call cb st).of_take
  | observeUp t => exact Option.some.inj h ▸ .quiet quiet_observeUp
  | observeDown t st k w =>
    obtain ⟨htarget, hdeadly, hsame, downs, hquiet, htold, hlog⟩ := down_spec hs h
    exact .down htarget hdeadly hsame hquiet htold hlog

/-- The vector of the layers below is fixed. -/
theorem genVec_step (hs : Named s) (h : step s e = some s') : s'.genVec = s.genVec := by
  obtain ⟨lines, gens, hrefresh, -⟩ := refresh_eq s e
  have hvec : (s.refresh e).genVec = s.genVec := by rw [hrefresh]
  have hof : ∀ t, s'.genOf t = (s.refresh e).genOf t → s'.genVec = s.genVec :=
    fun t ht => (List.append_inj_left' ht rfl).trans hvec
  cases step_effect hs h with
  | quiet h => exact h.genVec.trans hvec
  | register _ _ _ hsame _ | cancel _ _ _ hsame _ => exact hof "" (hsame _)
  | gaveUp _ _ _ hsame _ | acked _ _ _ hsame _ => exact hof "" (hsame _)
  | down =>
    obtain rfl := Option.some.inj h
    rw [observeDown_eq]

/-- The log grows by what is new in it. -/
theorem newer_append (hs : Named s) (h : step s e = some s') : s'.log = s.newer s' ++ s.log := by
  obtain ⟨lines, gens, href, -⟩ := s.refresh_eq e
  obtain ⟨acts, hlog, -⟩ := (step_effect hs h).acks
  have hlog' : s'.log = acts ++ s.log := by rw [hlog, href]
  rw [newer_of_log hlog', hlog']

/-- **The monitoring of a target starts with an acknowledged registration**, and with nothing else
for the layer to do. -/
theorem newer_of_start (hs : Named s) (h : step s e = some s')
    (hstart : .startMonitoring t ∈ s.newer s') :
    ∃ req res, s.newer s' = [.reply req res, .startMonitoring t] := by
  obtain ⟨lines, gens, href, -⟩ := s.refresh_eq e
  have heffect := step_effect hs h
  have hlog : (s.refresh e).log = s.log := by rw [href]
  generalize s.refresh e = s₁ at heffect hlog
  have hstops : ∀ id ts, .startMonitoring t ∉ stops s₁ id ts := by
    intro id ts hmem
    obtain ⟨t', -, -, ht'⟩ := mem_stops.mp hmem
    cases ht'
  cases heffect with
  | quiet hq =>
    obtain ⟨acts, hacts, hquiet⟩ := hq.log
    rw [newer_of_log (hlog ▸ hacts)] at hstart
    exact (hquiet _ hstart).elim
  | register _ _ _ _ hnew =>
    rw [hlog, ← List.cons_append] at hnew
    rw [newer_of_log hnew] at hstart ⊢
    split at hstart
    · next hempty =>
      simp only [List.mem_cons, reduceCtorEq, false_or, Action.startMonitoring.injEq,
        List.not_mem_nil, or_false] at hstart
      rw [if_pos hempty, ← hstart]
      exact ⟨_, _, rfl⟩
    · simp at hstart
  | cancel _ _ _ _ hnew =>
    rw [hlog, ← List.cons_append] at hnew
    rw [newer_of_log hnew] at hstart
    obtain hstart | hstart := List.mem_cons.mp hstart
    · cases hstart
    · exact (hstops _ _ hstart).elim
  | @down t' _ _ _ downs _ _ _ _ hquiet _ hnew =>
    rw [hlog] at hnew
    rw [newer_of_log (l := .stopMonitoring t' :: (downs ++ [.observeDown t'])) (by simp [hnew])]
      at hstart
    simp only [List.mem_cons, List.mem_append, reduceCtorEq, List.not_mem_nil, or_false,
      false_or] at hstart
    exact (hquiet _ hstart).elim
  | @gaveUp _ _ id ts _ _ _ _ _ hnew =>
    rw [hlog] at hnew
    rw [newer_of_log (l := stops s₁ id ts ++ [.gaveUp id]) (by simp [hnew])] at hstart
    obtain hstart | hstart := List.mem_append.mp hstart
    · exact (hstops _ _ hstart).elim
    · simp at hstart
  | acked _ _ _ _ hnew =>
    rw [newer_of_log (l := []) (hnew.trans hlog)] at hstart
    cases hstart

/-- **The monitoring of a target with clients goes on**: it is not stopped, and it starts with the
first of them. -/
theorem monitored_of_client {id : ClientId} (hs : Named s) (h : step s e = some s')
    (hid : id ∈ s'.targetClients t) : .stopMonitoring t ∉ s.newer s' ∧
      (.startMonitoring t ∈ s.newer s' ∨ ∃ id, id ∈ s.targetClients t) := by
  obtain ⟨lines, gens, href, -⟩ := s.refresh_eq e
  have heffect := step_effect hs h
  have hlog : (s.refresh e).log = s.log := by rw [href]
  have hclients : (s.refresh e).targetClients = s.targetClients := by rw [href]
  generalize s.refresh e = s₁ at heffect hlog hclients
  have hstops : ∀ id' ts, id ∈ s₁.targetClients t → (t ∈ ts → id ≠ id') →
      .stopMonitoring t ∉ stops s₁ id' ts := by
    intro id' ts hid hne hmem
    obtain ⟨t', ht', hempty, heq⟩ := mem_stops.mp hmem
    obtain rfl := Action.stopMonitoring.inj heq
    exact Keyed.isEmpty_iff.mp hempty id (AList.mem_erase.mpr ⟨hne ht', hid⟩)
  cases heffect with
  | quiet hq =>
    obtain ⟨acts, hacts, hquiet⟩ := hq.log
    rw [newer_of_log (hlog ▸ hacts)]
    rw [hq.targetClients, hclients] at hid
    exact ⟨fun hstop => hquiet _ hstop, Or.inr ⟨id, hid⟩⟩
  | @register arg _ _ c _ _ htarget _ _ hnew =>
    rw [hlog, ← List.cons_append] at hnew
    rw [newer_of_log hnew]
    refine ⟨fun hstop => ?_, ?_⟩
    · split at hstop <;> simp at hstop
    · by_cases ht : t = arg.target.handle
      · subst ht
        cases hempty : Keyed.isEmpty (s₁.targetClients arg.target.handle) with
        | true => exact Or.inl (by simp)
        | false => exact Or.inr (hclients ▸ Keyed.not_isEmpty_iff.mp hempty)
      · rw [htarget, Function.update_of_ne ht, hclients] at hid
        exact Or.inr ⟨id, hid⟩
  | cancel _ htarget _ _ hnew =>
    rw [hlog, ← List.cons_append] at hnew
    rw [htarget, mem_dropWhere] at hid
    rw [newer_of_log hnew]
    refine ⟨fun hstop => ?_, Or.inr ⟨id, hclients ▸ hid.1⟩⟩
    refine hstops _ _ hid.1 (fun ht hne => hid.2 ⟨?_, hne⟩)
      ((List.mem_cons.mp hstop).resolve_left ?_)
    · exact List.mem_singleton.mp ht
    · simp
  | @down t' _ _ _ downs _ htarget _ _ hquiet _ hnew =>
    rw [hlog] at hnew
    have ht : t ≠ t' := by
      rintro rfl
      rw [htarget, Function.update_self] at hid
      exact AList.notMem_empty _ hid
    rw [htarget, Function.update_of_ne ht, hclients] at hid
    refine ⟨fun hstop => ?_, Or.inr ⟨id, hid⟩⟩
    rw [newer_of_log (l := .stopMonitoring t' :: (downs ++ [.observeDown t'])) (by simp [hnew])]
      at hstop
    simp only [List.mem_cons, List.mem_append, reduceCtorEq, List.not_mem_nil, or_false,
      Action.stopMonitoring.injEq, ht, false_or] at hstop
    exact hquiet _ hstop
  | @gaveUp _ _ id' ts _ _ htarget _ _ hnew =>
    rw [hlog] at hnew
    rw [htarget, mem_dropWhere] at hid
    rw [newer_of_log (l := stops s₁ id' ts ++ [.gaveUp id']) (by simp [hnew])]
    refine ⟨fun hstop => ?_, Or.inr ⟨id, hclients ▸ hid.1⟩⟩
    obtain hstop | hstop := List.mem_append.mp hstop
    · exact hstops _ _ hid.1 (fun ht hne => hid.2 ⟨ht, hne⟩) hstop
    · simp at hstop
  | acked _ htarget _ _ hnew =>
    rw [newer_of_log (l := []) (hnew.trans hlog)]
    rw [htarget, mem_dropWhere] at hid
    exact ⟨List.not_mem_nil, Or.inr ⟨id, hclients ▸ hid.1⟩⟩

end Enforcer

end Falcon
