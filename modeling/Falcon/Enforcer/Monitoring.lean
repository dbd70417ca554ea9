import Falcon.Enforcer.Effect
import Mathlib.Data.List.Chain

/-!
# Enforcer/Monitoring — the layer is told to monitor exactly what has clients

The enforcer tells the layer-specific code when a target gets its first client and when it loses its
last one.  Five paths take clients out of `target_clients_`; four of them call `StopMonitoring` when
the set becomes empty.  The fifth, the acknowledgement of a down report in `ReportDown`, does not:
`monitoring_iff` says that this is the only way the two get out of step, in any run.
-/

namespace Falcon.Enforcer

variable {s s' s₁ : Enforcer} {e : Event} {t : Handle} {c : ClientRef} {id : ClientId}

/-- The two calls to the layer that bracket the monitoring of a target. -/
inductive MonitorCall
  | start | stop
  deriving DecidableEq, Repr

/-- The call an action makes for the target `t`. -/
def monitorCall (t : Handle) : Action → Option MonitorCall
  | .startMonitoring t' => if t' = t then some .start else none
  | .stopMonitoring t' => if t' = t then some .stop else none
  | _ => none

/-- The calls made for `t`, newest first. -/
def monitorCalls (t : Handle) (log : List Action) : List MonitorCall :=
  log.filterMap (monitorCall t)

/-- Some registration for `t` has been acknowledged. -/
def EverRegistered (s : Enforcer) (t : Handle) : Prop :=
  ∃ arg res, .reply (.register arg) res ∈ s.log ∧ res.status = .registerAck ∧
    arg.target.handle = t

/-- The last call for `t` was `StartMonitoring` iff `t` has clients, and no `StartMonitoring` was
made while the last call was one. -/
structure Watched (s : Enforcer) (t : Handle) : Prop where
  last : (monitorCalls t s.log).head? = some .start ↔ ∃ id, id ∈ s.targetClients t
  once : (monitorCalls t s.log).IsChain fun new old => ¬ (new = .start ∧ old = .start)

/-- Monitoring matches the registrations. -/
def MonitoringMatches (s : Enforcer) : Prop := ∀ t, s.EverRegistered t → s.Watched t

/-- The client `id` is the only one registered for `t`. -/
def SoleClient (s : Enforcer) (id : ClientId) (t : Handle) : Prop :=
  id ∈ s.targetClients t ∧ ∀ id' ∈ s.targetClients t, id' = id

/-! ## What the effects add to the calls -/

theorem monitorCalls_append (t : Handle) (l l' : List Action) :
    monitorCalls t (l ++ l') = monitorCalls t l ++ monitorCalls t l' := List.filterMap_append

theorem monitorCalls_quiet {acts : List Action} (h : ∀ a ∈ acts, a.Quiet) :
    monitorCalls t acts = [] := by
  refine List.filterMap_eq_nil_iff.mpr fun a ha => ?_
  have hq := h a ha
  cases a with
  | startMonitoring | stopMonitoring => exact hq.elim
  | _ => rfl

theorem monitorCalls_cons_of_none {a : Action} (l : List Action) (h : monitorCall t a = none) :
    monitorCalls t (a :: l) = monitorCalls t l := List.filterMap_cons_none h

theorem monitorCalls_map_stop (ts : List Handle) :
    monitorCalls t (ts.map .stopMonitoring) = List.replicate (ts.count t) .stop := by
  induction ts with
  | nil => rfl
  | cons t₀ ts ih =>
    by_cases ht : t₀ = t
    · subst ht
      have hcall : monitorCall t₀ (.stopMonitoring t₀) = some .stop := if_pos rfl
      rw [List.map_cons, List.count_cons_self, List.replicate_succ, ← ih]
      exact List.filterMap_cons_some hcall
    · rw [List.map_cons, List.count_cons_of_ne ht, ← ih]
      exact monitorCalls_cons_of_none _ (if_neg ht)

/-- The loop of `RemoveClient` stops a target at most once, if it leaves it empty. -/
theorem monitorCalls_stops {ts : List Handle} (hts : ts.Nodup) :
    monitorCalls t (stops s id ts) =
      if t ∈ ts ∧ Keyed.isEmpty ((s.targetClients t).erase id) = true then [.stop] else [] := by
  set emptied := ts.filter fun t => Keyed.isEmpty ((s.targetClients t).erase id)
  have hcount : emptied.count t =
      if t ∈ ts ∧ Keyed.isEmpty ((s.targetClients t).erase id) = true then 1 else 0 := by
    rw [List.Nodup.count (hts.filter _)]
    simp only [List.mem_filter]
  have hstops : stops s id ts = emptied.reverse.map .stopMonitoring := by
    rw [stops, List.map_reverse]
  rw [hstops, monitorCalls_map_stop, List.count_reverse, hcount]
  split <;> rfl

/-! ## One event -/

theorem Watched.of_same (hw : s.Watched t) (hcalls : monitorCalls t s'.log = monitorCalls t s.log)
    (hset : (∃ id, id ∈ s'.targetClients t) ↔ ∃ id, id ∈ s.targetClients t) : s'.Watched t :=
  ⟨by rw [hcalls, hset]; exact hw.last, by rw [hcalls]; exact hw.once⟩

theorem Watched.of_stop (hw : s.Watched t)
    (hcalls : monitorCalls t s'.log = .stop :: monitorCalls t s.log)
    (hset : ∀ id, id ∉ s'.targetClients t) : s'.Watched t := by
  refine ⟨?_, ?_⟩
  · rw [hcalls, List.head?_cons]
    exact ⟨fun h => absurd (Option.some.inj h) (by decide), fun ⟨id, hid⟩ => (hset id hid).elim⟩
  · rw [hcalls]
    exact hw.once.cons fun _ _ h => absurd h.1 (by decide)

/-- A client leaves the targets `ts`, and those it leaves empty are stopped. -/
theorem Watched.of_drop {p : Handle → Prop} [DecidablePred p] {l : List Handle}
    (hw : s.Watched t) (hp : p t ↔ t ∈ l) (hl : l.Nodup)
    (htarget : s'.targetClients = dropWhere p id s.targetClients)
    (hcalls : monitorCalls t s'.log = monitorCalls t (stops s id l) ++ monitorCalls t s.log) :
    s'.Watched t := by
  rw [monitorCalls_stops hl] at hcalls
  have hset : s'.targetClients t =
      if p t then (s.targetClients t).erase id else s.targetClients t :=
    congrFun htarget t
  simp only [← hp] at hcalls
  by_cases hin : p t
  · rw [if_pos hin] at hset
    by_cases he : Keyed.isEmpty ((s.targetClients t).erase id) = true
    · rw [if_pos ⟨hin, he⟩] at hcalls
      exact hw.of_stop hcalls fun k hk => Keyed.isEmpty_iff.mp he k (hset ▸ hk)
    · rw [if_neg fun h => he h.2] at hcalls
      refine hw.of_same hcalls ?_
      obtain ⟨k, hk⟩ := Keyed.not_isEmpty_iff.mp (Bool.not_eq_true _ ▸ he)
      exact ⟨fun _ => ⟨k, (AList.mem_erase.mp hk).2⟩, fun _ => ⟨k, hset ▸ hk⟩⟩
  · rw [if_neg fun h => hin h.1] at hcalls
    rw [if_neg hin] at hset
    exact hw.of_same hcalls (by rw [hset])

/-- **What one event does to the monitoring of a target**: the two stay in step unless the event is
the acknowledgement of a report to the target's only client. -/
theorem Effect.watched (h : Effect s e s') (hw : s.Watched t)
    (hack : ∀ c, AcksDown e c t → ¬ s.SoleClient (s.clients c).id t) : s'.Watched t := by
  cases h with
  | quiet h =>
    obtain ⟨acts, hacts, hq⟩ := h.log
    refine hw.of_same ?_ (by rw [h.targetClients])
    rw [hacts, monitorCalls_append, monitorCalls_quiet hq, List.nil_append]
  | @register arg _ _ c _ _ htarget _ _ hlog =>
    by_cases ht : arg.target.handle = t
    · subst ht
      have hnew : ∃ id, id ∈ s'.targetClients arg.target.handle :=
        ⟨arg.client.id, by rw [htarget, Function.update_self]; exact Keyed.mem_add.mpr (Or.inl rfl)⟩
      by_cases he : (s.targetClients arg.target.handle).isEmpty = true
      · -- the first client of the target: the last call was not a start
        have hno : (monitorCalls arg.target.handle s.log).head? ≠ some .start := fun h => by
          obtain ⟨id, hid⟩ := hw.last.mp h
          exact Keyed.isEmpty_iff.mp he id hid
        have hcalls : monitorCalls arg.target.handle s'.log =
            .start :: monitorCalls arg.target.handle s.log := by
          rw [hlog, if_pos he, monitorCalls_cons_of_none _ rfl, List.singleton_append]
          exact List.filterMap_cons_some (if_pos rfl)
        refine ⟨by rw [hcalls]; exact iff_of_true rfl hnew, ?_⟩
        rw [hcalls, List.isChain_cons]
        exact ⟨fun call hcall h => hno (h.2 ▸ hcall), hw.once⟩
      · refine hw.of_same ?_ (iff_of_true hnew ?_)
        · rw [hlog, if_neg he, List.nil_append, monitorCalls_cons_of_none _ rfl]
        · exact Keyed.not_isEmpty_iff.mp (Bool.not_eq_true _ ▸ he)
    · refine hw.of_same ?_ (by rw [htarget, Function.update_of_ne (Ne.symm ht)])
      rw [hlog, monitorCalls_cons_of_none _ rfl]
      split
      · exact monitorCalls_cons_of_none _ (if_neg ht)
      · rfl
  | @cancel arg _ _ _ hmem htarget _ _ hlog =>
    refine hw.of_drop (p := (· = arg.target.handle)) (l := [arg.target.handle])
      (by simp) (by simp) htarget ?_
    rw [hlog, monitorCalls_cons_of_none _ rfl, monitorCalls_append]
  | @down t' _ _ _ downs _ htarget _ _ hquiet _ hlog =>
    have hrest : monitorCalls t (downs ++ .observeDown t' :: s.log) = monitorCalls t s.log := by
      rw [monitorCalls_append, monitorCalls_quiet hquiet, List.nil_append,
        monitorCalls_cons_of_none _ rfl]
    by_cases ht : t' = t
    · subst ht
      refine hw.of_stop ?_ fun id hid => ?_
      · rw [hlog, ← hrest]
        exact List.filterMap_cons_some (if_pos rfl)
      · rw [htarget, Function.update_self] at hid
        exact AList.notMem_empty id hid
    · refine hw.of_same ?_ (by rw [htarget, Function.update_of_ne (Ne.symm ht)])
      rw [hlog, ← hrest]
      exact monitorCalls_cons_of_none _ (if_neg ht)
  | @gaveUp _ _ id ts _ hnodup htarget _ _ hlog =>
    refine hw.of_drop Iff.rfl hnodup htarget ?_
    rw [hlog, monitorCalls_append, monitorCalls_cons_of_none _ rfl]
  | @acked c arg n _ hn htarget _ _ hlog =>
    refine hw.of_same (by rw [hlog]) ?_
    rw [htarget]
    refine ⟨fun ⟨k, hk⟩ => ⟨k, (mem_dropWhere.mp hk).1⟩, fun ⟨k, hk⟩ => ?_⟩
    by_contra hnone
    -- everybody left, so the target is the reported one and the client was alone
    have hleft : ∀ k' ∈ s.targetClients t, t = arg.handle ∧ k' = (s.clients c).id := by
      intro k' hk'
      by_contra hstays
      exact hnone ⟨k', mem_dropWhere.mpr ⟨hk', hstays⟩⟩
    obtain ⟨ht, rfl⟩ := hleft k hk
    exact hack c ⟨arg, n, rfl, hn, ht.symm⟩ ⟨hk, fun k' hk' => (hleft k' hk').2⟩

/-! ## Every run -/

theorem EverRegistered.mono (h : ∀ a ∈ s.log, a ∈ s'.log) (hr : s.EverRegistered t) :
    s'.EverRegistered t := by
  obtain ⟨arg, res, hmem, hres, ht⟩ := hr
  exact ⟨arg, res, h _ hmem, hres, ht⟩

/-- The invariant of the runs in which monitoring matches: it does so for *every* target, and a
target with clients has been registered. -/
structure InStep (s : Enforcer) : Prop where
  named : s.Named
  watched : ∀ t, s.Watched t
  ever : ∀ t, ∀ id ∈ s.targetClients t, s.EverRegistered t

theorem inStep_init (gv : List GenNo) (gens : Handle → GenNo) : (init gv gens).InStep where
  named := named_init gv gens
  watched _ := ⟨⟨fun h => (by cases h), fun ⟨id, hid⟩ => (AList.notMem_empty id hid).elim⟩,
    List.IsChain.nil⟩
  ever _ id hid := (AList.notMem_empty id hid).elim

theorem inStep_refresh (hs : s.InStep) (e : Event) : (s.refresh e).InStep := by
  obtain ⟨lines, gens, h, -⟩ := s.refresh_eq e
  rw [h]
  exact ⟨⟨hs.named.all, hs.named.target⟩, fun t => ⟨(hs.watched t).last, (hs.watched t).once⟩,
    hs.ever⟩

theorem inStep_step (hs : s.InStep) (h : step s e = some s')
    (hack : ∀ c t, AcksDown e c t → ¬ s.SoleClient (s.clients c).id t) : s'.InStep := by
  have heff := step_effect hs.named h
  have href := inStep_refresh hs e
  have hack' : ∀ c t, AcksDown e c t →
      ¬ (s.refresh e).SoleClient ((s.refresh e).clients c).id t := by
    obtain ⟨lines, gens, hr, -⟩ := s.refresh_eq e
    rw [hr]
    exact hack
  refine ⟨named_step hs.named h, fun t => heff.watched (href.watched t) fun c => hack' c t,
    fun t id hid => ?_⟩
  obtain hold | ⟨arg, myVec, rfl, hreply, -⟩ := heff.mem_target hid
  · exact (href.ever t id hold).mono heff.log_subset
  · exact ⟨arg, _, hreply, rfl, rfl⟩

/-- **Monitoring matches the registrations in every state of a run, exactly if the run never
acknowledges a down report to the only client then registered for the reported target.** -/
theorem monitoring_iff (gv : List GenNo) (gens : Handle → GenNo) (es : List Event) :
    Run.Always step MonitoringMatches (init gv gens) es ↔
      Run.Along step (fun s e _ => ∀ c t, AcksDown e c t → ¬ s.SoleClient (s.clients c).id t)
        (init gv gens) es := by
  refine Run.always_iff_of_inv (I := InStep) (fun s hs t _ => hs.watched t)
    (fun s e s' h hs hC => inStep_step hs h hC) ?_ (inStep_init gv gens)
  rintro s e s' h hs hmatch c t ⟨arg, n, rfl, hn, rfl⟩ ⟨hmem, hsole⟩
  obtain ⟨htarget, hlog⟩ := acked_spec h hn
  have hever : s'.EverRegistered arg.handle :=
    (hs.ever _ _ hmem).mono fun a ha => hlog.symm ▸ ha
  have hstart := (hs.watched arg.handle).last.mpr ⟨_, hmem⟩
  rw [← hlog] at hstart
  obtain ⟨k, hk⟩ := (hmatch _ hever).last.mp hstart
  rw [htarget, mem_dropWhere] at hk
  exact hk.2 ⟨rfl, hsole k hk.1⟩

/-- The late acknowledgement takes the only client of the next generation away, and nobody stops the
monitoring that its registration started. -/
theorem monitoring_unmatched :
    ¬ Run.Always step MonitoringMatches (init [] fun _ => 0) lateAck := by
  intro h
  obtain ⟨s, hs, hreply, hstart, hempty⟩ : ∃ s,
      lateAck.foldlM step (init [] fun _ => 0) = some s ∧
      .reply (.register (registerApp 1)) ⟨⟨"app", [1]⟩, .registerAck⟩ ∈ s.log ∧
      (monitorCalls "app" s.log).head? = some .start ∧
      (s.targetClients "app").isEmpty = true :=
    ⟨_, rfl, by decide, by decide, by decide⟩
  have hmatch := Run.always_iff_run.mp h lateAck List.prefix_rfl s hs
  obtain ⟨id, hid⟩ := (hmatch "app" ⟨_, _, hreply, rfl, rfl⟩).last.mp hstart
  exact Keyed.isEmpty_iff.mp hempty id hid

end Falcon.Enforcer
