import Falcon.Enforcer.Effect
import Falcon.Machinery.Since

/-!
# Enforcer/Registration — an acknowledged registration is kept until it ends

A registration *stands* from its acknowledgement to the first of: an acknowledged cancellation, a
down report of its target, the removal of a client that has stopped answering (`Standing`).  A
client whose registration stands should be in `target_clients_`, and be told of the next down under
the generation it registered for.

* `Effect.kept` — the one event that loses a standing registration is the acknowledgement of a down
  report, `ReportDown` erases by handle and client without looking at the generation.
* `registration_kept` — over runs: no registration is lost exactly if no acknowledgement meets a
  standing registration; and then the clients are told, as long as the layer moves no generation
  under its clients.
-/

namespace Falcon

/-- The action acknowledges the registration. -/
def Action.Acks (reg : SpyRegisterArg) (a : Action) : Prop :=
  ∃ myVec, a = .reply (.register reg) ⟨⟨reg.target.handle, myVec⟩, .registerAck⟩

/-- The action ends the registrations of `id` for `t`: a cancellation or a down. -/
def Action.Releases (id : ClientId) (t : Handle) : Action → Prop
  | .reply (.cancel arg) res =>
    res.status = .cancelAck ∧ arg.client.id = id ∧ arg.target.handle = t
  | .observeDown t' => t' = t
  | _ => False

/-- The action ends the registrations of `id` for `t`, by the client's own failure included. -/
def Action.Ends (id : ClientId) (t : Handle) (a : Action) : Prop :=
  a.Releases id t ∨ a = .gaveUp id

namespace Enforcer

variable {s s' : Enforcer} {e : Event} {t : Handle} {c : ClientRef} {id : ClientId}
  {reg : SpyRegisterArg}

/-- The registration has been acknowledged and has not ended. -/
def Standing (s : Enforcer) (reg : SpyRegisterArg) : Prop :=
  Since (fun a => ¬ a.Ends reg.client.id reg.target.handle) (Action.Acks reg) s.log

/-- Every standing registration has its client in the set of its target. -/
def RegistrationsKept (s : Enforcer) : Prop :=
  ∀ reg, s.Standing reg → reg.client.id ∈ s.targetClients reg.target.handle

/-- No acknowledgement of a down report meets a standing registration. -/
def NoLateAck (s : Enforcer) (e : Event) : Prop :=
  ∀ c reg, AcksDown e c reg.target.handle → (s.clients c).id = reg.client.id → ¬ s.Standing reg

/-- The layer moves no generation of a target that has clients. -/
def NoJump (s : Enforcer) (e : Event) : Prop :=
  ∀ t g, e.fastForwards = some (t, g) → (∃ id, id ∈ s.targetClients t) → g = s.generations t

/-- A down tells every standing registration, under its own generation. -/
def TellsOfDown (s : Enforcer) (e : Event) (s' : Enforcer) : Prop :=
  ∀ t st k w, e = .observeDown t st k w → ∀ reg, s.Standing reg → reg.target.handle = t →
    ∃ news arg, s'.log = news ++ s.log ∧ .clientDown reg.client.id arg ∈ news ∧ arg.handle = t ∧
      arg.generation = reg.target.generation

/-! ## The log and the registrations -/

theorem not_acks_of_quiet {a : Action} (h : a.Quiet) : ¬ a.Acks reg := by
  rintro ⟨_, rfl⟩; exact h.1 rfl

theorem not_acks_of_mem_stops {ts : List Handle} {a : Action} (h : a ∈ stops s id ts) :
    ¬ a.Acks reg := by
  obtain ⟨t, -, -, rfl⟩ := mem_stops.mp h
  rintro ⟨_, h⟩; cases h

theorem not_acks_of_mem_start {b : Bool} {a : Action}
    (h : a ∈ if b then [Action.startMonitoring t] else []) : ¬ a.Acks reg := by
  rintro ⟨_, rfl⟩
  split at h <;> simp at h

/-- A registration that stands after actions that acknowledge nothing stood before them, and none of
them ended it. -/
theorem Standing.of_append {acts : List Action} (h : s'.Standing reg)
    (hlog : s'.log = acts ++ s.log)
    (hacts : ∀ a ∈ acts, ¬ a.Acks reg) :
    (∀ a ∈ acts, ¬ a.Ends reg.client.id reg.target.handle) ∧ s.Standing reg := by
  rw [Standing, hlog] at h
  exact Since.of_append hacts h

/-- **Where a standing registration comes from**: the event has just acknowledged it, at the
generation the target is at; or it stood before, and the client is still there unless the event
acknowledges a down report to it. -/
theorem Effect.standing (h : Effect s e s') (hreg : s'.Standing reg) :
    (reg.client.id ∈ s'.targetClients reg.target.handle ∧
        reg.target.generation = s'.genOf reg.target.handle) ∨
      s.Standing reg ∧ s'.genOf reg.target.handle = s.genOf reg.target.handle ∧
        (reg.client.id ∈ s.targetClients reg.target.handle →
          reg.client.id ∈ s'.targetClients reg.target.handle ∨
            ∃ c, AcksDown e c reg.target.handle ∧ (s.clients c).id = reg.client.id) := by
  cases h with
  | quiet h =>
    obtain ⟨acts, hlog, hq⟩ := h.log
    obtain ⟨-, hold⟩ := hreg.of_append hlog fun a ha => not_acks_of_quiet (hq a ha)
    exact Or.inr ⟨hold, h.genOf _, fun hmem => Or.inl (h.targetClients ▸ hmem)⟩
  | @register arg _ _ c _ hgen htarget _ hsame hlog =>
    rw [Standing, hlog] at hreg
    obtain ⟨myVec, hnew⟩ | ⟨-, hold⟩ := hreg
    · obtain rfl : arg = reg := by injection hnew with h; injection h
      refine Or.inl ⟨?_, hgen.trans (hsame _).symm⟩
      rw [htarget, Function.update_self]
      exact Keyed.mem_add.mpr (Or.inl rfl)
    · obtain ⟨-, hold⟩ := Since.of_append (fun a => not_acks_of_mem_start) hold
      refine Or.inr ⟨hold, hsame _, fun hmem => Or.inl ?_⟩
      rw [htarget]
      exact Keyed.mem_update_add hmem
  | @cancel arg _ _ _ _ htarget _ hsame hlog =>
    rw [← List.cons_append] at hlog
    obtain ⟨hends, hold⟩ := hreg.of_append hlog fun a ha => by
      obtain rfl | ha := List.mem_cons.mp ha
      · rintro ⟨_, h⟩; cases h
      · exact not_acks_of_mem_stops ha
    refine Or.inr ⟨hold, hsame _, fun hmem => Or.inl ?_⟩
    rw [htarget]
    refine mem_dropWhere.mpr ⟨hmem, fun h => ?_⟩
    exact hends _ List.mem_cons_self (Or.inl ⟨rfl, h.2.symm, h.1.symm⟩)
  | @down t _ _ _ downs _ htarget _ hsame hquiet _ hlog =>
    rw [List.append_cons, ← List.cons_append] at hlog
    obtain ⟨hends, hold⟩ := hreg.of_append hlog fun a ha => by
      obtain rfl | ha := List.mem_cons.mp ha
      · rintro ⟨_, h⟩; cases h
      · obtain ha | ha := List.mem_append.mp ha
        · exact not_acks_of_quiet (hquiet a ha)
        · obtain rfl := List.mem_singleton.mp ha
          rintro ⟨_, h⟩; cases h
    have ht : reg.target.handle ≠ t := fun ht =>
      hends (.observeDown t) (List.mem_cons_of_mem _ (List.mem_append_right _ List.mem_cons_self))
        (Or.inl ht.symm)
    exact Or.inr ⟨hold, hsame _ ht, fun hmem =>
      Or.inl (by rwa [htarget, Function.update_of_ne ht])⟩
  | @gaveUp _ _ id ts _ _ htarget _ hsame hlog =>
    rw [List.append_cons] at hlog
    obtain ⟨hends, hold⟩ := hreg.of_append hlog fun a ha => by
      obtain ha | ha := List.mem_append.mp ha
      · exact not_acks_of_mem_stops ha
      · obtain rfl := List.mem_singleton.mp ha
        rintro ⟨_, h⟩; cases h
    refine Or.inr ⟨hold, hsame _, fun hmem => Or.inl ?_⟩
    rw [htarget]
    refine mem_dropWhere.mpr ⟨hmem, fun h => ?_⟩
    exact hends (.gaveUp id) (List.mem_append_right _ List.mem_cons_self) (Or.inr (h.2 ▸ rfl))
  | @acked c arg n _ hn htarget _ hsame hlog =>
    rw [Standing, hlog] at hreg
    refine Or.inr ⟨hreg, hsame _, fun hmem => ?_⟩
    rw [htarget]
    by_cases h : reg.target.handle = arg.handle ∧ reg.client.id = (s.clients c).id
    · exact Or.inr ⟨c, ⟨arg, n, rfl, hn, h.1.symm⟩, h.2.symm⟩
    · exact Or.inl (mem_dropWhere.mpr ⟨hmem, h⟩)

/-! ## Every run -/

theorem standing_refresh : (s.refresh e).Standing reg ↔ s.Standing reg := by
  obtain ⟨lines, gens, h, -⟩ := s.refresh_eq e
  rw [h]
  rfl

theorem registrationsKept_step (hn : s.Named) (hs : s.RegistrationsKept) (h : step s e = some s')
    (hack : s.NoLateAck e) : s'.RegistrationsKept := by
  intro reg hreg
  obtain ⟨hmem, -⟩ | ⟨hold, -, hstays⟩ := (step_effect hn h).standing hreg
  · exact hmem
  · rw [standing_refresh] at hold
    obtain ⟨lines, gens, hr, -⟩ := s.refresh_eq e
    rw [hr] at hstays
    obtain hmem | ⟨c, hc, hid⟩ := hstays (hs reg hold)
    · exact hmem
    · exact (hack c reg hc hid hold).elim

/-- The standing registrations are kept, and are for the generations the targets are at. -/
structure Current (s : Enforcer) : Prop where
  named : s.Named
  kept : s.RegistrationsKept
  generation : ∀ reg, s.Standing reg → reg.target.generation = s.genOf reg.target.handle

theorem current_step (hs : s.Current) (h : step s e = some s') (hack : s.NoLateAck e)
    (hjump : s.NoJump e) : s'.Current := by
  refine ⟨named_step hs.named h, registrationsKept_step hs.named hs.kept h hack, fun reg hreg => ?_⟩
  obtain ⟨-, hgen⟩ | ⟨hold, hsame, -⟩ := (step_effect hs.named h).standing hreg
  · exact hgen
  · rw [standing_refresh] at hold
    rw [hsame, hs.generation reg hold]
    obtain ⟨lines, gens, hr, hmove⟩ := s.refresh_eq e
    have hstill : gens reg.target.handle = s.generations reg.target.handle :=
      (hmove reg.target.handle).elim (fun h => h) fun hff => hjump _ _ hff ⟨_, hs.kept reg hold⟩
    simp only [hr, genOf, hstill]

theorem tellsOfDown_step (hs : s.Current) (h : step s e = some s') : TellsOfDown s e s' := by
  rintro t st k w rfl reg hreg rfl
  obtain ⟨-, -, -, downs, -, htold, hlog⟩ := down_spec hs.named h
  obtain ⟨arg, hmem, ht, hgen⟩ := htold _ (hs.kept reg hreg)
  refine ⟨.stopMonitoring reg.target.handle :: (downs ++ [.observeDown reg.target.handle]), arg,
    ?_, ?_, ht, hgen.trans (hs.generation reg hreg).symm⟩
  · rw [hlog, List.append_cons]; rfl
  · exact List.mem_cons_of_mem _ (List.mem_append_left _ hmem)

/-- **No lost registration.**  Every registration is kept, in every state of a run, exactly if no
acknowledgement of a down report meets a standing registration of its client for its target; and if
besides the layer moves no generation under clients, each down is told to every standing
registration under the generation it was acknowledged for. -/
theorem registration_kept (gv : List GenNo) (gens : Handle → GenNo) (es : List Event) :
    (Run.Always step RegistrationsKept (init gv gens) es ↔
        Run.Along step (fun s e _ => s.NoLateAck e) (init gv gens) es) ∧
      (Run.Along step (fun s e _ => s.NoLateAck e ∧ s.NoJump e) (init gv gens) es →
        Run.Along step TellsOfDown (init gv gens) es) := by
  have hinit : ∀ reg, ¬ (init gv gens).Standing reg := fun _ h => h
  constructor
  · refine Run.always_iff_of_inv (I := fun s => s.Named ∧ s.RegistrationsKept) (fun s hs => hs.2)
      (fun s e s' h hs hC => ⟨named_step hs.1 h, registrationsKept_step hs.1 hs.2 h hC⟩) ?_
      ⟨named_init gv gens, fun reg h => (hinit reg h).elim⟩
    rintro s e s' h hs hkept c reg ⟨arg, n, rfl, hn, ht⟩ hid hreg
    obtain ⟨htarget, hlog⟩ := acked_spec h hn
    have hmem := hkept reg (by rwa [Standing, hlog])
    rw [htarget, mem_dropWhere] at hmem
    exact hmem.2 ⟨ht.symm, hid.symm⟩
  · refine Run.Along.of_inv (I := Current) (fun s e s' h hs hC =>
      ⟨current_step hs h hC.1 hC.2, tellsOfDown_step hs h⟩) es _ ?_
    exact ⟨named_init gv gens, fun reg h => (hinit reg h).elim, fun reg h => (hinit reg h).elim⟩

/-- The late acknowledgement of the report about generation 0 loses the registration for generation
1, which nothing has ended. -/
theorem registration_lost :
    ¬ Run.Always step RegistrationsKept (init [] fun _ => 0) lateAck := by
  intro h
  obtain ⟨s, hs, hlog, hgone⟩ : ∃ s, lateAck.foldlM step (init [] fun _ => 0) = some s ∧
      s.log.head? = some (.reply (.register (registerApp 1)) ⟨⟨"app", [1]⟩, .registerAck⟩) ∧
      (s.targetClients "app").isEmpty = true := ⟨_, rfl, by decide, by decide⟩
  have hkept := Run.always_iff_run.mp h lateAck List.prefix_rfl s hs
  obtain ⟨log, hcons⟩ := List.head?_eq_some_iff.mp hlog
  have hstanding : s.Standing (registerApp 1) := by
    rw [Standing, hcons]
    exact Or.inl ⟨[1], rfl⟩
  exact Keyed.isEmpty_iff.mp hgone _ (hkept _ hstanding)

end Enforcer

end Falcon
