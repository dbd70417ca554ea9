import Falcon.Enforcer.Registration

/-!
# Enforcer/License — who has licensed the killing of a target

`Killable(t)` asks whether `deadly_[t]` is empty, so the licences must not outlive the registrations
they came with.  Every path out of `target_clients_` erases the client from `deadly_` as well,
except `ObserveDown`, which empties the one set and leaves the other.

* `license_sound` — the licences are registrations in every state of a run exactly if no target with
  a licence goes down; and if besides no generation moves under a licence, a killable target has a
  client registered for the current generation that asked for it.
-/

namespace Falcon.Enforcer

variable {s s' : Enforcer} {e : Event} {t : Handle} {c : ClientRef} {id : ClientId}
  {reg : SpyRegisterArg}

/-- The licences are registrations. -/
def DeadlyRegistered (s : Enforcer) : Prop := ∀ t, ∀ id ∈ s.deadly t, id ∈ s.targetClients t

/-- `reg` asked for a licence and has been acknowledged for the generation its target is at, and its
client has neither cancelled nor been told of a down since. -/
structure Licensor (s : Enforcer) (reg : SpyRegisterArg) : Prop where
  lethal : reg.lethal = true
  generation : reg.target.generation = s.genOf reg.target.handle
  standing : Since (fun a => ¬ a.Releases reg.client.id reg.target.handle) (Action.Acks reg) s.log

/-- A killable target has a client, registered for its current generation, that asked for it. -/
def KillingLicensed (s : Enforcer) : Prop :=
  ∀ t, s.killable t = true → ∃ reg, s.Licensor reg ∧ reg.target.handle = t ∧
    reg.client.id ∈ s.targetClients t

/-- The event is not the down of a target that is killable. -/
def NoDeadlyDown (s : Enforcer) (e : Event) : Prop :=
  ∀ t st k w, e = .observeDown t st k w → s.killable t = false

/-- The layer moves no generation of a target that is killable. -/
def NoDeadlyJump (s : Enforcer) (e : Event) : Prop :=
  ∀ t g, e.fastForwards = some (t, g) → s.killable t = true → g = s.generations t

theorem killable_iff : s.killable t = true ↔ ∃ id, id ∈ s.deadly t := by
  rw [killable, Bool.not_eq_true', Keyed.not_isEmpty_iff]

/-! ## One event -/

theorem not_releases_of_quiet {a : Action} (h : a.Quiet) : ¬ a.Releases id t := by
  intro hr
  cases a with
  | reply req res =>
    cases req with
    | cancel arg => exact h.2 hr.1
    | _ => exact hr
  | observeDown => exact h
  | _ => exact hr

theorem not_releases_of_mem_stops {ts : List Handle} {k : ClientId} {a : Action}
    (h : a ∈ stops s k ts) : ¬ a.Releases id t := by
  obtain ⟨t', -, -, rfl⟩ := mem_stops.mp h
  exact fun h => h

theorem not_releases_of_mem_start {b : Bool} {t' : Handle} {a : Action}
    (h : a ∈ if b then [Action.startMonitoring t'] else []) : ¬ a.Releases id t := by
  split at h
  · obtain rfl := List.mem_singleton.mp h
    exact fun h => h
  · exact (List.not_mem_nil h).elim

/-- A licence stands through actions that do not release its client. -/
theorem Licensor.append {l : List Action} (h : s.Licensor reg)
    (hgen : s'.genOf reg.target.handle = s.genOf reg.target.handle) (hlog : s'.log = l ++ s.log)
    (hl : ∀ a ∈ l, ¬ a.Releases reg.client.id reg.target.handle) : s'.Licensor reg :=
  ⟨h.lethal, h.generation.trans hgen.symm, by rw [hlog]; exact h.standing.append hl⟩

/-- **Where a licence comes from**: the event has just acknowledged the registration that asks for
it; or it was there before, and then the event has neither ended the registration nor the licence.
-/
theorem Effect.deadly (h : Effect s e s') (hdown : s.NoDeadlyDown e) (hid : id ∈ s'.deadly t) :
    (∃ reg, s'.Licensor reg ∧ reg.target.handle = t ∧ reg.client.id = id ∧
        id ∈ s'.targetClients t) ∨
      id ∈ s.deadly t ∧ (id ∈ s.targetClients t → id ∈ s'.targetClients t) ∧
        ∀ reg, reg.target.handle = t → reg.client.id = id → s.Licensor reg → s'.Licensor reg := by
  cases h with
  | quiet h =>
    obtain ⟨acts, hlog, hq⟩ := h.log
    refine Or.inr ⟨h.deadly ▸ hid, fun hmem => h.targetClients ▸ hmem, fun reg _ _ hl => ?_⟩
    exact hl.append (h.genOf _) hlog fun a ha => not_releases_of_quiet (hq a ha)
  | @register arg _ myVec c _ hgen htarget hdeadly hsame hlog =>
    have hold : id ∈ s.deadly t → id ∈ s.deadly t ∧ (id ∈ s.targetClients t →
        id ∈ s'.targetClients t) ∧ ∀ reg, reg.target.handle = t → reg.client.id = id →
          s.Licensor reg → s'.Licensor reg := by
      refine fun h => ⟨h, fun hmem => ?_, fun reg _ _ hl => ?_⟩
      · rw [htarget]
        exact Keyed.mem_update_add hmem
      · rw [← List.cons_append] at hlog
        refine hl.append (hsame _) hlog fun a ha => ?_
        obtain rfl | ha := List.mem_cons.mp ha
        · exact fun h => h
        · exact not_releases_of_mem_start ha
    rw [hdeadly] at hid
    split at hid
    · next hlethal =>
      by_cases ht : t = arg.target.handle
      · subst ht
        rw [Function.update_self] at hid
        obtain rfl | hid := Keyed.mem_add.mp hid
        · refine Or.inl ⟨arg, ⟨hlethal, hgen.trans (hsame _).symm, ?_⟩, rfl, rfl, ?_⟩
          · rw [hlog]
            exact Or.inl ⟨myVec, rfl⟩
          · rw [htarget, Function.update_self]
            exact Keyed.mem_add.mpr (Or.inl rfl)
        · exact Or.inr (hold hid)
      · exact Or.inr (hold (by rwa [Function.update_of_ne ht] at hid))
    · exact Or.inr (hold hid)
  | @cancel arg _ _ _ _ htarget hdeadly hsame hlog =>
    obtain ⟨hmem, hne⟩ := mem_dropWhere.mp (hdeadly ▸ hid)
    refine Or.inr ⟨hmem, fun h => htarget ▸ mem_dropWhere.mpr ⟨h, hne⟩, fun reg ht hk hl => ?_⟩
    rw [← List.cons_append] at hlog
    refine hl.append (hsame _) hlog fun a ha => ?_
    obtain rfl | ha := List.mem_cons.mp ha
    · rintro ⟨-, hk', ht'⟩
      exact hne ⟨(ht'.trans ht).symm, (hk'.trans hk).symm⟩
    · exact not_releases_of_mem_stops ha
  | @down t' _ _ _ downs _ htarget hdeadly hsame hquiet _ hlog =>
    rw [hdeadly] at hid
    have ht : t ≠ t' := by
      rintro rfl
      have hno := hdown t _ _ _ rfl
      exact Bool.false_ne_true (hno.symm.trans (killable_iff.mpr ⟨id, hid⟩))
    refine Or.inr ⟨hid, fun h => by rwa [htarget, Function.update_of_ne ht],
      fun reg hreg _ hl => ?_⟩
    rw [List.append_cons, ← List.cons_append] at hlog
    refine hl.append (hsame _ (hreg ▸ ht)) hlog fun a ha => ?_
    obtain rfl | ha := List.mem_cons.mp ha
    · exact fun h => h
    · obtain ha | ha := List.mem_append.mp ha
      · exact not_releases_of_quiet (hquiet a ha)
      · obtain rfl := List.mem_singleton.mp ha
        exact fun h => ht (hreg.symm.trans (Eq.symm h))
  | @gaveUp _ _ k ts _ _ htarget hdeadly hsame hlog =>
    obtain ⟨hmem, hne⟩ := mem_dropWhere.mp (hdeadly ▸ hid)
    refine Or.inr ⟨hmem, fun h => htarget ▸ mem_dropWhere.mpr ⟨h, hne⟩, fun reg _ _ hl => ?_⟩
    rw [List.append_cons] at hlog
    refine hl.append (hsame _) hlog fun a ha => ?_
    obtain ha | ha := List.mem_append.mp ha
    · exact not_releases_of_mem_stops ha
    · obtain rfl := List.mem_singleton.mp ha
      exact fun h => h
  | @acked c arg n _ _ htarget hdeadly hsame hlog =>
    obtain ⟨hmem, hne⟩ := mem_dropWhere.mp (hdeadly ▸ hid)
    refine Or.inr ⟨hmem, fun h => htarget ▸ mem_dropWhere.mpr ⟨h, hne⟩, fun reg _ _ hl => ?_⟩
    exact hl.append (l := []) (hsame _) hlog fun a ha => (List.not_mem_nil ha).elim

/-! ## Every run -/

theorem noDeadlyDown_refresh (h : s.NoDeadlyDown e) : (s.refresh e).NoDeadlyDown e := by
  obtain ⟨lines, gens, hr, -⟩ := s.refresh_eq e
  rw [hr]
  exact h

theorem deadlyRegistered_step (hn : s.Named) (hs : s.DeadlyRegistered) (h : step s e = some s')
    (hdown : s.NoDeadlyDown e) : s'.DeadlyRegistered := by
  intro t id hid
  obtain ⟨-, -, -, -, hmem⟩ | ⟨hold, hstays, -⟩ :=
    (step_effect hn h).deadly (noDeadlyDown_refresh hdown) hid
  · exact hmem
  · obtain ⟨lines, gens, hr, -⟩ := s.refresh_eq e
    rw [hr] at hold hstays
    exact hstays (hs t id hold)

/-- Every licence is a registration, and its licensor is known. -/
structure Licensed (s : Enforcer) : Prop where
  named : s.Named
  registered : s.DeadlyRegistered
  licensor : ∀ t, ∀ id ∈ s.deadly t,
    ∃ reg, s.Licensor reg ∧ reg.target.handle = t ∧ reg.client.id = id

theorem licensed_step (hs : s.Licensed) (h : step s e = some s') (hdown : s.NoDeadlyDown e)
    (hjump : s.NoDeadlyJump e) : s'.Licensed := by
  refine ⟨named_step hs.named h, deadlyRegistered_step hs.named hs.registered h hdown,
    fun t id hid => ?_⟩
  obtain ⟨reg, hl, ht, hk, -⟩ | ⟨hold, -, hkeeps⟩ :=
    (step_effect hs.named h).deadly (noDeadlyDown_refresh hdown) hid
  · exact ⟨reg, hl, ht, hk⟩
  · obtain ⟨lines, gens, hr, hmove⟩ := s.refresh_eq e
    rw [hr] at hold hkeeps
    obtain ⟨reg, hl, rfl, hk⟩ := hs.licensor t id hold
    have hstill : gens reg.target.handle = s.generations reg.target.handle :=
      (hmove reg.target.handle).elim (fun h => h) fun hff =>
        hjump _ _ hff (killable_iff.mpr ⟨id, hold⟩)
    exact ⟨reg, hkeeps reg rfl hk ⟨hl.lethal, by
      simpa only [genOf, hstill] using hl.generation, hl.standing⟩, rfl, hk⟩

/-- **Licence to kill.**  `deadly_` is a subset of `target_clients_` in every state of a run exactly
if no target goes down while it is killable; and if besides the layer moves no generation of a
killable target, a target is killable only while a client that is registered for its current
generation has asked for it. -/
theorem license_sound (gv : List GenNo) (gens : Handle → GenNo) (es : List Event) :
    (Run.Always step DeadlyRegistered (init gv gens) es ↔
        Run.Along step (fun s e _ => s.NoDeadlyDown e) (init gv gens) es) ∧
      (Run.Along step (fun s e _ => s.NoDeadlyDown e ∧ s.NoDeadlyJump e) (init gv gens) es →
        Run.Always step KillingLicensed (init gv gens) es) := by
  have hinit : ∀ t, ∀ id, id ∉ (init gv gens).deadly t := fun _ id => AList.notMem_empty id
  constructor
  · refine Run.always_iff_of_inv (I := fun s => s.Named ∧ s.DeadlyRegistered) (fun s hs => hs.2)
      (fun s e s' h hs hC => ⟨named_step hs.1 h, deadlyRegistered_step hs.1 hs.2 h hC⟩) ?_
      ⟨named_init gv gens, fun t id h => (hinit t id h).elim⟩
    rintro s e s' h hs hreg t st k w rfl
    obtain ⟨htarget, hdeadly, -⟩ := down_spec hs.1 h
    refine Bool.not_eq_true _ ▸ fun hkill => ?_
    obtain ⟨id, hid⟩ := killable_iff.mp hkill
    have hmem := hreg t id (hdeadly ▸ hid)
    rw [htarget, Function.update_self] at hmem
    exact AList.notMem_empty id hmem
  · refine fun hC => Run.Always.of_inv (I := Licensed) (fun s hs t hkill => ?_)
      (fun s e s' h hs hC => licensed_step hs h hC.1 hC.2)
      ⟨named_init gv gens, fun t id h => (hinit t id h).elim, fun t id h => (hinit t id h).elim⟩ hC
    obtain ⟨id, hid⟩ := killable_iff.mp hkill
    obtain ⟨reg, hl, ht, rfl⟩ := hs.licensor t id hid
    exact ⟨reg, hl, ht, hs.registered t _ hid⟩

/-- The licence a client gave for generation 0 is still there when generation 1 begins, although the
target has no client at all. -/
def staleLicense : List Event :=
  [.request (.register ⟨⟨"app", [0]⟩, true, -1, ⟨1, 0, 7⟩⟩) ⟨none, false⟩,
   .observeDown "app" 1 false false]

theorem license_stale :
    ¬ Run.Always step DeadlyRegistered (init [] fun _ => 0) staleLicense ∧
      ¬ Run.Always step KillingLicensed (init [] fun _ => 0) staleLicense := by
  obtain ⟨s, hs, hkill, hempty⟩ : ∃ s, staleLicense.foldlM step (init [] fun _ => 0) = some s ∧
      s.killable "app" = true ∧ (s.targetClients "app").isEmpty = true :=
    ⟨_, rfl, by decide, by decide⟩
  refine ⟨fun h => ?_, fun h => ?_⟩
  · obtain ⟨id, hid⟩ := killable_iff.mp hkill
    have hreg := Run.always_iff_run.mp h staleLicense List.prefix_rfl s hs
    exact Keyed.isEmpty_iff.mp hempty id (hreg _ id hid)
  · have hlic := Run.always_iff_run.mp h staleLicense List.prefix_rfl s hs
    obtain ⟨reg, -, -, hmem⟩ := hlic "app" hkill
    exact Keyed.isEmpty_iff.mp hempty _ hmem

end Falcon.Enforcer
