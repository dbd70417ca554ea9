import Falcon.Enforcer.Effect

/-!
# Enforcer/Generations — a generation that was reported down is fenced

An enforcer whose layer leaves the generations alone (`UpdateGenerations` does nothing, as for
virtual machine monitors and processes) counts a target's downs: `ObserveDown` is the only event
that moves `generations_`.

* `generations_run` — the number of a target is what it was, and one more for every down.
* `stale_generation_fenced` — a vector that was reported down, or one below it, passes `GenCheck`
  never again.
-/

namespace Falcon

/-- The target `GenCheck` holds a request against. -/
def Request.checked : Request → Option TargetT
  | .register arg => some arg.target
  | .cancel arg => some arg.target
  | .kill target => some target
  | .null | .getGen _ => none

namespace Enforcer

variable {s s' : Enforcer} {e : Event} {t : Handle} {es : List Event}

/-- The layer's `UpdateGenerations` does nothing during the event. -/
def Event.NoUpdate : Event → Prop
  | .request _ layer => layer.newGen = none
  | _ => True

/-- The event is an `ObserveDown(t)`. -/
def Event.isDown (t : Handle) : Event → Bool
  | .observeDown t' _ _ _ => t' = t
  | _ => false

theorem refresh_of_noUpdate (he : e.NoUpdate) : s.refresh e = s := by
  have hnone : e.fastForwards = none := by
    cases e with
    | request req layer =>
      have hgen : layer.newGen = none := he
      cases req <;> simp [Event.fastForwards, hgen]
    | _ => rfl
  rw [refresh, hnone]

/-! ## Downs are counted -/

theorem generations_of_genOf (h : ∀ t, s'.genOf t = s.genOf t) : s'.generations = s.generations :=
  funext fun t => List.singleton_injective (List.append_inj_right' (h t) rfl)

/-- Only a down moves a generation. -/
theorem Effect.generations (h : Effect s e s') :
    s'.generations = s.generations ∨ ∃ t st k w, e = .observeDown t st k w := by
  cases h with
  | quiet hq => exact Or.inl hq.generations
  | register _ _ _ hsame _ | cancel _ _ _ hsame _ => exact Or.inl (generations_of_genOf hsame)
  | gaveUp _ _ _ hsame _ | acked _ _ _ hsame _ => exact Or.inl (generations_of_genOf hsame)
  | @down t st k w => exact Or.inr ⟨t, st, k, w, rfl⟩

/-- What one event does to the generations. -/
theorem generations_step (hs : Named s) (h : step s e = some s') (he : e.NoUpdate) :
    s'.generations t = if e.isDown t then s.generations t + 1 else s.generations t := by
  have hdown : ∀ t' st k w, (s.observeDown t' st k w).generations t =
      if t' = t then s.generations t + 1 else s.generations t := by
    intro t' st k w
    rw [observeDown_eq]
    by_cases ht : t' = t
    · simp [ht]
    · simp [ht, Function.update_of_ne (Ne.symm ht)]
  by_cases hd : ∃ t' st k w, e = .observeDown t' st k w
  · obtain ⟨t', st, k, w, rfl⟩ := hd
    obtain rfl := Option.some.inj h
    simpa [Event.isDown] using hdown t' st k w
  · have hnot : e.isDown t = false := by
      cases e with
      | observeDown t' st k w => exact (hd ⟨t', st, k, w, rfl⟩).elim
      | _ => rfl
    have heffect := step_effect hs h
    rw [refresh_of_noUpdate he] at heffect
    rw [heffect.generations.resolve_right hd, hnot]
    rfl

/-- **The number of a target is what it was, and one more for every down**, as long as it does not
wrap around. -/
theorem generations_run (hs : Named s) (h : es.foldlM step s = some s')
    (hes : ∀ e ∈ es, e.NoUpdate)
    (hfew : (s.generations t).toNat + es.countP (Event.isDown t) < UInt32.size) :
    (s'.generations t).toNat = (s.generations t).toNat + es.countP (Event.isDown t) := by
  induction es generalizing s with
  | nil => obtain rfl := Option.some.inj h; rfl
  | cons e es ih =>
    rw [List.foldlM_cons] at h
    obtain ⟨s₁, hs₁, h⟩ := Option.bind_eq_some_iff.mp h
    have hgen := generations_step (t := t) hs hs₁ (hes e List.mem_cons_self)
    rw [List.countP_cons] at hfew ⊢
    have hone : (s₁.generations t).toNat =
        (s.generations t).toNat + if e.isDown t then 1 else 0 := by
      rw [hgen]
      split
      · next hd =>
        rw [if_pos hd] at hfew
        have hlt : (s.generations t).toNat + (1 : UInt32).toNat < UInt32.size := by
          rw [UInt32.toNat_one]
          omega
        rw [UInt32.toNat_add, Nat.mod_eq_of_lt hlt]
        rfl
      · rfl
    rw [ih (named_step hs hs₁) h (fun e he => hes e (List.mem_cons_of_mem _ he)) (by omega)]
    omega

theorem named_run (hs : Named s) (h : es.foldlM step s = some s') :
    Named s' ∧ s'.genVec = s.genVec := by
  refine Run.foldlM_rel (r := fun s s' => Named s → Named s' ∧ s'.genVec = s.genVec)
    (fun _ hs => ⟨hs, rfl⟩) (fun s₁ s₂ s₃ h₁₂ h₂₃ hs => ?_)
    (fun s e s' h hs => ⟨named_step hs h, genVec_step hs h⟩) es s s' h hs
  obtain ⟨hs₂, hvec⟩ := h₁₂ hs
  exact ⟨(h₂₃ hs₂).1, (h₂₃ hs₂).2.trans hvec⟩

/-! ## What is refused -/

/-- **A request that does not pass `GenCheck` is refused**: it is neither acknowledged nor handed to
`Kill`. -/
theorem dispatch_refused {req : Request} {target : TargetT} {layer : LayerAnswer}
    (hreq : req.checked = some target)
    (hcheck : (s.updateGenerations target.handle layer).genCheck target.handle target.generation
      layer ≠ .success) :
    ∀ a ∈ s.newer (s.dispatch req layer), (∀ t, a ≠ .kill t) ∧
      ∀ r res, a = .reply r res → res.status ∉ [.registerAck, .cancelAck, .killAck] := by
  set s₁ := s.updateGenerations target.handle layer with hs₁
  have hlog : s₁.log = s.log := by
    obtain ⟨lines, hup⟩ := updateGenerations_eq target.handle layer s
    rw [hs₁, hup]
  have hmem := genCheck_mem (s := s₁) (t := target.handle) target.generation layer
  obtain ⟨status, hstatus⟩ : ∃ status,
      s₁.genCheck target.handle target.generation layer = status := ⟨_, rfl⟩
  rw [hstatus] at hcheck hmem
  have hdispatch : s.dispatch req layer =
      s₁.note (.reply req ⟨⟨target.handle, s.genOf target.handle⟩, status⟩) := by
    cases req with
    | null => cases hreq
    | getGen _ => cases hreq
    | register arg | cancel arg | kill target' =>
      obtain rfl := Option.some.inj hreq
      unfold dispatch
      dsimp only
      rw [← hs₁, hstatus]
      cases status with
      | success => exact (hcheck rfl).elim
      | _ => rfl
  rw [hdispatch, newer_of_log (l := [_]) (congrArg _ hlog)]
  intro a ha
  obtain rfl := List.mem_singleton.mp ha
  refine ⟨nofun, fun r res h => ?_⟩
  obtain ⟨-, rfl⟩ := Action.reply.inj h
  simp only [List.mem_cons, List.not_mem_nil, or_false] at hmem
  obtain rfl | rfl | rfl | rfl | rfl := hmem <;> simp

/-- **Stale generations are fenced.**  Once `ObserveDown(t)` has reported the vector of `t`, no
request for `t` with a vector that is lexicographically at most that one passes `GenCheck` again: it
is not acknowledged, and does not reach `Kill`.  The downs of `t` are those of the run and those the
generation log had recorded before it. -/
theorem stale_generation_fenced (gv : List GenNo) (gens : Handle → GenNo) (pre mid : List Event)
    (s s' : Enforcer) (t : Handle) (st : UInt32) (k w : Bool) (req : Request) (q : List GenNo)
    (layer : LayerAnswer)
    (hpre : pre.foldlM step (init gv gens) = some s)
    (hmid : (.observeDown t st k w :: mid).foldlM step s = some s')
    (hnoop : ∀ e ∈ pre ++ .observeDown t st k w :: mid, e.NoUpdate) (hlayer : layer.newGen = none)
    (hfew : (gens t).toNat + (pre ++ .observeDown t st k w :: mid).countP (Event.isDown t) <
      UInt32.size)
    (hreq : req.checked = some ⟨t, q⟩) (hle : q ≤ s.genOf t) :
    s'.genCheck t q layer ≠ .success ∧
      ∀ a ∈ s'.newer (s'.dispatch req layer), (∀ t', a ≠ .kill t') ∧
        ∀ r res, a = .reply r res → res.status ∉ [.registerAck, .cancelAck, .killAck] := by
  rw [List.countP_append] at hfew
  have hdown : 0 < (.observeDown t st k w :: mid).countP (Event.isDown t) := by
    rw [List.countP_cons_of_pos (by simp [Event.isDown])]
    exact Nat.succ_pos _
  have hnamed := (named_run (named_init gv gens) hpre).1
  have hbefore : (s.generations t).toNat = (gens t).toNat + pre.countP (Event.isDown t) :=
    generations_run (named_init gv gens) hpre (fun e he => hnoop e (List.mem_append_left _ he))
      (by change (gens t).toNat + _ < _; omega)
  have hafter := generations_run (t := t) hnamed hmid
    (fun e he => hnoop e (List.mem_append_right _ he)) (by omega)
  have hnewer : s.genOf t < s'.genOf t := by
    rw [genOf, genOf, (named_run hnamed hmid).2]
    refine List.append_left_lt (List.cons_lt_cons_iff.mpr (Or.inl ?_))
    exact UInt32.lt_iff_toNat_lt.mpr (by omega)
  have hcheck : s'.genCheck t q layer ≠ .success := fun h =>
    absurd (eq_of_genCheck h ▸ hle) (List.not_le.mpr hnewer)
  have hsame : s'.updateGenerations t layer = s' := by rw [updateGenerations, hlayer]
  exact ⟨hcheck, dispatch_refused hreq (hsame.symm ▸ hcheck)⟩

/-- The target of `registerApp` is down once, and a client still asks to kill generation 0. -/
theorem stale_generation_fenced_kill : ∃ s s',
    [.request (.register (registerApp 0)) ⟨none, false⟩].foldlM step (init [] fun _ => 0) = some s ∧
      [.observeDown "app" 1 false false, .observeUp "app"].foldlM step s = some s' ∧
      s'.genCheck "app" [0] ⟨none, false⟩ ≠ .success ∧
      ∀ a ∈ s'.newer (s'.dispatch (.kill ⟨"app", [0]⟩) ⟨none, false⟩), (∀ t, a ≠ .kill t) ∧
        ∀ r res, a = .reply r res → res.status ∉ [.registerAck, .cancelAck, .killAck] :=
  ⟨_, _, rfl, rfl, stale_generation_fenced [] (fun _ => 0)
    [.request (.register (registerApp 0)) ⟨none, false⟩] [.observeUp "app"] _ _ "app" 1 false false
    (.kill ⟨"app", [0]⟩) [0] ⟨none, false⟩ rfl rfl (by simp [Event.NoUpdate]) rfl (by decide) rfl
    (by decide)⟩

end Enforcer

end Falcon
