import Falcon.Process.Records

/-!
# Process/Incarnations — generations and the processes that bear one name

The generation of a handle moves with `ObserveDown` only, and `ClientAcceptor` replaces a process
without touching it: whoever could be registered for just before a replacement can be registered for
just after it.

* `incarnations_fenced` — a generation belongs to one process object in the runs without a
  replacement and in no other; and where every process that is replaced was reported down after its
  death, the generations at which it lived are below those of its successors.
-/

namespace Falcon

/-- The deed is a report on `h`. -/
def Deed.isReport (h : Handle) : Deed → Bool
  | .reported _ h' _ _ _ _ => h' = h
  | .signalled _ _ _ => false

namespace ProcessEnforcer

variable {s s' : ProcessEnforcer} {e : Event × Outside} {h : Handle} {p q : ProcRef} {r : Process}
  {A : ProcRef → Prop} {F : Fd → Prop} {gens : Handle → GenNo}

/-- `p` is installed under `h`. -/
def Current (s : ProcessEnforcer) (h : Handle) (p : ProcRef) : Prop := s.monitored h = some p

/-- `p` is installed under `h`, and in the process table. -/
def Lives (s : ProcessEnforcer) (h : Handle) (p : ProcRef) : Prop :=
  s.monitored h = some p ∧ ∃ r, s.procs p = some r ∧ s.table r.pid = true

/-- A `SPY_REGISTER`, `SPY_CANCEL` or `SPY_KILL` for `h` at the vector `v` gets past `GenCheck`. -/
def Accepts (s : ProcessEnforcer) (h : Handle) (v : List GenNo) : Prop :=
  s.core.genCheck h v (s.answer h) = .success

/-- In a run, every generation of `h` while another process than `p` is installed is above the
generations at which `L h p` was the case, and no vector that was accepted then is accepted. -/
def Fenced (L : ProcessEnforcer → Handle → ProcRef → Prop) (s : ProcessEnforcer)
    (es : List (Event × Outside)) : Prop :=
  ∀ pre mid, pre ++ mid <+: es → ∀ s₁ s₂, pre.foldlM step s = some s₁ →
    mid.foldlM step s₁ = some s₂ → ∀ h p q, L s₁ h p → s₂.monitored h = some q → p ≠ q →
    s₁.core.generations h < s₂.core.generations h ∧ ∀ v, s₁.Accepts h v → ¬ s₂.Accepts h v

/-- `p` was reported down under `h` when it was not in the process table. -/
def ReportedDead (s : ProcessEnforcer) (h : Handle) (p : ProcRef) : Prop :=
  ∃ g k told, .reported p h g k false told ∈ s.history

/-- How often `h` was reported down. -/
def reports (s : ProcessEnforcer) (h : Handle) : ℕ := s.history.countP (Deed.isReport h)

/-- The step replaces only processes reported down after their death, no new process gets the pid of
a record, and the generations do not wrap around. -/
structure Orderly (gens : Handle → GenNo) (s : ProcessEnforcer) (e : Event × Outside)
    (s' : ProcessEnforcer) : Prop where
  replaced : ∀ p h, s.Replaces e p → s.monitored h = some p → s.ReportedDead h p
  spawned : ∀ pid q r, e.1 = .spawn pid → s.procs q = some r → r.pid ≠ pid
  few : ∀ h, (gens h).toNat + s'.reports h < UInt32.size

/-! ## Runs without a replacement -/

theorem accepts_eq {v : List GenNo} (h₁ : s.Accepts h v) (h₂ : s'.Accepts h v) :
    s.core.generations h = s'.core.generations h := by
  have heq : s.core.genOf h = s'.core.genOf h :=
    (Enforcer.eq_of_genCheck h₁).symm.trans (Enforcer.eq_of_genCheck h₂)
  exact List.singleton_injective (List.append_inj_right' heq rfl)

/-- A process stays installed until it is replaced. -/
theorem current_step (h₁ : step s e = some s') (hp : s.monitored h = some p) :
    s'.monitored h = some p ∨ s.Replaces e p := by
  by_cases hrep : s.Replaces e p
  · exact Or.inr hrep
  · refine Or.inl (keeps_step (I := fun s => s.monitored h = some p) hp h₁
      (fun _ _ hm hp => hm.monitored ▸ hp) (fun _ _ => hp) (fun _ => hp)
      (fun s shake fd hnone hp => ?_) (fun h' q hq hrep' => ?_))
    · refine (Function.update_of_ne (fun hh => ?_) _ _).trans hp
      rw [hh, hnone] at hp
      cases hp
    · refine (Function.update_of_ne (fun hh => hrep ?_) _ _).trans hp
      rw [hh, hq] at hp
      exact Option.some.inj hp ▸ hrep'

/-- A replacement puts a new process in the place of `p`, at the same generation. -/
theorem Replaces.same_generation (hs : Linked s) (hrep : s.Replaces e p)
    (h₁ : ProcessEnforcer.step s e = some s') :
    ∃ h q, s.monitored h = some p ∧ s'.monitored h = some q ∧ p ≠ q ∧
      s'.core.generations h = s.core.generations h := by
  obtain ⟨shake, fd, hp, rfl⟩ := hrep.step h₁
  obtain ⟨r, hr, -⟩ := hs.record shake.handle p hp
  exact ⟨shake.handle, s.nextProc, hp, Function.update_self _ _ _,
    Nat.ne_of_lt (hs.allocated p r hr), rfl⟩

theorem linked_run {es : List (Event × Outside)} (h : es.foldlM step s = some s') (hs : Linked s) :
    Linked s' :=
  Run.foldlM_rel (r := fun s s' => Linked s → Linked s') (fun _ hs => hs)
    (fun _ _ _ h₁ h₂ hs => h₂ (h₁ hs)) (fun _ _ _ h hs => linked_step hs h) es s s' h hs

/-- A generation belongs to one process object exactly in the runs without a replacement. -/
theorem fenced_current_iff (hs : Linked s) (es : List (Event × Outside)) :
    Fenced Current s es ↔ Run.Along step (fun s e _ => ∀ p, ¬ s.Replaces e p) s es := by
  constructor
  · intro h
    refine Run.along_iff_run.mpr fun pre e hpre s₁ s₂ hs₁ hs₂ p hrep => ?_
    obtain ⟨hd, q, hp, hq, hne, hgen⟩ := hrep.same_generation (linked_run hs₁ hs) hs₂
    have hs₂' : [e].foldlM step s₁ = some s₂ := by
      simpa [List.foldlM_cons] using hs₂
    have hlt := (h pre [e] hpre s₁ s₂ hs₁ hs₂' hd p q hp hq hne).1
    exact absurd hgen (UInt32.ne_of_lt hlt).symm
  · intro h pre mid hpre s₁ s₂ hs₁ hs₂ hd p q hp hq hne
    have hstay : s₂.monitored hd = some p :=
      (h.after hpre hs₁).keeps hs₂
        (fun _ _ _ hstep hp hrep => (current_step hstep hp).resolve_right (hrep p)) hp
    exact absurd (Option.some.inj (hstay.symm.trans hq)) hne

/-! ## Reports and generations -/

/-- What a run in which no pid is used again keeps: the generation of a handle is the one it started
with, and one more for every report, and a process reported dead stays dead. -/
structure Chronicle (gens : Handle → GenNo) (s : ProcessEnforcer) : Prop where
  linked : Linked s
  named : s.core.Named
  counted : ∀ h, s.core.generations h = gens h + UInt32.ofNat (s.reports h)
  known : ∀ h p, s.ReportedDead h p → p < s.nextProc
  dead : ∀ h p r, s.ReportedDead h p → s.procs p = some r → s.table r.pid = false

theorem Chronicle.toNat_generations (hs : Chronicle gens s)
    (hfew : (gens h).toNat + s.reports h < UInt32.size) :
    (s.core.generations h).toNat = (gens h).toNat + s.reports h := by
  rw [hs.counted h, UInt32.toNat_add, UInt32.toNat_ofNat']
  rw [Nat.mod_eq_of_lt (show s.reports h < UInt32.size by omega), Nat.mod_eq_of_lt hfew]

theorem Move.history (hm : Move A F s s') : s.history <:+ s'.history := by
  cases hm with
  | stop | answered => exact (timecbRemove_history _).symm ▸ List.suffix_rfl
  | report | signal => exact List.suffix_cons _ _
  | _ => exact List.suffix_rfl

theorem Move.counted (hm : Move A F s s') (hn : s.core.Named)
    (hc : ∀ h, s.core.generations h = gens h + UInt32.ofNat (s.reports h)) :
    ∀ h, s'.core.generations h = gens h + UInt32.ofNat (s'.reports h) := by
  intro h
  cases hm with
  | base hstep hup hdown =>
    rw [Enforcer.generations_step hn hstep hup, hdown h]
    exact hc h
  | @report p r h₀ st k w hp hr =>
    have hstep : s.core.step (.observeDown h₀ st k w) = some (s.core.observeDown h₀ st k w) := rfl
    rw [Enforcer.generations_step hn hstep trivial, hc h]
    simp only [Enforcer.Event.isDown, reports, List.countP_cons, Deed.isReport]
    by_cases hh : h₀ = h
    · simp only [hh, decide_true, if_true]
      rw [UInt32.add_assoc, UInt32.ofNat_add]
      rfl
    · simp [hh]
  | signal p h g => exact hc _
  | stop | answered =>
    simp only [setProc, timecbRemove_core, reports, timecbRemove_history]
    exact hc h
  | _ => exact hc h

/-- A process is reported dead once it is not in the process table. -/
theorem Move.reportedDead (hm : Move A F s s') (hd : s'.ReportedDead h p) :
    s.ReportedDead h p ∨ ∃ r, s.procs p = some r ∧ s.table r.pid = false := by
  obtain ⟨g, k, told, hmem⟩ := hd
  cases hm with
  | @report q r h₀ st k' w hp hr =>
    obtain heq | hmem := List.mem_cons.mp hmem
    · injection heq with hpq _ _ _ htable _
      exact Or.inr ⟨r, hpq ▸ hr, htable.symm⟩
    · exact Or.inl ⟨g, k, told, hmem⟩
  | signal q h₀ g₀ =>
    obtain heq | hmem := List.mem_cons.mp hmem
    · cases heq
    · exact Or.inl ⟨g, k, told, hmem⟩
  | stop | answered => exact Or.inl ⟨g, k, told, timecbRemove_history _ ▸ hmem⟩
  | _ => exact Or.inl ⟨g, k, told, hmem⟩

/-- No move brings a process back into the process table. -/
theorem Move.table (hm : Move A F s s') {pid : Pid} (hpid : s.table pid = false) :
    s'.table pid = false := by
  cases hm with
  | exit pid' =>
    change Function.update s.table pid' false pid = false
    by_cases heq : pid = pid'
    · rw [heq, Function.update_self]
    · rwa [Function.update_of_ne heq]
  | @stop _ r | @answered _ r => cases hcb : r.cb <;> simpa [timecbRemove, setProc, hcb] using hpid
  | _ => exact hpid

theorem Chronicle.move (hs : Chronicle gens s) (hm : Move A F s s') : Chronicle gens s' := by
  refine ⟨hs.linked.move hm, hm.named hs.named, hm.counted hs.named hs.counted,
    fun h p hd => ?_, fun h p r' hd hr' => ?_⟩
  · rw [hm.nextProc]
    obtain hd | ⟨r, hr, -⟩ := hm.reportedDead hd
    · exact hs.known h p hd
    · exact hs.linked.allocated p r hr
  · obtain ⟨r, hr, hident⟩ := hm.of_procs hr'
    rw [← (Process.same_of_ident hident).2.1]
    refine hm.table ?_
    obtain hd | ⟨r₁, hr₁, htable⟩ := hm.reportedDead hd
    · exact hs.dead h p r hd hr
    · exact Option.some.inj (hr₁.symm.trans hr) ▸ htable

theorem Chronicle.install {shake : Handshake} {fd : Fd} (hs : Chronicle gens s)
    (hnone : s.monitored shake.handle = none) : Chronicle gens (s.install shake fd) := by
  refine ⟨hs.linked.install hnone, hs.named, hs.counted, fun h p hd => ?_, fun h p r hd hr => ?_⟩
  · exact Nat.lt_succ_of_lt (hs.known h p hd)
  · refine hs.dead h p r hd ?_
    exact (Function.update_of_ne (Nat.ne_of_lt (hs.known h p hd)) _ _).symm.trans hr

theorem Chronicle.remove (hs : Chronicle gens s) (hp : s.monitored h = some p) :
    Chronicle gens (s.remove h p) :=
  ⟨hs.linked.remove hp, hs.named, hs.counted, hs.known,
    fun h q r hd hr => hs.dead h q r hd (Linked.procs_remove hr).2⟩

theorem Chronicle.step (hs : Chronicle gens s) (h : ProcessEnforcer.step s e = some s')
    (hspawn : ∀ pid q r, e.1 = .spawn pid → s.procs q = some r → r.pid ≠ pid) :
    Chronicle gens s' := by
  have hlinked := hs.linked
  refine keeps_step hs h (fun _ _ hm hs => hs.move hm) (fun pid he => ?_) (fun fd => ?_)
    (fun _ _ _ hnone hs => hs.install hnone) (fun h p hp _ => hs.remove hp)
  · refine ⟨⟨hlinked.record, hlinked.installed, hlinked.allocated⟩, hs.named, hs.counted, hs.known,
      fun h q r hd hr => ?_⟩
    exact (Function.update_of_ne (hspawn pid q r he hr) _ _).trans (hs.dead h q r hd hr)
  · exact ⟨⟨hlinked.record, hlinked.installed, hlinked.allocated⟩, hs.named, hs.counted, hs.known,
      hs.dead⟩

theorem chronicle_init (gv : List GenNo) (gens : Handle → GenNo) :
    Chronicle gens (init gv gens) := by
  have hnone : ∀ h p, ¬ (init gv gens).ReportedDead h p :=
    fun h p ⟨_, _, _, hmem⟩ => (by cases hmem)
  refine ⟨linked_init gv gens, Enforcer.named_init gv gens, fun h => ?_,
    fun h p hd => (hnone h p hd).elim, fun h p _ hd _ => (hnone h p hd).elim⟩
  exact (UInt32.add_zero (gens h)).symm

theorem history_step (h : step s e = some s') : s.history <:+ s'.history :=
  keeps_step (I := fun s₁ => s.history <:+ s₁.history) List.suffix_rfl h
    (fun _ _ hm hs => hs.trans hm.history) (fun _ _ => List.suffix_rfl) (fun _ => List.suffix_rfl)
    (fun _ _ _ _ hs => hs) (fun _ _ _ _ => List.suffix_rfl)

theorem ReportedDead.mono (hd : s.ReportedDead h p) (hsuffix : s.history <:+ s'.history) :
    s'.ReportedDead h p := by
  obtain ⟨g, k, told, hmem⟩ := hd
  exact ⟨g, k, told, hsuffix.mem hmem⟩

/-- A report that was not there has been counted. -/
theorem reports_lt (hsuffix : s.history <:+ s'.history) (hnew : s'.ReportedDead h p)
    (hold : ¬ s.ReportedDead h p) : s.reports h < s'.reports h := by
  obtain ⟨l, hl⟩ := hsuffix
  obtain ⟨g, k, told, hmem⟩ := hnew
  have hmem' : .reported p h g k false told ∈ l := by
    rw [← hl] at hmem
    exact (List.mem_append.mp hmem).resolve_right fun hm => hold ⟨g, k, told, hm⟩
  have hpos : 0 < l.countP (Deed.isReport h) :=
    List.countP_pos_iff.mpr ⟨_, hmem', by simp [Deed.isReport]⟩
  rw [reports, reports, ← hl, List.countP_append]
  omega

/-- Where the replaced were reported dead, a successor is at a later generation than those at which
its predecessors lived. -/
theorem fenced_lives {es : List (Event × Outside)} (hs : Chronicle gens s)
    (hfew : ∀ h, (gens h).toNat + s.reports h < UInt32.size)
    (h : Run.Along step (Orderly gens) s es) :
    Fenced Lives s es := by
  intro pre mid hpre s₁ s₂ hs₁ hs₂ hd p q hlives hq hne
  have hpre' : [] ++ pre <+: es := (List.prefix_append pre mid).trans hpre
  obtain ⟨hchron₁, hfew₁⟩ := (h.after hpre' rfl).keeps
    (I := fun s => Chronicle gens s ∧ ∀ h, (gens h).toNat + s.reports h < UInt32.size) hs₁
    (fun s e s' hstep hI hO => ⟨hI.1.step hstep hO.spawned, hO.few⟩) ⟨hs, hfew⟩
  obtain ⟨hlive, r, hr, htable⟩ := hlives
  -- from `s₁` on, `p` stays installed until it has been reported dead
  obtain ⟨hchron₂, hfew₂, hsuffix, hgone⟩ : Chronicle gens s₂ ∧
      (∀ h, (gens h).toNat + s₂.reports h < UInt32.size) ∧ s₁.history <:+ s₂.history ∧
      (s₂.monitored hd = some p ∨ s₂.ReportedDead hd p) := by
    refine (h.after hpre hs₁).keeps (I := fun s => Chronicle gens s ∧
      (∀ h, (gens h).toNat + s.reports h < UInt32.size) ∧ s₁.history <:+ s.history ∧
      (s.monitored hd = some p ∨ s.ReportedDead hd p)) hs₂ (fun s e s' hstep hI hO => ?_)
      ⟨hchron₁, hfew₁, List.suffix_rfl, Or.inl hlive⟩
    obtain ⟨hchron, -, hsuffix, hp⟩ := hI
    have hhist := history_step hstep
    refine ⟨hchron.step hstep hO.spawned, hO.few, hsuffix.trans hhist, ?_⟩
    obtain hp | hdead := hp
    · exact (current_step hstep hp).imp_right fun hrep => (hO.replaced p hd hrep hp).mono hhist
    · exact Or.inr (hdead.mono hhist)
  have hdead₂ : s₂.ReportedDead hd p :=
    hgone.resolve_left fun hp => hne (Option.some.inj (hp.symm.trans hq))
  have hdead₁ : ¬ s₁.ReportedDead hd p := fun hdead => by
    rw [hchron₁.dead hd p r hdead hr] at htable
    cases htable
  have hlt : s₁.core.generations hd < s₂.core.generations hd := by
    have hcount := reports_lt hsuffix hdead₂ hdead₁
    rw [UInt32.lt_iff_toNat_lt, hchron₁.toNat_generations (hfew₁ hd),
      hchron₂.toNat_generations (hfew₂ hd)]
    omega
  exact ⟨hlt, fun v hv₁ hv₂ => UInt32.ne_of_lt hlt (accepts_eq hv₁ hv₂)⟩

/-! ## Runs -/

/-- **A generation identifies one process object in no run with a replacement**, and in every run
without; but where every process that is replaced has been reported down after its death, a request
addressed to a process while it lived is accepted for no other process under its name. -/
theorem incarnations_fenced (gv : List GenNo) (gens : Handle → GenNo)
    (es : List (Event × Outside)) :
    (Fenced Current (init gv gens) es ↔
      Run.Along step (fun s e _ => ∀ p, ¬ s.Replaces e p) (init gv gens) es) ∧
    (Run.Along step (Orderly gens) (init gv gens) es → Fenced Lives (init gv gens) es) := by
  refine ⟨fenced_current_iff (linked_init gv gens) es,
    fenced_lives (chronicle_init gv gens) fun h => ?_⟩
  simpa [reports, init] using (gens h).toNat_lt

/-- The process `"app"` exits while nobody monitors it, and its successor connects. -/
def unnoticedExit : List (Event × Outside) :=
  [(.spawn 7, obliging), (.accept 3, obliging),
   (.handshake 3 (some ⟨"app", 7, 1000, delayRealtime⟩), obliging),
   (.exit 7, obliging), (.spawn 8, obliging), (.accept 4, obliging),
   (.handshake 4 (some ⟨"app", 8, 1000, delayRealtime⟩), obliging)]

/-- The two processes live at the same generation, and a `SPY_KILL` for the first is accepted for
the second. -/
theorem successor_at_same_generation :
    ¬ Fenced Current (init [4, 2] fun _ => 0) unnoticedExit ∧
      ¬ Fenced Lives (init [4, 2] fun _ => 0) unnoticedExit ∧
      ∃ s, unnoticedExit.foldlM step (init [4, 2] fun _ => 0) = some s ∧
        s.monitored "app" = some 1 ∧ s.Accepts "app" [4, 2, 0] := by
  have hpre : unnoticedExit.take 3 ++ unnoticedExit.drop 3 <+: unnoticedExit := by simp
  have hfirst : ∃ s₁, (unnoticedExit.take 3).foldlM step (init [4, 2] fun _ => 0) = some s₁ ∧
      s₁.monitored "app" = some 0 ∧ s₁.procs 0 = some ⟨"app", 7, 0, 1000, 3, none, 0, false⟩ ∧
      s₁.table 7 = true ∧ s₁.core.generations "app" = 0 ∧
      ∃ s₂, (unnoticedExit.drop 3).foldlM step s₁ = some s₂ ∧ s₂.monitored "app" = some 1 ∧
        s₂.core.generations "app" = 0 :=
    ⟨_, rfl, by decide, by decide, by decide, by decide, _, rfl, by decide, by decide⟩
  obtain ⟨s₁, hs₁, hp, hr, htable, hgen₁, s₂, hs₂, hq, hgen₂⟩ := hfirst
  refine ⟨fun h => ?_, fun h => ?_, _, rfl, by decide, rfl⟩
  · have hlt := (h _ _ hpre s₁ s₂ hs₁ hs₂ "app" 0 1 hp hq (by decide)).1
    rw [hgen₁, hgen₂] at hlt
    exact absurd hlt (by decide)
  · have hlt := (h _ _ hpre s₁ s₂ hs₁ hs₂ "app" 0 1 ⟨hp, _, hr, htable⟩ hq (by decide)).1
    rw [hgen₁, hgen₂] at hlt
    exact absurd hlt (by decide)

end ProcessEnforcer

end Falcon
