import Falcon.Process.Moves

/-!
# Process/Records — the callbacks that carry a `Process`

A record is behind the timers of its probes, the poll timer and the callback on its socket; it is
deleted when `ClientAcceptor` replaces it by a record for a new process of the same name.  Of the
timers only the last one armed for a probe is remembered in the record, and `StopMonitoring` removes
only that one: a poll timer and the callback on the socket stay.

* `callbacks_held_iff` — every callback carries an installed record, in every state of a run,
  exactly if no record is replaced that a callback still carries.
-/

namespace Falcon.ProcessEnforcer

variable {s s' : ProcessEnforcer} {e : Event × Outside} {h : Handle} {p : ProcRef} {r : Process}
  {A : ProcRef → Prop} {F : Fd → Prop} {t : TimerRef} {x : Timer} {fd : Fd}

/-- `monitored_[handle of p] = p`. -/
def Installed (s : ProcessEnforcer) (p : ProcRef) : Prop :=
  ∃ r, s.procs p = some r ∧ s.monitored r.handle = some p

/-- Every timer and every socket callback that carries a record carries an installed one. -/
structure CallbacksHeld (s : ProcessEnforcer) : Prop where
  timers : ∀ t x p, s.timers.lookup t = some x → x.owner = some p → s.Installed p
  fdcbs : ∀ fd p, s.fdcbs fd = some (.processResponse p) → s.Installed p

/-- No timer and no socket callback carries `p`. -/
structure Free (s : ProcessEnforcer) (p : ProcRef) : Prop where
  timers : ∀ t x, s.timers.lookup t = some x → x.owner ≠ some p
  fdcbs : ∀ fd, s.fdcbs fd ≠ some (.processResponse p)

/-- The event is a handshake on which `ClientAcceptor` replaces `p`, which is inactive and dead. -/
def Replaces (s : ProcessEnforcer) (e : Event × Outside) (p : ProcRef) : Prop :=
  ∃ fd hs r, e.1 = .handshake fd (some hs) ∧ s.monitored hs.handle = some p ∧
    s.procs p = some r ∧ r.active = false ∧ s.table r.pid = false

/-! ## Records and handles -/

/-- The records are those installed, each under its handle, and no new one has been allocated yet.
-/
structure Linked (s : ProcessEnforcer) : Prop where
  record : ∀ h p, s.monitored h = some p → ∃ r, s.procs p = some r ∧ r.handle = h
  installed : ∀ p r, s.procs p = some r → s.monitored r.handle = some p
  allocated : ∀ p r, s.procs p = some r → p < s.nextProc

theorem Move.nextProc (hm : Move A F s s') : s'.nextProc = s.nextProc := by
  cases hm with
  | stop | answered => exact timecbRemove_nextProc _
  | _ => rfl

/-- The base class keeps its tables in order. -/
theorem Move.named (hm : Move A F s s') (hn : s.core.Named) : s'.core.Named := by
  cases hm with
  | base hc _ _ => exact Enforcer.named_step hn hc
  | @report _ _ h st k w _ _ => exact Enforcer.named_step (e := .observeDown h st k w) hn rfl
  | stop | answered => exact (timecbRemove_core (s := s) _).symm ▸ hn
  | _ => exact hn

theorem Linked.move (hs : Linked s) (hm : Move A F s s') : Linked s' := by
  refine ⟨fun h p hp => ?_, fun p r' hr' => ?_, fun p r' hr' => ?_⟩
  · obtain ⟨r, hr, hh⟩ := hs.record h p (hm.monitored ▸ hp)
    obtain ⟨r', hr', hident⟩ := hm.procs_of hr
    exact ⟨r', hr', (Process.same_of_ident hident).1.trans hh⟩
  · obtain ⟨r, hr, hident⟩ := hm.of_procs hr'
    rw [hm.monitored, ← (Process.same_of_ident hident).1]
    exact hs.installed p r hr
  · obtain ⟨r, hr, -⟩ := hm.of_procs hr'
    rw [hm.nextProc]
    exact hs.allocated p r hr

/-! ## Callbacks -/

theorem lookup_delaycb {y : Timer} (hx : (s.delaycb y).timers.lookup t = some x) :
    s.timers.lookup t = some x ∨ t = s.nextTimer ∧ x = y := by
  by_cases ht : t = s.nextTimer
  · subst ht
    simp only [delaycb, AList.lookup_insert, Option.some.injEq] at hx
    exact Or.inr ⟨rfl, hx.symm⟩
  · simp only [delaycb, AList.lookup_insert_ne ht] at hx
    exact Or.inl hx

/-- A timer is an old one, or one a move has armed for a record it probes. -/
theorem Move.timers (hm : Move A F s s') (hx : s'.timers.lookup t = some x) :
    s.timers.lookup t = some x ∨ t = s.nextTimer ∧ s.nextTimer < s'.nextTimer ∧
      ∀ p, x.owner = some p → A p ∧ ∃ r, s.procs p = some r := by
  have hnew : ∀ y : Timer, (∀ p, y.owner = some p → A p ∧ ∃ r, s.procs p = some r) →
      (s.delaycb y).timers.lookup t = some x → s.timers.lookup t = some x ∨
        t = s.nextTimer ∧ s.nextTimer < s.nextTimer + 1 ∧
          ∀ p, x.owner = some p → A p ∧ ∃ r, s.procs p = some r := by
    intro y hy hx
    refine (lookup_delaycb hx).imp_right ?_
    rintro ⟨ht, rfl⟩
    exact ⟨ht, Nat.lt_succ_self _, hy⟩
  cases hm with
  | stop hr | answered hr _ => exact Or.inl (lookup_timecbRemove _ hx)
  | expire _ _ => exact Or.inl (Keyed.lookup_of_lookup_erase hx)
  | confirm h k w sig => exact hnew _ (fun p hp => by cases hp) hx
  | @poll p r hr hA =>
    exact hnew (.probeProcess p) (fun q hq => Option.some.inj hq ▸ ⟨hA, r, hr⟩) hx
  | @rearm p r startTime hr hA =>
    exact hnew (.checkCPUTime p startTime) (fun q hq => Option.some.inj hq ▸ ⟨hA, r, hr⟩) hx
  | @probe p r _ y hr hA _ ht =>
    refine hnew y (fun q hq => ?_) hx
    obtain rfl := Option.some.inj ((owner_probeTimer ht).symm.trans hq)
    exact ⟨hA, r, hr⟩
  | _ => exact Or.inl hx

/-- A callback for answers is an old one, or one a move has installed on a record's own socket. -/
theorem Move.fdcbs (hm : Move A F s s') (hp : s'.fdcbs fd = some (.processResponse p)) :
    s.fdcbs fd = some (.processResponse p) ∨ A p ∧ ∃ r, s.procs p = some r ∧ r.fd = fd := by
  have hoff : ∀ fd', (Function.update s.fdcbs fd' none) fd = some (.processResponse p) →
      s.fdcbs fd = some (.processResponse p) := by
    intro fd' h
    by_cases hfd : fd = fd'
    · subst hfd
      rw [Function.update_self] at h
      cases h
    · rwa [Function.update_of_ne hfd] at h
  cases hm with
  | stop hr | answered hr _ => exact Or.inl ((congrFun (timecbRemove_fdcbs _) fd).symm.trans hp)
  | close fd' | mute _ _ => exact Or.inl (hoff _ hp)
  | @probe q r _ _ hr hA _ ht =>
    change Function.update s.fdcbs r.fd (some (.processResponse q)) fd = _ at hp
    by_cases hfd : fd = r.fd
    · subst hfd
      rw [Function.update_self] at hp
      obtain rfl := FdCallback.processResponse.inj (Option.some.inj hp)
      exact Or.inr ⟨hA, r, hr, rfl⟩
    · rw [Function.update_of_ne hfd] at hp
      exact Or.inl hp
  | _ => exact Or.inl hp

theorem Linked.installed_of (hs : Linked s) (hr : s.procs p = some r) : s.Installed p :=
  ⟨r, hr, hs.installed p r hr⟩

/-- What a run keeps. -/
structure Held (s : ProcessEnforcer) : Prop where
  linked : Linked s
  callbacks : CallbacksHeld s

theorem Held.move (hs : Held s) (hm : Move A F s s') : Held s' := by
  have hlinked := hs.linked.move hm
  have hstay : ∀ p, (∃ r, s.procs p = some r) → s'.Installed p := by
    rintro p ⟨r, hr⟩
    obtain ⟨r', hr', -⟩ := hm.procs_of hr
    exact hlinked.installed_of hr'
  refine ⟨hlinked, fun t x p hx hp => hstay p ?_, fun fd p hp => hstay p ?_⟩
  · obtain hx | ⟨-, -, hx⟩ := hm.timers hx
    · exact (hs.callbacks.timers t x p hx hp).imp fun r hr => hr.1
    · exact (hx p hp).2
  · obtain hp | ⟨-, r, hr, -⟩ := hm.fdcbs hp
    · exact (hs.callbacks.fdcbs fd p hp).imp fun r hr => hr.1
    · exact ⟨r, hr⟩

/-! ## New processes -/

/-- **What a handshake does**: it closes the descriptor, installs a record under a new handle, or
replaces a record. -/
theorem clientAcceptor_cases {hs : Option Handshake} (h : s.clientAcceptor fd hs = some s') :
    s' = s.close fd ∨
      (∃ shake, hs = some shake ∧ s.monitored shake.handle = none ∧ s' = s.install shake fd) ∨
      ∃ shake p r, hs = some shake ∧ s.monitored shake.handle = some p ∧ s.procs p = some r ∧
        r.active = false ∧ s.table r.pid = false ∧
        s' = { s with procs := Function.update s.procs p none }.install shake fd := by
  unfold clientAcceptor at h
  split at h
  · exact Or.inl (Option.some.inj h).symm
  · next shake =>
    split at h
    · next hnone => exact Or.inr (Or.inl ⟨shake, rfl, hnone, (Option.some.inj h).symm⟩)
    · next p hp =>
      obtain ⟨r, hr, h⟩ := Option.bind_eq_some_iff.mp h
      split at h
      · next hdead =>
        exact Or.inr (Or.inr ⟨shake, p, r, rfl, hp, hr, hdead.1, hdead.2, (Option.some.inj h).symm⟩)
      · exact Or.inl (Option.some.inj h).symm

/-- A record is installed under a handle that has none. -/
theorem Linked.install {shake : Handshake} (hs : Linked s)
    (hnone : s.monitored shake.handle = none) : Linked (s.install shake fd) := by
  have hnew : (s.install shake fd).procs s.nextProc = some (shake.process fd) :=
    Function.update_self _ _ _
  have hold : ∀ q ≠ s.nextProc, (s.install shake fd).procs q = s.procs q := fun q hq =>
    Function.update_of_ne hq _ _
  refine ⟨fun h q hq => ?_, fun q r hr => ?_, fun q r hr => ?_⟩
  · change Function.update s.monitored shake.handle (some s.nextProc) h = some q at hq
    by_cases hh : h = shake.handle
    · subst hh
      rw [Function.update_self] at hq
      exact ⟨_, Option.some.inj hq ▸ hnew, rfl⟩
    · rw [Function.update_of_ne hh] at hq
      obtain ⟨r, hr, hrh⟩ := hs.record h q hq
      exact ⟨r, (hold q (Nat.ne_of_lt (hs.allocated q r hr))).trans hr, hrh⟩
  · change Function.update s.monitored shake.handle (some s.nextProc) r.handle = some q
    by_cases hq : q = s.nextProc
    · subst hq
      obtain rfl := Option.some.inj (hnew.symm.trans hr)
      exact Function.update_self _ _ _
    · rw [hold q hq] at hr
      have hmon := hs.installed q r hr
      rw [Function.update_of_ne (fun h => ?_)]
      · exact hmon
      · rw [h, hnone] at hmon
        cases hmon
  · by_cases hq : q = s.nextProc
    · exact hq ▸ Nat.lt_succ_self _
    · exact Nat.lt_succ_of_lt (hs.allocated q r ((hold q hq).symm.trans hr))

theorem Held.install {shake : Handshake} (hs : Held s) (hnone : s.monitored shake.handle = none) :
    Held (s.install shake fd) := by
  have hlinked : Linked (s.install shake fd) := hs.linked.install hnone
  have hstay : ∀ q, s.Installed q → (s.install shake fd).Installed q := by
    rintro q ⟨r, hr, -⟩
    have hq := Nat.ne_of_lt (hs.linked.allocated q r hr)
    exact hlinked.installed_of (r := r) ((Function.update_of_ne hq _ _).trans hr)
  exact ⟨hlinked, fun t x q hx hq => hstay q (hs.callbacks.timers t x q hx hq),
    fun fd' q hq => hstay q (hs.callbacks.fdcbs fd' q hq)⟩

/-- The record `p`, installed under `h`, is deleted. -/
def remove (h : Handle) (p : ProcRef) (s : ProcessEnforcer) : ProcessEnforcer :=
  { s with
    procs := Function.update s.procs p none
    monitored := Function.update s.monitored h none }

/-- A replacement is a deletion and an installation. -/
theorem install_remove {shake : Handshake} :
    (s.remove shake.handle p).install shake fd =
      { s with procs := Function.update s.procs p none }.install shake fd := by
  simp [ProcessEnforcer.install, remove, setProc]

/-- After its replacement a record is gone. -/
theorem not_installed_replaced {shake : Handshake} (hp : p < s.nextProc) :
    ¬ ((s.remove shake.handle p).install shake fd).Installed p := by
  rintro ⟨r, hr, -⟩
  have hnew := Function.update_of_ne (Nat.ne_of_lt hp) (some (shake.process fd))
    (s.remove shake.handle p).procs
  have hgone : (s.remove shake.handle p).procs p = none := Function.update_self _ _ _
  exact nomatch (hnew.trans hgone).symm.trans hr

theorem Linked.procs_remove {q : ProcRef} (hr : (s.remove h p).procs q = some r) :
    q ≠ p ∧ s.procs q = some r := by
  change Function.update s.procs p none q = some r at hr
  by_cases hq : q = p
  · subst hq
    rw [Function.update_self] at hr
    cases hr
  · exact ⟨hq, (Function.update_of_ne hq _ _).symm.trans hr⟩

theorem Linked.remove (hs : Linked s) (hp : s.monitored h = some p) : Linked (s.remove h p) := by
  refine ⟨fun h' q hq => ?_, fun q r hr => ?_, fun q r hr => ?_⟩
  · change Function.update s.monitored h none h' = some q at hq
    by_cases hh : h' = h
    · subst hh
      rw [Function.update_self] at hq
      cases hq
    · rw [Function.update_of_ne hh] at hq
      obtain ⟨r, hr, hrh⟩ := hs.record h' q hq
      refine ⟨r, (Function.update_of_ne (fun hqp => hh ?_) _ _).trans hr, hrh⟩
      subst hqp
      obtain ⟨r', hr', hrh'⟩ := hs.record h q hp
      obtain rfl := Option.some.inj (hr.symm.trans hr')
      exact hrh.symm.trans hrh'
  · obtain ⟨hqp, hr⟩ := procs_remove hr
    have hmon := hs.installed q r hr
    refine (Function.update_of_ne (fun hh => hqp ?_) _ _).trans hmon
    rw [hh, hp] at hmon
    exact (Option.some.inj hmon).symm
  · exact hs.allocated q r (procs_remove hr).2

/-- A record no callback carries can be deleted. -/
theorem Held.remove (hs : Held s) (hp : s.monitored h = some p) (hfree : s.Free p) :
    Held (s.remove h p) := by
  have hlinked := hs.linked.remove hp
  have hstay : ∀ q ≠ p, s.Installed q → (s.remove h p).Installed q := by
    rintro q hq ⟨r, hr, -⟩
    exact hlinked.installed_of (r := r) ((Function.update_of_ne hq _ _).trans hr)
  refine ⟨hlinked, fun t x q hx hq => hstay q ?_ (hs.callbacks.timers t x q hx hq),
    fun fd q hq => hstay q ?_ (hs.callbacks.fdcbs fd q hq)⟩
  · rintro rfl
    exact hfree.timers t x hx hq
  · rintro rfl
    exact hfree.fdcbs fd hq

/-! ## Runs -/

/-- **What an event does to the records**: nothing beyond moves, or it is a new process or its
connection, or `ClientAcceptor` installs a record, or replaces one. -/
theorem step_cases (hA : ∀ p, s.Concerns e.1 p → A p)
    (hF : ∀ p r, s.Probes e.1 p ∨ s.readable e.1 = some (.processResponse p) → s.procs p = some r →
      F r.fd) (h : step s e = some s') :
    Moves A F s s' ∨ (∃ pid, e.1 = .spawn pid ∧ s' = s.setTable pid true) ∨
      (∃ fd, s.opened fd = false ∧ s' = s.acceptProcess fd) ∨
      (∃ shake fd, s.fdcbs fd = some .clientAcceptor ∧ s.monitored shake.handle = none ∧
        s' = s.install shake fd) ∨
      ∃ shake fd p, s.fdcbs fd = some .clientAcceptor ∧ s.monitored shake.handle = some p ∧
        s.Replaces e p ∧ s' = (s.remove shake.handle p).install shake fd := by
  obtain ⟨e, out⟩ := e
  cases e with
  | spawn pid => exact Or.inr (Or.inl ⟨pid, rfl, (Option.some.inj h).symm⟩)
  | accept fd =>
    simp only [step] at h
    split at h
    · cases h
    · next hfd =>
      exact Or.inr (Or.inr (Or.inl ⟨fd, Bool.eq_false_iff.mpr hfd, (Option.some.inj h).symm⟩))
  | handshake fd shake =>
    simp only [step] at h
    split at h
    · next hfd =>
      obtain rfl | ⟨shake, rfl, hnone, rfl⟩ | ⟨shake, p, r, rfl, hp, hr, hidle, hdead, rfl⟩ :=
        clientAcceptor_cases h
      · exact Or.inl (.single (.close fd))
      · exact Or.inr (Or.inr (Or.inr (Or.inl ⟨shake, fd, hfd, hnone, rfl⟩)))
      · exact Or.inr (Or.inr (Or.inr (Or.inr ⟨shake, fd, p, hfd, hp,
          ⟨fd, shake, r, rfl, hp, hr, hidle, hdead⟩, install_remove.symm⟩)))
    · cases h
  | _ =>
    exact Or.inl (moves_step hA hF h (fun _ h => (by cases h)) (fun _ _ h => (by cases h))
      fun _ h => (by cases h))

/-- What every move keeps, and what is kept as a process connects, is installed or is replaced. -/
theorem keeps_step {I : ProcessEnforcer → Prop} (hs : I s) (h : step s e = some s')
    (hmove : ∀ s s', Move (fun _ => True) (fun _ => True) s s' → I s → I s')
    (hspawn : ∀ pid, e.1 = .spawn pid → I (s.setTable pid true))
    (haccept : ∀ fd, I (s.acceptProcess fd))
    (hinstall : ∀ s shake fd, s.monitored shake.handle = none → I s → I (s.install shake fd))
    (hremove : ∀ h p, s.monitored h = some p → s.Replaces e p → I (s.remove h p)) : I s' := by
  obtain hm | ⟨pid, he, rfl⟩ | ⟨fd, -, rfl⟩ | ⟨shake, fd, -, hnone, rfl⟩ |
      ⟨shake, fd, p, -, hp, hrep, rfl⟩ :=
    step_cases (A := fun _ => True) (F := fun _ => True) (fun _ _ => trivial)
      (fun _ _ _ _ => trivial) h
  · exact hm.keeps hmove hs
  · exact hspawn pid he
  · exact haccept fd
  · exact hinstall s shake fd hnone hs
  · exact hinstall _ shake fd (Function.update_self _ _ _) (hremove shake.handle p hp hrep)

/-- `ClientAcceptor` does replace `p`. -/
theorem Replaces.step (hrep : s.Replaces e p) (h : ProcessEnforcer.step s e = some s') :
    ∃ shake fd, s.monitored shake.handle = some p ∧
      s' = (s.remove shake.handle p).install shake fd := by
  obtain ⟨fd, shake, r, he, hp, hr, hidle, hdead⟩ := hrep
  obtain ⟨e, out⟩ := e
  obtain rfl : e = .handshake fd (some shake) := he
  refine ⟨shake, fd, hp, ?_⟩
  simp only [ProcessEnforcer.step] at h
  split at h
  · simpa [clientAcceptor, hp, hr, hidle, hdead, install_remove] using h.symm
  · cases h

theorem linked_init (gv : List GenNo) (gens : Handle → GenNo) : Linked (init gv gens) :=
  ⟨fun _ _ h => (by cases h), fun _ _ h => (by cases h), fun _ _ h => (by cases h)⟩

theorem linked_step (hs : Linked s) (h : step s e = some s') : Linked s' :=
  keeps_step hs h (fun _ _ hm hs => hs.move hm)
    (fun _ _ => ⟨hs.record, hs.installed, hs.allocated⟩)
    (fun _ => ⟨hs.record, hs.installed, hs.allocated⟩)
    (fun _ _ _ hnone hs => hs.install hnone) (fun _ _ hp _ => hs.remove hp)

theorem held_init (gv : List GenNo) (gens : Handle → GenNo) : Held (init gv gens) :=
  ⟨linked_init gv gens, fun _ _ _ h => (by cases h), fun _ _ h => (by cases h)⟩

theorem held_step (hs : Held s) (h : step s e = some s') (hfree : ∀ p, s.Replaces e p → s.Free p) :
    Held s' := by
  refine keeps_step hs h (fun _ _ hm hs => hs.move hm) (fun pid _ => ?_) (fun fd => ?_)
    (fun _ _ _ hnone hs => hs.install hnone) (fun h p hp hrep => hs.remove hp (hfree p hrep))
  · exact ⟨⟨hs.linked.record, hs.linked.installed, hs.linked.allocated⟩, hs.callbacks.timers,
      hs.callbacks.fdcbs⟩
  · refine ⟨⟨hs.linked.record, hs.linked.installed, hs.linked.allocated⟩, hs.callbacks.timers,
      fun fd' q hq => ?_⟩
    change Function.update s.fdcbs fd (some .clientAcceptor) fd' = _ at hq
    by_cases hfd : fd' = fd
    · subst hfd
      rw [Function.update_self] at hq
      cases hq
    · rw [Function.update_of_ne hfd] at hq
      exact hs.callbacks.fdcbs fd' q hq

/-- **No callback outlives its record**, in every state of a run, exactly if `ClientAcceptor`
replaces no record that a timer or a socket callback still carries. -/
theorem callbacks_held_iff (gv : List GenNo) (gens : Handle → GenNo) (es : List (Event × Outside)) :
    Run.Always step CallbacksHeld (init gv gens) es ↔
      Run.Along step (fun s e _ => ∀ p, s.Replaces e p → s.Free p) (init gv gens) es := by
  refine Run.always_iff_of_inv (I := Held) (fun s hs => hs.callbacks)
    (fun s e s' h hs hC => held_step hs h hC) ?_ (held_init gv gens)
  intro s e s' h hs hheld p hrep
  obtain ⟨r, hr⟩ : ∃ r, s.procs p = some r := by
    obtain ⟨_, _, r, -, -, hr, -⟩ := hrep
    exact ⟨r, hr⟩
  obtain ⟨shake, fd, -, rfl⟩ := hrep.step h
  have hgone : ¬ ((s.remove shake.handle p).install shake fd).Installed p :=
    not_installed_replaced (hs.linked.allocated p r hr)
  exact ⟨fun t x hx hq => hgone (hheld.timers t x p hx hq),
    fun fd hq => hgone (hheld.fdcbs fd p hq)⟩

/-- The process `"app"` answers its first probe, its only client cancels, the process exits, and its
successor connects within the poll period. -/
def replacedWithinPoll : List (Event × Outside) :=
  [(.spawn 7, obliging), (.accept 3, obliging),
   (.handshake 3 (some ⟨"app", 7, 1000, delayRealtime⟩), obliging),
   (.request (.register ⟨⟨"app", [4, 2, 0]⟩, false, -1, ⟨1, 0, 7⟩⟩), obliging),
   (.response 3 (some procObsAlive), obliging),
   (.request (.cancel ⟨⟨"app", [4, 2, 0]⟩, ⟨1, 0, 7⟩⟩), obliging),
   (.exit 7, obliging), (.spawn 8, obliging), (.accept 4, obliging),
   (.handshake 4 (some ⟨"app", 8, 1000, delayRealtime⟩), obliging)]

/-- The poll timer and the socket callback of the first process are left, its record is deleted. -/
theorem deleted_record_polled :
    ¬ Run.Always step CallbacksHeld (init [4, 2] fun _ => 0) replacedWithinPoll ∧
      ∃ s, replacedWithinPoll.foldlM step (init [4, 2] fun _ => 0) = some s ∧
        s.timers.lookup 1 = some (.probeProcess 0) ∧ s.fdcbs 3 = some (.processResponse 0) ∧
        s.procs 0 = none ∧ s.monitored "app" = some 1 := by
  obtain ⟨s, hs, htimer, hfd, hgone, hnew⟩ : ∃ s,
      replacedWithinPoll.foldlM step (init [4, 2] fun _ => 0) = some s ∧
        s.timers.lookup 1 = some (.probeProcess 0) ∧ s.fdcbs 3 = some (.processResponse 0) ∧
        s.procs 0 = none ∧ s.monitored "app" = some 1 :=
    ⟨_, rfl, by decide, by decide, by decide, by decide⟩
  refine ⟨fun h => ?_, s, hs, htimer, hfd, hgone, hnew⟩
  have hheld := Run.always_iff_run.mp h replacedWithinPoll List.prefix_rfl s hs
  obtain ⟨r, hr, -⟩ := hheld.timers 1 _ 0 htimer rfl
  rw [hgone] at hr
  cases hr

end Falcon.ProcessEnforcer
