import Falcon.Process.Records

/-!
# Process/Probes — a process that answers its probes is left alone

A probe of a process is given a timer, and the record remembers one timer only: the answer to a
probe removes the timer that was armed last.  One probe is outstanding at a time as long as the next
one is sent by the poll timer that the last answer armed; a `StartMonitoring` while a poll timer is
pending, or a probe unanswered, sends one of its own.

* `responsive_not_condemned` — in a run in which a process answers every probe in time, no probe
  condemns it, as long as its monitoring starts with no probe of it outstanding or due, and no other
  record with its descriptor is probed.
-/

namespace Falcon

/-- The timer of a probe of `p`. -/
def Timer.isProbe (p : ProcRef) : Timer → Bool
  | .processTimeout q => q = p
  | .checkCPUTime q _ => q = p
  | _ => false

theorem Timer.owner_of_isProbe {p : ProcRef} {x : Timer} (hx : x.isProbe p) : x.owner = some p := by
  cases x with
  | processTimeout q | checkCPUTime q _ => simpa [isProbe, owner] using hx
  | _ => cases hx

namespace ProcessEnforcer

/-! ## Probes and answers -/

/-- The enforcer with the probes of one process that are not answered yet, oldest first.  A probe is
known by its timer; no function of the enforcer reads the list. -/
structure Watch where
  enf : ProcessEnforcer
  unanswered : List TimerRef

/-- The probes that are not answered after an event.  The answers come in the order of the probes; a
timer that an event arms for a probe is the first one it arms, and `CheckCPUTime` arms it again for
the same probe. -/
def track (p : ProcRef) (s : ProcessEnforcer) (e : Event) (s' : ProcessEnforcer)
    (unanswered : List TimerRef) : List TimerRef :=
  match e with
  | .response fd _ =>
    if (s.procs p).map Process.fd = some fd then unanswered.tail else unanswered
  | .timer t =>
    if (s'.timers.lookup s.nextTimer).any (Timer.isProbe p) then
      if (s.timers.lookup t).any (Timer.isProbe p) then
        unanswered.map fun u => if u = t then s.nextTimer else u
      else unanswered ++ [s.nextTimer]
    else unanswered
  | _ =>
    if (s'.timers.lookup s.nextTimer).any (Timer.isProbe p) then unanswered ++ [s.nextTimer]
    else unanswered

/-- One turn of the event loop. -/
def Watch.step (p : ProcRef) (w : Watch) (e : Event × Outside) : Option Watch :=
  (ProcessEnforcer.step w.enf e).map fun s' => ⟨s', track p w.enf e.1 s' w.unanswered⟩

/-- The timer of a probe of `p` expires, and the time is up. -/
def lapses (s : ProcessEnforcer) (e : Event × Outside) (p : ProcRef) : Bool :=
  match s.due e.1 with
  | some (.processTimeout q) => q = p
  | some (.checkCPUTime q startTime) =>
    match s.procs q, e.2.cpuTime with
    | some r, some now => q = p ∧ cpuExceeded (now - startTime) r.delayMs
    | _, _ => false
  | _ => false

/-- `ProcessTimeout`, `CheckCPUTime` or `ProbeProcess` calls `Kill` for `p`. -/
def Condemns (s : ProcessEnforcer) (e : Event × Outside) (p : ProcRef) : Prop :=
  s.lapses e p ∨ s.Probes e.1 p ∧
    ¬ ((s.procs p).any (fun r => s.table r.pid) = true ∧ e.2.sent = true)

instance (s : ProcessEnforcer) (e : Event × Outside) (p : ProcRef) : Decidable (s.Condemns e p) :=
  inferInstanceAs (Decidable (_ ∨ _))

/-- `p` is in the process table, and its socket is open. -/
def healthy (s : ProcessEnforcer) (p : ProcRef) : Bool :=
  (s.procs p).all fun r => s.table r.pid && s.opened r.fd

/-- What is read from the socket of `p` is the answer to a probe, and says `PROC_OBS_ALIVE`. -/
def answers (p : ProcRef) (w : Watch) : Event → Bool
  | .response fd reply =>
    (w.enf.procs p).map Process.fd ≠ some fd ∨ reply = some procObsAlive ∧ w.unanswered ≠ []
  | _ => true

/-- The process is in the process table, its socket is open, and it answers every probe before the
time of the probe is up. -/
structure Responsive (p : ProcRef) (w : Watch) (e : Event × Outside) : Prop where
  healthy : w.enf.healthy p
  sent : w.enf.Probes e.1 p → e.2.sent = true
  answers : answers p w e.1
  inTime : ∀ t ∈ w.unanswered, e.1 = .timer t → w.enf.lapses e p = false

instance (p : ProcRef) (w : Watch) (e : Event × Outside) : Decidable (Responsive p w e) :=
  decidable_of_iff (w.enf.healthy p ∧ (w.enf.Probes e.1 p → e.2.sent = true) ∧
      answers p w e.1 ∧ ∀ t ∈ w.unanswered, e.1 = .timer t → w.enf.lapses e p = false)
    ⟨fun ⟨h₁, h₂, h₃, h₄⟩ => ⟨h₁, h₂, h₃, h₄⟩, fun ⟨h₁, h₂, h₃, h₄⟩ => ⟨h₁, h₂, h₃, h₄⟩⟩

/-- The monitoring of `p` starts only with no probe of it outstanding and no poll timer pending, and
no other record with the descriptor of `p` is probed. -/
structure Undisturbed (p : ProcRef) (w : Watch) (e : Event × Outside) : Prop where
  fresh : p ∈ w.enf.started e.1 →
    w.unanswered = [] ∧ ∀ x ∈ w.enf.timers.entries, x.2 ≠ .probeProcess p
  unshared : ∀ q ∈ w.enf.started e.1 ++ (w.enf.polled e.1).toList, q ≠ p →
    (w.enf.procs q).map Process.fd ≠ (w.enf.procs p).map Process.fd

instance (p : ProcRef) (w : Watch) (e : Event × Outside) : Decidable (Undisturbed p w e) :=
  decidable_of_iff ((p ∈ w.enf.started e.1 →
      w.unanswered = [] ∧ ∀ x ∈ w.enf.timers.entries, x.2 ≠ .probeProcess p) ∧
      ∀ q ∈ w.enf.started e.1 ++ (w.enf.polled e.1).toList, q ≠ p →
        (w.enf.procs q).map Process.fd ≠ (w.enf.procs p).map Process.fd)
    ⟨fun ⟨h₁, h₂⟩ => ⟨h₁, h₂⟩, fun ⟨h₁, h₂⟩ => ⟨h₁, h₂⟩⟩

/-- The callback for answers is on the socket of `p`. -/
def listens (s : ProcessEnforcer) (p : ProcRef) : Bool :=
  (s.procs p).any fun r => s.fdcbs r.fd = some (.processResponse p)

/-! ## Timers and sockets -/

variable {s s' : ProcessEnforcer} {e : Event × Outside} {h : Handle} {p q : ProcRef} {r : Process}
  {A : ProcRef → Prop} {F : Fd → Prop} {t : TimerRef} {x : Timer} {fd : Fd} {U : List TimerRef}

/-- The timers are those armed so far, the timer a record remembers is none of another record, and
the callback for the answers of a record is on its own socket. -/
structure Tidy (s : ProcessEnforcer) : Prop where
  linked : Linked s
  named : s.core.Named
  armed : ∀ t x, s.timers.lookup t = some x → t < s.nextTimer
  owned : ∀ t x q, s.timers.lookup t = some x → x.owner = some q → q < s.nextProc
  remembered : ∀ q r t, s.procs q = some r → r.cb = some t →
    t < s.nextTimer ∧ ∀ x, s.timers.lookup t = some x → x.owner = some q
  wired : ∀ fd q, s.fdcbs fd = some (.processResponse q) →
    q < s.nextProc ∧ ∀ r, s.procs q = some r → r.fd = fd

theorem Move.nextTimer (hm : Move A F s s') : s.nextTimer ≤ s'.nextTimer := by
  cases hm with
  | stop | answered => exact Nat.le_of_eq (timecbRemove_nextTimer _).symm
  | confirm | probe | rearm | poll => exact Nat.le_succ _
  | _ => exact Nat.le_refl _

/-- A record remembers the timer it did, or the one a move has armed for it. -/
theorem Move.cb {r' : Process} (hm : Move A F s s') (hr' : s'.procs q = some r')
    (ht : r'.cb = some t) :
    (∃ r, s.procs q = some r ∧ r.cb = some t) ∨ t = s.nextTimer ∧ s.nextTimer < s'.nextTimer ∧
      ∃ x, s'.timers.lookup t = some x ∧ x.owner = some q := by
  have hset : ∀ (s₁ : ProcessEnforcer) (p : ProcRef) (r : Process), s₁.procs = s.procs →
      (s₁.setProc p r).procs q = some r' → q ≠ p ∧ s.procs q = some r' ∨ q = p ∧ r' = r := by
    intro s₁ p r hs₁ hr'
    by_cases hq : q = p
    · subst hq
      exact Or.inr ⟨rfl, (Option.some.inj (setProc_procs_self.symm.trans hr')).symm⟩
    · rw [setProc_procs_of_ne hq, hs₁] at hr'
      exact Or.inl ⟨hq, hr'⟩
  cases hm with
  | stop hr | answered hr _ =>
    obtain ⟨-, hr'⟩ | ⟨-, rfl⟩ := hset _ _ _ (timecbRemove_procs _) hr'
    · exact Or.inl ⟨r', hr', ht⟩
    · cases ht
  | mark _ hr _ =>
    obtain ⟨-, hr'⟩ | ⟨-, rfl⟩ := hset _ _ _ rfl hr'
    · exact Or.inl ⟨r', hr', ht⟩
    · cases ht
  | activate hr _ =>
    obtain ⟨-, hr'⟩ | ⟨rfl, rfl⟩ := hset _ _ _ rfl hr'
    · exact Or.inl ⟨r', hr', ht⟩
    · exact Or.inl ⟨_, hr, ht⟩
  | @probe p r out x hr hA hF hx =>
    obtain ⟨-, hr'⟩ | ⟨rfl, rfl⟩ := hset (s.delaycb x) _ _ rfl hr'
    · exact Or.inl ⟨r', hr', ht⟩
    · obtain rfl := Option.some.inj ht
      exact Or.inr ⟨rfl, Nat.lt_succ_self _, x, AList.lookup_insert _, owner_probeTimer hx⟩
  | @rearm p r startTime hr hA =>
    obtain ⟨-, hr'⟩ | ⟨rfl, rfl⟩ := hset (s.delaycb (.checkCPUTime p startTime)) _ _ rfl hr'
    · exact Or.inl ⟨r', hr', ht⟩
    · obtain rfl := Option.some.inj ht
      exact Or.inr ⟨rfl, Nat.lt_succ_self _, _, AList.lookup_insert _, rfl⟩
  | _ => exact Or.inl ⟨r', hr', ht⟩

theorem Tidy.move (hs : Tidy s) (hm : Move A F s s') : Tidy s' := by
  refine ⟨hs.linked.move hm, hm.named hs.named, fun t x hx => ?_, fun t x q hx hq => ?_,
    fun q r' t hr' ht => ?_, fun fd q hq => ?_⟩
  · obtain hx | ⟨rfl, hlt, -⟩ := hm.timers hx
    · exact Nat.lt_of_lt_of_le (hs.armed t x hx) hm.nextTimer
    · exact hlt
  · rw [hm.nextProc]
    obtain hx | ⟨-, -, hx⟩ := hm.timers hx
    · exact hs.owned t x q hx hq
    · obtain ⟨-, r, hr⟩ := hx q hq
      exact hs.linked.allocated q r hr
  · obtain ⟨r, hr, ht⟩ | ⟨rfl, hlt, x, hx, hxq⟩ := hm.cb hr' ht
    · obtain ⟨hlt, hown⟩ := hs.remembered q r t hr ht
      refine ⟨Nat.lt_of_lt_of_le hlt hm.nextTimer, fun x hx => ?_⟩
      obtain hx | ⟨rfl, -, -⟩ := hm.timers hx
      · exact hown x hx
      · exact absurd hlt (Nat.lt_irrefl _)
    · exact ⟨hlt, fun y hy => Option.some.inj (hx.symm.trans hy) ▸ hxq⟩
  · rw [hm.nextProc]
    have hfd : ∀ r r', s.procs q = some r → r.fd = fd → s'.procs q = some r' → r'.fd = fd := by
      intro r r' hr hrfd hr'
      obtain ⟨r₁, hr₁, hident⟩ := hm.of_procs hr'
      obtain rfl := Option.some.inj (hr₁.symm.trans hr)
      exact (Process.same_of_ident hident).2.2.2.symm.trans hrfd
    obtain hq | ⟨-, r, hr, hrfd⟩ := hm.fdcbs hq
    · obtain ⟨hlt, hown⟩ := hs.wired fd q hq
      refine ⟨hlt, fun r' hr' => ?_⟩
      obtain ⟨r, hr, -⟩ := hm.of_procs hr'
      exact hfd r r' hr (hown r hr) hr'
    · exact ⟨hs.linked.allocated q r hr, fun r' hr' => hfd r r' hr hrfd hr'⟩

theorem Tidy.install {shake : Handshake} (hs : Tidy s) (hnone : s.monitored shake.handle = none) :
    Tidy (s.install shake fd) := by
  have hold : ∀ q r, q < s.nextProc → (s.install shake fd).procs q = some r → s.procs q = some r :=
    fun q r hq hr => (setProc_procs_of_ne (Nat.ne_of_lt hq)).symm.trans hr
  refine ⟨hs.linked.install hnone, hs.named, hs.armed, fun t x q hx hq => ?_,
    fun q r t hr ht => ?_, fun fd' q hq => ?_⟩
  · exact Nat.lt_succ_of_lt (hs.owned t x q hx hq)
  · by_cases hq : q = s.nextProc
    · subst hq
      obtain rfl := Option.some.inj (setProc_procs_self.symm.trans hr)
      cases ht
    · exact hs.remembered q r t ((setProc_procs_of_ne hq).symm.trans hr) ht
  · obtain ⟨hlt, hown⟩ := hs.wired fd' q hq
    exact ⟨Nat.lt_succ_of_lt hlt, fun r hr => hown r (hold q r hlt hr)⟩

theorem Tidy.remove (hs : Tidy s) (hp : s.monitored h = some p) : Tidy (s.remove h p) :=
  ⟨hs.linked.remove hp, hs.named, hs.armed, hs.owned,
    fun q r t hr ht => hs.remembered q r t (Linked.procs_remove hr).2 ht,
    fun fd q hq => ⟨(hs.wired fd q hq).1, fun r hr =>
      (hs.wired fd q hq).2 r (Linked.procs_remove hr).2⟩⟩

theorem Tidy.acceptProcess (hs : Tidy s) : Tidy (s.acceptProcess fd) := by
  refine ⟨⟨hs.linked.record, hs.linked.installed, hs.linked.allocated⟩, hs.named, hs.armed,
    hs.owned, hs.remembered, fun fd' q hq => hs.wired fd' q ?_⟩
  change Function.update s.fdcbs fd (some .clientAcceptor) fd' = _ at hq
  by_cases hfd : fd' = fd
  · subst hfd
    rw [Function.update_self] at hq
    cases hq
  · rwa [Function.update_of_ne hfd] at hq

theorem tidy_step (hs : Tidy s) (h : step s e = some s') : Tidy s' := by
  have hlinked := hs.linked
  refine keeps_step hs h (fun _ _ hm hs => hs.move hm) (fun pid _ => ?_) (fun fd => ?_)
    (fun _ _ _ hnone hs => hs.install hnone) (fun h p hp _ => hs.remove hp)
  · exact ⟨⟨hlinked.record, hlinked.installed, hlinked.allocated⟩, hs.named, hs.armed, hs.owned,
      hs.remembered, hs.wired⟩
  · exact hs.acceptProcess

theorem tidy_init (gv : List GenNo) (gens : Handle → GenNo) : Tidy (init gv gens) :=
  ⟨linked_init gv gens, Enforcer.named_init gv gens, fun _ _ h => (by cases h),
    fun _ _ _ h => (by cases h), fun _ _ _ h => (by cases h), fun _ _ h => (by cases h)⟩

/-! ## One probe at a time -/

/-- The timer at `o` is the only timer of `p`. -/
def OnlyAt (s : ProcessEnforcer) (p : ProcRef) (o : Option TimerRef) : Prop :=
  ∀ t x, s.timers.lookup t = some x → x.owner = some p → some t = o

/-- Where the probing of `p` stands, with the probes `U` unanswered. -/
inductive Phase (p : ProcRef) (U : List TimerRef) (s : ProcessEnforcer) : Prop
  | absent (hr : s.procs p = none) (hU : U = []) (hown : s.OnlyAt p none)
  | idle {r : Process} (hr : s.procs p = some r) (hcb : r.cb = none) (hU : U = [])
      (hown : s.OnlyAt p none)
  /-- The probe sent is the one whose timer the record remembers. -/
  | probing {r : Process} {t : TimerRef} {x : Timer} (hr : s.procs p = some r) (hcb : r.cb = some t)
      (hU : U = [t]) (hx : s.timers.lookup t = some x) (hprobe : x.isProbe p)
      (hown : s.OnlyAt p (some t))
  /-- The monitoring has stopped before the answer came. -/
  | unheard {r : Process} {t : TimerRef} (hr : s.procs p = some r) (hcb : r.cb = none)
      (hidle : r.active = false) (hU : U = [t]) (hown : s.OnlyAt p none)
  | polling {r : Process} {t : TimerRef} (hr : s.procs p = some r) (hcb : r.cb = none) (hU : U = [])
      (hx : s.timers.lookup t = some (.probeProcess p)) (hown : s.OnlyAt p (some t))

theorem lookup_timecbRemove_of_ne {cb : Option TimerRef} (hcb : cb ≠ some t) :
    (s.timecbRemove cb).timers.lookup t = s.timers.lookup t := by
  cases cb with
  | none => rfl
  | some t' => exact AList.lookup_erase_ne fun h => hcb (congrArg some h.symm)

/-- **The probing of others leaves `p` alone**, unless the monitoring of `p` is stopped. -/
theorem Move.frame (hs : Tidy s) (hm : Move (· ≠ p) F s s') :
    (s'.procs p = s.procs p ∧ ∀ t x, s.timers.lookup t = some x → x.owner = some p →
      s'.timers.lookup t = some x) ∨
    ∃ r, s.procs p = some r ∧
      s' = (s.timecbRemove r.cb).setProc p { r with cb := none, active := false } := by
  have harm : ∀ y t x, s.timers.lookup t = some x → (s.delaycb y).timers.lookup t = some x := by
    intro y t x hx
    exact (AList.lookup_insert_ne (Nat.ne_of_lt (hs.armed t x hx))).trans hx
  have hkeep : ∀ q r, q ≠ p → s.procs q = some r → ∀ t x, s.timers.lookup t = some x →
      x.owner = some p → (s.timecbRemove r.cb).timers.lookup t = some x := by
    intro q r hq hr t x hx hxp
    refine (lookup_timecbRemove_of_ne fun hcb => hq ?_).trans hx
    exact Option.some.inj (((hs.remembered q r t hr hcb).2 x hx).symm.trans hxp)
  cases hm with
  | confirm | poll => exact Or.inl ⟨rfl, fun t x hx _ => harm _ t x hx⟩
  | @expire t₀ x₀ hx₀ hA =>
    refine Or.inl ⟨rfl, fun t x hx hxp => (AList.lookup_erase_ne fun ht => ?_).trans hx⟩
    subst ht
    exact hA p (Option.some.inj (hx₀.symm.trans hx) ▸ hxp) rfl
  | @stop q r hr =>
    by_cases hq : q = p
    · subst hq
      exact Or.inr ⟨r, hr, rfl⟩
    · refine Or.inl ⟨(setProc_procs_of_ne (Ne.symm hq)).trans ?_, hkeep q r hq hr⟩
      exact congrFun (timecbRemove_procs _) p
  | @answered q r hr hA =>
    refine Or.inl ⟨(setProc_procs_of_ne (Ne.symm hA)).trans ?_, hkeep q r hA hr⟩
    exact congrFun (timecbRemove_procs _) p
  | activate _ hA | mark _ _ hA =>
    exact Or.inl ⟨setProc_procs_of_ne (Ne.symm hA), fun t x hx _ => hx⟩
  | probe _ hA _ _ | rearm _ _ hA =>
    exact Or.inl ⟨setProc_procs_of_ne (Ne.symm hA), fun t x hx _ => harm _ t x hx⟩
  | _ => exact Or.inl ⟨rfl, fun t x hx _ => hx⟩

theorem OnlyAt.move {o : Option TimerRef} (hown : s.OnlyAt p o) (hm : Move (· ≠ p) F s s') :
    s'.OnlyAt p o := by
  intro t x hx hxp
  obtain hx | ⟨-, -, hnew⟩ := hm.timers hx
  · exact hown t x hx hxp
  · exact ((hnew p hxp).1 rfl).elim

theorem Phase.congr (hph : Phase p U s) (hprocs : s'.procs p = s.procs p)
    (hkeep : ∀ t x, s.timers.lookup t = some x → x.owner = some p → s'.timers.lookup t = some x)
    (hmove : ∀ o, s.OnlyAt p o → s'.OnlyAt p o) : Phase p U s' := by
  cases hph with
  | absent hr hU hown => exact .absent (hprocs.trans hr) hU (hmove _ hown)
  | idle hr hcb hU hown => exact .idle (hprocs.trans hr) hcb hU (hmove _ hown)
  | probing hr hcb hU hx hprobe hown =>
    refine .probing (hprocs.trans hr) hcb hU (hkeep _ _ hx ?_) hprobe (hmove _ hown)
    exact Timer.owner_of_isProbe hprobe
  | unheard hr hcb hidle hU hown => exact .unheard (hprocs.trans hr) hcb hidle hU (hmove _ hown)
  | polling hr hcb hU hx hown =>
    exact .polling (hprocs.trans hr) hcb hU (hkeep _ _ hx rfl) (hmove _ hown)

theorem Phase.move (hs : Tidy s) (hph : Phase p U s) (hm : Move (· ≠ p) F s s') :
    Phase p U s' := by
  obtain ⟨hprocs, hkeep⟩ | ⟨r, hr, rfl⟩ := hm.frame hs
  · exact hph.congr hprocs hkeep fun _ hown => hown.move hm
  · -- the monitoring of `p` stops: the timer remembered is removed, a poll timer is not
    cases hph with
    | absent hr' => exact nomatch hr'.symm.trans hr
    | idle hr' hcb hU hown => exact .idle setProc_procs_self rfl hU (hown.move hm)
    | @probing r' t x hr' hcb hU hx hprobe hown =>
      obtain rfl := Option.some.inj (hr'.symm.trans hr)
      refine .unheard setProc_procs_self rfl rfl hU fun t' x' hx' hxp => ?_
      obtain rfl := Option.some.inj (hown.move hm t' x' hx' hxp)
      change (s.timecbRemove r'.cb).timers.lookup t' = some x' at hx'
      rw [hcb] at hx'
      exact nomatch (AList.lookup_erase _ _).symm.trans hx'
    | unheard hr' hcb hidle hU hown => exact .unheard setProc_procs_self rfl rfl hU (hown.move hm)
    | @polling r' t hr' hcb hU hx hown =>
      obtain rfl := Option.some.inj (hr'.symm.trans hr)
      refine .polling setProc_procs_self rfl hU ?_ (hown.move hm)
      change (s.timecbRemove r'.cb).timers.lookup t = some (.probeProcess p)
      rw [hcb]
      exact hx

/-- A descriptor outside `F` that is still open has the callback it had. -/
theorem Move.fdcbs_same (hm : Move A F s s') (hF : ¬ F fd) (hopen : s'.opened fd = true) :
    s.opened fd = true ∧ s'.fdcbs fd = s.fdcbs fd := by
  cases hm with
  | stop | answered =>
    rw [setProc, timecbRemove_opened] at hopen
    exact ⟨hopen, congrFun (timecbRemove_fdcbs _) fd⟩
  | close fd' =>
    change Function.update s.opened fd' false fd = true at hopen
    by_cases hfd : fd = fd'
    · subst hfd
      rw [Function.update_self] at hopen
      cases hopen
    · rw [Function.update_of_ne hfd] at hopen
      exact ⟨hopen, Function.update_of_ne hfd _ _⟩
  | @probe q r _ _ _ _ hFr _ | @mute q r _ _ hFr =>
    refine ⟨hopen, Function.update_of_ne (fun hfd => hF ?_) _ _⟩
    exact hfd ▸ hFr
  | _ => exact ⟨hopen, rfl⟩

theorem Moves.fdcbs_same (hm : Moves A F s s') (hF : ¬ F fd) (hopen : s'.opened fd = true) :
    s'.fdcbs fd = s.fdcbs fd := by
  induction hm with
  | refl => rfl
  | tail _ hm ih =>
    obtain ⟨hopen, hsame⟩ := hm.fdcbs_same hF hopen
    exact hsame.trans (ih hopen)

/-- One probe of `p` at a time, and its answer is listened for. -/
structure Watched (p : ProcRef) (U : List TimerRef) (s : ProcessEnforcer) : Prop where
  tidy : Tidy s
  phase : Phase p U s
  alone : ∀ r q, s.procs p = some r → s.fdcbs r.fd = some (.processResponse q) → q = p
  heard : U ≠ [] → s.listens p

theorem opened_of_healthy (hs : s.healthy p) (hr : s.procs p = some r) :
    s.table r.pid = true ∧ s.opened r.fd = true := by
  simpa [healthy, hr] using hs

/-- The probing of others leaves the socket of `p` alone. -/
theorem Watched.moves (hw : Watched p U s)
    (hm : Moves (· ≠ p) (fun fd => ∀ r, s.procs p = some r → r.fd ≠ fd) s s')
    (hhealthy : s'.healthy p) : Watched p U s' := by
  obtain ⟨htidy, hphase⟩ := hm.keeps (I := fun s => Tidy s ∧ Phase p U s)
    (fun _ _ hm hs => ⟨hs.1.move hm, hs.2.move hs.1 hm⟩) ⟨hw.tidy, hw.phase⟩
  have hsame : ∀ r', s'.procs p = some r' →
      ∃ r, s.procs p = some r ∧ r.fd = r'.fd ∧ s'.fdcbs r'.fd = s.fdcbs r'.fd := by
    intro r' hr'
    obtain ⟨r, hr, hident⟩ := hm.of_procs hr'
    have hfd := (Process.same_of_ident hident).2.2.2
    refine ⟨r, hr, hfd, hm.fdcbs_same (fun hF => hF r hr hfd) ?_⟩
    exact (opened_of_healthy hhealthy hr').2
  refine ⟨htidy, hphase, fun r' q hr' hq => ?_, fun hU => ?_⟩
  · obtain ⟨r, hr, hfd, hcb⟩ := hsame r' hr'
    exact hw.alone r q hr (hfd ▸ hcb ▸ hq)
  · obtain ⟨r', hr'⟩ : ∃ r', s'.procs p = some r' := by
      cases hphase with
      | absent _ hU' => exact (hU hU').elim
      | idle hr' | probing hr' | unheard hr' | polling hr' => exact ⟨_, hr'⟩
    obtain ⟨r, hr, hfd, hcb⟩ := hsame r' hr'
    have hold := hw.heard hU
    simp only [listens, hr, Option.any_some, decide_eq_true_eq] at hold
    simp only [listens, hr', Option.any_some, decide_eq_true_eq]
    rw [hcb, ← hfd]
    exact hold

theorem Watched.congr (hw : Watched p U s) (htidy : Tidy s') (hprocs : s'.procs p = s.procs p)
    (htimers : s'.timers = s.timers)
    (hfdcbs : ∀ r, s.procs p = some r → s'.fdcbs r.fd = s.fdcbs r.fd) : Watched p U s' := by
  refine ⟨htidy, hw.phase.congr hprocs (fun t x hx _ => htimers ▸ hx) (fun o hown t x hx => ?_),
    fun r q hr hq => ?_, fun hU => ?_⟩
  · exact hown t x (htimers ▸ hx)
  · rw [hprocs] at hr
    exact hw.alone r q hr (hfdcbs r hr ▸ hq)
  · have hold := hw.heard hU
    rw [listens] at hold ⊢
    rw [hprocs]
    cases hr : s.procs p with
    | none => rw [hr] at hold; cases hold
    | some r =>
      rw [hr] at hold
      simpa [hfdcbs r hr] using hold

/-- A record is installed that is not `p`, or `p` itself, which has not been probed yet. -/
theorem Watched.install {shake : Handshake} (hw : Watched p U s)
    (hfd : s.fdcbs fd = some .clientAcceptor) (hnone : s.monitored shake.handle = none) :
    Watched p U (s.install shake fd) := by
  have htidy : Tidy (s.install shake fd) := hw.tidy.install hnone
  by_cases hp : p = s.nextProc
  · subst hp
    have hr : (s.install shake fd).procs s.nextProc = some (shake.process fd) := setProc_procs_self
    have hgone : ∀ r, s.procs s.nextProc ≠ some r := fun r hr =>
      absurd (hw.tidy.linked.allocated _ r hr) (Nat.lt_irrefl _)
    have hphase : Phase s.nextProc U (s.install shake fd) ∧ U = [] := by
      cases hw.phase with
      | absent _ hU hown => exact ⟨.idle hr rfl hU hown, hU⟩
      | idle hr' | probing hr' | unheard hr' | polling hr' => exact (hgone _ hr').elim
    refine ⟨htidy, hphase.1, fun r q hr' hq => ?_, fun hU => (hU hphase.2).elim⟩
    obtain rfl := Option.some.inj (hr.symm.trans hr')
    exact nomatch hfd.symm.trans hq
  · exact hw.congr htidy (setProc_procs_of_ne hp) rfl fun _ _ => rfl

/-- The probes unanswered change only when `p` is probed or its socket is read. -/
theorem track_eq {e : Event}
    (hprobe : ∀ x, s'.timers.lookup s.nextTimer = some x → x.owner ≠ some p)
    (hread : ∀ fd reply, e = .response fd reply → (s.procs p).map Process.fd ≠ some fd) :
    track p s e s' U = U := by
  have hnone : (s'.timers.lookup s.nextTimer).any (Timer.isProbe p) = false := by
    cases hx : s'.timers.lookup s.nextTimer with
    | none => rfl
    | some x => exact Bool.eq_false_iff.mpr fun h => hprobe x hx (Timer.owner_of_isProbe h)
  cases e with
  | response fd reply => simp [track, hread fd reply rfl]
  | timer t => simp [track, hnone]
  | _ => simp [track, hnone]

/-- The probing of others arms no timer for `p`. -/
theorem Moves.timers_of (hm : Moves (· ≠ p) F s s') (hx : s'.timers.lookup t = some x)
    (hxp : x.owner = some p) : s.timers.lookup t = some x := by
  induction hm with
  | refl => exact hx
  | tail _ hm ih =>
    obtain hx | ⟨-, -, hnew⟩ := hm.timers hx
    · exact ih hx
    · exact ((hnew p hxp).1 rfl).elim

/-- The socket of `p` is read for `p`. -/
theorem Watched.readable (hw : Watched p U s) {reply : Option UInt32} {out : Outside}
    (hfd : (s.procs p).map Process.fd = some fd) (h : step s (.response fd reply, out) = some s') :
    s.fdcbs fd = some (.processResponse p) := by
  obtain ⟨r, hr, rfl⟩ := Option.map_eq_some_iff.mp hfd
  simp only [step] at h
  split at h
  · next q hq => exact hq.trans (congrArg (some ∘ FdCallback.processResponse) (hw.alone r q hr hq))
  · cases h

/-- **An event that does not concern `p`** neither probes it nor answers for it. -/
theorem Watched.step_of_not_concerns (hw : Watched p U s) (hhealthy : s.healthy p)
    (hun : ∀ q ∈ s.started e.1 ++ (s.polled e.1).toList, q ≠ p →
      (s.procs q).map Process.fd ≠ (s.procs p).map Process.fd)
    (hnot : ¬ s.Concerns e.1 p) (h : step s e = some s') (hhealthy' : s'.healthy p) :
    Watched p (track p s e.1 s' U) s' := by
  have hA : ∀ q, s.Concerns e.1 q → q ≠ p := by
    rintro q hq rfl
    exact hnot hq
  have hF : ∀ q r, s.Probes e.1 q ∨ s.readable e.1 = some (.processResponse q) →
      s.procs q = some r → ∀ r', s.procs p = some r' → r'.fd ≠ r.fd := by
    intro q r hq hr r' hr' hfd
    obtain hq | hq := hq
    · refine hun q ?_ (hA q (Or.inl hq)) (by simp [hr, hr', hfd])
      simpa [Probes] using hq
    · refine hA q (Or.inr (Or.inr hq)) (hw.alone r' q hr' ?_)
      obtain ⟨e, out⟩ := e
      cases e with
      | response fd reply => exact hfd ▸ (hw.tidy.wired fd q hq).2 r hr ▸ hq
      | _ => cases hq
  have hread : ∀ fd reply, e.1 = .response fd reply → (s.procs p).map Process.fd ≠ some fd := by
    intro fd reply he hfd
    obtain ⟨e, out⟩ := e
    obtain rfl : e = .response fd reply := he
    exact hnot (Or.inr (Or.inr (hw.readable hfd h)))
  have hidle : s'.timers = s.timers → track p s e.1 s' U = U := by
    intro htimers
    refine track_eq (fun x hx _ => Nat.lt_irrefl s.nextTimer ?_) hread
    exact hw.tidy.armed _ x (htimers ▸ hx)
  obtain hm | ⟨pid, -, rfl⟩ | ⟨fd, hfd, rfl⟩ | ⟨shake, fd, hfd, hnone, rfl⟩ |
      ⟨shake, fd, q, hfd, hq, hrep, rfl⟩ :=
    step_cases (F := fun fd => ∀ r, s.procs p = some r → r.fd ≠ fd) hA hF h
  · have htrack : track p s e.1 s' U = U := by
      refine track_eq (fun x hx hxp => Nat.lt_irrefl s.nextTimer ?_) hread
      exact hw.tidy.armed _ x (hm.timers_of hx hxp)
    rw [htrack]
    exact hw.moves hm hhealthy'
  · rw [hidle rfl]
    exact hw.congr (tidy_step hw.tidy h) rfl rfl fun _ _ => rfl
  · rw [hidle rfl]
    refine hw.congr hw.tidy.acceptProcess rfl rfl fun r hr => Function.update_of_ne ?_ _ _
    rintro rfl
    exact nomatch hfd.symm.trans (opened_of_healthy hhealthy hr).2
  · rw [hidle rfl]
    exact hw.install hfd hnone
  · rw [hidle rfl]
    have hne : p ≠ q := by
      rintro rfl
      obtain ⟨_, _, r, -, -, hr, -, hdead⟩ := hrep
      exact nomatch hdead.symm.trans (opened_of_healthy hhealthy hr).1
    have hremoved : Watched p U (s.remove shake.handle q) :=
      hw.congr (hw.tidy.remove hq) (Function.update_of_ne hne _ _) rfl fun _ _ => rfl
    exact hremoved.install hfd (Function.update_self _ _ _)

/-! ## The probes of `p` -/

theorem isProbe_probeTimer {out : Outside} (hx : probeTimer p r out = some x) : x.isProbe p := by
  unfold probeTimer at hx
  split at hx
  · obtain rfl := Option.some.inj hx
    simp [Timer.isProbe]
  · obtain ⟨startTime, -, rfl⟩ := Option.map_eq_some_iff.mp hx
    simp [Timer.isProbe]

/-- A probe is sent over the socket, given a timer, and its answer listened for. -/
theorem probeProcess_eq {out : Outside} (h : s.probeProcess p out = some s')
    (hsent : out.sent = true) (hr : s.procs p = some r) (htable : s.table r.pid = true) :
    ∃ x, x.isProbe p ∧ s' = (s.setTimer p r x).fdcb r.fd (some (.processResponse p)) := by
  simp only [probeProcess, hr, htable, hsent, Option.bind_eq_bind, Option.bind_some, and_self,
    if_true] at h
  obtain ⟨x, hx, h⟩ := Option.bind_eq_some_iff.mp h
  exact ⟨x, isProbe_probeTimer hx, (Option.some.inj h).symm⟩

/-- The timer of a probe is armed when `p` has none. -/
theorem phase_setTimer (hown : s.OnlyAt p none) (ht : s.nextTimer = t) (hx : x.isProbe p)
    (hprocs : s'.procs p = some { r with cb := some s.nextTimer })
    (htimers : s'.timers = s.timers.insert s.nextTimer x) : Phase p [t] s' := by
  subst ht
  refine .probing hprocs rfl rfl (htimers ▸ AList.lookup_insert _) hx fun t y hy hyp => ?_
  rw [htimers] at hy
  obtain hy | ⟨rfl, -⟩ := lookup_delaycb (s := s) hy
  · exact nomatch hown t y hy hyp
  · rfl

/-- After a probe of `p`, which had no timer. -/
theorem watched_probe (h : s' = (s.setTimer p r x).fdcb r.fd (some (.processResponse p)))
    (ht : s.nextTimer = t) (htidy : Tidy s') (hx : x.isProbe p) (hown : s.OnlyAt p none) :
    Watched p [t] s' := by
  subst h
  have hprocs : ((s.setTimer p r x).fdcb r.fd (some (.processResponse p))).procs p =
      some { r with cb := some s.nextTimer } := setProc_procs_self
  have hcb : ((s.setTimer p r x).fdcb r.fd (some (.processResponse p))).fdcbs r.fd =
      some (.processResponse p) := Function.update_self _ _ _
  refine ⟨htidy, phase_setTimer hown ht hx hprocs rfl, fun r' q hr' hq => ?_, fun _ => ?_⟩
  · obtain rfl := Option.some.inj (hprocs.symm.trans hr')
    exact FdCallback.processResponse.inj (Option.some.inj (hq.symm.trans hcb))
  · rw [listens, hprocs]
    simpa using hcb

/-- The base class's part of an event, and what the layer has to do for it. -/
theorem step_base {ev : Enforcer.Event} (hev : s.baseEvent e.1 = some ev)
    (h : step s e = some s') : ∃ c, s.core.step ev = some c ∧ s.runHooks c e.2 = some s' := by
  obtain ⟨e, out⟩ := e
  cases e with
  | request req => exact ⟨_, Option.some.inj hev ▸ rfl, h⟩
  | fire cb status =>
    obtain ⟨c, hc, h⟩ := Option.bind_eq_some_iff.mp h
    exact ⟨c, Option.some.inj hev ▸ hc, h⟩
  | _ => cases hev

/-- What an event does that starts the monitoring of `p`. -/
theorem started_eq (hn : s.core.Named) (hp : p ∈ s.started e.1) (h : step s e = some s') :
    ∃ h₀ c, s.monitored h₀ = some p ∧ (s.baseEvent e.1).isSome ∧
      { s with core := c }.startMonitoring h₀ e.2 = some s' := by
  obtain ⟨h₀, hh₀, hp⟩ := List.mem_filterMap.mp hp
  obtain ⟨a, ha, hstart⟩ := List.mem_filterMap.mp hh₀
  obtain rfl : a = .startMonitoring h₀ := by
    cases a <;> simp_all [Action.started]
  cases hev : s.baseEvent e.1 with
  | none => simp [baseActions, hev] at ha
  | some ev =>
    obtain ⟨c, hc, h⟩ := step_base hev h
    simp only [baseActions, hev, Option.bind_some, hc] at ha
    obtain ⟨req, res, hnew⟩ := Enforcer.newer_of_start hn hc ha
    refine ⟨h₀, c, hp, rfl, ?_⟩
    rw [runHooks, hnew] at h
    simp only [List.reverse_cons, List.reverse_nil, List.nil_append, List.cons_append,
      List.foldlM_cons, List.foldlM_nil, Option.bind_eq_bind] at h
    obtain ⟨s₁, hs₁, h⟩ := Option.bind_eq_some_iff.mp h
    exact hs₁.trans h

/-- A probe is sent that is not answered yet. -/
theorem track_probe {e : Event} (hx : s'.timers.lookup s.nextTimer = some x) (hprobe : x.isProbe p)
    (hread : ∀ fd reply, e ≠ .response fd reply)
    (hdue : ∀ y, s.due e = some y → y.isProbe p = false) :
    track p s e s' U = U ++ [s.nextTimer] := by
  cases e with
  | response fd reply => exact (hread fd reply rfl).elim
  | timer t =>
    have hold : (s.timers.lookup t).any (Timer.isProbe p) = false := by
      cases hy : s.timers.lookup t with
      | none => rfl
      | some y => exact hdue y hy
    simp [track, hx, hprobe, hold]
  | _ => simp [track, hx, hprobe]

/-- **The monitoring of `p` starts**: its first probe is sent. -/
theorem Watched.step_started (hw : Watched p [] s) (hhealthy : s.healthy p)
    (hsent : e.2.sent = true) (hpoll : ∀ t, s.timers.lookup t ≠ some (.probeProcess p))
    (hp : p ∈ s.started e.1) (h : step s e = some s') : Watched p (track p s e.1 s' []) s' := by
  obtain ⟨h₀, c, hmon, hbase, hstart⟩ := started_eq hw.tidy.named hp h
  obtain ⟨r, hr, -⟩ := hw.tidy.linked.record h₀ p hmon
  have hown : s.OnlyAt p none := by
    cases hw.phase with
    | absent _ _ hown | idle _ _ _ hown | unheard _ _ _ _ hown => exact hown
    | probing _ _ hU => cases hU
    | polling _ _ _ hx => exact (hpoll _ hx).elim
  have htable := (opened_of_healthy hhealthy hr).1
  simp only [startMonitoring, hmon, hr, Option.bind_eq_bind, Option.bind_some] at hstart
  obtain ⟨x, hx, hs'⟩ := probeProcess_eq hstart hsent setProc_procs_self htable
  have htrack : track p s e.1 s' [] = [s.nextTimer] := by
    refine track_probe (x := x) (U := []) ?_ hx (fun fd reply he => ?_) fun y hy => ?_
    · exact hs' ▸ AList.lookup_insert _
    · rw [he] at hbase
      cases hbase
    · cases he : e.1 <;> rw [he] at hy hbase <;> first | cases hy | cases hbase
  rw [htrack]
  exact watched_probe hs' rfl (tidy_step hw.tidy h) hx hown

/-- The only timer of `p` expires. -/
theorem OnlyAt.expire (hown : s.OnlyAt p (some t)) :
    { s with timers := s.timers.erase t }.OnlyAt p none := by
  intro t' x' hx' hxp
  obtain rfl := Option.some.inj (hown t' x' (Keyed.lookup_of_lookup_erase hx') hxp)
  exact nomatch (AList.lookup_erase _ _).symm.trans hx'

/-- **The poll timer of `p` expires**: the next probe is sent. -/
theorem Watched.step_polled (hw : Watched p U s) (hhealthy : s.healthy p) {out : Outside}
    (hsent : out.sent = true) (hx : s.timers.lookup t = some (.probeProcess p))
    (h : step s (.timer t, out) = some s') : Watched p (track p s (.timer t) s' U) s' := by
  obtain ⟨r, hr, rfl, hown⟩ : ∃ r, s.procs p = some r ∧ U = [] ∧ s.OnlyAt p (some t) := by
    cases hw.phase with
    | absent _ _ hown | idle _ _ _ hown | unheard _ _ _ _ hown => exact nomatch hown t _ hx rfl
    | probing _ _ _ hx' hprobe hown =>
      obtain rfl := Option.some.inj (hown t _ hx rfl)
      obtain rfl := Option.some.inj (hx.symm.trans hx')
      cases hprobe
    | polling hr _ hU _ hown =>
      obtain rfl := Option.some.inj (hown t _ hx rfl)
      exact ⟨_, hr, hU, hown⟩
  have hstep := h
  simp only [step, hx, Option.bind_eq_bind, Option.bind_some, expire] at hstep
  obtain ⟨x, hprobe, hs'⟩ := probeProcess_eq hstep hsent hr (opened_of_healthy hhealthy hr).1
  have htrack : track p s (.timer t) s' [] = [s.nextTimer] := by
    refine track_probe (x := x) (U := []) ?_ hprobe (fun _ _ h => (by cases h)) fun y hy => ?_
    · exact hs' ▸ AList.lookup_insert _
    · obtain rfl := Option.some.inj (hx.symm.trans hy)
      rfl
  rw [htrack]
  exact watched_probe hs' rfl (tidy_step hw.tidy h) hprobe hown.expire

/-- The timer of a probe of `p` is that of the probe not answered yet. -/
theorem Watched.unanswered (hw : Watched p U s) (hx : s.timers.lookup t = some x)
    (hprobe : x.isProbe p) : U = [t] ∧ s.OnlyAt p (some t) := by
  have howner := Timer.owner_of_isProbe hprobe
  cases hw.phase with
  | absent _ _ hown | idle _ _ _ hown | unheard _ _ _ _ hown => exact nomatch hown t x hx howner
  | probing _ _ hU _ _ hown =>
    obtain rfl := Option.some.inj (hown t x hx howner)
    exact ⟨hU, hown⟩
  | polling _ _ _ hx' hown =>
    obtain rfl := Option.some.inj (hown t x hx howner)
    obtain rfl := Option.some.inj (hx.symm.trans hx')
    cases hprobe

/-- **`CheckCPUTime` finds time left**: the probe gets a new timer. -/
theorem Watched.step_checkCPUTime (hw : Watched p U s) {startTime : UInt32} {out : Outside}
    (hx : s.timers.lookup t = some (.checkCPUTime p startTime))
    (hleft : s.lapses (.timer t, out) p = false) (h : step s (.timer t, out) = some s') :
    Watched p (track p s (.timer t) s' U) s' := by
  have hprobe : Timer.isProbe p (.checkCPUTime p startTime) := by simp [Timer.isProbe]
  obtain ⟨rfl, hown⟩ := hw.unanswered hx hprobe
  have hstep := h
  simp only [step, hx, Option.bind_eq_bind, Option.bind_some, expire, checkCPUTime] at hstep
  obtain ⟨r, hr, hstep⟩ := Option.bind_eq_some_iff.mp hstep
  obtain ⟨now, hnow, hstep⟩ := Option.bind_eq_some_iff.mp hstep
  have hr' : s.procs p = some r := hr
  simp only [lapses, due, hx, hr', hnow, true_and, Bool.decide_eq_true] at hleft
  rw [hleft] at hstep
  obtain rfl := Option.some.inj hstep
  rw [show track p s (.timer t) _ [t] = [s.nextTimer] by
    simp [track, hx, hprobe, setTimer, delaycb, setProc]]
  refine ⟨tidy_step hw.tidy h, phase_setTimer hown.expire rfl hprobe setProc_procs_self rfl,
    fun r' q hr' hq => ?_, fun _ => ?_⟩
  · obtain rfl := Option.some.inj (setProc_procs_self.symm.trans hr')
    exact hw.alone r q hr hq
  · have hold := hw.heard (by simp)
    simp only [listens, hr', Option.any_some] at hold
    rw [listens, setTimer, setProc_procs_self]
    exact hold

/-- **The answer to the probe of `p` is read**: its timer is removed. -/
theorem Watched.step_response (hw : Watched p U s) {out : Outside} (hr : s.procs p = some r)
    (hU : U ≠ []) (h : step s (.response r.fd (some procObsAlive), out) = some s') :
    Watched p (track p s (.response r.fd (some procObsAlive)) s' U) s' := by
  have htidy := tidy_step hw.tidy h
  have hread := hw.readable (by simp [hr]) h
  set s₁ := (s.timecbRemove r.cb).setProc p { r with cb := none } with hs₁
  have hr₁ : s₁.procs p = some { r with cb := none } := setProc_procs_self
  -- the timer removed is the only one of `p`, if it has one
  obtain ⟨hown, hlast⟩ : s₁.OnlyAt p none ∧ U.tail = [] := by
    cases hw.phase with
    | absent _ hU' | idle _ _ hU' | polling _ _ hU' => exact (hU hU').elim
    | probing hr' hcb hU' _ _ hown =>
      obtain rfl := Option.some.inj (hr'.symm.trans hr)
      rw [hs₁, hcb]
      exact ⟨hown.expire, by rw [hU']; rfl⟩
    | unheard hr' hcb _ hU' hown =>
      obtain rfl := Option.some.inj (hr'.symm.trans hr)
      rw [hs₁, hcb]
      exact ⟨hown, by rw [hU']; rfl⟩
  have htrack : track p s (.response r.fd (some procObsAlive)) s' U = [] := by
    simp [track, hr, hlast]
  rw [htrack]
  simp only [step, hread, processResponse, hr, Option.bind_eq_bind, Option.bind_some, ← hs₁] at h
  cases hactive : r.active with
  | false =>
    simp only [hactive, if_true, Option.some.injEq] at h
    subst h
    refine ⟨htidy, .idle hr₁ rfl rfl hown, fun r' q hr' hq => ?_, fun hU => (hU rfl).elim⟩
    obtain rfl := Option.some.inj (hr₁.symm.trans hr')
    cases (Function.update_self _ _ _).symm.trans hq
  | true =>
    simp only [hactive, Bool.true_eq_false, if_false, if_true, Option.some.injEq] at h
    subst h
    refine ⟨htidy, .polling (t := s₁.nextTimer) hr₁ rfl rfl (AList.lookup_insert _) ?_, ?_,
      fun hU => (hU rfl).elim⟩
    · intro t x hx hxp
      obtain hx | ⟨rfl, -⟩ :=
        lookup_delaycb (s := { s₁ with core := s₁.core.observeUp r.handle }) hx
      · cases hown t x hx hxp
      · rfl
    · intro r' q hr' hq
      obtain rfl := Option.some.inj (hr₁.symm.trans hr')
      refine hw.alone r q hr ?_
      exact (congrFun (timecbRemove_fdcbs _) r.fd).symm.trans hq

/-! ## Runs -/

theorem watched_init (gv : List GenNo) (gens : Handle → GenNo) : Watched p [] (init gv gens) :=
  ⟨tidy_init gv gens, .absent rfl rfl fun _ _ h => (by cases h), fun _ _ h => (by cases h),
    fun h => (h rfl).elim⟩

/-- The timer that expires is one of the enforcer's. -/
theorem due_eq {e : Event} (hdue : s.due e = some x) :
    ∃ t, e = .timer t ∧ s.timers.lookup t = some x := by
  cases e with
  | timer t => exact ⟨t, rfl, hdue⟩
  | _ => cases hdue

theorem polled_eq {e : Event} (hpoll : s.polled e = some p) : s.due e = some (.probeProcess p) := by
  unfold polled at hpoll
  split at hpoll
  · next q hq => rw [hq, Option.some.inj hpoll]
  · cases hpoll

/-- The time of a probe of `p` is up, whose timer was one of its probes. -/
theorem lapses_spec (h : s.lapses e p) :
    ∃ t x, e.1 = .timer t ∧ s.timers.lookup t = some x ∧ x.isProbe p := by
  unfold lapses at h
  split at h
  · next q hdue =>
    obtain ⟨t, ht, hx⟩ := due_eq hdue
    exact ⟨t, _, ht, hx, h⟩
  · next q startTime hdue =>
    obtain ⟨t, ht, hx⟩ := due_eq hdue
    refine ⟨t, _, ht, hx, ?_⟩
    split at h
    · simp only [Bool.decide_and, Bool.and_eq_true, decide_eq_true_eq] at h
      simp [Timer.isProbe, h.1]
    · cases h
  · cases h

/-- A probe that is answered in time does not lapse. -/
theorem Watched.not_lapses (hw : Watched p U s) (hres : Responsive p ⟨s, U⟩ e) :
    s.lapses e p = false := by
  refine Bool.eq_false_iff.mpr fun h => ?_
  obtain ⟨t, x, ht, hx, hprobe⟩ := lapses_spec h
  have hmem : t ∈ U := by
    rw [(hw.unanswered hx hprobe).1]
    exact List.mem_singleton_self t
  exact nomatch (hres.inTime t hmem ht).symm.trans h

/-- **A responsive process is not condemned.** -/
theorem Watched.not_condemns (hw : Watched p U s) (hres : Responsive p ⟨s, U⟩ e) :
    ¬ s.Condemns e p := by
  rintro (hlapse | ⟨hprobes, hfail⟩)
  · exact nomatch (hw.not_lapses hres).symm.trans hlapse
  · obtain ⟨r, hr⟩ : ∃ r, s.procs p = some r := by
      obtain hstart | hpoll := hprobes
      · obtain ⟨h, -, hmon⟩ := List.mem_filterMap.mp hstart
        exact (hw.tidy.linked.record h p hmon).imp fun _ hr => hr.1
      · obtain ⟨t, -, hx⟩ := due_eq (polled_eq hpoll)
        cases hw.phase with
        | absent _ _ hown => exact nomatch hown t _ hx rfl
        | idle hr | probing hr | unheard hr | polling hr => exact ⟨_, hr⟩
    refine hfail ⟨?_, hres.sent hprobes⟩
    rw [hr]
    exact (opened_of_healthy hres.healthy hr).1

theorem Watched.step (hw : Watched p U s) (hres : Responsive p ⟨s, U⟩ e)
    (hun : Undisturbed p ⟨s, U⟩ e) (h : ProcessEnforcer.step s e = some s')
    (hhealthy' : s'.healthy p) : Watched p (track p s e.1 s' U) s' := by
  by_cases hc : s.Concerns e.1 p
  · have hleft := hw.not_lapses hres
    obtain ⟨e, out⟩ := e
    obtain (hstart | hpoll) | ⟨x, hdue, hxp⟩ | hread := hc
    · obtain ⟨rfl, hnone⟩ : U = [] ∧ _ := hun.fresh hstart
      refine hw.step_started hres.healthy (hres.sent (Or.inl hstart)) (fun t ht => ?_) hstart h
      exact hnone _ (Keyed.mem_entries_iff.mpr ht) rfl
    · obtain ⟨t, rfl, hx⟩ := due_eq (polled_eq hpoll)
      exact hw.step_polled hres.healthy (hres.sent (Or.inr hpoll)) hx h
    · obtain ⟨t, rfl, hx⟩ := due_eq hdue
      cases x with
      | probeProcess q =>
        obtain rfl : q = p := Option.some.inj hxp
        exact hw.step_polled hres.healthy (hres.sent (Or.inr (by simp [polled, due, hx]))) hx h
      | processTimeout q =>
        obtain rfl : q = p := Option.some.inj hxp
        simp [lapses, due, hx] at hleft
      | checkCPUTime q startTime =>
        obtain rfl : q = p := Option.some.inj hxp
        exact hw.step_checkCPUTime hx hleft h
      | confirmDeath => cases hxp
    · cases e with
      | response fd reply =>
        have hfd : s.fdcbs fd = some (.processResponse p) := hread
        have hread' := h
        simp only [ProcessEnforcer.step, hfd] at hread'
        obtain ⟨r, hr, -⟩ := Option.bind_eq_some_iff.mp hread'
        obtain rfl := (hw.tidy.wired fd p hfd).2 r hr
        have hans := hres.answers
        simp only [answers, hr, Option.map_some, ne_eq, not_true_eq_false, false_or,
          decide_eq_true_eq] at hans
        obtain ⟨rfl, hU⟩ := hans
        exact hw.step_response hr hU h
      | _ => cases hread
  · exact hw.step_of_not_concerns hres.healthy hun.unshared hc h hhealthy'

/-- **A responsive process is never declared down by its probes.**  In a run in which the process
`p` answers every probe in time, neither `ProcessTimeout` nor `CheckCPUTime` nor `ProbeProcess`
calls `Kill` for it, and the enforcer listens for an answer while one is due; as long as the
monitoring of `p` starts only with no probe of `p` outstanding and no poll timer pending, and no
other record with its descriptor is probed. -/
theorem responsive_not_condemned (gv : List GenNo) (gens : Handle → GenNo) (p : ProcRef)
    (es : List (Event × Outside))
    (h : Run.Along (Watch.step p) (fun w e _ => Responsive p w e ∧ Undisturbed p w e)
      ⟨init gv gens, []⟩ es) :
    Run.Along (Watch.step p) (fun w e _ => ¬ w.enf.Condemns e p ∧
      (w.unanswered ≠ [] → w.enf.listens p)) ⟨init gv gens, []⟩ es := by
  refine Run.Along.of_inv (I := fun w => w.enf.healthy p → Watched p w.unanswered w.enf)
    (fun w e w' hstep hI hC => ?_) es _ (fun _ => watched_init gv gens) h
  have hw := hI hC.1.healthy
  obtain ⟨s', hs', rfl⟩ := Option.map_eq_some_iff.mp hstep
  exact ⟨fun hhealthy' => hw.step hC.1 hC.2 hs' hhealthy', hw.not_condemns hC.1, hw.heard⟩

/-- The process `"app"` connects, gets a client, and answers its first probe. -/
def firstProbe : List (Event × Outside) :=
  [(.spawn 7, obliging), (.accept 3, obliging),
   (.handshake 3 (some ⟨"app", 7, 1000, delayRealtime⟩), obliging),
   (.request (.register ⟨⟨"app", [4, 2, 0]⟩, false, -1, ⟨1, 0, 7⟩⟩), obliging),
   (.response 3 (some procObsAlive), obliging)]

/-- It answers the next probe as well; then its client cancels and registers again. -/
theorem responsive_not_condemned_app : Run.Along (Watch.step 0)
    (fun w e _ => ¬ w.enf.Condemns e 0 ∧ (w.unanswered ≠ [] → w.enf.listens 0))
    ⟨init [4, 2] fun _ => 0, []⟩
    (firstProbe ++ [(.timer 1, obliging),
      (.request (.cancel ⟨⟨"app", [4, 2, 0]⟩, ⟨1, 0, 7⟩⟩), obliging),
      (.response 3 (some procObsAlive), obliging),
      (.request (.register ⟨⟨"app", [4, 2, 0]⟩, false, -1, ⟨1, 0, 7⟩⟩), obliging)]) :=
  responsive_not_condemned [4, 2] (fun _ => 0) 0 _ (by decide)

/-- Its client cancels and registers again within the poll period.  The process answers the probe of
either monitoring, and then the timer of the first one expires. -/
def restartedWithinPoll : List (Event × Outside) :=
  firstProbe ++ [(.request (.cancel ⟨⟨"app", [4, 2, 0]⟩, ⟨1, 0, 7⟩⟩), obliging),
   (.request (.register ⟨⟨"app", [4, 2, 0]⟩, false, -1, ⟨1, 0, 7⟩⟩), obliging),
   (.timer 1, obliging), (.response 3 (some procObsAlive), obliging),
   (.response 3 (some procObsAlive), obliging), (.timer 2, obliging)]

/-- The first of the two answers has removed the timer of the second probe. -/
theorem answered_process_condemned :
    Run.Along (Watch.step 0) (fun w e _ => Responsive 0 w e) ⟨init [4, 2] fun _ => 0, []⟩
      restartedWithinPoll ∧
    ¬ Run.Along (Watch.step 0) (fun w e _ => ¬ w.enf.Condemns e 0) ⟨init [4, 2] fun _ => 0, []⟩
      restartedWithinPoll := by
  decide

end ProcessEnforcer

end Falcon
