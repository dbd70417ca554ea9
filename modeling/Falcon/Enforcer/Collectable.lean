import Falcon.Enforcer.Effect

/-!
# Enforcer/Collectable — every registered client can be collected

A client that dies is noticed by its heartbeat, and `RemoveClient` then finds its registrations in
`up_intervals_`.  For this the object in `target_clients_` must be the one in `all_clients_`, must
list the target, and must have its heartbeat running (`Collectable`).

The sets compare by name, the callbacks carry objects.  So a callback of an object that has already
left `all_clients_` can call `RemoveClient` on it and erase, under the same name, a newer object,
while it walks the intervals of the old one: `collectable_iff` says that this is the only way.
-/

namespace Falcon.Enforcer

variable {s s' : Enforcer} {e : Event} {t : Handle} {c : ClientRef} {id : ClientId}

/-- A heartbeat of the object is under way or due. -/
def Beating (s : Enforcer) (c : ClientRef) : Prop :=
  ∃ n, .heartbeatCall c n ∈ s.pending ∨ .heartbeatTimer c n ∈ s.pending

/-- Every registered object is the one `all_clients_` holds, lists the target and has a heartbeat.
-/
def Collectable (s : Enforcer) : Prop :=
  ∀ t id c, (s.targetClients t).lookup id = some c →
    s.allClients.lookup id = some c ∧ t ∈ (s.clients c).upIntervals ∧ s.Beating c

/-- The event is a callback that calls `RemoveClient(c)`: the heartbeats are exhausted, the attempts
at a down report are exhausted, or the last report the object waits for is acknowledged. -/
def Removes (s : Enforcer) (e : Event) (c : ClientRef) : Prop :=
  (∃ n st, e = .fire (.heartbeatCall c n) st ∧ st ≠ .success ∧ ¬ n < kClientRetry ∧
      (s.clients c).id ∈ s.allClients) ∨
    (∃ arg st, e = .fire (.downCall c arg kMaxRetries) st ∧ st ≠ .success) ∨
    ∃ arg n, e = .fire (.downCall c arg n) .success ∧ n ≠ 0 ∧
      Keyed.isEmpty ((s.clients c).upIntervals.erase arg.handle) = true

/-- What is removed lists every target a client of its name is registered for, but for the one whose
report is being acknowledged. -/
def SafeRemoval (s : Enforcer) (e : Event) : Prop :=
  ∀ c, s.Removes e c → ∀ t, (s.clients c).id ∈ s.targetClients t →
    t ∈ (s.clients c).upIntervals ∨ AcksDown e c t

/-- The invariant: heartbeats run for all clients, registered objects are the current ones. -/
structure Tracked (s : Enforcer) : Prop where
  beats : ∀ id c, s.allClients.lookup id = some c → s.Beating c
  held : ∀ t id c, (s.targetClients t).lookup id = some c →
    s.allClients.lookup id = some c ∧ t ∈ (s.clients c).upIntervals

theorem Tracked.collectable (h : s.Tracked) : s.Collectable := fun t id c hc =>
  ⟨(h.held t id c hc).1, (h.held t id c hc).2, h.beats id c (h.held t id c hc).1⟩

/-! ## Methods that only add -/

/-- No client and no registration is new, and no interval and no callback is lost. -/
structure Steady (s s' : Enforcer) : Prop where
  all : s'.allClients = s.allClients
  target : ∀ t id c, (s'.targetClients t).lookup id = some c →
    (s.targetClients t).lookup id = some c
  intervals : ∀ c, ∀ t ∈ (s.clients c).upIntervals, t ∈ (s'.clients c).upIntervals
  pending : ∀ cb ∈ s.pending, cb ∈ s'.pending

theorem Steady.refl (s : Enforcer) : Steady s s :=
  ⟨rfl, fun _ _ _ h => h, fun _ _ h => h, fun _ h => h⟩

theorem Steady.trans {s₁ s₂ s₃ : Enforcer} (h : Steady s₁ s₂) (h' : Steady s₂ s₃) :
    Steady s₁ s₃ where
  all := h'.all.trans h.all
  target t id c hc := h.target t id c (h'.target t id c hc)
  intervals c t ht := h'.intervals c t (h.intervals c t ht)
  pending cb hcb := h'.pending cb (h.pending cb hcb)

theorem Beating.mono (h : ∀ cb ∈ s.pending, cb ∈ s'.pending) (hc : s.Beating c) : s'.Beating c := by
  obtain ⟨n, hn⟩ := hc
  exact ⟨n, hn.imp (h _) (h _)⟩

theorem Steady.tracked (h : Steady s s') (hs : s.Tracked) : s'.Tracked where
  beats id c hc := (hs.beats id c (h.all ▸ hc)).mono h.pending
  held t id c hc := by
    obtain ⟨hall, ht⟩ := hs.held t id c (h.target t id c hc)
    exact ⟨h.all.symm ▸ hall, h.intervals c t ht⟩

theorem steady_note (a : Action) : Steady s (s.note a) :=
  ⟨rfl, fun _ _ _ h => h, fun _ _ h => h, fun _ h => h⟩

theorem steady_await (cb : Callback) : Steady s (s.await cb) :=
  ⟨rfl, fun _ _ _ h => h, fun _ _ h => h, fun _ h => List.mem_cons_of_mem _ h⟩

theorem steady_setInterval (d : ℤ) : Steady s (s.setInterval c t d) := by
  refine ⟨rfl, fun _ _ _ h => h, fun c' t' ht' => ?_, fun _ h => h⟩
  by_cases hc : c' = c
  · subst hc
    simp only [setInterval, setIntervals, Function.update_self]
    exact (AList.mem_insert _).mpr (Or.inr ht')
  · simpa [hc] using ht'

theorem steady_addToWaiting : Steady s (s.addToWaiting t c) :=
  addToWaiting_cases (Steady.refl s) fun _ =>
    ⟨rfl, fun _ _ _ h => h, fun _ _ h => h, fun _ h => h⟩

theorem steady_repeatWaiting : Steady s (s.repeatWaiting t c) :=
  repeatWaiting_cases (Steady.refl s) (fun _ => (steady_setInterval 0).trans steady_addToWaiting)
    steady_addToWaiting (steady_await _)

theorem steady_observeUp : Steady s (s.observeUp t) := by
  have h0 : Steady s { s with waitingForUp := Function.update s.waitingForUp t ∅ } :=
    ⟨rfl, fun _ _ _ h => h, fun _ _ h => h, fun _ h => h⟩
  exact h0.trans (Run.foldl_rel Steady.refl (fun _ _ _ => Steady.trans)
    (fun _ _ => (steady_note _).trans steady_repeatWaiting) _ _)

theorem steady_observeDown (st : UInt32) (k w : Bool) : Steady s (s.observeDown t st k w) := by
  rw [observeDown_eq]
  exact ⟨rfl, fun _ _ _ h => lookup_of_lookup_update_empty h, fun _ _ h => h,
    fun _ h => List.mem_append_right _ h⟩

theorem steady_updateGenerations (layer : LayerAnswer) :
    Steady s (s.updateGenerations t layer) := by
  obtain ⟨lines, h⟩ := updateGenerations_eq t layer s
  rw [h]
  exact ⟨rfl, fun _ _ _ h => h, fun _ _ h => h, fun _ h => h⟩

theorem steady_license (lethal : Bool) : Steady s (s.license lethal c t) := by
  unfold license
  split
  · exact ⟨rfl, fun _ _ _ h => h, fun _ _ h => h, fun _ h => h⟩
  · exact Steady.refl s

/-! ## Methods that register, release and remove -/

theorem tracked_getClient (hn : s.Named) (hs : s.Tracked) (addr : ClientAddr) :
    (s.getClient addr).1.Tracked := by
  unfold getClient
  split
  · exact hs
  · next hnone =>
    have hfresh : addr.id ∉ s.allClients := AList.lookup_eq_none.mp hnone
    refine ⟨fun id c hc => ?_, fun t id c hc => ?_⟩
    · obtain hold | ⟨-, rfl⟩ := Keyed.lookup_of_lookup_add hc
      · exact (hs.beats id c hold).mono fun _ h => List.mem_cons_of_mem _ h
      · exact ⟨0, Or.inl List.mem_cons_self⟩
    · obtain ⟨hall, ht⟩ := hs.held t id c hc
      have hid : id ≠ addr.id := fun h => hfresh (h ▸ Keyed.mem_of_lookup hall)
      have hc' : c ≠ s.nextRef := Nat.ne_of_lt (hn.all id c hall).1
      exact ⟨(Keyed.lookup_add_ne hid).trans hall, by simpa [hc'] using ht⟩

/-- The two insertions of `SPY_REGISTER`, for the object `GetClient` returned. -/
theorem tracked_enroll (hs : s.Tracked) (hc : s.allClients.lookup (s.clients c).id = some c)
    (d : ℤ) : ((s.enroll c t).setInterval c t d).Tracked := by
  refine ⟨fun id c' h => hs.beats id c' h, fun t' id c' h => ?_⟩
  have hkeep : ∀ t', t' ∈ (s.clients c').upIntervals →
      t' ∈ (((s.enroll c t).setInterval c t d).clients c').upIntervals :=
    fun t' => (steady_setInterval (s := s.enroll c t) d).intervals c' t'
  have hold : ∀ t', (s.targetClients t').lookup id = some c' →
      s.allClients.lookup id = some c' ∧
        t' ∈ (((s.enroll c t).setInterval c t d).clients c').upIntervals := fun t' h =>
    ⟨(hs.held t' id c' h).1, hkeep t' (hs.held t' id c' h).2⟩
  by_cases ht : t' = t
  · subst ht
    simp only [enroll, setInterval, setIntervals, Function.update_self] at h
    obtain h | ⟨rfl, rfl⟩ := Keyed.lookup_of_lookup_add h
    · exact hold t' h
    · exact ⟨hc, by simp [enroll, AList.mem_insert]⟩
  · exact hold t' (by simpa [enroll, ht] using h)

/-- The release of one target, which the acknowledgement of a report and `SPY_CANCEL` share. -/
theorem tracked_release (hn : s.Named) (hs : s.Tracked) :
    ((s.eraseInterval c t).unregister (s.clients c).id t).Tracked := by
  obtain ⟨htarget, -⟩ := eraseInterval_unregister (s := s) (c := c) (t := t) (s.clients c).id
  refine ⟨fun id c' h => hs.beats id c' h, fun t' id c' h => ?_⟩
  rw [htarget] at h
  have hold := lookup_of_lookup_dropWhere h
  obtain ⟨hall, ht'⟩ := hs.held t' id c' hold
  refine ⟨hall, ?_⟩
  by_cases hc : c' = c
  · subst hc
    have hne : t' ≠ t := by
      rintro rfl
      have hmem := (mem_dropWhere.mp (Keyed.mem_of_lookup h)).2
      exact hmem ⟨rfl, ((hn.all id c' hall).2).symm⟩
    simp only [unregister, eraseInterval, setIntervals, Function.update_self]
    exact AList.mem_erase.mpr ⟨hne, ht'⟩
  · simpa [hc] using ht'

/-- **`RemoveClient` keeps the others collectable** if the object it is given lists every target its
name is registered for; its own heartbeat is not needed any more. -/
theorem tracked_removeClient (hn : s.Named)
    (hbeats : ∀ id c', s.allClients.lookup id = some c' → c' ≠ c → s.Beating c')
    (hheld : ∀ t id c', (s.targetClients t).lookup id = some c' →
      s.allClients.lookup id = some c' ∧ t ∈ (s.clients c').upIntervals)
    (hc : ∀ t, (s.clients c).id ∈ s.targetClients t → t ∈ (s.clients c).upIntervals) :
    (s.removeClient c).Tracked := by
  rw [removeClient_eq]
  refine ⟨fun id c' h => hbeats id c' (Keyed.lookup_of_lookup_erase h) ?_, fun t id c' h => ?_⟩
  · rintro rfl
    rw [← (hn.all id c' (Keyed.lookup_of_lookup_erase h)).2] at h
    exact Option.some_ne_none c' (h.symm.trans (AList.lookup_erase _ _))
  obtain ⟨hall, ht⟩ := hheld t id c' (lookup_of_lookup_dropWhere h)
  obtain ⟨hmem, hstays⟩ := mem_dropWhere.mp (Keyed.mem_of_lookup h)
  have hid : id ≠ (s.clients c).id := fun hid =>
    hstays ⟨AList.mem_keys.mp (hc t (hid ▸ hmem)), hid⟩
  exact ⟨(AList.lookup_erase_ne hid).trans hall, ht⟩

/-- After the release of its last target, no target is left to the name of the object. -/
theorem released_unlisted
    (hc : ∀ t', (s.clients c).id ∈ s.targetClients t' → t' ∈ (s.clients c).upIntervals ∨ t' = t)
    (hidle : Keyed.isEmpty ((s.clients c).upIntervals.erase t) = true) (t' : Handle) :
    (s.clients c).id ∉ ((s.eraseInterval c t).unregister (s.clients c).id t).targetClients t' := by
  obtain ⟨htarget, -⟩ := eraseInterval_unregister (s := s) (c := c) (t := t) (s.clients c).id
  rw [htarget, mem_dropWhere]
  rintro ⟨hmem, hne⟩
  have hne : t' ≠ t := fun h => hne ⟨h, rfl⟩
  have hlisted := (hc t' hmem).resolve_right hne
  exact Keyed.isEmpty_iff.mp hidle t' (AList.mem_erase.mpr ⟨hne, hlisted⟩)

/-- The object after the release. -/
theorem release_clients : (((s.eraseInterval c t).unregister id t).clients c) =
    ⟨(s.clients c).id, (s.clients c).clientTag, (s.clients c).upIntervals.erase t⟩ :=
  Function.update_self ..

/-! ## Requests -/

theorem tracked_register (hs : s.Tracked) (arg : SpyRegisterArg)
    (hc : s.allClients.lookup (s.clients c).id = some c) : (s.register arg c).Tracked := by
  have henlist : (s.enlist arg c).Tracked :=
    (steady_repeatWaiting.trans (steady_license arg.lethal)).tracked
      (tracked_enroll hs hc arg.upIntervalMs)
  exact register_cases henlist ((steady_note _).tracked henlist)

theorem tracked_cancel (hn : s.Named) (hs : s.Tracked)
    (hc : s.allClients.lookup (s.clients c).id = some c) : (s.cancel t c).Tracked := by
  have hlists : ∀ t', (s.clients c).id ∈ s.targetClients t' → t' ∈ (s.clients c).upIntervals := by
    intro t' ht'
    obtain ⟨c', hc'⟩ := Keyed.exists_lookup ht'
    obtain ⟨hall, hmem⟩ := hs.held t' _ c' hc'
    obtain rfl : c' = c := Option.some.inj (hall.symm.trans hc)
    exact hmem
  set s₁ := (s.eraseInterval c t).unregister (s.clients c).id t with hs₁
  set s₂ := if (s₁.targetClients t).isEmpty then s₁.note (.stopMonitoring t) else s₁ with hs₂
  have h₂ : s₂.Tracked := by
    rw [hs₂]
    split
    · exact (steady_note _).tracked (tracked_release hn hs)
    · exact tracked_release hn hs
  have hn₂ : s₂.Named := by
    have h₁ : Keeps s s₁ := (keeps_setIntervals _).trans keeps_unregister
    rw [hs₂]
    split
    · exact (h₁.trans (keeps_note _)).named hn
    · exact h₁.named hn
  have hsame : s₂.clients = s₁.clients ∧ s₂.targetClients = s₁.targetClients := by
    rw [hs₂]
    split <;> exact ⟨rfl, rfl⟩
  have hcancel : s.cancel t c = if (s₂.clients c).upIntervals.isEmpty then s₂.removeClient c
      else s₂ := rfl
  rw [hcancel]
  split
  · next hidle =>
    rw [hsame.1, hs₁, release_clients] at hidle
    refine tracked_removeClient hn₂ (fun id c' h _ => h₂.beats id c' h) h₂.held fun t' ht' => ?_
    rw [hsame.1, hsame.2, hs₁, release_clients] at ht'
    exact (released_unlisted (fun t' h => Or.inl (hlists t' h)) hidle t' ht').elim
  · exact h₂

theorem tracked_dispatch (hn : s.Named) (hs : s.Tracked) (req : Request) (layer : LayerAnswer) :
    (s.dispatch req layer).Tracked := by
  have hup : (s.updateGenerations req.target layer).Tracked :=
    (steady_updateGenerations layer).tracked hs
  have hnup : (s.updateGenerations req.target layer).Named :=
    (keeps_updateGenerations layer).named hn
  have hget : ∀ addr, ((s.updateGenerations req.target layer).getClient addr).1.allClients.lookup
      (((s.updateGenerations req.target layer).getClient addr).1.clients
        ((s.updateGenerations req.target layer).getClient addr).2).id
      = some ((s.updateGenerations req.target layer).getClient addr).2 := by
    intro addr
    obtain ⟨-, hnames, hall⟩ := getClient_spec hnup addr
    exact hnames.2.symm ▸ hall
  have htr := tracked_getClient hnup hup
  refine dispatch_cases (P := Tracked) (fun _ => hs) (fun _ _ _ => (steady_note _).tracked hs)
    (fun _ => (steady_note _).tracked hup) (fun arg _ _ _ => ?_) (fun arg _ _ _ => ?_)
    (fun arg _ _ _ => (steady_note _).tracked (htr arg.client))
    fun _ _ _ _ => ((steady_note _).trans (steady_note _)).tracked hup
  · exact (steady_note _).tracked (tracked_register (htr arg.client) arg (hget arg.client))
  · have hn' := (getClient_spec hnup arg.client).1.named hnup
    exact (steady_note _).tracked (tracked_cancel hn' (htr arg.client) (hget arg.client))

/-! ## Callbacks -/

/-- Taking a callback that is not a heartbeat out of the event loop changes nothing here. -/
theorem tracked_take {cb : Callback} (hs : s.Tracked)
    (hcb : ∀ c n, cb ≠ .heartbeatCall c n ∧ cb ≠ .heartbeatTimer c n) : (s.take cb).Tracked := by
  refine ⟨fun id c hc => ?_, hs.held⟩
  obtain ⟨n, hn⟩ := hs.beats id c hc
  exact ⟨n, hn.imp (List.mem_erase_of_ne (hcb c n).1.symm).mpr
    (List.mem_erase_of_ne (hcb c n).2.symm).mpr⟩

/-- Taking a heartbeat of `c` out of the event loop, and going on with one that makes up for it if
`c` is still a client. -/
theorem tracked_take_beat {cb : Callback} (hs : s.Tracked)
    (hcb : ∀ c' n, c' ≠ c → cb ≠ .heartbeatCall c' n ∧ cb ≠ .heartbeatTimer c' n)
    (hsteady : Steady (s.take cb) s')
    (hbeat : ∀ id, s.allClients.lookup id = some c → s'.Beating c) :
    s'.Tracked := by
  refine ⟨fun id c' hc' => ?_, fun t id c' hc' => ?_⟩
  · have hall : s.allClients.lookup id = some c' := hsteady.all ▸ hc'
    by_cases h : c' = c
    · subst h; exact hbeat id hall
    · obtain ⟨n, hn⟩ := hs.beats id c' hall
      exact ⟨n, hn.imp
        (fun hm => hsteady.pending _ ((List.mem_erase_of_ne (hcb c' n h).1.symm).mpr hm))
        fun hm => hsteady.pending _ ((List.mem_erase_of_ne (hcb c' n h).2.symm).mpr hm)⟩
  · obtain ⟨hall, ht⟩ := hs.held t id c' (hsteady.target t id c' hc')
    exact ⟨hsteady.all.symm ▸ hall, hsteady.intervals c' t ht⟩

theorem tracked_heartbeatCall {n : ℕ} {st : ClntStat} (hn : s.Named) (hs : s.Tracked)
    (hsafe : s.SafeRemoval (.fire (.heartbeatCall c n) st)) :
    ((s.take (.heartbeatCall c n)).handleClientHeartbeat c n st).Tracked := by
  have hcb : ∀ c' m, c' ≠ c → Callback.heartbeatCall c n ≠ .heartbeatCall c' m ∧
      Callback.heartbeatCall c n ≠ .heartbeatTimer c' m :=
    fun c' m h => ⟨fun h' => by injection h' with h'; exact h h'.symm, nofun⟩
  refine handleClientHeartbeat_cases (P := Tracked) (fun hgone => ?_) (fun _ _ => ?_)
    (fun _ _ _ => ?_) fun hthere hst hretry => ?_
  · refine tracked_take_beat hs hcb (Steady.refl _) fun id hc => ?_
    -- the chain of an object that is no client any more may end
    exact (hgone ((hn.all id c hc).2.symm ▸ Keyed.mem_of_lookup hc)).elim
  · exact tracked_take_beat hs hcb (steady_await _) fun _ _ => ⟨0, Or.inr List.mem_cons_self⟩
  · exact tracked_take_beat hs hcb (steady_await _) fun _ _ =>
      ⟨n + 1, Or.inl List.mem_cons_self⟩
  · refine tracked_removeClient (c := c) ⟨hn.all, hn.target⟩ (fun id c' hc' hne => ?_) hs.held
      fun t ht => ?_
    · obtain ⟨m, hm⟩ := hs.beats id c' hc'
      exact ⟨m, hm.imp (List.mem_erase_of_ne (hcb c' m hne).1.symm).mpr
        (List.mem_erase_of_ne (hcb c' m hne).2.symm).mpr⟩
    · refine (hsafe c (Or.inl ⟨n, st, rfl, hst, hretry, hthere⟩) t ht).resolve_right ?_
      rintro ⟨_, _, h, -⟩
      cases h

theorem tracked_downCall {arg : ClientDownArg} {n : ℕ} {st : ClntStat} (hn : s.Named)
    (hs : s.Tracked) (hsafe : s.SafeRemoval (.fire (.downCall c arg n) st)) :
    ((s.take (.downCall c arg n)).reportDown c arg n st).Tracked := by
  set s₁ := s.take (.downCall c arg n)
  have hn₁ : s₁.Named := ⟨hn.all, hn.target⟩
  have h₁ : s₁.Tracked := tracked_take hs fun _ _ => ⟨nofun, nofun⟩
  refine reportDown_cases (P := Tracked) (fun _ => tracked_release hn₁ h₁) (fun hack hidle => ?_)
    (fun hack hlast => ?_) fun _ _ => ((steady_note _).trans (steady_await _)).tracked h₁
  · obtain ⟨rfl, hn0⟩ := hack
    have hnamed : ((s₁.eraseInterval c arg.handle).unregister (s₁.clients c).id
        arg.handle).Named := ((keeps_setIntervals _).trans keeps_unregister).named hn₁
    have h₂ := tracked_release (c := c) (t := arg.handle) hn₁ h₁
    rw [release_clients] at hidle
    refine tracked_removeClient hnamed (fun id c' h _ => h₂.beats id c' h) h₂.held fun t ht => ?_
    rw [release_clients] at ht
    refine (released_unlisted (fun t' ht' => ?_) hidle t ht).elim
    refine (hsafe c (Or.inr (Or.inr ⟨arg, n, rfl, hn0, hidle⟩)) t' ht').imp_right ?_
    rintro ⟨arg', n', h, -, ht⟩
    injection h with h
    injection h with _ h
    exact h ▸ ht.symm
  · subst hlast
    have hst : st ≠ .success := fun h => hack ⟨h, by decide⟩
    refine tracked_removeClient (c := c) ⟨hn.all, hn.target⟩ (fun id c' h _ => h₁.beats id c' h)
      h₁.held fun t ht => ?_
    refine (hsafe c (Or.inr (Or.inl ⟨arg, st, rfl, hst⟩)) t ht).resolve_right ?_
    rintro ⟨_, _, h, -⟩
    injection h with _ h
    exact hst h

/-! ## Every run -/

theorem tracked_step (hn : s.Named) (hs : s.Tracked) (h : step s e = some s')
    (hsafe : s.SafeRemoval e) : s'.Tracked := by
  cases e with
  | request req layer => exact Option.some.inj h ▸ tracked_dispatch hn hs req layer
  | fire cb st =>
    obtain ⟨-, rfl⟩ := step_fire.mp h
    cases cb with
    | heartbeatCall c n => exact tracked_heartbeatCall hn hs hsafe
    | heartbeatTimer c n =>
      refine tracked_take_beat (c := c) hs (fun c' m hne => ⟨?_, fun h => ?_⟩)
        (steady_await _) fun _ _ => ⟨n, Or.inl List.mem_cons_self⟩
      · rintro ⟨⟩
      · injection h with h
        exact hne h.symm
    | downCall c arg n => exact tracked_downCall hn hs hsafe
    | waitingTimer t c =>
      exact steady_addToWaiting.tracked
        (tracked_take hs fun _ _ => ⟨nofun, nofun⟩)
  | observeUp t => exact Option.some.inj h ▸ steady_observeUp.tracked hs
  | observeDown t st k w => exact Option.some.inj h ▸ (steady_observeDown st k w).tracked hs

/-- `RemoveClient` takes the name out of `all_clients_`, and leaves it registered for the targets
the object does not list. -/
theorem removeClient_unlisted : (s.removeClient c).allClients.lookup (s.clients c).id = none ∧
    ∀ t, (s.clients c).id ∈ s.targetClients t → t ∉ (s.clients c).upIntervals →
      (s.clients c).id ∈ (s.removeClient c).targetClients t := by
  rw [removeClient_eq]
  exact ⟨AList.lookup_erase _ _, fun t hmem hno =>
    mem_dropWhere.mpr ⟨hmem, fun h => hno (AList.mem_keys.mpr h.1)⟩⟩

theorem removes_spec (h : step s e = some s') (hr : s.Removes e c) :
    s'.allClients.lookup (s.clients c).id = none ∧
      ∀ t, (s.clients c).id ∈ s.targetClients t → t ∉ (s.clients c).upIntervals →
        ¬ AcksDown e c t → (s.clients c).id ∈ s'.targetClients t := by
  obtain ⟨n, st, rfl, hst, hretry, hthere⟩ | ⟨arg, st, rfl, hst⟩ | ⟨arg, n, rfl, hn, hidle⟩ := hr
  · obtain ⟨-, rfl⟩ := step_fire.mp h
    set s₁ := s.take (.heartbeatCall c n)
    have hcall : s₁.call (.heartbeatCall c n) st =
        (s₁.note (.gaveUp (s₁.clients c).id)).removeClient c := by
      have hthere₁ : (s₁.clients c).id ∈ s₁.allClients := hthere
      rw [call, handleClientHeartbeat, if_neg (not_not.mpr hthere₁), if_neg hst, if_neg hretry]
    rw [hcall]
    obtain ⟨hgone, hstays⟩ :=
      removeClient_unlisted (s := s₁.note (.gaveUp (s₁.clients c).id)) (c := c)
    exact ⟨hgone, fun t hmem hno _ => hstays t hmem hno⟩
  · obtain ⟨-, rfl⟩ := step_fire.mp h
    set s₁ := s.take (.downCall c arg kMaxRetries)
    have hcall : s₁.call (.downCall c arg kMaxRetries) st =
        (s₁.note (.gaveUp (s₁.clients c).id)).removeClient c := by
      rw [call, reportDown, if_neg fun h => hst h.1, if_pos rfl]
    rw [hcall]
    obtain ⟨hgone, hstays⟩ :=
      removeClient_unlisted (s := s₁.note (.gaveUp (s₁.clients c).id)) (c := c)
    exact ⟨hgone, fun t hmem hno _ => hstays t hmem hno⟩
  · obtain ⟨htarget, -⟩ := acked_spec h hn
    refine ⟨?_, fun t hmem _ hack => ?_⟩
    · obtain ⟨-, rfl⟩ := step_fire.mp h
      set s₁ := s.take (.downCall c arg n)
      set s₂ := (s₁.eraseInterval c arg.handle).unregister (s₁.clients c).id arg.handle
      have hidle₂ : (s₂.clients c).upIntervals.isEmpty = true := by
        rw [release_clients]; exact hidle
      have hid₂ : (s₂.clients c).id = (s.clients c).id := setIntervals_id _ c
      have hcall : s₁.call (.downCall c arg n) .success = s₂.removeClient c := by
        rw [call, reportDown, if_pos ⟨rfl, hn⟩]
        exact if_pos hidle₂
      rw [hcall, ← hid₂]
      exact removeClient_unlisted.1
    · rw [htarget, mem_dropWhere]
      exact ⟨hmem, fun h => hack ⟨arg, n, rfl, hn, h.1.symm⟩⟩

/-- **Every registered client is collectable, in every state of a run, exactly if every removal by a
callback is of an object that lists the targets registered under its name.** -/
theorem collectable_iff (gv : List GenNo) (gens : Handle → GenNo) (es : List Event) :
    Run.Always step Collectable (init gv gens) es ↔
      Run.Along step (fun s e _ => s.SafeRemoval e) (init gv gens) es := by
  refine Run.always_iff_of_inv (I := fun s => s.Named ∧ s.Tracked) (fun s hs => hs.2.collectable)
    (fun s e s' h hs hC => ⟨named_step hs.1 h, tracked_step hs.1 hs.2 h hC⟩) ?_
    ⟨named_init gv gens, fun _ _ h => by simp [init] at h, fun _ _ _ h => by simp [init] at h⟩
  intro s e s' h hs hcoll c hr t ht
  by_contra hnot
  obtain ⟨hgone, hstays⟩ := removes_spec h hr
  obtain ⟨c', hc'⟩ := Keyed.exists_lookup
    (hstays t ht (fun hmem => hnot (Or.inl hmem)) fun hack => hnot (Or.inr hack))
  exact Option.some_ne_none c' ((hcoll t _ c' hc').1.symm.trans hgone)

/-- A client registers for `"app"`, is told of its down, registers for the next generation and
cancels, which removes its object; it registers for `"web"`, with a new object; then the report to
the old object is acknowledged. -/
def staleObject : List Event :=
  [.request (.register (registerApp 0)) ⟨none, false⟩,
   .observeDown "app" 1 false false,
   .request (.register (registerApp 1)) ⟨none, false⟩,
   .request (.cancel ⟨⟨"app", [1]⟩, ⟨1, 0, 7⟩⟩) ⟨none, false⟩,
   .request (.register ⟨⟨"web", [0]⟩, false, -1, ⟨1, 0, 7⟩⟩) ⟨none, false⟩,
   .fire (.downCall 0 ⟨"app", [0], 1, false, false, 7⟩ 1) .success]

/-- The acknowledgement to the old object takes the new one out of `all_clients_` and leaves it
registered for `"web"`, where nothing will collect it. -/
theorem uncollectable : ¬ Run.Always step Collectable (init [] fun _ => 0) staleObject := by
  intro h
  obtain ⟨s, hs, hreg, hgone⟩ : ∃ s, staleObject.foldlM step (init [] fun _ => 0) = some s ∧
      (s.targetClients "web").lookup ⟨1, 0, 7⟩ = some 1 ∧ s.allClients.lookup ⟨1, 0, 7⟩ = none :=
    ⟨_, rfl, by decide, by decide⟩
  have hcoll := Run.always_iff_run.mp h staleObject List.prefix_rfl s hs
  exact Option.some_ne_none 1 ((hcoll "web" _ 1 hreg).1.symm.trans hgone)

end Falcon.Enforcer
