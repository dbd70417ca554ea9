import Falcon.Enforcer.Effect

/-!
# Enforcer/Tokens — one sign of life at a time

A client is sent a `CLIENT_UP` about a target when it is in `waiting_for_up_`; the sign of life uses
the entry up, and `RepeatWaiting` makes up for it with a new entry or with a timer that will make
one.  Entry and timer are the client's *token* for the target.  A registration issues a token
without looking for the one of an earlier registration, and whoever leaves `target_clients_` leaves
its token behind, unless the target is down.

* `oneToken_iff_tidy` — in every state of a run each client has at most one token for each target,
  and only registered clients wait, exactly if no registration meets a token it doubles and nobody
  leaves a target while waiting; and then the signs of life are paced.
-/

namespace Falcon

/-- The target and the client of an `AddToWaiting` timer. -/
def Callback.timer : Callback → Option (Handle × ClientRef)
  | .waitingTimer t c => some (t, c)
  | _ => none

namespace Enforcer

variable {s s' : Enforcer} {e : Event} {t : Handle} {c : ClientRef} {id : ClientId}

/-- The `AddToWaiting` timers that are running. -/
def timers (s : Enforcer) : List (Handle × ClientRef) := s.pending.filterMap Callback.timer

/-- Whom they are for. -/
def armed (s : Enforcer) : List (ClientId × Handle) :=
  s.timers.map fun p => ((s.clients p.2).id, p.1)

/-- The tokens of the client `id` for the target `t`: its timers, and its entry. -/
def tokens (s : Enforcer) (id : ClientId) (t : Handle) : ℕ :=
  s.armed.count (id, t) + if id ∈ s.waitingForUp t then 1 else 0

/-- Only registered clients wait. -/
def WaitingRegistered (s : Enforcer) : Prop := ∀ t, ∀ id ∈ s.waitingForUp t, id ∈ s.targetClients t

/-- Each client has at most one token for each target, and waits only for targets it is registered
for. -/
structure OneToken (s : Enforcer) : Prop where
  one : ∀ id t, s.tokens id t ≤ 1
  registered : s.WaitingRegistered

/-- The request is a registration or a cancellation that passes `GenCheck`. -/
def Accepts (s : Enforcer) (layer : LayerAnswer) : Request → Prop
  | .register arg =>
    (s.updateGenerations arg.target.handle layer).genCheck arg.target.handle
      arg.target.generation layer = .success
  | .cancel arg =>
    (s.updateGenerations arg.target.handle layer).genCheck arg.target.handle
      arg.target.generation layer = .success
  | _ => False

/-- An accepted registration meets no token that the one it issues would double; and nobody leaves
a target it waits for by a cancellation, an acknowledged down report or by being given up on. -/
def Tidy (s : Enforcer) : Event → Prop
  | .request (.register arg) layer =>
    s.Accepts layer (.register arg) →
      (0 < arg.upIntervalMs → s.tokens arg.client.id arg.target.handle = 0) ∧
        (arg.upIntervalMs = 0 → (arg.client.id, arg.target.handle) ∉ s.armed)
  | .request (.cancel arg) layer =>
    s.Accepts layer (.cancel arg) → arg.client.id ∉ s.waitingForUp arg.target.handle
  | .fire (.downCall c arg n) st =>
    if st = .success ∧ n ≠ 0 then (s.clients c).id ∉ s.waitingForUp arg.handle
    else n = kMaxRetries → ∀ t ∈ s.targetsOf c, (s.clients c).id ∉ s.waitingForUp t
  | .fire (.heartbeatCall c n) st =>
    (s.clients c).id ∈ s.allClients → st ≠ .success → ¬ n < kClientRetry →
      ∀ t ∈ s.targetsOf c, (s.clients c).id ∉ s.waitingForUp t
  | _ => True

/-- The signs of life keep to their intervals: they go to registered clients without a running
timer; a client with an interval to keep has its timer afterwards, and waits no more; and a timer
runs until it goes off. -/
structure Paced (s : Enforcer) (e : Event) (s' : Enforcer) : Prop where
  told : ∀ t id arg, e = .observeUp t → .clientUp id arg ∈ s.newer s' →
    arg.handle = t ∧ id ∈ s.targetClients t ∧ (id, t) ∉ s.armed
  rearmed : ∀ t id c delay, e = .observeUp t → (s.waitingForUp t).lookup id = some c →
    (s.clients c).upIntervals.lookup t = some delay → 0 < delay →
      s'.armed.count (id, t) = 1 ∧ id ∉ s'.waitingForUp t
  runs : ∀ id t, (id, t) ∈ s.armed → (id, t) ∈ s'.armed ∨
    ∃ c st, e = .fire (.waitingTimer t c) st ∧ (s.clients c).id = id

/-! ## No token moves -/

/-- The entries and the timers are as before. -/
structure SameTokens (s s' : Enforcer) : Prop where
  waiting : s'.waitingForUp = s.waitingForUp
  timers : s'.timers = s.timers

theorem SameTokens.refl (s : Enforcer) : SameTokens s s := ⟨rfl, rfl⟩

theorem SameTokens.trans {s₁ s₂ s₃ : Enforcer} (h : SameTokens s₁ s₂) (h' : SameTokens s₂ s₃) :
    SameTokens s₁ s₃ :=
  ⟨h'.waiting.trans h.waiting, h'.timers.trans h.timers⟩

theorem sameTokens_note (a : Action) : SameTokens s (s.note a) := ⟨rfl, rfl⟩

theorem sameTokens_await {cb : Callback} (h : cb.timer = none) : SameTokens s (s.await cb) :=
  ⟨rfl, List.filterMap_cons_none h⟩

theorem sameTokens_removeClient : SameTokens s (s.removeClient c) := by
  rw [removeClient_eq]
  exact ⟨rfl, rfl⟩

theorem sameTokens_handleClientHeartbeat (n : ℕ) (st : ClntStat) :
    SameTokens s (s.handleClientHeartbeat c n st) :=
  handleClientHeartbeat_cases (fun _ => SameTokens.refl s) (fun _ _ => sameTokens_await rfl)
    (fun _ _ _ => sameTokens_await rfl)
    fun _ _ _ => (sameTokens_note _).trans sameTokens_removeClient

theorem sameTokens_reportDown (arg : ClientDownArg) (n : ℕ) (st : ClntStat) :
    SameTokens s (s.reportDown c arg n st) := by
  have herase : SameTokens s
      ((s.eraseInterval c arg.handle).unregister (s.clients c).id arg.handle) := ⟨rfl, rfl⟩
  exact reportDown_cases (fun _ => herase) (fun _ _ => herase.trans sameTokens_removeClient)
    (fun _ _ => (sameTokens_note _).trans sameTokens_removeClient)
    fun _ _ => (sameTokens_note _).trans (sameTokens_await rfl)

theorem sameTokens_getClient (addr : ClientAddr) : SameTokens s (s.getClient addr).1 := by
  unfold getClient
  split
  · exact SameTokens.refl s
  · exact ⟨rfl, List.filterMap_cons_none rfl⟩

theorem sameTokens_updateGenerations (layer : LayerAnswer) :
    SameTokens s (s.updateGenerations t layer) := by
  obtain ⟨lines, h⟩ := updateGenerations_eq t layer s
  rw [h]
  exact ⟨rfl, rfl⟩

theorem updateGenerations_targetClients {layer : LayerAnswer} :
    (s.updateGenerations t layer).targetClients = s.targetClients := by
  obtain ⟨lines, h⟩ := updateGenerations_eq t layer s
  rw [h]

theorem sameTokens_license (lethal : Bool) : SameTokens s (s.license lethal c t) := by
  unfold license
  split <;> exact ⟨rfl, rfl⟩

theorem sameTokens_cancel : SameTokens s (s.cancel t c) := by
  have herase : SameTokens s ((s.eraseInterval c t).unregister (s.clients c).id t) := ⟨rfl, rfl⟩
  exact cancel_cases herase (herase.trans (sameTokens_note _))
    (herase.trans sameTokens_removeClient)
    ((herase.trans (sameTokens_note _)).trans sameTokens_removeClient)

/-! ## A token is issued -/

/-- What may become of the token that `AddToWaiting` or `RepeatWaiting` is called with. -/
inductive Issue (s : Enforcer) (t : Handle) (c : ClientRef) (s' : Enforcer) : Prop
  | lapse (h : SameTokens s s')
  | wait (hmem : (s.clients c).id ∈ s.targetClients t)
      (hwaiting : s'.waitingForUp =
        Function.update s.waitingForUp t ((s.waitingForUp t).add (s.clients c).id c))
      (htimers : s'.timers = s.timers)
  | timer (hwaiting : s'.waitingForUp = s.waitingForUp) (htimers : s'.timers = (t, c) :: s.timers)

theorem addToWaiting_issue : Issue s t c (s.addToWaiting t c) :=
  addToWaiting_cases (.lapse (SameTokens.refl s)) fun hmem => .wait hmem rfl rfl

theorem repeatWaiting_issue : Issue s t c (s.repeatWaiting t c) := by
  refine repeatWaiting_cases (.lapse (SameTokens.refl s)) (fun hmem => ?_) addToWaiting_issue
    (.timer rfl rfl)
  -- `addToWaiting` asks again for the client it has just found
  have hid : ((s.setInterval c t 0).clients c).id = (s.clients c).id := setIntervals_id _ c
  have hmem' : ((s.setInterval c t 0).clients c).id ∈ (s.setInterval c t 0).targetClients t :=
    hid ▸ hmem
  rw [addToWaiting, if_pos hmem', hid]
  exact .wait hmem rfl rfl

/-- What `RepeatWaiting` does for a registered client. -/
theorem repeatWaiting_registered {delay : ℤ} (hmem : (s.clients c).id ∈ s.targetClients t)
    (hdelay : (s.clients c).upIntervals.lookup t = some delay) :
    s.repeatWaiting t c = if delay < 0 then s else if delay = 0 then s.addToWaiting t c
      else s.await (.waitingTimer t c) := by
  simp only [repeatWaiting, if_pos hmem, hdelay]

/-! ## What holds besides the count -/

/-- The objects that wait and those with a running timer are allocated, and under their names. -/
structure Placed (s : Enforcer) : Prop where
  named : s.Named
  waiting : ∀ t, s.NamedSet (s.waitingForUp t)
  timers : ∀ p ∈ s.timers, p.2 < s.nextRef

theorem armed_of_keeps (hk : Keeps s s') (hs : s.Placed) (h : s'.timers = s.timers) :
    s'.armed = s.armed := by
  unfold armed
  rw [h]
  exact List.map_congr_left fun p hp => by rw [hk.ids _ (hs.timers p hp)]

theorem SameTokens.placed (h : SameTokens s s') (hk : Keeps s s') (hs : s.Placed) : s'.Placed where
  named := hk.named hs.named
  waiting t' k c' hc' := hk.names (hs.waiting t' k c' (h.waiting ▸ hc'))
  timers p hp := Nat.lt_of_lt_of_le (hs.timers p (h.timers ▸ hp)) hk.grows

theorem SameTokens.tokens (h : SameTokens s s') (hk : Keeps s s') (hs : s.Placed) :
    s'.tokens = s.tokens := by
  funext k t'
  rw [Enforcer.tokens, Enforcer.tokens, armed_of_keeps hk hs h.timers, h.waiting]

/-- A client that starts to wait has a token of its own, whatever it had before. -/
theorem tokens_wait (hk : Keeps s s') (hs : s.Placed) (hwaiting : s'.waitingForUp =
      Function.update s.waitingForUp t ((s.waitingForUp t).add id c))
    (htimers : s'.timers = s.timers) (k : ClientId) (t' : Handle) :
    s'.tokens k t' =
      if k = id ∧ t' = t then s.armed.count (k, t') + 1 else s.tokens k t' := by
  rw [Enforcer.tokens, Enforcer.tokens, armed_of_keeps hk hs htimers, hwaiting]
  by_cases ht : t' = t
  · subst ht
    simp only [Function.update_self, Keyed.mem_add, and_true]
    split_ifs <;> grind
  · simp [ht]

/-- A timer is one more token. -/
theorem tokens_timer (hk : Keeps s s') (hs : s.Placed) (hc : s.Names id c)
    (hwaiting : s'.waitingForUp = s.waitingForUp) (htimers : s'.timers = (t, c) :: s.timers)
    (k : ClientId) (t' : Handle) :
    s'.tokens k t' = s.tokens k t' + if k = id ∧ t' = t then 1 else 0 := by
  have harmed : s'.armed = (id, t) :: s.armed := by
    unfold armed
    rw [htimers, List.map_cons, hk.ids c hc.1, hc.2]
    exact congrArg _ (List.map_congr_left fun p hp => by rw [hk.ids _ (hs.timers p hp)])
  rw [Enforcer.tokens, Enforcer.tokens, harmed, hwaiting, List.count_cons]
  simp only [beq_iff_eq, Prod.mk.injEq]
  grind

theorem Issue.tokens (h : Issue s t c s') (hk : Keeps s s') (hs : s.Placed) (hc : s.Names id c)
    (k : ClientId) (t' : Handle) :
    s'.tokens k t' ≤ s.tokens k t' + if k = id ∧ t' = t then 1 else 0 := by
  cases h with
  | lapse h => rw [h.tokens hk hs]; exact Nat.le_add_right _ _
  | wait _ hwaiting htimers =>
    rw [tokens_wait hk hs hwaiting htimers, hc.2]
    split_ifs
    · exact Nat.add_le_add_right (Nat.le_add_right _ _) 1
    · exact Nat.le_refl _
  | timer hwaiting htimers => exact Nat.le_of_eq (tokens_timer hk hs hc hwaiting htimers k t')

theorem Issue.placed (h : Issue s t c s') (hk : Keeps s s') (hs : s.Placed) (hc : c < s.nextRef) :
    s'.Placed := by
  cases h with
  | lapse h => exact h.placed hk hs
  | wait _ hwaiting htimers =>
    refine ⟨hk.named hs.named, fun t' k c' hc' => ?_, fun p hp => ?_⟩
    · rw [hwaiting] at hc'
      by_cases ht : t' = t
      · subst ht
        rw [Function.update_self] at hc'
        obtain hc' | ⟨rfl, rfl⟩ := Keyed.lookup_of_lookup_add hc'
        · exact hk.names (hs.waiting t' k c' hc')
        · exact hk.names ⟨hc, rfl⟩
      · exact hk.names (hs.waiting t' k c' (by rwa [Function.update_of_ne ht] at hc'))
    · exact Nat.lt_of_lt_of_le (hs.timers p (htimers ▸ hp)) hk.grows
  | timer hwaiting htimers =>
    refine ⟨hk.named hs.named, fun t' k c' hc' => hk.names (hs.waiting t' k c' (hwaiting ▸ hc')),
      fun p hp => ?_⟩
    rw [htimers] at hp
    obtain rfl | hp := List.mem_cons.mp hp
    · exact Nat.lt_of_lt_of_le hc hk.grows
    · exact Nat.lt_of_lt_of_le (hs.timers p hp) hk.grows

/-- Only a registered client starts to wait. -/
theorem Issue.registered (h : Issue s t c s') (htarget : s'.targetClients = s.targetClients)
    (hs : s.WaitingRegistered) : s'.WaitingRegistered := by
  intro t' k hk
  rw [htarget]
  cases h with
  | lapse h => exact hs t' k (h.waiting ▸ hk)
  | wait hmem hwaiting _ =>
    rw [hwaiting] at hk
    by_cases ht : t' = t
    · subst ht
      rw [Function.update_self] at hk
      exact (Keyed.mem_add.mp hk).elim (fun h => h ▸ hmem) (hs t' k)
    · exact hs t' k (by rwa [Function.update_of_ne ht] at hk)
  | timer hwaiting _ => exact hs t' k (hwaiting ▸ hk)

/-- **Where no token moves**, what counts is whether the client that leaves the targets `p` waits
for one of them. -/
theorem SameTokens.oneToken_iff (h : SameTokens s s') (hk : Keeps s s') (hs : s.Placed)
    (hone : s.OneToken) {p : Handle → Prop}
    (hp : ∀ t k, k ∈ s'.targetClients t ↔ k ∈ s.targetClients t ∧ ¬ (p t ∧ k = id)) :
    s'.OneToken ↔ ∀ t, p t → id ∉ s.waitingForUp t := by
  constructor
  · intro hone' t ht hid
    exact ((hp t id).mp (hone'.registered t id (h.waiting ▸ hid))).2 ⟨ht, rfl⟩
  · intro hfree
    refine ⟨fun k t => h.tokens hk hs ▸ hone.one k t, fun t k hk' => ?_⟩
    rw [h.waiting] at hk'
    refine (hp t k).mpr ⟨hone.registered t k hk', ?_⟩
    rintro ⟨ht, rfl⟩
    exact hfree t ht hk'

/-- Where nothing moves, nothing is lost. -/
theorem SameTokens.oneToken (h : SameTokens s s') (hk : Keeps s s') (hs : s.Placed)
    (hone : s.OneToken) (htarget : s'.targetClients = s.targetClients) : s'.OneToken :=
  ⟨fun k t => h.tokens hk hs ▸ hone.one k t, fun t k hk' =>
    htarget ▸ hone.registered t k (h.waiting ▸ hk')⟩

/-! ## The loop of `ObserveUp` -/

/-- One round: the client is told, and may get its next token. -/
theorem signOfLife_issue : Issue s t c (s.signOfLife t c) := by
  cases repeatWaiting_issue (s := s.note (.clientUp (s.clients c).id
    ⟨t, s.genOf t, (s.clients c).clientTag⟩)) (t := t) (c := c) with
  | lapse h => exact .lapse ⟨h.waiting, h.timers⟩
  | wait hmem hwaiting htimers => exact .wait hmem hwaiting htimers
  | timer hwaiting htimers => exact .timer hwaiting htimers

theorem keeps_signOfLife : Keeps s (s.signOfLife t c) :=
  (keeps_note _).trans keeps_repeatWaiting

theorem signOfLife_targetClients : (s.signOfLife t c).targetClients = s.targetClients :=
  quiet_repeatWaiting.targetClients

/-- A round writes to the table of its own client only. -/
theorem signOfLife_clients {c' : ClientRef} (h : c' ≠ c) :
    (s.signOfLife t c).clients c' = s.clients c' := by
  refine repeatWaiting_cases (P := fun s' => s'.clients c' = s.clients c') rfl (fun _ => ?_) ?_ rfl
  · rw [addToWaiting_clients]
    simp [h]
  · rw [addToWaiting_clients]
    rfl

/-- **The loop issues each client at most one token**, for `t`. -/
theorem foldl_signOfLife_tokens : ∀ (l : List ClientRef) (s : Enforcer), s.Placed →
    (∀ c ∈ l, c < s.nextRef) → (l.foldl (signOfLife t) s).Placed ∧ ∀ k t',
      (l.foldl (signOfLife t) s).tokens k t' ≤
        s.tokens k t' + if t' = t then (l.map fun c => (s.clients c).id).count k else 0
  | [], s, hs, _ => ⟨hs, fun k t' => Nat.le_add_right _ _⟩
  | c :: l, s, hs, hl => by
    have hk : Keeps s (s.signOfLife t c) := keeps_signOfLife
    have hc : c < s.nextRef := hl c List.mem_cons_self
    have hround := signOfLife_issue.tokens (t := t) hk hs ⟨hc, rfl⟩
    obtain ⟨hplaced, htokens⟩ := foldl_signOfLife_tokens l (s.signOfLife t c)
      (signOfLife_issue.placed hk hs hc)
      fun c' hc' => Nat.lt_of_lt_of_le (hl c' (List.mem_cons_of_mem _ hc')) hk.grows
    have hids : (l.map fun c' => ((s.signOfLife t c).clients c').id)
        = l.map fun c' => (s.clients c').id :=
      List.map_congr_left fun c' hc' => hk.ids c' (hl c' (List.mem_cons_of_mem _ hc'))
    refine ⟨hplaced, fun k t' => Nat.le_trans (htokens k t') ?_⟩
    have := hround k t'
    rw [hids, List.map_cons, List.count_cons]
    simp only [beq_iff_eq]
    grind

/-- No timer is lost. -/
theorem Issue.timers (h : Issue s t c s') {p : Handle × ClientRef} (hp : p ∈ s.timers) :
    p ∈ s'.timers := by
  cases h with
  | lapse h => exact h.timers ▸ hp
  | wait _ _ htimers => exact htimers ▸ hp
  | timer _ htimers => exact htimers ▸ List.mem_cons_of_mem _ hp

theorem timers_foldl_signOfLife {p : Handle × ClientRef} : ∀ (l : List ClientRef) (s : Enforcer),
    p ∈ s.timers → p ∈ (l.foldl (signOfLife t) s).timers
  | [], _, h => h
  | _ :: l, _, h => timers_foldl_signOfLife l _ (signOfLife_issue.timers h)

/-- **A client with an interval to keep has its timer when the loop is over.** -/
theorem foldl_signOfLife_timer {delay : ℤ} (hdelay : 0 < delay) : ∀ (l : List ClientRef)
    (s : Enforcer), l.Nodup → c ∈ l → (s.clients c).id ∈ s.targetClients t →
      (s.clients c).upIntervals.lookup t = some delay →
        (t, c) ∈ (l.foldl (signOfLife t) s).timers
  | c' :: l, s, hl, hc, hmem, hlookup => by
    obtain ⟨hc', hl'⟩ := List.nodup_cons.mp hl
    obtain rfl | hc := List.mem_cons.mp hc
    · have hround : (s.signOfLife t c).timers = (t, c) :: s.timers := by
        rw [signOfLife, repeatWaiting_registered (s := s.note _) hmem hlookup,
          if_neg (Int.not_lt.mpr (Int.le_of_lt hdelay)), if_neg (Int.ne_of_gt hdelay)]
        rfl
      refine timers_foldl_signOfLife l _ ?_
      rw [hround]
      exact List.mem_cons_self
    · have hne : c ≠ c' := fun h => hc' (h ▸ hc)
      have hcl := signOfLife_clients (s := s) (t := t) hne
      refine foldl_signOfLife_timer hdelay l _ hl' hc ?_ (hcl ▸ hlookup)
      rw [hcl, signOfLife_targetClients]
      exact hmem

/-- What the loop sends. -/
theorem foldl_signOfLife_log : ∀ (l : List ClientRef) (s : Enforcer), (∀ c ∈ l, c < s.nextRef) →
    ∃ acts, (l.foldl (signOfLife t) s).log = acts ++ s.log ∧
      ∀ a ∈ acts, ∃ c ∈ l, ∃ arg, a = .clientUp (s.clients c).id arg ∧ arg.handle = t
  | [], s, _ => ⟨[], rfl, by simp⟩
  | c :: l, s, hl => by
    have hk : Keeps s (s.signOfLife t c) := keeps_signOfLife
    obtain ⟨acts, hacts, hup⟩ := foldl_signOfLife_log l (s.signOfLife t c)
      fun c' hc' => Nat.lt_of_lt_of_le (hl c' (List.mem_cons_of_mem _ hc')) hk.grows
    refine ⟨acts ++ [.clientUp (s.clients c).id ⟨t, s.genOf t, (s.clients c).clientTag⟩], ?_, ?_⟩
    · rw [List.foldl_cons, hacts, signOfLife, repeatWaiting_log, List.append_assoc]
      rfl
    · intro a ha
      obtain ha | ha := List.mem_append.mp ha
      · obtain ⟨c', hc', arg, rfl, ht⟩ := hup a ha
        have hid := hk.ids c' (hl c' (List.mem_cons_of_mem _ hc'))
        exact ⟨c', List.mem_cons_of_mem _ hc', arg, by rw [hid], ht⟩
      · exact ⟨c, List.mem_cons_self, _, List.mem_singleton.mp ha, rfl⟩

/-- The clients `ObserveUp` tells are allocated. -/
theorem waiting_allocated (hs : s.Placed) :
    ∀ c ∈ (s.waitingForUp t).entries.map Sigma.snd, c < s.nextRef := by
  intro c hc
  obtain ⟨p, hp, rfl⟩ := List.mem_map.mp hc
  exact (hs.waiting t p.1 p.2 (Keyed.mem_entries_iff.mp hp)).1

/-- They are told by name. -/
theorem waiting_ids (hs : s.Placed) :
    (((s.waitingForUp t).entries.map Sigma.snd).map fun c => (s.clients c).id)
      = (s.waitingForUp t).keys := by
  rw [List.map_map, AList.keys, List.keys]
  refine List.map_congr_left fun p hp => ?_
  exact (hs.waiting t p.1 p.2 (Keyed.mem_entries_iff.mp hp)).2

/-- The set `ObserveUp` copies is emptied before the loop. -/
theorem not_mem_waiting_emptied {f : Handle → ClientSet} : id ∉ Function.update f t ∅ t := by
  rw [Function.update_self]
  exact AList.notMem_empty id

theorem mem_emptied {f : Handle → ClientSet} {t' : Handle} :
    id ∈ Function.update f t ∅ t' ↔ id ∈ f t' ∧ t' ≠ t := by
  by_cases ht : t' = t
  · subst ht
    exact iff_of_false not_mem_waiting_emptied fun h => h.2 rfl
  · rw [Function.update_of_ne ht]
    exact (and_iff_left ht).symm

/-- **`ObserveUp` issues no more tokens than it uses up.** -/
theorem observeUp_tokens (hs : s.Placed) : (s.observeUp t).Placed ∧
    (∀ k t', (s.observeUp t).tokens k t' ≤ s.tokens k t') ∧
      (s.WaitingRegistered → (s.observeUp t).WaitingRegistered) := by
  set s₀ : Enforcer := { s with waitingForUp := Function.update s.waitingForUp t ∅ } with hs₀
  have hplaced : s₀.Placed := ⟨⟨hs.named.all, hs.named.target⟩, fun t' k c' hc' =>
    hs.waiting t' k c' (lookup_of_lookup_update_empty hc'), hs.timers⟩
  have hnames := waiting_allocated (t := t) hs
  obtain ⟨hplaced', htokens⟩ := foldl_signOfLife_tokens (t := t) _ s₀ hplaced hnames
  refine ⟨hplaced', fun k t' => Nat.le_trans (htokens k t') ?_, ?_⟩
  · have hids : (((s.waitingForUp t).entries.map Sigma.snd).map fun c => (s₀.clients c).id)
        = (s.waitingForUp t).keys := waiting_ids hs
    simp only [hids, List.Nodup.count (s.waitingForUp t).keys_nodup, ← AList.mem_keys]
    simp only [Enforcer.tokens, hs₀]
    by_cases ht : t' = t
    · subst ht
      simp only [if_neg not_mem_waiting_emptied, if_true, Nat.add_zero]
      exact Nat.le_refl _
    · simp only [Function.update_of_ne ht, if_neg ht, Nat.add_zero]
      exact Nat.le_refl _
  · have hrounds : (s.observeUp t).targetClients = s₀.targetClients ∧
        (s₀.WaitingRegistered → (s.observeUp t).WaitingRegistered) :=
      Run.foldl_rel (r := fun s s' : Enforcer => s'.targetClients = s.targetClients ∧
          (s.WaitingRegistered → s'.WaitingRegistered)) (fun _ => ⟨rfl, id⟩)
        (fun _ _ _ h h' => ⟨h'.1.trans h.1, h'.2 ∘ h.2⟩)
        (fun s c => ⟨signOfLife_targetClients,
          signOfLife_issue.registered signOfLife_targetClients⟩) _ _
    exact fun hreg => hrounds.2 fun t' k hk => hreg t' k (mem_emptied.mp hk).1

/-! ## Requests -/

/-- The registration `arg` has been entered, up to its token: `c` is the object it is entered
for. -/
structure Entered (s : Enforcer) (arg : SpyRegisterArg) (c : ClientRef) (s' : Enforcer) : Prop where
  same : SameTokens s s'
  keeps : Keeps s s'
  names : s'.Names arg.client.id c
  grows : ∀ t, ∀ k ∈ s.targetClients t, k ∈ s'.targetClients t
  member : arg.client.id ∈ s'.targetClients arg.target.handle
  interval : (s'.clients c).upIntervals.lookup arg.target.handle = some arg.upIntervalMs

theorem entered {arg : SpyRegisterArg} (h : SameTokens s s') (hk : Keeps s s')
    (hc : s'.Names arg.client.id c) (htarget : s'.targetClients = s.targetClients) :
    Entered s arg c ((s'.enroll c arg.target.handle).setInterval c arg.target.handle
      arg.upIntervalMs) where
  same := h.trans ⟨rfl, rfl⟩
  keeps := (hk.trans (keeps_enroll hc.1)).trans (keeps_setIntervals _)
  names := ⟨hc.1, (setIntervals_id _ c).trans hc.2⟩
  grows t k hmem := by
    rw [← htarget] at hmem
    exact Keyed.mem_update_add hmem
  member := by
    simp only [enroll, setInterval, setIntervals, Function.update_self, hc.2]
    exact Keyed.mem_add.mpr (Or.inl rfl)
  interval := by simp

/-- What is left of a registration once its token is issued: the licence, the monitoring and the
reply. -/
theorem register_rest (arg : SpyRegisterArg) :
    let s₁ := ((s.enroll c arg.target.handle).setInterval c arg.target.handle
      arg.upIntervalMs).repeatWaiting arg.target.handle c
    SameTokens s₁ (s.register arg c) ∧ Keeps s₁ (s.register arg c) ∧
      (s.register arg c).targetClients = s₁.targetClients := by
  intro s₁
  have hlicense : (s₁.license arg.lethal c arg.target.handle).targetClients = s₁.targetClients := by
    unfold license
    split <;> rfl
  exact register_cases (P := fun s' => SameTokens s₁ s' ∧ Keeps s₁ s' ∧
      s'.targetClients = s₁.targetClients)
    ⟨sameTokens_license _, keeps_license _, hlicense⟩
    ⟨(sameTokens_license _).trans ⟨rfl, rfl⟩, (keeps_license _).trans (keeps_note _), hlicense⟩

/-- The token issued, by the interval. -/
theorem repeatWaiting_tokens (hs : s.Placed) (hc : s.Names id c) {delay : ℤ}
    (hmem : (s.clients c).id ∈ s.targetClients t)
    (hdelay : (s.clients c).upIntervals.lookup t = some delay) (k : ClientId) (t' : Handle) :
    (s.repeatWaiting t c).tokens k t' =
      if k = id ∧ t' = t then
        if delay < 0 then s.tokens k t'
        else if delay = 0 then s.armed.count (k, t') + 1
        else s.tokens k t' + 1
      else s.tokens k t' := by
  have hk : Keeps s (s.repeatWaiting t c) := keeps_repeatWaiting
  rw [repeatWaiting_registered hmem hdelay] at hk ⊢
  split at hk
  · next hneg => simp [hneg]
  · next hneg =>
    split at hk
    · next hzero =>
      have hadd : s.addToWaiting t c = { s with
          waitingForUp := Function.update s.waitingForUp t ((s.waitingForUp t).add id c) } := by
        rw [addToWaiting, if_pos hmem, hc.2]
      rw [if_neg hneg, if_pos hzero, if_neg hneg, if_pos hzero]
      rw [hadd] at hk ⊢
      exact tokens_wait hk hs rfl rfl k t'
    · next hzero =>
      rw [if_neg hneg, if_neg hzero, if_neg hneg, if_neg hzero,
        tokens_timer hk hs hc rfl rfl k t']
      split_ifs <;> rfl

/-- **An accepted registration** is entered, then its token is issued, then no token moves. -/
theorem dispatch_register {arg : SpyRegisterArg} {layer : LayerAnswer} (hs : s.Named)
    (hok : s.Accepts layer (.register arg)) :
    ∃ s₁ c, Entered s arg c s₁ ∧
      SameTokens (s₁.repeatWaiting arg.target.handle c) (s.dispatch (.register arg) layer) ∧
        Keeps (s₁.repeatWaiting arg.target.handle c) (s.dispatch (.register arg) layer) ∧
          (s.dispatch (.register arg) layer).targetClients = s₁.targetClients := by
  set s₁ := s.updateGenerations arg.target.handle layer with hs₁
  have hk₁ : Keeps s s₁ := keeps_updateGenerations layer
  obtain ⟨hk₂, hnames, -⟩ := getClient_spec (hk₁.named hs) arg.client
  have hentered := entered ((sameTokens_updateGenerations layer).trans
    (sameTokens_getClient arg.client)) (hk₁.trans hk₂) hnames 
      ((quiet_getClient _).targetClients.trans updateGenerations_targetClients)
  obtain ⟨hsame, hk, htarget⟩ :=
    register_rest (s := (s₁.getClient arg.client).1) (c := (s₁.getClient arg.client).2) arg
  have hd : s.dispatch (.register arg) layer
      = ((s₁.getClient arg.client).1.register arg (s₁.getClient arg.client).2).note
        (.reply (.register arg) ⟨⟨arg.target.handle, s.genOf arg.target.handle⟩,
          .registerAck⟩) := by
    unfold dispatch
    unfold Accepts at hok
    dsimp only
    rw [hok]
  rw [hd]
  exact ⟨_, _, hentered, hsame.trans ⟨rfl, rfl⟩, hk.trans (keeps_note _),
    htarget.trans quiet_repeatWaiting.targetClients⟩

/-- **What an accepted registration does with the tokens of its client**, by the interval. -/
theorem register_tokens {arg : SpyRegisterArg} {layer : LayerAnswer} (hs : s.Placed)
    (hok : s.Accepts layer (.register arg)) :
    (s.dispatch (.register arg) layer).Placed ∧
      (s.WaitingRegistered → (s.dispatch (.register arg) layer).WaitingRegistered) ∧ ∀ k t',
        (s.dispatch (.register arg) layer).tokens k t' =
          if k = arg.client.id ∧ t' = arg.target.handle then
            if arg.upIntervalMs < 0 then s.tokens k t'
            else if arg.upIntervalMs = 0 then s.armed.count (k, t') + 1
            else s.tokens k t' + 1
          else s.tokens k t' := by
  obtain ⟨s₁, c, he, hsame, hk, htarget⟩ := dispatch_register hs.named hok
  have hplaced : s₁.Placed := he.same.placed he.keeps hs
  have hissue : Issue s₁ arg.target.handle c (s₁.repeatWaiting arg.target.handle c) :=
    repeatWaiting_issue
  have htarget₂ : (s₁.repeatWaiting arg.target.handle c).targetClients = s₁.targetClients :=
    quiet_repeatWaiting.targetClients
  have hplaced₂ := hissue.placed keeps_repeatWaiting hplaced he.names.1
  refine ⟨hsame.placed hk hplaced₂, fun hreg => ?_, fun k t' => ?_⟩
  · have hreg₁ : s₁.WaitingRegistered := fun t k hk =>
      he.grows t k (hreg t k (he.same.waiting ▸ hk))
    have hreg₂ := hissue.registered htarget₂ hreg₁
    exact fun t k hk => htarget.trans htarget₂.symm ▸ hreg₂ t k (hsame.waiting ▸ hk)
  · have hmem : (s₁.clients c).id ∈ s₁.targetClients arg.target.handle :=
      he.names.2 ▸ he.member
    rw [hsame.tokens hk hplaced₂, repeatWaiting_tokens hplaced he.names hmem he.interval,
      he.same.tokens he.keeps hs, armed_of_keeps he.keeps hs he.same.timers]

/-- `id` has left the targets `p`, and nothing else has changed in the targets. -/
def Leaves (s s' : Enforcer) (p : Handle → Prop) (id : ClientId) : Prop :=
  ∀ t k, k ∈ s'.targetClients t ↔ k ∈ s.targetClients t ∧ ¬ (p t ∧ k = id)

theorem leaves_none (h : s'.targetClients = s.targetClients) {p : Handle → Prop}
    (hp : ∀ t, ¬ p t) : Leaves s s' p id := by
  intro t k
  rw [h]
  exact ⟨fun hk => ⟨hk, fun hpk => hp t hpk.1⟩, And.left⟩

theorem leaves_dropWhere {p : Handle → Prop} [DecidablePred p]
    (h : s'.targetClients = dropWhere p id s.targetClients) : Leaves s s' p id := by
  intro t k
  rw [h, mem_dropWhere]

/-- **An accepted cancellation** takes the client out of the target and leaves its token alone. -/
theorem dispatch_cancel {arg : SpyCancelArg} {layer : LayerAnswer} (hs : s.Named)
    (hok : s.Accepts layer (.cancel arg)) :
    SameTokens s (s.dispatch (.cancel arg) layer) ∧
      Leaves s (s.dispatch (.cancel arg) layer) (· = arg.target.handle) arg.client.id := by
  have hsame : SameTokens s ((s.updateGenerations arg.target.handle layer).getClient
      arg.client).1 := (sameTokens_updateGenerations layer).trans (sameTokens_getClient _)
  have htarget : ((s.updateGenerations arg.target.handle layer).getClient
      arg.client).1.targetClients = s.targetClients :=
    (quiet_getClient _).targetClients.trans updateGenerations_targetClients
  obtain ⟨-, hnames, -⟩ := getClient_spec
    ((keeps_updateGenerations (t := arg.target.handle) layer).named hs) arg.client
  unfold dispatch
  dsimp only
  rw [hok]
  dsimp only
  split
  · refine ⟨(hsame.trans sameTokens_cancel).trans ⟨rfl, rfl⟩, leaves_dropWhere ?_⟩
    rw [← htarget, ← hnames.2]
    exact cancel_spec.1
  · next hout =>
    rw [hnames.2, htarget] at hout
    refine ⟨hsame.trans ⟨rfl, rfl⟩, fun t k => ?_⟩
    have hsets : ∀ a, (((s.updateGenerations arg.target.handle layer).getClient
        arg.client).1.note a).targetClients = s.targetClients := fun _ => htarget
    rw [hsets]
    refine ⟨fun hk => ⟨hk, ?_⟩, And.left⟩
    rintro ⟨rfl, rfl⟩
    exact hout hk

/-- Other requests leave the tokens and the targets alone. -/
theorem dispatch_other {req : Request} {layer : LayerAnswer} (h : ¬ s.Accepts layer req) :
    SameTokens s (s.dispatch req layer) ∧
      (s.dispatch req layer).targetClients = s.targetClients := by
  have hup : ∀ a, SameTokens s ((s.updateGenerations req.target layer).note a) ∧
      ((s.updateGenerations req.target layer).note a).targetClients = s.targetClients := fun _ =>
    ⟨(sameTokens_updateGenerations layer).trans ⟨rfl, rfl⟩, updateGenerations_targetClients⟩
  refine dispatch_cases (P := fun s' => SameTokens s s' ∧ s'.targetClients = s.targetClients)
    (fun _ => ⟨SameTokens.refl s, rfl⟩) (fun _ _ _ => ⟨sameTokens_note _, rfl⟩) (fun _ => hup _)
    ?_ ?_ ?_ fun target _ _ _ => ?_
  · rintro arg rfl hok
    exact (h hok).elim
  · rintro arg rfl hok
    exact (h hok).elim
  · rintro arg rfl hok
    exact (h hok).elim
  · obtain ⟨hsame, htarget⟩ := hup (.kill target.handle)
    exact ⟨hsame.trans ⟨rfl, rfl⟩, htarget⟩

/-! ## Callbacks -/

theorem filterMap_erase {α β : Type} [DecidableEq α] {f : α → Option β} {a : α}
    (h : f a = none) (l : List α) : (l.erase a).filterMap f = l.filterMap f := by
  induction l with
  | nil => rfl
  | cons b l ih =>
    by_cases hb : b = a
    · subst hb
      rw [List.erase_cons_head, List.filterMap_cons_none h]
    · rw [List.erase_cons_tail (by simpa using hb), List.filterMap_cons, List.filterMap_cons, ih]

theorem sameTokens_take {cb : Callback} (h : cb.timer = none) : SameTokens s (s.take cb) :=
  ⟨rfl, filterMap_erase h _⟩

theorem keeps_take (cb : Callback) : Keeps s (s.take cb) :=
  Keeps.of_subset rfl (fun _ => rfl) (fun _ _ h => h) fun _ _ _ h => h

theorem Placed.take (hs : s.Placed) (cb : Callback) : (s.take cb).Placed where
  named := (keeps_take cb).named hs.named
  waiting := hs.waiting
  timers p hp := hs.timers p ((List.erase_sublist.filterMap _).subset hp)

/-- The object a timer runs for is allocated. -/
theorem Placed.fired (hs : s.Placed) (h : .waitingTimer t c ∈ s.pending) : c < s.nextRef :=
  hs.timers (t, c) (List.mem_filterMap.mpr ⟨_, h, rfl⟩)

/-- A timer that runs off is a token less. -/
theorem tokens_take (h : .waitingTimer t c ∈ s.pending) (k : ClientId) (t' : Handle) :
    s.tokens k t' = (s.take (.waitingTimer t c)).tokens k t'
      + if k = (s.clients c).id ∧ t' = t then 1 else 0 := by
  have hperm : s.timers.Perm ((t, c) :: (s.take (.waitingTimer t c)).timers) :=
    (List.perm_cons_erase h).filterMap Callback.timer
  have hcount := (hperm.map fun p => ((s.clients p.2).id, p.1)).count_eq (k, t')
  rw [List.map_cons, List.count_cons] at hcount
  have harmed : (s.take (.waitingTimer t c)).armed
      = (s.take (.waitingTimer t c)).timers.map fun p => ((s.clients p.2).id, p.1) := rfl
  rw [tokens, tokens, harmed, armed, hcount]
  simp only [beq_iff_eq, Prod.mk.injEq, take]
  grind

theorem gaveUp_leaves :
    Leaves s ((s.note (.gaveUp (s.clients c).id)).removeClient c) (· ∈ s.targetsOf c)
      (s.clients c).id :=
  leaves_dropWhere (by rw [removeClient_eq]; rfl)

theorem heartbeat_leaves (n : ℕ) (st : ClntStat) :
    Leaves s (s.handleClientHeartbeat c n st) (fun t => (s.clients c).id ∈ s.allClients ∧
      st ≠ .success ∧ ¬ n < kClientRetry ∧ t ∈ s.targetsOf c) (s.clients c).id := by
  refine handleClientHeartbeat_cases (P := fun s' => Leaves s s' _ _)
    (fun hout => leaves_none rfl fun t h => hout h.1)
    (fun _ hst => leaves_none rfl fun t h => h.2.1 hst)
    (fun _ _ hn => leaves_none rfl fun t h => h.2.2.1 hn) fun hin hst hn t k => ?_
  rw [gaveUp_leaves t k]
  simp only [hin, hst, hn, ne_eq, not_false_eq_true, true_and]

theorem reportDown_leaves (arg : ClientDownArg) (n : ℕ) (st : ClntStat) :
    Leaves s (s.reportDown c arg n st) (fun t => if st = .success ∧ n ≠ 0 then t = arg.handle
      else n = kMaxRetries ∧ t ∈ s.targetsOf c) (s.clients c).id := by
  obtain ⟨htarget, -⟩ :=
    eraseInterval_unregister (s := s) (c := c) (t := arg.handle) (s.clients c).id
  refine reportDown_cases (P := fun s' => Leaves s s' _ _) (fun hack => ?_) (fun hack hidle => ?_)
    (fun hack hn => ?_) fun hack hn => ?_
  · simp only [if_pos hack]
    exact leaves_dropWhere htarget
  · simp only [if_pos hack]
    rw [removeClient_idle hidle]
    exact leaves_dropWhere htarget
  · simp only [if_neg hack]
    simp only [hn, true_and]
    exact gaveUp_leaves
  · simp only [if_neg hack, hn, false_and]
    exact leaves_none rfl fun _ => id

/-- Of the callbacks only `AddToWaiting` does something with a token. -/
theorem sameTokens_call {cb : Callback} (h : cb.timer = none) (st : ClntStat) :
    SameTokens s ((s.take cb).call cb st) := by
  refine (sameTokens_take h).trans ?_
  cases cb with
  | heartbeatCall c n => exact sameTokens_handleClientHeartbeat n st
  | heartbeatTimer c n => exact sameTokens_await rfl
  | downCall c arg n => exact sameTokens_reportDown arg n st
  | waitingTimer t c => cases h

/-- A down starts reports, and no timer. -/
theorem observeDown_timers (st : UInt32) (k w : Bool) :
    (s.observeDown t st k w).timers = s.timers := by
  rw [observeDown_eq, timers, List.filterMap_append, timers, List.filterMap_eq_nil_iff.mpr,
    List.nil_append]
  intro cb hcb
  obtain ⟨c, -, rfl⟩ := List.mem_map.mp (List.mem_reverse.mp hcb)
  rfl

/-! ## Every event -/

theorem placed_step (hs : s.Placed) (h : step s e = some s') : s'.Placed := by
  have hk := keeps_step hs.named h
  cases e with
  | request req layer =>
    obtain rfl := Option.some.inj h
    by_cases hok : s.Accepts layer req
    · cases req with
      | register arg => exact (register_tokens hs hok).1
      | cancel arg => exact (dispatch_cancel hs.named hok).1.placed hk hs
      | null | kill _ | getGen _ => exact hok.elim
    · exact (dispatch_other hok).1.placed hk hs
  | fire cb st =>
    obtain ⟨hmem, rfl⟩ := step_fire.mp h
    cases cb with
    | heartbeatCall _ _ | heartbeatTimer _ _ | downCall _ _ _ =>
      exact (sameTokens_call rfl st).placed hk hs
    | waitingTimer t c =>
      exact addToWaiting_issue.placed keeps_addToWaiting (hs.take _) (hs.fired hmem)
  | observeUp t => exact Option.some.inj h ▸ (observeUp_tokens hs).1
  | observeDown t st k w =>
    obtain rfl := Option.some.inj h
    refine ⟨hk.named hs.named, fun t' id c hc => ?_, fun p hp => ?_⟩
    · rw [observeDown_eq] at hc
      exact hk.names (hs.waiting t' id c (lookup_of_lookup_update_empty hc))
    · rw [observeDown_timers] at hp
      exact Nat.lt_of_lt_of_le (hs.timers p hp) hk.grows

/-- A registration that meets no token it doubles. -/
theorem register_oneToken_iff {arg : SpyRegisterArg} {layer : LayerAnswer} (hs : s.Placed)
    (hone : s.OneToken) (hok : s.Accepts layer (.register arg)) :
    (s.dispatch (.register arg) layer).OneToken ↔
      (0 < arg.upIntervalMs → s.tokens arg.client.id arg.target.handle = 0) ∧
        (arg.upIntervalMs = 0 → (arg.client.id, arg.target.handle) ∉ s.armed) := by
  obtain ⟨-, hreg, htokens⟩ := register_tokens hs hok
  have hcount : (arg.client.id, arg.target.handle) ∈ s.armed ↔
      0 < s.armed.count (arg.client.id, arg.target.handle) := List.count_pos_iff.symm
  rw [hcount]
  constructor
  · intro hone'
    have hnew := hone'.one arg.client.id arg.target.handle
    rw [htokens, if_pos ⟨rfl, rfl⟩] at hnew
    constructor
    · intro hpos
      rw [if_neg (by omega), if_neg (by omega)] at hnew
      omega
    · intro hzero
      rw [if_neg (by omega), if_pos hzero] at hnew
      omega
  · rintro ⟨hpos, hzero⟩
    refine ⟨fun k t' => ?_, hreg hone.registered⟩
    have hold := hone.one k t'
    rw [htokens]
    split_ifs with hkt hneg hz
    · exact hold
    · have := hzero hz
      rw [hkt.1, hkt.2]
      omega
    · have := hpos (by omega)
      rw [hkt.1, hkt.2]
      omega
    · exact hold

/-- Whoever is told of a down waits no more, and is registered no more. -/
theorem observeDown_oneToken {st : UInt32} {k w : Bool} (hs : s.Placed) (hone : s.OneToken)
    (hk : Keeps s (s.observeDown t st k w)) : (s.observeDown t st k w).OneToken := by
  refine ⟨fun id t' => ?_, fun t' id hid => ?_⟩
  · refine Nat.le_trans (Nat.add_le_add (Nat.le_of_eq ?_) ?_) (hone.one id t')
    · rw [armed_of_keeps hk hs (observeDown_timers _ _ _)]
    · rw [observeDown_eq]
      simp only [mem_emptied]
      split_ifs <;> grind
  · rw [observeDown_eq] at hid ⊢
    rw [mem_emptied] at hid ⊢
    exact ⟨hone.registered t' id hid.1, hid.2⟩

/-- **One event**: it keeps the tokens apart exactly if it is tidy. -/
theorem oneToken_step (hs : s.Placed) (hone : s.OneToken) (h : step s e = some s') :
    s'.OneToken ↔ s.Tidy e := by
  have hk := keeps_step hs.named h
  cases e with
  | request req layer =>
    obtain rfl := Option.some.inj h
    by_cases hok : s.Accepts layer req
    · cases req with
      | register arg =>
        exact (register_oneToken_iff hs hone hok).trans ⟨fun h _ => h, fun h => h hok⟩
      | cancel arg =>
        obtain ⟨hsame, hleaves⟩ := dispatch_cancel hs.named hok
        rw [hsame.oneToken_iff hk hs hone hleaves]
        exact ⟨fun h _ => h _ rfl, fun h t ht => ht ▸ h hok⟩
      | null | kill _ | getGen _ => exact hok.elim
    · obtain ⟨hsame, htarget⟩ := dispatch_other hok
      refine iff_of_true (hsame.oneToken hk hs hone htarget) ?_
      cases req with
      | register arg | cancel arg => exact fun h => (hok h).elim
      | null | kill _ | getGen _ => trivial
  | fire cb st =>
    obtain ⟨hmem, rfl⟩ := step_fire.mp h
    cases cb with
    | heartbeatCall c n =>
      refine ((sameTokens_call rfl st).oneToken_iff hk hs hone (heartbeat_leaves n st)).trans ?_
      exact ⟨fun h hin hst hn t ht => h t ⟨hin, hst, hn, ht⟩,
        fun h t ⟨hin, hst, hn, ht⟩ => h hin hst hn t ht⟩
    | heartbeatTimer c n =>
      exact iff_of_true ((sameTokens_call rfl st).oneToken hk hs hone rfl) trivial
    | downCall c arg n =>
      dsimp only [Tidy]
      refine ((sameTokens_call rfl st).oneToken_iff hk hs hone
        (reportDown_leaves arg n st)).trans ?_
      split
      · exact ⟨fun h => h _ rfl, fun h t ht => ht ▸ h⟩
      · exact ⟨fun h hn t ht => h t ⟨hn, ht⟩, fun h t ⟨hn, ht⟩ => h hn t ht⟩
    | waitingTimer t c =>
      have hc : (s.take (.waitingTimer t c)).Names (s.clients c).id c := ⟨hs.fired hmem, rfl⟩
      have hissue : Issue (s.take (.waitingTimer t c)) t c
          ((s.take (.waitingTimer t c)).addToWaiting t c) := addToWaiting_issue
      refine iff_of_true ⟨fun k t' => ?_, hissue.registered quiet_addToWaiting.targetClients
        hone.registered⟩ trivial
      calc _ ≤ _ := hissue.tokens keeps_addToWaiting (hs.take _) hc k t'
        _ = s.tokens k t' := (tokens_take hmem k t').symm
        _ ≤ 1 := hone.one k t'
  | observeUp t =>
    obtain rfl := Option.some.inj h
    obtain ⟨-, htokens, hreg⟩ := observeUp_tokens (t := t) hs
    refine iff_of_true ⟨fun k t' => ?_, hreg hone.registered⟩ trivial
    exact Nat.le_trans (htokens k t') (hone.one k t')
  | observeDown t st k w =>
    obtain rfl := Option.some.inj h
    exact iff_of_true (observeDown_oneToken hs hone hk) trivial

/-- The first token of a client is its only one. -/
theorem OneToken.not_armed (h : s.OneToken) (hid : id ∈ s.waitingForUp t) : (id, t) ∉ s.armed := by
  intro harmed
  have hone := h.one id t
  rw [tokens, if_pos hid] at hone
  have := List.count_pos_iff.mpr harmed
  omega

theorem OneToken.of_armed (h : s.OneToken) (harmed : (id, t) ∈ s.armed) :
    s.armed.count (id, t) = 1 ∧ id ∉ s.waitingForUp t := by
  have hone := h.one id t
  have hpos := List.count_pos_iff.mpr harmed
  rw [tokens] at hone
  refine ⟨by omega, fun hid => ?_⟩
  exact h.not_armed hid harmed

theorem mem_armed : (id, t) ∈ s.armed ↔ ∃ c, (t, c) ∈ s.timers ∧ (s.clients c).id = id := by
  rw [armed, List.mem_map]
  constructor
  · rintro ⟨⟨t', c⟩, hp, h⟩
    obtain ⟨hid, ht⟩ := Prod.mk.inj h
    exact ⟨c, ht ▸ hp, hid⟩
  · rintro ⟨c, hp, hid⟩
    exact ⟨(t, c), hp, by rw [hid]⟩

/-- A timer runs until it goes off. -/
theorem timers_step (hs : s.Placed) (h : step s e = some s') {p : Handle × ClientRef}
    (hp : p ∈ s.timers) : p ∈ s'.timers ∨ ∃ st, e = .fire (.waitingTimer p.1 p.2) st := by
  cases e with
  | request req layer =>
    obtain rfl := Option.some.inj h
    refine Or.inl ?_
    by_cases hok : s.Accepts layer req
    · cases req with
      | register arg =>
        obtain ⟨s₁, c, he, hsame, -, -⟩ := dispatch_register hs.named hok
        rw [hsame.timers]
        exact repeatWaiting_issue.timers (he.same.timers ▸ hp)
      | cancel arg => exact (dispatch_cancel hs.named hok).1.timers ▸ hp
      | null | kill _ | getGen _ => exact hok.elim
    · exact (dispatch_other hok).1.timers ▸ hp
  | fire cb st =>
    obtain ⟨-, rfl⟩ := step_fire.mp h
    cases cb with
    | heartbeatCall _ _ | heartbeatTimer _ _ | downCall _ _ _ =>
      left
      rw [(sameTokens_call rfl st).timers]
      exact hp
    | waitingTimer t c =>
      by_cases hpc : p = (t, c)
      · exact Or.inr ⟨st, by rw [hpc]⟩
      · refine Or.inl (addToWaiting_issue.timers ?_)
        obtain ⟨cb, hcb, hcbp⟩ := List.mem_filterMap.mp hp
        refine List.mem_filterMap.mpr ⟨cb, (List.mem_erase_of_ne ?_).mpr hcb, hcbp⟩
        rintro rfl
        exact hpc (Option.some.inj hcbp).symm
  | observeUp t =>
    obtain rfl := Option.some.inj h
    exact Or.inl (timers_foldl_signOfLife _ _ hp)
  | observeDown t st k w =>
    obtain rfl := Option.some.inj h
    rw [observeDown_timers]
    exact Or.inl hp

theorem paced_step (hs : s.Placed) (hone : s.OneToken) (h : step s e = some s')
    (hone' : s'.OneToken) : Paced s e s' := by
  constructor
  · rintro t id arg rfl hup
    obtain rfl := Option.some.inj h
    have hnames := waiting_allocated (t := t) hs
    obtain ⟨acts, hlog, hacts⟩ := foldl_signOfLife_log (t := t) _
      { s with waitingForUp := Function.update s.waitingForUp t ∅ } hnames
    have hlog' : (s.observeUp t).log = acts ++ s.log := hlog
    rw [newer_of_log hlog'] at hup
    obtain ⟨c, hc, arg', harg, ht⟩ := hacts _ hup
    obtain ⟨rfl, rfl⟩ := Action.clientUp.inj harg
    have hid : (s.clients c).id ∈ s.waitingForUp t := by
      rw [AList.mem_keys, ← waiting_ids hs]
      exact List.mem_map_of_mem hc
    exact ⟨ht, hone.registered t _ hid, hone.not_armed hid⟩
  · rintro t id c delay rfl hc hdelay hpos
    obtain rfl := Option.some.inj h
    have hnames := hs.waiting t id c hc
    have hid : id ∈ s.waitingForUp t := Keyed.mem_of_lookup hc
    refine hone'.of_armed (mem_armed.mpr ⟨c, ?_, (keeps_observeUp.ids c hnames.1).trans hnames.2⟩)
    refine foldl_signOfLife_timer hpos _ _ ?_ ?_ (hnames.2 ▸ hone.registered t id hid) hdelay
    · refine List.Nodup.of_map (fun c => (s.clients c).id) ?_
      rw [waiting_ids hs]
      exact (s.waitingForUp t).keys_nodup
    · exact List.mem_map.mpr ⟨⟨id, c⟩, Keyed.mem_entries_iff.mpr hc, rfl⟩
  · intro id t harmed
    obtain ⟨c, hp, hid⟩ := mem_armed.mp harmed
    obtain hp | ⟨st, rfl⟩ := timers_step hs h hp
    · exact Or.inl (mem_armed.mpr ⟨c, hp, (keeps_step hs.named h).ids c (hs.timers _ ‹_›) ▸ hid⟩)
    · exact Or.inr ⟨c, st, rfl, hid⟩

/-- **One sign of life at a time.**  In every state of a run each client has at most one token for
each target, and waits only for targets it is registered for, exactly if every event is tidy in the
state it meets; and then the signs of life go to registered clients only, and keep to their
intervals. -/
theorem oneToken_iff_tidy (gv : List GenNo) (gens : Handle → GenNo) (es : List Event) :
    (Run.Always step OneToken (init gv gens) es ↔
        Run.Along step (fun s e _ => s.Tidy e) (init gv gens) es) ∧
      (Run.Always step OneToken (init gv gens) es → Run.Along step Paced (init gv gens) es) := by
  have hplaced : (init gv gens).Placed :=
    ⟨named_init gv gens, fun _ _ _ h => by simp [init] at h, fun _ h => by simp [init, timers] at h⟩
  have hinit : (init gv gens).OneToken :=
    ⟨fun _ _ => by simp [tokens, armed, timers, init], fun _ _ h => by simp [init] at h⟩
  constructor
  · exact Run.always_iff_of_inv (I := fun s => s.Placed ∧ s.OneToken) (fun s hs => hs.2)
      (fun s e s' h hs ht => ⟨placed_step hs.1 h, (oneToken_step hs.1 hs.2 h).mpr ht⟩)
      (fun s e s' h hs hone => (oneToken_step hs.1 hs.2 h).mp hone) ⟨hplaced, hinit⟩
  · intro h
    refine Run.Along.of_inv (I := fun s => s.Placed ∧ s.OneToken) ?_ es _ ⟨hplaced, hinit⟩ h.2
    exact fun s e s' h hs hone => ⟨⟨placed_step hs.1 h, hone⟩, paced_step hs.1 hs.2 h hone⟩

/-- A client registers for the signs of life of "app" twice. -/
def registerTwice : List Event :=
  [.request (.register ⟨⟨"app", [0]⟩, false, 100, ⟨1, 0, 7⟩⟩) ⟨none, false⟩,
   .request (.register ⟨⟨"app", [0]⟩, false, 100, ⟨1, 0, 7⟩⟩) ⟨none, false⟩]

/-- Each of the two registrations starts a timer. -/
theorem token_doubled : ¬ Run.Always step OneToken (init [] fun _ => 0) registerTwice := by
  intro h
  obtain ⟨s, hs, hcount⟩ : ∃ s, registerTwice.foldlM step (init [] fun _ => 0) = some s ∧
      s.armed.count (⟨1, 0, 7⟩, "app") = 2 := ⟨_, rfl, by decide⟩
  have hone := (Run.always_iff_run.mp h registerTwice List.prefix_rfl s hs).one ⟨1, 0, 7⟩ "app"
  rw [tokens, hcount] at hone
  omega

end Enforcer

end Falcon
