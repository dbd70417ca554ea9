import Falcon.Enforcer.Step
import Falcon.Machinery.Run

/-!
# Enforcer/Objects — the client objects behind the sets

A set of clients holds an object under the object's own name, and every object it holds has been
allocated (`Named`).  No method renames an object or gives its reference away again, so this is kept
by every event (`named_step`); it is what lets `getClient` be read as "the object named `addr.id`".
-/

namespace Falcon.Enforcer

attribute [simp] note await take setIntervals setInterval eraseInterval unregister doHeartbeat
  incrementGeneration

variable {s s' : Enforcer} {e : Event} {t : Handle} {c : ClientRef} {id : ClientId}

/-! ## The loop of `RemoveClient`, in closed form -/

/-- The members of the sets `f`, less the one named `id` where `p` holds. -/
def dropWhere (p : Handle → Prop) [DecidablePred p] (id : ClientId) (f : Handle → ClientSet) :
    Handle → ClientSet :=
  fun t => if p t then (f t).erase id else f t

theorem lookup_of_lookup_dropWhere {p : Handle → Prop} [DecidablePred p] {f : Handle → ClientSet}
    {k : ClientId} (h : (dropWhere p id f t).lookup k = some c) : (f t).lookup k = some c := by
  unfold dropWhere at h
  split at h
  · exact Keyed.lookup_of_lookup_erase h
  · exact h

theorem mem_dropWhere {p : Handle → Prop} [DecidablePred p] {f : Handle → ClientSet}
    {k : ClientId} : k ∈ dropWhere p id f t ↔ k ∈ f t ∧ ¬ (p t ∧ k = id) := by
  unfold dropWhere
  split
  · next hp => rw [AList.mem_erase]; tauto
  · next hp => tauto

theorem update_erase (f : Handle → ClientSet) :
    Function.update f t ((f t).erase id) = dropWhere (· = t) id f := by
  funext t'
  by_cases h : t' = t
  · subst h; simp [dropWhere]
  · simp [dropWhere, h]

/-- The `StopMonitoring` calls of the loop over the targets `l`, newest first. -/
def stops (s : Enforcer) (id : ClientId) (l : List Handle) : List Action :=
  ((l.filter fun t => Keyed.isEmpty ((s.targetClients t).erase id)).map .stopMonitoring).reverse

theorem mem_stops {l : List Handle} {a : Action} : a ∈ stops s id l ↔
    ∃ t ∈ l, Keyed.isEmpty ((s.targetClients t).erase id) = true ∧ a = .stopMonitoring t := by
  simp only [stops, List.mem_reverse, List.mem_map, List.mem_filter]
  constructor
  · rintro ⟨t, ⟨ht, he⟩, rfl⟩; exact ⟨t, ht, he, rfl⟩
  · rintro ⟨t, ht, he, rfl⟩; exact ⟨t, ⟨ht, he⟩, rfl⟩

theorem dropTarget_eq (id : ClientId) : s.dropTarget id t =
    { s with
      targetClients := dropWhere (· = t) id s.targetClients
      deadly := dropWhere (· = t) id s.deadly
      log := stops s id [t] ++ s.log } := by
  have hset : dropWhere (· = t) id s.targetClients t = (s.targetClients t).erase id := if_pos rfl
  unfold dropTarget
  simp only [unregister, note, update_erase]
  rw [hset]
  split
  · next h => simp [stops, h]
  · next h => simp [stops, h]

/-- **The loop of `RemoveClient` over targets `l`**: the client leaves the sets of each of them, and
those it leaves empty stop being monitored. -/
theorem foldl_dropTarget (id : ClientId) : ∀ (l : List Handle) (s : Enforcer), l.Nodup →
    l.foldl (dropTarget id) s =
      { s with
        targetClients := dropWhere (· ∈ l) id s.targetClients
        deadly := dropWhere (· ∈ l) id s.deadly
        log := stops s id l ++ s.log }
  | [], s, _ => by
    have hnone : ∀ f : Handle → ClientSet, dropWhere (· ∈ ([] : List Handle)) id f = f :=
      fun f => funext fun t => if_neg List.not_mem_nil
    simp [hnone, stops]
  | t :: l, s, hl => by
    obtain ⟨ht, hl'⟩ := List.nodup_cons.mp hl
    have hcomp : ∀ f : Handle → ClientSet,
        dropWhere (· ∈ l) id (dropWhere (· = t) id f) = dropWhere (· ∈ t :: l) id f := by
      intro f
      funext t'
      by_cases h : t' = t
      · subst h; simp [dropWhere, ht]
      · simp [dropWhere, h]
    have hstops : stops (s.dropTarget id t) id l ++ stops s id [t] = stops s id (t :: l) := by
      -- the rounds before a target's own do not touch its set
      have hsame : ∀ t' ∈ l, (s.dropTarget id t).targetClients t' = s.targetClients t' := by
        intro t' ht'
        have hne : t' ≠ t := fun h => ht (h ▸ ht')
        rw [dropTarget_eq]
        exact if_neg hne
      have hfilter : (l.filter fun t' => Keyed.isEmpty
            (((s.dropTarget id t).targetClients t').erase id))
          = l.filter fun t' => Keyed.isEmpty ((s.targetClients t').erase id) :=
        List.filter_congr fun t' ht' => by rw [hsame t' ht']
      rw [stops, stops, stops, hfilter, ← List.reverse_append, ← List.map_append,
        ← List.filter_append, List.singleton_append]
    rw [List.foldl_cons, foldl_dropTarget id l _ hl', ← hstops, dropTarget_eq]
    simp only [hcomp, List.append_assoc]

/-- The targets `RemoveClient(c)` walks. -/
def targetsOf (s : Enforcer) (c : ClientRef) : List Handle := (s.clients c).upIntervals.keys

theorem removeClient_eq : s.removeClient c =
    { s with
      allClients := s.allClients.erase (s.clients c).id
      targetClients := dropWhere (· ∈ s.targetsOf c) (s.clients c).id s.targetClients
      deadly := dropWhere (· ∈ s.targetsOf c) (s.clients c).id s.deadly
      log := stops s (s.clients c).id (s.targetsOf c) ++ s.log } :=
  foldl_dropTarget _ _ _ (s.clients c).upIntervals.keys_nodup

/-- A client without targets is only forgotten. -/
theorem removeClient_idle (h : (s.clients c).upIntervals.isEmpty = true) :
    s.removeClient c = { s with allClients := s.allClients.erase (s.clients c).id } := by
  have hkeys : (s.clients c).upIntervals.keys = [] := by
    rw [AList.keys, List.isEmpty_iff.mp h]; rfl
  rw [removeClient, hkeys, List.foldl_nil]

/-! ## What the methods come to

Each of these says once by which branches a method goes; what holds of them all holds of what the
method makes of the enforcer. -/

section Cases

variable {P : Enforcer → Prop}

theorem addToWaiting_cases (out : P s)
    (waits : (s.clients c).id ∈ s.targetClients t → P { s with
      waitingForUp := Function.update s.waitingForUp t
        ((s.waitingForUp t).add (s.clients c).id c) }) :
    P (s.addToWaiting t c) := by
  unfold addToWaiting
  split
  · next hmem => exact waits hmem
  · exact out

theorem repeatWaiting_cases (out : P s)
    (enters : (s.clients c).id ∈ s.targetClients t → P ((s.setInterval c t 0).addToWaiting t c))
    (waits : P (s.addToWaiting t c)) (timer : P (s.await (.waitingTimer t c))) :
    P (s.repeatWaiting t c) := by
  unfold repeatWaiting
  split
  · next hmem =>
    split
    · exact enters hmem
    · split_ifs
      · exact out
      · exact waits
      · exact timer
  · exact out

theorem handleClientHeartbeat_cases {n : ℕ} {st : ClntStat}
    (gone : (s.clients c).id ∉ s.allClients → P s)
    (alive : (s.clients c).id ∈ s.allClients → st = .success → P (s.await (.heartbeatTimer c 0)))
    (retry : (s.clients c).id ∈ s.allClients → st ≠ .success → n < kClientRetry →
      P (s.await (.heartbeatCall c (n + 1))))
    (gaveUp : (s.clients c).id ∈ s.allClients → st ≠ .success → ¬n < kClientRetry →
      P ((s.note (.gaveUp (s.clients c).id)).removeClient c)) :
    P (s.handleClientHeartbeat c n st) := by
  unfold handleClientHeartbeat
  split_ifs with hin hst hn
  · exact alive hin hst
  · exact retry hin hst hn
  · exact gaveUp hin hst hn
  · exact gone hin

theorem reportDown_cases {arg : ClientDownArg} {n : ℕ} {st : ClntStat}
    (acked : st = .success ∧ n ≠ 0 →
      P ((s.eraseInterval c arg.handle).unregister (s.clients c).id arg.handle))
    (idle : st = .success ∧ n ≠ 0 → (((s.eraseInterval c arg.handle).unregister (s.clients c).id
        arg.handle).clients c).upIntervals.isEmpty = true →
      P (((s.eraseInterval c arg.handle).unregister (s.clients c).id arg.handle).removeClient c))
    (gaveUp : ¬(st = .success ∧ n ≠ 0) → n = kMaxRetries →
      P ((s.note (.gaveUp (s.clients c).id)).removeClient c))
    (sent : ¬(st = .success ∧ n ≠ 0) → n ≠ kMaxRetries →
      P ((s.note (.clientDown (s.clients c).id arg)).await (.downCall c arg (n + 1)))) :
    P (s.reportDown c arg n st) := by
  unfold reportDown
  dsimp only
  split_ifs with hack hidle hn
  · exact idle hack hidle
  · exact acked hack
  · exact gaveUp hack hn
  · exact sent hack hn

theorem register_cases {arg : SpyRegisterArg} (enlisted : P (s.enlist arg c))
    (starts : P ((s.enlist arg c).note (.startMonitoring arg.target.handle))) :
    P (s.register arg c) := by
  unfold register
  dsimp only
  split
  · exact starts
  · exact enlisted

/-- A cancellation: the client leaves the target, which may stop being monitored, and the client may
be removed. -/
theorem cancel_cases
    (left : P ((s.eraseInterval c t).unregister (s.clients c).id t))
    (stops : P (((s.eraseInterval c t).unregister (s.clients c).id t).note (.stopMonitoring t)))
    (idle : P (((s.eraseInterval c t).unregister (s.clients c).id t).removeClient c))
    (both : P ((((s.eraseInterval c t).unregister (s.clients c).id t).note
      (.stopMonitoring t)).removeClient c)) :
    P (s.cancel t c) := by
  unfold cancel
  dsimp only
  split_ifs
  · exact both
  · exact stops
  · exact idle
  · exact left

/-- A request: it is answered alone, or it passes `GenCheck` and is served before. -/
theorem dispatch_cases {req : Request} {layer : LayerAnswer} (null : req = .null → P s)
    (unknown : ∀ target, req = .getGen target → layer.invalid = true →
      P (s.note (.reply req ⟨⟨target.handle, []⟩, .unknownTarget⟩)))
    (answered : ∀ res, P ((s.updateGenerations req.target layer).note (.reply req res)))
    (registered : ∀ arg, req = .register arg → (s.updateGenerations req.target layer).genCheck
        arg.target.handle arg.target.generation layer = .success → ∀ res,
      P ((((s.updateGenerations req.target layer).getClient arg.client).1.register arg
        ((s.updateGenerations req.target layer).getClient arg.client).2).note (.reply req res)))
    (cancelled : ∀ arg, req = .cancel arg → (s.updateGenerations req.target layer).genCheck
        arg.target.handle arg.target.generation layer = .success → ∀ res,
      P ((((s.updateGenerations req.target layer).getClient arg.client).1.cancel arg.target.handle
        ((s.updateGenerations req.target layer).getClient arg.client).2).note (.reply req res)))
    (stranger : ∀ arg, req = .cancel arg → (s.updateGenerations req.target layer).genCheck
        arg.target.handle arg.target.generation layer = .success → ∀ res,
      P (((s.updateGenerations req.target layer).getClient arg.client).1.note (.reply req res)))
    (killed : ∀ target, req = .kill target → (s.updateGenerations req.target layer).genCheck
        target.handle target.generation layer = .success → ∀ res,
      P (((s.updateGenerations req.target layer).note (.kill target.handle)).note
        (.reply req res))) :
    P (s.dispatch req layer) := by
  cases req with
  | null => exact null rfl
  | register arg =>
    unfold dispatch
    dsimp only
    split
    · next hok => exact registered arg rfl hok _
    · exact answered _
  | cancel arg =>
    unfold dispatch
    dsimp only
    split
    · next hok =>
      split
      · exact cancelled arg rfl hok _
      · exact stranger arg rfl hok _
    · exact answered _
  | kill target =>
    unfold dispatch
    dsimp only
    split
    · next hok => exact killed target rfl hok _
    · exact answered _
  | getGen target =>
    unfold dispatch
    dsimp only
    split
    · next hinv => exact unknown target rfl hinv
    · exact answered _

end Cases

/-! ## Names -/

/-- `c` is an allocated object, and its name is `id`. -/
def Names (s : Enforcer) (id : ClientId) (c : ClientRef) : Prop :=
  c < s.nextRef ∧ (s.clients c).id = id

/-- A client set holds allocated objects, each under its own name. -/
def NamedSet (s : Enforcer) (f : ClientSet) : Prop := ∀ id c, f.lookup id = some c → s.Names id c

/-- The sets hold allocated objects under their own names. -/
structure Named (s : Enforcer) : Prop where
  all : s.NamedSet s.allClients
  target : ∀ t, s.NamedSet (s.targetClients t)

/-- No object is renamed, and what is new in a set is there under its own name. -/
structure Keeps (s s' : Enforcer) : Prop where
  grows : s.nextRef ≤ s'.nextRef
  ids : ∀ c < s.nextRef, (s'.clients c).id = (s.clients c).id
  all : ∀ id c, s'.allClients.lookup id = some c →
    s.allClients.lookup id = some c ∨ s'.Names id c
  target : ∀ t id c, (s'.targetClients t).lookup id = some c →
    (s.targetClients t).lookup id = some c ∨ s'.Names id c

theorem Keeps.names (h : Keeps s s') (hc : s.Names id c) : s'.Names id c :=
  ⟨Nat.lt_of_lt_of_le hc.1 h.grows, (h.ids c hc.1).trans hc.2⟩

theorem Keeps.named (h : Keeps s s') (hs : Named s) : Named s' :=
  ⟨fun id c hc => (h.all id c hc).elim (fun hc' => h.names (hs.all id c hc')) fun h => h,
    fun t id c hc =>
      (h.target t id c hc).elim (fun hc' => h.names (hs.target t id c hc')) fun h => h⟩

theorem Keeps.refl (s : Enforcer) : Keeps s s :=
  ⟨le_rfl, fun _ _ => rfl, fun _ _ => Or.inl, fun _ _ _ => Or.inl⟩

theorem Keeps.trans {s₁ s₂ s₃ : Enforcer} (h : Keeps s₁ s₂) (h' : Keeps s₂ s₃) : Keeps s₁ s₃ where
  grows := Nat.le_trans h.grows h'.grows
  ids c hc := (h'.ids c (Nat.lt_of_lt_of_le hc h.grows)).trans (h.ids c hc)
  all id c hc := (h'.all id c hc).elim
    (fun hc' => (h.all id c hc').imp_right h'.names) Or.inr
  target t id c hc := (h'.target t id c hc).elim
    (fun hc' => (h.target t id c hc').imp_right h'.names) Or.inr

/-- A method that allocates and inserts nothing keeps the names. -/
theorem Keeps.of_subset (hn : s'.nextRef = s.nextRef)
    (hid : ∀ c, (s'.clients c).id = (s.clients c).id)
    (hall : ∀ id c, s'.allClients.lookup id = some c → s.allClients.lookup id = some c)
    (htgt : ∀ t id c, (s'.targetClients t).lookup id = some c →
      (s.targetClients t).lookup id = some c) : Keeps s s' :=
  ⟨Nat.le_of_eq hn.symm, fun c _ => hid c, fun id c hc => Or.inl (hall id c hc),
    fun t id c hc => Or.inl (htgt t id c hc)⟩

theorem keeps_note (a : Action) : Keeps s (s.note a) :=
  Keeps.of_subset rfl (fun _ => rfl) (fun _ _ h => h) fun _ _ _ h => h

theorem keeps_await (cb : Callback) : Keeps s (s.await cb) :=
  Keeps.of_subset rfl (fun _ => rfl) (fun _ _ h => h) fun _ _ _ h => h

theorem setIntervals_id (m : Keyed Handle ℤ) (c' : ClientRef) :
    ((s.setIntervals c m).clients c').id = (s.clients c').id := by
  by_cases h : c' = c
  · subst h; simp
  · simp [h]

theorem keeps_setIntervals (m : Keyed Handle ℤ) : Keeps s (s.setIntervals c m) :=
  Keeps.of_subset rfl (setIntervals_id m) (fun _ _ h => h) fun _ _ _ h => h

theorem keeps_unregister : Keeps s (s.unregister id t) := by
  refine Keeps.of_subset rfl (fun _ => rfl) (fun _ _ h => h) fun t' k c h => ?_
  by_cases ht : t' = t
  · subst ht
    simp only [unregister, Function.update_self] at h
    exact Keyed.lookup_of_lookup_erase h
  · simpa [ht] using h

theorem keeps_removeClient : Keeps s (s.removeClient c) := by
  rw [removeClient_eq]
  exact Keeps.of_subset rfl (fun _ => rfl) (fun _ _ h => Keyed.lookup_of_lookup_erase h)
    fun _ _ _ h => lookup_of_lookup_dropWhere h

theorem keeps_handleClientHeartbeat (n : ℕ) (st : ClntStat) :
    Keeps s (s.handleClientHeartbeat c n st) :=
  handleClientHeartbeat_cases (fun _ => Keeps.refl s) (fun _ _ => keeps_await _)
    (fun _ _ _ => keeps_await _) fun _ _ _ => (keeps_note _).trans keeps_removeClient

theorem keeps_addToWaiting : Keeps s (s.addToWaiting t c) :=
  addToWaiting_cases (Keeps.refl s) fun _ =>
    Keeps.of_subset rfl (fun _ => rfl) (fun _ _ h => h) fun _ _ _ h => h

theorem keeps_repeatWaiting : Keeps s (s.repeatWaiting t c) :=
  repeatWaiting_cases (Keeps.refl s) (fun _ => (keeps_setIntervals _).trans keeps_addToWaiting)
    keeps_addToWaiting (keeps_await _)

theorem keeps_observeUp : Keeps s (s.observeUp t) := by
  have h0 : Keeps s { s with waitingForUp := Function.update s.waitingForUp t ∅ } :=
    Keeps.of_subset rfl (fun _ => rfl) (fun _ _ h => h) fun _ _ _ h => h
  exact h0.trans (Run.foldl_rel Keeps.refl (fun _ _ _ => Keeps.trans)
    (fun _ _ => (keeps_note _).trans keeps_repeatWaiting) _ _)

theorem keeps_reportDown (arg : ClientDownArg) (n : ℕ) (st : ClntStat) :
    Keeps s (s.reportDown c arg n st) := by
  have herase : Keeps s ((s.eraseInterval c arg.handle).unregister (s.clients c).id arg.handle) :=
    (keeps_setIntervals _).trans keeps_unregister
  exact reportDown_cases (fun _ => herase) (fun _ _ => herase.trans keeps_removeClient)
    (fun _ _ => (keeps_note _).trans keeps_removeClient)
    fun _ _ => (keeps_note _).trans (keeps_await _)

/-- Emptying one of the sets of registrations keeps the names of the others. -/
theorem lookup_of_lookup_update_empty {f : Handle → ClientSet} {t' : Handle} {k : ClientId}
    (h : (Function.update f t ∅ t').lookup k = some c) : (f t').lookup k = some c := by
  by_cases ht : t' = t
  · subst ht; rw [Function.update_self, AList.lookup_empty] at h; cases h
  · rwa [Function.update_of_ne ht] at h

theorem keeps_observeDown (st : UInt32) (k w : Bool) : Keeps s (s.observeDown t st k w) := by
  have hsend : Keeps s ((s.note (.observeDown t)).sendDowns t st k w) :=
    (keeps_note _).trans (Run.foldl_rel Keeps.refl (fun _ _ _ => Keeps.trans)
      (fun _ _ => keeps_reportDown _ _ _) _ _)
  refine hsend.trans (Keeps.of_subset rfl (fun _ => rfl) (fun _ _ h => h) fun _ _ _ h => ?_)
  exact lookup_of_lookup_update_empty h

/-! ## Requests -/

/-- Reading the generation `n` increments lead to. -/
theorem iterate_incrementGeneration (t : Handle) : ∀ (n : ℕ) (s : Enforcer),
    (incrementGeneration t)^[n] s =
      { s with
        generationLog := s.generationLog ++ List.replicate n t
        generations := Function.update s.generations t (s.generations t + UInt32.ofNat n) }
  | 0, s => by simp
  | n + 1, s => by
    rw [Function.iterate_succ_apply, iterate_incrementGeneration t n]
    simp only [incrementGeneration, List.append_assoc, List.singleton_append,
      Function.update_self, Function.update_idem, ← List.replicate_succ]
    congr 2
    rw [UInt32.add_assoc, UInt32.add_comm 1, UInt32.ofNat_add]
    rfl

/-- **`FastForwardGeneration` leaves the target at the given generation**, forwards or backwards;
only the generation log tells how it got there. -/
theorem fastForwardGeneration_eq (t : Handle) (g : GenNo) (s : Enforcer) :
    ∃ lines, s.fastForwardGeneration t g =
      { s with
        generationLog := lines
        generations := Function.update s.generations t g } := by
  unfold fastForwardGeneration
  split
  · exact ⟨s.generationLog, rfl⟩
  · next h =>
    have hle : (s.generations t).toNat ≤ g.toNat := by
      rw [UInt32.lt_iff_toNat_lt] at h; omega
    have hg : s.generations t + UInt32.ofNat (g.toNat - (s.generations t).toNat) = g := by
      apply UInt32.toNat.inj
      have := g.toNat_lt
      rw [UInt32.toNat_add, UInt32.toNat_ofNat']
      omega
    rw [iterate_incrementGeneration, hg]
    exact ⟨_, rfl⟩

theorem updateGenerations_eq (t : Handle) (layer : LayerAnswer) (s : Enforcer) :
    ∃ lines, s.updateGenerations t layer =
      { s with
        generationLog := lines
        generations := Function.update s.generations t (layer.newGen.getD (s.generations t)) } := by
  unfold updateGenerations
  cases layer.newGen with
  | none => exact ⟨s.generationLog, by simp⟩
  | some g => exact fastForwardGeneration_eq t g s

theorem keeps_updateGenerations (layer : LayerAnswer) : Keeps s (s.updateGenerations t layer) := by
  obtain ⟨lines, h⟩ := updateGenerations_eq t layer s
  rw [h]
  exact Keeps.of_subset rfl (fun _ => rfl) (fun _ _ h => h) fun _ _ _ h => h

/-- **`GetClient` gives the object held for the address**, allocated now if there was none. -/
theorem getClient_spec (hs : Named s) (addr : ClientAddr) :
    Keeps s (s.getClient addr).1 ∧ (s.getClient addr).1.Names addr.id (s.getClient addr).2 ∧
      (s.getClient addr).1.allClients.lookup addr.id = some (s.getClient addr).2 := by
  unfold getClient
  split
  · next c hc => exact ⟨Keeps.refl s, hs.all _ _ hc, hc⟩
  · next hnone =>
    have hfresh : addr.id ∉ s.allClients := AList.lookup_eq_none.mp hnone
    have hnames : ∀ s' : Enforcer, s'.nextRef = s.nextRef + 1 →
        s'.clients = Function.update s.clients s.nextRef ⟨addr.id, addr.clientTag, ∅⟩ →
        s'.Names addr.id s.nextRef :=
      fun s' hn hcl => ⟨hn ▸ Nat.lt_succ_self _, by rw [hcl, Function.update_self]⟩
    refine ⟨⟨Nat.le_succ _, fun c hc => ?_, fun id c h => ?_, fun _ _ _ h => Or.inl h⟩,
      hnames _ rfl rfl, Keyed.lookup_add_self hfresh⟩
    · simp [Nat.ne_of_lt hc]
    · obtain h | ⟨rfl, rfl⟩ := Keyed.lookup_of_lookup_add h
      · exact Or.inl h
      · exact Or.inr (hnames _ rfl rfl)

theorem keeps_enroll (hc : c < s.nextRef) : Keeps s (s.enroll c t) := by
  refine ⟨Nat.le_refl _, fun _ _ => rfl, fun _ _ h => Or.inl h, fun t' k c' h => ?_⟩
  by_cases ht : t' = t
  · subst ht
    simp only [enroll, Function.update_self] at h
    obtain h | ⟨rfl, rfl⟩ := Keyed.lookup_of_lookup_add h
    · exact Or.inl h
    · exact Or.inr ⟨hc, rfl⟩
  · exact Or.inl (by simpa [enroll, ht] using h)

theorem keeps_license (lethal : Bool) : Keeps s (s.license lethal c t) := by
  unfold license
  split
  · exact Keeps.of_subset rfl (fun _ => rfl) (fun _ _ h => h) fun _ _ _ h => h
  · exact Keeps.refl s

theorem keeps_register (arg : SpyRegisterArg) (hc : c < s.nextRef) :
    Keeps s (s.register arg c) := by
  have henlist : Keeps s (s.enlist arg c) :=
    (((keeps_enroll hc).trans (keeps_setIntervals _)).trans keeps_repeatWaiting).trans
      (keeps_license arg.lethal)
  exact register_cases henlist (henlist.trans (keeps_note _))

theorem keeps_cancel : Keeps s (s.cancel t c) := by
  have herase : Keeps s ((s.eraseInterval c t).unregister (s.clients c).id t) :=
    (keeps_setIntervals _).trans keeps_unregister
  exact cancel_cases herase (herase.trans (keeps_note _)) (herase.trans keeps_removeClient)
    ((herase.trans (keeps_note _)).trans keeps_removeClient)

theorem keeps_dispatch (hs : Named s) (req : Request) (layer : LayerAnswer) :
    Keeps s (s.dispatch req layer) := by
  have hup : Keeps s (s.updateGenerations req.target layer) := keeps_updateGenerations layer
  have hget := getClient_spec (hup.named hs)
  refine dispatch_cases (fun _ => Keeps.refl s) (fun _ _ _ => keeps_note _)
    (fun _ => hup.trans (keeps_note _)) (fun arg _ _ _ => ?_) (fun arg _ _ _ => ?_)
    (fun arg _ _ _ => ?_) fun _ _ _ _ => hup.trans ((keeps_note _).trans (keeps_note _))
  · obtain ⟨hk, hn, -⟩ := hget arg.client
    exact (hup.trans hk).trans ((keeps_register arg hn.1).trans (keeps_note _))
  · exact (hup.trans (hget arg.client).1).trans (keeps_cancel.trans (keeps_note _))
  · exact (hup.trans (hget arg.client).1).trans (keeps_note _)

theorem keeps_call (cb : Callback) (st : ClntStat) : Keeps s (s.call cb st) := by
  cases cb with
  | heartbeatCall c n => exact keeps_handleClientHeartbeat n st
  | heartbeatTimer c n => exact keeps_await _
  | downCall c arg n => exact keeps_reportDown arg n st
  | waitingTimer t c => exact keeps_addToWaiting

theorem step_fire {cb : Callback} {st : ClntStat} :
    step s (.fire cb st) = some s' ↔ cb ∈ s.pending ∧ (s.take cb).call cb st = s' := by
  simp [step]

/-- Every event keeps the names of the objects. -/
theorem keeps_step (hs : Named s) (h : step s e = some s') : Keeps s s' := by
  cases e with
  | request req layer => exact Option.some.inj h ▸ keeps_dispatch hs req layer
  | fire cb st =>
    obtain ⟨-, rfl⟩ := step_fire.mp h
    have htake : Keeps s (s.take cb) :=
      Keeps.of_subset rfl (fun _ => rfl) (fun _ _ h => h) fun _ _ _ h => h
    exact htake.trans (keeps_call cb st)
  | observeUp t => exact Option.some.inj h ▸ keeps_observeUp
  | observeDown t st k w => exact Option.some.inj h ▸ keeps_observeDown st k w

theorem named_step (hs : Named s) (h : step s e = some s') : Named s' := (keeps_step hs h).named hs

theorem named_init (gv : List GenNo) (gens : Handle → GenNo) : Named (init gv gens) :=
  ⟨fun _ _ h => by simp [init] at h, fun _ _ _ h => by simp [init] at h⟩

end Falcon.Enforcer
