import Falcon.Diomedes.Cache

/-!
# Diomedes/Settling — the cache of a backup at a failover

A backup stores the datagrams of clients and runs the requests of the primary.  When it has become
the primary itself, `ClearRequestCache` answers the cached requests that it has run already, and
`RunFromRequestCache` runs the others.  Nothing checks a datagram when it is stored.

* `settles_iff` — so the cache is settled exactly if each client with a datagram has a response,
  whose size fits if it is for the datagram, and each datagram that is left is a request of a client
  whose length and record mark fit into a message.
-/

namespace Falcon.Diomedes

open TcpRpcMsg (Fits)

/-- The requests handed to `RunRequest` and their clients, newest first. -/
def Replica.ran (s : Replica) : List (UInt32 × TcpRpcMsg) :=
  s.deeds.filterMap fun
    | .ran preq => some (preq.clientId, preq.request)
    | _ => none

/-- The cached request of a client. -/
def Replica.cached (s : Replica) (id : UInt32) : Option (UInt32 × TcpRpcMsg) :=
  (s.requestMap.lookup id).map fun m => (id, m.preq.request)

namespace Server

/-- `UpdateClientMap`. -/
def updateClientMap (id : UInt32) (source : Address) (s : Server) : Server :=
  match s.clientMap.lookup id with
  | none => { s with clientMap := s.clientMap.insert id source }
  | some old =>
    if old.addr ≠ source.addr then { s with clientMap := s.clientMap.insert id source } else s

/-- `HandleRequestAsBackup`. -/
def handleRequestAsBackup (msg : RequestMessage) (source : Address) (s : Server) : Server :=
  { s with requestMap := s.requestMap.insert msg.preq.clientId msg }.updateClientMap
    msg.preq.clientId source

/-- What a backup does with an event. -/
def backupStep (s : Server) : BackupEvent → Option Server
  | .store msg source => some (s.handleRequestAsBackup msg source)
  | .run preq response => do
    let (_, r) ← s.toReplica.runRequest preq response
    some { s with toReplica := r }

/-- `CountVote` has cleared the cache and begins `RunFromRequestCache`. -/
def settle (r : Replica) (s : Server) : Server :=
  { s with
    toReplica := { r with mode := .waitingForRequests }
    settling := r.requestMap.isEmpty = false
    pulling := false }

/-- An event in the loop of `RunFromRequestCache`. -/
def settleStep (s : Server) (e : Event) : Option Server := if s.settling then s.step e else none

/-- The requests of the clients in `done` have been run once since `s₀`, in this order (the last one
first); the others are still cached, as long as the loop goes on. -/
structure RunOnce (s₀ s : Server) (done : List UInt32) : Prop where
  nodup : done.Nodup
  mem : ∀ id ∈ done, id ∈ s₀.requestMap
  ran : s.ran = done.filterMap s₀.cached ++ s₀.ran
  left : ∀ id, s.requestMap.lookup id = if id ∈ done then none else s₀.requestMap.lookup id
  ends : s.settling = false → ∀ id ∈ s₀.requestMap, id ∈ done

/-- No check fails when the loop comes to run a request and the state machine answers. -/
def Runs (s : Server) : Prop := s.settling = true → s.mode = .waitingForRequests →
  ∀ response, ∃ s', s.step (.cached (some response)) = some s'

/-- **The cache is settled.**  `ClearRequestCache` answers what has been run, and no event of the
loop of `RunFromRequestCache` leads to a request that cannot be run, or is run twice. -/
structure Settles (s : Server) : Prop where
  known : ∀ id ∈ s.requestMap, id ∈ s.clientMap
  clears : ∃ r, s.clearRequestCache = some r ∧ Replica.Cleared s.cachedIds s.toReplica r
  runs : ∀ r, s.clearRequestCache = some r → ∀ (es : List Event) s',
    es.foldlM settleStep (s.settle r) = some s' → s'.Runs ∧ ∃ done, RunOnce (s.settle r) s' done

/-- A backup that has joined the group, with empty maps. -/
structure Joined (s : Server) : Prop where
  self_mem : s.self ∈ s.activeServers
  nodup : s.activeServers.Nodup
  requestMap : s.requestMap = ∅
  responseMap : s.responseMap = ∅
  clientMap : s.clientMap = ∅

/-- What can be settled. -/
structure Cacheable (s : Server) : Prop where
  answered : ∀ id ∈ s.requestMap.keys, s.Clearable id
  valid : ∀ id ∈ s.requestMap.keys, ∀ m ∈ s.requestMap.lookup id, s.answer id = none →
    m.type = clientRequest ∧ m.Sendable ∧ Fits m.preq.request.sendBytes

/-- What a backup has stored: the datagrams are under the ids of their clients, whose addresses are
known. -/
structure Stored (s : Server) : Prop where
  self_mem : s.self ∈ s.activeServers
  nodup : s.activeServers.Nodup
  key : ∀ id m, s.requestMap.lookup id = some m → m.preq.clientId = id
  known : ∀ id ∈ s.requestMap, id ∈ s.clientMap

variable {s₀ s s' : Server} {e : Event} {be : BackupEvent} {es : List Event} {r : Replica}
  {id : UInt32} {m : RequestMessage} {done : List UInt32} {msg : RequestMessage} {source : Address}
  {response : Option TcpRpcMsg} {x : TcpRpcMsg}

/-! ## The backup -/

theorem updateClientMap_eq (s : Server) (id : UInt32) (source : Address) :
    ∃ C, s.updateClientMap id source = { s with clientMap := C } ∧ id ∈ C ∧
      ∀ id' ∈ s.clientMap, id' ∈ C := by
  unfold updateClientMap
  have hinsert : id ∈ s.clientMap.insert id source ∧
      ∀ id' ∈ s.clientMap, id' ∈ s.clientMap.insert id source :=
    ⟨AList.mem_insert _ |>.mpr (Or.inl rfl), fun id' hid' => (AList.mem_insert _).mpr (Or.inr hid')⟩
  cases hold : s.clientMap.lookup id with
  | none => exact ⟨_, rfl, hinsert⟩
  | some old =>
    dsimp only
    split_ifs
    · exact ⟨_, rfl, hinsert⟩
    · exact ⟨s.clientMap, rfl, Keyed.mem_of_lookup hold, fun _ hid' => hid'⟩

theorem Stored.step (h : s.Stored) (hs : s.backupStep be = some s') : s'.Stored := by
  cases be with
  | store msg source =>
    obtain rfl := Option.some.inj hs
    unfold handleRequestAsBackup
    obtain ⟨C, heq, hid, hkeep⟩ := updateClientMap_eq
      { s with requestMap := s.requestMap.insert msg.preq.clientId msg } msg.preq.clientId source
    rw [heq]
    refine ⟨h.self_mem, h.nodup, fun id m hm => ?_, fun id hmem => ?_⟩
    · obtain ⟨rfl, rfl⟩ | ⟨-, hm⟩ := Keyed.lookup_of_lookup_insert hm
      · rfl
      · exact h.key id m hm
    · obtain rfl | hmem := (AList.mem_insert _).mp hmem
      · exact hid
      · exact hkeep id (h.known id hmem)
  | run preq response =>
    obtain ⟨⟨b, r⟩, hrun, hs⟩ := Option.bind_eq_some_iff.mp hs
    obtain ⟨R, rfl, -⟩ := Replica.runRequest_eq hrun
    obtain rfl := Option.some.inj hs
    exact ⟨h.self_mem, h.nodup, h.key, h.known⟩

theorem Joined.stored (h : s.Joined) : s.Stored where
  self_mem := h.self_mem
  nodup := h.nodup
  key id m hm := by
    rw [h.requestMap] at hm
    cases hm
  known id hid := by
    rw [h.requestMap] at hid
    cases hid

/-! ## The loop -/

/-- What an event of the loop leaves alone that does not run a request. -/
structure Quiet (s s' : Server) : Prop where
  requestMap : s'.requestMap = s.requestMap
  responseMap : s'.responseMap = s.responseMap
  clientMap : s'.clientMap = s.clientMap
  settling : s'.settling = s.settling
  ran : s'.ran = s.ran
  mode : s'.mode = .waitingForRequests ∨ s'.mode = .processingRequest

theorem wake_quiet (hmode : s.mode = .waitingForRequests ∨ s.mode = .processingRequest) :
    Quiet s s.wake := by
  obtain ⟨-, heq⟩ | ⟨-, heq⟩ := s.wake_eq
  · rw [heq]
    exact ⟨rfl, rfl, rfl, rfl, rfl, Or.inl rfl⟩
  · rw [heq]
    exact ⟨rfl, rfl, rfl, rfl, rfl, hmode⟩

/-- What follows a quiet event and leaves the same fields alone. -/
theorem Quiet.frame {t : Server} (h : Quiet s t) (hrequests : s'.requestMap = t.requestMap)
    (hresponses : s'.responseMap = t.responseMap) (hclients : s'.clientMap = t.clientMap)
    (hset : s'.settling = t.settling) (hdeeds : s'.deeds = t.deeds)
    (hmode : s'.mode = t.mode ∨ s'.mode = .waitingForRequests) : Quiet s s' where
  requestMap := hrequests.trans h.requestMap
  responseMap := hresponses.trans h.responseMap
  clientMap := hclients.trans h.clientMap
  settling := hset.trans h.settling
  ran := by
    rw [← h.ran, Replica.ran, Replica.ran, hdeeds]
  mode := hmode.elim (fun heq => heq ▸ h.mode) Or.inl

/-- An event of the loop is quiet, or it runs a request. -/
theorem step_quiet (hset : s.settling = true)
    (hmode : s.mode = .waitingForRequests ∨ s.mode = .processingRequest)
    (hs : s.step e = some s') : Quiet s s' ∨
      ∃ response, s.runFromRequestCache response = some s' := by
  cases e with
  | failure failed =>
    obtain ⟨-, rfl⟩ := step_failure hs
    have hwake := wake_quiet hmode
    cases failed with
    | none => exact Or.inl hwake
    | some f =>
      exact Or.inl (hwake.frame rfl rfl rfl rfl rfl (Or.inl rfl))
  | message first bm =>
    obtain ⟨t, s₁, p, ht, hs₁, rfl⟩ := step_message hs
    have hq : Quiet s t := by
      obtain ⟨-, rfl⟩ | ⟨-, -, rfl⟩ := ht
      · exact wake_quiet hmode
      · exact ⟨rfl, rfl, rfl, rfl, rfl, hmode⟩
    obtain ⟨rfl, -⟩ | ⟨msg, response, -, ⟨hnew, -⟩ | ⟨hproc, hs₁⟩⟩ := processBackupMessage_cases hs₁
    · exact Or.inl (hq.frame rfl rfl rfl rfl rfl (Or.inl rfl))
    · exact absurd hnew (by obtain h | h := hq.mode <;> rw [h] <;> decide)
    · obtain ⟨-, rfl⟩ | ⟨-, C, a, ⟨-, rfl⟩ | ⟨-, rfl⟩⟩ := addToAckers_cases hs₁
      · exact Or.inl (hq.frame rfl rfl rfl rfl rfl (Or.inl rfl))
      · exact Or.inl (hq.frame rfl rfl rfl rfl rfl (Or.inl rfl))
      · exact Or.inl (hq.frame rfl rfl rfl rfl rfl (Or.inr rfl))
  | request m response =>
    obtain ⟨-, rfl⟩ | ⟨hidle, -⟩ := step_request hs
    · exact Or.inl (wake_quiet hmode)
    · rw [s.wake_settling, hset] at hidle
      cases hidle
  | cached response => exact Or.inr ⟨response, (step_cached hs).2.2⟩
  | respond r =>
    obtain ⟨-, x, -, ⟨-, rfl⟩ | ⟨-, rfl⟩⟩ := respond_cases hs
    · exact Or.inl ⟨rfl, rfl, rfl, rfl, rfl, hmode⟩
    · exact Or.inl ⟨rfl, rfl, rfl, rfl, rfl, hmode⟩

/-- A cached request that can be run. -/
structure Runnable (s : Server) (id : UInt32) (m : RequestMessage) : Prop where
  key : m.preq.clientId = id
  known : id ∈ s.clientMap
  type : m.type = clientRequest
  sendable : m.Sendable
  fits : Fits m.preq.request.sendBytes
  fresh : (s.responseMap.lookup id).map TcpRpcMsg.xid ≠ some m.preq.request.xid

theorem firstCached_mem (h : firstCached s.toReplica = some id) : id ∈ s.requestMap := by
  have hmem : id ∈ s.cachedIds := List.mem_of_mem_head? h
  exact Replica.mem_cachedIds.mp hmem

theorem exists_firstCached (h : id ∈ s.requestMap) : ∃ id', firstCached s.toReplica = some id' := by
  have hmem : id ∈ s.cachedIds := Replica.mem_cachedIds.mpr h
  unfold firstCached
  change ∃ id', s.cachedIds.head? = some id'
  cases hl : s.cachedIds with
  | nil => exact absurd (hl ▸ hmem) List.not_mem_nil
  | cons id' l => exact ⟨id', rfl⟩

/-- A request that can be sent and is new is executed. -/
theorem exists_execute (htype : r.lastPrimaryRequest.type = primaryRequest)
    (hsend : r.lastPrimaryRequest.Sendable)
    (hfits : Fits r.lastPrimaryRequest.preq.request.sendBytes)
    (hfresh : (r.responseMap.lookup r.lastPrimaryRequest.preq.clientId).map TcpRpcMsg.xid ≠
      some r.lastPrimaryRequest.preq.request.xid) :
    ∃ r', execute (some x) r = some (true, r') := by
  unfold execute Replica.broadcastPrimaryRequest Replica.runRequest
  simp only [Replica.note, if_pos (And.intro htype hsend), Option.bind_eq_bind, Option.bind_some]
  exact ⟨_, (if_neg hfresh).trans (if_pos hfits)⟩

/-- A request of a client is built. -/
theorem buildPrimaryRequest_of (hmode : r.mode = .waitingForRequests)
    (htype : m.type = clientRequest) :
    r.buildPrimaryRequest m = some (true, { r with
      lastPrimaryRequest :=
        { m with type := primaryRequest, preq := { m.preq with reqId := r.currReqId + 1 } } }) := by
  unfold Replica.buildPrimaryRequest
  rw [if_pos hmode, if_neg (not_not.mpr htype)]

/-- A request that can be run is run. -/
theorem exists_runFromRequestCache (hmode : s.mode = .waitingForRequests)
    (hid : firstCached s.toReplica = some id) (hm : s.requestMap.lookup id = some m)
    (hrun : s.Runnable id m) : ∃ s', s.runFromRequestCache (some x) = some s' := by
  obtain ⟨source, hsource⟩ := Keyed.exists_lookup hrun.known
  have hfresh := hrun.fresh
  rw [← hrun.key] at hsource hfresh
  obtain ⟨r, hr⟩ := exists_execute (x := x) (r := { s.toReplica with
    lastPrimaryRequest := { m with
      type := primaryRequest
      preq := { m.preq with reqId := s.currReqId + 1 } } }) rfl hrun.sendable hrun.fits hfresh
  unfold runFromRequestCache
  simp only [hid, hm, hsource, buildPrimaryRequest_of hmode hrun.type, hr, Option.bind_eq_bind,
    Option.bind_some, Bool.true_eq_false, if_false]
  exact ⟨_, rfl⟩

/-- **The loop**: what has been run, and that what is left can be run. -/
structure Looping (s₀ s : Server) (done : List UInt32) : Prop where
  nodup : done.Nodup
  mem : ∀ id ∈ done, id ∈ s₀.requestMap
  ran : s.ran = done.filterMap s₀.cached ++ s₀.ran
  left : ∀ id, s.requestMap.lookup id = if id ∈ done then none else s₀.requestMap.lookup id
  mode : s.mode = .waitingForRequests ∨ s.mode = .processingRequest
  settling : s.settling = true ↔ ∃ id, id ∈ s.requestMap
  runnable : ∀ id m, s.requestMap.lookup id = some m → s.Runnable id m

theorem Looping.runOnce (h : Looping s₀ s done) : RunOnce s₀ s done := by
  refine ⟨h.nodup, h.mem, h.ran, h.left, fun hend id hid => by_contra fun hnot => ?_⟩
  have hmem : id ∈ s.requestMap := by
    rw [← AList.lookup_isSome, h.left, if_neg hnot, AList.lookup_isSome]
    exact hid
  exact absurd (h.settling.mpr ⟨id, hmem⟩) (by simp [hend])

theorem Looping.runs (h : Looping s₀ s done) : s.Runs := by
  intro hset hmode x
  obtain ⟨id, hid⟩ := h.settling.mp hset
  obtain ⟨id, hfirst⟩ := exists_firstCached hid
  obtain ⟨m, hm⟩ := Keyed.exists_lookup (firstCached_mem hfirst)
  obtain ⟨s', hs'⟩ := exists_runFromRequestCache hmode hfirst hm (h.runnable id m hm)
  exact ⟨s', (if_pos ⟨hset, hmode⟩).trans hs'⟩

theorem Looping.quiet (h : Looping s₀ s done) (hq : Quiet s s') : Looping s₀ s' done := by
  refine ⟨h.nodup, h.mem, hq.ran.trans h.ran, fun id => hq.requestMap ▸ h.left id, hq.mode, ?_,
    fun id m hm => ?_⟩
  · rw [hq.settling, hq.requestMap]
    exact h.settling
  · obtain ⟨hkey, hknown, htype, hsend, hfits, hfresh⟩ := h.runnable id m (hq.requestMap ▸ hm)
    exact ⟨hkey, hq.clientMap ▸ hknown, htype, hsend, hfits, hq.responseMap ▸ hfresh⟩

/-- A round runs one more request. -/
theorem Looping.cached (h : Looping s₀ s done) (hs : s.runFromRequestCache response = some s') :
    ∃ id, Looping s₀ s' (id :: done) := by
  obtain ⟨id, m, R, L, -, hm, -, -, -, hframe, hclient, hrequest, rfl⟩ :=
    runFromRequestCache_spec hs
  have hkey := (h.runnable id m hm).key
  have hleft := h.left id
  rw [hm] at hleft
  have hnew : id ∉ done := fun hmem => by
    rw [if_pos hmem] at hleft
    cases hleft
  rw [if_neg hnew] at hleft
  refine ⟨id, List.nodup_cons.mpr ⟨hnew, h.nodup⟩, fun id' hid' => ?_, ?_, fun id' => ?_,
    Or.inr rfl, ?_, fun id' m' hm' => ?_⟩
  · obtain rfl | hid' := List.mem_cons.mp hid'
    · exact Keyed.mem_of_lookup hleft.symm
    · exact h.mem id' hid'
  · have hcached : s₀.cached id = some (L.preq.clientId, L.preq.request) := by
      rw [Replica.cached, ← hleft, hclient, hrequest, hkey]
      rfl
    rw [List.filterMap_cons_some hcached, List.cons_append, ← h.ran]
    rfl
  · dsimp only
    by_cases heq : id' = id
    · subst heq
      simp
    · rw [AList.lookup_erase_ne heq, h.left id']
      simp [heq]
  · dsimp only
    rw [decide_eq_true_iff, Keyed.not_isEmpty_iff]
  · dsimp only at hm'
    have hne : id' ≠ id := fun heq => by
      rw [heq, AList.lookup_erase] at hm'
      cases hm'
    rw [AList.lookup_erase_ne hne] at hm'
    obtain ⟨hkey', hknown, htype, hsend, hfits, hfresh⟩ := h.runnable id' m' hm'
    refine ⟨hkey', hknown, htype, hsend, hfits, ?_⟩
    change (R.lookup id').map _ ≠ _
    rw [hframe id' (hkey ▸ hne)]
    exact hfresh

theorem Looping.step (h : Looping s₀ s done) (hs : s.settleStep e = some s') :
    ∃ done', Looping s₀ s' done' := by
  unfold settleStep at hs
  split_ifs at hs with hset
  obtain hq | ⟨response, hs⟩ := step_quiet hset h.mode hs
  · exact ⟨done, h.quiet hq⟩
  · obtain ⟨id, hid⟩ := h.cached hs
    exact ⟨id :: done, hid⟩

/-- What the loop begins with. -/
theorem Stored.looping (h : s.Stored) (hc : s.Cacheable) (hr : s.clearRequestCache = some r) :
    Looping (s.settle r) (s.settle r) [] := by
  obtain ⟨hothers, hleft, -⟩ := Replica.cleared_of_clearRequestCache hr
  refine ⟨List.nodup_nil, fun id hid => absurd hid List.not_mem_nil, rfl, fun id => by simp,
    Or.inl rfl, ?_, fun id m hm => ?_⟩
  · change decide _ = true ↔ ∃ id, id ∈ r.requestMap
    rw [decide_eq_true_iff]
    exact Keyed.not_isEmpty_iff
  · change r.requestMap.lookup id = some m at hm
    rw [hleft] at hm
    split_ifs at hm with hanswered
    have hmem : id ∈ s.requestMap := Keyed.mem_of_lookup hm
    have hnone : s.answer id = none := by
      rw [← Option.not_isSome_iff_eq_none]
      exact fun hsome => hanswered ⟨Replica.mem_cachedIds.mpr hmem, hsome⟩
    obtain ⟨htype, hsend, hfits⟩ := hc.valid id (AList.mem_keys.mp hmem) m hm hnone
    refine ⟨h.key id m hm, h.known id hmem, htype, hsend, hfits, fun hxid => ?_⟩
    change (r.responseMap.lookup id).map _ = _ at hxid
    rw [hothers] at hxid
    obtain ⟨x, hx, hxid⟩ := Option.map_eq_some_iff.mp hxid
    have hsome : s.answer id = some (.responded id x.sent) := by
      rw [Replica.answer, hm, Option.bind_eq_bind, Option.bind_some, hx, Option.bind_eq_bind,
        Option.bind_some, if_pos hxid.symm]
    exact absurd (hsome.symm.trans hnone) (by simp)

theorem Stored.settles (h : s.Stored) (hc : s.Cacheable) : s.Settles where
  known := h.known
  clears := by
    obtain ⟨r, hr⟩ := Replica.exists_clearRequestCache_iff.mpr fun id hid =>
      hc.answered id (AList.mem_keys.mp hid)
    exact ⟨r, hr, Replica.cleared_of_clearRequestCache hr⟩
  runs r hr es s' hs' := by
    obtain ⟨done, hdone⟩ := Run.keeps (I := fun s' => ∃ done, Looping (s.settle r) s' done)
      (fun s₁ e s₂ h₁ hI => hI.elim fun done hdone => hdone.step h₁) hs' ⟨[], h.looping hc hr⟩
    exact ⟨hdone.runs, done, hdone.runOnce⟩

/-! ## What cannot be settled -/

/-- The events in which the other servers fail. -/
def failuresOf (l : List DiomedesId) : List Event := l.map fun f => .failure (some f)

theorem settleStep_failure {failed : Option DiomedesId} (hset : s.settling = true)
    (hself : failed ≠ some s.self) :
    s.settleStep (.failure failed) = some (s.wake.processFailure failed) := by
  rw [settleStep, if_pos hset, step, if_neg hself]

/-- The others fail while the loop waits for requests. -/
theorem run_failuresOf (l : List DiomedesId) (hset : s.settling = true)
    (hmode : s.mode = .waitingForRequests) (hself : ∀ f ∈ l, f ≠ s.self) :
    ∃ s', (failuresOf l).foldlM settleStep s = some s' ∧ s'.settling = true ∧
      s'.mode = .waitingForRequests ∧ s'.requestMap = s.requestMap ∧
      s'.activeServers = s.activeServers.filter (· ∉ l) := by
  induction l generalizing s with
  | nil => exact ⟨s, rfl, hset, hmode, rfl, (List.filter_eq_self.mpr (by simp)).symm⟩
  | cons f l ih =>
    have hstep := settleStep_failure hset fun heq : some f = some s.self =>
      hself f List.mem_cons_self (Option.some.inj heq)
    have hwait : s.wake.mode = .waitingForRequests := by
      obtain ⟨-, heq⟩ | ⟨-, heq⟩ := s.wake_eq
      · rw [heq]
      · rw [heq]
        exact hmode
    have hsame : s.wake.self = s.self := by rw [s.wake_frame]
    have hmap : s.wake.requestMap = s.requestMap := by rw [s.wake_frame]
    have hactive : s.wake.activeServers = s.activeServers := by rw [s.wake_frame]
    obtain ⟨s', hs', hset', hmode', hmap', hactive'⟩ := ih (s := s.wake.processFailure (some f))
      (s.wake_settling.trans hset) hwait fun g hg => by
        change g ≠ s.wake.self
        rw [hsame]
        exact hself g (List.mem_cons_of_mem f hg)
    refine ⟨s', ?_, hset', hmode', hmap'.trans hmap, ?_⟩
    · rw [failuresOf, List.map_cons, List.foldlM_cons, hstep]
      exact hs'
    · rw [hactive']
      change (s.wake.activeServers.filter _).filter _ = _
      rw [hactive, List.filter_filter]
      refine List.filter_congr fun v _ => ?_
      by_cases hv : v = f
      · simp [hv]
      · simp [hv]

theorem length_filter_self {l : List DiomedesId} {a : DiomedesId} (hl : l.Nodup) (ha : a ∈ l) :
    (l.filter (· ∉ l.filter (· ≠ a))).length = 1 := by
  have hfilter : l.filter (· ∉ l.filter (· ≠ a)) = l.filter (· == a) := by
    refine List.filter_congr fun v hv => ?_
    by_cases heq : v = a
    · simp [heq]
    · simp [heq, hv]
  rw [hfilter, ← List.countP_eq_length_filter, ← List.count_eq_countP]
  exact List.count_eq_one_of_mem hl ha

/-- The last server runs one cached request after the other: each of them can be run. -/
theorem valid_of_runs {n : ℕ} (hn : s.requestMap.keys.length = n) (hset : s.settling = true)
    (hmode : s.mode = .waitingForRequests) (halone : s.activeServers.length = 1)
    (hruns : ∀ (es : List Event) s', es.foldlM settleStep s = some s' → s'.Runs)
    (hm : s.requestMap.lookup id = some m) :
    m.type = clientRequest ∧ m.Sendable ∧ Fits m.preq.request.sendBytes := by
  induction n generalizing s with
  | zero =>
    have hmem := AList.mem_keys.mp (Keyed.mem_of_lookup hm)
    rw [List.eq_nil_of_length_eq_zero hn] at hmem
    exact absurd hmem List.not_mem_nil
  | succ n ih =>
    obtain ⟨s₁, hs₁⟩ := hruns [] s rfl hset hmode ⟨0, []⟩
    have hround : s.settleStep (.cached (some ⟨0, []⟩)) = some s₁ := (if_pos hset).trans hs₁
    obtain ⟨id₀, m₀, R, L, -, hm₀, htype, hsend, hfits, -, -, -, heq₁⟩ :=
      runFromRequestCache_spec (step_cached hs₁).2.2
    by_cases heq : id = id₀
    · subst heq
      obtain rfl := Option.some.inj (hm.symm.trans hm₀)
      exact ⟨htype, hsend, hfits⟩
    have hmap : s₁.requestMap = s.requestMap.erase id₀ := by rw [heq₁]
    have hactive : s₁.activeServers.length = 1 := by rw [heq₁]; exact halone
    have hm₁ : s₁.requestMap.lookup id = some m := by
      rw [hmap, AList.lookup_erase_ne heq]
      exact hm
    have hset₁ : s₁.settling = true := by
      rw [hmap] at hm₁
      rw [heq₁]
      exact decide_eq_true (Keyed.not_isEmpty_iff.mpr ⟨id, Keyed.mem_of_lookup hm₁⟩)
    -- a message of the spy makes it wait for requests again
    have hspy := settleStep_failure hset₁ (Option.some_ne_none s₁.self).symm
    have hwake : s₁.wake = { s₁ with mode := .waitingForRequests, pulling := false } := by
      obtain ⟨-, hw⟩ | ⟨hne, -⟩ := s₁.wake_eq
      · exact hw
      · exact absurd hactive hne
    refine ih (s := s₁.wake) ?_ (s₁.wake_settling.trans hset₁) (by rw [hwake])
      (by rw [hwake]; exact hactive) (fun es s' hs' => ?_) (by rw [hwake]; exact hm₁)
    · rw [hwake]
      change s₁.requestMap.keys.length = n
      have hmem := AList.mem_keys.mp (Keyed.mem_of_lookup hm₀)
      rw [hmap, AList.keys_erase, List.length_erase_of_mem hmem, hn, Nat.add_sub_cancel]
    · refine hruns (.cached (some ⟨0, []⟩) :: .failure none :: es) s' ?_
      rw [List.foldlM_cons, hround]
      change (s₁.settleStep (.failure none)).bind _ = _
      rw [hspy]
      exact hs'

theorem Stored.cacheable (h : s.Stored) (hsettles : s.Settles) : s.Cacheable := by
  obtain ⟨r, hr, hcleared⟩ := hsettles.clears
  have hclears := Replica.exists_clearRequestCache_iff.mp ⟨r, hr⟩
  refine ⟨fun id hid => hclears id (AList.mem_keys.mpr hid), fun id hid m hm hnone => ?_⟩
  have hleft : r.requestMap.lookup id = some m := by
    rw [hcleared.left, hnone]
    simpa using hm
  have hself : (s.settle r).activeServers = s.activeServers := by
    change r.activeServers = s.activeServers
    rw [hcleared.others]
  have hset : (s.settle r).settling = true :=
    decide_eq_true (Keyed.not_isEmpty_iff.mpr ⟨id, Keyed.mem_of_lookup hleft⟩)
  obtain ⟨s₁, hs₁, hset₁, hmode₁, hmap₁, hactive₁⟩ := run_failuresOf (s := s.settle r)
    (s.activeServers.filter (· ≠ s.self)) hset rfl fun f hf =>
      of_decide_eq_true (List.mem_filter.mp hf).2
  refine valid_of_runs (s := s₁) rfl hset₁ hmode₁ ?_ (fun es s' hs' => ?_) (hmap₁ ▸ hleft)
  · rw [hactive₁, hself]
    exact length_filter_self h.nodup h.self_mem
  · refine (hsettles.runs r hr (failuresOf (s.activeServers.filter (· ≠ s.self)) ++ es) s' ?_).1
    rw [List.foldlM_append, hs₁]
    exact hs'

/-- **The cache of a backup is settled** at a failover exactly if every client with a cached
datagram has a response, whose size fits if it is for the datagram, and each datagram that the
response is not for is a request that can be broadcast and sent to the state machine. -/
theorem settles_iff {bs : List BackupEvent} (h₀ : s₀.Joined)
    (hs : bs.foldlM backupStep s₀ = some s) : s.Settles ↔ s.Cacheable := by
  have hstored : s.Stored := Run.keeps (fun _ _ _ h₁ h => h.step h₁) hs h₀.stored
  exact ⟨hstored.cacheable, hstored.settles⟩

/-! ## A backup -/

/-- The server on `b` has joined the group. -/
def joined : Server :=
  { candidate with
    mode := .backup
    currReqId := 0
    responseMap := ∅
    deeds := []
    self := serverOn "b" }

theorem joined_joined : joined.Joined := ⟨by decide, by decide, rfl, rfl, rfl⟩

/-- A record of `n` bytes, or of 256 more for each of `k`. -/
def recordOf (xid : UInt64) (k n : UInt8) : TcpRpcMsg := ⟨xid, [128, 0, k, n]⟩

/-- A client sends a request of 40 bytes to the group. -/
def datagram (client : UInt32) (xid : UInt64) : BackupEvent :=
  .store ⟨clientRequest, 60, ⟨0, client, recordOf xid 0 40⟩⟩ ⟨0, 0⟩

/-- A backup runs a request, and gets a response of 24 bytes. -/
def ranFor (reqId client : UInt32) (xid : UInt64) : BackupEvent :=
  .run ⟨reqId, client, recordOf xid 0 40⟩ (some (recordOf xid 0 24))

/-- When the primary fails, the request of client 7 has been run, the second one of client 8 not. -/
def history : List BackupEvent :=
  [datagram 7 100, ranFor 1 7 100, ranFor 2 8 200, datagram 8 201]

theorem settles_history : ∃ s, history.foldlM backupStep joined = some s ∧ s.Settles := by
  have hiff := settles_iff joined_joined (rfl : history.foldlM backupStep joined = some _)
  have hclients : ∀ id ∈ [(8 : UInt32), 7], id = 8 ∨ id = 7 := by simp
  refine ⟨_, rfl, hiff.mpr ⟨fun id hid => ?_, fun id hid m hm hnone => ?_⟩⟩
  · obtain rfl | rfl := hclients id hid
    · decide
    · decide
  · obtain rfl | rfl := hclients id hid
    · obtain rfl := Option.some.inj hm
      decide
    · exact absurd hnone (by decide)

/-- The primary fails before it has sent the first request of client 7 to the backup, which then
looks for a response that does not exist. -/
theorem not_settles : joined.Joined ∧
    ∃ s, [datagram 7 100].foldlM backupStep joined = some s ∧ ¬ s.Settles := by
  refine ⟨joined_joined, _, rfl, fun h => ?_⟩
  obtain ⟨r, hr, -⟩ := h.clears
  have hresponse := Replica.exists_clearRequestCache_iff.mp ⟨r, hr⟩ 7 (by decide)
  exact absurd hresponse (by decide)

/-- A response of 256 bytes is written past the end of a message, and a request whose record mark
says 1457 bytes is read past the end of one. -/
theorem not_settles_large :
    (∃ s, [datagram 7 100, .run ⟨1, 7, recordOf 100 0 40⟩ (some (recordOf 100 1 0))].foldlM
        backupStep joined = some s ∧ s.requestMap.keys = [7] ∧ 7 ∈ s.responseMap ∧
      s.clearRequestCache.isNone) ∧
    ∃ s, [ranFor 1 7 100, .store ⟨clientRequest, 60, ⟨0, 7, recordOf 101 5 177⟩⟩ ⟨0, 0⟩].foldlM
        backupStep joined = some s ∧
      (s.clearRequestCache.map fun r => ((s.settle r).step (.cached (some ⟨101, []⟩))).isNone) =
        some true :=
  ⟨⟨_, rfl, by decide, by decide, by decide⟩, _, rfl, by decide⟩

end Server

end Falcon.Diomedes
