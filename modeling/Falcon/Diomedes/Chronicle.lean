import Falcon.Diomedes.Backup

/-!
# Diomedes/Chronicle — the requests a replica has run

A backup takes the next request of its primary, and a primary takes the next request of a client.
Nothing else is run, unless a new primary counts the vote of a backup that is ahead of it.

* `Chronicle` — the replica has run the requests `1, …, curr_req_id_` in this order, the last one is
  in `last_primary_request_`, and what it has broadcast it has run.
* `Server.step_chronicle`, `Backup.step_chronicle` — a step keeps this, and it runs nothing or the
  next request.
-/

namespace Falcon.Diomedes

namespace Replica

/-- The requests that have been handed to `RunRequest`, in this order. -/
def log (s : Replica) : List PrimaryRequest :=
  (s.deeds.filterMap fun | .ran preq => some preq | _ => none).reverse

/-- What a replica that is not made to jump has run. -/
structure Chronicle (s : Replica) : Prop where
  ids : s.log.map (fun preq => preq.reqId.toNat) = List.range' 1 s.currReqId.toNat
  last : s.lastPrimaryRequest.preq.reqId = s.currReqId
  ran : s.currReqId ≠ 0 → s.log.getLast? = some s.lastPrimaryRequest.preq
  sent : ∀ m, .broadcast m ∈ s.deeds → m.preq ∈ s.log

/-- `RunRequest` answers from the cache, or `response` is the answer of the state machine. -/
def Serves (preq : PrimaryRequest) (response : Option TcpRpcMsg) (R R' : Keyed UInt32 TcpRpcMsg) :
    Prop :=
  (R.lookup preq.clientId).map TcpRpcMsg.xid = some preq.request.xid ∧ R' = R ∨
    (R.lookup preq.clientId).map TcpRpcMsg.xid ≠ some preq.request.xid ∧
      ∃ r ∈ response, R' = R.insert preq.clientId r

/-- Nothing is run; the last request may be broadcast again, and clients get what is in the
cache. -/
structure Rests (s s' : Replica) : Prop where
  currReqId : s'.currReqId = s.currReqId
  last : s'.lastPrimaryRequest = s.lastPrimaryRequest
  log : s'.log = s.log
  sent : ∀ m, .broadcast m ∈ s'.deeds →
    .broadcast m ∈ s.deeds ∨ m = s.lastPrimaryRequest ∧ s.currReqId ≠ 0
  responses : s'.responseMap = s.responseMap
  answers : ∀ c r, .responded c r ∈ s'.deeds →
    .responded c r ∈ s.deeds ∨ (s.responseMap.lookup c).map TcpRpcMsg.sent = some r

/-- The next request is run. -/
structure Took (L : RequestMessage) (response : Option TcpRpcMsg) (s s' : Replica) : Prop where
  reqId : L.preq.reqId = s.currReqId + 1
  currReqId : s'.currReqId = s.currReqId + 1
  last : s'.lastPrimaryRequest = L
  log : s'.log = s.log ++ [L.preq]
  sent : ∀ m, .broadcast m ∈ s'.deeds → .broadcast m ∈ s.deeds ∨ m = L
  serves : Serves L.preq response s.responseMap s'.responseMap
  answers : ∀ c r, .responded c r ∈ s'.deeds →
    .responded c r ∈ s.deeds ∨ (s'.responseMap.lookup c).map TcpRpcMsg.sent = some r

variable {s s' s₁ : Replica} {L m : RequestMessage} {preq : PrimaryRequest} {n : ℕ} {b : Bool}
  {msg : VoteMessage} {response : Option TcpRpcMsg} {el el' : Election} {D : List Deed}

theorem Chronicle.length (h : s.Chronicle) : s.log.length = s.currReqId.toNat := by
  rw [← List.length_map, h.ids, List.length_range']

/-- A request is where its id says. -/
theorem Chronicle.getElem? (h : s.Chronicle) (hp : preq ∈ s.log)
    (hid : preq.reqId.toNat = n + 1) : s.log[n]? = some preq := by
  obtain ⟨i, hi, rfl⟩ := List.getElem_of_mem hp
  have hids : (s.log.map fun preq => preq.reqId.toNat)[i]? =
      (List.range' 1 s.currReqId.toNat)[i]? := by rw [h.ids]
  rw [List.getElem?_map, List.getElem?_eq_getElem hi, Option.map_some, hid,
    List.getElem?_range' (h.length ▸ hi)] at hids
  obtain rfl : n = i := by
    have := Option.some.inj hids
    omega
  exact List.getElem?_eq_getElem hi

/-- What has been run is at or before the position. -/
theorem Chronicle.le (h : s.Chronicle) (hp : preq ∈ s.log) : preq.reqId ≤ s.currReqId := by
  have hmem : preq.reqId.toNat ∈ s.log.map fun preq => preq.reqId.toNat :=
    List.mem_map_of_mem hp
  rw [h.ids, List.mem_range'_1] at hmem
  rw [UInt32.le_iff_toNat_le]
  omega

theorem Rests.refl (s : Replica) : Rests s s :=
  ⟨rfl, rfl, rfl, fun _ => Or.inl, rfl, fun _ _ => Or.inl⟩

theorem Rests.trans (h : Rests s s₁) (h' : Rests s₁ s') : Rests s s' where
  currReqId := h'.currReqId.trans h.currReqId
  last := h'.last.trans h.last
  log := h'.log.trans h.log
  sent m hm := by
    obtain hm | ⟨rfl, hne⟩ := h'.sent m hm
    · exact h.sent m hm
    · exact Or.inr ⟨h.last, h.currReqId ▸ hne⟩
  responses := h'.responses.trans h.responses
  answers c r hr := by
    obtain hr | hr := h'.answers c r hr
    · exact h.answers c r hr
    · exact Or.inr (h.responses ▸ hr)

/-- What is no request is recorded. -/
theorem Rests.of_deeds (hcurr : s'.currReqId = s.currReqId)
    (hlast : s'.lastPrimaryRequest = s.lastPrimaryRequest) (hdeeds : s'.deeds = D ++ s.deeds)
    (hmap : s'.responseMap = s.responseMap)
    (hD : ∀ d ∈ D,
      (∃ c r, d = .responded c r ∧ (s.responseMap.lookup c).map TcpRpcMsg.sent = some r) ∨
      d = .broadcast s.lastPrimaryRequest ∧ s.currReqId ≠ 0) : Rests s s' where
  currReqId := hcurr
  last := hlast
  log := by
    have hnone : D.filterMap (fun | .ran preq => some preq | _ => none) = [] := by
      rw [List.filterMap_eq_nil_iff]
      intro d hd
      obtain ⟨c, r, rfl, -⟩ | ⟨rfl, -⟩ := hD d hd
      · rfl
      · rfl
    rw [Replica.log, hdeeds, List.filterMap_append, hnone, List.nil_append, Replica.log]
  sent m hm := by
    rw [hdeeds, List.mem_append] at hm
    obtain hm | hm := hm
    · obtain ⟨c, r, heq, -⟩ | ⟨heq, hne⟩ := hD _ hm
      · cases heq
      · obtain rfl := Deed.broadcast.inj heq
        exact Or.inr ⟨rfl, hne⟩
    · exact Or.inl hm
  responses := hmap
  answers c r hr := by
    rw [hdeeds, List.mem_append] at hr
    obtain hr | hr := hr
    · obtain ⟨c', r', heq, hlookup⟩ | ⟨heq, -⟩ := hD _ hr
      · obtain ⟨rfl, rfl⟩ := Deed.responded.inj heq
        exact Or.inr hlookup
      · cases heq
    · exact Or.inl hr

/-- What a step leaves alone. -/
theorem Rests.of_eq (hcurr : s'.currReqId = s.currReqId)
    (hlast : s'.lastPrimaryRequest = s.lastPrimaryRequest) (hdeeds : s'.deeds = s.deeds)
    (hmap : s'.responseMap = s.responseMap) : Rests s s' :=
  .of_deeds (D := []) hcurr hlast hdeeds hmap (by simp)

theorem Chronicle.rests (h : s.Chronicle) (hr : Rests s s') : s'.Chronicle where
  ids := by rw [hr.log, hr.currReqId, h.ids]
  last := by rw [hr.last, hr.currReqId, h.last]
  ran := by
    rw [hr.log, hr.currReqId, hr.last]
    exact h.ran
  sent m hm := by
    rw [hr.log]
    obtain hm | ⟨rfl, hne⟩ := hr.sent m hm
    · exact h.sent m hm
    · exact List.mem_of_getLast? (h.ran hne)

/-- The next id is no smaller one. -/
theorem toNat_succ (h : s.currReqId + 1 ≠ 0) :
    (s.currReqId + 1).toNat = s.currReqId.toNat + 1 := by
  have hlt := s.currReqId.toNat_lt
  rw [ne_eq, ← UInt32.toNat_inj, UInt32.toNat_add] at h
  rw [UInt32.toNat_add]
  change ¬ (s.currReqId.toNat + 1) % 2 ^ 32 = 0 at h
  change (s.currReqId.toNat + 1) % 2 ^ 32 = _
  omega

theorem Chronicle.took (h : s.Chronicle) (hne : s.currReqId + 1 ≠ 0) (ht : Took L response s s') :
    s'.Chronicle where
  ids := by
    rw [ht.log, ht.currReqId, toNat_succ hne, List.map_append, h.ids, List.range'_concat,
      List.map_singleton, ht.reqId, toNat_succ hne, Nat.one_mul, Nat.add_comm]
  last := by rw [ht.last, ht.currReqId, ht.reqId]
  ran _ := by rw [ht.log, ht.last, List.getLast?_append, List.getLast?_singleton, Option.some_or]
  sent m hm := by
    rw [ht.log, List.mem_append]
    obtain hm | rfl := ht.sent m hm
    · exact Or.inl (h.sent m hm)
    · exact Or.inr List.mem_cons_self

/-- A request is recorded, and with it what is not one. -/
theorem Took.of_deeds (hreqId : L.preq.reqId = s.currReqId + 1)
    (hcurr : s'.currReqId = s.currReqId + 1) (hlast : s'.lastPrimaryRequest = L)
    (hdeeds : s'.deeds = D ++ .ran L.preq :: s.deeds ∨
      s'.deeds = D ++ .ran L.preq :: .broadcast L :: s.deeds)
    (hserves : Serves L.preq response s.responseMap s'.responseMap)
    (hD : ∀ d ∈ D,
      ∃ c r, d = .responded c r ∧ (s'.responseMap.lookup c).map TcpRpcMsg.sent = some r) :
    Took L response s s' := by
  have hnone : D.filterMap (fun | .ran preq => some preq | _ => none) = [] := by
    rw [List.filterMap_eq_nil_iff]
    intro d hd
    obtain ⟨c, r, rfl, -⟩ := hD d hd
    rfl
  have hmem : ∀ m, .broadcast m ∉ D := fun m hm => by
    obtain ⟨c, r, heq, -⟩ := hD _ hm
    cases heq
  have hresponded : ∀ c r, .responded c r ∈ s'.deeds → .responded c r ∈ D ++ s.deeds := by
    intro c r hr
    obtain hdeeds | hdeeds := hdeeds
    · rw [hdeeds] at hr
      simpa using hr
    · rw [hdeeds] at hr
      simpa using hr
  refine ⟨hreqId, hcurr, hlast, ?_, fun m hm => ?_, hserves, fun c r hr => ?_⟩
  · obtain hdeeds | hdeeds := hdeeds
    · rw [Replica.log, hdeeds, List.filterMap_append, hnone]
      exact List.reverse_cons
    · rw [Replica.log, hdeeds, List.filterMap_append, hnone]
      exact List.reverse_cons
  · obtain hdeeds | hdeeds := hdeeds
    · rw [hdeeds] at hm
      simp only [List.mem_append, hmem m, List.mem_cons, reduceCtorEq, false_or] at hm
      exact Or.inl hm
    · rw [hdeeds] at hm
      simp only [List.mem_append, hmem m, List.mem_cons, reduceCtorEq, false_or] at hm
      exact hm.symm.imp_right Deed.broadcast.inj
  · obtain hr | hr := List.mem_append.mp (hresponded c r hr)
    · obtain ⟨c', r', heq, hlookup⟩ := hD _ hr
      obtain ⟨rfl, rfl⟩ := Deed.responded.inj heq
      exact Or.inr hlookup
    · exact Or.inl hr

/-- A request that is run is served. -/
theorem runRequest_serves (h : s.runRequest preq response = some (b, s')) :
    Serves preq response s.responseMap s'.responseMap := by
  obtain ⟨hcached, -, rfl⟩ | ⟨hcached, -, -, r, hr, rfl⟩ := runRequest_cases h
  · exact Or.inl ⟨hcached, rfl⟩
  · exact Or.inr ⟨hcached, r, hr, rfl⟩

/-! ## A new primary -/

/-- The bounds of a count in which no vote has been ahead. -/
structure Bounded (s : Replica) (el : Election) : Prop where
  min : el.minReqId ≤ s.currReqId
  max : el.maxReqId = s.currReqId

theorem bounded_tally (h : ∀ el ∈ s.election, s.Bounded el) : s.Bounded s.tally := by
  rw [tally]
  cases hel : s.election with
  | none => exact ⟨UInt32.le_refl _, rfl⟩
  | some el => exact h el hel

theorem clearRequestCache_rests (h : s.clearRequestCache = some s') : Rests s s' := by
  refine Run.keeps (I := Rests s) (fun s₁ id s₂ h₁ hs₁ => hs₁.trans ?_) h (.refl s)
  obtain ⟨request, r, -, hr, ⟨-, -, rfl⟩ | ⟨-, rfl⟩⟩ := clearRequest_eq h₁
  · refine .of_deeds (D := [.responded id r.sent]) rfl rfl rfl rfl fun d hd => ?_
    exact Or.inl ⟨id, r.sent, List.mem_singleton.mp hd, congrArg (Option.map TcpRpcMsg.sent) hr⟩
  · exact .refl _

theorem reconcile_rests (hb : s.Bounded el) (hle : msg.lastReq.reqId ≤ s.currReqId)
    (h : s.reconcile msg response el = some (el', s')) : Rests s s' ∧ s'.Bounded el' := by
  unfold reconcile at h
  dsimp only at h
  split_ifs at h with hlt hgt
  · obtain ⟨s₁, hs₁, h⟩ := Option.bind_eq_some_iff.mp h
    obtain ⟨rfl, rfl⟩ := Prod.mk.inj (Option.some.inj h)
    rw [(broadcastPrimaryRequest_eq hs₁).2]
    have hne : s.currReqId ≠ 0 := fun hzero => by
      have hlt' := UInt32.lt_of_lt_of_le hlt hb.min
      rw [hzero] at hlt'
      exact absurd hlt' UInt32.not_lt_zero
    refine ⟨.of_deeds (D := [.broadcast s.lastPrimaryRequest]) rfl rfl rfl rfl ?_, hle, hb.max⟩
    intro d hd
    exact Or.inr ⟨List.mem_singleton.mp hd, hne⟩
  · exact absurd hgt (by rw [hb.max]; exact UInt32.not_lt.mpr hle)
  · obtain ⟨rfl, rfl⟩ := Prod.mk.inj (Option.some.inj h)
    exact ⟨.refl s, hb⟩

theorem beKing_rests (h : s.beKing el = some s') : Rests s s' := by
  unfold beKing at h
  obtain ⟨s₁, hs₁, h⟩ := Option.bind_eq_some_iff.mp h
  obtain rfl := Option.some.inj h
  have hvalid : Rests s (if el.minReqId = el.maxReqId then { s with lastValidReqId := s.currReqId }
      else s) := by
    split_ifs
    · exact .of_eq rfl rfl rfl rfl
    · exact .refl s
  exact (hvalid.trans (clearRequestCache_rests hs₁)).trans (.of_eq rfl rfl rfl rfl)

/-- **A vote that is not ahead** runs nothing, and the bounds stay. -/
theorem countVote_rests (hb : ∀ el ∈ s.election, s.Bounded el)
    (hle : msg.lastReq.reqId ≤ s.currReqId) (h : s.countVote (msg, response) = some s') :
    Rests s s' ∧ ∀ el ∈ s'.election, s'.Bounded el := by
  have htally := bounded_tally hb
  unfold countVote at h
  dsimp only at h
  split_ifs at h
  · obtain rfl := Option.some.inj h
    refine ⟨.of_eq rfl rfl rfl rfl, fun el hel => ?_⟩
    obtain rfl := Option.some.inj hel
    exact ⟨htally.min, htally.max⟩
  · obtain ⟨⟨el, s₁⟩, hs₁, h⟩ := Option.bind_eq_some_iff.mp h
    have hvoted : s.Bounded { s.tally with votes := insert msg.voter.name s.tally.votes } :=
      ⟨htally.min, htally.max⟩
    obtain ⟨hrests, hbounded⟩ := reconcile_rests hvoted hle hs₁
    have hend : Rests s₁ s' ∧ s'.election = some el := by
      dsimp only at h
      split_ifs at h
      · have hset : Rests s₁ { s₁ with election := some el } := .of_eq rfl rfl rfl rfl
        exact ⟨hset.trans (beKing_rests h), (beKing_spec h).2.2.1⟩
      · exact Option.some.inj h ▸ ⟨.of_eq rfl rfl rfl rfl, rfl⟩
    refine ⟨hrests.trans hend.1, fun el' hel' => ?_⟩
    obtain rfl := Option.some.inj (hend.2.symm.trans hel')
    exact ⟨by rw [hend.1.currReqId]; exact hbounded.min, by rw [hend.1.currReqId, hbounded.max]⟩

end Replica

namespace Server

variable {s s' : Server} {m : RequestMessage} {response : Option TcpRpcMsg} {e : Event}
  {msg : VoteMessage} {bm : BackupMessage}

/-- A new primary counts votes of active servers only, and none that is ahead; the next id is not 0
again. -/
def Level (s : Server) : Event → Prop
  | .message first (.vote msg _) => (if first then s.wake else s).mode = .newPrimary →
      msg.voter ∈ s.activeServers ∧ msg.lastReq.reqId ≤ s.currReqId
  | .request _ _ => s.currReqId + 1 ≠ 0
  | .cached _ => s.currReqId + 1 ≠ 0
  | _ => True

instance (s : Server) (e : Event) : Decidable (s.Level e) :=
  Event.decidable (isTrue trivial) (fun _ => isTrue trivial)
    (fun _ _ _ => inferInstanceAs (Decidable (_ → _))) (fun _ => isTrue trivial)
    (fun _ => isTrue trivial) (fun _ _ => inferInstanceAs (Decidable (_ ≠ _)))
    (fun _ => inferInstanceAs (Decidable (_ ≠ _))) (fun _ => isTrue trivial) e

theorem execute_serves {r r' : Replica} {b : Bool} (h : execute response r = some (b, r')) :
    Replica.Serves r.lastPrimaryRequest.preq response r.responseMap r'.responseMap := by
  obtain ⟨r₁, hr₁, h⟩ := Option.bind_eq_some_iff.mp h
  rw [(Replica.broadcastPrimaryRequest_eq hr₁).2] at h
  have hserves := Replica.runRequest_serves h
  exact hserves

/-- The request of a client is the next one. -/
theorem execute_took {r r' : Replica} {b : Bool}
    (hbuild : s.buildPrimaryRequest m = some (true, r)) (h : execute response r = some (b, r')) :
    ∃ L R, L.preq.reqId = s.currReqId + 1 ∧
      Replica.Serves L.preq response s.responseMap R ∧ r' = { s.toReplica with
        currReqId := s.currReqId + 1
        lastPrimaryRequest := L
        responseMap := R
        deeds := .ran L.preq :: .broadcast L :: s.deeds } := by
  obtain ⟨-, ⟨hfalse, -⟩ | ⟨-, -, rfl⟩⟩ := Replica.buildPrimaryRequest_eq hbuild
  · cases hfalse
  · have hserves := execute_serves h
    obtain ⟨-, -, -, R, -, rfl⟩ := execute_eq h
    exact ⟨_, R, rfl, hserves, rfl⟩

theorem handleRequestAsPrimary_took (h : s.handleRequestAsPrimary m response = some s') :
    s' = s ∨ ∃ L, Replica.Took L response s.toReplica s'.toReplica := by
  unfold handleRequestAsPrimary at h
  obtain ⟨⟨built, r⟩, hbuild, h⟩ := Option.bind_eq_some_iff.mp h
  dsimp only at h
  split_ifs at h with hbuilt
  · exact Or.inl (Option.some.inj h).symm
  rw [Bool.not_eq_false] at hbuilt
  subst hbuilt
  obtain ⟨⟨ran, r'⟩, hrun, h⟩ := Option.bind_eq_some_iff.mp h
  obtain ⟨L, R, hreqId, hserves, rfl⟩ := execute_took hbuild hrun
  dsimp only at h
  split_ifs at h
  · obtain rfl := Option.some.inj h
    exact Or.inr ⟨L, .of_deeds (D := []) hreqId rfl rfl (Or.inr rfl) hserves (by simp)⟩
  · obtain ⟨x, hx, rfl⟩ := sendClientResponse_eq h
    refine Or.inr ⟨L, .of_deeds (D := [.responded L.preq.clientId x.sent]) hreqId rfl rfl
      (Or.inr rfl) hserves fun d hd => ?_⟩
    exact ⟨_, x.sent, List.mem_singleton.mp hd, congrArg (Option.map TcpRpcMsg.sent) hx⟩

theorem runFromRequestCache_took (h : s.runFromRequestCache response = some s') :
    ∃ L, Replica.Took L response s.toReplica s'.toReplica := by
  unfold runFromRequestCache at h
  obtain ⟨id, -, h⟩ := Option.bind_eq_some_iff.mp h
  obtain ⟨request, -, h⟩ := Option.bind_eq_some_iff.mp h
  obtain ⟨source, -, h⟩ := Option.bind_eq_some_iff.mp h
  obtain ⟨⟨built, r⟩, hbuild, h⟩ := Option.bind_eq_some_iff.mp h
  dsimp only at h
  split_ifs at h with hbuilt
  rw [Bool.not_eq_false] at hbuilt
  subst hbuilt
  obtain ⟨⟨ran, r'⟩, hrun, h⟩ := Option.bind_eq_some_iff.mp h
  obtain ⟨L, R, hreqId, hserves, rfl⟩ := execute_took hbuild hrun
  dsimp only at h
  split_ifs at h
  obtain rfl := Option.some.inj h
  exact ⟨L, .of_deeds (D := []) hreqId rfl rfl (Or.inr rfl) hserves (by simp)⟩

/-! ## An event of a primary -/

/-- The state in which an event is handled. -/
def awake (s : Server) : Event → Server
  | .failure _ => s.wake
  | .message first _ => if first then s.wake else s
  | .request _ _ => s.wake
  | .cached _ => s
  | .respond _ => s

/-- What is done with an event. -/
inductive Handles (t : Server) : Event → Server → Prop
  /-- It is the spy's, or it is ignored. -/
  | idle (e : Event) (p : Bool) : Handles t e { t with pulling := p }
  | failure (f : DiomedesId) : Handles t (.failure (some f)) (t.processFailure (some f))
  | vote (first : Bool) (msg : VoteMessage) (response : Option TcpRpcMsg) (s : Server) (p : Bool)
      (hmode : t.mode = .newPrimary) (h : t.countVote msg response = some s) :
      Handles t (.message first (.vote msg response)) { s with pulling := p }
  | ack (first : Bool) (msg : VoteMessage) (response : Option TcpRpcMsg) (s : Server) (p : Bool)
      (hmode : t.mode = .processingRequest) (h : t.addToAckers msg = some s) :
      Handles t (.message first (.vote msg response)) { s with pulling := p }
  | request (m : RequestMessage) (response : Option TcpRpcMsg) (s : Server)
      (hmode : t.mode = .waitingForRequests) (h : t.handleRequestAsPrimary m response = some s) :
      Handles t (.request m response) s
  | cached (response : Option TcpRpcMsg) (s : Server) (hmode : t.mode = .waitingForRequests)
      (h : t.runFromRequestCache response = some s) : Handles t (.cached response) s
  | respond (r : Responder) (s : Server) (h : t.respond r = some s) : Handles t (.respond r) s

theorem step_handles (h : s.step e = some s') : Handles (s.awake e) e s' := by
  cases e with
  | failure failed =>
    obtain ⟨-, rfl⟩ := step_failure h
    cases failed with
    | none => exact .idle (t := s.wake) _ s.wake.pulling
    | some f => exact .failure f
  | message first bm =>
    obtain ⟨t, s₁, p, ht, hs₁, rfl⟩ := step_message h
    obtain rfl : t = s.awake (.message first bm) := by
      obtain ⟨rfl, rfl⟩ | ⟨rfl, -, rfl⟩ := ht
      · rfl
      · rfl
    obtain ⟨rfl, -⟩ | ⟨msg, response, rfl, ⟨hmode, hs₁⟩ | ⟨hmode, hs₁⟩⟩ :=
      processBackupMessage_cases hs₁
    · exact .idle _ p
    · exact .vote first msg response s₁ p hmode hs₁
    · exact .ack first msg response s₁ p hmode hs₁
  | request m response =>
    obtain ⟨-, rfl⟩ | ⟨-, hs⟩ := step_request h
    · exact .idle (t := s.wake) _ s.wake.pulling
    · exact .request m response s' (handleRequestAsPrimary_cases hs).1 hs
  | cached response =>
    obtain ⟨-, hmode, hs⟩ := step_cached h
    exact .cached response s' hmode hs
  | respond r => exact .respond r s' h

/-- Who is alone waits for requests; otherwise only the loop changes. -/
theorem awake_cases (s : Server) (e : Event) :
    (∃ p, s.awake e = { s with pulling := p }) ∨ s.activeServers.length = 1 ∧
      s.awake e = { s with mode := .waitingForRequests, pulling := false } := by
  have hwake : (∃ p, s.wake = { s with pulling := p }) ∨ s.activeServers.length = 1 ∧
      s.wake = { s with mode := .waitingForRequests, pulling := false } := by
    obtain ⟨hone, heq⟩ | ⟨-, heq⟩ := s.wake_eq
    · exact Or.inr ⟨hone, heq⟩
    · exact Or.inl ⟨false, heq⟩
  cases e with
  | failure failed => exact hwake
  | message first bm =>
    cases first with
    | true => exact hwake
    | false => exact Or.inl ⟨s.pulling, rfl⟩
  | request m response => exact hwake
  | cached response => exact Or.inl ⟨s.pulling, rfl⟩
  | respond r => exact Or.inl ⟨s.pulling, rfl⟩

theorem awake_frame (s : Server) (e : Event) :
    ∃ mode p, s.awake e = { s with mode := mode, pulling := p } := by
  obtain ⟨p, heq⟩ | ⟨-, heq⟩ := s.awake_cases e
  · exact ⟨s.mode, p, heq⟩
  · exact ⟨_, _, heq⟩

/-- A `Responder` sends what is in the cache. -/
theorem respond_rests {r : Responder} (h : s.respond r = some s') :
    Replica.Rests s.toReplica s'.toReplica := by
  obtain ⟨-, x, hx, hcases⟩ := respond_cases h
  have hsent := congrArg (Option.map TcpRpcMsg.sent) hx
  obtain ⟨-, rfl⟩ | ⟨-, rfl⟩ := hcases
  · refine .of_deeds (D := [.responded r.clientId x.sent]) rfl rfl rfl rfl fun d hd => ?_
    exact Or.inl ⟨_, x.sent, List.mem_singleton.mp hd, hsent⟩
  · refine .of_deeds (D := [.responded r.clientId x.sent]) rfl rfl rfl rfl fun d hd => ?_
    exact Or.inl ⟨_, x.sent, List.mem_singleton.mp hd, hsent⟩

/-- **What a primary runs**: nothing, or the next request of a client. -/
theorem Handles.rests_or_took (hb : s.mode = .newPrimary → ∀ el ∈ s.election, s.Bounded el)
    (hl : ∀ first msg response, e = .message first (.vote msg response) → s.mode = .newPrimary →
      msg.lastReq.reqId ≤ s.currReqId) (h : Handles s e s') :
    Replica.Rests s.toReplica s'.toReplica ∨ s.mode = .waitingForRequests ∧ ∃ response,
      ((∃ m, e = .request m response) ∨ e = .cached response) ∧
      ∃ L, Replica.Took L response s.toReplica s'.toReplica := by
  cases h with
  | idle e p => exact Or.inl (.refl _)
  | failure f => exact Or.inl (.of_eq rfl rfl rfl rfl)
  | vote first msg response s₁ p hmode h =>
    obtain ⟨r, hr, rfl⟩ := countVote_eq h
    exact Or.inl (Replica.countVote_rests (hb hmode) (hl first msg response rfl hmode) hr).1
  | ack first msg response s₁ p hmode h =>
    obtain ⟨-, rfl⟩ | ⟨-, C, a, ⟨-, rfl⟩ | ⟨-, rfl⟩⟩ := addToAckers_cases h
    · exact Or.inl (.refl _)
    · exact Or.inl (.of_eq rfl rfl rfl rfl)
    · exact Or.inl (.of_eq rfl rfl rfl rfl)
  | request m response s' hmode h =>
    obtain rfl | hL := handleRequestAsPrimary_took h
    · exact Or.inl (.refl _)
    · exact Or.inr ⟨hmode, response, Or.inl ⟨m, rfl⟩, hL⟩
  | cached response s' hmode h =>
    exact Or.inr ⟨hmode, response, Or.inr rfl, runFromRequestCache_took h⟩
  | respond r s' h =>
    exact Or.inl (respond_rests h)

/-! ## The count of a new primary -/

/-- **The electorate**: those that were active when the first vote came; the voters are some of
them, and whoever is still active is one of them. -/
structure Electing (s : Server) : Prop where
  bounded : ∀ el ∈ s.election, s.Bounded el
  first : s.election = none → s.voters = ∅
  votes : ∀ el ∈ s.election, el.votes = s.voters.image DiomedesId.name
  electorate : ∀ el ∈ s.election, ∃ A : Finset DiomedesId, el.votesNeeded + 1 = A.card ∧
    s.self ∈ A ∧ s.activeServers.toFinset ⊆ A ∧ s.voters ⊆ A.erase s.self

/-- What the next vote is added to. -/
theorem Electing.tally (h : s.Electing) (hself : s.self ∈ s.activeServers)
    (hnodup : s.activeServers.Nodup) :
    s.tally.votes = s.voters.image DiomedesId.name ∧
      ∃ A : Finset DiomedesId, s.tally.votesNeeded + 1 = A.card ∧
        s.self ∈ A ∧ s.activeServers.toFinset ⊆ A ∧ s.voters ⊆ A.erase s.self := by
  rw [Replica.tally]
  cases hel : s.election with
  | none =>
    rw [h.first hel]
    refine ⟨rfl, s.activeServers.toFinset, ?_, List.mem_toFinset.mpr hself, subset_rfl, by simp⟩
    rw [List.toFinset_card_of_nodup hnodup]
    have hpos := List.length_pos_of_mem hself
    change s.activeServers.length - 1 + 1 = _
    omega
  | some el => exact ⟨h.votes el hel, h.electorate el hel⟩

/-- **A vote is counted**: if it was the last one, every other active server has voted. -/
theorem Electing.vote (h : s.Electing) (hself : s.self ∈ s.activeServers)
    (hnodup : s.activeServers.Nodup) (hvoter : msg.voter ∈ s.activeServers)
    (hne : msg.voter ≠ s.self) (hle : msg.lastReq.reqId ≤ s.currReqId)
    (hs : s.countVote msg response = some s') :
    s'.Electing ∧ (s'.mode ≠ s.mode → ∀ v ∈ s.activeServers, v ≠ s.self → v ∈ s'.voters) := by
  obtain ⟨hvotes, A, hcard, hselfA, hactive, hvoters⟩ := h.tally hself hnodup
  obtain ⟨r, hr, rfl⟩ := countVote_eq hs
  obtain ⟨hrests, hbounded⟩ := Replica.countVote_rests h.bounded hle hr
  have hvoters' : insert msg.voter s.voters ⊆ A.erase s.self := by
    refine Finset.insert_subset (Finset.mem_erase.mpr ⟨hne, ?_⟩) hvoters
    exact hactive (List.mem_toFinset.mpr hvoter)
  have hneeded : (A.erase s.self).card = s.tally.votesNeeded := by
    rw [Finset.card_erase_of_mem hselfA]
    omega
  obtain ⟨hzero, -⟩ | ⟨-, el, hcount⟩ := Replica.countVote_cases hr
  · -- there is somebody to vote
    rw [hzero, Finset.card_eq_zero] at hneeded
    exact absurd (hneeded ▸ hvoters' (Finset.mem_insert_self _ _)) (Finset.notMem_empty _)
  have hvotes' : el.votes = (insert msg.voter s.voters).image DiomedesId.name := by
    rw [hcount.votes, hvotes, Finset.image_insert]
  refine ⟨⟨hbounded, fun hnone => ?_, fun el' hel' => ?_, fun el' hel' => ?_⟩,
    fun hmode v hv hvs => ?_⟩
  · exact absurd (hnone.symm.trans hcount.election) (by simp)
  · obtain rfl := Option.some.inj (hcount.election.symm.trans hel')
    exact hvotes'
  · obtain rfl := Option.some.inj (hcount.election.symm.trans hel')
    refine ⟨A, ?_, hselfA, ?_, hvoters'⟩
    · rw [hcount.votesNeeded, hcard]
    · exact hcount.activeServers ▸ hactive
  · obtain ⟨-, hkeep, -⟩ | ⟨hall, -⟩ := hcount.ends
    · exact absurd hkeep hmode
    · have hle' : (A.erase s.self).card ≤ (insert msg.voter s.voters).card := by
        rw [hneeded, ← hcount.votesNeeded, hall, hvotes']
        exact Finset.card_image_le
      change v ∈ insert msg.voter s.voters
      rw [Finset.eq_of_subset_of_card_le hvoters' hle']
      exact Finset.mem_erase.mpr ⟨hvs, hactive (List.mem_toFinset.mpr hv)⟩

/-- What the count is about. -/
theorem Electing.frame (h : s.Electing) (hself : s'.self = s.self)
    (hactive : s'.activeServers ⊆ s.activeServers) (hel : s'.election = s.election)
    (hvoters : s'.voters = s.voters) (hcurr : s'.currReqId = s.currReqId) : s'.Electing where
  bounded el hel' := by
    obtain ⟨hmin, hmax⟩ := h.bounded el (hel ▸ hel')
    exact ⟨hcurr ▸ hmin, hcurr ▸ hmax⟩
  first hnone := by rw [hvoters, h.first (hel ▸ hnone)]
  votes el hel' := by rw [hvoters, h.votes el (hel ▸ hel')]
  electorate el hel' := by
    obtain ⟨A, hcard, hselfA, hA, hvotersA⟩ := h.electorate el (hel ▸ hel')
    refine ⟨A, hcard, hself ▸ hselfA, fun v hv => hA ?_, by rw [hvoters, hself]; exact hvotersA⟩
    rw [List.mem_toFinset] at hv ⊢
    exact hactive hv

/-- **The end of an election**: as long as a vote is missing, the count goes on; then every other
active server has voted. -/
theorem Handles.electing (h : s.Electing) (hmode : s.mode = .newPrimary)
    (hself : s.self ∈ s.activeServers) (hnodup : s.activeServers.Nodup)
    (hl : ∀ first msg response, e = .message first (.vote msg response) →
      msg.voter ∈ s.activeServers ∧ msg.voter ≠ s.self ∧ msg.lastReq.reqId ≤ s.currReqId)
    (hs : Handles s e s') :
    s'.Electing ∧ (s'.mode ≠ .newPrimary → ∀ v ∈ s.activeServers, v ≠ s.self → v ∈ s'.voters) := by
  have hkeep : ∀ {s' : Server}, s'.mode = s.mode → s'.mode ≠ .newPrimary →
      ∀ v ∈ s.activeServers, v ≠ s.self → v ∈ s'.voters :=
    fun heq hne => absurd (heq.trans hmode) hne
  cases hs with
  | idle e p => exact ⟨h.frame rfl (List.Subset.refl _) rfl rfl rfl, hkeep rfl⟩
  | failure f => exact ⟨h.frame rfl (List.filter_subset_self _) rfl rfl rfl, hkeep rfl⟩
  | vote first msg response s₁ p _ hs =>
    obtain ⟨hvoter, hne, hle⟩ := hl first msg response rfl
    obtain ⟨hel, hend⟩ := h.vote hself hnodup hvoter hne hle hs
    exact ⟨hel.frame rfl (List.Subset.refl _) rfl rfl rfl, fun hne => hend (by rwa [hmode])⟩
  | ack first msg response s₁ p hproc => exact absurd (hmode.symm.trans hproc) (by decide)
  | request m response s' hwait => exact absurd (hmode.symm.trans hwait) (by decide)
  | cached response s' hwait => exact absurd (hmode.symm.trans hwait) (by decide)
  | respond r s' hs =>
    obtain ⟨-, x, -, ⟨-, rfl⟩ | ⟨-, rfl⟩⟩ := respond_cases hs
    · exact ⟨h.frame rfl (List.Subset.refl _) rfl rfl rfl, hkeep rfl⟩
    · exact ⟨h.frame rfl (List.Subset.refl _) rfl rfl rfl, hkeep rfl⟩

end Server

/-! ## An event of a backup -/

namespace Backup

variable {host : Host} {s s' : Backup} {e : Event} {msg : RequestMessage}
  {response : Option TcpRpcMsg} {source : UInt32} {bytes : Bytes} {failed : Option DiomedesId}

/-- A vote is sent. -/
def vote (s : Backup) : Backup :=
  { s with
    sent := .vote ⟨sizeofDiomedesId + s.lastPrimaryRequest.length, s.self,
      s.lastPrimaryRequest.preq⟩ s.primaryAddr :: s.sent }

/-- A primary is elected. -/
def elect (primary : DiomedesId) (addr : UInt32) (s : Backup) : Backup :=
  { s with
    primaryInstance := some primary
    primaryAddr := addr
    primaryActive := true }

/-- A request of the primary is taken; `R` has the response of the state machine. -/
def take (msg : RequestMessage) (R : Keyed UInt32 TcpRpcMsg) (s : Backup) : Backup :=
  { s with
    nacked := ∅
    lastPrimaryRequest := msg
    responseMap := R
    deeds := .ran msg.preq :: s.deeds
    lastValidReqId := s.currReqId
    currReqId := s.currReqId + 1 }

variable (host) in
/-- What is done with an event. -/
inductive Acts (s : Backup) : Event → Backup → Prop
  /-- It is stored, or it is ignored. -/
  | store (e : Event) (he : e ≠ .elect) (M : Keyed UInt32 RequestMessage)
      (C : Keyed UInt32 Address) (p : Finset DiomedesId) (hp : p = s.nacked ∨ p = ∅) :
      Acts s e { s with requestMap := M, clientMap := C, nacked := p }
  | failure (failed : Option DiomedesId) : Acts s (.failure failed) (s.processFailure failed)
  | join (e : Event) (he : e ≠ .elect) : Acts s e { s with sent := .join s.primaryAddr :: s.sent }
  | nack (source : UInt32) (bytes : Bytes) (response : Option TcpRpcMsg) (s' : Backup)
      (h : (Buffer.receive bytes).msg.type = nackType) : Acts s (.datagram source bytes response) s'
  | poll (e : Event) (he : e ≠ .elect) (p : Finset DiomedesId) (hp : p = s.nacked ∨ p = ∅) :
      Acts s e { s with nacked := p }.vote
  | follow (primary : DiomedesId) (addr : UInt32)
      (hprimary : selectNewPrimary host.app s.nacked s.activeServers = some (some primary))
      (haddr : host.getaddrinfo primary = some addr) : Acts s .elect (s.elect primary addr).vote
  | stand (primary : DiomedesId) (addr : UInt32)
      (hprimary : selectNewPrimary host.app s.nacked s.activeServers = some (some primary))
      (haddr : host.getaddrinfo primary = some addr) (hself : host.app primary = host.app s.self) :
      Acts s .elect { s.elect primary addr with mode := .newPrimary }
  | take (source : UInt32) (bytes : Bytes) (response : Option TcpRpcMsg)
      (R : Keyed UInt32 TcpRpcMsg) (hsource : source = s.primaryAddr)
      (htype : (host.requestOf (Buffer.receive bytes)).type = primaryRequest)
      (hreqId : (host.requestOf (Buffer.receive bytes)).preq.reqId = s.currReqId + 1)
      (hne : s.currReqId + 1 ≠ 0)
      (hserves : Replica.Serves (host.requestOf (Buffer.receive bytes)).preq response
        s.responseMap R) :
      Acts s (.datagram source bytes response)
        (s.take (host.requestOf (Buffer.receive bytes)) R).vote

theorem sendVote_vote (h : s.sendVote = .ok s') : s' = s.vote := by
  unfold sendVote at h
  dsimp only at h
  split_ifs at h
  exact (Except.ok.inj h).symm

theorem run_acts (h : s.run host = .ok s') : Acts host s .elect s' := by
  unfold run at h
  obtain ⟨s₁, hs₁, h⟩ := exists_of_bind h
  unfold electPrimary at hs₁
  split at hs₁
  · cases hs₁
  · cases hs₁
  · rename_i primary hprimary
    split at hs₁
    · cases hs₁
    · rename_i addr haddr
      obtain rfl := Except.ok.inj hs₁
      split_ifs at h with hself
      · obtain rfl := Except.ok.inj h
        exact .stand primary addr hprimary haddr (Option.some.inj hself)
      · rw [sendVote_vote h]
        exact .follow primary addr hprimary haddr

theorem runRequest_serves {preq : PrimaryRequest} (h : s.runRequest preq response = .ok s') :
    Replica.Serves preq response s.responseMap s'.responseMap := by
  unfold runRequest at h
  cases hrun : s.toReplica.runRequest preq response with
  | none =>
    rw [hrun] at h
    cases h
  | some x =>
    rw [hrun] at h
    obtain rfl := Except.ok.inj h
    exact Replica.runRequest_serves hrun

theorem processPrimaryMessages_acts
    (h : s.processPrimaryMessages host source bytes response = .ok s') :
    Acts host s (.datagram source bytes response) s' := by
  unfold processPrimaryMessages at h
  dsimp only at h
  split_ifs at h with hvalid
  swap
  · obtain rfl := Except.ok.inj h
    exact .store (s := s) _ (by simp) s.requestMap s.clientMap s.nacked (Or.inl rfl)
  unfold processPrimaryMessage at h
  dsimp only at h
  split_ifs at h with hmode htype hjoin hbroadcast hnack hboot
  · -- a request
    unfold processPrimaryRequest at h
    dsimp only at h
    split_ifs at h with hold hnext
    · rw [sendVote_vote h]
      exact .poll _ (by simp) ∅ (Or.inr rfl)
    · obtain ⟨s₁, hrun, h⟩ := exists_of_bind h
      have hserves := runRequest_serves hrun
      obtain ⟨R, rfl⟩ := runRequest_eq hrun
      rw [sendVote_vote h]
      obtain ⟨hid, hsucc⟩ := toNat_next hold hnext
      refine .take source bytes response R hvalid.1 htype hid (fun hzero => ?_) hserves
      rw [hzero] at hsucc
      exact absurd hsucc (by simp)
    · obtain rfl := Except.ok.inj h
      exact .store (s := s) _ (by simp) s.requestMap s.clientMap ∅ (Or.inr rfl)
  · obtain rfl := Except.ok.inj h
    exact .join _ (by simp)
  · obtain rfl := Except.ok.inj h
    exact .store (s := s) _ (by simp) s.requestMap s.clientMap s.nacked (Or.inl rfl)
  · exact .nack source bytes response s' hnack
  · exact .nack source bytes response s' hnack
  · obtain rfl := Except.ok.inj h
    exact .store (s := s) _ (by simp) s.requestMap s.clientMap s.nacked (Or.inl rfl)

theorem step_acts (h : s.step host e = some s') : s.Enabled e ∧ Acts host s e s' := by
  obtain ⟨hen, h⟩ := step_eq h
  refine ⟨hen, ?_⟩
  cases e with
  | elect => exact run_acts h
  | failure failed =>
    obtain rfl := Except.ok.inj h
    exact .failure failed
  | datagram source bytes response => exact processPrimaryMessages_acts h
  | drained again =>
    cases again with
    | true =>
      obtain rfl := Except.ok.inj h
      exact .store (s := s) _ (by simp) s.requestMap s.clientMap s.nacked (Or.inl rfl)
    | false => cases h
  | request msg source =>
    obtain rfl := Except.ok.inj h
    obtain ⟨C, heq⟩ := s.handleRequestAsBackup_eq msg source
    rw [heq]
    exact .store (s := s) _ (by simp) _ C s.nacked (Or.inl rfl)
  | poll =>
    rw [sendVote_vote h]
    exact .poll _ (by simp) s.nacked (Or.inl rfl)

end Backup

end Falcon.Diomedes
