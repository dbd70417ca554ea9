import Falcon.Diomedes.Ackers
import Falcon.Diomedes.Group
import Falcon.Machinery.Succession

/-!
# Diomedes/Reigns — one primary after another

A group is a succession: the logs are the requests that the servers have run, a server stands when
it elects itself, and it is crowned when it waits for requests.  The votes make sure of what a
succession asks then: whoever has voted for a server follows it as long as it lives, and is no
further than its vote was, or than the server is.

* `simulates` — the steps of a group are steps of a succession, or none, as long as no new primary
  counts the vote of a server that is ahead of it or that it takes for failed.
* `agreement` — so the servers that have not stopped agree on the requests they have run.
-/

namespace Falcon.Diomedes

/-! ## Parts of a step -/

namespace Server

variable {s s' : Server} {e : Event} {msg : VoteMessage} {response : Option TcpRpcMsg}

/-- A primary does not become a new one again. -/
theorem Handles.mode (h : Handles s e s') :
    s'.mode = s.mode ∨ s'.mode = .waitingForRequests ∨ s'.mode = .processingRequest := by
  cases h with
  | idle e p => exact Or.inl rfl
  | failure f => exact Or.inl rfl
  | vote first msg response s₁ p hmode h =>
    obtain hnew | hwait := countVote_mode hmode h
    · exact Or.inl (hnew.trans hmode.symm)
    · exact Or.inr (Or.inl hwait)
  | ack first msg response s₁ p hmode h =>
    obtain ⟨-, rfl⟩ | ⟨-, C, a, ⟨-, rfl⟩ | ⟨-, rfl⟩⟩ := addToAckers_cases h
    · exact Or.inl rfl
    · exact Or.inl rfl
    · exact Or.inr (Or.inl rfl)
  | request m response s' hmode h =>
    obtain ⟨-, ⟨-, rfl⟩ | ⟨-, L, R, D, ⟨-, rfl⟩ | ⟨-, rfl⟩⟩⟩ := handleRequestAsPrimary_cases h
    · exact Or.inl rfl
    · exact Or.inr (Or.inr rfl)
    · exact Or.inl rfl
  | cached response s' hmode h =>
    obtain ⟨L, R, D, id, rfl⟩ := runFromRequestCache_cases h
    exact Or.inr (Or.inr rfl)
  | respond r s' h =>
    obtain ⟨-, x, -, ⟨-, rfl⟩ | ⟨-, rfl⟩⟩ := respond_cases h
    · exact Or.inl rfl
    · exact Or.inl rfl

theorem Handles.mode_awake (h : Handles (s.awake e) e s') :
    s'.mode = s.mode ∨ s'.mode = .waitingForRequests ∨ s'.mode = .processingRequest := by
  obtain heq | hrest := h.mode
  · rw [heq]
    obtain ⟨p, hawake⟩ | ⟨-, hawake⟩ := s.awake_cases e
    · exact Or.inl (by rw [hawake])
    · exact Or.inr (Or.inl (by rw [hawake]))
  · exact Or.inr hrest

/-- Only a new primary counts a vote. -/
theorem Handles.voters (h : Handles s e s') : s'.voters = s.voters ∨
    s.mode = .newPrimary ∧ ∃ first msg response, e = .message first (.vote msg response) ∧
      s'.voters = insert msg.voter s.voters := by
  cases h with
  | idle e p => exact Or.inl rfl
  | failure f => exact Or.inl rfl
  | vote first msg response s₁ p hmode h =>
    obtain ⟨r, -, rfl⟩ := countVote_eq h
    exact Or.inr ⟨hmode, first, msg, response, rfl, rfl⟩
  | ack first msg response s₁ p hmode h =>
    obtain ⟨-, rfl⟩ | ⟨-, C, a, ⟨-, rfl⟩ | ⟨-, rfl⟩⟩ := addToAckers_cases h
    · exact Or.inl rfl
    · exact Or.inl rfl
    · exact Or.inl rfl
  | request m response s' hmode h =>
    obtain ⟨-, ⟨-, rfl⟩ | ⟨-, L, R, D, ⟨-, rfl⟩ | ⟨-, rfl⟩⟩⟩ := handleRequestAsPrimary_cases h
    · exact Or.inl rfl
    · exact Or.inl rfl
    · exact Or.inl rfl
  | cached response s' hmode h =>
    obtain ⟨L, R, D, id, rfl⟩ := runFromRequestCache_cases h
    exact Or.inl rfl
  | respond r s' h =>
    obtain ⟨-, x, -, ⟨-, rfl⟩ | ⟨-, rfl⟩⟩ := respond_cases h
    · exact Or.inl rfl
    · exact Or.inl rfl

/-- What `Level` says of the state in which a vote is handled. -/
theorem Level.vote (h : s.Level e) {first : Bool}
    (he : e = .message first (.vote msg response)) (hmode : (s.awake e).mode = .newPrimary) :
    msg.voter ∈ (s.awake e).activeServers ∧ msg.lastReq.reqId ≤ (s.awake e).currReqId := by
  subst he
  obtain ⟨mode, p, heq⟩ := s.awake_frame (.message first (.vote msg response))
  have hlevel := h hmode
  rw [heq]
  exact hlevel

/-- **A primary runs nothing, or the next request of a client** while it waits for requests. -/
theorem Handles.serves (hel : s.mode = .newPrimary → s.Electing) (hl : s.Level e)
    (hs : Handles (s.awake e) e s') : Replica.Rests s.toReplica s'.toReplica ∨
      (s.awake e).mode = .waitingForRequests ∧ s.currReqId + 1 ≠ 0 ∧ ∃ response,
        ((∃ m, e = .request m response) ∨ e = .cached response) ∧
        ∃ L, Replica.Took L response s.toReplica s'.toReplica := by
  have hnew : (s.awake e).mode = .newPrimary → s.mode = .newPrimary := by
    obtain ⟨p, heq⟩ | ⟨-, heq⟩ := s.awake_cases e
    · rw [heq]
      exact fun hmode => hmode
    · rw [heq]
      exact fun hmode => by cases hmode
  have hframe : Replica.Rests s.toReplica (s.awake e).toReplica ∧
      (s.awake e).election = s.election := by
    obtain ⟨mode, p, heq⟩ := s.awake_frame e
    rw [heq]
    exact ⟨.of_eq rfl rfl rfl rfl, rfl⟩
  obtain ⟨hawake, helection⟩ := hframe
  have hb : (s.awake e).mode = .newPrimary → ∀ el ∈ (s.awake e).election,
      (s.awake e).Bounded el := by
    intro hmode el hel'
    obtain ⟨hmin, hmax⟩ := (hel (hnew hmode)).bounded el (helection ▸ hel')
    exact ⟨hawake.currReqId ▸ hmin, hawake.currReqId ▸ hmax⟩
  have hvote : ∀ first msg response, e = .message first (.vote msg response) →
      (s.awake e).mode = .newPrimary → msg.lastReq.reqId ≤ (s.awake e).currReqId :=
    fun first msg response heq hmode => (hl.vote heq hmode).2
  obtain hrests | ⟨hmode, response, he, L, htook⟩ := hs.rests_or_took hb hvote
  · exact Or.inl (hawake.trans hrests)
  · refine Or.inr ⟨hmode, ?_, response, he, L, ?_⟩
    · obtain ⟨m, rfl⟩ | rfl := he
      · exact hl
      · exact hl
    · obtain ⟨mode, p, heq⟩ := s.awake_frame e
      rw [heq] at htook
      exact ⟨htook.reqId, htook.currReqId, htook.last, htook.log, htook.sent, htook.serves,
        htook.answers⟩

theorem Handles.log (h : s.Chronicle) (hel : s.mode = .newPrimary → s.Electing) (hl : s.Level e)
    (hs : Handles (s.awake e) e s') : s'.Chronicle ∧ s.currReqId ≤ s'.currReqId ∧
      (s'.log = s.log ∧ s'.currReqId = s.currReqId ∨
        (s.awake e).mode = .waitingForRequests ∧ ∃ preq, s'.log = s.log ++ [preq]) := by
  obtain hrests | ⟨hmode, hne, response, -, L, htook⟩ := hs.serves hel hl
  · exact ⟨h.rests hrests, hrests.currReqId ▸ UInt32.le_refl _,
      Or.inl ⟨hrests.log, hrests.currReqId⟩⟩
  · refine ⟨h.took hne htook, ?_, Or.inr ⟨hmode, L.preq, htook.log⟩⟩
    rw [htook.currReqId, UInt32.le_iff_toNat_le, Replica.toNat_succ hne]
    exact Nat.le_succ _

end Server

namespace Backup

variable {host : Host} {s s' : Backup} {e : Event}

/-- **What a backup runs**: nothing, or the next request of its primary. -/
theorem Acts.rests_or_took (hnack : ∀ source bytes response, e = .datagram source bytes response →
      (Buffer.receive bytes).msg.type ≠ nackType) (h : Acts host s e s') :
    Replica.Rests s.toReplica s'.toReplica ∨ s.currReqId + 1 ≠ 0 ∧ ∃ bytes response,
      e = .datagram s.primaryAddr bytes response ∧
      (host.requestOf (Buffer.receive bytes)).type = primaryRequest ∧
      Replica.Took (host.requestOf (Buffer.receive bytes)) response s.toReplica s'.toReplica := by
  cases h with
  | store e he M C p hp => exact Or.inl (.of_eq rfl rfl rfl rfl)
  | failure failed =>
    cases failed with
    | none => exact Or.inl (.of_eq rfl rfl rfl rfl)
    | some f => exact Or.inl (.of_eq rfl rfl rfl rfl)
  | join e he => exact Or.inl (.of_eq rfl rfl rfl rfl)
  | nack source bytes response s' htype => exact absurd htype (hnack source bytes response rfl)
  | poll e he p hp => exact Or.inl (.of_eq rfl rfl rfl rfl)
  | follow p addr hselect haddr => exact Or.inl (.of_eq rfl rfl rfl rfl)
  | stand p addr hselect haddr hself => exact Or.inl (.of_eq rfl rfl rfl rfl)
  | take source bytes response R hsource htype hreqId hne hserves =>
    subst hsource
    refine Or.inr ⟨hne, bytes, response, rfl, htype, ?_⟩
    exact .of_deeds (D := []) hreqId rfl rfl (Or.inl rfl) hserves (by simp)

/-- What a backup sends: at most a vote for its last request. -/
theorem Acts.sent (hnack : ∀ source bytes response, e = .datagram source bytes response →
      (Buffer.receive bytes).msg.type ≠ nackType) (h : Acts host s e s') :
    (∀ v ∈ s.sent, v ∈ s'.sent) ∧ ∀ msg addr, .vote msg addr ∈ s'.sent → .vote msg addr ∈ s.sent ∨
      msg.voter = s'.self ∧ msg.lastReq = s'.lastPrimaryRequest.preq ∧ addr = s'.primaryAddr ∧
        s'.mode = s.mode := by
  have hvote : ∀ {t : Backup}, t.sent = s.sent → t.mode = s.mode →
      (∀ v ∈ s.sent, v ∈ t.vote.sent) ∧ ∀ msg addr, .vote msg addr ∈ t.vote.sent →
        .vote msg addr ∈ s.sent ∨ msg.voter = t.self ∧ msg.lastReq = t.lastPrimaryRequest.preq ∧
          addr = t.primaryAddr ∧ t.mode = s.mode := by
    intro t hsent hmode
    refine ⟨fun v hv => List.mem_cons_of_mem _ (hsent ▸ hv), fun msg addr hmem => ?_⟩
    obtain heq | hmem := List.mem_cons.mp hmem
    · obtain ⟨rfl, rfl⟩ := Sent.vote.inj heq
      exact Or.inr ⟨rfl, rfl, rfl, hmode⟩
    · exact Or.inl (hsent ▸ hmem)
  cases h with
  | store e he M C p hp => exact ⟨fun _ hv => hv, fun _ _ => Or.inl⟩
  | failure failed => exact ⟨fun _ hv => hv, fun _ _ => Or.inl⟩
  | join e he =>
    refine ⟨fun v hv => List.mem_cons_of_mem _ hv, fun msg addr hmem => Or.inl ?_⟩
    exact (List.mem_cons.mp hmem).resolve_left (by simp)
  | nack source bytes response s' htype => exact absurd htype (hnack source bytes response rfl)
  | poll e he p hp => exact hvote rfl rfl
  | follow p addr hselect haddr => exact hvote rfl rfl
  | stand p addr hselect haddr hself => exact ⟨fun _ hv => hv, fun _ _ => Or.inl⟩
  | take source bytes response R hsource htype hreqId hne hserves => exact hvote rfl rfl

/-- A backup stays one and keeps its primary, or it elects one. -/
theorem Acts.mode (hnack : ∀ source bytes response, e = .datagram source bytes response →
      (Buffer.receive bytes).msg.type ≠ nackType) (h : Acts host s e s') :
    s'.voters = s.voters ∧ s'.election = s.election ∧
      (∀ m, .broadcast m ∈ s'.deeds → .broadcast m ∈ s.deeds) ∧
      (e ≠ .elect ∧ s'.mode = s.mode ∧ s'.primaryInstance = s.primaryInstance ∨
        e = .elect ∧ s'.log = s.log ∧ ∃ p,
          selectNewPrimary host.app s.nacked s.activeServers = some (some p) ∧
          s'.primaryInstance = some p ∧
          (s'.mode = s.mode ∨ s'.mode = .newPrimary ∧ host.app p = host.app s.self)) := by
  cases h with
  | store e he M C p hp => exact ⟨rfl, rfl, fun _ hm => hm, Or.inl ⟨he, rfl, rfl⟩⟩
  | failure failed =>
    cases failed with
    | none => exact ⟨rfl, rfl, fun _ hm => hm, Or.inl ⟨nofun, rfl, rfl⟩⟩
    | some f => exact ⟨rfl, rfl, fun _ hm => hm, Or.inl ⟨nofun, rfl, rfl⟩⟩
  | join e he => exact ⟨rfl, rfl, fun _ hm => hm, Or.inl ⟨he, rfl, rfl⟩⟩
  | nack source bytes response s' htype => exact absurd htype (hnack source bytes response rfl)
  | poll e he p hp => exact ⟨rfl, rfl, fun _ hm => hm, Or.inl ⟨he, rfl, rfl⟩⟩
  | follow p addr hselect haddr =>
    exact ⟨rfl, rfl, fun _ hm => hm, Or.inr ⟨rfl, rfl, p, hselect, rfl, Or.inl rfl⟩⟩
  | stand p addr hselect haddr hself =>
    exact ⟨rfl, rfl, fun _ hm => hm, Or.inr ⟨rfl, rfl, p, hselect, rfl, Or.inr ⟨rfl, hself⟩⟩⟩
  | take source bytes response R hsource htype hreqId hne hserves =>
    refine ⟨rfl, rfl, fun m hm => ?_, Or.inl ⟨nofun, rfl, rfl⟩⟩
    exact (List.mem_cons.mp hm).resolve_left (by simp)

end Backup

namespace DiomedesGroup

variable {host : Host} {g g' : DiomedesGroup} {id x y v : DiomedesId} {e : Event}
  {es : List Event} {s s' : Backup} {t : Server} {members : List DiomedesId}
  {down down' : Finset DiomedesId} {be : Backup.Event} {pe : Diomedes.Event}

/-! ## One server -/

/-- **A server in its place**, with the requests it has run; a backup has broadcast nothing. -/
structure Placed (host : Host) (members : List DiomedesId) (down : Finset DiomedesId)
    (id : DiomedesId) (s : Backup) : Prop extends Seated host members down id s where
  chronicle : s.Chronicle
  modes : s.mode = .backup ∨ s.mode = .newPrimary ∨ s.mode = .waitingForRequests ∨
    s.mode = .processingRequest
  backup : s.mode = .backup →
    s.election = none ∧ s.voters = ∅ ∧ ∀ m, .broadcast m ∉ s.deeds
  electing : s.mode = .newPrimary → s.toServer.Electing
  unelected : s.primaryInstance = none → s.sent = []
  votes : ∀ msg addr, .vote msg addr ∈ s.sent → msg.voter = id

/-- More servers stop. -/
theorem Placed.mono (h : Placed host members down id s) (hdown : down ⊆ down') :
    Placed host members down' id s :=
  { h with toSeated := h.toSeated.mono hdown }

theorem Placed.acts (hd : Distinct host members) (h : Placed host members down id s)
    (hen : s.Enabled be) (hid : id ∉ down) (hfailed : ∀ f, be = .failure (some f) → f ∈ down)
    (hnack : ∀ source bytes response, be = .datagram source bytes response →
      (Buffer.receive bytes).msg.type ≠ nackType)
    (hs : Backup.Acts host s be s') : Placed host members down id s' := by
  have hseated := h.toSeated.acts hd hen.1 hid hfailed hnack hs
  obtain ⟨helection, hvoters, hsilent⟩ := h.backup hen.1
  obtain ⟨hvoters', helection', hsilent', hmode⟩ := hs.mode hnack
  rw [hvoters] at hvoters'
  rw [helection] at helection'
  refine { hseated with
    chronicle := ?_
    modes := ?_
    backup := fun _ => ⟨helection', hvoters', fun m hm => hsilent m (hsilent' m hm)⟩
    electing := fun _ => ?_
    unelected := fun hnone => ?_
    votes := fun msg addr hmem => ?_ }
  · obtain hrests | ⟨hne, bytes, response, -, -, htook⟩ := hs.rests_or_took hnack
    · exact h.chronicle.rests hrests
    · exact h.chronicle.took hne htook
  · obtain ⟨-, hmode, -⟩ | ⟨-, -, p, -, -, hmode | ⟨hmode, -⟩⟩ := hmode
    · exact Or.inl (hmode.trans hen.1)
    · exact Or.inl (hmode.trans hen.1)
    · exact Or.inr (Or.inl hmode)
  · have hnone : ∀ el, el ∉ s'.election := fun el hel => Option.not_mem_none el (helection' ▸ hel)
    exact ⟨fun el hel => absurd hel (hnone el), fun _ => hvoters',
      fun el hel => absurd hel (hnone el), fun el hel => absurd hel (hnone el)⟩
  · obtain ⟨he, -, hprimary⟩ | ⟨-, -, p, -, hprimary, -⟩ := hmode
    · have hsome := hen.2
      rw [if_neg he, ← hprimary, hnone] at hsome
      cases hsome
    · exact absurd (hnone.symm.trans hprimary) (by simp)
  · obtain hmem | ⟨hvoter, -⟩ := (hs.sent hnack).2 msg addr hmem
    · exact h.votes msg addr hmem
    · exact hvoter.trans hseated.self

/-- **The count of a new primary** goes on without a request; when it ends, the new primary is
alone, or every other active server has voted. -/
theorem Placed.count (h : Placed host members down id s) (hnew : s.mode = .newPrimary)
    (hother : ∀ first msg response, pe = .message first (.vote msg response) → msg.voter ≠ id)
    (hl : s.toServer.Level pe) (hs : Server.Handles (s.toServer.awake pe) pe t) :
    s.activeServers.length = 1 ∧ t.mode ≠ .newPrimary ∨ t.log = s.log ∧ t.Electing ∧
      (t.mode ≠ .newPrimary → ∀ v ∈ s.activeServers, v ≠ id → v ∈ t.voters) := by
  obtain ⟨p, heq⟩ | ⟨hone, heq⟩ := s.toServer.awake_cases pe
  · have helecting : (s.toServer.awake pe).Electing := by
      rw [heq]
      exact (h.electing hnew).frame rfl (List.Subset.refl _) rfl rfl rfl
    have hmode : (s.toServer.awake pe).mode = .newPrimary := by rw [heq, ← hnew]
    have hself : (s.toServer.awake pe).self = id := by rw [heq, ← h.self]
    have hactive : (s.toServer.awake pe).activeServers = s.activeServers := by rw [heq]
    have hvote : ∀ first msg response, pe = .message first (.vote msg response) →
        msg.voter ∈ (s.toServer.awake pe).activeServers ∧
          msg.voter ≠ (s.toServer.awake pe).self ∧
          msg.lastReq.reqId ≤ (s.toServer.awake pe).currReqId := by
      intro first msg response he
      obtain ⟨hvoter, hle⟩ := hl.vote he hmode
      exact ⟨hvoter, hself ▸ hother first msg response he, hle⟩
    obtain ⟨hel, hend⟩ := hs.electing helecting hmode (by rw [hself, hactive]; exact h.self_mem)
      (hactive ▸ h.nodup) hvote
    obtain ⟨-, -, ⟨hlog, -⟩ | ⟨hwait, -⟩⟩ := hs.log h.chronicle h.electing hl
    · rw [hactive, hself] at hend
      exact Or.inr ⟨hlog, hel, hend⟩
    · exact absurd (hmode.symm.trans hwait) (by decide)
  · refine Or.inl ⟨hone, fun hmode => ?_⟩
    obtain hkeep | hwait | hproc := hs.mode
    · rw [heq, hmode] at hkeep
      cases hkeep
    · exact absurd (hmode.symm.trans hwait) (by decide)
    · exact absurd (hmode.symm.trans hproc) (by decide)

theorem Placed.handles (h : Placed host members down id s) (hmode : s.mode ≠ .backup)
    (hid : id ∉ down) (hfailed : ∀ f, pe = .failure (some f) → f ∈ down)
    (hother : ∀ first msg response, pe = .message first (.vote msg response) → msg.voter ≠ id)
    (hl : s.toServer.Level pe) (hs : Server.Handles (s.toServer.awake pe) pe t) :
    Placed host members down id { s with toServer := t } := by
  have hseated := h.toSeated.handles hmode hid hfailed hs
  obtain ⟨hchronicle, -, -⟩ := hs.log h.chronicle h.electing hl
  have hmodes := hs.mode_awake
  refine { hseated with
    chronicle := hchronicle
    modes := ?_
    backup := fun hbackup => ?_
    electing := fun hnew => ?_
    unelected := h.unelected
    votes := h.votes }
  · obtain heq | hwait | hproc := hmodes
    · exact heq ▸ h.modes
    · exact Or.inr (Or.inr (Or.inl hwait))
    · exact Or.inr (Or.inr (Or.inr hproc))
  · obtain heq | hwait | hproc := hmodes
    · exact absurd (heq.symm.trans hbackup) hmode
    · exact absurd (hwait.symm.trans hbackup) (by decide)
    · exact absurd (hproc.symm.trans hbackup) (by decide)
  · obtain heq | hwait | hproc := hmodes
    · obtain ⟨-, hne⟩ | ⟨-, helecting, -⟩ := h.count (heq.symm.trans hnew) hother hl hs
      · exact absurd hnew hne
      · exact helecting
    · exact absurd (hwait.symm.trans hnew) (by decide)
    · exact absurd (hproc.symm.trans hnew) (by decide)

/-! ## Votes -/

/-- **The invariant of a group.** -/
structure Ordered (host : Host) (g : DiomedesGroup) : Prop extends Distinct host g.members where
  placed : ∀ id ∈ g.members, Placed host g.members g.down id (g.servers id)
  /-- A vote that has been counted was not ahead. -/
  counted : ∀ x ∈ g.members, ∀ v ∈ (g.servers x).voters, ∃ msg, ∃ addr ∈ host.getaddrinfo x,
    .vote msg addr ∈ (g.servers v).sent ∧ msg.lastReq.reqId ≤ (g.servers x).currReqId
  /-- Who has voted for a server follows it, and has not run more than it, or than it had then. -/
  followed : ∀ v x, g.Live v → g.Live x → ∀ msg, ∀ addr ∈ host.getaddrinfo x,
    .vote msg addr ∈ (g.servers v).sent → (g.servers v).primaryInstance = some x ∧
      ((g.servers v).currReqId ≤ msg.lastReq.reqId ∨
        (g.servers v).currReqId ≤ (g.servers x).currReqId)

theorem Founded.ordered (h : Founded host g) : Ordered host g where
  toDistinct := h.toDistinct
  placed id hid := by
    have hseated := h.ranked.seated id hid
    obtain ⟨s, hs, heq⟩ := h.joined id hid
    rw [heq] at hseated ⊢
    exact
      { hseated with
        chronicle := ⟨rfl, (Backup.joinDiomedesGroup_following host s).reqId,
          fun hne => absurd rfl hne, fun m hm => by cases hm⟩
        modes := Or.inl rfl
        backup := fun _ => ⟨rfl, hs.voters, fun m hm => by cases hm⟩
        electing := fun hnew => by cases hnew
        unelected := fun _ => rfl
        votes := fun msg addr hmem => by cases hmem }
  counted x hx v hv := by
    obtain ⟨s, hs, heq⟩ := h.joined x hx
    rw [heq] at hv
    change v ∈ s.voters at hv
    rw [hs.voters] at hv
    exact absurd hv (Finset.notMem_empty v)
  followed v x hv hx msg addr haddr hmem := by
    obtain ⟨s, hs, heq⟩ := h.joined v hv.1
    rw [heq] at hmem
    cases hmem

/-- The request a backup takes has been broadcast by its primary. -/
theorem Ordered.taken (h : Ordered host g) (hu : g.Uncut) (hid : g.Live id) (hx : x ∈ g.members)
    (hprimary : (g.servers id).primaryInstance = some x) {bytes : Bytes}
    {response : Option TcpRpcMsg}
    (harrives : g.Arrives host (.datagram (g.servers id).primaryAddr bytes response))
    (htype : (host.requestOf (Buffer.receive bytes)).type = primaryRequest) :
    (g.servers x).mode ≠ .backup ∧
      (host.requestOf (Buffer.receive bytes)).preq ∈ (g.servers x).log := by
  obtain ⟨p, hp, haddr, d, hd, hcarries⟩ := harrives.2 htype
  have hsent := hu.carries hp hd hcarries
  obtain ⟨-, haddr', -⟩ := (h.placed id hid.1).primary x hprimary
  obtain rfl := h.addr p hp x hx _ haddr haddr'
  exact ⟨fun hmode => ((h.placed p hp).backup hmode).2.2 _ hsent,
    (h.placed p hp).chronicle.sent _ hsent⟩

theorem Ordered.acts (h : Ordered host g) (hu : g.Uncut) (hid : g.Live id)
    (harrives : g.Arrives host be)
    (hen : (g.servers id).Enabled be) (hs : Backup.Acts host (g.servers id) be s) :
    Ordered host (g.update id s) := by
  have hold := h.placed id hid.1
  have hnack := harrives.not_nack
  have hplaced : Placed host g.members g.down id s :=
    hold.acts h.toDistinct hen hid.2 (fun f heq => by subst heq; exact harrives) hnack hs
  have hrun := hs.rests_or_took hnack
  have hgrows : ∀ q, (∀ v ∈ (g.servers q).sent, v ∈ ((g.update id s).servers q).sent) ∧
      (g.servers q).currReqId ≤ ((g.update id s).servers q).currReqId := by
    intro q
    obtain rfl | hne := eq_or_ne q id
    · rw [update_self]
      refine ⟨(hs.sent hnack).1, ?_⟩
      obtain hrests | ⟨hne, bytes, response, -, -, htook⟩ := hrun
      · exact hrests.currReqId ▸ UInt32.le_refl _
      · rw [htook.currReqId, UInt32.le_iff_toNat_le, Replica.toNat_succ hne]
        exact Nat.le_succ _
    · rw [update_of_ne hne]
      exact ⟨fun _ hv => hv, UInt32.le_refl _⟩
  refine { h.toDistinct with
    placed := fun q hq => ?_
    counted := fun x hx v hv => ?_
    followed := fun v x hv hx msg addr haddr hmem => ?_ }
  · obtain rfl | hne := eq_or_ne q id
    · rwa [update_self]
    · rw [update_of_ne hne]
      exact h.placed q hq
  · have hv' : v ∈ (g.servers x).voters := by
      obtain rfl | hne := eq_or_ne x id
      · rw [update_self, (hs.mode hnack).1] at hv
        exact hv
      · rwa [update_of_ne hne] at hv
    obtain ⟨msg, addr, haddr, hmem, hle⟩ := h.counted x hx v hv'
    exact ⟨msg, addr, haddr, (hgrows v).1 _ hmem, UInt32.le_trans hle (hgrows x).2⟩
  · obtain rfl | hne := eq_or_ne v id
    swap
    · rw [update_of_ne hne] at hmem ⊢
      obtain ⟨hprimary, hle⟩ := h.followed v x hv hx msg addr haddr hmem
      exact ⟨hprimary, hle.imp_right fun hle => UInt32.le_trans hle (hgrows x).2⟩
    rw [update_self] at hmem ⊢
    obtain hmem | ⟨-, hlast, rfl, -⟩ := (hs.sent hnack).2 msg addr hmem
    · -- who has voted for a server that has not stopped keeps it
      obtain ⟨hprimary, hle⟩ := h.followed v x hv hx msg addr haddr hmem
      obtain ⟨-, -, -, ⟨-, -, hkeep⟩ | ⟨rfl, -⟩⟩ := hs.mode hnack
      · refine ⟨hkeep.trans hprimary, ?_⟩
        obtain hrests | ⟨-, bytes, response, rfl, htype, htook⟩ := hrun
        · rw [hrests.currReqId]
          exact hle.imp_right fun hle => UInt32.le_trans hle (hgrows x).2
        · have htaken := (h.taken hu hv hx.1 hprimary harrives htype).2
          refine Or.inr (UInt32.le_trans ?_ (hgrows x).2)
          rw [htook.currReqId, ← htook.reqId]
          exact (h.placed x hx.1).chronicle.le htaken
      · exact absurd (hold.gone x hx.1 (hold.lost hen.2 x hprimary)) hx.2
    · -- a vote goes to its primary
      refine ⟨?_, Or.inl ?_⟩
      · cases hp : s.primaryInstance with
        | none =>
          rw [hplaced.unelected hp] at hmem
          cases hmem
        | some p =>
          obtain ⟨hpm, hpaddr, -⟩ := hplaced.primary p hp
          rw [h.addr p hpm x hx.1 _ hpaddr haddr]
      · rw [hlast, hplaced.chronicle.last]
        exact UInt32.le_refl _

/-- A vote that has come has been sent by another server. -/
theorem Ordered.voted (h : Ordered host g) {first : Bool} {msg : VoteMessage}
    {response : Option TcpRpcMsg}
    (hcomes : g.Comes host id (.message first (.vote msg response))) :
    msg.voter ∈ g.members ∧ msg.voter ≠ id ∧ ∃ addr ∈ host.getaddrinfo id,
      ∃ v ∈ (g.servers msg.voter).sent, v.Carries addr msg := by
  obtain ⟨voter, hvoter, hne, addr, haddr, v, hv, hcarries⟩ := hcomes
  have hname : msg.voter = voter := by
    cases v with
    | vote m a => exact hcarries.2.1.symm.trans ((h.placed voter hvoter).votes m a hv)
    | join a => exact hcarries.elim
  rw [hname]
  exact ⟨hvoter, hne, addr, haddr, v, hv, hcarries⟩

theorem Ordered.other (h : Ordered host g) (hcomes : g.Comes host id pe) (first : Bool)
    (msg : VoteMessage) (response : Option TcpRpcMsg)
    (heq : pe = .message first (.vote msg response)) : msg.voter ≠ id := by
  subst heq
  exact (h.voted hcomes).2.1

theorem Ordered.handles (h : Ordered host g) (hu : g.Uncut) (hid : g.Live id)
    (hmode : (g.servers id).mode ≠ .backup) (hcomes : g.Comes host id pe)
    (hl : (g.servers id).toServer.Level pe)
    (hs : Server.Handles ((g.servers id).toServer.awake pe) pe t) :
    Ordered host (g.update id { g.servers id with toServer := t }) := by
  have hold := h.placed id hid.1
  have hother := h.other hcomes
  have hplaced := hold.handles hmode hid.2 (fun f heq => by subst heq; exact hcomes) hother hl hs
  obtain ⟨-, hle, -⟩ := hs.log hold.chronicle hold.electing hl
  have hgrows : ∀ q, ((g.update id { g.servers id with toServer := t }).servers q).sent =
        (g.servers q).sent ∧
      (g.servers q).currReqId ≤
        ((g.update id { g.servers id with toServer := t }).servers q).currReqId := by
    intro q
    obtain rfl | hne := eq_or_ne q id
    · rw [update_self]
      exact ⟨rfl, hle⟩
    · rw [update_of_ne hne]
      exact ⟨rfl, UInt32.le_refl _⟩
  refine { h.toDistinct with
    placed := fun q hq => ?_
    counted := fun x hx v hv => ?_
    followed := fun v x hv hx msg addr haddr hmem => ?_ }
  · obtain rfl | hne := eq_or_ne q id
    · rwa [update_self]
    · rw [update_of_ne hne]
      exact h.placed q hq
  · rw [(hgrows v).1]
    have hcase : v ∈ (g.servers x).voters ∨ ∃ msg, ∃ addr ∈ host.getaddrinfo x,
        .vote msg addr ∈ (g.servers v).sent ∧ msg.lastReq.reqId ≤ (g.servers x).currReqId := by
      obtain rfl | hne := eq_or_ne x id
      swap
      · rw [update_of_ne hne] at hv
        exact Or.inl hv
      rw [update_self] at hv
      obtain ⟨mode, p, hawake⟩ := (g.servers x).toServer.awake_frame pe
      obtain heq | ⟨hnew, first, msg, response, rfl, heq⟩ := hs.voters
      · rw [hawake] at heq
        exact Or.inl (heq ▸ hv)
      · have hle := (hl.vote rfl hnew).2
        rw [hawake] at heq hle
        obtain rfl | hv := Finset.mem_insert.mp (heq ▸ hv : v ∈ insert msg.voter _)
        · obtain ⟨hvoter, -, addr, haddr, vote, hvote, hcarries⟩ := h.voted hcomes
          exact Or.inr ⟨msg, addr, haddr, hu.carries_vote hvoter hvote hcarries, hle⟩
        · exact Or.inl hv
    obtain ⟨msg, addr, haddr, hmem, hle⟩ := hcase.elim (h.counted x hx v) fun hnew => hnew
    exact ⟨msg, addr, haddr, hmem, UInt32.le_trans hle (hgrows x).2⟩
  · rw [(hgrows v).1] at hmem
    obtain ⟨hprimary, hle⟩ := h.followed v x hv hx msg addr haddr hmem
    obtain rfl | hne := eq_or_ne v id
    · -- a primary is its own primary
      obtain rfl := Option.some.inj ((hold.leads hmode).symm.trans hprimary)
      rw [update_self]
      exact ⟨hprimary, Or.inr (UInt32.le_refl _)⟩
    · rw [update_of_ne hne]
      exact ⟨hprimary, hle.imp_right fun hle => UInt32.le_trans hle (hgrows x).2⟩

/-- Nothing that has been sent is cut, and a new primary counts votes of active servers only, and
none that is ahead of it. -/
structure Level (g : DiomedesGroup) (e : Event) : Prop where
  uncut : g.Uncut
  votes : ∀ id pe, e = .primary id pe → (g.servers id).toServer.Level pe

instance (g : DiomedesGroup) (e : Event) : Decidable (g.Level e) :=
  match e with
  | .primary id pe => decidable_of_iff (g.Uncut ∧ (g.servers id).toServer.Level pe)
      ⟨fun h => ⟨h.1, fun _ _ heq => by cases heq; exact h.2⟩, fun h => ⟨h.uncut, h.votes _ _ rfl⟩⟩
  | .backup _ _ => decidable_of_iff g.Uncut ⟨fun h => ⟨h, nofun⟩, fun h => h.uncut⟩
  | .stop _ => decidable_of_iff g.Uncut ⟨fun h => ⟨h, nofun⟩, fun h => h.uncut⟩

theorem Ordered.step (h : Ordered host g) (hs : Steps host g e g') (hl : g.Level e) :
    Ordered host g' := by
  cases hs with
  | backup id be s hid harrives hen hacts => exact h.acts hl.uncut hid harrives hen hacts
  | primary id pe t hid hmode hcomes hhandles =>
    exact h.handles hl.uncut hid hmode hcomes (hl.votes id pe rfl) hhandles
  | stop id hid =>
    have hlive : ∀ {q}, DiomedesGroup.Live { g with down := insert id g.down } q → g.Live q :=
      fun hq => ⟨hq.1, fun hd => hq.2 (Finset.mem_insert_of_mem hd)⟩
    exact { h.toDistinct with
      placed := fun q hq => (h.placed q hq).mono (Finset.subset_insert _ _)
      counted := h.counted
      followed := fun v x hv hx => h.followed v x (hlive hv) (hlive hx) }

/-! ## The succession -/

/-- How far a server has come. -/
def stageOf : Mode → Succession.Stage
  | .newPrimary => .candidate
  | .waitingForRequests => .crowned
  | .processingRequest => .crowned
  | _ => .follower

/-- The succession of a group. -/
def succession (g : DiomedesGroup) : Succession.State DiomedesId PrimaryRequest where
  log id := (g.servers id).log
  stage id := stageOf (g.servers id).mode
  master id := (g.servers id).primaryInstance
  down := {id | id ∈ g.down}

/-- The members. -/
def memberSet (g : DiomedesGroup) : Set DiomedesId := {id | id ∈ g.members}

theorem apply_update {β : Type} (f : Backup → β) (g : DiomedesGroup) (id : DiomedesId)
    (s : Backup) : (fun q => f ((g.update id s).servers q)) =
      Function.update (fun q => f (g.servers q)) id (f s) :=
  funext fun q => Function.apply_update (fun _ => f) g.servers id s q

theorem succession_update (g : DiomedesGroup) (id : DiomedesId) (s : Backup) :
    (g.update id s).succession =
      { log := Function.update g.succession.log id s.log
        stage := Function.update g.succession.stage id (stageOf s.mode)
        master := Function.update g.succession.master id s.primaryInstance
        down := g.succession.down } := by
  unfold succession
  rw [apply_update (fun s => s.log), apply_update (fun s => stageOf s.mode),
    apply_update (fun s => s.primaryInstance)]
  rfl

/-- What does not change. -/
theorem update_eq {β : Type} (f : DiomedesId → β) {b : β} (h : b = f id) :
    Function.update f id b = f := by rw [h, Function.update_eq_self]

/-- A server that elects another one, or itself, succeeds the one it had before. -/
theorem Ordered.succeeds (h : Ordered host g) (hid : g.Live id)
    (hselect : selectNewPrimary host.app (g.servers id).nacked (g.servers id).activeServers =
      some (some x)) (hactive : (g.servers id).primaryActive = false) :
    Succession.Succeeds (rank host) g.memberSet g.succession id x := by
  have hold := h.placed id hid.1
  obtain ⟨hx, hle⟩ := hold.elected h.toDistinct hselect
  refine ⟨fun z hz hlt => hold.gone z hz fun hmem => not_le.mpr hlt (hle z hmem), fun p hp => ?_⟩
  obtain ⟨hpm, -, hfirst⟩ := hold.primary p hp
  have hlost := hold.lost hactive p hp
  refine ⟨hold.gone p hpm hlost, lt_of_le_of_ne (hfirst x hx) fun heq => hlost ?_⟩
  rwa [h.rank hpm (hold.active x hx) heq]

theorem Ordered.simulates_acts (h : Ordered host g) (hu : g.Uncut) (hid : g.Live id)
    (harrives : g.Arrives host be) (hen : (g.servers id).Enabled be)
    (hs : Backup.Acts host (g.servers id) be s) :
    Relation.ReflTransGen (Succession.Step (rank host) g.memberSet) g.succession
      (g.update id s).succession := by
  have hold := h.placed id hid.1
  have hstage : g.succession.stage id = .follower := congrArg stageOf hen.1
  obtain ⟨-, -, -, ⟨he, hmode, hprimary⟩ | ⟨rfl, hlog, p, hselect, hprimary, hmode⟩⟩ :=
    hs.mode harrives.not_nack
  · rw [succession_update, update_eq g.succession.stage (congrArg stageOf hmode),
      update_eq g.succession.master hprimary]
    obtain hrests | ⟨hne, bytes, response, rfl, htype, htook⟩ :=
      hs.rests_or_took harrives.not_nack
    · rw [update_eq g.succession.log hrests.log]
    · obtain ⟨x, hx⟩ : ∃ x, (g.servers id).primaryInstance = some x :=
        Option.isSome_iff_exists.mp hen.2
      have hxm := (hold.primary x hx).1
      obtain ⟨hxmode, hmem⟩ := h.taken hu hid hxm hx harrives htype
      rw [htook.log]
      refine .single (.copy g.succession id x _ hid hstage hx hxm (fun hfollower => hxmode ?_) ?_)
      · obtain hb | hn | hw | hp := (h.placed x hxm).modes
        · exact hb
        · exact absurd ((congrArg stageOf hn).symm.trans hfollower) (by decide)
        · exact absurd ((congrArg stageOf hw).symm.trans hfollower) (by decide)
        · exact absurd ((congrArg stageOf hp).symm.trans hfollower) (by decide)
      · refine (h.placed x hxm).chronicle.getElem? hmem ?_
        change _ = (g.servers id).log.length + 1
        rw [htook.reqId, Replica.toNat_succ hne, hold.chronicle.length]
  · have hsucceeds := h.succeeds hid hselect hen.2
    rw [succession_update, update_eq g.succession.log hlog, hprimary]
    obtain hmode | ⟨hmode, hself⟩ := hmode
    · rw [update_eq g.succession.stage (congrArg stageOf hmode)]
      exact .single (.follow g.succession id p hid hstage hsucceeds)
    · have hp := hold.active p (hold.elected h.toDistinct hselect).1
      obtain rfl : p = id := h.app p hp id hid.1 (by rw [hself, hold.self])
      rw [hmode]
      exact .single (.stand g.succession p hid hstage hsucceeds)

/-- A server whose vote has been counted follows the new primary, and is not ahead of it. -/
theorem Ordered.crowned (h : Ordered host g) (hid : g.Live id) (hx : g.Live x)
    (hvoted : x ∈ (g.servers id).voters) : (g.servers x).primaryInstance = some id ∧
      (g.servers x).log.length ≤ (g.servers id).log.length := by
  obtain ⟨msg, addr, haddr, hmem, hle⟩ := h.counted id hid.1 x hvoted
  obtain ⟨hprimary, hcurr⟩ := h.followed x id hx hid msg addr haddr hmem
  refine ⟨hprimary, ?_⟩
  rw [(h.placed x hx.1).chronicle.length, (h.placed id hid.1).chronicle.length,
    ← UInt32.le_iff_toNat_le]
  exact hcurr.elim (fun hcurr => UInt32.le_trans hcurr hle) fun hcurr => hcurr

/-- A server that has not stopped is active everywhere. -/
theorem Seated.mem_active (h : Seated host members down id s) (hx : x ∈ members)
    (hdown : x ∉ down) : x ∈ s.activeServers :=
  not_not.mp fun hn => hdown (h.gone x hx hn)

/-- **The end of an election**: every other server that has not stopped follows the new primary, and
is not ahead of it. -/
theorem Ordered.crown (h : Ordered host g) (hu : g.Uncut) (hid : g.Live id)
    (hmode : (g.servers id).mode = .newPrimary) (hcomes : g.Comes host id pe)
    (hl : (g.servers id).toServer.Level pe)
    (hs : Server.Handles ((g.servers id).toServer.awake pe) pe t) (ht : t.mode ≠ .newPrimary) :
    ∀ x, g.Live x → x ≠ id → (g.servers x).primaryInstance = some id ∧
      (g.servers x).log.length ≤ (g.servers id).log.length := by
  intro x hx hne
  have hold := h.placed id hid.1
  have hxa := hold.mem_active hx.1 hx.2
  have hbackup : (g.servers id).mode ≠ .backup := by rw [hmode]; decide
  have hother := h.other hcomes
  obtain ⟨hone, -⟩ | ⟨hlog, -, hend⟩ := hold.count hmode hother hl hs
  · obtain ⟨q, hq⟩ := List.length_eq_one_iff.mp hone
    have hself := hold.self_mem
    rw [hq, List.mem_singleton] at hxa hself
    exact absurd (hxa.trans hself.symm) hne
  · have hlive : ∀ y, g.Live y → (g.update id { g.servers id with toServer := t }).Live y :=
      fun y hy => hy
    have hcrowned := (h.handles hu hid hbackup hcomes hl hs).crowned (hlive id hid) (hlive x hx)
    rw [update_self, update_of_ne hne] at hcrowned
    rw [← hlog]
    exact hcrowned (hend ht x hxa hne)

theorem Ordered.simulates_handles (h : Ordered host g) (hu : g.Uncut) (hid : g.Live id)
    (hmode : (g.servers id).mode ≠ .backup) (hcomes : g.Comes host id pe)
    (hl : (g.servers id).toServer.Level pe)
    (hs : Server.Handles ((g.servers id).toServer.awake pe) pe t) :
    Relation.ReflTransGen (Succession.Step (rank host) g.memberSet) g.succession
      (g.update id { g.servers id with toServer := t }).succession := by
  have hold := h.placed id hid.1
  obtain ⟨-, -, hlog⟩ := hs.log hold.chronicle hold.electing hl
  have hcrowned : ∀ {mode : Mode}, mode = .waitingForRequests ∨ mode = .processingRequest →
      stageOf mode = .crowned := by
    rintro mode (rfl | rfl)
    · rfl
    · rfl
  -- the stage first, and then the log
  let G : Succession.State DiomedesId PrimaryRequest :=
    { g.succession with stage := Function.update g.succession.stage id (stageOf t.mode) }
  have hstage : Relation.ReflTransGen (Succession.Step (rank host) g.memberSet) g.succession G ∧
      (t.log = (g.servers id).log ∨ stageOf t.mode = .crowned) := by
    by_cases hnew : (g.servers id).mode = .newPrimary
    · by_cases ht : t.mode = .newPrimary
      · refine ⟨?_, ?_⟩
        · dsimp only [G]
          rw [update_eq g.succession.stage (congrArg stageOf (ht.trans hnew.symm))]
        · obtain ⟨-, hne⟩ | ⟨hlog, -⟩ := hold.count hnew (h.other hcomes) hl hs
          · exact absurd ht hne
          · exact Or.inl hlog
      · have ht' := hcrowned (hs.mode_awake.resolve_left fun heq => ht (heq.trans hnew))
        refine ⟨?_, Or.inr ht'⟩
        dsimp only [G]
        rw [ht']
        exact .single (.crown g.succession id hid (congrArg stageOf hnew)
          (h.crown hu hid hnew hcomes hl hs ht))
    · have hs' := hold.modes.resolve_left hmode |>.resolve_left hnew
      have ht := hcrowned (hs.mode_awake.elim (fun heq => heq ▸ hs') fun hrest => hrest)
      refine ⟨?_, Or.inr ht⟩
      dsimp only [G]
      rw [update_eq g.succession.stage (ht.trans (hcrowned hs').symm)]
  refine hstage.1.trans ?_
  rw [succession_update, update_eq g.succession.master (b := (g.servers id).primaryInstance) rfl]
  obtain hkeep | ⟨-, preq, hadd⟩ := hlog
  · rw [update_eq g.succession.log hkeep.1]
  · rw [hadd]
    have hne : t.log ≠ (g.servers id).log := by
      rw [hadd]
      simp
    refine .single (.extend G id preq hid ?_)
    rw [← hstage.2.resolve_left hne]
    exact Function.update_self _ _ _

/-- **A group is a succession.** -/
theorem Ordered.simulates (h : Ordered host g) (hs : Steps host g e g') (hl : g.Level e) :
    Relation.ReflTransGen (Succession.Step (rank host) g.memberSet) g.succession
      g'.succession := by
  cases hs with
  | backup id be s hid harrives hen hacts => exact h.simulates_acts hl.uncut hid harrives hen hacts
  | primary id pe t hid hmode hcomes hhandles =>
    exact h.simulates_handles hl.uncut hid hmode hcomes (hl.votes id pe rfl) hhandles
  | stop id hid =>
    have hdown : DiomedesGroup.succession { g with down := insert id g.down } =
        { g.succession with down := insert id g.succession.down } := by
      unfold succession
      congr 1
      ext q
      exact Finset.mem_insert
    rw [hdown]
    exact .single (.stop g.succession id)

/-- Members stay. -/
theorem Steps.members_eq (hs : Steps host g e g') : g'.members = g.members := by
  cases hs with
  | backup => rfl
  | primary => rfl
  | stop => rfl

/-! ## Runs -/

/-- The invariant of a run, and of the succession it is. -/
structure Reigning (host : Host) (g : DiomedesGroup) : Prop extends Ordered host g where
  led : ∃ lead, Succession.Led (rank host) g.memberSet g.succession lead

theorem Founded.reigning (h : Founded host g) : Reigning host g where
  toOrdered := h.ordered
  led := by
    refine ⟨none, Succession.Initial.led ⟨fun id hid => ?_, fun id hid => ?_, fun id hid => ?_⟩⟩
    · obtain ⟨s, -, heq⟩ := h.joined id hid
      change (g.servers id).log = []
      rw [heq]
      rfl
    · obtain ⟨s, -, heq⟩ := h.joined id hid
      change stageOf (g.servers id).mode = .follower
      rw [heq]
      rfl
    · obtain ⟨s, -, heq⟩ := h.joined id hid
      change (g.servers id).primaryInstance = none
      rw [heq]
      rfl

theorem Reigning.step (h : Reigning host g) (hs : Steps host g e g') (hl : g.Level e) :
    Reigning host g' where
  toOrdered := h.toOrdered.step hs hl
  led := by
    obtain ⟨lead, hled⟩ := h.led
    have hmembers : g'.memberSet = g.memberSet := by rw [memberSet, hs.members_eq, memberSet]
    rw [hmembers]
    exact hled.reach h.rank (h.simulates hs hl)

/-- The servers that have not stopped have run the same requests, as far as they have come, and each
has run the requests `1, 2, …` in this order. -/
structure Agrees (g : DiomedesGroup) : Prop where
  comparable : ∀ x y, g.Live x → g.Live y →
    (g.servers x).log <+: (g.servers y).log ∨ (g.servers y).log <+: (g.servers x).log
  ids : ∀ x, g.Live x → (g.servers x).log.map (fun preq => preq.reqId.toNat) =
    List.range' 1 (g.servers x).log.length

theorem Reigning.agrees (h : Reigning host g) : g.Agrees where
  comparable x y hx hy := by
    obtain ⟨lead, hled⟩ := h.led
    exact hled.comparable hx hy
  ids x hx := by rw [(h.placed x hx.1).chronicle.length, (h.placed x hx.1).chronicle.ids]

/-- **The servers agree.**  In every run of a group that has joined, in which no request or vote is
cut on its way, no new primary counts the vote of a server that is ahead of it or that it takes for
failed, and no id is 0 again, the servers that have not stopped have run the same requests as far as
they have come, whoever stops, however often the primary changes, and whatever datagrams are lost,
repeated or late. -/
theorem agreement (h₀ : Founded host g)
    (hl : Run.Along (step host) (fun g e _ => g.Level e) g es) :
    Run.Always (step host) Agrees g es :=
  Run.Always.of_inv (I := Reigning host) (fun _ h => h.agrees)
    (fun _ _ _ hs h hl => h.step (step_steps hs) hl) h₀.reigning hl

theorem agreement_trio :
    Run.Always (step Backup.servers) Agrees trio (acknowledged ++ succeeded) :=
  agreement trio_founded (by decide +kernel)

end DiomedesGroup

end Falcon.Diomedes
