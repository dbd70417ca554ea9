import Falcon.Diomedes.Ackers

/-!
# Diomedes/Responders — acknowledged requests and the last valid id

The `Responder` of a request waits until `last_valid_req_id_` has come up to its id, or until no
acknowledgements are needed.  The acknowledgement that makes as many as are needed adds one to
`last_valid_req_id_`, an election sets it if the votes agree, and a `Responder` that needs no
acknowledgements stores its own id.  A request that is answered from the cache takes an id too, but
it is never acknowledged; and a failure that leaves enough acknowledgements adds nothing.

* `releases` — so an acknowledged request releases its `Responder` in a run in which no failure
  during a request brings the threshold down to what has been collected and, as long as failures can
  follow, no request is answered from the cache and all votes are for the position of the new
  primary.
-/

namespace Falcon.Diomedes.Server

/-- The condition of the loop of `Responder`. -/
def Waits (s : Server) (i : UInt32) : Prop := s.lastValidReqId < i ∧ s.acksNeeded ≠ 0

/-- A step after which enough backups have acknowledged a request comes up to its id; no
acknowledged request waits; and nothing is valid that is not acknowledged. -/
structure Releases (s s' : Server) : Prop where
  enough : ∀ i, s'.collected = i :: s.collected → i ≤ s'.lastValidReqId
  released : ∀ i ∈ s'.collected, ¬ s'.Waits i
  bounded : s'.lastValidReqId ≤ s'.acked

/-- A new primary of a group that can still take its failures. -/
structure Enthroned (s : Server) : Prop where
  mode : s.mode = .newPrimary
  election : s.election = none
  nodup : s.activeServers.Nodup
  sized : s.failures + 1 ≤ s.activeServers.length + s.failuresObserved.toNat
  small : s.activeServers.length + s.failuresObserved.toNat < 2 ^ 32
  responders : s.responders = []
  collected : s.collected = []
  bounded : s.lastValidReqId ≤ s.acked

/-- A failure can still follow. -/
def Tolerant (s : Server) : Prop := (s.failuresObserved.toNat : ℤ) < s.failures

instance (s : Server) (i : UInt32) : Decidable (s.Waits i) := inferInstanceAs (Decidable (_ ∧ _))

instance (s : Server) : Decidable s.Tolerant := inferInstanceAs (Decidable (_ < _))

/-- A failure leaves the request that is processed without enough acknowledgements. -/
def Unfilled (s : Server) : Prop := s.acknowledgers = ∅ ∨
  s.acknowledgers.card < (threshold { s with failuresObserved := s.failuresObserved + 1 }).toNat

/-- An acknowledgement is the last one that is missing exactly if as many backups as are needed have
acknowledged the request; when none is needed, the request is valid already. -/
@[mk_iff] structure Counts (msg : VoteMessage) (s : Server) : Prop where
  last : (insert msg.voter.name s.ackers).card = s.acksNeeded.toNat → s.Tolerant ∧ s.currReqId ≠ 0
  surplus : s.acksNeeded = 0 → s.currReqId ≤ s.lastValidReqId
  names : s.acksNeeded.toNat ≤ (insert msg.voter s.acknowledgers).card →
    ∀ v ∈ insert msg.voter s.acknowledgers, ∀ w ∈ insert msg.voter s.acknowledgers,
      v.name = w.name → v = w

/-- The events that keep the last valid id in step with the ids of the requests. -/
def Orderly (s : Server) : Event → Prop
  | .failure (some _) =>
      (s.Tolerant ∨
        s.failuresObserved.toNat + 1 < 2 ^ 32 ∧ ∀ i ∈ s.collected, i ≤ s.lastValidReqId) ∧
      (s.wake.mode = .processingRequest → s.Unfilled)
  | .message _ (.vote msg _) =>
      (s.mode = .newPrimary → s.Tolerant →
        msg.lastReq.reqId = s.currReqId ∨ s.lastValidReqId = s.currReqId) ∧
      (s.mode = .processingRequest → ¬ msg.lastReq.reqId < s.currReqId → Counts msg s)
  | .request m _ => s.wake.mode = .waitingForRequests → s.Tolerant →
      (s.responseMap.lookup m.preq.clientId).map TcpRpcMsg.xid ≠ some m.preq.request.xid
  | _ => True

instance (s : Server) : Decidable s.Unfilled := inferInstanceAs (Decidable (_ ∨ _))

instance (msg : VoteMessage) (s : Server) : Decidable (Counts msg s) :=
  decidable_of_iff _ (counts_iff msg s).symm

instance (s : Server) (e : Event) : Decidable (s.Orderly e) :=
  Event.decidable (isTrue trivial) (fun _ => inferInstanceAs (Decidable (_ ∧ _)))
    (fun _ _ _ => inferInstanceAs (Decidable (_ ∧ _))) (fun _ => isTrue trivial)
    (fun _ => isTrue trivial) (fun _ _ => inferInstanceAs (Decidable (_ → _)))
    (fun _ => isTrue trivial) (fun _ => isTrue trivial) e

/-- **In step**: the last valid id is that of the last request, or the one before it while that
request is processed. -/
structure InStep (s : Server) : Prop where
  nodup : s.activeServers.Nodup
  sized : s.failures + 1 ≤ s.activeServers.length + s.failuresObserved.toNat
  small : s.failures < 2 ^ 32
  threshold : s.responders ≠ [] → s.acksNeeded = s.threshold
  election : s.mode = .newPrimary → s.lastValidReqId = s.currReqId ∨
    ∀ el ∈ s.election, el.minReqId = s.currReqId ∧ el.maxReqId = s.currReqId
  waiting : s.mode = .waitingForRequests → s.lastValidReqId = s.currReqId
  processing : s.mode = .processingRequest → s.lastValidReqId + 1 = s.currReqId
  behind : ∀ i ∈ s.collected, i ≤ s.lastValidReqId

/-- When no failure can follow, nothing is collected any more; what has been collected is valid, or
nobody waits. -/
structure Spent (s : Server) : Prop where
  released : ∀ i ∈ s.collected, i ≤ s.lastValidReqId ∨ s.acksNeeded = 0
  threshold : s.collected = [] ∨ s.acksNeeded = s.threshold

/-- The request that is processed is compared with the threshold, and it still lacks an
acknowledgement unless none is needed. -/
structure Lacking (s : Server) : Prop where
  threshold : s.acksNeeded = s.threshold
  missing : s.acknowledgers = ∅ ∨ s.acksNeeded = 0 ∨ s.acknowledgers.card < s.acksNeeded.toNat

/-- The invariant of a primary. -/
structure Reigning (s : Server) : Prop where
  pending : s.mode = .processingRequest → s.Lacking
  first : s.mode = .newPrimary → s.collected = []
  bounded : s.lastValidReqId ≤ s.acked
  inStep : s.Tolerant → s.InStep
  spent : ¬ s.Tolerant → s.Spent

variable {s s' : Server} {e : Event} {es : List Event} {f : DiomedesId} {msg : VoteMessage}
  {m : RequestMessage} {response : Option TcpRpcMsg} {bm : BackupMessage} {r : Responder}
  {first : Bool}

theorem Enthroned.reigning (h : s.Enthroned) : s.Reigning where
  pending hmode := absurd (h.mode.symm.trans hmode) (by decide)
  first _ := h.collected
  bounded := h.bounded
  inStep _ :=
    { nodup := h.nodup
      sized := h.sized
      small := by have := h.sized; have := h.small; omega
      threshold := fun hne => absurd h.responders hne
      election := fun _ => Or.inr fun el hel => absurd (h.election ▸ hel) (Option.not_mem_none el)
      waiting := fun hmode => absurd (h.mode.symm.trans hmode) (by decide)
      processing := fun hmode => absurd (h.mode.symm.trans hmode) (by decide)
      behind := fun i hi => absurd (h.collected ▸ hi) List.not_mem_nil }
  spent _ := ⟨fun i hi => absurd (h.collected ▸ hi) List.not_mem_nil, Or.inl h.collected⟩

/-- As long as a failure can follow, acknowledgements are needed. -/
theorem InStep.threshold_ne_zero (h : s.InStep) (ht : s.Tolerant) : s.threshold ≠ 0 := by
  have hsmall := h.small
  have hlacks : s.Lacks 0 := by
    unfold Lacks
    unfold Tolerant at ht
    omega
  intro hzero
  exact absurd (threshold_iff.mpr hlacks).2 (by rw [hzero]; decide)

/-- What has been collected does not wait. -/
theorem Reigning.released (h : s.Reigning) : ∀ i ∈ s.collected, ¬ s.Waits i := by
  rintro i hi ⟨hlt, hacks⟩
  by_cases ht : s.Tolerant
  · exact absurd hlt (UInt32.not_lt.mpr ((h.inStep ht).behind i hi))
  · obtain hle | hzero := (h.spent ht).released i hi
    · exact absurd hlt (UInt32.not_lt.mpr hle)
    · exact hacks hzero

/-- The cache, the loops and the collected strings have no part in it. -/
theorem Reigning.loop (h : s.Reigning) (M : Keyed UInt32 RequestMessage) (b p : Bool)
    (A : Finset String) : Reigning { s with
      requestMap := M
      settling := b
      pulling := p
      ackers := A } := by
  refine ⟨fun hp => ⟨(h.pending hp).threshold, (h.pending hp).missing⟩, h.first, h.bounded,
    fun ht => ?_, fun ht => ⟨(h.spent ht).released, (h.spent ht).threshold⟩⟩
  have hin := h.inStep ht
  exact ⟨hin.nodup, hin.sized, hin.small, hin.threshold, hin.election, hin.waiting,
    hin.processing, hin.behind⟩

/-! ## Requests that are acknowledged -/

theorem collect_of_not (h : ¬ s.Acknowledged) : s.collect = s := by
  simp only [collect, h, false_and, if_false]

theorem Acknowledged.collected (h : s.Acknowledged) :
    s.collect.collected = s.currReqId :: s.collected :=
  if_pos h

/-- What is new among the collected requests is the current one, when it is acknowledged. -/
theorem collect_collected (s : Server) : s.collect.collected = s.collected ∨
    s.Acknowledged ∧ s.collect.collected = s.currReqId :: s.collected := by
  by_cases h : s.Acknowledged
  · exact Or.inr ⟨h, h.collected⟩
  · exact Or.inl (if_neg h)

theorem le_acked_collect (s : Server) : s.acked ≤ s.collect.acked := by
  simp only [collect]
  split_ifs with h
  · exact UInt32.le_of_lt h.2
  · exact UInt32.le_refl _

theorem Acknowledged.le_acked (h : s.Acknowledged) : s.currReqId ≤ s.collect.acked := by
  simp only [collect, h, true_and]
  split_ifs with hlt
  · exact UInt32.le_refl _
  · exact UInt32.not_lt.mp hlt

/-- The acknowledged request is valid: nothing is lost by collecting it. -/
theorem Reigning.collect (h : s.Reigning) (hmode : s.mode = .processingRequest)
    (hvalid : s.Acknowledged → s.currReqId ≤ s.lastValidReqId) : s.collect.Reigning := by
  have hcollected : ∀ i ∈ s.collect.collected, i ∈ s.collected ∨ i ≤ s.lastValidReqId := by
    intro i hi
    obtain heq | ⟨hack, heq⟩ := s.collect_collected
    · exact Or.inl (heq ▸ hi)
    · obtain rfl | hi := List.mem_cons.mp (heq ▸ hi)
      · exact Or.inr (hvalid hack)
      · exact Or.inl hi
  refine ⟨fun hp => ⟨(h.pending hp).threshold, (h.pending hp).missing⟩,
    fun hnew => absurd (hmode.symm.trans hnew) (by decide),
    UInt32.le_trans h.bounded s.le_acked_collect, fun ht => ?_, fun ht => ⟨fun i hi => ?_,
      Or.inr (h.pending hmode).threshold⟩⟩
  · have hin := h.inStep ht
    exact ⟨hin.nodup, hin.sized, hin.small, hin.threshold, hin.election, hin.waiting,
      hin.processing, fun i hi => (hcollected i hi).elim (hin.behind i) id⟩
  · exact (hcollected i hi).elim ((h.spent ht).released i) Or.inl

/-- An acknowledgement that is none too many: the request still lacks one afterwards, or it is the
last one by name too. -/
theorem Lacking.next (h : s.Lacking) (hnames : s.ackers = s.acknowledgers.image DiomedesId.name)
    (hC : Counts msg s) (hacks : s.acksNeeded ≠ 0) :
    (insert msg.voter s.acknowledgers).card < s.acksNeeded.toNat ∨
      (insert msg.voter.name s.ackers).card = s.acksNeeded.toNat := by
  have hpos : 0 < s.acksNeeded.toNat :=
    Nat.pos_of_ne_zero fun h0 => hacks (UInt32.toNat.inj h0)
  have hcard := Finset.card_insert_le msg.voter s.acknowledgers
  have hle : (insert msg.voter s.acknowledgers).card ≤ s.acksNeeded.toNat := by
    obtain hnone | hzero | hlt := h.missing
    · rw [hnone, Finset.card_empty] at hcard
      rw [hnone]
      omega
    · exact absurd hzero hacks
    · omega
  refine hle.lt_or_eq.imp_right fun heq => ?_
  rw [hnames, ← Finset.image_insert,
    Finset.card_image_of_injOn fun v hv w hw hname => hC.names heq.ge v hv w hw hname]
  exact heq

theorem Reigning.wake (h : s.Reigning) : s.wake.Reigning := by
  obtain ⟨hone, heq⟩ | ⟨-, heq⟩ := s.wake_eq
  · rw [heq]
    refine ⟨fun hp => (by cases hp), fun hnew => (by cases hnew), h.bounded, fun ht => ?_,
      fun ht => ⟨(h.spent ht).released, (h.spent ht).threshold⟩⟩
    -- as long as a failure can follow, there is another server
    have hsized := (h.inStep ht).sized
    change s.failuresObserved.toNat < s.failures at ht
    omega
  · rw [heq]
    exact h.loop s.requestMap s.settling false s.ackers

/-- A failure takes one server away at most. -/
theorem length_processFailure (h : s.activeServers.Nodup) :
    s.activeServers.length ≤ (s.processFailure (some f)).activeServers.length + 1 := by
  have hfilter : (s.processFailure (some f)).activeServers = s.activeServers.erase f := by
    rw [h.erase_eq_filter]
    exact List.filter_congr fun v _ => by by_cases hv : v = f <;> simp [hv]
  rw [hfilter, List.length_erase]
  split_ifs
  · omega
  · omega

/-- A failure leaves the request that is processed as it is. -/
theorem processFailure_eq (h : s.mode = .processingRequest → s.Unfilled) :
    s.processFailure (some f) = { s with
      activeServers := s.activeServers.filter (· ≠ f)
      failuresObserved := s.failuresObserved + 1
      acksNeeded := threshold { s with failuresObserved := s.failuresObserved + 1 } } := by
  refine collect_of_not fun ⟨hmode, hsome, hle⟩ => ?_
  obtain hnone | hlt := h hmode
  · exact hsome.ne_empty hnone
  · exact absurd hle (not_le.mpr hlt)

/-- A failure. -/
theorem Reigning.failure (h : s.Reigning)
    (hC : s.Tolerant ∨ s.failuresObserved.toNat + 1 < 2 ^ 32 ∧
      ∀ i ∈ s.collected, i ≤ s.lastValidReqId)
    (hun : s.mode = .processingRequest → s.Unfilled) : (s.processFailure (some f)).Reigning := by
  have hbehind : ∀ i ∈ s.collected, i ≤ s.lastValidReqId := by
    obtain ht | hC := hC
    · exact (h.inStep ht).behind
    · exact hC.2
  have hobs : (s.failuresObserved + 1).toNat = s.failuresObserved.toNat + 1 := by
    have hlt : s.failuresObserved.toNat + 1 < 2 ^ 32 := by
      obtain ht | hC := hC
      · have hsmall := (h.inStep ht).small
        unfold Tolerant at ht
        omega
      · exact hC.1
    rw [UInt32.toNat_add]
    exact Nat.mod_eq_of_lt hlt
  have hlen := fun hnodup => length_processFailure (s := s) (f := f) hnodup
  rw [processFailure_eq hun] at hlen ⊢
  refine ⟨fun hp => ⟨rfl, (hun hp).imp_right Or.inr⟩, h.first, h.bounded, fun ht' => ?_,
    fun _ => ⟨fun i hi => Or.inl (hbehind i hi), Or.inr rfl⟩⟩
  have ht : s.Tolerant := by
    unfold Tolerant at ht' ⊢
    rw [hobs] at ht'
    change _ < s.failures at ht'
    omega
  have hin := h.inStep ht
  refine ⟨hin.nodup.filter _, ?_, hin.small, fun _ => rfl, hin.election, hin.waiting,
    hin.processing, hbehind⟩
  rw [hobs]
  have hsized := hin.sized
  have hlen := hlen hin.nodup
  change s.failures + 1 ≤ _
  omega

/-- What a step may add to the collected requests is valid. -/
def Adds (s s' : Server) : Prop := s'.collected = s.collected ∨
  ∃ i, s'.collected = i :: s.collected ∧ i ≤ s'.lastValidReqId

/-- An acknowledgement: the last one that is missing makes the request the last valid one. -/
theorem Reigning.ack (h : s.Reigning) (hmode : s.mode = .processingRequest)
    (hnames : s.ackers = s.acknowledgers.image DiomedesId.name)
    (hC : ¬ msg.lastReq.reqId < s.currReqId → Counts msg s) (hs : s.addToAckers msg = some s') :
    s'.Reigning ∧ Adds s s' := by
  have hlacking := h.pending hmode
  obtain ⟨-, rfl⟩ | ⟨hnew, ⟨hmore, rfl⟩ | ⟨hall, rfl⟩⟩ := addToAckers_spec hs
  · exact ⟨h, Or.inl rfl⟩
  · have hC := hC hnew
    have hinsert := fun hacks => (hlacking.next hnames hC hacks).resolve_right hmore
    set t : Server := { s with
      ackers := insert msg.voter.name s.ackers
      acknowledgers := insert msg.voter s.acknowledgers } with ht
    have hvalid : t.Acknowledged → t.currReqId ≤ t.lastValidReqId := by
      rintro ⟨-, -, hle⟩
      by_cases hacks : s.acksNeeded = 0
      · exact hC.surplus hacks
      · exact absurd hle (not_le.mpr (hinsert hacks))
    have hkeep : t.Reigning := by
      refine ⟨fun _ => ⟨hlacking.threshold, Or.inr ?_⟩, h.first, h.bounded, fun htol => ?_,
        fun htol => ⟨(h.spent htol).released, (h.spent htol).threshold⟩⟩
      · by_cases hacks : s.acksNeeded = 0
        · exact Or.inl hacks
        · exact Or.inr (hinsert hacks)
      · have hin := h.inStep htol
        exact ⟨hin.nodup, hin.sized, hin.small, hin.threshold, hin.election, hin.waiting,
          hin.processing, hin.behind⟩
    refine ⟨hkeep.collect hmode hvalid, t.collect_collected.imp_right fun ⟨hack, heq⟩ => ?_⟩
    exact ⟨_, heq, hvalid hack⟩
  · obtain ⟨htol, hzero⟩ := (hC hnew).last hall
    have hin := h.inStep htol
    have hnext := hin.processing hmode
    have hle : s.lastValidReqId ≤ s.lastValidReqId + 1 := by
      rw [UInt32.le_iff_toNat_le]
      have hne : (s.lastValidReqId + 1).toNat ≠ 0 := fun h0 =>
        hzero (hnext ▸ UInt32.toNat.inj h0)
      rw [UInt32.toNat_add] at hne ⊢
      have hlt := s.lastValidReqId.toNat_lt
      change (s.lastValidReqId.toNat + 1) % 2 ^ 32 ≠ 0 at hne
      change _ ≤ (s.lastValidReqId.toNat + 1) % 2 ^ 32
      omega
    -- as many strings as are needed come from at least as many backups
    have hack : Acknowledged { s with acknowledgers := insert msg.voter s.acknowledgers } := by
      refine ⟨hmode, Finset.insert_nonempty _ _, ?_⟩
      rw [← hall, hnames, ← Finset.image_insert]
      exact Finset.card_image_le
    refine ⟨⟨fun hp => (by cases hp), fun hp => (by cases hp), hnext ▸ hack.le_acked,
      fun _ => ?_, fun hnot => absurd htol hnot⟩,
      Or.inr ⟨_, hack.collected, hnext ▸ UInt32.le_refl _⟩⟩
    refine ⟨hin.nodup, hin.sized, hin.small, hin.threshold, fun hp => (by cases hp), fun _ => hnext,
      fun hp => (by cases hp), fun i hi => ?_⟩
    obtain rfl | hi := List.mem_cons.mp (hack.collected ▸ hi)
    · exact hnext ▸ UInt32.le_refl _
    · exact UInt32.le_trans (hin.behind i hi) hle

/-- A vote does not touch what the last valid id is compared with. -/
theorem countVote_valid {s t : Replica} (hmode : s.mode = .newPrimary)
    (h : s.countVote (msg, response) = some t) :
    t.activeServers = s.activeServers ∧ t.currReqId = s.currReqId ∧
      (t.mode = .newPrimary ∧ t.lastValidReqId = s.lastValidReqId ∨
        t.mode = .waitingForRequests ∧
          t.lastValidReqId = if Agreed t then s.currReqId else s.lastValidReqId) := by
  obtain ⟨-, rfl⟩ | ⟨-, el, hcount⟩ := Replica.countVote_cases h
  · exact ⟨rfl, rfl, Or.inl ⟨hmode, rfl⟩⟩
  · refine ⟨hcount.activeServers, hcount.currReqId, ?_⟩
    obtain ⟨-, hkeep, hvalid, -⟩ | ⟨-, hwait, hvalid⟩ := hcount.ends
    · exact Or.inl ⟨hkeep.trans hmode, hvalid⟩
    · have htally : t.tally = el := by
        rw [Replica.tally, hcount.election]
        rfl
      have hagree : Agreed t ↔ el.minReqId = el.maxReqId := by rw [Agreed, htally]
      refine Or.inr ⟨hwait, hvalid.trans ?_⟩
      simp only [hagree]

/-- A vote for the position of the new primary leaves the bounds where they are. -/
theorem countVote_bounds {s t : Replica} (h : s.countVote (msg, response) = some t)
    (hid : msg.lastReq.reqId = s.currReqId)
    (hel : ∀ el ∈ s.election, el.minReqId = s.currReqId ∧ el.maxReqId = s.currReqId) :
    t.tally.minReqId = s.currReqId ∧ t.tally.maxReqId = s.currReqId := by
  have htally : s.tally.minReqId = s.currReqId ∧ s.tally.maxReqId = s.currReqId := by
    rw [Replica.tally]
    cases hcases : s.election with
    | none => exact ⟨rfl, rfl⟩
    | some el => exact hel el hcases
  have hirrefl : ¬ s.currReqId < s.currReqId := UInt32.lt_irrefl _
  obtain ⟨-, rfl⟩ | ⟨hzero, -⟩ := Replica.countVote_cases h
  · exact htally
  · obtain ⟨-, -, ⟨hnone, -⟩ | ⟨-, hcase⟩⟩ := Replica.countVote_spec h
    · exact absurd hnone hzero
    · rw [htally.1, htally.2, hid] at hcase
      obtain ⟨hlt, -⟩ | ⟨hlt, -⟩ | ⟨-, hmin, hmax, -⟩ := hcase
      · exact absurd hlt hirrefl
      · exact absurd hlt hirrefl
      · exact ⟨hmin, hmax⟩

/-- A vote. -/
theorem Reigning.vote (h : s.Reigning) (hmode : s.mode = .newPrimary)
    (hC : s.Tolerant → msg.lastReq.reqId = s.currReqId ∨ s.lastValidReqId = s.currReqId)
    (hs : s.countVote msg response = some s') : s'.Reigning ∧ s'.collected = s.collected := by
  have hnone := h.first hmode
  obtain ⟨t, ht, rfl⟩ := countVote_eq hs
  obtain ⟨hactive, hcurr, hcase⟩ := countVote_valid hmode ht
  refine ⟨⟨fun hp => ?_, fun _ => hnone, ?_, fun htol => ?_, fun _ => ?_⟩, rfl⟩
  · obtain ⟨hkeep, -⟩ | ⟨hwait, -⟩ := hcase
    · exact absurd (hkeep.symm.trans hp) (by decide)
    · exact absurd (hwait.symm.trans hp) (by decide)
  · dsimp only
    obtain ⟨hkeep, hvalid⟩ | ⟨hwait, hvalid⟩ := hcase
    · rw [hkeep, hvalid, if_neg (by simp)]
      exact h.bounded
    · rw [hwait, hvalid, hcurr]
      by_cases hagree : Agreed t
      · rw [if_pos hagree, if_pos ⟨rfl, hagree⟩]
        exact UInt32.le_refl _
      · rw [if_neg hagree, if_neg fun hboth => hagree hboth.2]
        exact h.bounded
  · have hin := h.inStep htol
    have hvalid : s.lastValidReqId = s.currReqId ∨
        t.tally.minReqId = s.currReqId ∧ t.tally.maxReqId = s.currReqId := by
      obtain hid | hvalid := hC htol
      · exact (hin.election hmode).imp_right fun hel => countVote_bounds ht hid hel
      · exact Or.inl hvalid
    refine ⟨hactive ▸ hin.nodup, hactive ▸ hin.sized, hin.small, hin.threshold, fun hp => ?_,
      fun hp => ?_, fun hp => ?_, fun i hi => absurd (hnone ▸ hi) List.not_mem_nil⟩
    · obtain ⟨-, hkeep⟩ | ⟨hwait, -⟩ := hcase
      · dsimp only
        rw [hkeep, hcurr]
        refine hvalid.imp_right fun hb el hel => ?_
        have htally : t.tally = el := by
          rw [Replica.tally, Option.mem_def.mp hel]
          rfl
        exact htally ▸ hb
      · exact absurd (hwait.symm.trans hp) (by decide)
    · obtain ⟨hkeep, -⟩ | ⟨-, hcount⟩ := hcase
      · exact absurd (hkeep.symm.trans hp) (by decide)
      · dsimp only
        rw [hcount, hcurr]
        split_ifs with hagree
        · rfl
        · obtain hvalid | ⟨hmin, hmax⟩ := hvalid
          · exact hvalid
          · exact absurd (hmin.trans hmax.symm) hagree
    · obtain ⟨hkeep, -⟩ | ⟨hwait, -⟩ := hcase
      · exact absurd (hkeep.symm.trans hp) (by decide)
      · exact absurd (hwait.symm.trans hp) (by decide)
  · exact ⟨fun i hi => absurd (hnone ▸ hi) List.not_mem_nil, Or.inl hnone⟩

/-- A message, in the state in which it is handled. -/
theorem Reigning.message (h : s.Reigning) (htrack : s.Tracked)
    (hC : s.Orderly (.message first bm)) (hs : s.processBackupMessage bm = some s') :
    s'.Reigning ∧ Adds s s' := by
  obtain ⟨rfl, -⟩ | ⟨msg, response, rfl, ⟨hmode, hs⟩ | ⟨hmode, hs⟩⟩ := processBackupMessage_cases hs
  · exact ⟨h, Or.inl rfl⟩
  · obtain ⟨hkeep, hcoll⟩ := h.vote hmode (hC.1 hmode) hs
    exact ⟨hkeep, Or.inl hcoll⟩
  · exact h.ack hmode (htrack.names hmode) (hC.2 hmode) hs

/-- A request begins to be processed. -/
theorem Reigning.await (h : s.Reigning) (hmode : s.mode = .waitingForRequests)
    (L : RequestMessage) (R : Keyed UInt32 TcpRpcMsg) (D : List Deed) :
    (s.executed L R D).await.Reigning := by
  refine ⟨fun _ => ⟨rfl, Or.inl rfl⟩, fun hp => (by cases hp), h.bounded, fun ht => ?_,
    fun ht => ?_⟩
  · have hin := h.inStep ht
    refine ⟨hin.nodup, hin.sized, hin.small, fun _ => rfl, fun hp => (by cases hp),
      fun hp => (by cases hp), fun _ => ?_, hin.behind⟩
    exact congrArg (· + 1) (hin.waiting hmode)
  · have hspent := h.spent ht
    refine ⟨fun i hi => ?_, Or.inr rfl⟩
    obtain hnone | hacks := hspent.threshold
    · exact absurd (hnone ▸ hi) List.not_mem_nil
    · exact (hspent.released i hi).imp_right fun hzero => hacks.symm.trans hzero

/-- A `Responder` is released. -/
theorem Reigning.respond (h : s.Reigning) (hs : s.respond r = some s') :
    s'.Reigning ∧ s'.collected = s.collected := by
  obtain ⟨hr, x, -, ⟨hzero, rfl⟩ | ⟨-, rfl⟩⟩ := respond_cases hs
  · refine ⟨⟨fun hp => ⟨(h.pending hp).threshold, (h.pending hp).missing⟩, h.first, ?_,
      fun ht => ?_, fun ht => ?_⟩, rfl⟩
    · dsimp only
      split_ifs with hlt
      · exact UInt32.le_refl _
      · exact UInt32.not_lt.mp hlt
    · have hin := h.inStep ht
      have hacks := hin.threshold (List.ne_nil_of_mem hr)
      exact absurd (hacks.symm.trans hzero) (hin.threshold_ne_zero ht)
    · exact ⟨fun i hi => Or.inr hzero, (h.spent ht).threshold⟩
  · refine ⟨⟨fun hp => ⟨(h.pending hp).threshold, (h.pending hp).missing⟩, h.first, h.bounded,
      fun ht => ?_, fun ht => ?_⟩, rfl⟩
    · have hin := h.inStep ht
      exact ⟨hin.nodup, hin.sized, hin.small, fun _ => hin.threshold (List.ne_nil_of_mem hr),
        hin.election, hin.waiting, hin.processing, hin.behind⟩
    · exact ⟨(h.spent ht).released, (h.spent ht).threshold⟩

/-- **One event**: the primary keeps its invariant, and what is collected is valid. -/
theorem Reigning.step (h : s.Reigning) (htrack : s.Tracked) (hs : s.step e = some s')
    (hC : s.Orderly e) : s'.Reigning ∧ Adds s s' := by
  have hwake : s.wake.collected = s.collected := by rw [s.wake_frame]
  cases e with
  | failure failed =>
    obtain ⟨-, rfl⟩ := step_failure hs
    cases failed with
    | none => exact ⟨h.wake, Or.inl hwake⟩
    | some f =>
      have hun : s.wake.mode = .processingRequest → s.wake.Unfilled := by
        rw [s.wake_frame]
        exact hC.2
      refine ⟨h.wake.failure ?_ hun, Or.inl ?_⟩
      · rw [s.wake_frame]
        exact hC.1
      · rw [processFailure_eq hun]
        exact hwake
  | message first bm =>
    obtain ⟨t, s₁, p, ht, hs₁, rfl⟩ := step_message hs
    have ht' : t.Reigning ∧ t.Tracked ∧ t.collected = s.collected ∧
        t.Orderly (.message first bm) := by
      obtain ⟨-, rfl⟩ | ⟨-, -, rfl⟩ := ht
      · refine ⟨h.wake, htrack.wake, hwake, ?_⟩
        obtain ⟨-, heq⟩ | ⟨-, heq⟩ := s.wake_eq
        · rw [heq]
          cases bm with
          | vote msg response => exact ⟨fun hp => (by cases hp), fun hp => (by cases hp)⟩
          | primaryRequest => trivial
          | unknown => trivial
        · rw [heq]
          cases bm with
          | vote msg response =>
            exact ⟨hC.1, fun hp hnew => ⟨(hC.2 hp hnew).last, (hC.2 hp hnew).surplus,
              (hC.2 hp hnew).names⟩⟩
          | primaryRequest => trivial
          | unknown => trivial
      · exact ⟨h, htrack, rfl, hC⟩
    obtain ⟨hreign, htrack', hsame, hC'⟩ := ht'
    obtain ⟨hkeep, hadds⟩ := hreign.message htrack' hC' hs₁
    unfold Adds at hadds
    rw [hsame] at hadds
    exact ⟨hkeep.loop s₁.requestMap s₁.settling p s₁.ackers, hadds⟩
  | request m response =>
    obtain ⟨-, rfl⟩ | ⟨-, hs⟩ := step_request hs
    · exact ⟨h.wake, Or.inl hwake⟩
    · obtain ⟨hmode, ⟨-, rfl⟩ | ⟨-, L, R, D, ⟨-, rfl⟩ | ⟨hcached, rfl⟩⟩⟩ :=
        handleRequestAsPrimary_cases hs
      · exact ⟨h.wake, Or.inl hwake⟩
      · exact ⟨h.wake.await hmode L R D, Or.inl hwake⟩
      · have ht : ¬ s.wake.Tolerant := by
          intro ht
          rw [s.wake_frame] at hcached ht
          exact hC hmode ht hcached
        refine ⟨⟨fun hp => absurd (hmode.symm.trans hp) (by decide),
          fun hp => absurd (hmode.symm.trans hp) (by decide), h.wake.bounded,
          fun ht' => absurd ht' ht, fun _ => ?_⟩, Or.inl hwake⟩
        exact ⟨(h.wake.spent ht).released, (h.wake.spent ht).threshold⟩
  | cached response =>
    obtain ⟨-, hmode, hs⟩ := step_cached hs
    obtain ⟨L, R, D, id, rfl⟩ := runFromRequestCache_cases hs
    exact ⟨(h.await hmode L R D).loop _ _ _ _, Or.inl rfl⟩
  | respond r =>
    obtain ⟨hkeep, hcoll⟩ := h.respond hs
    exact ⟨hkeep, Or.inl hcoll⟩

/-- A new primary of four servers that survive two failures. -/
def regent : Server :=
  { candidate with
    activeServers := [serverOn "a", serverOn "b", serverOn "c", serverOn "d"]
    failures := 2 }

/-- The server on `b` acknowledges the request and the one on `c` fails, so that one acknowledgement
is enough; that of `d` is one too many. -/
def overfull : List Event :=
  [voteOf "b", voteOf "c", voteOf "d", requestOf 8 200, ackOf "b" 2 8 200,
    .failure (some (serverOn "c")), ackOf "d" 2 8 200]

/-- Neither the failure nor the acknowledgement after it releases the request. -/
theorem not_releases_overfull : ¬ Run.Along step (fun s _ s' => Releases s s') regent overfull ∧
    ∃ s, overfull.foldlM step regent = some s ∧ s.mode = .processingRequest ∧ s.Waits 2 ∧
      s.acknowledgers = {serverOn "b", serverOn "d"} ∧ s.acksNeeded = 1 := by
  refine ⟨fun h => ?_, _, rfl, rfl, by decide, by decide, rfl⟩
  have hlast := Run.along_iff_run.mp h
    [voteOf "b", voteOf "c", voteOf "d", requestOf 8 200, ackOf "b" 2 8 200]
    (.failure (some (serverOn "c"))) ⟨[ackOf "d" 2 8 200], rfl⟩ _ _ rfl rfl
  exact absurd (hlast.enough 2 rfl) (by decide)

end Falcon.Diomedes.Server
