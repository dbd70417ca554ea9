import Falcon.Diomedes.Reigns

/-!
# Diomedes/Durability — what a response stands for

A `Responder` answers its client when enough backups have acknowledged the request, or when no
failure can follow any more.  A backup that has acknowledged a request may have stopped, and an
acknowledgement can come from one that is taken for failed; the primary does not look.

* `durability` — if it does not come to that, and each failure is reported once, then as long as no
  more than `failures_` servers have stopped, whoever is the primary has run the requests that have
  been answered.
-/

namespace Falcon.Diomedes

namespace Server

variable {s s' : Server} {e : Event} {msg : VoteMessage} {response : Option TcpRpcMsg}
  {r : Responder} {id w : DiomedesId} {n f : ℕ} {A : Finset DiomedesId}

/-- Each failure is reported once, and not of a backup that has acknowledged the request that is
processed; and only active servers acknowledge it. -/
def Careful (s : Server) : Event → Prop
  | .failure (some failed) => failed ∈ s.activeServers ∧
      (s.wake.mode = .processingRequest → failed ∉ s.acknowledgers)
  | .message first (.vote msg _) => (if first then s.wake else s).mode = .processingRequest →
      msg.voter ∈ s.activeServers
  | _ => True

instance (s : Server) (e : Event) : Decidable (s.Careful e) :=
  Event.decidable (isTrue trivial) (fun _ => inferInstanceAs (Decidable (_ ∧ _)))
    (fun _ _ _ => inferInstanceAs (Decidable (_ → _))) (fun _ => isTrue trivial)
    (fun _ => isTrue trivial) (fun _ _ => isTrue trivial) (fun _ => isTrue trivial)
    (fun _ => isTrue trivial) e

/-- The acknowledgements of a request that is processed. -/
structure Awaits (f : ℕ) (s : Server) : Prop where
  behind : s.failuresObserved.toNat < f → s.lastValidReqId < s.currReqId
  names : s.ackers = s.acknowledgers.image DiomedesId.name
  active : ∀ w ∈ s.acknowledgers, w ∈ s.activeServers ∧ w ≠ s.self

/-- **The books of a server** in a group of `n` that can take `f` failures. -/
structure Owing (n f : ℕ) (s : Server) : Prop where
  self_mem : s.self ∈ s.activeServers
  nodup : s.activeServers.Nodup
  failures : s.failures = f
  observed : s.failuresObserved.toNat + s.activeServers.length = n
  valid : s.lastValidReqId ≤ s.currReqId
  first : s.mode = .backup ∨ s.mode = .newPrimary → s.responders = []
  responders : ∀ r ∈ s.responders, r.reqId ≤ s.currReqId
  threshold : s.mode = .processingRequest ∨ s.responders ≠ [] → s.acksNeeded = s.threshold
  processing : s.mode = .processingRequest → s.Awaits f

/-- The servers in `A` and the failures that have been observed are enough. -/
structure Enough (f : ℕ) (s : Server) (A : Finset DiomedesId) : Prop where
  active : ∀ w ∈ A, w ∈ s.activeServers ∧ w ≠ s.self
  card : f ≤ s.failuresObserved.toNat + A.card

/-- A backup that has acknowledged the request that is processed, or does so now. -/
def Acked (s : Server) (e : Event) (w : DiomedesId) : Prop :=
  w ∈ s.acknowledgers ∧ s.mode = .processingRequest ∨ ∃ first msg response,
    e = .message first (.vote msg response) ∧ w = msg.voter ∧
      ¬ msg.lastReq.reqId < s.currReqId

/-- There are few servers. -/
theorem Owing.observed_lt (h : s.Owing n f) (hn : n < 2 ^ 32) :
    s.failuresObserved.toNat + s.activeServers.length < 2 ^ 32 := h.observed ▸ hn

theorem Owing.threshold_toNat (h : s.Owing n f) :
    (s.threshold.toNat : ℤ) = ((f : ℤ) - s.failuresObserved.toNat) % 2 ^ 32 := by
  rw [Server.threshold, h.failures, UInt32.ofInt, UInt32.toNat_ofNat']
  omega

/-- No acknowledgements are needed once all failures have been observed. -/
theorem Owing.enough_of_zero (h : s.Owing n f) (hf : f < n) (hn : n < 2 ^ 32)
    (hr : s.responders ≠ []) (hzero : s.acksNeeded = 0) : s.Enough f ∅ := by
  have hthreshold := h.threshold_toNat
  rw [← h.threshold (Or.inr hr), hzero] at hthreshold
  have hlt := h.observed_lt hn
  refine ⟨fun w hw => absurd hw (Finset.notMem_empty w), ?_⟩
  rw [Finset.card_empty]
  change ((0 : ℕ) : ℤ) = _ at hthreshold
  omega

/-- The last acknowledgement that is needed. -/
theorem Owing.enough_of_acks (h : s.Owing n f) (hf : f < n) (hn : n < 2 ^ 32)
    (hmode : s.mode = .processingRequest) (hvoter : msg.voter ∈ s.activeServers)
    (hself : msg.voter ≠ s.self)
    (hall : (insert msg.voter.name s.ackers).card = s.acksNeeded.toNat) :
    s.Enough f (insert msg.voter s.acknowledgers) ∧ s.failuresObserved.toNat < f := by
  obtain ⟨-, hnames, hactive⟩ := h.processing hmode
  have hthreshold := h.threshold_toNat
  rw [← h.threshold (Or.inl hmode), ← hall, hnames, ← Finset.image_insert] at hthreshold
  have hsub : ∀ w ∈ insert msg.voter s.acknowledgers, w ∈ s.activeServers ∧ w ≠ s.self := by
    intro w hw
    obtain rfl | hw := Finset.mem_insert.mp hw
    · exact ⟨hvoter, hself⟩
    · exact hactive w hw
  have hcard : (insert msg.voter s.acknowledgers).card ≤ s.activeServers.length := by
    rw [← List.toFinset_card_of_nodup h.nodup]
    exact Finset.card_le_card fun w hw => List.mem_toFinset.mpr (hsub w hw).1
  have himage : ((insert msg.voter s.acknowledgers).image DiomedesId.name).card ≤
    (insert msg.voter s.acknowledgers).card := Finset.card_image_le
  have hpos : 0 < ((insert msg.voter s.acknowledgers).image DiomedesId.name).card :=
    Finset.card_pos.mpr ((Finset.insert_nonempty _ _).image _)
  have hlt := h.observed_lt hn
  have hneed : f = s.failuresObserved.toNat +
      ((insert msg.voter s.acknowledgers).image DiomedesId.name).card := by omega
  exact ⟨⟨hsub, by omega⟩, by omega⟩

/-- A `Responder` is released. -/
theorem respond_released (h : s.respond r = some s') :
    r ∈ s.responders ∧ (r.reqId ≤ s.lastValidReqId ∨ s.acksNeeded = 0) := by
  unfold respond at h
  split_ifs at h with hr
  refine ⟨hr.1, ?_⟩
  by_cases hzero : s.acksNeeded = 0
  · exact Or.inr hzero
  · exact Or.inl (UInt32.not_lt.mp fun hlt => hr.2 ⟨hlt, hzero⟩)

/-- **What a released `Responder` has waited for.** -/
theorem Owing.released (h : s.Owing n f) (hf : f < n) (hn : n < 2 ^ 32)
    (hr : s.respond r = some s') :
    r ∈ s.responders ∧ (r.reqId ≤ s.lastValidReqId ∨ s.Enough f ∅) := by
  obtain ⟨hmem, hvalid | hzero⟩ := respond_released hr
  · exact ⟨hmem, Or.inl hvalid⟩
  · exact ⟨hmem, Or.inr (h.enough_of_zero hf hn (List.ne_nil_of_mem hmem) hzero)⟩

/-! ## What an event does to the books -/

/-- What the books are about. -/
theorem Owing.frame (h : s.Owing n f) (hself : s'.self = s.self)
    (hactive : s'.activeServers = s.activeServers) (hfailures : s'.failures = s.failures)
    (hobs : s'.failuresObserved = s.failuresObserved) (hacks : s'.acksNeeded = s.acksNeeded)
    (hcurr : s.currReqId ≤ s'.currReqId) (hvalid : s'.lastValidReqId ≤ s'.currReqId)
    (hmode : s'.mode = .newPrimary → s.mode = .newPrimary) (hbackup : s'.mode ≠ .backup)
    (hresponders : ∀ r ∈ s'.responders, r ∈ s.responders)
    (hproc : s'.mode = .processingRequest → s.mode = .processingRequest ∧ s'.Awaits f) :
    s'.Owing n f where
  self_mem := by rw [hself, hactive]; exact h.self_mem
  nodup := hactive ▸ h.nodup
  failures := hfailures.trans h.failures
  observed := by rw [hobs, hactive, h.observed]
  valid := hvalid
  first hnew := by
    refine List.eq_nil_iff_forall_not_mem.mpr fun r hr => ?_
    have hr' := hresponders r hr
    rw [h.first (Or.inr (hmode (hnew.resolve_left hbackup)))] at hr'
    cases hr'
  responders r hr := UInt32.le_trans (h.responders r (hresponders r hr)) hcurr
  threshold hor := by
    rw [hacks, Server.threshold, hfailures, hobs, ← Server.threshold]
    refine h.threshold (hor.imp (fun hp => (hproc hp).1) fun hne hnil => hne ?_)
    refine List.eq_nil_iff_forall_not_mem.mpr fun r hr => ?_
    have hr' := hresponders r hr
    rw [hnil] at hr'
    cases hr'
  processing hp := (hproc hp).2

/-- The loop has no part in it. -/
theorem Owing.loop (h : s.Owing n f) (p : Bool) : Owing n f { s with pulling := p } :=
  ⟨h.self_mem, h.nodup, h.failures, h.observed, h.valid, h.first, h.responders, h.threshold,
    fun hp => ⟨(h.processing hp).behind, (h.processing hp).names, (h.processing hp).active⟩⟩

/-- A failure that is reported once. -/
theorem Owing.failure (h : s.Owing n f) (hn : n < 2 ^ 32) (hw : w ∈ s.activeServers)
    (hself : w ≠ s.self) (hack : s.mode = .processingRequest → w ∉ s.acknowledgers) :
    (s.processFailure (some w)).Owing n f := by
  have hlength : (s.activeServers.filter (· ≠ w)).length = s.activeServers.length - 1 := by
    rw [← List.length_erase_of_mem hw, h.nodup.erase_eq_filter]
    refine congrArg List.length (List.filter_congr fun v _ => ?_)
    rw [bne, beq_eq_decide, decide_not]
  have hlt := h.observed_lt hn
  have hpos := List.length_pos_of_mem hw
  have hobs : (s.failuresObserved + 1).toNat = s.failuresObserved.toNat + 1 := by
    rw [UInt32.toNat_add]
    change (s.failuresObserved.toNat + 1) % 2 ^ 32 = _
    omega
  have hobserved := h.observed
  exact
    { self_mem := List.mem_filter.mpr ⟨h.self_mem, decide_eq_true hself.symm⟩
      nodup := h.nodup.filter _
      failures := h.failures
      observed := by
        change (s.failuresObserved + 1).toNat + (s.activeServers.filter (· ≠ w)).length = n
        omega
      valid := h.valid
      first := h.first
      responders := h.responders
      threshold := fun _ => rfl
      processing := fun hp => by
        obtain ⟨hbehind, hnames, hactive⟩ := h.processing hp
        refine ⟨fun hlt => hbehind ?_, hnames, fun v hv => ⟨List.mem_filter.mpr
          ⟨(hactive v hv).1, decide_eq_true fun heq => hack hp (heq ▸ hv)⟩, (hactive v hv).2⟩⟩
        change (s.failuresObserved + 1).toNat < f at hlt
        omega }

/-- A request is executed, and then it is processed or has been answered. -/
theorem Owing.executed (h : s.Owing n f) (hmode : s.mode = .waitingForRequests)
    (hne : s.currReqId + 1 ≠ 0) (L : RequestMessage) (R : Keyed UInt32 TcpRpcMsg)
    (D : List Deed) (M : Keyed UInt32 RequestMessage) (b p : Bool) :
    (s.executed L R D).Owing n f ∧ Owing n f { (s.executed L R D).await with
      requestMap := M
      settling := b
      pulling := p } := by
  have hnext := Replica.toNat_succ hne
  have hvalid := UInt32.le_iff_toNat_le.mp h.valid
  have hlt : s.lastValidReqId < s.currReqId + 1 := by
    rw [UInt32.lt_iff_toNat_lt]
    omega
  have hle : s.currReqId ≤ s.currReqId + 1 := by
    rw [UInt32.le_iff_toNat_le]
    omega
  have hexec : (s.executed L R D).Owing n f := by
    refine h.frame rfl rfl rfl rfl rfl hle (UInt32.le_of_lt hlt) (fun hm => hm) ?_ (fun _ hr => hr)
      fun hp => absurd (hmode.symm.trans hp) (by decide)
    change s.mode ≠ .backup
    rw [hmode]
    decide
  refine ⟨hexec, ?_⟩
  exact
    { self_mem := h.self_mem
      nodup := h.nodup
      failures := h.failures
      observed := h.observed
      valid := hexec.valid
      first := fun hor => by obtain hm | hm := hor <;> cases hm
      responders := fun r hr => by
        obtain rfl | hr := List.mem_cons.mp hr
        · exact UInt32.le_refl _
        · exact hexec.responders r hr
      threshold := fun _ => rfl
      processing := fun _ => ⟨fun _ => hlt, rfl, fun w hw => absurd hw (Finset.notMem_empty w)⟩ }

theorem Owing.vote (h : s.Owing n f) (hmode : s.mode = .newPrimary)
    (hs : s.countVote msg response = some s') : s'.Owing n f ∧ s'.responders = [] := by
  have hnew := countVote_mode hmode hs
  obtain ⟨r, hr, rfl⟩ := countVote_eq hs
  have hnil := h.first (Or.inr hmode)
  have hr' : r.activeServers = s.activeServers ∧ r.currReqId = s.currReqId ∧
      r.lastValidReqId ≤ r.currReqId := by
    obtain ⟨-, rfl⟩ | ⟨-, el, hcount⟩ := Replica.countVote_cases hr
    · exact ⟨rfl, rfl, h.valid⟩
    · refine ⟨hcount.activeServers, hcount.currReqId, ?_⟩
      rw [hcount.currReqId]
      obtain ⟨-, -, hvalid, -⟩ | ⟨-, -, hvalid⟩ := hcount.ends
      · exact hvalid ▸ h.valid
      · rw [hvalid]
        split_ifs
        · exact UInt32.le_refl _
        · exact h.valid
  refine ⟨h.frame rfl hr'.1 rfl rfl rfl (hr'.2.1 ▸ UInt32.le_refl _) hr'.2.2 (fun _ => hmode) ?_
    (fun _ hr => hr) (fun hproc => ?_), hnil⟩
  · obtain hnew | hwait := hnew
    · rw [hnew]
      decide
    · rw [hwait]
      decide
  · obtain hnew | hwait := hnew
    · exact absurd (hnew.symm.trans hproc) (by decide)
    · exact absurd (hwait.symm.trans hproc) (by decide)

/-- An acknowledgement of an active server. -/
theorem Owing.ack (h : s.Owing n f) (hf : f < n) (hn : n < 2 ^ 32)
    (hmode : s.mode = .processingRequest) (hvoter : msg.voter ∈ s.activeServers)
    (hself : msg.voter ≠ s.self) (hs : s.addToAckers msg = some s') :
    s'.Owing n f ∧ s'.responders = s.responders ∧ s'.deeds = s.deeds ∧
      (∀ w ∈ s'.acknowledgers, w ∈ s.acknowledgers ∨
        w = msg.voter ∧ ¬ msg.lastReq.reqId < s.currReqId) ∧
      (s'.lastValidReqId = s.lastValidReqId ∨ ¬ msg.lastReq.reqId < s.currReqId ∧
        s.Enough f (insert msg.voter s.acknowledgers)) := by
  obtain ⟨hbehind, hnames, hactive⟩ := h.processing hmode
  have hne : s.mode ≠ .backup := by
    rw [hmode]
    decide
  obtain ⟨-, rfl⟩ | ⟨hnew, C, a, ⟨-, rfl⟩ | ⟨hall, rfl⟩⟩ := addToAckers_cases hs
  · exact ⟨h, rfl, rfl, fun _ => Or.inl, Or.inl rfl⟩
  · refine ⟨h.frame rfl rfl rfl rfl rfl (UInt32.le_refl _) h.valid (fun hm => hm) hne
      (fun _ hr => hr) fun _ => ⟨hmode, hbehind, ?_, fun w hw => ?_⟩, rfl, rfl, fun w hw => ?_,
      Or.inl rfl⟩
    · dsimp only
      rw [hnames, Finset.image_insert]
    · obtain rfl | hw := Finset.mem_insert.mp hw
      · exact ⟨hvoter, hself⟩
      · exact hactive w hw
    · obtain rfl | hw := Finset.mem_insert.mp hw
      · exact Or.inr ⟨rfl, hnew⟩
      · exact Or.inl hw
  · obtain ⟨henough, hlt⟩ := h.enough_of_acks hf hn hmode hvoter hself hall
    have hvalid := UInt32.lt_iff_toNat_lt.mp (hbehind hlt)
    have hcurr := s.currReqId.toNat_lt
    have hle : s.lastValidReqId + 1 ≤ s.currReqId := by
      rw [UInt32.le_iff_toNat_le, UInt32.toNat_add]
      change (s.lastValidReqId.toNat + 1) % 2 ^ 32 ≤ _
      omega
    refine ⟨h.frame rfl rfl rfl rfl rfl (UInt32.le_refl _) hle (fun hm => by cases hm) (by simp)
      (fun _ hr => hr) (fun hp => by cases hp), rfl, rfl, fun w hw => ?_, Or.inr ⟨hnew, henough⟩⟩
    obtain rfl | hw := Finset.mem_insert.mp hw
    · exact Or.inr ⟨rfl, hnew⟩
    · exact Or.inl hw

/-- A response is sent. -/
theorem Owing.respond (h : s.Owing n f) (hf : f < n) (hn : n < 2 ^ 32)
    (hne : s.mode ≠ .backup) (hs : s.respond r = some s') : s'.Owing n f ∧
      (∀ r' ∈ s'.responders, r' ∈ s.responders) ∧ s'.mode = s.mode ∧
      s'.acknowledgers = s.acknowledgers ∧
      (s'.lastValidReqId = s.lastValidReqId ∨ s.Enough f ∅) := by
  obtain ⟨hr, x, -, ⟨hzero, rfl⟩ | ⟨-, rfl⟩⟩ := respond_cases hs
  · have henough := h.enough_of_zero hf hn (List.ne_nil_of_mem hr) hzero
    refine ⟨h.frame rfl rfl rfl rfl rfl (UInt32.le_refl _) (h.responders r hr) (fun hm => hm) hne
      (fun _ => List.mem_of_mem_erase) fun hp => ⟨hp, fun hlt => ?_, (h.processing hp).names,
      (h.processing hp).active⟩, fun _ => List.mem_of_mem_erase, rfl, rfl, Or.inr henough⟩
    have hcard := henough.card
    rw [Finset.card_empty] at hcard
    change s.failuresObserved.toNat < f at hlt
    omega
  · refine ⟨h.frame rfl rfl rfl rfl rfl (UInt32.le_refl _) h.valid (fun hm => hm) hne
      (fun _ => List.mem_of_mem_erase) fun hp => ⟨hp, (h.processing hp).behind,
      (h.processing hp).names, (h.processing hp).active⟩, fun _ => List.mem_of_mem_erase, rfl, rfl,
      Or.inl rfl⟩

theorem Owing.awake (h : s.Owing n f) (e : Event) : (s.awake e).Owing n f := by
  obtain ⟨p, heq⟩ | ⟨-, heq⟩ := s.awake_cases e
  · rw [heq]
    exact h.loop p
  · rw [heq]
    exact h.frame rfl rfl rfl rfl rfl (UInt32.le_refl _) h.valid (fun hm => by cases hm) (by simp)
      (fun _ hr => hr) fun hp => by cases hp

/-- **What becomes valid has been acknowledged**, and the acknowledgements are for what has been
run. -/
structure Paid (f : ℕ) (s : Server) (e : Event) (s' : Server) : Prop where
  responders : ∀ r ∈ s'.responders, r.reqId ≤ s'.lastValidReqId → r ∈ s.responders ∧
    (r.reqId ≤ s.lastValidReqId ∨ ∃ A, s.Enough f A ∧ ∀ w ∈ A, s.Acked e w)
  acks : s'.mode = .processingRequest → ∀ w ∈ s'.acknowledgers, s.Acked e w ∧ s'.log = s.log

/-- Nothing becomes valid. -/
theorem Paid.of_eq (hresponders : ∀ r ∈ s'.responders, r ∈ s.responders)
    (hvalid : s'.lastValidReqId = s.lastValidReqId)
    (hacks : s'.mode = .processingRequest → s.mode = .processingRequest ∧
      s'.acknowledgers = s.acknowledgers ∧ s'.log = s.log) : Paid f s e s' where
  responders r hr hle := ⟨hresponders r hr, Or.inl (hvalid ▸ hle)⟩
  acks hproc w hw := by
    obtain ⟨hmode, hack, hlog⟩ := hacks hproc
    exact ⟨Or.inl ⟨hack ▸ hw, hmode⟩, hlog⟩

/-- A request that has just been executed is not valid. -/
theorem Paid.executed (h : s.Owing n f) (hne : s.currReqId + 1 ≠ 0) (L : RequestMessage)
    (R : Keyed UInt32 TcpRpcMsg) (D : List Deed) (M : Keyed UInt32 RequestMessage) (b p : Bool) :
    Paid f s e { (s.executed L R D).await with
      requestMap := M
      settling := b
      pulling := p } where
  responders r hr hle := by
    obtain rfl | hr := List.mem_cons.mp hr
    · have hvalid := UInt32.le_iff_toNat_le.mp h.valid
      have hle' : s.currReqId + 1 ≤ s.lastValidReqId := hle
      rw [UInt32.le_iff_toNat_le, Replica.toNat_succ hne] at hle'
      omega
    · exact ⟨hr, Or.inl hle⟩
  acks _ w hw := absurd hw (Finset.notMem_empty w)

theorem Owing.handles (h : s.Owing n f) (hf : f < n) (hn : n < 2 ^ 32) (hne : s.mode ≠ .backup)
    (hfailed : ∀ w, e = .failure (some w) → w ∈ s.activeServers ∧ w ≠ s.self ∧
      (s.mode = .processingRequest → w ∉ s.acknowledgers))
    (hack : ∀ first msg response, e = .message first (.vote msg response) →
      s.mode = .processingRequest → msg.voter ∈ s.activeServers ∧ msg.voter ≠ s.self)
    (hnext : ((∃ m response, e = .request m response) ∨ ∃ response, e = .cached response) →
      s.currReqId + 1 ≠ 0)
    (hs : Handles s e s') : s'.Owing n f ∧ Paid f s e s' := by
  cases hs with
  | idle e p =>
    exact ⟨h.loop p, .of_eq (fun _ hr => hr) rfl fun hp => ⟨hp, rfl, rfl⟩⟩
  | failure w =>
    obtain ⟨hw, hself, hacks⟩ := hfailed w rfl
    exact ⟨h.failure hn hw hself hacks, .of_eq (fun _ hr => hr) rfl fun hp => ⟨hp, rfl, rfl⟩⟩
  | vote first msg response s₁ p hmode hs =>
    obtain ⟨howing, hnil⟩ := h.vote hmode hs
    refine ⟨howing.loop p, fun r hr => ?_, fun hproc => ?_⟩
    · exact absurd (hnil ▸ hr) List.not_mem_nil
    · obtain hnew | hwait := countVote_mode hmode hs
      · exact absurd (hnew.symm.trans hproc) (by decide)
      · exact absurd (hwait.symm.trans hproc) (by decide)
  | ack first msg response s₁ p hmode hs =>
    obtain ⟨hvoter, hself⟩ := hack first msg response rfl hmode
    obtain ⟨howing, hresponders, hdeeds, hacks, hvalid⟩ := h.ack hf hn hmode hvoter hself hs
    have hacked : ∀ w, w ∈ s.acknowledgers ∨ w = msg.voter ∧ ¬ msg.lastReq.reqId < s.currReqId →
        s.Acked (.message first (.vote msg response)) w := by
      rintro w (hw | ⟨rfl, hnew⟩)
      · exact Or.inl ⟨hw, hmode⟩
      · exact Or.inr ⟨first, msg, response, rfl, rfl, hnew⟩
    refine ⟨howing.loop p, fun r hr hle => ⟨hresponders ▸ hr, ?_⟩,
      fun _ w hw => ⟨hacked w (hacks w hw), ?_⟩⟩
    · obtain hsame | ⟨hnew, henough⟩ := hvalid
      · exact Or.inl (hsame ▸ hle)
      · refine Or.inr ⟨_, henough, fun w hw => hacked w ?_⟩
        obtain rfl | hw := Finset.mem_insert.mp hw
        · exact Or.inr ⟨rfl, hnew⟩
        · exact Or.inl hw
    · change Replica.log s₁.toReplica = _
      rw [Replica.log, hdeeds, Replica.log]
  | request m response s' hmode hs =>
    have hne' := hnext (Or.inl ⟨m, response, rfl⟩)
    obtain ⟨-, ⟨-, rfl⟩ | ⟨-, L, R, D, ⟨-, rfl⟩ | ⟨-, rfl⟩⟩⟩ := handleRequestAsPrimary_cases hs
    · exact ⟨h, .of_eq (fun _ hr => hr) rfl fun hp => ⟨hp, rfl, rfl⟩⟩
    · exact ⟨(h.executed hmode hne' L R D s.requestMap s.settling s.pulling).2,
        .executed h hne' L R D s.requestMap s.settling s.pulling⟩
    · refine ⟨(h.executed hmode hne' L R D s.requestMap s.settling s.pulling).1,
        .of_eq (fun _ hr => hr) rfl fun hp => ?_⟩
      exact absurd (hmode.symm.trans hp) (by decide)
  | cached response s' hmode hs =>
    have hne' := hnext (Or.inr ⟨response, rfl⟩)
    obtain ⟨L, R, D, id, rfl⟩ := runFromRequestCache_cases hs
    exact ⟨(h.executed hmode hne' L R D _ _ _).2, .executed h hne' L R D _ _ _⟩
  | respond r s' hs =>
    obtain ⟨howing, hresponders, hmode, hacks, hvalid⟩ := h.respond hf hn hne hs
    refine ⟨howing, fun r' hr' hle => ⟨hresponders r' hr', ?_⟩,
      fun hproc w hw => ⟨Or.inl ⟨hacks ▸ hw, hmode ▸ hproc⟩, ?_⟩⟩
    · obtain hsame | henough := hvalid
      · exact Or.inl (hsame ▸ hle)
      · exact Or.inr ⟨∅, henough, fun w hw => absurd hw (Finset.notMem_empty w)⟩
    · obtain ⟨-, x, -, ⟨-, rfl⟩ | ⟨-, rfl⟩⟩ := respond_cases hs
      · rfl
      · rfl

end Server

/-- A backup owes nothing. -/
theorem Backup.Acts.owing {host : Host} {s s' : Backup} {e : Backup.Event} {n f : ℕ}
    (h : s.toServer.Owing n f) (hmode : s.mode = .backup) (hn : n < 2 ^ 32)
    (hfailed : ∀ w, e = .failure (some w) → w ∈ s.activeServers ∧ w ≠ s.self)
    (hnack : ∀ source bytes response, e = .datagram source bytes response →
      (Buffer.receive bytes).msg.type ≠ nackType)
    (hs : Backup.Acts host s e s') : s'.toServer.Owing n f ∧ s'.responders = [] := by
  have hnil := h.first (Or.inl hmode)
  have hkeep : ∀ {t : Server}, t.self = s.self → t.activeServers = s.activeServers →
      t.failures = s.failures → t.failuresObserved = s.failuresObserved →
      t.lastValidReqId ≤ t.currReqId → t.mode ≠ .processingRequest → t.responders = s.responders →
      t.Owing n f ∧ t.responders = [] := by
    intro t hself hactive hfailures hobs hvalid hproc hresponders
    rw [hnil] at hresponders
    exact ⟨
      { self_mem := by rw [hself, hactive]; exact h.self_mem
        nodup := hactive ▸ h.nodup
        failures := hfailures.trans h.failures
        observed := by rw [hobs, hactive, h.observed]
        valid := hvalid
        first := fun _ => hresponders
        responders := fun r hr => absurd (hresponders ▸ hr) List.not_mem_nil
        threshold := fun hor =>
          hor.elim (fun hp => absurd hp hproc) fun hne => absurd hresponders hne
        processing := fun hp => absurd hp hproc }, hresponders⟩
  have hbackup : s.mode ≠ .processingRequest := by
    rw [hmode]
    decide
  cases hs with
  | store e he M C p hp => exact hkeep rfl rfl rfl rfl h.valid hbackup rfl
  | failure failed =>
    cases failed with
    | none => exact hkeep rfl rfl rfl rfl h.valid hbackup rfl
    | some w =>
      obtain ⟨hw, hself⟩ := hfailed w rfl
      exact ⟨h.failure hn hw hself fun hp => absurd hp hbackup, hnil⟩
  | join e he => exact hkeep rfl rfl rfl rfl h.valid hbackup rfl
  | nack source bytes response s' htype => exact absurd htype (hnack source bytes response rfl)
  | poll e he p hp => exact hkeep rfl rfl rfl rfl h.valid hbackup rfl
  | follow p addr hselect haddr => exact hkeep rfl rfl rfl rfl h.valid hbackup rfl
  | stand p addr hselect haddr hself => exact hkeep rfl rfl rfl rfl h.valid (by simp) rfl
  | take source bytes response R hsource htype hreqId hne hserves =>
    refine hkeep rfl rfl rfl rfl ?_ hbackup rfl
    rw [UInt32.le_iff_toNat_le]
    change s.currReqId.toNat ≤ (s.currReqId + 1).toNat
    rw [Replica.toNat_succ hne]
    exact Nat.le_succ _

namespace DiomedesGroup

open Server (serverOn)

variable {host : Host} {g g' g₁ g₂ : DiomedesGroup} {id x y : DiomedesId} {e : Event}
  {es pre post : List Event} {s : Backup} {t : Server} {be : Backup.Event}
  {pe : Diomedes.Event} {f : ℕ} {r : Responder} {A : Finset DiomedesId}

/-- Each failure is reported once, and the acknowledgements that are counted are those of servers
that are not taken for failed. -/
def Careful (g : DiomedesGroup) : Event → Prop
  | .backup id (.failure (some failed)) => failed ∈ (g.servers id).activeServers
  | .primary id e => (g.servers id).toServer.Careful e
  | _ => True

instance (g : DiomedesGroup) (e : Event) : Decidable (g.Careful e) :=
  match e with
  | .primary _ _ => inferInstanceAs (Decidable (Server.Careful _ _))
  | .backup _ (.failure (some _)) => inferInstanceAs (Decidable (_ ∈ _))
  | .backup _ (.failure none) => isTrue trivial
  | .backup _ .elect => isTrue trivial
  | .backup _ (.datagram _ _ _) => isTrue trivial
  | .backup _ (.drained _) => isTrue trivial
  | .backup _ (.request _ _) => isTrue trivial
  | .backup _ .poll => isTrue trivial
  | .stop _ => isTrue trivial

/-- What `failures_ + 1` servers have run, or they have stopped. -/
abbrev Kept (f : ℕ) (g : DiomedesGroup) (l : List PrimaryRequest) : Prop :=
  Succession.Kept g.memberSet g.succession (f + 1) l

/-- What has become of the requests of one server. -/
structure Pays (f : ℕ) (g : DiomedesGroup) (s : Backup) : Prop where
  owing : s.toServer.Owing g.members.length f
  valid : ∀ r ∈ s.responders, r.reqId ≤ s.lastValidReqId → g.Kept f (s.log.take r.reqId.toNat)
  acked : s.mode = .processingRequest →
    ∀ w ∈ s.acknowledgers, w ∈ g.down ∨ s.log <+: (g.servers w).log
  sent : ∀ msg addr, .vote msg addr ∈ s.sent → msg.lastReq.reqId ≤ s.currReqId

/-- **The invariant of a group whose answers are durable.** -/
structure Paying (host : Host) (f : ℕ) (g : DiomedesGroup) : Prop extends Reigning host g where
  size : f < g.members.length ∧ g.members.length < 2 ^ 32
  pays : ∀ id ∈ g.members, g.Pays f (g.servers id)

/-- A group that can take `f` failures. -/
structure Redundant (g : DiomedesGroup) (f : ℕ) : Prop where
  size : f < g.members.length ∧ g.members.length < 2 ^ 32
  failures : ∀ id ∈ g.members, (g.servers id).failures = f

theorem Founded.paying (h : Founded host g) (hf : g.Redundant f) : Paying host f g where
  toReigning := h.reigning
  size := hf.size
  pays id hid := by
    have hfailures := hf.failures id hid
    obtain ⟨s, hs, heq⟩ := h.joined id hid
    have hseated := h.ranked.seated id hid
    rw [heq] at hseated hfailures ⊢
    refine ⟨?_, fun r hr => ?_, fun hmode => ?_, fun msg addr hmem => ?_⟩
    · exact
        { self_mem := by
            rw [hseated.self]
            exact hseated.self_mem
          nodup := hseated.nodup
          failures := hfailures
          observed := by
            change s.failuresObserved.toNat + s.activeServers.length = _
            rw [hs.failuresObserved, hs.activeServers.length_eq]
            exact Nat.zero_add _
          valid := UInt32.le_refl _
          first := fun _ => hs.responders
          responders := fun r hr => absurd (hs.responders ▸ hr) List.not_mem_nil
          threshold := fun hor =>
            hor.elim (fun hp => by cases hp) fun hne => absurd hs.responders hne
          processing := fun hp => by cases hp }
    · exact absurd (hs.responders ▸ hr) List.not_mem_nil
    · cases hmode
    · cases hmem

/-- **Enough servers have run what a primary has run.** -/
theorem Paying.kept (h : Paying host f g) (hid : id ∈ g.members)
    (henough : (g.servers id).toServer.Enough f A)
    (hA : ∀ w ∈ A, w ∈ g.down ∨ (g.servers id).log <+: (g.servers w).log) :
    g.Kept f (g.servers id).log := by
  have hold := h.placed id hid
  have hobserved := (h.pays id hid).owing.observed
  have hactive : (g.servers id).activeServers.toFinset ⊆ g.members.toFinset := fun w hw =>
    List.mem_toFinset.mpr (hold.active w (List.mem_toFinset.mp hw))
  have hnot : id ∉ A := fun hmem => (henough.active id hmem).2 hold.self.symm
  have hdisjoint : Disjoint (g.members.toFinset \ (g.servers id).activeServers.toFinset)
      (insert id A) := by
    rw [Finset.disjoint_left]
    intro w hw hmem
    refine (Finset.mem_sdiff.mp hw).2 (List.mem_toFinset.mpr ?_)
    obtain rfl | hmem := Finset.mem_insert.mp hmem
    · exact hold.self_mem
    · exact (henough.active w hmem).1
  refine ⟨(g.members.toFinset \ (g.servers id).activeServers.toFinset) ∪ insert id A, ?_,
    fun w hw => ?_⟩
  · rw [Finset.card_union_of_disjoint hdisjoint, Finset.card_sdiff_of_subset hactive,
      List.toFinset_card_of_nodup h.nodup, List.toFinset_card_of_nodup hold.nodup,
      Finset.card_insert_of_notMem hnot]
    have hcard := henough.card
    omega
  · obtain hw | hw := Finset.mem_union.mp hw
    · obtain ⟨hw, hn⟩ := Finset.mem_sdiff.mp hw
      have hwm := List.mem_toFinset.mp hw
      exact ⟨hwm, Or.inl (hold.gone w hwm fun hmem => hn (List.mem_toFinset.mpr hmem))⟩
    · obtain rfl | hw := Finset.mem_insert.mp hw
      · exact ⟨hid, Or.inr List.prefix_rfl⟩
      · exact ⟨hold.active w (henough.active w hw).1, hA w hw⟩

/-- An acknowledgement is for all that has been run. -/
theorem Paying.acked (h : Paying host f g) (hu : g.Uncut) (hid : g.Live id)
    (hcomes : g.Comes host id pe)
    (hw : ((g.servers id).toServer.awake pe).Acked pe x) :
    x ∈ g.down ∨ (g.servers id).log <+: (g.servers x).log := by
  obtain ⟨mode, p, hawake⟩ := (g.servers id).toServer.awake_frame pe
  obtain ⟨hx, hmode⟩ | ⟨first, msg, response, rfl, rfl, hnew⟩ := hw
  · have hproc : (g.servers id).mode = .processingRequest := by
      obtain ⟨p, heq⟩ | ⟨-, heq⟩ := (g.servers id).toServer.awake_cases pe
      · rwa [heq] at hmode
      · rw [heq] at hmode
        cases hmode
    rw [hawake] at hx
    exact (h.pays id hid.1).acked hproc x hx
  · refine or_iff_not_imp_left.mpr fun hdown => ?_
    obtain ⟨hvoter, -, addr, -, vote, hvote, hcarries⟩ := h.voted hcomes
    have hmem := hu.carries_vote hvoter hvote hcarries
    have hle := (h.pays _ hvoter).sent msg addr hmem
    rw [hawake] at hnew
    obtain ⟨lead, hled⟩ := h.led
    refine List.prefix_of_prefix_length_le (hled.logs id hid) (hled.logs _ ⟨hvoter, hdown⟩) ?_
    rw [(h.placed id hid.1).chronicle.length, (h.placed _ hvoter).chronicle.length,
      ← UInt32.le_iff_toNat_le]
    exact UInt32.le_trans (UInt32.not_lt.mp hnew) hle

/-- What has become of the requests stays so. -/
theorem Pays.mono (h : g.Pays f s) (hmembers : g'.members = g.members) (hdown : g.down ⊆ g'.down)
    (hlogs : ∀ q, (g.servers q).log <+: (g'.servers q).log)
    (hkept : ∀ l, g.Kept f l → g'.Kept f l) : g'.Pays f s where
  owing := hmembers ▸ h.owing
  valid r hr hle := hkept _ (h.valid r hr hle)
  acked hmode w hw := (h.acked hmode w hw).imp (fun hd => hdown hd) fun hl => hl.trans (hlogs w)
  sent := h.sent

theorem Paying.acts (h : Paying host f g) (hid : g.Live id) (harrives : g.Arrives host be)
    (hen : (g.servers id).Enabled be) (hc : g.Careful (.backup id be))
    (hs : Backup.Acts host (g.servers id) be s) : g.Pays f s := by
  have hold := h.placed id hid.1
  have hpays := h.pays id hid.1
  have hnack := harrives.not_nack
  obtain ⟨howing, hnil⟩ := hs.owing hpays.owing hen.1 h.size.2 (fun w heq => by
    subst heq
    exact ⟨hc, fun hw => hid.2 (hold.self ▸ hw ▸ harrives)⟩) hnack
  have hplaced : Placed host g.members g.down id s :=
    hold.acts h.toDistinct hen hid.2 (fun w heq => by subst heq; exact harrives) hnack hs
  have hcurr : (g.servers id).currReqId ≤ s.currReqId := by
    obtain hrests | ⟨hne, bytes, response, -, -, htook⟩ := hs.rests_or_took hnack
    · exact hrests.currReqId ▸ UInt32.le_refl _
    · rw [htook.currReqId, UInt32.le_iff_toNat_le, Replica.toNat_succ hne]
      exact Nat.le_succ _
  refine ⟨howing, fun r hr => absurd (hnil ▸ hr) List.not_mem_nil, fun hmode => ?_,
    fun msg addr hmem => ?_⟩
  · obtain ⟨-, -, -, ⟨-, hkeep, -⟩ | ⟨-, -, p, -, -, hkeep | ⟨hkeep, -⟩⟩⟩ := hs.mode hnack
    · exact absurd (hen.1.symm.trans (hkeep.symm.trans hmode)) (by decide)
    · exact absurd (hen.1.symm.trans (hkeep.symm.trans hmode)) (by decide)
    · exact absurd (hkeep.symm.trans hmode) (by decide)
  · obtain hmem | ⟨-, hlast, -⟩ := (hs.sent hnack).2 msg addr hmem
    · exact UInt32.le_trans (hpays.sent msg addr hmem) hcurr
    · rw [hlast, hplaced.chronicle.last]
      exact UInt32.le_refl _

theorem Paying.handles (h : Paying host f g) (hu : g.Uncut) (hid : g.Live id)
    (hmode : (g.servers id).mode ≠ .backup) (hcomes : g.Comes host id pe)
    (hl : (g.servers id).toServer.Level pe) (hc : (g.servers id).toServer.Careful pe)
    (hs : Server.Handles ((g.servers id).toServer.awake pe) pe t) :
    g.Pays f { g.servers id with toServer := t } := by
  have hold := h.placed id hid.1
  have hpays := h.pays id hid.1
  obtain ⟨mode, p, hawake⟩ := (g.servers id).toServer.awake_frame pe
  obtain ⟨-, hcurr, hlog⟩ := hs.log hold.chronicle hold.electing hl
  have hgrows : (g.servers id).log <+: t.log := by
    obtain ⟨heq, -⟩ | ⟨-, preq, heq⟩ := hlog
    · rw [heq]
    · exact heq ▸ List.prefix_append _ _
  have hne : ((g.servers id).toServer.awake pe).mode ≠ .backup := by
    obtain ⟨p, heq⟩ | ⟨-, heq⟩ := (g.servers id).toServer.awake_cases pe
    · rwa [heq]
    · rw [heq]
      exact nofun
  have hfailed : ∀ w, pe = .failure (some w) →
      w ∈ ((g.servers id).toServer.awake pe).activeServers ∧
        w ≠ ((g.servers id).toServer.awake pe).self ∧
        (((g.servers id).toServer.awake pe).mode = .processingRequest →
          w ∉ ((g.servers id).toServer.awake pe).acknowledgers) := by
    rintro w rfl
    obtain ⟨hactive, hack⟩ := hc
    change ((g.servers id).toServer.awake (.failure (some w))).mode = _ → _ at hack
    rw [hawake] at hack ⊢
    exact ⟨hactive, fun hw => hid.2 (hold.self ▸ hw ▸ hcomes), hack⟩
  have hack : ∀ first msg response, pe = .message first (.vote msg response) →
      ((g.servers id).toServer.awake pe).mode = .processingRequest →
      msg.voter ∈ ((g.servers id).toServer.awake pe).activeServers ∧
        msg.voter ≠ ((g.servers id).toServer.awake pe).self := by
    intro first msg response heq hproc
    have hother := h.other hcomes first msg response heq
    subst heq
    have hvoter := hc hproc
    rw [hawake]
    exact ⟨hvoter, fun heq => hother (heq.trans hold.self)⟩
  have hnext : ((∃ m response, pe = .request m response) ∨ ∃ response, pe = .cached response) →
      ((g.servers id).toServer.awake pe).currReqId + 1 ≠ 0 := by
    rw [hawake]
    rintro (⟨m, response, rfl⟩ | ⟨response, rfl⟩)
    · exact hl
    · exact hl
  obtain ⟨howing, hpaid⟩ :=
    (hpays.owing.awake pe).handles h.size.1 h.size.2 hne hfailed hack hnext hs
  refine ⟨howing, fun r hr hle => ?_, fun hproc w hw => ?_, fun msg addr hmem =>
    UInt32.le_trans (hpays.sent msg addr hmem) hcurr⟩
  · obtain ⟨hr', hpaid⟩ := hpaid.responders r hr hle
    have hreqId : r.reqId.toNat ≤ (g.servers id).log.length := by
      rw [hold.chronicle.length, ← UInt32.le_iff_toNat_le]
      refine hpays.owing.responders r ?_
      rwa [hawake] at hr'
    have htake : t.log.take r.reqId.toNat = (g.servers id).log.take r.reqId.toNat := by
      obtain ⟨l, hl⟩ := hgrows
      rw [← hl, List.take_append_of_le_length hreqId]
    change g.Kept f (t.log.take r.reqId.toNat)
    rw [htake]
    obtain hvalid | ⟨A, henough, hA⟩ := hpaid
    · rw [hawake] at hr' hvalid
      exact hpays.valid r hr' hvalid
    · refine (h.kept hid.1 (A := A) ?_ fun w hw => h.acked hu hid hcomes (hA w hw)).mono
        (List.take_prefix _ _)
      rw [hawake] at henough
      exact ⟨henough.active, henough.card⟩
  · obtain ⟨hw', hsame⟩ := hpaid.acks hproc w hw
    rw [hawake] at hsame
    have hacked := h.acked hu hid hcomes hw'
    exact hsame ▸ hacked

/-- What is kept stays so. -/
theorem Ordered.keeps (h : Ordered host g) (hs : Steps host g e g') (hl : g.Level e)
    {l : List PrimaryRequest} (hkept : g.Kept f l) : g'.Kept f l := by
  have hkept' := hkept.reach (h.simulates hs hl)
  rwa [memberSet, ← hs.members_eq] at hkept'

theorem Paying.step (h : Paying host f g) (hs : Steps host g e g') (hl : g.Level e)
    (hc : g.Careful e) : Paying host f g' := by
  have hmembers := hs.members_eq
  obtain ⟨hdown, hlogs⟩ := Succession.grows_of_reach (h.simulates hs hl)
  have hmono : ∀ s, g.Pays f s → g'.Pays f s := fun s hpays =>
    hpays.mono hmembers (fun w hw => hdown hw) hlogs fun l => h.keeps hs hl
  refine { h.toReigning.step hs hl with
    size := hmembers ▸ h.size
    pays := fun q hq => hmono _ ?_ }
  rw [hmembers] at hq
  cases hs with
  | backup id be s hid harrives hen hacts =>
    obtain rfl | hne := eq_or_ne q id
    · rw [update_self]
      exact h.acts hid harrives hen hc hacts
    · rw [update_of_ne hne]
      exact h.pays q hq
  | primary id pe t hid hmode hcomes hhandles =>
    obtain rfl | hne := eq_or_ne q id
    · rw [update_self]
      exact h.handles hl.uncut hid hmode hcomes (hl.votes q pe rfl) hc hhandles
    · rw [update_of_ne hne]
      exact h.pays q hq
  | stop id hid => exact h.pays q hq

/-- **What has been answered is not lost.**  When a client has its answer to the request `r.reqId`
from the primary `x`, whoever is the primary later on has run the same requests up to this one, as
long as no more than `failures_` servers have stopped. -/
theorem durability (h₀ : Founded host g) (hf : g.Redundant f)
    (hgood : Run.Along (step host) (fun g e _ => g.Level e ∧ g.Careful e) g
      (pre ++ .primary x (.respond r) :: post))
    (h₁ : pre.foldlM (step host) g = some g₁)
    (h₂ : (.primary x (.respond r) :: post).foldlM (step host) g₁ = some g₂)
    (hdown : g₂.down.card ≤ f) (hy : g₂.Live y)
    (hmode : (g₂.servers y).mode = .waitingForRequests ∨
      (g₂.servers y).mode = .processingRequest) :
    r.reqId.toNat ≤ (g₁.servers x).log.length ∧
      (g₁.servers x).log.take r.reqId.toNat <+: (g₂.servers y).log := by
  have hstep : ∀ g e g', step host g e = some g' → Paying host f g → g.Level e ∧ g.Careful e →
      Paying host f g' := fun g e g' hs h hg => h.step (step_steps hs) hg.1 hg.2
  have hp₁ := (hgood.before (List.prefix_append _ _)).keeps h₁ hstep (h₀.paying hf)
  have hresponds : g₁.Live x ∧ ∃ s, (g₁.servers x).toServer.respond r = some s := by
    rw [List.foldlM_cons] at h₂
    obtain ⟨g', hs, -⟩ := Option.bind_eq_some_iff.mp h₂
    unfold step at hs
    dsimp only at hs
    split_ifs at hs with hcan
    obtain ⟨s, hs, -⟩ := Option.bind_eq_some_iff.mp hs
    exact ⟨hcan.1, s, hs⟩
  obtain ⟨hx, s, hs⟩ := hresponds
  have hpays := hp₁.pays x hx.1
  obtain ⟨hr, hpaid⟩ := hpays.owing.released hp₁.size.1 hp₁.size.2 hs
  refine ⟨?_, ?_⟩
  · rw [(hp₁.placed x hx.1).chronicle.length, ← UInt32.le_iff_toNat_le]
    exact hpays.owing.responders r hr
  have hkept : g₁.Kept f ((g₁.servers x).log.take r.reqId.toNat) := by
    obtain hvalid | henough := hpaid
    · exact hpays.valid r hr hvalid
    · exact (hp₁.kept hx.1 henough (by simp)).mono (List.take_prefix _ _)
  obtain ⟨hp₂, hkept⟩ := (hgood.after List.prefix_rfl h₁).keeps h₂
    (I := fun g' => Paying host f g' ∧ g'.Kept f ((g₁.servers x).log.take r.reqId.toNat))
    (fun g e g' hs h hg => ⟨hstep g e g' hs h.1 hg, h.1.toOrdered.keeps (step_steps hs) hg.1 h.2⟩)
    ⟨hp₁, hkept⟩
  obtain ⟨lead, hled⟩ := hp₂.led
  refine hled.prefix_of_kept hp₂.rank hkept (D := g₂.down) (fun c _ hd => hd)
    (Nat.lt_succ_of_le hdown) hy ?_
  change stageOf _ = _
  obtain hm | hm := hmode
  · rw [hm]
    rfl
  · rw [hm]
    rfl

/-- The request that has been answered is the first one that the next primary has run. -/
theorem durability_trio : ∃ g₁ g₂, acknowledged.foldlM (step Backup.servers) trio = some g₁ ∧
    succeeded.foldlM (step Backup.servers) g₁ = some g₂ ∧
    1 ≤ (g₁.servers (serverOn "a")).log.length ∧
    (g₁.servers (serverOn "a")).log.take 1 <+: (g₂.servers (serverOn "c")).log := by
  have h : ∃ g ∈ (acknowledged ++ succeeded).foldlM (step Backup.servers) trio,
      g.down.card ≤ 1 ∧ g.Live (serverOn "c") ∧
        (g.servers (serverOn "c")).mode = .processingRequest := by decide +kernel
  obtain ⟨g₂, h, hdown, hlive, hmode⟩ := h
  rw [List.foldlM_append] at h
  obtain ⟨g₁, h₁, h₂⟩ := Option.bind_eq_some_iff.mp h
  have hf : trio.Redundant 1 := ⟨by decide, fun _ _ => rfl⟩
  exact ⟨g₁, g₂, h₁, h₂,
    durability trio_founded hf (by decide +kernel) h₁ h₂ hdown hlive (Or.inr hmode)⟩

end DiomedesGroup

end Falcon.Diomedes
