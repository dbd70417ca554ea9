import Falcon.Diomedes.Chronicle
import Falcon.Diomedes.Datagrams

/-!
# Diomedes/Group — the servers of a group, and the datagrams between them

The servers have joined the group and elect a primary; whoever elects itself runs `RunAsPrimary`,
and when it has stopped, the others elect the next one.  Datagrams can be lost, repeated and come in
any order, and a request that its length does not cover comes in as anything.  A server that has
stopped takes no further steps, and it is Falcon that says so: only a server that has stopped is
reported as failed.

After the bootstrap nobody nacks or joins, and nobody sends the requests of a primary but the
primary.

* `one_primary` — of the servers that have not stopped, at most one is a primary.
-/

namespace Falcon.Diomedes

/-- `msg` can come of what has been sent: it is a request that has been broadcast, unless that is
cut on the way. -/
def Deed.Carries (msg : RequestMessage) : Deed → Prop
  | .broadcast m => m.length = msg.length ∧ (m.Whole → m = msg)
  | _ => False

/-- A request that is sent is not cut. -/
def Deed.Uncut : Deed → Prop
  | .broadcast m => m.Whole
  | _ => True

/-- `msg` can come to `addr` of what has been sent: it is a vote, unless that is cut on the way. -/
def Sent.Carries (addr : UInt32) (msg : VoteMessage) : Sent → Prop
  | .vote m a => a = addr ∧ m.voter = msg.voter ∧ m.length = msg.length ∧ (m.Whole → m = msg)
  | .join _ => False

/-- A vote that is sent is not cut. -/
def Sent.Uncut : Sent → Prop
  | .vote m _ => m.Whole
  | .join _ => True

instance (msg : RequestMessage) : (d : Deed) → Decidable (d.Carries msg)
  | .broadcast _ => inferInstanceAs (Decidable (_ ∧ _))
  | .ran _ => isFalse id
  | .responded _ _ => isFalse id

instance : (d : Deed) → Decidable d.Uncut
  | .broadcast m => inferInstanceAs (Decidable m.Whole)
  | .ran _ => isTrue trivial
  | .responded _ _ => isTrue trivial

instance (addr : UInt32) (msg : VoteMessage) : (v : Sent) → Decidable (v.Carries addr msg)
  | .vote _ _ => inferInstanceAs (Decidable (_ ∧ _))
  | .join _ => isFalse id

instance : (v : Sent) → Decidable v.Uncut
  | .vote m _ => inferInstanceAs (Decidable m.Whole)
  | .join _ => isTrue trivial

/-- The servers of a group, and which of them have stopped. -/
structure DiomedesGroup where
  members : List DiomedesId
  servers : DiomedesId → Backup
  down : Finset DiomedesId

namespace DiomedesGroup

/-- What happens in a group. -/
inductive Event
  /-- In `RunAsBackup`, or in `Run` when no primary is active. -/
  | backup (id : DiomedesId) (e : Backup.Event)
  /-- In `RunAsPrimary`. -/
  | primary (id : DiomedesId) (e : Diomedes.Event)
  | stop (id : DiomedesId)
  deriving DecidableEq, Repr

variable (host : Host)

/-- What can come to a backup. -/
def Arrives (g : DiomedesGroup) : Backup.Event → Prop
  | .failure (some failed) => failed ∈ g.down
  | .datagram source bytes _ =>
    let msg := host.requestOf (Buffer.receive bytes)
    msg.type ≠ nackType ∧ (msg.type = primaryRequest → ∃ p ∈ g.members,
      host.getaddrinfo p = some source ∧ ∃ d ∈ (g.servers p).deeds, d.Carries msg)
  | _ => True

/-- What can come to the primary `id`. -/
def Comes (g : DiomedesGroup) (id : DiomedesId) : Diomedes.Event → Prop
  | .failure (some failed) => failed ∈ g.down
  | .message _ (.vote msg _) => ∃ voter ∈ g.members, voter ≠ id ∧
      ∃ addr ∈ host.getaddrinfo id, ∃ v ∈ (g.servers voter).sent, v.Carries addr msg
  | _ => True

/-- No request and no vote that has been sent is cut. -/
def Uncut (g : DiomedesGroup) : Prop := ∀ id ∈ g.members,
  (∀ d ∈ (g.servers id).deeds, d.Uncut) ∧ ∀ v ∈ (g.servers id).sent, v.Uncut

instance (g : DiomedesGroup) : Decidable g.Uncut := inferInstanceAs (Decidable (∀ _ ∈ _, _))

instance (g : DiomedesGroup) (e : Backup.Event) : Decidable (g.Arrives host e) :=
  match e with
  | .failure (some _) => inferInstanceAs (Decidable (_ ∈ _))
  | .failure none => isTrue trivial
  | .datagram _ _ _ => inferInstanceAs (Decidable (_ ∧ (_ → _)))
  | .elect => isTrue trivial
  | .drained _ => isTrue trivial
  | .request _ _ => isTrue trivial
  | .poll => isTrue trivial

instance (g : DiomedesGroup) (id : DiomedesId) (e : Diomedes.Event) :
    Decidable (g.Comes host id e) :=
  Event.decidable (isTrue trivial) (fun _ => inferInstanceAs (Decidable (_ ∈ _)))
    (fun _ _ _ => inferInstanceAs (Decidable (∃ _, _))) (fun _ => isTrue trivial)
    (fun _ => isTrue trivial) (fun _ _ => isTrue trivial) (fun _ => isTrue trivial)
    (fun _ => isTrue trivial) e

/-- The server `id` has gone to `s`. -/
def update (g : DiomedesGroup) (id : DiomedesId) (s : Backup) : DiomedesGroup :=
  { g with servers := Function.update g.servers id s }

/-- A server that has not stopped. -/
def Live (g : DiomedesGroup) (id : DiomedesId) : Prop := id ∈ g.members ∧ id ∉ g.down

instance (g : DiomedesGroup) (id : DiomedesId) : Decidable (g.Live id) :=
  inferInstanceAs (Decidable (_ ∧ _))

/-- One event. -/
def step (g : DiomedesGroup) : Event → Option DiomedesGroup
  | .backup id e =>
    if g.Live id ∧ g.Arrives host e then do
      let s ← (g.servers id).step host e
      some (g.update id s)
    else none
  | .primary id e =>
    if g.Live id ∧ (g.servers id).mode ≠ .backup ∧ g.Comes host id e then do
      let s ← (g.servers id).toServer.step e
      some (g.update id { g.servers id with toServer := s })
    else none
  | .stop id => if g.Live id then some { g with down := insert id g.down } else none

/-! ## The start -/

/-- Names and addresses tell the servers apart. -/
structure Distinct (members : List DiomedesId) : Prop where
  nodup : members.Nodup
  app : ∀ a ∈ members, ∀ b ∈ members, host.app a = host.app b → a = b
  addr : ∀ a ∈ members, ∀ b ∈ members, ∀ addr ∈ host.getaddrinfo a,
    addr ∈ host.getaddrinfo b → a = b

/-- A server that has found the others, in some order. -/
structure Ready (members : List DiomedesId) (id : DiomedesId) (s : Server) : Prop where
  self : s.self = id
  activeServers : s.activeServers.Perm members
  failuresObserved : s.failuresObserved = 0
  responders : s.responders = []
  voters : s.voters = ∅
  settling : s.settling = false
  pulling : s.pulling = false

/-- Every server has joined, and none has stopped. -/
structure Founded (g : DiomedesGroup) : Prop extends Distinct host g.members where
  down : g.down = ∅
  joined : ∀ id ∈ g.members, ∃ s, Ready g.members id s ∧
    g.servers id = Backup.joinDiomedesGroup host s

variable {host} {g g' : DiomedesGroup} {id x y : DiomedesId} {e : Event} {es : List Event}
  {be : Backup.Event} {s s' : Backup} {t t' : Server} {pe : Diomedes.Event}
  {members : List DiomedesId} {down down' : Finset DiomedesId}

@[simp] theorem update_members (g : DiomedesGroup) (id : DiomedesId) (s : Backup) :
    (g.update id s).members = g.members := rfl

@[simp] theorem update_down (g : DiomedesGroup) (id : DiomedesId) (s : Backup) :
    (g.update id s).down = g.down := rfl

@[simp] theorem update_self (g : DiomedesGroup) (id : DiomedesId) (s : Backup) :
    (g.update id s).servers id = s := Function.update_self _ _ _

theorem update_of_ne (h : x ≠ id) (s : Backup) : (g.update id s).servers x = g.servers x :=
  Function.update_of_ne h _ _

/-- **What a step is.** -/
inductive Steps (host : Host) (g : DiomedesGroup) : Event → DiomedesGroup → Prop
  | backup (id : DiomedesId) (e : Backup.Event) (s : Backup) (hid : g.Live id)
      (harrives : g.Arrives host e) (hen : (g.servers id).Enabled e)
      (h : Backup.Acts host (g.servers id) e s) : Steps host g (.backup id e) (g.update id s)
  | primary (id : DiomedesId) (e : Diomedes.Event) (s : Server) (hid : g.Live id)
      (hmode : (g.servers id).mode ≠ .backup) (hcomes : g.Comes host id e)
      (h : Server.Handles ((g.servers id).toServer.awake e) e s) :
      Steps host g (.primary id e) (g.update id { g.servers id with toServer := s })
  | stop (id : DiomedesId) (hid : g.Live id) :
      Steps host g (.stop id) { g with down := insert id g.down }

theorem step_steps (h : g.step host e = some g') : Steps host g e g' := by
  cases e with
  | backup id e =>
    unfold step at h
    dsimp only at h
    split_ifs at h with hcan
    obtain ⟨s, hs, h⟩ := Option.bind_eq_some_iff.mp h
    obtain ⟨hen, hacts⟩ := Backup.step_acts hs
    exact Option.some.inj h ▸ .backup id e s hcan.1 hcan.2 hen hacts
  | primary id e =>
    unfold step at h
    dsimp only at h
    split_ifs at h with hcan
    obtain ⟨s, hs, h⟩ := Option.bind_eq_some_iff.mp h
    exact Option.some.inj h ▸ .primary id e s hcan.1 hcan.2.1 hcan.2.2 (Server.step_handles hs)
  | stop id =>
    unfold step at h
    dsimp only at h
    split_ifs at h with hcan
    exact Option.some.inj h ▸ .stop id hcan

/-! ## Who is the primary -/

/-- The place of a server among the candidates. -/
def rank (host : Host) (id : DiomedesId) : List ℕ ×ₗ List ℕ ×ₗ List ℕ := (host.app id).key

/-- **What a server knows of the others**: those that are not active have stopped, and its primary
comes first among the active ones. -/
structure Seated (host : Host) (members : List DiomedesId) (down : Finset DiomedesId)
    (id : DiomedesId) (s : Backup) : Prop where
  self : s.self = id
  nacked : s.nacked = ∅
  nodup : s.activeServers.Nodup
  self_mem : id ∈ s.activeServers
  active : ∀ q ∈ s.activeServers, q ∈ members
  gone : ∀ q ∈ members, q ∉ s.activeServers → q ∈ down
  leads : s.mode ≠ .backup → s.primaryInstance = some id
  primary : ∀ p ∈ s.primaryInstance, p ∈ members ∧ host.getaddrinfo p = some s.primaryAddr ∧
    ∀ q ∈ s.activeServers, rank host p ≤ rank host q
  lost : s.primaryActive = false → ∀ p ∈ s.primaryInstance, p ∉ s.activeServers

theorem Distinct.rank (h : Distinct host members) : Set.InjOn (rank host) {id | id ∈ members} :=
  fun a ha b hb heq => h.app a ha b hb (Application.key_injective heq)

/-- The elected server comes first. -/
theorem Seated.elected (hd : Distinct host members) (h : Seated host members down id s)
    (hselect : selectNewPrimary host.app s.nacked s.activeServers = some (some x)) :
    x ∈ s.activeServers ∧ ∀ q ∈ s.activeServers, rank host x ≤ rank host q := by
  have hpair : s.activeServers.Pairwise fun i j => host.app i ≠ host.app j := by
    refine List.Pairwise.imp_of_mem (fun {a b} ha hb hne heq => hne ?_) h.nodup
    exact hd.app a (h.active a ha) b (h.active b hb) heq
  obtain ⟨r, hr, hfirst, -⟩ := selectNewPrimary_spec host.app s.nacked s.activeServers hpair
  obtain rfl := Option.some.inj (hselect.symm.trans hr)
  obtain ⟨hx, -, hle⟩ := hfirst x rfl
  refine ⟨hx, fun q hq => ?_⟩
  obtain rfl | hne := eq_or_ne q x
  · exact le_rfl
  · exact (Application.precedes_iff.mp (hle q hq (by simp [h.nacked]) hne)).le

/-- More servers stop. -/
theorem Seated.mono (h : Seated host members down id s) (hdown : down ⊆ down') :
    Seated host members down' id s :=
  { h with gone := fun q hq hn => hdown (h.gone q hq hn) }

/-- What a server knows of the others does not change. -/
theorem Seated.frame (h : Seated host members down id s) (hself : s'.self = s.self)
    (hnacked : s'.nacked = ∅) (hactive : s'.activeServers = s.activeServers)
    (hleads : s'.mode ≠ .backup → s.mode ≠ .backup)
    (hprimary : s'.primaryInstance = s.primaryInstance) (haddr : s'.primaryAddr = s.primaryAddr)
    (hlost : s'.primaryActive = s.primaryActive) : Seated host members down id s' where
  self := hself.trans h.self
  nacked := hnacked
  nodup := hactive ▸ h.nodup
  self_mem := hactive ▸ h.self_mem
  active := hactive ▸ h.active
  gone := hactive ▸ h.gone
  leads hmode := hprimary.trans (h.leads (hleads hmode))
  primary := by
    rw [hprimary, haddr, hactive]
    exact h.primary
  lost := by
    rw [hprimary, hlost, hactive]
    exact h.lost

/-- A server that has stopped is reported. -/
theorem Seated.failed (h : Seated host members down id s) {f : DiomedesId} (hf : f ∈ down)
    (hid : id ∉ down) (hself : s'.self = s.self) (hnacked : s'.nacked = s.nacked)
    (hactive : s'.activeServers = s.activeServers.filter (· ≠ f))
    (hleads : s'.mode ≠ .backup → s.mode ≠ .backup)
    (hprimary : s'.primaryInstance = s.primaryInstance) (haddr : s'.primaryAddr = s.primaryAddr)
    (hlost : s'.primaryActive = false → s.primaryActive = false ∨ s.primaryInstance = some f) :
    Seated host members down id s' where
  self := hself.trans h.self
  nacked := hnacked.trans h.nacked
  nodup := hactive ▸ h.nodup.filter _
  self_mem := by
    rw [hactive, List.mem_filter]
    exact ⟨h.self_mem, decide_eq_true fun heq => hid (heq ▸ hf)⟩
  active q hq := by
    rw [hactive, List.mem_filter] at hq
    exact h.active q hq.1
  gone q hq hn := by
    by_cases hqf : q = f
    · exact hqf ▸ hf
    · refine h.gone q hq fun hmem => hn ?_
      rw [hactive, List.mem_filter]
      exact ⟨hmem, decide_eq_true hqf⟩
  leads hmode := hprimary.trans (h.leads (hleads hmode))
  primary p hp := by
    rw [hprimary] at hp
    obtain ⟨hmem, haddr', hle⟩ := h.primary p hp
    refine ⟨hmem, haddr'.trans (by rw [haddr]), fun q hq => ?_⟩
    rw [hactive, List.mem_filter] at hq
    exact hle q hq.1
  lost hfalse p hp hmem := by
    rw [hprimary] at hp
    rw [hactive, List.mem_filter] at hmem
    obtain hfalse | hf := hlost hfalse
    · exact h.lost hfalse p hp hmem.1
    · exact of_decide_eq_true hmem.2 (Option.some.inj (hp.symm.trans hf))

/-- The next primary is the first of the servers that are active. -/
theorem Seated.elect (hd : Distinct host members) (h : Seated host members down id s)
    (hmode : s.mode = .backup)
    (hselect : selectNewPrimary host.app s.nacked s.activeServers = some (some x))
    {addr : UInt32} (haddr : host.getaddrinfo x = some addr) :
    Seated host members down id (s.elect x addr) where
  self := h.self
  nacked := h.nacked
  nodup := h.nodup
  self_mem := h.self_mem
  active := h.active
  gone := h.gone
  leads hne := absurd hmode hne
  primary p hp := by
    obtain rfl := Option.some.inj hp
    obtain ⟨hx, hle⟩ := h.elected hd hselect
    exact ⟨h.active _ hx, haddr, hle⟩
  lost hfalse := by cases hfalse

theorem Seated.acts (hd : Distinct host members) (h : Seated host members down id s)
    (hmode : s.mode = .backup) (hid : id ∉ down)
    (hfailed : ∀ f, be = .failure (some f) → f ∈ down)
    (hnack : ∀ source bytes response, be = .datagram source bytes response →
      (Buffer.receive bytes).msg.type ≠ nackType)
    (hs : Backup.Acts host s be s') : Seated host members down id s' := by
  cases hs with
  | store e he M C p hp =>
    have hnacked : _ = ∅ := hp.elim (fun hp => hp.trans h.nacked) fun hp => hp
    exact h.frame rfl hnacked rfl (fun hm => hm) rfl rfl rfl
  | failure failed =>
    cases failed with
    | none =>
      exact h.frame rfl h.nacked rfl (fun hm => hm) rfl rfl (by simp [Backup.processFailure])
    | some f =>
      refine h.failed (hfailed f rfl) hid rfl rfl rfl (fun hm => hm) rfl rfl fun hfalse => ?_
      simp only [Backup.processFailure, Option.isSome_some, true_and, decide_eq_false_iff_not,
        not_and_or, not_not, Bool.not_eq_true] at hfalse
      exact hfalse.imp_right Eq.symm
  | join e he => exact h.frame rfl h.nacked rfl (fun hm => hm) rfl rfl rfl
  | nack source bytes response s' htype => exact absurd htype (hnack source bytes response rfl)
  | poll e he p hp =>
    have hnacked : _ = ∅ := hp.elim (fun hp => hp.trans h.nacked) fun hp => hp
    exact h.frame rfl hnacked rfl (fun hm => hm) rfl rfl rfl
  | follow p addr hselect haddr =>
    exact (h.elect hd hmode hselect haddr).frame rfl h.nacked rfl (fun hm => hm) rfl rfl rfl
  | stand p addr hselect haddr hself =>
    have hp := h.elect hd hmode hselect haddr
    have hpid : p = id := by
      refine hd.app p (h.active p (h.elected hd hselect).1) id (h.active id h.self_mem) ?_
      rw [hself, h.self]
    exact { hp with leads := fun _ => congrArg some hpid }
  | take source bytes response R hsource htype hreqId hne hserves =>
    exact h.frame rfl rfl rfl (fun hm => hm) rfl rfl rfl

theorem Seated.handles (h : Seated host members down id s) (hmode : s.mode ≠ .backup)
    (hid : id ∉ down) (hfailed : ∀ f, pe = .failure (some f) → f ∈ down)
    (hs : Server.Handles (s.toServer.awake pe) pe t) :
    Seated host members down id { s with toServer := t } := by
  obtain ⟨mode, p, hawake⟩ := s.awake_frame pe
  rw [hawake] at hs
  have hkeep : t.self = s.self → t.activeServers = s.activeServers →
      Seated host members down id { s with toServer := t } :=
    fun hself hactive => h.frame hself h.nacked hactive (fun _ => hmode) rfl rfl rfl
  cases hs with
  | idle e p => exact hkeep rfl rfl
  | failure f =>
    exact h.failed (hfailed f rfl) hid rfl rfl rfl (fun _ => hmode) rfl rfl Or.inl
  | vote first msg response t₁ p hnew hs =>
    obtain ⟨r, hr, rfl⟩ := Server.countVote_eq hs
    refine hkeep rfl ?_
    obtain ⟨-, rfl⟩ | ⟨-, el, hcount⟩ := Replica.countVote_cases hr
    · rfl
    · exact hcount.activeServers
  | ack first msg response t₁ p hproc hs =>
    obtain ⟨-, rfl⟩ | ⟨-, C, a, ⟨-, rfl⟩ | ⟨-, rfl⟩⟩ := Server.addToAckers_cases hs
    · exact hkeep rfl rfl
    · exact hkeep rfl rfl
    · exact hkeep rfl rfl
  | request m response t' hwait hs =>
    obtain ⟨-, ⟨-, rfl⟩ | ⟨-, L, R, D, ⟨-, rfl⟩ | ⟨-, rfl⟩⟩⟩ :=
      Server.handleRequestAsPrimary_cases hs
    · exact hkeep rfl rfl
    · exact hkeep rfl rfl
    · exact hkeep rfl rfl
  | cached response t' hwait hs =>
    obtain ⟨L, R, D, id, rfl⟩ := Server.runFromRequestCache_cases hs
    exact hkeep rfl rfl
  | respond r t' hs =>
    obtain ⟨-, x, -, ⟨-, rfl⟩ | ⟨-, rfl⟩⟩ := Server.respond_cases hs
    · exact hkeep rfl rfl
    · exact hkeep rfl rfl

/-- Every server is in its place. -/
structure Ranked (host : Host) (g : DiomedesGroup) : Prop extends Distinct host g.members where
  seated : ∀ id ∈ g.members, Seated host g.members g.down id (g.servers id)

theorem Founded.ranked (h : Founded host g) : Ranked host g where
  toDistinct := h.toDistinct
  seated id hid := by
    obtain ⟨s, hs, heq⟩ := h.joined id hid
    have hmem : ∀ q, q ∈ s.activeServers ↔ q ∈ g.members := fun q => hs.activeServers.mem_iff
    rw [heq]
    exact
      { self := hs.self
        nacked := rfl
        nodup := hs.activeServers.nodup_iff.mpr h.nodup
        self_mem := (hmem id).mpr hid
        active := fun q hq => (hmem q).mp hq
        gone := fun q hq hn => absurd ((hmem q).mpr hq) hn
        leads := fun hmode => absurd rfl hmode
        primary := fun p hp => by cases hp
        lost := fun _ p hp => by cases hp }

/-- A request that has come has been broadcast, if nothing is cut. -/
theorem Uncut.carries (hu : g.Uncut) (hx : x ∈ g.members) {msg : RequestMessage} {d : Deed}
    (hd : d ∈ (g.servers x).deeds) (hc : d.Carries msg) :
    .broadcast msg ∈ (g.servers x).deeds := by
  cases d with
  | broadcast m => exact hc.2 ((hu x hx).1 _ hd) ▸ hd
  | ran preq => exact hc.elim
  | responded c b => exact hc.elim

/-- A vote that has come has been sent, if nothing is cut. -/
theorem Uncut.carries_vote (hu : g.Uncut) (hx : x ∈ g.members) {msg : VoteMessage} {v : Sent}
    {addr : UInt32} (hv : v ∈ (g.servers x).sent) (hc : v.Carries addr msg) :
    .vote msg addr ∈ (g.servers x).sent := by
  cases v with
  | vote m a =>
    obtain ⟨rfl, -, -, heq⟩ := hc
    exact heq ((hu x hx).2 _ hv) ▸ hv
  | join a => exact hc.elim

/-- A datagram that has come is no nack. -/
theorem Arrives.not_nack (h : g.Arrives host be) (source : UInt32) (bytes : Bytes)
    (response : Option TcpRpcMsg) (heq : be = .datagram source bytes response) :
    (Buffer.receive bytes).msg.type ≠ nackType := by
  subst heq
  exact h.1

theorem Ranked.step (h : Ranked host g) (hs : Steps host g e g') : Ranked host g' := by
  cases hs with
  | backup id be s hid harrives hen hacts =>
    refine { h.toDistinct with seated := fun q hq => ?_ }
    obtain rfl | hne := eq_or_ne q id
    · rw [update_self]
      refine (h.seated q hq).acts h.toDistinct hen.1 hid.2 (fun f heq => ?_) harrives.not_nack hacts
      subst heq
      exact harrives
    · rw [update_of_ne hne]
      exact h.seated q hq
  | primary id pe t hid hmode hcomes hhandles =>
    refine { h.toDistinct with seated := fun q hq => ?_ }
    obtain rfl | hne := eq_or_ne q id
    · rw [update_self]
      refine (h.seated q hq).handles hmode hid.2 (fun f heq => ?_) hhandles
      subst heq
      exact hcomes
    · rw [update_of_ne hne]
      exact h.seated q hq
  | stop id hid =>
    exact { h.toDistinct with
      seated := fun q hq => (h.seated q hq).mono (Finset.subset_insert _ _) }

/-- Who leads comes before every server that has not stopped. -/
theorem Seated.rank_le (h : Seated host members down id s) (hmode : s.mode ≠ .backup)
    (hx : x ∈ members) (hdown : x ∉ down) : rank host id ≤ rank host x := by
  refine (h.primary id (h.leads hmode)).2.2 x ?_
  by_contra hn
  exact hdown (h.gone x hx hn)

/-- Of the servers that have not stopped, at most one is not a backup. -/
def OnePrimary (g : DiomedesGroup) : Prop :=
  ∀ x y, g.Live x → g.Live y → (g.servers x).mode ≠ .backup → (g.servers y).mode ≠ .backup → x = y

theorem Ranked.onePrimary (h : Ranked host g) : g.OnePrimary := fun x y hx hy hmx hmy =>
  h.rank hx.1 hy.1 (le_antisymm ((h.seated x hx.1).rank_le hmx hy.1 hy.2)
    ((h.seated y hy.1).rank_le hmy hx.1 hx.2))

/-- **One primary at a time.**  In every run of a group that has joined, whatever datagrams are lost
or repeated and whoever stops, no two servers that have not stopped are primaries. -/
theorem one_primary (h₀ : Founded host g) (es : List Event) :
    Run.Always (step host) OnePrimary g es :=
  Run.always_iff_run.mpr fun _ _ _ hs =>
    (Run.keeps (fun _ _ _ hs (hr : Ranked host _) => hr.step (step_steps hs)) hs
      h₀.ranked).onePrimary

/-! Three servers: `a` is the primary until it stops, and then `c`. -/

open Server (serverOn)

/-- The servers on `a`, `b` and `c` have joined; the group survives one failure. -/
def trio : DiomedesGroup where
  members := [serverOn "a", serverOn "b", serverOn "c"]
  servers id := Backup.joinDiomedesGroup Backup.servers { Server.joined with self := id }
  down := ∅

theorem trio_founded : Founded Backup.servers trio where
  nodup := by decide
  app := by decide
  addr a ha b hb addr haddr haddr' := by
    have hne : ∀ a ∈ trio.members, ∀ b ∈ trio.members,
        Backup.servers.getaddrinfo a = Backup.servers.getaddrinfo b → a = b := by decide
    exact hne a ha b hb (haddr.trans haddr'.symm)
  down := rfl
  joined id _ := ⟨_, ⟨rfl, List.Perm.refl _, rfl, rfl, rfl, rfl, rfl⟩, rfl⟩

/-- A vote of a server that has run nothing. -/
def firstVoteTo (id voter : String) : Event :=
  .primary (serverOn id)
    (.message true (.vote ⟨96, serverOn voter, ⟨0, 0, ⟨0, [0, 0, 0, 0]⟩⟩⟩ none))

/-- A vote for the request `n` of client 7. -/
def voteTo (id voter : String) (n : UInt32) (xid : UInt8) : Event :=
  .primary (serverOn id) (.message true (.vote
    ⟨120, serverOn voter, ⟨n, 7, Backup.rpcOf xid⟩⟩ none))

/-- Client 7 sends a request. -/
def requestTo (id : String) (xid : UInt8) : Event :=
  .primary (serverOn id) (.request ⟨clientRequest, 24, ⟨0, 7, Backup.rpcOf xid⟩⟩
    (some (Backup.rpcOf xid)))

/-- `a` is elected and runs a request, which `b` acknowledges. -/
def acknowledged : List Event :=
  [.backup (serverOn "a") .elect, .backup (serverOn "b") .elect, .backup (serverOn "c") .elect,
    firstVoteTo "a" "b", firstVoteTo "a" "c", requestTo "a" 100,
    .backup (serverOn "b") (Backup.requestFrom 1 1 100), voteTo "a" "b" 1 100]

/-- The client has its answer; `c` has run the request when `a` stops, and runs the next one. -/
def succeeded : List Event :=
  [.primary (serverOn "a") (.respond ⟨1, 7⟩), .backup (serverOn "c") (Backup.requestFrom 1 1 100),
    .stop (serverOn "a"), .backup (serverOn "b") (.failure (some (serverOn "a"))),
    .backup (serverOn "c") (.failure (some (serverOn "a"))), .backup (serverOn "c") .elect,
    .backup (serverOn "b") .elect, voteTo "c" "b" 1 100, requestTo "c" 101]

theorem one_primary_trio :
    Run.Always (step Backup.servers) OnePrimary trio (acknowledged ++ succeeded) ∧
      ((acknowledged ++ succeeded).foldlM (step Backup.servers) trio).isSome :=
  ⟨one_primary trio_founded _, by decide +kernel⟩

end DiomedesGroup

end Falcon.Diomedes
