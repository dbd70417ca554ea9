import Falcon.Diomedes.Group
import Falcon.Diomedes.Identities

/-!
# Diomedes/Bootstrap — how the servers of a group find each other

In `JoinDiomedesGroup` a server broadcasts joins until it has found `start_size` servers, itself
included.  A join of a server it does not know starts a thread, which adds the server to
`active_servers_` when it has created a target for it; until then the join is pending.  A join of a
server it knows is answered if it was broadcast.

No server is monitored before the first election, so no failure is reported here.

* `founded_of_joins` — if `start_size` is the size of the group, and the servers are told apart by
  their names and addresses, then every server that has joined has found every server once; so
  the group that begins then is one as `Group` has it.
-/

namespace Falcon.Diomedes

/-- `new Application(handle, domain, hypervisor, kSwitchName)`. -/
def RawId.application (id : RawId) : Application :=
  ⟨id.handle.str, id.domain.str, id.hypervisor.str⟩

namespace Application

/-- The string of `AddToActiveServers`. -/
def joinStr (app : Application) : Bytes :=
  let joinStr := [] ++ app.appName.1
  let joinStr := joinStr ++ app.hostName.1
  let joinStr := joinStr ++ app.vmmName.1
  joinStr ++ kSwitchName

/-- The names, as the other modules have them. -/
def id (app : Application) : DiomedesId :=
  ⟨text app.appName.1, text app.hostName.1, text app.vmmName.1⟩

end Application

/-- A server in `JoinDiomedesGroup`. -/
structure Joiner extends Joins where
  self : RawId
  /-- The threads that run `AddAppInstance`. -/
  threads : List Application
  /-- The joins that have been sent; a broadcast one has no address. -/
  sent : List (Option UInt32)
  /-- The addresses that a nack has been sent to. -/
  nacks : List UInt32
  /-- It has found enough servers. -/
  joined : Bool

namespace Joiner

/-- `AddToActiveServers`. -/
def addToActiveServers (app : Application) (s : Joiner) : Joiner :=
  { s with
    activeServers := s.activeServers ++ [app]
    pending := s.pending.erase app.joinStr }

/-- `SendJoin`. -/
def sendJoin (addr : Option UInt32) (s : Joiner) : Joiner := { s with sent := addr :: s.sent }

/-- `JoinDiomedesGroup` up to its loop. -/
def start (self : RawId) : Joiner :=
  (addToActiveServers self.application
    { pending := ∅
      activeServers := []
      self := self
      threads := []
      sent := []
      nacks := []
      joined := false }).sendJoin none

/-- A round of the loop of `ProcessJoins` for a join from `source`; `myAddr` is `my_addr_`. -/
def processJoins (myAddr source : UInt32) (joiner : RawId) (broadcast : Bool) (s : Joiner) :
    Joiner :=
  if source = myAddr then s
  else
    let (needToAdd, answer, joins) := processJoin joiner broadcast s.toJoins
    let s := { s with
      toJoins := joins
      threads := if needToAdd then s.threads ++ [joiner.application] else s.threads }
    if answer then s.sendJoin (some source) else s

/-- The end of `AddAppInstance`. -/
def addAppInstance (app : Application) (s : Joiner) : Joiner :=
  { s with threads := s.threads.erase app }.addToActiveServers app

/-- The globals that `Run` begins with. -/
def server (failures : ℤ) (s : Joiner) : Server where
  mode := .backup
  currReqId := 0
  lastValidReqId := 0
  lastPrimaryRequest := ⟨0, 0, ⟨0, 0, ⟨0, []⟩⟩⟩
  activeServers := s.activeServers.map Application.id
  requestMap := ∅
  responseMap := ∅
  election := none
  deeds := []
  self := s.self.id
  failures := failures
  failuresObserved := 0
  acksNeeded := 0
  ackers := ∅
  clientMap := ∅
  responders := []
  settling := false
  pulling := false
  voters := ∅
  acknowledgers := ∅
  collected := ∅
  acked := 0

end Joiner

/-- The servers of a group that is being formed. -/
structure Gathering where
  members : List RawId
  servers : RawId → Joiner

namespace Gathering

inductive Event
  /-- A join of `joiner` comes. -/
  | join (id joiner : RawId) (broadcast : Bool)
  /-- A vote comes. -/
  | vote (id : RawId) (source : UInt32)
  /-- A thread is done. -/
  | added (id : RawId) (app : Application)
  /-- The last broadcast join is a while ago. -/
  | timeout (id : RawId)
  /-- The loop finds that there are enough servers. -/
  | done (id : RawId)
  deriving DecidableEq

variable (host : Host) (startSize : ℕ)

/-- Where a join goes that comes to `myAddr`. -/
def destination (broadcast : Bool) (myAddr : UInt32) : Option UInt32 :=
  if broadcast then none else some myAddr

/-- The server `id` has gone to `s`. -/
def update (g : Gathering) (id : RawId) (s : Joiner) : Gathering :=
  { g with servers := Function.update g.servers id s }

/-- The servers have been started. -/
def start (members : List RawId) : Gathering := ⟨members, Joiner.start⟩

/-- One event.  Joins can be lost, repeated and come in any order. -/
def step (g : Gathering) : Event → Option Gathering
  | .join id joiner broadcast => do
    let myAddr ← host.getaddrinfo id.id
    let source ← host.getaddrinfo joiner.id
    if id ∈ g.members ∧ joiner ∈ g.members ∧ (g.servers id).joined = false ∧
        destination broadcast myAddr ∈ (g.servers joiner).sent then
      some (g.update id ((g.servers id).processJoins myAddr source joiner broadcast))
    else none
  | .vote id source =>
    if id ∈ g.members ∧ (g.servers id).joined = false then
      some (g.update id { g.servers id with nacks := source :: (g.servers id).nacks })
    else none
  | .added id app =>
    if id ∈ g.members ∧ app ∈ (g.servers id).threads then
      some (g.update id ((g.servers id).addAppInstance app))
    else none
  | .timeout id =>
    if id ∈ g.members ∧ (g.servers id).joined = false then
      some (g.update id ((g.servers id).sendJoin none))
    else none
  | .done id =>
    if id ∈ g.members ∧ startSize ≤ (g.servers id).activeServers.length then
      some (g.update id { g.servers id with joined := true })
    else none

end Gathering

/-! ## Names -/

variable {host : Host} {startSize : ℕ} {failures : ℤ} {members : List RawId} {id joiner r : RawId}
  {app : Application} {s s' : Joiner} {g g' : Gathering} {e : Gathering.Event}
  {es : List Gathering.Event} {myAddr source : UInt32} {broadcast : Bool}

theorem RawId.joinStr_application (id : RawId) : id.application.joinStr = id.joinStr := rfl

/-- A name is compared with the one it was made from. -/
theorem strncmp_str (f g : NameField) : strncmp kNameLength f.str.1 g.1 = 0 ↔ f.str = g.str := by
  rw [← strncmp_field f g, strncmp_eq_zero_iff, strncmp_eq_zero_iff]
  refine Eq.congr (congrArg (List.take kNameLength) ?_) rfl
  refine List.takeWhile_eq_self_iff.mpr fun b hb => ?_
  have hb' : b ∈ f.1.takeWhile (· ≠ 0) := hb
  simpa using List.mem_takeWhile_imp hb'

theorem compareDiomedesIdToInstance_iff :
    compareDiomedesIdToInstance id r.application = true ↔ r.application = id.application := by
  rw [compareDiomedesIdToInstance, decide_eq_true_eq, RawId.application, RawId.application,
    Application.mk.injEq, strncmp_str, strncmp_str, strncmp_str]

/-- **The servers are told apart** by their names, also put together, and by their addresses. -/
structure Apart (host : Host) (members : List RawId) : Prop where
  nodup : members.Nodup
  names : ∀ a ∈ members, ∀ b ∈ members, a.joinStr = b.joinStr → a = b
  app : ∀ a ∈ members, host.app a.id = a.application
  addr : ∀ a ∈ members, ∀ b ∈ members, ∀ addr ∈ host.getaddrinfo a.id,
    addr ∈ host.getaddrinfo b.id → a = b

theorem Apart.application (h : Apart host members) {a b : RawId} (ha : a ∈ members)
    (hb : b ∈ members) (heq : a.application = b.application) : a = b :=
  h.names a ha b hb (by rw [← a.joinStr_application, heq, b.joinStr_application])

/-! ## One server -/

/-- **What a server has found**: some of the servers, itself included, each of them once; and a join
is pending as long as its thread is not done. -/
structure Found (members : List RawId) (id : RawId) (s : Joiner) : Prop where
  self : s.self = id
  nodup : (s.activeServers ++ s.threads).Nodup
  known : ∀ app ∈ s.activeServers ++ s.threads, ∃ r ∈ members, app = r.application
  self_mem : id.application ∈ s.activeServers
  pending : ∀ r ∈ members, r.joinStr ∈ s.pending ↔ r.application ∈ s.threads
  full : s.joined = true → members.length ≤ s.activeServers.length

theorem Found.start (hid : id ∈ members) : Found members id (Joiner.start id) where
  self := rfl
  nodup := List.nodup_singleton _
  known app happ := ⟨id, hid, List.mem_singleton.mp happ⟩
  self_mem := List.mem_singleton.mpr rfl
  pending r _ := iff_of_false (by simp [Joiner.start, Joiner.sendJoin, Joiner.addToActiveServers])
    List.not_mem_nil
  full hjoined := by cases hjoined

/-- A join is sent. -/
theorem Found.sendJoin (h : Found members id s) (addr : Option UInt32) :
    Found members id (s.sendJoin addr) := ⟨h.self, h.nodup, h.known, h.self_mem, h.pending, h.full⟩

/-- What `ProcessJoin` does: nothing, or the join of a server that is not known gets pending. -/
theorem processJoin_cases (joiner : RawId) (broadcast : Bool) (s : Joins) :
    (∃ answer, processJoin joiner broadcast s = (false, answer, s)) ∨
      joiner.joinStr ∉ s.pending ∧
      s.activeServers.any (compareDiomedesIdToInstance joiner) = false ∧
      processJoin joiner broadcast s =
        (true, false, { s with pending := insert joiner.joinStr s.pending }) := by
  unfold processJoin
  split_ifs with hpending hknown
  · exact Or.inl ⟨false, rfl⟩
  · exact Or.inl ⟨broadcast, rfl⟩
  · exact Or.inr ⟨hpending, Bool.not_eq_true _ ▸ hknown, rfl⟩

/-- **A join is processed.** -/
theorem Found.processJoins (ha : Apart host members) (h : Found members id s)
    (hjoiner : joiner ∈ members) :
    Found members id (s.processJoins myAddr source joiner broadcast) := by
  unfold Joiner.processJoins
  split_ifs with hsource
  · exact h
  obtain ⟨answer, heq⟩ | ⟨hpending, hknown, heq⟩ :=
    processJoin_cases joiner broadcast s.toJoins
  · rw [heq]
    cases answer with
    | false => exact h
    | true => exact h.sendJoin _
  rw [heq]
  have hthreads : joiner.application ∉ s.threads := fun hmem =>
    hpending ((h.pending joiner hjoiner).mpr hmem)
  have hactive : joiner.application ∉ s.activeServers := by
    intro hmem
    rw [List.any_eq_false] at hknown
    exact hknown _ hmem (compareDiomedesIdToInstance_iff.mpr rfl)
  refine ⟨h.self, ?_, fun app happ => ?_, h.self_mem, fun r hr => ?_, h.full⟩
  · change (s.activeServers ++ (s.threads ++ [joiner.application])).Nodup
    rw [← List.append_assoc, List.nodup_append]
    refine ⟨h.nodup, List.nodup_singleton _, fun a ha b hb => ?_⟩
    rw [List.mem_singleton.mp hb]
    rintro rfl
    exact (List.mem_append.mp ha).elim hactive hthreads
  · change app ∈ s.activeServers ++ (s.threads ++ [joiner.application]) at happ
    rw [← List.append_assoc, List.mem_append, List.mem_singleton] at happ
    obtain happ | rfl := happ
    · exact h.known app happ
    · exact ⟨joiner, hjoiner, rfl⟩
  · change r.joinStr ∈ insert joiner.joinStr s.pending ↔
      r.application ∈ s.threads ++ [joiner.application]
    rw [Finset.mem_insert, List.mem_append, List.mem_singleton, h.pending r hr, or_comm]
    refine or_congr_right ⟨fun heq => ?_, fun heq => ?_⟩
    · rw [ha.names r hr joiner hjoiner heq]
    · rw [ha.application hr hjoiner heq]

/-- **A thread is done.** -/
theorem Found.addAppInstance (ha : Apart host members) (h : Found members id s)
    (happ : app ∈ s.threads) : Found members id (s.addAppInstance app) := by
  have hperm : ((s.activeServers ++ [app]) ++ s.threads.erase app).Perm
      (s.activeServers ++ s.threads) := by
    rw [List.append_assoc]
    exact (List.perm_cons_erase happ).symm.append_left _
  have hthreads : s.threads.Nodup := (List.nodup_append.mp h.nodup).2.1
  obtain ⟨q, hq, rfl⟩ := h.known app (List.mem_append_right _ happ)
  refine ⟨h.self, hperm.nodup_iff.mpr h.nodup, fun app happ => h.known app (hperm.mem_iff.mp happ),
    List.mem_append_left _ h.self_mem, fun r hr => ?_, fun hjoined => ?_⟩
  · change r.joinStr ∈ s.pending.erase q.joinStr ↔ r.application ∈ s.threads.erase q.application
    rw [Finset.mem_erase, hthreads.mem_erase_iff, h.pending r hr]
    refine and_congr_left fun _ => not_congr ⟨fun heq => ?_, fun heq => ?_⟩
    · rw [ha.names r hr q hq heq]
    · rw [ha.application hr hq heq]
  · refine (h.full hjoined).trans ?_
    change s.activeServers.length ≤ (s.activeServers ++ [q.application]).length
    rw [List.length_append]
    exact Nat.le_add_right _ _

/-- **Who has found enough servers has found every server once.** -/
theorem Found.perm (h : Found members id s) (hjoined : s.joined = true) :
    s.activeServers.Perm (members.map RawId.application) := by
  have hsub : s.activeServers.Subperm (members.map RawId.application) := by
    refine List.subperm_of_subset (List.nodup_append.mp h.nodup).1 fun app happ => ?_
    obtain ⟨r, hr, rfl⟩ := h.known app (List.mem_append_left _ happ)
    exact List.mem_map_of_mem hr
  refine hsub.perm_of_length_le ?_
  rw [List.length_map]
  exact h.full hjoined

/-! ## The group -/

namespace Gathering

/-- **The invariant of a group that is being formed.** -/
structure Gathers (host : Host) (g : Gathering) : Prop extends Apart host g.members where
  found : ∀ id ∈ g.members, Found g.members id (g.servers id)

theorem gathers_start (ha : Apart host members) : Gathers host (start members) :=
  { ha with found := fun _ hid => Found.start hid }

theorem Gathers.update (h : Gathers host g) (hs : Found g.members id s) :
    Gathers host (g.update id s) := by
  refine { h.toApart with found := fun q hq => ?_ }
  change Found g.members q (Function.update g.servers id s q)
  obtain rfl | hne := eq_or_ne q id
  · rwa [Function.update_self]
  · rw [Function.update_of_ne hne]
    exact h.found q hq

theorem Gathers.step (h : Gathers host g) (hsize : g.members.length ≤ startSize)
    (hs : step host startSize g e = some g') : g'.members = g.members ∧ Gathers host g' := by
  cases e with
  | join id joiner broadcast =>
    obtain ⟨myAddr, -, hs⟩ := Option.bind_eq_some_iff.mp hs
    obtain ⟨source, -, hs⟩ := Option.bind_eq_some_iff.mp hs
    split_ifs at hs with hcan
    obtain rfl := Option.some.inj hs
    exact ⟨rfl, h.update ((h.found id hcan.1).processJoins h.toApart hcan.2.1)⟩
  | vote id source =>
    unfold Gathering.step at hs
    dsimp only at hs
    split_ifs at hs with hcan
    obtain rfl := Option.some.inj hs
    have hfound := h.found id hcan.1
    exact ⟨rfl, h.update ⟨hfound.self, hfound.nodup, hfound.known, hfound.self_mem, hfound.pending,
      hfound.full⟩⟩
  | added id app =>
    unfold Gathering.step at hs
    dsimp only at hs
    split_ifs at hs with hcan
    obtain rfl := Option.some.inj hs
    exact ⟨rfl, h.update ((h.found id hcan.1).addAppInstance h.toApart hcan.2)⟩
  | timeout id =>
    unfold Gathering.step at hs
    dsimp only at hs
    split_ifs at hs with hcan
    obtain rfl := Option.some.inj hs
    exact ⟨rfl, h.update ((h.found id hcan.1).sendJoin none)⟩
  | done id =>
    unfold Gathering.step at hs
    dsimp only at hs
    split_ifs at hs with hcan
    obtain rfl := Option.some.inj hs
    have hfound := h.found id hcan.1
    exact ⟨rfl, h.update ⟨hfound.self, hfound.nodup, hfound.known, hfound.self_mem, hfound.pending,
      fun _ => hsize.trans hcan.2⟩⟩

/-- The group `g'` begins when every server of `g` has joined. -/
structure Begins (host : Host) (failures : ℤ) (g : Gathering) (g' : DiomedesGroup) : Prop where
  joined : ∀ r ∈ g.members, (g.servers r).joined = true
  members : g'.members = g.members.map RawId.id
  servers : ∀ r ∈ g.members,
    g'.servers r.id = Backup.joinDiomedesGroup host ((g.servers r).server failures)
  down : g'.down = ∅

theorem Gathers.founded (h : Gathers host g) {g' : DiomedesGroup} (hb : Begins host failures g g') :
    DiomedesGroup.Founded host g' := by
  have hid : ∀ a ∈ g.members, ∀ b ∈ g.members, a.id = b.id → a = b := fun a ha b hb heq =>
    h.application ha hb (by rw [← h.app a ha, heq, h.app b hb])
  have hmem : ∀ id ∈ g'.members, ∃ r ∈ g.members, r.id = id := fun id hid =>
    List.mem_map.mp (hb.members ▸ hid)
  refine ⟨⟨?_, fun a ha b hb' heq => ?_, fun a ha b hb' addr haddr haddr' => ?_⟩, hb.down,
    fun id hid => ?_⟩
  · rw [hb.members]
    exact h.nodup.map_on hid
  · obtain ⟨c, hc, rfl⟩ := hmem a ha
    obtain ⟨d, hd, rfl⟩ := hmem b hb'
    rw [h.app c hc, h.app d hd] at heq
    rw [h.application hc hd heq]
  · obtain ⟨c, hc, rfl⟩ := hmem a ha
    obtain ⟨d, hd, rfl⟩ := hmem b hb'
    rw [h.addr c hc d hd addr haddr haddr']
  · obtain ⟨r, hr, rfl⟩ := hmem id hid
    have hfound := h.found r hr
    refine ⟨_, ⟨congrArg RawId.id hfound.self, ?_, rfl, rfl, rfl, rfl, rfl⟩, hb.servers r hr⟩
    have hperm := (hfound.perm (hb.joined r hr)).map Application.id
    rwa [List.map_map, show Application.id ∘ RawId.application = RawId.id from rfl, ← hb.members]
      at hperm

/-- **How a group begins.**  If `start_size` is not below the number of servers, whatever joins are
lost or repeated, when every server has joined, the group begins with every server in the list of
each one once, and nobody ahead. -/
theorem founded_of_joins (ha : Apart host members) (hsize : members.length ≤ startSize)
    (hes : es.foldlM (step host startSize) (start members) = some g) {g' : DiomedesGroup}
    (hb : Begins host failures g g') : DiomedesGroup.Founded host g' := by
  have hrun : g.members = members ∧ Gathers host g := by
    refine Run.keeps (I := fun g => g.members = members ∧ Gathers host g) (fun g e g' hs h => ?_)
      hes ⟨rfl, gathers_start ha⟩
    obtain ⟨hmembers, hg⟩ := h.2.step (h.1 ▸ hsize) hs
    exact ⟨hmembers.trans h.1, hg⟩
  exact hrun.2.founded hb

/-! Two servers, which start a thread for each other. -/

/-- The replicas on `a` and on `b`. -/
def onA : RawId := replica ['a'] ['h'] (by decide) (by decide)

def onB : RawId := replica ['b'] ['h'] (by decide) (by decide)

/-- Their names and addresses. -/
def twoHosts : Host where
  rmXid _ := 0
  app id := if id = onA.id then onA.application else onB.application
  getaddrinfo id := some (if id = onA.id then 1 else 2)

theorem apart_two : Apart twoHosts [onA, onB] where
  nodup := by decide
  names := by decide
  app := by decide +kernel
  addr a ha b hb addr haddr haddr' := by
    have hne : ∀ a ∈ [onA, onB], ∀ b ∈ [onA, onB],
        twoHosts.getaddrinfo a.id = twoHosts.getaddrinfo b.id → a = b := by decide +kernel
    exact hne a ha b hb (haddr.trans haddr'.symm)

/-- The join of `b` comes twice, and the one of `a` late. -/
def meeting : List Event :=
  [.join onA onB true, .join onA onB true, .added onA onB.application, .done onA, .timeout onB,
    .join onB onA true, .added onB onA.application, .join onB onA true, .done onB]

theorem founded_of_joins_two : ∃ g g',
    meeting.foldlM (step twoHosts 2) (start [onA, onB]) = some g ∧
    Begins twoHosts 1 g g' ∧ DiomedesGroup.Founded twoHosts g' := by
  have h : ∃ g ∈ meeting.foldlM (step twoHosts 2) (start [onA, onB]),
      g.members = [onA, onB] ∧ ∀ r ∈ g.members, (g.servers r).joined = true := by
    decide +kernel
  obtain ⟨g, hes, hmembers, hjoined⟩ := h
  have hb : Begins twoHosts 1 g
      { members := g.members.map RawId.id
        servers := fun id => Backup.joinDiomedesGroup twoHosts
          ((g.servers (if id = onA.id then onA else onB)).server 1)
        down := ∅ } := by
    refine ⟨hjoined, rfl, fun r hr => ?_, rfl⟩
    rw [hmembers, List.mem_cons, List.mem_singleton] at hr
    obtain rfl | rfl := hr
    · rfl
    · rfl
  exact ⟨g, _, hes, hb, founded_of_joins apart_two (by decide) hes hb⟩

end Gathering

end Falcon.Diomedes
