import Falcon.Diomedes.Reigns
import Falcon.Machinery.Sessions
import Mathlib.Data.Finset.Max

/-!
# Diomedes/Machine — the state machine of a group

Each server has a copy of the state machine, and `RunRequest` hands it the requests of the log, save
that a client that repeats an xid gets the last response again.

* `one_machine` — the servers answer like one state machine that runs the requests of one log.
-/

namespace Falcon.Diomedes

/-- What is at the other end of `sm_sock_`; a response has the xid of its request, where the host
looks for it. -/
structure StateMachine (σ : Type) where
  start : σ
  run : σ → TcpRpcMsg → σ × TcpRpcMsg
  xid_run : ∀ s m, (run s m).2.xid = m.xid

namespace StateMachine

variable {σ : Type}

/-- `response_map_` keeps the last response to each client. -/
def service (M : StateMachine σ) : Service σ UInt32 PrimaryRequest TcpRpcMsg UInt64 where
  start := M.start
  run s preq := M.run s preq.request
  client := PrimaryRequest.clientId
  asked preq := preq.request.xid
  answered := TcpRpcMsg.xid
  answered_run s preq := M.xid_run s preq.request

/-- The client `c` can have got the bytes `b` when the requests `l` have been run: they are what
`SendClientResponse` sends of an answer of the machine. -/
def Sends (M : StateMachine σ) (l : List PrimaryRequest) (c : UInt32) (b : Bytes) : Prop :=
  ∃ r, M.service.Gives (M.service.fresh l) c r ∧ r.sent = b

theorem Sends.mono {M : StateMachine σ} {l l' : List PrimaryRequest} {c : UInt32} {b : Bytes}
    (h : M.Sends l c b) (hl : l <+: l') : M.Sends l' c b := by
  obtain ⟨r, hr, heq⟩ := h
  exact ⟨r, hr.mono (Service.fresh_mono hl), heq⟩

theorem sends_of_last {M : StateMachine σ} {l : List PrimaryRequest} {c : UInt32} {b : Bytes}
    (h : ((M.service.replay l).last c).map TcpRpcMsg.sent = some b) : M.Sends l c b := by
  obtain ⟨r, hr, heq⟩ := Option.map_eq_some_iff.mp h
  exact ⟨r, Service.gives_of_last hr, heq⟩

end StateMachine

namespace Replica

variable {σ : Type} {M : StateMachine σ} {s s' : Replica} {L : RequestMessage}
  {response : Option TcpRpcMsg}

/-- The responses of `s` are those of the machine to the log. -/
structure Tracks (M : StateMachine σ) (s : Replica) : Prop where
  responses : ∀ c, s.responseMap.lookup c = (M.service.replay s.log).last c
  answers : ∀ c b, .responded c b ∈ s.deeds → M.Sends s.log c b

theorem Tracks.rests (h : Tracks M s) (hr : Rests s s') : Tracks M s' where
  responses c := by rw [hr.responses, hr.log, h.responses]
  answers c b hmem := by
    rw [hr.log]
    obtain hmem | hlookup := hr.answers c b hmem
    · exact h.answers c b hmem
    · exact StateMachine.sends_of_last (h.responses c ▸ hlookup)

/-- A request that is handed to the state machine is answered as `M` answers it after the requests
that have been run. -/
def Answers (M : StateMachine σ) (s s' : Replica) (response : Option TcpRpcMsg) : Prop :=
  ∀ preq ∈ s'.log.getLast?, s'.log = s.log ++ [preq] →
    ¬ M.service.Known (M.service.replay s.log) preq →
      ∀ r ∈ response, r = (M.run (M.service.replay s.log).state preq.request).2

instance (s s' : Replica) : Decidable (Answers M s s' response) :=
  inferInstanceAs (Decidable (∀ preq ∈ _, _ → _ → ∀ r ∈ _, _))

/-- **The next request**: the cache and the machine answer as `replay` says. -/
theorem Tracks.took (h : Tracks M s) (ht : Took L response s s') (ha : Answers M s s' response) :
    Tracks M s' := by
  have hresponses : ∀ c, s'.responseMap.lookup c = (M.service.replay s'.log).last c := by
    intro c
    have hknown : M.service.Known (M.service.replay s.log) L.preq ↔
        (s.responseMap.lookup L.preq.clientId).map TcpRpcMsg.xid = some L.preq.request.xid := by
      rw [h.responses]
      rfl
    rw [ht.log, Service.replay_concat]
    obtain ⟨hcached, heq⟩ | ⟨hcached, r, hr, heq⟩ := ht.serves
    · rw [Service.serve_of_known (hknown.mpr hcached), heq, h.responses]
    · rw [ne_eq, ← hknown] at hcached
      have hlast : L.preq ∈ s'.log.getLast? := by
        rw [ht.log]
        exact List.getLast?_concat
      rw [Service.last_serve hcached, heq, ha L.preq hlast ht.log hcached r hr]
      obtain rfl | hne := eq_or_ne c L.preq.clientId
      · rw [AList.lookup_insert]
        exact (Function.update_self (f := (M.service.replay s.log).last) ..).symm
      · rw [AList.lookup_insert_ne hne, h.responses]
        exact (Function.update_of_ne hne ..).symm
  refine ⟨hresponses, fun c b hmem => ?_⟩
  obtain hmem | hlookup := ht.answers c b hmem
  · exact (h.answers c b hmem).mono (ht.log ▸ List.prefix_append _ _)
  · exact StateMachine.sends_of_last (hresponses c ▸ hlookup)

end Replica

namespace DiomedesGroup

variable {σ : Type} {M : StateMachine σ} {host : Host} {g g' : DiomedesGroup} {e : Event}
  {es : List Event} {id x y : DiomedesId}

/-- Whose event it is. -/
def Event.server : Event → DiomedesId
  | .backup id _ => id
  | .primary id _ => id
  | .stop id => id

/-- What `recv` gets from the state machine. -/
def Event.response : Event → Option TcpRpcMsg
  | .backup _ (.datagram _ _ response) => response
  | .primary _ (.request _ response) => response
  | .primary _ (.cached response) => response
  | _ => none

/-- The state machine of the server is `M`. -/
def Answers (M : StateMachine σ) (g : DiomedesGroup) (e : Event) (g' : DiomedesGroup) : Prop :=
  Replica.Answers M (g.servers e.server).toReplica (g'.servers e.server).toReplica e.response

instance (g : DiomedesGroup) (e : Event) (g' : DiomedesGroup) : Decidable (Answers M g e g') :=
  inferInstanceAs (Decidable (Replica.Answers _ _ _ _))

/-- The state machine of each server has run the log of the server. -/
structure Tracking (M : StateMachine σ) (g : DiomedesGroup) : Prop where
  tracks : ∀ id ∈ g.members, Replica.Tracks M (g.servers id).toReplica

theorem Tracking.update (h : Tracking M g) {s : Backup}
    (hs : Replica.Rests (g.servers id).toReplica s.toReplica ∨ ∃ L response,
      Replica.Took L response (g.servers id).toReplica s.toReplica ∧
      Replica.Answers M (g.servers id).toReplica s.toReplica response) :
    Tracking M (g.update id s) where
  tracks q hq := by
    obtain rfl | hne := eq_or_ne q id
    · rw [update_self]
      obtain hrests | ⟨L, response, htook, ha⟩ := hs
      · exact (h.tracks q hq).rests hrests
      · exact (h.tracks q hq).took htook ha
    · rw [update_of_ne hne]
      exact h.tracks q hq

theorem Tracking.step (h : Tracking M g) (ho : Ordered host g) (hs : Steps host g e g')
    (hl : g.Level e) (ha : Answers M g e g') : Tracking M g' := by
  cases hs with
  | backup id be s hid harrives hen hacts =>
    refine h.update ?_
    obtain hrests | ⟨-, bytes, response, rfl, -, htook⟩ := hacts.rests_or_took harrives.not_nack
    · exact Or.inl hrests
    · change Replica.Answers M _ ((g.update id s).servers id).toReplica response at ha
      rw [update_self] at ha
      exact Or.inr ⟨_, response, htook, ha⟩
  | primary id pe t hid hmode hcomes hhandles =>
    refine h.update ?_
    obtain hrests | ⟨-, -, response, he, L, htook⟩ :=
      hhandles.serves (ho.placed id hid.1).electing (hl.votes id pe rfl)
    · exact Or.inl hrests
    · refine Or.inr ⟨L, response, htook, ?_⟩
      have hresponse : Event.response (.primary id pe) = response := by
        obtain ⟨m, rfl⟩ | rfl := he
        · rfl
        · rfl
      rw [Answers, hresponse] at ha
      change Replica.Answers M _ ((g.update id _).servers id).toReplica response at ha
      rwa [update_self] at ha
  | stop id hid => exact ⟨h.tracks⟩

theorem Founded.tracking (h : Founded host g) : Tracking M g where
  tracks id hid := by
    obtain ⟨s, -, heq⟩ := h.joined id hid
    rw [heq]
    exact ⟨fun c => rfl, fun c r hmem => by cases hmem⟩

/-! ## One machine -/

/-- The logs of the servers that have not stopped are prefixes of one log. -/
theorem Agrees.exists_log (h : g.Agrees) : ∃ l, ∀ x, g.Live x → (g.servers x).log <+: l := by
  by_cases hnone : ∃ x, g.Live x
  swap
  · exact ⟨[], fun x hx => absurd ⟨x, hx⟩ hnone⟩
  obtain ⟨z, hz⟩ := hnone
  have hmem : ∀ x, x ∈ g.members.toFinset.filter (· ∉ g.down) ↔ g.Live x := fun x => by
    rw [Finset.mem_filter, List.mem_toFinset]
    rfl
  obtain ⟨y, hy, hmax⟩ := Finset.exists_max_image _ (fun x => (g.servers x).log.length)
    ⟨z, (hmem z).mpr hz⟩
  refine ⟨(g.servers y).log, fun x hx => ?_⟩
  obtain hle | hle := h.comparable x y hx ((hmem y).mp hy)
  · exact hle
  · rw [hle.eq_of_length_le (hmax x ((hmem x).mpr hx))]

/-- **The group is one machine** that runs the requests of a log, the retries left out. -/
structure Replicates (M : StateMachine σ) (g : DiomedesGroup) : Prop where
  /-- What the clients have got is sent of what the machine answers. -/
  answers : ∀ x ∈ g.members, ∀ c b, .responded c b ∈ (g.servers x).deeds →
    M.Sends (g.servers x).log c b
  /-- What a client would get, if it asked again. -/
  responses : ∀ x ∈ g.members, ∀ c,
    (g.servers x).responseMap.lookup c = (M.service.replay (g.servers x).log).last c
  /-- If no client goes back to an xid that it has left, no request is run twice. -/
  once : ∀ x ∈ g.members, M.service.Forward (g.servers x).log →
    ((M.service.fresh (g.servers x).log).map fun preq => (preq.clientId, preq.request.xid)).Nodup
  one : ∃ l, ∀ x, g.Live x → (g.servers x).log <+: l ∧
    ∀ c b, .responded c b ∈ (g.servers x).deeds → M.Sends l c b

/-- **One state machine.**  In every run of a group that has joined and agrees, the servers answer
like one state machine: whatever a client has got from those that have not stopped is what the
state machine answers to a request of this client when it runs one log, in which what a client has
repeated is left out. -/
theorem one_machine (h₀ : Founded host g) (hl : Run.Along (step host) (fun g e g' =>
      g.Level e ∧ Answers M g e g') g es) :
    Run.Always (step host) (Replicates M) g es := by
  refine Run.Always.of_inv (I := fun g => Reigning host g ∧ Tracking M g) (fun g h => ?_)
    (fun _ _ _ hs h hl => ⟨h.1.step (step_steps hs) hl.1,
      h.2.step h.1.toOrdered (step_steps hs) hl.1 hl.2⟩) ⟨h₀.reigning, h₀.tracking⟩ hl
  obtain ⟨l, hlog⟩ := h.1.agrees.exists_log
  exact
    { answers := fun x hx => (h.2.tracks x hx).answers
      responses := fun x hx => (h.2.tracks x hx).responses
      once := fun x hx hforward => Service.nodup_fresh hforward
      one := ⟨l, fun x hx => ⟨hlog x hx, fun c b hmem =>
        ((h.2.tracks x hx.1).answers c b hmem).mono (hlog x hx)⟩⟩ }

/-- It counts the requests, and sends them back. -/
def counter : StateMachine ℕ := ⟨0, fun n m => (n + 1, m), fun _ _ => rfl⟩

theorem one_machine_trio :
    Run.Always (step Backup.servers) (Replicates counter) trio (acknowledged ++ succeeded) :=
  one_machine trio_founded (by decide +kernel)

end DiomedesGroup

end Falcon.Diomedes
