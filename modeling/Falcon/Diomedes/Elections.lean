import Falcon.Diomedes.Primary
import Mathlib.Data.Finset.Lattice.Lemmas

/-!
# Diomedes/Elections — the end of an election

A new primary waits for the vote or the failure of every other replica.  But `CountVote` sets the
number of votes it needs when the first vote comes, and no failure lowers it later; and it tells
voters apart by a string that is put together from the parts of their ids.

* `completes` — so the election ends when every survivor has voted if, after the first vote, only
  servers fail whose vote has been counted, and no two voters have the same string.
-/

namespace Falcon.Diomedes.Server

/-- The other active servers. -/
def others (s : Server) : Finset DiomedesId := s.activeServers.toFinset.erase s.self

/-- Every survivor has voted, and the new primary still waits for a vote. -/
structure Stuck (s : Server) : Prop where
  mode : s.mode = .newPrimary
  other : s.others.Nonempty
  voted : s.others ⊆ s.voters

/-- A new primary that has not counted a vote. -/
structure Candidate (s : Server) : Prop where
  self_mem : s.self ∈ s.activeServers
  nodup : s.activeServers.Nodup
  election : s.election = none
  voters : s.voters = ∅

/-- What an election can take while there are other servers: once a vote has been counted, no server
fails that has not voted, unless it is the last one, and voters have different names. -/
def Countable (s : Server) : Event → Prop
  | .failure (some f) => s.mode = .newPrimary → s.election ≠ none → f ∈ s.others →
      f ∈ s.voters ∨ s.others = {f}
  | .message _ (.vote msg _) => s.mode = .newPrimary → s.others.Nonempty →
      ∀ v ∈ s.voters, v.name = msg.voter.name → v = msg.voter
  | _ => True

instance (s : Server) : Decidable s.Stuck :=
  decidable_of_iff (s.mode = .newPrimary ∧ s.others.Nonempty ∧ s.others ⊆ s.voters)
    ⟨fun h => ⟨h.1, h.2.1, h.2.2⟩, fun h => ⟨h.mode, h.other, h.voted⟩⟩

instance (s : Server) (e : Event) : Decidable (s.Countable e) :=
  Event.decidable (isTrue trivial) (fun _ => inferInstanceAs (Decidable (_ → _)))
    (fun _ _ _ => inferInstanceAs (Decidable (_ → _))) (fun _ => isTrue trivial)
    (fun _ => isTrue trivial) (fun _ _ => isTrue trivial) (fun _ => isTrue trivial)
    (fun _ => isTrue trivial) e

/-- **The count**: each voter is counted once, and a vote of one that can still vote, or more, is
missing. -/
structure Counting (s : Server) : Prop where
  first : s.election = none → s.voters = ∅
  names : ∀ v ∈ s.voters, ∀ w ∈ s.voters, v.name = w.name → v = w
  votes : ∀ el ∈ s.election, el.votes = s.voters.image DiomedesId.name
  reachable : ∀ el ∈ s.election, el.votesNeeded ≤ (s.others ∪ s.voters).card
  missing : ∀ el ∈ s.election, el.votes.card < el.votesNeeded

/-- The invariant of an election. -/
structure Elective (s : Server) : Prop where
  self_mem : s.self ∈ s.activeServers
  nodup : s.activeServers.Nodup
  counting : s.mode = .newPrimary → s.others.Nonempty → s.Counting

variable {s s' : Server} {e : Event} {f : DiomedesId} {msg : VoteMessage}
  {response : Option TcpRpcMsg} {bm : BackupMessage}

theorem Candidate.elective (h : s.Candidate) : s.Elective where
  self_mem := h.self_mem
  nodup := h.nodup
  counting _ _ :=
    { first := fun _ => h.voters
      names := fun v hv => absurd (h.voters ▸ hv) (Finset.notMem_empty v)
      votes := fun el hel => absurd (h.election ▸ hel) (Option.not_mem_none el)
      reachable := fun el hel => absurd (h.election ▸ hel) (Option.not_mem_none el)
      missing := fun el hel => absurd (h.election ▸ hel) (Option.not_mem_none el) }

theorem Counting.card_votes (h : s.Counting) {el : Election} (hel : el ∈ s.election) :
    el.votes.card = s.voters.card := by
  rw [h.votes el hel]
  exact Finset.card_image_of_injOn fun v hv w hw heq => h.names v hv w hw heq

/-- While a vote is missing, a survivor has not voted. -/
theorem Elective.not_stuck (h : s.Elective) : ¬ s.Stuck := by
  intro hstuck
  have hc := h.counting hstuck.mode hstuck.other
  cases hel : s.election with
  | none =>
    obtain ⟨v, hv⟩ := hstuck.other
    exact absurd (hc.first hel ▸ hstuck.voted hv) (Finset.notMem_empty v)
  | some el =>
    have hle := hc.reachable el hel
    have hlt := hc.missing el hel
    rw [Finset.union_eq_right.mpr hstuck.voted] at hle
    rw [hc.card_votes hel] at hlt
    omega

theorem Elective.length (h : s.Elective) : s.activeServers.length = s.others.card + 1 := by
  have hmem : s.self ∈ s.activeServers.toFinset := List.mem_toFinset.mpr h.self_mem
  rw [others, Finset.card_erase_of_mem hmem, List.toFinset_card_of_nodup h.nodup]
  have hpos := List.length_pos_of_mem h.self_mem
  omega

/-- What is not an election any more. -/
theorem Elective.of_mode (h : s.Elective) (hself : s'.self = s.self)
    (hactive : s'.activeServers = s.activeServers) (hmode : s'.mode ≠ .newPrimary) :
    s'.Elective where
  self_mem := by rw [hself, hactive]; exact h.self_mem
  nodup := hactive ▸ h.nodup
  counting hnew := absurd hnew hmode

/-- What the invariant is about. -/
theorem Elective.frame (h : s.Elective) (hself : s'.self = s.self)
    (hactive : s'.activeServers = s.activeServers) (hmode : s'.mode = s.mode)
    (hel : s'.election = s.election) (hvoters : s'.voters = s.voters) : s'.Elective := by
  have hothers : s'.others = s.others := by rw [others, others, hself, hactive]
  refine ⟨?_, hactive ▸ h.nodup, fun hnew hother => ?_⟩
  · rw [hself, hactive]
    exact h.self_mem
  · have hc := h.counting (hmode ▸ hnew) (hothers ▸ hother)
    constructor
    · rw [hel, hvoters]
      exact hc.first
    · rw [hvoters]
      exact hc.names
    · rw [hel, hvoters]
      exact hc.votes
    · rw [hel, hothers, hvoters]
      exact hc.reachable
    · rw [hel]
      exact hc.missing

theorem Elective.wake (h : s.Elective) : s.wake.Elective := by
  obtain ⟨-, heq⟩ | ⟨-, heq⟩ := s.wake_eq
  · rw [heq]
    exact h.of_mode rfl rfl (by simp)
  · rw [heq]
    exact h.frame rfl rfl rfl rfl rfl

/-- A failure: the votes that can still come are those of the others, or they have been counted. -/
theorem Elective.failure (h : s.Elective) (hself : f ≠ s.self)
    (hc : s.mode = .newPrimary → s.election ≠ none → f ∈ s.others → f ∈ s.voters ∨ s.others = {f}) :
    (s.processFailure (some f)).Elective := by
  have hothers : (s.processFailure (some f)).others = s.others.erase f := by
    ext v
    simp [others, processFailure, collect]
    tauto
  refine ⟨List.mem_filter.mpr ⟨h.self_mem, decide_eq_true hself.symm⟩, h.nodup.filter _,
    fun hmode hother => ?_⟩
  rw [hothers] at hother
  have hold := h.counting hmode (hother.mono (Finset.erase_subset _ _))
  refine ⟨hold.first, hold.names, hold.votes, fun el hel => ?_, hold.missing⟩
  refine (hold.reachable el hel).trans (Finset.card_le_card fun v hv => ?_)
  rw [hothers, Finset.mem_union, Finset.mem_erase]
  obtain hv | hv := Finset.mem_union.mp hv
  · by_cases hvf : v = f
    · have hel' : s.election ≠ none := fun hnone => Option.not_mem_none el (hnone ▸ hel)
      obtain hvoted | hlast := hc hmode hel' (hvf ▸ hv)
      · exact Or.inr (hvf ▸ hvoted)
      · rw [hlast, Finset.erase_singleton] at hother
        exact absurd hother Finset.not_nonempty_empty
    · exact Or.inl ⟨hvf, hv⟩
  · exact Or.inr hv

/-- What the next vote is added to: the votes counted, or none. -/
theorem Elective.tally (h : s.Elective) (hmode : s.mode = .newPrimary)
    (hother : s.others.Nonempty) :
    s.tally.votesNeeded ≤ (s.others ∪ s.voters).card ∧
      s.tally.votes = s.voters.image DiomedesId.name ∧
      s.tally.votes.card < s.tally.votesNeeded := by
  have hold := h.counting hmode hother
  rw [Replica.tally]
  cases hel : s.election with
  | none =>
    rw [hold.first hel, Finset.union_empty, Finset.image_empty, Option.getD_none, h.length,
      Nat.add_sub_cancel]
    exact ⟨le_rfl, rfl, Finset.card_pos.mpr hother⟩
  | some el => exact ⟨hold.reachable el hel, hold.votes el hel, hold.missing el hel⟩

/-- A vote: the voter is counted once, and the last missing vote ends the election. -/
theorem Elective.vote (h : s.Elective) (hmode : s.mode = .newPrimary) (hother : s.others.Nonempty)
    (hnames : ∀ v ∈ s.voters, v.name = msg.voter.name → v = msg.voter)
    (hs : s.countVote msg response = some s') : s'.Elective := by
  have hold := h.counting hmode hother
  obtain ⟨r, hr, rfl⟩ := countVote_eq hs
  obtain ⟨hreach, hvotes, hmissing⟩ := h.tally hmode hother
  obtain ⟨hzero, -⟩ | ⟨-, el, hcount⟩ := Replica.countVote_cases hr
  · omega
  refine ⟨?_, ?_, fun hmode' _ => ?_⟩
  · exact hcount.activeServers ▸ h.self_mem
  · exact hcount.activeServers ▸ h.nodup
  obtain ⟨hne, -, -⟩ | ⟨-, hwait, -⟩ := hcount.ends
  swap
  · exact absurd (hwait.symm.trans hmode') (by decide)
  have hcard : el.votes.card ≤ s.tally.votes.card + 1 := hcount.votes ▸ Finset.card_insert_le _ _
  constructor
  case first => exact fun hnone => absurd (hnone.symm.trans hcount.election) (by simp)
  case names =>
    intro v hv w hw heq
    obtain rfl | hv := Finset.mem_insert.mp hv
    · obtain rfl | hw := Finset.mem_insert.mp hw
      · rfl
      · exact (hnames w hw heq.symm).symm
    · obtain rfl | hw := Finset.mem_insert.mp hw
      · exact hnames v hv heq
      · exact hold.names v hv w hw heq
  case votes =>
    intro el' hel'
    obtain rfl := Option.some.inj (hcount.election.symm.trans hel')
    rw [hcount.votes, hvotes, Finset.image_insert]
  case reachable =>
    intro el' hel'
    obtain rfl := Option.some.inj (hcount.election.symm.trans hel')
    rw [hcount.votesNeeded]
    refine hreach.trans (Finset.card_le_card ?_)
    refine Finset.union_subset_union ?_ (Finset.subset_insert _ _)
    rw [others, others]
    exact hcount.activeServers ▸ Finset.Subset.refl _
  case missing =>
    intro el' hel'
    obtain rfl := Option.some.inj (hcount.election.symm.trans hel')
    have hneeded := hcount.votesNeeded
    omega

/-- An acknowledgement is no vote. -/
theorem Elective.ack (h : s.Elective) (hmode : s.mode = .processingRequest)
    (hs : s.addToAckers msg = some s') : s'.Elective := by
  obtain ⟨-, rfl⟩ | ⟨-, C, a, ⟨-, rfl⟩ | ⟨-, rfl⟩⟩ := addToAckers_cases hs
  · exact h
  · exact h.of_mode rfl rfl (by simp [hmode])
  · exact h.of_mode rfl rfl (by simp)

theorem Elective.message (h : s.Elective)
    (hc : ∀ msg response, bm = .vote msg response → s.mode = .newPrimary → s.others.Nonempty →
      ∀ v ∈ s.voters, v.name = msg.voter.name → v = msg.voter)
    (hs : s.processBackupMessage bm = some s') : s'.Elective := by
  obtain ⟨rfl, -⟩ | ⟨msg, response, rfl, ⟨hmode, hs⟩ | ⟨hmode, hs⟩⟩ :=
    processBackupMessage_cases hs
  · exact h
  · obtain hnone | hother := s.others.eq_empty_or_nonempty
    · -- nothing is counted without another server
      obtain ⟨r, hr, rfl⟩ := countVote_eq hs
      have hactive : r.activeServers = s.activeServers := by
        obtain ⟨-, rfl⟩ | ⟨-, el, hcount⟩ := Replica.countVote_cases hr
        · rfl
        · exact hcount.activeServers
      refine ⟨hactive ▸ h.self_mem, hactive ▸ h.nodup, fun _ hother => ?_⟩
      rw [others, hactive, ← others, hnone] at hother
      exact absurd hother Finset.not_nonempty_empty
    · exact h.vote hmode hother (hc msg response rfl hmode hother) hs
  · exact h.ack hmode hs

theorem Elective.step (h : s.Elective) (hs : s.step e = some s') (hc : s.Countable e) :
    s'.Elective := by
  cases e with
  | failure failed =>
    obtain ⟨hself, rfl⟩ := step_failure hs
    cases failed with
    | none => exact h.wake
    | some f =>
      have hself' : f ≠ s.self := fun hf => hself (by rw [hf])
      obtain ⟨-, heq⟩ | ⟨-, heq⟩ := s.wake_eq
      · refine h.wake.failure (by rw [heq]; exact hself') fun hmode => ?_
        rw [heq] at hmode
        cases hmode
      · refine h.wake.failure (by rw [heq]; exact hself') ?_
        rw [heq]
        exact hc
  | message first bm =>
    obtain ⟨t, s₁, p, ht, hs₁, rfl⟩ := step_message hs
    have hkeep : s₁.Elective := by
      obtain ⟨-, rfl⟩ | ⟨-, -, rfl⟩ := ht
      · refine h.wake.message (fun msg response heq hmode hother => ?_) hs₁
        subst heq
        obtain ⟨-, hw⟩ | ⟨-, hw⟩ := s.wake_eq
        · rw [hw] at hmode
          cases hmode
        · rw [hw] at hmode hother ⊢
          exact hc hmode hother
      · refine h.message (fun msg response heq hmode hother => ?_) hs₁
        subst heq
        exact hc hmode hother
    exact hkeep.frame rfl rfl rfl rfl rfl
  | request m response =>
    obtain ⟨-, rfl⟩ | ⟨-, hs⟩ := step_request hs
    · exact h.wake
    · obtain ⟨hmode, ⟨-, rfl⟩ | ⟨-, L, R, D, ⟨-, rfl⟩ | ⟨-, rfl⟩⟩⟩ :=
        handleRequestAsPrimary_cases hs
      · exact h.wake
      · exact h.wake.of_mode rfl rfl (by simp [await])
      · exact h.wake.of_mode rfl rfl (by simp [executed, hmode])
  | cached response =>
    obtain ⟨-, -, hs⟩ := step_cached hs
    obtain ⟨L, R, D, id, rfl⟩ := runFromRequestCache_cases hs
    exact h.of_mode rfl rfl (by simp [await])
  | respond r =>
    obtain ⟨-, x, -, ⟨-, rfl⟩ | ⟨-, rfl⟩⟩ := respond_cases hs
    · exact h.frame rfl rfl rfl rfl rfl
    · exact h.frame rfl rfl rfl rfl rfl

/-- **The election completes.**  In every run of a new primary in which no server fails that has not
voted once the first vote has been counted, unless it is the last other one, and in which no two
voters have the same name, the primary never waits for a vote after every survivor has voted. -/
theorem completes {s₀ : Server} {es : List Event} (h₀ : s₀.Candidate)
    (hC : Run.Along step (fun s e _ => s.Countable e) s₀ es) :
    Run.Always step (fun s => ¬ s.Stuck) s₀ es :=
  Run.Always.of_inv (fun _ h => h.not_stuck) (fun _ _ _ hs h hc => h.step hs hc) h₀.elective hC

/-! ## A group of three -/

/-- The id of a server. -/
def serverOn (domain : String) : DiomedesId := ⟨"diomedes", domain, "host"⟩

/-- The server on `a` has become the primary after one request; the group survives one failure. -/
def candidate : Server where
  mode := .newPrimary
  currReqId := 1
  lastValidReqId := 0
  lastPrimaryRequest := ⟨primaryRequest, 60, ⟨1, 7, ⟨100, []⟩⟩⟩
  activeServers := [serverOn "a", serverOn "b", serverOn "c"]
  requestMap := ∅
  responseMap := (∅ : Keyed UInt32 TcpRpcMsg).insert 7 ⟨100, []⟩
  election := none
  deeds := [.ran ⟨1, 7, ⟨100, []⟩⟩]
  self := serverOn "a"
  failures := 1
  failuresObserved := 0
  acksNeeded := 0
  ackers := ∅
  clientMap := ∅
  responders := []
  settling := false
  pulling := false
  voters := ∅
  acknowledgers := ∅
  collected := []
  acked := 0

/-- The vote of a server that has executed request 1. -/
def voteOf (domain : String) : Event :=
  .message true (.vote ⟨156, serverOn domain, ⟨1, 7, ⟨100, []⟩⟩⟩ none)

theorem candidate_candidate : candidate.Candidate := ⟨by decide, by decide, rfl, rfl⟩

/-- The server on `b` fails after its vote, and the one on `c` votes. -/
theorem completes_after_vote : Run.Always step (fun s => ¬ s.Stuck) candidate
    [voteOf "b", .failure (some (serverOn "b")), voteOf "c"] :=
  completes candidate_candidate (by decide)

/-- The server on `c` fails after the vote of `b`: the new primary waits for a second vote, but
there is nobody left to send one. -/
theorem not_completes : candidate.Candidate ∧ ¬ Run.Always step (fun s => ¬ s.Stuck) candidate
    [voteOf "b", .failure (some (serverOn "c"))] := by
  refine ⟨candidate_candidate, fun h => ?_⟩
  have hstuck := (h.2 _ rfl).2 _ rfl
  exact hstuck.1 (by decide)

end Falcon.Diomedes.Server
