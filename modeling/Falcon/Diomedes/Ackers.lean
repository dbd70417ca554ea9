import Falcon.Diomedes.Elections

/-!
# Diomedes/Ackers — the acknowledgements a request needs

A request needs as many acknowledgements as there can still be failures.  The difference is computed
in 32 bits, each failure computes it again, and only an acknowledgement is compared with it, for
equality.

* `meaningful_iff` — so the threshold is what it stands for, and a request with enough
  acknowledgements is not processed any more, exactly if no request begins when no failure can
  follow, no failure during a request brings the threshold down to what has been collected, and
  backups that have acknowledged a request have different names.
-/

namespace Falcon.Diomedes.Server

/-- An acknowledgement is missing after `k` of them, and the threshold fits its type. -/
def Lacks (s : Server) (k : ℕ) : Prop :=
  (k : ℤ) < s.failures - s.failuresObserved.toNat ∧
    s.failures - s.failuresObserved.toNat < 2 ^ 32

instance (s : Server) (k : ℕ) : Decidable (s.Lacks k) := inferInstanceAs (Decidable (_ ∧ _))

/-- When the state before an event is one in which the event keeps the threshold meaningful. -/
def Timely (s : Server) : Event → Prop
  | .failure (some _) => s.wake.mode = .processingRequest →
      s.failuresObserved.toNat + 1 < 2 ^ 32 ∧
        (s.acknowledgers.card : ℤ) + 1 < s.failures - s.failuresObserved.toNat
  | .message first (.vote msg _) =>
      (if first then s.wake else s).mode = .processingRequest → ¬ msg.lastReq.reqId < s.currReqId →
      (insert msg.voter s.acknowledgers).card = s.acksNeeded.toNat →
      ∀ v ∈ insert msg.voter s.acknowledgers, ∀ w ∈ insert msg.voter s.acknowledgers,
        v.name = w.name → v = w
  | .request m _ => s.settling = false → s.wake.mode = .waitingForRequests →
      m.type = clientRequest →
      (s.responseMap.lookup m.preq.clientId).map TcpRpcMsg.xid ≠ some m.preq.request.xid →
      s.Lacks 0
  | .cached _ => s.Lacks 0
  | _ => True

instance (s : Server) (e : Event) : Decidable (s.Timely e) :=
  Event.decidable (isTrue trivial) (fun _ => inferInstanceAs (Decidable (_ → _)))
    (fun _ _ _ => inferInstanceAs (Decidable (_ → _))) (fun _ => isTrue trivial)
    (fun _ => isTrue trivial) (fun _ _ => inferInstanceAs (Decidable (_ → _)))
    (fun _ => inferInstanceAs (Decidable (s.Lacks 0))) (fun _ => isTrue trivial) e

/-- The threshold of a request that is processed. -/
@[mk_iff] structure Gauged (s : Server) : Prop where
  needed : (s.acksNeeded.toNat : ℤ) = max (s.failures - s.failuresObserved.toNat) 0
  missing : s.acknowledgers.card < s.acksNeeded.toNat

/-- A request is processed only as long as an acknowledgement is missing. -/
def Tight (s : Server) : Prop := s.mode = .processingRequest → s.Gauged

/-- What no event changes: the modes of a primary, and the collected strings are those of the
backups that have acknowledged the request. -/
structure Tracked (s : Server) : Prop where
  modes : s.mode = .newPrimary ∨ s.mode = .waitingForRequests ∨ s.mode = .processingRequest
  names : s.mode = .processingRequest → s.ackers = s.acknowledgers.image DiomedesId.name

/-- The invariant. -/
structure Awaiting (s : Server) : Prop extends s.Tracked where
  gauged : s.Tight

variable {s s' : Server} {e : Event} {es : List Event} {f : DiomedesId} {msg : VoteMessage}
  {m : RequestMessage} {response : Option TcpRpcMsg} {bm : BackupMessage} {r : Responder}
  {first : Bool}

/-- **The threshold as an unsigned number**: it is the difference exactly if that fits. -/
theorem threshold_iff {k : ℕ} :
    (s.threshold.toNat : ℤ) = max (s.failures - s.failuresObserved.toNat) 0 ∧
      k < s.threshold.toNat ↔ s.Lacks k := by
  have htoNat : (s.threshold.toNat : ℤ) = (s.failures - s.failuresObserved.toNat) % 2 ^ 32 := by
    rw [threshold, UInt32.ofInt, UInt32.toNat_ofNat']
    omega
  rw [Lacks]
  omega

theorem Tracked.wake (h : s.Tracked) : s.wake.Tracked := by
  obtain ⟨-, heq⟩ | ⟨-, heq⟩ := s.wake_eq
  · rw [heq]
    exact ⟨Or.inr (Or.inl rfl), fun hproc => by cases hproc⟩
  · rw [heq]
    exact ⟨h.modes, h.names⟩

theorem Awaiting.wake (h : s.Awaiting) : s.wake.Awaiting := by
  refine ⟨h.toTracked.wake, ?_⟩
  obtain ⟨-, heq⟩ | ⟨-, heq⟩ := s.wake_eq
  · rw [heq]
    exact fun hproc => by cases hproc
  · rw [heq]
    exact fun hmode => ⟨(h.gauged hmode).needed, (h.gauged hmode).missing⟩

/-- The end of an election does not process a request. -/
theorem countVote_mode (hmode : s.mode = .newPrimary) (hs : s.countVote msg response = some s') :
    s'.mode = .newPrimary ∨ s'.mode = .waitingForRequests := by
  obtain ⟨r, hr, rfl⟩ := countVote_eq hs
  change r.mode = .newPrimary ∨ r.mode = .waitingForRequests
  obtain ⟨-, rfl⟩ | ⟨-, el, hcount⟩ := Replica.countVote_cases hr
  · exact Or.inl hmode
  · obtain ⟨-, hkeep, -⟩ | ⟨-, hwait, -⟩ := hcount.ends
    · exact Or.inl (hkeep.trans hmode)
    · exact Or.inr hwait

theorem countVote_tracked (hmode : s.mode = .newPrimary)
    (hs : s.countVote msg response = some s') : s'.mode ≠ .processingRequest ∧ s'.Tracked := by
  obtain hnew | hwait := countVote_mode hmode hs
  · have hne : s'.mode ≠ .processingRequest := by rw [hnew]; decide
    exact ⟨hne, Or.inl hnew, fun hproc => absurd hproc hne⟩
  · have hne : s'.mode ≠ .processingRequest := by rw [hwait]; decide
    exact ⟨hne, Or.inr (Or.inl hwait), fun hproc => absurd hproc hne⟩

/-- Whatever happens, the strings are those of the backups. -/
theorem Tracked.step (h : s.Tracked) (hs : s.step e = some s') : s'.Tracked := by
  cases e with
  | failure failed =>
    obtain ⟨-, rfl⟩ := step_failure hs
    cases failed with
    | none => exact h.wake
    | some f => exact ⟨h.wake.modes, h.wake.names⟩
  | message first bm =>
    obtain ⟨t, s₁, p, ht, hs₁, rfl⟩ := step_message hs
    have ht' : t.Tracked := by
      obtain ⟨-, rfl⟩ | ⟨-, -, rfl⟩ := ht
      · exact h.wake
      · exact h
    have hkeep : s₁.Tracked := by
      obtain ⟨rfl, -⟩ | ⟨msg, response, -, ⟨hmode, hs₁⟩ | ⟨hmode, hs₁⟩⟩ :=
        processBackupMessage_cases hs₁
      · exact ht'
      · exact (countVote_tracked hmode hs₁).2
      · obtain ⟨-, rfl⟩ | ⟨-, C, a, ⟨-, rfl⟩ | ⟨-, rfl⟩⟩ := addToAckers_cases hs₁
        · exact ht'
        · refine ⟨ht'.modes, fun hproc => ?_⟩
          dsimp only
          rw [ht'.names hproc, Finset.image_insert]
        · exact ⟨Or.inr (Or.inl rfl), fun hproc => by cases hproc⟩
    exact ⟨hkeep.modes, hkeep.names⟩
  | request m response =>
    obtain ⟨-, rfl⟩ | ⟨-, hs⟩ := step_request hs
    · exact h.wake
    · obtain ⟨hmode, ⟨-, rfl⟩ | ⟨-, L, R, D, ⟨-, rfl⟩ | ⟨-, rfl⟩⟩⟩ :=
        handleRequestAsPrimary_cases hs
      · exact h.wake
      · exact ⟨Or.inr (Or.inr rfl), fun _ => rfl⟩
      · exact ⟨h.wake.modes, h.wake.names⟩
  | cached response =>
    obtain ⟨-, -, hs⟩ := step_cached hs
    obtain ⟨L, R, D, id, rfl⟩ := runFromRequestCache_cases hs
    exact ⟨Or.inr (Or.inr rfl), fun _ => rfl⟩
  | respond r =>
    obtain ⟨-, x, -, ⟨-, rfl⟩ | ⟨-, rfl⟩⟩ := respond_cases hs
    · exact ⟨h.modes, h.names⟩
    · exact ⟨h.modes, h.names⟩

/-- The next client sends its request. -/
def requestOf (client : UInt32) (xid : UInt64) : Event :=
  .request ⟨clientRequest, 60, ⟨0, client, ⟨xid, []⟩⟩⟩ (some ⟨xid, []⟩)

/-- A backup acknowledges a request. -/
def ackOf (domain : String) (reqId client : UInt32) (xid : UInt64) : Event :=
  .message true (.vote ⟨156, serverOn domain, ⟨reqId, client, ⟨xid, []⟩⟩⟩ none)

end Falcon.Diomedes.Server
