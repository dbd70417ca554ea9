import Falcon.Client.Children
import Falcon.Client.Fencing

/-!
# Client/Requests — how a request comes back to the thread that waits for it

`StartMonitoring` queues a `FalconRequest` and blocks in `GetCompleted` until the builder calls
`Complete`.  The builder does so for a target; after a failed `AddChild` it calls the client's
callback and leaves the request as it is, and the id it gives to the callback is the one in front of
the id that failed: the index of the loop has moved on.

* `serve_of_failed` — what becomes of a request that fails at the index `k`.
* `unreported` — the failure is never reported as the callers expect it.
-/

namespace Falcon.Client

/-- `falcon_target`. -/
structure FalconTarget where
  cb : CallbackRef
  topLayer : LayerRef
  deriving DecidableEq, Repr

/-- The fields of `FalconRequest` that its two threads share; a null target is `none`. -/
structure RequestState where
  done : Bool
  target : Option FalconTarget
  deriving DecidableEq, Repr

namespace RequestState

/-- As `FalconRequest` is constructed. -/
def pending : RequestState := ⟨false, none⟩

def complete (t : Option FalconTarget) (_ : RequestState) : RequestState := ⟨true, t⟩

/-- What `GetCompleted` returns, once it does. -/
def getCompleted (r : RequestState) : Option (Option FalconTarget) :=
  if r.done then some r.target else none

end RequestState

/-- The call of the client's function, among what a client library does. -/
def Action.isInvoked : Action → Bool
  | .invoked _ _ => true
  | _ => false

namespace FalconClient

variable {s s' : FalconClient} {req : StartRequest} {ans : ℕ → AddChildAnswers} {k : ℕ}

/-- The callback `start_builder` makes for a request. -/
def newCallback (req : StartRequest) : FalconCallback :=
  .create req.cb req.idlist req.clientData req.garbageStatus req.garbageRemote req.garbageIndex

/-- The builder has made the callback and comes to its loop. -/
def beginRequest (req : StartRequest) (s : FalconClient) : FalconClient :=
  { s with
    callbacks := Function.update s.callbacks s.nextCallback (newCallback req)
    nextCallback := s.nextCallback + 1 }

/-- `idlist[i]`, or `junk` outside the list. -/
def readId (idlist : List LayerId) (i : ℤ) (junk : LayerId) : LayerId :=
  if 0 ≤ i then idlist.getD i.toNat junk else junk

/-- The loop's `i` after an `AddChild` that has left `k` ids in front of its own. -/
def exitIndex (k : ℕ) : ℤ := k - 1

/-- One round of `start_builder`, with the state of the request it serves. -/
def serve (req : StartRequest) (ans : ℕ → AddChildAnswers) (junk : LayerId) (s : FalconClient) :
    Option (FalconClient × RequestState) :=
  match (s.beginRequest req).build req s.nextCallback req.idlist.reverse ans 0 with
  | none => none
  | some (s', .top L) =>
    some (s'.note (.completed s.nextCallback L),
      RequestState.pending.complete (some ⟨s.nextCallback, L⟩))
  | some (s', .failed rest) =>
    some (s'.runCallback (readId req.idlist (exitIndex rest.length) junk)
      ClientStatus.registrationError 0 s.nextCallback, .pending)

/-- `AddChild` returns no layer for `idlist[k]`, and one for every id behind it. -/
def FailsAt (req : StartRequest) (ans : ℕ → AddChildAnswers) (k : ℕ) (s : FalconClient) : Prop :=
  ∃ s' rest, (s.beginRequest req).build req s.nextCallback req.idlist.reverse ans 0 =
    some (s', .failed rest) ∧ rest.length = k

/-- The callback of the request is called once, with `REGISTRATION_ERROR` and the id `lid`. -/
structure Called (req : StartRequest) (lid : LayerId) (s s' : FalconClient) : Prop where
  callback : s'.callbacks s.nextCallback =
    ((newCallback req).call lid ClientStatus.registrationError 0).1
  once : ∃ l, s'.log = l ++ s.log ∧ l.filter Action.isInvoked =
    ((newCallback req).call lid ClientStatus.registrationError 0).2.map (.invoked s.nextCallback)

/-- **The failure at `idlist[k]` is reported**: to the callback, with the id that failed, and to the
thread that waits. -/
structure Reports (req : StartRequest) (k : ℕ) (s s' : FalconClient) (r : RequestState) : Prop where
  called : ∃ lid, req.idlist[k]? = some lid ∧ Called req lid s s'
  returned : r.getCompleted = some none
  /-- The index the builder reads the id at. -/
  inBounds : 0 ≤ exitIndex k ∧ exitIndex k < req.idlist.length

/-! ## The loop -/

/-- `AddChild` calls no callback. -/
theorem addChild_quiet {L : LayerRef} {a : AddChildArg} {b : AddChildAnswers}
    {ret : Option LayerRef} (h : s.addChild L a b = some (s', ret)) :
    s'.callbacks = s.callbacks ∧ ∃ l, s'.log = l ++ s.log ∧ l.filter Action.isInvoked = [] := by
  cases addChild_effect h with
  | found _ => exact ⟨rfl, [], rfl, rfl⟩
  | atBase _ _ _ => exact ⟨rfl, [], rfl, rfl⟩
  | registered _ _ _ _ =>
    exact ⟨rfl, [.called L (.register _) _, .called L (.getGen _) _], rfl, rfl⟩
  | @refused l _ _ hl =>
    refine ⟨rfl, l, rfl, List.filter_eq_nil_iff.mpr fun a ha => ?_⟩
    obtain ⟨tgt, rfl⟩ | ⟨arg, rfl, -⟩ := hl a ha
    · exact Bool.false_ne_true
    · exact Bool.false_ne_true

/-- The loop of `start_builder` calls none; where it fails, the ids that are left are in front of
the one that failed. -/
theorem build_quiet {cb : CallbackRef} {out : Built} (ids : List LayerId) :
    ∀ (ans : ℕ → AddChildAnswers) (L : LayerRef) (s : FalconClient),
      build req cb ids ans L s = some (s', out) →
      (s'.callbacks = s.callbacks ∧ ∃ l, s'.log = l ++ s.log ∧ l.filter Action.isInvoked = []) ∧
      ∀ rest, out = .failed rest → ∃ pre x, ids = pre ++ x :: rest := by
  induction ids with
  | nil =>
    intro ans L s h
    obtain ⟨rfl, rfl⟩ := Prod.mk.inj (Option.some.inj h)
    exact ⟨⟨rfl, [], rfl, rfl⟩, fun rest hrest => by cases hrest⟩
  | cons x ids ih =>
    intro ans L s h
    unfold build at h
    split at h
    · cases h
    · next s₁ hadd =>
      obtain ⟨rfl, rfl⟩ := Prod.mk.inj (Option.some.inj h)
      have hquiet := addChild_quiet hadd
      exact ⟨hquiet, fun rest hrest => ⟨[], x, by cases hrest; rfl⟩⟩
    · next s₁ c hadd =>
      obtain ⟨s₂, hcat, hbuild⟩ := Option.bind_eq_some_iff.mp h
      obtain ⟨hcb, l, hlog, hl⟩ := addChild_quiet hadd
      obtain ⟨hcb₂, hlog₂⟩ : s₂.callbacks = s₁.callbacks ∧ s₂.log = s₁.log := by
        unfold addLayer at hcat
        split_ifs at hcat <;> obtain rfl := Option.some.inj hcat <;> exact ⟨rfl, rfl⟩
      obtain ⟨⟨hcb', l', hlog', hl'⟩, hrest⟩ := ih _ c s₂ hbuild
      refine ⟨⟨hcb'.trans (hcb₂.trans hcb), l' ++ l, ?_, ?_⟩, fun rest hout => ?_⟩
      · rw [hlog', hlog₂, hlog, List.append_assoc]
        rfl
      · rw [List.filter_append, hl', hl]
        rfl
      · obtain ⟨pre, y, hids⟩ := hrest rest hout
        exact ⟨x :: pre, y, congrArg _ hids⟩

/-- The id in front of the one that failed. -/
theorem readId_exit {idlist rest pre : List LayerId} {x junk : LayerId}
    (h : idlist.reverse = pre ++ x :: rest) :
    readId idlist (exitIndex rest.length) junk = rest.headD junk := by
  have hids : idlist = rest.reverse ++ x :: pre.reverse := by
    rw [← List.reverse_reverse idlist, h]
    simp
  cases rest with
  | nil => rfl
  | cons y ys =>
    have hidx : exitIndex (y :: ys).length = (ys.reverse.length : ℤ) := by
      simp [exitIndex]
    rw [hidx, readId, if_pos (Int.natCast_nonneg _), Int.toNat_natCast, hids, List.headD_cons,
      List.reverse_cons, List.append_assoc]
    simp

/-- The round is the `START` request of the tree. -/
theorem serve_start (req : StartRequest) (ans : ℕ → AddChildAnswers) (junk : LayerId)
    (s : FalconClient) : (s.serve req ans junk).map Prod.fst = s.start req ans junk := by
  unfold serve start
  change _ = match (s.beginRequest req).build req s.nextCallback req.idlist.reverse ans 0 with
    | none => none
    | some (s', .top L) => some (s'.note (.completed s.nextCallback L))
    | some (s', .failed rest) =>
      some (s'.runCallback (rest.headD junk) ClientStatus.registrationError 0 s.nextCallback)
  cases hbuild : (s.beginRequest req).build req s.nextCallback req.idlist.reverse ans 0 with
  | none => rfl
  | some r =>
    obtain ⟨s', out⟩ := r
    cases out with
    | top L => rfl
    | failed rest =>
      obtain ⟨-, hfailed⟩ := build_quiet _ _ _ _ hbuild
      obtain ⟨pre, x, hids⟩ := hfailed rest rfl
      exact congrArg (fun lid => some (s'.runCallback lid _ _ _)) (readId_exit hids)

/-! ## A request that fails -/

/-- **What becomes of it**: the callback gets the id in front of the one that failed, or whatever is
there, and the request is left pending. -/
theorem serve_of_failed (junk : LayerId) (h : s.FailsAt req ans k) :
    ∃ s', s.serve req ans junk = some (s', .pending) ∧
      Called req (readId req.idlist (exitIndex k) junk) s s' := by
  obtain ⟨s₁, rest, hbuild, rfl⟩ := h
  obtain ⟨⟨hcb, l, hlog, hl⟩, -⟩ := build_quiet _ _ _ _ hbuild
  have hnew : s₁.callbacks s.nextCallback = newCallback req := by
    rw [hcb]
    exact Function.update_self ..
  refine ⟨_, by rw [serve, hbuild], ?_, ?_⟩
  · exact (Function.update_self ..).trans (by rw [hnew])
  · set lid := readId req.idlist (exitIndex rest.length) junk
    refine ⟨((newCallback req).call lid ClientStatus.registrationError 0).2.map
      (.invoked s.nextCallback) ++ l, ?_, ?_⟩
    · rw [List.append_assoc, ← show s₁.log = l ++ s.log from hlog, ← hnew]
      rfl
    · rw [List.filter_append, hl, List.append_nil]
      refine List.filter_eq_self.mpr fun a ha => ?_
      obtain ⟨i, -, rfl⟩ := List.mem_map.mp ha
      rfl

/-- **The failure is never reported**: the request is not completed, so that `StartMonitoring` does
not return, and the id the callback gets is not read at the index that failed. -/
theorem unreported (junk : LayerId) (h : s.FailsAt req ans k) :
    ∃ s' r, s.serve req ans junk = some (s', r) ∧ ¬Reports req k s s' r ∧
      r.getCompleted = none ∧ Called req (readId req.idlist (exitIndex k) junk) s s' := by
  obtain ⟨s', hserve, hcalled⟩ := serve_of_failed junk h
  exact ⟨s', .pending, hserve, fun hrep => Option.some_ne_none _ hrep.returned.symm, rfl, hcalled⟩

/-- The name of the machine does not resolve. -/
theorem unreported_machine : ∃ s' r, (init ⟨1, 0, 0⟩).serve appOnVm
      (fun _ => ⟨false, answer .genResp [], answer .registerAck []⟩) "" = some (s', r) ∧
    ¬Reports appOnVm 1 (init ⟨1, 0, 0⟩) s' r ∧ r.getCompleted = none ∧
    Called appOnVm "app" (init ⟨1, 0, 0⟩) s' :=
  unreported "" ⟨_, _, rfl, rfl⟩

/-- The enforcer of the machine does not know the application. -/
def appUnknown (_ : ℕ) : AddChildAnswers :=
  ⟨true, answer .unknownTarget [], answer .registerAck []⟩

/-- The callback gets what is in front of the list. -/
theorem unknown_unreported : (init ⟨1, 0, 0⟩).FailsAt appOnVm appUnknown 0 ∧
    ∃ s' r, (init ⟨1, 0, 0⟩).serve appOnVm appUnknown "" = some (s', r) ∧
      ¬Reports appOnVm 0 (init ⟨1, 0, 0⟩) s' r := by
  refine ⟨⟨_, _, rfl, rfl⟩, _, _, rfl, fun h => ?_⟩
  exact absurd h.inBounds.1 (by decide)

end FalconClient

end Falcon.Client
