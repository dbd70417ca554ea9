import Mathlib.Data.Int.Notation
import Mathlib.Data.List.Basic

/-!
# Client/Callback — `FalconCallback`, and what exactly-once delivery takes

A `FalconCallback` carries the client's function through the tree of layers.  The same object sits
on the callback lists of all layers of its path, so several final events may reach it; the first one
to do so sets `run_final_` and takes the function away, or, when the client has deactivated the
callback before, defers what it would have said to the next `Reactivate`.

The client should hear of one final event, the first.  `exactlyOnce_iff` says for which sequences of
operations it does: `Reactivate` puts the function back after a final event, where the next final
event finds it, and repeats the deferred event each time, written or not.
-/

namespace Falcon

/-- `LayerId`. -/
abbrev LayerId := String

/-- A `falcon_callback_fn` other than `NULL`. -/
abbrev CallbackFn := ℕ

/-- The client's `void*`; 0 is `NULL`. -/
abbrev ClientData := ℕ

/-! ## `client_status.h` -/

namespace ClientStatus

def downFromRemote : UInt32 := 0
def killedByRemote : UInt32 := 1
def remoteWouldKill : UInt32 := 2
def falconE2ETimeout : UInt32 := 5
def killLongDead : UInt32 := 6
def registrationError : UInt32 := 7
def signOfLife : UInt32 := 8

end ClientStatus

/-- `struct cb_package`: one call of the client's function.  The function gets the status with the
index of the layer in its upper half. -/
structure Invocation where
  cb : CallbackFn
  idList : List LayerId
  clientData : ClientData
  falconStatus : UInt32
  remoteStatus : UInt32
  index : ℤ
  deriving DecidableEq, Repr

/-- `class FalconCallback`; the lock makes each method one step. -/
structure FalconCallback where
  f : Option CallbackFn
  h : List LayerId
  cd : ClientData
  repeatable : Bool
  runFinal : Bool
  deferredFalconStatus : UInt32
  deferredRemoteStatus : UInt32
  deferredIndex : ℤ
  deriving DecidableEq, Repr

namespace FalconCallback

/-- The constructor as `start_builder` calls it.  The deferred fields are not initialised: they hold
whatever the memory held. -/
def create (f : Option CallbackFn) (h : List LayerId) (cd : ClientData) (status remote : UInt32)
    (index : ℤ) : FalconCallback :=
  ⟨f, h, cd, true, false, status, remote, index⟩

def deactivate (cb : FalconCallback) : FalconCallback := { cb with f := none }

/-- The fields `Reactivate` sets. -/
def restore (f : CallbackFn) (cd : ClientData) (cb : FalconCallback) : FalconCallback :=
  { cb with f := some f, cd := if cd ≠ 0 then cd else cb.cd }

/-- `Reactivate` with a function; it delivers the deferred event if a final one has come. -/
def reactivate (f : CallbackFn) (cd : ClientData) (cb : FalconCallback) :
    FalconCallback × List Invocation :=
  (cb.restore f cd,
    if cb.runFinal then
      [⟨f, cb.h, (cb.restore f cd).cd, cb.deferredFalconStatus, cb.deferredRemoteStatus,
        cb.deferredIndex⟩]
    else [])

def setData (newData : ClientData) (cb : FalconCallback) : FalconCallback :=
  { cb with cd := newData }

/-- The layer index `operator()` reports: the loop leaves `h_.size()` where the layer is not found.
-/
def indexOf (cb : FalconCallback) (lid : LayerId) (falconStatus : UInt32) : ℤ :=
  if falconStatus = ClientStatus.signOfLife then (cb.h.length : ℤ) - 1 else (cb.h.idxOf lid : ℤ)

/-- The branch of `operator()` for a callback without a function. -/
def defer (lid : LayerId) (falconStatus remoteStatus : UInt32) (cb : FalconCallback) :
    FalconCallback :=
  if cb.f = none ∧ cb.runFinal = false then
    { cb with
      deferredFalconStatus := falconStatus
      deferredRemoteStatus := remoteStatus
      deferredIndex := cb.indexOf lid falconStatus }
  else cb

/-- The end of `operator()`. -/
def finish (falconStatus : UInt32) (cb : FalconCallback) : FalconCallback :=
  if cb.repeatable = false ∨ falconStatus ≠ ClientStatus.signOfLife then
    { cb with f := none, runFinal := true }
  else cb

/-- `operator()`. -/
def call (lid : LayerId) (falconStatus remoteStatus : UInt32) (cb : FalconCallback) :
    FalconCallback × List Invocation :=
  ((cb.defer lid falconStatus remoteStatus).finish falconStatus,
    match cb.f with
    | some f => [⟨f, cb.h, cb.cd, falconStatus, remoteStatus, cb.indexOf lid falconStatus⟩]
    | none => [])

/-! ## Sequences of operations -/

/-- The operations on a callback that change it. -/
inductive Op
  | event (lid : LayerId) (falconStatus remoteStatus : UInt32)
  | deactivate
  | reactivate (f : CallbackFn) (cd : ClientData)
  | setData (newData : ClientData)
  deriving DecidableEq, Repr

/-- The operation is an event with a final status. -/
def Op.isFinal : Op → Bool
  | .event _ falconStatus _ => falconStatus ≠ ClientStatus.signOfLife
  | _ => false

def Op.isReactivate : Op → Bool
  | .reactivate _ _ => true
  | _ => false

def apply (cb : FalconCallback) : Op → FalconCallback × List Invocation
  | .event lid falconStatus remoteStatus => cb.call lid falconStatus remoteStatus
  | .deactivate => (cb.deactivate, [])
  | .reactivate f cd => cb.reactivate f cd
  | .setData newData => (cb.setData newData, [])

/-- The callback after the operations. -/
def after (cb : FalconCallback) : List Op → FalconCallback
  | [] => cb
  | op :: ops => (cb.apply op).1.after ops

/-- The calls of the client's function, in order. -/
def invocations (cb : FalconCallback) : List Op → List Invocation
  | [] => []
  | op :: ops => (cb.apply op).2 ++ (cb.apply op).1.invocations ops

/-- The calls with a final status. -/
def finals (cb : FalconCallback) (ops : List Op) : List Invocation :=
  (cb.invocations ops).filter fun i => i.falconStatus ≠ ClientStatus.signOfLife

/-- `op` is the first final event of `ops`, after `pre` and before `post`. -/
structure FirstFinal (ops pre : List Op) (lid : LayerId) (falconStatus remoteStatus : UInt32)
    (post : List Op) : Prop where
  split : ops = pre ++ .event lid falconStatus remoteStatus :: post
  final : falconStatus ≠ ClientStatus.signOfLife
  first : ∀ op ∈ pre, op.isFinal = false

/-- **Exactly-once final delivery**, over the whole sequence. -/
structure ExactlyOnce (cb : FalconCallback) (ops : List Op) : Prop where
  /-- At most one call has a final status. -/
  once : (cb.finals ops).length ≤ 1
  /-- There is one if the first final event found the callback active, or it has been reactivated
  since. -/
  delivered : ∀ pre lid fs rs post, FirstFinal ops pre lid fs rs post →
    ((cb.after pre).f.isSome = true ∨ ∃ op ∈ post, op.isReactivate = true) →
    (cb.finals ops).length = 1
  /-- It tells of the first final event; there was one. -/
  faithful : ∀ i ∈ cb.finals ops, ∃ pre lid fs rs post, FirstFinal ops pre lid fs rs post ∧
    i.index = cb.indexOf lid fs ∧ i.falconStatus = fs ∧ i.remoteStatus = rs

/-- How many final events of `ops` find the callback active, if it is so at first. -/
def strikes : Bool → List Op → ℕ
  | _, [] => 0
  | active, .event _ falconStatus _ :: ops =>
    if falconStatus = ClientStatus.signOfLife then strikes active ops
    else (if active then 1 else 0) + strikes false ops
  | _, .deactivate :: ops => strikes false ops
  | _, .reactivate _ _ :: ops => strikes true ops
  | active, .setData _ :: ops => strikes active ops

/-- How often `ops` reactivate the callback. -/
def reactivations (ops : List Op) : ℕ := ops.countP Op.isReactivate

/-- What may follow the first final event: no final event that finds the callback active again; and
one reactivation if the event was deferred, or none if it was delivered (unless what `Reactivate`
then repeats is a sign of life). -/
def Quiet (cb : FalconCallback) (pre post : List Op) : Prop :=
  strikes false post = 0 ∧
    if (cb.after pre).f.isSome then
      reactivations post = 0 ∨ (cb.after pre).deferredFalconStatus = ClientStatus.signOfLife
    else reactivations post ≤ 1

/-! ## One operation -/

variable {cb : FalconCallback} {op : Op} {ops ops' pre post : List Op} {lid : LayerId}
  {fs rs : UInt32}

theorem finals_append : cb.finals (ops ++ ops') = cb.finals ops ++ (cb.after ops).finals ops' := by
  induction ops generalizing cb with
  | nil => rfl
  | cons op ops ih =>
    simp only [finals, List.cons_append, invocations, List.filter_append, List.append_assoc,
      after] at ih ⊢
    rw [ih]

theorem finals_cons : cb.finals (op :: ops) =
    ((cb.apply op).2.filter fun i => i.falconStatus ≠ ClientStatus.signOfLife) ++
      (cb.apply op).1.finals ops := List.filter_append ..

/-- The callback stays one that was created for `h`, and repeatable. -/
theorem apply_const (op : Op) : (cb.apply op).1.h = cb.h ∧
    (cb.apply op).1.repeatable = cb.repeatable := by
  cases op with
  | event lid fs rs =>
    simp only [apply, call, finish, defer]
    split_ifs <;> exact ⟨rfl, rfl⟩
  | _ => exact ⟨rfl, rfl⟩

/-- Before the first final event, no operation makes a final call. -/
theorem finals_of_not_final (hrep : cb.repeatable = true) (hrun : cb.runFinal = false)
    (h : ∀ op ∈ ops, op.isFinal = false) : cb.finals ops = [] ∧ (cb.after ops).h = cb.h ∧
      (cb.after ops).repeatable = true ∧ (cb.after ops).runFinal = false := by
  induction ops generalizing cb with
  | nil => exact ⟨rfl, rfl, hrep, hrun⟩
  | cons op ops ih =>
    obtain ⟨hop, hops⟩ := List.forall_mem_cons.mp h
    obtain ⟨hh, hrep'⟩ := @apply_const cb op
    have hone : (cb.apply op).1.runFinal = false ∧
        ((cb.apply op).2.filter fun i => i.falconStatus ≠ ClientStatus.signOfLife) = [] := by
      cases op with
      | event lid fs rs =>
        have hsol : fs = ClientStatus.signOfLife := by simpa [Op.isFinal] using hop
        subst hsol
        constructor
        · simp only [apply, call, finish, defer, hrep]
          split_ifs <;> simp_all
        · simp only [apply, call]
          cases cb.f <;> rfl
      | deactivate => exact ⟨hrun, rfl⟩
      | reactivate f cd => exact ⟨hrun, by simp [apply, reactivate, hrun]⟩
      | setData newData => exact ⟨hrun, rfl⟩
    obtain ⟨hfin, hh', hrest⟩ := ih (hrep'.trans hrep) hone.1 hops
    rw [finals_cons, hone.2, hfin]
    exact ⟨rfl, hh'.trans hh, hrest⟩

/-! ## After a final event -/

/-- Once a final event has come, nothing is deferred any more. -/
theorem apply_event_of_runFinal (hrep : cb.repeatable = true) (hrun : cb.runFinal = true) :
    (cb.apply (.event lid fs rs)).1 =
      if fs = ClientStatus.signOfLife then cb else cb.deactivate := by
  have hdefer : cb.defer lid fs rs = cb := if_neg fun h => by simp [hrun] at h
  have happly : (cb.apply (.event lid fs rs)).1 = cb.finish fs := congrArg (finish fs) hdefer
  rw [happly, finish]
  by_cases hsol : fs = ClientStatus.signOfLife
  · rw [if_pos hsol,
      if_neg fun h => h.elim (fun h => Bool.noConfusion (hrep.symm.trans h)) (· hsol)]
  · rw [if_neg hsol, if_pos (Or.inr hsol), deactivate, ← hrun]

/-- The final calls an event makes. -/
theorem filter_call : ((cb.apply (.event lid fs rs)).2.filter fun i =>
      i.falconStatus ≠ ClientStatus.signOfLife).length =
    if fs = ClientStatus.signOfLife then 0 else if cb.f.isSome then 1 else 0 := by
  simp only [apply, call]
  cases cb.f with
  | none => simp
  | some f => by_cases h : fs = ClientStatus.signOfLife <;> simp [h]

/-- **What the client hears after a final event**: each final event that finds the callback active,
and each reactivation unless it repeats a sign of life. -/
theorem length_finals (hrep : cb.repeatable = true) (hrun : cb.runFinal = true) :
    (cb.finals ops).length = strikes cb.f.isSome ops +
      if cb.deferredFalconStatus = ClientStatus.signOfLife then 0 else reactivations ops := by
  induction ops generalizing cb with
  | nil => simp [finals, invocations, strikes, reactivations]
  | cons op ops ih =>
    rw [finals_cons, List.length_append]
    cases op with
    | event lid fs rs =>
      rw [filter_call, apply_event_of_runFinal hrep hrun]
      have hcount : reactivations (.event lid fs rs :: ops) = reactivations ops :=
        List.countP_cons_of_neg (by simp [Op.isReactivate])
      by_cases hsol : fs = ClientStatus.signOfLife
      · rw [if_pos hsol, if_pos hsol, ih hrep hrun, hcount, strikes, if_pos hsol, Nat.zero_add]
      · rw [if_neg hsol, if_neg hsol, @ih cb.deactivate hrep hrun, hcount, strikes,
          if_neg hsol, Nat.add_assoc]
        rfl
    | deactivate =>
      rw [strikes, ← show strikes cb.deactivate.f.isSome ops = strikes false ops from rfl]
      exact (Nat.zero_add _).trans (ih hrep hrun)
    | reactivate f cd =>
      have hcount : reactivations (.reactivate f cd :: ops) = reactivations ops + 1 :=
        List.countP_cons_of_pos rfl
      have hrest : ((cb.restore f cd).finals ops).length = strikes true ops +
          if cb.deferredFalconStatus = ClientStatus.signOfLife then 0 else reactivations ops :=
        @ih (cb.restore f cd) hrep hrun
      simp only [apply, reactivate, hrun, if_true, hrest, hcount, strikes]
      by_cases hsol : cb.deferredFalconStatus = ClientStatus.signOfLife
      · simp [hsol]
      · simp only [hsol, ne_eq, not_false_eq_true, decide_true, List.filter_cons_of_pos,
          List.filter_nil, List.length_singleton, if_false]
        omega
    | setData newData =>
      exact (Nat.zero_add _).trans (@ih (cb.setData newData) hrep hrun)

/-- Without strikes, all it hears is what was deferred. -/
theorem finals_deferred (hrep : cb.repeatable = true) (hrun : cb.runFinal = true)
    (h : strikes cb.f.isSome ops = 0) : ∀ i ∈ cb.finals ops, i.index = cb.deferredIndex ∧
      i.falconStatus = cb.deferredFalconStatus ∧ i.remoteStatus = cb.deferredRemoteStatus := by
  induction ops generalizing cb with
  | nil => exact fun i hi => (List.not_mem_nil hi).elim
  | cons op ops ih =>
    rw [finals_cons]
    intro i hi
    cases op with
    | event lid fs rs =>
      have hcall := @filter_call cb lid fs rs
      rw [apply_event_of_runFinal hrep hrun] at hi
      by_cases hsol : fs = ClientStatus.signOfLife
      · rw [if_pos hsol] at hcall hi
        rw [strikes, if_pos hsol] at h
        rw [List.eq_nil_of_length_eq_zero hcall, List.nil_append] at hi
        exact ih hrep hrun h i hi
      · rw [if_neg hsol] at hcall hi
        rw [strikes, if_neg hsol] at h
        obtain ⟨hidle, hrest⟩ := Nat.add_eq_zero_iff.mp h
        rw [List.eq_nil_of_length_eq_zero (hcall.trans hidle), List.nil_append] at hi
        exact @ih cb.deactivate hrep hrun hrest i hi
    | deactivate => exact @ih cb.deactivate hrep hrun h i hi
    | reactivate f cd =>
      obtain hi | hi := List.mem_append.mp hi
      · have hmem := (List.mem_filter.mp hi).1
        simp only [apply, reactivate, hrun, if_true, List.mem_singleton] at hmem
        subst hmem
        exact ⟨rfl, rfl, rfl⟩
      · exact @ih (cb.restore f cd) hrep hrun h i hi
    | setData newData => exact @ih (cb.setData newData) hrep hrun h i hi

/-- A strike takes a reactivation. -/
theorem reactivations_pos (h : strikes false ops ≠ 0) : reactivations ops ≠ 0 := by
  induction ops with
  | nil => exact h
  | cons op ops ih =>
    cases op with
    | event lid fs rs =>
      have hcount : reactivations (.event lid fs rs :: ops) = reactivations ops :=
        List.countP_cons_of_neg (by simp [Op.isReactivate])
      rw [hcount]
      refine ih fun h0 => h ?_
      simp only [strikes, h0, Bool.false_eq_true, if_false, ite_self]
    | deactivate => exact ih h
    | reactivate f cd =>
      have hpos : 0 < reactivations (.reactivate f cd :: ops) :=
        List.countP_pos_iff.mpr ⟨.reactivate f cd, List.mem_cons_self, rfl⟩
      exact Nat.ne_of_gt hpos
    | setData newData => exact ih h

/-! ## The whole sequence -/

theorem firstFinal_or : (∀ op ∈ ops, op.isFinal = false) ∨
    ∃ pre lid fs rs post, FirstFinal ops pre lid fs rs post := by
  induction ops with
  | nil => exact Or.inl fun _ h => (List.not_mem_nil h).elim
  | cons op ops ih =>
    cases hop : op.isFinal with
    | true =>
      cases op with
      | event lid fs rs =>
        exact Or.inr ⟨[], lid, fs, rs, ops, rfl, by simpa [Op.isFinal] using hop, by simp⟩
      | _ => cases hop
    | false =>
      obtain h | ⟨pre, lid, fs, rs, post, h⟩ := ih
      · exact Or.inl (List.forall_mem_cons.mpr ⟨hop, h⟩)
      · exact Or.inr ⟨op :: pre, lid, fs, rs, post, congrArg _ h.split, h.final,
          List.forall_mem_cons.mpr ⟨hop, h.first⟩⟩

/-- The first final event is unique. -/
theorem FirstFinal.unique {pre' post' : List Op} {lid' : LayerId} {fs' rs' : UInt32}
    (h : FirstFinal ops pre lid fs rs post) (h' : FirstFinal ops pre' lid' fs' rs' post') :
    pre = pre' ∧ lid = lid' ∧ fs = fs' ∧ rs = rs' ∧ post = post' := by
  obtain ⟨rfl, hfinal, hfirst⟩ := h
  obtain ⟨hsplit, hfinal', hfirst'⟩ := h'
  have hev : ∀ {lid : LayerId} {fs rs : UInt32}, fs ≠ ClientStatus.signOfLife →
      (Op.event lid fs rs).isFinal = true := fun h => by simpa [Op.isFinal] using h
  induction pre generalizing pre' with
  | nil =>
    cases pre' with
    | nil =>
      injection hsplit with hop hpost
      injection hop with hlid hfs hrs
      exact ⟨rfl, hlid, hfs, hrs, hpost⟩
    | cons op pre' =>
      injection hsplit with hop
      have hno := hfirst' op List.mem_cons_self
      rw [← hop, hev hfinal] at hno
      cases hno
  | cons op pre ih =>
    cases pre' with
    | nil =>
      injection hsplit with hop
      have hno := hfirst op List.mem_cons_self
      rw [hop, hev hfinal'] at hno
      cases hno
    | cons op' pre' =>
      injection hsplit with hop hrest
      obtain ⟨hpre, hrest⟩ := ih (fun o ho => hfirst o (List.mem_cons_of_mem _ ho)) hrest
        fun o ho => hfirst' o (List.mem_cons_of_mem _ ho)
      exact ⟨by rw [hop, hpre], hrest⟩

/-- **The first final event** is delivered on the spot or deferred. -/
theorem firstFinal_spec (hrep : cb.repeatable = true) (hrun : cb.runFinal = false)
    (h : FirstFinal ops pre lid fs rs post) : ∃ cb' : FalconCallback,
      cb'.repeatable = true ∧ cb'.runFinal = true ∧ cb'.f = none ∧
      if (cb.after pre).f.isSome then
        cb'.deferredFalconStatus = (cb.after pre).deferredFalconStatus ∧
          ∃ i, cb.finals ops = i :: cb'.finals post ∧ i.index = cb.indexOf lid fs ∧
            i.falconStatus = fs ∧ i.remoteStatus = rs
      else
        cb'.deferredFalconStatus = fs ∧ cb'.deferredRemoteStatus = rs ∧
          cb'.deferredIndex = cb.indexOf lid fs ∧ cb.finals ops = cb'.finals post := by
  obtain ⟨hnone, hh, hrep₁, hrun₁⟩ := finals_of_not_final hrep hrun h.first
  set cb₁ := cb.after pre
  have hidx : cb₁.indexOf lid fs = cb.indexOf lid fs := by rw [indexOf, indexOf, hh]
  have hfin : cb.finals ops = ((cb₁.apply (.event lid fs rs)).2.filter fun i =>
      i.falconStatus ≠ ClientStatus.signOfLife) ++
        (cb₁.apply (.event lid fs rs)).1.finals post := by
    rw [h.split, finals_append, hnone, List.nil_append, finals_cons]
  refine ⟨(cb₁.apply (.event lid fs rs)).1, (apply_const _).2.trans hrep₁, ?_, ?_, ?_⟩
  · simp only [apply, call, finish, if_pos (Or.inr h.final)]
  · simp only [apply, call, finish, if_pos (Or.inr h.final)]
  · rw [hfin]
    cases hf : cb₁.f with
    | none =>
      simp [apply, call, finish, defer, hf, hrun₁, h.final, hidx]
    | some f =>
      simp [apply, call, finish, defer, hf, h.final, hidx]

theorem quiet_of_once (hrep : cb.repeatable = true) (hrun : cb.runFinal = false)
    (h : FirstFinal ops pre lid fs rs post) (honce : (cb.finals ops).length ≤ 1) :
    cb.Quiet pre post := by
  obtain ⟨cb', hrep', hrun', hf', hspec⟩ := firstFinal_spec hrep hrun h
  have hlen := @length_finals cb' post hrep' hrun'
  rw [hf', Option.isSome_none] at hlen
  unfold Quiet
  split
  · next hactive =>
    rw [if_pos hactive] at hspec
    obtain ⟨hdef, i, hfin, -⟩ := hspec
    rw [hfin, List.length_cons, hlen, hdef] at honce
    split at honce
    · next hsol => exact ⟨by omega, Or.inr hsol⟩
    · exact ⟨by omega, Or.inl (by omega)⟩
  · next hidle =>
    rw [if_neg hidle] at hspec
    obtain ⟨hdef, -, -, hfin⟩ := hspec
    rw [hfin, hlen, hdef, if_neg h.final] at honce
    refine ⟨?_, by omega⟩
    by_contra hstrikes
    have := reactivations_pos hstrikes
    omega

theorem exactlyOnce_of_quiet (hrep : cb.repeatable = true) (hrun : cb.runFinal = false)
    (h : FirstFinal ops pre lid fs rs post) (hquiet : cb.Quiet pre post) :
    cb.ExactlyOnce ops := by
  obtain ⟨cb', hrep', hrun', hf', hspec⟩ := firstFinal_spec hrep hrun h
  obtain ⟨hstrikes, hre⟩ := hquiet
  have hlen := @length_finals cb' post hrep' hrun'
  have hstr : strikes cb'.f.isSome post = 0 := by rw [hf']; exact hstrikes
  have hdeferred := finals_deferred hrep' hrun' hstr
  rw [hstr, Nat.zero_add] at hlen
  by_cases hactive : (cb.after pre).f.isSome = true
  · -- the event was delivered, and nothing more is
    rw [if_pos hactive] at hspec hre
    obtain ⟨hdef, i, hfin, hi⟩ := hspec
    have hnone : cb'.finals post = [] := by
      refine List.eq_nil_of_length_eq_zero (hlen.trans ?_)
      rw [hdef]
      split
      · rfl
      · next hsol => exact hre.resolve_right hsol
    rw [hnone] at hfin
    refine ⟨by rw [hfin]; exact Nat.le_refl 1, fun _ _ _ _ _ _ _ => by rw [hfin]; rfl,
      fun j hj => ?_⟩
    rw [hfin, List.mem_singleton] at hj
    exact ⟨pre, lid, fs, rs, post, h, hj ▸ hi⟩
  · -- the event was deferred, and the reactivation, if there is one, delivers it
    rw [if_neg hactive] at hspec hre
    obtain ⟨hdef, hdefr, hdefi, hfin⟩ := hspec
    rw [hdef, if_neg h.final] at hlen
    refine ⟨by rw [hfin, hlen]; exact hre, fun pre' _ _ _ post' h' hdue => ?_, fun j hj => ?_⟩
    · obtain ⟨rfl, -, -, -, rfl⟩ := h.unique h'
      obtain ⟨op, hmem, hop⟩ := hdue.resolve_left hactive
      have hpos : 0 < reactivations post := List.countP_pos_iff.mpr ⟨op, hmem, hop⟩
      rw [hfin, hlen]
      omega
    · rw [hfin] at hj
      obtain ⟨hidx, hst, hrs⟩ := hdeferred j hj
      exact ⟨pre, lid, fs, rs, post, h, hidx.trans hdefi, hst.trans hdef, hrs.trans hdefr⟩

/-- **Exactly-once final delivery** holds of a created callback and a sequence of operations exactly
if nothing disturbs it after the first final event. -/
theorem exactlyOnce_iff (f : Option CallbackFn) (h : List LayerId) (cd : ClientData)
    (status remote : UInt32) (index : ℤ) (ops : List Op) :
    ExactlyOnce (create f h cd status remote index) ops ↔
      ∀ pre lid fs rs post, FirstFinal ops pre lid fs rs post →
        Quiet (create f h cd status remote index) pre post := by
  set cb := create f h cd status remote index
  have hrep : cb.repeatable = true := rfl
  have hrun : cb.runFinal = false := rfl
  refine ⟨fun hE pre lid fs rs post hff => quiet_of_once hrep hrun hff hE.once, fun hquiet => ?_⟩
  obtain hno | ⟨pre, lid, fs, rs, post, hff⟩ := @firstFinal_or ops
  · obtain ⟨hnone, -⟩ := finals_of_not_final hrep hrun hno
    refine ⟨by rw [hnone]; exact Nat.zero_le 1, fun pre lid fs rs post hff _ => ?_, fun i hi => ?_⟩
    · have hfinal := hno (.event lid fs rs) (hff.split ▸ by simp)
      exact (hff.final (by simpa [Op.isFinal] using hfinal)).elim
    · exact (List.not_mem_nil (hnone ▸ hi)).elim
  · exact exactlyOnce_of_quiet hrep hrun hff (hquiet pre lid fs rs post hff)

/-- A final event is delivered to an active callback; after `Reactivate` the next one is delivered
too. -/
theorem delivered_twice : ¬ ExactlyOnce (create (some 1) ["app", "vm"] 0 0 0 0)
    [.event "vm" ClientStatus.downFromRemote 3, .reactivate 2 0,
      .event "app" ClientStatus.killedByRemote 4] :=
  fun h => absurd h.once (by decide)

end FalconCallback

end Falcon
