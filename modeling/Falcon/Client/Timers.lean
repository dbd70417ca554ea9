import Falcon.Client.Roles
import Falcon.Client.WarPath

/-!
# Client/Timers — what a client can do with a target

`Falcon::startTimer`, `stopTimer` and `uninit` are calls on the watchdog of the target's layer.  A
layer without a watchdog ignores them, and so does one that is gone.  `uninit` comes to
`Watchdog::Cancel`, which tells the watchdog to stop under its lock, and ends in locking where it
would unlock: the call does not return, and the lock is never free again.

* `cancel_eq` — no `Cancel` returns.
* `uninit_stuck` — so that `uninit` stops no watchdog.
* `plays_of_fits` — apart from that, every layer can play the role it is used in, in every run in
  which no request is without ids and none finds a layer that was made for the other role.
-/

namespace Falcon.Client

namespace Watchdog

/-- A watchdog, and whether its `watchdog_lock_` is taken. -/
structure Locked where
  watchdog : Watchdog
  taken : Bool
  deriving DecidableEq, Repr

/-- `pthread_mutex_lock` on a mutex of the default kind: it does not return while the mutex is
taken, whoever has it. -/
def Locked.lock (w : Locked) : Option Locked :=
  if w.taken then none else some { w with taken := true }

/-- `Cancel`. -/
def Locked.cancel (w : Locked) : Option Locked :=
  w.lock.bind fun w => Locked.lock { w with watchdog := w.watchdog.stop }

/-- **`Cancel` does not return**, whether the lock is free or not. -/
theorem Locked.cancel_eq (w : Locked) : w.cancel = none := by
  unfold cancel lock
  split
  · rfl
  · rfl

end Watchdog

namespace Library

open FalconClient (AddChildAnswers)

variable {t t' : Library} {e : Event}

/-- The layers of the targets that have been handed out have watchdogs. -/
def Handed (t : Library) : Prop :=
  ∀ cb L, .completed cb L ∈ t.client.log → (t.client.layers L).watchdog = true

/-- A round of the loop leaves the layers that are there as they were made. -/
theorem hop_watchdog {req : StartRequest} {cb : CallbackRef} {x : LayerId} {rest : List LayerId}
    {ans : AddChildAnswers} {ret : Option LayerRef} {s s' : FalconClient} {L L' : LayerRef}
    (h : s.hop req cb x rest ans L = some (s', ret)) (hL : L < s.nextLayer)
    (hL' : L' < s.nextLayer) : (s'.layers L').watchdog = (s.layers L').watchdog := by
  obtain ⟨s₁, hadd₁, hcase⟩ := FalconClient.hop_cases h
  have hlayers : s'.layers = s₁.layers := by
    obtain ⟨-, rfl⟩ | ⟨c, -, ⟨-, rfl⟩ | ⟨-, hadd⟩⟩ := hcase
    · rfl
    · rfl
    · rw [(FalconClient.addLayer_eq hadd).2]
      rfl
  rw [hlayers]
  cases FalconClient.addChild_effect hadd₁ with
  | @found c _ =>
    exact (FalconClient.kept_addCallback c cb).proj FalconLayer.watchdog (fun _ => rfl) L'
  | atBase _ _ _ => exact FalconClient.install_proj FalconLayer.watchdog (fun _ _ _ => rfl) hL hL'
  | @registered gen _ _ _ _ =>
    exact FalconClient.install_proj (s := s.nextLayerId.asked L _ gen ans) FalconLayer.watchdog
      (fun _ _ _ => rfl) hL hL'
  | refused _ _ _ => rfl

/-- The targets keep their watchdogs, and a new one has one. -/
theorem handed_step (hs : t.InRole) (ht : t.Covered) (hh : t.Handed) (h : step t e = some t') :
    t'.Handed := by
  have hhop {j : Job} {x : LayerId} {rest : List LayerId} {ans : AddChildAnswers}
      {ret : Option LayerRef} {s : FalconClient} (hjob : t.job = some j)
      (hrun : t.client.hop j.req j.cb x rest ans j.curr = some (s, ret)) :
      ∀ cb L, .completed cb L ∈ s.log → (s.layers L).watchdog = true := by
    intro cb L hmem
    obtain ⟨acts, hlog, hnone⟩ := (ht.hop hjob hrun).log
    rw [hlog] at hmem
    have hold := (List.mem_append.mp hmem).resolve_left (hnone cb L)
    rw [hop_watchdog hrun (hs.sound.alive.alloc _ (hs.sound.curr j hjob))
      (ht.serves cb L (Or.inl hold)).2]
    exact hh cb L hold
  have hmeanwhile {s s' : FalconClient} (hmean : FalconClient.Meanwhile s s')
      (hs : ∀ cb L, .completed cb L ∈ s.log → (s.layers L).watchdog = true) :
      ∀ cb L, .completed cb L ∈ s'.log → (s'.layers L).watchdog = true := fun cb L hmem =>
    (hmean.proj FalconLayer.watchdog (fun _ => rfl) L).trans
      (hs cb L (completed_of_meanwhile hmean hmem))
  cases step_effect h with
  | take _ => exact hh
  | refused hjob _ hrun => exact hmeanwhile (FalconClient.meanwhile_runCallback ..) (hhop hjob hrun)
  | moved hjob _ hrun => exact hhop hjob hrun
  | @complete j hjob hids =>
    intro cb L hmem
    obtain hmem | hmem := List.mem_cons.mp hmem
    · injection hmem with _ hL
      exact hL ▸ hs.last j hjob hids
    · exact hh cb L hmem
  | other he hstep =>
    exact hmeanwhile ((FalconClient.meanwhile_step he hstep).trans (FalconClient.meanwhile_live _))
      hh

end Library

namespace Kennel

open FalconClient (agrees)

/-- What goes on in the process of a client. -/
inductive Move
  /-- The threads of the library, and the client's calls on callbacks. -/
  | run (e : Event)
  | startTimer (target : FalconTarget) (e2etimeout : ℤ) (clock : Timespec)
  | stopTimer (target : FalconTarget)
  | uninit (target : FalconTarget)

/-- The event is a call on a target. -/
def Event.isCall : Event → Bool
  | .startTimer _ _ _ _ => true
  | .stopTimer _ => true
  | _ => false

/-- A request was completed with the target. -/
def Holds (t : Kennel) (target : FalconTarget) : Prop :=
  .completed target.cb target.topLayer ∈ t.library.client.log

instance (t : Kennel) (target : FalconTarget) : Decidable (t.Holds target) :=
  inferInstanceAs (Decidable (_ ∈ _))

/-- `target->top_layer.lock()` gives a layer. -/
def there (t : Kennel) (target : FalconTarget) : Bool := t.library.client.live target.topLayer

/-- The layer of the target has a watchdog. -/
def dogged (t : Kennel) (target : FalconTarget) : Bool :=
  (t.library.client.layers target.topLayer).watchdog

/-- `Falcon::startTimer`, `Falcon::stopTimer` and `Falcon::uninit` on a target that the client has,
next to all that the library does.  A call that does not return has no result, and what the other
threads do then is not followed: they go on until they need the lock. -/
def move (t : Kennel) : Move → Option Kennel
  | .run e => if e.isCall then none else t.step e
  | .startTimer target e2etimeout clock =>
    if t.Holds target then
      if t.there target && decide (0 < e2etimeout) then
        t.step (.startTimer target.topLayer target.cb e2etimeout clock)
      else some t
    else none
  | .stopTimer target =>
    if t.Holds target then
      if t.there target && t.dogged target then t.step (.stopTimer target.topLayer) else some t
    else none
  | .uninit target =>
    if t.Holds target then
      if t.there target && t.dogged target then
        (Watchdog.Locked.cancel ⟨t.dogs target.topLayer, false⟩).map fun w =>
          t.setDog target.topLayer w.watchdog
      else some t
    else none

variable {t t' : Kennel} {e : Event} {m : Move} {target : FalconTarget}

/-- The call returns, with the watchdog of the target as `f` leaves it. -/
def TakesEffect (t : Kennel) (m : Move) (target : FalconTarget) (f : Watchdog → Watchdog) : Prop :=
  ∃ t', t.move m = some t' ∧ t'.dogs target.topLayer = f (t.dogs target.topLayer)

/-- **Every layer can play the role it is used in**: for the builder, and for the client, whose
calls on a target take effect as long as its layer is there. -/
structure Plays (t : Kennel) (m : Move) : Prop where
  library : ∀ e, m = .run (.library e) → t.library.Plays e
  startTimer : ∀ target e2etimeout clock, m = .startTimer target e2etimeout clock →
    t.Holds target → t.there target = true → 0 < e2etimeout →
      t.TakesEffect m target (Watchdog.startTimer target.cb e2etimeout clock)
  stopTimer : ∀ target, m = .stopTimer target → t.Holds target → t.there target = true →
    t.TakesEffect m target Watchdog.stopTimer
  uninit : ∀ target, m = .uninit target → t.Holds target → t.there target = true →
    t.TakesEffect m target Watchdog.stop

/-- The requests fit, and `uninit` is called only when the target's layer is gone. -/
def Fits (t : Kennel) : Move → Prop
  | .run (.library e) => t.library.Fits e
  | .uninit target => t.there target = false
  | _ => True

instance (t : Kennel) : ∀ m, Decidable (t.Fits m)
  | .run (.library e) => inferInstanceAs (Decidable (t.library.Fits e))
  | .uninit target => inferInstanceAs (Decidable (t.there target = false))
  | .run (.startTimer _ _ _ _) | .run (.stopTimer _) | .run (.stop _) | .run (.wake _ _)
  | .run (.strike _ _ _) | .run (.rise _ _) | .run (.cancelPass _ _)
  | .startTimer _ _ _ | .stopTimer _ => isTrue trivial

/-- **`uninit` stops no watchdog**: on a target whose layer has one it does not return. -/
theorem uninit_stuck (hthere : t.there target = true) (hdog : t.dogged target = true) :
    t.move (.uninit target) = none := by
  simp only [move, hthere, hdog, Watchdog.Locked.cancel_eq, Bool.and_self, if_true,
    Option.map_none, ite_self]

/-! ## The invariant -/

/-- The builder's layer and those of the targets can do what they are used for. -/
structure InRole (t : Kennel) : Prop where
  library : t.library.InRole
  covered : t.library.Covered
  handed : t.library.Handed

theorem inRole_init (addr : ClientAddr) (garbage : Timespec) : (init addr garbage).InRole where
  library := Library.inRole_init addr
  covered := Library.covered_init addr
  handed _ _ h := (List.not_mem_nil h).elim

/-- A step of a kennel leaves the library alone or is one of it. -/
theorem library_step (h : step t e = some t') : t'.library = t.library ∨
    ∃ e', t.library.step e' = some t'.library ∧ (e = .library e' ∨ ∃ e₀, e' = .other e₀) := by
  cases step_effect h with
  | library _ hstep => exact Or.inr ⟨_, hstep, Or.inl rfl⟩
  | startTimer _ hstep => exact Or.inr ⟨_, hstep, Or.inr ⟨_, rfl⟩⟩
  | strike _ _ hstep => exact Or.inr ⟨_, hstep, Or.inr ⟨_, rfl⟩⟩
  | cancelPass _ hstep => exact Or.inr ⟨_, hstep, Or.inr ⟨_, rfl⟩⟩
  | stopTimer => exact Or.inl rfl
  | stop _ _ => exact Or.inl rfl
  | wake _ _ => exact Or.inl rfl
  | withdraw _ _ => exact Or.inl rfl
  | rest _ => exact Or.inl rfl
  | rise _ => exact Or.inl rfl

theorem InRole.of_library (hs : t.InRole) (h : t'.library = t.library) : t'.InRole :=
  ⟨h ▸ hs.library, h ▸ hs.covered, h ▸ hs.handed⟩

theorem InRole.step (hs : t.InRole) (h : step t e = some t')
    (hfit : ∀ e', e = .library e' → t.library.Fits e') : t'.InRole := by
  obtain h | ⟨e', h, he⟩ := library_step h
  · exact hs.of_library h
  · have hfit' : t.library.Fits e' := by
      obtain rfl | ⟨e₀, rfl⟩ := he
      · exact hfit e' rfl
      · trivial
    exact ⟨Library.inRole_step hs.library h hfit', Library.covered_step hs.covered h,
      Library.handed_step hs.library hs.covered hs.handed h⟩

theorem inRole_move (hs : t.InRole) (h : t.move m = some t') (hfit : t.Fits m) : t'.InRole := by
  cases m with
  | run e =>
    simp only [move] at h
    split at h
    · cases h
    · exact hs.step h fun e' he => by subst he; exact hfit
  | startTimer target e2etimeout clock =>
    simp only [move] at h
    split_ifs at h
    · exact hs.step h fun _ he => by cases he
    · exact Option.some.inj h ▸ hs
  | stopTimer target =>
    simp only [move] at h
    split_ifs at h
    · exact hs.step h fun _ he => by cases he
    · exact Option.some.inj h ▸ hs
  | uninit target =>
    simp only [move, Watchdog.Locked.cancel_eq, Option.map_none] at h
    split_ifs at h
    exact Option.some.inj h ▸ hs

theorem InRole.plays (hs : t.InRole) (hfit : t.Fits m) : t.Plays m := by
  refine ⟨fun e _ => hs.library.plays e, ?_, ?_, ?_⟩
  · rintro target e2etimeout clock rfl hholds hthere hpos
    have hdog := hs.handed _ _ hholds
    have hlive : t.library.client.live target.topLayer = true := hthere
    have hlib : t.library.step (.other (.startTimer target.topLayer target.cb)) =
        some ⟨(t.library.client.startTimer target.topLayer target.cb).collect t.library.client.live
          (t.library.job.map Job.curr), t.library.job⟩ := by
      simp only [Library.step, FalconClient.Event.isStart, FalconClient.step, hlive]
      rfl
    have hmove : t.move (.startTimer target e2etimeout clock) =
        t.step (.startTimer target.topLayer target.cb e2etimeout clock) := by
      simp only [move]
      rw [if_pos hholds, if_pos (by rw [hthere, decide_eq_true hpos]; rfl)]
    rw [TakesEffect, hmove]
    simp only [Kennel.step, runLibrary, hlib, Option.map_some, hdog, if_true]
    exact ⟨_, rfl, Function.update_self ..⟩
  · rintro target rfl hholds hthere
    have hboth : (t.there target && t.dogged target) = true :=
      Bool.and_eq_true_iff.mpr ⟨hthere, hs.handed _ _ hholds⟩
    have hmove : t.move (.stopTimer target) =
        some (t.setDog target.topLayer (t.dogs target.topLayer).stopTimer) := by
      simp only [move]
      rw [if_pos hholds, if_pos hboth]
      exact if_pos hboth
    exact ⟨_, hmove, Function.update_self ..⟩
  · rintro target rfl - hthere
    exact absurd hthere (Bool.not_eq_true _ ▸ hfit)

/-- **Every layer can play the role it is used in**, in every run in which no request is without
ids, none finds a layer that was made for the other role, and `uninit` is called only on targets
whose layer is gone. -/
theorem plays_of_fits (addr : ClientAddr) (garbage : Timespec) (ms : List Move)
    (hfit : Run.Tried move Fits (init addr garbage) ms) :
    Run.Tried move Plays (init addr garbage) ms :=
  Run.Tried.of_inv (fun _ _ _ h hs hfit => inRole_move hs h hfit) (fun _ _ hs hfit => hs.plays hfit)
    ms _ (inRole_init addr garbage) hfit

/-- The moves of a request that succeeds. -/
def serving (ids : List LayerId) : List Move := (Library.served ids).map fun e => .run (.library e)

/-- The calls on the target of an application `"a"` on a machine `"vm"`, the last one after it has
been reported down. -/
def timed : List Move :=
  serving ["a", "vm"] ++ serving ["b", "vm"] ++
    [.startTimer ⟨0, 2⟩ 5 ⟨10, 0⟩, .stopTimer ⟨0, 2⟩,
      .run (.library (Library.down ⟨"a", [1], 1, true, false, 1⟩)), .uninit ⟨0, 2⟩]

/-- The first request makes `"vm"` a leaf, the second goes through it. -/
theorem leaf_asked :
    ¬Run.Tried move Plays (init ⟨1, 0, 0⟩ ⟨0, 0⟩) (serving ["vm"] ++ serving ["a", "vm"]) := by
  intro h
  obtain ⟨t, hrun, hjob, hbase, hclnt⟩ : ∃ t : Kennel,
      (serving ["vm"] ++ [Move.run (.library (.take (Library.request ["a", "vm"]))),
        .run (.library (.hop (agrees [1]) ""))]).foldlM move (init ⟨1, 0, 0⟩ ⟨0, 0⟩) = some t ∧
      t.library.job = some ⟨Library.request ["a", "vm"], 1, ["a"], 1⟩ ∧
      (t.library.client.layers 1).baseLayer = false ∧
      (t.library.client.layers 1).clnt = false := ⟨_, rfl, rfl, by decide, by decide⟩
  have hplays := Run.tried_iff_run.mp h _ (.run (.library (.hop (agrees [1]) "")))
    ⟨[.run (.library .complete)], rfl⟩ t hrun
  have hasked :=
    ((hplays.library _ rfl).asked _ _ _ rfl hjob (List.cons_ne_nil _ _) hbase).1
  rw [hclnt] at hasked
  cases hasked

/-- A client that does not want its target any more. -/
theorem uninit_unanswered :
    ¬Run.Tried move Plays (init ⟨1, 0, 0⟩ ⟨0, 0⟩) (serving ["a"] ++ [.uninit ⟨0, 1⟩]) := by
  intro h
  obtain ⟨t, hrun, hholds, hthere, hdog⟩ : ∃ t : Kennel,
      (serving ["a"]).foldlM move (init ⟨1, 0, 0⟩ ⟨0, 0⟩) = some t ∧ t.Holds ⟨0, 1⟩ ∧
      t.there ⟨0, 1⟩ = true ∧ t.dogged ⟨0, 1⟩ = true :=
    ⟨_, rfl, by decide, by decide, by decide⟩
  have hplays := Run.tried_iff_run.mp h _ (.uninit ⟨0, 1⟩) ⟨[], rfl⟩ t hrun
  obtain ⟨t', hmove, -⟩ := hplays.uninit _ rfl hholds hthere
  cases hmove.symm.trans (uninit_stuck hthere hdog)

theorem plays_timed : Run.Tried move Plays (init ⟨1, 0, 0⟩ ⟨0, 0⟩) timed :=
  plays_of_fits _ _ _ (by decide)

end Kennel

end Falcon.Client
