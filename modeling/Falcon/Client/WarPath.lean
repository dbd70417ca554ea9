import Falcon.Client.Severed
import Falcon.Client.Watchdog

/-!
# Client/WarPath — the watchdogs of a library at work

The thread of a watchdog waits to be pet; when it gives up it walks up from its leaf and kills layer
after layer, resting after each kill, until a kill settles the matter or it is told to stop; then it
cancels.  A `Kennel` is a client library with these threads.  A round of a loop is one step, and the
steps of all threads, of the builder and of the reports come in any order.  An `AddChild`, a kill, a
report and a cancel pass are one step each.  `AddChild` hands its callback to a layer that it finds
after it has let the locks go, and a `DoChildDown` that comes in between leaves that callback
untold; here it comes before or after.

* `withdraws_told` — a watchdog leaves the war path only when every callback that has come to its
  leaf has had its final event.
* `strikes_upward` — what the watchdogs do to the library is a run of the library, in which each
  watchdog has killed along its way from below, a layer at a time, and cancels once, at the end.
-/

namespace Falcon.Client

/-- `kFalconSpyRetry`, in seconds. -/
def falconSpyRetry : ℤ := 3

/-- Where the thread of a watchdog is in `Run`. -/
inductive Stage
  /-- In the waiting loop. -/
  | waiting
  /-- At the head of the loop of the war path; `curr_layer` and `curr_target` come first of what is
  left of the way. -/
  | warPath (rest : List (LayerRef × LayerId))
  /-- In the wait after a kill, with what is left of the way above it. -/
  | resting (currTimeout : Timespec) (rest : List (LayerRef × LayerId))
  /-- Behind that loop, with the cancel path to go. -/
  | cancelling
  | over
  deriving DecidableEq, Repr

/-- A client library with its watchdogs. -/
structure Kennel where
  library : Library
  dogs : LayerRef → Watchdog
  stage : LayerRef → Stage

/-- What is left of the way, on the war path. -/
def Stage.rest : Stage → Option (List (LayerRef × LayerId))
  | .warPath rest => some rest
  | .resting _ rest => some rest
  | _ => none

namespace Kennel

def init (addr : ClientAddr) (garbage : Timespec) : Kennel where
  library := .init addr
  dogs := fun _ => .init garbage
  stage := fun _ => .waiting

inductive Event
  /-- The builder, a report, or what a client does to a callback. -/
  | library (e : Library.Event)
  | startTimer (leaf : LayerRef) (cb : CallbackRef) (timeout : ℤ) (clock : Timespec)
  | stopTimer (leaf : LayerRef)
  /-- The thread that the destructor of a leaf has started deletes the watchdog. -/
  | stop (leaf : LayerRef)
  /-- The wait to get pet has ended. -/
  | wake (leaf : LayerRef) (now : Timespec)
  /-- A round of the war path. -/
  | strike (leaf : LayerRef) (now : Timespec) (reply : Reply)
  /-- The wait after a kill has ended. -/
  | rise (leaf : LayerRef) (now : Timespec)
  | cancelPass (leaf : LayerRef) (replies : ℕ → Reply)

/-- The event is a watchdog's, or is for one. -/
def isWatchdogs : Library.Event → Bool
  | .other (.kill _ _ _ _) => true
  | .other (.cancelPass _ _) => true
  | .other (.startTimer _ _) => true
  | _ => false

/-- A step of the library. -/
def runLibrary (e : Library.Event) (t : Kennel) : Option Kennel :=
  (t.library.step e).map fun l => { t with library := l }

def setDog (leaf : LayerRef) (w : Watchdog) (t : Kennel) : Kennel :=
  { t with dogs := Function.update t.dogs leaf w }

def setStage (leaf : LayerRef) (g : Stage) (t : Kennel) : Kennel :=
  { t with stage := Function.update t.stage leaf g }

/-- The waiting loop of `Run` looks at the clock. -/
def wake (leaf : LayerRef) (now : Timespec) (t : Kennel) : Kennel :=
  let w := (t.dogs leaf).wake now
  (t.setDog leaf w).setStage leaf
    (if w.left then .warPath (t.library.client.layers leaf).path else .waiting)

/-- Where a watchdog goes after a kill that has returned `ret`. -/
def afterKill (ret : ℤ) (now : Timespec) (rest : List (LayerRef × LayerId)) : Stage :=
  if ret = 0 then .cancelling
  else if ret < 0 then .resting { now with sec := now.sec + falconSpyRetry } rest
  else .warPath rest

/-- A round of the war path.  A parent that is gone cannot be locked. -/
def strike (leaf : LayerRef) (now : Timespec) (reply : Reply) (t : Kennel) :
    List (LayerRef × LayerId) → Option Kennel
  | [] => some (t.setStage leaf .cancelling)
  | (L, x) :: rest =>
    if !t.library.client.live L || (t.dogs leaf).stopping then
      some (t.setStage leaf .cancelling)
    else
      (t.library.client.killChild L x reply).bind fun r =>
        (t.runLibrary (.other (.kill leaf L x reply))).map fun t' =>
          t'.setStage leaf (afterKill r.2 now rest)

/-- The wait after a kill looks at the clock. -/
def rise (leaf : LayerRef) (now currTimeout : Timespec) (rest : List (LayerRef × LayerId))
    (t : Kennel) : Kennel :=
  if currTimeout.gt now && !(t.dogs leaf).stopping then t else t.setStage leaf (.warPath rest)

def step (t : Kennel) : Event → Option Kennel
  | .library e => if isWatchdogs e then none else t.runLibrary e
  | .startTimer leaf cb timeout clock =>
    (t.runLibrary (.other (.startTimer leaf cb))).map fun t' =>
      -- a layer that is no leaf has no watchdog
      if (t.library.client.layers leaf).watchdog then
        t'.setDog leaf ((t.dogs leaf).startTimer cb timeout clock)
      else t'
  | .stopTimer leaf =>
    if t.library.client.live leaf && (t.library.client.layers leaf).watchdog then
      some (t.setDog leaf (t.dogs leaf).stopTimer)
    else none
  | .stop leaf =>
    if leaf < t.library.client.nextLayer ∧ t.library.client.live leaf = false then
      some (t.setDog leaf (t.dogs leaf).stop)
    else none
  | .wake leaf now =>
    if leaf ∈ t.library.client.watchdogs ∧ t.stage leaf = .waiting then some (t.wake leaf now)
    else none
  | .strike leaf now reply =>
    match t.stage leaf with
    | .warPath rest => t.strike leaf now reply rest
    | _ => none
  | .rise leaf now =>
    match t.stage leaf with
    | .resting currTimeout rest => some (t.rise leaf now currTimeout rest)
    | _ => none
  | .cancelPass leaf replies =>
    match t.stage leaf with
    | .cancelling =>
      (t.runLibrary (.other (.cancelPass leaf replies))).map fun t' => t'.setStage leaf .over
    | _ => none

end Kennel

/-! ## What the library does for a watchdog -/

namespace FalconClient

variable {s s' : FalconClient} {L x : LayerRef} {y : LayerId}

/-- **A kill that returns 0** has given their final event to the callbacks of the child. -/
theorem killChild_zero {reply : Reply} (h : s.killChild L y reply = some (s', 0)) :
    ∃ c, (s.layers L).children y = some c ∧
      ∀ cb ∈ (s.layers c).cbList, (s'.callbacks cb).runFinal = true := by
  unfold killChild at h
  split at h
  · cases h
  · cases hc : (s.layers L).children y with
    | none =>
      rw [hc] at h
      cases (Prod.mk.inj (Option.some.inj h)).2
    | some c =>
      rw [hc] at h
      dsimp only at h
      refine ⟨c, rfl, ?_⟩
      split at h
      · split at h
        · split at h
          · cases (Prod.mk.inj (Option.some.inj h)).2
          · split at h
            · obtain ⟨rfl, -⟩ := Prod.mk.inj (Option.some.inj h)
              exact runFinal_foldl y 0 (by decide) _ _
            · cases (Prod.mk.inj (Option.some.inj h)).2
        · cases h
      · obtain ⟨rfl, -⟩ := Prod.mk.inj (Option.some.inj h)
        exact runFinal_foldl y 0 (by decide) _ _

/-- At the base a kill does not return. -/
theorem killChild_base {reply : Reply} (h : (s.layers L).baseLayer = true) :
    s.killChild L y reply = none := by rw [killChild, if_pos h]

theorem receivedDown_watchdogs (arg : ClientDownArg) :
    (s.receive (.down arg)).watchdogs = s.watchdogs := by
  unfold receive receivedDown
  dsimp only
  split
  · rfl
  · unfold doChildDown
    split
    · rfl
    · split
      · exact (same_runCallbacks ..).watchdogs
      · rfl

/-- Only the builder starts watchdogs. -/
theorem watchdogs_step {e : Event} (he : e.isStart = false) (h : s.step e = some s') :
    ∀ w ∈ s'.watchdogs, w ∈ s.watchdogs := by
  by_cases hdown : ∃ arg, e = .report (.down arg)
  · obtain ⟨arg, rfl⟩ := hdown
    obtain rfl := Option.some.inj h
    exact fun w hw => receivedDown_watchdogs arg ▸ hw
  · exact (stays_step he (fun arg heq => hdown ⟨arg, heq⟩) h).watchdogs

/-- A watchdog that a round of the loop has started is that of a new layer. -/
theorem hop_watchdogs {req : StartRequest} {cb : CallbackRef} {rest : List LayerId}
    {ans : AddChildAnswers} {ret : Option LayerRef}
    (h : s.hop req cb y rest ans L = some (s', ret)) :
    ∀ w ∈ s'.watchdogs, w ∈ s.watchdogs ∨ s.nextLayer ≤ w ∧ w < s'.nextLayer := by
  obtain ⟨s₁, hadd₁, hcase⟩ := hop_cases h
  have hmade : ∀ w ∈ s₁.watchdogs, w ∈ s.watchdogs ∨ s.nextLayer ≤ w ∧ w < s₁.nextLayer := by
    have hinstall {s₀ : FalconClient} {a : AddChildArg} {g : List GenNo}
        (hnext : s₀.nextLayer = s.nextLayer) (hdogs : s₀.watchdogs = s.watchdogs) :
        ∀ w ∈ (s₀.install L a g).watchdogs, w ∈ s.watchdogs ∨
          s.nextLayer ≤ w ∧ w < (s₀.install L a g).nextLayer := by
      intro w hw
      change w ∈ (if a.leafLayer then s₀.nextLayer :: s₀.watchdogs else s₀.watchdogs) at hw
      change w ∈ s.watchdogs ∨ s.nextLayer ≤ w ∧ w < s₀.nextLayer + 1
      rw [hnext, hdogs] at *
      split at hw
      · obtain rfl | hw := List.mem_cons.mp hw
        · exact Or.inr ⟨Nat.le_refl _, Nat.lt_succ_self _⟩
        · exact Or.inl hw
      · exact Or.inl hw
    cases addChild_effect hadd₁ with
    | found _ => exact fun w hw => Or.inl hw
    | atBase _ _ _ => exact hinstall rfl rfl
    | registered _ _ _ _ => exact hinstall rfl rfl
    | refused _ _ _ => exact fun w hw => Or.inl hw
  obtain ⟨-, rfl⟩ | ⟨c, -, ⟨-, rfl⟩ | ⟨-, hadd⟩⟩ := hcase
  · exact hmade
  · exact hmade
  · obtain ⟨-, rfl⟩ := addLayer_eq hadd
    exact hmade

end FalconClient

namespace Kennel

open FalconClient (Meanwhile agrees answer)

variable {t t' : Kennel} {e : Event} {leaf : LayerRef} {rest : List (LayerRef × LayerId)}

/-- **What a step of a kennel is**, by the thread that takes it. -/
inductive StepEffect (t : Kennel) : Event → Kennel → Prop
  | library {e : Library.Event} {l : Library} (he : isWatchdogs e = false)
      (hstep : t.library.step e = some l) : StepEffect t (.library e) { t with library := l }
  | startTimer {leaf : LayerRef} {cb : CallbackRef} {timeout : ℤ} {clock : Timespec} {l : Library}
      {w : Watchdog} (hw : w.stopping = (t.dogs leaf).stopping)
      (hstep : t.library.step (.other (.startTimer leaf cb)) = some l) :
      StepEffect t (.startTimer leaf cb timeout clock) (setDog leaf w { t with library := l })
  | stopTimer {leaf : LayerRef} :
      StepEffect t (.stopTimer leaf) (t.setDog leaf (t.dogs leaf).stopTimer)
  | stop {leaf : LayerRef} (hlt : leaf < t.library.client.nextLayer)
      (hdead : t.library.client.live leaf = false) :
      StepEffect t (.stop leaf) (t.setDog leaf (t.dogs leaf).stop)
  | wake {leaf : LayerRef} {now : Timespec} (hdog : leaf ∈ t.library.client.watchdogs)
      (hg : t.stage leaf = .waiting) : StepEffect t (.wake leaf now) (t.wake leaf now)
  | withdraw {leaf : LayerRef} {now : Timespec} {reply : Reply}
      {rest : List (LayerRef × LayerId)} (hg : t.stage leaf = .warPath rest)
      (hend : ∀ L x rest', rest = (L, x) :: rest' →
        t.library.client.live L = false ∨ (t.dogs leaf).stopping = true) :
      StepEffect t (.strike leaf now reply) (t.setStage leaf .cancelling)
  | strike {leaf L : LayerRef} {x : LayerId} {now : Timespec} {reply : Reply}
      {rest : List (LayerRef × LayerId)} {s : FalconClient} {ret : ℤ} {l : Library}
      (hg : t.stage leaf = .warPath ((L, x) :: rest))
      (hkill : t.library.client.killChild L x reply = some (s, ret))
      (hstep : t.library.step (.other (.kill leaf L x reply)) = some l) :
      StepEffect t (.strike leaf now reply)
        (setStage leaf (afterKill ret now rest) { t with library := l })
  | rest {leaf : LayerRef} {now currTimeout : Timespec} {rest : List (LayerRef × LayerId)}
      (hg : t.stage leaf = .resting currTimeout rest) : StepEffect t (.rise leaf now) t
  | rise {leaf : LayerRef} {now currTimeout : Timespec} {rest : List (LayerRef × LayerId)}
      (hg : t.stage leaf = .resting currTimeout rest) :
      StepEffect t (.rise leaf now) (t.setStage leaf (.warPath rest))
  | cancelPass {leaf : LayerRef} {replies : ℕ → Reply} {l : Library}
      (hg : t.stage leaf = .cancelling)
      (hstep : t.library.step (.other (.cancelPass leaf replies)) = some l) :
      StepEffect t (.cancelPass leaf replies) (setStage leaf .over { t with library := l })

theorem step_effect (h : step t e = some t') : StepEffect t e t' := by
  cases e with
  | library e =>
    simp only [step] at h
    split at h
    · cases h
    · next he =>
      obtain ⟨l, hl, rfl⟩ := Option.map_eq_some_iff.mp h
      exact .library (Bool.not_eq_true _ ▸ he) hl
  | startTimer leaf cb timeout clock =>
    obtain ⟨t₁, h₁, rfl⟩ := Option.map_eq_some_iff.mp h
    obtain ⟨l, hl, rfl⟩ := Option.map_eq_some_iff.mp h₁
    split
    · exact .startTimer rfl hl
    · have hdog : StepEffect t (.startTimer leaf cb timeout clock)
          (setDog leaf (t.dogs leaf) { t with library := l }) := .startTimer rfl hl
      rwa [setDog, Function.update_eq_self] at hdog
  | stopTimer leaf =>
    simp only [step] at h
    split at h
    · exact Option.some.inj h ▸ .stopTimer
    · cases h
  | stop leaf =>
    simp only [step] at h
    split at h
    · next hgone => exact Option.some.inj h ▸ .stop hgone.1 hgone.2
    · cases h
  | wake leaf now =>
    simp only [step] at h
    split at h
    · next hw => exact Option.some.inj h ▸ .wake hw.1 hw.2
    · cases h
  | strike leaf now reply =>
    simp only [step] at h
    split at h
    · next rest hg =>
      unfold strike at h
      split at h
      · exact Option.some.inj h ▸ .withdraw hg fun _ _ _ h => by cases h
      · next L x rest =>
        split at h
        · next hend =>
          refine Option.some.inj h ▸ .withdraw hg fun L' x' rest' heq => ?_
          obtain ⟨rfl, rfl⟩ := Prod.mk.inj (List.cons.inj heq).1
          rw [Bool.or_eq_true, Bool.not_eq_true'] at hend
          exact hend
        · obtain ⟨⟨s, ret⟩, hkill, h⟩ := Option.bind_eq_some_iff.mp h
          obtain ⟨t₁, h₁, rfl⟩ := Option.map_eq_some_iff.mp h
          obtain ⟨l, hl, rfl⟩ := Option.map_eq_some_iff.mp h₁
          exact .strike hg hkill hl
    · cases h
  | rise leaf now =>
    simp only [step] at h
    split at h
    · next currTimeout rest hg =>
      obtain rfl := Option.some.inj h
      unfold rise
      split
      · exact .rest hg
      · exact .rise hg
    · cases h
  | cancelPass leaf replies =>
    simp only [step] at h
    split at h
    · next hg =>
      obtain ⟨t₁, h₁, rfl⟩ := Option.map_eq_some_iff.mp h
      obtain ⟨l, hl, rfl⟩ := Option.map_eq_some_iff.mp h₁
      exact .cancelPass hg hl
    · cases h

/-! ## The invariant -/

/-- **Watchdogs are at work on their own ways**: what is left for one is the way up from a layer on
it, and only those of lost leaves are told to stop. -/
structure Guarded (t : Kennel) : Prop where
  told : t.library.Told
  dogs : ∀ w ∈ t.library.client.watchdogs, 0 < w ∧ w < t.library.client.nextLayer
  stopping : ∀ leaf, (t.dogs leaf).stopping = true →
    leaf < t.library.client.nextLayer ∧ t.library.client.Lost leaf
  made : ∀ leaf, t.stage leaf ≠ .waiting → leaf < t.library.client.nextLayer
  onWay : ∀ leaf rest, (t.stage leaf).rest = some rest →
    ∃ d, 0 < d ∧ t.library.client.Through d leaf ∧ (t.library.client.layers d).path = rest

theorem guarded_init (addr : ClientAddr) (garbage : Timespec) : (init addr garbage).Guarded where
  told := Library.told_init addr
  dogs _ h := (List.not_mem_nil h).elim
  stopping _ h := by cases h
  made _ h := absurd rfl h
  onWay _ _ h := by cases h

theorem library_watchdogs {l : Library} {e : Library.Event} (h : t.library.step e = some l) :
    ∀ w ∈ l.client.watchdogs, w ∈ t.library.client.watchdogs ∨
      t.library.client.nextLayer ≤ w ∧ w < l.client.nextLayer := by
  cases Library.step_effect h with
  | take _ => exact fun w hw => Or.inl hw
  | refused _ _ hhop =>
    have hmade := FalconClient.hop_watchdogs hhop
    exact hmade
  | moved _ _ hhop => exact FalconClient.hop_watchdogs hhop
  | complete _ _ => exact fun w hw => Or.inl hw
  | other he hstep => exact fun w hw => Or.inl (FalconClient.watchdogs_step he hstep w hw)

theorem Guarded.heap (ht : t.Guarded) : t.library.client.Heap := ht.told.covered.sound.heap

theorem Guarded.turns {l : Library} {e : Library.Event} (ht : t.Guarded)
    (h : t.library.step e = some l) : Library.Turns t.library e l :=
  Library.turns_step ht.told.covered ht.told.rooted h

/-- A watchdog with a way to go is that of a layer. -/
theorem Guarded.made_of_rest (ht : t.Guarded) (hg : (t.stage leaf).rest = some rest) :
    leaf < t.library.client.nextLayer := by
  refine ht.made leaf fun h => ?_
  rw [h] at hg
  cases hg

/-- What is left for a watchdog begins with a parent on its way, and goes on as the parent's own. -/
theorem Guarded.parent (ht : t.Guarded) (hg : (t.stage leaf).rest = some rest) :
    ∃ P y, rest = (P, y) :: (t.library.client.layers P).path ∧
      t.library.client.Through P leaf := by
  have hlt := ht.made_of_rest hg
  obtain ⟨d, hpos, hthrough, hpath⟩ := ht.onWay leaf rest hg
  have hd := ht.told.rooted.through_lt ht.heap hlt hthrough
  obtain ⟨P, y, -, hpath'⟩ := ht.told.rooted d hpos hd
  have hup : t.library.client.Through P d := Or.inr ⟨y, hpath' ▸ List.mem_cons_self⟩
  exact ⟨P, y, hpath.symm.trans hpath', ht.told.rooted.through_trans ht.heap hlt hup hthrough⟩

/-- The library goes on. -/
theorem Guarded.library {l : Library} {e : Library.Event} (ht : t.Guarded)
    (h : t.library.step e = some l) : Guarded { t with library := l } := by
  have hturns := ht.turns h
  refine ⟨Library.told_step ht.told h, fun w hw => ?_, fun leaf hs => ?_, fun leaf hg => ?_,
    fun leaf rest hg => ?_⟩
  · obtain hold | ⟨hle, hlt⟩ := library_watchdogs h w hw
    · obtain ⟨hpos, hlt⟩ := ht.dogs w hold
      exact ⟨hpos, Nat.lt_of_lt_of_le hlt hturns.nextLayer⟩
    · exact ⟨Nat.lt_of_lt_of_le ht.heap.base.1 hle, hlt⟩
  · obtain ⟨hlt, hlost⟩ := ht.stopping leaf hs
    exact ⟨Nat.lt_of_lt_of_le hlt hturns.nextLayer, Library.lost_step ht.told h hlt hlost⟩
  · exact Nat.lt_of_lt_of_le (ht.made leaf hg) hturns.nextLayer
  · obtain ⟨d, hpos, hthrough, hpath⟩ := ht.onWay leaf rest hg
    have hlt : leaf < t.library.client.nextLayer := ht.made_of_rest hg
    have hd := ht.told.rooted.through_lt ht.heap hlt hthrough
    exact ⟨d, hpos, (FalconClient.through_iff (hturns.path leaf hlt)).mpr hthrough,
      (hturns.path d hd).trans hpath⟩

theorem Guarded.setDog {w : Watchdog} (ht : t.Guarded) (hw : w.stopping = true →
    leaf < t.library.client.nextLayer ∧ t.library.client.Lost leaf) :
    (t.setDog leaf w).Guarded := by
  refine { ht with stopping := fun leaf' hs => ?_ }
  by_cases h : leaf' = leaf
  · subst h
    simp only [Kennel.setDog, Function.update_self] at hs
    exact hw hs
  · simp only [Kennel.setDog, Function.update_of_ne h] at hs
    exact ht.stopping leaf' hs

theorem Guarded.setStage {g : Stage} (ht : t.Guarded) (hlt : leaf < t.library.client.nextLayer)
    (hg : ∀ rest, g.rest = some rest → ∃ d, 0 < d ∧ t.library.client.Through d leaf ∧
      (t.library.client.layers d).path = rest) : (t.setStage leaf g).Guarded := by
  refine { ht with made := fun leaf' h => ?_, onWay := fun leaf' rest h => ?_ }
  · by_cases heq : leaf' = leaf
    · exact heq ▸ hlt
    · simp only [Kennel.setStage, Function.update_of_ne heq] at h
      exact ht.made leaf' h
  · by_cases heq : leaf' = leaf
    · subst heq
      simp only [Kennel.setStage, Function.update_self] at h
      exact hg rest h
    · simp only [Kennel.setStage, Function.update_of_ne heq] at h
      exact ht.onWay leaf' rest h

/-- What a kill leaves to be done. -/
theorem afterKill_rest {ret : ℤ} {now : Timespec} {rest' : List (LayerRef × LayerId)}
    (h : (afterKill ret now rest).rest = some rest') : rest' = rest := by
  unfold afterKill at h
  split_ifs at h
  · cases h
  · exact (Option.some.inj h).symm
  · exact (Option.some.inj h).symm

theorem afterKill_ne {ret : ℤ} {now : Timespec} :
    afterKill ret now rest ≠ .waiting ∧ afterKill ret now rest ≠ .over := by
  unfold afterKill
  split_ifs <;> exact ⟨by simp, by simp⟩

theorem guarded_step (ht : t.Guarded) (h : step t e = some t') : t'.Guarded := by
  have hmade {leaf : LayerRef} {g : Stage} (hg : t.stage leaf = g) (hne : g ≠ .waiting) :
      leaf < t.library.client.nextLayer := ht.made leaf (hg ▸ hne)
  cases step_effect h with
  | library _ hstep => exact ht.library hstep
  | @startTimer leaf _ _ _ l w hw hstep =>
    exact (ht.library hstep).setDog fun h => (ht.library hstep).stopping leaf (hw ▸ h)
  | @stopTimer leaf => exact ht.setDog fun h => ht.stopping leaf h
  | stop hlt hdead => exact ht.setDog fun _ => ⟨hlt, ht.told.dead _ hlt hdead⟩
  | @wake leaf now hdog hg =>
    obtain ⟨hpos, hlt⟩ := ht.dogs leaf hdog
    have hset : (t.setDog leaf ((t.dogs leaf).wake now)).Guarded :=
      ht.setDog fun h => ht.stopping leaf h
    refine hset.setStage hlt fun rest hrest => ⟨leaf, hpos, Or.inl rfl, ?_⟩
    split at hrest
    · exact Option.some.inj hrest
    · cases hrest
  | withdraw hg _ => exact ht.setStage (hmade hg (by simp)) fun _ h => by cases h
  | @strike leaf L x now reply rest s ret l hg hkill hstep =>
    obtain ⟨P, y, hrest, hthrough⟩ := ht.parent (by rw [hg]; rfl)
    obtain ⟨heq, hpath⟩ := List.cons.inj hrest
    obtain ⟨rfl, rfl⟩ := Prod.mk.inj heq
    have hL : 0 < L := Nat.pos_of_ne_zero fun h => by
      rw [h, FalconClient.killChild_base ht.heap.base.2.2.1] at hkill
      cases hkill
    have hturns := ht.turns hstep
    have hlt := hmade hg (by simp)
    refine (ht.library hstep).setStage (Nat.lt_of_lt_of_le hlt hturns.nextLayer)
      fun rest' hrest => ⟨L, hL, ?_, ?_⟩
    · exact (FalconClient.through_iff (hturns.path leaf hlt)).mpr hthrough
    · rw [afterKill_rest hrest, hpath]
      exact hturns.path L (ht.told.rooted.through_lt ht.heap hlt hthrough)
  | rest _ => exact ht
  | @rise leaf _ _ rest hg =>
    refine ht.setStage (hmade hg (by simp)) fun rest' hrest => ?_
    exact ht.onWay leaf rest' (by rw [hg]; exact hrest)
  | @cancelPass leaf replies l hg hstep =>
    exact (ht.library hstep).setStage
      (Nat.lt_of_lt_of_le (hmade hg (by simp)) (ht.turns hstep).nextLayer) fun _ h => by cases h

/-! ## Nobody is given up silently -/

/-- A watchdog that withdraws from the war path leaves nobody waiting: every callback that has come
to its leaf has had its final event. -/
def WithdrawsTold (t : Kennel) (_ : Event) (t' : Kennel) : Prop :=
  ∀ leaf, t.stage leaf ≠ .cancelling → t'.stage leaf = .cancelling →
    ∀ cb, t'.library.Serves cb leaf → (t'.library.client.callbacks cb).runFinal = true

/-- **A kill that settles the matter** has told the callbacks that have come to the leaf: the layer
that was struck is on its way, or another is in the place of one that is gone. -/
theorem Guarded.settled {L : LayerRef} {x : LayerId} {reply : Reply} {s : FalconClient}
    {cb : CallbackRef} (ht : t.Guarded) (hg : (t.stage leaf).rest = some ((L, x) :: rest))
    (hkill : t.library.client.killChild L x reply = some (s, 0)) (hs : t.library.Serves cb leaf) :
    (s.callbacks cb).runFinal = true := by
  have hcov := ht.told.covered
  have hmean := FalconClient.meanwhile_killChild hkill
  obtain ⟨c, hc, hlist⟩ := FalconClient.killChild_zero hkill
  obtain ⟨d, hpos, hthrough, hpath⟩ := ht.onWay leaf _ hg
  by_cases hcd : c = d
  · subst hcd
    obtain hcb | hcb := hcov.covers cb leaf hs c hpos hthrough
    · exact hlist cb hcb
    · exact hmean.final cb hcb
  · have hsev : t.library.client.Severed d := ht.heap.severed hpath fun h =>
      hcd (Option.some.inj (hc.symm.trans h))
    exact hmean.final cb (ht.told.final ⟨d, hpos, hthrough, hsev⟩ hs)

/-- **A watchdog that gives up the war path** is told to stop, or cannot lock the next parent: its
leaf is lost. -/
theorem Guarded.lost (ht : t.Guarded) (hg : (t.stage leaf).rest = some rest)
    (hend : ∀ L x rest', rest = (L, x) :: rest' →
      t.library.client.live L = false ∨ (t.dogs leaf).stopping = true) :
    t.library.client.Lost leaf := by
  obtain ⟨P, y, hrest, hup⟩ := ht.parent hg
  obtain hdead | hstop := hend P y _ hrest
  · have hlt := ht.made_of_rest hg
    have hP := ht.told.rooted.through_lt ht.heap hlt hup
    obtain ⟨z, hz, hzP, hsev⟩ := ht.told.dead P hP hdead
    exact ⟨z, hz, ht.told.rooted.through_trans ht.heap hlt hzP hup, hsev⟩
  · exact (ht.stopping leaf hstop).2

/-- Only a watchdog that is sent to its cancel path gets there. -/
theorem setStage_cancelling {leaf' : LayerRef} {g : Stage} (hne : t.stage leaf ≠ .cancelling)
    (h : (t.setStage leaf' g).stage leaf = .cancelling) : leaf = leaf' ∧ g = .cancelling := by
  by_cases heq : leaf = leaf'
  · subst heq
    exact ⟨rfl, (Function.update_self ..).symm.trans h⟩
  · exact (hne ((Function.update_of_ne heq ..).symm.trans h)).elim

/-- What the library does for a kill. -/
theorem library_kill {L : LayerRef} {x : LayerId} {reply : Reply} {s : FalconClient} {ret : ℤ}
    {l : Library} (hkill : t.library.client.killChild L x reply = some (s, ret))
    (hstep : t.library.step (.other (.kill leaf L x reply)) = some l) :
    l = ⟨s.collect t.library.client.live (t.library.job.map Job.curr), t.library.job⟩ := by
  cases Library.step_effect hstep with
  | @other e s' he hstep' =>
    simp only [FalconClient.step, hkill] at hstep'
    split at hstep'
    · rw [← Option.some.inj hstep']
    · cases hstep'

theorem withdraws_step (ht : t.Guarded) (h : step t e = some t') : WithdrawsTold t e t' := by
  intro leaf hne hcan cb hs
  cases step_effect h with
  | library _ _ => exact (hne hcan).elim
  | startTimer _ _ => exact (hne hcan).elim
  | stopTimer => exact (hne hcan).elim
  | stop _ _ => exact (hne hcan).elim
  | rest _ => exact (hne hcan).elim
  | @wake leaf' now _ _ =>
    obtain ⟨-, hg⟩ := setStage_cancelling (t := t.setDog leaf' _) hne hcan
    split at hg <;> cases hg
  | @withdraw leaf' _ _ rest hg hend =>
    obtain ⟨rfl, -⟩ := setStage_cancelling hne hcan
    exact ht.told.final (ht.lost (by rw [hg]; rfl) hend) hs
  | @strike leaf' L x now reply rest s ret l hg hkill hstep =>
    obtain ⟨rfl, hret⟩ := setStage_cancelling (t := { t with library := l }) hne hcan
    obtain rfl : ret = 0 := by
      by_contra h
      rw [afterKill, if_neg h] at hret
      split at hret <;> cases hret
    obtain rfl := library_kill hkill hstep
    have hmean : Meanwhile t.library.client
        (s.collect t.library.client.live (t.library.job.map Job.curr)) :=
      (FalconClient.meanwhile_killChild hkill).trans (FalconClient.meanwhile_live _)
    have hfinal : (s.callbacks cb).runFinal = true :=
      ht.settled (by rw [hg]; rfl) hkill (Library.serves_other hmean (fun _ h => h) hs)
    exact hfinal
  | rise _ =>
    obtain ⟨-, hg⟩ := setStage_cancelling hne hcan
    cases hg
  | @cancelPass leaf' _ l _ _ =>
    obtain ⟨-, hg⟩ := setStage_cancelling (t := { t with library := l }) hne hcan
    cases hg

/-- **Nobody is given up silently**: in every run, a watchdog leaves the war path only when every
callback that has come to its leaf has had its final event. -/
theorem withdraws_told (addr : ClientAddr) (garbage : Timespec) (es : List Event) :
    Run.Along step WithdrawsTold (init addr garbage) es :=
  Run.along_iff_run.mpr fun _ _ _ _ _ hpre h => withdraws_step
    (Run.keeps (fun _ _ _ h ht => guarded_step ht h) hpre (guarded_init addr garbage)) h

/-! ## Up the way, a layer at a time -/

/-- What a watchdog does to the library: it kills, or it makes its cancellation pass. -/
def work (leaf : LayerRef) : Library.Event → Option (Option (LayerRef × LayerId))
  | .other (.kill w L x _) => if w = leaf then some (some (L, x)) else none
  | .other (.cancelPass w _) => if w = leaf then some none else none
  | _ => none

/-- **Work that is done in order**: `struck` from below, and in the end the pass. -/
def InOrder (path : List (LayerRef × LayerId)) (g : Stage)
    (done : List (Option (LayerRef × LayerId))) : Prop :=
  ∃ struck rest, struck ++ rest = path ∧ (g = .waiting → struck = []) ∧
    (∀ r, g.rest = some r → r = rest) ∧
    done = struck.map some ++ if g = .over then [none] else []

/-- A run of the library in which every watchdog has worked in order. -/
structure Traced (addr : ClientAddr) (t : Kennel) (es : List Library.Event) : Prop where
  run : es.foldlM Library.step (.init addr) = some t.library
  inOrder : ∀ leaf, InOrder (t.library.client.layers leaf).path (t.stage leaf)
    (es.filterMap (work leaf))

theorem work_of_not_watchdogs {e : Library.Event} (he : isWatchdogs e = false) (leaf : LayerRef) :
    work leaf e = none := by
  cases e with
  | other e =>
    cases e with
    | kill _ _ _ _ => cases he
    | cancelPass _ _ => cases he
    | _ => rfl
  | _ => rfl

/-- A step of the library leaves the ways of the watchdogs at work. -/
theorem Guarded.path {l : Library} {e : Library.Event} (ht : t.Guarded)
    (h : t.library.step e = some l) (hg : t.stage leaf ≠ .waiting) :
    (l.client.layers leaf).path = (t.library.client.layers leaf).path :=
  (ht.turns h).path leaf (ht.made leaf hg)

/-- A step of the library on which `leaf` does not work. -/
theorem Traced.elsewhere {addr : ClientAddr} {es : List Library.Event} {l : Library}
    {e : Library.Event} (h : t.Traced addr es) (ht : t.Guarded) (hstep : t.library.step e = some l)
    (hwork : work leaf e = none) :
    InOrder (l.client.layers leaf).path (t.stage leaf) ((es ++ [e]).filterMap (work leaf)) := by
  obtain ⟨struck, rest, hpath, hwait, hrest, hdone⟩ := h.inOrder leaf
  rw [List.filterMap_append, List.filterMap_cons_none hwork, List.filterMap_nil, List.append_nil]
  by_cases hg : t.stage leaf = .waiting
  · refine ⟨[], _, List.nil_append _, fun _ => rfl, fun r hr => ?_, ?_⟩
    · rw [hg] at hr
      cases hr
    · rw [hdone, hwait hg]
  · exact ⟨struck, rest, hpath.trans (ht.path hstep hg).symm, hwait, hrest, hdone⟩

theorem Traced.snoc {addr : ClientAddr} {es : List Library.Event} {l : Library}
    {e : Library.Event} (h : t.Traced addr es) (hstep : t.library.step e = some l) :
    (es ++ [e]).foldlM Library.step (.init addr) = some l := by
  rw [List.foldlM_append, h.run]
  rw [Option.bind_eq_bind, Option.bind_some, List.foldlM_cons, hstep]
  rfl

/-- A watchdog comes to another stage without working. -/
theorem Traced.setStage {addr : ClientAddr} {es : List Library.Event} {g : Stage}
    (h : t.Traced addr es)
    (hg : InOrder (t.library.client.layers leaf).path g (es.filterMap (work leaf))) :
    (t.setStage leaf g).Traced addr es := by
  refine ⟨h.run, fun leaf' => ?_⟩
  by_cases heq : leaf' = leaf
  · subst heq
    simpa only [Kennel.setStage, Function.update_self] using hg
  · simpa only [Kennel.setStage, Function.update_of_ne heq] using h.inOrder leaf'

/-- A watchdog works. -/
theorem Traced.works {addr : ClientAddr} {es : List Library.Event} {l : Library}
    {e : Library.Event} {g : Stage} (h : t.Traced addr es) (ht : t.Guarded)
    (hstep : t.library.step e = some l) (hother : ∀ leaf' ≠ leaf, work leaf' e = none)
    (hg : InOrder (l.client.layers leaf).path g ((es ++ [e]).filterMap (work leaf))) :
    Traced addr (Kennel.setStage leaf g { t with library := l }) (es ++ [e]) := by
  refine ⟨h.snoc hstep, fun leaf' => ?_⟩
  by_cases heq : leaf' = leaf
  · subst heq
    simpa only [Kennel.setStage, Function.update_self] using hg
  · simpa only [Kennel.setStage, Function.update_of_ne heq] using
      h.elsewhere ht hstep (hother leaf' heq)

theorem traced_step {addr : ClientAddr} {es : List Library.Event} (hes : t.Traced addr es)
    (ht : t.Guarded) (h : step t e = some t') : ∃ es', t'.Traced addr es' := by
  cases step_effect h with
  | @library e l he hstep =>
    exact ⟨_, hes.snoc hstep, fun leaf =>
      hes.elsewhere ht hstep (work_of_not_watchdogs he leaf)⟩
  | startTimer _ hstep => exact ⟨_, hes.snoc hstep, fun leaf => hes.elsewhere ht hstep rfl⟩
  | stopTimer => exact ⟨es, hes.run, hes.inOrder⟩
  | stop _ _ => exact ⟨es, hes.run, hes.inOrder⟩
  | rest _ => exact ⟨es, hes⟩
  | @wake leaf now hdog hg =>
    obtain ⟨struck, rest, hpath, hwait, -, hdone⟩ := hes.inOrder leaf
    rw [hwait hg] at hpath hdone
    have hset : (t.setDog leaf ((t.dogs leaf).wake now)).Traced addr es := ⟨hes.run, hes.inOrder⟩
    refine ⟨es, hset.setStage ⟨[], rest, hpath, fun _ => rfl, fun r hr => ?_, ?_⟩⟩
    · split at hr
      · exact (Option.some.inj hr).symm.trans hpath.symm
      · cases hr
    · rw [hdone, hg, if_neg (by simp)]
      split <;> rfl
  | @withdraw leaf _ _ rest' hg _ =>
    obtain ⟨struck, rest, hpath, -, -, hdone⟩ := hes.inOrder leaf
    refine ⟨es, hes.setStage ⟨struck, rest, hpath, (by simp), fun r hr => (by cases hr), ?_⟩⟩
    rw [hdone, hg]
    rfl
  | @strike leaf L x now reply rest' s ret l hg hkill hstep =>
    obtain ⟨struck, rest, hpath, -, hrest, hdone⟩ := hes.inOrder leaf
    obtain rfl := hrest _ (by rw [hg]; rfl)
    refine ⟨_, hes.works ht hstep (fun leaf' hne => if_neg hne.symm)
      ⟨struck ++ [(L, x)], rest', ?_, fun h => (afterKill_ne.1 h).elim,
        fun r hr => afterKill_rest hr, ?_⟩⟩
    · rw [ht.path hstep (by rw [hg]; simp), ← hpath, List.append_assoc, List.singleton_append]
    · rw [List.filterMap_append, hdone, hg, if_neg afterKill_ne.2]
      simp [work]
  | @rise leaf now c rest' hg =>
    obtain ⟨struck, rest, hpath, -, hrest, hdone⟩ := hes.inOrder leaf
    refine ⟨es, hes.setStage ⟨struck, rest, hpath, (by simp), fun r hr => ?_, ?_⟩⟩
    · exact (Option.some.inj hr).symm.trans (hrest rest' (by rw [hg]; rfl))
    · rw [hdone, hg]
      rfl
  | @cancelPass leaf replies l hg hstep =>
    obtain ⟨struck, rest, hpath, -, -, hdone⟩ := hes.inOrder leaf
    refine ⟨_, hes.works ht hstep (fun leaf' hne => if_neg hne.symm)
      ⟨struck, rest, ?_, (by simp), fun r hr => (by cases hr), ?_⟩⟩
    · rw [ht.path hstep (by rw [hg]; simp), hpath]
    · rw [List.filterMap_append, hdone, hg]
      simp [work]

/-- **The watchdogs work along their ways**: what a run has done to the library is a run of the
library, in which every watchdog has killed layer after layer from its leaf up, and has made its
pass once when it is over. -/
theorem strikes_upward (addr : ClientAddr) (garbage : Timespec) {es : List Event}
    (h : es.foldlM step (init addr garbage) = some t) :
    ∃ es' : List Library.Event, es'.foldlM Library.step (.init addr) = some t.library ∧
      ∀ leaf, ∃ struck, struck <+: (t.library.client.layers leaf).path ∧
        es'.filterMap (work leaf) =
          struck.map some ++ if t.stage leaf = .over then [none] else [] := by
  have hstart : (init addr garbage).Traced addr [] :=
    ⟨rfl, fun _ => ⟨[], [], rfl, fun _ => rfl, fun _ h => (by cases h), rfl⟩⟩
  have hstep : ∀ t e t', step t e = some t' → (t.Guarded ∧ ∃ es', t.Traced addr es') →
      t'.Guarded ∧ ∃ es', t'.Traced addr es' := by
    rintro t e t' h ⟨ht, es', hes⟩
    exact ⟨guarded_step ht h, traced_step hes ht h⟩
  obtain ⟨-, es', hes⟩ := Run.keeps hstep h ⟨guarded_init addr garbage, [], hstart⟩
  refine ⟨es', hes.run, fun leaf => ?_⟩
  obtain ⟨struck, rest, hpath, -, -, hdone⟩ := hes.inOrder leaf
  exact ⟨struck, ⟨rest, hpath⟩, hdone⟩

/-- `"a"` on `"vm"` is killed and does not die in time; its machine has been dead for long. -/
def lastStand : List Event :=
  [.library (.take { Library.request ["a", "vm", "host"] with lethal := true }),
   .library (.hop (agrees []) ""), .library (.hop (agrees [1]) ""),
   .library (.hop (agrees [1, 1]) ""), .library .complete, .startTimer 3 0 5 ⟨10, 0⟩,
   .wake 3 ⟨15, 0⟩, .strike 3 ⟨15, 0⟩ (answer .killAck [1, 1]), .rise 3 ⟨18, 0⟩,
   .strike 3 ⟨18, 0⟩ (answer .longDead [1]), .cancelPass 3 fun _ => answer .cancelAck []]

theorem strikes_upward_lastStand : ∃ (t : Kennel) (es' : List Library.Event),
    lastStand.foldlM step (init ⟨1, 0, 0⟩ ⟨0, 0⟩) = some t ∧ t.stage 3 = .over ∧
    es'.foldlM Library.step (.init ⟨1, 0, 0⟩) = some t.library ∧
      ∀ leaf, ∃ struck, struck <+: (t.library.client.layers leaf).path ∧
        es'.filterMap (work leaf) =
          struck.map some ++ if t.stage leaf = .over then [none] else [] := by
  obtain ⟨t, h, hover⟩ : ∃ t, lastStand.foldlM step (init ⟨1, 0, 0⟩ ⟨0, 0⟩) = some t ∧
      t.stage 3 = .over := ⟨_, rfl, by decide⟩
  obtain ⟨es', hrun, hwork⟩ := strikes_upward ⟨1, 0, 0⟩ ⟨0, 0⟩ h
  exact ⟨t, es', h, hover, hrun, hwork⟩

end Kennel

end Falcon.Client
