import Falcon.Client.Layer
import Falcon.Machinery.Run
import Mathlib.Data.Prod.Lex

/-!
# Client/Watchdog — when a watchdog goes on the war path

`Watchdog::Run` waits until its timeout has passed, and starts to kill.  A reading of the clock has
seconds and nanoseconds; the comparison of the waiting loop looks at the seconds of both times, but
compares the nanoseconds of the first with themselves, so that within one second nothing is after
anything.

* `onTime_iff` — the loop is left too early exactly at the readings in the second of the timeout
  that are before it.
-/

namespace Falcon.Client

/-- `struct timespec`. -/
structure Timespec where
  sec : ℤ
  nsec : ℤ
  deriving DecidableEq, Repr

namespace Timespec

/-- `operator>` of `Watchdog.cc`. -/
def gt (t1 t2 : Timespec) : Bool :=
  t1.sec > t2.sec || (t1.sec = t2.sec && t1.nsec > t1.nsec)

/-- The time as a point of the lexicographic order. -/
def point (t : Timespec) : ℤ ×ₗ ℤ := toLex (t.sec, t.nsec)

theorem gt_iff {t1 t2 : Timespec} : t1.gt t2 = true ↔ t2.sec < t1.sec := by simp [gt]

theorem point_le_iff {t1 t2 : Timespec} :
    t1.point ≤ t2.point ↔ t1.sec < t2.sec ∨ t1.sec = t2.sec ∧ t1.nsec ≤ t2.nsec :=
  Prod.Lex.toLex_le_toLex

end Timespec

/-- The fields of `Watchdog` its waiting loop looks at, and whether the loop has been left. -/
structure Watchdog where
  currTimeout : Timespec
  hasTimeout : Bool
  stopping : Bool
  aggravated : Bool
  upCallback : Option CallbackRef
  /-- `Run` is past the loop. -/
  left : Bool
  deriving DecidableEq, Repr

namespace Watchdog

/-- The constructor has started `Run`; `curr_timeout_` is not initialised. -/
def init (garbage : Timespec) : Watchdog := ⟨garbage, false, false, false, none, false⟩

/-- `StartTimer`, where the clock reads `clock`. -/
def startTimer (cb : CallbackRef) (timeout : ℤ) (clock : Timespec) (w : Watchdog) : Watchdog :=
  { w with
    upCallback := some cb
    hasTimeout := true
    currTimeout := { clock with sec := clock.sec + timeout } }

/-- `StopTimer`. -/
def stopTimer (w : Watchdog) : Watchdog := { w with hasTimeout := false }

/-- What the destructor does first, after `Stop`. -/
def stop (w : Watchdog) : Watchdog := { w with stopping := true }

/-- The condition of the waiting loop at the reading `now`. -/
def goesOn (now : Timespec) (w : Watchdog) : Bool :=
  (!w.hasTimeout || w.currTimeout.gt now) && !w.stopping && !w.aggravated

/-- The wait has ended, whatever ended it, and the clock reads `now`. -/
def wake (now : Timespec) (w : Watchdog) : Watchdog := { w with left := !w.goesOn now }

/-- What happens to a watchdog; its lock makes each one step. -/
inductive Event
  | startTimer (cb : CallbackRef) (timeout : ℤ) (clock : Timespec)
  | stopTimer
  | stop
  | wake (now : Timespec)
  deriving DecidableEq, Repr

def step (w : Watchdog) : Event → Option Watchdog
  | .startTimer cb timeout clock => some (w.startTimer cb timeout clock)
  | .stopTimer => some w.stopTimer
  | .stop => some w.stop
  | .wake now => if w.left then none else some (w.wake now)

/-- **The timeout does not fire early**: the loop is left at a reading at or after the timeout,
unless the watchdog is told to stop or is aggravated. -/
def OnTime (w : Watchdog) (e : Event) (w' : Watchdog) : Prop :=
  ∀ now, e = .wake now → w'.left = true → w.stopping = false → w.aggravated = false →
    w.hasTimeout = true ∧ w.currTimeout.point ≤ now.point

/-- The clock reads the second of the timeout, before the timeout. -/
def CutShort (w : Watchdog) (now : Timespec) : Prop :=
  w.hasTimeout = true ∧ w.stopping = false ∧ w.aggravated = false ∧
    now.sec = w.currTimeout.sec ∧ now.nsec < w.currTimeout.nsec

variable {w w' : Watchdog} {e : Event} {now : Timespec}

/-- Where a watchdog that is left alone leaves its loop. -/
theorem wake_left_iff (hstop : w.stopping = false) (hagg : w.aggravated = false) :
    (w.wake now).left = true ↔ w.hasTimeout = true ∧ w.currTimeout.sec ≤ now.sec := by
  simp only [wake, goesOn, hstop, hagg, Bool.not_false, Bool.and_true, Bool.not_or, Bool.not_not,
    Bool.and_eq_true, Bool.not_eq_true', ← Bool.not_eq_true, Timespec.gt_iff, Int.not_lt]

/-- **One reading of the clock.** -/
theorem onTime_wake_iff (h : step w (.wake now) = some w') :
    OnTime w (.wake now) w' ↔ ¬w.CutShort now := by
  have hw' : w' = w.wake now := by
    simp only [step] at h
    split at h
    · cases h
    · exact (Option.some.inj h).symm
  subst hw'
  constructor
  · rintro hon ⟨htime, hstop, hagg, hsec, hnsec⟩
    obtain ⟨-, hle⟩ :=
      hon now rfl ((wake_left_iff hstop hagg).mpr ⟨htime, Int.le_of_eq hsec.symm⟩) hstop hagg
    obtain hlt | ⟨-, hle⟩ := Timespec.point_le_iff.mp hle
    · omega
    · omega
  · intro hcut now' hnow hleft hstop hagg
    obtain rfl := Event.wake.inj hnow
    obtain ⟨htime, hsec⟩ := (wake_left_iff hstop hagg).mp hleft
    refine ⟨htime, Timespec.point_le_iff.mpr ?_⟩
    obtain hlt | heq := Int.lt_or_eq_of_le hsec
    · exact Or.inl hlt
    · refine Or.inr ⟨heq, Int.not_lt.mp fun hnsec => hcut ⟨htime, hstop, hagg, heq.symm, hnsec⟩⟩

/-- **The timeout never fires early** in a run exactly if no wait ends in the second of the timeout
before it. -/
theorem onTime_iff (garbage : Timespec) (es : List Event) :
    Run.Along step OnTime (init garbage) es ↔
      Run.Along step (fun w e _ => ∀ now, e = .wake now → ¬w.CutShort now) (init garbage) es := by
  refine Run.along_iff_of_inv (I := fun _ => True) ?_ ?_ trivial
  · refine fun w e w' h _ hC => ⟨trivial, fun now he => ?_⟩
    subst he
    exact (onTime_wake_iff h).mpr (hC now rfl) now rfl
  · intro w e w' h _ hR now he
    subst he
    exact (onTime_wake_iff h).mp hR

/-- A timeout of one second is started in the middle of a second; the wait ends at the start of the
next. -/
theorem fires_early : ¬Run.Along step OnTime (init ⟨0, 0⟩)
    [.startTimer 0 1 ⟨10, 500000000⟩, .wake ⟨11, 0⟩] := by
  intro h
  have hwake := ((h _ rfl).2 _ rfl).1
  obtain ⟨-, hle⟩ := hwake ⟨11, 0⟩ rfl (by decide) rfl rfl
  exact absurd (Timespec.point_le_iff.mp hle) (by decide)

end Watchdog

end Falcon.Client
