import Falcon.Enforcer.Step
import Mathlib.Data.List.Induction
import Mathlib.Data.List.TakeWhile
import Mathlib.Logic.Function.Basic

/-!
# Enforcer/GenerationLog — the file behind `generations_`

`IncrementGeneration` appends one line to a file for every down; a restarted enforcer counts the
lines again (`InitGenerations`).  The writer prints the handle up to its first zero byte, of any
length and as it is; the reader takes 255 bytes at a time, and drops the last one of each piece
whatever it is.  Texts are byte strings here, since the pieces are counted in bytes.

* `pieces_line` — a printable handle comes back as it was written.
* `round_trip_iff` — a run with restarts keeps the numbers exactly if all its handles are printable:
  no zero byte, no newline, 254 bytes at most.
-/

namespace Falcon

/-- The file, and the map of the enforcer that writes it. -/
structure GenerationLog where
  file : List UInt8
  generations : List UInt8 → UInt32

namespace GenerationLog

/-- A `str`, as its bytes. -/
abbrev Text := List UInt8

def newline : UInt8 := 10

/-- The size of the buffer of `InitGenerations`. -/
def kTargetSize : ℕ := 256

/-! ## The two ends of the file -/

/-- `fprintf(generation_log_, "%s\n", target->cstr())`. -/
def line (target : Text) : Text := target.takeWhile (· ≠ 0) ++ [newline]

/-- What the calls `fgets(target, kTargetSize, f)` return, one after the other: a piece ends after a
newline, with `kTargetSize - 1` bytes, or with the file.  `got` is the piece so far. -/
def pieces (got : Text) : Text → List Text
  | [] => if got = [] then [] else [got]
  | b :: file =>
    if b = newline ∨ got.length + 1 = kTargetSize - 1 then (got ++ [b]) :: pieces [] file
    else pieces (got ++ [b]) file

/-- `target[strlen(target) - 1] = '\0'`. -/
def chop (piece : Text) : Text := (piece.takeWhile (· ≠ 0)).dropLast

/-- `generations_[target]++`. -/
def bump (gens : Text → UInt32) (target : Text) : Text → UInt32 :=
  Function.update gens target (gens target + 1)

/-- `InitGenerations`, on the contents of the file. -/
def initGenerations (file : Text) : Text → UInt32 :=
  ((pieces [] file).map chop).foldl bump fun _ => 0

def incrementGeneration (target : Text) (s : GenerationLog) : GenerationLog where
  file := s.file ++ line target
  generations := bump s.generations target

/-! ## Runs with restarts -/

inductive Event
  | increment (target : Text)
  | restart
  deriving DecidableEq, Repr

def step (s : GenerationLog) : Event → GenerationLog
  | .increment target => s.incrementGeneration target
  | .restart => { s with generations := initGenerations s.file }

/-- A run, from an empty file. -/
def run (es : List Event) : GenerationLog := es.foldl step ⟨[], fun _ => 0⟩

/-- The file counts the increments of the run, and so does the map. -/
def Faithful (es : List Event) : Prop :=
  ∀ t, initGenerations (run es).file t = .ofNat (es.count (.increment t)) ∧
    (run es).generations t = initGenerations (run es).file t

/-- A handle that survives the way through the file. -/
def Printable (target : Text) : Prop :=
  0 ∉ target ∧ newline ∉ target ∧ target.length + 1 < kTargetSize

instance (target : Text) : Decidable (Printable target) := inferInstanceAs (Decidable (_ ∧ _ ∧ _))

/-! ## Pieces -/

/-- Counting a list of handles. -/
theorem foldl_bump (targets : List Text) (gens : Text → UInt32) (t : Text) :
    targets.foldl bump gens t = gens t + .ofNat (targets.count t) := by
  induction targets generalizing gens with
  | nil => simp
  | cons x targets ih =>
    rw [List.foldl_cons, ih, bump]
    by_cases hx : t = x
    · subst hx
      rw [Function.update_self, List.count_cons_self, UInt32.ofNat_add, UInt32.add_assoc,
        UInt32.add_comm 1]
      rfl
    · rw [Function.update_of_ne hx, List.count_cons_of_ne (Ne.symm hx)]

theorem chop_isPrefix (piece : Text) : chop piece <+: piece.dropLast := by
  obtain h | ⟨b, l, h⟩ : piece.takeWhile (· ≠ 0) = [] ∨ ∃ b l, piece.takeWhile (· ≠ 0) = l ++ [b] :=
    (List.eq_nil_or_concat _).imp_right fun ⟨l, b, h⟩ => ⟨b, l, by simpa using h⟩
  · rw [chop, h]
    exact List.nil_prefix
  · obtain ⟨rest, hrest⟩ := List.takeWhile_prefix (l := piece) (p := (· ≠ 0))
    rw [h] at hrest
    rw [chop, h, List.dropLast_concat, ← hrest, List.append_assoc, List.singleton_append]
    simp

/-- A piece is chopped to something printable. -/
theorem printable_chop_of {got piece : Text} (hgot : newline ∉ got)
    (hlen : got.length + 1 < kTargetSize) (h : piece.dropLast <+: got) :
    Printable (chop piece) := by
  have hpre : chop piece <+: got := (chop_isPrefix piece).trans h
  refine ⟨fun hz => ?_, fun hn => hgot (hpre.subset hn), ?_⟩
  · have hmem := List.mem_takeWhile_imp ((List.dropLast_prefix _).subset hz)
    simp at hmem
  · have := hpre.length_le
    omega

/-- **What is read is printable**, whatever was written. -/
theorem printable_chop {got file : Text} (hgot : newline ∉ got)
    (hlen : got.length + 1 < kTargetSize) : ∀ piece ∈ pieces got file, Printable (chop piece) := by
  induction file generalizing got with
  | nil =>
    intro piece h
    unfold pieces at h
    split at h
    · cases h
    · obtain rfl := List.mem_singleton.mp h
      exact printable_chop_of hgot hlen (List.dropLast_prefix _)
  | cons b file ih =>
    intro piece h
    unfold pieces at h
    split at h
    · obtain rfl | h := List.mem_cons.mp h
      · exact printable_chop_of hgot hlen (by simp)
      · exact ih (by simp) (by decide) piece h
    · next hb =>
      rw [not_or] at hb
      refine ih ?_ ?_ piece h
      · simpa [hgot] using Ne.symm hb.1
      · rw [List.length_append, List.length_singleton]
        have := hb.2
        unfold kTargetSize at hlen this ⊢
        omega

/-- The rest of a line that fits into the buffer is read up to its newline. -/
theorem pieces_rest {got rest file : Text} (hrest : newline ∉ rest)
    (hlen : got.length + rest.length + 1 < kTargetSize) :
    pieces got (rest ++ newline :: file) = (got ++ rest ++ [newline]) :: pieces [] file := by
  induction rest generalizing got with
  | nil => simp [pieces]
  | cons b rest ih =>
    rw [List.mem_cons, not_or] at hrest
    rw [List.length_cons] at hlen
    have hb : ¬ (b = newline ∨ got.length + 1 = kTargetSize - 1) := by
      rintro (h | h)
      · exact hrest.1 h.symm
      · omega
    rw [List.cons_append, pieces, if_neg hb, ih hrest.2]
    · simp
    · rw [List.length_append, List.length_singleton]
      omega

theorem takeWhile_printable {t : Text} (ht : Printable t) : t.takeWhile (· ≠ 0) = t :=
  List.takeWhile_eq_self_iff.mpr fun b hb => by
    simpa using fun h : b = 0 => ht.1 (h ▸ hb)

/-- **A printable handle comes back as it was written.** -/
theorem pieces_line {t file : Text} (ht : Printable t) :
    pieces [] (line t ++ file) = (t ++ [newline]) :: pieces [] file := by
  rw [line, takeWhile_printable ht, List.append_assoc, List.singleton_append,
    pieces_rest ht.2.1 (by simpa using ht.2.2)]
  rfl

theorem chop_line {t : Text} (ht : Printable t) : chop (t ++ [newline]) = t := by
  have hself : (t ++ [newline]).takeWhile (· ≠ 0) = t ++ [newline] := by
    refine List.takeWhile_eq_self_iff.mpr fun b hb => ?_
    obtain hb | hb := List.mem_append.mp hb
    · simpa using fun h : b = 0 => ht.1 (h ▸ hb)
    · obtain rfl := List.mem_singleton.mp hb
      decide
  rw [chop, hself, List.dropLast_concat]

/-- Lines that fit are read as they were written, one piece each. -/
theorem read_lines (targets : List Text) (h : ∀ t ∈ targets, Printable t) :
    (pieces [] (targets.flatMap line)).map chop = targets := by
  induction targets with
  | nil => rfl
  | cons t targets ih =>
    have ht := h t List.mem_cons_self
    rw [List.flatMap_cons, pieces_line ht, List.map_cons, chop_line ht,
      ih fun t' ht' => h t' (List.mem_cons_of_mem _ ht')]

/-! ## Runs -/

/-- The handles a run increments, in order. -/
def targets (es : List Event) : List Text :=
  es.filterMap fun
    | .increment t => some t
    | .restart => none

theorem mem_targets {es : List Event} {t : Text} : t ∈ targets es ↔ .increment t ∈ es := by
  rw [targets, List.mem_filterMap]
  constructor
  · rintro ⟨e, he, h⟩
    cases e with
    | increment t' => exact Option.some.inj h ▸ he
    | restart => cases h
  · exact fun h => ⟨_, h, rfl⟩

theorem targets_concat (es : List Event) (e : Event) :
    targets (es ++ [e]) = targets es ++ match e with
      | .increment t => [t]
      | .restart => [] := by
  rw [targets, targets, List.filterMap_append]
  cases e <;> rfl

theorem count_targets (es : List Event) (t : Text) :
    (targets es).count t = es.count (.increment t) := by
  induction es with
  | nil => rfl
  | cons e es ih =>
    cases e with
    | increment t' => simpa [targets, List.count_cons] using ih
    | restart => simpa [targets, List.count_cons] using ih

theorem run_concat (es : List Event) (e : Event) : run (es ++ [e]) = step (run es) e := by
  rw [run, List.foldl_append]
  rfl

/-- The file has one line for each increment; restarts leave it as it is. -/
theorem file_run (es : List Event) : (run es).file = (targets es).flatMap line := by
  induction es using List.reverseRecOn with
  | nil => rfl
  | append_singleton es e ih =>
    rw [run_concat, targets_concat, List.flatMap_append, ← ih]
    cases e with
    | increment t => simp [step, incrementGeneration]
    | restart => simp [step]

theorem initGenerations_apply (file t : Text) :
    initGenerations file t = .ofNat (((pieces [] file).map chop).count t) := by
  rw [initGenerations, foldl_bump, UInt32.zero_add]

/-- What a restart finds, when all handles are printable. -/
theorem initGenerations_run {es : List Event} (h : ∀ t, .increment t ∈ es → Printable t)
    (t : Text) :
    initGenerations (run es).file t = .ofNat (es.count (.increment t)) := by
  rw [initGenerations_apply, file_run, read_lines _ fun t ht => h t (mem_targets.mp ht),
    count_targets]

/-- …and the map before it. -/
theorem generations_run {es : List Event} (h : ∀ t, .increment t ∈ es → Printable t) (t : Text) :
    (run es).generations t = .ofNat (es.count (.increment t)) := by
  induction es using List.reverseRecOn with
  | nil => rfl
  | append_singleton es e ih =>
    have hes : ∀ t, .increment t ∈ es → Printable t := fun t ht => h t (List.mem_append_left _ ht)
    rw [← count_targets, targets_concat, List.count_append, UInt32.ofNat_add, count_targets,
      ← ih hes, run_concat]
    cases e with
    | increment t' => exact foldl_bump [t'] (run es).generations t
    | restart =>
      rw [ih hes, ← initGenerations_run hes]
      simp [step]

/-- **The round trip**: after every part of a run the file counts the increments, and a restart
finds the map as it was, exactly if every handle that is incremented is printable. -/
theorem round_trip_iff (es : List Event) :
    (∀ pre, pre <+: es → Faithful pre) ↔ ∀ t, .increment t ∈ es → Printable t := by
  constructor
  · intro h t ht
    by_contra hbad
    obtain ⟨pre, rest, rfl, hnot⟩ := List.eq_append_cons_of_mem ht
    -- the first increment of the handle: no piece of the file gives it back
    have hone := (h (pre ++ [.increment t]) ⟨rest, by simp⟩ t).1
    have hzero : ((pieces [] (run (pre ++ [.increment t])).file).map chop).count t = 0 := by
      refine List.count_eq_zero.mpr fun hmem => hbad ?_
      obtain ⟨piece, hpiece, rfl⟩ := List.mem_map.mp hmem
      exact printable_chop (by simp) (by decide) piece hpiece
    rw [initGenerations_apply, hzero, List.count_append, List.count_eq_zero.mpr hnot] at hone
    simp at hone
  · intro h pre hpre t
    have hprintable : ∀ t, .increment t ∈ pre → Printable t := fun t ht => h t (hpre.subset ht)
    rw [initGenerations_run hprintable, generations_run hprintable]
    exact ⟨rfl, rfl⟩

/-- The line of `"a\nb"` is read as two. -/
theorem split_handle_lost : ¬ Faithful [.increment [97, newline, 98]] ∧
    initGenerations (run [.increment [97, newline, 98]]).file [97] = 1 := by
  refine ⟨fun h => ?_, by decide⟩
  exact absurd (h [97, newline, 98]).1 (by decide)

/-! ## The enforcer above the file -/

/-- The bytes of a handle. -/
def bytes (h : Handle) : Text := h.toByteArray.data.toList

theorem bytes_injective : Function.Injective bytes := fun _ _ h =>
  String.toByteArray_inj.mp (ByteArray.ext (Array.toList_inj.mp h))

/-- The file and the map behind an enforcer that has started with the file `before`. -/
structure Backs (before : Text) (log : GenerationLog) (s : Enforcer) : Prop where
  file : log.file = before ++ (s.generationLog.map bytes).flatMap line
  generations : ∀ t, log.generations (bytes t) = s.generations t

/-- The enforcer's own `IncrementGeneration` is that of the file. -/
theorem Backs.incrementGeneration {before : Text} {log : GenerationLog} {s : Enforcer}
    (h : Backs before log s) (t : Handle) :
    Backs before (log.incrementGeneration (bytes t)) (s.incrementGeneration t) := by
  refine ⟨by simp [GenerationLog.incrementGeneration, Enforcer.incrementGeneration, h.file],
    fun t' => ?_⟩
  rw [GenerationLog.incrementGeneration, Enforcer.incrementGeneration]
  by_cases ht : t' = t
  · subst ht
    simp [bump, h.generations]
  · simp [bump, ht, h.generations, bytes_injective.ne ht]

/-- **A restarted enforcer finds the numbers of the one before it**, when its handles are printable.
-/
theorem Backs.restart {es : List Event} {before : Text} {s : Enforcer}
    (h : Backs before (run es) s) (hes : ∀ t, .increment t ∈ es → Printable t) (t : Handle) :
    initGenerations (run es).file (bytes t) = s.generations t :=
  ((initGenerations_run hes _).trans (generations_run hes _).symm).trans (h.generations t)

end GenerationLog

end Falcon
