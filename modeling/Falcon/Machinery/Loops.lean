import Mathlib.Data.Finset.Card
import Mathlib.Order.Defs.PartialOrder

/-!
# Machinery/Loops — loops that follow an order

A loop as the function of one round: it goes on to another state, leaves the loop with a result, or
ends the program.  The rounds are counted, and the states they are in are listed.

* `stops` — a loop whose rounds go on from the elements of a finite set only, and to larger ones,
  stops after one round more than there are elements at most, and is never at one of them twice.
-/

namespace Loop

variable {σ ρ κ : Type*}

/-- What a round of a loop does. -/
inductive Round (σ ρ : Type*)
  | next (s : σ)
  | leave (r : ρ)
  | fatal

variable (round : σ → Round σ ρ)

/-- The first `n` rounds: the result, which is none if the program ends.  There is nothing if the
loop goes on. -/
def run : ℕ → σ → Option (Option ρ)
  | 0, _ => none
  | n + 1, s =>
    match round s with
    | .next s' => run n s'
    | .leave r => some (some r)
    | .fatal => some none

/-- The states of the first `n` rounds. -/
def states : ℕ → σ → List σ
  | 0, _ => []
  | n + 1, s =>
    s :: match round s with
      | .next s' => states n s'
      | .leave _ => []
      | .fatal => []

/-- **A loop that stops**: it has `n` rounds at most, and each is at a larger key than those before
it. -/
structure Stops [LT κ] (key : σ → κ) (n : ℕ) (s : σ) : Prop where
  ends : ∃ r, run round n s = some r
  increases : ∀ m, ((states round m s).map key).Pairwise (· < ·)

variable {round} {I : σ → Prop} {s s' : σ} {n : ℕ} {r : Option ρ} {key : σ → κ}

theorem run_next (h : round s = .next s') : run round (n + 1) s = run round n s' := by
  rw [run, h]

theorem states_next (h : round s = .next s') : states round (n + 1) s = s :: states round n s' := by
  rw [states, h]

/-- A loop that goes on has gone on in every round. -/
theorem going_on {P : σ → Prop} (hnext : ∀ s s', I s → round s = .next s' → I s' ∧ P s)
    (hs : I s) (h : run round n s = none) :
    (states round n s).length = n ∧ ∀ t ∈ states round n s, P t := by
  induction n generalizing s with
  | zero => exact ⟨rfl, fun t ht => absurd ht List.not_mem_nil⟩
  | succ n ih =>
    cases hround : round s with
    | next s' =>
      obtain ⟨hI, hP⟩ := hnext s s' hs hround
      rw [run_next hround] at h
      obtain ⟨hlength, hall⟩ := ih hI h
      rw [states_next hround]
      exact ⟨by rw [List.length_cons, hlength], List.forall_mem_cons.mpr ⟨hP, hall⟩⟩
    | leave r =>
      rw [run, hround] at h
      cases h
    | fatal =>
      rw [run, hround] at h
      cases h

section Order

variable [Preorder κ] {S : Finset κ}

/-- Rounds that go on to larger keys are at larger and larger keys. -/
theorem increasing (hnext : ∀ s s', I s → round s = .next s' → I s' ∧ key s < key s') (hs : I s) :
    ((states round n s).map key).Pairwise (· < ·) ∧ ∀ t ∈ states round n s, key s ≤ key t := by
  induction n generalizing s with
  | zero => exact ⟨.nil, fun t ht => absurd ht List.not_mem_nil⟩
  | succ n ih =>
    cases hround : round s with
    | next s' =>
      obtain ⟨hI, hlt⟩ := hnext s s' hs hround
      obtain ⟨hpair, hle⟩ := ih hI
      rw [states_next hround, List.map_cons, List.pairwise_cons, List.forall_mem_map,
        List.forall_mem_cons]
      exact ⟨⟨fun t ht => hlt.trans_le (hle t ht), hpair⟩, le_rfl,
        fun t ht => hlt.le.trans (hle t ht)⟩
    | leave r => simp [states, hround]
    | fatal => simp [states, hround]

/-- **The rule.**  The invariant is kept by every round that goes on, which is at an element of the
set, and goes on to a larger one. -/
theorem stops (S : Finset κ)
    (hnext : ∀ s s', I s → round s = .next s' → I s' ∧ key s ∈ S ∧ key s < key s') (hs : I s) :
    Stops round key (S.card + 1) s := by
  have hincreasing (m : ℕ) := increasing (n := m)
    (fun s s' hI h => ⟨(hnext s s' hI h).1, (hnext s s' hI h).2.2⟩) hs
  refine ⟨Option.ne_none_iff_exists'.mp fun hnone => ?_, fun m => (hincreasing m).1⟩
  classical
  obtain ⟨hlength, hmem⟩ := going_on (P := fun s => key s ∈ S)
    (fun s s' hI h => ⟨(hnext s s' hI h).1, (hnext s s' hI h).2.1⟩) hs hnone
  -- as many different keys as rounds
  have hnodup : ((states round (S.card + 1) s).map key).Nodup :=
    (hincreasing _).1.imp fun hlt => hlt.ne
  have hle : ((states round (S.card + 1) s).map key).toFinset.card ≤ S.card :=
    Finset.card_le_card fun k hk => by
      obtain ⟨t, ht, rfl⟩ := List.mem_map.mp (List.mem_toFinset.mp hk)
      exact hmem t ht
  rw [List.toFinset_card_of_nodup hnodup, List.length_map, hlength] at hle
  omega

end Order

end Loop
