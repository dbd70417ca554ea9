import Mathlib.Data.List.Induction
import Mathlib.Data.List.Nodup

/-!
# Machinery/Sessions — a service that remembers its last answer to each client

A request and an answer carry an id.  A request with the id of the last answer to its client is a
retry, and it is not run.

* `Service.replay` — what a sequence of requests leaves behind.
* `state_replay` — the machine has run those that are no retries, one after the other.
* `nodup_fresh` — if no client goes back to an earlier id, no request is run twice.
* `gives_of_last` — each answer that is kept is that of one run of a request of this client.
-/

/-- A deterministic machine; its answer carries the id of the request. -/
structure Service (σ κ ι ρ ξ : Type*) where
  start : σ
  run : σ → ι → σ × ρ
  client : ι → κ
  asked : ι → ξ
  answered : ρ → ξ
  answered_run : ∀ s i, answered (run s i).2 = asked i

/-- The state of the machine, and the last answers. -/
structure Sessions (σ κ ρ : Type*) where
  state : σ
  last : κ → Option ρ

namespace Service

variable {σ κ ι ρ ξ : Type*} [DecidableEq κ] [DecidableEq ξ] (S : Service σ κ ι ρ ξ)

/-- A retry. -/
def Known (s : Sessions σ κ ρ) (i : ι) : Prop :=
  (s.last (S.client i)).map S.answered = some (S.asked i)

instance (s : Sessions σ κ ρ) (i : ι) : Decidable (S.Known s i) :=
  inferInstanceAs (Decidable (_ = _))

/-- One request. -/
def serve (s : Sessions σ κ ρ) (i : ι) : Sessions σ κ ρ :=
  if S.Known s i then s
  else
    { state := (S.run s.state i).1
      last := Function.update s.last (S.client i) (some (S.run s.state i).2) }

/-- No client has asked. -/
def initial : Sessions σ κ ρ := ⟨S.start, fun _ => none⟩

def replay (l : List ι) : Sessions σ κ ρ := l.foldl S.serve S.initial

/-- The requests that are run. -/
def freshFrom (s : Sessions σ κ ρ) : List ι → List ι
  | [] => []
  | i :: l => if S.Known s i then freshFrom s l else i :: freshFrom (S.serve s i) l

def fresh (l : List ι) : List ι := S.freshFrom S.initial l

/-- No client goes back to an id that it has left. -/
def Forward (l : List ι) : Prop :=
  ∀ i j k, [i, j, k].Sublist l → S.client j = S.client i → S.client k = S.client i →
    S.asked k = S.asked i → S.asked j = S.asked i

/-- The machine after it has run the requests `l`, whatever they are. -/
def runs (l : List ι) : σ := l.foldl (fun s i => (S.run s i).1) S.start

/-- When the machine runs `l`, it answers `r` to a request of `c`. -/
def Gives (l : List ι) (c : κ) (r : ρ) : Prop :=
  ∃ l₁ i, l₁ ++ [i] <+: l ∧ S.client i = c ∧ r = (S.run (S.runs l₁) i).2

variable {S} {s : Sessions σ κ ρ} {i j : ι} {l l' : List ι} {c : κ} {r : ρ}

@[simp] theorem replay_nil : S.replay [] = S.initial := rfl

@[simp] theorem replay_concat (l : List ι) (i : ι) :
    S.replay (l ++ [i]) = S.serve (S.replay l) i := List.foldl_concat ..

theorem serve_of_known (h : S.Known s i) : S.serve s i = s := if_pos h

theorem serve_of_not_known (h : ¬ S.Known s i) : S.serve s i =
    { state := (S.run s.state i).1
      last := Function.update s.last (S.client i) (some (S.run s.state i).2) } := if_neg h

theorem last_serve (h : ¬ S.Known s i) : (S.serve s i).last =
    Function.update s.last (S.client i) (some (S.run s.state i).2) := by
  rw [serve_of_not_known h]

/-- Once served, a request is known. -/
theorem known_serve (s : Sessions σ κ ρ) (i : ι) : S.Known (S.serve s i) i := by
  by_cases h : S.Known s i
  · rwa [serve_of_known h]
  · rw [Known, last_serve h, Function.update_self, Option.map_some, S.answered_run]

/-- It stays known while other clients are served. -/
theorem known_serve_of_ne (h : S.Known s i) (hne : S.client j ≠ S.client i) :
    S.Known (S.serve s j) i := by
  by_cases hj : S.Known s j
  · rwa [serve_of_known hj]
  · rw [Known, last_serve hj, Function.update_of_ne hne.symm]
    exact h

theorem freshFrom_append (s : Sessions σ κ ρ) (l l' : List ι) :
    S.freshFrom s (l ++ l') = S.freshFrom s l ++ S.freshFrom (l.foldl S.serve s) l' := by
  induction l generalizing s with
  | nil => rfl
  | cons i l ih =>
    rw [List.cons_append, freshFrom, freshFrom, List.foldl_cons]
    split_ifs with h
    · rw [ih, serve_of_known h]
    · rw [ih, List.cons_append]

theorem fresh_concat (l : List ι) (i : ι) :
    S.fresh (l ++ [i]) = S.fresh l ++ if S.Known (S.replay l) i then [] else [i] := by
  rw [fresh, freshFrom_append]
  rfl

theorem fresh_mono (h : l <+: l') : S.fresh l <+: S.fresh l' := by
  obtain ⟨l₂, rfl⟩ := h
  rw [fresh, fresh, freshFrom_append]
  exact List.prefix_append _ _

theorem fresh_subset (l : List ι) : ∀ i ∈ S.fresh l, i ∈ l := by
  induction l using List.reverseRecOn with
  | nil => exact fun i hi => hi
  | append_singleton l j ih =>
    intro i hi
    rw [fresh_concat, List.mem_append] at hi
    rw [List.mem_append]
    refine hi.imp (ih i) fun hi => ?_
    split_ifs at hi
    · cases hi
    · exact hi

/-- **The machine runs what is no retry**, in this order. -/
theorem state_replay (l : List ι) : (S.replay l).state = S.runs (S.fresh l) := by
  induction l using List.reverseRecOn with
  | nil => rfl
  | append_singleton l i ih =>
    rw [replay_concat, fresh_concat, runs, List.foldl_append, ← runs, ← ih]
    split_ifs with h
    · rw [serve_of_known h]
      rfl
    · rw [serve_of_not_known h]
      rfl

/-- The last request of a client is known. -/
theorem exists_known (hi : i ∈ l) : ∃ k, S.client k = S.client i ∧ S.Known (S.replay l) k ∧
    (k = i ∨ [i, k].Sublist l) := by
  induction l using List.reverseRecOn with
  | nil => cases hi
  | append_singleton l j ih =>
    rw [replay_concat]
    by_cases hclient : S.client j = S.client i
    · refine ⟨j, hclient, known_serve _ j, ?_⟩
      obtain hi | hi := List.mem_append.mp hi
      · exact Or.inr ((List.singleton_sublist.mpr hi).append (.refl [j]))
      · exact Or.inl (List.mem_singleton.mp hi).symm
    · have hil : i ∈ l := by
        refine (List.mem_append.mp hi).resolve_right fun hi => hclient ?_
        rw [List.mem_singleton.mp hi]
      obtain ⟨k, hk, hknown, hsub⟩ := ih hil
      refine ⟨k, hk, known_serve_of_ne hknown (hk ▸ hclient), hsub.imp_right fun hsub => ?_⟩
      exact hsub.trans (List.sublist_append_left _ _)

omit [DecidableEq κ] [DecidableEq ξ] in
theorem Forward.of_prefix (h : S.Forward l') (hl : l <+: l') : S.Forward l :=
  fun i j k hsub => h i j k (hsub.trans hl.sublist)

/-- **At most once.**  If no client goes back to an id that it has left, no request is run twice. -/
theorem nodup_fresh (h : S.Forward l) :
    ((S.fresh l).map fun i => (S.client i, S.asked i)).Nodup := by
  induction l using List.reverseRecOn with
  | nil => exact List.nodup_nil
  | append_singleton l j ih =>
    rw [fresh_concat]
    split_ifs with hknown
    · rw [List.append_nil]
      exact ih (h.of_prefix (List.prefix_append _ _))
    rw [List.map_append, List.map_singleton, List.nodup_append]
    refine ⟨ih (h.of_prefix (List.prefix_append _ _)), List.nodup_singleton _, ?_⟩
    rintro x hx y hy rfl
    obtain ⟨i, hi, hix⟩ := List.mem_map.mp hx
    obtain ⟨hclient, hasked⟩ := Prod.mk.inj (hix.trans (List.mem_singleton.mp hy))
    -- the last request of this client has another id than `i` and `j`, which have the same
    obtain ⟨k, hk, hk', hsub⟩ := exists_known (S := S) (fresh_subset l i hi)
    have hki : S.asked k = S.asked i := by
      obtain rfl | hsub := hsub
      · rfl
      · exact h i k j (hsub.append (.refl [j])) hk hclient.symm hasked.symm
    apply hknown
    rw [Known, hk] at hk'
    rw [Known, ← hclient, hk', hki, hasked]

omit [DecidableEq κ] [DecidableEq ξ] in
theorem Gives.mono (h : S.Gives l c r) (hl : l <+: l') : S.Gives l' c r := by
  obtain ⟨l₁, i, hpre, hi⟩ := h
  exact ⟨l₁, i, hpre.trans hl, hi⟩

/-- **What an answer stands for**: one run of a request of this client. -/
theorem gives_of_last (h : (S.replay l).last c = some r) : S.Gives (S.fresh l) c r := by
  induction l using List.reverseRecOn with
  | nil => cases h
  | append_singleton l j ih =>
    rw [replay_concat] at h
    by_cases hknown : S.Known (S.replay l) j
    · rw [serve_of_known hknown] at h
      exact (ih h).mono (fresh_mono (List.prefix_append _ _))
    rw [last_serve hknown] at h
    obtain rfl | hne := eq_or_ne c (S.client j)
    · rw [Function.update_self, state_replay] at h
      have hfresh : S.fresh (l ++ [j]) = S.fresh l ++ [j] := by rw [fresh_concat, if_neg hknown]
      exact ⟨S.fresh l, j, hfresh ▸ List.prefix_rfl, rfl, (Option.some.inj h).symm⟩
    · rw [Function.update_of_ne hne] at h
      exact (ih h).mono (fresh_mono (List.prefix_append _ _))

end Service
