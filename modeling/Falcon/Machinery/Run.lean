import Mathlib.Data.List.Basic

/-!
# Machinery/Run — what holds along every run of an event loop

A program driven by events is a partial step function `step : σ → ε → Option σ`: an event is either
not enabled in a state (`none`), or it is handled and leads to one next state.  A run is a list of
events; it goes on as long as its events are enabled.

* `Along step R s es` — every step the run `es` takes from `s` satisfies `R` (before, event, after).
* `Always step P s es` — every state the run `es` goes through from `s`, `s` included, satisfies
  `P`.
* `Tried step R s es` — every event the run comes to satisfies `R` in its state, enabled or not.

The three rules: an invariant that every good step keeps (`Along.of_inv`), the same with the good
steps being *exactly* the ones that keep the property (`along_iff_of_inv`, `always_iff_of_inv`), and
`always_iff_run`, which reads `Always` back as a statement on the states reached by prefixes.
-/

namespace Run

variable {σ ε : Type*} (step : σ → ε → Option σ)

/-- Every step the run takes satisfies `R`. -/
def Along (R : σ → ε → σ → Prop) : σ → List ε → Prop
  | _, [] => True
  | s, e :: es => ∀ s', step s e = some s' → R s e s' ∧ Along R s' es

/-- Every state the run goes through satisfies `P`. -/
def Always (P : σ → Prop) (s : σ) (es : List ε) : Prop :=
  P s ∧ Along step (fun _ _ s' => P s') s es

variable {step} {R C : σ → ε → σ → Prop} {P I : σ → Prop} {s s' : σ} {e : ε} {es : List ε}

theorem Along.nil : Along step R s [] := trivial

theorem Along.cons (h : ∀ s', step s e = some s' → R s e s' ∧ Along step R s' es) :
    Along step R s (e :: es) := h

/-- What holds along a run can be computed. -/
instance Along.decidable [∀ s e s', Decidable (R s e s')] :
    ∀ (s : σ) (es : List ε), Decidable (Along step R s es)
  | _, [] => isTrue trivial
  | s, e :: es =>
    match h : step s e with
    | none => isTrue fun _ hs' => nomatch h.symm.trans hs'
    | some s' =>
      have := Along.decidable s' es
      decidable_of_iff (R s e s' ∧ Along step R s' es)
        ⟨fun hR _ hs₁ => Option.some.inj (h.symm.trans hs₁) ▸ hR, fun hR => hR s' h⟩

theorem Along.mono (h : Along step C s es) (hR : ∀ s e s', C s e s' → R s e s') :
    Along step R s es := by
  induction es generalizing s with
  | nil => exact Along.nil
  | cons e es ih => exact fun s' hs' => ⟨hR s e s' (h s' hs').1, ih (h s' hs').2⟩

/-- A run goes on after events that do what `R` asks in any state. -/
theorem Along.append {pre : List ε} (hpre : ∀ s s', ∀ e ∈ pre, R s e s')
    (hes : ∀ s', pre.foldlM step s = some s' → Along step R s' es) :
    Along step R s (pre ++ es) := by
  induction pre generalizing s with
  | nil => exact hes s rfl
  | cons e pre ih =>
    intro s' hs'
    refine ⟨hpre s s' e List.mem_cons_self, ih (fun s s' e he => hpre s s' e ?_) fun s₁ hs₁ => ?_⟩
    · exact List.mem_cons_of_mem _ he
    · exact hes s₁ (by rw [List.foldlM_cons]; exact Option.bind_eq_some_iff.mpr ⟨s', hs', hs₁⟩)

/-- **The invariant rule.**  If a good step keeps the invariant and does what `R` asks, a run of
good steps from a state of the invariant does what `R` asks at every step. -/
theorem Along.of_inv
    (hstep : ∀ s e s', step s e = some s' → I s → C s e s' → I s' ∧ R s e s') :
    ∀ (es : List ε) (s : σ), I s → Along step C s es → Along step R s es
  | [], _, _, _ => Along.nil
  | e :: es, s, hs, hC => fun s' hs' => by
      obtain ⟨hCe, hC'⟩ := hC s' hs'
      obtain ⟨hI', hR⟩ := hstep s e s' hs' hs hCe
      exact ⟨hR, Along.of_inv hstep es s' hI' hC'⟩

/-- **The exact rule.**  When moreover every step that does what `R` asks is a good one, the two
conditions on the run are the same. -/
theorem along_iff_of_inv
    (hstep : ∀ s e s', step s e = some s' → I s → C s e s' → I s' ∧ R s e s')
    (hback : ∀ s e s', step s e = some s' → I s → R s e s' → C s e s') (hs : I s) :
    Along step R s es ↔ Along step C s es := by
  refine ⟨?_, Along.of_inv hstep es s hs⟩
  induction es generalizing s with
  | nil => exact fun _ => Along.nil
  | cons e es ih =>
    intro hR s' hs'
    obtain ⟨hRe, hR'⟩ := hR s' hs'
    have hCe := hback s e s' hs' hs hRe
    exact ⟨hCe, ih (hstep s e s' hs' hs hCe).1 hR'⟩

/-- The invariant rule for a property of states. -/
theorem Always.of_inv (hP : ∀ s, I s → P s)
    (hstep : ∀ s e s', step s e = some s' → I s → C s e s' → I s') (hs : I s)
    (hC : Along step C s es) : Always step P s es :=
  ⟨hP s hs, Along.of_inv (fun s e s' h hI hCe =>
    ⟨hstep s e s' h hI hCe, hP s' (hstep s e s' h hI hCe)⟩) es s hs hC⟩

/-- The exact rule for a property of states: a run stays in `P` iff all its steps are good. -/
theorem always_iff_of_inv (hP : ∀ s, I s → P s)
    (hstep : ∀ s e s', step s e = some s' → I s → C s e s' → I s')
    (hback : ∀ s e s', step s e = some s' → I s → P s' → C s e s') (hs : I s) :
    Always step P s es ↔ Along step C s es := by
  refine ⟨fun h => (along_iff_of_inv ?_ hback hs).mp h.2, Always.of_inv hP hstep hs⟩
  exact fun s e s' h hI hCe => ⟨hstep s e s' h hI hCe, hP s' (hstep s e s' h hI hCe)⟩

/-- **What `Always` says of the states reached**: each prefix of the run ends in a state of `P`. -/
theorem always_iff_run :
    Always step P s es ↔ ∀ pre, pre <+: es → ∀ s', pre.foldlM step s = some s' → P s' := by
  induction es generalizing s with
  | nil =>
    refine ⟨fun h pre hpre s' hs' => ?_, fun h => ⟨h [] List.prefix_rfl s rfl, Along.nil⟩⟩
    obtain rfl := List.prefix_nil.mp hpre
    obtain rfl : s = s' := Option.some.inj hs'
    exact h.1
  | cons e es ih =>
    constructor
    · rintro ⟨h0, h⟩ pre hpre s' hs'
      cases pre with
      | nil => exact Option.some.inj hs' ▸ h0
      | cons e' pre =>
        obtain ⟨rfl, hpre'⟩ := List.cons_prefix_cons.mp hpre
        rw [List.foldlM_cons] at hs'
        obtain ⟨s₁, hs₁, hrest⟩ := Option.bind_eq_some_iff.mp hs'
        exact ih.mp (h s₁ hs₁) pre hpre' s' hrest
    · intro h
      refine ⟨h [] List.nil_prefix s rfl, fun s₁ hs₁ => ?_⟩
      have htail : Always step P s₁ es := ih.mpr fun pre hpre s' hs' =>
        h (e :: pre) (List.cons_prefix_cons.mpr ⟨rfl, hpre⟩) s'
          (by rw [List.foldlM_cons]; exact Option.bind_eq_some_iff.mpr ⟨s₁, hs₁, hs'⟩)
      exact htail

/-- **What `Along` says of the steps taken**: each step of the run satisfies `R`. -/
theorem along_iff_run :
    Along step R s es ↔ ∀ pre e, pre ++ [e] <+: es → ∀ s₁ s₂, pre.foldlM step s = some s₁ →
      step s₁ e = some s₂ → R s₁ e s₂ := by
  induction es generalizing s with
  | nil =>
    refine ⟨fun _ pre e hpre => ?_, fun _ => Along.nil⟩
    exact absurd (List.prefix_nil.mp hpre) (List.append_ne_nil_of_right_ne_nil _ (by simp))
  | cons e es ih =>
    constructor
    · intro h pre e' hpre s₁ s₂ hs₁ hs₂
      cases pre with
      | nil =>
        obtain ⟨rfl, -⟩ := List.cons_prefix_cons.mp hpre
        obtain rfl := Option.some.inj hs₁
        exact (h s₂ hs₂).1
      | cons e₀ pre =>
        obtain ⟨rfl, hpre'⟩ := List.cons_prefix_cons.mp hpre
        rw [List.foldlM_cons] at hs₁
        obtain ⟨s', hs', hs₁⟩ := Option.bind_eq_some_iff.mp hs₁
        exact ih.mp (h s' hs').2 pre e' hpre' s₁ s₂ hs₁ hs₂
    · intro h s' hs'
      refine ⟨h [] e (by simp) s s' rfl hs', ih.mpr fun pre e' hpre s₁ s₂ hs₁ hs₂ => ?_⟩
      refine h (e :: pre) e' (List.cons_prefix_cons.mpr ⟨rfl, hpre⟩) s₁ s₂ ?_ hs₂
      rw [List.foldlM_cons]
      exact Option.bind_eq_some_iff.mpr ⟨s', hs', hs₁⟩

/-- A part of a run that does what `R` asks. -/
theorem Along.after {pre mid : List ε} {s₁ : σ} (h : Along step R s es) (hes : pre ++ mid <+: es)
    (hs₁ : pre.foldlM step s = some s₁) : Along step R s₁ mid := by
  refine along_iff_run.mpr fun pre' e hpre' s₂ s₃ hs₂ hs₃ => ?_
  refine along_iff_run.mp h (pre ++ pre') e ?_ s₂ s₃ ?_ hs₃
  · rw [List.append_assoc]
    exact ((List.prefix_append_right_inj pre).mpr hpre').trans hes
  · rw [List.foldlM_append]
    exact Option.bind_eq_some_iff.mpr ⟨s₁, hs₁, hs₂⟩

/-- The first part of a run that does what `R` asks. -/
theorem Along.before {pre : List ε} (h : Along step R s es) (hpre : pre <+: es) :
    Along step R s pre :=
  along_iff_run.mpr fun pre' e hpre' => along_iff_run.mp h pre' e (hpre'.trans hpre)

/-- What good steps keep, a run of good steps keeps. -/
theorem Along.keeps (hC : Along step C s es) (h : es.foldlM step s = some s')
    (hstep : ∀ s e s', step s e = some s' → I s → C s e s' → I s') (hs : I s) : I s' := by
  induction es generalizing s with
  | nil => exact Option.some.inj h ▸ hs
  | cons e es ih =>
    rw [List.foldlM_cons] at h
    obtain ⟨s₁, hs₁, h⟩ := Option.bind_eq_some_iff.mp h
    exact ih (hC s₁ hs₁).2 h (hstep s e s₁ hs₁ hs (hC s₁ hs₁).1)

/-- What holds at the end, and goes back along every step, holds always. -/
theorem Always.of_last (hback : ∀ s e s', step s e = some s' → P s' → P s)
    (h : es.foldlM step s = some s') (hP : P s') : Always step P s es := by
  induction es generalizing s with
  | nil =>
    obtain rfl : s = s' := Option.some.inj h
    exact ⟨hP, Along.nil⟩
  | cons e es ih =>
    rw [List.foldlM_cons] at h
    obtain ⟨s₁, hs₁, h⟩ := Option.bind_eq_some_iff.mp h
    have htail := ih h
    refine ⟨hback s e s₁ hs₁ htail.1, fun s₂ hs₂ => ?_⟩
    obtain rfl := Option.some.inj (hs₁.symm.trans hs₂)
    exact htail

/-- What holds of every state holds before every step. -/
theorem Always.and_along (hP : Always step P s es) (hC : Along step C s es) :
    Along step (fun s e s' => P s ∧ C s e s') s es := by
  induction es generalizing s with
  | nil => exact Along.nil
  | cons e es ih =>
    intro s' hs'
    exact ⟨⟨hP.1, (hC s' hs').1⟩, ih ⟨(hP.2 s' hs').1, (hP.2 s' hs').2⟩ (hC s' hs').2⟩

/-! ## Events that are tried -/

variable {T K : σ → ε → Prop}

variable (step) in
/-- Every event the run comes to satisfies `T`; the last one may not be enabled. -/
def Tried (T : σ → ε → Prop) : σ → List ε → Prop
  | _, [] => True
  | s, e :: es => T s e ∧ ∀ s', step s e = some s' → Tried T s' es

/-- What a run tries can be computed. -/
instance Tried.decidable [∀ s e, Decidable (T s e)] :
    ∀ (s : σ) (es : List ε), Decidable (Tried step T s es)
  | _, [] => isTrue trivial
  | s, e :: es =>
    match h : step s e with
    | none =>
      decidable_of_iff (T s e) ⟨fun hT => ⟨hT, fun _ hs' => nomatch h.symm.trans hs'⟩, And.left⟩
    | some s' =>
      have := Tried.decidable s' es
      decidable_of_iff (T s e ∧ Tried step T s' es)
        ⟨fun hT => ⟨hT.1, fun _ hs₁ => Option.some.inj (h.symm.trans hs₁) ▸ hT.2⟩,
          fun hT => ⟨hT.1, hT.2 s' h⟩⟩

/-- The invariant rule for events that are tried. -/
theorem Tried.of_inv (hstep : ∀ s e s', step s e = some s' → I s → K s e → I s')
    (hT : ∀ s e, I s → K s e → T s e) :
    ∀ (es : List ε) (s : σ), I s → Tried step K s es → Tried step T s es
  | [], _, _, _ => trivial
  | e :: es, s, hs, hK =>
    ⟨hT s e hs hK.1, fun s' hs' => Tried.of_inv hstep hT es s' (hstep s e s' hs' hs hK.1)
      (hK.2 s' hs')⟩

/-- What holds in every state of a run holds for every event tried in it. -/
theorem Tried.of_always (hT : ∀ s e, I s → T s e) :
    ∀ (es : List ε) (s : σ), Always step I s es → Tried step T s es
  | [], _, _ => trivial
  | e :: es, s, h => ⟨hT s e h.1, fun s' hs' => Tried.of_always hT es s' (h.2 s' hs')⟩

/-- **What `Tried` says of the events of a run.** -/
theorem tried_iff_run : Tried step T s es ↔ ∀ pre e, pre ++ [e] <+: es → ∀ s',
    pre.foldlM step s = some s' → T s' e := by
  induction es generalizing s with
  | nil =>
    refine ⟨fun _ pre e hpre => ?_, fun _ => trivial⟩
    exact absurd (List.prefix_nil.mp hpre) (List.append_ne_nil_of_right_ne_nil _ (by simp))
  | cons e es ih =>
    constructor
    · intro h pre e' hpre s' hs'
      cases pre with
      | nil =>
        obtain ⟨rfl, -⟩ := List.cons_prefix_cons.mp hpre
        obtain rfl := Option.some.inj hs'
        exact h.1
      | cons e₀ pre =>
        obtain ⟨rfl, hpre'⟩ := List.cons_prefix_cons.mp hpre
        rw [List.foldlM_cons] at hs'
        obtain ⟨s₁, hs₁, hs'⟩ := Option.bind_eq_some_iff.mp hs'
        exact ih.mp (h.2 s₁ hs₁) pre e' hpre' s' hs'
    · intro h
      refine ⟨h [] e (by simp) s rfl, fun s₁ hs₁ => ih.mpr fun pre e' hpre s' hs' => ?_⟩
      refine h (e :: pre) e' (List.cons_prefix_cons.mpr ⟨rfl, hpre⟩) s' ?_
      rw [List.foldlM_cons]
      exact Option.bind_eq_some_iff.mpr ⟨s₁, hs₁, hs'⟩

/-- A loop over a list whose rounds are all in a reflexive and transitive relation is in it. -/
theorem foldl_rel {α : Type*} {f : σ → α → σ} {r : σ → σ → Prop} (hrefl : ∀ s, r s s)
    (htrans : ∀ s₁ s₂ s₃, r s₁ s₂ → r s₂ s₃ → r s₁ s₃) (hf : ∀ s a, r s (f s a)) :
    ∀ (l : List α) (s : σ), r s (l.foldl f s)
  | [], s => hrefl s
  | a :: l, s => htrans s (f s a) _ (hf s a) (foldl_rel hrefl htrans hf l (f s a))

/-- The same for a loop whose rounds can end the program. -/
theorem foldlM_rel {α : Type*} {f : σ → α → Option σ} {r : σ → σ → Prop} (hrefl : ∀ s, r s s)
    (htrans : ∀ s₁ s₂ s₃, r s₁ s₂ → r s₂ s₃ → r s₁ s₃) (hf : ∀ s a s', f s a = some s' → r s s') :
    ∀ (l : List α) (s s' : σ), l.foldlM f s = some s' → r s s'
  | [], s, _, h => Option.some.inj h ▸ hrefl s
  | a :: l, s, s', h => by
    rw [List.foldlM_cons] at h
    obtain ⟨s₁, hs₁, h⟩ := Option.bind_eq_some_iff.mp h
    exact htrans s s₁ s' (hf s a s₁ hs₁) (foldlM_rel hrefl htrans hf l s₁ s' h)

/-- What every step of its events keeps, a run keeps. -/
theorem keeps_of_mem {es : List ε} (hstep : ∀ e ∈ es, ∀ s s', step s e = some s' → I s → I s')
    (h : es.foldlM step s = some s') (hs : I s) : I s' := by
  induction es generalizing s with
  | nil => exact Option.some.inj h ▸ hs
  | cons e es ih =>
    rw [List.foldlM_cons] at h
    obtain ⟨s₁, hs₁, h⟩ := Option.bind_eq_some_iff.mp h
    exact ih (fun e' he' => hstep e' (List.mem_cons_of_mem _ he')) h
      (hstep e List.mem_cons_self s s₁ hs₁ hs)

/-- What every step keeps, a run keeps. -/
theorem keeps {es : List ε} (hstep : ∀ s e s', step s e = some s' → I s → I s')
    (h : es.foldlM step s = some s') (hs : I s) : I s' :=
  keeps_of_mem (fun e _ s s' => hstep s e s') h hs

/-- Events that can always be taken make a run. -/
theorem exists_run {es : List ε} (hstep : ∀ e ∈ es, ∀ s, I s → ∃ s', step s e = some s' ∧ I s')
    (hs : I s) : ∃ s', es.foldlM step s = some s' := by
  induction es generalizing s with
  | nil => exact ⟨s, rfl⟩
  | cons e es ih =>
    obtain ⟨s₁, hs₁, hI⟩ := hstep e List.mem_cons_self s hs
    rw [List.foldlM_cons, hs₁]
    exact ih (fun e' he' => hstep e' (List.mem_cons_of_mem _ he')) hI

end Run
