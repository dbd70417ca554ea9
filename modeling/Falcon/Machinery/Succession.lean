import Mathlib.Data.Finset.Card
import Mathlib.Data.Set.Function
import Mathlib.Logic.Relation
import Mathlib.Order.Defs.LinearOrder

/-!
# Machinery/Succession — logs under one master after another

The members of a group have logs.  Each follows a master, which is the member of the lowest rank
that has not stopped, as far as it knows.  A member that is its own master stands, and when every
member that goes on follows it and none is ahead of it, it is crowned.  Only the crowned member adds
to its log; the others copy the next entry of their master.

* `Led` — what holds in every state: the logs of those that go on are prefixes of the log of the
  member crowned last.
* `Led.comparable`, `Led.unique` — two members that go on have comparable logs, and at most one of
  them is its own master.
* `Kept` — what enough members have, or they have stopped, stays in the log of whoever is crowned.
-/

namespace Succession

/-- How far a member has come. -/
inductive Stage
  | follower | candidate | crowned
  deriving DecidableEq, Repr

structure State (ι α : Type*) where
  log : ι → List α
  stage : ι → Stage
  master : ι → Option ι
  down : Set ι

section Model

variable {ι α κ : Type*} [LinearOrder κ] (rank : ι → κ) (S : Set ι) (s : State ι α)

/-- A member that has not stopped. -/
def State.Live (c : ι) : Prop := c ∈ S ∧ c ∉ s.down

/-- Every member of a lower rank has stopped, and so has the master that `c` has had. -/
structure Succeeds (c y : ι) : Prop where
  lower : ∀ z ∈ S, rank z < rank y → z ∈ s.down
  next : ∀ p ∈ s.master c, p ∈ s.down ∧ rank p < rank y

inductive Step [DecidableEq ι] : State ι α → State ι α → Prop
  | stop (s : State ι α) (c : ι) : Step s { s with down := insert c s.down }
  | follow (s : State ι α) (c y : ι) (hc : s.Live S c) (hstage : s.stage c = .follower)
      (h : Succeeds rank S s c y) :
      Step s { s with master := Function.update s.master c (some y) }
  | stand (s : State ι α) (c : ι) (hc : s.Live S c) (hstage : s.stage c = .follower)
      (h : Succeeds rank S s c c) :
      Step s { s with
        master := Function.update s.master c (some c)
        stage := Function.update s.stage c .candidate }
  | crown (s : State ι α) (x : ι) (hx : s.Live S x) (hstage : s.stage x = .candidate)
      (h : ∀ c, s.Live S c → c ≠ x →
        s.master c = some x ∧ (s.log c).length ≤ (s.log x).length) :
      Step s { s with stage := Function.update s.stage x .crowned }
  | extend (s : State ι α) (x : ι) (a : α) (hx : s.Live S x) (hstage : s.stage x = .crowned) :
      Step s { s with log := Function.update s.log x (s.log x ++ [a]) }
  | copy (s : State ι α) (c y : ι) (a : α) (hc : s.Live S c) (hstage : s.stage c = .follower)
      (hmaster : s.master c = some y) (hyS : y ∈ S) (hy : s.stage y ≠ .follower)
      (h : (s.log y)[(s.log c).length]? = some a) :
      Step s { s with log := Function.update s.log c (s.log c ++ [a]) }

/-- No member has begun. -/
structure Initial : Prop where
  log : ∀ c ∈ S, s.log c = []
  stage : ∀ c ∈ S, s.stage c = .follower
  master : ∀ c ∈ S, s.master c = none

/-- The log of the member crowned last. -/
def State.history (lead : Option ι) : List α := lead.elim [] s.log

/-- **The invariant**: `lead` is the member crowned last. -/
structure Led (lead : Option ι) : Prop where
  lower : ∀ c ∈ S, ∀ p ∈ s.master c, ∀ z ∈ S, rank z < rank p → z ∈ s.down
  own : ∀ c ∈ S, s.stage c ≠ .follower → s.master c = some c
  crowned : ∀ x ∈ lead, x ∈ S ∧ s.stage x = .crowned
  last : ∀ c ∈ S, s.stage c = .crowned → ∃ x ∈ lead, rank c ≤ rank x
  logs : ∀ c, s.Live S c → s.log c <+: s.history lead
  masters : ∀ c, s.Live S c → ∀ x ∈ lead, ∃ p ∈ s.master c, rank x ≤ rank p
  candidates : ∀ c ∈ S, s.stage c = .candidate → (∀ x ∈ lead, rank x ≤ rank c) →
    s.log c <+: s.history lead

/-- `n` members have the log `l`, or they have stopped. -/
def Kept (n : ℕ) (l : List α) : Prop :=
  ∃ W : Finset ι, n ≤ W.card ∧ ∀ w ∈ W, w ∈ S ∧ (w ∈ s.down ∨ l <+: s.log w)

end Model

variable {ι α κ : Type*} [LinearOrder κ] {rank : ι → κ} {S : Set ι} {s s' : State ι α}
  {lead : Option ι} {c x y : ι} {a : α} {l : List α} {n : ℕ}

/-- The next entry of a log that has a common end with another one. -/
theorem prefix_snoc {l l' r : List α} (hl : l <+: r) (hl' : l' <+: r)
    (ha : l'[l.length]? = some a) : l ++ [a] <+: r := by
  obtain ⟨t, rfl⟩ := hl'
  have hlt : l.length < l'.length := (List.getElem?_eq_some_iff.mp ha).1
  obtain ⟨t', rfl⟩ := List.prefix_of_prefix_length_le hl (List.prefix_append l' t) hlt.le
  rw [List.getElem?_append_right le_rfl, Nat.sub_self] at ha
  cases t' with
  | nil => cases ha
  | cons b t' =>
    obtain rfl := Option.some.inj ha
    exact ⟨t' ++ t, by simp⟩

theorem Initial.led (h : Initial S s) : Led rank S s none where
  lower c hc p hp := by rw [h.master c hc] at hp; cases hp
  own c hc hstage := absurd (h.stage c hc) hstage
  crowned x hx := by cases hx
  last c hc hstage := by rw [h.stage c hc] at hstage; cases hstage
  logs c hc := by rw [h.log c hc.1]; exact List.nil_prefix
  masters c _ x hx := by cases hx
  candidates c hc hstage := by rw [h.stage c hc] at hstage; cases hstage

namespace Led

/-! ## What it says -/

/-- A member that has not stopped has no successor. -/
theorem rank_le (h : Led rank S s lead) (hx : s.Live S x) (hc : c ∈ S)
    (hstage : s.stage c ≠ .follower) : rank c ≤ rank x :=
  not_lt.mp fun hlt => hx.2 (h.lower c hc c (h.own c hc hstage) x hx.1 hlt)

/-- **One master.**  Of those that are their own masters, only one goes on. -/
theorem unique (hrank : Set.InjOn rank S) (h : Led rank S s lead) (hx : s.Live S x)
    (hy : s.Live S y) (hstage : s.stage x ≠ .follower) (hstage' : s.stage y ≠ .follower) : x = y :=
  hrank hx.1 hy.1 (le_antisymm (h.rank_le hy hx.1 hstage) (h.rank_le hx hy.1 hstage'))

/-- The member crowned last is the only crowned one that can go on. -/
theorem eq_lead (hrank : Set.InjOn rank S) (h : Led rank S s lead) (hx : s.Live S x)
    (hstage : s.stage x = .crowned) : lead = some x := by
  obtain ⟨x₀, hx₀, hle⟩ := h.last x hx.1 hstage
  obtain ⟨hS, hcrowned⟩ := h.crowned x₀ hx₀
  have hge := h.rank_le hx hS (by rw [hcrowned]; decide)
  rw [hx₀, hrank hx.1 hS (le_antisymm hle hge)]

/-- **Agreement.** -/
theorem comparable (h : Led rank S s lead) (hx : s.Live S x) (hy : s.Live S y) :
    s.log x <+: s.log y ∨ s.log y <+: s.log x :=
  List.prefix_or_prefix_of_prefix (h.logs x hx) (h.logs y hy)

/-- **Durability.**  As long as fewer than `n` members have stopped, the crowned one that goes on
has what `n` members have had. -/
theorem prefix_of_kept (hrank : Set.InjOn rank S) (h : Led rank S s lead) (hl : Kept S s n l)
    {D : Finset ι} (hD : ∀ c ∈ S, c ∈ s.down → c ∈ D) (hn : D.card < n) (hx : s.Live S x)
    (hstage : s.stage x = .crowned) : l <+: s.log x := by
  obtain ⟨W, hW, hkept⟩ := hl
  obtain ⟨w, hw, hwD⟩ := Finset.exists_mem_notMem_of_card_lt_card (hn.trans_le hW)
  obtain ⟨hS, hl⟩ := hkept w hw
  have hdown : w ∉ s.down := fun hd => hwD (hD w hS hd)
  obtain rfl := h.eq_lead hrank hx hstage
  exact (hl.resolve_left hdown).trans (h.logs w ⟨hS, hdown⟩)

/-! ## One step -/

theorem stop (h : Led rank S s lead) (c : ι) :
    Led rank S { s with down := insert c s.down } lead where
  lower c hc p hp z hz hlt := Set.mem_insert_of_mem _ (h.lower c hc p hp z hz hlt)
  own := h.own
  crowned := h.crowned
  last := h.last
  logs c hc := h.logs c ⟨hc.1, fun hd => hc.2 (Set.mem_insert_of_mem _ hd)⟩
  masters c hc := h.masters c ⟨hc.1, fun hd => hc.2 (Set.mem_insert_of_mem _ hd)⟩
  candidates := h.candidates

variable [DecidableEq ι]

/-- The next master comes after the one before it. -/
theorem masters_update (h : Led rank S s lead) (hc : s.Live S c) (hy : Succeeds rank S s c y) :
    (∀ d ∈ S, ∀ p ∈ Function.update s.master c (some y) d, ∀ z ∈ S, rank z < rank p →
      z ∈ s.down) ∧
    ∀ d, s.Live S d → ∀ x ∈ lead,
      ∃ p ∈ Function.update s.master c (some y) d, rank x ≤ rank p := by
  refine ⟨fun d hd p hp z hz hlt => ?_, fun d hd x hx => ?_⟩
  · obtain rfl | hne := eq_or_ne d c
    · rw [Function.update_self] at hp
      obtain rfl := Option.some.inj hp
      exact hy.lower z hz hlt
    · rw [Function.update_of_ne hne] at hp
      exact h.lower d hd p hp z hz hlt
  · obtain rfl | hne := eq_or_ne d c
    · obtain ⟨p, hp, hle⟩ := h.masters d hd x hx
      exact ⟨y, by rw [Function.update_self]; rfl, hle.trans (hy.next p hp).2.le⟩
    · rw [Function.update_of_ne hne]
      exact h.masters d hd x hx

theorem follow (h : Led rank S s lead) (hc : s.Live S c) (hstage : s.stage c = .follower)
    (hy : Succeeds rank S s c y) :
    Led rank S { s with master := Function.update s.master c (some y) } lead where
  lower := (h.masters_update hc hy).1
  own d hd hd' := by
    have hne : d ≠ c := fun heq => hd' (heq ▸ hstage)
    dsimp only
    rw [Function.update_of_ne hne]
    exact h.own d hd hd'
  crowned := h.crowned
  last := h.last
  logs := h.logs
  masters := (h.masters_update hc hy).2
  candidates := h.candidates

theorem stand (h : Led rank S s lead) (hc : s.Live S c) (hstage : s.stage c = .follower)
    (hy : Succeeds rank S s c c) :
    Led rank S { s with
      master := Function.update s.master c (some c)
      stage := Function.update s.stage c .candidate } lead := by
  refine ⟨(h.masters_update hc hy).1, fun d hd hd' => ?_, fun x hx => ?_, fun d hd hd' => ?_,
    h.logs, (h.masters_update hc hy).2, fun d hd hd' hlead => ?_⟩
  · obtain rfl | hne := eq_or_ne d c
    · exact Function.update_self _ _ _
    · dsimp only at hd' ⊢
      rw [Function.update_of_ne hne] at hd' ⊢
      exact h.own d hd hd'
  · obtain ⟨hS, hcrowned⟩ := h.crowned x hx
    have hne : x ≠ c := fun heq => absurd (hstage.symm.trans (heq ▸ hcrowned)) (by decide)
    dsimp only
    rw [Function.update_of_ne hne]
    exact ⟨hS, hcrowned⟩
  · obtain rfl | hne := eq_or_ne d c
    · dsimp only at hd'
      rw [Function.update_self] at hd'
      cases hd'
    · dsimp only at hd'
      rw [Function.update_of_ne hne] at hd'
      exact h.last d hd hd'
  · obtain rfl | hne := eq_or_ne d c
    · exact h.logs d hc
    · dsimp only at hd'
      rw [Function.update_of_ne hne] at hd'
      exact h.candidates d hd hd' hlead

/-- **A member is crowned**: its log, the longest one of those that can go on, is the history from
now on. -/
theorem crown (hrank : Set.InjOn rank S) (h : Led rank S s lead) (hx : s.Live S x)
    (hstage : s.stage x = .candidate)
    (hall : ∀ c, s.Live S c → c ≠ x →
      s.master c = some x ∧ (s.log c).length ≤ (s.log x).length) :
    Led rank S { s with stage := Function.update s.stage x .crowned } (some x) := by
  have hown := h.own x hx.1 (by rw [hstage]; decide)
  have hcrowned : ∀ d, Function.update s.stage x .crowned d ≠ .follower →
      s.stage d ≠ .follower := by
    intro d hd
    obtain rfl | hne := eq_or_ne d x
    · rw [hstage]
      decide
    · rwa [Function.update_of_ne hne] at hd
  refine ⟨h.lower, fun d hd hd' => h.own d hd (hcrowned d hd'), fun x' hx' => ?_,
    fun d hd hd' => ?_, fun d hd => ?_, fun d hd x' hx' => ?_, fun d hd hd' hlead => ?_⟩
  · obtain rfl := Option.some.inj hx'
    exact ⟨hx.1, Function.update_self _ _ _⟩
  · exact ⟨x, rfl, h.rank_le hx hd (hcrowned d (by dsimp only at hd'; rw [hd']; decide))⟩
  · obtain rfl | hne := eq_or_ne d x
    · exact List.prefix_rfl
    · exact List.prefix_of_prefix_length_le (h.logs d hd) (h.logs x hx) (hall d hd hne).2
  · obtain rfl := Option.some.inj hx'
    obtain rfl | hne := eq_or_ne d x
    · exact ⟨d, hown, le_rfl⟩
    · exact ⟨x, (hall d hd hne).1, le_rfl⟩
  · -- a candidate that comes after the crowned member would need it to have stopped
    exfalso
    obtain rfl | hne := eq_or_ne d x
    · dsimp only at hd'
      rw [Function.update_self] at hd'
      cases hd'
    · dsimp only at hd'
      rw [Function.update_of_ne hne] at hd'
      have hle := h.rank_le hx hd (by rw [hd']; decide)
      exact hne (hrank hd hx.1 (le_antisymm hle (hlead x rfl)))

theorem extend (hrank : Set.InjOn rank S) (h : Led rank S s lead) (hx : s.Live S x)
    (hstage : s.stage x = .crowned) :
    Led rank S { s with log := Function.update s.log x (s.log x ++ [a]) } lead := by
  obtain rfl := h.eq_lead hrank hx hstage
  have hhistory : s.history (some x) <+: State.history
      { s with log := Function.update s.log x (s.log x ++ [a]) } (some x) := by
    change s.log x <+: Function.update s.log x (s.log x ++ [a]) x
    rw [Function.update_self]
    exact List.prefix_append _ _
  refine ⟨h.lower, h.own, h.crowned, h.last, fun d hd => ?_, h.masters, fun d hd hd' hlead => ?_⟩
  · obtain rfl | hne := eq_or_ne d x
    · exact List.prefix_rfl
    · dsimp only
      rw [Function.update_of_ne hne]
      exact (h.logs d hd).trans hhistory
  · have hne : d ≠ x := fun heq => absurd (hstage.symm.trans (heq ▸ hd')) (by decide)
    dsimp only
    rw [Function.update_of_ne hne]
    exact (h.candidates d hd hd' hlead).trans hhistory

/-- **A follower copies an entry** of its master, which is the member crowned last, or a candidate
that may have stopped. -/
theorem copy (hrank : Set.InjOn rank S) (h : Led rank S s lead) (hc : s.Live S c)
    (hstage : s.stage c = .follower) (hmaster : s.master c = some y) (hyS : y ∈ S)
    (hy : s.stage y ≠ .follower) (ha : (s.log y)[(s.log c).length]? = some a) :
    Led rank S { s with log := Function.update s.log c (s.log c ++ [a]) } lead := by
  have hle : ∀ x ∈ lead, rank x ≤ rank y := by
    intro x hx
    obtain ⟨p, hp, hle⟩ := h.masters c hc x hx
    rwa [← Option.some.inj (hmaster.symm.trans hp)] at hle
  have hy' : s.log y <+: s.history lead := by
    cases hst : s.stage y with
    | follower => exact absurd hst hy
    | candidate => exact h.candidates y hyS hst hle
    | crowned =>
      obtain ⟨x, rfl, hyx⟩ := h.last y hyS hst
      obtain rfl := hrank hyS (h.crowned x rfl).1 (le_antisymm hyx (hle x rfl))
      exact List.prefix_rfl
  have hnew := prefix_snoc (h.logs c hc) hy' ha
  have hne : ∀ d, s.stage d ≠ .follower → d ≠ c := fun d hd heq => hd (heq ▸ hstage)
  have hhistory : State.history { s with log := Function.update s.log c (s.log c ++ [a]) } lead =
      s.history lead := by
    cases hlead : lead with
    | none => rfl
    | some x =>
      have hx := (h.crowned x hlead).2
      exact Function.update_of_ne (hne x (by rw [hx]; decide)) _ _
  refine ⟨h.lower, h.own, h.crowned, h.last, fun d hd => ?_, h.masters, fun d hd hd' hlead => ?_⟩
  · rw [hhistory]
    obtain rfl | hdc := eq_or_ne d c
    · dsimp only
      rwa [Function.update_self]
    · dsimp only
      rw [Function.update_of_ne hdc]
      exact h.logs d hd
  · rw [hhistory]
    dsimp only at hd' ⊢
    rw [Function.update_of_ne (hne d (by rw [hd']; decide))]
    exact h.candidates d hd hd' hlead

/-- Every step keeps the invariant, of the member that was crowned last or of the next one. -/
theorem step (hrank : Set.InjOn rank S) (h : Led rank S s lead) (hs : Step rank S s s') :
    ∃ lead', Led rank S s' lead' := by
  cases hs with
  | stop c => exact ⟨lead, h.stop c⟩
  | follow c y hc hstage hy => exact ⟨lead, h.follow hc hstage hy⟩
  | stand c hc hstage hy => exact ⟨lead, h.stand hc hstage hy⟩
  | crown x hx hstage hall => exact ⟨some x, h.crown hrank hx hstage hall⟩
  | extend x a hx hstage => exact ⟨lead, h.extend hrank hx hstage⟩
  | copy c y a hc hstage hmaster hyS hy ha =>
    exact ⟨lead, h.copy hrank hc hstage hmaster hyS hy ha⟩

theorem reach (hrank : Set.InjOn rank S) (h : Led rank S s lead)
    (hs : Relation.ReflTransGen (Step rank S) s s') : ∃ lead', Led rank S s' lead' := by
  induction hs with
  | refl => exact ⟨lead, h⟩
  | tail _ hs ih =>
    obtain ⟨_, h⟩ := ih
    exact h.step hrank hs

end Led

/-- What is kept of a log is kept of what begins it. -/
theorem Kept.mono {l' : List α} (h : Kept S s n l) (hl : l' <+: l) : Kept S s n l' := by
  obtain ⟨W, hW, hkept⟩ := h
  exact ⟨W, hW, fun w hw => ⟨(hkept w hw).1, (hkept w hw).2.imp_right hl.trans⟩⟩

variable [DecidableEq ι]

/-- Logs only grow, and what has stopped does not go on. -/
theorem Step.grows (hs : Step rank S s s') : s.down ⊆ s'.down ∧ ∀ c, s.log c <+: s'.log c := by
  have hupdate : ∀ (d : ι) (a : α) (c : ι),
      s.log c <+: Function.update s.log d (s.log d ++ [a]) c := by
    intro d a c
    obtain rfl | hne := eq_or_ne c d
    · rw [Function.update_self]
      exact List.prefix_append _ _
    · rw [Function.update_of_ne hne]
  cases hs with
  | stop c => exact ⟨Set.subset_insert _ _, fun _ => List.prefix_rfl⟩
  | follow c y => exact ⟨subset_rfl, fun _ => List.prefix_rfl⟩
  | stand c => exact ⟨subset_rfl, fun _ => List.prefix_rfl⟩
  | crown x => exact ⟨subset_rfl, fun _ => List.prefix_rfl⟩
  | extend x a => exact ⟨subset_rfl, hupdate x a⟩
  | copy c y a => exact ⟨subset_rfl, hupdate c a⟩

theorem grows_of_reach (hs : Relation.ReflTransGen (Step rank S) s s') :
    s.down ⊆ s'.down ∧ ∀ c, s.log c <+: s'.log c := by
  induction hs with
  | refl => exact ⟨subset_rfl, fun _ => List.prefix_rfl⟩
  | tail _ hs ih => exact ⟨ih.1.trans hs.grows.1, fun c => (ih.2 c).trans (hs.grows.2 c)⟩

/-- What is kept stays so. -/
theorem Kept.reach (h : Kept S s n l) (hs : Relation.ReflTransGen (Step rank S) s s') :
    Kept S s' n l := by
  obtain ⟨W, hW, hkept⟩ := h
  obtain ⟨hdown, hlog⟩ := grows_of_reach hs
  refine ⟨W, hW, fun w hw => ⟨(hkept w hw).1, ?_⟩⟩
  exact (hkept w hw).2.imp (fun hd => hdown hd) fun hl => hl.trans (hlog w)

end Succession
