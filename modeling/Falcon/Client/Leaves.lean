import Falcon.Client.Frame
import Mathlib.Data.List.Count

/-!
# Client/Leaves — who still depends on a shared layer

`child_leaves_[x]` at a layer should be the number of leaves below its child `x`: each leaf's
watchdog takes one off when it makes its cancellation pass, and the pass that comes to 0 cancels `x`
at the enforcer.  `AddChild` adds one when it enters a new child and none when it finds the child
there.

* `leaves_counted` — the count is right, and no pass cancels what another leaf depends on, in every
  run whose requests are `Balanced`: a request that ends in a new leaf finds none of its layers
  below the base's children already there, and a request that does not end in one enters no layer
  there.
* `shared_layer_cancelled` — two applications on one virtual machine, and the first one's pass.
-/

namespace Falcon.Client.FalconClient

variable {s s' : FalconClient} {L c : LayerRef} {x : LayerId}

/-- The leaves whose watchdog has yet to make its pass and whose path goes through the child `x` of
`L`. -/
def dependents (s : FalconClient) (L : LayerRef) (x : LayerId) : ℕ :=
  s.watchdogs.countP fun w => (s.layers w).path.contains (L, x)

/-- Every layer below the base counts the dependents of its children. -/
def LeavesCounted (s : FalconClient) : Prop :=
  ∀ L x, s.live L = true → (s.layers L).baseLayer = false → (s.layers L).children x ≠ none →
    (s.layers L).childLeaves x = s.dependents L x

/-- A cancellation pass cancels at the enforcer only what no remaining leaf depends on. -/
def CancelsUnused (s : FalconClient) (e : Event) (s' : FalconClient) : Prop :=
  ∀ leaf replies, e = .cancelPass leaf replies → ∀ news, s'.log = news ++ s.log →
    ∀ L arg reply, .called L (.cancel arg) reply ∈ news → s'.dependents L arg.target.handle = 0

/-! ## Requests, as the tree before them decides them -/

/-- The layers a request adds from a layer of the given kind and generation on, where there are none
yet: how many below a layer other than the base, and whether it gets to its end. -/
def growth : Bool → List GenNo → List LayerId → (ℕ → AddChildAnswers) → ℕ × Bool
  | _, _, [], _ => (0, true)
  | base, gen, _ :: rest, ans =>
    match admits base gen rest.isEmpty (ans 0) with
    | none => (0, false)
    | some g =>
      let r := growth false g rest fun i => ans (i + 1)
      ((if base then 0 else 1) + r.1, r.2)

/-- What a request finds and adds below layers other than the base, and whether it adds a leaf. -/
structure Survey where
  found : ℕ
  added : ℕ
  newLeaf : Bool

/-- The request over the ids `ids` (last id first), looked up in the tree from `L` on. -/
def survey (s : FalconClient) : List LayerId → (ℕ → AddChildAnswers) → LayerRef → Survey
  | [], _, _ => ⟨0, 0, false⟩
  | x :: rest, ans, L =>
    match (s.layers L).children x with
    | some c =>
      let r := s.survey rest (fun i => ans (i + 1)) c
      ⟨(if (s.layers L).baseLayer then 0 else 1) + r.found, r.added, r.newLeaf⟩
    | none =>
      let r := growth (s.layers L).baseLayer (s.layers L).gen (x :: rest) ans
      ⟨0, r.1, r.2⟩

/-- A request adds a leaf and finds none of its layers below a layer other than the base, or adds no
leaf and no layer there. -/
def Balanced (s : FalconClient) (e : Event) : Prop :=
  ∀ req ans junk, e = .start req ans junk →
    let r := s.survey req.idlist.reverse ans 0
    if r.newLeaf then r.found = 0 else r.added = 0

/-! ## The tree -/

/-- The tree hangs together: paths lead to the base through older layers, and what a live layer
holds is live and has its path through it. -/
structure WellFormed (s : FalconClient) : Prop where
  base : s.live 0 = true ∧ (s.layers 0).path = [] ∧ (s.layers 0).baseLayer = true
  alloc : ∀ L, s.live L = true → L < s.nextLayer
  child : ∀ L x c, s.live L = true → (s.layers L).children x = some c →
    s.live c = true ∧ (s.layers c).path = (L, x) :: (s.layers L).path
  older : ∀ L < s.nextLayer, ∀ e ∈ (s.layers L).path, e.1 < L
  nodup : ∀ L < s.nextLayer, (s.layers L).path.Nodup
  dogs : ∀ w ∈ s.watchdogs, w < s.nextLayer

/-- The counts of the live layers below the base are right but for the entries `E`. -/
def CountedUpTo (s : FalconClient) (E : List (LayerRef × LayerId)) : Prop :=
  ∀ L x, s.live L = true → (s.layers L).baseLayer = false →
    (s.layers L).childLeaves x = s.dependents L x + E.count (L, x)

theorem dependents_congr (hdogs : s'.watchdogs = s.watchdogs)
    (hpath : ∀ w ∈ s.watchdogs, (s'.layers w).path = (s.layers w).path) :
    s'.dependents L x = s.dependents L x := by
  rw [dependents, dependents, hdogs]
  exact List.countP_congr fun w hw => by rw [hpath w hw]

theorem Alike.dependents (h : Alike s s') (L : LayerRef) (x : LayerId) :
    s'.dependents L x = s.dependents L x := dependents_congr h.watchdogs fun w _ => h.path w

theorem Alike.wellFormed (h : Alike s s') (hs : s.WellFormed) : s'.WellFormed where
  base := by rw [h.live, h.path, h.baseLayer]; exact hs.base
  alloc L hL := by rw [h.nextLayer]; exact hs.alloc L (h.live ▸ hL)
  child L x c hL hc := by
    rw [h.live, h.path, h.path]
    exact hs.child L x c (h.live ▸ hL) (by rwa [h.children] at hc)
  older L hL := by rw [h.path]; exact hs.older L (h.nextLayer ▸ hL)
  nodup L hL := by rw [h.path]; exact hs.nodup L (h.nextLayer ▸ hL)
  dogs w hw := by rw [h.nextLayer]; exact hs.dogs w (h.watchdogs ▸ hw)

theorem Alike.countedUpTo {E : List (LayerRef × LayerId)} (h : Alike s s') (hs : s.CountedUpTo E) :
    s'.CountedUpTo E := by
  intro L x hL hbase
  rw [h.childLeaves, h.dependents]
  exact hs L x (h.live ▸ hL) ((h.baseLayer L).symm.trans hbase)

theorem wellFormed_init (addr : ClientAddr) : (init addr).WellFormed where
  base := ⟨rfl, rfl, rfl⟩
  alloc L hL := by
    obtain rfl : L = 0 := by simpa [init] using hL
    exact Nat.one_pos
  child _ _ _ _ hc := by cases hc
  older _ _ e he := (List.not_mem_nil he).elim
  nodup _ _ := List.nodup_nil
  dogs w hw := (List.not_mem_nil hw).elim

/-- What is left alive when a layer goes. -/
theorem live_destroy {L' : LayerRef} : (s.destroy c).live L' = true ↔
    s.live L' = true ∧ L' ≠ c ∧ ∀ e ∈ (s.layers L').path, e.1 ≠ c := by
  simp [destroy]

/-- A child is erased and goes, with everything below it. -/
theorem wellFormed_drop (hs : s.WellFormed) (hL : s.live L = true)
    (hc : (s.layers L).children x = some c) : ((s.eraseChild L x).destroy c).WellFormed := by
  obtain ⟨hlc, hpath⟩ := hs.child L x c hL hc
  have hp : ∀ L', ((s.eraseChild L x).layers L').path = (s.layers L').path :=
    eraseChild_proj FalconLayer.path fun _ _ => rfl
  have hbase : ∀ L', ((s.eraseChild L x).layers L').baseLayer = (s.layers L').baseLayer :=
    eraseChild_proj FalconLayer.baseLayer fun _ _ => rfl
  have hlive : ∀ {L'}, ((s.eraseChild L x).destroy c).live L' = true ↔
      s.live L' = true ∧ L' ≠ c ∧ ∀ e ∈ (s.layers L').path, e.1 ≠ c := by
    intro L'
    rw [live_destroy, hp]
    rfl
  refine ⟨⟨hlive.mpr ⟨hs.base.1, ?_, ?_⟩, (hp 0).trans hs.base.2.1, (hbase 0).trans hs.base.2.2⟩,
    fun L' hL' => hs.alloc L' (hlive.mp hL').1, fun L' x' c' hL' hc' => ?_,
    fun L' hL' => (hp L').symm ▸ hs.older L' hL', fun L' hL' => (hp L').symm ▸ hs.nodup L' hL',
    hs.dogs⟩
  · rintro rfl
    exact List.cons_ne_nil _ _ (hpath.symm.trans hs.base.2.1)
  · intro e he
    rw [hs.base.2.1] at he
    exact (List.not_mem_nil he).elim
  · obtain ⟨hlL', hne, habove⟩ := hlive.mp hL'
    -- the entry that went is not the one looked at
    have hold : (s.layers L').children x' = some c' ∧ (L', x') ≠ (L, x) := by
      by_cases h : L' = L
      · subst h
        simp only [destroy, eraseChild, modify_self] at hc'
        by_cases hx : x' = x
        · subst hx
          rw [Function.update_self] at hc'
          cases hc'
        · exact ⟨by rwa [Function.update_of_ne hx] at hc', fun h => hx (Prod.mk.inj h).2⟩
      · simp only [destroy, eraseChild, modify_of_ne h] at hc'
        exact ⟨hc', fun h' => h (Prod.mk.inj h').1⟩
    obtain ⟨hlc', hpath'⟩ := hs.child L' x' c' hlL' hold.1
    refine ⟨hlive.mpr ⟨hlc', ?_, fun e he => ?_⟩,
      (hp c').trans (hpath'.trans (by rw [← hp L']; rfl))⟩
    · rintro rfl
      exact hold.2 (List.cons.inj (hpath'.symm.trans hpath)).1
    · rw [hpath'] at he
      obtain rfl | he := List.mem_cons.mp he
      · exact hne
      · exact habove e he

theorem countedUpTo_drop {E : List (LayerRef × LayerId)} (hs : s.CountedUpTo E) :
    ((s.eraseChild L x).destroy c).CountedUpTo E := by
  intro L' x' hL' hbase
  have hdep : ((s.eraseChild L x).destroy c).dependents L' x' = s.dependents L' x' :=
    dependents_congr rfl fun w _ => eraseChild_proj FalconLayer.path (fun _ _ => rfl) w
  have hleaves : (((s.eraseChild L x).destroy c).layers L').childLeaves =
      (s.layers L').childLeaves :=
    eraseChild_proj FalconLayer.childLeaves (fun _ _ => rfl) L'
  rw [hdep, hleaves]
  refine hs L' x' (live_destroy.mp hL').1 ?_
  exact (eraseChild_proj FalconLayer.baseLayer (fun _ _ => rfl) L').symm.trans hbase

/-! ## The cancellation pass -/

/-- Entries of layers that are gone, or of the base, do not count. -/
theorem CountedUpTo.skip {E : List (LayerRef × LayerId)} (hs : s.CountedUpTo ((L, x) :: E))
    (h : s.live L = false ∨ (s.layers L).baseLayer = true) : s.CountedUpTo E := by
  intro L' x' hL' hbase
  have hne : (L, x) ≠ (L', x') := by
    rintro h'
    obtain ⟨rfl, -⟩ := Prod.mk.inj h'
    obtain h | h := h
    · exact Bool.false_ne_true (h.symm.trans hL')
    · exact Bool.false_ne_true (hbase.symm.trans h)
  rw [hs L' x' hL' hbase, List.count_cons_of_ne hne]

theorem countedUpTo_countLeaf {E : List (LayerRef × LayerId)} (hs : s.CountedUpTo ((L, x) :: E)) :
    (s.countLeaf L x (-1)).CountedUpTo E := by
  intro L' x' hL' hbase
  have hdep : (s.countLeaf L x (-1)).dependents L' x' = s.dependents L' x' :=
    dependents_congr rfl fun w _ => countLeaf_proj FalconLayer.path (fun _ _ => rfl) w
  have hold := hs L' x' hL'
    ((countLeaf_proj FalconLayer.baseLayer (fun _ _ => rfl) L').symm.trans hbase)
  rw [hdep]
  by_cases h : (L, x) = (L', x')
  · obtain ⟨rfl, rfl⟩ := Prod.mk.inj h
    rw [List.count_cons_self] at hold
    rw [countLeaf, modify_self]
    simp only [Function.update_self]
    omega
  · rw [List.count_cons_of_ne h] at hold
    rw [← hold, countLeaf]
    by_cases hL : L' = L
    · subst hL
      have hx : x' ≠ x := fun hx => h (by rw [hx])
      rw [modify_self]
      exact Function.update_of_ne hx ..
    · rw [modify_of_ne hL]

theorem wellFormed_countLeaf (hs : s.WellFormed) (d : ℤ) : (s.countLeaf L x d).WellFormed := by
  have hp : ∀ L', ((s.countLeaf L x d).layers L').path = (s.layers L').path :=
    countLeaf_proj FalconLayer.path fun _ _ => rfl
  have hc : ∀ L', ((s.countLeaf L x d).layers L').children = (s.layers L').children :=
    countLeaf_proj FalconLayer.children fun _ _ => rfl
  have hb : ∀ L', ((s.countLeaf L x d).layers L').baseLayer = (s.layers L').baseLayer :=
    countLeaf_proj FalconLayer.baseLayer fun _ _ => rfl
  exact ⟨⟨hs.base.1, (hp 0).trans hs.base.2.1, (hb 0).trans hs.base.2.2⟩, hs.alloc,
    fun L' x' c' hL' hc' => by rw [hp, hp]; exact hs.child L' x' c' hL' (by rwa [hc] at hc'),
    fun L' hL' => (hp L').symm ▸ hs.older L' hL', fun L' hL' => (hp L').symm ▸ hs.nodup L' hL',
    hs.dogs⟩

/-- What a part of the cancellation pass does to a client whose counts are right up to `E`, if they
are to be right up to `E'` after it. -/
structure Passed (s s' : FalconClient) (E' : List (LayerRef × LayerId)) : Prop where
  wellFormed : s'.WellFormed
  counted : s'.CountedUpTo E'
  dependents : ∀ L x, s'.dependents L x = s.dependents L x
  /-- What is cancelled at an enforcer has no dependents. -/
  unused : ∃ news, s'.log = news ++ s.log ∧ ∀ L arg reply, .called L (.cancel arg) reply ∈ news →
    s.dependents L arg.target.handle = 0

/-- One round of the pass takes its entry off the count. -/
theorem passed_round {E : List (LayerRef × LayerId)} {reply : Reply} (hw : s.WellFormed)
    (hs : s.CountedUpTo ((L, x) :: E))
    (h : (if s.live L then s.cancelChild L x reply else some s) = some s') : Passed s s' E := by
  have hdep : ∀ L' x', (s.countLeaf L x (-1)).dependents L' x' = s.dependents L' x' := fun _ _ =>
    dependents_congr rfl fun w _ => countLeaf_proj FalconLayer.path (fun _ _ => rfl) w
  split at h
  · next hlive =>
    obtain ⟨hbase, rfl⟩ | ⟨hbase, ⟨-, rfl⟩ | ⟨hlast, arg, harg, rfl⟩⟩ := cancelChild_effect h
    · exact ⟨hw, hs.skip (Or.inr hbase), fun _ _ => rfl, [], rfl, by simp⟩
    · exact ⟨wellFormed_countLeaf hw _, countedUpTo_countLeaf hs, hdep, [], rfl, by simp⟩
    · have hcount : (s.countLeaf L x (-1)).CountedUpTo E := countedUpTo_countLeaf hs
      have hwf : (s.countLeaf L x (-1)).WellFormed := wellFormed_countLeaf hw _
      refine ⟨⟨hwf.base, hwf.alloc, hwf.child, hwf.older, hwf.nodup, hwf.dogs⟩, hcount, hdep,
        [.called L (.cancel arg) reply], rfl, fun L' arg' reply' hmem => ?_⟩
      obtain ⟨rfl, hreq, -⟩ := Action.called.inj (List.mem_singleton.mp hmem)
      obtain rfl := Request.cancel.inj hreq
      -- the count was 1, and the pass's own entry makes up for it
      have hone := hs L' x hlive hbase
      rw [hlast, List.count_cons_self] at hone
      rw [harg]
      omega
  · next hlive =>
    obtain rfl := Option.some.inj h
    exact ⟨hw, hs.skip (Or.inl (Bool.not_eq_true _ ▸ hlive)), fun _ _ => rfl, [], rfl, by simp⟩

/-- **The cancellation pass** takes every entry of its path off the counts. -/
theorem passed_cancelPath {path : List (LayerRef × LayerId)} {replies : ℕ → Reply}
    (hw : s.WellFormed) (hs : s.CountedUpTo path) (h : cancelPath path replies s = some s') :
    Passed s s' [] := by
  induction path generalizing replies s with
  | nil =>
    obtain rfl := Option.some.inj h
    exact ⟨hw, hs, fun _ _ => rfl, [], rfl, by simp⟩
  | cons e path ih =>
    obtain ⟨s₁, hone, hrest⟩ := Option.bind_eq_some_iff.mp h
    have h₁ : Passed s s₁ path := passed_round hw hs hone
    have h' : Passed s₁ s' [] := ih h₁.wellFormed h₁.counted hrest
    obtain ⟨news₁, hlog₁, hnews₁⟩ := h₁.unused
    obtain ⟨news', hlog', hnews'⟩ := h'.unused
    refine ⟨h'.wellFormed, h'.counted, fun L x => (h'.dependents L x).trans (h₁.dependents L x),
      news' ++ news₁, ?_, fun L arg reply hmem => ?_⟩
    · rw [hlog', hlog₁, List.append_assoc]
    · obtain hmem | hmem := List.mem_append.mp hmem
      · exact (h₁.dependents _ _).symm.trans (hnews' L arg reply hmem)
      · exact hnews₁ L arg reply hmem

/-- A watchdog that starts its pass is no dependent any more: the counts are right up to its path.
-/
theorem countedUpTo_erase {leaf : LayerRef} (hw : s.WellFormed) (hs : s.CountedUpTo [])
    (hleaf : leaf ∈ s.watchdogs) :
    CountedUpTo { s with watchdogs := s.watchdogs.erase leaf } (s.layers leaf).path := by
  intro L x hL hbase
  have hnodup := hw.nodup leaf (hw.dogs leaf hleaf)
  have hold := hs L x hL hbase
  rw [List.count_nil] at hold
  refine hold.trans ?_
  simp only [dependents]
  rw [List.countP_erase, List.Nodup.count hnodup]
  by_cases hmem : (L, x) ∈ (s.layers leaf).path
  · have hcontains : (s.layers leaf).path.contains (L, x) = true := List.contains_iff_mem.mpr hmem
    have hpos : 0 < s.watchdogs.countP fun w => (s.layers w).path.contains (L, x) :=
      List.countP_pos_iff.mpr ⟨leaf, hleaf, hcontains⟩
    simp only [hleaf, hmem, hcontains, and_self, if_true]
    omega
  · simp [hmem]

theorem passed_cancelPass {leaf : LayerRef} {replies : ℕ → Reply} (hw : s.WellFormed)
    (hs : s.CountedUpTo []) (hleaf : leaf ∈ s.watchdogs)
    (h : s.cancelPass leaf replies = some s') :
    Passed { s with watchdogs := s.watchdogs.erase leaf } s' [] :=
  passed_cancelPath ⟨hw.base, hw.alloc, hw.child, hw.older, hw.nodup, fun w hw' =>
    hw.dogs w (List.mem_of_mem_erase hw')⟩ (countedUpTo_erase hw hs hleaf) h

/-! ## Adding a child -/

section Install

variable {a : AddChildArg} {g : List GenNo} {E : List (LayerRef × LayerId)}

theorem install_path (hL : L < s.nextLayer) (L' : LayerRef) : ((s.install L a g).layers L').path =
    if L' = s.nextLayer then (L, a.child) :: (s.layers L).path else (s.layers L').path := by
  rw [install_layers hL]
  split_ifs with h h'
  · rfl
  · rw [h']
  · rfl

theorem install_baseLayer (hL : L < s.nextLayer) (L' : LayerRef) :
    ((s.install L a g).layers L').baseLayer =
      if L' = s.nextLayer then false else (s.layers L').baseLayer := by
  rw [install_layers hL]
  split_ifs with h h'
  · rfl
  · rw [h']
  · rfl

theorem wellFormed_install (hs : s.WellFormed) (hL : s.live L = true)
    (hc : (s.layers L).children a.child = none) : (s.install L a g).WellFormed := by
  have hlt : L < s.nextLayer := hs.alloc L hL
  have hlive : ∀ L', (s.install L a g).live L' = true ↔ L' = s.nextLayer ∨ s.live L' = true := by
    intro L'
    by_cases h : L' = s.nextLayer
    · simp [install, h]
    · simp [install, h]
  have h0 : 0 ≠ s.nextLayer := Nat.ne_of_lt (Nat.zero_lt_of_lt hlt)
  have hpath : ∀ {L'}, L' ≠ s.nextLayer →
      ((s.install L a g).layers L').path = (s.layers L').path := fun h => by
    rw [install_path hlt, if_neg h]
  have hnew : ((s.install L a g).layers s.nextLayer).path = (L, a.child) :: (s.layers L).path := by
    rw [install_path hlt, if_pos rfl]
  refine ⟨⟨(hlive 0).mpr (Or.inr hs.base.1), (hpath h0).trans hs.base.2.1, ?_⟩, fun L' hL' => ?_,
    fun L' x' c' hL' hc' => ?_, fun L' hL' => ?_, fun L' hL' => ?_, fun w hw => ?_⟩
  · rw [install_baseLayer hlt, if_neg h0]
    exact hs.base.2.2
  · obtain rfl | hL' := (hlive L').mp hL'
    · exact Nat.lt_succ_self _
    · exact Nat.lt_succ_of_lt (hs.alloc L' hL')
  · by_cases hn : L' = s.nextLayer
    · rw [hn, install_layers hlt, if_pos rfl] at hc'
      cases hc'
    · have hlL' := ((hlive L').mp hL').resolve_left hn
      -- an old child of a live layer stays as it was
      have hold : (s.layers L').children x' = some c' → (s.install L a g).live c' = true ∧
          ((s.install L a g).layers c').path = (L', x') :: ((s.install L a g).layers L').path := by
        intro hc'
        obtain ⟨hlc', hp⟩ := hs.child L' x' c' hlL' hc'
        exact ⟨(hlive c').mpr (Or.inr hlc'),
          (hpath (Nat.ne_of_lt (hs.alloc c' hlc'))).trans (by rw [hpath hn, hp])⟩
      rw [install_layers hlt, if_neg hn] at hc'
      by_cases hLL : L' = L
      · subst hLL
        rw [if_pos rfl] at hc'
        by_cases hx : x' = a.child
        · subst hx
          simp only [Function.update_self] at hc'
          obtain rfl := Option.some.inj hc'
          exact ⟨(hlive _).mpr (Or.inl rfl), hnew.trans (by rw [hpath hn])⟩
        · simp only [Function.update_of_ne hx] at hc'
          exact hold hc'
      · rw [if_neg hLL] at hc'
        exact hold hc'
  · by_cases hn : L' = s.nextLayer
    · subst hn
      rw [hnew]
      refine List.forall_mem_cons.mpr ⟨hlt, fun e he => ?_⟩
      exact Nat.lt_trans (hs.older L hlt e he) hlt
    · rw [hpath hn]
      exact hs.older L' (Nat.lt_of_le_of_ne (Nat.le_of_lt_succ hL') hn)
  · by_cases hn : L' = s.nextLayer
    · subst hn
      rw [hnew]
      exact List.nodup_cons.mpr ⟨fun h => Nat.lt_irrefl L (hs.older L hlt _ h), hs.nodup L hlt⟩
    · rw [hpath hn]
      exact hs.nodup L' (Nat.lt_of_le_of_ne (Nat.le_of_lt_succ hL') hn)
  · simp only [install] at hw
    split at hw
    · obtain rfl | hw := List.mem_cons.mp hw
      · exact Nat.lt_succ_self _
      · exact Nat.lt_succ_of_lt (hs.dogs w hw)
    · exact Nat.lt_succ_of_lt (hs.dogs w hw)

/-- The counts after a child has been entered, against the dependents before. -/
theorem install_childLeaves (hw : s.WellFormed) (hs : s.CountedUpTo E) (hL : s.live L = true)
    (hE : ∀ e ∈ E, e.1 < s.nextLayer) {L' : LayerRef} {x' : LayerId}
    (hL' : (s.install L a g).live L' = true)
    (hbase : ((s.install L a g).layers L').baseLayer = false) :
    ((s.install L a g).layers L').childLeaves x' =
      s.dependents L' x' + ((L, a.child) :: E).count (L', x') := by
  have hlt : L < s.nextLayer := hw.alloc L hL
  by_cases hn : L' = s.nextLayer
  · -- the new layer has no leaves, and nobody knows of it
    subst hn
    have hnone : s.dependents s.nextLayer x' = 0 := by
      refine List.countP_eq_zero.mpr fun w hwd hmem => ?_
      have hold := hw.older w (hw.dogs w hwd) _ (by simpa using hmem)
      exact Nat.lt_asymm hold (hw.dogs w hwd)
    have hE0 : ((L, a.child) :: E).count (s.nextLayer, x') = 0 := by
      refine List.count_eq_zero.mpr fun hmem => ?_
      obtain h | h := List.mem_cons.mp hmem
      · exact Nat.ne_of_gt hlt (Prod.mk.inj h).1
      · exact Nat.lt_irrefl _ (hE _ h)
    rw [hnone, hE0, install_layers hlt, if_pos rfl]
    rfl
  · have hlive : s.live L' = true := by simpa [install, hn] using hL'
    rw [install_baseLayer hlt, if_neg hn] at hbase
    have hold := hs L' x' hlive hbase
    rw [install_layers hlt, if_neg hn]
    by_cases hLL : L' = L
    · subst hLL
      rw [if_pos rfl]
      by_cases hx : x' = a.child
      · subst hx
        simp only [Function.update_self, hold, List.count_cons_self]
        omega
      · have hne : (L', a.child) ≠ (L', x') := fun h => hx (Prod.mk.inj h).2.symm
        simp only [Function.update_of_ne hx, hold, List.count_cons_of_ne hne]
    · have hne : (L, a.child) ≠ (L', x') := fun h => hLL (Prod.mk.inj h).1.symm
      rw [if_neg hLL, hold, List.count_cons_of_ne hne]

theorem install_dependents (hw : s.WellFormed) (hL : s.live L = true) (L' : LayerRef)
    (x' : LayerId) :
    (s.install L a g).dependents L' x' = s.dependents L' x' +
      if a.leafLayer = true ∧ (L', x') ∈ (L, a.child) :: (s.layers L).path then 1 else 0 := by
  have hlt : L < s.nextLayer := hw.alloc L hL
  have hold : (s.watchdogs.countP fun w => ((s.install L a g).layers w).path.contains (L', x')) =
      s.dependents L' x' := List.countP_congr fun w hwd => by
    rw [install_path hlt, if_neg (Nat.ne_of_lt (hw.dogs w hwd))]
  cases hleaf : a.leafLayer with
  | false =>
    have hdogs : (s.install L a g).watchdogs = s.watchdogs := by simp [install, hleaf]
    rw [dependents, hdogs, hold, if_neg (by simp), Nat.add_zero]
  | true =>
    have hdogs : (s.install L a g).watchdogs = s.nextLayer :: s.watchdogs := by
      simp [install, hleaf]
    rw [dependents, hdogs, List.countP_cons, hold, install_path hlt, if_pos rfl]
    simp

end Install

/-! ## Requests -/

/-- The entries `E` are those of the path of `L`, but for the base's. -/
def Covers (s : FalconClient) (E : List (LayerRef × LayerId)) (L : LayerRef) : Prop :=
  ∀ L' x', (s.layers L').baseLayer = false → E.count (L', x') = (s.layers L).path.count (L', x')

section Requests

variable {a : AddChildArg} {g : List GenNo} {E : List (LayerRef × LayerId)}

/-- The entries of a new layer's path are those of its parent's and its own. -/
theorem covers_install (hw : s.WellFormed) (hL : s.live L = true) (hE : ∀ e ∈ E, e.1 < s.nextLayer)
    (hcov : s.Covers E L) : (s.install L a g).Covers ((L, a.child) :: E) s.nextLayer := by
  intro L' x' hbase
  have hlt : L < s.nextLayer := hw.alloc L hL
  rw [install_path hlt, if_pos rfl, List.count_cons, List.count_cons]
  by_cases hn : L' = s.nextLayer
  · subst hn
    have hE0 : E.count (s.nextLayer, x') = 0 :=
      List.count_eq_zero.mpr fun hmem => Nat.lt_irrefl _ (hE _ hmem)
    have hp0 : (s.layers L).path.count (s.nextLayer, x') = 0 :=
      List.count_eq_zero.mpr fun hmem => Nat.lt_asymm hlt (hw.older L hlt _ hmem)
    rw [hE0, hp0]
  · rw [install_baseLayer hlt, if_neg hn] at hbase
    rw [hcov L' x' hbase]

/-- A new layer that is no leaf owes its entry. -/
theorem countedUpTo_install (hw : s.WellFormed) (hs : s.CountedUpTo E) (hL : s.live L = true)
    (hE : ∀ e ∈ E, e.1 < s.nextLayer) (hleaf : a.leafLayer = false) :
    (s.install L a g).CountedUpTo ((L, a.child) :: E) := by
  intro L' x' hL' hbase
  rw [install_childLeaves hw hs hL hE hL' hbase, install_dependents hw hL, hleaf, if_neg (by simp),
    Nat.add_zero]

/-- A new leaf makes up for the entries owed for its path. -/
theorem countedUpTo_install_leaf (hw : s.WellFormed) (hs : s.CountedUpTo E) (hL : s.live L = true)
    (hE : ∀ e ∈ E, e.1 < s.nextLayer) (hcov : s.Covers E L) (hleaf : a.leafLayer = true) :
    (s.install L a g).CountedUpTo [] := by
  intro L' x' hL' hbase
  have hlt : L < s.nextLayer := hw.alloc L hL
  have hnodup : ((L, a.child) :: (s.layers L).path).Nodup :=
    List.nodup_cons.mpr ⟨fun h => Nat.lt_irrefl L (hw.older L hlt _ h), hw.nodup L hlt⟩
  have hcount := covers_install (a := a) (g := g) hw hL hE hcov L' x' hbase
  rw [install_path hlt, if_pos rfl, List.Nodup.count hnodup] at hcount
  rw [install_childLeaves hw hs hL hE hL' hbase, install_dependents hw hL, List.count_nil, hcount]
  simp only [hleaf, true_and]
  omega

end Requests

/-! ### Looking ahead -/

theorem Alike.survey (h : Alike s s') (ids : List LayerId) (ans : ℕ → AddChildAnswers)
    (L : LayerRef) :
    s'.survey ids ans L = s.survey ids ans L := by
  have hgen : ∀ L, (s'.layers L).gen = (s.layers L).gen := h.proj FalconLayer.gen fun _ => rfl
  induction ids generalizing ans L with
  | nil => rfl
  | cons x rest ih => simp only [FalconClient.survey, h.children, h.baseLayer, hgen, ih]

/-- From a layer without children on, a request can only add. -/
theorem survey_childless {rest : List LayerId} (hrest : rest ≠ []) (ans : ℕ → AddChildAnswers)
    (hc : ∀ x, (s.layers L).children x = none) : s.survey rest ans L =
      ⟨0, (growth (s.layers L).baseLayer (s.layers L).gen rest ans).1,
        (growth (s.layers L).baseLayer (s.layers L).gen rest ans).2⟩ := by
  cases rest with
  | nil => exact (hrest rfl).elim
  | cons x rest => simp only [FalconClient.survey, hc]

theorem alike_nextLayerId : Alike s s.nextLayerId := ⟨fun _ => rfl, rfl, rfl, rfl⟩

/-- The step of the loop of `start_builder` between two `AddChild`s. -/
theorem alike_catalogue {rest : List LayerId} {cid : UInt32}
    (h : (if rest.isEmpty then some s else s.addLayer cid L) = some s') : Alike s s' := by
  unfold addLayer at h
  split_ifs at h <;> obtain rfl := Option.some.inj h <;> exact ⟨fun _ => rfl, rfl, rfl, rfl⟩

/-- `AddChild`, as far as the tree is concerned: the child is found, refused or entered. -/
theorem addChild_tree {a : AddChildArg} {ans : AddChildAnswers} {ret : Option LayerRef}
    (h : s.addChild L a ans = some (s', ret)) :
    (∃ c, (s.layers L).children a.child = some c ∧ ret = some c ∧ Alike s s') ∨
      (s.layers L).children a.child = none ∧
        (admits (s.layers L).baseLayer (s.layers L).gen a.leafLayer ans = none ∧ ret = none ∧
            Alike s s' ∨
          ∃ gen s₀, admits (s.layers L).baseLayer (s.layers L).gen a.leafLayer ans = some gen ∧
            ret = some s.nextLayer ∧ Alike s s₀ ∧ s' = s₀.install L a gen) := by
  cases addChild_effect h with
  | found hc => exact Or.inl ⟨_, hc, rfl, (same_addCallback _).toAlike⟩
  | atBase hc hbase hadm =>
    exact Or.inr ⟨hc, Or.inr ⟨_, s, by rw [hbase]; exact hadm, rfl, alike_log s.log, rfl⟩⟩
  | registered hc hbase hadm =>
    exact Or.inr ⟨hc, Or.inr ⟨_, _, by rw [hbase]; exact hadm, rfl, alike_log _, rfl⟩⟩
  | refused hc hadm => exact Or.inr ⟨hc, Or.inl ⟨hadm, rfl, alike_log _⟩⟩

/-- The state of a request that has come to the layer `L` and owes the entries `E`. -/
structure Building (s : FalconClient) (E : List (LayerRef × LayerId)) (L : LayerRef) : Prop where
  wellFormed : s.WellFormed
  counted : s.CountedUpTo E
  live : s.live L = true
  bounded : ∀ e ∈ E, e.1 < s.nextLayer

theorem Alike.building {E : List (LayerRef × LayerId)} (h : Alike s s') (hs : s.Building E L) :
    s'.Building E L :=
  ⟨h.wellFormed hs.wellFormed, h.countedUpTo hs.counted, h.live ▸ hs.live, h.nextLayer ▸ hs.bounded⟩

theorem Alike.covers {E : List (LayerRef × LayerId)} (h : Alike s s') (hs : s.Covers E L) :
    s'.Covers E L := by
  intro L' x' hbase
  rw [h.path]
  exact hs L' x' ((h.baseLayer L').symm.trans hbase)

/-- The request goes on at a child it has found. -/
theorem Building.found {E : List (LayerRef × LayerId)} (hs : s.Building E L)
    (hc : (s.layers L).children x = some c) : s.Building E c :=
  ⟨hs.wellFormed, hs.counted, (hs.wellFormed.child L x c hs.live hc).1, hs.bounded⟩

/-- The request goes on at a layer it has added. -/
theorem Building.install {E : List (LayerRef × LayerId)} {a : AddChildArg} {g : List GenNo}
    (hs : s.Building E L) (hc : (s.layers L).children a.child = none)
    (hleaf : a.leafLayer = false) :
    (s.install L a g).Building ((L, a.child) :: E) s.nextLayer where
  wellFormed := wellFormed_install hs.wellFormed hs.live hc
  counted := countedUpTo_install hs.wellFormed hs.counted hs.live hs.bounded hleaf
  live := Function.update_self ..
  bounded := List.forall_mem_cons.mpr
    ⟨Nat.lt_succ_of_lt (hs.wellFormed.alloc L hs.live),
      fun e he => Nat.lt_succ_of_lt (hs.bounded e he)⟩

/-- **One round of the loop of `start_builder`**: the child is found, is refused, or is added. -/
theorem build_cons {req : StartRequest} {cb : CallbackRef} {out : Built} {rest : List LayerId}
    {ans : ℕ → AddChildAnswers} (h : build req cb (x :: rest) ans L s = some (s', out)) :
    (∃ c s₁, (s.layers L).children x = some c ∧ Alike s s₁ ∧
        build req cb rest (fun i => ans (i + 1)) c s₁ = some (s', out)) ∨
      (s.layers L).children x = none ∧
        (admits (s.layers L).baseLayer (s.layers L).gen rest.isEmpty (ans 0) = none ∧ Alike s s' ∨
          ∃ gen s₀ s₁,
            admits (s.layers L).baseLayer (s.layers L).gen rest.isEmpty (ans 0) = some gen ∧
            Alike s s₀ ∧ Alike (s₀.install L (s.addChildArg req cb x rest) gen) s₁ ∧
            build req cb rest (fun i => ans (i + 1)) s.nextLayer s₁ = some (s', out)) := by
  have hnext : Alike s s.nextLayerId := alike_nextLayerId
  unfold build at h
  split at h
  · cases h
  · next s₁ hadd =>
    obtain ⟨rfl, -⟩ := Prod.mk.inj (Option.some.inj h)
    obtain ⟨c, -, hret, -⟩ | ⟨hc, ⟨hadm, -, halike⟩ | ⟨gen, s₀, -, hret, -⟩⟩ := addChild_tree hadd
    · cases hret
    · exact Or.inr ⟨hc, Or.inl ⟨hadm, hnext.trans halike⟩⟩
    · cases hret
  · next s₁ c hadd =>
    obtain ⟨s₂, hcat, hbuild⟩ := Option.bind_eq_some_iff.mp h
    have hcat' : Alike s₁ s₂ := alike_catalogue hcat
    obtain ⟨c', hc, hret, halike⟩ | ⟨hc, ⟨-, hret, -⟩ | ⟨gen, s₀, hadm, hret, halike, rfl⟩⟩ :=
      addChild_tree hadd
    · obtain rfl := Option.some.inj hret
      exact Or.inl ⟨c, s₂, hc, (hnext.trans halike).trans hcat', hbuild⟩
    · cases hret
    · obtain rfl := Option.some.inj hret
      exact Or.inr ⟨hc, Or.inr ⟨gen, s₀, s₂, hadm, hnext.trans halike, hcat', hbuild⟩⟩

/-- A layer the request adds below `L` has its kind and generation, and no children. -/
theorem survey_added {s₀ s₁ : FalconClient} {a : AddChildArg} {gen : List GenNo}
    {rest : List LayerId} (hL : L < s.nextLayer) (h₀ : Alike s s₀)
    (h₁ : Alike (s₀.install L a gen) s₁) (hrest : rest ≠ [])
    (ans : ℕ → AddChildAnswers) : s₁.survey rest ans s.nextLayer =
      ⟨0, (growth false gen rest ans).1, (growth false gen rest ans).2⟩ := by
  have hnew : (s₀.install L a gen).layers s.nextLayer = s₀.newLayer L a gen := by
    rw [install_layers (h₀.nextLayer ▸ hL), if_pos h₀.nextLayer.symm]
  rw [h₁.survey, survey_childless hrest ans (fun x => by rw [hnew]; rfl), hnew]
  rfl

/-- **A request that ends in a new leaf** and has found nothing below the base's children leaves the
counts right. -/
theorem build_newLeaf {req : StartRequest} {cb : CallbackRef} {out : Built} (ids : List LayerId) :
    ∀ (ans : ℕ → AddChildAnswers) (L : LayerRef) (s : FalconClient) (E : List (LayerRef × LayerId)),
      s.Building E L → s.Covers E L → (s.survey ids ans L).newLeaf = true →
      (s.survey ids ans L).found = 0 → build req cb ids ans L s = some (s', out) →
      s'.WellFormed ∧ s'.CountedUpTo [] := by
  induction ids with
  | nil => exact fun _ _ _ _ _ _ h => absurd h Bool.false_ne_true
  | cons x rest ih =>
    intro ans L s E hb hcov hleaf hfound h
    obtain ⟨c, s₁, hc, halike, hrest⟩ | ⟨hc, ⟨hadm, -⟩ | ⟨gen, s₀, s₁, hadm, h₀, h₁, hrest⟩⟩ :=
      build_cons h
    · -- found: only at the base
      simp only [survey, hc] at hleaf hfound
      have hbase : (s.layers L).baseLayer = true := by
        by_contra hne
        rw [if_neg hne] at hfound
        omega
      have hcov' : s.Covers E c := by
        intro L' x' hL'
        have hne : (L, x) ≠ (L', x') := fun h =>
          Bool.false_ne_true (hL'.symm.trans ((Prod.mk.inj h).1 ▸ hbase))
        rw [(hb.wellFormed.child L x c hb.live hc).2, List.count_cons_of_ne hne]
        exact hcov L' x' hL'
      refine ih _ c s₁ E (halike.building (hb.found hc)) (halike.covers hcov') ?_ ?_ hrest
      · rw [halike.survey]; exact hleaf
      · rw [halike.survey]; omega
    · simp only [survey, hc, growth, hadm] at hleaf
      cases hleaf
    · simp only [survey, hc, growth, hadm] at hleaf
      have hb₀ : s₀.Building E L := h₀.building hb
      have hcov₀ : s₀.Covers E L := h₀.covers hcov
      have hc₀ : (s₀.layers L).children x = none := by rw [h₀.children]; exact hc
      cases rest with
      | nil =>
        obtain ⟨rfl, -⟩ := Prod.mk.inj (Option.some.inj hrest)
        have hw := wellFormed_install (a := s.addChildArg req cb x []) (g := gen)
          hb₀.wellFormed hb₀.live hc₀
        have hcount := countedUpTo_install_leaf (a := s.addChildArg req cb x []) (g := gen)
          hb₀.wellFormed hb₀.counted hb₀.live hb₀.bounded hcov₀ rfl
        exact ⟨h₁.wellFormed hw, h₁.countedUpTo hcount⟩
      | cons y ys =>
        have hsurvey := survey_added (hb.wellFormed.alloc L hb.live) h₀ h₁ (List.cons_ne_nil y ys)
          fun i => ans (i + 1)
        have hb₁ := hb₀.install (g := gen) (a := s.addChildArg req cb x (y :: ys)) hc₀ rfl
        have hcov₁ := covers_install (g := gen) (a := s.addChildArg req cb x (y :: ys))
          hb₀.wellFormed hb₀.live hb₀.bounded hcov₀
        rw [h₀.nextLayer] at hb₁ hcov₁
        refine ih _ s.nextLayer s₁ _ (h₁.building hb₁) (h₁.covers hcov₁) ?_ ?_ hrest
        · rw [hsurvey]; exact hleaf
        · rw [hsurvey]

/-- **A request that adds no leaf** and no layer below the base's children leaves the counts right.
-/
theorem build_noLeaf {req : StartRequest} {cb : CallbackRef} {out : Built} (ids : List LayerId) :
    ∀ (ans : ℕ → AddChildAnswers) (L : LayerRef) (s : FalconClient), s.Building [] L →
      (s.survey ids ans L).newLeaf = false → (s.survey ids ans L).added = 0 →
      build req cb ids ans L s = some (s', out) → s'.WellFormed ∧ s'.CountedUpTo [] := by
  induction ids with
  | nil =>
    intro ans L s hb _ _ h
    obtain ⟨rfl, -⟩ := Prod.mk.inj (Option.some.inj h)
    exact ⟨hb.wellFormed, hb.counted⟩
  | cons x rest ih =>
    intro ans L s hb hleaf hadded h
    obtain ⟨c, s₁, hc, halike, hrest⟩ | ⟨hc, ⟨-, halike⟩ | ⟨gen, s₀, s₁, hadm, h₀, h₁, hrest⟩⟩ :=
      build_cons h
    · simp only [survey, hc] at hleaf hadded
      refine ih _ c s₁ (halike.building (hb.found hc)) ?_ ?_ hrest
      · rw [halike.survey]; exact hleaf
      · rw [halike.survey]; exact hadded
    · exact ⟨halike.wellFormed hb.wellFormed, halike.countedUpTo hb.counted⟩
    · simp only [survey, hc, growth, hadm] at hleaf hadded
      -- added: only at the base, whose counts do not matter
      have hbase : (s.layers L).baseLayer = true := by
        by_contra hne
        rw [if_neg hne] at hadded
        omega
      have hb₀ : s₀.Building [] L := h₀.building hb
      have hc₀ : (s₀.layers L).children x = none := by rw [h₀.children]; exact hc
      cases rest with
      | nil => cases hleaf
      | cons y ys =>
        have hsurvey := survey_added (hb.wellFormed.alloc L hb.live) h₀ h₁ (List.cons_ne_nil y ys)
          fun i => ans (i + 1)
        have hb₁ := hb₀.install (g := gen) (a := s.addChildArg req cb x (y :: ys)) hc₀ rfl
        rw [h₀.nextLayer] at hb₁
        have hlt : L < s₀.nextLayer := hb₀.wellFormed.alloc L hb₀.live
        have hskip := hb₁.counted.skip (Or.inr (by
          rw [install_baseLayer hlt, if_neg (Nat.ne_of_lt hlt), h₀.baseLayer, hbase]))
        refine ih _ s.nextLayer s₁ (h₁.building ⟨hb₁.wellFormed, hskip, hb₁.live, by simp⟩) ?_ ?_
          hrest
        · rw [hsurvey]; exact hleaf
        · rw [hsurvey]
          dsimp only
          omega

/-! ## Every run -/

/-- The counts are right. -/
structure Sound (s : FalconClient) : Prop where
  wellFormed : s.WellFormed
  counted : s.CountedUpTo []

theorem Alike.sound (h : Alike s s') (hs : s.Sound) : s'.Sound :=
  ⟨h.wellFormed hs.wellFormed, h.countedUpTo hs.counted⟩

theorem Sound.leavesCounted (hs : s.Sound) : s.LeavesCounted := fun L x hL hbase _ => by
  rw [hs.counted L x hL hbase, List.count_nil]
  omega

theorem sound_init (addr : ClientAddr) : (init addr).Sound where
  wellFormed := wellFormed_init addr
  counted _ _ _ _ := rfl

theorem sound_start {req : StartRequest} {ans : ℕ → AddChildAnswers} {junk : LayerId}
    (hs : s.Sound) (hbal : s.Balanced (.start req ans junk)) (h : s.start req ans junk = some s') :
    s'.Sound := by
  unfold start at h
  dsimp only at h
  set s₀ : FalconClient := { s with
    callbacks := Function.update s.callbacks s.nextCallback
      (.create req.cb req.idlist req.clientData req.garbageStatus req.garbageRemote
        req.garbageIndex)
    nextCallback := s.nextCallback + 1 } with hs₀
  have h₀ : Alike s s₀ := ⟨fun _ => rfl, rfl, rfl, rfl⟩
  have hb : s₀.Building [] 0 :=
    ⟨h₀.wellFormed hs.wellFormed, h₀.countedUpTo hs.counted, hs.wellFormed.base.1, by simp⟩
  have hcov : s₀.Covers [] 0 := fun L' x' _ => by rw [hb.wellFormed.base.2.1]
  have hbuild : ∀ {s₁ out}, build req s.nextCallback req.idlist.reverse ans 0 s₀ = some (s₁, out) →
      s₁.Sound := by
    intro s₁ out hout
    have hbal' := hbal req ans junk rfl
    dsimp only at hbal'
    rw [← h₀.survey] at hbal'
    split at hbal'
    · next hleaf =>
      obtain ⟨hw, hc⟩ := build_newLeaf _ ans 0 s₀ [] hb hcov hleaf hbal' hout
      exact ⟨hw, hc⟩
    · next hleaf =>
      obtain ⟨hw, hc⟩ := build_noLeaf _ ans 0 s₀ hb (Bool.not_eq_true _ ▸ hleaf) hbal' hout
      exact ⟨hw, hc⟩
  split at h
  · cases h
  · next s₁ L hout =>
    obtain rfl := Option.some.inj h
    exact (alike_log _).sound (hbuild hout)
  · next s₁ rest hout =>
    obtain rfl := Option.some.inj h
    exact (same_runCallback ..).toAlike.sound (hbuild hout)

theorem sound_doChildDown (hs : s.Sound) (hL : s.live L = true) (gen : List GenNo)
    (fs rs : UInt32) : (s.doChildDown L x gen fs rs).Sound := by
  unfold doChildDown
  split
  · exact hs
  · next c hc =>
    split
    · have hrun := (same_runCallbacks (s := s) (L := c) x fs rs).toAlike
      have hs₁ := hrun.sound hs
      exact ⟨wellFormed_drop hs₁.wellFormed (hrun.live ▸ hL) (by rw [hrun.children]; exact hc),
        countedUpTo_drop hs₁.counted⟩
    · exact hs

theorem sound_receive (hs : s.Sound) (m : Message) : (s.receive m).Sound := by
  have hlive : ∀ {cid L}, s.getLayer cid = some L → s.live L = true := fun h =>
    (Option.filter_eq_some_iff.mp h).2
  cases m with
  | up arg =>
    unfold receive receivedUp
    dsimp only
    split
    · exact hs
    · exact (same_doChildUp _).toAlike.sound hs
  | down arg =>
    unfold receive receivedDown
    dsimp only
    split
    · exact hs
    · next L hL => exact sound_doChildDown hs (hlive hL) _ _ _

/-- **One event of a run with balanced requests** keeps the counts right, and cancels only what
nobody depends on. -/
theorem sound_step {e : Event} (hs : s.Sound) (h : step s e = some s') (hbal : s.Balanced e) :
    s'.Sound ∧ CancelsUnused s e s' := by
  cases e with
  | start req ans junk => exact ⟨sound_start hs hbal h, fun _ _ h => by cases h⟩
  | report m => exact ⟨Option.some.inj h ▸ sound_receive hs m, fun _ _ h => by cases h⟩
  | kill leaf L x reply =>
    refine ⟨?_, fun _ _ h => by cases h⟩
    simp only [step] at h
    split at h
    · obtain ⟨⟨s₁, r⟩, hkill, rfl⟩ := Option.map_eq_some_iff.mp h
      obtain hsame | ⟨tgt, hsame⟩ := killChild_effect hkill
      · exact hsame.toAlike.sound hs
      · exact ((alike_log _).trans hsame.toAlike).sound hs
    · cases h
  | cancelPass leaf replies =>
    simp only [step] at h
    split at h
    · next hleaf =>
      have hpassed := passed_cancelPass hs.wellFormed hs.counted hleaf h
      refine ⟨⟨hpassed.wellFormed, hpassed.counted⟩, fun _ _ _ news hlog L arg reply hmem => ?_⟩
      obtain ⟨news', hlog', hunused⟩ := hpassed.unused
      obtain rfl : news = news' := List.append_cancel_right (hlog.symm.trans hlog')
      rw [hpassed.dependents]
      exact hunused L arg reply hmem
    · cases h
  | startTimer leaf cb =>
    refine ⟨?_, fun _ _ h => by cases h⟩
    simp only [step] at h
    split at h
    · exact Option.some.inj h ▸ (same_startTimer cb).toAlike.sound hs
    · cases h
  | setCallback cb f =>
    exact ⟨Option.some.inj h ▸ (same_useCallback _ _).toAlike.sound hs, fun _ _ h => by cases h⟩
  | removeCallback cb =>
    exact ⟨Option.some.inj h ▸ (same_useCallback _ _).toAlike.sound hs, fun _ _ h => by cases h⟩

/-- **Shared layers are cancelled only by their last user**, in every run whose requests are
balanced: the counts are right in every state, and a pass cancels at an enforcer only what no
remaining leaf depends on. -/
theorem leaves_counted (addr : ClientAddr) (es : List Event)
    (hbal : Run.Along step (fun s e _ => s.Balanced e) (init addr) es) :
    Run.Always step LeavesCounted (init addr) es ∧ Run.Along step CancelsUnused (init addr) es :=
  ⟨Run.Always.of_inv (fun _ hs => hs.leavesCounted) (fun _ _ _ h hs hC => (sound_step hs h hC).1)
      (sound_init addr) hbal,
    Run.Along.of_inv (I := Sound) (fun _ e _ h hs hC => sound_step (e := e) hs h hC) es _
      (sound_init addr) hbal⟩

/-- An enforcer that answers everything at generation vector `gen`. -/
def agrees (gen : List GenNo) : AddChildAnswers :=
  ⟨true, ⟨.success, ⟨⟨"", gen⟩, .genResp⟩⟩, ⟨.success, ⟨⟨"", gen⟩, .registerAck⟩⟩⟩

/-- The answers to a request for an application on a virtual machine on a hypervisor. -/
def agreesAll (i : ℕ) : AddChildAnswers := agrees (List.replicate i 1)

/-- The request for the application `app` on `"vm"` on `"host"`. -/
def onVm (app : LayerId) : StartRequest := ⟨[app, "vm", "host"], false, none, 0, -1, 0, 0, 0⟩

/-- Two applications on virtual machines of their own, and the cancellation pass of the first. -/
def apartVms : List Event :=
  [.start (onVm "a") agreesAll "",
   .start { onVm "b" with idlist := ["b", "vm1", "host"] } agreesAll "",
   .cancelPass 3 fun _ => ⟨.success, ⟨⟨"", []⟩, .cancelAck⟩⟩]

/-- The pass cancels the first application and its virtual machine, and the second application
counts. -/
theorem leaves_counted_onVm :
    Run.Always step LeavesCounted (init ⟨1, 0, 0⟩) apartVms ∧
      Run.Along step CancelsUnused (init ⟨1, 0, 0⟩) apartVms ∧
      ∃ s, apartVms.foldlM step (init ⟨1, 0, 0⟩) = some s ∧
        s.log.take 2 =
         [.called 1 (.cancel ⟨⟨"vm", [1]⟩, ⟨1, 0, 1⟩⟩) ⟨.success, ⟨⟨"", []⟩, .cancelAck⟩⟩,
          .called 2 (.cancel ⟨⟨"a", [1, 1]⟩, ⟨1, 0, 2⟩⟩) ⟨.success, ⟨⟨"", []⟩, .cancelAck⟩⟩] ∧
        (s.layers 1).childLeaves "vm1" = 1 ∧ s.dependents 1 "vm1" = 1 := by
  have hbal : Run.Along step (fun s e _ => s.Balanced e) (init ⟨1, 0, 0⟩) apartVms := by
    refine fun s₁ h₁ => ⟨?_, fun s₂ h₂ =>
      ⟨?_, fun s₃ _ => ⟨fun _ _ _ h => (by cases h), Run.Along.nil⟩⟩⟩
    · rintro req ans junk h
      injection h with hreq hans hjunk
      subst hreq hans hjunk
      decide
    · obtain rfl := Option.some.inj h₁
      rintro req ans junk h
      injection h with hreq hans hjunk
      subst hreq hans hjunk
      decide
  obtain ⟨hcounted, hunused⟩ := leaves_counted ⟨1, 0, 0⟩ _ hbal
  exact ⟨hcounted, hunused, _, rfl, by decide, by decide, by decide⟩

/-- Two applications on one virtual machine, and the cancellation pass of the first. -/
def sharedVm : List Event :=
  [.start (onVm "a") agreesAll "", .start (onVm "b") agreesAll "",
   .cancelPass 3 fun _ => ⟨.success, ⟨⟨"", []⟩, .cancelAck⟩⟩]

/-- The second application is not counted at `"host"`, and the pass of the first cancels `"vm"`
there, which the second depends on. -/
theorem shared_layer_cancelled :
    ¬ Run.Always step LeavesCounted (init ⟨1, 0, 0⟩) sharedVm ∧
      ¬ Run.Along step CancelsUnused (init ⟨1, 0, 0⟩) sharedVm := by
  obtain ⟨s₁, h₁, s₂, h₂, hlayer, hcount, s₃, h₃, hcalls, hdep⟩ : ∃ s₁,
      step (init ⟨1, 0, 0⟩) (.start (onVm "a") agreesAll "") = some s₁ ∧ ∃ s₂,
      step s₁ (.start (onVm "b") agreesAll "") = some s₂ ∧
      (s₂.live 1 = true ∧ (s₂.layers 1).baseLayer = false ∧ (s₂.layers 1).children "vm" ≠ none) ∧
      ((s₂.layers 1).childLeaves "vm" = 1 ∧ s₂.dependents 1 "vm" = 2) ∧ ∃ s₃,
      step s₂ (.cancelPass 3 fun _ => ⟨.success, ⟨⟨"", []⟩, .cancelAck⟩⟩) = some s₃ ∧
      s₃.log = [.called 1 (.cancel ⟨⟨"vm", [1]⟩, ⟨1, 0, 1⟩⟩) ⟨.success, ⟨⟨"", []⟩, .cancelAck⟩⟩,
        .called 2 (.cancel ⟨⟨"a", [1, 1]⟩, ⟨1, 0, 2⟩⟩) ⟨.success, ⟨⟨"", []⟩, .cancelAck⟩⟩] ++
        s₂.log ∧
      s₃.dependents 1 "vm" = 1 :=
    ⟨_, rfl, _, rfl, ⟨by decide, by decide, by decide⟩, ⟨by decide, by decide⟩, _, rfl, by decide,
      by decide⟩
  refine ⟨fun h => ?_, fun h => ?_⟩
  · have hs := ((h.2 s₁ h₁).2 s₂ h₂).1 1 "vm" hlayer.1 hlayer.2.1 hlayer.2.2
    rw [hcount.1, hcount.2] at hs
    cases hs
  · have hunused := (((h s₁ h₁).2 s₂ h₂).2 s₃ h₃).1 3 _ rfl _ hcalls 1 _ _ List.mem_cons_self
    rw [hdep] at hunused
    cases hunused

end Falcon.Client.FalconClient
