import Falcon.Client.Targets

/-!
# Client/Severed — what is off the tree has told its callbacks

A layer leaves the `children_` of its parent only through `DoChildDown`, which runs its callbacks
first; so all that is off the tree has told them.  And what is no longer alive is off the tree, with
a layer on its way up that is nobody's child (`Lost`).

* `Told` — the invariant: a callback that has come to a lost layer has had its final event.
-/

namespace Falcon.Client

namespace FalconClient

variable {s s' : FalconClient} {L P c x : LayerRef} {y : LayerId}

/-- `x` is nobody's child. -/
def Severed (s : FalconClient) (x : LayerRef) : Prop :=
  ∀ P < s.nextLayer, ∀ z, (s.layers P).children z ≠ some x

/-- A layer on the way from `L` up to the base is nobody's child. -/
def Lost (s : FalconClient) (L : LayerRef) : Prop := ∃ x, 0 < x ∧ s.Through x L ∧ s.Severed x

/-- Every layer but the base was made below another. -/
def Rooted (s : FalconClient) : Prop :=
  ∀ L, 0 < L → L < s.nextLayer → ∃ P y, P < L ∧ (s.layers L).path = (P, y) :: (s.layers P).path

theorem rooted_init (addr : ClientAddr) : (init addr).Rooted := fun _ hpos hlt =>
  absurd hlt (Nat.not_lt.mpr hpos)

theorem Rooted.of_path (hs : s.Rooted) (hnext : s'.nextLayer = s.nextLayer)
    (hpath : ∀ L, (s'.layers L).path = (s.layers L).path) : s'.Rooted := by
  intro L hpos hlt
  obtain ⟨P, y, hP, h⟩ := hs L hpos (hnext ▸ hlt)
  exact ⟨P, y, hP, by rw [hpath, hpath, h]⟩

/-- The way from a layer goes on as that of any layer on it. -/
theorem Rooted.entry (hs : s.Rooted) (hh : s.Heap) (hL : L < s.nextLayer)
    (h : (P, y) ∈ (s.layers L).path) : P < L ∧ ∀ x, s.Through x P → s.Through x L := by
  induction L using Nat.strong_induction_on with
  | _ L ih =>
    obtain rfl | hpos := Nat.eq_zero_or_pos L
    · rw [hh.base.2.1] at h
      exact absurd h List.not_mem_nil
    obtain ⟨Q, z, hQ, hpath⟩ := hs L hpos hL
    have hup : ∀ x, s.Through x Q → s.Through x L := fun x hx =>
      (through_child hpath).mpr (Or.inr hx)
    rw [hpath] at h
    obtain heq | h := List.mem_cons.mp h
    · obtain ⟨rfl, rfl⟩ := Prod.mk.inj heq
      exact ⟨hQ, hup⟩
    · obtain ⟨hP, hup'⟩ := ih Q hQ (Nat.lt_trans hQ hL) h
      exact ⟨Nat.lt_trans hP hQ, fun x hx => hup x (hup' x hx)⟩

/-- What is on a way was made. -/
theorem Rooted.through_lt (hs : s.Rooted) (hh : s.Heap) (hL : L < s.nextLayer)
    (h : s.Through x L) : x < s.nextLayer := by
  obtain rfl | ⟨z, hz⟩ := h
  · exact hL
  · exact Nat.lt_trans (hs.entry hh hL hz).1 hL

theorem Rooted.through_trans (hs : s.Rooted) (hh : s.Heap) (hL : L < s.nextLayer)
    (hx : s.Through x P) (hP : s.Through P L) : s.Through x L := by
  obtain rfl | ⟨z, hz⟩ := hP
  · exact hx
  · exact (hs.entry hh hL hz).2 x hx

/-- A layer whose parent has another child in its place, or none, is nobody's child. -/
theorem Heap.severed (hh : s.Heap) {path : List (LayerRef × LayerId)}
    (hpath : (s.layers x).path = (P, y) :: path) (h : (s.layers P).children y ≠ some x) :
    s.Severed x := by
  intro Q hQ z hz
  obtain ⟨rfl, rfl⟩ := Prod.mk.inj (List.cons.inj ((hh.child Q z x hQ hz).2.2.symm.trans hpath)).1
  exact h hz

/-- What the shared pointers do not lead to is lost. -/
theorem Rooted.lost_of_not_reached (hs : s.Rooted) (hh : s.Heap) {held : Option LayerRef}
    (hL : L < s.nextLayer) (h : s.reached held L (s.layers L).path = false) : s.Lost L := by
  induction L using Nat.strong_induction_on with
  | _ L ih =>
    obtain rfl | hpos := Nat.eq_zero_or_pos L
    · rw [hh.base.2.1] at h
      cases h
    obtain ⟨P, y, hP, hpath⟩ := hs L hpos hL
    rw [hpath, reached, Bool.or_eq_false_iff, Bool.and_eq_false_iff] at h
    obtain hchild | hup := h.2
    · exact ⟨L, hpos, Or.inl rfl, hh.severed hpath (of_decide_eq_false hchild)⟩
    · obtain ⟨x, hx, hthrough, hsev⟩ := ih P hP (Nat.lt_trans hP hL) hup
      exact ⟨x, hx, (through_child hpath).mpr (Or.inr hthrough), hsev⟩

/-! ## Only `DoChildDown` takes a child out -/

/-- The tree and the watchdogs at work are as before, or some of these are over. -/
structure Stays (s s' : FalconClient) : Prop where
  children : ∀ L, (s'.layers L).children = (s.layers L).children
  watchdogs : ∀ w ∈ s'.watchdogs, w ∈ s.watchdogs

theorem Stays.trans {s₁ : FalconClient} (h : Stays s s₁) (h' : Stays s₁ s') : Stays s s' :=
  ⟨fun L => (h'.children L).trans (h.children L), fun w hw => h.watchdogs w (h'.watchdogs w hw)⟩

theorem Stays.refl (s : FalconClient) : Stays s s := ⟨fun _ => rfl, fun _ hw => hw⟩

theorem Same.stays (h : Same s s') : Stays s s' := ⟨h.children, fun _ hw => h.watchdogs ▸ hw⟩

theorem stays_receivedUp (arg : ClientUpArg) : Stays s (s.receive (.up arg)) := by
  unfold receive receivedUp
  dsimp only
  split
  · exact .refl s
  · exact (same_doChildUp _).stays

theorem stays_killChild {reply : Reply} {r : ℤ} (h : s.killChild L y reply = some (s', r)) :
    Stays s s' := by
  obtain hsame | ⟨tgt, hsame⟩ := killChild_effect h
  · exact hsame.stays
  · exact ⟨hsame.stays.children, hsame.stays.watchdogs⟩

theorem stays_cancelChild {reply : Reply} (h : s.cancelChild L y reply = some s') :
    Stays s s' := by
  have hcount := countLeaf_proj (s := s) (L := L) (x := y) (d := -1) FalconLayer.children
    (fun _ _ => rfl)
  obtain ⟨-, rfl⟩ | ⟨-, ⟨-, rfl⟩ | ⟨-, arg, -, rfl⟩⟩ := cancelChild_effect h
  · exact .refl _
  · exact ⟨hcount, fun _ hw => hw⟩
  · exact ⟨hcount, fun _ hw => hw⟩

theorem stays_cancelPath (path : List (LayerRef × LayerId)) :
    ∀ (replies : ℕ → Reply) (s : FalconClient), s.cancelPath path replies = some s' →
      Stays s s' := by
  induction path with
  | nil =>
    intro _ s h
    rw [← Option.some.inj h]
    exact .refl s
  | cons e path ih =>
    intro replies s h
    obtain ⟨s₁, h₁, h⟩ := Option.bind_eq_some_iff.mp h
    refine Stays.trans ?_ (ih _ s₁ h)
    split at h₁
    · exact stays_cancelChild h₁
    · rw [← Option.some.inj h₁]
      exact .refl s

/-- Only the builder and the reports of a death change the tree, and only the builder starts
watchdogs. -/
theorem stays_step {e : Event} (he : e.isStart = false) (hdown : ∀ arg, e ≠ .report (.down arg))
    (h : s.step e = some s') : Stays s s' := by
  cases e with
  | start _ _ _ => cases he
  | report m =>
    cases m with
    | up arg => exact Option.some.inj h ▸ stays_receivedUp arg
    | down arg => exact (hdown arg rfl).elim
  | kill leaf L z reply =>
    simp only [step] at h
    split at h
    · obtain ⟨⟨s₁, r⟩, hkill, rfl⟩ := Option.map_eq_some_iff.mp h
      exact stays_killChild hkill
    · cases h
  | cancelPass leaf replies =>
    simp only [step] at h
    split at h
    · have hpath := stays_cancelPath _ _ _ h
      exact ⟨hpath.children, fun w hw => List.mem_of_mem_erase (hpath.watchdogs w hw)⟩
    · cases h
  | startTimer leaf cb =>
    simp only [step] at h
    split at h
    · exact Option.some.inj h ▸ (same_startTimer cb).stays
    · cases h
  | setCallback cb f => exact Option.some.inj h ▸ (same_useCallback cb _).stays
  | removeCallback cb => exact Option.some.inj h ▸ (same_useCallback cb _).stays

/-- A report of a death takes out the child that is dead, if it is accepted. -/
theorem child_receivedDown (arg : ClientDownArg) (hx : (s.layers P).children y = some x) :
    ((s.receive (.down arg)).layers P).children y = some x ∨ s.Accepts arg x := by
  unfold receive receivedDown
  dsimp only
  cases hL : s.getLayer arg.clientTag with
  | none => exact Or.inl hx
  | some L =>
    dsimp only
    cases hc : (s.layers L).children arg.handle with
    | none => exact Or.inl (by rw [doChildDown_none hc, hx])
    | some c =>
      by_cases hgen : genEq (s.layers c).gen arg.generation = true
      · by_cases hcx : c = x
        · subst hcx
          exact Or.inr ⟨L, hL, hc, hgen⟩
        · refine Or.inl ?_
          by_cases hPL : P = L
          · subst hPL
            rw [doChildDown_children hc hgen, Function.update_of_ne, hx]
            rintro rfl
            exact hcx (Option.some.inj (hc.symm.trans hx))
          · simp only [doChildDown, hc, hgen, if_true, destroy, eraseChild]
            rw [modify_of_ne hPL, (same_runCallbacks ..).children, hx]
      · refine Or.inl ?_
        simp only [doChildDown, hc, hgen]
        exact hx

/-- **A child stays**, unless a report of its death is accepted. -/
theorem child_step {e : Event} (he : e.isStart = false) (h : s.step e = some s')
    (hx : (s.layers P).children y = some x) :
    (s'.layers P).children y = some x ∨ ∃ arg, e = .report (.down arg) ∧ s.Accepts arg x := by
  by_cases hdown : ∃ arg, e = .report (.down arg)
  · obtain ⟨arg, rfl⟩ := hdown
    obtain rfl := Option.some.inj h
    exact (child_receivedDown arg hx).imp id fun hacc => ⟨arg, rfl, hacc⟩
  · have hstays := stays_step he (fun arg heq => hdown ⟨arg, heq⟩) h
    exact Or.inl ((congrFun (hstays.children P) y).trans hx)

/-! ## What the builder makes -/

section Install

variable {a : AddChildArg} {g : List GenNo}

theorem rooted_install (hs : s.Rooted) (hL : L < s.nextLayer) : (s.install L a g).Rooted := by
  have hold : ∀ Q < s.nextLayer, ((s.install L a g).layers Q).path = (s.layers Q).path :=
    fun Q hQ => install_proj FalconLayer.path (fun _ _ _ => rfl) hL hQ
  intro Q hpos hlt
  obtain hlt | rfl := Nat.lt_succ_iff_lt_or_eq.mp hlt
  · obtain ⟨P, y, hP, h⟩ := hs Q hpos hlt
    exact ⟨P, y, hP, by rw [hold Q hlt, hold P (Nat.lt_trans hP hlt), h]⟩
  · refine ⟨L, a.child, hL, ?_⟩
    rw [install_new hL, hold L hL]
    rfl

theorem install_keeps_child (hL : L < s.nextLayer) (hc : (s.layers L).children a.child = none)
    (hP : P < s.nextLayer) (hx : (s.layers P).children y = some x) :
    ((s.install L a g).layers P).children y = some x := by
  by_cases hPL : P = L
  · subst hPL
    rw [install_children hL, Function.update_of_ne, hx]
    rintro rfl
    rw [hc] at hx
    cases hx
  · rw [install_layers hL, if_neg (Nat.ne_of_lt hP), if_neg hPL, hx]

/-- The new layer is a child of the one it was made at. -/
theorem install_enters (hL : L < s.nextLayer) :
    ((s.install L a g).layers L).children a.child = some s.nextLayer := by
  rw [install_children hL, Function.update_self]

end Install

/-- **What a round of the loop makes**: children stay, a new layer is a child, and what dies is
lost. -/
structure Grows (s s' : FalconClient) : Prop where
  rooted : s'.Rooted
  nextLayer : s.nextLayer ≤ s'.nextLayer
  path : ∀ L < s.nextLayer, (s'.layers L).path = (s.layers L).path
  keeps : ∀ P < s.nextLayer, ∀ y x, (s.layers P).children y = some x →
    (s'.layers P).children y = some x
  enters : ∀ x, s.nextLayer ≤ x → x < s'.nextLayer →
    ∃ P < s'.nextLayer, ∃ y, (s'.layers P).children y = some x
  dead : ∀ L < s'.nextLayer, s'.live L = false →
    L < s.nextLayer ∧ s.live L = false ∨ s'.Lost L

/-- Where neither layers nor what is alive change. -/
theorem Grows.of_kept (h : Kept s s') (hs : s.Rooted) (hlive : s'.live = s.live)
    (hc : ∀ P, (s'.layers P).children = (s.layers P).children) : Grows s s' where
  rooted := hs.of_path h.nextLayer (h.proj FalconLayer.path fun _ => rfl)
  nextLayer := Nat.le_of_eq h.nextLayer.symm
  path L _ := h.proj FalconLayer.path (fun _ => rfl) L
  keeps P _ _ _ hx := hc P ▸ hx
  enters _ hx hlt := absurd (h.nextLayer ▸ hlt) (Nat.not_lt.mpr hx)
  dead _ hlt hdead := Or.inl ⟨h.nextLayer ▸ hlt, hlive ▸ hdead⟩

/-- What is let go is lost. -/
theorem Grows.collect (h : Grows s s') (hh : s'.Heap) (held : Option LayerRef) :
    Grows s (s'.collect s'.live held) where
  rooted := h.rooted.of_path rfl fun _ => rfl
  nextLayer := h.nextLayer
  path := h.path
  keeps := h.keeps
  enters := h.enters
  dead L hlt hdead := by
    cases hlive : s'.live L with
    | false => exact h.dead L hlt hlive
    | true =>
      have hdead' : (s'.live L && s'.reached held L (s'.layers L).path) = false := hdead
      rw [hlive, Bool.true_and] at hdead'
      exact Or.inr (h.rooted.lost_of_not_reached hh hlt hdead')

theorem AddChildEffect.grows {a : AddChildArg} {ans : AddChildAnswers} {ret : Option LayerRef}
    (h : AddChildEffect L a ans s s' ret) (hs : s.Rooted) (hL : L < s.nextLayer) :
    Grows s s' := by
  have hnew {s₁ : FalconClient} {g : List GenNo} (hs₁ : s₁.Rooted)
      (hnext : s₁.nextLayer = s.nextLayer) (hlayers : s₁.layers = s.layers)
      (hlive : s₁.live = s.live) (hc : (s.layers L).children a.child = none) :
      Grows s (s₁.install L a g) := by
    have hL₁ : L < s₁.nextLayer := hnext ▸ hL
    refine ⟨rooted_install hs₁ hL₁, ?_, fun L' hL' => ?_, fun P hP y x hx => ?_,
      fun x hx hlt => ?_, fun L' hlt hdead => Or.inl ?_⟩
    · exact hnext ▸ Nat.le_succ _
    · rw [install_proj FalconLayer.path (fun _ _ _ => rfl) hL₁ (hnext ▸ hL'), hlayers]
    · exact install_keeps_child hL₁ (hlayers ▸ hc) (hnext ▸ hP) (hlayers ▸ hx)
    · obtain rfl : x = s₁.nextLayer := Nat.le_antisymm (Nat.le_of_lt_succ hlt) (hnext ▸ hx)
      exact ⟨L, Nat.lt_succ_of_lt hL₁, a.child, install_enters hL₁⟩
    · obtain ⟨hne, hold⟩ := not_or.mp (live_install.not.mp (Bool.not_eq_true _ ▸ hdead))
      exact ⟨hnext ▸ Nat.lt_of_le_of_ne (Nat.le_of_lt_succ hlt) hne,
        hlive ▸ Bool.not_eq_true _ ▸ hold⟩
  cases h with
  | @found c hc =>
    exact .of_kept (kept_addCallback c a.cb) hs rfl (same_addCallback a.cb).children
  | atBase hc _ _ => exact hnew hs rfl rfl rfl hc
  | @registered gen hc _ _ _ => exact hnew (hs.of_path rfl fun _ => rfl) rfl rfl rfl hc
  | @refused l _ _ _ => exact .of_kept (.of_layers rfl rfl) hs rfl fun _ => rfl

theorem hop_grows {req : StartRequest} {cb : CallbackRef} {rest : List LayerId}
    {ans : AddChildAnswers} {ret : Option LayerRef}
    (h : s.hop req cb y rest ans L = some (s', ret)) (hs : s.Rooted) (hh : s.Heap) (ha : s.Alive)
    (hL : s.live L = true) : Grows s s' := by
  obtain ⟨s₁, hadd₁, hcase⟩ := hop_cases h
  have hheap := ((addChild_effect hadd₁).sound (hh.of_kept kept_nextLayerId)
    (ha.of_kept kept_nextLayerId rfl) hL).1
  have hrooted : s.nextLayerId.Rooted := hs.of_path rfl fun _ => rfl
  have hgrows : Grows s s₁ := { (addChild_effect hadd₁).grows hrooted (ha.alloc L hL) with }
  obtain ⟨-, rfl⟩ | ⟨c, -, ⟨-, rfl⟩ | ⟨-, hadd⟩⟩ := hcase
  · exact hgrows.collect hheap none
  · exact hgrows.collect hheap (some c)
  · obtain ⟨-, rfl⟩ := addLayer_eq hadd
    exact { hgrows.collect hheap (some c) with }

end FalconClient

namespace Library

open FalconClient (Grows Meanwhile AddChildAnswers)

variable {t t' : Library} {e : Event} {cb : CallbackRef} {L x : LayerRef}

/-- **What is off the tree has told its callbacks**, and what is not alive is off the tree. -/
structure Told (t : Library) : Prop where
  covered : t.Covered
  rooted : t.client.Rooted
  fallen : ∀ x, 0 < x → x < t.client.nextLayer → t.client.Severed x → t.Fallen x
  dead : ∀ L < t.client.nextLayer, t.client.live L = false → t.client.Lost L

theorem told_init (addr : ClientAddr) : (init addr).Told where
  covered := covered_init addr
  rooted := FalconClient.rooted_init addr
  fallen _ hpos hlt _ := absurd hlt (Nat.not_lt.mpr hpos)
  dead L hlt hdead := by
    obtain rfl := Nat.lt_one_iff.mp hlt
    cases hdead

/-- The callbacks that have come to a lost layer have had their final event. -/
theorem Told.final (ht : t.Told) (hlost : t.client.Lost L) (hs : t.Serves cb L) :
    (t.client.callbacks cb).runFinal = true := by
  obtain ⟨x, hpos, hthrough, hsev⟩ := hlost
  have hlt : x < t.client.nextLayer :=
    ht.rooted.through_lt ht.covered.sound.heap (ht.covered.serves cb L hs).2 hthrough
  exact (ht.fallen x hpos hlt hsev).final cb L hs hthrough

/-- What a step of a library does to the tree. -/
structure Turns (t : Library) (e : Event) (t' : Library) : Prop where
  rooted : t'.client.Rooted
  nextLayer : t.client.nextLayer ≤ t'.client.nextLayer
  path : ∀ L < t.client.nextLayer, (t'.client.layers L).path = (t.client.layers L).path
  keeps : ∀ P < t.client.nextLayer, ∀ y x, (t.client.layers P).children y = some x →
    (t'.client.layers P).children y = some x ∨ ∃ arg, e = down arg ∧ t.client.Accepts arg x
  enters : ∀ x, t.client.nextLayer ≤ x → x < t'.client.nextLayer →
    ∃ P < t'.client.nextLayer, ∃ y, (t'.client.layers P).children y = some x
  dead : ∀ L < t'.client.nextLayer, t'.client.live L = false →
    L < t.client.nextLayer ∧ t.client.live L = false ∨ t'.client.Lost L

theorem Turns.of_grows (h : Grows t.client t'.client) : Turns t e t' :=
  { h with keeps := fun P hP y x hx => Or.inl (h.keeps P hP y x hx) }

theorem turns_step (ht : t.Covered) (hs : t.client.Rooted) (h : step t e = some t') :
    Turns t e t' := by
  have hheap := ht.sound.heap
  have hhop {j : Job} {y : LayerId} {rest : List LayerId} {ans : AddChildAnswers}
      {ret : Option LayerRef} {s : FalconClient} (hjob : t.job = some j)
      (hhop : t.client.hop j.req j.cb y rest ans j.curr = some (s, ret)) : Grows t.client s :=
    FalconClient.hop_grows hhop hs hheap ht.sound.alive (ht.sound.curr j hjob)
  cases step_effect h with
  | take _ => exact .of_grows (.of_kept (.of_layers rfl rfl) hs rfl fun _ => rfl)
  | @refused ans junk y rest j s hjob hids hrun =>
    exact .of_grows { hhop hjob hrun with }
  | moved hjob hids hrun => exact .of_grows (hhop hjob hrun)
  | @complete j hjob hids =>
    have hnote : Grows t.client (t.client.note (.completed j.cb j.curr)) :=
      .of_kept (.of_layers rfl rfl) hs rfl fun _ => rfl
    exact .of_grows (hnote.collect (hheap.of_kept (.of_layers rfl rfl)) none)
  | @other e s he hstep =>
    have hmean := FalconClient.meanwhile_step he hstep
    have hpath := hmean.proj FalconLayer.path fun _ => rfl
    have hrooted : s.Rooted := hs.of_path hmean.nextLayer hpath
    refine ⟨hrooted.of_path rfl fun _ => rfl, Nat.le_of_eq hmean.nextLayer.symm,
      fun L _ => hpath L, fun P _ y x hx => ?_, fun x hx hlt => ?_, fun L hlt hdead => ?_⟩
    · refine (FalconClient.child_step he hstep hx).imp id ?_
      rintro ⟨arg, rfl, hacc⟩
      exact ⟨arg, rfl, hacc⟩
    · exact absurd (hmean.nextLayer ▸ hlt) (Nat.not_lt.mpr hx)
    · have hdead' : (t.client.live L && s.reached (t.job.map Job.curr) L (s.layers L).path) =
        false := hdead
      obtain hdead' | hdead' := Bool.and_eq_false_iff.mp hdead'
      · exact Or.inl ⟨hmean.nextLayer ▸ hlt, hdead'⟩
      · exact Or.inr (hrooted.lost_of_not_reached (hheap.of_kept hmean.toKept) hlt hdead')

/-- What is lost stays lost. -/
theorem lost_step (ht : t.Told) (h : step t e = some t') (hL : L < t.client.nextLayer)
    (hlost : t.client.Lost L) : t'.client.Lost L := by
  obtain ⟨x, hpos, hthrough, hsev⟩ := hlost
  have hlt := ht.rooted.through_lt ht.covered.sound.heap hL hthrough
  refine ⟨x, hpos, ?_, fun P hP z hz => ?_⟩
  · exact (FalconClient.through_iff ((turns_step ht.covered ht.rooted h).path L hL)).mpr hthrough
  · obtain ⟨hP', hz'⟩ := (goes_step ht.covered h).children P hP z x hz hlt
    exact hsev P hP' z hz'

theorem told_step (ht : t.Told) (h : step t e = some t') : t'.Told := by
  have hturns := turns_step ht.covered ht.rooted h
  refine ⟨covered_step ht.covered h, hturns.rooted, fun x hpos hlt hsev => ?_,
    fun L hlt hdead => ?_⟩
  · by_cases hx : x < t.client.nextLayer
    · by_cases hold : t.client.Severed x
      · exact fallen_step (ht.fallen x hpos hx hold) h
      · -- it was a child: only a report of its death has taken it out
        simp only [FalconClient.Severed, not_forall, not_not] at hold
        obtain ⟨P, hP, z, hz⟩ := hold
        obtain hz' | ⟨arg, rfl, hacc⟩ := hturns.keeps P hP z x hz
        · exact (hsev P (Nat.lt_of_lt_of_le hP hturns.nextLayer) z hz').elim
        · exact (down_reaches ht.covered hacc h).1
    · obtain ⟨P, hP, z, hz⟩ := hturns.enters x (Nat.not_lt.mp hx) hlt
      exact (hsev P hP z hz).elim
  · obtain ⟨hL, hold⟩ | hlost := hturns.dead L hlt hdead
    · exact lost_step ht h hL (ht.dead L hL hold)
    · exact hlost

end Library

end Falcon.Client
