import Falcon.Client.Builder
import Falcon.Machinery.Run

/-!
# Client/Roles — layers that can do what they are used for

A layer is made for a role: a leaf gets a watchdog, any other layer an RPC client and, by its tag, a
place in the catalogue.  `AddChild` gives back a child that is there already whatever role the
request has for it, so that a request can go on at a leaf or end in a layer without a watchdog; a
request without ids ends in the base layer.

* `inRole_step` — apart from that, every layer can play its role.
* `unfit_next` — a request that finds a layer of the wrong role goes wrong at the builder's next
  step.
-/

namespace Falcon.Client

namespace FalconClient

variable {s s' : FalconClient} {L c : LayerRef} {x : LayerId}

/-- The layers `A` that are not leaves are in the catalogue under their own tags. -/
def Tagged (A : LayerRef → Prop) (s : FalconClient) : Prop :=
  ∀ L, A L → 0 < L → (s.layers L).watchdog = false →
    s.layerMap (s.layers L).addr.clientTag = some L

variable {A A' : LayerRef → Prop}

theorem tagged_init (addr : ClientAddr) (hA : ∀ L, A L → L < (init addr).nextLayer) :
    (init addr).Tagged A := fun L hL hpos =>
  absurd (hA L hL) (Nat.not_lt.mpr hpos)

theorem Tagged.of_kept (hs : s.Tagged A) (h : Kept s s') (hmap : s'.layerMap = s.layerMap)
    (hA : ∀ L, A' L → A L) : s'.Tagged A' := by
  intro L hL hpos hdog
  rw [hmap, h.proj FalconLayer.addr fun _ => rfl]
  exact hs L (hA L hL) hpos ((h.proj FalconLayer.watchdog (fun _ => rfl) L).symm.trans hdog)

/-- Entering a new child leaves the others tagged. -/
theorem tagged_install {a : AddChildArg} {g : List GenNo} {L' : LayerRef} (hs : s.Tagged A)
    (hA : ∀ L, A L → L < s.nextLayer) (hL : L < s.nextLayer) (hL' : A L' ∨ L' = s.nextLayer)
    (hpos : 0 < L') (hdog : ((s.install L a g).layers L').watchdog = false) :
    s.layerMap ((s.install L a g).layers L').addr.clientTag = some L' ∨
      L' = s.nextLayer ∧ ((s.install L a g).layers L').addr = a.addr ∧ a.leafLayer = false := by
  obtain hold | rfl := hL'
  · rw [install_proj FalconLayer.watchdog (fun _ _ _ => rfl) hL (hA L' hold)] at hdog
    rw [install_proj FalconLayer.addr (fun _ _ _ => rfl) hL (hA L' hold)]
    exact Or.inl (hs L' hold hpos hdog)
  · rw [install_new hL] at hdog ⊢
    exact Or.inr ⟨rfl, rfl, hdog⟩

/-- `AddChild` makes at most one layer. -/
theorem AddChildEffect.nextLayer {a : AddChildArg} {ans : AddChildAnswers} {ret : Option LayerRef}
    (h : AddChildEffect L a ans s s' ret) :
    (s'.nextLayer = s.nextLayer ∧ s'.live = s.live) ∨
      s'.nextLayer = s.nextLayer + 1 ∧ s'.live = Function.update s.live s.nextLayer true := by
  cases h with
  | found _ => exact Or.inl ⟨rfl, rfl⟩
  | refused _ _ _ => exact Or.inl ⟨rfl, rfl⟩
  | atBase _ _ _ => exact Or.inr ⟨rfl, rfl⟩
  | registered _ _ _ _ => exact Or.inr ⟨rfl, rfl⟩

/-- After `AddChild` only a new layer may be missing from the catalogue, and not as a leaf. -/
theorem AddChildEffect.tagged {a : AddChildArg} {ans : AddChildAnswers} {ret : Option LayerRef}
    {L' : LayerRef} (h : AddChildEffect L a ans s s' ret) (hs : s.Tagged A)
    (hA : ∀ L, A L → L < s.nextLayer) (hL : L < s.nextLayer)
    (hL' : A L' ∨ s'.nextLayer = s.nextLayer + 1 ∧ L' = s.nextLayer) (hpos : 0 < L')
    (hdog : (s'.layers L').watchdog = false) :
    s'.layerMap (s'.layers L').addr.clientTag = some L' ∨
      ret = some L' ∧ (s'.layers L').addr = a.addr ∧ a.leafLayer = false := by
  have hkept : s'.nextLayer = s.nextLayer → A L' := fun h =>
    hL'.elim id fun h' => absurd (h.symm.trans h'.1) (Nat.ne_of_lt (Nat.lt_succ_self _))
  cases h with
  | @found c _ =>
    exact Or.inl (hs.of_kept (kept_addCallback c a.cb) rfl (fun _ h => h) L' (hkept rfl) hpos hdog)
  | atBase _ _ _ =>
    obtain h | ⟨rfl, haddr⟩ := tagged_install hs hA hL (hL'.imp id And.right) hpos hdog
    · exact Or.inl h
    · exact Or.inr ⟨rfl, haddr⟩
  | @registered gen _ _ _ _ =>
    obtain h | ⟨rfl, haddr⟩ := tagged_install (s := s.asked L a gen ans) hs hA hL
      (hL'.imp id And.right) hpos hdog
    · exact Or.inl h
    · exact Or.inr ⟨rfl, haddr⟩
  | @refused l _ _ _ =>
    have hlog : Kept s { s with log := l ++ s.log } := .of_layers rfl rfl
    exact Or.inl (hs.of_kept hlog rfl (fun _ h => h) L' (hkept rfl) hpos hdog)

section Hop

variable {req : StartRequest} {cb : CallbackRef} {rest : List LayerId} {ans : AddChildAnswers}
  {ret : Option LayerRef}

/-- A round of the loop makes at most one layer. -/
theorem hop_nextLayer (h : s.hop req cb x rest ans L = some (s', ret)) :
    (s'.nextLayer = s.nextLayer ∧ ∀ L', s'.live L' = true → s.live L' = true) ∨
      s'.nextLayer = s.nextLayer + 1 ∧
        ∀ L', s'.live L' = true → s.live L' = true ∨ L' = s.nextLayer := by
  obtain ⟨s₁, hadd₁, hcase⟩ := hop_cases h
  have hs' : s'.nextLayer = s₁.nextLayer ∧ ∀ L', s'.live L' = true → s₁.live L' = true := by
    obtain ⟨-, rfl⟩ | ⟨c, -, ⟨-, rfl⟩ | ⟨-, hadd⟩⟩ := hcase
    · exact ⟨rfl, fun L' h => (live_collect.mp h).1⟩
    · exact ⟨rfl, fun L' h => (live_collect.mp h).1⟩
    · obtain ⟨-, rfl⟩ := addLayer_eq hadd
      exact ⟨rfl, fun L' h => (live_collect.mp h).1⟩
  rw [hs'.1]
  obtain ⟨hnext, hlive⟩ | ⟨hnext, hlive⟩ := (addChild_effect hadd₁).nextLayer
  · exact Or.inl ⟨hnext, fun L' h => by have := hs'.2 L' h; rwa [hlive] at this⟩
  · refine Or.inr ⟨hnext, fun L' h => ?_⟩
    have := hs'.2 L' h
    rw [hlive] at this
    by_cases hn : L' = s.nextLayerId.nextLayer
    · exact Or.inr hn
    · rw [Function.update_of_ne hn] at this
      exact Or.inl this

/-- The `CHECK` of a round that goes on: nothing alive has the tag that was drawn. -/
theorem hop_free (h : s.hop req cb x rest ans L = some (s', ret)) (hrest : rest ≠ [])
    (hret : ret ≠ none) (L' : LayerRef) (hL' : s'.live L' = true) :
    s.layerMap (s.layerIdCounter + 1) ≠ some L' := by
  obtain ⟨s₁, hadd₁, ⟨h, -⟩ | ⟨c, -, ⟨h, -⟩ | ⟨-, hadd⟩⟩⟩ := hop_cases h
  · exact absurd h hret
  · exact absurd h hrest
  · obtain ⟨hfree, rfl⟩ := addLayer_eq hadd
    have hmap : s₁.layerMap = s.layerMap := by cases addChild_effect hadd₁ <;> rfl
    rw [← hmap]
    exact fun h => Bool.false_ne_true ((hfree L' h).symm.trans hL')

/-- A round of the loop keeps the catalogue, if the tag it draws is not one of the old entries. -/
theorem hop_tagged (h : s.hop req cb x rest ans L = some (s', ret)) (hs : s.Tagged A)
    (hA : ∀ L, A L → L < s.nextLayer) (hL : L < s.nextLayer)
    (hA' : ∀ L', A' L' → A L' ∨ s'.nextLayer = s.nextLayer + 1 ∧ L' = s.nextLayer)
    (hfree : rest ≠ [] → ret ≠ none → ∀ L', A' L' → s.layerMap (s.layerIdCounter + 1) ≠ some L') :
    s'.Tagged A' := by
  obtain ⟨s₁, hadd₁, hcase⟩ := hop_cases h
  have heff := addChild_effect hadd₁
  have hs₀ : s.nextLayerId.Tagged A := hs.of_kept kept_nextLayerId rfl fun _ h => h
  have hmap : s₁.layerMap = s.layerMap := by cases heff <;> rfl
  have htag : s'.nextLayer = s₁.nextLayer → ∀ L', A' L' → 0 < L' →
      (s₁.layers L').watchdog = false →
      s₁.layerMap (s₁.layers L').addr.clientTag = some L' ∨
        ret = some L' ∧ (s₁.layers L').addr.clientTag = s.layerIdCounter + 1 ∧
          rest.isEmpty = false := by
    intro hnext L' hL' hpos hdog
    refine (heff.tagged hs₀ hA hL ?_ hpos hdog).imp id fun ⟨hret, haddr, hleaf⟩ =>
      ⟨hret, congrArg ClientAddr.clientTag haddr, hleaf⟩
    rw [← hnext]
    exact hA' L' hL'
  obtain ⟨rfl, rfl⟩ | ⟨c, rfl, ⟨rfl, rfl⟩ | ⟨hrest, hadd⟩⟩ := hcase
  · intro L' hL' hpos hdog
    obtain h | ⟨h, -⟩ := htag rfl L' hL' hpos hdog
    · exact h
    · cases h
  · intro L' hL' hpos hdog
    obtain h | ⟨-, -, h⟩ := htag rfl L' hL' hpos hdog
    · exact h
    · cases h
  · obtain ⟨-, rfl⟩ := addLayer_eq hadd
    intro L' hL' hpos hdog
    change Function.update s₁.layerMap (s.layerIdCounter + 1) (some c)
      (s₁.layers L').addr.clientTag = some L'
    obtain h | ⟨h, haddr, -⟩ := htag rfl L' hL' hpos hdog
    · rw [Function.update_of_ne fun heq => hfree hrest (Option.some_ne_none c) L' hL'
        (by rw [← hmap, ← heq]; exact h)]
      exact h
    · obtain rfl := Option.some.inj h
      rw [haddr]
      exact Function.update_self ..

/-- The layer a round of the loop comes to was there, or is made for its role. -/
theorem hop_role (h : s.hop req cb x rest ans L = some (s', some c)) (ha : s.Alive)
    (hL : s.live L = true) :
    (∃ c', (s.layers L).children x = some c' ∧ c = c' ∧
        (s'.layers c).watchdog = (s.layers c).watchdog) ∨
      (s.layers L).children x = none ∧ (s'.layers c).watchdog = rest.isEmpty := by
  obtain ⟨s₁, hadd₁, hcase⟩ := hop_cases h
  have hlayers : s'.layers = s₁.layers := by
    obtain ⟨h, -⟩ | ⟨c, -, ⟨-, rfl⟩ | ⟨-, hadd⟩⟩ := hcase
    · cases h
    · rfl
    · rw [(addLayer_eq hadd).2]
      rfl
  have hlt : L < s.nextLayerId.nextLayer := ha.alloc L hL
  rw [hlayers]
  cases addChild_effect hadd₁ with
  | found hc =>
    exact Or.inl ⟨c, hc, rfl, (kept_addCallback c cb).proj FalconLayer.watchdog (fun _ => rfl) c⟩
  | atBase hc _ _ =>
    refine Or.inr ⟨hc, ?_⟩
    rw [install_new hlt]
    rfl
  | @registered gen hc _ _ _ =>
    exact Or.inr ⟨hc, congrArg FalconLayer.watchdog
      (install_new (s := s.nextLayerId.asked L _ gen ans) hlt)⟩

end Hop

end FalconClient

namespace Library

open FalconClient (AddChildAnswers agrees)

variable {t t' : Library} {e : Event}

/-- **The layers play their roles** for the builder: `AddChild` is called on the base, or on a layer
with an RPC client that is routed to; and a target is a layer with a watchdog. -/
structure Plays (t : Library) (e : Event) : Prop where
  asked : ∀ ans junk j, e = .hop ans junk → t.job = some j → j.ids ≠ [] →
    (t.client.layers j.curr).baseLayer = false →
    (t.client.layers j.curr).clnt = true ∧
      t.client.getLayer (t.client.layers j.curr).addr.clientTag = some j.curr
  handed : ∀ j, e = .complete → t.job = some j → j.ids = [] →
    (t.client.layers j.curr).watchdog = true

/-- A request has ids, and the children it finds have been made for the role it has for them. -/
def Fits (t : Library) : Event → Prop
  | .take req => req.idlist ≠ []
  | .hop _ _ => ∀ j ∈ t.job, ∀ x ∈ j.ids.head?, ∀ c ∈ (t.client.layers j.curr).children x,
    (t.client.layers c).watchdog = j.ids.tail.isEmpty
  | _ => True

instance (t : Library) : ∀ e, Decidable (t.Fits e)
  | .take req => inferInstanceAs (Decidable (req.idlist ≠ []))
  | .hop _ _ => inferInstanceAs (Decidable (∀ j ∈ t.job, ∀ x ∈ j.ids.head?,
    ∀ c ∈ (t.client.layers j.curr).children x,
    (t.client.layers c).watchdog = j.ids.tail.isEmpty))
  | .complete => isTrue trivial
  | .other _ => isTrue trivial

/-- The builder's layer can do what comes next. -/
structure InRole (t : Library) : Prop where
  sound : t.Sound
  tagged : t.client.Tagged (t.client.live · = true)
  more : ∀ j, t.job = some j → j.ids ≠ [] → 0 < j.curr →
    (t.client.layers j.curr).watchdog = false
  last : ∀ j, t.job = some j → j.ids = [] → (t.client.layers j.curr).watchdog = true

theorem inRole_init (addr : ClientAddr) : (init addr).InRole where
  sound := sound_init addr
  tagged := FalconClient.tagged_init addr (FalconClient.alive_init addr).alloc
  more _ h := by cases h
  last _ h := by cases h

theorem InRole.plays (hs : t.InRole) (e : Event) : t.Plays e := by
  refine ⟨fun ans junk j _ hjob hids hbase => ?_, fun j _ hjob hids => hs.last j hjob hids⟩
  have hlive := hs.sound.curr j hjob
  have hpos : 0 < j.curr := Nat.pos_of_ne_zero fun h => by
    rw [h, hs.sound.heap.base.2.2.1] at hbase
    cases hbase
  have hdog := hs.more j hjob hids hpos
  constructor
  · rw [(hs.sound.heap.made j.curr hpos (hs.sound.alive.alloc _ hlive)).2, hdog]
    rfl
  · exact Option.filter_eq_some_iff.mpr ⟨hs.tagged j.curr hlive hpos hdog, hlive⟩

/-- A round of the loop takes no tag away from a layer that is alive. -/
theorem tagged_hop {x : LayerId} {rest : List LayerId} {ans : AddChildAnswers} {j : Job}
    {s : FalconClient} {ret : Option LayerRef} (hs : t.InRole) (hjob : t.job = some j)
    (hhop : t.client.hop j.req j.cb x rest ans j.curr = some (s, ret)) :
    s.Tagged (s.live · = true) := by
  have halloc := hs.sound.alive.alloc
  refine FalconClient.hop_tagged hhop hs.tagged halloc (halloc _ (hs.sound.curr j hjob)) ?_
    fun hrest hret => FalconClient.hop_free hhop hrest hret
  obtain ⟨-, hlive⟩ | ⟨hnext, hlive⟩ := FalconClient.hop_nextLayer hhop
  · exact fun L' hL' => Or.inl (hlive L' hL')
  · exact fun L' hL' => (hlive L' hL').imp id fun h => ⟨hnext, h⟩

/-- **A step of a request that fits** keeps the builder's layer in its role. -/
theorem inRole_step (hs : t.InRole) (h : step t e = some t') (hfit : t.Fits e) : t'.InRole := by
  have hsound := sound_step hs.sound h
  cases step_effect h with
  | @take req hjob =>
    refine ⟨hsound, hs.tagged.of_kept (.of_layers rfl rfl) rfl fun _ h => h, fun j hj _ hpos => ?_,
      fun j hj hids => ?_⟩
    · obtain rfl := Option.some.inj hj
      exact absurd hpos (Nat.lt_irrefl 0)
    · obtain rfl := Option.some.inj hj
      exact absurd (List.reverse_eq_nil_iff.mp hids) hfit
  | @refused _ junk x rest j s hjob hids hhop =>
    have htagged := tagged_hop hs hjob hhop
    exact ⟨hsound, htagged.of_kept (FalconClient.meanwhile_runCallback ..).toKept rfl fun _ h => h,
      fun _ hj => (by cases hj), fun _ hj => (by cases hj)⟩
  | @moved _ _ x rest j s c hjob hids hhop =>
    have hlive := hs.sound.curr j hjob
    have hrole : (s.layers c).watchdog = rest.isEmpty := by
      obtain ⟨c', hc, rfl, hdog⟩ | ⟨-, hdog⟩ :=
        FalconClient.hop_role hhop hs.sound.alive hlive
      · have := hfit j hjob x (by rw [hids]; rfl) c hc
        rw [hdog, this, hids]
        rfl
      · exact hdog
    refine ⟨hsound, tagged_hop hs hjob hhop,
      fun j' hj hids' _ => ?_, fun j' hj hids' => ?_⟩
    · obtain rfl := Option.some.inj hj
      exact hrole.trans (List.isEmpty_eq_false_iff.mpr hids')
    · obtain rfl := Option.some.inj hj
      exact hrole.trans (List.isEmpty_iff.mpr hids')
  | @complete j hjob hids =>
    exact ⟨hsound,
      hs.tagged.of_kept (.of_layers rfl rfl) rfl fun _ h => (Bool.and_eq_true_iff.mp h).1,
      fun _ hj => (by cases hj), fun _ hj => (by cases hj)⟩
  | @other e s he hstep =>
    have hmean := FalconClient.meanwhile_step he hstep
    have hdog : ∀ L, (s.layers L).watchdog = (t.client.layers L).watchdog :=
      hmean.proj FalconLayer.watchdog fun _ => rfl
    refine ⟨hsound, hs.tagged.of_kept (hmean.toKept.trans (.of_layers rfl rfl)) hmean.layerMap
      fun _ h => (Bool.and_eq_true_iff.mp h).1, fun j hj hids hpos => ?_, fun j hj hids => ?_⟩
    · exact (hdog j.curr).trans (hs.more j hj hids hpos)
    · exact (hdog j.curr).trans (hs.last j hj hids)

/-- A request that finds a layer of the wrong role goes wrong at once: it comes to a leaf that
`AddChild` is called on, or its target has no watchdog. -/
theorem unfit_next {ans : AddChildAnswers} {junk x : LayerId} {j : Job} {c : LayerRef}
    (hs : t.Sound) (hjob : t.job = some j) (hx : j.ids.head? = some x)
    (hc : (t.client.layers j.curr).children x = some c)
    (hdog : (t.client.layers c).watchdog ≠ j.ids.tail.isEmpty)
    (h : step t (.hop ans junk) = some t') :
    ¬t'.Plays (if j.ids.tail.isEmpty then .complete else .hop ans junk) := by
  have hlive := hs.curr j hjob
  have hpos : 0 < c := Nat.zero_lt_of_lt (hs.heap.child j.curr x c (hs.alive.alloc _ hlive) hc).1
  intro hplays
  cases step_effect h with
  | @refused _ _ y rest j' s hjob' hids hhop =>
    obtain rfl := Option.some.inj (hjob'.symm.trans hjob)
    obtain rfl : y = x := by rw [hids] at hx; exact Option.some.inj hx
    obtain ⟨s₁, hadd, ⟨-, -⟩ | ⟨c', h, -⟩⟩ := FalconClient.hop_cases hhop
    · cases FalconClient.addChild_effect hadd with
      | refused hnone _ _ => cases hc.symm.trans hnone
    · cases h
  | @moved _ _ y rest j' s c' hjob' hids hhop =>
    obtain rfl := Option.some.inj (hjob'.symm.trans hjob)
    obtain rfl : y = x := by rw [hids] at hx; exact Option.some.inj hx
    have htail : j'.ids.tail = rest := by rw [hids]; rfl
    rw [htail] at hdog hplays
    obtain ⟨c₁, hc₁, rfl, hdog'⟩ | ⟨hnone, -⟩ := FalconClient.hop_role hhop hs.alive hlive
    · obtain rfl := Option.some.inj (hc.symm.trans hc₁)
      rw [← hdog'] at hdog
      cases rest with
      | nil => exact hdog (hplays.handed _ rfl rfl rfl)
      | cons z zs =>
        have hsound := sound_step hs h
        have hmade := hsound.heap.made c hpos (hsound.alive.alloc c (hsound.curr _ rfl))
        have hleaf : (s.layers c).watchdog = true := Bool.not_eq_false _ ▸ hdog
        have hclnt := (hplays.asked ans junk _ rfl rfl (List.cons_ne_nil z zs) hmade.1).1
        rw [hmade.2, show ((⟨s, some _⟩ : Library).client.layers c).watchdog = true from hleaf]
          at hclnt
        cases hclnt
    · cases hc.symm.trans hnone

/-- A request for `ids`. -/
def request (ids : List LayerId) : StartRequest := ⟨ids, false, none, 0, -1, 0, 0, 0⟩

/-- The events of a request that succeeds. -/
def served (ids : List LayerId) : List Event :=
  .take (request ids) :: (ids.map fun _ => .hop (agrees [1]) "") ++ [.complete]

end Library

end Falcon.Client
