import Falcon.Client.Roles
import Mathlib.Algebra.Group.Nat.Defs

/-!
# Client/Routing — reports come to the layer that asked for them

Every `AddChild` of the builder draws a tag, whether it makes a layer, finds one or fails; the tags
do not run out before the counter has gone round.  Until then an entry of the catalogue is never
overwritten, and the reports to the tag of a layer that registers come to that layer.

* `routes_of_hops` — every run with fewer than `2 ^ 32` `AddChild`s.
* `routes_lost` — two layers and enough requests that only find them: the counter goes round, and
  the `CHECK` of `AddLayer` fails.
-/

namespace Falcon.Client

namespace FalconClient

variable {s s' : FalconClient} {L : LayerRef} {x : LayerId} {n : ℕ}

/-- A report is delivered to `L`. -/
def deliver (L : LayerRef) (s : FalconClient) : Message → FalconClient
  | .up arg => s.doChildUp L arg.handle arg.generation
  | .down arg => s.doChildDown L arg.handle arg.generation (downStatus arg) arg.layerStatus

theorem receive_eq (m : Message) : s.receive m =
    match s.getLayer m.cid with
    | none => s
    | some L => s.deliver L m := by cases m <;> rfl

/-- **`n` tags have been drawn**, and none twice: the catalogue has entries for these only, among
them all layers that are or were there, the leaves apart. -/
structure Numbered (n : ℕ) (s : FalconClient) : Prop where
  counter : s.layerIdCounter.toNat = n
  drawn : ∀ cid L, s.layerMap cid = some L → cid.toNat ≤ n
  tagged : s.Tagged (· < s.nextLayer)
  registered : ∀ L arg reply, .called L (.register arg) reply ∈ s.log →
    0 < L ∧ L < s.nextLayer ∧ (s.layers L).watchdog = false ∧ arg.client = (s.layers L).addr

theorem numbered_init (addr : ClientAddr) : (init addr).Numbered 0 where
  counter := rfl
  drawn _ _ h := by cases h
  tagged := tagged_init addr fun _ h => h
  registered _ _ _ h := (List.not_mem_nil h).elim

/-- What other threads do leaves the catalogue alone. -/
theorem Numbered.of_meanwhile (hs : s.Numbered n) (h : Meanwhile s s') : s'.Numbered n where
  counter := h.layerIdCounter ▸ hs.counter
  drawn cid L hL := hs.drawn cid L (h.layerMap ▸ hL)
  tagged := hs.tagged.of_kept h.toKept h.layerMap fun _ hL => h.nextLayer ▸ hL
  registered L arg reply hmem := by
    obtain ⟨acts, hlog, hacts⟩ := h.log
    rw [hlog] at hmem
    obtain hmem | hmem := List.mem_append.mp hmem
    · cases hacts _ hmem
    · rw [h.nextLayer, h.proj FalconLayer.watchdog fun _ => rfl,
        h.proj FalconLayer.addr fun _ => rfl]
      exact hs.registered L arg reply hmem

/-- The tag the next round draws is new. -/
theorem Numbered.fresh (hs : s.Numbered n) (hn : n + 1 < 2 ^ 32) :
    (s.layerIdCounter + 1).toNat = n + 1 ∧ s.layerMap (s.layerIdCounter + 1) = none := by
  have hnat : (s.layerIdCounter + 1).toNat = n + 1 := by
    rw [UInt32.toNat_add, hs.counter]
    exact Nat.mod_eq_of_lt hn
  refine ⟨hnat, Option.eq_none_iff_forall_ne_some.mpr fun L hL => ?_⟩
  have := hs.drawn _ L hL
  omega

theorem addChildBegin_log {a : AddChildArg} {resolves : Bool} {ret : Option (Option LayerRef)}
    (h : s.addChildBegin L a resolves = (s', ret)) : s'.log = s.log ∧ (ret = none → s' = s) := by
  unfold addChildBegin at h
  split at h
  · obtain ⟨rfl, rfl⟩ := Prod.mk.inj h
    exact ⟨rfl, fun h => by cases h⟩
  · split_ifs at h <;> obtain ⟨rfl, rfl⟩ := Prod.mk.inj h
    · exact ⟨rfl, fun h => by cases h⟩
    · exact ⟨rfl, fun h => by cases h⟩
    · exact ⟨rfl, fun _ => rfl⟩

/-- Only a layer with an RPC client registers, and it does so with its own address. -/
theorem addChild_registers {a : AddChildArg} {ans : AddChildAnswers} {ret : Option LayerRef}
    {L' : LayerRef} {arg : SpyRegisterArg} {reply : Reply} (h : s.addChild L a ans = some (s', ret))
    (hmem : .called L' (.register arg) reply ∈ s'.log) :
    .called L' (.register arg) reply ∈ s.log ∨
      L' = L ∧ (s.layers L).clnt = true ∧ arg.client = (s.layers L).addr := by
  unfold addChild at h
  split at h
  · next hb =>
    obtain ⟨rfl, -⟩ := Prod.mk.inj (Option.some.inj h)
    rw [(addChildBegin_log hb).1] at hmem
    exact Or.inl hmem
  · next hb =>
    obtain rfl := (addChildBegin_log hb).2 rfl
    split at h
    · next hclnt =>
      dsimp only at h
      split at h
      · obtain ⟨rfl, -⟩ := Prod.mk.inj (Option.some.inj h)
        obtain hmem | hmem := List.mem_cons.mp hmem
        · cases hmem
        · exact Or.inl hmem
      · next gen _ =>
        have hlog := congrArg (fun r => r.1.log) (Option.some.inj h)
        dsimp only at hlog
        rw [addChildEnd_log] at hlog
        rw [← hlog] at hmem
        obtain hmem | hmem := List.mem_cons.mp hmem
        · injection hmem with hL harg
          injection harg with harg
          subst hL harg
          exact Or.inr ⟨rfl, hclnt, rfl⟩
        · obtain hmem | hmem := List.mem_cons.mp hmem
          · cases hmem
          · exact Or.inl hmem
    · cases h

/-- `AddChild` changes nothing that the layers have been constructed with. -/
theorem AddChildEffect.built {a : AddChildArg} {ans : AddChildAnswers} {ret : Option LayerRef}
    {L' : LayerRef} (h : AddChildEffect L a ans s s' ret) (hL : L < s.nextLayer)
    (hL' : L' < s.nextLayer) : (s'.layers L').built = (s.layers L').built := by
  cases h with
  | @found c _ => exact (kept_addCallback c a.cb).built L'
  | atBase _ _ _ => exact install_proj FalconLayer.built (fun _ _ _ => rfl) hL hL'
  | @registered gen _ _ _ _ =>
    exact install_proj (s := s.asked L a gen ans) FalconLayer.built (fun _ _ _ => rfl) hL hL'
  | refused _ _ _ => rfl

/-- A round of the loop is its `AddChild`, and a tag of the catalogue. -/
theorem hop_rest {req : StartRequest} {cb : CallbackRef} {rest : List LayerId}
    {ans : AddChildAnswers} {ret : Option LayerRef}
    (h : s.hop req cb x rest ans L = some (s', ret)) :
    ∃ s₁, s.nextLayerId.addChild L (s.addChildArg req cb x rest) ans = some (s₁, ret) ∧
      s'.layers = s₁.layers ∧ s'.nextLayer = s₁.nextLayer ∧ s'.log = s₁.log ∧
      s'.layerIdCounter = s.layerIdCounter + 1 ∧ ∀ cid L', s'.layerMap cid = some L' →
        s.layerMap cid = some L' ∨ cid = s.layerIdCounter + 1 := by
  obtain ⟨s₁, hadd₁, hcase⟩ := hop_cases h
  have hmap : s₁.layerMap = s.layerMap := by cases addChild_effect hadd₁ <;> rfl
  have hcount : s₁.layerIdCounter = s.layerIdCounter + 1 := by
    cases addChild_effect hadd₁ <;> rfl
  refine ⟨s₁, hadd₁, ?_⟩
  obtain ⟨-, rfl⟩ | ⟨c, -, ⟨-, rfl⟩ | ⟨-, hadd⟩⟩ := hcase
  · exact ⟨rfl, rfl, rfl, hcount, fun cid L' h => Or.inl (hmap ▸ h)⟩
  · exact ⟨rfl, rfl, rfl, hcount, fun cid L' h => Or.inl (hmap ▸ h)⟩
  · obtain ⟨-, rfl⟩ := addLayer_eq hadd
    refine ⟨rfl, rfl, rfl, hcount, fun cid L' h => ?_⟩
    by_cases hcid : cid = s.layerIdCounter + 1
    · exact Or.inr hcid
    · exact Or.inl (hmap ▸ (Function.update_of_ne hcid ..).symm.trans h)

/-- What has registered by the end of a round was a layer before, and no leaf. -/
theorem Numbered.registers {a : AddChildArg} {ans : AddChildAnswers} {ret : Option LayerRef}
    {L' : LayerRef} {arg : SpyRegisterArg} {reply : Reply} (hs : s.Numbered n) (hh : s.Heap)
    (hL : L < s.nextLayer) (h : s.nextLayerId.addChild L a ans = some (s', ret))
    (hmem : .called L' (.register arg) reply ∈ s'.log) :
    0 < L' ∧ L' < s.nextLayer ∧ (s.layers L').watchdog = false ∧
      arg.client = (s.layers L').addr := by
  obtain hmem | ⟨rfl, hclnt, harg⟩ := addChild_registers h hmem
  · exact hs.registered L' arg reply hmem
  · have hclnt' : (s.layers L').clnt = true := hclnt
    have hpos : 0 < L' := Nat.pos_of_ne_zero fun h => by
      rw [h, hh.base.2.2.2] at hclnt'
      cases hclnt'
    rw [(hh.made L' hpos hL).2, Bool.not_eq_true'] at hclnt'
    exact ⟨hpos, hL, hclnt', harg⟩

/-- **A round of the loop** draws a tag that has not been drawn before. -/
theorem numbered_hop {req : StartRequest} {cb : CallbackRef} {rest : List LayerId}
    {ans : AddChildAnswers} {ret : Option LayerRef}
    (h : s.hop req cb x rest ans L = some (s', ret)) (hs : s.Numbered n) (hn : n + 1 < 2 ^ 32)
    (hh : s.Heap) (hL : L < s.nextLayer) : s'.Numbered (n + 1) := by
  obtain ⟨hnat, hfree⟩ := hs.fresh hn
  have htagged : s'.Tagged (· < s'.nextLayer) := by
    refine hop_tagged h hs.tagged (fun _ h => h) hL (fun L' hL' => ?_)
      fun _ _ L' _ h => by rw [hfree] at h; cases h
    obtain ⟨hnext, -⟩ | ⟨hnext, -⟩ := hop_nextLayer h
    · exact Or.inl (hnext ▸ hL')
    · rw [hnext] at hL'
      exact (Nat.lt_succ_iff_lt_or_eq.mp hL').imp id fun h => ⟨hnext, h⟩
  obtain ⟨s₁, hadd, hlayers, hnext, hlog, hcount, hdrawn⟩ := hop_rest h
  refine ⟨by rw [hcount, hnat], fun cid L' hL' => ?_, htagged, fun L' arg reply hmem => ?_⟩
  · obtain h | rfl := hdrawn cid L' hL'
    · exact Nat.le_succ_of_le (hs.drawn cid L' h)
    · exact Nat.le_of_eq hnat
  · rw [hlog] at hmem
    obtain ⟨hpos, hlt, hdog, harg⟩ := hs.registers hh hL hadd hmem
    have heff := addChild_effect hadd
    have hbuilt : (s₁.layers L').built = (s.layers L').built := heff.built hL hlt
    have hle : s.nextLayer ≤ s₁.nextLayer := by
      obtain ⟨h, -⟩ | ⟨h, -⟩ := heff.nextLayer
      · exact Nat.le_of_eq h.symm
      · exact h ▸ Nat.le_succ _
    rw [hlayers, hnext]
    exact ⟨hpos, Nat.lt_of_lt_of_le hlt hle, (congrArg FalconLayer.watchdog hbuilt).trans hdog,
      harg.trans (congrArg FalconLayer.addr hbuilt).symm⟩

end FalconClient

namespace Library

open FalconClient (AddChildAnswers agrees)

variable {t t' : Library} {e : Event} {n : ℕ}

/-- **The reports are routed**, and the next step of the builder does not abort. -/
structure Routes (t : Library) (e : Event) : Prop where
  /-- A layer that was made as a non-leaf is found by its tag. -/
  own : ∀ L, t.client.live L = true → 0 < L → (t.client.layers L).watchdog = false →
    t.client.getLayer (t.client.layers L).addr.clientTag = some L
  /-- No two of them have one tag. -/
  apart : ∀ L L', t.client.live L = true → 0 < L → (t.client.layers L).watchdog = false →
    t.client.live L' = true → 0 < L' → (t.client.layers L').watchdog = false →
    (t.client.layers L).addr.clientTag = (t.client.layers L').addr.clientTag → L = L'
  /-- The `CHECK` of `AddLayer`. -/
  checked : ∀ ans junk j x rest s c, e = .hop ans junk → t.job = some j → j.ids = x :: rest →
    t.client.nextLayerId.addChild j.curr (t.client.addChildArg j.req j.cb x rest) ans =
      some (s, some c) →
    ((s.collect s.live (some c)).addLayer (t.client.layerIdCounter + 1) c).isSome = true
  /-- What a layer has registered for comes to this layer, or to none when it is gone. -/
  delivered : ∀ L arg reply m, .called L (.register arg) reply ∈ t.client.log →
    m.cid = arg.client.clientTag →
    t.client.receive m = if t.client.live L then t.client.deliver L m else t.client

/-- The event is an `AddChild`. -/
def Event.isHop : Event → Bool
  | .hop _ _ => true
  | _ => false

/-- How often a run draws a tag. -/
def hops (es : List Event) : ℕ := es.countP Event.isHop

/-- `n` tags have been drawn. -/
structure Drawn (n : ℕ) (t : Library) : Prop where
  sound : t.Sound
  numbered : t.client.Numbered n

theorem drawn_init (addr : ClientAddr) : (init addr).Drawn 0 :=
  ⟨sound_init addr, FalconClient.numbered_init addr⟩

theorem Drawn.routes (ht : t.Drawn n) (hn : n + (if e.isHop then 1 else 0) < 2 ^ 32) :
    t.Routes e := by
  obtain ⟨hs, hnum⟩ := ht
  have halloc := hs.alive.alloc
  have hown : ∀ L, t.client.live L = true → 0 < L → (t.client.layers L).watchdog = false →
      t.client.layerMap (t.client.layers L).addr.clientTag = some L := fun L hL =>
    hnum.tagged L (halloc L hL)
  refine ⟨fun L hL hpos hdog => ?_, fun L L' hL hpos hdog hL' hpos' hdog' heq => ?_,
    fun ans junk j x rest s c he hjob hids hadd => ?_, fun L arg reply m hmem hm => ?_⟩
  · exact Option.filter_eq_some_iff.mpr ⟨hown L hL hpos hdog, hL⟩
  · have h := hown L hL hpos hdog
    rw [heq, hown L' hL' hpos' hdog'] at h
    exact (Option.some.inj h).symm
  · rw [he] at hn
    obtain ⟨-, hfree⟩ := hnum.fresh hn
    have hmap : (s.collect s.live (some c)).layerMap = t.client.layerMap := by
      cases FalconClient.addChild_effect hadd <;> rfl
    rw [FalconClient.addLayer, hmap, hfree]
    rfl
  · obtain ⟨hpos, hlt, hdog, harg⟩ := hnum.registered L arg reply hmem
    have htag := hnum.tagged L hlt hpos hdog
    rw [FalconClient.receive_eq, FalconClient.getLayer, hm, harg, htag]
    cases hlive : t.client.live L with
    | true => rw [Option.filter_some_pos hlive, if_pos rfl]
    | false => rw [Option.filter_some_neg hlive, if_neg Bool.false_ne_true]

/-- A step draws one tag, or none. -/
theorem drawn_step (ht : t.Drawn n) (h : step t e = some t')
    (hn : n + (if e.isHop then 1 else 0) < 2 ^ 32) :
    t'.Drawn (n + if e.isHop then 1 else 0) := by
  obtain ⟨hs, hnum⟩ := ht
  refine ⟨sound_step hs h, ?_⟩
  cases step_effect h with
  | take _ =>
    exact ⟨hnum.counter, hnum.drawn, hnum.tagged.of_kept (.of_layers rfl rfl) rfl fun _ h => h,
      hnum.registered⟩
  | refused hjob hids hhop =>
    have hnum' := FalconClient.numbered_hop hhop hnum hn hs.heap (hs.alive.alloc _ (hs.curr _ hjob))
    exact hnum'.of_meanwhile (FalconClient.meanwhile_runCallback ..)
  | moved hjob hids hhop =>
    exact FalconClient.numbered_hop hhop hnum hn hs.heap (hs.alive.alloc _ (hs.curr _ hjob))
  | @complete j _ _ =>
    refine ⟨hnum.counter, hnum.drawn, hnum.tagged.of_kept (.of_layers rfl rfl) rfl fun _ h => h,
      fun L arg reply hmem => ?_⟩
    obtain hmem | hmem := List.mem_cons.mp hmem
    · cases hmem
    · exact hnum.registered L arg reply hmem
  | @other e s he hstep =>
    exact (hnum.of_meanwhile (FalconClient.meanwhile_step he hstep)).of_meanwhile
      (FalconClient.meanwhile_live _)

/-- **Reports are routed to the layer that asked for them**, in every run with fewer than `2 ^ 32`
`AddChild`s. -/
theorem routes_of_hops (addr : ClientAddr) (es : List Event) (hes : hops es < 2 ^ 32) :
    Run.Tried step Routes (init addr) es := by
  have hrun : ∀ (es : List Event) (t : Library) (n : ℕ), t.Drawn n → n + hops es < 2 ^ 32 →
      Run.Tried step Routes t es := by
    intro es
    induction es with
    | nil => exact fun _ _ _ _ => trivial
    | cons e es ih =>
      intro t n ht hn
      rw [hops, List.countP_cons] at hn
      have hn' : n + (if e.isHop then 1 else 0) < 2 ^ 32 := by omega
      refine ⟨ht.routes hn', fun t' ht' => ih t' _ (drawn_step ht ht' hn') ?_⟩
      rw [hops]
      omega
  exact hrun es _ 0 (drawn_init addr) (by rwa [Nat.zero_add])

/-- The counter has gone nowhere: `routes_of_hops` for two applications on one machine. -/
theorem routes_shared :
    Run.Tried step Routes (init ⟨1, 0, 0⟩) (served ["a", "vm"] ++ served ["b", "vm"]) :=
  routes_of_hops _ _ (by decide)

end Library

/-! ## Going round -/

namespace FalconClient

variable {s : FalconClient} {L c : LayerRef} {x : LayerId} {n : ℕ}

theorem addChild_found {a : AddChildArg} (ans : AddChildAnswers)
    (hc : (s.layers L).children a.child = some c) :
    s.addChild L a ans = some (s.addCallback c a.cb, some c) := by
  rw [addChild, addChildBegin, hc]

/-- A round of the loop that finds its child. -/
theorem hop_found {req : StartRequest} {cb : CallbackRef} {rest : List LayerId}
    {ans : AddChildAnswers} (hc : (s.layers L).children x = some c) :
    s.hop req cb x rest ans L =
      (if rest.isEmpty then some ((s.nextLayerId.addCallback c cb).collect s.live (some c))
        else ((s.nextLayerId.addCallback c cb).collect s.live (some c)).addLayer
          (s.layerIdCounter + 1) c).map (·, some c) := by
  have hadd : s.nextLayerId.addChild L (s.addChildArg req cb x rest) ans =
      some (s.nextLayerId.addCallback c cb, some c) := addChild_found ans hc
  rw [hop, hadd]
  rfl

/-- `"a"` on `"vm"` is there, and `n` tags have been drawn, the first of them for `"vm"`. -/
structure Common (n : ℕ) (s : FalconClient) : Prop where
  vm : (s.layers 0).children "vm" = some 1
  app : (s.layers 1).children "a" = some 2
  path : (s.layers 1).path = [(0, "vm")]
  live : s.live 1 = true
  two : s.nextLayer = 3
  counter : s.layerIdCounter = UInt32.ofNat n
  first : s.layerMap 1 = some 1
  drawn : ∀ cid L, s.layerMap cid = some L → cid.toNat ≤ n

theorem Common.collect (h : s.Common n) (held : Option LayerRef) :
    (s.collect s.live held).Common n := by
  refine ⟨h.vm, h.app, h.path, live_collect.mpr ⟨h.live, ?_⟩, h.two, h.counter, h.first, h.drawn⟩
  rw [h.path, reached, h.vm]
  simp [reached]

theorem Common.found (h : s.Common n) (cb : CallbackRef) :
    (s.nextLayerId.addCallback c cb).Common (n + 1) := by
  have hsame := same_addCallback (s := s.nextLayerId) (L := c) cb
  refine ⟨?_, ?_, ?_, h.live, h.two, ?_, h.first, fun cid L hL =>
    Nat.le_succ_of_le (h.drawn cid L hL)⟩
  · rw [hsame.children]; exact h.vm
  · rw [hsame.children]; exact h.app
  · rw [hsame.path]; exact h.path
  · change s.layerIdCounter + 1 = UInt32.ofNat (n + 1)
    rw [h.counter, UInt32.ofNat_add]
    rfl

/-- The round for the machine: the tag is entered. -/
theorem Common.hop_vm (h : s.Common n) (req : StartRequest) (cb : CallbackRef)
    (ans : AddChildAnswers) (hn : n + 1 < 2 ^ 32) :
    ∃ s', s.hop req cb "vm" ["a"] ans 0 = some (s', some 1) ∧ s'.Common (n + 1) := by
  have hnat : (s.layerIdCounter + 1).toNat = n + 1 := by
    rw [h.counter, UInt32.toNat_add, UInt32.toNat_ofNat_of_lt' (Nat.lt_of_succ_lt hn)]
    exact Nat.mod_eq_of_lt hn
  have hfree : s.layerMap (s.layerIdCounter + 1) = none :=
    Option.eq_none_iff_forall_ne_some.mpr fun L hL => by
      have := h.drawn _ L hL
      omega
  set s₁ := (s.nextLayerId.addCallback 1 cb).collect s.live (some 1)
  have h₁ : s₁.Common (n + 1) := (h.found (c := 1) cb).collect (some 1)
  have hadd : s₁.addLayer (s.layerIdCounter + 1) 1 = some { s₁ with
      layerMap := Function.update s₁.layerMap (s.layerIdCounter + 1) (some 1) } := by
    rw [addLayer, show s₁.layerMap (s.layerIdCounter + 1) = none from hfree]
    rfl
  have hhop : s.hop req cb "vm" ["a"] ans 0 = some ({ s₁ with
      layerMap := Function.update s₁.layerMap (s.layerIdCounter + 1) (some 1) }, some 1) := by
    rw [hop_found h.vm]
    exact congrArg (Option.map (·, some 1)) hadd
  refine ⟨_, hhop, h₁.vm, h₁.app, h₁.path, h₁.live, h₁.two, h₁.counter, ?_, fun cid L hL => ?_⟩
  · change Function.update s₁.layerMap (s.layerIdCounter + 1) (some 1) 1 = some 1
    by_cases hcid : 1 = s.layerIdCounter + 1
    · rw [← hcid, Function.update_self]
    · rw [Function.update_of_ne hcid, h₁.first]
  · by_cases hcid : cid = s.layerIdCounter + 1
    · rw [hcid, hnat]
    · exact h₁.drawn cid L ((Function.update_of_ne hcid ..).symm.trans hL)

/-- The round for the application. -/
theorem Common.hop_app (h : s.Common n) (req : StartRequest) (cb : CallbackRef)
    (ans : AddChildAnswers) :
    ∃ s', s.hop req cb "a" [] ans 1 = some (s', some 2) ∧ s'.Common (n + 1) :=
  ⟨_, hop_found h.app, (h.found (c := 2) cb).collect (some 2)⟩

end FalconClient

namespace Library

open FalconClient (Common agrees)

variable {t : Library} {n : ℕ}

/-- One more request that finds both layers. -/
theorem common_served (h : t.client.Common n) (hjob : t.job = none) (hn : n + 1 < 2 ^ 32) :
    ∃ t', (served ["a", "vm"]).foldlM step t = some t' ∧ t'.client.Common (n + 2) ∧
      t'.job = none := by
  have h₀ : (t.client.beginRequest (request ["a", "vm"])).Common n :=
    ⟨h.vm, h.app, h.path, h.live, h.two, h.counter, h.first, h.drawn⟩
  obtain ⟨s₁, hhop₁, h₁⟩ := h₀.hop_vm (request ["a", "vm"]) t.client.nextCallback (agrees [1]) hn
  obtain ⟨s₂, hhop₂, h₂⟩ := h₁.hop_app (request ["a", "vm"]) t.client.nextCallback (agrees [1])
  refine ⟨⟨(s₂.note (.completed t.client.nextCallback 2)).collect s₂.live none, none⟩, ?_, ?_, rfl⟩
  · have htake : step t (.take (request ["a", "vm"])) = some
        ⟨t.client.beginRequest (request ["a", "vm"]), some
          ⟨request ["a", "vm"], t.client.nextCallback, ["vm", "a"], 0⟩⟩ := by
      simp only [step, hjob]
      rfl
    have hvm : step ⟨t.client.beginRequest (request ["a", "vm"]), some
          ⟨request ["a", "vm"], t.client.nextCallback, ["vm", "a"], 0⟩⟩ (.hop (agrees [1]) "") =
        some ⟨s₁, some ⟨request ["a", "vm"], t.client.nextCallback, ["a"], 1⟩⟩ :=
      congrArg (Option.map _) hhop₁
    have happ : step ⟨s₁, some ⟨request ["a", "vm"], t.client.nextCallback, ["a"], 1⟩⟩
        (.hop (agrees [1]) "") = some
        ⟨s₂, some ⟨request ["a", "vm"], t.client.nextCallback, [], 2⟩⟩ :=
      congrArg (Option.map _) hhop₂
    simp only [served, List.map_cons, List.map_nil, List.cons_append, List.nil_append,
      List.foldlM_cons, htake, Option.bind_eq_bind, Option.bind_some, hvm, happ]
    rfl
  · have h₃ : (s₂.note (.completed t.client.nextCallback 2)).Common (n + 2) :=
      ⟨h₂.vm, h₂.app, h₂.path, h₂.live, h₂.two, h₂.counter, h₂.first, h₂.drawn⟩
    exact h₃.collect none

/-- The first request, which makes the two layers. -/
theorem common_first : ∃ t, (served ["a", "vm"]).foldlM step (init ⟨1, 0, 0⟩) = some t ∧
    t.client.Common 2 ∧ t.job = none := by
  refine ⟨_, rfl, ⟨by decide, by decide, by decide, by decide, by decide, by decide, by decide,
    fun cid L hL => ?_⟩, rfl⟩
  change Function.update (fun _ => none) 1 (some 1) cid = some L at hL
  by_cases hcid : cid = 1
  · rw [hcid]
    decide
  · rw [Function.update_of_ne hcid] at hL
    cases hL

/-- `m` requests for one application on one machine. -/
def repeated (m : ℕ) : List Event := (List.replicate m (served ["a", "vm"])).flatten

theorem common_repeated {m : ℕ} (hm : 1 ≤ m) : m ≤ 2 ^ 31 →
    ∃ t, (repeated m).foldlM step (init ⟨1, 0, 0⟩) = some t ∧ t.client.Common (2 * m) ∧
      t.job = none := by
  induction m, hm using Nat.le_induction with
  | base => exact fun _ => common_first
  | succ m hm ih =>
    intro hle
    obtain ⟨t, hrun, hcommon, hjob⟩ := ih (Nat.le_of_succ_le hle)
    obtain ⟨t', hrun', hcommon', hjob'⟩ := common_served hcommon hjob (by omega)
    have hsplit : repeated (m + 1) = repeated m ++ served ["a", "vm"] := by
      rw [repeated, List.replicate_succ', List.flatten_append]
      simp [repeated]
    refine ⟨t', ?_, hcommon', hjob'⟩
    rw [hsplit, List.foldlM_append, hrun]
    exact hrun'

/-- How many layers requests have made. -/
def made (t : Library) : ℕ := t.client.nextLayer - 1

/-- **Two layers are enough for the counter to go round**: after `2 ^ 31` requests the tag of
`"vm"` is drawn again. -/
theorem routes_lost : ∃ t, (repeated (2 ^ 31) ++ [Event.take (request ["a", "vm"])]).foldlM step
      (init ⟨1, 0, 0⟩) = some t ∧ made t = 2 ∧ ¬Routes t (.hop (agrees [1]) "") := by
  obtain ⟨t, hrun, h, hjob⟩ := common_repeated (m := 2 ^ 31) (by decide) (Nat.le_refl _)
  set s := t.client.beginRequest (request ["a", "vm"])
  set j : Job := ⟨request ["a", "vm"], t.client.nextCallback, ["vm", "a"], 0⟩
  have htake : step t (.take (request ["a", "vm"])) = some ⟨s, some j⟩ := by
    simp only [step, hjob]
    rfl
  refine ⟨⟨s, some j⟩, ?_, congrArg (· - 1) h.two, fun hroutes => ?_⟩
  · rw [List.foldlM_append, hrun]
    exact congrArg (Option.bind · some) htake
  · have hadd := FalconClient.addChild_found (s := s.nextLayerId)
      (a := s.addChildArg j.req j.cb "vm" ["a"]) (agrees [1]) h.vm
    have hchecked := hroutes.checked _ _ j "vm" ["a"] _ _ rfl rfl rfl hadd
    -- the tag is the first one, and `"vm"` has it
    have htag : s.layerIdCounter + 1 = 1 := by
      rw [show s.layerIdCounter = UInt32.ofNat (2 * 2 ^ 31) from h.counter]
      rfl
    have hs : s.Common (2 * 2 ^ 31) :=
      ⟨h.vm, h.app, h.path, h.live, h.two, h.counter, h.first, h.drawn⟩
    set s₁ := (s.nextLayerId.addCallback 1 j.cb).collect s.live (some 1)
    have h₁ : s₁.Common (2 * 2 ^ 31 + 1) := (hs.found (c := 1) j.cb).collect (some 1)
    have haborts : s₁.addLayer (s.layerIdCounter + 1) 1 = none := by
      rw [htag, FalconClient.addLayer, h₁.first, Option.any_some, h₁.live]
      rfl
    have hsome : (s₁.addLayer (s.layerIdCounter + 1) 1).isSome = true := hchecked
    rw [haborts] at hsome
    cases hsome

end Library

end Falcon.Client
