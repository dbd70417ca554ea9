import Falcon.Client.Routing

/-!
# Client/Targets — a report of death reaches the targets above the failed layer

`AddChild` puts the callback of a request on the list of every layer it comes to, and a list is
emptied when the layer goes or is given up.  So a callback is on the lists of all layers between its
target and the base, or it has had its final event; and it is on no other list.

* `downs_reach` — a report that takes the layer `x` out gives their final event to the callbacks of
  all targets through `x`, for good, and leaves the others alone.
-/

namespace Falcon.Client

namespace FalconClient

variable {s s' : FalconClient} {L c x : LayerRef} {y : LayerId}

/-- `x` lies on the way from `L` up to the base. -/
def Through (s : FalconClient) (x L : LayerRef) : Prop :=
  x = L ∨ ∃ h, (x, h) ∈ (s.layers L).path

/-- The ways are as they were. -/
theorem through_iff (h : (s'.layers L).path = (s.layers L).path) :
    s'.Through x L ↔ s.Through x L := by rw [Through, Through, h]

/-- The way from a child goes through its parent. -/
theorem through_child (h : (s.layers c).path = (L, y) :: (s.layers L).path) :
    s.Through x c ↔ x = c ∨ s.Through x L := by
  simp only [Through, h, List.mem_cons, Prod.mk.injEq]
  constructor
  · rintro (rfl | ⟨z, ⟨rfl, -⟩ | hz⟩)
    · exact Or.inl rfl
    · exact Or.inr (Or.inl rfl)
    · exact Or.inr (Or.inr ⟨z, hz⟩)
  · rintro (rfl | rfl | ⟨z, hz⟩)
    · exact Or.inl rfl
    · exact Or.inr ⟨y, Or.inl ⟨rfl, rfl⟩⟩
    · exact Or.inr ⟨z, Or.inr hz⟩

/-- The way from the base is empty. -/
theorem Heap.through_base (hs : s.Heap) (h : s.Through x 0) : x = 0 := by
  obtain rfl | ⟨z, hz⟩ := h
  · rfl
  · rw [hs.base.2.1] at hz
    exact (List.not_mem_nil hz).elim

/-- A list of callbacks that is run leaves the others alone. -/
theorem foldl_runCallback_others (lid : LayerId) (fs rs : UInt32) (l : List CallbackRef) :
    ∀ s : FalconClient, (∀ cb ∉ l, (l.foldl (runCallback lid fs rs) s).callbacks cb =
        s.callbacks cb) ∧
      ∃ acts, (l.foldl (runCallback lid fs rs) s).log = acts ++ s.log ∧
        ∀ cb i, .invoked cb i ∈ acts → cb ∈ l := by
  induction l with
  | nil => exact fun s => ⟨fun _ _ => rfl, [], rfl, fun _ _ h => (List.not_mem_nil h).elim⟩
  | cons cb₀ l ih =>
    intro s
    obtain ⟨hcb, acts, hlog, hacts⟩ := ih (s.runCallback lid fs rs cb₀)
    refine ⟨fun cb hmem => ?_,
      acts ++ ((s.callbacks cb₀).call lid fs rs).2.map (.invoked cb₀), ?_, fun cb i hi => ?_⟩
    · obtain ⟨hne, hmem⟩ := not_or.mp (List.mem_cons.not.mp hmem)
      exact (hcb cb hmem).trans (Function.update_of_ne hne ..)
    · exact hlog.trans (List.append_assoc ..).symm
    · obtain hi | hi := List.mem_append.mp hi
      · exact List.mem_cons_of_mem _ (hacts cb i hi)
      · obtain ⟨j, -, hj⟩ := List.mem_map.mp hi
        injection hj with hcb
        exact hcb ▸ List.mem_cons_self

/-- The report is accepted for the child layer `x`. -/
def Accepts (s : FalconClient) (arg : ClientDownArg) (x : LayerRef) : Prop :=
  ∃ P, s.getLayer arg.clientTag = some P ∧ (s.layers P).children arg.handle = some x ∧
    genEq (s.layers x).gen arg.generation = true

/-- **What a report of death does to the callbacks**: those on the list of `x` get their final
event.
-/
theorem receive_accepted {arg : ClientDownArg} (h : s.Accepts arg x) :
    (∀ cb ∈ (s.layers x).cbList, ((s.receive (.down arg)).callbacks cb).runFinal = true) ∧
      (∀ cb ∉ (s.layers x).cbList, (s.receive (.down arg)).callbacks cb = s.callbacks cb) ∧
      ∃ acts, (s.receive (.down arg)).log = acts ++ s.log ∧
        ∀ cb i, .invoked cb i ∈ acts → cb ∈ (s.layers x).cbList := by
  obtain ⟨P, hP, hx, hgen⟩ := h
  have hrec : s.receive (.down arg) = ((s.runCallbacks x arg.handle (downStatus arg)
      arg.layerStatus).eraseChild P arg.handle).destroy x := by
    unfold receive receivedDown
    dsimp only
    rw [hP]
    dsimp only
    rw [doChildDown, hx]
    simp only [hgen, if_true]
  rw [hrec]
  have hothers := foldl_runCallback_others arg.handle (downStatus arg) arg.layerStatus
    (s.layers x).cbList (s.modify x fun l => { l with cbList := [] })
  exact ⟨runFinal_foldl _ _ (downStatus_ne arg) _ _, hothers⟩

/-- The layer that went is nobody's child. -/
theorem accepted_gone {arg : ClientDownArg} (hh : s.Heap) (ha : s.Alive) (h : s.Accepts arg x) :
    ∀ L < s.nextLayer, ∀ z, ((s.receive (.down arg)).layers L).children z ≠ some x := by
  obtain ⟨P, hP, hx, hgen⟩ := h
  have hlt : P < s.nextLayer := ha.alloc P (Option.filter_eq_some_iff.mp hP).2
  have hrec : s.receive (.down arg) =
      s.doChildDown P arg.handle arg.generation (downStatus arg) arg.layerStatus := by
    unfold receive receivedDown
    dsimp only
    rw [hP]
  intro L hL z hz
  have hz' := (meanwhile_receive (s := s) (.down arg)).children L z x hz
  -- it has one parent, whose entry was erased
  obtain ⟨-, -, hpath⟩ := hh.child L z x hL hz'
  obtain ⟨-, -, hpath'⟩ := hh.child P arg.handle x hlt hx
  obtain ⟨rfl, rfl⟩ := Prod.mk.inj (List.cons.inj (hpath.symm.trans hpath')).1
  rw [hrec, doChildDown_children hx hgen, Function.update_self] at hz
  cases hz

/-- Only layers have callbacks. -/
def Listed (s : FalconClient) : Prop := ∀ L, ∀ cb ∈ (s.layers L).cbList, L < s.nextLayer

/-- **What a round of the loop for the callback `cb` at the layer `L` does to the tree**: the
callback is put on the list of the child it comes to. -/
structure Comes (cb : CallbackRef) (L : LayerRef) (ret : Option LayerRef) (s s' : FalconClient) :
    Prop where
  callbacks : s'.callbacks = s.callbacks
  nextCallback : s'.nextCallback = s.nextCallback
  log : ∃ acts, s'.log = acts ++ s.log ∧ ∀ cb' L', .completed cb' L' ∉ acts
  nextLayer : s.nextLayer ≤ s'.nextLayer
  path : ∀ L' < s.nextLayer, (s'.layers L').path = (s.layers L').path
  children : ∀ P < s'.nextLayer, ∀ z x, (s'.layers P).children z = some x → x < s.nextLayer →
    P < s.nextLayer ∧ (s.layers P).children z = some x
  lists : ∀ x cb', cb' ∈ (s'.layers x).cbList ↔ cb' ∈ (s.layers x).cbList ∨ ret = some x ∧ cb' = cb
  child : ∀ c, ret = some c → c < s'.nextLayer ∧
    (∃ z, (s'.layers c).path = (L, z) :: (s.layers L).path) ∧
    (c < s.nextLayer → ∃ z, (s.layers L).children z = some c)

theorem comes_install {a : AddChildArg} {g : List GenNo} (hl : s.Listed)
    (hL : L < s.nextLayer) : Comes a.cb L (some s.nextLayer) s (s.install L a g) where
  callbacks := rfl
  nextCallback := rfl
  log := ⟨[], rfl, fun _ _ => List.not_mem_nil⟩
  nextLayer := Nat.le_succ _
  path L' hL' := install_proj FalconLayer.path (fun _ _ _ => rfl) hL hL'
  children P hP z x hx hlt := by
    obtain ⟨-, -, rfl⟩ | ⟨hn, hx⟩ := install_child hL hx
    · exact absurd hlt (Nat.lt_irrefl _)
    · exact ⟨Nat.lt_of_le_of_ne (Nat.le_of_lt_succ hP) hn, hx⟩
  lists x cb' := by
    by_cases hn : x = s.nextLayer
    · subst hn
      rw [install_new hL]
      have hnone : cb' ∉ (s.layers s.nextLayer).cbList := fun h =>
        Nat.lt_irrefl _ (hl s.nextLayer cb' h)
      simp [newLayer, hnone]
    · have hold : ((s.install L a g).layers x).cbList = (s.layers x).cbList := by
        rw [install_layers hL, if_neg hn]
        split
        · next h => rw [h]
        · rfl
      rw [hold]
      exact ⟨Or.inl, fun h => h.elim id fun h => absurd (Option.some.inj h.1).symm hn⟩
  child c hc := by
    obtain rfl := Option.some.inj hc
    refine ⟨Nat.lt_succ_self _, ⟨a.child, ?_⟩, fun h => absurd h (Nat.lt_irrefl _)⟩
    rw [install_new hL]
    rfl

theorem AddChildEffect.comes {a : AddChildArg} {ans : AddChildAnswers} {ret : Option LayerRef}
    (h : AddChildEffect L a ans s s' ret) (hh : s.Heap) (hl : s.Listed) (hL : L < s.nextLayer) :
    Comes a.cb L ret s s' := by
  cases h with
  | @found c hc =>
    have hkept := kept_addCallback (s := s) c a.cb
    obtain ⟨-, hlt, hpath⟩ := hh.child L a.child c hL hc
    refine ⟨rfl, rfl, ⟨[], rfl, fun _ _ => List.not_mem_nil⟩, Nat.le_refl _,
      fun L' _ => hkept.proj FalconLayer.path (fun _ => rfl) L',
      fun P hP z x hx _ => ⟨hP, hkept.children P z x hx⟩, fun x cb' => ?_, fun c' hc' => ?_⟩
    · by_cases hx : x = c
      · subst hx
        rw [addCallback, modify_self]
        simp
      · rw [addCallback, modify_of_ne hx]
        exact ⟨Or.inl, fun h => h.elim id fun h => absurd (Option.some.inj h.1).symm hx⟩
    · obtain rfl := Option.some.inj hc'
      refine ⟨hlt, ⟨a.child, ?_⟩, fun _ => ⟨a.child, hc⟩⟩
      rw [hkept.proj FalconLayer.path fun _ => rfl]
      exact hpath
  | atBase _ _ _ => exact comes_install hl hL
  | @registered gen _ _ _ _ =>
    have hcomes := comes_install (a := a) (g := gen) hl hL
    obtain ⟨acts, hlog, hacts⟩ := hcomes.log
    refine { hcomes with log := ⟨[.called L (.register _) _, .called L (.getGen _) _], rfl, ?_⟩ }
    intro cb' L' hmem
    simp at hmem
  | @refused l _ _ hlog =>
    refine ⟨rfl, rfl, ⟨l, rfl, fun cb' L' hmem => ?_⟩, Nat.le_refl _, fun _ _ => rfl,
      fun _ hP _ _ h _ => ⟨hP, h⟩, fun x cb' => ⟨Or.inl, fun h => h.elim id fun h => by cases h.1⟩,
      fun c hc => by cases hc⟩
    obtain ⟨tgt, h⟩ | ⟨arg, h, -⟩ := hlog _ hmem
    · cases h
    · cases h

theorem hop_comes {req : StartRequest} {cb : CallbackRef} {rest : List LayerId}
    {ans : AddChildAnswers} {ret : Option LayerRef}
    (h : s.hop req cb y rest ans L = some (s', ret)) (hh : s.Heap) (hl : s.Listed)
    (hL : L < s.nextLayer) : Comes cb L ret s s' := by
  obtain ⟨s₁, hadd₁, hcase⟩ := hop_cases h
  have hcomes := (addChild_effect hadd₁).comes (hh.of_kept kept_nextLayerId) hl hL
  obtain ⟨-, rfl⟩ | ⟨c, -, ⟨-, rfl⟩ | ⟨-, hadd⟩⟩ := hcase
  · exact { hcomes with }
  · exact { hcomes with }
  · obtain ⟨-, rfl⟩ := addLayer_eq hadd
    exact { hcomes with }

end FalconClient

namespace Library

open FalconClient (AddChildAnswers Comes Meanwhile)

variable {t t' : Library} {e : Event} {cb : CallbackRef} {L x : LayerRef}

/-- The callback has come to the layer `L`: as that of a target, or on the builder's way. -/
def Serves (t : Library) (cb : CallbackRef) (L : LayerRef) : Prop :=
  .completed cb L ∈ t.client.log ∨ ∃ j, t.job = some j ∧ j.cb = cb ∧ j.curr = L

/-- **The lists cover the ways**: a callback is on the lists of all layers between where it has come
and the base, or has had its final event; and on no others. -/
structure Covered (t : Library) : Prop where
  sound : t.Sound
  listed : t.client.Listed
  known : ∀ L, ∀ cb ∈ (t.client.layers L).cbList, cb < t.client.nextCallback
  serves : ∀ cb L, t.Serves cb L → cb < t.client.nextCallback ∧ L < t.client.nextLayer
  fresh : ∀ j, t.job = some j → ∀ L, .completed j.cb L ∉ t.client.log
  unique : ∀ cb L L', t.Serves cb L → t.Serves cb L' → L = L'
  covers : ∀ cb L, t.Serves cb L → ∀ x, 0 < x → t.client.Through x L →
    cb ∈ (t.client.layers x).cbList ∨ (t.client.callbacks cb).runFinal = true
  within : ∀ cb L, t.Serves cb L → ∀ x, cb ∈ (t.client.layers x).cbList → t.client.Through x L

theorem covered_init (addr : ClientAddr) : (init addr).Covered := by
  have hserves : ∀ cb L, ¬(init addr).Serves cb L := by
    rintro cb L (h | ⟨j, hj, -⟩)
    · exact List.not_mem_nil h
    · cases hj
  exact ⟨sound_init addr, fun _ _ h => (List.not_mem_nil h).elim,
    fun _ _ h => (List.not_mem_nil h).elim, fun cb L h => (hserves cb L h).elim,
    fun _ hj => (by cases hj), fun cb L _ h => (hserves cb L h).elim,
    fun cb L h => (hserves cb L h).elim, fun cb L h => (hserves cb L h).elim⟩

/-- What a step that makes no layer and comes to none leaves covered: nothing serves that did not
before, and the lists have been emptied at most. -/
theorem Covered.of_meanwhile (ht : t.Covered) (hsound : t'.Sound)
    (h : Meanwhile t.client { t'.client with log := t.client.log })
    (hserves : ∀ cb L, t'.Serves cb L → t.Serves cb L)
    (hfresh : ∀ j, t'.job = some j → ∀ L, .completed j.cb L ∉ t'.client.log) : t'.Covered := by
  have hpath : ∀ L, (t'.client.layers L).path = (t.client.layers L).path :=
    h.proj FalconLayer.path fun _ => rfl
  have hthrough : ∀ {x L}, t'.client.Through x L ↔ t.client.Through x L :=
    FalconClient.through_iff (hpath _)
  refine ⟨hsound, fun L cb hcb => ?_, fun L cb hcb => ?_, fun cb L hs => ?_, hfresh,
    fun cb L L' hs hs' => ht.unique cb L L' (hserves cb L hs) (hserves cb L' hs'),
    fun cb L hs x hx hxL => ?_, fun cb L hs x hcb => ?_⟩
  · exact h.nextLayer.symm ▸ ht.listed L cb (h.listed L cb hcb)
  · exact h.nextCallback.symm ▸ ht.known L cb (h.listed L cb hcb)
  · have := ht.serves cb L (hserves cb L hs)
    exact ⟨h.nextCallback.symm ▸ this.1, h.nextLayer.symm ▸ this.2⟩
  · obtain hcb | hcb := ht.covers cb L (hserves cb L hs) x hx (hthrough.mp hxL)
    · exact h.emptied x cb hcb
    · exact Or.inr (h.final cb hcb)
  · exact hthrough.mpr (ht.within cb L (hserves cb L hs) x (h.listed x cb hcb))

/-- A round of the loop: the callback of the request comes to one layer more, and to its list. -/
theorem Covered.comes {j : Job} {ret : Option LayerRef} {s : FalconClient}
    (ht : t.Covered) (hjob : t.job = some j) (hc : Comes j.cb j.curr ret t.client s)
    (rest : List LayerId)
    (hsound : Sound ⟨s, ret.map fun c => { j with ids := rest, curr := c }⟩) :
    Covered ⟨s, ret.map fun c => { j with ids := rest, curr := c }⟩ := by
  set t' : Library := ⟨s, ret.map fun c => { j with ids := rest, curr := c }⟩
  have hcur : t.Serves j.cb j.curr := Or.inr ⟨j, hjob, rfl, rfl⟩
  have hlog : ∀ {cb L}, .completed cb L ∈ s.log → .completed cb L ∈ t.client.log := by
    intro cb L h
    obtain ⟨acts, hacts, hnone⟩ := hc.log
    rw [hacts] at h
    exact (List.mem_append.mp h).resolve_left (hnone cb L)
  -- what serves now is a target, or the layer the request has come to
  have hcases : ∀ cb L, t'.Serves cb L →
      .completed cb L ∈ t.client.log ∧ cb ≠ j.cb ∨ cb = j.cb ∧ ret = some L := by
    rintro cb L (h | ⟨j', hj', rfl, rfl⟩)
    · exact Or.inl ⟨hlog h, fun heq => ht.fresh j hjob L (heq ▸ hlog h)⟩
    · obtain ⟨c, hret, rfl⟩ := Option.map_eq_some_iff.mp hj'
      exact Or.inr ⟨rfl, hret⟩
  have hthrough : ∀ {x L}, L < t.client.nextLayer → (s.Through x L ↔ t.client.Through x L) :=
    fun hL => FalconClient.through_iff (hc.path _ hL)
  have hchild : ∀ {x c}, ret = some c → (s.Through x c ↔ x = c ∨ t.client.Through x j.curr) := by
    intro x c hret
    obtain ⟨-, ⟨z, hpath⟩, -⟩ := hc.child c hret
    have hlt := (ht.serves _ _ hcur).2
    rw [← hc.path _ hlt] at hpath
    rw [FalconClient.through_child hpath, hthrough hlt]
  refine ⟨hsound, fun L cb hcb => ?_, fun L cb hcb => ?_, fun cb L hs => ?_, fun j' hj' L h => ?_,
    fun cb L L' hs hs' => ?_, fun cb L hs x hx hxL => ?_, fun cb L hs x hcb => ?_⟩
  · obtain h | ⟨hret, -⟩ := (hc.lists L cb).mp hcb
    · exact Nat.lt_of_lt_of_le (ht.listed L cb h) hc.nextLayer
    · exact (hc.child L hret).1
  · change cb < s.nextCallback
    rw [hc.nextCallback]
    obtain h | ⟨-, rfl⟩ := (hc.lists L cb).mp hcb
    · exact ht.known L cb h
    · exact (ht.serves _ _ hcur).1
  · change cb < s.nextCallback ∧ L < s.nextLayer
    rw [hc.nextCallback]
    obtain ⟨h, -⟩ | ⟨rfl, hret⟩ := hcases cb L hs
    · have := ht.serves cb L (Or.inl h)
      exact ⟨this.1, Nat.lt_of_lt_of_le this.2 hc.nextLayer⟩
    · exact ⟨(ht.serves _ _ hcur).1, (hc.child L hret).1⟩
  · obtain ⟨c, -, rfl⟩ := Option.map_eq_some_iff.mp hj'
    exact ht.fresh j hjob L (hlog h)
  · obtain ⟨h, hne⟩ | ⟨rfl, hret⟩ := hcases cb L hs
    · obtain ⟨h', -⟩ | ⟨heq, -⟩ := hcases cb L' hs'
      · exact ht.unique cb L L' (Or.inl h) (Or.inl h')
      · exact absurd heq hne
    · obtain ⟨-, hne⟩ | ⟨-, hret'⟩ := hcases _ L' hs'
      · exact absurd rfl hne
      · exact Option.some.inj (hret.symm.trans hret')
  · change cb ∈ (s.layers x).cbList ∨ (s.callbacks cb).runFinal = true
    rw [hc.callbacks, hc.lists]
    obtain ⟨h, -⟩ | ⟨rfl, hret⟩ := hcases cb L hs
    · have hold := ht.covers cb L (Or.inl h) x hx
        ((hthrough (ht.serves cb L (Or.inl h)).2).mp hxL)
      exact hold.imp Or.inl id
    · obtain rfl | hxcur := (hchild hret).mp hxL
      · exact Or.inl (Or.inr ⟨hret, rfl⟩)
      · exact (ht.covers _ _ hcur x hx hxcur).imp Or.inl id
  · change s.Through x L
    obtain ⟨h, hne⟩ | ⟨rfl, hret⟩ := hcases cb L hs
    · have hold := ((hc.lists x cb).mp hcb).resolve_right fun h => hne h.2
      exact (hthrough (ht.serves cb L (Or.inl h)).2).mpr (ht.within cb L (Or.inl h) x hold)
    · rw [hchild hret]
      obtain hold | ⟨hret', -⟩ := (hc.lists x _).mp hcb
      · exact Or.inr (ht.within _ _ hcur x hold)
      · exact Or.inl (Option.some.inj (hret'.symm.trans hret))

theorem Covered.hop {j : Job} {ans : AddChildAnswers} {ret : Option LayerRef} {s : FalconClient}
    {y : LayerId} {rest : List LayerId} (ht : t.Covered) (hjob : t.job = some j)
    (hhop : t.client.hop j.req j.cb y rest ans j.curr = some (s, ret)) :
    Comes j.cb j.curr ret t.client s :=
  FalconClient.hop_comes hhop ht.sound.heap ht.listed
    (ht.serves _ _ (Or.inr ⟨j, hjob, rfl, rfl⟩)).2

/-- A request that is taken up has not come anywhere. -/
theorem Covered.take {req : StartRequest} (ht : t.Covered)
    (hsound : Sound ⟨t.client.beginRequest req,
      some ⟨req, t.client.nextCallback, req.idlist.reverse, 0⟩⟩) :
    Covered ⟨t.client.beginRequest req,
      some ⟨req, t.client.nextCallback, req.idlist.reverse, 0⟩⟩ := by
  set t' : Library := ⟨t.client.beginRequest req,
    some ⟨req, t.client.nextCallback, req.idlist.reverse, 0⟩⟩
  have hcases : ∀ cb L, t'.Serves cb L →
      t.Serves cb L ∧ cb < t.client.nextCallback ∨ cb = t.client.nextCallback ∧ L = 0 := by
    rintro cb L (h | ⟨j, hj, rfl, rfl⟩)
    · exact Or.inl ⟨Or.inl h, (ht.serves cb L (Or.inl h)).1⟩
    · obtain rfl := Option.some.inj hj
      exact Or.inr ⟨rfl, rfl⟩
  refine ⟨hsound, ht.listed, fun L cb hcb => Nat.lt_succ_of_lt (ht.known L cb hcb),
    fun cb L hs => ?_, fun j hj L h => ?_, fun cb L L' hs hs' => ?_, fun cb L hs x hx hxL => ?_,
    fun cb L hs x hcb => ?_⟩
  · obtain ⟨h, hlt⟩ | ⟨rfl, rfl⟩ := hcases cb L hs
    · exact ⟨Nat.lt_succ_of_lt hlt, (ht.serves cb L h).2⟩
    · exact ⟨Nat.lt_succ_self _, ht.sound.heap.base.1⟩
  · obtain rfl := Option.some.inj hj
    exact Nat.lt_irrefl _ (ht.serves _ L (Or.inl h)).1
  · obtain ⟨h, hlt⟩ | ⟨rfl, rfl⟩ := hcases cb L hs
    · obtain ⟨h', -⟩ | ⟨rfl, -⟩ := hcases cb L' hs'
      · exact ht.unique cb L L' h h'
      · exact absurd hlt (Nat.lt_irrefl _)
    · obtain ⟨-, hlt⟩ | ⟨-, rfl⟩ := hcases _ L' hs'
      · exact absurd hlt (Nat.lt_irrefl _)
      · rfl
  · obtain ⟨h, hlt⟩ | ⟨rfl, rfl⟩ := hcases cb L hs
    · refine (ht.covers cb L h x hx hxL).imp id fun hfinal => ?_
      exact (congrArg _ (Function.update_of_ne (Nat.ne_of_lt hlt) ..)).trans hfinal
    · exact absurd (ht.sound.heap.through_base hxL) (Nat.ne_of_gt hx)
  · obtain ⟨h, -⟩ | ⟨rfl, rfl⟩ := hcases cb L hs
    · exact ht.within cb L h x hcb
    · exact absurd (ht.known x _ hcb) (Nat.lt_irrefl _)

/-- Other threads hand out no targets. -/
theorem completed_of_meanwhile {s s' : FalconClient} (h : Meanwhile s s')
    (hmem : .completed cb L ∈ s'.log) : .completed cb L ∈ s.log := by
  obtain ⟨acts, hlog, hacts⟩ := h.log
  rw [hlog] at hmem
  obtain hmem | hmem := List.mem_append.mp hmem
  · cases hacts _ hmem
  · exact hmem

/-- Other threads do not move a request on. -/
theorem serves_other {s : FalconClient} {job : Option Job} (h : Meanwhile t.client s)
    (hjob : ∀ j, job = some j → t.job = some j) (hs : Serves ⟨s, job⟩ cb L) : t.Serves cb L := by
  obtain hmem | ⟨j, hj, hcb, hcur⟩ := hs
  · exact Or.inl (completed_of_meanwhile h hmem)
  · exact Or.inr ⟨j, hjob j hj, hcb, hcur⟩

/-- A request that is completed goes on serving as its target. -/
theorem serves_complete {j : Job} {s : FalconClient} (hjob : t.job = some j)
    (hlog : s.log = .completed j.cb j.curr :: t.client.log) (hs : Serves ⟨s, none⟩ cb L) :
    t.Serves cb L := by
  obtain hmem | ⟨_, hj, -⟩ := hs
  · rw [hlog] at hmem
    obtain hmem | hmem := List.mem_cons.mp hmem
    · injection hmem with hcb hL
      exact Or.inr ⟨j, hjob, hcb.symm, hL.symm⟩
    · exact Or.inl hmem
  · cases hj

/-- What other threads do leaves the ways covered, whatever becomes of the request. -/
theorem Covered.other {s : FalconClient} {job : Option Job} (ht : t.Covered)
    (h : Meanwhile t.client s) (hsound : Sound ⟨s, job⟩)
    (hjob : ∀ j, job = some j → t.job = some j) : Covered ⟨s, job⟩ :=
  ht.of_meanwhile hsound { h with log := ⟨[], rfl, by simp⟩ } (fun _ _ => serves_other h hjob)
    fun j hj L hmem => ht.fresh j (hjob j hj) L (completed_of_meanwhile h hmem)

theorem covered_step (ht : t.Covered) (h : step t e = some t') : t'.Covered := by
  have hsound := sound_step ht.sound h
  cases step_effect h with
  | take _ => exact ht.take hsound
  | @refused ans junk x rest j s hjob hids hhop =>
    obtain ⟨hh, ha, -⟩ := FalconClient.hop_sound hhop ht.sound.heap ht.sound.alive
      (ht.sound.curr j hjob)
    have hs : Covered ⟨s, none⟩ :=
      ht.comes hjob (ht.hop hjob hhop) rest ⟨hh, ha, fun _ h => by cases h⟩
    exact hs.other (FalconClient.meanwhile_runCallback ..) hsound fun _ h => h
  | @moved ans junk x rest j s c hjob hids hhop =>
    exact ht.comes hjob (ht.hop hjob hhop) rest hsound
  | @complete j hjob hids =>
    exact ht.of_meanwhile hsound (FalconClient.meanwhile_live _)
      (fun _ _ hs => serves_complete hjob rfl hs) fun _ hj => by cases hj
  | @other e s he hstep =>
    have hmean : Meanwhile t.client (s.collect t.client.live (t.job.map Job.curr)) :=
      (FalconClient.meanwhile_step he hstep).trans (FalconClient.meanwhile_live _)
    exact ht.other hmean hsound fun _ h => h

/-! ## A layer that is gone -/

/-- What a step does to the callbacks of a library. -/
structure Goes (t t' : Library) : Prop where
  nextLayer : t.client.nextLayer ≤ t'.client.nextLayer
  children : ∀ P < t'.client.nextLayer, ∀ z x, (t'.client.layers P).children z = some x →
    x < t.client.nextLayer → P < t.client.nextLayer ∧ (t.client.layers P).children z = some x
  final : ∀ cb < t.client.nextCallback, (t.client.callbacks cb).runFinal = true →
    (t'.client.callbacks cb).runFinal = true
  /-- What comes through a layer now has come through it before, or finds it as a child. -/
  serves : ∀ cb L x, t'.Serves cb L → 0 < x → x < t.client.nextLayer → t'.client.Through x L →
    (∃ L₀, t.Serves cb L₀ ∧ t.client.Through x L₀) ∨
      ∃ P < t.client.nextLayer, ∃ z, (t.client.layers P).children z = some x

theorem goes_other {s : FalconClient} {job : Option Job} (h : Meanwhile t.client s)
    (hjob : ∀ j, job = some j → t.job = some j) : Goes t ⟨s, job⟩ where
  nextLayer := Nat.le_of_eq h.nextLayer.symm
  children P hP z x hx _ := ⟨h.nextLayer ▸ hP, h.children P z x hx⟩
  final cb _ := h.final cb
  serves _ L _ hs _ _ hx := Or.inl ⟨L, serves_other h hjob hs,
    (FalconClient.through_iff (h.proj FalconLayer.path (fun _ => rfl) L)).mp hx⟩

theorem goes_comes {j : Job} {ret : Option LayerRef} {s : FalconClient} (ht : t.Covered)
    (hjob : t.job = some j) (hc : Comes j.cb j.curr ret t.client s) (rest : List LayerId) :
    Goes t ⟨s, ret.map fun c => { j with ids := rest, curr := c }⟩ where
  nextLayer := hc.nextLayer
  children := hc.children
  final cb _ h := (congrArg (fun f => (f cb).runFinal) hc.callbacks).trans h
  serves := by
    have hcur : t.Serves j.cb j.curr := Or.inr ⟨j, hjob, rfl, rfl⟩
    have hlt := (ht.serves _ _ hcur).2
    rintro cb L x (hmem | ⟨j', hj', rfl, rfl⟩) hpos hx hthrough
    · obtain ⟨acts, hacts, hnone⟩ := hc.log
      have hmem' : .completed cb L ∈ s.log := hmem
      rw [hacts] at hmem'
      have hold := (List.mem_append.mp hmem').resolve_left (hnone cb L)
      exact Or.inl ⟨L, Or.inl hold, (FalconClient.through_iff
        (hc.path L (ht.serves cb L (Or.inl hold)).2)).mp hthrough⟩
    · obtain ⟨c, hret, rfl⟩ := Option.map_eq_some_iff.mp hj'
      obtain ⟨-, ⟨z, hpath⟩, hchild⟩ := hc.child c hret
      rw [← hc.path _ hlt] at hpath
      obtain rfl | hthrough := (FalconClient.through_child hpath).mp hthrough
      · exact Or.inr ⟨j.curr, hlt, hchild hx⟩
      · exact Or.inl ⟨j.curr, hcur, (FalconClient.through_iff (hc.path _ hlt)).mp hthrough⟩

theorem Goes.trans {t'' : Library} (h : Goes t t') (h' : Goes t' t'')
    (hcb : t.client.nextCallback ≤ t'.client.nextCallback) : Goes t t'' where
  nextLayer := Nat.le_trans h.nextLayer h'.nextLayer
  children P hP z x hx hlt := by
    obtain ⟨hP', hx'⟩ := h'.children P hP z x hx (Nat.lt_of_lt_of_le hlt h.nextLayer)
    exact h.children P hP' z x hx' hlt
  final cb hlt hf := h'.final cb (Nat.lt_of_lt_of_le hlt hcb) (h.final cb hlt hf)
  serves cb L x hs hpos hlt hx := by
    obtain ⟨L', hs', hx'⟩ | ⟨P, hP, z, hz⟩ :=
      h'.serves cb L x hs hpos (Nat.lt_of_lt_of_le hlt h.nextLayer) hx
    · exact h.serves cb L' x hs' hpos hlt hx'
    · exact Or.inr ⟨P, (h.children P hP z x hz hlt).1, z, (h.children P hP z x hz hlt).2⟩

theorem goes_step (ht : t.Covered) (h : step t e = some t') : Goes t t' := by
  cases step_effect h with
  | @take req hjob =>
    refine ⟨Nat.le_refl _, fun P hP z x hx _ => ⟨hP, hx⟩, fun cb hlt hf => ?_, ?_⟩
    · exact (congrArg _ (Function.update_of_ne (Nat.ne_of_lt hlt) ..)).trans hf
    · rintro cb L x (hmem | ⟨j, hj, rfl, rfl⟩) hpos _ hx
      · exact Or.inl ⟨L, Or.inl hmem, hx⟩
      · obtain rfl := Option.some.inj hj
        exact absurd (ht.sound.heap.through_base hx) (Nat.ne_of_gt hpos)
  | @refused ans junk y rest j s hjob hids hhop =>
    have hcomes := ht.hop hjob hhop
    have hgo : Goes t ⟨s, none⟩ := goes_comes ht hjob hcomes rest
    exact hgo.trans (goes_other (FalconClient.meanwhile_runCallback ..) fun _ h => h)
      (Nat.le_of_eq hcomes.nextCallback.symm)
  | @moved ans junk y rest j s c hjob hids hhop =>
    exact goes_comes ht hjob (ht.hop hjob hhop) rest
  | @complete j hjob hids =>
    exact ⟨Nat.le_refl _, fun P hP z x hx _ => ⟨hP, hx⟩, fun _ _ h => h,
      fun cb L x hs _ _ hx => Or.inl ⟨L, serves_complete hjob rfl hs, hx⟩⟩
  | @other e s he hstep =>
    have hmean : Meanwhile t.client (s.collect t.client.live (t.job.map Job.curr)) :=
      (FalconClient.meanwhile_step he hstep).trans (FalconClient.meanwhile_live _)
    exact goes_other hmean fun _ h => h

/-- A layer that is nobody's child: every callback that has come through it has had its final event.
-/
structure Fallen (x : LayerRef) (t : Library) : Prop where
  covered : t.Covered
  known : 0 < x ∧ x < t.client.nextLayer
  gone : ∀ P < t.client.nextLayer, ∀ z, (t.client.layers P).children z ≠ some x
  final : ∀ cb L, t.Serves cb L → t.client.Through x L → (t.client.callbacks cb).runFinal = true

/-- **What is gone is not come to again.** -/
theorem fallen_step (ht : t.Fallen x) (h : step t e = some t') : t'.Fallen x := by
  have hgo := goes_step ht.covered h
  refine ⟨covered_step ht.covered h, ⟨ht.known.1, Nat.lt_of_lt_of_le ht.known.2 hgo.nextLayer⟩,
    fun P hP z hz => ?_, fun cb L hs hx => ?_⟩
  · obtain ⟨hP', hz'⟩ := hgo.children P hP z x hz ht.known.2
    exact ht.gone P hP' z hz'
  · obtain ⟨L₀, hs₀, hx₀⟩ | ⟨P, hP, z, hz⟩ := hgo.serves cb L x hs ht.known.1 ht.known.2 hx
    · exact hgo.final cb (ht.covered.serves cb L₀ hs₀).1 (ht.final cb L₀ hs₀ hx₀)
    · exact (ht.gone P hP z hz).elim

/-- A report of death as an event. -/
def down (arg : ClientDownArg) : Event := .other (.report (.down arg))

/-- **A report of death that is accepted** gives their final event to the callbacks that have come
through the layer, and touches no others. -/
theorem down_reaches {arg : ClientDownArg} (ht : t.Covered) (hacc : t.client.Accepts arg x)
    (h : step t (down arg) = some t') : t'.Fallen x ∧
      ∀ cb L, t.Serves cb L → ¬t.client.Through x L →
        t'.client.callbacks cb = t.client.callbacks cb ∧
        ∃ acts, t'.client.log = acts ++ t.client.log ∧ ∀ i, .invoked cb i ∉ acts := by
  obtain ⟨hfinal, hothers, acts, hlog, hacts⟩ := FalconClient.receive_accepted hacc
  have hgone := FalconClient.accepted_gone ht.sound.heap ht.sound.alive hacc
  have hgo := goes_step ht h
  have hmean := FalconClient.meanwhile_receive (s := t.client) (.down arg)
  have hcov := covered_step ht h
  obtain rfl : t' = ⟨(t.client.receive (.down arg)).collect t.client.live (t.job.map Job.curr),
    t.job⟩ := (Option.some.inj h).symm
  have hknown : 0 < x ∧ x < t.client.nextLayer := by
    obtain ⟨P, hP, hx, -⟩ := hacc
    obtain ⟨hlt, hlt', -⟩ := ht.sound.heap.child P arg.handle x
      (ht.sound.alive.alloc P (Option.filter_eq_some_iff.mp hP).2) hx
    exact ⟨Nat.zero_lt_of_lt hlt, hlt'⟩
  refine ⟨⟨hcov, ⟨hknown.1, Nat.lt_of_lt_of_le hknown.2 hgo.nextLayer⟩, fun P hP z => ?_,
    fun cb L hs hx => ?_⟩, fun cb L hs hx => ?_⟩
  · exact hgone P (hmean.nextLayer ▸ hP) z
  · have hs' : t.Serves cb L := serves_other (hmean.trans (FalconClient.meanwhile_live _))
      (fun _ h => h) hs
    have hx' : t.client.Through x L :=
      (FalconClient.through_iff (hmean.proj FalconLayer.path (fun _ => rfl) L)).mp hx
    obtain hcb | hcb := ht.covers cb L hs' x hknown.1 hx'
    · exact hfinal cb hcb
    · exact hmean.final cb hcb
  · have hno : cb ∉ (t.client.layers x).cbList := fun hcb => hx (ht.within cb L hs x hcb)
    exact ⟨hothers cb hno, acts, hlog, fun i hi => hno (hacts cb i hi)⟩

/-- **A report of death reaches exactly the targets above the failed layer**: when it has been
accepted for the layer `x`, the callbacks of all targets through `x` have had their final event,
then and ever after, and those of other targets are not called and not changed. -/
theorem downs_reach (addr : ClientAddr) {pre post : List Event} {arg : ClientDownArg}
    {t₁ t₂ t₃ : Library} (hpre : pre.foldlM step (init addr) = some t₁)
    (hacc : t₁.client.Accepts arg x) (hdown : step t₁ (down arg) = some t₂)
    (hpost : post.foldlM step t₂ = some t₃) :
    (∀ cb L, .completed cb L ∈ t₃.client.log → t₃.client.Through x L →
      (t₃.client.callbacks cb).runFinal = true) ∧
    ∀ cb L, .completed cb L ∈ t₁.client.log → ¬t₁.client.Through x L →
      t₂.client.callbacks cb = t₁.client.callbacks cb ∧
      ∃ acts, t₂.client.log = acts ++ t₁.client.log ∧ ∀ i, .invoked cb i ∉ acts := by
  have hcov : t₁.Covered :=
    Run.keeps (fun _ _ _ h ht => covered_step ht h) hpre (covered_init addr)
  obtain ⟨hfallen, hothers⟩ := down_reaches hcov hacc hdown
  have hlast : t₃.Fallen x := Run.keeps (fun _ _ _ h ht => fallen_step ht h) hpost hfallen
  exact ⟨fun cb L hmem hx => hlast.final cb L (Or.inl hmem) hx,
    fun cb L hmem hx => hothers cb L (Or.inl hmem) hx⟩

/-- `"a"` goes down on the machine it shares with `"b"`. -/
theorem downs_reach_shared : ∃ t₁ t₂ : Library,
    (served ["a", "vm"] ++ served ["b", "vm"]).foldlM step (init ⟨1, 0, 0⟩) = some t₁ ∧
    step t₁ (down ⟨"a", [1], 0, false, false, 1⟩) = some t₂ ∧
    (∀ cb L, .completed cb L ∈ t₂.client.log → t₂.client.Through 2 L →
      (t₂.client.callbacks cb).runFinal = true) ∧
    ∀ cb L, .completed cb L ∈ t₁.client.log → ¬t₁.client.Through 2 L →
      t₂.client.callbacks cb = t₁.client.callbacks cb ∧
      ∃ acts, t₂.client.log = acts ++ t₁.client.log ∧ ∀ i, .invoked cb i ∉ acts := by
  obtain ⟨t₁, hpre, hacc, t₂, hdown⟩ : ∃ t₁ : Library,
      (served ["a", "vm"] ++ served ["b", "vm"]).foldlM step (init ⟨1, 0, 0⟩) = some t₁ ∧
      t₁.client.Accepts ⟨"a", [1], 0, false, false, 1⟩ 2 ∧
      ∃ t₂, step t₁ (down ⟨"a", [1], 0, false, false, 1⟩) = some t₂ :=
    ⟨_, rfl, ⟨1, by decide, by decide, by decide⟩, _, rfl⟩
  exact ⟨t₁, t₂, hpre, hdown, @downs_reach 2 _ _ [] _ _ _ t₂ hpre hacc hdown rfl⟩

end Library

end Falcon.Client
