import Falcon.Client.Requests

/-!
# Client/Builder — the builder thread, one `AddChild` at a time

Between two `AddChild`s of a request the other threads go on, and a report may take out the very
layer the builder has come to.  The builder's `curr_layer` keeps that layer then, with all that is
below it, until the builder has moved on: a layer is alive as long as the shared pointers reach it
(`reached`) from the base or from `curr_layer`.

A `Library` is a client with the request its builder is at.  Its steps are those of the builder,
with an `AddChild` and the `AddLayer` after it in one, and the events of the tree that are not
requests.  What those can do to a client is said once (`Meanwhile`).
-/

namespace Falcon.Client

open FalconClient (AddChildAnswers)

/-- The request the builder is at. -/
structure Job where
  req : StartRequest
  cb : CallbackRef
  /-- What the loop has yet to go through, last id first. -/
  ids : List LayerId
  /-- `curr_layer`. -/
  curr : LayerRef

namespace FalconClient

/-- The shared pointers lead to the layer at the end of the path: from the base, or from the layer
`held`. -/
def reached (held : Option LayerRef) (s : FalconClient) :
    LayerRef → List (LayerRef × LayerId) → Bool
  | _, [] => true
  | L, (p, x) :: path =>
    held = some L || ((s.layers p).children x = some L && reached held s p path)

/-- Of the layers `live`, those stay that the shared pointers lead to. -/
def collect (live : LayerRef → Bool) (held : Option LayerRef) (s : FalconClient) : FalconClient :=
  { s with live := fun L => live L && s.reached held L (s.layers L).path }

/-- One round of the loop of `start_builder` at the layer `L`: `AddChild`, and `AddLayer` unless the
child is the leaf. -/
def hop (req : StartRequest) (cb : CallbackRef) (x : LayerId) (rest : List LayerId)
    (ans : AddChildAnswers) (L : LayerRef) (s : FalconClient) :
    Option (FalconClient × Option LayerRef) :=
  match s.nextLayerId.addChild L (s.addChildArg req cb x rest) ans with
  | none => none
  | some (s', none) => some (s'.collect s'.live none, none)
  | some (s', some c) =>
    let s' := s'.collect s'.live (some c)
    (if rest.isEmpty then some s' else s'.addLayer (s.layerIdCounter + 1) c).map (·, some c)

end FalconClient

/-- The event is a request. -/
def FalconClient.Event.isStart : FalconClient.Event → Bool
  | .start _ _ _ => true
  | _ => false

/-- A client library, with the request its builder is at. -/
structure Library where
  client : FalconClient
  job : Option Job

namespace Library

def init (addr : ClientAddr) : Library := ⟨.init addr, none⟩

inductive Event
  /-- The builder takes a request off the queue. -/
  | take (req : StartRequest)
  | hop (ans : AddChildAnswers) (junk : LayerId)
  | complete
  /-- Anything but a request. -/
  | other (e : FalconClient.Event)

/-- The builder does a round of its loop. -/
def runHop (ans : AddChildAnswers) (junk : LayerId) (s : FalconClient) (j : Job) : Option Library :=
  match j.ids with
  | [] => none
  | x :: rest =>
    (s.hop j.req j.cb x rest ans j.curr).map fun r =>
      match r.2 with
      | none =>
        ⟨r.1.runCallback (rest.headD junk) ClientStatus.registrationError 0 j.cb, none⟩
      | some c => ⟨r.1, some { j with ids := rest, curr := c }⟩

/-- The builder is done with the loop: the client gets its target. -/
def runComplete (s : FalconClient) (j : Job) : Option Library :=
  match j.ids with
  | [] => some ⟨(s.note (.completed j.cb j.curr)).collect s.live none, none⟩
  | _ :: _ => none

def step (t : Library) : Event → Option Library
  | .take req =>
    match t.job with
    | none =>
      some ⟨t.client.beginRequest req,
        some ⟨req, t.client.nextCallback, req.idlist.reverse, 0⟩⟩
    | some _ => none
  | .hop ans junk => t.job.bind (runHop ans junk t.client)
  | .complete => t.job.bind (runComplete t.client)
  | .other e =>
    if e.isStart then none
    else (t.client.step e).map fun s => ⟨s.collect t.client.live (t.job.map Job.curr), t.job⟩

end Library

/-! ## What the other threads can do -/

/-- What a layer is constructed with and keeps. -/
def FalconLayer.built (l : FalconLayer) : FalconLayer :=
  { l with cbList := [], upCallback := none, children := fun _ => none, childLeaves := fun _ => 0 }

/-- Only the builder does this: it registers, and it hands out targets. -/
def Action.isBuilders : Action → Bool
  | .completed _ _ => true
  | .called _ (.register _) _ => true
  | _ => false

theorem runFinal_apply {cb : FalconCallback} {op : FalconCallback.Op} (h : cb.runFinal = true) :
    (cb.apply op).1.runFinal = true := by
  cases op with
  | event lid fs rs =>
    simp only [FalconCallback.apply, FalconCallback.call, FalconCallback.finish,
      FalconCallback.defer]
    split_ifs
    all_goals first | rfl | exact h
  | _ => exact h

theorem runFinal_call {cb : FalconCallback} {lid : LayerId} {fs rs : UInt32}
    (h : fs ≠ ClientStatus.signOfLife) : (cb.call lid fs rs).1.runFinal = true := by
  simp only [FalconCallback.call, FalconCallback.finish, if_pos (Or.inr h)]

namespace FalconClient

variable {s s' s'' : FalconClient} {L c : LayerRef} {x : LayerId}

/-- No layer is made, and none is entered in `children_`. -/
structure Kept (s s' : FalconClient) : Prop where
  built : ∀ L, (s'.layers L).built = (s.layers L).built
  children : ∀ L x c, (s'.layers L).children x = some c → (s.layers L).children x = some c
  nextLayer : s'.nextLayer = s.nextLayer

/-- **Between two steps of the builder**: moreover none is entered in the catalogue, and a callback
leaves a list only with its final event. -/
structure Meanwhile (s s' : FalconClient) : Prop extends Kept s s' where
  layerMap : s'.layerMap = s.layerMap
  layerIdCounter : s'.layerIdCounter = s.layerIdCounter
  nextCallback : s'.nextCallback = s.nextCallback
  log : ∃ acts, s'.log = acts ++ s.log ∧ ∀ a ∈ acts, a.isBuilders = false
  final : ∀ cb, (s.callbacks cb).runFinal = true → (s'.callbacks cb).runFinal = true
  listed : ∀ L, ∀ cb ∈ (s'.layers L).cbList, cb ∈ (s.layers L).cbList
  emptied : ∀ L, ∀ cb ∈ (s.layers L).cbList, cb ∈ (s'.layers L).cbList ∨
    (s'.callbacks cb).runFinal = true

theorem Kept.of_layers (hl : s'.layers = s.layers) (hn : s'.nextLayer = s.nextLayer) : Kept s s' :=
  ⟨fun L => by rw [hl], fun L x c h => by rwa [hl] at h, hn⟩

theorem Kept.trans (h : Kept s s') (h' : Kept s' s'') : Kept s s'' where
  built L := (h'.built L).trans (h.built L)
  children L x c hc := h.children L x c (h'.children L x c hc)
  nextLayer := h'.nextLayer.trans h.nextLayer

/-- What a layer is constructed with stays. -/
theorem Kept.proj {α : Type} (h : Kept s s') (p : FalconLayer → α) (hp : ∀ l, p l.built = p l)
    (L : LayerRef) : p (s'.layers L) = p (s.layers L) := by
  rw [← hp (s'.layers L), h.built L, hp]

/-- Changing what a layer is not constructed with, if no child is entered. -/
theorem kept_modify {f : FalconLayer → FalconLayer} (hf : ∀ l, (f l).built = l.built)
    (hchild : ∀ l x c, (f l).children x = some c → l.children x = some c) :
    Kept s (s.modify L f) := by
  refine ⟨modify_proj _ hf, fun L' x c hc => ?_, rfl⟩
  by_cases h : L' = L
  · rw [h, modify_self] at hc
    exact h ▸ hchild _ x c hc
  · rwa [modify_of_ne h] at hc

theorem Meanwhile.refl (s : FalconClient) : Meanwhile s s :=
  ⟨.of_layers rfl rfl, rfl, rfl, rfl, ⟨[], rfl, by simp⟩, fun _ h => h, fun _ _ h => h,
    fun _ _ h => Or.inl h⟩

theorem Meanwhile.trans (h : Meanwhile s s') (h' : Meanwhile s' s'') : Meanwhile s s'' where
  toKept := h.toKept.trans h'.toKept
  layerMap := h'.layerMap.trans h.layerMap
  layerIdCounter := h'.layerIdCounter.trans h.layerIdCounter
  nextCallback := h'.nextCallback.trans h.nextCallback
  log := by
    obtain ⟨acts, hlog, hacts⟩ := h.log
    obtain ⟨acts', hlog', hacts'⟩ := h'.log
    refine ⟨acts' ++ acts, by rw [hlog', hlog, List.append_assoc], fun a ha => ?_⟩
    exact (List.mem_append.mp ha).elim (hacts' a) (hacts a)
  final cb hcb := h'.final cb (h.final cb hcb)
  listed L cb hcb := h.listed L cb (h'.listed L cb hcb)
  emptied L cb hcb := (h.emptied L cb hcb).elim (h'.emptied L cb) fun h => Or.inr (h'.final cb h)

/-- Changing the children or the leaf counts of a layer, if no child is entered. -/
theorem meanwhile_modify {f : FalconLayer → FalconLayer} (hf : ∀ l, (f l).built = l.built)
    (hlist : ∀ l, (f l).cbList = l.cbList)
    (hchild : ∀ l x c, (f l).children x = some c → l.children x = some c) :
    Meanwhile s (s.modify L f) := by
  refine ⟨kept_modify hf hchild, rfl, rfl, rfl, ⟨[], rfl, by simp⟩, fun _ h => h,
    fun L' cb hcb => ?_, fun L' cb hcb => Or.inl ?_⟩
  · rwa [modify_proj FalconLayer.cbList hlist] at hcb
  · rwa [modify_proj FalconLayer.cbList hlist]

theorem meanwhile_note {a : Action} (h : a.isBuilders = false) : Meanwhile s (s.note a) :=
  ⟨.of_layers rfl rfl, rfl, rfl, rfl, ⟨[a], rfl, List.forall_mem_singleton.mpr h⟩,
    fun _ h => h, fun _ _ h => h, fun _ _ h => Or.inl h⟩

theorem isBuilders_invoked {cb : CallbackRef} {l : List Invocation} :
    ∀ a ∈ l.map (Action.invoked cb), a.isBuilders = false := by
  intro a ha
  obtain ⟨i, -, rfl⟩ := List.mem_map.mp ha
  rfl

theorem meanwhile_useCallback (cb : CallbackRef) (op : FalconCallback.Op) :
    Meanwhile s (s.useCallback cb op) := by
  refine ⟨.of_layers rfl rfl, rfl, rfl, rfl, ⟨_, rfl, isBuilders_invoked⟩, fun cb' h => ?_,
    fun _ _ h => h, fun _ _ h => Or.inl h⟩
  by_cases hcb : cb' = cb
  · subst hcb
    exact (congrArg _ (Function.update_self ..)).trans (runFinal_apply h)
  · exact (congrArg _ (Function.update_of_ne hcb ..)).trans h

theorem meanwhile_runCallback (lid : LayerId) (fs rs : UInt32) (cb : CallbackRef) :
    Meanwhile s (s.runCallback lid fs rs cb) := meanwhile_useCallback cb (.event lid fs rs)

/-- A list of callbacks is run with a final status. -/
theorem runFinal_foldl (lid : LayerId) {fs : UInt32} (rs : UInt32)
    (hfs : fs ≠ ClientStatus.signOfLife) (l : List CallbackRef) : ∀ s : FalconClient, ∀ cb ∈ l,
      ((l.foldl (runCallback lid fs rs) s).callbacks cb).runFinal = true := by
  have hrest : ∀ (l : List CallbackRef) (s : FalconClient),
      Meanwhile s (l.foldl (runCallback lid fs rs) s) :=
    Run.foldl_rel Meanwhile.refl (fun _ _ _ => Meanwhile.trans)
      fun _ cb => meanwhile_runCallback lid fs rs cb
  induction l with
  | nil => exact fun _ _ h => (List.not_mem_nil h).elim
  | cons cb' l ih =>
    intro s cb hcb
    obtain rfl | hcb := List.mem_cons.mp hcb
    · refine (hrest l _).final cb ?_
      exact (congrArg _ (Function.update_self ..)).trans (runFinal_call hfs)
    · exact ih _ cb hcb

theorem meanwhile_runCallbacks (lid : LayerId) {fs : UInt32} (rs : UInt32)
    (hfs : fs ≠ ClientStatus.signOfLife) : Meanwhile s (s.runCallbacks L lid fs rs) := by
  set s₀ := s.modify L fun l => { l with cbList := [] } with hs₀
  have hrest : Meanwhile s₀ (s.runCallbacks L lid fs rs) :=
    Run.foldl_rel Meanwhile.refl (fun _ _ _ => Meanwhile.trans)
      (fun _ cb => meanwhile_runCallback lid fs rs cb) _ _
  have hfinal := runFinal_foldl lid rs hfs (s.layers L).cbList s₀
  have hclear : Kept s s₀ := kept_modify (fun _ => rfl) fun _ _ _ h => h
  refine ⟨hclear.trans hrest.toKept, hrest.layerMap, hrest.layerIdCounter, hrest.nextCallback,
    hrest.log, hrest.final, fun L' cb hcb => ?_, fun L' cb hcb => ?_⟩
  · have hcb' := hrest.listed L' cb hcb
    by_cases h : L' = L
    · rw [h, hs₀, modify_self] at hcb'
      exact (List.not_mem_nil hcb').elim
    · rwa [hs₀, modify_of_ne h] at hcb'
  · by_cases h : L' = L
    · exact Or.inr (hfinal cb (h ▸ hcb))
    · exact hrest.emptied L' cb (by rwa [hs₀, modify_of_ne h])

theorem meanwhile_doChildUp (gen : List GenNo) : Meanwhile s (s.doChildUp L x gen) := by
  have hnote : ∀ c, Meanwhile s (s.note (.pet c)) := fun c => meanwhile_note rfl
  unfold doChildUp
  split
  · exact Meanwhile.refl s
  · next c _ =>
    split
    · unfold setUpCallbackTime pet
      split
      · dsimp only
        split
        · exact hnote c
        · exact (hnote c).trans (meanwhile_runCallback ..)
      · exact Meanwhile.refl s
    · exact Meanwhile.refl s

theorem meanwhile_eraseChild : Meanwhile s (s.eraseChild L x) := by
  refine meanwhile_modify (fun _ => rfl) (fun _ => rfl) fun l y c hc => ?_
  dsimp only at hc
  by_cases hy : y = x
  · subst hy
    rw [Function.update_self] at hc
    cases hc
  · rwa [Function.update_of_ne hy] at hc

theorem meanwhile_live (live : LayerRef → Bool) : Meanwhile s { s with live := live } :=
  ⟨.of_layers rfl rfl, rfl, rfl, rfl, ⟨[], rfl, by simp⟩, fun _ h => h, fun _ _ h => h,
    fun _ _ h => Or.inl h⟩

theorem meanwhile_doChildDown (gen : List GenNo) {fs : UInt32} (rs : UInt32)
    (hfs : fs ≠ ClientStatus.signOfLife) : Meanwhile s (s.doChildDown L x gen fs rs) := by
  unfold doChildDown
  split
  · exact Meanwhile.refl s
  · split
    · exact ((meanwhile_runCallbacks x rs hfs).trans meanwhile_eraseChild).trans (meanwhile_live _)
    · exact Meanwhile.refl s

theorem downStatus_ne (arg : ClientDownArg) : downStatus arg ≠ ClientStatus.signOfLife := by
  unfold downStatus
  split_ifs <;> decide

theorem meanwhile_receive (m : Message) : Meanwhile s (s.receive m) := by
  cases m with
  | up arg =>
    unfold receive receivedUp
    dsimp only
    split
    · exact Meanwhile.refl s
    · exact meanwhile_doChildUp _
  | down arg =>
    unfold receive receivedDown
    dsimp only
    split
    · exact Meanwhile.refl s
    · exact meanwhile_doChildDown _ _ (downStatus_ne arg)

theorem meanwhile_killChild {reply : Reply} {r : ℤ} (h : s.killChild L x reply = some (s', r)) :
    Meanwhile s s' := by
  unfold killChild at h
  split at h
  · cases h
  · split at h
    · obtain ⟨rfl, -⟩ := Prod.mk.inj (Option.some.inj h)
      exact Meanwhile.refl s
    · split at h
      · split at h
        · have hnote : ∀ tgt, Meanwhile s (s.note (.called L (.kill tgt) reply)) := fun _ =>
            meanwhile_note rfl
          dsimp only at h
          split_ifs at h <;> obtain ⟨rfl, -⟩ := Prod.mk.inj (Option.some.inj h)
          · exact hnote _
          · exact (hnote _).trans (meanwhile_runCallbacks x 0 (by decide))
          · exact hnote _
        · cases h
      · obtain ⟨rfl, -⟩ := Prod.mk.inj (Option.some.inj h)
        exact meanwhile_runCallbacks x 0 (by decide)

theorem meanwhile_cancelChild {reply : Reply} (h : s.cancelChild L x reply = some s') :
    Meanwhile s s' := by
  have hcount : Meanwhile s (s.countLeaf L x (-1)) :=
    meanwhile_modify (fun _ => rfl) (fun _ => rfl) fun _ _ _ h => h
  obtain ⟨-, rfl⟩ | ⟨-, ⟨-, rfl⟩ | ⟨-, arg, -, rfl⟩⟩ := cancelChild_effect h
  · exact Meanwhile.refl _
  · exact hcount
  · exact hcount.trans (meanwhile_note rfl)

theorem meanwhile_cancelPath (path : List (LayerRef × LayerId)) :
    ∀ (replies : ℕ → Reply) (s : FalconClient), s.cancelPath path replies = some s' →
      Meanwhile s s' := by
  induction path with
  | nil => exact fun _ _ h => Option.some.inj h ▸ Meanwhile.refl _
  | cons e path ih =>
    intro replies s h
    obtain ⟨s₁, h₁, h⟩ := Option.bind_eq_some_iff.mp h
    refine Meanwhile.trans ?_ (ih _ s₁ h)
    split at h₁
    · exact meanwhile_cancelChild h₁
    · exact Option.some.inj h₁ ▸ Meanwhile.refl _

/-- **Every event but a request** is one of those that can come between two steps of the builder. -/
theorem meanwhile_step {e : Event} (he : e.isStart = false) (h : s.step e = some s') :
    Meanwhile s s' := by
  cases e with
  | start _ _ _ => cases he
  | report m => exact Option.some.inj h ▸ meanwhile_receive m
  | kill leaf L x reply =>
    simp only [step] at h
    split at h
    · obtain ⟨⟨s₁, r⟩, hkill, rfl⟩ := Option.map_eq_some_iff.mp h
      exact meanwhile_killChild hkill
    · cases h
  | cancelPass leaf replies =>
    simp only [step] at h
    split at h
    · have hdogs : Meanwhile s { s with watchdogs := s.watchdogs.erase leaf } :=
        ⟨.of_layers rfl rfl, rfl, rfl, rfl, ⟨[], rfl, by simp⟩, fun _ h => h, fun _ _ h => h,
          fun _ _ h => Or.inl h⟩
      exact hdogs.trans (meanwhile_cancelPath _ _ _ h)
    · cases h
  | startTimer leaf cb =>
    simp only [step] at h
    split at h
    · obtain rfl := Option.some.inj h
      unfold startTimer
      split
      · exact meanwhile_modify (fun _ => rfl) (fun _ => rfl) fun _ _ _ h => h
      · exact Meanwhile.refl s
    · cases h
  | setCallback cb f => exact Option.some.inj h ▸ meanwhile_useCallback _ _
  | removeCallback cb => exact Option.some.inj h ▸ meanwhile_useCallback _ _

/-! ## What the builder does -/

/-- **A round of the loop**: `AddChild`, after which the layer before is let go, and `AddLayer`. -/
theorem hop_cases {req : StartRequest} {cb : CallbackRef} {rest : List LayerId}
    {ans : AddChildAnswers} {ret : Option LayerRef}
    (h : s.hop req cb x rest ans L = some (s', ret)) :
    ∃ s₁, s.nextLayerId.addChild L (s.addChildArg req cb x rest) ans = some (s₁, ret) ∧
      (ret = none ∧ s' = s₁.collect s₁.live none ∨
        ∃ c, ret = some c ∧ ((rest = [] ∧ s' = s₁.collect s₁.live (some c)) ∨
          rest ≠ [] ∧
            (s₁.collect s₁.live (some c)).addLayer (s.layerIdCounter + 1) c = some s')) := by
  unfold hop at h
  split at h
  · cases h
  · next s₁ hadd =>
    obtain ⟨rfl, rfl⟩ := Prod.mk.inj (Option.some.inj h)
    exact ⟨s₁, hadd, Or.inl ⟨rfl, rfl⟩⟩
  · next s₁ c hadd =>
    obtain ⟨s₂, hcat, hret⟩ := Option.map_eq_some_iff.mp h
    obtain ⟨rfl, rfl⟩ := Prod.mk.inj hret
    refine ⟨s₁, hadd, Or.inr ⟨c, rfl, ?_⟩⟩
    cases rest with
    | nil => exact Or.inl ⟨rfl, (Option.some.inj hcat).symm⟩
    | cons y ys => exact Or.inr ⟨List.cons_ne_nil y ys, hcat⟩

/-- `AddLayer` finds the tag free, and enters the layer under it. -/
theorem addLayer_eq {cid : UInt32} (h : s.addLayer cid L = some s') :
    (∀ L', s.layerMap cid = some L' → s.live L' = false) ∧
      s' = { s with layerMap := Function.update s.layerMap cid (some L) } := by
  unfold addLayer at h
  split at h
  · cases h
  · next hfree =>
    refine ⟨fun L' hL' => ?_, (Option.some.inj h).symm⟩
    rw [hL', Option.any_some] at hfree
    exact Bool.not_eq_true _ ▸ hfree

/-- The heap hangs together, whatever is alive: layers are made as leaves or with an RPC client, and
`children_` leads from older to younger layers along their paths. -/
structure Heap (s : FalconClient) : Prop where
  base : 0 < s.nextLayer ∧ (s.layers 0).path = [] ∧ (s.layers 0).baseLayer = true ∧
    (s.layers 0).clnt = false
  made : ∀ L, 0 < L → L < s.nextLayer →
    (s.layers L).baseLayer = false ∧ (s.layers L).clnt = !(s.layers L).watchdog
  child : ∀ L x c, L < s.nextLayer → (s.layers L).children x = some c →
    L < c ∧ c < s.nextLayer ∧ (s.layers c).path = (L, x) :: (s.layers L).path

/-- What is alive holds what is alive. -/
structure Alive (s : FalconClient) : Prop where
  base : s.live 0 = true
  alloc : ∀ L, s.live L = true → L < s.nextLayer
  child : ∀ L x c, s.live L = true → (s.layers L).children x = some c → s.live c = true

theorem heap_init (addr : ClientAddr) : (init addr).Heap where
  base := ⟨Nat.one_pos, rfl, rfl, rfl⟩
  made L hL hlt := absurd hlt (Nat.not_lt.mpr hL)
  child _ _ _ _ hc := by cases hc

theorem alive_init (addr : ClientAddr) : (init addr).Alive where
  base := rfl
  alloc L hL := by
    obtain rfl : L = 0 := by simpa [init] using hL
    exact Nat.one_pos
  child _ _ _ _ hc := by cases hc

theorem Heap.of_kept (hs : s.Heap) (h : Kept s s') : s'.Heap where
  base := by
    rw [h.nextLayer, h.proj FalconLayer.path fun _ => rfl,
      h.proj FalconLayer.baseLayer fun _ => rfl, h.proj FalconLayer.clnt fun _ => rfl]
    exact hs.base
  made L hL hlt := by
    rw [h.proj FalconLayer.baseLayer fun _ => rfl, h.proj FalconLayer.clnt fun _ => rfl,
      h.proj FalconLayer.watchdog fun _ => rfl]
    exact hs.made L hL (h.nextLayer ▸ hlt)
  child L x c hL hc := by
    rw [h.nextLayer, h.proj FalconLayer.path fun _ => rfl, h.proj FalconLayer.path fun _ => rfl]
    exact hs.child L x c (h.nextLayer ▸ hL) (h.children L x c hc)

theorem Alive.of_kept (hs : s.Alive) (h : Kept s s') (hlive : s'.live = s.live) : s'.Alive where
  base := hlive ▸ hs.base
  alloc L hL := h.nextLayer.symm ▸ hs.alloc L (hlive ▸ hL)
  child L x c hL hc := by
    rw [hlive] at hL ⊢
    exact hs.child L x c hL (h.children L x c hc)

section Install

variable {a : AddChildArg} {g : List GenNo}

theorem install_new (hL : L < s.nextLayer) :
    (s.install L a g).layers s.nextLayer = s.newLayer L a g := by
  rw [install_layers hL, if_pos rfl]

/-- A child is the one that was entered, or it was there. -/
theorem install_child {L' : LayerRef} (hL : L < s.nextLayer)
    (hc : ((s.install L a g).layers L').children x = some c) :
    L' = L ∧ x = a.child ∧ c = s.nextLayer ∨
      L' ≠ s.nextLayer ∧ (s.layers L').children x = some c := by
  by_cases hn : L' = s.nextLayer
  · rw [hn, install_new hL] at hc
    cases hc
  · by_cases hLL : L' = L
    · subst hLL
      rw [install_children hL] at hc
      by_cases hx : x = a.child
      · subst hx
        rw [Function.update_self] at hc
        exact Or.inl ⟨rfl, rfl, (Option.some.inj hc).symm⟩
      · exact Or.inr ⟨hn, by rwa [Function.update_of_ne hx] at hc⟩
    · rw [install_layers hL, if_neg hn, if_neg hLL] at hc
      exact Or.inr ⟨hn, hc⟩

theorem heap_install (hs : s.Heap) (hL : L < s.nextLayer) : (s.install L a g).Heap where
  base := by
    refine ⟨Nat.succ_pos _, ?_, ?_, ?_⟩
    · rw [install_proj FalconLayer.path (fun _ _ _ => rfl) hL hs.base.1, hs.base.2.1]
    · rw [install_proj FalconLayer.baseLayer (fun _ _ _ => rfl) hL hs.base.1, hs.base.2.2.1]
    · rw [install_proj FalconLayer.clnt (fun _ _ _ => rfl) hL hs.base.1, hs.base.2.2.2]
  made L' hpos hlt := by
    obtain hlt | rfl := Nat.lt_succ_iff_lt_or_eq.mp hlt
    · rw [install_proj FalconLayer.baseLayer (fun _ _ _ => rfl) hL hlt,
        install_proj FalconLayer.clnt (fun _ _ _ => rfl) hL hlt,
        install_proj FalconLayer.watchdog (fun _ _ _ => rfl) hL hlt]
      exact hs.made L' hpos hlt
    · rw [install_new hL]
      exact ⟨rfl, rfl⟩
  child L' x c hL' hc := by
    obtain ⟨rfl, rfl, rfl⟩ | ⟨hn, hc⟩ := install_child hL hc
    · refine ⟨hL, Nat.lt_succ_self _, ?_⟩
      rw [install_new hL, install_proj FalconLayer.path (fun _ _ _ => rfl) hL hL]
      rfl
    · have hlt : L' < s.nextLayer := Nat.lt_of_le_of_ne (Nat.le_of_lt_succ hL') hn
      obtain ⟨hlt₁, hlt₂, hpath⟩ := hs.child L' x c hlt hc
      refine ⟨hlt₁, Nat.lt_succ_of_lt hlt₂, ?_⟩
      rw [install_proj FalconLayer.path (fun _ _ _ => rfl) hL hlt,
        install_proj FalconLayer.path (fun _ _ _ => rfl) hL hlt₂]
      exact hpath

theorem live_install {L' : LayerRef} :
    (s.install L a g).live L' = true ↔ L' = s.nextLayer ∨ s.live L' = true := by
  by_cases h : L' = s.nextLayer
  · simp [install, h]
  · simp [install, h]

theorem alive_install (hs : s.Alive) (hL : L < s.nextLayer) : (s.install L a g).Alive where
  base := live_install.mpr (Or.inr hs.base)
  alloc L' hL' := by
    obtain rfl | hL' := live_install.mp hL'
    · exact Nat.lt_succ_self _
    · exact Nat.lt_succ_of_lt (hs.alloc L' hL')
  child L' x c hL' hc := by
    obtain ⟨rfl, rfl, rfl⟩ | ⟨hn, hc⟩ := install_child hL hc
    · exact live_install.mpr (Or.inl rfl)
    · exact live_install.mpr
        (Or.inr (hs.child L' x c ((live_install.mp hL').resolve_left hn) hc))

end Install

theorem reached_held {path : List (LayerRef × LayerId)} : s.reached (some L) L path = true := by
  cases path with
  | nil => rfl
  | cons e path => simp [reached]

theorem live_collect {live : LayerRef → Bool} {held : Option LayerRef} :
    (s.collect live held).live L = true ↔
      live L = true ∧ s.reached held L (s.layers L).path = true := Bool.and_eq_true_iff

/-- What the shared pointers lead to is closed under `children_`. -/
theorem alive_collect {live : LayerRef → Bool} (hs : ({ s with live := live } : FalconClient).Alive)
    (hh : s.Heap) (held : Option LayerRef) : (s.collect live held).Alive where
  base := live_collect.mpr ⟨hs.base, by rw [hh.base.2.1]; rfl⟩
  alloc L hL := hs.alloc L (live_collect.mp hL).1
  child L x c hL hc := by
    obtain ⟨hlive, hreached⟩ := live_collect.mp hL
    refine live_collect.mpr ⟨hs.child L x c hlive hc, ?_⟩
    have hc' : (s.layers L).children x = some c := hc
    rw [(hh.child L x c (hs.alloc L hlive) hc').2.2, reached, hc', hreached]
    simp

theorem kept_addCallback (L : LayerRef) (cb : CallbackRef) : Kept s (s.addCallback L cb) :=
  kept_modify (fun _ => rfl) fun _ _ _ h => h

theorem kept_nextLayerId : Kept s s.nextLayerId := .of_layers rfl rfl

/-- `AddChild` at a layer that is alive. -/
theorem AddChildEffect.sound {a : FalconClient.AddChildArg} {ans : AddChildAnswers}
    {ret : Option LayerRef} (h : AddChildEffect L a ans s s' ret) (hh : s.Heap) (ha : s.Alive)
    (hL : s.live L = true) :
    s'.Heap ∧ s'.Alive ∧ ∀ c, ret = some c → s'.live c = true := by
  have hlt : L < s.nextLayer := ha.alloc L hL
  cases h with
  | @found c hc =>
    have hkept := kept_addCallback (s := s) c a.cb
    refine ⟨hh.of_kept hkept, ha.of_kept hkept rfl, fun c' hc' => ?_⟩
    obtain rfl := Option.some.inj hc'
    exact ha.child L a.child c hL hc
  | atBase _ _ _ =>
    refine ⟨heap_install hh hlt, alive_install ha hlt, fun c hc => ?_⟩
    exact live_install.mpr (Or.inl (Option.some.inj hc).symm)
  | @registered gen _ _ _ _ =>
    have hkept : Kept s (s.asked L a gen ans) := .of_layers rfl rfl
    refine ⟨heap_install (hh.of_kept hkept) hlt, alive_install (ha.of_kept hkept rfl) hlt,
      fun c hc => ?_⟩
    exact live_install.mpr (Or.inl (Option.some.inj hc).symm)
  | @refused l _ _ _ =>
    have hkept : Kept s { s with log := l ++ s.log } := .of_layers rfl rfl
    exact ⟨hh.of_kept hkept, ha.of_kept hkept rfl, fun c hc => by cases hc⟩

/-- A round of the loop at a layer that is alive ends at one that is. -/
theorem hop_sound {req : StartRequest} {cb : CallbackRef} {rest : List LayerId}
    {ans : AddChildAnswers} {ret : Option LayerRef}
    (h : s.hop req cb x rest ans L = some (s', ret)) (hh : s.Heap) (ha : s.Alive)
    (hL : s.live L = true) :
    s'.Heap ∧ s'.Alive ∧ ∀ c, ret = some c → s'.live c = true := by
  obtain ⟨s₁, hadd₁, hcase⟩ := hop_cases h
  obtain ⟨hh₁, ha₁, hret⟩ := (addChild_effect hadd₁).sound (hh.of_kept kept_nextLayerId)
    (ha.of_kept kept_nextLayerId rfl) hL
  have hcollect : ∀ held, (s₁.collect s₁.live held).Heap := fun held =>
    hh₁.of_kept (.of_layers rfl rfl)
  have hcurr : ∀ c, ret = some c → (s₁.collect s₁.live (some c)).live c = true := fun c hc =>
    live_collect.mpr ⟨hret c hc, reached_held⟩
  obtain ⟨rfl, rfl⟩ | ⟨c, rfl, ⟨-, rfl⟩ | ⟨-, hadd⟩⟩ := hcase
  · exact ⟨hcollect _, alive_collect ha₁ hh₁ _, fun c hc => by cases hc⟩
  · refine ⟨hcollect _, alive_collect ha₁ hh₁ _, fun c' hc' => ?_⟩
    obtain rfl := Option.some.inj hc'
    exact hcurr c rfl
  · obtain ⟨-, rfl⟩ := addLayer_eq hadd
    refine ⟨(hcollect (some c)).of_kept (.of_layers rfl rfl),
      (alive_collect ha₁ hh₁ (some c)).of_kept (.of_layers rfl rfl) rfl, fun c' hc' => ?_⟩
    obtain rfl := Option.some.inj hc'
    exact hcurr c rfl

end FalconClient

/-! ## Every run -/

namespace Library

open FalconClient (Kept)

variable {t t' : Library} {e : Event}

/-- The heap hangs together, and the builder's layer is alive. -/
structure Sound (t : Library) : Prop where
  heap : t.client.Heap
  alive : t.client.Alive
  curr : ∀ j, t.job = some j → t.client.live j.curr = true

theorem sound_init (addr : ClientAddr) : (init addr).Sound :=
  ⟨FalconClient.heap_init addr, FalconClient.alive_init addr, fun _ h => by cases h⟩

/-- **What a step of a library is**, by the part of the code that takes it. -/
inductive StepEffect (t : Library) : Event → Library → Prop
  | take {req : StartRequest} (hjob : t.job = none) :
      StepEffect t (.take req)
        ⟨t.client.beginRequest req, some ⟨req, t.client.nextCallback, req.idlist.reverse, 0⟩⟩
  | refused {ans : AddChildAnswers} {junk x : LayerId} {rest : List LayerId} {j : Job}
      {s : FalconClient} (hjob : t.job = some j) (hids : j.ids = x :: rest)
      (hhop : t.client.hop j.req j.cb x rest ans j.curr = some (s, none)) :
      StepEffect t (.hop ans junk)
        ⟨s.runCallback (rest.headD junk) ClientStatus.registrationError 0 j.cb, none⟩
  | moved {ans : AddChildAnswers} {junk x : LayerId} {rest : List LayerId} {j : Job}
      {s : FalconClient} {c : LayerRef} (hjob : t.job = some j) (hids : j.ids = x :: rest)
      (hhop : t.client.hop j.req j.cb x rest ans j.curr = some (s, some c)) :
      StepEffect t (.hop ans junk) ⟨s, some { j with ids := rest, curr := c }⟩
  | complete {j : Job} (hjob : t.job = some j) (hids : j.ids = []) :
      StepEffect t .complete
        ⟨(t.client.note (.completed j.cb j.curr)).collect t.client.live none, none⟩
  | other {e : FalconClient.Event} {s : FalconClient} (he : e.isStart = false)
      (hstep : t.client.step e = some s) :
      StepEffect t (.other e) ⟨s.collect t.client.live (t.job.map Job.curr), t.job⟩

theorem step_effect (h : step t e = some t') : StepEffect t e t' := by
  cases e with
  | take req =>
    simp only [step] at h
    split at h
    · next hjob => exact Option.some.inj h ▸ .take hjob
    · cases h
  | hop ans junk =>
    obtain ⟨j, hjob, h⟩ := Option.bind_eq_some_iff.mp h
    unfold runHop at h
    split at h
    · cases h
    · next x rest hids =>
      obtain ⟨⟨s, ret⟩, hhop, rfl⟩ := Option.map_eq_some_iff.mp h
      cases ret with
      | none => exact .refused hjob hids hhop
      | some c => exact .moved hjob hids hhop
  | complete =>
    obtain ⟨j, hjob, h⟩ := Option.bind_eq_some_iff.mp h
    unfold runComplete at h
    split at h
    · next hids => exact Option.some.inj h ▸ .complete hjob hids
    · cases h
  | other e =>
    simp only [step] at h
    split at h
    · cases h
    · next he =>
      obtain ⟨s, hs, rfl⟩ := Option.map_eq_some_iff.mp h
      exact .other (Bool.not_eq_true _ ▸ he) hs

theorem sound_step (hs : t.Sound) (h : step t e = some t') : t'.Sound := by
  cases step_effect h with
  | @take req hjob =>
    have hkept : Kept t.client (t.client.beginRequest req) := .of_layers rfl rfl
    refine ⟨hs.heap.of_kept hkept, hs.alive.of_kept hkept rfl, fun j hj => ?_⟩
    obtain rfl := Option.some.inj hj
    exact hs.alive.base
  | @refused _ junk x rest j s hjob hids hhop =>
    obtain ⟨hh, ha, -⟩ := FalconClient.hop_sound hhop hs.heap hs.alive (hs.curr _ hjob)
    have hkept : Kept s (s.runCallback (rest.headD junk) ClientStatus.registrationError 0 j.cb) :=
      (FalconClient.meanwhile_runCallback ..).toKept
    exact ⟨hh.of_kept hkept, ha.of_kept hkept rfl, fun j hj => by cases hj⟩
  | moved hjob hids hhop =>
    obtain ⟨hh, ha, hcurr⟩ := FalconClient.hop_sound hhop hs.heap hs.alive (hs.curr _ hjob)
    refine ⟨hh, ha, fun j hj => ?_⟩
    obtain rfl := Option.some.inj hj
    exact hcurr _ rfl
  | @complete j hjob hids =>
    set s := t.client.note (.completed j.cb j.curr)
    have hkept : Kept t.client s := .of_layers rfl rfl
    have hh := hs.heap.of_kept hkept
    exact ⟨hh.of_kept (.of_layers rfl rfl),
      FalconClient.alive_collect (s := s) (hs.alive.of_kept hkept rfl) hh none,
      fun j hj => by cases hj⟩
  | @other e s he hstep =>
    have hkept := (FalconClient.meanwhile_step he hstep).toKept
    -- nothing has gone yet: the shared pointers decide
    have hlive : Kept t.client { s with live := t.client.live } :=
      hkept.trans (.of_layers rfl rfl)
    have hh := hs.heap.of_kept hkept
    refine ⟨hh.of_kept (.of_layers rfl rfl),
      FalconClient.alive_collect (hs.alive.of_kept hlive rfl) hh _, fun j hj => ?_⟩
    have hj' : t.job = some j := hj
    refine FalconClient.live_collect.mpr ⟨hs.curr j hj', ?_⟩
    rw [hj']
    exact FalconClient.reached_held

end Library

end Falcon.Client
