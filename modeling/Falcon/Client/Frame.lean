import Falcon.Client.Tree
import Falcon.Machinery.Run

/-!
# Client/Frame — what leaves the tree of layers alone

Running callbacks, petting watchdogs, handing out tags and the client's own calls change callback
lists, callbacks, the catalogue and the log: every layer keeps its `skeleton`, and no RPC is made
(`Same`).  The methods that do change the tree have one lemma each that says how.
-/

namespace Falcon.Client

/-- A layer without what its callbacks are. -/
def FalconLayer.skeleton (l : FalconLayer) : FalconLayer :=
  { l with cbList := [], upCallback := none }

/-- The action is an RPC. -/
def Action.IsCall : Action → Prop
  | .called _ _ _ => True
  | _ => False

namespace FalconClient

variable {s s' : FalconClient} {L c : LayerRef} {x : LayerId}

/-- The tree is the same. -/
structure Alike (s s' : FalconClient) : Prop where
  skeleton : ∀ L, (s'.layers L).skeleton = (s.layers L).skeleton
  nextLayer : s'.nextLayer = s.nextLayer
  live : s'.live = s.live
  watchdogs : s'.watchdogs = s.watchdogs

/-- The tree is the same, and no call has been made. -/
structure Same (s s' : FalconClient) : Prop extends Alike s s' where
  log : ∃ acts, s'.log = acts ++ s.log ∧ ∀ a ∈ acts, ¬ a.IsCall

theorem Alike.trans {s₁ s₂ s₃ : FalconClient} (h : Alike s₁ s₂) (h' : Alike s₂ s₃) : Alike s₁ s₃ :=
  ⟨fun L => (h'.skeleton L).trans (h.skeleton L), h'.nextLayer.trans h.nextLayer,
    h'.live.trans h.live, h'.watchdogs.trans h.watchdogs⟩

theorem alike_log (log : List Action) : Alike s { s with log := log } :=
  ⟨fun _ => rfl, rfl, rfl, rfl⟩

theorem Same.refl (s : FalconClient) : Same s s := ⟨alike_log s.log, [], rfl, by simp⟩

theorem Same.trans {s₁ s₂ s₃ : FalconClient} (h : Same s₁ s₂) (h' : Same s₂ s₃) : Same s₁ s₃ := by
  obtain ⟨acts, hlog, hacts⟩ := h.log
  obtain ⟨acts', hlog', hacts'⟩ := h'.log
  refine ⟨h.toAlike.trans h'.toAlike, acts' ++ acts, ?_, ?_⟩
  · rw [hlog', hlog, List.append_assoc]
  · exact fun a ha => (List.mem_append.mp ha).elim (hacts' a) (hacts a)

/-- What the skeleton shows of a layer is the same. -/
theorem Alike.proj {α : Type} (h : Alike s s') (p : FalconLayer → α) (hp : ∀ l, p l.skeleton = p l)
    (L : LayerRef) : p (s'.layers L) = p (s.layers L) := by
  rw [← hp (s'.layers L), h.skeleton L, hp]

theorem Alike.children (h : Alike s s') (L : LayerRef) :
    (s'.layers L).children = (s.layers L).children := h.proj _ (fun _ => rfl) L

theorem Alike.childLeaves (h : Alike s s') (L : LayerRef) :
    (s'.layers L).childLeaves = (s.layers L).childLeaves := h.proj _ (fun _ => rfl) L

theorem Alike.baseLayer (h : Alike s s') (L : LayerRef) :
    (s'.layers L).baseLayer = (s.layers L).baseLayer := h.proj _ (fun _ => rfl) L

theorem Alike.path (h : Alike s s') (L : LayerRef) : (s'.layers L).path = (s.layers L).path :=
  h.proj _ (fun _ => rfl) L

@[simp] theorem modify_self (f : FalconLayer → FalconLayer) :
    (s.modify L f).layers L = f (s.layers L) := Function.update_self ..

theorem modify_of_ne {L' : LayerRef} (h : L' ≠ L) (f : FalconLayer → FalconLayer) :
    (s.modify L f).layers L' = s.layers L' := Function.update_of_ne h ..

/-- What a change of one layer does not touch. -/
theorem modify_proj {α : Type} {f : FalconLayer → FalconLayer} (p : FalconLayer → α)
    (hp : ∀ l, p (f l) = p l) (L' : LayerRef) : p ((s.modify L f).layers L') = p (s.layers L') := by
  by_cases h : L' = L
  · subst h
    rw [modify_self, hp]
  · rw [modify_of_ne h]

theorem eraseChild_proj {α : Type} (p : FalconLayer → α)
    (hp : ∀ l f, p { l with children := f } = p l) (L' : LayerRef) :
    p ((s.eraseChild L x).layers L') = p (s.layers L') := modify_proj p (fun l => hp l _) L'

theorem countLeaf_proj {α : Type} {d : ℤ} (p : FalconLayer → α)
    (hp : ∀ l f, p { l with childLeaves := f } = p l) (L' : LayerRef) :
    p ((s.countLeaf L x d).layers L') = p (s.layers L') := modify_proj p (fun l => hp l _) L'

/-- Changing the callbacks of one layer leaves the tree alone. -/
theorem same_modify {f : FalconLayer → FalconLayer} (hf : ∀ l, (f l).skeleton = l.skeleton) :
    Same s (s.modify L f) :=
  ⟨⟨modify_proj _ hf, rfl, rfl, rfl⟩, [], rfl, by simp⟩

theorem same_note {a : Action} (ha : ¬ a.IsCall) : Same s (s.note a) :=
  ⟨alike_log _, [a], rfl, by simpa using ha⟩

theorem same_addCallback (cb : CallbackRef) : Same s (s.addCallback L cb) :=
  same_modify fun _ => rfl

theorem not_isCall_invoked {cb : CallbackRef} {l : List Invocation} :
    ∀ a ∈ l.map (Action.invoked cb), ¬ a.IsCall := by
  intro a ha
  obtain ⟨i, -, rfl⟩ := List.mem_map.mp ha
  exact fun h => h

theorem same_runCallback (lid : LayerId) (fs rs : UInt32) (cb : CallbackRef) :
    Same s (s.runCallback lid fs rs cb) :=
  ⟨⟨fun _ => rfl, rfl, rfl, rfl⟩, _, rfl, not_isCall_invoked⟩

theorem same_runCallbacks (lid : LayerId) (fs rs : UInt32) :
    Same s (s.runCallbacks L lid fs rs) := by
  have hclear : Same s (s.modify L fun l => { l with cbList := [] }) := same_modify fun _ => rfl
  exact hclear.trans (Run.foldl_rel Same.refl (fun _ _ _ => Same.trans)
    (fun _ cb => same_runCallback lid fs rs cb) _ _)

theorem same_setUpCallbackTime : Same s (s.setUpCallbackTime L) := by
  have hnote : Same s (s.note (.pet L)) := same_note fun h => h
  unfold setUpCallbackTime
  split
  · unfold pet
    dsimp only
    split
    · exact hnote
    · exact hnote.trans (same_runCallback ..)
  · exact Same.refl s

theorem same_doChildUp (gen : List GenNo) : Same s (s.doChildUp L x gen) := by
  unfold doChildUp
  split
  · exact Same.refl s
  · split
    · exact same_setUpCallbackTime
    · exact Same.refl s

theorem same_startTimer (cb : CallbackRef) : Same s (s.startTimer L cb) := by
  unfold startTimer
  split
  · exact same_modify fun _ => rfl
  · exact Same.refl s

theorem same_useCallback (cb : CallbackRef) (op : FalconCallback.Op) :
    Same s (s.useCallback cb op) :=
  ⟨⟨fun _ => rfl, rfl, rfl, rfl⟩, _, rfl, not_isCall_invoked⟩

/-! ## What `DoChildDown` can do -/

theorem doChildDown_none {gen : List GenNo} {fs rs : UInt32} (hc : (s.layers L).children x = none) :
    s.doChildDown L x gen fs rs = s := by rw [doChildDown, hc]

/-- A report for a child that is there takes it out. -/
theorem doChildDown_children {gen : List GenNo} {fs rs : UInt32}
    (hc : (s.layers L).children x = some c) (hgen : genEq (s.layers c).gen gen = true) :
    ((s.doChildDown L x gen fs rs).layers L).children =
      Function.update (s.layers L).children x none := by
  have hrun := (same_runCallbacks (s := s) (L := c) x fs rs).children L
  rw [doChildDown, hc]
  simp only [hgen, if_true, destroy, eraseChild, modify_self, hrun]

/-- What a report does not touch. -/
theorem doChildDown_proj {α : Type} {gen : List GenNo} {fs rs : UInt32} (p : FalconLayer → α)
    (hskel : ∀ l, p l.skeleton = p l) (hp : ∀ l f, p { l with children := f } = p l)
    (L' : LayerRef) : p ((s.doChildDown L x gen fs rs).layers L') = p (s.layers L') := by
  unfold doChildDown
  split
  · rfl
  · next c _ =>
    split
    · have hrun := (same_runCallbacks (s := s) (L := c) x fs rs).proj p hskel L'
      exact (eraseChild_proj p hp L').trans hrun
    · rfl

theorem doChildDown_nextLayer {gen : List GenNo} {fs rs : UInt32} :
    (s.doChildDown L x gen fs rs).nextLayer = s.nextLayer := by
  unfold doChildDown
  split
  · rfl
  · next c _ =>
    split
    · exact (same_runCallbacks (s := s) (L := c) x fs rs).nextLayer
    · rfl

/-! ## What `AddChild` can do -/

/-- The generation a new child gets from `AddChild` at a layer with generation `gen`, unless it is
refused: by `getaddrinfo`, by `SPY_GET_GEN`, by `IsChild` or by `SPY_REGISTER`. -/
def admits (base : Bool) (gen : List GenNo) (leaf : Bool) (ans : AddChildAnswers) :
    Option (List GenNo) :=
  if !leaf && !ans.resolves then none
  else if base then some gen
  else if ans.registerReply.is .registerAck then newGen gen ans.genReply else none

/-- The calls `AddChild` makes for a new child at a layer other than the base. -/
def asked (L : LayerRef) (a : AddChildArg) (gen : List GenNo) (ans : AddChildAnswers)
    (s : FalconClient) : FalconClient :=
  (s.note (.called L (.getGen ⟨a.child, []⟩) ans.genReply)).note
    (.called L (.register (s.registerArg L a gen)) ans.registerReply)

/-- **What `AddChild` can do**: find the child, enter a new one, or refuse. -/
inductive AddChildEffect (L : LayerRef) (a : AddChildArg) (ans : AddChildAnswers)
    (s : FalconClient) : FalconClient → Option LayerRef → Prop
  | found {c : LayerRef} (hc : (s.layers L).children a.child = some c) :
      AddChildEffect L a ans s (s.addCallback c a.cb) (some c)
  | atBase (hc : (s.layers L).children a.child = none) (hbase : (s.layers L).baseLayer = true)
      (hadm : admits true (s.layers L).gen a.leafLayer ans = some (s.layers L).gen) :
      AddChildEffect L a ans s (s.install L a (s.layers L).gen) (some s.nextLayer)
  | registered {gen : List GenNo} (hc : (s.layers L).children a.child = none)
      (hbase : (s.layers L).baseLayer = false)
      (hadm : admits false (s.layers L).gen a.leafLayer ans = some gen)
      (hack : ans.registerReply.is .registerAck = true) :
      AddChildEffect L a ans s ((s.asked L a gen ans).install L a gen) (some s.nextLayer)
  | refused {l : List Action} (hc : (s.layers L).children a.child = none)
      (hadm : admits (s.layers L).baseLayer (s.layers L).gen a.leafLayer ans = none)
      (hl : ∀ b ∈ l, (∃ tgt, b = .called L (.getGen tgt) ans.genReply) ∨
        ∃ arg, b = .called L (.register arg) ans.registerReply ∧
          ans.registerReply.is .registerAck = false) :
      AddChildEffect L a ans s { s with log := l ++ s.log } none

theorem addChild_effect {a : AddChildArg} {ans : AddChildAnswers} {ret : Option LayerRef}
    (h : s.addChild L a ans = some (s', ret)) : AddChildEffect L a ans s s' ret := by
  unfold addChild addChildBegin at h
  cases hc : (s.layers L).children a.child with
  | some c =>
    simp only [hc, Option.some.injEq, Prod.mk.injEq] at h
    obtain ⟨rfl, rfl⟩ := h
    exact .found hc
  | none =>
    simp only [hc] at h
    cases hres : !a.leafLayer && !ans.resolves with
    | true =>
      simp only [hres, if_true, Option.some.injEq, Prod.mk.injEq] at h
      obtain ⟨rfl, rfl⟩ := h
      exact .refused (l := []) hc (by simp [admits, hres]) (by simp)
    | false =>
      cases hbase : (s.layers L).baseLayer with
      | true =>
        simp only [hres, hbase, Bool.false_eq_true, if_false, if_true, Option.some.injEq,
          Prod.mk.injEq] at h
        obtain ⟨rfl, rfl⟩ := h
        exact .atBase hc hbase (by simp [admits, hres])
      | false =>
        simp only [hres, hbase, Bool.false_eq_true, if_false] at h
        have hadm : admits (s.layers L).baseLayer (s.layers L).gen a.leafLayer ans =
            if ans.registerReply.is .registerAck then newGen (s.layers L).gen ans.genReply
            else none := by simp [admits, hres, hbase]
        split at h
        · split at h
          · next hgen =>
            simp only [Option.some.injEq, Prod.mk.injEq] at h
            obtain ⟨rfl, rfl⟩ := h
            refine .refused (l := [.called L (.getGen ⟨a.child, []⟩) ans.genReply]) hc ?_ ?_
            · rw [hadm, show newGen (s.layers L).gen ans.genReply = none from hgen, ite_self]
            · exact fun b hb => Or.inl ⟨_, List.mem_singleton.mp hb⟩
          · next gen hgen =>
            have hgen' : newGen (s.layers L).gen ans.genReply = some gen := hgen
            rw [hgen'] at hadm
            unfold addChildEnd at h
            split at h
            · next hack =>
              simp only [Option.some.injEq, Prod.mk.injEq] at h
              obtain ⟨rfl, rfl⟩ := h
              rw [if_pos hack, hbase] at hadm
              exact .registered hc hbase hadm hack
            · next hack =>
              simp only [Option.some.injEq, Prod.mk.injEq] at h
              obtain ⟨rfl, rfl⟩ := h
              rw [if_neg hack] at hadm
              refine .refused (l := [.called L (.register (s.registerArg L a gen))
                ans.registerReply, .called L (.getGen ⟨a.child, []⟩) ans.genReply]) hc hadm ?_
              intro b hb
              obtain rfl | hb := List.mem_cons.mp hb
              · exact Or.inr ⟨_, rfl, Bool.not_eq_true _ ▸ hack⟩
              · exact Or.inl ⟨_, List.mem_singleton.mp hb⟩
        · cases h

/-- The layers after a child has been entered. -/
theorem install_layers {a : AddChildArg} {gen : List GenNo} (hL : L < s.nextLayer) (L' : LayerRef) :
    (s.install L a gen).layers L' =
      if L' = s.nextLayer then s.newLayer L a gen
      else if L' = L then
        { s.layers L with
          children := Function.update (s.layers L).children a.child (some s.nextLayer)
          childLeaves := Function.update (s.layers L).childLeaves a.child
            ((s.layers L).childLeaves a.child + 1) }
      else s.layers L' := by
  simp only [install]
  by_cases hnew : L' = s.nextLayer
  · rw [if_pos hnew, hnew, Function.update_self]
  · rw [if_neg hnew, Function.update_of_ne hnew]
    by_cases hL' : L' = L
    · subst hL'
      rw [if_pos rfl, modify_self, countLeaf, modify_self]
    · rw [if_neg hL', modify_of_ne hL', countLeaf, modify_of_ne hL']

theorem install_children {a : AddChildArg} {gen : List GenNo} (hL : L < s.nextLayer) :
    ((s.install L a gen).layers L).children =
      Function.update (s.layers L).children a.child (some s.nextLayer) := by
  rw [install_layers hL, if_neg (Nat.ne_of_lt hL), if_pos rfl]

theorem install_gen_self {a : AddChildArg} {gen : List GenNo} (hL : L < s.nextLayer) :
    ((s.install L a gen).layers s.nextLayer).gen = gen := by
  rw [install_layers hL, if_pos rfl]
  rfl

/-- What entering a child does not touch in the layers that are there. -/
theorem install_proj {α : Type} {a : AddChildArg} {gen : List GenNo} (p : FalconLayer → α)
    (hp : ∀ l f n, p { l with children := f, childLeaves := n } = p l) (hL : L < s.nextLayer)
    (hc : c < s.nextLayer) : p ((s.install L a gen).layers c) = p (s.layers c) := by
  rw [install_layers hL, if_neg (Nat.ne_of_lt hc)]
  split
  · next h => rw [h]; exact hp _ _ _
  · rfl

/-! ## What `CancelChild` and `KillChild` can do -/

theorem cancelChild_effect {reply : Reply} (h : s.cancelChild L x reply = some s') :
    ((s.layers L).baseLayer = true ∧ s' = s) ∨
      (s.layers L).baseLayer = false ∧
        ((s.layers L).childLeaves x ≠ 1 ∧ s' = s.countLeaf L x (-1) ∨
          (s.layers L).childLeaves x = 1 ∧ ∃ arg, arg.target.handle = x ∧
            s' = (s.countLeaf L x (-1)).note (.called L (.cancel arg) reply)) := by
  have hcount : ((s.countLeaf L x (-1)).layers L).childLeaves x =
      (s.layers L).childLeaves x - 1 := by
    rw [countLeaf, modify_self]
    exact Function.update_self ..
  unfold cancelChild at h
  split at h
  · next hbase => exact Or.inl ⟨hbase, (Option.some.inj h).symm⟩
  · next hbase =>
    refine Or.inr ⟨Bool.not_eq_true _ ▸ hbase, ?_⟩
    dsimp only at h
    rw [hcount] at h
    split at h
    · next hne => exact Or.inl ⟨by omega, (Option.some.inj h).symm⟩
    · next heq =>
      split at h
      · exact Or.inr ⟨by omega, _, rfl, (Option.some.inj h).symm⟩
      · cases h

theorem killChild_effect {reply : Reply} {r : ℤ} (h : s.killChild L x reply = some (s', r)) :
    Same s s' ∨ ∃ tgt, Same (s.note (.called L (.kill tgt) reply)) s' := by
  unfold killChild at h
  split at h
  · cases h
  · split at h
    · obtain ⟨rfl, -⟩ := Prod.mk.inj (Option.some.inj h)
      exact Or.inl (Same.refl s)
    · split at h
      · split at h
        · dsimp only at h
          refine Or.inr ⟨⟨x, s.genOfChild L x⟩, ?_⟩
          split at h
          · obtain ⟨rfl, -⟩ := Prod.mk.inj (Option.some.inj h)
            exact Same.refl _
          · split at h
            · obtain ⟨rfl, -⟩ := Prod.mk.inj (Option.some.inj h)
              exact same_runCallbacks ..
            · obtain ⟨rfl, -⟩ := Prod.mk.inj (Option.some.inj h)
              exact Same.refl _
        · cases h
      · obtain ⟨rfl, -⟩ := Prod.mk.inj (Option.some.inj h)
        exact Or.inl (same_runCallbacks ..)

/-- A layer of an otherwise empty client, with an RPC client and no children. -/
def lonelyLayer : FalconClient :=
  (init ⟨1, 0, 0⟩).install 0 ⟨"vm", false, ⟨1, 0, 1⟩, -1, false, 0⟩ []

end FalconClient

end Falcon.Client
