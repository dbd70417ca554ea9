import Falcon.Client.Frame
import Falcon.Machinery.Since

/-!
# Client/Mirror — `children_` against the registrations at the enforcer

What a layer holds in `children_` it should be registered for: `AddChild` enters a child when the
enforcer acknowledges, `DoChildDown` takes it out when the enforcer has reported it down, and the
reuse path of `AddChild` trusts the entry without a call.  `CancelChild` ends the registration and
leaves the entry: `mirrors_iff` says that this is the only operation that breaks the mirror.
-/

namespace Falcon.Client

/-- The action is an acknowledged `SPY_REGISTER` of `L` for `x`. -/
def Action.Registers (L : LayerRef) (x : LayerId) (a : Action) : Prop :=
  ∃ arg reply, a = .called L (.register arg) reply ∧ arg.target.handle = x ∧
    reply.is .registerAck = true

/-- The action is an acknowledged `SPY_CANCEL` of `L` for `x`. -/
def Action.Cancels (L : LayerRef) (x : LayerId) (a : Action) : Prop :=
  ∃ arg reply, a = .called L (.cancel arg) reply ∧ arg.target.handle = x ∧
    reply.is .cancelAck = true

namespace FalconClient

variable {s s' : FalconClient} {L c : LayerRef} {x : LayerId}

/-- The last successful `SPY_REGISTER` or `SPY_CANCEL` of `L` for each of its children was a
`SPY_REGISTER`. -/
def Mirrors (L : LayerRef) (s : FalconClient) : Prop :=
  ∀ x, (s.layers L).children x ≠ none →
    Since (fun a => ¬ a.Cancels L x) (Action.Registers L x) s.log

/-- The operations on one layer that this is about. -/
inductive LayerOp
  | addChild (a : AddChildArg) (ans : AddChildAnswers)
  | cancelChild (x : LayerId) (reply : Reply)
  | killChild (x : LayerId) (reply : Reply)
  | doChildDown (x : LayerId) (gen : List GenNo) (falconStatus remoteStatus : UInt32)

def layerStep (L : LayerRef) (s : FalconClient) : LayerOp → Option FalconClient
  | .addChild a ans => (s.addChild L a ans).map Prod.fst
  | .cancelChild x reply => s.cancelChild L x reply
  | .killChild x reply => (s.killChild L x reply).map Prod.fst
  | .doChildDown x gen fs rs => some (s.doChildDown L x gen fs rs)

/-- The operation cancels the last leaf of a child that is still entered, and is acknowledged. -/
def Orphans (L : LayerRef) (s : FalconClient) (op : LayerOp) : Prop :=
  ∃ x reply, op = .cancelChild x reply ∧ reply.is .cancelAck = true ∧
    (s.layers L).childLeaves x = 1 ∧ (s.layers L).children x ≠ none

/-! ## One operation -/

theorem not_cancels_of_not_isCall {a : Action} (h : ¬ a.IsCall) : ¬ a.Cancels L x := by
  rintro ⟨_, _, rfl, -⟩
  exact h trivial

/-- Nothing is entered and nothing cancelled. -/
theorem Mirrors.of_log {l : List Action} (hs : s.Mirrors L)
    (hchild : ∀ x, (s'.layers L).children x ≠ none → (s.layers L).children x ≠ none)
    (hlog : s'.log = l ++ s.log) (hl : ∀ a ∈ l, ∀ x, ¬ a.Cancels L x) : s'.Mirrors L := by
  intro x hx
  rw [hlog]
  exact (hs x (hchild x hx)).append fun a ha => hl a ha x

theorem Mirrors.of_same (hs : s.Mirrors L) (h : Same s s') : s'.Mirrors L := by
  obtain ⟨acts, hlog, hacts⟩ := h.log
  exact hs.of_log (fun x hx => by rwa [h.children] at hx) hlog fun a ha _ =>
    not_cancels_of_not_isCall (hacts a ha)

/-- A call that is no cancellation. -/
theorem Mirrors.note {req : Request} {reply : Reply} (hs : s.Mirrors L)
    (hreq : ∀ arg, req ≠ .cancel arg) : (s.note (.called L req reply)).Mirrors L := by
  refine hs.of_log (l := [.called L req reply]) (fun _ h => h) rfl fun a ha x => ?_
  obtain rfl := List.mem_singleton.mp ha
  rintro ⟨arg, _, h, -⟩
  injection h with _ h
  exact hreq arg h

/-- The child `AddChild` enters is the one whose registration has just been acknowledged. -/
theorem mirrors_install {a : AddChildArg} {gen : List GenNo} (hs : s.Mirrors L)
    (hL : L < s.nextLayer)
    (hack : Since (fun b => ¬ b.Cancels L a.child) (Action.Registers L a.child) s.log) :
    (s.install L a gen).Mirrors L := by
  intro x hx
  by_cases hxa : x = a.child
  · subst hxa
    exact hack
  · refine hs x ?_
    simpa [install, Nat.ne_of_lt hL, modify, countLeaf, hxa] using hx

theorem mirrors_addChild {a : AddChildArg} {ans : AddChildAnswers} {ret : Option LayerRef}
    (hs : s.Mirrors L) (hL : L < s.nextLayer) (hbase : (s.layers L).baseLayer = false)
    (h : s.addChild L a ans = some (s', ret)) : s'.Mirrors L := by
  cases addChild_effect h with
  | found => exact hs.of_same (same_addCallback _)
  | atBase _ hb => exact absurd (hbase.symm.trans hb) Bool.false_ne_true
  | @registered gen _ _ _ hack =>
    have hasked : (s.asked L a gen ans).Mirrors L :=
      (hs.note fun _ h => by cases h).note fun _ h => by cases h
    exact mirrors_install hasked hL (Or.inl ⟨_, _, rfl, rfl, hack⟩)
  | refused _ _ hacts =>
    refine hs.of_log (fun _ h => h) rfl fun b hb x => ?_
    obtain ⟨_, rfl⟩ | ⟨_, rfl, -⟩ := hacts b hb <;> rintro ⟨_, _, h, -⟩ <;> cases h

theorem mirrors_cancelChild {reply : Reply} (hs : s.Mirrors L)
    (h : s.cancelChild L x reply = some s') (hsafe : ¬ s.Orphans L (.cancelChild x reply)) :
    s'.Mirrors L := by
  have hchild : ∀ y, ((s.countLeaf L x (-1)).layers L).children y = (s.layers L).children y :=
    fun y => by rw [countLeaf, modify_self]
  obtain ⟨-, rfl⟩ | ⟨-, ⟨-, rfl⟩ | ⟨hlast, arg, harg, rfl⟩⟩ := cancelChild_effect h
  · exact hs
  · exact hs.of_log (l := []) (fun y hy => hchild y ▸ hy) rfl (by simp)
  · intro y hy
    have hy' : (s.layers L).children y ≠ none := hchild y ▸ hy
    refine Or.inr ⟨?_, hs y hy'⟩
    rintro ⟨arg', reply', h', hy'', hack⟩
    injection h' with _ hreq hreply
    injection hreq with hreq
    subst hreq hreply
    obtain rfl : x = y := harg.symm.trans hy''
    exact hsafe ⟨x, reply, rfl, hack, hlast, hy'⟩

theorem mirrors_doChildDown (hs : s.Mirrors L) (gen : List GenNo) (fs rs : UInt32) :
    (s.doChildDown L x gen fs rs).Mirrors L := by
  unfold doChildDown
  split
  · exact hs
  · next c hc =>
    split
    · have hrun := same_runCallbacks (s := s) (L := c) x fs rs
      obtain ⟨acts, hlog, hacts⟩ := hrun.log
      refine hs.of_log (fun y hy => ?_) hlog fun a ha _ => not_cancels_of_not_isCall (hacts a ha)
      simp only [destroy, eraseChild, modify_self, hrun.children] at hy
      by_cases hyx : y = x
      · subst hyx
        exact (hy (Function.update_self ..)).elim
      · rwa [Function.update_of_ne hyx] at hy
    · exact hs

/-! ## Every sequence -/

/-- The operations leave the layer allocated and below the base. -/
theorem layerStep_const {op : LayerOp} (hL : L < s.nextLayer)
    (hbase : (s.layers L).baseLayer = false) (h : layerStep L s op = some s') :
    L < s'.nextLayer ∧ (s'.layers L).baseLayer = false := by
  have hsame : ∀ {s₁ s₂ : FalconClient}, Same s₁ s₂ → L < s₁.nextLayer →
      (s₁.layers L).baseLayer = false → L < s₂.nextLayer ∧ (s₂.layers L).baseLayer = false :=
    fun h hn hb => ⟨h.nextLayer ▸ hn, (h.baseLayer L).trans hb⟩
  cases op with
  | addChild a ans =>
    obtain ⟨⟨s₁, ret⟩, hadd, rfl⟩ := Option.map_eq_some_iff.mp h
    cases addChild_effect hadd with
    | found => exact hsame (same_addCallback _) hL hbase
    | atBase _ hb => exact absurd (hbase.symm.trans hb) Bool.false_ne_true
    | @registered gen _ _ _ _ =>
      refine ⟨Nat.lt_succ_of_lt hL, ?_⟩
      have hne : L ≠ (s.asked L a gen ans).nextLayer := Nat.ne_of_lt hL
      rw [install_layers (s := s.asked L a gen ans) hL, if_neg hne, if_pos rfl]
      exact hbase
    | refused => exact ⟨hL, hbase⟩
  | cancelChild x reply =>
    have hcount : ((s.countLeaf L x (-1)).layers L).baseLayer = false := by
      rw [countLeaf, modify_self]
      exact hbase
    obtain ⟨-, rfl⟩ | ⟨-, ⟨-, rfl⟩ | ⟨-, arg, -, rfl⟩⟩ := cancelChild_effect h
    · exact ⟨hL, hbase⟩
    · exact ⟨hL, hcount⟩
    · exact ⟨hL, hcount⟩
  | killChild x reply =>
    obtain ⟨⟨s₁, r⟩, hkill, rfl⟩ := Option.map_eq_some_iff.mp h
    obtain h | ⟨tgt, h⟩ := killChild_effect hkill
    · exact hsame h hL hbase
    · exact hsame h hL hbase
  | doChildDown x gen fs rs =>
    obtain rfl := Option.some.inj h
    unfold doChildDown
    split
    · exact ⟨hL, hbase⟩
    · next c hc =>
      split
      · obtain ⟨hn, hb⟩ := hsame (same_runCallbacks (L := c) x fs rs) hL hbase
        exact ⟨hn, by simpa [destroy, eraseChild] using hb⟩
      · exact ⟨hL, hbase⟩

/-- **`children_` mirrors the registrations**, after every sequence of operations on a layer that
starts without children, exactly if no acknowledged cancellation of a last leaf finds its child
still entered. -/
theorem mirrors_iff (s : FalconClient) (L : LayerRef) (ops : List LayerOp) (hL : L < s.nextLayer)
    (hbase : (s.layers L).baseLayer = false) (hempty : ∀ x, (s.layers L).children x = none) :
    Run.Always (layerStep L) (Mirrors L) s ops ↔
      Run.Along (layerStep L) (fun s op _ => ¬ s.Orphans L op) s ops := by
  refine Run.always_iff_of_inv
    (I := fun s => L < s.nextLayer ∧ (s.layers L).baseLayer = false ∧ s.Mirrors L)
    (fun s hs => hs.2.2) ?_ ?_ ⟨hL, hbase, fun x hx => (hx (hempty x)).elim⟩
  · rintro s op s' h ⟨hL, hbase, hs⟩ hsafe
    obtain ⟨hL', hbase'⟩ := layerStep_const hL hbase h
    refine ⟨hL', hbase', ?_⟩
    cases op with
    | addChild a ans =>
      obtain ⟨⟨s₁, ret⟩, hadd, rfl⟩ := Option.map_eq_some_iff.mp h
      exact mirrors_addChild hs hL hbase hadd
    | cancelChild x reply => exact mirrors_cancelChild hs h hsafe
    | killChild x reply =>
      obtain ⟨⟨s₁, r⟩, hkill, rfl⟩ := Option.map_eq_some_iff.mp h
      obtain hsame | ⟨tgt, hsame⟩ := killChild_effect hkill
      · exact hs.of_same hsame
      · exact (hs.note fun _ h => by cases h).of_same hsame
    | doChildDown x gen fs rs => exact Option.some.inj h ▸ mirrors_doChildDown hs gen fs rs
  · rintro s op s' h ⟨hL, hbase, hs⟩ hmirror ⟨x, reply, rfl, hack, hlast, hchild⟩
    obtain ⟨hb, -⟩ | ⟨-, ⟨hne, -⟩ | ⟨-, arg, harg, rfl⟩⟩ := cancelChild_effect h
    · exact absurd (hbase.symm.trans hb) Bool.false_ne_true
    · exact hne hlast
    · obtain ⟨_, _, h', -⟩ | ⟨hno, -⟩ := hmirror x (by rwa [note, countLeaf, modify_self])
      · cases h'
      · exact hno ⟨arg, reply, rfl, harg, hack⟩

/-- `"app"` is added and cancelled, both acknowledged. -/
def addThenCancel : List LayerOp :=
  [.addChild ⟨"app", false, ⟨1, 0, 2⟩, -1, true, 0⟩
      ⟨true, ⟨.success, ⟨⟨"app", [0]⟩, .genResp⟩⟩, ⟨.success, ⟨⟨"app", [0]⟩, .registerAck⟩⟩⟩,
   .cancelChild "app" ⟨.success, ⟨⟨"app", [0]⟩, .cancelAck⟩⟩]

theorem mirrors_added :
    Run.Always (layerStep 1) (Mirrors 1) lonelyLayer (addThenCancel.take 1) := by
  refine (mirrors_iff lonelyLayer 1 _ (by decide) (by decide) fun _ => rfl).mpr ?_
  intro s' _
  refine ⟨?_, Run.Along.nil⟩
  rintro ⟨_, _, h, -⟩
  cases h

/-- After the cancellation `"app"` is still among the children, and would be reused. -/
theorem cancelled_child_kept :
    ¬ Run.Always (layerStep 1) (Mirrors 1) lonelyLayer addThenCancel := by
  intro h
  obtain ⟨s, hs, hchild, log, hlog⟩ : ∃ s, addThenCancel.foldlM (layerStep 1) lonelyLayer = some s ∧
      (s.layers 1).children "app" ≠ none ∧ ∃ log, s.log =
        .called 1 (.cancel ⟨⟨"app", [0]⟩, ⟨1, 0, 1⟩⟩)
          ⟨.success, ⟨⟨"app", [0]⟩, .cancelAck⟩⟩ :: log :=
    ⟨_, rfl, by decide, _, rfl⟩
  have hmirror := Run.always_iff_run.mp h addThenCancel List.prefix_rfl s hs "app" hchild
  rw [hlog] at hmirror
  obtain ⟨_, _, h', -⟩ | ⟨hno, -⟩ := hmirror
  · cases h'
  · exact hno ⟨_, _, rfl, rfl, rfl⟩

end FalconClient

end Falcon.Client
