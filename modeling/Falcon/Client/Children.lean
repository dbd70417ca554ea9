import Falcon.Client.Leaves

/-!
# Client/Children — what `AddChild` takes for the generation of a child

A child's generation vector is its parent's with one element more: if the layer below has been
rebooted, the vector of the child no longer begins with the one the parent was registered at, and
`AddChild` should not go on.  `IsChild` compares the parent's vector with itself, and so looks at
the lengths alone.

* `extends_iff` — `AddChild` keeps to children of its generation except for replies of the right
  length that do not begin with it.
-/

namespace Falcon.Client

theorem isChild_iff {g1 g2 : List GenNo} : isChild g1 g2 = true ↔ g2.length = g1.length + 1 := by
  simp only [isChild, implies_true, List.all_eq_true, decide_true, and_true, decide_eq_true_eq]
  exact eq_comm

/-- The vectors of the right length are those with one element more, if they begin as they should.
-/
theorem exists_append_iff {g v : List GenNo} :
    (∃ x, v = g ++ [x]) ↔ v.length = g.length + 1 ∧ g <+: v := by
  constructor
  · rintro ⟨x, rfl⟩
    exact ⟨List.length_append, List.prefix_append g [x]⟩
  · rintro ⟨hlen, rest, rfl⟩
    rw [List.length_append] at hlen
    obtain ⟨x, rfl⟩ := List.length_eq_one_iff.mp (Nat.add_left_cancel hlen)
    exact ⟨x, rfl⟩

namespace FalconClient

variable {s s' : FalconClient} {L : LayerRef} {a : AddChildArg} {ans : AddChildAnswers}

/-- `AddChild` comes to `SPY_GET_GEN`: the child is new, and the layer has an RPC client. -/
structure AsksGen (L : LayerRef) (a : AddChildArg) (ans : AddChildAnswers) (s : FalconClient) :
    Prop where
  base : (s.layers L).baseLayer = false
  clnt : (s.layers L).clnt = true
  new : (s.layers L).children a.child = none
  resolves : a.leafLayer = true ∨ ans.resolves = true

/-- Nothing is registered and nothing is added. -/
structure Refused (L : LayerRef) (s s' : FalconClient) (ret : Option LayerRef) : Prop where
  ret : ret = none
  children : (s'.layers L).children = (s.layers L).children
  childLeaves : (s'.layers L).childLeaves = (s.layers L).childLeaves
  calls : ∃ l, s'.log = l ++ s.log ∧ ∀ L' arg reply, .called L' (.register arg) reply ∉ l

/-- `AddChild` registers and adds only what extends the generation of the layer. -/
def Extends (L : LayerRef) (a : AddChildArg) (ans : AddChildAnswers) (s : FalconClient) : Prop :=
  ∀ s' ret, s.addChild L a ans = some (s', ret) →
    (∃ x, ans.genReply.res.target.generation = (s.layers L).gen ++ [x]) ∨ Refused L s s' ret

/-- A reply of the right length that does not begin with the generation `gen`. -/
structure Forged (gen : List GenNo) (reply : Reply) : Prop where
  status : reply.is .genResp = true
  length : reply.res.target.generation.length = gen.length + 1
  begins : ¬gen <+: reply.res.target.generation

theorem AsksGen.begin (h : s.AsksGen L a ans) : s.addChildBegin L a ans.resolves = (s, none) := by
  have hgo : (!a.leafLayer && !ans.resolves) = false := by
    obtain hleaf | hres := h.resolves
    · rw [hleaf, Bool.not_true, Bool.false_and]
    · rw [hres, Bool.not_true, Bool.and_false]
  unfold addChildBegin
  rw [h.new]
  simp only [hgo, h.base, Bool.false_eq_true, if_false]

/-- What `AddChild` goes on with. -/
theorem newGen_eq {gen : List GenNo} {reply : Reply} : newGen gen reply =
    if reply.is .genResp = true ∧ reply.res.target.generation.length = gen.length + 1 then
      some reply.res.target.generation else none := by
  simp only [newGen, Bool.and_eq_true, isChild_iff]

/-- `AddChild` stops at a reply it does not take. -/
theorem AsksGen.refused (h : s.AsksGen L a ans) (hgen : newGen (s.layers L).gen ans.genReply = none)
    {ret : Option LayerRef} (hadd : s.addChild L a ans = some (s', ret)) : Refused L s s' ret := by
  unfold addChild at hadd
  rw [h.begin] at hadd
  simp only [h.clnt, if_true] at hadd
  rw [show newGen ((note _ s).layers L).gen ans.genReply = none from hgen] at hadd
  obtain ⟨rfl, rfl⟩ := Prod.mk.inj (Option.some.inj hadd)
  refine ⟨rfl, rfl, rfl, [_], rfl, fun L' arg reply hmem => ?_⟩
  cases List.mem_singleton.mp hmem

theorem addChildEnd_log {gen : List GenNo} {reply : Reply} :
    (s.addChildEnd L a gen reply).1.log = s.log := by
  unfold addChildEnd
  split
  · rfl
  · rfl

/-- `AddChild` registers what it takes. -/
theorem AsksGen.registers (h : s.AsksGen L a ans) {gen : List GenNo}
    (hgen : newGen (s.layers L).gen ans.genReply = some gen) :
    ∃ s' ret arg, s.addChild L a ans = some (s', ret) ∧
      s'.log = .called L (.register arg) ans.registerReply ::
        .called L (.getGen ⟨a.child, []⟩) ans.genReply :: s.log := by
  have hadd : s.addChild L a ans =
      some ((s.asked L a gen ans).addChildEnd L a gen ans.registerReply) := by
    unfold addChild
    rw [h.begin]
    simp only [h.clnt, if_true]
    rw [show newGen ((note _ s).layers L).gen ans.genReply = some gen from hgen]
    rfl
  exact ⟨(addChildEnd ..).1, (addChildEnd ..).2, s.registerArg L a gen, hadd, addChildEnd_log⟩

/-- **`AddChild` keeps to children of its generation** unless the reply is a vector of the right
length that does not begin with it. -/
theorem extends_iff (h : s.AsksGen L a ans) :
    s.Extends L a ans ↔ ¬Forged (s.layers L).gen ans.genReply := by
  constructor
  · rintro hext ⟨hstatus, hlength, hbegins⟩
    obtain ⟨s', ret, arg, hadd, hlog⟩ :=
      h.registers (newGen_eq.trans (if_pos ⟨hstatus, hlength⟩))
    obtain hchild | hrefused := hext s' ret hadd
    · exact hbegins (exists_append_iff.mp hchild).2
    · obtain ⟨l, hl, hno⟩ := hrefused.calls
      have happ : l = [.called L (.register arg) ans.registerReply,
          .called L (.getGen ⟨a.child, []⟩) ans.genReply] :=
        List.append_cancel_right (hl.symm.trans hlog)
      exact hno L arg ans.registerReply (happ ▸ List.mem_cons_self)
  · intro hforged s' ret hadd
    by_cases hchild : ∃ x, ans.genReply.res.target.generation = (s.layers L).gen ++ [x]
    · exact Or.inl hchild
    · refine Or.inr (h.refused (newGen_eq.trans (if_neg ?_)) hadd)
      rintro ⟨hstatus, hlength⟩
      exact hforged ⟨hstatus, hlength, fun hbegins =>
        hchild (exists_append_iff.mpr ⟨hlength, hbegins⟩)⟩

/-- An application `"a"` on the virtual machine `"vm"`, which is layer 2 and at generation `[1]`. -/
def vmClient : Option FalconClient := (init ⟨1, 0, 0⟩).start (onVm "a") agreesAll ""

/-- A second application `"b"`. -/
def secondApp : AddChildArg := ⟨"b", false, ⟨1, 0, 4⟩, -1, true, 1⟩

theorem extends_second : ∃ s, vmClient = some s ∧ s.Extends 2 secondApp (agrees [1, 5]) := by
  refine ⟨_, rfl, (extends_iff ⟨by decide, by decide, by decide, Or.inl rfl⟩).mpr fun h => ?_⟩
  exact h.begins (by decide)

/-- The hypervisor has been rebooted, and the new vector is taken. -/
theorem rebooted_extends : ∃ s, vmClient = some s ∧ ¬s.Extends 2 secondApp (agrees [2, 5]) := by
  refine ⟨_, rfl, fun h => ?_⟩
  obtain ⟨x, hx⟩ | hrefused := h _ _ rfl
  · cases hx
  · cases hrefused.ret

end FalconClient

end Falcon.Client
