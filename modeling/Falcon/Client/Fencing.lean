import Falcon.Client.Tree
import Falcon.Machinery.Run

/-!
# Client/Fencing — which reports about earlier generations are turned away

A report names the generation it is about, and the layer that gets it compares this with the
generation its child is registered for: what comes late, twice or out of order should find a
different vector and change nothing (`Fenced`).  The comparison looks at the lengths only, so the
vectors that differ elsewhere pass: `fenced_iff` says exactly which messages are fenced.
-/

namespace Falcon.Client.FalconClient

variable {s s' : FalconClient} {m : Message} {L c : LayerRef}

/-- `c` is the child a report is about, at the layer its tag leads to. -/
def Addresses (s : FalconClient) (m : Message) (c : LayerRef) : Prop :=
  ∃ L, s.getLayer m.cid = some L ∧ (s.layers L).children m.handle = some c

/-- A report has an effect on the tree or on a callback only if it is about the generation under
which the child it addresses is registered. -/
def Fenced (s : FalconClient) (m : Message) : Prop :=
  s.receive m ≠ s → ∃ c, s.Addresses m c ∧ (s.layers c).gen = m.generation

/-- The vectors of the child and of the report differ in length, or not at all; a sign of life for a
layer without a watchdog may be about any generation. -/
def Separated (s : FalconClient) (m : Message) : Prop :=
  ∀ c, s.Addresses m c →
    (s.layers c).gen.length ≠ m.generation.length ∨ (s.layers c).gen = m.generation ∨
      ∃ arg, m = .up arg ∧ (s.layers c).watchdog = false

/-! ## One message -/

theorem Addresses.unique {c' : LayerRef} (h : s.Addresses m c) (h' : s.Addresses m c') :
    c = c' := by
  obtain ⟨L, hL, hc⟩ := h
  obtain ⟨L', hL', hc'⟩ := h'
  obtain rfl : L = L' := Option.some.inj (hL.symm.trans hL')
  exact Option.some.inj (hc.symm.trans hc')

/-- A message nobody is registered for is dropped. -/
theorem receive_of_not_addresses (h : ∀ c, ¬ s.Addresses m c) : s.receive m = s := by
  have hnone : ∀ L, s.getLayer m.cid = some L → (s.layers L).children m.handle = none := fun L hL =>
    Option.eq_none_iff_forall_ne_some.mpr fun c hc => h c ⟨L, hL, hc⟩
  cases hL : s.getLayer m.cid with
  | none => cases m <;> simp_all [receive, receivedUp, receivedDown, Message.cid]
  | some L =>
    have hc := hnone L hL
    cases m <;> simp_all [receive, receivedUp, receivedDown, Message.cid, Message.handle, doChildUp,
      doChildDown]

/-- A sign of life pets the watchdog of the child if the vectors have one length. -/
theorem receive_up {arg : ClientUpArg} (h : s.Addresses (.up arg) c) : s.receive (.up arg) =
    if (s.layers c).gen.length = (Message.up arg).generation.length then s.setUpCallbackTime c
    else s := by
  obtain ⟨L, hL, hc⟩ := h
  simp only [Message.cid, Message.handle] at hL hc
  simp only [receive, receivedUp, hL, doChildUp, hc, genEq_iff]
  rfl

/-- A down takes the child away if the vectors have one length. -/
theorem receive_down {arg : ClientDownArg} (hL : s.getLayer arg.clientTag = some L)
    (hc : (s.layers L).children arg.handle = some c) : s.receive (.down arg) =
    if (s.layers c).gen.length = (Message.down arg).generation.length then
      ((s.runCallbacks c arg.handle (downStatus arg) arg.layerStatus).eraseChild L
        arg.handle).destroy c
    else s := by
  simp only [receive, receivedDown, hL, doChildDown, hc, genEq_iff]
  rfl

theorem pet_ne (L : LayerRef) : s.pet L ≠ s := by
  intro h
  have hlog : (s.pet L).log.length = s.log.length := by rw [h]
  unfold pet at hlog
  dsimp only at hlog
  split at hlog
  · simp [note] at hlog
  · simp only [runCallback, note, List.length_append, List.length_cons] at hlog
    omega

/-- **One message is fenced exactly if the lengths separate it.** -/
theorem fenced_iff : s.Fenced m ↔ s.Separated m := by
  constructor
  · intro hf c hc
    by_contra hnot
    simp only [not_or, not_not] at hnot
    obtain ⟨hlen, hne, hup⟩ := hnot
    have hmoves : s.receive m ≠ s := by
      cases m with
      | up arg =>
        have hw : (s.layers c).watchdog = true :=
          Bool.not_eq_false _ ▸ fun h => hup ⟨arg, rfl, h⟩
        rw [receive_up hc, if_pos hlen, setUpCallbackTime, if_pos hw]
        exact pet_ne c
      | down arg =>
        obtain ⟨L, hL, hchild⟩ := hc
        rw [receive_down hL hchild, if_pos hlen]
        intro h
        have hnone : (s.layers L).children arg.handle = none := by
          rw [← h]
          simp [destroy, eraseChild, modify]
        exact Option.some_ne_none c (hchild.symm.trans hnone)
    obtain ⟨c', hc', hgen⟩ := hf hmoves
    exact hne (hc'.unique hc ▸ hgen)
  · intro hsep hmoves
    by_contra hnot
    by_cases haddr : ∃ c, s.Addresses m c
    · obtain ⟨c, hc⟩ := haddr
      obtain hlen | hgen | ⟨arg, rfl, hw⟩ := hsep c hc
      · cases m with
        | up arg => exact hmoves ((receive_up hc).trans (if_neg hlen))
        | down arg =>
          obtain ⟨L, hL, hchild⟩ := hc
          exact hmoves ((receive_down hL hchild).trans (if_neg hlen))
      · exact hnot ⟨c, hc, hgen⟩
      · refine hmoves ((receive_up hc).trans ?_)
        rw [setUpCallbackTime, hw]
        exact ite_self s
    · exact hmoves (receive_of_not_addresses fun c hc => haddr ⟨c, hc⟩)

/-! ## Every run -/

/-- **Stale reports are fenced**, in a run from any client state, exactly if no report is of the
length of the vector its child is registered for without being that vector. -/
theorem reports_fenced_iff (s : FalconClient) (es : List Event) :
    Run.Along step (fun s e _ => ∀ m, e = .report m → s.Fenced m) s es ↔
      Run.Along step (fun s e _ => ∀ m, e = .report m → s.Separated m) s es :=
  Run.along_iff_of_inv (I := fun _ => True)
    (fun _ _ _ _ _ h => ⟨trivial, fun m hm => fenced_iff.mpr (h m hm)⟩)
    (fun _ _ _ _ _ h m hm => fenced_iff.mp (h m hm)) trivial

/-- An answer of an enforcer at the vector `gen`. -/
def answer (status : SpyStatus) (gen : List GenNo) : Reply := ⟨.success, ⟨⟨"", gen⟩, status⟩⟩

/-- The request for `"app"` on `"vm"`. -/
def appOnVm : StartRequest := ⟨["app", "vm"], false, none, 0, -1, 0, 0, 0⟩

/-- `"app"` is registered at generation 1, and a report about generation 0 comes late. -/
def lateReport : List Event :=
  [.start appOnVm (fun _ => ⟨true, answer .genResp [1], answer .registerAck [1]⟩) "",
   .report (.down ⟨"app", [0], 0, false, false, 1⟩)]

/-- The late report about generation 0 takes generation 1 away. -/
theorem late_report_unfenced : ¬ Run.Along step (fun s e _ => ∀ m, e = .report m → s.Fenced m)
    (init ⟨1, 0, 0⟩) lateReport := by
  intro h
  obtain ⟨s, hs, hL, hc, hgen⟩ : ∃ s, step (init ⟨1, 0, 0⟩) (.start appOnVm
        (fun _ => ⟨true, answer .genResp [1], answer .registerAck [1]⟩) "") = some s ∧
      s.getLayer 1 = some 1 ∧ (s.layers 1).children "app" = some 2 ∧ (s.layers 2).gen = [1] :=
    ⟨_, rfl, by decide, by decide, by decide⟩
  have hfenced := ((h s hs).2 _ rfl).1 (.down ⟨"app", [0], 0, false, false, 1⟩) rfl
  have hsep := fenced_iff.mp hfenced 2 ⟨1, hL, hc⟩
  rw [hgen] at hsep
  obtain h | h | ⟨arg, h, -⟩ := hsep
  · exact h rfl
  · exact absurd h (by decide)
  · cases h

end Falcon.Client.FalconClient
