import Falcon.Client.Frame
import Falcon.Enforcer.Downs
import Falcon.Machinery.Since
import Falcon.System.Link

/-!
# System/LostDown — a down report that overtakes the acknowledgement of its registration

From the moment the enforcer accepts a registration it owes the client a report, and it forgets the
client once a report is acknowledged.  The client can only use the report when `AddChild` has
entered the child, which is after the acknowledgement has travelled back: a report that arrives
before finds no child, is acknowledged and dropped, and `AddChild` then enters a child that is
already down.

* `no_lost_down` — in a run without such overtaking (`Orderly`) no report is lost: one that is
  delivered for an accepted registration runs the callbacks, and a child that is entered has not
  been reported down since its registration was accepted.
-/

namespace Falcon.Link

open Client.FalconClient (install_children install_gen_self install_proj same_addCallback
  lonelyLayer doChildDown_none doChildDown_children doChildDown_proj doChildDown_nextLayer)

variable {s s' : Link} {e : Event} {x : LayerId} {g : List GenNo}

/-- No report is lost: when the enforcer has accepted the registration of `x` at `g`, has then sent
a `CLIENT_DOWN` for it, and that has been delivered, the callbacks of `x` have been run since; and
no child is entered that was reported down since its registration was accepted. -/
structure NoLostDown (s : Link) : Prop where
  run : ∀ x g post mid old,
    s.history = post ++ .delivered x g :: (mid ++ .accepted x g :: old) → .sent x g ∈ mid →
      .ran x ∈ post ++ mid
  entered : ∀ x c, (s.client.layers s.layer).children x = some c →
    Since (· ≠ .delivered x (s.client.layers c).gen) (· = .accepted x (s.client.layers c).gen)
      s.history

/-- The registration of `x` at `g` is accepted, and its `AddChild` has not got the answer yet. -/
def Waiting (s : Link) (x : LayerId) (g : List GenNo) : Prop :=
  ∃ a res, s.phase = .register a g (some res) ∧ res.status = .registerAck ∧ a.child = x

/-- The child `x` is entered, at `g`. -/
def Entered (s : Link) (x : LayerId) (g : List GenNo) : Prop :=
  ∃ c, (s.client.layers s.layer).children x = some c ∧ (s.client.layers c).gen = g

/-- The enforcer would accept the registration. -/
def Accepts (E : Enforcer) (arg : SpyRegisterArg) (layer : Enforcer.LayerAnswer) : Prop :=
  (E.updateGenerations arg.target.handle layer).genCheck arg.target.handle arg.target.generation
    layer = .success

/-- The event does not get between the acceptance of a registration and the entry of the child: no
report of that registration is delivered, the acknowledgement is not lost, and a registration whose
call has ended is accepted only for a child that is entered. -/
def Orderly (s : Link) : Event → Prop
  | .deliver arg => ¬ s.Waiting arg.handle arg.generation
  | .timeout => ∀ x g, ¬ s.Waiting x g
  | .serve layer kept => ∀ a g ans, s.phase = .register a g ans →
    (Accepts s.enforcer (s.client.registerArg s.layer a g) layer → kept = true) ∧
      (s.Waiting a.child g → kept = true →
        Accepts s.enforcer (s.client.registerArg s.layer a g) layer)
  | .serveStray arg layer =>
    Accepts s.enforcer arg layer → s.Entered arg.target.handle arg.target.generation
  | _ => True

/-! ## What a history says -/

/-- Callbacks of `x` are owed for a registration at `g`. -/
def Owed (x : LayerId) (g : List GenNo) (history : List Mark) : Prop :=
  Since (· ≠ .ran x) (· = .accepted x g) history

/-- `x` has not been reported down since its registration at `g`. -/
def Unreported (x : LayerId) (g : List GenNo) (history : List Mark) : Prop :=
  Since (· ≠ .delivered x g) (· = .accepted x g) history

/-- A delivery that finds callbacks owed runs them. -/
def Prompt (history : List Mark) : Prop :=
  ∀ x g before, (.delivered x g :: before) <:+ history → Owed x g before →
    (.ran x :: .delivered x g :: before) <:+ history

/-- The mark is a report being sent. -/
def IsSent : Mark → Prop
  | .sent _ _ => True
  | _ => False

/-- Deliveries only ask for what comes next to them. -/
theorem Prompt.append {l history : List Mark} (hp : Prompt history)
    (hl : ∀ x g, Mark.delivered x g ∉ l) : Prompt (l ++ history) := by
  intro x g before hsuffix howed
  have hran := hp x g before (Since.suffix_of_notMem (hl x g) hsuffix) howed
  exact hran.trans (List.suffix_append _ _)

theorem Prompt.run {history post mid old : List Mark} (hp : Prompt history)
    (hh : history = post ++ .delivered x g :: (mid ++ .accepted x g :: old)) :
    .ran x ∈ post ++ mid := by
  by_cases hmid : .ran x ∈ mid
  · exact List.mem_append_right _ hmid
  · have howed : Owed x g (mid ++ .accepted x g :: old) :=
      Since.append (fun m hm h => hmid (h ▸ hm)) (Or.inl rfl)
    obtain ⟨pre, hpre⟩ := hp x g _ (hh ▸ List.suffix_append _ _) howed
    rw [hh, ← List.singleton_append, ← List.append_assoc] at hpre
    refine List.mem_append_left _ (List.append_cancel_right hpre ▸ ?_)
    exact List.mem_append_right _ (List.mem_singleton_self _)

theorem isSent_ne {m : Mark} (hm : IsSent m) :
    m ≠ .ran x ∧ m ≠ .delivered x g ∧ m ≠ .accepted x g := by
  cases m with
  | sent => exact ⟨nofun, nofun, nofun⟩
  | _ => exact hm.elim

/-! ## What a run keeps -/

/-- The child an `AddChild` under way is for. -/
def adding : Phase → Option LayerId
  | .idle => none
  | .getGen a _ => some a.child
  | .register a _ _ => some a.child

/-- What a run keeps: vectors have one length; the child being added is not entered; callbacks are
owed only for what is being entered or has been, and that is not reported down yet. -/
structure Sound (s : Link) : Prop where
  named : s.enforcer.Named
  reports : ∀ arg ∈ s.enforcer.downs, arg.generation.length = s.enforcer.genVec.length + 1
  allocated : s.layer < s.client.nextLayer
  notBase : (s.client.layers s.layer).baseLayer = false
  child : ∀ x c, (s.client.layers s.layer).children x = some c → c < s.client.nextLayer
  width : ∀ x g, s.Waiting x g ∨ s.Entered x g → g.length = s.enforcer.genVec.length + 1
  absent : ∀ x, adding s.phase = some x → (s.client.layers s.layer).children x = none
  owed : ∀ x g, Owed x g s.history → s.Waiting x g ∨ s.Entered x g
  unreported : ∀ x g, s.Waiting x g ∨ s.Entered x g → Unreported x g s.history
  prompt : Prompt s.history

theorem Sound.noLostDown (hs : Sound s) : NoLostDown s :=
  ⟨fun _ _ _ _ _ hh _ => hs.prompt.run hh, fun x c hc => hs.unreported x _ (Or.inr ⟨c, hc, rfl⟩)⟩

theorem sound_start (client : Client.FalconClient) (L : Client.LayerRef) (gv : List GenNo)
    (gens : Handle → GenNo) (hL : L < client.nextLayer)
    (hbase : (client.layers L).baseLayer = false)
    (hempty : ∀ x, (client.layers L).children x = none) : Sound (start client L gv gens) := by
  have hnone : ∀ x g, ¬ ((start client L gv gens).Waiting x g ∨
      (start client L gv gens).Entered x g) := by
    rintro x g (⟨a, res, h, -⟩ | ⟨c, h, -⟩)
    · cases h
    · exact nomatch (hempty x).symm.trans h
  refine ⟨Enforcer.named_init gv gens, ?_, hL, hbase, fun x c h => ?_,
    fun x g h => (hnone x g h).elim,
    fun x h => (by cases h), fun x g h => h.elim, fun x g h => (hnone x g h).elim, ?_⟩
  · rintro arg (⟨_, h⟩ | ⟨_, _, h⟩) <;> cases h
  · exact nomatch (hempty x).symm.trans h
  · intro x g before hsuffix
    simp [start] at hsuffix

/-- The two ways to be in the books are about different children. -/
theorem Sound.not_entered (hs : Sound s) (hx : adding s.phase = some x) : ¬ s.Entered x g := by
  rintro ⟨c, hc, -⟩
  exact nomatch (hs.absent x hx).symm.trans hc

theorem adding_of_waiting (hw : s.Waiting x g) : adding s.phase = some x := by
  obtain ⟨a, res, hphase, -, rfl⟩ := hw
  rw [hphase]
  rfl

theorem not_waiting_of_phase {phase : Phase}
    (hphase : ∀ a g res, phase ≠ .register a g (some res)) :
    ¬ { s with phase := phase }.Waiting x g := by
  rintro ⟨a, res, h, -⟩
  exact hphase a g res h

/-- What is waiting is the registration that is out. -/
theorem waiting_register {a : Client.FalconClient.AddChildArg} {ans : Option SpyRes}
    {gen : List GenNo} (hphase : s.phase = .register a gen ans) (hw : s.Waiting x g) :
    x = a.child ∧ g = gen := by
  obtain ⟨a', res, h, -, rfl⟩ := hw
  rw [hphase] at h
  injection h with ha hg _
  exact ⟨ha ▸ rfl, hg.symm⟩

/-! ## The enforcer's side -/

/-- All that concerns the layer, next to acknowledgements, is reports. -/
theorem isSent_of_mark {me : ClientId} {a : Action} {m : Mark}
    (hno : ∀ req res, a = .reply req res → res.status ≠ .registerAck) (h : mark me a = some m) :
    IsSent m := by
  unfold mark at h
  split at h
  · split at h
    · next hack => exact (hno _ _ rfl hack.2).elim
    · cases h
  · split at h
    · exact Option.some.inj h ▸ trivial
    · cases h
  · cases h

/-- What an event of the enforcer is to the link: reports are sent, or it acknowledges a
registration, at the current generation. -/
theorem enforce_spec {ev : Enforcer.Event} (hs : Sound s) (h : s.enforce ev = some s') :
    s' = { s with enforcer := s'.enforcer, history := s'.history } ∧
      s'.enforcer.Named ∧ s'.enforcer.genVec = s.enforcer.genVec ∧
      (∀ arg ∈ s'.enforcer.downs, arg.generation.length = s.enforcer.genVec.length + 1) ∧
      ∃ l, s'.history = l ++ s.history ∧
        ((∀ m ∈ l, IsSent m) ∧ (∀ res, answerOf (s.enforcer.newer s'.enforcer) = some res →
            res.status ≠ .registerAck) ∨
          ∃ arg layer tgt, ev = .request (.register arg) layer ∧
            answerOf (s.enforcer.newer s'.enforcer) = some ⟨tgt, .registerAck⟩ ∧
            arg.target.generation.length = s.enforcer.genVec.length + 1 ∧
            l = if arg.client.id = s.me then
              [.accepted arg.target.handle arg.target.generation] else []) := by
  simp only [enforce, Option.bind_eq_bind, Option.bind_eq_some_iff, Option.some.injEq] at h
  obtain ⟨E, hE, rfl⟩ := h
  obtain ⟨lines, gens, hrefresh, -⟩ := Enforcer.refresh_eq s.enforcer ev
  obtain ⟨acts, hlog, hacts⟩ := (Enforcer.step_effect hs.named hE).acks
  have hnewer : s.enforcer.newer E = acts := by
    rw [hrefresh] at hlog
    exact Enforcer.newer_of_log hlog
  refine ⟨rfl, Enforcer.named_step hs.named hE, Enforcer.genVec_step hs.named hE, ?_, _, rfl, ?_⟩
  · intro arg ha
    by_cases hdown : ∃ t st k w, ev = .observeDown t st k w
    · obtain ⟨t, st, k, w, rfl⟩ := hdown
      obtain rfl := Option.some.inj hE
      obtain ha | ⟨-, hgen, -⟩ := Enforcer.downs_observeDown ha
      · exact hs.reports arg ha
      · rw [hgen, Enforcer.genOf, List.length_append, List.length_singleton]
    · push Not at hdown
      exact hs.reports arg (Enforcer.downs_step hE hdown ha)
  · rw [hnewer]
    obtain hno | ⟨arg, layer, tgt, rest, rfl, rfl, hrest, hgen⟩ := hacts
    · refine Or.inl ⟨fun m hm => ?_, fun res hres hack => ?_⟩
      · obtain ⟨a, ha, ham⟩ := List.mem_filterMap.mp hm
        exact isSent_of_mark (hno a ha) ham
      · unfold answerOf at hres
        split at hres
        · next req res' rest =>
          exact hno _ List.mem_cons_self req res' rfl (Option.some.inj hres ▸ hack)
        · cases hres
    · refine Or.inr ⟨arg, layer, tgt, rfl, rfl, ?_, ?_⟩
      · rw [hgen, hrefresh, Enforcer.genOf, List.length_append, List.length_singleton]
      · have hrest' : rest.filterMap (mark s.me) = [] := by
          refine List.filterMap_eq_nil_iff.mpr fun a ha => ?_
          obtain ⟨t, rfl⟩ := hrest a ha
          rfl
        rw [List.filterMap_cons, hrest']
        by_cases hid : arg.client.id = s.me
        · simp [mark, hid]
        · simp [mark, hid]

/-- The enforcer has sent reports at most, and no registration has come to wait or ceased to. -/
theorem Sound.of_sent {l : List Mark} {E : Enforcer} {phase : Phase} {stray : List SpyRegisterArg}
    (hs : Sound s) (hnamed : E.Named) (hvec : E.genVec = s.enforcer.genVec)
    (hreports : ∀ arg ∈ E.downs, arg.generation.length = s.enforcer.genVec.length + 1)
    (hl : ∀ m ∈ l, IsSent m) (hadding : adding phase = adding s.phase)
    (hwaiting : ∀ x g, { s with phase := phase }.Waiting x g ↔ s.Waiting x g) :
    Sound ⟨s.client, s.layer, E, phase, stray, l ++ s.history⟩ := by
  have hbooks : ∀ x g, Waiting ⟨s.client, s.layer, E, phase, stray, l ++ s.history⟩ x g ∨
      Entered ⟨s.client, s.layer, E, phase, stray, l ++ s.history⟩ x g ↔
      s.Waiting x g ∨ s.Entered x g := fun x g => or_congr_left (hwaiting x g)
  refine ⟨hnamed, fun arg ha => hvec ▸ hreports arg ha, hs.allocated, hs.notBase, hs.child,
    fun x g h => hvec ▸ hs.width x g ((hbooks x g).mp h), fun x h => hs.absent x (hadding ▸ h),
    fun x g h => ?_, fun x g h => ?_, hs.prompt.append fun x g hm => ?_⟩
  · have hold := Since.of_append (fun m hm => (isSent_ne (x := x) (g := g) (hl m hm)).2.2) h
    exact (hbooks x g).mpr (hs.owed x g hold.2)
  · exact (hs.unreported x g ((hbooks x g).mp h)).append fun m hm =>
      (isSent_ne (x := x) (g := g) (hl m hm)).2.1
  · exact (isSent_ne (x := x) (g := g) (hl _ hm)).2.1 rfl

/-- The registration of the child being added is accepted. -/
theorem Sound.accept {E : Enforcer} {a : Client.FalconClient.AddChildArg} {res : SpyRes}
    {ans : Option SpyRes} (hs : Sound s) (hnamed : E.Named) (hvec : E.genVec = s.enforcer.genVec)
    (hreports : ∀ arg ∈ E.downs, arg.generation.length = s.enforcer.genVec.length + 1)
    (hphase : s.phase = .register a g ans) (hg : g.length = s.enforcer.genVec.length + 1)
    (hres : res.status = .registerAck) :
    Sound { s with
      enforcer := E, phase := .register a g (some res)
      history := .accepted a.child g :: s.history } := by
  have hadding : adding s.phase = some a.child := by rw [hphase]; rfl
  -- who is in the books now: the child accepted, and those that were entered before
  have hbooks : ∀ x g', Waiting { s with
        enforcer := E, phase := .register a g (some res)
        history := .accepted a.child g :: s.history } x g' ∨ s.Entered x g' ↔
      x = a.child ∧ g' = g ∨ s.Entered x g' := by
    refine fun x g' => or_congr_left ⟨?_, ?_⟩
    · exact waiting_register rfl
    · rintro ⟨rfl, rfl⟩
      exact ⟨a, res, rfl, hres, rfl⟩
  refine ⟨hnamed, fun arg ha => hvec ▸ hreports arg ha, hs.allocated, hs.notBase, hs.child,
    fun x g' h => ?_, fun x h => hs.absent x (hadding.trans h), fun x g' h => ?_, fun x g' h => ?_,
    hs.prompt.append (l := [_]) (by simp)⟩
  · obtain ⟨-, rfl⟩ | h := (hbooks x g').mp h
    · exact hvec ▸ hg
    · exact hvec ▸ hs.width x g' (Or.inr h)
  · refine (hbooks x g').mpr ?_
    obtain h | ⟨-, h⟩ := h
    · obtain ⟨rfl, rfl⟩ := Mark.accepted.inj h
      exact Or.inl ⟨rfl, rfl⟩
    · exact (hs.owed x g' h).imp_left (waiting_register hphase)
  · obtain ⟨rfl, rfl⟩ | h := (hbooks x g').mp h
    · exact Or.inl rfl
    · exact Or.inr ⟨nofun, hs.unreported x g' (Or.inr h)⟩

/-- A registration is accepted once more, for a child that is entered. -/
theorem Sound.reaccept {E : Enforcer} (hs : Sound s) (hnamed : E.Named)
    (hvec : E.genVec = s.enforcer.genVec)
    (hreports : ∀ arg ∈ E.downs, arg.generation.length = s.enforcer.genVec.length + 1)
    (hx : s.Entered x g) :
    Sound { s with enforcer := E, history := .accepted x g :: s.history } := by
  refine ⟨hnamed, fun arg ha => hvec ▸ hreports arg ha, hs.allocated, hs.notBase, hs.child,
    fun x g h => hvec ▸ hs.width x g h, hs.absent, fun x' g' h => ?_, fun x' g' h => ?_,
    hs.prompt.append (l := [_]) (by simp)⟩
  · obtain h | ⟨-, h⟩ := h
    · obtain ⟨rfl, rfl⟩ := Mark.accepted.inj h
      exact Or.inr hx
    · exact hs.owed x' g' h
  · exact Or.inr ⟨nofun, hs.unreported x' g' h⟩

theorem sound_enforcer {ev : Enforcer.Event} (hs : Sound s) (hev : registers s.me ev = false)
    (h : s.enforce ev = some s') : Sound s' := by
  obtain ⟨heq, hnamed, hvec, hreports, l, hl, hcases⟩ := enforce_spec hs h
  have hsent : ∀ m ∈ l, IsSent m := by
    obtain ⟨hsent, -⟩ | ⟨arg, layer, tgt, rfl, -, -, hlist⟩ := hcases
    · exact hsent
    · rw [if_neg (by simpa [registers] using hev)] at hlist
      simp [hlist]
  rw [heq, hl]
  exact hs.of_sent hnamed hvec hreports hsent rfl fun _ _ => Iff.rfl

/-- **A registration is acknowledged just if it is accepted.** -/
theorem answerOf_register (E : Enforcer) (arg : SpyRegisterArg) (layer : Enforcer.LayerAnswer) :
    ∃ res, answerOf (E.newer (E.dispatch (.register arg) layer)) = some res ∧
      (res.status = .registerAck ↔ Accepts E arg layer) := by
  have hlog : (E.updateGenerations arg.target.handle layer).log = E.log := by
    obtain ⟨lines, hup⟩ := Enforcer.updateGenerations_eq arg.target.handle layer E
    rw [hup]
  unfold Enforcer.dispatch Accepts
  dsimp only
  set E₁ := E.updateGenerations arg.target.handle layer
  split
  · next hok =>
    refine ⟨⟨⟨arg.target.handle, E.genOf arg.target.handle⟩, .registerAck⟩, ?_, by simp [hok]⟩
    obtain ⟨l, hl⟩ := Enforcer.register_log (s := (E₁.getClient arg.client).1)
      (c := (E₁.getClient arg.client).2) arg
    rw [Enforcer.getClient_log, hlog] at hl
    rw [Enforcer.newer_of_log (l := _ :: l) (congrArg _ hl)]
    rfl
  · next hok =>
    refine ⟨⟨⟨arg.target.handle, E.genOf arg.target.handle⟩,
      E₁.genCheck arg.target.handle arg.target.generation layer⟩, ?_, ?_⟩
    · rw [Enforcer.newer_of_log (l := [_]) (congrArg _ hlog)]
      rfl
    · exact ⟨fun h => ((Enforcer.genCheck_ne_ack _ layer).1 h).elim, fun h => (hok h).elim⟩

/-- What serving a registration is to the link, with `enforce_spec`: reports are sent and it is
refused, or it is accepted. -/
theorem enforce_register {arg : SpyRegisterArg} {layer : Enforcer.LayerAnswer} (hs : Sound s)
    (h : s.enforce (.request (.register arg) layer) = some s') :
    ∃ res, answerOf (s.enforcer.newer s'.enforcer) = some res ∧
      ∃ l, s' = { s with enforcer := s'.enforcer, history := l ++ s.history } ∧
        ((∀ m ∈ l, IsSent m) ∧ res.status ≠ .registerAck ∧ ¬ Accepts s.enforcer arg layer ∨
          res.status = .registerAck ∧ Accepts s.enforcer arg layer ∧
            arg.target.generation.length = s.enforcer.genVec.length + 1 ∧
            l = if arg.client.id = s.me then
              [.accepted arg.target.handle arg.target.generation] else []) := by
  obtain ⟨heq, -, -, -, l, hl, hcases⟩ := enforce_spec hs h
  obtain ⟨res, hres, hiff⟩ := answerOf_register s.enforcer arg layer
  have hE : s'.enforcer = s.enforcer.dispatch (.register arg) layer := by
    simp only [enforce, Option.bind_eq_bind, Option.bind_eq_some_iff, Option.some.injEq] at h
    obtain ⟨E, hE, rfl⟩ := h
    exact (Option.some.inj hE).symm
  rw [← hE] at hres
  refine ⟨res, hres, l, hl ▸ heq, ?_⟩
  obtain ⟨hsent, hno⟩ | ⟨arg', layer', tgt, hev, hack, hlen, hlist⟩ := hcases
  · exact Or.inl ⟨hsent, hno res hres, fun h => hno res hres (hiff.mpr h)⟩
  · injection hev with hreq _
    injection hreq with harg
    subst harg
    obtain rfl := Option.some.inj (hres.symm.trans hack)
    exact Or.inr ⟨rfl, hiff.mp rfl, hlen, hlist⟩

/-- The enforcer serves a `SPY_GET_GEN`. -/
theorem Sound.serve_getGen {a : Client.FalconClient.AddChildArg} {ans : Option SpyRes}
    {target : TargetT} {layer : Enforcer.LayerAnswer} {kept : Bool} {res : SpyRes} (hs : Sound s)
    (hphase : s.phase = .getGen a ans) (h : s.enforce (.request (.getGen target) layer) = some s') :
    Sound (if kept then { s' with phase := .getGen a (some res) } else s') := by
  obtain ⟨heq, hnamed, hvec, hreports, l, hl, ⟨hsent, -⟩ | ⟨_, _, _, hev, -⟩⟩ := enforce_spec hs h
  · rw [heq, hl]
    cases kept with
    | false => exact hs.of_sent hnamed hvec hreports hsent rfl fun _ _ => Iff.rfl
    | true =>
      refine hs.of_sent hnamed hvec hreports hsent (by rw [hphase]; rfl) fun x g => ?_
      refine iff_of_false (not_waiting_of_phase nofun) ?_
      rintro ⟨_, _, h, -⟩
      rw [hphase] at h
      cases h
  · injection hev with hreq _
    cases hreq

/-- The enforcer serves the registration that is out. -/
theorem Sound.serve_register {a : Client.FalconClient.AddChildArg} {ans : Option SpyRes}
    {layer : Enforcer.LayerAnswer} {kept : Bool} {res : SpyRes} (hs : Sound s)
    (hphase : s.phase = .register a g ans)
    (hkept : Accepts s.enforcer (s.client.registerArg s.layer a g) layer → kept = true)
    (hagain : s.Waiting a.child g → kept = true →
      Accepts s.enforcer (s.client.registerArg s.layer a g) layer)
    (h : s.enforce (.request (.register (s.client.registerArg s.layer a g)) layer) = some s')
    (hres : answerOf (s.enforcer.newer s'.enforcer) = some res) :
    Sound (if kept then { s' with phase := .register a g (some res) } else s') := by
  obtain ⟨-, hnamed, hvec, hreports, -⟩ := enforce_spec hs h
  obtain ⟨res', hres', l, heq, hcases⟩ := enforce_register hs h
  obtain rfl := Option.some.inj (hres.symm.trans hres')
  rw [heq]
  obtain ⟨hsent, hno, hrefused⟩ | ⟨hack, haccepts, hlen, rfl⟩ := hcases
  · cases kept with
    | false => exact hs.of_sent hnamed hvec hreports hsent rfl fun _ _ => Iff.rfl
    | true =>
      -- an acknowledgement under way would be lost
      refine hs.of_sent hnamed hvec hreports hsent (by rw [hphase]; rfl) fun x g' => ?_
      refine iff_of_false ?_ fun hw => hrefused (hagain ?_ rfl)
      · rintro ⟨_, res', h, hack, -⟩
        obtain ⟨-, -, h⟩ := Phase.register.inj h
        exact hno (Option.some.inj h ▸ hack)
      · obtain ⟨rfl, rfl⟩ := waiting_register hphase hw
        exact hw
  · obtain rfl := hkept haccepts
    rw [if_pos rfl, if_pos (show (s.client.registerArg s.layer a g).client.id = s.me from rfl)]
    exact hs.accept hnamed hvec hreports hphase hlen hack

theorem sound_serve {layer : Enforcer.LayerAnswer} {kept : Bool} (hs : Sound s)
    (horderly : s.Orderly (.serve layer kept)) (h : s.serve layer kept = some s') : Sound s' := by
  simp only [serve, Option.bind_eq_bind, Option.bind_eq_some_iff, Option.some.injEq] at h
  obtain ⟨req, hreq, s₁, hs₁, res, hres, rfl⟩ := h
  cases hphase : s.phase with
  | idle => simp [outstanding, hphase] at hreq
  | getGen a ans =>
    simp only [outstanding, hphase, Option.some.injEq] at hreq
    subst hreq
    exact hs.serve_getGen hphase hs₁
  | register a g ans =>
    obtain ⟨hkept, hagain⟩ := horderly a g ans hphase
    simp only [outstanding, hphase, Option.some.injEq] at hreq
    subst hreq
    exact hs.serve_register hphase hkept hagain hs₁ hres

theorem sound_serveStray {arg : SpyRegisterArg} {layer : Enforcer.LayerAnswer} (hs : Sound s)
    (horderly : s.Orderly (.serveStray arg layer))
    (h : s.enforce (.request (.register arg) layer) = some s') : Sound s' := by
  obtain ⟨-, hnamed, hvec, hreports, -⟩ := enforce_spec hs h
  obtain ⟨res, -, l, heq, ⟨hsent, -⟩ | ⟨-, haccepts, -, hlist⟩⟩ := enforce_register hs h
  · rw [heq]
    exact hs.of_sent hnamed hvec hreports hsent rfl fun _ _ => Iff.rfl
  · rw [heq, hlist]
    split
    · exact hs.reaccept hnamed hvec hreports (horderly haccepts)
    · exact hs.of_sent hnamed hvec hreports (by simp) rfl fun _ _ => Iff.rfl

/-! ## The client's side -/

/-- The tree stays as it is, with no registration waiting before or after. -/
theorem Sound.of_alike {c : Client.FalconClient} {phase : Phase} {stray : List SpyRegisterArg}
    (hs : Sound s) (hc : s.client.Alike c)
    (habsent : ∀ x, adding phase = some x → (s.client.layers s.layer).children x = none)
    (hbefore : ∀ x g, ¬ s.Waiting x g)
    (hafter : ∀ x g, ¬ { s with phase := phase }.Waiting x g) :
    Sound ⟨c, s.layer, s.enforcer, phase, stray, s.history⟩ := by
  have hgen : ∀ L, (c.layers L).gen = (s.client.layers L).gen := hc.proj _ fun _ => rfl
  have hbooks : ∀ x g, Waiting ⟨c, s.layer, s.enforcer, phase, stray, s.history⟩ x g ∨
      Entered ⟨c, s.layer, s.enforcer, phase, stray, s.history⟩ x g ↔
      s.Waiting x g ∨ s.Entered x g := by
    refine fun x g => or_congr ⟨fun h => (hafter x g h).elim, fun h => (hbefore x g h).elim⟩ ?_
    simp only [Entered, hc.children, hgen]
  refine ⟨hs.named, hs.reports, hc.nextLayer ▸ hs.allocated, (hc.baseLayer _).trans hs.notBase,
    fun x d h => ?_, fun x g h => hs.width x g ((hbooks x g).mp h), fun x h => ?_,
    fun x g h => (hbooks x g).mpr (hs.owed x g h),
    fun x g h => hs.unreported x g ((hbooks x g).mp h), hs.prompt⟩
  · rw [hc.children] at h
    exact hc.nextLayer ▸ hs.child x d h
  · rw [hc.children]
    exact habsent x h

theorem sound_addChild {a : Client.FalconClient.AddChildArg} {resolves : Bool} (hs : Sound s)
    (h : s.addChild a resolves = some s') : Sound s' := by
  unfold addChild Client.FalconClient.addChildBegin at h
  cases hphase : s.phase with
  | getGen => simp [hphase] at h
  | register => simp [hphase] at h
  | idle =>
    have hidle : ∀ x g, ¬ s.Waiting x g := by
      rintro x g ⟨_, _, h, -⟩
      rw [hphase] at h
      cases h
    rw [hphase] at h
    cases hc : (s.client.layers s.layer).children a.child with
    | some c =>
      simp only [hc, Option.some.injEq] at h
      subst h
      exact hs.of_alike (same_addCallback a.cb).toAlike (fun x h => by cases h) hidle
        fun x g => not_waiting_of_phase nofun
    | none =>
      simp only [hc, hs.notBase] at h
      split at h
      · next heq =>
        split at heq
        · obtain ⟨rfl, -⟩ := Prod.mk.inj heq
          obtain rfl := Option.some.inj h
          exact hs.of_alike (Client.FalconClient.alike_log _) (fun x h => by cases h) hidle
            fun x g => not_waiting_of_phase nofun
        · cases heq
      · next heq =>
        split at heq
        · cases heq
        · obtain ⟨rfl, -⟩ := Prod.mk.inj heq
          split at h
          · obtain rfl := Option.some.inj h
            refine hs.of_alike (Client.FalconClient.alike_log _) (fun x h => ?_) hidle
              fun x g => not_waiting_of_phase nofun
            obtain rfl := Option.some.inj h
            exact hc
          · cases h
      · cases h

/-- The child whose registration was acknowledged is entered. -/
theorem Sound.install {a : Client.FalconClient.AddChildArg} {ans : Option SpyRes}
    {act : Client.Action} {stray : List SpyRegisterArg} (hs : Sound s)
    (hphase : s.phase = .register a g ans) (hw : s.Waiting a.child g) :
    Sound { s with
      client := (s.client.note act).install s.layer a g, phase := .idle, stray := stray } := by
  set c := (s.client.note act).install s.layer a g
  have hself : (c.layers s.layer).children = Function.update (s.client.layers s.layer).children
      a.child (some s.client.nextLayer) := install_children (s := s.client.note act) hs.allocated
  have hnew : (c.layers s.client.nextLayer).gen = g :=
    install_gen_self (s := s.client.note act) hs.allocated
  have hold : ∀ d < s.client.nextLayer, (c.layers d).gen = (s.client.layers d).gen := fun d hd =>
    install_proj (s := s.client.note act) _ (fun _ _ _ => rfl) hs.allocated hd
  have habsent : (s.client.layers s.layer).children a.child = none :=
    hs.absent _ (by rw [hphase]; rfl)
  have hchildren : ∀ x d, (c.layers s.layer).children x = some d ↔
      x = a.child ∧ d = s.client.nextLayer ∨ (s.client.layers s.layer).children x = some d := by
    intro x d
    rw [hself]
    by_cases hx : x = a.child
    · subst hx
      simp [habsent, eq_comm]
    · simp [hx]
  have hbooks : ∀ x g', Waiting { s with client := c, phase := .idle, stray := stray } x g' ∨
      Entered { s with client := c, phase := .idle, stray := stray } x g' ↔
      s.Waiting x g' ∨ s.Entered x g' := by
    intro x g'
    constructor
    · rintro (⟨_, _, h, -⟩ | ⟨d, hd, rfl⟩)
      · cases h
      · obtain ⟨rfl, rfl⟩ | hd' := (hchildren x d).mp hd
        · exact Or.inl (hnew.symm ▸ hw)
        · exact Or.inr ⟨d, hd', (hold d (hs.child x d hd')).symm⟩
    · rintro (hw' | ⟨d, hd, rfl⟩)
      · obtain ⟨rfl, rfl⟩ := waiting_register hphase hw'
        exact Or.inr ⟨_, (hchildren _ _).mpr (Or.inl ⟨rfl, rfl⟩), hnew⟩
      · exact Or.inr ⟨d, (hchildren x d).mpr (Or.inr hd), hold d (hs.child x d hd)⟩
  have hbase : (c.layers s.layer).baseLayer = false :=
    (install_proj (s := s.client.note act) _ (fun _ _ _ => rfl) hs.allocated hs.allocated).trans
      hs.notBase
  refine ⟨hs.named, hs.reports, Nat.lt_succ_of_lt hs.allocated, hbase,
    fun x d h => ?_, fun x g' h => hs.width x g' ((hbooks x g').mp h), fun x h => (by cases h),
    fun x g' h => (hbooks x g').mpr (hs.owed x g' h),
    fun x g' h => hs.unreported x g' ((hbooks x g').mp h), hs.prompt⟩
  obtain ⟨-, rfl⟩ | h := (hchildren x d).mp h
  · exact Nat.lt_succ_self _
  · exact Nat.lt_succ_of_lt (hs.child x d h)

/-- A call returns; it acknowledges a registration just if one is waiting. -/
theorem Sound.conclude {reply : Client.Reply} (hs : Sound s)
    (hack : ∀ x g, s.Waiting x g → reply.is .registerAck = true)
    (hback : ∀ a g ans, s.phase = .register a g ans → reply.is .registerAck = true →
      s.Waiting a.child g) : Sound (s.conclude reply) := by
  have hlog := fun act => Client.FalconClient.alike_log (s := s.client) (act :: s.client.log)
  unfold Link.conclude
  split
  · exact hs
  · next a ans hphase =>
    have hno : ∀ x g, ¬ s.Waiting x g := by
      rintro x g ⟨_, _, h, -⟩
      rw [hphase] at h
      cases h
    dsimp only
    split
    · exact hs.of_alike (hlog _) (fun x h => by cases h) hno fun x g => not_waiting_of_phase nofun
    · refine hs.of_alike (hlog _) (fun x h => hs.absent x ?_) hno
        fun x g => not_waiting_of_phase nofun
      rw [hphase]
      exact h
  · next a gen ans hphase =>
    dsimp only
    unfold Client.FalconClient.addChildEnd
    split
    · next hr => exact hs.install hphase (hback a gen ans hphase hr)
    · next hr =>
      exact hs.of_alike (hlog _) (fun x h => by cases h) (fun x g hw => hr (hack x g hw))
        fun x g => not_waiting_of_phase nofun

theorem sound_answer (hs : Sound s) (h : s.answer = some s') : Sound s' := by
  unfold answer at h
  split at h
  · next hphase =>
    obtain rfl := Option.some.inj h
    refine hs.conclude (fun x g hw => ?_) fun a g ans ha => ?_
    · obtain ⟨_, _, hw, -⟩ := hw
      rw [hphase] at hw
      cases hw
    · rw [hphase] at ha
      cases ha
  · next a gen res hphase =>
    obtain rfl := Option.some.inj h
    refine hs.conclude (fun x g hw => ?_) fun a' g ans ha hr => ?_
    · obtain ⟨_, res', hw, hack, -⟩ := hw
      rw [hphase] at hw
      injection hw with _ _ hw
      obtain rfl := Option.some.inj hw
      simpa [Client.Reply.is] using hack
    · rw [hphase] at ha
      injection ha with ha hg _
      subst ha hg
      exact ⟨a, res, hphase, by simpa [Client.Reply.is] using hr, rfl⟩
  · cases h

theorem sound_timeout (hs : Sound s) (hno : ∀ x g, ¬ s.Waiting x g) (h : s.timeout = some s') :
    Sound s' := by
  unfold timeout at h
  split at h
  · cases h
  · obtain rfl := Option.some.inj h
    exact hs.conclude (fun x g hw => (hno x g hw).elim) fun _ _ _ _ hr => (by cases hr)

/-! ## Deliveries -/

/-- A delivery that finds no child is dropped; nobody was waiting for it. -/
theorem Sound.dropped {arg : ClientDownArg} (hs : Sound s)
    (hno : ¬ s.Waiting arg.handle arg.generation)
    (hc : (s.client.layers s.layer).children arg.handle = none) : Sound (s.deliver arg) := by
  have heq : s.deliver arg =
      { s with history := .delivered arg.handle arg.generation :: s.history } := by
    simp [deliver, runsCallbacks, hc, doChildDown_none hc]
  have hother : ∀ x g, s.Waiting x g ∨ s.Entered x g →
      ¬ (x = arg.handle ∧ g = arg.generation) := by
    rintro x g (hw | ⟨c, hc', -⟩) ⟨rfl, rfl⟩
    · exact hno hw
    · exact nomatch hc.symm.trans hc'
  rw [heq]
  refine ⟨hs.named, hs.reports, hs.allocated, hs.notBase, hs.child, hs.width, hs.absent,
    fun x g h => ?_, fun x g h => ?_, fun x g before hsuffix howed => ?_⟩
  · obtain h | ⟨-, h⟩ := h
    · cases h
    · exact hs.owed x g h
  · refine Or.inr ⟨fun h' => hother x g h ?_, hs.unreported x g h⟩
    obtain ⟨rfl, rfl⟩ := Mark.delivered.inj h'
    exact ⟨rfl, rfl⟩
  · obtain h | h := List.suffix_cons_iff.mp hsuffix
    · obtain ⟨hm, rfl⟩ := List.cons_eq_cons.mp h
      exact (hother x g (hs.owed x g howed) (Mark.delivered.inj hm)).elim
    · exact (hs.prompt x g before h howed).trans (List.suffix_cons _ _)

/-- A delivery that finds its child runs the callbacks and takes the child out. -/
theorem Sound.delivered {arg : ClientDownArg} {c : Client.LayerRef} (hs : Sound s)
    (harg : arg ∈ s.enforcer.downs)
    (hc : (s.client.layers s.layer).children arg.handle = some c) : Sound (s.deliver arg) := by
  have hgen : genEq (s.client.layers c).gen arg.generation = true :=
    genEq_iff.mpr ((hs.width _ _ (Or.inr ⟨c, hc, rfl⟩)).trans (hs.reports arg harg).symm)
  have hhistory : (s.deliver arg).history =
      .ran arg.handle :: .delivered arg.handle arg.generation :: s.history := by
    simp [deliver, runsCallbacks, hc, hgen]
  have hchildren : ((s.deliver arg).client.layers s.layer).children =
      Function.update (s.client.layers s.layer).children arg.handle none :=
    doChildDown_children hc hgen
  have hold : ∀ x d, ((s.deliver arg).client.layers s.layer).children x = some d ↔
      x ≠ arg.handle ∧ (s.client.layers s.layer).children x = some d := by
    intro x d
    rw [hchildren]
    by_cases hx : x = arg.handle
    · simp [hx]
    · simp [hx]
  have hgens : ∀ L, ((s.deliver arg).client.layers L).gen = (s.client.layers L).gen :=
    doChildDown_proj _ (fun _ => rfl) fun _ _ => rfl
  -- the child being added is another one, since this one is entered
  have hbooks : ∀ x g, (s.deliver arg).Waiting x g ∨ (s.deliver arg).Entered x g ↔
      x ≠ arg.handle ∧ (s.Waiting x g ∨ s.Entered x g) := by
    intro x g
    constructor
    · rintro (hw | ⟨d, hd, rfl⟩)
      · refine ⟨fun hx => ?_, Or.inl hw⟩
        subst hx
        exact hs.not_entered (adding_of_waiting (s := s) hw) ⟨c, hc, rfl⟩
      · obtain ⟨hx, hd'⟩ := (hold x d).mp hd
        exact ⟨hx, Or.inr ⟨d, hd', (hgens d).symm⟩⟩
    · rintro ⟨hx, hw | ⟨d, hd, rfl⟩⟩
      · exact Or.inl hw
      · exact Or.inr ⟨d, (hold x d).mpr ⟨hx, hd⟩, hgens d⟩
  refine ⟨hs.named, hs.reports, ?_, ?_, fun x d h => ?_,
    fun x g h => hs.width x g ((hbooks x g).mp h).2, fun x h => ?_, fun x g h => ?_,
    fun x g h => ?_,
    fun x g before hsuffix howed => ?_⟩
  · exact (doChildDown_nextLayer (s := s.client)).symm ▸ hs.allocated
  · exact (doChildDown_proj _ (fun _ => rfl) (fun _ _ => rfl) s.layer).trans hs.notBase
  · exact (doChildDown_nextLayer (s := s.client)).symm ▸ hs.child x d ((hold x d).mp h).2
  · refine Option.eq_none_iff_forall_ne_some.mpr fun d hd => ?_
    exact nomatch (hs.absent x h).symm.trans ((hold x d).mp hd).2
  · rw [hhistory] at h
    obtain h | ⟨hx, h | ⟨-, h⟩⟩ := h
    · cases h
    · cases h
    · exact (hbooks x g).mpr ⟨fun h => hx (h ▸ rfl), hs.owed x g h⟩
  · obtain ⟨hx, h⟩ := (hbooks x g).mp h
    rw [hhistory]
    exact Or.inr ⟨nofun, Or.inr ⟨fun h => hx (Mark.delivered.inj h).1.symm, hs.unreported x g h⟩⟩
  · rw [hhistory] at hsuffix ⊢
    obtain h | h := List.suffix_cons_iff.mp hsuffix
    · cases (List.cons_eq_cons.mp h).1
    · obtain h | h := List.suffix_cons_iff.mp h
      · obtain ⟨hm, rfl⟩ := List.cons_eq_cons.mp h
        obtain ⟨rfl, rfl⟩ := Mark.delivered.inj hm
        exact List.suffix_rfl
      · have hran := hs.prompt x g before h howed
        exact (hran.trans (List.suffix_cons _ _)).trans (List.suffix_cons _ _)

/-! ## Runs -/

theorem sound_step (hs : Sound s) (h : step s e = some s') (horderly : s.Orderly e) : Sound s' := by
  cases e with
  | addChild a resolves => exact sound_addChild hs h
  | serve layer kept => exact sound_serve hs horderly h
  | answer => exact sound_answer hs h
  | timeout => exact sound_timeout hs horderly h
  | serveStray arg layer =>
    simp only [step] at h
    split at h
    · exact sound_serveStray hs horderly h
    · cases h
  | enforcer ev =>
    simp only [step] at h
    split at h
    · cases h
    · next hev => exact sound_enforcer hs (Bool.eq_false_iff.mpr hev) h
  | deliver arg =>
    simp only [step] at h
    split at h
    · next hsent =>
      obtain rfl := Option.some.inj h
      cases hc : (s.client.layers s.layer).children arg.handle with
      | none => exact hs.dropped horderly hc
      | some c => exact hs.delivered (Or.inl ⟨_, hsent⟩) hc
    · cases h

/-- **No report is lost in a run without overtaking.** -/
theorem no_lost_down (client : Client.FalconClient) (L : Client.LayerRef) (gv : List GenNo)
    (gens : Handle → GenNo) (es : List Event) (hL : L < client.nextLayer)
    (hbase : (client.layers L).baseLayer = false)
    (hempty : ∀ x, (client.layers L).children x = none)
    (horderly : Run.Along step (fun s e _ => s.Orderly e) (start client L gv gens) es) :
    Run.Always step NoLostDown (start client L gv gens) es :=
  Run.Always.of_inv (fun _ hs => hs.noLostDown) (fun _ _ _ h hs hC => sound_step hs h hC)
    (sound_start client L gv gens hL hbase hempty) horderly

/-- `"app"` is added, up to the moment the enforcer has accepted it. -/
def accepting : List Event :=
  [.addChild ⟨"app", false, ⟨1, 0, 2⟩, -1, true, 0⟩ true, .serve ⟨none, false⟩ true, .answer,
   .serve ⟨none, false⟩ true]

/-- The report `"app"` gets when it goes down. -/
def downApp : ClientDownArg := ⟨"app", [0], 1, false, false, 1⟩

/-- The answer comes first. -/
theorem no_lost_down_answer : Run.Always step NoLostDown (start lonelyLayer 1 [] fun _ => 0)
    (accepting ++ [.answer, .enforcer (.observeDown "app" 1 false false), .deliver downApp]) := by
  refine no_lost_down lonelyLayer 1 [] (fun _ => 0) _ (by decide) (by decide) (fun _ => rfl) ?_
  intro s₁ h₁
  obtain rfl := Option.some.inj (h₁.symm.trans rfl)
  refine ⟨trivial, fun s₂ h₂ => ?_⟩
  obtain rfl := Option.some.inj (h₂.symm.trans rfl)
  refine ⟨nofun, fun s₃ h₃ => ?_⟩
  obtain rfl := Option.some.inj (h₃.symm.trans rfl)
  refine ⟨trivial, fun s₄ h₄ => ?_⟩
  obtain rfl := Option.some.inj (h₄.symm.trans rfl)
  refine ⟨fun _ _ _ _ => ⟨fun _ => rfl, ?_⟩, fun s₅ h₅ => ?_⟩
  · rintro ⟨_, _, h, -⟩
    cases h
  obtain rfl := Option.some.inj (h₅.symm.trans rfl)
  refine ⟨trivial, fun s₆ h₆ => ⟨trivial, fun s₇ h₇ => ⟨?_, Run.Along.nil⟩⟩⟩
  obtain rfl := Option.some.inj (h₆.symm.trans rfl)
  rintro ⟨_, _, h, -⟩
  cases h

/-- The report overtakes the answer. -/
def overtaken : List Event :=
  accepting ++ [.enforcer (.observeDown "app" 1 false false), .deliver downApp, .answer]

/-- The report is dropped, and then `"app"` is entered at the generation that has ended. -/
theorem overtaking_down_lost :
    ¬ Run.Always step NoLostDown (start lonelyLayer 1 [] fun _ => 0) overtaken ∧
      ∃ s, overtaken.foldlM step (start lonelyLayer 1 [] fun _ => 0) = some s ∧
        s.history = [.delivered "app" [0], .sent "app" [0], .accepted "app" [0]] ∧
        (s.client.layers 1).children "app" = some 2 ∧ (s.client.layers 2).gen = [0] := by
  obtain ⟨s, hs, hhistory, hchild, hgen⟩ : ∃ s,
      overtaken.foldlM step (start lonelyLayer 1 [] fun _ => 0) = some s ∧
      s.history = [.delivered "app" [0], .sent "app" [0], .accepted "app" [0]] ∧
      (s.client.layers 1).children "app" = some 2 ∧ (s.client.layers 2).gen = [0] :=
    ⟨_, rfl, by decide, by decide, by decide⟩
  refine ⟨fun h => ?_, s, hs, hhistory, hchild, hgen⟩
  have hlost := Run.always_iff_run.mp h overtaken List.prefix_rfl s hs
  have hran := hlost.run "app" [0] [] [.sent "app" [0]] [] hhistory List.mem_cons_self
  exact absurd hran (by decide)

end Falcon.Link
