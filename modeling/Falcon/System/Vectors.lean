import Falcon.Machinery.Run
import Falcon.Os.Workers
import Falcon.Process.Records
import Falcon.Vmm.Moves

/-!
# System/Vectors — the generation vectors of a process, its machine and the monitor below

Three enforcers are stacked: the one of the monitors at the router, the one of the machines on a
host, the one of the processes in a machine.  Each answers `SPY_GET_GEN` with its own `gen_vec_` and
the generation of the target, and builds `gen_vec_` from another source: the monitors' enforcer has
an empty one, the machines' one asks the router for that of its host, and the processes' one reads
two files in the guest.

* `vectors_agree_iff` — the vectors of the three are each the one below with an element appended
  exactly when the two generations in the files are equal and the router has answered.
-/

namespace Falcon

/-- The base vector `SetGenVec` makes of `/mnt/gen/hypervisor` and `/mnt/gen/<hostname>`. -/
def ProcessEnforcer.setGenVec (hypervisorGeneration domainGeneration : GenNo) : List GenNo :=
  [] ++ [domainGeneration] ++ [hypervisorGeneration]

namespace Enforcer

variable {s : Enforcer}

/-- The answer to the request just handled. -/
def lastReply (s : Enforcer) : Option SpyRes :=
  match s.log.head? with
  | some (.reply _ res) => some res
  | _ => none

/-- The answer to `SPY_GET_GEN`. -/
def getGenRes (t : Handle) (layer : LayerAnswer) (s : Enforcer) : SpyRes :=
  if layer.invalid then ⟨⟨t, []⟩, .unknownTarget⟩
  else ⟨⟨t, (s.updateGenerations t layer).genOf t⟩, .genResp⟩

/-- **What `SPY_GET_GEN` does**: it is answered, and nothing else happens. -/
theorem log_getGen (target : TargetT) (layer : LayerAnswer) :
    (s.dispatch (.getGen target) layer).log =
      .reply (.getGen target) (s.getGenRes target.handle layer) :: s.log := by
  obtain ⟨lines, hup⟩ := updateGenerations_eq target.handle layer s
  cases hinv : layer.invalid with
  | true => simp [dispatch, getGenRes, hinv, note]
  | false =>
    simp only [dispatch, getGenRes, hinv, note, Bool.false_eq_true, if_false]
    rw [hup]

theorem newer_getGen (target : TargetT) (layer : LayerAnswer) :
    s.newer (s.dispatch (.getGen target) layer) =
      [.reply (.getGen target) (s.getGenRes target.handle layer)] :=
  newer_of_log (log_getGen target layer)

theorem lastReply_getGen (target : TargetT) (layer : LayerAnswer) :
    (s.dispatch (.getGen target) layer).lastReply = some (s.getGenRes target.handle layer) := by
  rw [lastReply, log_getGen]
  rfl

/-- The vector of an answer is the base vector with one element appended. -/
theorem getGenRes_cases (t : Handle) (layer : LayerAnswer) :
    s.getGenRes t layer = ⟨⟨t, []⟩, .unknownTarget⟩ ∨
      ∃ g, s.getGenRes t layer = ⟨⟨t, s.genVec ++ [g]⟩, .genResp⟩ := by
  obtain ⟨lines, hup⟩ := updateGenerations_eq t layer s
  cases hinv : layer.invalid with
  | true => exact Or.inl (by simp [getGenRes, hinv])
  | false =>
    refine Or.inr ⟨(s.updateGenerations t layer).generations t, ?_⟩
    simp only [getGenRes, hinv, genOf, Bool.false_eq_true, if_false]
    rw [hup]

end Enforcer

/-- The three enforcers, and the router's answers to the machines' enforcer. -/
structure Stack where
  /-- The name of the host, and the handle of its monitor. -/
  host : Handle
  vmm : VMMEnforcer
  os : OSEnforcer
  process : ProcessEnforcer
  /-- The answers under way. -/
  replies : List SpyRes
  /-- The answer `SetGeneration` has got. -/
  answered : Option SpyRes

namespace Stack

/-- The enforcers as they start, with `a` and `b` in the files of the guest. -/
def init (host : Handle) (a b : GenNo) (vmmGens osGens processGens : Handle → GenNo) : Stack where
  host := host
  vmm := .init [] vmmGens
  os := .init osGens
  process := .init (ProcessEnforcer.setGenVec a b) processGens
  replies := []
  answered := none

inductive Event
  | vmm (e : VMMEnforcer.Event × VMMEnforcer.Outside)
  | os (e : OSEnforcer.Event × OSEnforcer.Outside)
  | process (e : ProcessEnforcer.Event × ProcessEnforcer.Outside)
  /-- The call of the machines' enforcer reaches the router, once or again. -/
  | query (out : VMMEnforcer.Outside)
  /-- An answer of the router reaches the machines' enforcer. -/
  | router (res : SpyRes) (out : OSEnforcer.Outside)

/-- One turn of one of the event loops. -/
def step (s : Stack) : Event → Option Stack
  | .vmm e => do
    let vmm ← s.vmm.step e
    some { s with vmm := vmm }
  | .os (.router _ _, _) => none
  | .os e => do
    let os ← s.os.step e
    some { s with os := os }
  | .process e => do
    let process ← s.process.step e
    some { s with process := process }
  | .query out => do
    let vmm ← s.vmm.step (.request (.getGen ⟨s.host, []⟩), out)
    let res ← vmm.core.lastReply
    some { s with vmm := vmm, replies := res :: s.replies }
  | .router res out =>
    if res ∈ s.replies then do
      let os ← s.os.step (.router res .success, out)
      some { s with os := os, answered := some res }
    else none

/-! ## The vectors answered -/

/-- The vector of a `FALCON_GEN_RESP`. -/
def vector (res : SpyRes) : Option (List GenNo) :=
  if res.status = .genResp then some res.target.generation else none

/-- The vector the monitors' enforcer answers for the monitor of the host. -/
def vmmVector (s : Stack) (out : VMMEnforcer.Outside) : Option (List GenNo) := do
  let vmm ← s.vmm.step (.request (.getGen ⟨s.host, []⟩), out)
  vector (← vmm.core.lastReply)

/-- The vector the machines' enforcer answers for the machine `vm`. -/
def osVector (s : Stack) (vm : Handle) (out : OSEnforcer.Outside) : Option (List GenNo) := do
  let os ← s.os.step (.request (.getGen ⟨vm, []⟩), out)
  vector (← os.core.lastReply)

/-- The vector the processes' enforcer answers for the process `p`. -/
def processVector (s : Stack) (p : Handle) (out : ProcessEnforcer.Outside) :
    Option (List GenNo) := do
  let process ← s.process.step (.request (.getGen ⟨p, []⟩), out)
  vector (← process.core.lastReply)

/-! ## The base vectors -/

section Layers

variable {gv : List GenNo}

/-- The tables of the base class are in order, and its vector is `gv`. -/
def Based (gv : List GenNo) (c : Enforcer) : Prop := c.Named ∧ c.genVec = gv

theorem Based.step {c c' : Enforcer} {e : Enforcer.Event} (hc : Based gv c)
    (h : c.step e = some c') : Based gv c' :=
  ⟨Enforcer.named_step hc.1 h, (Enforcer.genVec_step hc.1 h).trans hc.2⟩

theorem based_vmm {s s' : VMMEnforcer} {e : VMMEnforcer.Event × VMMEnforcer.Outside}
    (hs : Based gv s.core) (h : s.step e = some s') : Based gv s'.core := by
  have hm := VMMEnforcer.moves_step (S := fun _ _ => True) hs.1 (fun _ _ _ => trivial) h
  refine hm.keeps (I := fun s => Based gv s.core) (fun s s' hm hs => ?_) hs
  cases hm with
  | base hc => exact hs.step hc
  | _ => exact hs

theorem based_process {s s' : ProcessEnforcer} {e : ProcessEnforcer.Event × ProcessEnforcer.Outside}
    (hs : Based gv s.core) (h : s.step e = some s') : Based gv s'.core := by
  refine ProcessEnforcer.keeps_step (I := fun s => Based gv s.core) hs h (fun s s' hm hs => ?_)
    (fun _ _ => hs) (fun _ => hs) (fun _ _ _ _ hs => hs) (fun _ _ _ _ => hs)
  cases hm with
  | base hc _ _ => exact hs.step hc
  | @report _ _ h st k w _ _ => exact hs.step (e := .observeDown h st k w) rfl
  | stop | answered =>
    change Based gv (s.timecbRemove _).core
    rwa [ProcessEnforcer.timecbRemove_core]
  | _ => exact hs

theorem based_hook {s s' : OSEnforcer} {out : OSEnforcer.Outside} {a : Action}
    (hs : Based gv s.core) (h : s.hook out a = some s') : Based gv s'.core := by
  unfold OSEnforcer.hook at h
  split at h
  · unfold OSEnforcer.startMonitoring at h
    split_ifs at h
    exact Option.some.inj h ▸ hs
  · exact Option.some.inj h ▸ hs
  · next t =>
    rw [OSEnforcer.eq_of_kill h]
    exact hs.step (e := .observeDown t 0 true true) rfl
  · exact Option.some.inj h ▸ hs

theorem based_os {s s' : OSEnforcer} {e : OSEnforcer.Event × OSEnforcer.Outside}
    (hs : Based gv s.core) (hrouter : ∀ res status, e.1 ≠ .router res status)
    (h : s.step e = some s') : Based gv s'.core := by
  unfold OSEnforcer.step at h
  split at h
  · obtain ⟨c, hc, h⟩ := Option.bind_eq_some_iff.mp h
    exact Run.foldlM_rel (r := fun s s' : OSEnforcer => Based gv s.core → Based gv s'.core)
      (fun _ hs => hs) (fun _ _ _ h₁ h₂ hs => h₂ (h₁ hs)) (fun _ _ _ h hs => based_hook hs h)
      _ _ _ h (hs.step hc)
  · split at h
    · next res status he => exact absurd he (hrouter res status)
    · obtain ⟨w, -, h⟩ := Option.bind_eq_some_iff.mp h
      obtain ⟨-, rfl⟩ | ⟨-, rfl | ⟨st, s₁, hok, hs₁, rfl⟩⟩ := OSEnforcer.handleWorker_cases h
      · exact hs
      · exact hs.step (e := .observeUp w.handle) rfl
      · obtain ⟨status, k, w', rfl⟩ := OSEnforcer.eq_of_verdict hok hs₁
        exact hs.step (e := .observeDown w.handle status k w') rfl
    · cases h

/-- The router's answer becomes the base vector. -/
theorem based_router {s s' : OSEnforcer} {res : SpyRes} {out : OSEnforcer.Outside}
    (hs : Based gv s.core) (h : s.step (.router res .success, out) = some s') :
    Based res.target.generation s'.core := by
  simp only [OSEnforcer.step, OSEnforcer.baseEvent, OSEnforcer.setGeneration] at h
  split_ifs at h
  exact Option.some.inj h ▸ ⟨⟨hs.1.all, hs.1.target⟩, rfl⟩

end Layers

variable {s s' : Stack} {a b : GenNo}

/-- The answer of the router to the machines' enforcer. -/
def Answers (host : Handle) (res : SpyRes) : Prop :=
  res = ⟨⟨host, []⟩, .unknownTarget⟩ ∨ ∃ g, res = ⟨⟨host, [g]⟩, .genResp⟩

/-- Where the three base vectors come from. -/
structure Sound (a b : GenNo) (s : Stack) : Prop where
  vmm : Based [] s.vmm.core
  process : Based [b, a] s.process.core
  os : Based (s.answered.elim [] fun res => res.target.generation) s.os.core
  replies : ∀ res ∈ s.replies, Answers s.host res
  answered : ∀ res ∈ s.answered, Answers s.host res

/-- The monitors' enforcer answers `SPY_GET_GEN`. -/
theorem vmm_getGen {v v' : VMMEnforcer} {h : Handle} {out : VMMEnforcer.Outside}
    (hstep : v.step (.request (.getGen ⟨h, []⟩), out) = some v') :
    v'.core.lastReply = some (v.core.getGenRes h (v.answer h)) := by
  simp only [VMMEnforcer.step, VMMEnforcer.runHooks, Enforcer.newer_getGen] at hstep
  obtain rfl := Option.some.inj hstep
  exact Enforcer.lastReply_getGen ⟨h, []⟩ _

theorem os_getGen {o o' : OSEnforcer} {h : Handle} {out : OSEnforcer.Outside}
    (hstep : o.step (.request (.getGen ⟨h, []⟩), out) = some o') :
    o'.core.lastReply = some (o.core.getGenRes h (o.answer h out)) := by
  simp only [OSEnforcer.step, OSEnforcer.baseEvent, Enforcer.step, OSEnforcer.runHooks,
    Option.bind_eq_bind, Option.bind_some, Enforcer.newer_getGen] at hstep
  obtain rfl := Option.some.inj hstep
  exact Enforcer.lastReply_getGen ⟨h, []⟩ _

theorem process_getGen {p p' : ProcessEnforcer} {h : Handle} {out : ProcessEnforcer.Outside}
    (hstep : p.step (.request (.getGen ⟨h, []⟩), out) = some p') :
    p'.core.lastReply = some (p.core.getGenRes h (p.answer h)) := by
  simp only [ProcessEnforcer.step, ProcessEnforcer.runHooks, Enforcer.newer_getGen] at hstep
  obtain rfl := Option.some.inj hstep
  exact Enforcer.lastReply_getGen ⟨h, []⟩ _

theorem Sound.step {e : Event} (hs : Sound a b s) (h : s.step e = some s') : Sound a b s' := by
  unfold Stack.step at h
  split at h
  · obtain ⟨v, hv, h⟩ := Option.bind_eq_some_iff.mp h
    obtain rfl := Option.some.inj h
    exact { hs with vmm := based_vmm hs.vmm hv }
  · cases h
  · next e he =>
    obtain ⟨o, ho, h⟩ := Option.bind_eq_some_iff.mp h
    obtain rfl := Option.some.inj h
    refine { hs with os := based_os hs.os (fun res status heq => ?_) ho }
    obtain ⟨e, out⟩ := e
    exact he res status out (by rw [show e = .router res status from heq])
  · obtain ⟨p, hp, h⟩ := Option.bind_eq_some_iff.mp h
    obtain rfl := Option.some.inj h
    exact { hs with process := based_process hs.process hp }
  · obtain ⟨v, hv, h⟩ := Option.bind_eq_some_iff.mp h
    obtain ⟨res, hres, h⟩ := Option.bind_eq_some_iff.mp h
    obtain rfl := Option.some.inj h
    refine { hs with vmm := based_vmm hs.vmm hv, replies := fun res' hres' => ?_ }
    obtain rfl | hres' := List.mem_cons.mp hres'
    · rw [vmm_getGen hv] at hres
      obtain rfl := Option.some.inj hres
      have hcases := s.vmm.core.getGenRes_cases s.host (s.vmm.answer s.host)
      rwa [hs.vmm.2] at hcases
    · exact hs.replies res' hres'
  · next res out =>
    split_ifs at h with hmem
    obtain ⟨o, ho, h⟩ := Option.bind_eq_some_iff.mp h
    obtain rfl := Option.some.inj h
    refine { hs with os := based_router hs.os ho, answered := fun res' hres' => ?_ }
    obtain rfl := Option.some.inj hres'
    exact hs.replies res hmem

theorem sound_init (host : Handle) (a b : GenNo) (vmmGens osGens processGens : Handle → GenNo) :
    Sound a b (init host a b vmmGens osGens processGens) where
  vmm := ⟨Enforcer.named_init [] vmmGens, rfl⟩
  process := ⟨Enforcer.named_init _ processGens, rfl⟩
  os := ⟨Enforcer.named_init [] osGens, rfl⟩
  replies := fun _ h => (by cases h)
  answered := fun _ h => (by cases h)

theorem sound_run {es : List Event} (hs : Sound a b s) (h : es.foldlM Stack.step s = some s') :
    Sound a b s' :=
  Run.foldlM_rel (r := fun s s' => Sound a b s → Sound a b s') (fun _ hs => hs)
    (fun _ _ _ h₁ h₂ hs => h₂ (h₁ hs)) (fun _ _ _ h hs => hs.step h) es s s' h hs

/-! ## Agreement -/

/-- What is answered with `FALCON_GEN_RESP` is the base vector with one element appended. -/
theorem vector_getGenRes {c : Enforcer} {h : Handle} {layer : Enforcer.LayerAnswer} {v : List GenNo}
    (hv : vector (c.getGenRes h layer) = some v) : ∃ g, v = c.genVec ++ [g] := by
  obtain hres | ⟨g, hres⟩ := c.getGenRes_cases h layer
  · rw [hres] at hv
    cases hv
  · rw [hres] at hv
    exact ⟨g, (Option.some.inj hv).symm⟩

theorem vmmVector_eq {out : VMMEnforcer.Outside} {v : List GenNo}
    (h : s.vmmVector out = some v) : ∃ g, v = s.vmm.core.genVec ++ [g] := by
  obtain ⟨v', hstep, h⟩ := Option.bind_eq_some_iff.mp h
  rw [vmm_getGen hstep] at h
  exact vector_getGenRes h

theorem osVector_eq {vm : Handle} {out : OSEnforcer.Outside} {o : List GenNo}
    (h : s.osVector vm out = some o) : ∃ g, o = s.os.core.genVec ++ [g] := by
  obtain ⟨o', hstep, h⟩ := Option.bind_eq_some_iff.mp h
  rw [os_getGen hstep] at h
  exact vector_getGenRes h

theorem processVector_eq {q : Handle} {out : ProcessEnforcer.Outside} {p : List GenNo}
    (h : s.processVector q out = some p) : ∃ g, p = s.process.core.genVec ++ [g] := by
  obtain ⟨p', hstep, h⟩ := Option.bind_eq_some_iff.mp h
  rw [process_getGen hstep] at h
  exact vector_getGenRes h

/-- **The vectors of adjacent layers agree in one case only.**  Let the guest's files hold the
generations `a` and `b` that the enforcers below report.  The vector of a process is that of its
machine with an element appended, and that of the machine is the monitor's with an element appended,
if and only if `a = b` and the router has answered the machines' enforcer with `a`. -/
theorem vectors_agree_iff (host : Handle) (a b : GenNo)
    (vmmGens osGens processGens : Handle → GenNo)
    (es : List Event) (s : Stack)
    (hrun : es.foldlM step (init host a b vmmGens osGens processGens) = some s) (vm q : Handle)
    (vmmOut : VMMEnforcer.Outside) (osOut : OSEnforcer.Outside)
    (processOut : ProcessEnforcer.Outside)
    (v o p : List GenNo) (hv : s.vmmVector vmmOut = some v) (ho : s.osVector vm osOut = some o)
    (hp : s.processVector q processOut = some p) (ha : v.getLast? = some a)
    (hb : o.getLast? = some b) :
    ((∃ c, p = o ++ [c]) ∧ ∃ b', o = v ++ [b']) ↔
      a = b ∧ s.answered = some ⟨⟨s.host, [a]⟩, .genResp⟩ := by
  have hs := sound_run (sound_init host a b vmmGens osGens processGens) hrun
  obtain ⟨a', rfl⟩ := vmmVector_eq hv
  obtain ⟨b', rfl⟩ := osVector_eq ho
  obtain ⟨c, rfl⟩ := processVector_eq hp
  obtain rfl : a' = a := by simpa using ha
  obtain rfl : b' = b := by simpa using hb
  rw [hs.vmm.2, hs.process.2, hs.os.2]
  cases hans : s.answered with
  | none => simp
  | some res =>
    obtain rfl | ⟨g, rfl⟩ := hs.answered res hans
    · simp
    · -- the two sides are `[b, a, c] = [g, b, _]` and `[g, b] = [a, _]`
      simp only [Option.elim_some, List.cons_append, List.nil_append, List.cons.injEq, and_true,
        exists_and_left, Option.some.injEq, SpyRes.mk.injEq, TargetT.mk.injEq, true_and]
      constructor
      · rintro ⟨⟨-, hab, -⟩, hga, -⟩
        exact ⟨hab, hga⟩
      · rintro ⟨rfl, rfl⟩
        exact ⟨⟨rfl, rfl, c, rfl⟩, rfl, g, rfl⟩

open VMMEnforcer (silent)
open OSEnforcer (running)
open ProcessEnforcer (obliging)

/-- The monitor `"host"` registers at the router, and its generation is `1`, as the machines'
enforcer learns.  The process `"app"` connects to the enforcer in the machine. -/
def connected : List Event :=
  [.vmm (.observerRegister "host" 3, silent), .query silent,
   .router ⟨⟨"host", [1]⟩, .genResp⟩ (running 0), .process (.spawn 7, obliging),
   .process (.accept 3, obliging),
   .process (.handshake 3 (some ⟨"app", 7, 1000, delayRealtime⟩), obliging)]

/-- The machine is of generation `1`, too. -/
theorem vectors_agree_ones : ∃ s v o p,
    connected.foldlM step (init "host" 1 1 (fun _ => 1) (fun _ => 0) (fun _ => 5)) = some s ∧
    s.vmmVector silent = some v ∧ s.osVector "vm" (running 1) = some o ∧
    s.processVector "app" obliging = some p ∧ (∃ c, p = o ++ [c]) ∧ ∃ b', o = v ++ [b'] :=
  ⟨_, _, _, _, rfl, rfl, rfl, rfl,
    (vectors_agree_iff "host" 1 1 (fun _ => 1) (fun _ => 0) (fun _ => 5) connected _ rfl "vm" "app"
      silent (running 1) obliging _ _ _ rfl rfl rfl rfl rfl).mpr ⟨rfl, rfl⟩⟩

/-- The machine is of generation `2`: the enforcers answer `[1]`, `[1, 2]` and `[2, 1, 5]`. -/
theorem vectors_disagree : ∃ s v o p,
    connected.foldlM step (init "host" 1 2 (fun _ => 1) (fun _ => 0) (fun _ => 5)) = some s ∧
    s.vmmVector silent = some v ∧ s.osVector "vm" (running 2) = some o ∧
    s.processVector "app" obliging = some p ∧ v.getLast? = some 1 ∧ o.getLast? = some 2 ∧
    ¬ ((∃ c, p = o ++ [c]) ∧ ∃ b', o = v ++ [b']) := by
  refine ⟨_, [1], [1, 2], [2, 1, 5], rfl, by decide, by decide, by decide, rfl, rfl, ?_⟩
  rintro ⟨⟨c, hc⟩, -⟩
  have hhead := congrArg List.head? hc
  exact absurd hhead (by simp)

end Stack

end Falcon
