import Falcon.Replication.Proposals

/-!
# Replication/Network — the calls of a group and their callbacks

A cohort numbers its calls, so a call of the network is known by who has made it and its number, and
the callback that waits for its answer is the one that was made with it.  What an answer is taken
for is then what it was given for.
-/

namespace Falcon

/-- The callbacks of a call to `d`. -/
inductive Continuation.Fits : Continuation → Mid → Call → Prop
  | replicate (b : Mid) (ra : ReplicateArg) : Fits (.replicateCb b) b (.replicate ra)
  | viewChange (a : AttemptRef) (u : Mid) (g : ViewChangeArg) :
      Fits (.viewChangePrepareCb a u) u (.viewChange g)
  | newView (a : AttemptRef) (u : Mid) (nv : NewViewArg) :
      Fits (.viewChangeNewviewCb a u) u (.newView nv)
  | fetchlog (p : PullRef) (d : Mid) (vs : Viewstamp) : Fits (.fetchlogCb p vs) d (.fetchlog vs)

namespace Cohort

variable {i : Input} {s s' s₁ s₂ s₃ : Cohort} {p : PullRef} {vs : Viewstamp}

/-! ## What a cohort gives to the network -/

/-- New calls have numbers of their own, and each callback has a call. -/
structure Emits (s s' : Cohort) : Prop where
  nextCall : s.nextCall ≤ s'.nextCall
  mono : s.out ⊆ s'.out
  fresh : ∀ n d k, .call n d k ∈ s'.out →
    .call n d k ∈ s.out ∨ s.nextCall ≤ n ∧ n < s'.nextCall
  once : ∀ n d k d' k', .call n d k ∈ s'.out → .call n d' k' ∈ s'.out →
    .call n d k ∉ s.out → .call n d' k' ∉ s.out → d = d' ∧ k = k'
  calls : ∀ n cb, s'.calls.lookup n = some cb →
    s.calls.lookup n = some cb ∨ ∃ d k, .call n d k ∈ s'.out ∧ cb.Fits d k

theorem Emits.trans (h : Emits s₁ s₂) (h' : Emits s₂ s₃) : Emits s₁ s₃ where
  nextCall := h.nextCall.trans h'.nextCall
  mono := List.Subset.trans h.mono h'.mono
  fresh n d k hmem := by
    obtain hmem | ⟨hge, hlt⟩ := h'.fresh n d k hmem
    · obtain hmem | ⟨hge, hlt⟩ := h.fresh n d k hmem
      · exact Or.inl hmem
      · exact Or.inr ⟨hge, lt_of_lt_of_le hlt h'.nextCall⟩
    · exact Or.inr ⟨h.nextCall.trans hge, hlt⟩
  once n d k d' k' hmem hmem' hnew hnew' := by
    by_cases hold : .call n d k ∈ s₂.out
    · have hlt := ((h.fresh n d k hold).resolve_left hnew).2
      by_cases hold' : .call n d' k' ∈ s₂.out
      · exact h.once n d k d' k' hold hold' hnew hnew'
      · have hge := ((h'.fresh n d' k' hmem').resolve_left hold').1
        omega
    · have hge := ((h'.fresh n d k hmem).resolve_left hold).1
      by_cases hold' : .call n d' k' ∈ s₂.out
      · have hlt := ((h.fresh n d' k' hold').resolve_left hnew').2
        omega
      · exact h'.once n d k d' k' hmem hmem' hold hold'
  calls n cb hcb := by
    obtain hcb | ⟨d, k, hmem, hfits⟩ := h'.calls n cb hcb
    · obtain hcb | ⟨d, k, hmem, hfits⟩ := h.calls n cb hcb
      · exact Or.inl hcb
      · exact Or.inr ⟨d, k, h'.mono hmem, hfits⟩
    · exact Or.inr ⟨d, k, hmem, hfits⟩

/-- No call is made. -/
theorem Emits.of_answers {l : List Output} (hl : ∀ n d k, .call n d k ∉ l)
    (hout : s'.out = l ++ s.out) (hn : s'.nextCall = s.nextCall)
    (hcalls : ∀ n cb, s'.calls.lookup n = some cb → s.calls.lookup n = some cb) : Emits s s' := by
  have hold : ∀ {n d k}, .call n d k ∈ s'.out → .call n d k ∈ s.out := fun hmem =>
    (List.mem_append.mp (hout ▸ hmem)).resolve_left (hl _ _ _)
  refine ⟨hn.ge, ?_, fun n d k hmem => Or.inl (hold hmem), ?_, fun n cb hcb =>
    Or.inl (hcalls n cb hcb)⟩
  · rw [hout]
    exact List.subset_append_right _ _
  · exact fun n d k d' k' hmem _ hnew _ => absurd (hold hmem) hnew

theorem Emits.still (hout : s'.out = s.out) (hn : s'.nextCall = s.nextCall)
    (hcalls : s'.calls = s.calls) : Emits s s' :=
  .of_answers (l := []) nofun hout hn fun _ _ hcb => hcalls ▸ hcb

/-- The rest of the state does not matter. -/
theorem Emits.after (h : Emits s₁ s') (hout : s₁.out = s.out) (hn : s₁.nextCall = s.nextCall)
    (hcalls : s₁.calls = s.calls) : Emits s s' :=
  Emits.trans (.still hout hn hcalls) h

/-- A call is answered. -/
theorem Emits.answer {sbp : Sbp} {ans : Answer} (hout : s'.out = .answer sbp ans :: s.out)
    (hn : s'.nextCall = s.nextCall) (hcalls : s'.calls = s.calls) : Emits s s' :=
  .of_answers (l := [.answer sbp ans]) (fun _ _ _ h => nomatch List.mem_singleton.mp h) hout hn
    fun _ _ hcb => hcalls ▸ hcb

/-- One call is made. -/
theorem emits_call {d : Mid} {k : Call} (cb : Option Continuation)
    (hcb : ∀ cb', cb = some cb' → cb'.Fits d k) (hout : s'.out = (s.call d k cb).out)
    (hn : s'.nextCall = s.nextCall + 1) (hcalls : s'.calls = (s.call d k cb).calls) :
    Emits s s' := by
  have hmem : ∀ {x}, x ∈ s'.out ↔ x = .call s.nextCall d k ∨ x ∈ s.out := fun {x} => by
    rw [hout]
    exact List.mem_cons
  refine ⟨by omega, fun x hx => hmem.mpr (Or.inr hx), fun n d' k' hx => ?_, ?_,
    fun n cb' hcb' => ?_⟩
  · obtain heq | hx := hmem.mp hx
    · obtain ⟨rfl, -, -⟩ := Output.call.inj heq
      exact Or.inr ⟨le_refl _, by omega⟩
    · exact Or.inl hx
  · intro n d₁ k₁ d₂ k₂ hx hy hnew hnew'
    obtain ⟨-, rfl, rfl⟩ := Output.call.inj ((hmem.mp hx).resolve_right hnew)
    obtain ⟨-, rfl, rfl⟩ := Output.call.inj ((hmem.mp hy).resolve_right hnew')
    exact ⟨rfl, rfl⟩
  · cases cb with
    | none => exact Or.inl (hcalls ▸ hcb')
    | some cb₀ =>
      rw [hcalls] at hcb'
      change (s.calls.insert s.nextCall cb₀).lookup n = some cb' at hcb'
      by_cases heq : n = s.nextCall
      · subst heq
        rw [AList.lookup_insert] at hcb'
        exact Or.inr ⟨d, k, hmem.mpr (Or.inl rfl), Option.some.inj hcb' ▸ hcb cb₀ rfl⟩
      · rw [AList.lookup_insert_ne heq] at hcb'
        exact Or.inl hcb'

/-- A call to each of `us` is made. -/
theorem Sends.emits {c : Mid → Call} {cb : Mid → Continuation} {us : List Mid} {o : List Output}
    {S : Keyed ℕ Continuation} (h : s.Sends c cb us o S) (hcb : ∀ d, (cb d).Fits d (c d))
    (hout : s'.out = o) (hn : s'.nextCall = s.nextCall + us.length) (hcalls : s'.calls = S) :
    Emits s s' := by
  subst hout hcalls
  refine ⟨by omega, fun x hx => (h.out x).mpr (Or.inl hx), fun n d k hx => ?_, ?_, fun n k hk => ?_⟩
  · obtain hx | ⟨j, d', hj, heq⟩ := (h.out _).mp hx
    · exact Or.inl hx
    · obtain ⟨rfl, -, -⟩ := Output.call.inj heq
      have hlt := (List.getElem?_eq_some_iff.mp hj).1
      exact Or.inr ⟨by omega, by omega⟩
  · intro n d₁ k₁ d₂ k₂ hx hy hnew hnew'
    obtain ⟨j, d, hj, heq⟩ := ((h.out _).mp hx).resolve_left hnew
    obtain ⟨j', d', hj', heq'⟩ := ((h.out _).mp hy).resolve_left hnew'
    obtain ⟨rfl, rfl, rfl⟩ := Output.call.inj heq
    obtain ⟨hjj, rfl, rfl⟩ := Output.call.inj heq'
    obtain rfl : j = j' := by omega
    obtain rfl : d₁ = d₂ := Option.some.inj (hj.symm.trans hj')
    exact ⟨rfl, rfl⟩
  · obtain hk | ⟨j, d, hj, rfl, rfl⟩ := h.calls n k hk
    · exact Or.inl hk
    · exact Or.inr ⟨d, c d, (h.out _).mpr (Or.inr ⟨j, d, hj, rfl⟩), hcb d⟩

theorem emits_pullOne (p : PullRef) (s : Cohort) (vs : Viewstamp) : Emits s (s.pullOne p vs) := by
  unfold pullOne
  split_ifs
  · exact .still rfl rfl rfl
  · exact emits_call (some _) (fun _ heq => Option.some.inj heq ▸ .fetchlog p _ vs) rfl rfl rfl

theorem emits_pullUpto (hs' : s.pullUpto p vs = some s') : Emits s s' := by
  obtain ⟨-, rfl⟩ | ⟨-, base, -, rfl⟩ := pullUpto_cases hs'
  · exact .still rfl rfl rfl
  · exact Run.foldl_rel (r := Emits) (fun _ => .still rfl rfl rfl) (fun _ _ _ => Emits.trans)
      (emits_pullOne p) _ s

theorem emits_descend (hs' : s.descend p = some s') : Emits s s' := by
  cases descends hs' with
  | waits hnext hlt hnone => exact .still rfl rfl rfl
  | goes hnext hlt hrle hf hs' => exact (emits_pullUpto hs').after rfl rfl rfl
  | ends hnext hge => exact .still rfl rfl rfl

/-- **A move makes calls with new numbers.** -/
theorem Move.emits (h : Move i s s') : Emits s s' := by
  cases h with
  | called hin hcb =>
    exact .of_answers (l := []) nofun rfl rfl fun _ _ hcb => Keyed.lookup_of_lookup_erase hcb
  | answer hans => exact .answer rfl rfl rfl
  | cached hin hrce hrid hrle hdone => exact .answer rfl rfl rfl
  | executeDone hin hvs hrle ho =>
    obtain ⟨-, rfl, -⟩ | ⟨sbp, -, rfl, -⟩ := ho
    · exact .still rfl rfl rfl
    · exact .answer rfl rfl rfl
  | replicateForm hin hprimary hlog hsends =>
    exact hsends.emits (fun d => .replicate d _) rfl rfl rfl
  | pull hpulls hs' => exact (emits_pullUpto hs').after rfl rfl rfl
  | descend hs' => exact emits_descend hs'
  | closed hend ho =>
    cases ho with
    | silent hnone => exact .still rfl rfl rfl
    | @answer cb hcb =>
      cases cb with
      | replicate sbp vs => exact .answer rfl rfl rfl
      | newView sbp => exact .answer rfl rfl rfl
  | ask hw hu hnew hopen hcurrent hnone =>
    exact emits_call (some _) (fun _ heq => Option.some.inj heq ▸ .viewChange _ _ _) rfl rfl rfl
  | propose hopen hdone hmaj hmaj' hnone hnv hsends =>
    exact hsends.emits (fun d => .newView _ d _) rfl rfl rfl
  | initView hopen hnv hmaj hmaj' => exact emits_call none nofun rfl rfl rfl
  | join dest => exact emits_call none nofun rfl rfl rfl
  | _ => exact .still rfl rfl rfl

theorem Moves.emits (h : Moves i s s') : Emits s s' := by
  induction h with
  | refl => exact .still rfl rfl rfl
  | tail _ hmove ih => exact ih.trans hmove.emits

theorem Begins.emits (h : Begins i s s') : Emits s s' := by
  cases h with
  | initiates hstart hs' =>
    obtain ⟨-, -, o, S, hsends, rfl⟩ := hs'
    exact Sends.emits (s := s) ⟨hsends.out, hsends.calls⟩ (fun d => .viewChange _ d _) rfl rfl rfl
  | issues hin hmode hvid hprimary hcache hvs hsends =>
    obtain ⟨L, rfl⟩ := hcache.eq
    exact hsends.emits (fun d => .replicate d _) rfl rfl rfl
  | fetches hin hcb hnew hJ =>
    exact .of_answers (l := []) nofun rfl rfl fun _ _ hcb => Keyed.lookup_of_lookup_erase hcb
  | promises hin hfree hlatest => exact .answer rfl rfl rfl
  | _ => exact .still rfl rfl rfl

/-- What a move gives to the network. -/
inductive Says (i : Input) (s : Cohort) : Output → Prop
  | answer {sbp : Sbp} {ans : Answer} (h : Answers i s sbp ans) : Says i s (.answer sbp ans)
  | ok (sbp : Sbp) (reply : List UInt8) : Says i s (.answer sbp (.execute (.ok reply)))
  | form {sbp : Sbp} {f : ViewForm} (n : ℕ) (d : Mid) (hi : i = .call sbp (.initView f))
      (hlog : ⟨f.view.vid, 0⟩ ∈ s.log) :
      Says i s (.call n d (.replicate ⟨⟨f.view.vid, 0⟩, f.arg, ⟨f.view.vid, 0⟩⟩))
  | fetchlog (n : ℕ) (d : Mid) (vs : Viewstamp) : Says i s (.call n d (.fetchlog vs))
  | pulled {p : PullRef} {cb : DoneCb} (hcb : (s.pulls p).donecb = some cb)
      (hend : (s.pulls p).ok = false ∨
        (s.pulls p).ack.expected.length = (s.pulls p).ack.received.length) :
      Says i s (answerOf cb ((s.pulls p).ok && (s.pulls p).bottomdone))
  | viewChange (n : ℕ) (d : Mid) (g : ViewChangeArg) : Says i s (.call n d (.viewChange g))
  | newView {a : AttemptRef} {nv : NewViewArg} (n : ℕ) (d : Mid)
      (hnv : viewChangeChooseView (s.attempts a) = some nv) : Says i s (.call n d (.newView nv))
  | initView {a : AttemptRef} {nv : NewViewArg} (n : ℕ) (d : Mid)
      (hnv : (s.attempts a).nvarg = some nv) :
      Says i s (.call n d (.initView ⟨nv.latest, nv.view⟩))
  | letMeIn (n : ℕ) (d u : Mid) : Says i s (.call n d (.letMeIn u))

theorem Sends.said {c : Mid → Call} {cb : Mid → Continuation} {us : List Mid} {o : List Output}
    {S : Keyed ℕ Continuation} {x : Output} (h : s.Sends c cb us o S)
    (hc : ∀ n d, Says i s (.call n d (c d))) (hx : x ∈ o) : x ∈ s.out ∨ Says i s x := by
  obtain hx | ⟨j, d, -, rfl⟩ := (h.out x).mp hx
  · exact Or.inl hx
  · exact Or.inr (hc _ d)

theorem Asks.said {x : Output} (h : Asks p s₁ s') (hout : s₁.out = s.out) (hx : x ∈ s'.out) :
    x ∈ s.out ∨ Says i s x := by
  obtain hx | ⟨n, d, vs, rfl, -⟩ := h.out x hx
  · exact Or.inl (hout ▸ hx)
  · exact Or.inr (.fetchlog n d vs)

/-- **What a move gives to the network.** -/
theorem Move.said {x : Output} (h : Move i s s') (hx : x ∈ s'.out) : x ∈ s.out ∨ Says i s x := by
  have hcons : ∀ {y : Output}, Says i s y → x ∈ y :: s.out → x ∈ s.out ∨ Says i s x := by
    intro y hy hx
    obtain rfl | hx := List.mem_cons.mp hx
    · exact Or.inr hy
    · exact Or.inl hx
  cases h with
  | answer hans => exact hcons (.answer hans) hx
  | cached hin hrce hrid hrle hdone => exact hcons (.ok _ _) hx
  | executeDone hin hvs hrle ho =>
    obtain ⟨-, rfl, -⟩ | ⟨sbp, -, rfl, -⟩ := ho
    · exact Or.inl hx
    · exact hcons (.ok _ _) hx
  | replicateForm hin hprimary hlog hsends => exact hsends.said (fun n d => .form n d hin hlog) hx
  | pull hpulls hs' => exact (asks_pullUpto hs').said rfl hx
  | descend hs' => exact (asks_descend hs').said rfl hx
  | closed hend ho =>
    cases ho with
    | silent hnone => exact Or.inl hx
    | answer hcb => exact hcons (.pulled hcb hend) hx
  | ask hw hu hnew hopen hcurrent hnone => exact hcons (.viewChange _ _ _) hx
  | propose hopen hdone hmaj hmaj' hnone hnv hsends =>
    exact hsends.said (fun n d => .newView n d hnv) hx
  | initView hopen hnv hmaj hmaj' => exact hcons (.initView _ _ hnv) hx
  | join dest => exact hcons (.letMeIn _ _ _) hx
  | _ => exact Or.inl hx

theorem Moves.said {x : Output} (h : Moves i s s') (hx : x ∈ s'.out) :
    x ∈ s.out ∨ ∃ s₁, Moves i s s₁ ∧ Says i s₁ x := by
  induction h with
  | refl => exact Or.inl hx
  | tail hmoves hmove ih =>
    obtain hx | hsays := hmove.said hx
    · exact ih hx
    · exact Or.inr ⟨_, hmoves, hsays⟩

/-- What is given to the network before the moves. -/
inductive Opens (i : Input) (s s₁ : Cohort) : Output → Prop
  | issue {sbp : Sbp} {arg : ExecuteArg} {vs : Viewstamp} (n : ℕ) (d : Mid)
      (hi : i = .call sbp (.execute arg)) (hvs : s.latest.succ = some vs)
      (hlatest : s₁.latest = vs) :
      Opens i s s₁ (.call n d (.replicate ⟨vs, arg, s.committed⟩))
  | viewChange (n : ℕ) (d : Mid) (g : ViewChangeArg) : Opens i s s₁ (.call n d (.viewChange g))
  | accept (sbp : Sbp) (res : ViewChangeRes) : Opens i s s₁ (.answer sbp (.viewChange res))

theorem Begins.said {x : Output} (h : Begins i s s₁) (hx : x ∈ s₁.out) :
    x ∈ s.out ∨ Opens i s s₁ x := by
  cases h with
  | initiates hstart hs' =>
    obtain ⟨-, -, o, S, hsends, rfl⟩ := hs'
    obtain hx | ⟨j, d, -, rfl⟩ := (hsends.out x).mp hx
    · exact Or.inl hx
    · exact Or.inr (.viewChange _ _ _)
  | issues hin hmode hvid hprimary hcache hvs hsends =>
    obtain hx | ⟨j, d, -, rfl⟩ := (hsends.out x).mp hx
    · exact Or.inl hx
    · exact Or.inr (.issue _ _ hin hvs rfl)
  | promises hin hfree hlatest =>
    obtain rfl | hx := List.mem_cons.mp hx
    · exact Or.inr (.accept _ _)
    · exact Or.inl hx
  | _ => exact Or.inl hx

end Cohort

namespace Group

open Cohort

variable {s s' : Group} {e : Event} {m : Mid} {c : Cohort} {i : Input}

/-! ## The calls of a group -/

/-- A call that is not a client's is one of the network. -/
theorem Brings.packet (hi : Brings s c e i) {sbp : Sbp} {k : Call} (hin : i = .call sbp k)
    (hk : ∀ arg, k ≠ .execute arg) :
    ∃ p ∈ s.calls, p.sbp = sbp ∧ p.call = k ∧ e = .deliver p := by
  cases hi with
  | @deliver p hp =>
    obtain ⟨hsbp, hcall⟩ := Input.call.inj hin
    exact ⟨p, hp, hsbp, hcall, rfl⟩
  | request =>
    obtain ⟨-, hcall⟩ := Input.call.inj hin
    exact absurd hcall.symm (hk _)
  | _ => cases hin

/-- A callback runs on an answer of the network. -/
theorem Brings.answered (hi : Brings s c e i) {n : ℕ} {cb : Continuation} {ans : Answer}
    (hin : i = .callback n cb (some ans)) :
    (⟨e.actor, n⟩, ans) ∈ s.answers ∧ c.calls.lookup n = some cb := by
  cases hi with
  | @answer sbp ans' cb' hmem hcb =>
    obtain ⟨rfl, rfl, heq⟩ := Input.callback.inj hin
    obtain rfl := Option.some.inj heq
    exact ⟨hmem, hcb⟩
  | _ => cases hin

theorem mem_sentAnswers {sbp : Sbp} {ans : Answer} {o : List Output} :
    (sbp, ans) ∈ sentAnswers o ↔ .answer sbp ans ∈ o := by
  rw [sentAnswers, List.mem_filterMap]
  constructor
  · rintro ⟨x, hx, heq⟩
    cases x with
    | call n d k => cases heq
    | answer sbp' ans' =>
      obtain ⟨rfl, rfl⟩ := Prod.mk.inj (Option.some.inj heq)
      exact hx
  · exact fun hx => ⟨_, hx, rfl⟩

theorem mem_answers_update {sbp : Sbp} {ans : Answer} : (sbp, ans) ∈ (s.update m c).answers ↔
    (sbp, ans) ∈ s.answers ∨ .answer sbp ans ∈ c.out := by
  rw [update, List.mem_append, or_comm, mem_sentAnswers]

/-- A step of a cohort, in its parts. -/
structure Takes (s : Group) (e : Event) (i : Input) (c c₁ c' : Cohort) : Prop where
  cohort : s.cohorts e.actor = some c
  brings : Brings s c e i
  begins : Begins i c c₁
  moves : Moves i c₁ c'
  act : s.act e c = some c'
  step : s.step e = some (s.update e.actor c')

theorem exists_takes (hs : s.Sound) (hs' : s.step e = some s') :
    (∃ mid, e = .boot mid ∧ s.cohorts mid = none ∧
        s' = { s with cohorts := Function.update s.cohorts mid (some (.boot mid)) }) ∨
      ∃ i c c₁ c', Takes s e i c c₁ c' ∧ s' = s.update e.actor c' := by
  obtain hboot | ⟨c, c', hc, hc', rfl⟩ := step_cases hs'
  · exact Or.inl hboot
  · obtain ⟨i, hi, c₁, hc₁, hmoves⟩ := handles_act (hs.managed _ c hc).steady hc'
    exact Or.inr ⟨i, c, c₁, c', ⟨hc, hi, hc₁, hmoves, hc', hs'⟩, rfl⟩

theorem Takes.self {c₁ c' : Cohort} (_ : Takes s e i c c₁ c') :
    (s.update e.actor c').cohorts e.actor = some { c' with out := [] } :=
  (cohorts_update _ _ _ _).trans (if_pos rfl)

theorem Takes.other {c₁ c' : Cohort} (_ : Takes s e i c c₁ c') (hm : m ≠ e.actor) :
    (s.update e.actor c').cohorts m = s.cohorts m :=
  (cohorts_update _ _ _ _).trans (if_neg hm)

/-- What a cohort gives to the network, it says in this step. -/
theorem Takes.said {c₁ c' : Cohort} (ht : Takes s e i c c₁ c') (hs : s.Sound) {x : Output}
    (hmem : x ∈ c'.out) : Opens i c c₁ x ∨ ∃ c₂, Moves i c₁ c₂ ∧ Says i c₂ x := by
  obtain hmem | hsays := ht.moves.said hmem
  · exact Or.inl ((ht.begins.said hmem).resolve_left (hs.silent ht.cohort))
  · exact Or.inr hsays

/-- A call is known by its number, and a callback by its call. -/
structure Wired (s : Group) : Prop where
  numbered : ∀ p ∈ s.calls, ∃ c, s.cohorts p.sbp.caller = some c ∧ p.sbp.call < c.nextCall
  unique : ∀ p ∈ s.calls, ∀ p' ∈ s.calls, p.sbp = p'.sbp → p = p'
  waiting : ∀ m c n cb, s.cohorts m = some c → c.calls.lookup n = some cb →
    ∃ d k, ⟨⟨m, n⟩, d, k⟩ ∈ s.calls ∧ cb.Fits d k

/-- The calls of before have smaller numbers. -/
theorem Wired.lt_nextCall (h : s.Wired) (hc : s.cohorts m = some c) {p : Packet} (hp : p ∈ s.calls)
    (hcaller : p.sbp.caller = m) : p.sbp.call < c.nextCall := by
  obtain ⟨d, hd, hlt⟩ := h.numbered p hp
  rw [hcaller, hc] at hd
  exact Option.some.inj hd ▸ hlt

/-- A callback that waits fits its call, whichever packet has that number. -/
theorem Wired.fits (h : s.Wired) (hc : s.cohorts m = some c) {n : ℕ} {cb : Continuation}
    (hcb : c.calls.lookup n = some cb) {p : Packet} (hp : p ∈ s.calls) (hsbp : p.sbp = ⟨m, n⟩) :
    cb.Fits p.dest p.call := by
  obtain ⟨d, k, hp', hfits⟩ := h.waiting m c n cb hc hcb
  obtain rfl := h.unique p hp _ hp' hsbp
  exact hfits

theorem Takes.emits {c₁ c' : Cohort} (ht : Takes s e i c c₁ c') : Emits c c' :=
  ht.begins.emits.trans ht.moves.emits

/-- The calls of this step have new numbers. -/
theorem Takes.fresh {c₁ c' : Cohort} (ht : Takes s e i c c₁ c') (hs : s.Sound) {n : ℕ} {d : Mid}
    {k : Call} (hmem : .call n d k ∈ c'.out) : c.nextCall ≤ n ∧ n < c'.nextCall :=
  (ht.emits.fresh _ _ _ hmem).resolve_left (hs.silent ht.cohort)

theorem Wired.update {c₁ c' : Cohort} (h : s.Wired) (hs : s.Sound) (ht : Takes s e i c c₁ c') :
    (s.update e.actor c').Wired := by
  -- a call of before and one of this step do not have the same number
  have hne : ∀ p ∈ s.calls, ∀ n d k, .call n d k ∈ c'.out → p.sbp ≠ ⟨e.actor, n⟩ := by
    intro p hp n d k hmem heq
    have hlt := h.lt_nextCall ht.cohort hp (congrArg Sbp.caller heq)
    rw [heq] at hlt
    exact absurd (ht.fresh hs hmem).1 (not_le.mpr hlt)
  refine ⟨fun p hp => ?_, fun p hp p' hp' heq => ?_, fun m d n cb hd hcb => ?_⟩
  · obtain hp | ⟨n, d, k, hmem, rfl⟩ := mem_calls_update.mp hp
    · by_cases hcaller : p.sbp.caller = e.actor
      · refine ⟨_, (congrArg _ hcaller).trans ht.self, ?_⟩
        exact lt_of_lt_of_le (h.lt_nextCall ht.cohort hp hcaller) ht.emits.nextCall
      · obtain ⟨d, hd, hlt⟩ := h.numbered p hp
        exact ⟨d, (ht.other hcaller).trans hd, hlt⟩
    · exact ⟨_, ht.self, (ht.fresh hs hmem).2⟩
  · obtain hp | ⟨n, d, k, hmem, rfl⟩ := mem_calls_update.mp hp
    · obtain hp' | ⟨n', d', k', hmem', rfl⟩ := mem_calls_update.mp hp'
      · exact h.unique p hp p' hp' heq
      · exact absurd heq (hne p hp n' d' k' hmem')
    · obtain hp' | ⟨n', d', k', hmem', rfl⟩ := mem_calls_update.mp hp'
      · exact absurd heq.symm (hne p' hp' n d k hmem)
      · obtain rfl : n = n' := congrArg Sbp.call heq
        obtain ⟨rfl, rfl⟩ := ht.emits.once n d k d' k' hmem hmem' (hs.silent ht.cohort)
          (hs.silent ht.cohort)
        rfl
  · obtain ⟨rfl, rfl⟩ | hd := of_cohorts_update hd
    · obtain hcb | ⟨d, k, hmem, hfits⟩ := ht.emits.calls n cb hcb
      · obtain ⟨d, k, hmem, hfits⟩ := h.waiting _ c n cb ht.cohort hcb
        exact ⟨d, k, mem_calls_update.mpr (Or.inl hmem), hfits⟩
      · exact ⟨d, k, mem_calls_update.mpr (Or.inr ⟨n, d, k, hmem, rfl⟩), hfits⟩
    · obtain ⟨d, k, hmem, hfits⟩ := h.waiting m d n cb hd hcb
      exact ⟨d, k, mem_calls_update.mpr (Or.inl hmem), hfits⟩

theorem Wired.step (h : s.Wired) (hs : s.Sound) (hs' : s.step e = some s') : s'.Wired := by
  obtain ⟨mid, rfl, hnone, rfl⟩ | ⟨i, c, c₁, c', ht, rfl⟩ := exists_takes hs hs'
  · refine ⟨fun p hp => ?_, h.unique, fun m d n cb hd hcb => ?_⟩
    · obtain ⟨d, hd, hlt⟩ := h.numbered p hp
      exact ⟨d, cohorts_boot_of_some hnone hd, hlt⟩
    · obtain ⟨-, rfl⟩ | hd := cohorts_boot m d hd
      · cases hcb
      · exact h.waiting m d n cb hd hcb
  · exact h.update hs ht

theorem wired_init (mid : Mid) : (init mid).Wired := by
  refine ⟨nofun, nofun, fun m c n cb hc hcb => ?_⟩
  obtain ⟨-, rfl⟩ := cohorts_init hc
  cases hcb

end Group

end Falcon
