import Falcon.Machinery.Run
import Falcon.Replication.Dispatch

/-!
# Replication/Shapes — what the methods of `class cohort` change

The methods in the parts the proofs look at, and for each part the state it leaves: which fields it
writes, and with what.  A loop that makes calls is `callEach`.
-/

namespace Falcon

namespace Cohort

variable {s s' : Cohort} {vs : Viewstamp} {rle : LogEntry} {sbp : Sbp} {n : ℕ} {p : PullRef}
  {a : AttemptRef} {u : Mid} {arg : ExecuteArg} {reply : List UInt8}

/-! ## Parts of the methods -/

/-- `REP_EXECUTE` that is accepted, up to `advance_committed`. -/
def issue (sbp : Sbp) (arg : ExecuteArg) (reply : List UInt8) (s : Cohort) : Option Cohort := do
  let vs ← s.latest.succ
  let ack : Ackset Mid :=
    ⟨[s.self], s.view.backups.foldl (fun S b => OrdSet.insert b S) [s.self]⟩
  let s' ← { s with latest := vs }.insert vs ⟨some ack, some sbp, .logged, arg⟩
  some ({ s' with replycache := s'.replycache.insert arg.client ⟨arg.rid, vs, reply⟩ }.replicateTo
    ⟨vs, arg, s.committed⟩ s'.view.backups)

theorem accept_eq : s.accept sbp arg reply = (s.issue sbp arg reply).bind advanceCommitted := by
  simp only [accept, issue, Option.bind_eq_bind, Option.bind_assoc, Option.bind_some]

/-- A new pull. -/
def opened (src : Mid) (latest : Viewstamp) (cb : DoneCb) (s : Cohort) : Cohort :=
  { s with nextPull := s.nextPull + 1 }.setPull s.nextPull
    ⟨⟨[], []⟩, latest.vid, src, some cb, true, false, latest⟩

/-- A pull is over. -/
def closed (p : PullRef) (s : Cohort) : Cohort :=
  (match (s.pulls p).donecb with
    | some cb => s.done cb ((s.pulls p).ok && (s.pulls p).bottomdone)
    | none => s).setPull p { s.pulls p with donecb := none }

/-- The attempt once a call of `REP_VIEW_CHANGE` to `u` is over. -/
def prepared (a : AttemptRef) (u : Mid) (resp : Option ViewChangeRes) (s : Cohort) : Cohort :=
  let att := { s.attempts a with prepareDone := (s.attempts a).prepareDone.insert u }
  match resp with
  | none => s.setAttempt a att
  | some (.reject _ newvid) =>
    { s with proposedVid := max s.proposedVid newvid }.setAttempt a { att with aborted := true }
  | some (.accept r) =>
    if u ∈ att.prepareAccepted then s.setAttempt a att
    else
      s.setAttempt a { att with
        prepareAccepted := att.prepareAccepted.insert u
        vcaccepts := att.vcaccepts ++ [r]
        newview := mergeNewview att.newview r.newview }

theorem viewChangePrepareCb_eq {resp : Option ViewChangeRes} :
    s.viewChangePrepareCb a u resp =
      if (s.attempts a).aborted then some s
      else (s.prepared a u resp).viewChangeCheckPrepare a := by
  unfold viewChangePrepareCb prepared
  by_cases habort : (s.attempts a).aborted = true
  · simp only [habort, if_true]
  · simp only [habort, Bool.false_eq_true, if_false]
    cases resp with
    | none => rfl
    | some res =>
      cases res with
      | reject w v => rfl
      | accept r =>
        by_cases hu : u ∈ (s.attempts a).prepareAccepted
        · simp only [hu, if_true]
        · simp only [hu, if_false]

/-! ## What the parts change -/

/-- A call to each of `us`. -/
def callEach (c : Mid → Call) (cb : Mid → Continuation) (us : List Mid) (s : Cohort) : Cohort :=
  us.foldl (fun s u => s.call u (c u) (some (cb u))) s

section CallEach

variable {c : Mid → Call} {cb : Mid → Continuation} {us : List Mid}

@[simp] theorem callEach_cons :
    s.callEach c cb (u :: us) = (s.call u (c u) (some (cb u))).callEach c cb us := rfl

theorem mem_out_callEach {o : Output} : o ∈ (s.callEach c cb us).out ↔
    o ∈ s.out ∨ ∃ i d, us[i]? = some d ∧ o = .call (s.nextCall + i) d (c d) := by
  induction us generalizing s with
  | nil => simp [callEach]
  | cons u us ih =>
    rw [callEach_cons, ih, call, List.mem_cons, or_comm (a := o = _), or_assoc]
    refine or_congr_right ⟨?_, ?_⟩
    · rintro (rfl | ⟨i, d, hi, rfl⟩)
      · exact ⟨0, u, rfl, rfl⟩
      · exact ⟨i + 1, d, by simpa using hi, by simp only [Output.call.injEq, and_true]; omega⟩
    · rintro ⟨_ | i, d, hi, rfl⟩
      · obtain rfl : u = d := by simpa using hi
        exact Or.inl rfl
      · exact Or.inr ⟨i, d, by simpa using hi, by simp only [Output.call.injEq, and_true]; omega⟩

theorem lookup_callEach {k : Continuation} (h : (s.callEach c cb us).calls.lookup n = some k) :
    s.calls.lookup n = some k ∨ ∃ i d, us[i]? = some d ∧ n = s.nextCall + i ∧ k = cb d := by
  induction us generalizing s with
  | nil => exact Or.inl h
  | cons u us ih =>
    obtain h | ⟨i, d, hi, rfl, rfl⟩ := ih h
    · change (s.calls.insert s.nextCall (cb u)).lookup n = some k at h
      by_cases hn : n = s.nextCall
      · subst hn
        rw [AList.lookup_insert] at h
        exact Or.inr ⟨0, u, rfl, rfl, (Option.some.inj h).symm⟩
      · rw [AList.lookup_insert_ne hn] at h
        exact Or.inl h
    · exact Or.inr ⟨i + 1, d, by simpa using hi, by simp only [call]; omega, rfl⟩

/-- A call has been made to each of `us`: `o` and `S` are the outputs and the calls after that. -/
structure Sends (s : Cohort) (c : Mid → Call) (cb : Mid → Continuation) (us : List Mid)
    (o : List Output) (S : Keyed ℕ Continuation) : Prop where
  out : ∀ x, x ∈ o ↔
    x ∈ s.out ∨ ∃ i d, us[i]? = some d ∧ x = .call (s.nextCall + i) d (c d)
  calls : ∀ n k, S.lookup n = some k →
    s.calls.lookup n = some k ∨ ∃ i d, us[i]? = some d ∧ n = s.nextCall + i ∧ k = cb d

/-- Calls change the outputs and the calls. -/
theorem callEach_eq (c : Mid → Call) (cb : Mid → Continuation) (us : List Mid) (s : Cohort) :
    ∃ o S, s.callEach c cb us =
      { s with out := o, nextCall := s.nextCall + us.length, calls := S } ∧
      s.Sends c cb us o S := by
  have heq : ∃ o S, s.callEach c cb us =
      { s with out := o, nextCall := s.nextCall + us.length, calls := S } := by
    induction us generalizing s with
    | nil => exact ⟨_, _, rfl⟩
    | cons u us ih =>
      obtain ⟨o, S, h⟩ := ih (s.call u (c u) (some (cb u)))
      refine ⟨o, S, ?_⟩
      rw [callEach_cons, h]
      simp only [call, List.length_cons, Cohort.mk.injEq, true_and, and_true]
      omega
  obtain ⟨o, S, h⟩ := heq
  have hout : (s.callEach c cb us).out = o := congrArg Cohort.out h
  have hcalls : (s.callEach c cb us).calls = S := congrArg Cohort.calls h
  refine ⟨o, S, h, fun x => ?_, fun n k hk => ?_⟩
  · rw [← hout, mem_out_callEach]
  · exact lookup_callEach (hcalls ▸ hk)

end CallEach

theorem insert_cases (hs' : s.insert vs rle = some s') :
    (vs.ts ≠ 0 ∧ s' = s.logEntry vs rle) ∨
      (vs.ts = 0 ∧ ∃ f, rle.arg.request = .form f ∧ s' = (s.jump vs f).logEntry vs rle) := by
  unfold insert at hs'
  split_ifs at hs' with hts
  · exact Or.inl ⟨hts, (Option.some.inj hs').symm⟩
  · refine Or.inr ⟨not_not.mp hts, ?_⟩
    split at hs'
    · next f hf => exact ⟨f, hf, (Option.some.inj hs').symm⟩
    · cases hs'

/-- A jump that is new leads to the formation of a view. -/
theorem insert_jumps (hs' : s.insert vs rle = some s') {u w : Viewstamp}
    (hw : s'.jumps.lookup u = some w) : s.jumps.lookup u = some w ∨
      vs.ts = 0 ∧ w = vs ∧ ∃ f, rle.arg.request = .form f ∧ f.prev = u := by
  obtain ⟨-, rfl⟩ | ⟨hts, f, hf, rfl⟩ := insert_cases hs'
  · exact Or.inl hw
  · have hnew : (s.jumps.insert f.prev vs).lookup u = some w → s.jumps.lookup u = some w ∨
        vs.ts = 0 ∧ w = vs ∧ ∃ f, rle.arg.request = .form f ∧ f.prev = u := by
      intro hw
      by_cases hu : u = f.prev
      · rw [hu, AList.lookup_insert] at hw
        exact Or.inr ⟨hts, (Option.some.inj hw).symm, f, hf, hu.symm⟩
      · rw [AList.lookup_insert_ne hu] at hw
        exact Or.inl hw
    change (s.jump vs f).jumps.lookup u = some w at hw
    unfold jump at hw
    split at hw
    · exact hnew hw
    · split_ifs at hw
      · exact hnew hw
      · exact Or.inl hw

theorem jump_eq (vs : Viewstamp) (f : ViewForm) (s : Cohort) :
    ∃ J, s.jump vs f = { s with jumps := J } := by
  unfold jump
  split
  · exact ⟨_, rfl⟩
  · split_ifs
    · exact ⟨_, rfl⟩
    · exact ⟨_, rfl⟩

/-- Logging an entry changes the log and the jump table. -/
theorem insert_eq (hs' : s.insert vs rle = some s') :
    ∃ J, s' = { s with jumps := J, log := s.log.add vs rle } := by
  obtain ⟨-, rfl⟩ | ⟨-, f, -, rfl⟩ := insert_cases hs'
  · exact ⟨_, rfl⟩
  · obtain ⟨J, hJ⟩ := jump_eq vs f s
    rw [hJ]
    exact ⟨J, rfl⟩

/-- Asking for entries changes the pull and the calls. -/
theorem foldl_pullOne_eq (p : PullRef) (vss : List Viewstamp) (s : Cohort) :
    ∃ o k S P, vss.foldl (pullOne p) s =
      { s with out := o, nextCall := k, calls := S, pulls := P } := by
  induction vss generalizing s with
  | nil => exact ⟨_, _, _, _, rfl⟩
  | cons vs vss ih =>
    obtain ⟨o, k, S, P, h⟩ := ih (s.pullOne p vs)
    refine ⟨o, k, S, P, h.trans ?_⟩
    unfold pullOne
    split_ifs
    · rfl
    · rfl

theorem pullUpto_cases (hs' : s.pullUpto p vs = some s') :
    (vs.vid < s.executed.vid ∧ s' = s) ∨
      (s.executed.vid ≤ vs.vid ∧ ∃ base, (if vs.vid = s.executed.vid then s.executed.succ
        else some ⟨vs.vid, 0⟩) = some base ∧ s' = (viewstamps base vs).foldl (pullOne p) s) := by
  unfold pullUpto at hs'
  by_cases hlt : vs.vid < s.executed.vid
  · rw [if_pos hlt] at hs'
    exact Or.inl ⟨hlt, (Option.some.inj hs').symm⟩
  · rw [if_neg hlt] at hs'
    refine Or.inr ⟨not_lt.mp hlt, ?_⟩
    by_cases hvid : vs.vid = s.executed.vid
    · rw [if_pos hvid] at hs' ⊢
      obtain ⟨base, hbase, hs'⟩ := Option.bind_eq_some_iff.mp hs'
      dsimp only at hs'
      split_ifs at hs'
      exact ⟨base, hbase, (Option.some.inj hs').symm⟩
    · rw [if_neg hvid] at hs' ⊢
      obtain ⟨base, hbase, hs'⟩ := Option.bind_eq_some_iff.mp hs'
      dsimp only at hs'
      split_ifs at hs'
      exact ⟨base, hbase, (Option.some.inj hs').symm⟩

theorem pullUpto_eq (hs' : s.pullUpto p vs = some s') :
    ∃ o k S P, s' = { s with out := o, nextCall := k, calls := S, pulls := P } := by
  obtain ⟨-, rfl⟩ | ⟨-, base, -, rfl⟩ := pullUpto_cases hs'
  · exact ⟨_, _, _, _, rfl⟩
  · exact foldl_pullOne_eq _ _ _

/-- A pull goes on to the view before, or comes to the bottom; it waits while the formation of the
view it is at is missing. -/
inductive Descends (p : PullRef) (s : Cohort) : Cohort → Prop
  | waits {next : Viewstamp} (hnext : s.vsNext s.executed = some next)
      (hlt : next.vid < (s.pulls p).bottomview)
      (hnone : s.log.lookup ⟨(s.pulls p).bottomview, 0⟩ = none) : Descends p s s
  | goes {next : Viewstamp} {rle : LogEntry} {f : ViewForm} {s' : Cohort}
      (hnext : s.vsNext s.executed = some next) (hlt : next.vid < (s.pulls p).bottomview)
      (hrle : s.log.lookup ⟨(s.pulls p).bottomview, 0⟩ = some rle)
      (hf : rle.arg.request = .form f)
      (hs' :
        (s.setPull p { s.pulls p with bottomview := f.prev.vid }).pullUpto p f.prev = some s') :
      Descends p s s'
  | ends {next : Viewstamp} (hnext : s.vsNext s.executed = some next)
      (hge : ¬next.vid < (s.pulls p).bottomview) :
      Descends p s (s.setPull p { s.pulls p with bottomdone := true })

theorem descends (hs' : s.descend p = some s') : Descends p s s' := by
  unfold descend at hs'
  obtain ⟨next, hnext, hs'⟩ := Option.bind_eq_some_iff.mp hs'
  split_ifs at hs' with hlt
  · split at hs'
    · next hnone => exact Option.some.inj hs' ▸ .waits hnext hlt hnone
    · next rle hrle =>
      split at hs'
      · next f hf => exact .goes hnext hlt hrle hf hs'
      · cases hs'
  · exact Option.some.inj hs' ▸ .ends hnext hlt

theorem descend_eq (hs' : s.descend p = some s') :
    ∃ o k S P, s' = { s with out := o, nextCall := k, calls := S, pulls := P } := by
  cases descends hs' with
  | waits hnext hlt hnone => exact ⟨_, _, _, _, rfl⟩
  | goes hnext hlt hrle hf hs' =>
    obtain ⟨o, k, S, P, rfl⟩ := pullUpto_eq hs'
    exact ⟨o, k, S, P, rfl⟩
  | ends hnext hge => exact ⟨_, _, _, _, rfl⟩

/-- What asking for entries, in the pull `p`, does to the calls. -/
structure Asks (p : PullRef) (s s' : Cohort) : Prop where
  nextCall : s.nextCall ≤ s'.nextCall
  mono : s.out ⊆ s'.out
  out : ∀ x ∈ s'.out, x ∈ s.out ∨
    ∃ n d vs, x = .call n d (.fetchlog vs) ∧ s.nextCall ≤ n ∧ n < s'.nextCall
  calls : ∀ n cb, s'.calls.lookup n = some cb → s.calls.lookup n = some cb ∨
    ∃ d vs, cb = .fetchlogCb p vs ∧ .call n d (.fetchlog vs) ∈ s'.out ∧ s.nextCall ≤ n ∧
      n < s'.nextCall

theorem Asks.refl (p : PullRef) (s : Cohort) : Asks p s s :=
  ⟨le_refl _, List.Subset.refl _, fun _ h => Or.inl h, fun _ _ h => Or.inl h⟩

theorem Asks.trans {s₁ s₂ s₃ : Cohort} (h : Asks p s₁ s₂) (h' : Asks p s₂ s₃) : Asks p s₁ s₃ where
  nextCall := h.nextCall.trans h'.nextCall
  mono := List.Subset.trans h.mono h'.mono
  out x hx := by
    obtain hx | ⟨n, d, vs, rfl, hge, hlt⟩ := h'.out x hx
    · obtain hx | ⟨n, d, vs, rfl, hge, hlt⟩ := h.out x hx
      · exact Or.inl hx
      · exact Or.inr ⟨n, d, vs, rfl, hge, lt_of_lt_of_le hlt h'.nextCall⟩
    · exact Or.inr ⟨n, d, vs, rfl, h.nextCall.trans hge, hlt⟩
  calls n cb hcb := by
    obtain hcb | ⟨d, vs, rfl, hmem, hge, hlt⟩ := h'.calls n cb hcb
    · obtain hcb | ⟨d, vs, rfl, hmem, hge, hlt⟩ := h.calls n cb hcb
      · exact Or.inl hcb
      · exact Or.inr ⟨d, vs, rfl, h'.mono hmem, hge, lt_of_lt_of_le hlt h'.nextCall⟩
    · exact Or.inr ⟨d, vs, rfl, hmem, h.nextCall.trans hge, hlt⟩

theorem asks_pullOne (p : PullRef) (s : Cohort) (vs : Viewstamp) : Asks p s (s.pullOne p vs) := by
  unfold pullOne
  split_ifs
  · exact .refl p s
  · refine ⟨Nat.le_succ _, fun x hx => List.mem_cons_of_mem _ hx, fun x hx => ?_,
      fun n cb hcb => ?_⟩
    · obtain rfl | hx := List.mem_cons.mp hx
      · exact Or.inr ⟨_, _, vs, rfl, le_refl _, Nat.lt_succ_self _⟩
      · exact Or.inl hx
    · by_cases hn : n = s.nextCall
      · subst hn
        have heq := Option.some.inj ((AList.lookup_insert _).symm.trans hcb)
        exact Or.inr ⟨_, vs, heq.symm, List.mem_cons_self, le_refl _, Nat.lt_succ_self _⟩
      · exact Or.inl ((AList.lookup_insert_ne hn).symm.trans hcb)

theorem asks_pullUpto (hs' : s.pullUpto p vs = some s') : Asks p s s' := by
  obtain ⟨-, rfl⟩ | ⟨-, base, -, rfl⟩ := pullUpto_cases hs'
  · exact .refl p s'
  · exact Run.foldl_rel (r := Asks p) (Asks.refl p) (fun _ _ _ => Asks.trans) (asks_pullOne p) _ s

theorem asks_descend (hs' : s.descend p = some s') : Asks p s s' := by
  cases descends hs' with
  | waits hnext hlt hnone => exact .refl p s
  | goes hnext hlt hrle hf hs' =>
    obtain ⟨hn, hmono, hout, hcalls⟩ := asks_pullUpto hs'
    exact ⟨hn, hmono, hout, hcalls⟩
  | ends hnext hge =>
    exact ⟨le_refl _, List.Subset.refl _, fun _ h => Or.inl h, fun _ _ h => Or.inl h⟩

/-- A request goes to the back end, and the formation of a view changes the view. -/
theorem execute_cases (hs' : s.execute vs rle = some s') :
    (vs.ts ≠ 0 ∧ s' = { s.setEntry vs { rle with state := .executing } with
        executing := s.executing ++ [vs], executed := vs, handed := s.handed ++ [(vs, rle.arg)] }) ∨
      (vs.ts = 0 ∧ ∃ f, rle.arg.request = .form f ∧
        s' = { (s.enter f).setEntry vs { rle with state := .executing } with
          executed := vs, handed := s.handed ++ [(vs, rle.arg)] }) := by
  unfold execute at hs'
  by_cases hts : vs.ts ≠ 0
  · rw [if_pos hts] at hs'
    exact Or.inl ⟨hts, (Option.some.inj hs').symm⟩
  · rw [if_neg hts] at hs'
    refine Or.inr ⟨not_not.mp hts, ?_⟩
    split at hs'
    · next f hf => exact ⟨f, hf, (Option.some.inj hs').symm⟩
    · cases hs'

theorem executed_execute (hs' : s.execute vs rle = some s') : s'.executed = vs := by
  obtain ⟨-, rfl⟩ | ⟨-, f, -, rfl⟩ := execute_cases hs'
  · rfl
  · rfl

/-- What is logged does not depend on how far the log goes. -/
theorem insert_with (v w : Viewstamp) :
    { s with latest := v, committed := w }.insert vs rle =
      (s.insert vs rle).map fun s => { s with latest := v, committed := w } := by
  unfold insert jump
  split_ifs
  · rfl
  · split
    · dsimp only
      split
      · rfl
      · split_ifs
        · rfl
        · rfl
    · rfl

theorem insert_calls (S : Keyed ℕ Continuation) :
    { s with calls := S }.insert vs rle =
      (s.insert vs rle).map fun s => { s with calls := S } := by
  unfold insert jump
  split_ifs
  · rfl
  · split
    · dsimp only
      split
      · rfl
      · split_ifs
        · rfl
        · rfl
    · rfl

theorem ts_succ {v : Viewstamp} (h : v.succ = some vs) : vs.vid = v.vid ∧ vs.ts = v.ts + 1 := by
  unfold Viewstamp.succ at h
  split_ifs at h
  obtain rfl := Option.some.inj h
  exact ⟨rfl, rfl⟩

/-- A request is logged under the next viewstamp, and goes to the backups. -/
theorem issue_eq (hs' : s.issue sbp arg reply = some s') :
    ∃ vs o S, s.latest.succ = some vs ∧
      s.Sends (fun _ => .replicate ⟨vs, arg, s.committed⟩) .replicateCb s.view.backups o S ∧
      s' = { s with
        latest := vs
        log := s.log.add vs ⟨some ⟨[s.self], s.view.backups.foldl
          (fun S b => OrdSet.insert b S) [s.self]⟩, some sbp, .logged, arg⟩
        replycache := s.replycache.insert arg.client ⟨arg.rid, vs, reply⟩
        out := o
        nextCall := s.nextCall + s.view.backups.length
        calls := S } := by
  simp only [issue, Option.bind_eq_bind, Option.bind_eq_some_iff] at hs'
  obtain ⟨vs, hvs, s₁, hs₁, hs'⟩ := hs'
  obtain ⟨-, rfl⟩ | ⟨hts, -⟩ := insert_cases hs₁
  · obtain ⟨o, S, heq, hsends⟩ := callEach_eq (fun _ => .replicate ⟨vs, arg, s.committed⟩)
      .replicateCb s.view.backups ({ s with
        latest := vs
        log := s.log.add vs ⟨some ⟨[s.self], s.view.backups.foldl
          (fun S b => OrdSet.insert b S) [s.self]⟩, some sbp, .logged, arg⟩
        replycache := s.replycache.insert arg.client ⟨arg.rid, vs, reply⟩ })
    exact ⟨vs, o, S, hvs, ⟨hsends.out, hsends.calls⟩, (Option.some.inj hs').symm.trans heq⟩
  · rw [(ts_succ hvs).2] at hts
    omega

/-- A view is chosen, and proposed to the underlings. -/
theorem viewChangePropose_eq (hs' : s.viewChangePropose a = some s') :
    ∃ nv o S, viewChangeChooseView (s.attempts a) = some nv ∧
      s.Sends (fun _ => .newView nv) (.viewChangeNewviewCb a) (s.attempts a).underlings o S ∧
      s' = { s.setAttempt a { s.attempts a with nvarg := some nv } with
        out := o, nextCall := s.nextCall + (s.attempts a).underlings.length, calls := S } := by
  simp only [viewChangePropose, Option.bind_eq_bind, Option.bind_eq_some_iff] at hs'
  obtain ⟨nv, hnv, hs'⟩ := hs'
  obtain ⟨o, S, heq, hsends⟩ := callEach_eq (fun _ => .newView nv) (.viewChangeNewviewCb a)
    (s.attempts a).underlings (s.setAttempt a { s.attempts a with nvarg := some nv })
  have hul : ((s.setAttempt a { s.attempts a with nvarg := some nv }).attempts a).underlings =
      (s.attempts a).underlings := by
    simp [setAttempt]
  refine ⟨nv, o, S, hnv, ⟨hsends.out, hsends.calls⟩, ?_⟩
  rw [← Option.some.inj hs', viewChangeIssueNewview, hul]
  exact heq

theorem executeDone_cases (hs' : s.executeDone vs reply = some s') :
    ∃ rle, s.log.lookup vs = some rle ∧ ∃ o ans, s' = { s with
      replycache := s.replycache.insert rle.arg.client ⟨rle.arg.rid, vs, reply⟩
      log := s.log.insert vs { rle with state := .executed, sbp := none }
      out := o
      answered := ans } ∧ ((rle.sbp = none ∧ o = s.out ∧ ans = s.answered) ∨
        ∃ sbp, rle.sbp = some sbp ∧ o = .answer sbp (.execute (.ok reply)) :: s.out ∧
          ans = (vs, rle.arg) :: s.answered) := by
  simp only [executeDone, Option.bind_eq_bind, Option.bind_eq_some_iff] at hs'
  obtain ⟨rle, hrle, hs'⟩ := hs'
  refine ⟨rle, hrle, ?_⟩
  cases hsbp : rle.sbp with
  | none =>
    rw [hsbp] at hs'
    exact ⟨_, _, (Option.some.inj hs').symm, Or.inl ⟨rfl, rfl, rfl⟩⟩
  | some sbp =>
    rw [hsbp] at hs'
    exact ⟨_, _, (Option.some.inj hs').symm, Or.inr ⟨sbp, rfl, rfl, rfl⟩⟩

/-- What is new in an attempt once one of its calls is over. -/
structure Prepared (u : Mid) (att att' : ViewChangeAttempt) : Prop where
  proposedVid : att'.proposedVid = att.proposedVid
  nvarg : att'.nvarg = att.nvarg
  underlings : att'.underlings = att.underlings
  prepareDone : att'.prepareDone = att.prepareDone.insert u
  aborted : att.aborted = true → att'.aborted = true

/-- A call that is over changes its attempt, and a rejection what the cohort will propose. -/
theorem prepared_cases (a : AttemptRef) (u : Mid) (resp : Option ViewChangeRes) (s : Cohort) :
    ∃ v att, s.prepared a u resp = { s with proposedVid := v }.setAttempt a att ∧
      s.proposedVid ≤ v ∧ Prepared u (s.attempts a) att := by
  unfold prepared
  split
  · exact ⟨_, _, rfl, le_refl _, rfl, rfl, rfl, rfl, id⟩
  · exact ⟨_, _, rfl, le_max_left _ _, rfl, rfl, rfl, rfl, fun _ => rfl⟩
  · dsimp only
    split_ifs
    · exact ⟨_, _, rfl, le_refl _, rfl, rfl, rfl, rfl, id⟩
    · exact ⟨_, _, rfl, le_refl _, rfl, rfl, rfl, rfl, id⟩

/-- To yield changes the attempts, and looks at nothing else. -/
theorem yieldTo_with (mode : Mode) (v vid : ViewId) :
    { s with mode := mode, proposedVid := v }.yieldTo vid =
      { s with mode := mode, proposedVid := v, attempts := (s.yieldTo vid).attempts } := by
  unfold yieldTo
  cases hcurrent : s.vcattempt with
  | none => rfl
  | some a =>
    by_cases hvid : (s.attempts a).proposedVid ≠ vid
    · simp only [if_pos hvid]
      rfl
    · simp only [if_neg hvid]

theorem viewChangeAsk_of_notMem (h : u ∉ (s.attempts a).underlings) : s.viewChangeAsk a a u =
    (s.setAttempt a { s.attempts a with underlings := (s.attempts a).underlings.insert u }).call u
      (.viewChange ⟨s.view, (s.attempts a).proposedVid⟩) (some (.viewChangePrepareCb a u)) := by
  unfold viewChangeAsk
  rw [if_neg h]

/-- What the end of a pull is answered with. -/
def answerOf : DoneCb → Bool → Output
  | .replicate sbp vs, ok => .answer sbp (if ok then .replicate vs else .error)
  | .newView sbp, ok => .answer sbp (.newView ok)

/-- What is given to the network when the pull `p` is over. -/
inductive Concludes (s : Cohort) (p : PullRef) : List Output → Prop
  | silent (h : (s.pulls p).donecb = none) : Concludes s p s.out
  | answer {cb : DoneCb} (h : (s.pulls p).donecb = some cb) :
      Concludes s p (answerOf cb ((s.pulls p).ok && (s.pulls p).bottomdone) :: s.out)

theorem closed_eq (p : PullRef) (s : Cohort) : ∃ o, s.Concludes p o ∧ s.closed p =
    { s.setPull p { s.pulls p with donecb := none } with out := o } := by
  unfold closed
  split
  · next cb hcb =>
    refine ⟨_, .answer hcb, ?_⟩
    cases cb with
    | replicate sbp vs => rfl
    | newView sbp => rfl
  · next hnone => exact ⟨_, .silent hnone, rfl⟩

end Cohort

end Falcon
