import Falcon.Proxy.Client
import Mathlib.Tactic.Tauto

/-!
# Proxy/Requests — no request is dropped, none is answered twice

A request under way has one call: a `REP_EXECUTE`, or a refresh of the view that has not led to one
yet.  Falcon's report of the primary cancels the calls, and each request goes on with a timer of
`check_new_primary`.

The timer issues its request again only if the primary is still the one that has failed, so a
request is lost if the primary has changed before; and it is set again when it does, so it issues a
request that is under way, or answered, once more if the primary is still the same when it expires
again.

* `served_of_orderly` — in a run without these steps no request is dropped and none is answered
  twice.
* `dropped` — a request that is lost.
-/

namespace Falcon

namespace RepClient

variable {primary : ViewId → CohortId} {s s' : RepClient} {r r' : Rid} {n n' : ℕ} {vi : ViewInfo}
  {mid : Mid}

/-! ## The requests under way -/

/-- The call `n` issues the request `r`, or will. -/
def Carries (S : Keyed ℕ ProxyCall) (n : ℕ) (r : Rid) : Prop :=
  S.lookup n = some (.execute r) ∨ S.lookup n = some (.refresh r false)

/-- A call issues the request `r`, or will. -/
def Busy (s : RepClient) (r : Rid) : Prop := ∃ n, Carries s.calls n r

/-- The callback of the request `r` has run. -/
def Answered (s : RepClient) (r : Rid) : Prop := r ∈ s.answered.map (·.1)

/-- Every request is answered at most once, and is under way until then: it has a call, or a timer
that will issue it again. -/
structure Served (s : RepClient) : Prop where
  once : (s.answered.map (·.1)).Nodup
  underway : ∀ r ∈ s.issued, ¬s.Answered r → s.Busy r ∨ (s.primaryMid, r) ∈ s.timers

/-- The view information makes another server the primary in use. -/
def Changes (s : RepClient) (vi : ViewInfo) : Prop := s.Newer vi ∧ vi.primaryC.mid ≠ s.primaryMid

/-- No request waits for its timer when the primary in use changes. -/
def Attended (s : RepClient) (vi : ViewInfo) : Prop :=
  s.Changes vi → ∀ r ∈ s.issued, ¬s.Answered r → s.Busy r

/-- The steps that neither drop a request nor issue one a second time. -/
def Orderly (primary : ViewId → CohortId) (s : RepClient) (e : Event) (_ : RepClient) : Prop :=
  match e with
  | .redirected _ vid memory => s.Attended (.redirect primary vid memory)
  | .viewinfo _ vid => s.Attended (.bcast primary vid)
  -- the calls `falcon_map_` holds for the requests are those under way
  | .failed fd => s.watches.lookup fd = some s.primaryMid →
      ∀ r n, s.falconMap.lookup r = some n → s.calls.lookup n = some (.execute r)
  -- a timer that will issue its request finds it neither answered nor under way
  | .timer old r => old = s.primaryMid → ¬s.Answered r ∧ ¬s.Busy r
  | _ => True

/-! ## What a call is made for -/

/-- All that is known of the requests, but for the request `hole`, which is not under way. -/
structure Kept (s : RepClient) (hole : Rid → Prop) : Prop where
  once : (s.answered.map (·.1)).Nodup
  underway : ∀ r ∈ s.issued, ¬hole r → ¬s.Answered r → s.Busy r ∨ (s.primaryMid, r) ∈ s.timers
  alone : ∀ n n' r, Carries s.calls n r → Carries s.calls n' r → n = n'
  unanswered : ∀ r, s.Busy r ∨ hole r → ¬s.Answered r
  idle : ∀ r, hole r → ¬s.Busy r
  last : ∀ n r, s.calls.lookup n = some (.execute r) → s.falconMap.lookup r = some n
  fresh : ∀ n, n ∈ s.calls → n < s.nextCall
  known : ∀ r, s.Busy r ∨ s.Answered r ∨ hole r ∨ (∃ old, (old, r) ∈ s.timers) → r < s.rid

theorem Kept.served (h : s.Kept fun _ => False) : s.Served where
  once := h.once
  underway r hr := h.underway r hr not_false

variable {S S' : Keyed ℕ ProxyCall}

theorem carries_congr (h : S.lookup n = S'.lookup n) : Carries S n r ↔ Carries S' n r := by
  rw [Carries, Carries, h]

theorem Carries.unique (h : Carries S n r) (h' : Carries S n r') : r = r' := by
  obtain h | h := h <;> obtain h' | h' := h' <;> cases h.symm.trans h' <;> rfl

theorem Carries.mem (h : Carries S n r) : n ∈ S :=
  h.elim Keyed.mem_of_lookup Keyed.mem_of_lookup

/-- A call that issues `r` is over: it is gone, or leads to nothing more. -/
theorem Kept.release (h : s.Kept fun _ => False) (hn : Carries s.calls n r)
    (hne : ∀ m, m ≠ n → S.lookup m = s.calls.lookup m) (hself : ∀ r', ¬Carries S n r')
    (hfresh : ∀ m, m ∈ S → m < s.nextCall) : { s with calls := S }.Kept (· = r) := by
  have hback : ∀ m r', Carries S m r' → m ≠ n ∧ Carries s.calls m r' := fun m r' hm => by
    have hmn : m ≠ n := fun heq => hself r' (heq ▸ hm)
    exact ⟨hmn, (carries_congr (hne m hmn)).mp hm⟩
  have hforth : ∀ m r', r' ≠ r → Carries s.calls m r' → Carries S m r' := fun m r' hr' hm => by
    have hmn : m ≠ n := fun heq => hr' (hm.unique (heq ▸ hn))
    exact (carries_congr (hne m hmn)).mpr hm
  refine ⟨h.once, ?_, ?_, ?_, ?_, ?_, hfresh, ?_⟩
  · intro r' hr' hne' hna
    exact (h.underway r' hr' not_false hna).imp (fun ⟨m, hm⟩ => ⟨m, hforth m r' hne' hm⟩) id
  · exact fun m m' r' hm hm' => h.alone m m' r' (hback m r' hm).2 (hback m' r' hm').2
  · rintro r' (⟨m, hm⟩ | rfl)
    · exact h.unanswered r' (Or.inl ⟨m, (hback m r' hm).2⟩)
    · exact h.unanswered r' (Or.inl ⟨n, hn⟩)
  · rintro r' rfl ⟨m, hm⟩
    obtain ⟨hmn, hm⟩ := hback m r' hm
    exact hmn (h.alone m n r' hm hn)
  · intro m r' hm
    have hmn := (hback m r' (Or.inl hm)).1
    exact h.last m r' ((hne m hmn).symm.trans hm)
  · rintro r' (⟨m, hm⟩ | hna | rfl | htimer)
    · exact h.known r' (Or.inl ⟨m, (hback m r' hm).2⟩)
    · exact h.known r' (Or.inr (Or.inl hna))
    · exact h.known r' (Or.inl ⟨n, hn⟩)
    · exact h.known r' (Or.inr (Or.inr (Or.inr htimer)))

/-- A call is made for a request that has none. -/
theorem Kept.acquire (h : s.Kept (· = r)) {c : ProxyCall} {M : Keyed Rid ℕ}
    (hc : c = .execute r ∧ M = s.falconMap.insert r s.nextCall ∨
      c = .refresh r false ∧ M = s.falconMap) :
    { s.call c with falconMap := M }.Kept fun _ => False := by
  have hself : Carries (s.call c).calls s.nextCall r := by
    obtain ⟨rfl, -⟩ | ⟨rfl, -⟩ := hc
    · exact Or.inl (AList.lookup_insert _)
    · exact Or.inr (AList.lookup_insert _)
  have hcases : ∀ m r', Carries (s.call c).calls m r' →
      (m = s.nextCall ∧ r' = r) ∨ (m ≠ s.nextCall ∧ Carries s.calls m r') := fun m r' hm => by
    by_cases hmn : m = s.nextCall
    · subst hmn
      exact Or.inl ⟨rfl, hm.unique hself⟩
    · exact Or.inr ⟨hmn, (carries_congr (AList.lookup_insert_ne hmn)).mp hm⟩
  have hforth : ∀ m r', Carries s.calls m r' → Carries (s.call c).calls m r' := fun m r' hm => by
    have hmn : m ≠ s.nextCall := ne_of_lt (h.fresh m hm.mem)
    exact (carries_congr (AList.lookup_insert_ne hmn)).mpr hm
  have hbusy : ∀ r', { s.call c with falconMap := M }.Busy r' → r' = r ∨ s.Busy r' := by
    rintro r' ⟨m, hm⟩
    exact (hcases m r' hm).imp And.right fun h => ⟨m, h.2⟩
  refine ⟨h.once, ?_, ?_, ?_, fun _ => False.elim, ?_, ?_, ?_⟩
  · intro r' hr' _ hna
    by_cases heq : r' = r
    · subst heq
      exact Or.inl ⟨_, hself⟩
    · exact (h.underway r' hr' heq hna).imp (fun ⟨m, hm⟩ => ⟨m, hforth m r' hm⟩) id
  · intro m m' r' hm hm'
    obtain ⟨rfl, rfl⟩ | ⟨-, hm⟩ := hcases m r' hm
    · obtain ⟨rfl, -⟩ | ⟨-, hm'⟩ := hcases m' r' hm'
      · rfl
      · exact absurd ⟨m', hm'⟩ (h.idle r' rfl)
    · obtain ⟨rfl, rfl⟩ | ⟨-, hm'⟩ := hcases m' r' hm'
      · exact absurd ⟨m, hm⟩ (h.idle r' rfl)
      · exact h.alone m m' r' hm hm'
  · rintro r' (hb | hf)
    · exact h.unanswered r' ((hbusy r' hb).elim Or.inr Or.inl)
    · exact hf.elim
  · intro m r' hm
    obtain ⟨rfl, rfl⟩ | ⟨hmn, hm'⟩ := hcases m r' (Or.inl hm)
    · obtain ⟨-, rfl⟩ | ⟨rfl, -⟩ := hc
      · exact AList.lookup_insert _
      · cases hm.symm.trans (AList.lookup_insert _)
    · have hold : s.calls.lookup m = some (.execute r') :=
        (AList.lookup_insert_ne hmn).symm.trans hm
      have hr' : r' ≠ r := fun heq => h.idle r' heq ⟨m, hm'⟩
      obtain ⟨-, rfl⟩ | ⟨-, rfl⟩ := hc
      · exact (AList.lookup_insert_ne hr').trans (h.last m r' hold)
      · exact h.last m r' hold
  · intro m hm
    obtain rfl | hm := AList.mem_insert _ |>.mp hm
    · exact Nat.lt_succ_self _
    · exact Nat.lt_succ_of_lt (h.fresh m hm)
  · rintro r' (hb | hna | hf | htimer)
    · exact h.known r' ((hbusy r' hb).elim (fun h => Or.inr (Or.inr (Or.inl h))) Or.inl)
    · exact h.known r' (Or.inr (Or.inl hna))
    · exact hf.elim
    · exact h.known r' (Or.inr (Or.inr (Or.inr htimer)))

theorem Kept.refreshView (h : s.Kept (· = r)) : (s.refreshView r).Kept fun _ => False :=
  h.acquire (Or.inr ⟨rfl, rfl⟩)

theorem Kept.processRequest (h : s.Kept (· = r)) : (s.processRequest r).Kept fun _ => False := by
  unfold RepClient.processRequest
  split
  · exact h.refreshView
  · exact h.acquire (Or.inl ⟨rfl, rfl⟩)

/-! ## Steps -/

/-- New view information drops no request that has a call. -/
theorem Kept.updateView {hole : Rid → Prop} (h : s.Kept hole)
    (hvi : s.Changes vi → ∀ r ∈ s.issued, ¬hole r → ¬s.Answered r → s.Busy r) :
    (s.updateView vi).Kept hole := by
  unfold RepClient.updateView
  split_ifs with hnew
  · refine ⟨h.once, fun r hr hne hna => ?_, h.alone, h.unanswered, h.idle, h.last, h.fresh, h.known⟩
    by_cases hmid : vi.primaryC.mid = s.primaryMid
    · exact (h.underway r hr hne hna).imp id fun ht => by
        rw [← hmid] at ht
        exact ht
    · exact Or.inl (hvi ⟨hnew, hmid⟩ r hr hne hna)
  · exact h

theorem Kept.erase (h : s.Kept fun _ => False) (hn : Carries s.calls n r) :
    { s with calls := s.calls.erase n }.Kept (· = r) := by
  refine h.release hn (fun m hm => AList.lookup_erase_ne hm) (fun r' hc => ?_) fun m hm => ?_
  · exact absurd hc.mem (by simp)
  · exact h.fresh m (AList.mem_erase.mp hm).2

theorem Kept.issueRequest (h : s.Kept fun _ => False) : s.issueRequest.Kept fun _ => False := by
  refine Kept.processRequest ⟨h.once, ?_, h.alone, ?_, ?_, h.last, h.fresh, ?_⟩
  · intro r hr hne hna
    obtain rfl | hr := List.mem_cons.mp hr
    · exact absurd rfl hne
    · exact h.underway r hr not_false hna
  · rintro r (hb | rfl)
    · exact h.unanswered r (Or.inl hb)
    · exact fun hna => absurd (h.known s.rid (Or.inr (Or.inl hna))) (lt_irrefl _)
  · rintro r rfl hb
    exact absurd (h.known s.rid (Or.inl hb)) (lt_irrefl _)
  · rintro r (hb | hna | rfl | htimer)
    · exact Nat.lt_succ_of_lt (h.known r (Or.inl hb))
    · exact Nat.lt_succ_of_lt (h.known r (Or.inr (Or.inl hna)))
    · exact Nat.lt_succ_self _
    · exact Nat.lt_succ_of_lt (h.known r (Or.inr (Or.inr (Or.inr htimer))))

/-- The callback of a request runs. -/
theorem Kept.reply (h : s.Kept (· = r)) {bytes : List UInt8} :
    (s.reply bytes r).Kept fun _ => False := by
  have hans : ∀ r', (s.reply bytes r).Answered r' ↔ r' = r ∨ s.Answered r' := fun r' => by
    simp [RepClient.reply, Answered]
  refine ⟨?_, ?_, h.alone, ?_, fun _ => False.elim, ?_, h.fresh, ?_⟩
  · exact List.nodup_cons.mpr ⟨h.unanswered r (Or.inr rfl), h.once⟩
  · intro r' hr' _ hna
    obtain ⟨hne, hna⟩ := not_or.mp (mt (hans r').mpr hna)
    exact h.underway r' hr' hne hna
  · rintro r' (hb | hf) hna
    · obtain rfl | hna := (hans r').mp hna
      · exact h.idle r' rfl hb
      · exact h.unanswered r' (Or.inl hb) hna
    · exact hf.elim
  · intro m r' hm
    have hne : r' ≠ r := fun heq => h.idle r' heq ⟨m, Or.inl hm⟩
    exact (AList.lookup_erase_ne hne).trans (h.last m r' hm)
  · rintro r' (hb | hna | hf | htimer)
    · exact h.known r' (Or.inl hb)
    · obtain rfl | hna := (hans r').mp hna
      · exact h.known r' (Or.inr (Or.inr (Or.inl rfl)))
      · exact h.known r' (Or.inr (Or.inl hna))
    · exact hf.elim
    · exact h.known r' (Or.inr (Or.inr (Or.inr htimer)))

/-- The `REP_EXECUTE` of a request is over. -/
theorem Kept.completed {cb : Rid → RepClient → RepClient} (h : s.Kept fun _ => False)
    (hs' : s.completed n cb = some s')
    (hcb : ∀ r, Carries s.calls n r → { s with calls := s.calls.erase n }.Kept (· = r) →
      (cb r { s with calls := s.calls.erase n }).Kept fun _ => False) :
    s'.Kept fun _ => False := by
  unfold RepClient.completed at hs'
  split at hs'
  · next r hn =>
    obtain rfl := Option.some.inj hs'
    exact hcb r (Or.inl hn) (h.erase (Or.inl hn))
  · cases hs'

theorem Kept.redirect (h : s.Kept fun _ => False) (hn : Carries s.calls n r) (hvi : s.Attended vi) :
    ({ s with calls := s.calls.erase n }.redirect vi r).Kept fun _ => False := by
  refine Kept.processRequest ((h.erase hn).updateView fun hch r' hr' hne hna => ?_)
  obtain ⟨m, hm⟩ := hvi hch r' hr' hna
  have hmn : m ≠ n := fun heq => hne (hm.unique (heq ▸ hn))
  exact ⟨m, (carries_congr (AList.lookup_erase_ne hmn)).mpr hm⟩

theorem Kept.repViewinfoCb (h : s.Kept fun _ => False) (hvi : s.Attended vi)
    (hs' : s.repViewinfoCb vi n = some s') : s'.Kept fun _ => False := by
  unfold RepClient.repViewinfoCb at hs'
  have hup : (s.updateView vi).Kept fun _ => False :=
    h.updateView fun hch r hr _ hna => hvi hch r hr hna
  have hcalls : (s.updateView vi).calls = s.calls := by
    unfold RepClient.updateView
    split_ifs <;> rfl
  split at hs'
  · next r retried hn =>
    cases retried with
    | true => exact Option.some.inj hs' ▸ hup
    | false =>
      obtain rfl := Option.some.inj hs'
      have hcar : Carries (s.updateView vi).calls n r := Or.inr (hcalls ▸ hn)
      refine Kept.processRequest (hup.release hcar (fun m hm => AList.lookup_insert_ne hm) ?_ ?_)
      · rintro r' (hc | hc) <;> cases hc.symm.trans (AList.lookup_insert _)
      · intro m hm
        obtain rfl | hm := (AList.mem_insert _).mp hm
        · exact hup.fresh m hcar.mem
        · exact hup.fresh m hm
  · cases hs'

/-- A call that leads to nothing more is gone. -/
theorem Kept.forget (h : s.Kept fun _ => False) (hn : ∀ r, ¬Carries s.calls n r) :
    { s with calls := s.calls.erase n }.Kept fun _ => False := by
  have hsame : ∀ m r, Carries (s.calls.erase n) m r ↔ Carries s.calls m r := fun m r => by
    by_cases hm : m = n
    · subst hm
      exact ⟨fun hc => absurd hc.mem (by simp), fun hc => absurd hc (hn r)⟩
    · exact carries_congr (AList.lookup_erase_ne hm)
  have hbusy : ∀ r, { s with calls := s.calls.erase n }.Busy r ↔ s.Busy r := fun r =>
    exists_congr fun m => hsame m r
  refine ⟨h.once, fun r hr hf hna => ?_, fun m m' r hm hm' => ?_, fun r hr => ?_,
    fun _ => False.elim, fun m r hm => ?_, fun m hm => h.fresh m (AList.mem_erase.mp hm).2,
    fun r hr => ?_⟩
  · exact (h.underway r hr hf hna).imp (hbusy r).mpr id
  · exact h.alone m m' r ((hsame m r).mp hm) ((hsame m' r).mp hm')
  · exact h.unanswered r (hr.imp (hbusy r).mp id)
  · exact h.last m r (Keyed.lookup_of_lookup_erase hm)
  · exact h.known r (hr.imp (hbusy r).mp id)

theorem Kept.viewinfoTimedOut (h : s.Kept fun _ => False)
    (hs' : s.viewinfoTimedOut n = some s') : s'.Kept fun _ => False := by
  unfold RepClient.viewinfoTimedOut at hs'
  split at hs'
  · next r retried hn =>
    obtain rfl := Option.some.inj hs'
    cases retried with
    | true =>
      refine h.forget fun r' => ?_
      rintro (hc | hc) <;> cases hc.symm.trans hn
    | false => exact (h.erase (Or.inr hn)).refreshView
  · cases hs'

theorem handleFailed_eq (hmid : mid = s.primaryMid) : s.handleFailed mid =
    { s with
      calls := (s.falconMap.entries.map (·.2)).foldl (fun S n => S.erase n) s.calls
      timers := s.timers ++ s.falconMap.entries.map fun e => (mid, e.1) } := by
  unfold RepClient.handleFailed
  rw [if_neg (not_not.mpr hmid)]
  generalize s.falconMap.entries = es
  clear hmid
  induction es generalizing s with
  | nil => simp
  | cons e es ih =>
    rw [List.foldl_cons, ih]
    simp

/-- The calls are cancelled, and each request gets its timer. -/
theorem Kept.handleFailed (h : s.Kept fun _ => False)
    (hmap : mid = s.primaryMid →
      ∀ r n, s.falconMap.lookup r = some n → s.calls.lookup n = some (.execute r)) :
    (s.handleFailed mid).Kept fun _ => False := by
  by_cases hmid : mid = s.primaryMid
  · rw [handleFailed_eq hmid]
    have hentry : ∀ e ∈ s.falconMap.entries, s.calls.lookup e.2 = some (.execute e.1) := fun e he =>
      hmap hmid e.1 e.2 (Keyed.mem_entries_iff.mp he)
    have hback : ∀ m r,
        Carries ((s.falconMap.entries.map (·.2)).foldl (fun S n => S.erase n) s.calls)
        m r → Carries s.calls m r := fun m r hm =>
      hm.imp (fun hm => (Keyed.lookup_foldl_erase.mp hm).1) fun hm =>
        (Keyed.lookup_foldl_erase.mp hm).1
    refine ⟨h.once, ?_, ?_, ?_, fun _ => False.elim, ?_, ?_, ?_⟩
    · intro r hr _ hna
      obtain ⟨m, hm⟩ | htimer := h.underway r hr not_false hna
      · by_cases hmem : m ∈ s.falconMap.entries.map (·.2)
        · obtain ⟨e, he, rfl⟩ := List.mem_map.mp hmem
          obtain rfl : r = e.1 := hm.unique (Or.inl (hentry e he))
          exact Or.inr (List.mem_append_right _ (List.mem_map.mpr ⟨e, he, by rw [hmid]⟩))
        · exact Or.inl ⟨m, hm.imp (fun hm => Keyed.lookup_foldl_erase.mpr ⟨hm, hmem⟩)
            fun hm => Keyed.lookup_foldl_erase.mpr ⟨hm, hmem⟩⟩
      · exact Or.inr (List.mem_append_left _ htimer)
    · exact fun m m' r hm hm' => h.alone m m' r (hback m r hm) (hback m' r hm')
    · exact fun r hr => h.unanswered r (hr.imp (fun ⟨m, hm⟩ => ⟨m, hback m r hm⟩) id)
    · exact fun m r hm => h.last m r (Keyed.lookup_foldl_erase.mp hm).1
    · intro m hm
      obtain ⟨c, hc⟩ := Keyed.exists_lookup hm
      exact h.fresh m (Keyed.mem_of_lookup (Keyed.lookup_foldl_erase.mp hc).1)
    · rintro r (⟨m, hm⟩ | hna | hf | ⟨old, htimer⟩)
      · exact h.known r (Or.inl ⟨m, hback m r hm⟩)
      · exact h.known r (Or.inr (Or.inl hna))
      · exact hf.elim
      · obtain htimer | htimer := List.mem_append.mp htimer
        · exact h.known r (Or.inr (Or.inr (Or.inr ⟨old, htimer⟩)))
        · obtain ⟨e, he, heq⟩ := List.mem_map.mp htimer
          obtain ⟨-, rfl⟩ := Prod.mk.inj heq
          exact h.known e.1 (Or.inl ⟨e.2, Or.inl (hentry e he)⟩)
  · unfold RepClient.handleFailed
    rwa [if_pos hmid]

/-- A timer expires. -/
theorem Kept.timer {old : Mid} (h : s.Kept fun _ => False) (hmem : (old, r) ∈ s.timers)
    (hfree : old = s.primaryMid → ¬s.Answered r ∧ ¬s.Busy r) :
    ({ s with timers := s.timers.erase (old, r) }.checkNewPrimary old r).Kept fun _ => False := by
  have hknown : ∀ r', (∃ o, (o, r') ∈ s.timers.erase (old, r)) → r' < s.rid := fun r' ⟨o, ho⟩ =>
    h.known r' (Or.inr (Or.inr (Or.inr ⟨o, List.mem_of_mem_erase ho⟩)))
  have hr : r < s.rid := h.known r (Or.inr (Or.inr (Or.inr ⟨old, hmem⟩)))
  unfold RepClient.checkNewPrimary
  split_ifs with hold
  · obtain ⟨hna, hidle⟩ := hfree hold
    have hhole : { s with timers := s.timers.erase (old, r) }.Kept (· = r) := by
      refine ⟨h.once, fun r' hr' hne hna' => ?_, h.alone, ?_, ?_, h.last, h.fresh, ?_⟩
      · refine (h.underway r' hr' not_false hna').imp id fun ht => ?_
        exact (List.mem_erase_of_ne fun heq => hne (Prod.mk.inj heq).2).mpr ht
      · rintro r' (hb | rfl)
        · exact h.unanswered r' (Or.inl hb)
        · exact hna
      · rintro r' rfl
        exact hidle
      · rintro r' (hb | hna' | rfl | htimer)
        · exact h.known r' (Or.inl hb)
        · exact h.known r' (Or.inr (Or.inl hna'))
        · exact hr
        · exact hknown r' htimer
    have hk := hhole.refreshView
    refine ⟨hk.once, fun r' hr' hf hna' => ?_, hk.alone, hk.unanswered, hk.idle, hk.last,
      hk.fresh, ?_⟩
    · exact (hk.underway r' hr' hf hna').imp id (List.mem_append_left _)
    · rintro r' (hb | hna' | hf | ⟨o, ho⟩)
      · exact hk.known r' (Or.inl hb)
      · exact hk.known r' (Or.inr (Or.inl hna'))
      · exact hf.elim
      · obtain ho | ho := List.mem_append.mp ho
        · exact hknown r' ⟨o, ho⟩
        · obtain ⟨-, rfl⟩ := Prod.mk.inj (List.mem_singleton.mp ho)
          exact hr
  · refine ⟨h.once, fun r' hr' hf hna' => ?_, h.alone, h.unanswered, h.idle, h.last, h.fresh, ?_⟩
    · refine (h.underway r' hr' hf hna').imp id fun ht => ?_
      exact (List.mem_erase_of_ne fun heq => hold (Prod.mk.inj heq).1.symm).mpr ht
    · rintro r' (hb | hna' | hf' | htimer)
      · exact h.known r' (Or.inl hb)
      · exact h.known r' (Or.inr (Or.inl hna'))
      · exact hf'.elim
      · exact hknown r' htimer

/-! ## Runs -/

theorem kept_init (rid : Rid) : (init rid).Kept fun _ => False := by
  refine ⟨List.nodup_nil, ?_, ?_, ?_, fun _ => False.elim, ?_, ?_, ?_⟩
  · exact fun r hr => absurd hr List.not_mem_nil
  · exact fun n n' r hn => absurd hn.mem (AList.notMem_empty n)
  · exact fun r _ => List.not_mem_nil
  · exact fun n r hn => absurd (Keyed.mem_of_lookup hn) (AList.notMem_empty n)
  · exact fun n hn => absurd hn (AList.notMem_empty n)
  · rintro r (⟨n, hn⟩ | hna | hf | ⟨old, ht⟩)
    · exact absurd hn.mem (AList.notMem_empty n)
    · exact absurd hna List.not_mem_nil
    · exact hf.elim
    · exact absurd ht List.not_mem_nil

theorem Kept.step {e : Event} (h : s.Kept fun _ => False) (hs' : step primary s e = some s')
    (ho : Orderly primary s e s') : s'.Kept fun _ => False := by
  cases e with
  | issueRequest => exact Option.some.inj hs' ▸ h.issueRequest
  | executeFailed n => exact h.completed hs' fun r _ hr => hr.refreshView
  | executed n bytes => exact h.completed hs' fun r _ hr => hr.reply
  | redirected n vid memory => exact h.completed hs' fun r hn _ => h.redirect hn ho
  | viewinfo n vid => exact h.repViewinfoCb ho hs'
  | viewinfoTimedOut n => exact h.viewinfoTimedOut hs'
  | failed fd =>
    unfold RepClient.step at hs'
    simp only at hs'
    split at hs'
    · next mid hmid =>
      obtain rfl := Option.some.inj hs'
      have h' : { s with watches := s.watches.erase fd }.Kept fun _ => False :=
        ⟨h.once, h.underway, h.alone, h.unanswered, h.idle, h.last, h.fresh, h.known⟩
      exact h'.handleFailed fun heq => ho (hmid.trans (congrArg some heq))
    · cases hs'
  | timer old r =>
    unfold RepClient.step at hs'
    simp only at hs'
    split_ifs at hs' with hmem
    exact Option.some.inj hs' ▸ h.timer hmem ho

/-- **No request is dropped, and none is answered twice**, in a run in which no timer finds its
request answered or under way, the primary in use changes only while no request waits for a timer,
and Falcon reports it only while all requests are at it. -/
theorem served_of_orderly (primary : ViewId → CohortId) (rid : Rid) (es : List Event)
    (ho : Run.Along (step primary) (Orderly primary) (init rid) es) :
    Run.Always (step primary) Served (init rid) es :=
  Run.Always.of_inv (fun _ h => Kept.served h) (fun _ _ _ hs' h ho => h.step hs' ho) (kept_init rid)
    ho

/-- Servers that are the primaries of one view each. -/
def primaries (vid : ViewId) : CohortId := ⟨vid.counter, vid.counter, "host", "vmm"⟩

theorem busy_iff : s.Busy r ↔
    ∃ e ∈ s.calls.entries, e.2 = .execute r ∨ e.2 = .refresh r false := by
  constructor
  · rintro ⟨n, h | h⟩
    · exact ⟨⟨n, _⟩, Keyed.mem_entries_iff.mpr h, Or.inl rfl⟩
    · exact ⟨⟨n, _⟩, Keyed.mem_entries_iff.mpr h, Or.inr rfl⟩
  · rintro ⟨⟨n, c⟩, he, h⟩
    dsimp only at h
    obtain rfl | rfl := h
    · exact ⟨n, Or.inl (Keyed.mem_entries_iff.mp he)⟩
    · exact ⟨n, Or.inr (Keyed.mem_entries_iff.mp he)⟩

instance (s : RepClient) (r : Rid) : Decidable (s.Busy r) := decidable_of_iff _ busy_iff.symm

instance (s : RepClient) (vi : ViewInfo) : Decidable (s.Attended vi) :=
  inferInstanceAs (Decidable (s.Newer vi ∧ vi.primaryC.mid ≠ s.primaryMid →
    ∀ r ∈ s.issued, r ∉ s.answered.map (·.1) → s.Busy r))

instance (s s' : RepClient) : ∀ e, Decidable (Orderly primary s e s')
  | .redirected _ vid memory =>
    inferInstanceAs (Decidable (s.Attended (.redirect primary vid memory)))
  | .viewinfo _ vid => inferInstanceAs (Decidable (s.Attended (.bcast primary vid)))
  | .failed fd => decidable_of_iff (s.watches.lookup fd = some s.primaryMid →
      ∀ e ∈ s.falconMap.entries, s.calls.lookup e.2 = some (.execute e.1))
      (imp_congr_right fun _ => ⟨fun h r n hn => h ⟨r, n⟩ (Keyed.mem_entries_iff.mpr hn),
        fun h e he => h e.1 e.2 (Keyed.mem_entries_iff.mp he)⟩)
  | .timer old r => inferInstanceAs (Decidable (old = s.primaryMid →
      r ∉ s.answered.map (·.1) ∧ ¬s.Busy r))
  | .issueRequest | .executeFailed _ | .executed _ _ | .viewinfoTimedOut _ => isTrue trivial

/-- Two requests are under way when the primary fails.  The timers of both expire before the new
primary is known, and again after it has answered. -/
def patientRun : List Event :=
  [.issueRequest, .viewinfo 0 ⟨1, 1⟩, .issueRequest, .failed 0, .timer 1 0, .timer 1 1,
    .viewinfo 3 ⟨2, 1⟩, .viewinfo 4 ⟨2, 1⟩, .executed 5 [1], .timer 1 0, .executed 6 [2],
    .timer 1 1]

theorem served_of_orderly_reply : Run.Always (step primaries) Served (init 0) patientRun ∧
    (patientRun.foldlM (step primaries) (init 0)).map (·.answered) = some [(1, [2]), (0, [1])] :=
  ⟨served_of_orderly primaries 0 _ (by decide +kernel), by decide +kernel⟩

/-- Two requests are under way when the primary fails.  The timer of the first one finds the new
primary; that of the second one expires later, and finds that the primary has changed. -/
def lossyRun : List Event :=
  [.issueRequest, .viewinfo 0 ⟨1, 1⟩, .issueRequest, .failed 0, .timer 1 0, .viewinfo 3 ⟨2, 1⟩,
    .timer 1 1]

/-- **A request is dropped**: nothing is left that would issue it. -/
theorem dropped : ¬Run.Always (step primaries) Served (init 0) lossyRun := by
  intro h
  obtain ⟨s, hs, hissued, hanswered, htimers, hcalls⟩ :
      ∃ s, lossyRun.foldlM (step primaries) (init 0) = some s ∧ 1 ∈ s.issued ∧ s.answered = [] ∧
        s.timers = [(1, 0)] ∧ ∀ e ∈ s.calls.entries, e.2 ≠ .execute 1 ∧ e.2 ≠ .refresh 1 false :=
    ⟨_, rfl, by decide, by decide, by decide, by decide⟩
  have hserved := Run.always_iff_run.mp h lossyRun List.prefix_rfl s hs
  have hna : ¬s.Answered 1 := by
    rw [Answered, hanswered]
    exact List.not_mem_nil
  obtain ⟨n, hn | hn⟩ | htimer := hserved.underway 1 hissued hna
  · exact (hcalls ⟨n, _⟩ (Keyed.mem_entries_iff.mpr hn)).1 rfl
  · exact (hcalls ⟨n, _⟩ (Keyed.mem_entries_iff.mpr hn)).2 rfl
  · rw [htimers] at htimer
    exact absurd (Prod.mk.inj (List.mem_singleton.mp htimer)).2 (by decide)

end RepClient

end Falcon
