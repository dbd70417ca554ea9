import Falcon.Machinery.Loops
import Falcon.Replication.Checks

/-!
# Replication/Walks — walks over the log

`vs_next` goes to the next timestamp, or jumps to the formation of a view, which `vs_jumps_update`
has entered in the jump table.  Two loops follow it: that of `advance_executed` up to what is
committed, and that of `REP_VIEW_CHANGE` for as long as there is an entry.  A new entry can redirect
a jump, but only to a later view.

* `Built.insert` — the jump table is built from the entries that are logged.
* `walks_stop` — when every formation names a viewstamp before its own, `vs_next` goes up, and both
  loops stop after one round more than there are entries at most, and visit none of them twice.
-/

namespace Falcon.Cohort

/-- `vs_jumps_update(rle)`. -/
def vsJumpsUpdate (vs : Viewstamp) (rle : LogEntry) (s : Cohort) : Option Cohort :=
  if vs.ts ≠ 0 then some s
  else
    match rle.arg.request with
    | .form f => some (s.jump vs f)
    | .operation _ => none

/-- `vs_jumps_update` for one entry after the other. -/
def vsJumpsUpdates (rles : List (Viewstamp × LogEntry)) (s : Cohort) : Option Cohort :=
  rles.foldlM (fun s r => s.vsJumpsUpdate r.1 r.2) s

/-- The jump table has been built by `vs_jumps_update` from entries of the log, in any order. -/
def Built (s : Cohort) : Prop :=
  ∃ rles s', (∀ r ∈ rles, s.entry r.1 = some r.2.arg) ∧
    vsJumpsUpdates rles { s with jumps := ∅ } = some s' ∧ s'.jumps = s.jumps

/-- A round of the loop of `advance_executed` begins with a viewstamp and the cohort. -/
def executeRound : Viewstamp × Cohort → Loop.Round (Viewstamp × Cohort) Cohort
  | (vs, s) =>
    if vs ≤ s.committed then
      match s.log.lookup vs with
      | none => .leave s
      | some rle =>
        match s.execute vs rle with
        | none => .fatal
        | some s =>
          match s.vsNext vs with
          | none => .fatal
          | some next => .next (next, s)
    else .leave s

/-- A round of the loop of `REP_VIEW_CHANGE` begins with a viewstamp and the last one before it. -/
def lastRound (s : Cohort) : Viewstamp × Viewstamp → Loop.Round (Viewstamp × Viewstamp) Viewstamp
  | (vs, last) =>
    if vs ∈ s.log then
      match s.vsNext vs with
      | none => .fatal
      | some next => .next (next, vs)
    else .leave last

variable {s s' : Cohort} {vs last u w : Viewstamp} {rle : LogEntry} {n : ℕ}

/-! ## The loops of the methods -/

theorem insert_eq_vsJumpsUpdate :
    s.insert vs rle = (s.vsJumpsUpdate vs rle).map (·.logEntry vs rle) := by
  unfold insert vsJumpsUpdate
  split_ifs
  · rfl
  · cases rle.arg.request with
    | form f => rfl
    | operation bytes => rfl

/-- The loop of `advance_executed`. -/
theorem executeFrom_eq : executeFrom n vs s = (Loop.run executeRound n (vs, s)).join := by
  induction n generalizing vs s with
  | zero => rfl
  | succ n ih =>
    rw [executeFrom, Loop.run]
    by_cases hle : vs ≤ s.committed
    · cases hrle : s.log.lookup vs with
      | none => simp [executeRound, hle, hrle]
      | some rle =>
        cases hs₁ : s.execute vs rle with
        | none => simp [executeRound, hle, hrle, hs₁]
        | some s₁ =>
          cases hnext : s₁.vsNext vs with
          | none => simp [executeRound, hle, hrle, hs₁, hnext]
          | some next => simp [executeRound, hle, hrle, hs₁, hnext, ih]
    · simp [executeRound, hle]

/-- The loop of `REP_VIEW_CHANGE`. -/
theorem lastFrom_eq : lastFrom n vs last s = (Loop.run s.lastRound n (vs, last)).join := by
  induction n generalizing vs last with
  | zero => rfl
  | succ n ih =>
    rw [lastFrom, Loop.run]
    by_cases hmem : vs ∈ s.log
    · cases hnext : s.vsNext vs with
      | none => simp [lastRound, hmem, hnext]
      | some next => simp [lastRound, hmem, hnext, ih]
    · simp [lastRound, hmem]

/-! ## What a round goes on to -/

theorem lastRound_next {t t' : Viewstamp × Viewstamp} (h : s.lastRound t = .next t') :
    t.1 ∈ s.log ∧ s.vsNext t.1 = some t'.1 := by
  obtain ⟨vs, last⟩ := t
  unfold lastRound at h
  dsimp only at h
  split_ifs at h with hmem
  split at h
  · cases h
  · next next hnext =>
    obtain rfl := Loop.Round.next.inj h
    exact ⟨hmem, hnext⟩

theorem executeRound_next {t t' : Viewstamp × Cohort} (h : executeRound t = .next t') :
    t.1 ∈ t.2.log ∧ t.2.vsNext t.1 = some t'.1 ∧ t'.2.entry = t.2.entry ∧
      t'.2.vsNext = t.2.vsNext := by
  obtain ⟨vs, s⟩ := t
  unfold executeRound at h
  dsimp only at h
  split_ifs at h with hle
  split at h
  · cases h
  · next rle hrle =>
    split at h
    · cases h
    · next s₁ hs₁ =>
      split at h
      · cases h
      · next next hnext =>
        obtain rfl := Loop.Round.next.inj h
        obtain ⟨-, rfl⟩ | ⟨-, f, -, rfl⟩ := execute_cases hs₁
        · exact ⟨Keyed.mem_of_lookup hrle, hnext, entry_insert rfl rfl hrle rfl, rfl⟩
        · exact ⟨Keyed.mem_of_lookup hrle, hnext, entry_insert rfl rfl hrle rfl, rfl⟩

/-! ## Loops that stop -/

theorem card_log (s : Cohort) : s.log.keys.toFinset.card = s.log.size := by
  rw [List.toFinset_card_of_nodup s.log.keys_nodup]
  exact List.length_map _

/-- The loop of `REP_VIEW_CHANGE` has no upper bound but the log. -/
theorem Onward.lastRound_stops (h : s.Onward) (vs last : Viewstamp) :
    Loop.Stops s.lastRound Prod.fst (s.log.size + 1) (vs, last) := by
  rw [← card_log]
  refine Loop.stops (I := fun _ => True) _ (fun t t' _ hround => ?_) trivial
  obtain ⟨hmem, hnext⟩ := lastRound_next hround
  exact ⟨trivial, List.mem_toFinset.mpr (AList.mem_keys.mp hmem), h _ _ hnext⟩

theorem Onward.executeRound_stops (h : s.Onward) (vs : Viewstamp) :
    Loop.Stops executeRound Prod.fst (s.log.size + 1) (vs, s) := by
  rw [← card_log]
  refine Loop.stops (I := fun t => t.2.entry = s.entry ∧ t.2.vsNext = s.vsNext) _
    (fun t t' ht hround => ?_) ⟨rfl, rfl⟩
  obtain ⟨hmem, hnext, hentry, hvsNext⟩ := executeRound_next hround
  refine ⟨⟨hentry.trans ht.1, hvsNext.trans ht.2⟩, ?_, h _ _ (ht.2 ▸ hnext)⟩
  rw [mem_log_iff, ht.1, ← mem_log_iff] at hmem
  exact List.mem_toFinset.mpr (AList.mem_keys.mp hmem)

/-! ## The jump table -/

/-- A formation is entered under the viewstamp it names. -/
theorem vsJumpsUpdate_lookup (hs' : s.vsJumpsUpdate vs rle = some s')
    (hw : s'.jumps.lookup u = some w) : s.jumps.lookup u = some w ∨
      vs.ts = 0 ∧ w = vs ∧ ∃ f, rle.arg.request = .form f ∧ f.prev = u := by
  have hinsert : s.insert vs rle = some (s'.logEntry vs rle) := by
    rw [insert_eq_vsJumpsUpdate, hs']
    rfl
  exact insert_jumps hinsert hw

/-- **`vs_next` goes up.** -/
theorem Built.onward (h : s.Built) (hprev : ∀ vs arg f, s.entry vs = some arg → vs.ts = 0 →
    arg.request = .form f → f.prev < vs) : s.Onward := by
  obtain ⟨rles, s', hentry, hs', hjumps⟩ := h
  have hup : ∀ u w, s'.jumps.lookup u = some w → u < w := by
    refine Run.keeps_of_mem (I := fun s' => ∀ u w, s'.jumps.lookup u = some w → u < w)
      (fun r hr s₁ s₂ hs₂ hs₁ u w hw => ?_) hs' fun u w hw => by cases hw
    obtain hold | ⟨hts, rfl, f, hf, rfl⟩ := vsJumpsUpdate_lookup hs₂ hw
    · exact hs₁ u w hold
    · exact hprev _ _ f (hentry r hr) hts hf
  intro u w hw
  unfold vsNext at hw
  split at hw
  · next next hnext =>
    obtain rfl := Option.some.inj hw
    exact hup u next (hjumps ▸ hnext)
  · exact lt_succ hw

/-- The update looks at nothing but the table. -/
theorem jump_congr {t : Cohort} (f : ViewForm) (h : t.jumps = s.jumps) :
    (t.jump vs f).jumps = (s.jump vs f).jumps := by
  unfold jump
  rw [h]
  cases s.jumps.lookup f.prev with
  | none => rfl
  | some next =>
    dsimp only
    split_ifs
    · rfl
    · exact h

theorem vsJumpsUpdate_congr {t : Cohort} (h : t.jumps = s.jumps)
    (hs' : s.vsJumpsUpdate vs rle = some s') :
    ∃ t', t.vsJumpsUpdate vs rle = some t' ∧ t'.jumps = s'.jumps := by
  unfold vsJumpsUpdate at hs' ⊢
  split_ifs at hs' ⊢
  · exact ⟨t, rfl, Option.some.inj hs' ▸ h⟩
  · cases hreq : rle.arg.request with
    | operation bytes =>
      rw [hreq] at hs'
      cases hs'
    | form f =>
      rw [hreq] at hs'
      obtain rfl := Option.some.inj hs'
      exact ⟨t.jump vs f, rfl, jump_congr f h⟩

theorem vsJumpsUpdates_congr {rles : List (Viewstamp × LogEntry)} {t : Cohort}
    (h : t.jumps = s.jumps) (hs' : vsJumpsUpdates rles s = some s') :
    ∃ t', vsJumpsUpdates rles t = some t' ∧ t'.jumps = s'.jumps := by
  unfold vsJumpsUpdates at hs' ⊢
  induction rles generalizing s t with
  | nil => exact ⟨t, rfl, Option.some.inj hs' ▸ h⟩
  | cons r rles ih =>
    rw [List.foldlM_cons] at hs'
    obtain ⟨s₁, hs₁, hs'⟩ := Option.bind_eq_some_iff.mp hs'
    obtain ⟨t₁, ht₁, h₁⟩ := vsJumpsUpdate_congr h hs₁
    rw [List.foldlM_cons, ht₁]
    exact ih h₁ hs'

/-- **An entry that is logged** keeps the table built. -/
theorem Built.insert (h : s.Built) (hnew : vs ∉ s.log) (hs' : s.insert vs rle = some s') :
    s'.Built := by
  obtain ⟨rles, s₁, hentry, hs₁, hjumps⟩ := h
  have hlog : s'.log = s.log.add vs rle := by
    obtain ⟨J, rfl⟩ := insert_eq hs'
    rfl
  rw [insert_eq_vsJumpsUpdate] at hs'
  obtain ⟨s₂, hs₂, rfl⟩ := Option.map_eq_some_iff.mp hs'
  -- the updates so far, and then this one
  obtain ⟨t₁, ht₁, hjumps₁⟩ := vsJumpsUpdates_congr (s := { s with jumps := ∅ })
    (t := { s₂.logEntry vs rle with jumps := ∅ }) rfl hs₁
  obtain ⟨t₂, ht₂, hjumps₂⟩ := vsJumpsUpdate_congr (hjumps₁.trans hjumps) hs₂
  refine ⟨rles ++ [(vs, rle)], t₂, fun r hr => ?_, ?_, hjumps₂⟩
  · rw [entry, hlog]
    obtain hr | hr := List.mem_append.mp hr
    · obtain ⟨rle', hrle', -⟩ := entry_eq_some.mp (hentry r hr)
      have hne : r.1 ≠ vs := fun heq => hnew (heq ▸ Keyed.mem_of_lookup hrle')
      rw [Keyed.lookup_add_ne hne]
      exact hentry r hr
    · obtain rfl := List.mem_singleton.mp hr
      rw [Keyed.lookup_add_self hnew]
      rfl
  · unfold vsJumpsUpdates at ht₁ ⊢
    rw [List.foldlM_append]
    refine Option.bind_eq_some_iff.mpr ⟨t₁, ht₁, ?_⟩
    rw [List.foldlM_cons, ht₂]
    rfl

/-- **The walks over the log end.**  If the jump table has been built from entries of the log, and
every formation in the log names a viewstamp before its own, then `vs_next` goes up; the loops of
`advance_executed` and of `REP_VIEW_CHANGE` stop, wherever they start, after one round more than
there are entries at most, and their rounds are at larger and larger viewstamps. -/
theorem walks_stop (s : Cohort) (hbuilt : s.Built)
    (hprev : ∀ vs rle f, s.log.lookup vs = some rle → vs.ts = 0 → rle.arg.request = .form f →
      f.prev < vs) :
    (∀ u w, s.vsNext u = some w → u < w) ∧
      (∀ vs, Loop.Stops executeRound Prod.fst (s.log.size + 1) (vs, s)) ∧
      ∀ vs last, Loop.Stops s.lastRound Prod.fst (s.log.size + 1) (vs, last) := by
  have honward : s.Onward := hbuilt.onward fun vs arg f harg hts hf => by
    obtain ⟨rle, hrle, rfl⟩ := entry_eq_some.mp harg
    exact hprev vs rle f hrle hts hf
  exact ⟨honward, honward.executeRound_stops, honward.lastRound_stops⟩

/-- Two views follow the first request of a view; the entry of the second one redirects the jump. -/
def forkedLog : List (Viewstamp × LogEntry) :=
  [(⟨⟨1, 1⟩, 0⟩, .plain (synthetic 1).arg), (⟨⟨1, 1⟩, 1⟩, .plain ⟨5, 1, ⟨1, 1⟩, .operation []⟩),
    (⟨⟨2, 1⟩, 0⟩, .plain (ViewForm.arg ⟨⟨⟨1, 1⟩, 1⟩, ⟨⟨2, 1⟩, 1, [2]⟩⟩)),
    (⟨⟨3, 2⟩, 0⟩, .plain (ViewForm.arg ⟨⟨⟨1, 1⟩, 1⟩, ⟨⟨3, 2⟩, 2, [1]⟩⟩))]

def forked : Cohort :=
  { boot 1 with
    log := forkedLog.foldl (fun log r => log.insert r.1 r.2) ∅
    jumps := ((∅ : Keyed Viewstamp Viewstamp).insert .zero ⟨⟨1, 1⟩, 0⟩).insert ⟨⟨1, 1⟩, 1⟩
      ⟨⟨3, 2⟩, 0⟩ }

/-- The formation in an entry. -/
def forms (rle : LogEntry) : List ViewForm :=
  match rle.arg.request with
  | .form f => [f]
  | .operation _ => []

theorem forked_built : forked.Built := ⟨forkedLog, _, by decide, rfl, rfl⟩

theorem walks_stop_forked : (∀ u w, forked.vsNext u = some w → u < w) ∧
    (∀ vs, Loop.Stops executeRound Prod.fst (forked.log.size + 1) (vs, forked)) ∧
    ∀ vs last, Loop.Stops forked.lastRound Prod.fst (forked.log.size + 1) (vs, last) := by
  have hprev : ∀ e ∈ forked.log.entries, ∀ f ∈ forms e.2, f.prev < e.1 := by decide
  refine walks_stop forked forked_built fun vs rle f hrle hts hf => ?_
  refine hprev _ (Keyed.mem_entries_iff.mpr hrle) f ?_
  rw [forms, hf]
  exact List.mem_singleton_self f

end Falcon.Cohort
