import Falcon.Diomedes.Instances
import Falcon.Diomedes.State
import Falcon.Machinery.Words
import Mathlib.Data.List.TakeWhile

/-!
# Diomedes/Identities — the names of a replica

A `diomedes_id` is made of three names, each in a field of its own with a null byte behind it.
`CompareDiomedesIds` compares field by field.  `AddToAckers`, `CountVote` and `ProcessJoin` put the
names together to one string, and look that up in a set; there is nothing between the names.

* `kept_apart_iff` — so two replicas are told apart by the sets exactly if the names of one are not
  those of the other with letters moved over the borders.
-/

namespace Falcon.Diomedes

def kNameLength : ℕ := 32

/-- A field for a name, with a null byte in it. -/
abbrev NameField := {b : Bytes // b.length = kNameLength ∧ 0 ∈ b}

/-- The string in a field. -/
def NameField.str (f : NameField) : CString :=
  ⟨f.1.takeWhile (· ≠ 0), fun h => by simpa using List.mem_takeWhile_imp h⟩

/-- `diomedes_id`, as it is in memory. -/
structure RawId where
  handle : NameField
  domain : NameField
  hypervisor : NameField
  deriving DecidableEq

/-- `strncmp(s, t, n)`; there is a null byte behind what is given of a string. -/
def strncmp : ℕ → Bytes → Bytes → ℤ
  | 0, _, _ => 0
  | n + 1, s, t =>
    if s.headD 0 ≠ t.headD 0 then ((s.headD 0).toNat : ℤ) - (t.headD 0).toNat
    else if s.headD 0 = 0 then 0
    else strncmp n s.tail t.tail

/-- `CompareDiomedesIds`. -/
def compareDiomedesIds (id1 id2 : RawId) : Bool :=
  strncmp kNameLength id1.handle.1 id2.handle.1 = 0 ∧
    strncmp kNameLength id1.domain.1 id2.domain.1 = 0 ∧
    strncmp kNameLength id1.hypervisor.1 id2.hypervisor.1 = 0

/-- `CompareDiomedesIdToInstance`. -/
def compareDiomedesIdToInstance (id : RawId) (app : Application) : Bool :=
  strncmp kNameLength app.appName.1 id.handle.1 = 0 ∧
    strncmp kNameLength app.hostName.1 id.domain.1 = 0 ∧
    strncmp kNameLength app.vmmName.1 id.hypervisor.1 = 0

/-! ## The strings -/

/-- `kSwitchName`. -/
def kSwitchName : Bytes := ['r', 'o', 'u', 't', 'e', 'r'].map Char.toUInt8

namespace RawId

/-- The string of `AddToAckers`. -/
def acker (id : RawId) : Bytes :=
  let acker := id.handle.str.1
  let acker := acker ++ id.domain.str.1
  acker ++ id.hypervisor.str.1

/-- The string of `CountVote`. -/
def voter (id : RawId) : Bytes :=
  let voter := id.handle.str.1
  let voter := voter ++ id.domain.str.1
  voter ++ id.hypervisor.str.1

/-- The string of `ProcessJoin`. -/
def joinStr (id : RawId) : Bytes :=
  let joinStr := [] ++ id.handle.str.1
  let joinStr := joinStr ++ id.domain.str.1
  let joinStr := joinStr ++ id.hypervisor.str.1
  joinStr ++ kSwitchName

/-- The three names. -/
def words (id : RawId) : Words UInt8 := (id.handle.str.1, id.domain.str.1, id.hypervisor.str.1)

end RawId

/-- What `ProcessJoin` reads and writes. -/
structure Joins where
  /-- `pending_joins_`. -/
  pending : Finset Bytes
  /-- The names of `active_servers_`. -/
  activeServers : List Application

/-- `ProcessJoin`: its result, and if it sends a join. -/
def processJoin (joiner : RawId) (broadcast : Bool) (s : Joins) : Bool × Bool × Joins :=
  if joiner.joinStr ∈ s.pending then (false, false, s)
  else if s.activeServers.any (compareDiomedesIdToInstance joiner) then (false, broadcast, s)
  else (true, false, { s with pending := insert joiner.joinStr s.pending })

/-- **Two replicas are told apart**: their strings differ, so that an acknowledgement or a vote of
the first one is not one of the second, and a pending join of the first one does not hide one of the
second. -/
structure ToldApart (a b : RawId) : Prop where
  acker : a.acker ≠ b.acker
  voter : a.voter ≠ b.voter
  joinStr : a.joinStr ≠ b.joinStr
  acks : ∀ ackers : Finset Bytes, b.acker ∈ insert a.acker ackers ↔ b.acker ∈ ackers
  votes : ∀ votes : Finset Bytes, b.voter ∈ insert a.voter votes ↔ b.voter ∈ votes
  joins : ∀ (s : Joins) (broadcast broadcast' : Bool),
    (processJoin b broadcast' (processJoin a broadcast s).2.2).1 = (processJoin b broadcast' s).1

/-! ## Fields that are compared -/

variable {a b : RawId} {s t : Bytes} {n : ℕ}

theorem take_takeWhile_succ (s : Bytes) (n : ℕ) : (s.takeWhile (· ≠ 0)).take (n + 1) =
    if s.headD 0 = 0 then [] else s.headD 0 :: (s.tail.takeWhile (· ≠ 0)).take n := by
  cases s with
  | nil => rfl
  | cons a s =>
    by_cases ha : a = 0
    · simp [ha]
    · simp [ha]

/-- `strncmp` compares the strings as far as it reads them. -/
theorem strncmp_eq_zero_iff : strncmp n s t = 0 ↔
    (s.takeWhile (· ≠ 0)).take n = (t.takeWhile (· ≠ 0)).take n := by
  fun_induction strncmp n s t with
  | case1 => simp
  | case2 n s t hne =>
    have hsub : ((s.headD 0).toNat : ℤ) - (t.headD 0).toNat ≠ 0 := fun hzero =>
      hne (UInt8.toNat_inj.mp (by omega))
    rw [take_takeWhile_succ, take_takeWhile_succ]
    refine iff_of_false hsub fun heq => hne ?_
    split_ifs at heq with hs ht
    · rw [hs, ht]
    · exact (List.cons.inj heq).1
  | case3 n s t heq hzero =>
    rw [take_takeWhile_succ, take_takeWhile_succ, if_pos hzero, if_pos (not_not.mp heq ▸ hzero)]
    simp
  | case4 n s t heq hzero ih =>
    rw [take_takeWhile_succ, take_takeWhile_succ, if_neg hzero, if_neg (not_not.mp heq ▸ hzero),
      ih, ← not_not.mp heq, List.cons_inj_right]

/-- A field holds no more than a comparison reads. -/
theorem strncmp_field (f g : NameField) : strncmp kNameLength f.1 g.1 = 0 ↔ f.str = g.str := by
  have htake (f : NameField) : f.str.1.take kNameLength = f.str.1 :=
    List.take_of_length_le ((List.takeWhile_sublist _).length_le.trans_eq f.2.1)
  rw [strncmp_eq_zero_iff, Subtype.ext_iff, ← htake f, ← htake g]
  rfl

/-- **`CompareDiomedesIds` compares the names.** -/
theorem compareDiomedesIds_iff : compareDiomedesIds a b = true ↔ a.words = b.words := by
  rw [compareDiomedesIds, decide_eq_true_eq, strncmp_field, strncmp_field, strncmp_field,
    RawId.words, RawId.words, Prod.mk.injEq, Prod.mk.injEq, Subtype.ext_iff, Subtype.ext_iff,
    Subtype.ext_iff]

/-! ## Strings that are looked up -/

namespace RawId

theorem acker_eq (id : RawId) : id.acker = id.words.concat := List.append_assoc _ _ _

theorem voter_eq (id : RawId) : id.voter = id.words.concat := List.append_assoc _ _ _

theorem joinStr_eq (id : RawId) : id.joinStr = id.words.concat ++ kSwitchName := by
  rw [← id.acker_eq]
  rfl

end RawId

/-- Another pending join does not count. -/
theorem processJoin_pending {s : Joins} {pending : Finset Bytes} (broadcast : Bool)
    (h : b.joinStr ∈ pending ↔ b.joinStr ∈ s.pending) :
    (processJoin b broadcast { s with pending := pending }).1 = (processJoin b broadcast s).1 := by
  unfold processJoin
  rw [if_congr h rfl rfl]
  dsimp only
  split_ifs
  · rfl
  · rfl
  · rfl

/-- What the sets tell apart are the strings. -/
theorem toldApart_iff : ToldApart a b ↔ a.words.concat ≠ b.words.concat := by
  refine ⟨fun h heq => h.acker (by rw [a.acker_eq, b.acker_eq, heq]), fun hne => ?_⟩
  have hacker : a.acker ≠ b.acker := by rwa [a.acker_eq, b.acker_eq]
  have hvoter : a.voter ≠ b.voter := by rwa [a.voter_eq, b.voter_eq]
  have hjoin : a.joinStr ≠ b.joinStr := fun heq => hne (List.append_cancel_right
    (by rwa [a.joinStr_eq, b.joinStr_eq] at heq))
  have hother {x y : Bytes} (h : x ≠ y) (s : Finset Bytes) : y ∈ insert x s ↔ y ∈ s := by
    rw [Finset.mem_insert, or_iff_right h.symm]
  refine ⟨hacker, hvoter, hjoin, hother hacker, hother hvoter, fun s broadcast broadcast' => ?_⟩
  conv_lhs => enter [1, 3]; unfold processJoin
  split_ifs
  · rfl
  · rfl
  · exact processJoin_pending broadcast' (hother hjoin s.pending)

/-! ## The ids of the other modules -/

/-- The bytes of a string as its characters. -/
def text (s : Bytes) : String := String.ofList (s.map Char.ofUInt8)

/-- The names in the fields. -/
def RawId.id (r : RawId) : DiomedesId :=
  ⟨text r.handle.str.1, text r.domain.str.1, text r.hypervisor.str.1⟩

theorem text_injective : Function.Injective text := by
  intro s t h
  refine List.map_injective_iff.mpr (fun b c hbc => ?_) (String.ofList_injective h)
  have hval : b.toUInt32 = c.toUInt32 := congrArg Char.val hbc
  refine UInt8.toNat_inj.mp ?_
  rw [← UInt8.toNat_toUInt32, hval, UInt8.toNat_toUInt32]

theorem text_append (s t : Bytes) : text (s ++ t) = text s ++ text t := by
  rw [text, List.map_append, String.ofList_append, ← text, ← text]

/-- The string of a voter or an acker. -/
theorem name_id (r : RawId) : r.id.name = text r.acker := by
  rw [DiomedesId.name, RawId.id, ← text_append, ← text_append]
  rfl

/-- The records of two ids are equal exactly if the ids are. -/
theorem id_eq_iff : a.id = b.id ↔ compareDiomedesIds a b = true := by
  rw [compareDiomedesIds_iff, RawId.id, RawId.id, DiomedesId.mk.injEq, text_injective.eq_iff,
    text_injective.eq_iff, text_injective.eq_iff, RawId.words, RawId.words, Prod.mk.injEq,
    Prod.mk.injEq]

/-- **Which replicas are told apart.**  Two replicas that `CompareDiomedesIds` distinguishes are
told apart by the sets exactly if the names of neither are those of the other with letters moved
over the borders. -/
theorem kept_apart_iff (a b : RawId) : (compareDiomedesIds a b = false → ToldApart a b) ↔
    ¬ (Words.Shifted a.words b.words ∨ Words.Shifted b.words a.words) := by
  rw [← Words.concat_eq_iff, toldApart_iff, ← Bool.not_eq_true, compareDiomedesIds_iff, not_and',
    ne_eq]

/-- A name in its field. -/
def NameField.of (s : Bytes) (h : s.length < kNameLength) : NameField :=
  ⟨s ++ Bytes.zeros (kNameLength - s.length), by
    rw [List.length_append, Bytes.length_zeros]
    omega,
    List.mem_append_right _ (List.mem_replicate.mpr ⟨by omega, rfl⟩)⟩

/-- A replica with the handle `d`. -/
def replica (domain hypervisor : List Char)
    (h : (domain.map Char.toUInt8).length < kNameLength)
    (h' : (hypervisor.map Char.toUInt8).length < kNameLength) : RawId :=
  ⟨.of ['d'.toUInt8] (by decide), .of _ h, .of _ h'⟩

/-- The replicas on `vm1` of `1host`, and on `vm11` of `host`. -/
def onVm1 : RawId := replica ['v', 'm', '1'] ['1', 'h', 'o', 's', 't'] (by decide) (by decide)

def onVm11 : RawId := replica ['v', 'm', '1', '1'] ['h', 'o', 's', 't'] (by decide) (by decide)

theorem not_kept_apart : ¬ (compareDiomedesIds onVm1 onVm11 = false → ToldApart onVm1 onVm11) :=
  fun h => (h (by decide)).acker (by decide)

end Falcon.Diomedes
