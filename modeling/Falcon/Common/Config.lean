import Falcon.Machinery.Doubles
import Falcon.Machinery.Keyed
import Mathlib.Data.List.Induction

/-!
# Common/Config — values of a configuration file

The parser reports the members of a JSON object to callbacks of `config.cc`, which keep a pointer to
a new object for each of them in `config_`.  `GetFromConfig<T>` reads the object under a key as a
`T`, whatever it is.  Integers are kept as `long`s, and reading a shorter integer takes their lowest
bytes.

* `pointer_loadConfig` — what is under a key is the last member that is not null.
* `asWritten_iff` — so a value is read as it was written exactly if no null follows a value, and the
  type asked for is the one of the object.
-/

namespace Falcon.ConfigFile

/-- A member's value, as the parser reports it: an integer is a `long`, and a number with a fraction
the bits of a `double`. -/
inductive Json
  | null
  | bool (v : Bool)
  | int (v : BitVec 64)
  | double (v : BitVec 64)
  | string (v : String)
  deriving DecidableEq, Repr

/-- The objects that `config_` points to. -/
inductive Object
  | bool (v : Bool)
  | long (v : BitVec 64)
  | double (v : BitVec 64)
  | string (v : String)
  deriving DecidableEq, Repr

/-- `config_`, with null pointers. -/
abbrev ConfigMap := Keyed String (Option Object)

/-- `next_key_` and `config_`. -/
structure Parser where
  nextKey : String
  config : ConfigMap

/-- `map_key`. -/
def mapKey (key : String) (p : Parser) : Parser := { p with nextKey := key }

/-- The end of a callback that makes an object. -/
def store (o : Object) (p : Parser) : Parser :=
  { p with config := p.config.insert p.nextKey (some o) }

/-- `handle_null`, `handle_bool`, `handle_int`, `handle_double` and `handle_str`. -/
def handle : Json → Parser → Parser
  | .null, p => p
  | .bool v, p => store (.bool v) p
  | .int v, p => store (.long v) p
  | .double v, p => store (.double v) p
  | .string v, p => store (.string v) p

/-- A member is reported. -/
def member (p : Parser) (m : String × Json) : Parser := handle m.2 (mapKey m.1 p)

/-- `LoadConfig` for a flat object. -/
def loadConfig (members : List (String × Json)) : ConfigMap :=
  (members.foldl member ⟨"", ∅⟩).config

/-! ## Reading -/

/-- The widths of the integer types. -/
inductive Width
  | w8 | w16 | w32 | w64
  deriving DecidableEq, Repr

def Width.bits : Width → ℕ
  | .w8 => 8
  | .w16 => 16
  | .w32 => 32
  | .w64 => 64

/-- The types a value is asked for in; `long` is `.int true .w64`. -/
inductive CType
  | bool
  | int (signed : Bool) (width : Width)
  | double
  | string
  deriving DecidableEq, Repr

/-- What is read: a value, or the memory of an object of another type. -/
inductive Value
  | bool (v : Bool)
  | int (v : ℤ)
  | double (v : BitVec 64)
  | string (v : String)
  | reinterpreted (o : Object)
  deriving DecidableEq, Repr

/-- `*static_cast<T*>(val)` on a little-endian machine. -/
def deref : CType → Object → Value
  | .bool, .bool v => .bool v
  | .int true width, .long v => .int (v.setWidth width.bits).toInt
  | .int false width, .long v => .int (v.setWidth width.bits).toNat
  | .double, .long v => .double v
  | .double, .double v => .double v
  | .string, .string v => .string v
  | _, o => .reinterpreted o

/-- `GetFromConfig(key, out)`: what is put into `out`, if it returns true; `operator[]` enters a
null pointer for a key that is not there. -/
def getFromConfig (T : CType) (key : String) (config : ConfigMap) : Option Value × ConfigMap :=
  match config.lookup key with
  | none => (none, config.insert key none)
  | some val => (val.map (deref T), config)

/-- `GetFromConfig(key, out, default_value)`. -/
def getFromConfigDefault (T : CType) (key : String) (defaultValue : Value) (config : ConfigMap) :
    Value × ConfigMap :=
  let (out, config) := getFromConfig T key config
  (out.getD defaultValue, config)

/-- Values that have been asked for before. -/
def readAll (reads : List (CType × String)) (config : ConfigMap) : ConfigMap :=
  reads.foldl (fun config r => (getFromConfig r.1 r.2 config).2) config

/-! ## What was written -/

/-- The value is one of the integer type. -/
def InRange : CType → ℤ → Prop
  | .int true width, n => -2 ^ (width.bits - 1) ≤ n ∧ n < 2 ^ (width.bits - 1)
  | .int false width, n => 0 ≤ n ∧ n < 2 ^ width.bits
  | _, _ => True

/-- A value is the one of a member, converted to the type; where there is no such conversion, it is
at least not the memory of the member's object. -/
def Converted : Json → CType → Value → Prop
  | .bool v, .bool, r => r = .bool v
  | .int v, .int _ _, r => r = .int v.toInt
  | .int v, .double, r => ∃ bits, r = .double bits ∧ Doubles.value bits = some (v.toInt : ℚ)
  | .double v, .double, r => r = .double v
  | .string v, .string, r => r = .string v
  | _, _, r => ∀ o, r ≠ .reinterpreted o

/-- The last member under a key. -/
def lastMember (members : List (String × Json)) (key : String) : Option Json :=
  (members.filter fun m => m.1 = key).getLast?.map Prod.snd

/-- A value of the type. -/
def HasType : Value → CType → Prop
  | .bool _, .bool => True
  | .int n, .int signed width => InRange (.int signed width) n
  | .double _, .double => True
  | .string _, .string => True
  | _, _ => False

/-- For every default value, the result is the last value under the key, or the default value if
that is null or there is none. -/
def AsWritten (members : List (String × Json)) (T : CType) (key : String) (out : Value → Value) :
    Prop :=
  match lastMember members key with
  | none => ∀ defaultValue, HasType defaultValue T → out defaultValue = defaultValue
  | some .null => ∀ defaultValue, HasType defaultValue T → out defaultValue = defaultValue
  | some v => ∀ defaultValue, HasType defaultValue T → Converted v T (out defaultValue)

/-- The JSON type is the one asked for. -/
def Fits : Json → CType → Prop
  | .bool _, .bool => True
  | .int _, .int _ _ => True
  | .double _, .double => True
  | .string _, .string => True
  | _, _ => False

/-- A null does not follow a value, and a value has the type asked for, or it is an integer that is
the same in both. -/
def Sound (members : List (String × Json)) (T : CType) (key : String) : Prop :=
  match lastMember members key with
  | none => True
  | some .null => ∀ v, (key, v) ∈ members → v = .null
  | some v => Fits v T ∨ v = .int 0 ∧ T = .double

variable {members : List (String × Json)} {T : CType} {key key' : String} {v : Json} {n : ℤ}
  {config : ConfigMap} {reads : List (CType × String)}

/-! ## What is under a key -/

/-- The object a callback makes. -/
def object : Json → Option Object
  | .null => none
  | .bool v => some (.bool v)
  | .int v => some (.long v)
  | .double v => some (.double v)
  | .string v => some (.string v)

theorem object_eq_none_iff : object v = none ↔ v = .null := by
  cases v <;> simp [object]

/-- The pointer under a key; a key that is not there has a null pointer. -/
def pointer (config : ConfigMap) (key : String) : Option Object := (config.lookup key).join

/-- A value is the last one of its key until the next one. -/
theorem pointer_member (p : Parser) (m : String × Json) (key : String) :
    pointer (member p m).config key =
      (if m.1 = key then object m.2 else none).or (pointer p.config key) := by
  have hstore : ∀ o, pointer (store o (mapKey m.1 p)).config key =
      if m.1 = key then some o else pointer p.config key := by
    intro o
    rw [pointer, store, mapKey]
    dsimp only
    split_ifs with hkey
    · rw [hkey, AList.lookup_insert]
      rfl
    · rw [AList.lookup_insert_ne (Ne.symm hkey), pointer]
  obtain ⟨k, v⟩ := m
  cases v with
  | null => simp [member, handle, mapKey, object]
  | bool v => rw [member, handle, hstore]; split_ifs <;> rfl
  | int v => rw [member, handle, hstore]; split_ifs <;> rfl
  | double v => rw [member, handle, hstore]; split_ifs <;> rfl
  | string v => rw [member, handle, hstore]; split_ifs <;> rfl

/-- **Under a key is the last member that is not null.** -/
theorem pointer_loadConfig : pointer (loadConfig members) key =
    ((members.filter fun m => m.1 = key).filterMap fun m => object m.2).getLast? := by
  rw [loadConfig]
  induction members using List.reverseRecOn with
  | nil => rfl
  | append_singleton members m ih =>
    rw [List.foldl_append, List.foldl_cons, List.foldl_nil, pointer_member, ih, List.filter_append,
      List.filterMap_append, List.getLast?_append]
    split_ifs with hkey
    · cases hm : object m.2 <;> simp [hkey, hm]
    · simp [hkey]

/-- Asking for a value changes no pointer. -/
theorem pointer_getFromConfig :
    pointer (getFromConfig T key config).2 key' = pointer config key' := by
  rw [getFromConfig]
  cases hlook : config.lookup key with
  | none =>
    by_cases hkey : key' = key
    · rw [hkey, pointer, pointer, AList.lookup_insert, hlook]
      rfl
    · rw [pointer, pointer, AList.lookup_insert_ne hkey]
  | some val => rfl

theorem pointer_readAll : pointer (readAll reads config) key = pointer config key := by
  induction reads generalizing config with
  | nil => rfl
  | cons r reads ih => exact (ih).trans pointer_getFromConfig

theorem getFromConfig_eq : (getFromConfig T key config).1 = (pointer config key).map (deref T) := by
  rw [getFromConfig, pointer]
  cases config.lookup key <;> rfl

/-! ## Types -/

/-- The lowest bytes of an integer that is in the range of a type are this integer. -/
theorem deref_long {signed : Bool} {width : Width} {v : BitVec 64}
    (h : InRange (.int signed width) v.toInt) :
    deref (.int signed width) (.long v) = .int v.toInt := by
  have hlt := v.isLt
  rw [BitVec.toInt_eq_toNat_cond] at h ⊢
  cases signed with
  | true =>
    simp only [deref, BitVec.toInt_setWidth, Value.int.injEq]
    simp only [InRange] at h
    cases width <;> simp only [Width.bits, Int.bmod_def] at h ⊢ <;> split_ifs at h ⊢ <;> omega
  | false =>
    simp only [deref, BitVec.toNat_setWidth, Value.int.injEq]
    simp only [InRange] at h
    cases width <;> simp only [Width.bits] at h ⊢ <;> split_ifs at h ⊢ <;> omega

/-- The object of a member is read as its value exactly if the types fit, or it is the integer 0. -/
theorem converted_iff {o : Object} (ho : object v = some o)
    (hrange : ∀ i, v = .int i → InRange T i.toInt) :
    Converted v T (deref T o) ↔ Fits v T ∨ v = .int 0 ∧ T = .double := by
  cases v with
  | null => cases ho
  | bool b =>
    obtain rfl := Option.some.inj ho
    cases T <;> simp [Converted, Fits, deref]
  | int i =>
    obtain rfl := Option.some.inj ho
    cases T with
    | bool => simp [Converted, Fits, deref]
    | int signed width => simp [Converted, Fits, deref_long (hrange i rfl)]
    | double =>
      simp only [Converted, Fits, deref, Value.double.injEq, false_or, Json.int.injEq, and_true]
      rw [← Doubles.value_toInt_iff]
      exact ⟨fun ⟨bits, hbits, hval⟩ => hbits ▸ hval, fun hval => ⟨i, rfl, hval⟩⟩
    | string => simp [Converted, Fits, deref]
  | double _ | string _ =>
    obtain rfl := Option.some.inj ho
    cases T with
    | int signed width => cases signed <;> simp [Converted, Fits, deref]
    | bool | double | string => simp [Converted, Fits, deref]

/-- There is more than one value of each type. -/
theorem exists_hasType_ne (T : CType) (x : Value) : ∃ d, HasType d T ∧ d ≠ x := by
  have htwo : ∃ d d', HasType d T ∧ HasType d' T ∧ d ≠ d' := by
    cases T with
    | bool => exact ⟨.bool true, .bool false, trivial, trivial, by decide⟩
    | int signed width =>
      refine ⟨.int 0, .int 1, ?_, ?_, by decide⟩ <;>
        cases signed <;> cases width <;> simp [HasType, InRange, Width.bits]
    | double => exact ⟨.double 0, .double 1, trivial, trivial, by decide⟩
    | string => exact ⟨.string "", .string "a", trivial, trivial, by decide⟩
  obtain ⟨d, d', hd, hd', hne⟩ := htwo
  by_cases hx : d = x
  · exact ⟨d', hd', fun h => hne (hx.trans h.symm)⟩
  · exact ⟨d, hd, hx⟩

/-- A default value is what comes out for every default value if the pointer is null. -/
theorem getD_eq_iff (val : Option Object) : (∀ defaultValue, HasType defaultValue T →
    (val.map (deref T)).getD defaultValue = defaultValue) ↔ val = none := by
  cases val with
  | none => simp
  | some o =>
    obtain ⟨d, hd, hne⟩ := exists_hasType_ne T (deref T o)
    exact iff_of_false (fun h => hne (h d hd).symm) (Option.some_ne_none o)

theorem getFromConfigDefault_eq (defaultValue : Value) :
    (getFromConfigDefault T key defaultValue config).1 =
      ((pointer config key).map (deref T)).getD defaultValue := by
  rw [← getFromConfig_eq]
  rfl

/-! ## The last member -/

/-- The members under a key, when there are any. -/
theorem members_of_last (h : lastMember members key = some v) :
    ∃ l, (members.filter fun m => m.1 = key) = l ++ [(key, v)] := by
  obtain ⟨m, hm, rfl⟩ := Option.map_eq_some_iff.mp h
  obtain ⟨l, hl⟩ := List.getLast?_eq_some_iff.mp hm
  have hmem : m ∈ members.filter fun m => m.1 = key := hl ▸ List.mem_append_right _ (by simp)
  obtain rfl : m.1 = key := of_decide_eq_true (List.mem_filter.mp hmem).2
  exact ⟨l, hl⟩

theorem pointer_of_absent (h : lastMember members key = none) :
    pointer (loadConfig members) key = none := by
  rw [lastMember, Option.map_eq_none_iff, List.getLast?_eq_none_iff] at h
  rw [pointer_loadConfig, h]
  rfl

theorem pointer_of_value {o : Object} (h : lastMember members key = some v)
    (ho : object v = some o) : pointer (loadConfig members) key = some o := by
  obtain ⟨l, hl⟩ := members_of_last h
  rw [pointer_loadConfig, hl, List.filterMap_append, List.getLast?_append]
  simp [ho]

/-- A null leaves the value before it. -/
theorem pointer_eq_none_iff :
    pointer (loadConfig members) key = none ↔ ∀ v, (key, v) ∈ members → v = .null := by
  rw [pointer_loadConfig, List.getLast?_eq_none_iff, List.filterMap_eq_nil_iff]
  constructor
  · intro hnone v hv
    exact object_eq_none_iff.mp (hnone _ (List.mem_filter.mpr ⟨hv, decide_eq_true rfl⟩))
  · intro hnull m hm
    obtain ⟨hm, hkey⟩ := List.mem_filter.mp hm
    exact object_eq_none_iff.mpr (hnull m.2 (of_decide_eq_true hkey ▸ hm))

/-- **Values are read as they were written** exactly if no null follows a value under the key, and
the type asked for is the one of the last value (or that is the integer 0, read as a double). -/
theorem asWritten_iff (h : ∀ i, lastMember members key = some (.int i) → InRange T i.toInt) :
    AsWritten members T key (fun defaultValue =>
      (getFromConfigDefault T key defaultValue (readAll reads (loadConfig members))).1) ↔
      Sound members T key := by
  simp only [getFromConfigDefault_eq, pointer_readAll]
  have hvalue : ∀ v o, lastMember members key = some v → object v = some o →
      ((∀ defaultValue, HasType defaultValue T → Converted v T
        (((pointer (loadConfig members) key).map (deref T)).getD defaultValue)) ↔
        Fits v T ∨ v = .int 0 ∧ T = .double) := by
    intro v o hlast ho
    obtain ⟨d, hd, -⟩ := exists_hasType_ne T (.bool true)
    rw [pointer_of_value hlast ho, ← converted_iff ho fun i hi => h i (hi ▸ hlast)]
    exact ⟨fun hall => hall d hd, fun hconv _ _ => hconv⟩
  rw [AsWritten, Sound]
  cases hlast : lastMember members key with
  | none => exact iff_of_true ((getD_eq_iff _).mpr (pointer_of_absent hlast)) trivial
  | some v =>
    cases v with
    | null => exact (getD_eq_iff _).trans pointer_eq_none_iff
    | bool b => exact hvalue _ _ hlast rfl
    | int i => exact hvalue _ _ hlast rfl
    | double d => exact hvalue _ _ hlast rfl
    | string st => exact hvalue _ _ hlast rfl

/-- A configuration of the replication service. -/
def settings : List (String × Json) :=
  [("failures", .int 1), ("spy_multiplier", .int 500), ("poll_freq_ms", .int 20),
    ("poll_freq_ms", .null)]

theorem lastMember_failures : lastMember settings "failures" = some (.int 1) := by decide

/-- The number of failures is read as a `long`. -/
theorem asWritten_failures : AsWritten settings (.int true .w64) "failures" fun defaultValue =>
    (getFromConfigDefault (.int true .w64) "failures" defaultValue
      (readAll [(.string, "handle")] (loadConfig settings))).1 := by
  refine (asWritten_iff fun i hi => ?_).mpr ?_
  · obtain rfl := Json.int.inj (Option.some.inj (lastMember_failures.symm.trans hi))
    exact ⟨by decide, by decide⟩
  · rw [Sound, lastMember_failures]
    exact Or.inl trivial

/-- The multiplier 500 is read as the bits of another number, and the null leaves the frequency
before it, whatever the default value is. -/
theorem not_asWritten_settings :
    (¬ AsWritten settings .double "spy_multiplier" fun defaultValue =>
      (getFromConfigDefault .double "spy_multiplier" defaultValue (loadConfig settings)).1) ∧
    (∀ defaultValue, (getFromConfigDefault .double "spy_multiplier" defaultValue
      (loadConfig settings)).1 = .double 500) ∧
    ¬ AsWritten settings (.int false .w32) "poll_freq_ms" fun defaultValue =>
      (getFromConfigDefault (.int false .w32) "poll_freq_ms" defaultValue
        (loadConfig settings)).1 := by
  have hmul : ∀ defaultValue, (getFromConfigDefault .double "spy_multiplier" defaultValue
      (loadConfig settings)).1 = .double 500 := fun _ => rfl
  refine ⟨fun h => ?_, hmul, fun h => ?_⟩
  · have hlast : lastMember settings "spy_multiplier" = some (.int 500) := by decide
    rw [AsWritten, hlast] at h
    obtain ⟨bits, hbits, hval⟩ := h (.double 0) trivial
    obtain rfl := Value.double.inj ((hmul (.double 0)).symm.trans hbits)
    exact absurd (Doubles.value_toInt_iff.mp hval) (by decide)
  · have hlast : lastMember settings "poll_freq_ms" = some .null := by decide
    rw [AsWritten, hlast] at h
    exact absurd (h (.int 100) ⟨by decide, by decide⟩) (by decide)

end Falcon.ConfigFile
