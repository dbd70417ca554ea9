import Mathlib.Data.Nat.Prime.Basic
import Mathlib.Data.Rat.Init
import Mathlib.Tactic.IntervalCases
import Mathlib.Tactic.Linarith
import Mathlib.Tactic.Positivity
import Mathlib.Tactic.Ring

/-!
# Machinery/Doubles — the values of double-precision numbers

The value of the 64 bits of an IEEE double.  Every finite one is an integer multiple of the smallest
subnormal number, `2⁻¹⁰⁷⁴`; `units` gives the multiple.

* `value_toInt_iff` — the bits of a signed integer, read as a double, are that integer only for 0.
-/

namespace Doubles

/-- The lower 52 bits. -/
def fraction (bits : ℕ) : ℕ := bits % 2 ^ 52

/-- The eleven bits above them. -/
def exponent (bits : ℕ) : ℕ := bits / 2 ^ 52 % 2 ^ 11

/-- The smallest positive number is `2 ^ (-grain)`. -/
def grain : ℕ := 1074

/-- How many of it make 1. -/
def scale : ℕ := 2 ^ grain

/-- A finite number without its sign, in units of the smallest one. -/
def units (bits : ℕ) : ℕ :=
  if exponent bits = 0 then fraction bits
  else (2 ^ 52 + fraction bits) * 2 ^ (exponent bits - 1)

/-- The value of the bits; infinities and the numbers that are none have no value. -/
def value (bits : BitVec 64) : Option ℚ :=
  if exponent bits.toNat = 2047 then none
  else if bits.msb then some (-(units bits.toNat : ℚ) / scale)
  else some ((units bits.toNat : ℚ) / scale)

variable {k m u : ℕ} {v : BitVec 64}

theorem eq_zero_of_dvd {c : ℕ} (hc : ¬ 2 ∣ c) (hm : m < 2 ^ 52) (hdvd : 2 ^ 52 ∣ m * c) :
    m = 0 := by
  have hcop : Nat.Coprime (2 ^ 52) c :=
    Nat.Coprime.pow_left _ ((Nat.Prime.coprime_iff_not_dvd Nat.prime_two).mpr hc)
  exact Nat.eq_zero_of_dvd_of_lt (hcop.dvd_of_dvd_mul_right hdvd) hm

theorem two_pow_ne (hk : k ≤ 971) : 2 ^ k ≠ 1075 + k := by
  obtain hle | hgt := Nat.lt_or_ge k 11
  · interval_cases k <;> decide
  · have hpow : 2 ^ 11 ≤ 2 ^ k := Nat.pow_le_pow_right (by decide) hgt
    omega

theorem two_pow_add_ne : 2 ^ k + k ≠ 973 := by
  obtain hle | hgt := Nat.lt_or_ge k 11
  · interval_cases k <;> decide
  · have hpow : 2 ^ 11 ≤ 2 ^ k := Nat.pow_le_pow_right (by decide) hgt
    omega

/-- Large positive integers: the value of the bits is another one. -/
theorem units_ne (hk : k ≤ 971) (hm : m < 2 ^ 52) :
    (2 ^ 52 + m) * 2 ^ k ≠ (1075 + k) * 2 ^ 52 + m := by
  intro heq
  obtain rfl | hpos := Nat.eq_zero_or_pos k
  · omega
  obtain ⟨j, rfl⟩ : ∃ j, k = j + 1 := ⟨k - 1, by omega⟩
  have hc : ∃ c, 2 ^ (j + 1) = c + 1 ∧ ¬ 2 ∣ c := by
    refine ⟨2 ^ (j + 1) - 1, ?_, ?_⟩
    · have := Nat.one_le_two_pow (n := j + 1)
      omega
    · have := Nat.one_le_two_pow (n := j)
      rw [Nat.pow_succ]
      omega
  obtain ⟨c, hc, hodd⟩ := hc
  have hm0 : m = 0 := by
    refine eq_zero_of_dvd hodd hm ⟨1074 + (j + 1) - c, ?_⟩
    rw [hc] at heq
    zify [show c ≤ 1074 + (j + 1) by nlinarith] at heq ⊢
    linarith
  rw [hm0] at heq
  exact two_pow_ne hk (by omega)

/-- Large negative integers: the value of the bits is another one. -/
theorem units_add_ne (hm : m < 2 ^ 52) :
    (2 ^ 52 + m) * 2 ^ k + (1075 + k) * 2 ^ 52 + m ≠ 2 ^ 63 := by
  intro heq
  obtain rfl | hpos := Nat.eq_zero_or_pos k
  · omega
  obtain ⟨j, rfl⟩ : ∃ j, k = j + 1 := ⟨k - 1, by omega⟩
  have hodd : ¬ 2 ∣ 2 ^ (j + 1) + 1 := by
    rw [Nat.pow_succ]
    omega
  have hm0 : m = 0 := by
    refine eq_zero_of_dvd hodd hm ?_
    have hsum : m * (2 ^ (j + 1) + 1) + 2 ^ 52 * (2 ^ (j + 1) + 1075 + (j + 1)) =
        2 ^ 52 * 2 ^ 11 := by
      linarith
    exact (Nat.dvd_add_left (Dvd.intro _ rfl)).mp (hsum ▸ Dvd.intro _ rfl)
  rw [hm0] at heq
  exact two_pow_add_ne (k := j + 1) (by omega)

theorem scale_pos : 0 < scale := Nat.two_pow_pos grain

theorem two_pow_scale (k : ℕ) : 2 ^ (grain + k) = scale * 2 ^ k := Nat.pow_add 2 grain k

theorem two_mul_two_pow_le {a : ℕ} (ha : a < grain) : 2 * 2 ^ a ≤ scale := by
  rw [scale, ← Nat.pow_succ']
  exact Nat.pow_le_pow_right Nat.two_pos ha

/-- The fields of the bits of an integer that is not negative. -/
theorem fields_of_lt (hu : u < 2 ^ 63) : u = 2 ^ 52 * exponent u + fraction u := by
  unfold exponent fraction
  omega

/-- The fields of the bits of a negative integer. -/
theorem fields_of_le (hu : 2 ^ 63 ≤ u) (hu' : u < 2 ^ 64) :
    u = 2 ^ 63 + 2 ^ 52 * exponent u + fraction u := by
  unfold exponent fraction
  omega

theorem fraction_lt (u : ℕ) : fraction u < 2 ^ 52 := Nat.mod_lt _ (by decide)

theorem units_eq_iff (hu : u < 2 ^ 63) (he : exponent u ≠ 2047) : units u = u * scale ↔ u = 0 := by
  have hfields := fields_of_lt hu
  have hm := fraction_lt u
  have hgrain : grain = 1074 := rfl
  refine ⟨fun h => ?_, fun h => by rw [h, Nat.zero_mul]; rfl⟩
  unfold units at h
  split_ifs at h with hzero
  · rw [hzero, Nat.mul_zero, Nat.zero_add] at hfields
    rw [← hfields] at h
    by_contra hne
    have hscale : 2 * 2 ^ 0 ≤ scale := two_mul_two_pow_le (by omega)
    have hlt : u * 1 < u * scale := Nat.mul_lt_mul_of_pos_left (by omega) (Nat.pos_of_ne_zero hne)
    omega
  exfalso
  obtain ⟨a, ha⟩ : ∃ a, exponent u = a + 1 := ⟨exponent u - 1, by omega⟩
  rw [ha, Nat.add_sub_cancel] at h
  rw [ha] at hfields
  obtain hle | hgt := Nat.lt_or_ge a grain
  · -- a number below `2 ^ 53` is too small
    have hpow := two_mul_two_pow_le (a := a) (by omega)
    have hpos : 0 < 2 ^ a := Nat.pow_pos Nat.two_pos
    have hlt : (2 ^ 52 + fraction u) * 2 ^ a < u * scale := by
      calc (2 ^ 52 + fraction u) * 2 ^ a < (2 ^ 52 + fraction u) * (2 * 2 ^ a) :=
            Nat.mul_lt_mul_of_pos_left (by omega) (by omega)
        _ ≤ u * scale := Nat.mul_le_mul (by omega) hpow
    omega
  · obtain ⟨k, rfl⟩ := Nat.exists_eq_add_of_le hgt
    have hexp : exponent u < 2 ^ 11 := Nat.mod_lt _ (by decide)
    rw [two_pow_scale, Nat.mul_left_comm, Nat.mul_comm u] at h
    have hcancel := Nat.eq_of_mul_eq_mul_left scale_pos h
    exact units_ne (k := k) (by omega) hm (by omega)

theorem units_neg_ne (hu : 2 ^ 63 ≤ u) (hu' : u < 2 ^ 64) : units u ≠ (2 ^ 64 - u) * scale := by
  have hfields := fields_of_le hu hu'
  have hm := fraction_lt u
  have hexp : exponent u < 2 ^ 11 := Nat.mod_lt _ (by decide)
  have hgrain : grain = 1074 := rfl
  intro h
  unfold units at h
  split_ifs at h with hzero
  · have hle : 1 * scale ≤ (2 ^ 64 - u) * scale := Nat.mul_le_mul_right scale (by omega)
    have hscale : 2 * 2 ^ 52 ≤ scale := two_mul_two_pow_le (by omega)
    omega
  obtain ⟨a, ha⟩ : ∃ a, exponent u = a + 1 := ⟨exponent u - 1, by omega⟩
  rw [ha, Nat.add_sub_cancel] at h
  rw [ha] at hfields
  obtain hle | hgt := Nat.lt_or_ge a grain
  · have hpow := two_mul_two_pow_le (a := a) (by omega)
    have hpos : 0 < 2 ^ a := Nat.pow_pos Nat.two_pos
    have hlt : (2 ^ 52 + fraction u) * 2 ^ a < (2 ^ 64 - u) * scale := by
      calc (2 ^ 52 + fraction u) * 2 ^ a < (2 ^ 52 + fraction u) * (2 * 2 ^ a) :=
            Nat.mul_lt_mul_of_pos_left (by omega) (by omega)
        _ ≤ (2 ^ 64 - u) * scale := Nat.mul_le_mul (by omega) hpow
    omega
  · obtain ⟨k, rfl⟩ := Nat.exists_eq_add_of_le hgt
    rw [two_pow_scale, Nat.mul_left_comm, Nat.mul_comm (2 ^ 64 - u)] at h
    have hcancel := Nat.eq_of_mul_eq_mul_left scale_pos h
    exact units_add_ne (k := k) hm (by omega)

/-- **An integer read as a double** is the same number only if it is 0. -/
theorem value_toInt_iff : value v = some (v.toInt : ℚ) ↔ v = 0 := by
  have hscale : (scale : ℚ) ≠ 0 := Nat.cast_ne_zero.mpr scale_pos.ne'
  have hlt := v.isLt
  constructor
  · intro h
    unfold value at h
    rw [BitVec.msb_eq_decide, BitVec.toInt_eq_toNat_cond] at h
    split_ifs at h with he hneg hpos hpos
    · simp only [decide_eq_true_eq] at hneg
      omega
    · simp only [decide_eq_true_eq] at hneg
      rw [Option.some.injEq, div_eq_iff hscale] at h
      refine absurd ?_ (units_neg_ne hneg hlt)
      have hcast : ((units v.toNat : ℕ) : ℚ) = ((2 ^ 64 - v.toNat : ℕ) : ℚ) * scale := by
        rw [Nat.cast_sub hlt.le]
        push_cast at h ⊢
        linarith
      exact_mod_cast hcast
    · rw [Option.some.injEq, div_eq_iff hscale] at h
      have hzero := (units_eq_iff (by omega) he).mp (by exact_mod_cast h)
      exact BitVec.eq_of_toNat_eq hzero
    · simp only [decide_eq_true_eq] at hneg
      omega
  · rintro rfl
    have hunits : units (0 : BitVec 64).toNat = 0 := by decide
    rw [value, if_neg (by decide), if_neg (by decide), hunits, Nat.cast_zero, zero_div]
    rfl

end Doubles
