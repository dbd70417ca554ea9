import Mathlib.Data.Nat.Bits
import Mathlib.Tactic.Ring

/-!
# Machinery/Bytes — integers and buffers in memory

The memory of a little-endian machine as lists of bytes.  `leBytes k n` are the `k` bytes of the
integer `n`, and `leNat` reads them back; `swap k` reverses the bytes of an integer, which is what
`htons`, `htonl` and their inverses do on such a machine.  `memcpy` has no result when it leaves a
buffer.

* `leNat_leBytes`, `leBytes_leNat` — the two readings are inverse.
* `swap_swap` — a value that has gone through the network order is the same.
* `swap_four` — an integer of four bytes in network order, read in host order.
-/

abbrev Bytes := List UInt8

namespace Bytes

variable {k n : ℕ} {b bs src dst : Bytes}

/-- The integer in the bytes of a little-endian machine. -/
def leNat : Bytes → ℕ
  | [] => 0
  | b :: bs => b.toNat + 256 * leNat bs

/-- The lowest `k` bytes of an integer. -/
def leBytes : ℕ → ℕ → Bytes
  | 0, _ => []
  | k + 1, n => UInt8.ofNat n :: leBytes k (n / 256)

/-- The lowest `k` bytes of an integer, the other way round. -/
def swap (k n : ℕ) : ℕ := leNat (leBytes k n).reverse

/-- `memcpy(dst, src, n)`. -/
def memcpy (dst src : Bytes) (n : ℕ) : Option Bytes :=
  if n ≤ dst.length ∧ n ≤ src.length then some (src.take n ++ dst.drop n) else none

/-- A buffer after `memset(.., 0, n)`. -/
def zeros (n : ℕ) : Bytes := List.replicate n 0

@[simp] theorem length_zeros : (zeros n).length = n := List.length_replicate

@[simp] theorem length_leBytes (k n : ℕ) : (leBytes k n).length = k := by
  induction k generalizing n with
  | zero => rfl
  | succ k ih => rw [leBytes, List.length_cons, ih]

theorem leNat_lt (b : Bytes) : leNat b < 256 ^ b.length := by
  induction b with
  | nil => exact Nat.one_pos
  | cons b bs ih =>
    have hb := b.toNat_lt
    rw [leNat, List.length_cons, Nat.pow_succ]
    omega

theorem leNat_leBytes (h : n < 256 ^ k) : leNat (leBytes k n) = n := by
  induction k generalizing n with
  | zero => exact (Nat.lt_one_iff.mp h).symm
  | succ k ih =>
    have hdiv : n / 256 < 256 ^ k := Nat.div_lt_of_lt_mul (by rwa [Nat.pow_succ, Nat.mul_comm] at h)
    rw [leBytes, leNat, ih hdiv, UInt8.toNat_ofNat']
    omega

theorem leBytes_leNat (h : b.length = k) : leBytes k (leNat b) = b := by
  subst h
  induction b with
  | nil => rfl
  | cons b bs ih =>
    have hb := b.toNat_lt
    have hdiv : (b.toNat + 256 * leNat bs) / 256 = leNat bs := by omega
    have hmod : UInt8.ofNat (b.toNat + 256 * leNat bs) = b := by
      refine UInt8.toNat_inj.mp ?_
      rw [UInt8.toNat_ofNat']
      omega
    rw [List.length_cons, leNat, leBytes, hdiv, ih, hmod]

theorem swap_lt (k n : ℕ) : swap k n < 256 ^ k := by
  have h := leNat_lt (leBytes k n).reverse
  rwa [List.length_reverse, length_leBytes] at h

/-- **The network order is undone.** -/
theorem swap_swap (h : n < 256 ^ k) : swap k (swap k n) = n := by
  have hlen : (leBytes k n).reverse.length = k := by rw [List.length_reverse, length_leBytes]
  rw [swap, swap, leBytes_leNat hlen, List.reverse_reverse, leNat_leBytes h]

theorem swap_four (n : ℕ) : swap 4 n = n / 2 ^ 24 % 256 + 256 * (n / 2 ^ 16 % 256) +
    2 ^ 16 * (n / 2 ^ 8 % 256) + 2 ^ 24 * (n % 256) := by
  have hbytes : leBytes 4 n = [.ofNat n, .ofNat (n / 256), .ofNat (n / 256 / 256),
      .ofNat (n / 256 / 256 / 256)] := rfl
  rw [swap, hbytes]
  simp only [List.reverse_cons, List.reverse_nil, List.nil_append, List.cons_append, leNat,
    UInt8.toNat_ofNat', Nat.div_div_eq_div_mul, Nat.reducePow, Nat.reduceMul]
  omega

theorem take_zeros (h : k ≤ n) : (zeros n).take k = zeros k := by
  rw [zeros, List.take_replicate, Nat.min_eq_left h, zeros]

end Bytes
