/-
Square roots of any length.

The root is taken of an integer: the leading bits of the value, counted in an even power of two.
Only the bits after them and the rest of the integer root decide on which of two integers it is
rounded to; the result is rounded once more if that has a bit too many.

* `integerSqrt_bounds` — **the integer root of the leading bits is the real root up to less than
  one**, whatever was dropped.
* `Dyadic.squareRoot_leading` — the leading bits, their unit, and what their root is rounded to.
* `Dyadic.cut_root_near` — the second rounding moves that by less than the unit it leaves.
* `Dyadic.squareRoot_counts` — **a square root counts a unit of which the exact root has at least
  `2 ^ (p - 1)`, and is off by one of them at most**.
* `Dyadic.squareRoot_offBy` — the same as a fraction of the exact root.
-/

import Reckoner.Proofs.Number.Quotient
import Mathlib.Analysis.Real.Sqrt
import Mathlib.Data.Rat.Cast.Order

namespace Reckoner

/-- Casting keeps how far a result is off. -/
theorem OffBy.cast {δ a b : Rat} (off : OffBy δ a b) : OffBy (δ : ℝ) (a : ℝ) (b : ℝ) := by
  unfold OffBy at off ⊢
  exact_mod_cast off

/-! ### Integer roots -/

/-- **The integer root of the leading bits is the real root up to less than one**, whatever bits
were dropped. -/
theorem integerSqrt_bounds {n : Nat} {v : ℝ} (below : (n : ℝ) ≤ v) (above : v < n + 1) :
    (integerSqrt n : ℝ) ≤ √v ∧ √v < integerSqrt n + 1 := by
  obtain ⟨least, most⟩ := integerSqrt_spec n
  constructor
  · have square : (integerSqrt n : ℝ) ^ 2 ≤ n := by
      rw [sq]
      exact_mod_cast least
    exact Real.le_sqrt_of_sq_le (le_trans square below)
  · have square : (n : ℝ) + 1 ≤ (integerSqrt n + 1) ^ 2 := by
      rw [sq]
      exact_mod_cast most
    rw [Real.sqrt_lt' (by positivity)]
    exact lt_of_lt_of_le above square

/-- An integer root is rounded to itself, or to the next integer if it is not exact. -/
theorem Rounding.round_ofRoot (mode : Rounding) (n : Nat) (size : Ordering) :
    mode.round (integerSqrt n) (.ofRoot n size) = integerSqrt n ∨
      mode.round (integerSqrt n) (.ofRoot n size) = integerSqrt n + 1 ∧
        integerSqrt n * integerSqrt n < n := by
  unfold Rest.ofRoot
  split
  · exact .inl rfl
  · next rest =>
    exact (mode.round_fraction _ false size).imp_right fun next => ⟨next, by omega⟩

/-- **What the integer root of the leading bits is rounded to is off by one at most**, and above the
real root by less. -/
theorem round_ofRoot_near (mode : Rounding) {n : Nat} (size : Ordering) {v : ℝ}
    (below : (n : ℝ) ≤ v) (above : v < n + 1) :
    √v - 1 ≤ mode.round (integerSqrt n) (.ofRoot n size) ∧
      mode.round (integerSqrt n) (.ofRoot n size) < √v + 1 := by
  obtain ⟨least, most⟩ := integerSqrt_bounds below above
  rcases mode.round_ofRoot n size with stays | ⟨moves, inexact⟩
  · rw [stays, Int.cast_natCast]
    constructor <;> linarith
  · have square : (integerSqrt n : ℝ) ^ 2 < v := by
      refine lt_of_lt_of_le ?_ below
      rw [sq]
      exact_mod_cast inexact
    have strict := Real.lt_sqrt_of_sq_lt square
    rw [moves]
    push_cast
    constructor <;> linarith

/-- A count that is rounded again, to a multiple of a larger unit. -/
theorem near_of_rounded_twice {σ unit : ℝ} {m c : Int} {i : Nat} (lower : σ - 1 ≤ m)
    (upper : m < σ + 1) (close : |c * 2 ^ i - m| + 1 ≤ 2 ^ i) (positive : 0 < unit) :
    σ * unit - unit * 2 ^ i ≤ c * (unit * 2 ^ i) ∧
      c * (unit * 2 ^ i) < σ * unit + unit * 2 ^ i := by
  have close' : |(c : ℝ) * 2 ^ i - m| + 1 ≤ 2 ^ i := by exact_mod_cast close
  obtain ⟨below, above⟩ := abs_le.mp (le_sub_iff_add_le.mpr close')
  generalize (2 : ℝ) ^ i = two at below above
  have least : (σ - two) * unit ≤ c * two * unit :=
    mul_le_mul_of_nonneg_right (by linarith) positive.le
  have most : c * two * unit < (σ + two) * unit :=
    mul_lt_mul_of_pos_right (by linarith) positive
  constructor <;> linarith

end Reckoner

namespace Dyadic

open Reckoner

variable {x : Dyadic} {p : Nat}

/-- A count of at most `2 ^ (p + 1)` units is cut to a neighbour at most. -/
theorem cut_scaled_near (positive : 0 < p) (mode : Rounding) {m : Int}
    (small : m.natAbs ≤ 2 ^ (p + 1)) (e : Int) :
    ∃ n : Int, (scaled m e).cut mode p = scaled n e ∧ |n - m| ≤ 1 := by
  by_cases short : (scaled m e).length ≤ p
  · rw [cut_eq_self_iff.mpr short]
    exact ⟨m, rfl, by simp⟩
  · obtain ⟨n, equal⟩ := cut_scaled mode p m e
    refine ⟨n, equal, ?_⟩
    have counted : m ≠ 0 := by
      rintro rfl
      rw [scaled_eq_zero_iff.mpr rfl] at short
      exact short (Nat.zero_le p)
    -- A power of two has one bit, so the count has `p + 1` of them and the unit is doubled.
    have bits : bitLength m.natAbs = p + 1 := by
      have least : ¬bitLength m.natAbs ≤ p := fun few => short (length_scaled_le few e)
      have most : m.natAbs ≠ 2 ^ (p + 1) := fun power =>
        short (le_trans (length_scaled_two_pow power e) positive)
      have below := bitLength_le_iff.mpr (lt_of_le_of_ne small most)
      omega
    have near := (cut_roundedAt mode p (scaled m e)).near.1
    rw [equal, magnitude_scaled counted, bits, toRat_scaled, toRat_scaled, ← sub_mul, abs_mul,
      abs_of_pos (two_zpow_pos e)] at near
    have double : (2 : Rat) ^ ((p + 1 : Nat) + e - p) = 2 * 2 ^ e := by
      rw [show ((p + 1 : Nat) + e - p : Int) = 1 + e by omega, Rat.zpow_add (by decide)]
      rfl
    rw [double, mul_lt_mul_iff_of_pos_right (two_zpow_pos e)] at near
    have integers : |n - m| < 2 := by exact_mod_cast near
    omega

theorem cast_toRat_scaled (m e : Int) : ((scaled m e).toRat : ℝ) = m * 2 ^ e := by
  rw [toRat_scaled]
  push_cast
  rfl

/-- A value counted in an even power of two, under the root. -/
theorem sqrt_toRat (x : Dyadic) (k : Int) :
    √(x.toRat : ℝ) = √((x.toRat / 2 ^ (2 * k) : Rat) : ℝ) * 2 ^ k := by
  have unit : (0 : ℝ) < 2 ^ k := zpow_pos two_pos k
  have power : (2 : ℝ) ^ (2 * k) = (2 ^ k) ^ 2 := by
    rw [two_mul, zpow_add₀ two_ne_zero, sq]
  have parts : (x.toRat : ℝ) = ((x.toRat / 2 ^ (2 * k) : Rat) : ℝ) * (2 ^ k) ^ 2 := by
    push_cast
    rw [power, div_mul_cancel₀ _ (pow_pos unit 2).ne']
  nth_rewrite 1 [parts]
  rw [Real.sqrt_mul' _ (sq_nonneg _), Real.sqrt_sq unit.le]

/-- The root is taken of the leading bits in an even power of two, which are at least `2 p - 1`; a
value that has no more than `2 p` bits is counted whole. -/
theorem squareRoot_leading (positive : 0 < p) (mode : Rounding) (above : 0 < x.toRat) :
    ∃ (n : Nat) (k : Int) (size : Ordering),
      (n : Int) = x.truncAt (2 * k) ∧ (x.length ≤ 2 * p → 2 * k ≤ x.exponent) ∧
      p ≤ bitLength (integerSqrt n) ∧ bitLength (integerSqrt n) ≤ p + 1 ∧
      x.squareRoot mode p =
        (scaled (mode.round (integerSqrt n) (.ofRoot n size)) k).cut mode p := by
  have nonzero : x ≠ 0 := mt toRat_eq_zero_iff.mpr above.ne'
  obtain ⟨n, shift, size, leading, bits, aligned, equal⟩ := squareRoot_eq positive mode nonzero
  obtain ⟨least, most⟩ := bitLength_integerSqrt (n := n) (k := p) (by omega) (by omega)
  have unit : 2 * ((x.exponent - shift) / 2) = x.exponent - shift := by omega
  obtain ⟨m, numerator⟩ : ∃ m : Nat, x.significand = m := by
    have nonnegative := mt x.isNegative_iff.mp (not_lt.mpr above.le)
    have sign : ¬x.significand < 0 := fun negative => nonnegative (decide_eq_true negative)
    exact Int.eq_ofNat_of_zero_le (Int.not_lt.mp sign)
  refine ⟨n, (x.exponent - shift) / 2, size, ?_, fun short => by omega, least, most, equal⟩
  unfold truncAt
  rw [unit, sub_sub_cancel, sub_sub_cancel_left, leading, numerator, Int.natAbs_natCast]
  split
  · next up =>
    rw [show (-shift).toNat = 0 by omega, Int.pow_zero, Int.tdiv_one]
    push_cast
    rfl
  · next down =>
    rw [show shift.toNat = 0 by omega, Int.pow_zero, Int.mul_one]
    push_cast
    rfl

/-- The leading bits are the value in their unit up to less than one. -/
theorem leadingBits_bounds (above : 0 < x.toRat) {n : Nat} {u : Int}
    (leading : (n : Int) = x.truncAt u) :
    (n : ℝ) ≤ ((x.toRat / 2 ^ u : Rat) : ℝ) ∧ ((x.toRat / 2 ^ u : Rat) : ℝ) < n + 1 := by
  have chosen := truncAt_chooses x u
  rw [← leading] at chosen
  have counted : 0 < x.toRat / 2 ^ u := div_pos above (two_zpow_pos u)
  have side : |((n : Int) : Rat)| ≤ |x.toRat / 2 ^ u| := chosen.directs
  rw [Int.cast_natCast, Nat.abs_cast, abs_of_pos counted] at side
  have near := (abs_lt.mp chosen.near.1).1
  rw [Int.cast_natCast] at near
  have next : x.toRat / 2 ^ u < n + 1 := by linarith
  exact ⟨by exact_mod_cast side, by exact_mod_cast next⟩

/-- A root of `p` bits is rounded once. One that has a bit more is rounded to an even number, and
both roundings together move it by less than two. -/
theorem cut_root_near (positive : 0 < p) (mode : Rounding) {root : Nat} {m : Int}
    (either : m = root ∨ m = root + 1) (least : p ≤ bitLength root)
    (most : bitLength root ≤ p + 1) (k : Int) :
    ∃ c : Int, (scaled m k).cut mode p = scaled (c * 2 ^ (bitLength root - p)) k ∧
      |c * 2 ^ (bitLength root - p) - m| + 1 ≤ 2 ^ (bitLength root - p) := by
  have bound := lt_two_pow_bitLength root
  have grows : bitLength root ≤ bitLength m.natAbs := bitLength_mono (by omega)
  have counted : m ≠ 0 := by
    rintro rfl
    have none : bitLength (0 : Int).natAbs = 0 := rfl
    omega
  -- The unit of the cut is the one that its magnitude asks for.
  obtain ⟨c, equal, -⟩ := cut_roundedAt mode p (scaled m k)
  rw [magnitude_scaled counted, show (bitLength m.natAbs + k - p : Int) =
    k + (bitLength m.natAbs - p : Nat) by omega, ← scaled_mul_two_pow,
    show bitLength m.natAbs - p = (bitLength m.natAbs - bitLength root) + (bitLength root - p) by
      omega, Int.pow_add, ← Int.mul_assoc] at equal
  refine ⟨_, equal, ?_⟩
  generalize c * 2 ^ (bitLength m.natAbs - bitLength root) = c at equal
  rcases Nat.lt_or_ge p (bitLength root) with long | short
  · have double : bitLength root = p + 1 := by omega
    rw [double] at bound equal ⊢
    obtain ⟨n, cut, beside⟩ := cut_scaled_near positive mode (m := m) (by omega) k
    rw [equal, scaled_inj] at cut
    rw [cut, Nat.add_sub_cancel_left]
    omega
  · have single : bitLength root = p := by omega
    rw [single] at bound equal ⊢
    rw [cut_eq_self_iff.mpr (length_scaled_le_of_le positive (by omega) k), scaled_inj] at equal
    rw [← equal, sub_self, Nat.sub_self]
    decide

/-- **A square root is a count of units of which the exact root has at least `2 ^ (p - 1)`**, and it
is off by one of them at most, above the exact root by less. -/
theorem squareRoot_counts (positive : 0 < p) (mode : Rounding) (above : 0 < x.toRat) :
    ∃ c j : Int, x.squareRoot mode p = scaled c j ∧ (2 : ℝ) ^ (j + p - 1) ≤ √(x.toRat : ℝ) ∧
      √(x.toRat : ℝ) - 2 ^ j ≤ c * 2 ^ j ∧ c * 2 ^ j < √(x.toRat : ℝ) + 2 ^ j := by
  obtain ⟨n, k, size, leading, -, least, most, equal⟩ := squareRoot_leading positive mode above
  obtain ⟨lower, upper⟩ := leadingBits_bounds above leading
  have root := (integerSqrt_bounds lower upper).1
  obtain ⟨atLeast, atMost⟩ := round_ofRoot_near mode size lower upper
  have either := (mode.round_ofRoot n size).imp_right And.left
  obtain ⟨c, cut, close⟩ := cut_root_near positive mode either least most k
  have first : (2 : ℝ) ^ (bitLength (integerSqrt n) - 1) ≤ integerSqrt n := by
    have counted : integerSqrt n ≠ 0 := by
      intro zero
      rw [zero] at least
      exact absurd least (Nat.not_le.mpr positive)
    exact_mod_cast two_pow_pred_bitLength_le counted
  obtain ⟨i, bits⟩ : ∃ i : Nat, bitLength (integerSqrt n) = p + i :=
    ⟨bitLength (integerSqrt n) - p, by omega⟩
  rw [bits, Nat.add_sub_cancel_left] at cut close
  rw [bits] at first
  have unit : (0 : ℝ) < 2 ^ k := zpow_pos two_pos k
  have power : (2 : ℝ) ^ (k + i + p - 1) = 2 ^ (p + i - 1) * 2 ^ k := by
    rw [show k + i + p - 1 = (p + i - 1 : Nat) + k by omega, zpow_add₀ two_ne_zero, zpow_natCast]
  refine ⟨c, k + i, by rw [equal, cut, scaled_mul_two_pow], ?_, ?_⟩
  · rw [power, sqrt_toRat x k]
    exact mul_le_mul_of_nonneg_right (le_trans first root) unit.le
  · rw [zpow_add₀ two_ne_zero, zpow_natCast, sqrt_toRat x k]
    exact near_of_rounded_twice atLeast atMost close unit

/-- **A square root is off by its last bit at most**, in one rounding or in two. -/
theorem squareRoot_offBy (positive : 0 < p) (mode : Rounding) (above : 0 < x.toRat) :
    OffBy (lastBit p : ℝ) (√(x.toRat : ℝ)) (x.squareRoot mode p).toRat := by
  obtain ⟨c, j, equal, count, lower, upper⟩ := squareRoot_counts positive mode above
  have unit : (2 : ℝ) ^ j = lastBit p * 2 ^ (j + p - 1) := by
    unfold lastBit
    rw [Rat.cast_zpow, Rat.cast_ofNat, ← zpow_add₀ two_ne_zero,
      show (1 - p : Int) + (j + p - 1) = j by omega]
  have fraction : (0 : ℝ) ≤ lastBit p := by exact_mod_cast (lastBit_pos p).le
  have near : |(c : ℝ) * 2 ^ j - √(x.toRat : ℝ)| ≤ 2 ^ j := by
    rw [abs_le]
    constructor <;> linarith
  unfold OffBy
  rw [equal, cast_toRat_scaled, abs_of_nonneg (Real.sqrt_nonneg _)]
  calc |(c : ℝ) * 2 ^ j - √(x.toRat : ℝ)| ≤ lastBit p * 2 ^ (j + p - 1) := unit ▸ near
    _ ≤ lastBit p * √(x.toRat : ℝ) := mul_le_mul_of_nonneg_left count fraction

end Dyadic
