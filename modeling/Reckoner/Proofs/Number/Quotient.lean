/-
Relative errors, and how far a product or a quotient is off.

* `OffBy` — a result is off an exact value by at most a fraction of it; `OffBy.trans`, `OffBy.mul` —
  fractions through two steps, and through a product.
* `lastBit`, `slack` — the fraction of a last bit, and the one that all roundings of an operation
  keep below two of them.
* `RoundedAt.offBy` — a value that counts at least `2 ^ (p - 1)` units is off by a last bit at most,
  and to nearest by half of that.
* `Dyadic.cut_offBy`, `Dyadic.product_offBy` — rounding to `p` bits, and the product.
* `Dyadic.quotient_roundedAt` — **a quotient of the dividend that was cut is rounded at a unit which
  it counts at least `2 ^ (p - 1)` times**, through each of its shifts.
* `Dyadic.quotient_offBy`, `Dyadic.quotient_directs` — the quotient with both of its roundings.
-/

import Reckoner.Proofs.Number.Unit
import Mathlib.Tactic.LinearCombination

namespace Reckoner

/-! ### Relative errors -/

section Relative

variable {K : Type} [Field K] [LinearOrder K] [IsStrictOrderedRing K] {δ ε a b c d : K}

/-- A result is off an exact value by at most a fraction of it. -/
def OffBy (fraction exact result : K) : Prop := |result - exact| ≤ fraction * |exact|

/-- The fraction that two steps are off together. -/
def compound (δ ε : K) : K := δ + ε + δ * ε

namespace OffBy

theorem mono (off : OffBy δ a b) (le : δ ≤ ε) : OffBy ε a b :=
  le_trans off (mul_le_mul_of_nonneg_right le (abs_nonneg a))

theorem refl (nonnegative : 0 ≤ δ) (a : K) : OffBy δ a a := by
  unfold OffBy
  rw [sub_self, abs_zero]
  exact mul_nonneg nonnegative (abs_nonneg a)

/-- A result that is off a value that is not below zero lies between two multiples of it. -/
theorem between (off : OffBy δ a b) (nonnegative : 0 ≤ a) : (1 - δ) * a ≤ b ∧ b ≤ (1 + δ) * a := by
  unfold OffBy at off
  rw [abs_of_nonneg nonnegative] at off
  obtain ⟨below, above⟩ := abs_le.mp off
  exact ⟨by linarith, by linarith⟩

/-- A result that is off something that is off itself. -/
theorem trans (first : OffBy δ a b) (second : OffBy ε b c) (nonnegative : 0 ≤ ε) :
    OffBy (compound δ ε) a c := by
  have size : |b| ≤ (1 + δ) * |a| := by
    have triangle := abs_sub_abs_le_abs_sub b a
    unfold OffBy at first
    linarith
  unfold compound
  calc |c - a| ≤ |c - b| + |b - a| := abs_sub_le c b a
    _ ≤ ε * |b| + δ * |a| := add_le_add second first
    _ ≤ ε * ((1 + δ) * |a|) + δ * |a| := by
      linarith [mul_le_mul_of_nonneg_left size nonnegative]
    _ = (δ + ε + δ * ε) * |a| := by ring

theorem mul_right (off : OffBy δ a b) (c : K) : OffBy δ (a * c) (b * c) := by
  unfold OffBy at off ⊢
  rw [← sub_mul, abs_mul, abs_mul, ← mul_assoc]
  exact mul_le_mul_of_nonneg_right off (abs_nonneg c)

theorem div_right (off : OffBy δ a b) (c : K) : OffBy δ (a / c) (b / c) := by
  rw [div_eq_mul_inv, div_eq_mul_inv]
  exact off.mul_right c⁻¹

/-- A product whose factors are off. -/
theorem mul (first : OffBy δ a b) (second : OffBy ε c d) (nonnegative : 0 ≤ ε) :
    OffBy (compound δ ε) (a * c) (b * d) := by
  refine (first.mul_right c).trans ?_ nonnegative
  rw [mul_comm b c, mul_comm b d]
  exact second.mul_right b

end OffBy

end Relative

/-! ### Units of values with `p` bits -/

/-- The fraction that the last unit is of the least value with `p` bits. -/
def lastBit (p : Nat) : Rat := 2 ^ (1 - p : Int)

theorem lastBit_pos (p : Nat) : 0 < lastBit p := two_zpow_pos _

theorem lastBit_le_of_le {p q : Nat} (le : p ≤ q) : lastBit q ≤ lastBit p :=
  zpow_le_zpow_right₀ one_le_two (by omega)

theorem two_mul_lastBit_succ (p : Nat) : 2 * lastBit (p + 1) = lastBit p := by
  unfold lastBit
  rw [show (1 - p : Int) = 1 + (1 - (p + 1 : Nat)) by omega, Rat.zpow_add (by decide)]
  rfl

theorem lastBit_le_half {p : Nat} (two_le : 2 ≤ p) : lastBit p ≤ 1 / 2 :=
  le_trans (lastBit_le_of_le two_le) (by decide +kernel)

theorem two_mul_lastBit (p : Nat) : 2 * lastBit p = 2 ^ (2 - p : Int) := by
  unfold lastBit
  rw [show (2 - p : Int) = 1 + (1 - p) by omega, Rat.zpow_add (by decide)]
  rfl

theorem two_mul_lastBit_double (p : Nat) : 2 * lastBit (2 * p) = lastBit p * lastBit p := by
  unfold lastBit
  rw [← Rat.zpow_add (by decide),
    show (1 - p : Int) + (1 - p) = 1 + (1 - (2 * p : Nat)) by omega, Rat.zpow_add (by decide)]
  rfl

/-- The last bit of the least value with `k` bits is one. -/
theorem lastBit_mul_pow {k : Nat} (positive : 0 < k) : lastBit k * 2 ^ (k - 1) = 1 := by
  unfold lastBit
  rw [← zpow_natCast, ← Rat.zpow_add (by decide), show (1 - k : Int) + (k - 1 : Nat) = 0 by omega,
    Rat.zpow_zero]

theorem unit_le_lastBit_mul {u : Int} {p : Nat} {size : Rat} (count : 2 ^ (u + p - 1) ≤ size) :
    2 ^ u ≤ lastBit p * size := by
  have parts : (2 : Rat) ^ u = 2 ^ (1 - p : Int) * 2 ^ (u + p - 1) := by
    rw [← Rat.zpow_add (by decide), show (1 - p : Int) + (u + p - 1) = u by omega]
  rw [parts]
  exact mul_le_mul_of_nonneg_left count (two_zpow_pos _).le

/-- The fraction that a product, a quotient or a root is off at most, with all of its roundings. It
is less than two last bits. -/
def slack (p : Nat) : Rat := 15 / 8 * lastBit p

theorem slack_nonneg (p : Nat) : 0 ≤ slack p :=
  mul_nonneg (by decide +kernel) (lastBit_pos p).le

theorem slack_le_two_mul_lastBit (p : Nat) : slack p ≤ 2 * lastBit p :=
  mul_le_mul_of_nonneg_right (by decide +kernel) (lastBit_pos p).le

theorem lastBit_le_slack (p : Nat) : lastBit p ≤ slack p :=
  le_mul_of_one_le_left (lastBit_pos p).le (by decide +kernel)

section Slack

variable {p : Nat} (two_le : 2 ≤ p)

include two_le

theorem slack_le : slack p ≤ 15 / 16 := by
  have half := lastBit_le_half two_le
  unfold slack
  linarith

/-- Half a last bit and a last bit. -/
theorem compound_le_slack : compound (lastBit (p + 1)) (lastBit p) ≤ slack p := by
  have small := lastBit_le_half two_le
  have positive := lastBit_pos p
  have halves := two_mul_lastBit_succ p
  have product : lastBit (p + 1) * lastBit p ≤ 1 / 4 * lastBit p :=
    mul_le_mul_of_nonneg_right (by linarith) positive.le
  unfold compound slack
  linarith

/-- Two last bits of twice the precision and a last bit. -/
theorem compound_double_le_slack :
    compound (compound (lastBit (2 * p)) (lastBit (2 * p))) (lastBit p) ≤ slack p := by
  have small := lastBit_le_half two_le
  have positive := lastBit_pos p
  have positive' := lastBit_pos (2 * p)
  have double := two_mul_lastBit_double p
  have square : lastBit p * lastBit p ≤ 1 / 2 * lastBit p :=
    mul_le_mul_of_nonneg_right small positive.le
  have tiny : lastBit (2 * p) * lastBit (2 * p) ≤ 1 / 8 * lastBit (2 * p) :=
    mul_le_mul_of_nonneg_right (by linarith) positive'.le
  have factors : compound (lastBit (2 * p)) (lastBit (2 * p)) ≤ 17 / 32 * lastBit p := by
    unfold compound
    linarith
  have product : compound (lastBit (2 * p)) (lastBit (2 * p)) * lastBit p ≤
      17 / 64 * lastBit p := mul_le_mul_of_nonneg_right (by linarith) positive.le
  rw [compound]
  unfold slack
  linarith

end Slack

theorem two_pow_pred_bitLength_le {n : Nat} (nonzero : n ≠ 0) : 2 ^ (bitLength n - 1) ≤ n := by
  have some := bitLength_pos (Nat.pos_of_ne_zero nonzero)
  refine Nat.not_lt.mp fun small => ?_
  have shorter := bitLength_le_iff.mpr small
  omega

namespace Rounding.RoundedAt

variable {mode : Rounding} {u : Int} {p : Nat} {exact : Rat} {result : Dyadic}
  (rounded : mode.RoundedAt u exact result) (count : 2 ^ (u + p - 1) ≤ |exact|)

include rounded count

/-- **A value that counts at least `2 ^ (p - 1)` units is off by one of them at most.** -/
theorem offBy : OffBy (lastBit p) exact result.toRat :=
  le_trans rounded.near.1.le (unit_le_lastBit_mul count)

/-- To nearest it is off by half of that. -/
theorem offBy_nearest (nearest : mode = .nearest) :
    OffBy (lastBit (p + 1)) exact result.toRat := by
  have half := le_trans (rounded.near.2 nearest) (unit_le_lastBit_mul count)
  rw [← two_mul_lastBit_succ] at half
  unfold OffBy
  linarith

end Rounding.RoundedAt

end Reckoner

namespace Dyadic

open Reckoner

variable {x y : Dyadic} {p : Nat} {mode : Rounding}

/-! ### Cutting and products -/

/-- **Rounding to `p` bits is off by the last of them at most.** -/
theorem cut_offBy (mode : Rounding) (p : Nat) (x : Dyadic) :
    OffBy (lastBit p) x.toRat (x.cut mode p).toRat := by
  by_cases zero : x = 0
  · rw [zero, zero_cut]
    exact .refl (lastBit_pos p).le _
  · refine (cut_roundedAt mode p x).offBy ?_
    rw [sub_add_cancel]
    exact le_abs_toRat zero

/-- To nearest it is off by half of that bit at most. -/
theorem cut_offBy_nearest (p : Nat) (x : Dyadic) :
    OffBy (lastBit (p + 1)) x.toRat (x.cut .nearest p).toRat := by
  by_cases zero : x = 0
  · rw [zero, zero_cut]
    exact .refl (lastBit_pos _).le _
  · refine (cut_roundedAt .nearest p x).offBy_nearest ?_ rfl
    rw [sub_add_cancel]
    exact le_abs_toRat zero

/-- **A product is off by less than two last bits**, though long operands are cut to twice the
precision before they are multiplied. -/
theorem product_offBy (two_le : 2 ≤ p) (mode : Rounding) (x y : Dyadic) :
    OffBy (slack p) (x.toRat * y.toRat) (x.product mode p y).toRat := by
  have factors := (cut_offBy mode (2 * p) x).mul (cut_offBy mode (2 * p) y) (lastBit_pos _).le
  rw [← toRat_mul (x.cut mode (2 * p))] at factors
  exact (factors.trans (cut_offBy mode p _) (lastBit_pos p).le).mono
    (compound_double_le_slack two_le)

/-! ### Quotients -/

/-- The quotient and the remainder of a numerator that is shifted after its first division. -/
theorem shifted_quotient (a b : Int) (j : Nat) :
    a * 2 ^ j = (a.tdiv b * 2 ^ j + (a.tmod b * 2 ^ j).tdiv b) * b + (a.tmod b * 2 ^ j).tmod b := by
  have first := Int.mul_tdiv_add_tmod a b
  have second := Int.mul_tdiv_add_tmod (a.tmod b * 2 ^ j) b
  calc a * 2 ^ j = (b * a.tdiv b + a.tmod b) * 2 ^ j := by rw [first]
    _ = b * a.tdiv b * 2 ^ j + a.tmod b * 2 ^ j := by ring
    _ = b * a.tdiv b * 2 ^ j + (b * (a.tmod b * 2 ^ j).tdiv b + (a.tmod b * 2 ^ j).tmod b) := by
      rw [second]
    _ = _ := by ring

/-- A quotient after a shift, and what it leaves out, over the size of the divisor. -/
theorem shifted_quotient_chooses (mode : Rounding) {a b : Int} (nonzero : b ≠ 0) (j : Nat) :
    mode.Chooses (a / b * 2 ^ j : Rat)
      (mode.round (a.tdiv b * 2 ^ j + (a.tmod b * 2 ^ j).tdiv b)
        (.ofRatio ((a.tmod b * 2 ^ j).tmod b * b.sign) b.natAbs)) := by
  have size : 0 < b.natAbs := Int.natAbs_pos.mpr nonzero
  have small : ((a.tmod b * 2 ^ j).tmod b * b.sign).natAbs < b.natAbs := by
    rw [Int.natAbs_mul, Int.natAbs_sign_of_ne_zero nonzero, Nat.mul_one, Int.natAbs_tmod]
    exact Nat.mod_lt _ size
  have difference : (a / b * 2 ^ j : Rat) -
      ((a.tdiv b * 2 ^ j + (a.tmod b * 2 ^ j).tdiv b : Int) : Rat) =
        (((a.tmod b * 2 ^ j).tmod b * b.sign : Int) : Rat) / (b.natAbs : Nat) := by
    have parts := congrArg (Int.cast (R := Rat)) (shifted_quotient a b j)
    have signed : ((b.natAbs : Nat) : Rat) = b * b.sign := by
      rw [← Int.cast_natCast, ← Int.mul_sign_self, Int.cast_mul]
    have divisor : (b : Rat) ≠ 0 := Int.cast_ne_zero.mpr nonzero
    rw [eq_div_iff (Nat.cast_ne_zero.mpr size.ne'), signed]
    push_cast at parts ⊢
    field_simp
    linear_combination (b.sign : Rat) * parts
  refine Rounding.chooses_round mode ?_
  rw [difference]
  exact Rest.leftOut_ofRatio small

/-- A numerator that is shifted as a quotient asks for counts the divisor often enough. -/
theorem shifted_count {a b : Int} (nonzero : a ≠ 0) {p : Nat} (positive : 0 < p) :
    2 ^ (p - 1) * b.natAbs ≤ a.natAbs * 2 ^ (if a.tdiv b = 0
      then bitLength b.natAbs + p - bitLength (a.tmod b).natAbs
      else p - bitLength (a.tdiv b).natAbs) := by
  have divisor : b.natAbs ≤ 2 ^ bitLength b.natAbs := (lt_two_pow_bitLength _).le
  split
  · next zero =>
    -- The remainder is the numerator, and the divisor has the length that it is brought up to.
    have whole : a.tmod b = a := by
      rw [Int.tmod_def, zero, Int.mul_zero, Int.sub_zero]
    have some := bitLength_pos (Int.natAbs_pos.mpr nonzero)
    rw [whole]
    calc 2 ^ (p - 1) * b.natAbs ≤ 2 ^ (p - 1) * 2 ^ bitLength b.natAbs :=
          Nat.mul_le_mul_left _ divisor
      _ = 2 ^ (p - 1 + bitLength b.natAbs) := (Nat.pow_add _ _ _).symm
      _ ≤ 2 ^ (bitLength a.natAbs - 1 + (bitLength b.natAbs + p - bitLength a.natAbs)) :=
          Nat.pow_le_pow_right Nat.two_pos (by omega)
      _ = 2 ^ (bitLength a.natAbs - 1) * 2 ^ (bitLength b.natAbs + p - bitLength a.natAbs) :=
          Nat.pow_add _ _ _
      _ ≤ _ := Nat.mul_le_mul_right _ (two_pow_pred_bitLength_le (Int.natAbs_ne_zero.mpr nonzero))
  · next some =>
    have counted := Int.natAbs_ne_zero.mpr some
    have positive := bitLength_pos (Int.natAbs_pos.mpr some)
    have product : (a.tdiv b).natAbs * b.natAbs ≤ a.natAbs := by
      rw [Int.natAbs_tdiv]
      exact Nat.div_mul_le_self _ _
    calc 2 ^ (p - 1) * b.natAbs
        ≤ 2 ^ (bitLength (a.tdiv b).natAbs - 1 + (p - bitLength (a.tdiv b).natAbs)) * b.natAbs :=
          Nat.mul_le_mul_right _ (Nat.pow_le_pow_right Nat.two_pos (by omega))
      _ = 2 ^ (bitLength (a.tdiv b).natAbs - 1) * b.natAbs *
          2 ^ (p - bitLength (a.tdiv b).natAbs) := by
          rw [Nat.pow_add, Nat.mul_right_comm]
      _ ≤ (a.tdiv b).natAbs * b.natAbs * 2 ^ (p - bitLength (a.tdiv b).natAbs) :=
          Nat.mul_le_mul_right _ (Nat.mul_le_mul_right _ (two_pow_pred_bitLength_le counted))
      _ ≤ _ := Nat.mul_le_mul_right _ product

/-- The quotient of two values in units. -/
theorem toRat_div_toRat (x y : Dyadic) :
    x.toRat / y.toRat = (x.significand / y.significand : Rat) * 2 ^ (x.exponent - y.exponent) := by
  rw [toRat_eq x, toRat_eq y, zpow_sub₀ two_ne_zero, div_mul_div_comm]

/-- **A quotient of the dividend that was cut is rounded at a unit which it counts at least
`2 ^ (p - 1)` times.** -/
theorem quotient_roundedAt (positive : 0 < p) (mode : Rounding) (nonzero : x ≠ 0)
    (nonzero' : y ≠ 0) :
    ∃ u, mode.RoundedAt u ((x.cut mode (y.length + p)).toRat / y.toRat) (x.quotient mode p y) ∧
      2 ^ (u + p - 1) ≤ |(x.cut mode (y.length + p)).toRat / y.toRat| := by
  have dividend : x.cut mode (y.length + p) ≠ 0 := mt (cut_eq_zero_iff (by omega)).mp nonzero
  unfold quotient
  generalize x.cut mode (y.length + p) = x' at dividend
  have counted := significand_ne_zero dividend
  have divisor := significand_ne_zero nonzero'
  have divisor' : (y.significand : Rat) ≠ 0 := Int.cast_ne_zero.mpr divisor
  simp only []
  split
  · next whole =>
    -- An exact quotient is kept whole, so a finer unit may be needed to count it.
    have value : x'.toRat / y.toRat = (scaled (x'.significand.tdiv y.significand)
        (x'.exponent - y.exponent)).toRat := by
      have parts := congrArg (Int.cast (R := Rat))
        (Int.mul_tdiv_add_tmod x'.significand y.significand)
      rw [whole, Int.add_zero, Int.cast_mul] at parts
      rw [toRat_div_toRat, toRat_scaled, ← parts, mul_div_cancel_left₀ _ divisor']
    generalize scaled (x'.significand.tdiv y.significand) (x'.exponent - y.exponent) = z at value
    have some : z ≠ 0 := by
      rintro rfl
      rw [toRat_zero] at value
      exact div_ne_zero (mt toRat_eq_zero_iff.mp dividend) (mt toRat_eq_zero_iff.mp nonzero') value
    rw [value]
    refine ⟨min z.exponent (z.magnitude - p), roundedAt_self (Int.min_le_left _ _), ?_⟩
    exact le_trans (zpow_le_zpow_right₀ one_le_two (by omega)) (le_abs_toRat some)
  · have count := shifted_count (b := y.significand) counted positive
    have length : y.length = bitLength y.significand.natAbs := rfl
    rw [length]
    generalize (if x'.significand.tdiv y.significand = 0 then _ else _ : Nat) = j at count ⊢
    refine ⟨_, ⟨_, rfl, ?_⟩, ?_⟩
    · have exact : x'.toRat / y.toRat / 2 ^ (x'.exponent - y.exponent - j) =
          (x'.significand / y.significand : Rat) * 2 ^ j := by
        rw [toRat_div_toRat, mul_div_assoc, ← zpow_sub₀ two_ne_zero, sub_sub_cancel, zpow_natCast]
      rw [exact]
      exact shifted_quotient_chooses mode divisor j
    · have count' : (2 ^ (p - 1) : Rat) * |(y.significand : Rat)| ≤
          |(x'.significand : Rat)| * 2 ^ j := by
        have cast := (Nat.cast_le (α := Rat)).mpr count
        push_cast [Nat.cast_natAbs] at cast
        exact cast
      have parts : (2 : Rat) ^ (x'.exponent - y.exponent - j + p - 1) =
          2 ^ (p - 1) / 2 ^ j * 2 ^ (x'.exponent - y.exponent) := by
        rw [← zpow_natCast, ← zpow_natCast, ← zpow_sub₀ two_ne_zero, ← zpow_add₀ two_ne_zero]
        congr 1
        omega
      rw [toRat_div_toRat, abs_mul, abs_of_pos (two_zpow_pos _), abs_div, parts]
      refine mul_le_mul_of_nonneg_right ?_ (two_zpow_pos _).le
      rw [div_le_div_iff₀ (Rat.pow_pos (by decide)) (abs_pos.mpr divisor')]
      exact count'

theorem zero_quotient (nonzero : y ≠ 0) (mode : Rounding) (p : Nat) :
    (0 : Dyadic).quotient mode p y = 0 := by
  have product : (0 * y).quotient mode p y = 0 := by
    refine quotient_mul nonzero ?_
    rw [Dyadic.zero_mul]
    exact Nat.zero_le _
  rwa [Dyadic.zero_mul] at product

theorem length_pos (nonzero : x ≠ 0) : 0 < x.length :=
  bitLength_pos (Int.natAbs_pos.mpr (significand_ne_zero nonzero))

/-- **A quotient is off by less than two last bits**, though a long dividend is cut before it is
divided. -/
theorem quotient_offBy (two_le : 2 ≤ p) (mode : Rounding) (x : Dyadic) (nonzero : y ≠ 0) :
    OffBy (slack p) (x.toRat / y.toRat) (x.quotient mode p y).toRat := by
  by_cases zero : x = 0
  · rw [zero, zero_quotient nonzero, toRat_zero, zero_div]
    exact .refl (slack_nonneg p) _
  · have positive : 0 < p := by omega
    obtain ⟨u, rounded, count⟩ := quotient_roundedAt positive mode zero nonzero
    have some := length_pos nonzero
    have shorter : lastBit (y.length + p) ≤ lastBit (p + 1) := lastBit_le_of_le (by omega)
    have dividend := ((cut_offBy mode (y.length + p) x).div_right y.toRat).mono shorter
    exact (dividend.trans (rounded.offBy count) (lastBit_pos p).le).mono (compound_le_slack two_le)

/-- A quotient to nearest of a dividend that is not cut is off by half of its last bit at most. -/
theorem quotient_offBy_nearest (positive : 0 < p) (short : x.length ≤ y.length + p)
    (nonzero : y ≠ 0) :
    OffBy (lastBit (p + 1)) (x.toRat / y.toRat) (x.quotient .nearest p y).toRat := by
  by_cases zero : x = 0
  · rw [zero, zero_quotient nonzero, toRat_zero, zero_div]
    exact .refl (lastBit_pos _).le _
  · obtain ⟨u, rounded, count⟩ := quotient_roundedAt positive .nearest zero nonzero
    rw [cut_eq_self_iff.mpr short] at rounded count
    exact rounded.offBy_nearest count rfl

/-- A quotient lies on the side of its direction, seen from that of the dividend that was cut. -/
theorem quotient_directs_of_cut (positive : 0 < p) (mode : Rounding) (nonzero : y ≠ 0) :
    mode.Directs ((x.cut mode (y.length + p)).toRat / y.toRat) (x.quotient mode p y).toRat := by
  by_cases zero : x = 0
  · rw [zero, zero_quotient nonzero, zero_cut, toRat_zero, zero_div]
    exact .refl mode 0
  · obtain ⟨u, rounded, -⟩ := quotient_roundedAt positive mode zero nonzero
    exact rounded.directs

/-- **A quotient by a divisor above zero lies on the side of its direction**, for the dividend is
cut to that side too. -/
theorem quotient_directs (positive : 0 < p) (mode : Rounding) (above : 0 < y.toRat) :
    mode.Directs (x.toRat / y.toRat) (x.quotient mode p y).toRat := by
  have nonzero : y ≠ 0 := mt toRat_eq_zero_iff.mpr above.ne'
  have divided := (cut_roundedAt mode (y.length + p) x).directs.mul_pos (inv_pos.mpr above)
  rw [← div_eq_mul_inv, ← div_eq_mul_inv] at divided
  exact divided.trans (quotient_directs_of_cut positive mode nonzero)

end Dyadic
