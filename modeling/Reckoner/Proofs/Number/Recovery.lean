/-
Finding a value again from its decimal digits.

A binary fraction with `k` places is written as an integer over `10 ^ k`, so it is read as a
quotient in which numerator and divisor have the factor `5 ^ k` in common. The numerator is rounded
before the division, and only an unrounded one gives the value back.

* `Dyadic.RecoverableAt` — whether the numerator of a value is read unrounded in `p` bits.
* `Dyadic.quotient_unit` — the unit of a quotient, by that of the rounded numerator.
* `Number.numeral` — all digits of a number as a numeral.
* `Number.toNumber_numeral` — **the numeral gives the value back exactly if it is recoverable**.
-/

import Reckoner.Proofs.Number.Exact
import Reckoner.Number.Decimal

namespace Dyadic

open Reckoner

/-- Whether all digits of a value, read in `p` bits, give the value back. A fraction with `k` places
has a factor `5 ^ k` in its numerator, and the divisor makes room for it. -/
def RecoverableAt (x : Dyadic) (p : Nat) : Prop :=
  let common := 5 ^ (-x.exponent).toNat
  if 0 ≤ x.exponent then x.length ≤ p
  else bitLength (x.significand.natAbs * common) ≤ bitLength common + p

instance (x : Dyadic) (p : Nat) : Decidable (x.RecoverableAt p) :=
  inferInstanceAs (Decidable (if 0 ≤ x.exponent then x.length ≤ p
    else bitLength (x.significand.natAbs * 5 ^ (-x.exponent).toNat) ≤
      bitLength (5 ^ (-x.exponent).toNat) + p))

/-- A value with at most `p` bits is recoverable. -/
theorem recoverableAt_of_length_le {x : Dyadic} {p : Nat} (short : x.length ≤ p) :
    x.RecoverableAt p := by
  unfold RecoverableAt
  split
  · exact short
  · have product := bitLength_mul_le x.significand.natAbs (5 ^ (-x.exponent).toNat)
    have bits : bitLength x.significand.natAbs ≤ p := short
    show bitLength _ ≤ bitLength _ + p
    omega

/-! ### The unit of a quotient -/

/-- A numerator is not longer than quotient and divisor together. -/
theorem length_le_quotient (a b : Int) (nonzero : b ≠ 0) :
    bitLength a.natAbs ≤ bitLength (a.tdiv b).natAbs + bitLength b.natAbs := by
  have positive : 0 < b.natAbs := Int.natAbs_pos.mpr nonzero
  have quotient : (a.tdiv b).natAbs = a.natAbs / b.natAbs := Int.natAbs_tdiv a b
  have next : a.natAbs < (a.natAbs / b.natAbs + 1) * b.natAbs :=
    Nat.lt_mul_of_div_lt (Nat.lt_succ_self _) positive
  have upper : (a.natAbs / b.natAbs + 1) * b.natAbs ≤
      2 ^ bitLength (a.natAbs / b.natAbs) * 2 ^ bitLength b.natAbs :=
    Nat.mul_le_mul (lt_two_pow_bitLength _) (Nat.le_of_lt (lt_two_pow_bitLength _))
  rw [quotient, bitLength_le_iff, Nat.pow_add]
  exact Nat.lt_of_lt_of_le next upper

/-- A quotient counts units of the last bit of the rounded numerator, made finer by as many bits as
that numerator is too short. -/
theorem quotient_unit (mode : Rounding) (p : Nat) (x y : Dyadic) (nonzero : y ≠ 0) :
    ∃ (n : Int) (shift : Nat), shift ≤ y.length + p - (x.cut mode (y.length + p)).length ∧
      x.quotient mode p y =
        scaled n ((x.cut mode (y.length + p)).exponent - y.exponent - shift) := by
  have divisor : y.significand ≠ 0 := significand_ne_zero nonzero
  unfold quotient
  generalize x.cut mode (y.length + p) = rounded
  simp only []
  split
  · exact ⟨_, 0, Nat.zero_le _, by rw [Int.natCast_zero, Int.sub_zero]⟩
  · refine ⟨_, _, ?_, rfl⟩
    have parts := length_le_quotient rounded.significand y.significand divisor
    split
    · next zero =>
      have whole : rounded.significand.tmod y.significand = rounded.significand := by
        have division := Int.mul_tdiv_add_tmod rounded.significand y.significand
        rw [zero, Int.mul_zero, Int.zero_add] at division
        exact division
      rw [whole]
      exact Nat.le_refl _
    · unfold length at *
      omega

/-! ### Quotients of exact numerals -/

theorem five_pow_odd (k : Nat) : (5 ^ k : Int) % 2 = 1 := by
  induction k with
  | zero => rfl
  | succ k ih =>
    rw [Int.pow_succ]
    omega

theorem scaled_power (k : Nat) :
    (scaled (10 ^ k) 0).significand = 5 ^ k ∧ (scaled (10 ^ k) 0).exponent = k := by
  have split : (10 ^ k : Int) = 5 ^ k * 2 ^ k := by
    rw [← Int.mul_pow]
    rfl
  rw [split, scaled_mul_two_pow, Int.zero_add]
  exact scaled_odd (five_pow_odd k) k

theorem scaled_power_ne_zero (k : Nat) : scaled (10 ^ k) 0 ≠ 0 :=
  mt scaled_eq_zero_iff.mp (Int.ne_of_gt (Int.pow_pos (by decide)))

theorem length_scaled_power (k : Nat) : (scaled (10 ^ k) 0).length = bitLength (5 ^ k) := by
  have power : (5 ^ k : Int).natAbs = 5 ^ k := Int.natAbs_pow 5 k
  unfold length
  rw [(scaled_power k).1, power]

theorem scaled_numerator {x : Dyadic} (nonzero : x ≠ 0) (k : Nat) :
    (scaled (x.significand * 5 ^ k) 0).significand = x.significand * 5 ^ k ∧
      (scaled (x.significand * 5 ^ k) 0).exponent = 0 := by
  refine scaled_odd ?_ 0
  rw [Int.mul_emod, significand_odd nonzero, five_pow_odd]
  rfl

theorem length_scaled_numerator {x : Dyadic} (nonzero : x ≠ 0) (k : Nat) :
    (scaled (x.significand * 5 ^ k) 0).length = bitLength (x.significand.natAbs * 5 ^ k) := by
  have power : (5 ^ k : Int).natAbs = 5 ^ k := Int.natAbs_pow 5 k
  unfold length
  rw [(scaled_numerator nonzero k).1, Int.natAbs_mul, power]

/-- A numerator that is divided unrounded gives the value back. -/
theorem quotient_of_short {x : Dyadic} (nonzero : x ≠ 0) {k p : Nat}
    (fraction : x.exponent = -(k : Int))
    (short : bitLength (x.significand.natAbs * 5 ^ k) ≤ bitLength (5 ^ k) + p)
    (mode : Rounding) :
    (scaled (x.significand * 5 ^ k) 0).quotient mode p (scaled (10 ^ k) 0) = x := by
  have divisor := scaled_power_ne_zero k
  have product : x * scaled (10 ^ k) 0 = scaled (x.significand * 5 ^ k) 0 := by
    obtain ⟨significand, exponent⟩ := mul_parts nonzero divisor
    rw [← scaled_self (x * _), significand, exponent, (scaled_power k).1, (scaled_power k).2,
      fraction, Int.add_left_neg]
  rw [← product]
  refine quotient_mul divisor ?_
  rw [product, length_scaled_numerator nonzero, length_scaled_power]
  exact short

/-- A numerator that is rounded before it is divided gives another value. -/
theorem quotient_of_long {x : Dyadic} (nonzero : x ≠ 0) {k p : Nat}
    (fraction : x.exponent = -(k : Int))
    (long : bitLength (5 ^ k) + p < bitLength (x.significand.natAbs * 5 ^ k))
    (mode : Rounding) :
    (scaled (x.significand * 5 ^ k) 0).quotient mode p (scaled (10 ^ k) 0) ≠ x := by
  have divisor := scaled_power_ne_zero k
  obtain ⟨n, shift, bound, quotient⟩ :=
    quotient_unit mode p (scaled (x.significand * 5 ^ k) 0) (scaled (10 ^ k) 0) divisor
  have room : 0 < bitLength (5 ^ k) := bitLength_pos (Nat.pow_pos (by decide))
  rw [length_scaled_power] at bound quotient
  -- The rounded numerator ends at least as many bits above the unit as it is too short.
  have numerator : bitLength (5 ^ k) + p < (scaled (x.significand * 5 ^ k) 0).length := by
    rw [length_scaled_numerator nonzero]
    exact long
  obtain ⟨unit, size⟩ := cut_of_lt numerator (Nat.add_pos_left room p) mode
  rw [(scaled_numerator nonzero k).2] at unit
  unfold magnitude at size
  rw [(scaled_numerator nonzero k).2] at size
  rw [quotient, (scaled_power k).2]
  refine scaled_ne nonzero ?_ n
  omega

end Dyadic

namespace Reckoner.Number

/-! ### Exact numerals -/

/-- All digits of a number. -/
def numeral (x : Number) : Numeral :=
  let places := (-x.value.exponent).toNat
  let mantissa := x.value.significand * 2 ^ x.value.exponent.toNat * 5 ^ places
  { mantissa
    exponent := -places
    digits := (naturalDigits mantissa.natAbs).length }

/-- **All digits of a number give the number back exactly if it is recoverable.** -/
theorem toNumber_numeral (x : Number) (ctx : Context) :
    (x.numeral.toNumber ctx).value = x.value ↔ x.value.RecoverableAt ctx.bits := by
  unfold Dyadic.RecoverableAt Numeral.toNumber numeral
  by_cases integer : 0 ≤ x.value.exponent
  · have places : (-x.value.exponent).toNat = 0 := by omega
    have value : Dyadic.scaled (x.value.significand * 2 ^ x.value.exponent.toNat) 0 = x.value := by
      rw [Dyadic.scaled_mul_two_pow, Int.zero_add, Int.toNat_of_nonneg integer,
        Dyadic.scaled_self]
    simp only [places, if_pos integer, Int.natCast_zero, Int.neg_zero, Int.natAbs_zero,
      Int.pow_zero, Int.mul_one, Int.le_refl, if_true, value]
    exact Dyadic.cut_eq_self_iff
  · obtain ⟨k, fraction⟩ : ∃ k : Nat, x.value.exponent = -(k : Int) :=
      ⟨(-x.value.exponent).toNat, by omega⟩
    have nonzero : x.value ≠ 0 := Dyadic.ne_zero_of_exponent (Int.not_le.mp integer)
    have places : (-x.value.exponent).toNat = k := by omega
    have whole : x.value.exponent.toNat = 0 := by omega
    have negative : ¬(0 : Int) ≤ -(k : Int) := by omega
    have power : (-(k : Int)).natAbs = k := by omega
    simp only [places, whole, if_neg integer, if_neg negative, power, Int.pow_zero, Int.mul_one]
    constructor
    · intro same
      refine Nat.not_lt.mp fun long => ?_
      exact Dyadic.quotient_of_long nonzero fraction long ctx.rounding same
    · intro short
      exact Dyadic.quotient_of_short nonzero fraction short ctx.rounding

end Reckoner.Number
