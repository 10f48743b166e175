/-
Remainders of operands that fit into the precision.

The operands are counted in the smaller of their two units, so the quotient may have as many bits as
their exponents are apart. The remainder never has: in the unit of the dividend it is no larger than
the dividend, and in the unit of the divisor it is smaller than the divisor.

* `TruncatedDivision` — what is left of a dividend by the quotient rounded toward zero.
* `Dyadic.remainder_division` — the remainder is what is left, for operands of any length.
* `Dyadic.length_remainder_le` — **the remainder is no longer than the longer operand**, however
  far apart they are.
* `Number.rem_division` — **a remainder is exact in every direction**, or an overflow if the
  exponents are too far apart.
-/

import Reckoner.Proofs.Number.Unit
import Mathlib.Data.Sign.Basic

namespace Reckoner

/-- What is left of a dividend by the quotient that is rounded toward zero. -/
structure TruncatedDivision (dividend divisor remainder : Rat) : Prop where
  quotient : ∃ q : Int, Rounding.towardZero.Chooses (dividend / divisor) q ∧
    remainder = dividend - q * divisor
  less : |remainder| < |divisor|
  sign : remainder = 0 ∨ SignType.sign remainder = SignType.sign dividend

/-- A remainder of integers is zero or has the sign of the dividend. -/
theorem sign_tmod (a b : Int) :
    a.tmod b = 0 ∨ SignType.sign (a.tmod b : Rat) = SignType.sign (a : Rat) := by
  rcases lt_trichotomy a 0 with negative | zero | positive
  · have opposite := Int.tmod_nonneg b (a := -a) (by omega)
    rw [Int.neg_tmod] at opposite
    rcases (show a.tmod b ≤ 0 by omega).lt_or_eq with below | none
    · exact .inr ((sign_neg (Int.cast_lt_zero.mpr below)).trans
        (sign_neg (Int.cast_lt_zero.mpr negative)).symm)
    · exact .inl none
  · rw [zero, Int.zero_tmod]
    exact .inl rfl
  · rcases (Int.tmod_nonneg b positive.le).lt_or_eq with above | none
    · exact .inr ((sign_pos (Int.cast_pos.mpr above)).trans
        (sign_pos (Int.cast_pos.mpr positive)).symm)
    · exact .inl none.symm

end Reckoner

namespace Dyadic

open Reckoner

variable {x y : Dyadic} {p : Nat}

theorem sign_toRat_scaled (m e : Int) :
    SignType.sign (scaled m e).toRat = SignType.sign (m : Rat) := by
  rw [toRat_scaled, sign_mul, sign_pos (two_zpow_pos e)]
  cases SignType.sign (m : Rat) <;> rfl

/-- **The remainder is what the quotient toward zero leaves**, for operands of any length. -/
theorem remainder_division (nonzero : y ≠ 0) :
    TruncatedDivision x.toRat y.toRat (x.remainder y).toRat := by
  have divisor : y.toRat ≠ 0 := mt toRat_eq_zero_iff.mp nonzero
  have chosen : Rounding.towardZero.Chooses (x.toRat / y.toRat)
      ((x.toRat / y.toRat).num.tdiv (x.toRat / y.toRat).den) := by
    have fraction := Rounding.chooses_tdiv (x.toRat / y.toRat).num (x.toRat / y.toRat).den_pos
    rwa [Rat.num_div_den] at fraction
  have left : (x.remainder y).toRat = x.toRat -
      ((x.toRat / y.toRat).num.tdiv (x.toRat / y.toRat).den : Int) * y.toRat := by
    rw [toRat_remainder nonzero, truncatedRemainder, Rat.mul_comm y.toRat]
  refine ⟨⟨_, chosen, left⟩, ?_, ?_⟩
  · -- The quotient is less than one away, which is the divisor for the remainder.
    generalize ((x.toRat / y.toRat).num.tdiv (x.toRat / y.toRat).den) = q at chosen left
    have near := chosen.near.1
    have distance : |(x.remainder y).toRat| = |(q : Rat) - x.toRat / y.toRat| * |y.toRat| := by
      rw [left, ← abs_mul, sub_mul, div_mul_cancel₀ _ divisor, abs_sub_comm]
    rw [distance]
    exact mul_lt_of_lt_one_left (abs_pos.mpr divisor) near
  · obtain ⟨a, b, first, -, remainder⟩ := exists_scaled x y
    generalize min x.exponent y.exponent = e at first remainder
    rw [remainder, first, sign_toRat_scaled, sign_toRat_scaled, toRat_eq_zero_iff,
      scaled_eq_zero_iff]
    exact sign_tmod a b

/-- **The remainder is no longer than the longer operand**, however far apart they are. -/
theorem length_remainder_le (nonzero : y ≠ 0) (first : x.length ≤ p) (second : y.length ≤ p) :
    (x.remainder y).length ≤ p := by
  unfold remainder
  refine length_scaled_le ?_ _
  rcases Int.le_total x.exponent y.exponent with lower | higher
  · -- In the unit of the dividend the remainder is no larger than the dividend.
    have unit : (x.exponent - min x.exponent y.exponent).toNat = 0 := by omega
    refine le_trans (bitLength_mono ?_) first
    rw [unit, Int.pow_zero, Int.mul_one, Int.natAbs_tmod]
    exact Nat.mod_le _ _
  · -- In the unit of the divisor it is smaller than the divisor.
    have unit : (y.exponent - min x.exponent y.exponent).toNat = 0 := by omega
    refine le_trans (bitLength_mono ?_) second
    rw [unit, Int.pow_zero, Int.mul_one, Int.natAbs_tmod]
    exact (Nat.mod_lt _ (Int.natAbs_pos.mpr (significand_ne_zero nonzero))).le

end Dyadic

namespace Reckoner.Number

/-- **The remainder of operands that fit into the precision is exact in every direction**: it is
what the quotient toward zero leaves, however many bits that quotient has. Only operands whose
exponents are more than `2 ^ 21` apart are refused, and only if the dividend is not the smaller
one. -/
theorem rem_division (x y : Number) (ctx : Context) (nonzero : y.value ≠ 0)
    (first : x.value.length ≤ ctx.bits) (second : y.value.length ≤ ctx.bits) :
    (x.rem y ctx = .error (.overflow "rem") ∧ |y.value.toRat| ≤ |x.value.toRat| ∧
      2 ^ 21 < (x.value.exponent - y.value.exponent).natAbs) ∨
    ∃ r, x.rem y ctx = .ok r ∧
      TruncatedDivision x.value.toRat y.value.toRat r.value.toRat := by
  have divides := Dyadic.remainder_division (x := x.value) nonzero
  have some : y.isZero = false := decide_eq_false nonzero
  unfold rem
  rw [some, if_neg Bool.false_ne_true]
  split
  · next smaller =>
    right
    have whole : x.value.cut ctx.rounding ctx.bits = x.value := Dyadic.cut_eq_self_iff.mpr first
    rw [Dyadic.remainder_of_lt smaller] at divides
    refine ⟨_, rfl, ?_⟩
    unfold roundTo
    rw [whole, ite_self]
    exact divides
  · next larger =>
    rw [← Dyadic.toRat_lt_toRat_iff, Dyadic.toRat_abs, Dyadic.toRat_abs, not_lt] at larger
    split
    · next apart =>
      exact .inl ⟨rfl, larger, apart⟩
    · right
      refine ⟨_, rfl, ?_⟩
      dsimp only
      rw [Dyadic.cut_eq_self_iff.mpr (Dyadic.length_remainder_le nonzero first second)]
      exact divides

/-- The remainder of `-7.5` by `2` is what the quotient `-3` leaves. -/
theorem rem_division_negative :
    (Dyadic.scaled 2 0 ≠ 0 ∧ (Dyadic.scaled (-15) (-1)).length ≤ Context.standard.bits ∧
      (Dyadic.scaled 2 0).length ≤ Context.standard.bits) ∧
    ∃ r, rem ⟨.scaled (-15) (-1), 4⟩ ⟨.scaled 2 0, 1⟩ Context.standard = .ok r ∧
      TruncatedDivision (Dyadic.scaled (-15) (-1)).toRat (Dyadic.scaled 2 0).toRat
        r.value.toRat := by
  have nonzero : Dyadic.scaled 2 0 ≠ 0 := by decide +kernel
  have first : (Dyadic.scaled (-15) (-1)).length ≤ Context.standard.bits := by decide +kernel
  have second : (Dyadic.scaled 2 0).length ≤ Context.standard.bits := by decide +kernel
  have near : ¬2 ^ 21 <
      ((Dyadic.scaled (-15) (-1)).exponent - (Dyadic.scaled 2 0).exponent).natAbs := by
    decide +kernel
  refine ⟨⟨nonzero, first, second⟩, ?_⟩
  refine (rem_division ⟨.scaled (-15) (-1), 4⟩ ⟨.scaled 2 0, 1⟩ Context.standard nonzero first
    second).resolve_left fun refused => ?_
  exact near refused.2.2

end Reckoner.Number
