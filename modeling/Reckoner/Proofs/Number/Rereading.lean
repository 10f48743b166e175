/-
Decimal texts that are read again.

A text of units is read at the precision that its digits ask for. The value is rounded to nearest,
so it is off by less than half a unit as long as twice the units fit into the precision; and that is
what the count of bits for a count of digits is for, although it is computed in doubles.

* `digitsValue_lt` — digits stand for less than a power of ten.
* `ten_pow_le_two_pow_digitsToBits` — **the precision for a count of digits has a bit to spare**.
* `Numeral.toNumber_offBy` — a numeral that is not longer than the precision, read to nearest.
* `decimalUnits_of_near` — a value that is off by less than half a unit has these units.
* `Numeral.decimalUnits_toNumber`, `Numeral.decimalUnits_offBy` — **a numeral that is a whole number
  of units is written as these units**, or as units that are off by a last bit if they are too
  many.
* `Number.toDecimal_reread` — **a decimal text that is accepted gives the same text when it is read
  and written again**.
-/

import Reckoner.Proofs.Expression.Numerals
import Reckoner.Proofs.Number.DecimalText
import Reckoner.Proofs.Number.Quotient

namespace Reckoner

/-! ### Digits -/

/-- Digits stand for less than a power of ten. -/
theorem digitsValue_lt {digits : List Char} (isDigits : ∀ c ∈ digits, isDigit c) :
    digitsValue digits < 10 ^ digits.length := by
  induction digits with
  | nil => exact Nat.one_pos
  | cons c rest ih =>
    obtain ⟨digit, others⟩ := List.forall_mem_cons.mp isDigits
    have below : digitValue c ≤ 9 := by
      obtain ⟨-, most⟩ := isDigit_iff.mp digit
      unfold digitValue
      omega
    have product := Nat.mul_le_mul_right (10 ^ rest.length) below
    have rest' := ih others
    rw [digitsValue_cons, List.length_cons, Nat.pow_succ]
    omega

theorem lt_ten_pow_naturalDigits (n : Nat) : n < 10 ^ (naturalDigits n).length := by
  have below := @digitsValue_lt (naturalDigits n) fun c => naturalDigits_isDigit c
  rwa [digitsValue_naturalDigits] at below

end Reckoner

namespace Dyadic

open Reckoner

/-! ### Integer parts -/

theorem floor_le (x : Dyadic) : (x.floor : Rat) ≤ x.toRat := by
  unfold floor
  rw [toRat_eq_fraction]
  split
  · next integer =>
    have places : (-x.exponent).toNat = 0 := by omega
    rw [places, pow_zero, div_one]
    push_cast
    exact le_rfl
  · next fraction =>
    have whole : x.exponent.toNat = 0 := by omega
    have product := Int.ediv_mul_le x.significand (show (2 : Int) ^ (-x.exponent).toNat ≠ 0 from
      (Int.pow_pos (by decide)).ne')
    rw [whole, pow_zero, Rat.mul_one, le_div_iff₀ (Rat.pow_pos (by decide))]
    exact_mod_cast product

theorem le_ceil (x : Dyadic) : x.toRat ≤ x.ceil := by
  have below := floor_le (-x)
  rw [toRat_neg] at below
  unfold ceil
  rw [Rat.intCast_neg]
  linarith

end Dyadic

namespace Reckoner

/-! ### Bits for digits -/

/-- The count of bits that is computed in doubles is hardly below a fraction that is larger than the
bits of a digit. -/
theorem timesDouble_ge (digits : Nat) :
    (2136 / 643 - 1 / 2 ^ 20) * digits ≤ (timesDouble digits bitsPerDigit).toRat := by
  have factor : (2136 / 643 - 1 / 2 ^ 20 : Rat) ≤
      bitsPerDigit.toRat * (1 - compound (lastBit 53) (lastBit 53)) := by decide +kernel
  have positive : 0 ≤ bitsPerDigit.toRat := by decide +kernel
  have counted := (Dyadic.cut_offBy .nearest 53 (.scaled digits 0)).mul_right bitsPerDigit.toRat
  rw [← Dyadic.toRat_mul ((Dyadic.scaled digits 0).cut .nearest 53)] at counted
  have off := counted.trans (Dyadic.cut_offBy .nearest 53 _) (lastBit_pos 53).le
  have integer : (Dyadic.scaled digits 0).toRat = digits := by
    rw [Dyadic.toRat_scaled, Rat.zpow_zero, mul_one, Rat.intCast_natCast]
  have count : (0 : Rat) ≤ digits := Nat.cast_nonneg digits
  unfold OffBy at off
  rw [integer, abs_of_nonneg (mul_nonneg count positive)] at off
  have below := (abs_le.mp off).1
  have product := mul_le_mul_of_nonneg_right factor count
  unfold timesDouble
  linarith

/-- Powers of ten and two, from a fraction above the bits of a digit. -/
theorem ten_pow_le_two_pow {a b digits bits : Nat} (fraction : 10 ^ b ≤ 2 ^ a) (nonzero : b ≠ 0)
    (enough : a * digits ≤ b * bits) : 10 ^ digits ≤ 2 ^ bits := by
  have powers : (10 ^ digits) ^ b ≤ (2 ^ bits) ^ b := by
    calc (10 ^ digits) ^ b = (10 ^ b) ^ digits := Nat.pow_right_comm _ _ _
      _ ≤ (2 ^ a) ^ digits := Nat.pow_le_pow_left fraction digits
      _ = 2 ^ (a * digits) := (Nat.pow_mul _ _ _).symm
      _ ≤ 2 ^ (b * bits) := Nat.pow_le_pow_right Nat.two_pos enough
      _ = (2 ^ bits) ^ b := by rw [Nat.mul_comm, Nat.pow_mul]
  exact (Nat.pow_le_pow_iff_left nonzero).mp powers

/-- **The precision for a count of digits has a bit to spare.** -/
theorem ten_pow_le_two_pow_digitsToBits {digits : Nat}
    (short : digitsToBits digits ≤ maxPrecision) : 10 ^ digits ≤ 2 ^ (digitsToBits digits - 1) := by
  have lower := timesDouble_ge digits
  unfold digitsToBits maxPrecision at *
  generalize timesDouble digits bitsPerDigit = bits at short lower ⊢
  have unlimited : min maxCount bits.ceil.toNat = bits.ceil.toNat := by
    unfold maxCount at short ⊢
    omega
  rw [unlimited] at short ⊢
  have counted : bits.toRat ≤ (bits.ceil.toNat : Nat) := by
    refine le_trans bits.le_ceil ?_
    exact_mod_cast Int.self_le_toNat bits.ceil
  generalize bits.ceil.toNat = count at short counted ⊢
  have most : (count : Rat) ≤ 2 ^ 20 := by
    exact_mod_cast (show count ≤ 2 ^ 20 by omega)
  -- There are so few digits that what the count is too small by is less than the spare bit.
  have enough : (2136 * digits : Rat) ≤ 643 * (count + 1) := by
    linarith
  have fraction : 10 ^ 643 ≤ 2 ^ 2136 := by decide +kernel
  refine ten_pow_le_two_pow fraction (by decide) ?_
  exact_mod_cast enough

theorem Context.bits_ofBits_digitsToBits {digits : Nat}
    (short : digitsToBits digits ≤ maxPrecision) (mode : Rounding) :
    (Context.ofBits (digitsToBits digits) mode).bits = digitsToBits digits := by
  have least : minPrecision ≤ digitsToBits digits := Nat.le_add_left _ _
  show max minPrecision (min (digitsToBits digits) maxPrecision) = digitsToBits digits
  omega

/-! ### Reading and writing again -/

/-- A numeral that is not longer than the precision, read to nearest, is off by half a last bit at
most. -/
theorem Numeral.toNumber_offBy (numeral : Numeral) {ctx : Context}
    (nearest : ctx.rounding = .nearest) (short : bitLength numeral.mantissa.natAbs ≤ ctx.bits) :
    OffBy (lastBit (ctx.bits + 1)) numeral.value (numeral.toNumber ctx).value.toRat := by
  by_cases integer : 0 ≤ numeral.exponent
  · obtain ⟨z, exact, read⟩ := toNumber_of_nonneg integer ctx
    rw [read, ← exact, nearest]
    exact Dyadic.cut_offBy_nearest ctx.bits z
  · obtain ⟨divisor, positive, product, read⟩ := toNumber_of_neg integer ctx
    have nonzero : divisor ≠ 0 := mt Dyadic.toRat_eq_zero_iff.mpr positive.ne'
    have kept : (Dyadic.scaled numeral.mantissa 0).length ≤ divisor.length + ctx.bits :=
      le_trans (Dyadic.length_scaled_le short 0) (Nat.le_add_left _ _)
    rw [read, eq_div_of_mul_eq positive.ne' product, nearest]
    exact Dyadic.quotient_offBy_nearest (Number.positive_bits ctx) kept nonzero

/-- A value that is off by less than half a unit has these units. -/
theorem decimalUnits_of_near {x : Dyadic} {places : Nat} {units : Int}
    (near : 2 * |x.toRat * 10 ^ places - units| < 1) :
    decimalUnits x places .nearest = units := by
  refine (decimalUnits_chooses x places .nearest).unique ?_
  unfold Rounding.Chooses
  rw [abs_eq_abs]
  exact ⟨near.le, fun tie => absurd tie near.ne⟩

section Units

variable {numeral : Numeral} {ctx : Context} {places : Nat} {units : Int}
  (nearest : ctx.rounding = .nearest) (short : bitLength numeral.mantissa.natAbs ≤ ctx.bits)
  (whole : numeral.value * 10 ^ places = units)

include nearest short whole

/-- What is read of a whole number of units is off by half a last bit of it at most. -/
theorem Numeral.units_offBy :
    |(numeral.toNumber ctx).value.toRat * 10 ^ places - units| ≤
      lastBit (ctx.bits + 1) * |(units : Rat)| := by
  have off := (numeral.toNumber_offBy nearest short).mul_right (10 ^ places)
  rwa [whole] at off

/-- **A numeral that is a whole number of units is written as these units**, if twice as many fit
into the precision. -/
theorem Numeral.decimalUnits_toNumber (small : |(units : Rat)| < 2 ^ (ctx.bits - 1)) :
    decimalUnits (numeral.toNumber ctx).value places .nearest = units := by
  have off := units_offBy nearest short whole
  refine decimalUnits_of_near ?_
  have positive := Number.positive_bits ctx
  have double : (2 : Rat) * 2 ^ (ctx.bits - 1) = 2 ^ (ctx.bits + 1 - 1) := by
    rw [← pow_succ']
    congr 1
    omega
  calc 2 * |(numeral.toNumber ctx).value.toRat * 10 ^ places - units|
      ≤ 2 * (lastBit (ctx.bits + 1) * |(units : Rat)|) := by linarith
    _ < 2 * (lastBit (ctx.bits + 1) * 2 ^ (ctx.bits - 1)) := by
      linarith [mul_lt_mul_of_pos_left small (lastBit_pos (ctx.bits + 1))]
    _ = lastBit (ctx.bits + 1) * 2 ^ (ctx.bits + 1 - 1) := by rw [← double]; ring
    _ = 1 := lastBit_mul_pow (Nat.succ_pos _)

/-- A numeral that is a whole number of units is written as units that are off by a last bit at
most, however many there are. -/
theorem Numeral.decimalUnits_offBy :
    OffBy (lastBit ctx.bits) (units : Rat)
      (decimalUnits (numeral.toNumber ctx).value places .nearest) := by
  by_cases small : |(units : Rat)| < 2 ^ (ctx.bits - 1)
  · rw [decimalUnits_toNumber nearest short whole small]
    exact OffBy.refl (lastBit_pos _).le _
  · -- A half is no more than the half of a last bit of so many units.
    have read := units_offBy nearest short whole
    have written := (decimalUnits_chooses (numeral.toNumber ctx).value places .nearest).near.2 rfl
    have many := mul_le_mul_of_nonneg_left (not_lt.mp small) (lastBit_pos ctx.bits).le
    rw [lastBit_mul_pow (Number.positive_bits ctx)] at many
    have triangle := abs_sub_le
      (decimalUnits (numeral.toNumber ctx).value places .nearest : Rat)
      ((numeral.toNumber ctx).value.toRat * 10 ^ places) units
    rw [← two_mul_lastBit_succ] at many ⊢
    unfold OffBy
    linarith

end Units

/-- **Units that are read at the precision of their digits are written as the same units.** -/
theorem decimalUnits_toNumber {units : Int} {ctx : Context} (nearest : ctx.rounding = .nearest)
    (room : 10 ^ (naturalDigits units.natAbs).length ≤ 2 ^ (ctx.bits - 1)) (places digits : Nat) :
    decimalUnits ((Numeral.mk units (-places) digits).toNumber ctx).value places .nearest =
      units := by
  have small := lt_of_lt_of_le (lt_ten_pow_naturalDigits units.natAbs) room
  have short : bitLength units.natAbs ≤ ctx.bits :=
    le_trans (bitLength_le_iff.mpr small) (Nat.sub_le _ _)
  have whole : (Numeral.mk units (-places) digits).value * 10 ^ places = units := by
    have power : (10 : Rat) ^ places ≠ 0 := (Rat.pow_pos (by decide)).ne'
    unfold Numeral.value
    rw [zpow_neg, zpow_natCast, inv_mul_cancel_right₀ power]
  refine Numeral.decimalUnits_toNumber nearest short whole ?_
  rw [← Int.cast_abs, Int.abs_eq_natAbs]
  exact_mod_cast small

namespace Number

/-- **A decimal text gives the same text when it is read and written again.** It is accepted unless
it has too many places; and its digits must not ask for more than the greatest precision. -/
theorem toDecimal_reread (x : Number) (places : Nat) (mode : Rounding) :
    ((∃ y, fromDecimalAuto (x.toDecimal places mode) .nearest = .ok y) ↔
      min places maxDecimalDigits ≤ maxDecimalExponent) ∧
    ∀ y, fromDecimalAuto (x.toDecimal places mode) .nearest = .ok y →
      (∀ numeral ∈ Numeral.ofText? (x.toDecimal places mode),
        digitsToBits numeral.digits ≤ maxPrecision) →
      y.toDecimal places .nearest = x.toDecimal places mode := by
  have text : x.toDecimal places mode = String.ofList (fixedText
    (decimalUnits x.value (min places maxDecimalDigits) mode) (min places maxDecimalDigits)) := rfl
  generalize decimalUnits x.value (min places maxDecimalDigits) mode = units at text
  have numeral := ofText?_fixedText units (min places maxDecimalDigits)
  rw [← text] at numeral
  unfold fromDecimalAuto readAt
  rw [numeral]
  by_cases far : maxDecimalExponent < min places maxDecimalDigits
  · rw [if_pos far]
    exact ⟨iff_of_false nofun (Nat.not_le.mpr far), nofun⟩
  · rw [if_neg far]
    refine ⟨iff_of_true ⟨_, rfl⟩ (Nat.not_lt.mp far), ?_⟩
    rintro _ ⟨⟩ bits
    have short := bits _ rfl
    have room := ten_pow_le_two_pow_digitsToBits short
    rw [← Context.bits_ofBits_digitsToBits short .nearest] at room
    have same := decimalUnits_toNumber rfl room (min places maxDecimalDigits)
      (naturalDigits units.natAbs).length
    rw [toDecimal, toDecimalText]
    simp only [same, text]

end Number

end Reckoner
