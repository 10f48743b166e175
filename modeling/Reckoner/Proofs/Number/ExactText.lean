/-
All digits of a number, written and read again.

* `Number.numeral_value` — the numeral of all digits has the value of the number.
* `Number.fromDecimal_toExactDecimal` — **all digits of a number are a plain numeral of its value,
  and reading them with as many bits as the number has gives it back, as long as they have no more
  places than a numeral may have**.
* `Number.fromDecimal_toExactDecimal_refused` — a power of two with more places is refused.
-/

import Reckoner.Proofs.Document.Reload
import Reckoner.Proofs.Number.DecimalText

namespace Reckoner

namespace Number

/-- The numeral of all digits has the value of the number. -/
theorem numeral_value (x : Number) :
    (x.numeral.mantissa : Rat) / 10 ^ (-x.value.exponent).toNat = x.value.toRat := by
  have power (k : Nat) : (10 : Rat) ^ k = 2 ^ k * 5 ^ k := by
    have split : (10 ^ k : Int) = 2 ^ k * 5 ^ k := Int.mul_pow (a := 2) (b := 5)
    have cast := congrArg (Int.cast (R := Rat)) split
    rw [Rat.intCast_mul, Rat.intCast_pow, Rat.intCast_pow, Rat.intCast_pow] at cast
    exact cast
  have nonzero : (5 : Rat) ^ (-x.value.exponent).toNat ≠ 0 :=
    Rat.ne_of_gt (Rat.pow_pos (by decide))
  unfold numeral
  rw [toRat_eq_fraction, power, Rat.intCast_mul, Rat.intCast_mul, Rat.intCast_pow,
    Rat.intCast_pow]
  grind

/-- With as many bits as the number has, its numeral gives it back. -/
theorem toNumber_numeral_of_length_le {x : Number} {ctx : Context}
    (short : x.value.length ≤ ctx.bits) : x.numeral.toNumber ctx = ⟨x.value, ctx.bits⟩ := by
  have value : (x.numeral.toNumber ctx).value = x.value :=
    (toNumber_numeral x ctx).mpr (Dyadic.recoverableAt_of_length_le short)
  rw [← value]
  unfold Numeral.toNumber
  split
  · rfl
  · rfl

/-- **All digits of a number are a plain numeral of its value** without a zero at the end of its
fraction, **and reading them with as many bits as the number has gives it back**, in every
direction, as long as they have no more places than a numeral may have. -/
theorem fromDecimal_toExactDecimal (x : Number) :
    (∃ d : PlainDecimal, x.toExactDecimal = String.ofList d.text ∧ d.value = x.value.toRat ∧
      d.fraction.getLast? ≠ some '0') ∧
    ∀ (bits : Nat) (mode : Rounding), x.value.length ≤ bits → bits ≤ maxPrecision →
      fromDecimal x.toExactDecimal bits mode =
        if maxDecimalExponent < (-x.value.exponent).toNat then .error ⟨x.toExactDecimal⟩
        else .ok ⟨x.value, max minPrecision bits⟩ := by
  constructor
  · let exact := PlainDecimal.ofUnits x.numeral.mantissa (-x.value.exponent).toNat
    refine ⟨exact.trim, ?_, ?_, PlainDecimal.trimZeros_last _⟩
    · rw [← PlainDecimal.trim_text, PlainDecimal.ofUnits_text]
      rfl
    · rw [PlainDecimal.trim_value, PlainDecimal.value, PlainDecimal.ofUnits_units,
        PlainDecimal.ofUnits_places, numeral_value]
  · intro bits mode short bound
    have enough : x.value.length ≤ (Context.ofBits bits mode).bits := by
      show _ ≤ max minPrecision (min bits maxPrecision)
      omega
    have label : (Context.ofBits bits mode).bits = max minPrecision bits := by
      show max minPrecision (min bits maxPrecision) = _
      rw [Nat.min_eq_left bound]
    unfold fromDecimal
    rw [readAt_toExactDecimal, toNumber_numeral_of_length_le enough, label]

/-- The least power of two that can be read is read. -/
theorem fromDecimal_toExactDecimal_power :
    fromDecimal (toExactDecimal ⟨.scaled 1 (-100000), 128⟩) 8 .nearest =
      .ok ⟨.scaled 1 (-100000), 8⟩ := by
  have parts := Dyadic.scaled_odd (m := 1) (by decide) (-100000)
  have length : (Dyadic.scaled 1 (-100000)).length ≤ 8 := by
    unfold Dyadic.length
    rw [parts.1]
    decide
  have places : ¬maxDecimalExponent < (-(Dyadic.scaled 1 (-100000)).exponent).toNat := by
    rw [parts.2]
    decide
  have read := (fromDecimal_toExactDecimal ⟨.scaled 1 (-100000), 128⟩).2 8 .nearest length
    (by decide)
  rw [if_neg places] at read
  exact read

/-- The digits of a smaller power of two are refused, whatever its precision. -/
theorem fromDecimal_toExactDecimal_refused :
    (Dyadic.scaled 1 (-300000)).length ≤ 8 ∧
      fromDecimal (toExactDecimal ⟨.scaled 1 (-300000), 128⟩) 8 .nearest =
        .error ⟨toExactDecimal ⟨.scaled 1 (-300000), 128⟩⟩ := by
  have parts := Dyadic.scaled_odd (m := 1) (by decide) (-300000)
  have places : maxDecimalExponent < (-(Dyadic.scaled 1 (-300000)).exponent).toNat := by
    rw [parts.2]
    decide
  constructor
  · unfold Dyadic.length
    rw [parts.1]
    decide
  · unfold fromDecimal
    rw [readAt_toExactDecimal, if_pos places]

end Number

end Reckoner
