/-
Numbers with a fixed count of fractional digits.

* `decimalUnits_chooses` — the units of a value are the integer that the direction chooses.
* `Number.toDecimal_rounded` — **a number is written as the plain numeral with the given count of
  fractional digits whose units its direction of rounding chooses**, and trimming keeps the value.
-/

import Reckoner.Proofs.Number.PlainDecimal
import Reckoner.Proofs.Number.Rounding

namespace Reckoner

/-! ### Rounding to units -/

/-- A value as a fraction, of which one part is an odd number and the other a power of two. -/
theorem toRat_eq_fraction (x : Dyadic) :
    x.toRat = x.significand * 2 ^ x.exponent.toNat / 2 ^ (-x.exponent).toNat := by
  have split : x.exponent = x.exponent.toNat + -((-x.exponent).toNat : Int) := by omega
  rw [Rat.div_def, Rat.mul_assoc, ← Rat.zpow_natCast, ← Rat.zpow_natCast, ← Rat.zpow_neg,
    ← Rat.zpow_add (by decide), ← split]
  exact x.toRat_eq

/-- **The units of a value are the integer that the direction chooses.** -/
theorem decimalUnits_chooses (x : Dyadic) (places : Nat) (mode : Rounding) :
    mode.Chooses (x.toRat * 10 ^ places) (decimalUnits x places mode) := by
  have positive : 0 < 2 ^ (-x.exponent).toNat := Nat.pow_pos (by decide)
  have ratio : ((x.significand * 10 ^ places * 2 ^ x.exponent.toNat : Int) : Rat) /
      (2 ^ (-x.exponent).toNat : Nat) = x.toRat * 10 ^ places := by
    rw [toRat_eq_fraction, Rat.intCast_mul, Rat.intCast_mul, Rat.intCast_pow, Rat.intCast_pow,
      Rat.natCast_pow]
    grind
  rw [← ratio]
  exact Rounding.chooses_ratio mode _ positive

/-- **A number is written as the plain numeral with the given count of fractional digits whose units
its direction of rounding chooses.** It has a minus sign exactly if the units are below zero. The
trimmed text is a plain numeral of the same value, without a zero at the end of its fraction and
without a point at its end. -/
theorem Number.toDecimal_rounded (x : Number) (places : Nat) (mode : Rounding) :
    ∃ written trimmed : PlainDecimal,
      x.toDecimal places mode = String.ofList written.text ∧
      written.fraction.length = min places maxDecimalDigits ∧
      mode.Chooses (x.value.toRat * 10 ^ min places maxDecimalDigits) written.units ∧
      (written.negative ↔ written.units < 0) ∧
      trimFraction (x.toDecimal places mode) = String.ofList trimmed.text ∧
      trimmed.value = written.value ∧
      trimmed.fraction.getLast? ≠ some '0' ∧ trimmed.text.getLast? ≠ some '.' := by
  let shown := min places maxDecimalDigits
  let written := PlainDecimal.ofUnits (decimalUnits x.value shown mode) shown
  have text : x.toDecimal places mode = String.ofList written.text := by
    rw [PlainDecimal.ofUnits_text]
    rfl
  refine ⟨written, written.trim, text, PlainDecimal.ofUnits_places _ _, ?_, ?_, ?_,
    written.trim_value, PlainDecimal.trimZeros_last _, ?_⟩
  · rw [PlainDecimal.ofUnits_units]
    exact decimalUnits_chooses x.value shown mode
  · rw [PlainDecimal.ofUnits_units]
    exact decide_eq_true_iff
  · rw [text, trimFraction, String.toList_ofList, PlainDecimal.trim_text]
  · intro point
    exact absurd (written.trim.text_last '.' point) (by decide)

end Reckoner
