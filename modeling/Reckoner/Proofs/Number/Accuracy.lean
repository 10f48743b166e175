/-
Products, quotients and roots of any length.

* `Accurate` — a result has the sign of the exact value, and is off by two last bits at most.
* `Flushed` — zero stands for an exact value that is too small for the range of results.
* `OffBy.accurate`, `OffBy.flushed` — what is off by less than two last bits is accurate; and if its
  magnitude is below the range, so is about the exact value.
* `Number.mul_div_sqrt_accurate` — **products, quotients and square roots are accurate for operands
  of any length, unless they are flushed to zero**.
-/

import Reckoner.Proofs.Number.Root
import Mathlib.Data.Sign.Basic

namespace Reckoner

/-- A result with the sign of an exact value, off by two of its last bits at most. -/
structure Accurate (p : Nat) (exact : ℝ) (result : Dyadic) : Prop where
  sign : SignType.sign (result.toRat : ℝ) = SignType.sign exact
  near : |(result.toRat : ℝ) - exact| ≤ 2 ^ (2 - p : Int) * |exact|

/-- Zero for an exact value that is so small that its magnitude leaves the range of results. -/
structure Flushed (exact : ℝ) (result : Dyadic) : Prop where
  zero : result = 0
  nonzero : exact ≠ 0
  small : |exact| < 2 ^ (3 - maxMagnitude : Int)

/-- What is off by less than the whole has the sign of the exact value. -/
theorem OffBy.sign {δ a b : ℝ} (off : OffBy δ a b) (small : δ < 1) :
    SignType.sign b = SignType.sign a := by
  unfold OffBy at off
  rcases lt_trichotomy a 0 with negative | zero | positive
  · rw [abs_of_neg negative] at off
    have bound := (abs_le.mp off).2
    have size : δ * -a < -a := mul_lt_of_lt_one_left (neg_pos.mpr negative) small
    rw [sign_neg negative, sign_neg (by linarith)]
  · rw [zero, sub_zero, abs_zero, mul_zero] at off
    rw [zero, abs_nonpos_iff.mp off]
  · rw [abs_of_pos positive] at off
    have bound := (abs_le.mp off).1
    have size : δ * a < a := mul_lt_of_lt_one_left positive small
    rw [sign_pos positive, sign_pos (by linarith)]

section Results

variable {p : Nat} (two_le : 2 ≤ p) {exact : ℝ} {result : Dyadic}
  (off : OffBy (slack p : ℝ) exact result.toRat)

include two_le off

omit two_le in
theorem OffBy.two_lastBits : |(result.toRat : ℝ) - exact| ≤ 2 ^ (2 - p : Int) * |exact| := by
  have twice : (slack p : ℝ) ≤ ((2 * lastBit p : Rat) : ℝ) :=
    Rat.cast_le.mpr (slack_le_two_mul_lastBit p)
  rw [two_mul_lastBit, Rat.cast_zpow, Rat.cast_ofNat] at twice
  exact off.mono twice

theorem OffBy.less : OffBy (15 / 16 : ℝ) exact result.toRat := by
  have most : (slack p : ℝ) ≤ ((15 / 16 : Rat) : ℝ) := Rat.cast_le.mpr (slack_le two_le)
  refine off.mono (le_trans most ?_)
  norm_num

/-- **What is off by less than two last bits is accurate.** -/
theorem OffBy.accurate : Accurate p exact result where
  sign := (off.less two_le).sign (by norm_num)
  near := off.two_lastBits

/-- A result below the range stands for an exact value that is hardly larger. -/
theorem OffBy.flushed (below : result.magnitude < -maxMagnitude) : Flushed exact 0 := by
  have nonzero : result ≠ 0 := by
    rintro rfl
    exact absurd below (by decide)
  refine ⟨rfl, ?_, ?_⟩
  · rintro rfl
    have same := (off.less two_le).sign (by norm_num)
    rw [sign_zero, sign_eq_zero_iff, Rat.cast_eq_zero] at same
    exact nonzero (Dyadic.toRat_eq_zero_iff.mp same)
  · have size : |(result.toRat : ℝ)| < 2 ^ (-1 - maxMagnitude : Int) := by
      have rational := lt_of_lt_of_le (Dyadic.abs_toRat_lt nonzero)
        (zpow_le_zpow_right₀ one_le_two (show result.magnitude ≤ -1 - maxMagnitude by omega))
      have cast : ((|result.toRat| : Rat) : ℝ) < ((2 ^ (-1 - maxMagnitude : Int) : Rat) : ℝ) :=
        Rat.cast_lt.mpr rational
      rwa [Rat.cast_abs, Rat.cast_zpow, Rat.cast_ofNat] at cast
    have close := off.less two_le
    have triangle := abs_sub_abs_le_abs_sub exact (result.toRat : ℝ)
    have power : (2 : ℝ) ^ (3 - maxMagnitude : Int) = 16 * 2 ^ (-1 - maxMagnitude : Int) := by
      rw [show (3 - maxMagnitude : Int) = 4 + (-1 - maxMagnitude) by omega,
        zpow_add₀ two_ne_zero]
      norm_num
    rw [abs_sub_comm] at triangle
    unfold OffBy at close
    rw [power]
    linarith

end Results

namespace Number

section Checked

variable {ctx : Context} {exact : ℝ} {z : Dyadic} {label : Nat} {function : String} {r : Number}
  (off : OffBy (slack ctx.bits : ℝ) exact z.toRat)
  (returned : checked ⟨z, label⟩ function = .ok r)

include off returned

/-- A result that the range is checked of is returned as it is, or flushed to zero. -/
theorem checked_flushed : Flushed exact r.value ∨ r.value = z := by
  unfold checked at returned
  split at returned
  · cases returned
  · split at returned
    · next below =>
      cases returned
      exact .inl (off.flushed ctx.minPrecision_le below)
    · cases returned
      exact .inr rfl

theorem checked_accurate : Flushed exact r.value ∨ Accurate ctx.bits exact r.value := by
  refine (checked_flushed off returned).imp_right fun same => ?_
  rw [same]
  exact off.accurate ctx.minPrecision_le

end Checked

theorem mul_accurate {x y r : Number} {ctx : Context} (returned : x.mul y ctx = .ok r) :
    Flushed (x.value.toRat * y.value.toRat) r.value ∨
      Accurate ctx.bits (x.value.toRat * y.value.toRat) r.value := by
  have off := (Dyadic.product_offBy ctx.minPrecision_le ctx.rounding x.value y.value).cast
  rw [Rat.cast_mul] at off
  unfold mul at returned
  exact checked_accurate off returned

/-- A quotient is that by a value other than zero. -/
theorem div_eq_ok {x y r : Number} {ctx : Context} (returned : x.div y ctx = .ok r) :
    y.value ≠ 0 ∧ checked ⟨x.value.quotient ctx.rounding ctx.bits y.value, ctx.bits⟩ "division" =
      .ok r := by
  unfold div at returned
  split at returned
  · cases returned
  · next some => exact ⟨mt decide_eq_true some, returned⟩

theorem div_accurate {x y r : Number} {ctx : Context} (returned : x.div y ctx = .ok r) :
    Flushed (x.value.toRat / y.value.toRat) r.value ∨
      Accurate ctx.bits (x.value.toRat / y.value.toRat) r.value := by
  obtain ⟨nonzero, returned⟩ := div_eq_ok returned
  have off := (Dyadic.quotient_offBy ctx.minPrecision_le ctx.rounding x.value nonzero).cast
  rw [Rat.cast_div] at off
  exact checked_accurate off returned

/-- A square root is that of zero or of a value above zero. -/
theorem sqrt_eq_ok {x r : Number} {ctx : Context} (returned : x.sqrt ctx = .ok r) :
    x.value = 0 ∧ r.value = 0 ∨
      0 < x.value.toRat ∧ r.value = x.value.squareRoot ctx.rounding ctx.bits := by
  unfold sqrt at returned
  split at returned
  · cases returned
  next nonnegative =>
  split at returned
  · next zero =>
    rw [← Except.ok.inj returned]
    exact .inl ⟨of_decide_eq_true zero, rfl⟩
  · next some =>
    have least := not_lt.mp (mt x.value.isNegative_iff.mpr nonnegative)
    have nonzero : x.value ≠ 0 := of_decide_eq_false (Bool.eq_false_iff.mpr some)
    rw [← Except.ok.inj returned]
    refine .inr ⟨lt_of_le_of_ne least (Ne.symm (mt Dyadic.toRat_eq_zero_iff.mp nonzero)), ?_⟩
    -- Not by `rfl`, which would compute the root before it takes the field.
    dsimp only

theorem sqrt_accurate {x r : Number} {ctx : Context} (returned : x.sqrt ctx = .ok r) :
    Accurate ctx.bits (√x.value.toRat) r.value := by
  refine OffBy.accurate ctx.minPrecision_le ?_
  rcases sqrt_eq_ok returned with ⟨zero, none⟩ | ⟨above, root⟩
  · rw [zero, none, Dyadic.toRat_zero, Rat.cast_zero, Real.sqrt_zero]
    exact .refl (Rat.cast_nonneg.mpr (slack_nonneg ctx.bits)) 0
  · rw [root]
    refine (Dyadic.squareRoot_offBy (positive_bits ctx) ctx.rounding above).mono ?_
    exact_mod_cast lastBit_le_slack ctx.bits

/-- **Products, quotients and square roots are accurate for operands of any length**, in every
direction and down to two bits, unless a product or a quotient is flushed to zero. -/
theorem mul_div_sqrt_accurate (x y : Number) (ctx : Context) :
    (∀ r, x.mul y ctx = .ok r →
      Flushed (x.value.toRat * y.value.toRat) r.value ∨
        Accurate ctx.bits (x.value.toRat * y.value.toRat) r.value) ∧
    (∀ r, x.div y ctx = .ok r →
      Flushed (x.value.toRat / y.value.toRat) r.value ∨
        Accurate ctx.bits (x.value.toRat / y.value.toRat) r.value) ∧
    ∀ r, x.sqrt ctx = .ok r → Accurate ctx.bits (√x.value.toRat) r.value := by
  exact ⟨fun r => mul_accurate, fun r => div_accurate, fun r => sqrt_accurate⟩

end Number

end Reckoner
