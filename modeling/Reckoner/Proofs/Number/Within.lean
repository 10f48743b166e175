/-
Results between two multiples of an exact value.

An error that is not the same on both sides is kept as two factors, which sums, squares and roots
pass on. The factors themselves are products of numbers close to one.

* `Within` — a result between two multiples of an exact value; `Within.trans`, `Within.sq`,
  `Within.sqrt` — through a further step, squares and roots.
* `Within.sum` — **the sum of two results of which one may be missing**, if it is small beside the
  other one.
* `one_sub_le_factors`, `factors_le_of_wider`, `factors_le_of_short` — what four factors leave of
  one.
* `le_mul_of_rare` — a count above a root, where the numbers with such a root are rare.
-/

import Reckoner.Proofs.Number.Quotient
import Mathlib.Analysis.Real.Sqrt

namespace Reckoner

/-! ### Multiples of exact values -/

/-- A result that lies between two multiples of an exact value. -/
structure Within (least most exact result : ℝ) : Prop where
  lower : least * exact ≤ result
  upper : result ≤ most * exact

namespace Within

variable {l h l' h' a b c d : ℝ}

theorem of_offBy {δ : ℝ} (off : OffBy δ a b) (nonnegative : 0 ≤ a) :
    Within (1 - δ) (1 + δ) a b :=
  ⟨(off.between nonnegative).1, (off.between nonnegative).2⟩

theorem of_offBy_abs {δ : ℝ} (off : OffBy δ a b) : Within (1 - δ) (1 + δ) |a| |b| := by
  refine of_offBy ?_ (abs_nonneg a)
  unfold OffBy at off ⊢
  rw [abs_abs]
  exact le_trans (abs_abs_sub_abs_le b a) off

theorem trans (first : Within l h a b) (second : Within l' h' b c) (least : 0 ≤ l')
    (most : 0 ≤ h') : Within (l' * l) (h' * h) a c where
  lower := by
    have below := mul_le_mul_of_nonneg_left first.lower least
    have next := second.lower
    linarith
  upper := by
    have above := mul_le_mul_of_nonneg_left first.upper most
    have next := second.upper
    linarith

theorem sq (within : Within l h a b) (least : 0 ≤ l) (nonnegative : 0 ≤ a) :
    Within (l ^ 2) (h ^ 2) (a ^ 2) (b ^ 2) := by
  have below : 0 ≤ l * a := mul_nonneg least nonnegative
  constructor
  · rw [← mul_pow]
    exact pow_le_pow_left₀ below within.lower 2
  · rw [← mul_pow]
    exact pow_le_pow_left₀ (le_trans below within.lower) within.upper 2

theorem sqrt (within : Within (l ^ 2) (h ^ 2) a b) (least : 0 ≤ l) (most : 0 ≤ h) :
    Within l h √a √b := by
  have root {k : ℝ} (nonnegative : 0 ≤ k) : k * √a = √(k ^ 2 * a) := by
    rw [Real.sqrt_mul (sq_nonneg k), Real.sqrt_sq nonnegative]
  constructor
  · rw [root least]
    exact Real.sqrt_le_sqrt within.lower
  · rw [root most]
    exact Real.sqrt_le_sqrt within.upper

end Within

/-- A square that is hardly there beside another one makes up for little of their sum. -/
theorem sum_le_of_small {X Y η : ℝ} (positive : 0 ≤ Y) (fraction : 0 ≤ η) (less : η ≤ 1)
    (small : X ≤ η * Y) : (1 - η) ^ 2 * (X + Y) ≤ Y := by
  have factor : (1 - η) ^ 2 * (1 + η) ≤ 1 := by
    have expanded : (1 - η) ^ 2 * (1 + η) = 1 - η - η ^ 2 * (1 - η) := by ring
    have rest := mul_nonneg (sq_nonneg η) (sub_nonneg.mpr less)
    linarith
  calc (1 - η) ^ 2 * (X + Y) ≤ (1 - η) ^ 2 * ((1 + η) * Y) :=
        mul_le_mul_of_nonneg_left (by linarith) (sq_nonneg _)
    _ = (1 - η) ^ 2 * (1 + η) * Y := by ring
    _ ≤ Y := mul_le_of_le_one_left positive factor

/-- **The sum of two results of which one may be missing**, if it is small beside the other one. -/
theorem Within.sum {l h η X Y a b : ℝ} (nonnegative : 0 ≤ X) (nonnegative' : 0 ≤ Y)
    (least : 0 ≤ l) (fraction : 0 ≤ η) (less : η ≤ 1) (some : 0 ≤ a) (some' : 0 ≤ b)
    (most : a ≤ h * X) (most' : b ≤ h * Y) (kept : l * X ≤ a ∨ X ≤ η * Y ∧ l * Y ≤ b)
    (kept' : l * Y ≤ b ∨ Y ≤ η * X ∧ l * X ≤ a) :
    Within ((1 - η) ^ 2 * l) h (X + Y) (a + b) where
  lower := by
    have one : (1 - η) ^ 2 ≤ 1 := pow_le_one₀ (by linarith) (by linarith)
    rcases kept with first | ⟨small, second⟩
    · rcases kept' with second | ⟨small, -⟩
      · calc (1 - η) ^ 2 * l * (X + Y) = (1 - η) ^ 2 * (l * X + l * Y) := by ring
          _ ≤ l * X + l * Y := mul_le_of_le_one_left (by positivity) one
          _ ≤ a + b := add_le_add first second
      · have rest := sum_le_of_small nonnegative fraction less small
        linarith [mul_le_mul_of_nonneg_left rest least]
    · have rest := sum_le_of_small nonnegative' fraction less small
      linarith [mul_le_mul_of_nonneg_left rest least]
  upper := by linarith

/-! ### Factors close to one -/

section Factors

variable {u v : ℝ} (positive : 0 < u) (half : u ≤ 1 / 2) (positive' : 0 < v)

include positive half positive'

/-- What four roundings leave at least. -/
theorem one_sub_le_factors (le : v ≤ u) :
    1 - 2 * u ≤ (1 - u) * ((1 - u ^ 2 / 4) * ((1 - v ^ 2 / 2) * (1 - v))) := by
  have squares : v ^ 2 ≤ u ^ 2 := pow_le_pow_left₀ positive'.le le 2
  have quarter : u ^ 2 ≤ 1 / 4 := by nlinarith
  have wide : (1 - u ^ 2 / 2) * (1 - u) ≤ (1 - v ^ 2 / 2) * (1 - v) :=
    mul_le_mul (by linarith) (by linarith) (by linarith) (by linarith)
  have outer : 0 ≤ (1 - u) * (1 - u ^ 2 / 4) := mul_nonneg (by linarith) (by linarith)
  have expanded : (1 - u) * (1 - u ^ 2 / 4) * ((1 - u ^ 2 / 2) * (1 - u)) - (1 - 2 * u) =
      u ^ 2 * (1 / 4 - 3 / 4 * u ^ 2) + 3 / 2 * u ^ 3 + 1 / 8 * (u ^ 2 * (1 - u)) ^ 2 := by ring
  have first : 0 ≤ u ^ 2 * (1 / 4 - 3 / 4 * u ^ 2) := mul_nonneg (sq_nonneg u) (by linarith)
  calc 1 - 2 * u ≤ (1 - u) * (1 - u ^ 2 / 4) * ((1 - u ^ 2 / 2) * (1 - u)) := by
        have second : 0 ≤ 3 / 2 * u ^ 3 := by positivity
        have third : 0 ≤ 1 / 8 * (u ^ 2 * (1 - u)) ^ 2 := by positivity
        linarith
    _ ≤ (1 - u) * (1 - u ^ 2 / 4) * ((1 - v ^ 2 / 2) * (1 - v)) :=
        mul_le_mul_of_nonneg_left wide outer
    _ = _ := by ring

/-- What they leave at most, if the squares are more precise than the result. -/
theorem factors_le_of_wider (le : v ≤ u / 2) :
    (1 + u) * ((1 + v ^ 2 / 2) * (1 + v)) ≤ 1 + 2 * u := by
  have squares : v ^ 2 ≤ (u / 2) ^ 2 := pow_le_pow_left₀ positive'.le le 2
  have wide : (1 + v ^ 2 / 2) * (1 + v) ≤ (1 + u ^ 2 / 8) * (1 + u / 2) :=
    mul_le_mul (by linarith) (by linarith) (by positivity) (by positivity)
  calc (1 + u) * ((1 + v ^ 2 / 2) * (1 + v)) ≤ (1 + u) * ((1 + u ^ 2 / 8) * (1 + u / 2)) :=
        mul_le_mul_of_nonneg_left wide (by positivity)
    _ ≤ 1 + 2 * u := by
        have quarter : u ^ 2 ≤ 1 / 4 := by nlinarith
        nlinarith

/-- What they leave at most, if the root is taken of a value that fits into the precision. -/
theorem factors_le_of_short (le : v ≤ u) :
    (1 + u - 2 * u ^ 2) * ((1 + v ^ 2 / 2) * (1 + v)) ≤ 1 + 2 * u := by
  have squares : v ^ 2 ≤ u ^ 2 := pow_le_pow_left₀ positive'.le le 2
  have wide : (1 + v ^ 2 / 2) * (1 + v) ≤ (1 + u ^ 2 / 2) * (1 + u) :=
    mul_le_mul (by linarith) (by linarith) (by positivity) (by positivity)
  have outer : 0 ≤ 1 + u - 2 * u ^ 2 := by nlinarith
  calc (1 + u - 2 * u ^ 2) * ((1 + v ^ 2 / 2) * (1 + v))
      ≤ (1 + u - 2 * u ^ 2) * ((1 + u ^ 2 / 2) * (1 + u)) :=
        mul_le_mul_of_nonneg_left wide outer
    _ = 1 + 2 * u - (u ^ 2 / 2 + u ^ 3 + u ^ 4 / 2 + u ^ 5) := by ring
    _ ≤ 1 + 2 * u := by
        have rest : 0 ≤ u ^ 2 / 2 + u ^ 3 + u ^ 4 / 2 + u ^ 5 := by positivity
        linarith

end Factors

/-! ### Counts above a root -/

/-- The root of a product is at most the mean of the factors. -/
theorem two_mul_le_of_sq {Q S τ : ℝ} (positive : 0 < Q) (square : τ ^ 2 = S * Q) :
    2 * τ ≤ Q + S := by
  have distance : 0 ≤ Q * (Q + S - 2 * τ) := by
    calc 0 ≤ (τ - Q) ^ 2 := sq_nonneg _
      _ = Q * (Q + S - 2 * τ) := by linear_combination square
  linarith [nonneg_of_mul_nonneg_right distance positive]

/-- A count `c` that is above a root `τ` by less than one, where `τ` is the root of `S` times the
least count `Q`: near `Q` the numbers `S` are rare, and far from it one is a smaller fraction. -/
theorem le_mul_of_rare {u Q S c τ : ℝ} (unit : u * Q = 1) (positive : 0 < u) (small : u ≤ 1 / 16)
    (least : Q ≤ τ) (square : τ ^ 2 = S * Q) (near : c ≤ τ + 1) (rare : 2 * c ≤ Q + S + 1) :
    c ≤ (1 + u - 2 * u ^ 2) * τ := by
  obtain ⟨d, rfl⟩ : ∃ d, τ = Q + d := ⟨τ - Q, by ring⟩
  have excess : 0 ≤ d := by linarith
  have value : S = Q + 2 * d + u * d ^ 2 := by
    have scaled : u * (S * Q) = u * (Q + d) ^ 2 := by rw [square]
    calc S = u * (S * Q) := by linear_combination (-S) * unit
      _ = u * (Q + d) ^ 2 := scaled
      _ = Q + 2 * d + u * d ^ 2 := by linear_combination (Q + 2 * d) * unit
  have product : (1 + u - 2 * u ^ 2) * (Q + d) = Q + d + 1 - 2 * u + (u - 2 * u ^ 2) * d := by
    linear_combination (1 - 2 * u) * unit
  have slope : 0 ≤ (u - 2 * u ^ 2) * d := mul_nonneg (by nlinarith) excess
  rw [product]
  rcases le_total d 3 with close | far
  · have squares : u * d ^ 2 ≤ u * 9 := mul_le_mul_of_nonneg_left (by nlinarith) positive.le
    linarith
  · have grows : (u - 2 * u ^ 2) * 3 ≤ (u - 2 * u ^ 2) * d :=
      mul_le_mul_of_nonneg_left far (by nlinarith)
    nlinarith

end Reckoner
