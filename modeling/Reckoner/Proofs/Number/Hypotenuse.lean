/-
The length of the hypotenuse, and where its squares leave the range.

The squares of the sides are checked against the range of results, although only their sum under the
root is the result. So the sides have half of the range: above it a square is an overflow, and below
it a square is flushed to zero, which does no harm only beside a side that is much longer.

* `Dyadic.squareRoot_le_of_length_le` — **the root of a value that fits into the precision is off by
  a little less than its last bit**, which is what is left at the largest precision, where the
  squares are no more precise than the result.
* `Dyadic.magnitude_square` — a square has twice the magnitude, but for one.
* `Builtin.hypot_near` — **the length is off by two last bits at most, if both sides are in the
  middle half of the range or the other side makes up for one below it**.
* `Builtin.hypot_overflow`, `Builtin.hypot_zero` — beyond that half it is an error above, and zero
  below; `Builtin.hypot_range` puts the three together.
* `Builtin.hypot_misses` — lengths in the range that are an error and zero.
-/

import Reckoner.Evaluation.Builtin
import Reckoner.Proofs.Number.Range
import Reckoner.Proofs.Number.Accuracy
import Reckoner.Proofs.Number.Within

namespace Dyadic

open Reckoner

variable {x y : Dyadic} {p : Nat}

/-- The square of a root that has at least `2 ^ (p - 1)` units is counted by `2 ^ (p - 1)`, if it
has no more than `p` bits. -/
theorem short_square (above : 0 < x.toRat) (short : x.length ≤ p) {τ : ℝ} {j : Int}
    (square : (x.toRat : ℝ) = τ ^ 2 * (2 ^ j) ^ 2) (least : (2 : ℝ) ^ (p - 1) ≤ τ) :
    ∃ S : Int, τ ^ 2 = S * 2 ^ (p - 1) := by
  have unit : (0 : ℝ) < (2 ^ j) ^ 2 := pow_pos (zpow_pos two_pos j) 2
  have powers (i : Nat) : (2 : ℝ) ^ (i + 2 * j) = 2 ^ i * (2 ^ j) ^ 2 := by
    rw [zpow_add₀ two_ne_zero, zpow_natCast, two_mul, zpow_add₀ two_ne_zero, ← sq]
  have size : (2 : Rat) ^ ((p - 1 + (p - 1) : Nat) + 2 * j) ≤ |x.toRat| := by
    rw [abs_of_pos above, ← Rat.cast_le (K := ℝ), Rat.cast_zpow, Rat.cast_ofNat, powers, square,
      pow_add, ← sq]
    exact mul_le_mul_of_nonneg_right (pow_le_pow_left₀ (by positivity) least 2) unit.le
  have large := lt_magnitude size
  unfold magnitude at large
  have last : (p - 1 : Nat) + 2 * j ≤ x.exponent := by omega
  have value := congrArg (fun d : Dyadic => (d.toRat : ℝ)) (eq_scaled last)
  simp only [cast_toRat_scaled] at value
  rw [square, powers] at value
  generalize x.significand * 2 ^ (x.exponent - ((p - 1 : Nat) + 2 * j)).toNat = S at value
  refine ⟨S, mul_right_cancel₀ unit.ne' ?_⟩
  calc τ ^ 2 * (2 ^ j) ^ 2 = S * (2 ^ (p - 1) * (2 ^ j) ^ 2) := value
    _ = S * 2 ^ (p - 1) * (2 ^ j) ^ 2 := by ring

/-- **The root of a value that fits into the precision is off by a little less than its last bit.**
Above a power of two, where the last bit is the largest fraction, such values are so far apart that
rounding up adds no more than one half of it. -/
theorem squareRoot_le_of_length_le (large : 5 ≤ p) (mode : Rounding) (above : 0 < x.toRat)
    (short : x.length ≤ p) :
    ((x.squareRoot mode p).toRat : ℝ) ≤
      (1 + lastBit p - 2 * lastBit p ^ 2) * √(x.toRat : ℝ) := by
  obtain ⟨c, j, equal, count, -, upper⟩ := squareRoot_counts (p := p) (by omega) mode above
  have unit : (0 : ℝ) < 2 ^ j := zpow_pos two_pos j
  obtain ⟨τ, root⟩ : ∃ τ, √(x.toRat : ℝ) = τ * 2 ^ j :=
    ⟨√(x.toRat : ℝ) / 2 ^ j, (div_mul_cancel₀ _ unit.ne').symm⟩
  have square : (x.toRat : ℝ) = τ ^ 2 * (2 ^ j) ^ 2 := by
    have nonnegative : (0 : ℝ) ≤ x.toRat := by exact_mod_cast above.le
    rw [← mul_pow, ← root, Real.sq_sqrt nonnegative]
  have powers : (2 : ℝ) ^ (j + p - 1) = 2 ^ (p - 1) * 2 ^ j := by
    rw [show j + p - 1 = (p - 1 : Nat) + j by omega, zpow_add₀ two_ne_zero, zpow_natCast]
  rw [root, powers] at count
  have least : (2 : ℝ) ^ (p - 1) ≤ τ := le_of_mul_le_mul_right count unit
  have near : (c : ℝ) < τ + 1 := by
    refine lt_of_mul_lt_mul_right ?_ unit.le
    calc c * 2 ^ j < τ * 2 ^ j + 2 ^ j := root ▸ upper
      _ = (τ + 1) * 2 ^ j := by ring
  obtain ⟨S, numerator⟩ := short_square above short square least
  have rare : 2 * c ≤ 2 ^ (p - 1) + S + 1 := by
    have mean := two_mul_le_of_sq (by positivity) numerator
    have strict : (2 * c : ℝ) < 2 ^ (p - 1) + S + 2 := by linarith
    have integers : 2 * c < 2 ^ (p - 1) + S + 2 := by exact_mod_cast strict
    omega
  have one : (lastBit p : ℝ) * 2 ^ (p - 1) = 1 := by exact_mod_cast lastBit_mul_pow (by omega)
  have positive : (0 : ℝ) < lastBit p := by exact_mod_cast lastBit_pos p
  have small : (lastBit p : ℝ) ≤ 1 / 16 := by
    have rational : lastBit p ≤ 1 / 16 := le_trans (lastBit_le_of_le large) (by decide +kernel)
    refine le_trans (Rat.cast_le.mpr rational) ?_
    norm_num
  have bound := le_mul_of_rare one positive small least numerator near.le (by exact_mod_cast rare)
  rw [equal, cast_toRat_scaled, root]
  calc c * 2 ^ j ≤ (1 + lastBit p - 2 * lastBit p ^ 2) * τ * 2 ^ j :=
        mul_le_mul_of_nonneg_right bound unit.le
    _ = (1 + lastBit p - 2 * lastBit p ^ 2) * (τ * 2 ^ j) := by ring

/-! ### Squares and their sum -/

/-- **A square has twice the magnitude, but for one**, whatever is rounded. -/
theorem magnitude_square (two_le : 2 ≤ p) (mode : Rounding) (nonzero : x ≠ 0) :
    2 * x.magnitude ≤ (x.product mode p x).magnitude + 1 ∧
      (x.product mode p x).magnitude ≤ 2 * x.magnitude + 1 := by
  have positive : 0 < p := by omega
  obtain ⟨factor, -, grows, -⟩ := cut_spec (p := 2 * p) (by omega) mode nonzero
  have square : 2 ^ ((x.cut mode (2 * p)).magnitude - 1 + ((x.cut mode (2 * p)).magnitude - 1)) ≤
      |(x.cut mode (2 * p) * x.cut mode (2 * p)).toRat| := by
    rw [toRat_mul, abs_mul, Rat.zpow_add (by decide)]
    exact mul_self_le_mul_self (two_zpow_pos _).le (le_abs_toRat factor)
  have large := lt_magnitude square
  have some : x.cut mode (2 * p) * x.cut mode (2 * p) ≠ 0 := by
    intro zero
    rw [zero, toRat_zero, abs_zero] at square
    exact absurd square (not_le.mpr (two_zpow_pos _))
  obtain ⟨rounded, -, atLeast, -⟩ := cut_spec positive mode some
  constructor
  · unfold product
    omega
  · -- The result is less than twice the exact square.
    have off := (product_offBy two_le mode x x).mono (slack_le two_le)
    have near := abs_sub_abs_le_abs_sub (x.product mode p x).toRat (x.toRat * x.toRat)
    have size : |x.toRat * x.toRat| < 2 ^ (x.magnitude + x.magnitude) := by
      rw [abs_mul, Rat.zpow_add (by decide)]
      exact mul_self_lt_mul_self (abs_nonneg _) (abs_toRat_lt nonzero)
    have double : (2 : Rat) ^ (2 * x.magnitude + 1) = 2 * 2 ^ (x.magnitude + x.magnitude) := by
      rw [show 2 * x.magnitude + 1 = 1 + (x.magnitude + x.magnitude) by omega,
        Rat.zpow_add (by decide)]
      rfl
    refine (magnitude_le_iff rounded).mpr ?_
    rw [toRat_abs, double]
    unfold OffBy at off
    show |(x.product mode p x).toRat| < _
    linarith [abs_nonneg (x.toRat * x.toRat)]

/-- How far a square is off, as factors. -/
theorem square_within (positive : 0 < p) (mode : Rounding) (x : Dyadic) :
    Within ((1 - lastBit p) * (1 - lastBit (2 * p)) ^ 2)
      ((1 + lastBit p) * (1 + lastBit (2 * p)) ^ 2) ((x.toRat : ℝ) ^ 2)
      (x.product mode p x).toRat := by
  have one (k : Nat) (some : 0 < k) : (lastBit k : ℝ) ≤ 1 := by
    have rational : lastBit k ≤ 1 := lastBit_le_of_le (p := 1) some
    exact_mod_cast rational
  have positive' (k : Nat) : (0 : ℝ) < lastBit k := by exact_mod_cast lastBit_pos k
  have factors := (Within.of_offBy_abs (cut_offBy mode (2 * p) x).cast).sq
    (by linarith [one (2 * p) (by omega)]) (abs_nonneg _)
  rw [sq_abs, sq_abs] at factors
  have rounded := Within.of_offBy (cut_offBy mode p (x.cut mode (2 * p) * x.cut mode (2 * p))).cast
    (by rw [toRat_mul, Rat.cast_mul]; exact mul_self_nonneg _)
  rw [toRat_mul, Rat.cast_mul, ← sq] at rounded
  exact factors.trans rounded (by linarith [one p positive]) (by linarith [positive' p])

/-- Values that are not below zero are added exactly and rounded once. -/
theorem sum_of_nonneg (mode : Rounding) (above : x.isNegative = false)
    (above' : y.isNegative = false) : x.sum mode p y = (x + y).cut mode p := by
  unfold sum
  by_cases zero : x = 0
  · rw [if_pos zero, zero, Dyadic.zero_add]
  · by_cases zero' : y = 0
    · rw [if_neg zero, if_pos zero', zero', Dyadic.add_zero]
    · rw [if_neg zero, if_neg zero', if_pos (.inr (above.trans above'.symm))]

end Dyadic

namespace Reckoner

namespace Number

variable {x : Number} {ctx : Context}

/-! ### Squares that are checked -/

theorem mul_self_eq (x : Number) (ctx : Context) : x.mul x ctx =
    checked ⟨x.value.product ctx.rounding ctx.bits x.value, ctx.bits⟩ "multiplication" := rfl

/-- The range is the only reason for which a check fails. -/
theorem checked_eq_error {function : String} {error : DomainError}
    (failed : x.checked function = .error error) : error = .overflow function := by
  unfold checked at failed
  split at failed
  · exact (Except.error.inj failed).symm
  · split at failed
    · cases failed
    · cases failed

/-- Above the middle half of the range a square is an overflow. -/
theorem mul_self_overflow (large : maxMagnitude < 2 * x.magnitude) (ctx : Context) :
    x.mul x ctx = .error (.overflow "multiplication") := by
  have nonzero : x.value ≠ 0 := by
    intro zero
    have none : x.magnitude = 0 := by
      unfold magnitude
      rw [zero]
      rfl
    rw [none] at large
    exact absurd large (by decide)
  have square := (Dyadic.magnitude_square ctx.minPrecision_le ctx.rounding nonzero).1
  have same : x.magnitude = x.value.magnitude := rfl
  have even : (maxMagnitude : Int) = 2 * 2 ^ 19 := rfl
  rw [mul_self_eq, checked, magnitude_mk, if_pos (by omega)]

theorem product_zero (mode : Rounding) (p : Nat) : (0 : Dyadic).product mode p 0 = 0 := by
  unfold Dyadic.product
  rw [Dyadic.zero_cut, Dyadic.zero_mul, Dyadic.zero_cut]

/-- Below the middle half of the range it is zero. -/
theorem mul_self_zero (small : x.value = 0 ∨ 2 * x.magnitude < -maxMagnitude) (ctx : Context) :
    ∃ a, x.mul x ctx = .ok a ∧ a.value = 0 := by
  rw [mul_self_eq]
  by_cases zero : x.value = 0
  · rw [zero, product_zero]
    exact ⟨_, rfl, rfl⟩
  · have square := (Dyadic.magnitude_square ctx.minPrecision_le ctx.rounding zero).2
    have below := small.resolve_left zero
    have same : x.magnitude = x.value.magnitude := rfl
    have even : (maxMagnitude : Int) = 2 * 2 ^ 19 := rfl
    rw [checked, magnitude_mk, if_neg (by omega), if_pos (by omega)]
    exact ⟨_, rfl, rfl⟩

/-- **In the lower half of the range a square is not an overflow**, and it is off by its roundings
only unless it is flushed to zero. -/
theorem mul_self_within (inside : 2 * x.magnitude < maxMagnitude) (ctx : Context) :
    ∃ a, x.mul x ctx = .ok a ∧ a.isNegative = false ∧
      a.value.toRat ≤ (1 + lastBit ctx.bits) * (1 + lastBit (2 * ctx.bits)) ^ 2 *
        (x.value.toRat : ℝ) ^ 2 ∧
      (-maxMagnitude < 2 * x.magnitude →
        (1 - lastBit ctx.bits) * (1 - lastBit (2 * ctx.bits)) ^ 2 * (x.value.toRat : ℝ) ^ 2 ≤
          a.value.toRat) := by
  have within := Dyadic.square_within (positive_bits ctx) ctx.rounding x.value
  by_cases none : x.value = 0
  · obtain ⟨a, squared, zero⟩ := mul_self_zero (.inl none) ctx
    refine ⟨a, squared, (square_spec squared).1, ?_⟩
    rw [none, zero, Dyadic.toRat_zero, Rat.cast_zero]
    simp
  · obtain ⟨atLeast, atMost⟩ := Dyadic.magnitude_square ctx.minPrecision_le ctx.rounding none
    have same : x.magnitude = x.value.magnitude := rfl
    rw [mul_self_eq, checked, magnitude_mk, if_neg (by omega)]
    split
    · refine ⟨zero, rfl, rfl, ?_, fun above => by omega⟩
      have size (k : Nat) : (0 : ℝ) < lastBit k := by exact_mod_cast lastBit_pos k
      have least := mul_nonneg (mul_nonneg (add_nonneg zero_le_one (size ctx.bits).le)
        (sq_nonneg (1 + (lastBit (2 * ctx.bits) : ℝ)))) (sq_nonneg (x.value.toRat : ℝ))
      show ((0 : Dyadic).toRat : ℝ) ≤ _
      rw [Dyadic.toRat_zero, Rat.cast_zero]
      exact least
    · exact ⟨_, rfl, Dyadic.isNegative_product_self (positive_bits ctx) x.value, within.upper,
        fun _ => within.lower⟩

theorem toRat_nonneg (sign : x.isNegative = false) : 0 ≤ x.value.toRat :=
  not_lt.mp (mt x.value.isNegative_iff.mpr (Bool.eq_false_iff.mp sign))

theorem sqrt_of_nonneg (nonnegative : 0 ≤ x.value.toRat) (ctx : Context) :
    ∃ r, x.sqrt ctx = .ok r := by
  have sign : ¬x.isNegative := mt x.value.isNegative_iff.mp (not_lt.mpr nonnegative)
  unfold sqrt
  rw [if_neg sign]
  split
  · exact ⟨_, rfl⟩
  · exact ⟨_, rfl⟩

end Number

/-! ### The root of their sum -/

/-- A side whose square may be flushed is short beside one that is far above it. -/
theorem square_le_of_apart {x y : Dyadic} {p : Nat} (nonzero : y ≠ 0)
    (apart : x.magnitude + p + 1 ≤ y.magnitude) :
    (x.toRat : ℝ) ^ 2 ≤ lastBit p ^ 2 / 4 * (y.toRat : ℝ) ^ 2 := by
  have size : |x.toRat| ≤ lastBit p / 2 * |y.toRat| := by
    by_cases zero : x = 0
    · rw [zero, Dyadic.toRat_zero, abs_zero]
      exact mul_nonneg (half_pos (lastBit_pos p)).le (abs_nonneg _)
    · have half : lastBit p / 2 = 2 ^ (-p : Int) := by
        have double := two_mul_lastBit_succ p
        have power : lastBit (p + 1) = 2 ^ (-p : Int) := by
          unfold lastBit
          rw [show (1 - (p + 1 : Nat) : Int) = -p by omega]
        linarith
      rw [half]
      calc |x.toRat| ≤ 2 ^ x.magnitude := (Dyadic.abs_toRat_lt zero).le
        _ ≤ 2 ^ (-p + (y.magnitude - 1)) := zpow_le_zpow_right₀ one_le_two (by omega)
        _ = 2 ^ (-p : Int) * 2 ^ (y.magnitude - 1) := Rat.zpow_add (by decide) _ _
        _ ≤ 2 ^ (-p : Int) * |y.toRat| :=
          mul_le_mul_of_nonneg_left (Dyadic.le_abs_toRat nonzero) (two_zpow_pos _).le
  have squares := pow_le_pow_left₀ (abs_nonneg _) size 2
  rw [mul_pow, div_pow, sq_abs, sq_abs] at squares
  have real := Rat.cast_le (K := ℝ).mpr squares
  push_cast at real
  linarith

section Roots

variable {p w : Nat} (two_le : 2 ≤ p) (wider : p < w ∨ p = w ∧ 5 ≤ p) (mode : Rounding)
  {s : Dyadic} (above : 0 < s.toRat) (short : s.length ≤ w)

include two_le

theorem lastBit_bounds (k : Nat) (le : p ≤ k) : (0 : ℝ) < lastBit k ∧ (lastBit k : ℝ) ≤ 1 / 2 := by
  have most : lastBit k ≤ 1 / 2 := lastBit_le_half (le_trans two_le le)
  refine ⟨by exact_mod_cast lastBit_pos k, le_trans (Rat.cast_le.mpr most) ?_⟩
  norm_num

omit two_le in
theorem lastBit_double (k : Nat) : (lastBit (2 * k) : ℝ) = lastBit k ^ 2 / 2 := by
  have real := congrArg (Rat.cast (K := ℝ)) (two_mul_lastBit_double k)
  push_cast at real
  linarith

include wider above short

/-- The root of a sum has room for what its squares were rounded up by: they are more precise than
the root, or the sum fits into its precision. -/
theorem squareRoot_within : ∃ k : ℝ, Within (1 - lastBit p) k √(s.toRat : ℝ)
    (s.squareRoot mode p).toRat ∧ 0 ≤ k ∧
      k * ((1 + lastBit w ^ 2 / 2) * (1 + lastBit w)) ≤ 1 + 2 * lastBit p := by
  obtain ⟨positive, half⟩ := lastBit_bounds two_le p le_rfl
  obtain ⟨positive', -⟩ := lastBit_bounds two_le w (by omega)
  have off := Within.of_offBy (Dyadic.squareRoot_offBy (p := p) (by omega) mode above)
    (Real.sqrt_nonneg _)
  rcases wider with less | ⟨rfl, large⟩
  · have finer : (lastBit w : ℝ) ≤ lastBit p / 2 := by
      have rational : 2 * lastBit w ≤ lastBit p :=
        two_mul_lastBit_succ p ▸ mul_le_mul_of_nonneg_left (lastBit_le_of_le less) zero_le_two
      have real := Rat.cast_le (K := ℝ).mpr rational
      push_cast at real
      linarith
    exact ⟨_, off, by linarith, factors_le_of_wider positive half positive' finer⟩
  · have tight := Dyadic.squareRoot_le_of_length_le large mode above short
    exact ⟨_, ⟨off.lower, tight⟩, by nlinarith, factors_le_of_short positive half positive' le_rfl⟩

/-- **The root of a sum of squares that is off by factors** is off by two last bits at most. -/
theorem root_of_within {square : ℝ}
    (within : Within (((1 - lastBit p ^ 2 / 4) * ((1 - lastBit w ^ 2 / 2) * (1 - lastBit w))) ^ 2)
      (((1 + lastBit w ^ 2 / 2) * (1 + lastBit w)) ^ 2) square s.toRat) :
    |((s.squareRoot mode p).toRat : ℝ) - √square| ≤ 2 * lastBit p * √square := by
  obtain ⟨positive, half⟩ := lastBit_bounds two_le p le_rfl
  obtain ⟨positive', half'⟩ := lastBit_bounds two_le w (by omega)
  have finer : (lastBit w : ℝ) ≤ lastBit p := by
    have le : p ≤ w := by omega
    exact_mod_cast lastBit_le_of_le le
  obtain ⟨k, rounded, nonnegative, upper⟩ := squareRoot_within two_le wider mode above short
  have lower := one_sub_le_factors positive half positive' finer
  have root := within.sqrt (mul_nonneg (by nlinarith) (mul_nonneg (by nlinarith) (by linarith)))
    (by positivity)
  have both := root.trans rounded (by linarith) nonnegative
  have exact := Real.sqrt_nonneg square
  have least := mul_le_mul_of_nonneg_right lower exact
  have most := mul_le_mul_of_nonneg_right upper exact
  rw [abs_le]
  constructor
  · linarith [both.lower]
  · linarith [both.upper]

end Roots

namespace Builtin

variable {x y a b : Number} {ctx : Context}

/-- The squares are more precise than the root, but for the largest precision. -/
theorem lt_withBits_double (ctx : Context) : ctx.bits < (ctx.withBits (2 * ctx.bits)).bits ∨
    ctx.bits = (ctx.withBits (2 * ctx.bits)).bits ∧ 5 ≤ ctx.bits := by
  have least := ctx.minPrecision_le
  have most := ctx.le_maxPrecision
  have limits : minPrecision = 2 ∧ maxPrecision = 2 ^ 20 := ⟨rfl, rfl⟩
  show ctx.bits < max minPrecision (min (2 * ctx.bits) maxPrecision) ∨
    ctx.bits = max minPrecision (min (2 * ctx.bits) maxPrecision) ∧ 5 ≤ ctx.bits
  omega

theorem hypot_eq (squared : x.mul x (ctx.withBits (2 * ctx.bits)) = .ok a)
    (squared' : y.mul y (ctx.withBits (2 * ctx.bits)) = .ok b) :
    hypot x y ctx = (a.add b (ctx.withBits (2 * ctx.bits))).sqrt ctx := by
  show (x.mul x (ctx.withBits (2 * ctx.bits)) >>= fun a =>
    y.mul y (ctx.withBits (2 * ctx.bits)) >>= fun b => _) = _
  rw [squared, squared']
  rfl

/-- **The root of the rounded sum of two squares.** -/
theorem sqrt_add_near {wide : Context}
    (wider : ctx.bits < wide.bits ∨ ctx.bits = wide.bits ∧ 5 ≤ ctx.bits)
    (above : a.isNegative = false) (above' : b.isNegative = false) {square : ℝ}
    (within : Within ((1 - lastBit ctx.bits ^ 2 / 4) ^ 2 *
        ((1 - lastBit wide.bits) * (1 - lastBit (2 * wide.bits)) ^ 2))
      ((1 + lastBit wide.bits) * (1 + lastBit (2 * wide.bits)) ^ 2) square
      (a.value.toRat + b.value.toRat)) :
    ∃ r, (a.add b wide).sqrt ctx = .ok r ∧
      |(r.value.toRat : ℝ) - √square| ≤ 2 * lastBit ctx.bits * √square := by
  have two_le : 2 ≤ ctx.bits := ctx.minPrecision_le
  obtain ⟨positive, half⟩ := lastBit_bounds two_le ctx.bits le_rfl
  obtain ⟨positive', half'⟩ := lastBit_bounds two_le wide.bits (by omega)
  have total : 0 ≤ (a.value + b.value).toRat := by
    rw [Dyadic.toRat_add]
    exact add_nonneg (Number.toRat_nonneg above) (Number.toRat_nonneg above')
  have rounded := Within.of_offBy (Dyadic.cut_offBy wide.rounding wide.bits
    (a.value + b.value)).cast (by exact_mod_cast total)
  rw [Dyadic.toRat_add, Rat.cast_add] at rounded
  have value : (a.add b wide).value = (a.value + b.value).cut wide.rounding wide.bits :=
    Dyadic.sum_of_nonneg wide.rounding above above'
  have both := within.trans rounded (by linarith) (by linarith)
  rw [← value, lastBit_double] at both
  have sum : Within
      (((1 - lastBit ctx.bits ^ 2 / 4) *
        ((1 - lastBit wide.bits ^ 2 / 2) * (1 - lastBit wide.bits))) ^ 2)
      (((1 + lastBit wide.bits ^ 2 / 2) * (1 + lastBit wide.bits)) ^ 2) square
      (a.add b wide).value.toRat := ⟨by linarith [both.lower], by linarith [both.upper]⟩
  have least := Dyadic.cut_nonneg (Number.positive_bits wide) wide.rounding total
  rw [← value] at least
  obtain ⟨r, rooted⟩ := Number.sqrt_of_nonneg least ctx
  refine ⟨r, rooted, ?_⟩
  rcases Number.sqrt_eq_ok rooted with ⟨zero, none⟩ | ⟨above, root⟩
  · have factor : 0 < (1 - lastBit ctx.bits ^ 2 / 4 : ℝ) *
        ((1 - lastBit wide.bits ^ 2 / 2) * (1 - lastBit wide.bits)) :=
      mul_pos (by nlinarith) (mul_pos (by nlinarith) (by linarith))
    have below := sum.lower
    rw [zero, Dyadic.toRat_zero, Rat.cast_zero] at below
    have nothing : √square = 0 :=
      Real.sqrt_eq_zero_of_nonpos (nonpos_of_mul_nonpos_right below (pow_pos factor 2))
    rw [none, nothing, Dyadic.toRat_zero, Rat.cast_zero, sub_zero, abs_zero, mul_zero]
  · have short : (a.add b wide).value.length ≤ wide.bits := by
      rw [value]
      exact Dyadic.length_cut_le (Number.positive_bits wide) wide.rounding _
    rw [root]
    exact root_of_within two_le wider ctx.rounding above short sum

/-- **The length of the hypotenuse is off by two last bits at most, if no side is above the middle
half of the range**, and a side below it is short beside the other one. -/
theorem hypot_near (x y : Number) (ctx : Context) (first : 2 * x.magnitude < maxMagnitude)
    (second : 2 * y.magnitude < maxMagnitude)
    (kept : -maxMagnitude < 2 * x.magnitude ∨
      y.value ≠ 0 ∧ x.magnitude + ctx.bits + 1 ≤ y.magnitude)
    (kept' : -maxMagnitude < 2 * y.magnitude ∨
      x.value ≠ 0 ∧ y.magnitude + ctx.bits + 1 ≤ x.magnitude) :
    ∃ r, hypot x y ctx = .ok r ∧
      |(r.value.toRat : ℝ) - √((x.value.toRat : ℝ) ^ 2 + (y.value.toRat : ℝ) ^ 2)| ≤
        2 ^ (2 - ctx.bits : Int) * √((x.value.toRat : ℝ) ^ 2 + (y.value.toRat : ℝ) ^ 2) := by
  obtain ⟨a, squared, above, upper, lower⟩ :=
    Number.mul_self_within first (ctx.withBits (2 * ctx.bits))
  obtain ⟨b, squared', above', upper', lower'⟩ :=
    Number.mul_self_within second (ctx.withBits (2 * ctx.bits))
  have two_le : 2 ≤ ctx.bits := ctx.minPrecision_le
  have wider := lt_withBits_double ctx
  obtain ⟨positive, half⟩ := lastBit_bounds two_le ctx.bits le_rfl
  obtain ⟨positive', half'⟩ :=
    lastBit_bounds two_le (ctx.withBits (2 * ctx.bits)).bits (by omega)
  have least : (0 : ℝ) ≤ (1 - lastBit (ctx.withBits (2 * ctx.bits)).bits) *
      (1 - lastBit (2 * (ctx.withBits (2 * ctx.bits)).bits)) ^ 2 :=
    mul_nonneg (by linarith) (sq_nonneg _)
  have within := Within.sum (sq_nonneg (x.value.toRat : ℝ)) (sq_nonneg (y.value.toRat : ℝ)) least
    (η := lastBit ctx.bits ^ 2 / 4) (by positivity) (by nlinarith)
    (by exact_mod_cast Number.toRat_nonneg above) (by exact_mod_cast Number.toRat_nonneg above')
    upper upper'
    (kept.imp lower fun apart => ⟨square_le_of_apart apart.1 apart.2, lower' (by omega)⟩)
    (kept'.imp lower' fun apart => ⟨square_le_of_apart apart.1 apart.2, lower (by omega)⟩)
  obtain ⟨r, rooted, near⟩ := sqrt_add_near wider above above' within
  have twice : (2 * lastBit ctx.bits : ℝ) = 2 ^ (2 - ctx.bits : Int) := by
    have rational := congrArg (Rat.cast (K := ℝ)) (two_mul_lastBit ctx.bits)
    rwa [Rat.cast_mul, Rat.cast_zpow, Rat.cast_ofNat] at rational
  rw [twice] at near
  exact ⟨r, (hypot_eq squared squared').trans rooted, near⟩

/-- A side above the middle half of the range is an overflow, whatever the other one is. -/
theorem hypot_overflow (large : maxMagnitude < 2 * x.magnitude ∨ maxMagnitude < 2 * y.magnitude)
    (ctx : Context) : hypot x y ctx = .error (.overflow "multiplication") := by
  refine bind_eq_error.mpr ?_
  by_cases long : maxMagnitude < 2 * x.magnitude
  · exact .inl (Number.mul_self_overflow long _)
  · have failed := Number.mul_self_overflow (large.resolve_left long)
      (ctx.withBits (2 * ctx.bits))
    cases squared : x.mul x (ctx.withBits (2 * ctx.bits)) with
    | error fault => exact .inl (congrArg Except.error (Number.checked_eq_error squared))
    | ok a => exact .inr ⟨a, rfl, bind_eq_error.mpr (.inl failed)⟩

/-- Two sides below it have the length zero. -/
theorem hypot_zero (first : x.value = 0 ∨ 2 * x.magnitude < -maxMagnitude)
    (second : y.value = 0 ∨ 2 * y.magnitude < -maxMagnitude) (ctx : Context) :
    ∃ r, hypot x y ctx = .ok r ∧ r.value = 0 := by
  obtain ⟨a, squared, zero⟩ := Number.mul_self_zero first (ctx.withBits (2 * ctx.bits))
  obtain ⟨b, squared', zero'⟩ := Number.mul_self_zero second (ctx.withBits (2 * ctx.bits))
  have none : (a.add b (ctx.withBits (2 * ctx.bits))).value = 0 := by
    unfold Number.add
    rw [zero, zero', Dyadic.sum_of_nonneg _ rfl rfl, Dyadic.zero_add, Dyadic.zero_cut]
  have nonnegative : 0 ≤ (a.add b (ctx.withBits (2 * ctx.bits))).value.toRat := by
    rw [none, Dyadic.toRat_zero]
  obtain ⟨r, rooted⟩ := Number.sqrt_of_nonneg nonnegative ctx
  refine ⟨r, (hypot_eq squared squared').trans rooted, ?_⟩
  refine ((Number.sqrt_eq_ok rooted).resolve_right fun some => ?_).2
  rw [none, Dyadic.toRat_zero] at some
  exact lt_irrefl 0 some.1

/-- **The length of the hypotenuse, in every precision.** If no side is above the middle half of the
range, and a side below it is shorter than the other one by more than the precision, it is off by
two last bits at most. A side above that half is an overflow, whether or not the length is in the
range, and two sides below it have the length zero. -/
theorem hypot_range (x y : Number) (ctx : Context) :
    (2 * x.magnitude < maxMagnitude → 2 * y.magnitude < maxMagnitude →
      (-maxMagnitude < 2 * x.magnitude ∨
        y.value ≠ 0 ∧ x.magnitude + ctx.bits + 1 ≤ y.magnitude) →
      (-maxMagnitude < 2 * y.magnitude ∨
        x.value ≠ 0 ∧ y.magnitude + ctx.bits + 1 ≤ x.magnitude) →
      ∃ r, hypot x y ctx = .ok r ∧
        |(r.value.toRat : ℝ) - √((x.value.toRat : ℝ) ^ 2 + (y.value.toRat : ℝ) ^ 2)| ≤
          2 ^ (2 - ctx.bits : Int) *
            √((x.value.toRat : ℝ) ^ 2 + (y.value.toRat : ℝ) ^ 2)) ∧
    (maxMagnitude < 2 * x.magnitude ∨ maxMagnitude < 2 * y.magnitude →
      hypot x y ctx = .error (.overflow "multiplication")) ∧
    (x.value = 0 ∨ 2 * x.magnitude < -maxMagnitude →
      y.value = 0 ∨ 2 * y.magnitude < -maxMagnitude →
        ∃ r, hypot x y ctx = .ok r ∧ r.value = 0) :=
  ⟨hypot_near x y ctx, fun large => hypot_overflow large ctx,
    fun first second => hypot_zero first second ctx⟩

/-- The length for the sides `3` and `4`, far up in the middle half of the range. -/
theorem hypot_range_triple : ∃ r,
    hypot ⟨.scaled 3 500000, 2⟩ ⟨.scaled 4 500000, 3⟩ .standard = .ok r ∧
    |(r.value.toRat : ℝ) - √(((Dyadic.scaled 3 500000).toRat : ℝ) ^ 2 +
        ((Dyadic.scaled 4 500000).toRat : ℝ) ^ 2)| ≤
      2 ^ (2 - Context.standard.bits : Int) * √(((Dyadic.scaled 3 500000).toRat : ℝ) ^ 2 +
        ((Dyadic.scaled 4 500000).toRat : ℝ) ^ 2) := by
  refine (hypot_range ⟨.scaled 3 500000, 2⟩ ⟨.scaled 4 500000, 3⟩ .standard).1 ?_ ?_ (.inl ?_)
    (.inl ?_)
  · decide +kernel
  · decide +kernel
  · decide +kernel
  · decide +kernel

/-- A length in the range that is an overflow, and one in the range that is zero. -/
theorem hypot_misses :
    (hypot ⟨.scaled 1 600000, 1⟩ .zero .standard = .error (.overflow "multiplication") ∧
      (Dyadic.scaled 1 600000).magnitude < maxMagnitude) ∧
    (∃ r, hypot ⟨.scaled 3 (-600000), 2⟩ ⟨.scaled 4 (-600000), 3⟩ .standard = .ok r ∧
      r.value = 0) ∧
    Dyadic.scaled 3 (-600000) * .scaled 3 (-600000) +
      .scaled 4 (-600000) * .scaled 4 (-600000) =
        Dyadic.scaled 5 (-600000) * .scaled 5 (-600000) ∧
    -maxMagnitude < (Dyadic.scaled 5 (-600000)).magnitude := by
  refine ⟨⟨hypot_overflow (.inl ?_) _, ?_⟩, hypot_zero (.inr ?_) (.inr ?_) _, ?_, ?_⟩
  · decide +kernel
  · decide +kernel
  · decide +kernel
  · decide +kernel
  · decide +kernel
  · decide +kernel

end Builtin

end Reckoner
