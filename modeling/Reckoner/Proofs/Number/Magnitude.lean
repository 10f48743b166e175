/-
Magnitudes through rounding, sums and square roots.

* `Dyadic.magnitude_spec` — a value of magnitude `g` lies between `2 ^ (g - 1)` and `2 ^ g` in size.
* `Dyadic.cut_spec` — rounding keeps the sign, and raises the magnitude by one at most.
* `Dyadic.magnitude_sum` — a sum of values above zero has about the magnitude of the larger one.
* `integerSqrt_spec` — **the integer root is the largest one whose square is not above the
  number**.
* `Dyadic.magnitude_squareRoot` — a square root has about half the magnitude.
-/

import Mathlib.Algebra.Order.Field.Rat
import Mathlib.Algebra.Order.Field.Basic
import Reckoner.Proofs.Number.Doubles

namespace Reckoner

/-- Rounding away from zero or not at all keeps the sign. -/
theorem Rounding.round_neg_iff {h : Int} {rest : Rest} (outward : rest.Outward h) (nonzero : h ≠ 0)
    (mode : Rounding) : mode.round h rest < 0 ↔ h < 0 := by
  cases rest with
  | zero => exact Iff.rfl
  | fraction negative againstHalf =>
    rcases mode.round_fraction h negative againstHalf with stays | moves
    · rw [stays]
    · unfold Rest.Outward at outward
      rw [moves]
      cases negative with
      | false =>
        simp only [Bool.false_eq_true, if_false] at outward ⊢
        omega
      | true =>
        simp only [if_true] at outward ⊢
        omega

/-- A numerator one larger has one more bit at most. -/
theorem bitLength_le_succ {m n : Nat} (le : m ≤ n + 1) : bitLength m ≤ bitLength n + 1 := by
  have below := lt_two_pow_bitLength n
  rw [bitLength_le_iff, Nat.pow_succ]
  omega

end Reckoner

namespace Dyadic

open Reckoner

variable {x y : Dyadic} {p : Nat} {mode : Rounding}

/-! ### The size of a value -/

theorem abs_eq (x : Dyadic) : x.abs = scaled x.significand.natAbs x.exponent := by
  rw [← abs_scaled, scaled_self]

theorem two_zpow_add (k : Nat) (e : Int) :
    (2 : Rat) ^ (k + e) = ((2 ^ k : Nat) : Rat) * 2 ^ e := by
  rw [Rat.zpow_add (by decide), Rat.zpow_natCast, Rat.natCast_pow]
  rfl

/-- **A value of magnitude `g` lies between `2 ^ (g - 1)` and `2 ^ g` in size.** -/
theorem magnitude_spec (nonzero : x ≠ 0) :
    2 ^ (x.magnitude - 1) ≤ x.abs.toRat ∧ x.abs.toRat < 2 ^ x.magnitude := by
  have counted : 0 < x.significand.natAbs := Int.natAbs_pos.mpr (significand_ne_zero nonzero)
  have unit : (0 : Rat) < 2 ^ x.exponent := Rat.zpow_pos (by decide)
  have some : 0 < x.length := bitLength_pos counted
  have first : x.magnitude - 1 = (x.length - 1 : Nat) + x.exponent := by
    unfold magnitude
    omega
  rw [abs_eq, toRat_scaled, first, two_zpow_add, magnitude, two_zpow_add, Rat.intCast_natCast]
  constructor
  · refine Rat.mul_le_mul_of_nonneg_right (Rat.natCast_le_natCast.mpr ?_) (Rat.le_of_lt unit)
    refine Nat.not_lt.mp fun shorter => ?_
    have := bitLength_le_iff.mpr shorter
    unfold length at some this
    omega
  · rw [Rat.mul_lt_mul_right unit, Rat.natCast_lt_natCast]
    exact lt_two_pow_bitLength _

/-- **A magnitude is at most `g` exactly if the value is below `2 ^ g` in size.** -/
theorem magnitude_le_iff (nonzero : x ≠ 0) {g : Int} :
    x.magnitude ≤ g ↔ x.abs.toRat < 2 ^ g := by
  obtain ⟨lower, upper⟩ := magnitude_spec nonzero
  constructor
  · intro small
    exact Std.lt_of_lt_of_le upper (zpow_le_zpow_right₀ one_le_two small)
  · intro below
    refine Int.not_lt.mp fun large => ?_
    have least := Rat.le_trans
      (zpow_le_zpow_right₀ one_le_two (show g ≤ x.magnitude - 1 by omega)) lower
    exact absurd below (Rat.not_lt.mpr least)

theorem magnitude_neg (x : Dyadic) : (-x).magnitude = x.magnitude := by
  by_cases zero : x = 0
  · rw [zero]
    rfl
  · have counted := significand_ne_zero zero
    rw [← scaled_self x, neg_scaled, magnitude_scaled (by omega), magnitude_scaled counted,
      Int.natAbs_neg]

/-! ### Rounding -/

/-- **Rounding to `p` bits keeps the sign of a value, and its magnitude but for one.** -/
theorem cut_spec (positive : 0 < p) (mode : Rounding) (nonzero : x ≠ 0) :
    x.cut mode p ≠ 0 ∧ (x.cut mode p).isNegative = x.isNegative ∧
      x.magnitude ≤ (x.cut mode p).magnitude ∧ (x.cut mode p).magnitude ≤ x.magnitude + 1 := by
  by_cases long : p < x.length
  · obtain ⟨rest, outward, equal⟩ := cut_of_long long mode
    have bits := bitLength_tdiv_of_long long
    generalize truncated : x.significand.tdiv (2 ^ (x.length - p)) = h at outward equal bits
    have counted : h ≠ 0 := by
      intro zero
      rw [zero] at bits
      exact absurd bits (Nat.ne_of_lt positive)
    have sign : h < 0 ↔ x.significand < 0 := by
      have power : (0 : Int) ≤ 2 ^ (x.length - p) := Int.le_of_lt (Int.pow_pos (by decide))
      rw [← truncated] at counted ⊢
      by_cases side : x.significand < 0
      · have quotient := Int.tdiv_nonneg (a := -x.significand) (by omega) power
        rw [Int.neg_tdiv] at quotient
        omega
      · have quotient := Int.tdiv_nonneg (Int.not_lt.mp side) power
        omega
    have away := Rounding.natAbs_le_round outward mode
    have near := bitLength_le_succ (mode.natAbs_round_le h rest)
    have rounded : mode.round h rest ≠ 0 := by omega
    rw [equal, magnitude_scaled rounded]
    refine ⟨mt scaled_eq_zero_iff.mp rounded, ?_, ?_⟩
    · rw [isNegative_scaled, isNegative, decide_eq_decide, Rounding.round_neg_iff outward counted,
        sign]
    · have atLeast := bitLength_mono away
      unfold magnitude
      omega
  · have same : x.cut mode p = x := cut_eq_self_iff.mpr (Nat.not_lt.mp long)
    rw [same]
    exact ⟨nonzero, rfl, Int.le_refl _, by omega⟩

theorem cut_eq_zero_iff (positive : 0 < p) : x.cut mode p = 0 ↔ x = 0 := by
  constructor
  · intro zero
    by_cases nonzero : x = 0
    · exact nonzero
    · exact absurd zero (cut_spec positive mode nonzero).1
  · intro zero
    rw [zero]
    exact zero_cut mode p

/-! ### Squares and sums -/

/-- A value above zero has a numerator above zero in a unit at or below its last bit. -/
theorem exists_numerator (nonzero : x ≠ 0) (above : x.isNegative = false) {u : Int}
    (below : u ≤ x.exponent) : ∃ m : Nat, 0 < m ∧ x = scaled m u := by
  have sign := of_decide_eq_false above
  have counted := significand_ne_zero nonzero
  obtain ⟨s, equal⟩ := Int.eq_ofNat_of_zero_le (Int.not_lt.mp sign)
  refine ⟨s * 2 ^ (x.exponent - u).toNat, ?_, ?_⟩
  · exact Nat.mul_pos (by omega) (Nat.pow_pos (by decide))
  · rw [Int.natCast_mul, Int.natCast_pow, ← equal]
    exact eq_scaled below

theorem isNegative_mul_self (x : Dyadic) : (x * x).isNegative = false := by
  by_cases zero : x = 0
  · rw [zero, Dyadic.zero_mul]
    rfl
  · refine decide_eq_false ?_
    rw [(mul_parts zero zero).1]
    have square := Int.natAbs_mul_self' x.significand
    have nonnegative := Int.mul_nonneg (Int.natCast_nonneg x.significand.natAbs)
      (Int.natCast_nonneg x.significand.natAbs)
    omega

/-- The product of a value with itself is not below zero. -/
theorem isNegative_product_self (positive : 0 < p) (x : Dyadic) :
    (x.product mode p x).isNegative = false := by
  unfold product
  generalize x.cut mode (2 * p) = y
  by_cases zero : y * y = 0
  · rw [zero, (cut_eq_zero_iff positive).mpr rfl]
    rfl
  · rw [(cut_spec positive mode zero).2.1, isNegative_mul_self]

/-- The magnitude of a sum of values above zero is that of the larger one, or one more. -/
theorem magnitude_add (nonzero : x ≠ 0) (nonzero' : y ≠ 0) (above : x.isNegative = false)
    (above' : y.isNegative = false) : x + y ≠ 0 ∧ x.magnitude ≤ (x + y).magnitude ∧
      (x + y).magnitude ≤ max x.magnitude y.magnitude + 1 := by
  obtain ⟨m, some, equal⟩ := exists_numerator nonzero above (Int.min_le_left _ y.exponent)
  obtain ⟨n, some', equal'⟩ := exists_numerator nonzero' above' (Int.min_le_right x.exponent _)
  generalize min x.exponent y.exponent = e at equal equal'
  have below := lt_two_pow_bitLength m
  have below' := lt_two_pow_bitLength n
  have atLeast : bitLength m ≤ bitLength (m + n) := bitLength_mono (Nat.le_add_right m n)
  have atMost : bitLength (m + n) ≤ max (bitLength m) (bitLength n) + 1 := by
    have most := Nat.pow_le_pow_right (n := 2) (by decide)
      (Nat.le_max_left (bitLength m) (bitLength n))
    have most' := Nat.pow_le_pow_right (n := 2) (by decide)
      (Nat.le_max_right (bitLength m) (bitLength n))
    rw [bitLength_le_iff, Nat.pow_succ]
    omega
  have total : ((m : Int) + n).natAbs = m + n := by omega
  subst equal equal'
  rw [scaled_add, magnitude_scaled (by omega), magnitude_scaled (by omega),
    magnitude_scaled (by omega), total, Int.natAbs_natCast, Int.natAbs_natCast]
  refine ⟨mt scaled_eq_zero_iff.mp (by omega), ?_⟩
  omega

/-- **The rounded sum of values that are not below zero** is zero, or its magnitude is at least that
of one of them and at most two more than that of the larger one. -/
theorem magnitude_sum (positive : 0 < p) (mode : Rounding) {a b : Int}
    (above : x.isNegative = false) (above' : y.isNegative = false)
    (first : x = 0 ∨ a ≤ x.magnitude ∧ x.magnitude ≤ b)
    (second : y = 0 ∨ a ≤ y.magnitude ∧ y.magnitude ≤ b) :
    x.sum mode p y = 0 ∨ a ≤ (x.sum mode p y).magnitude ∧ (x.sum mode p y).magnitude ≤ b + 2 := by
  have rounded {z : Dyadic} (within : z = 0 ∨ a ≤ z.magnitude ∧ z.magnitude ≤ b + 1) :
      z.cut mode p = 0 ∨ a ≤ (z.cut mode p).magnitude ∧ (z.cut mode p).magnitude ≤ b + 2 := by
    by_cases zero : z = 0
    · exact .inl ((cut_eq_zero_iff positive).mpr zero)
    · have bounds := (cut_spec positive mode zero).2.2
      have within := within.resolve_left zero
      right
      omega
  unfold sum
  by_cases zero : x = 0
  · rw [if_pos zero]
    exact rounded (second.imp_right fun within => by omega)
  by_cases zero' : y = 0
  · rw [if_neg zero, if_pos zero']
    exact rounded (first.imp_right fun within => by omega)
  · rw [if_neg zero, if_neg zero', if_pos (.inr (above.trans above'.symm))]
    have total := (magnitude_add zero zero' above above').2
    have within := first.resolve_left zero
    have within' := second.resolve_left zero'
    exact rounded (.inr (by omega))

end Dyadic

namespace Reckoner

/-! ### Integer square roots -/

theorem sqrtByDigits_spec {digits n : Nat} (bound : n < 4 ^ digits) :
    sqrtByDigits digits n * sqrtByDigits digits n ≤ n ∧
      n < (sqrtByDigits digits n + 1) * (sqrtByDigits digits n + 1) := by
  induction digits generalizing n with
  | zero =>
    obtain rfl : n = 0 := by omega
    decide
  | succ digits ih =>
    obtain ⟨lower, upper⟩ := ih (n := n / 4) (by omega)
    generalize root : sqrtByDigits digits (n / 4) = r at lower upper
    rw [sqrtByDigits, root]
    -- With `r` the root of the leading digits, `n` lies between the squares of `2 r` and `2 r + 2`.
    have square : 2 * r * (2 * r) = 4 * (r * r) := by grind
    have next : (2 * r + 1 + 1) * (2 * r + 1 + 1) = 4 * ((r + 1) * (r + 1)) := by grind
    split
    · next fits => exact ⟨fits, by omega⟩
    · next large => exact ⟨by omega, by omega⟩

/-- **The integer root is the largest one whose square is not above the number.** -/
theorem integerSqrt_spec (n : Nat) :
    integerSqrt n * integerSqrt n ≤ n ∧ n < (integerSqrt n + 1) * (integerSqrt n + 1) := by
  -- Whatever the approximation is, it is checked.
  obtain ⟨root, equal⟩ : ∃ root, integerSqrt n =
      if root * root ≤ n ∧ n < (root + 1) * (root + 1) then root
      else sqrtByDigits (bitLength n) n := ⟨_, rfl⟩
  rw [equal]
  split
  · next checked => exact checked
  · refine sqrtByDigits_spec (Nat.lt_of_lt_of_le (lt_two_pow_bitLength n) ?_)
    exact Nat.pow_le_pow_left (by decide) _

/-- A number of `2 k - 1`, `2 k` or `2 k + 1` bits has a root of `k` or `k + 1`. -/
theorem bitLength_integerSqrt {n k : Nat} (lower : 2 * k ≤ bitLength n + 1)
    (upper : bitLength n ≤ 2 * k + 1) :
    k ≤ bitLength (integerSqrt n) ∧ bitLength (integerSqrt n) ≤ k + 1 := by
  obtain ⟨least, most⟩ := integerSqrt_spec n
  constructor
  · refine Nat.not_lt.mp fun short => ?_
    obtain ⟨j, rfl⟩ : ∃ j, k = j + 1 := ⟨k - 1, by omega⟩
    have small : integerSqrt n + 1 ≤ 2 ^ j := bitLength_le_iff.mp (Nat.le_of_lt_succ short)
    have square := Nat.mul_le_mul small small
    rw [← Nat.pow_add] at square
    have short' := bitLength_le_iff.mpr (Nat.lt_of_lt_of_le most square)
    omega
  · refine Nat.not_lt.mp fun long => ?_
    have large : 2 ^ (k + 1) ≤ integerSqrt n := Nat.not_lt.mp (mt bitLength_le_iff.mpr (by omega))
    have square := Nat.mul_le_mul large large
    rw [← Nat.pow_add] at square
    have long' := mt bitLength_le_iff.mp (Nat.not_lt.mpr (Nat.le_trans square least))
    omega

/-- What the integer root of a number leaves out: nothing if it is exact, and else something of a
size that the bits after the number decide on too. -/
def Rest.ofRoot (n : Nat) (size : Ordering) : Rest :=
  if n - integerSqrt n * integerSqrt n = 0 then .zero else .fraction false size

theorem Rest.ofRoot_outward (n : Nat) (size : Ordering) :
    (ofRoot n size).Outward (integerSqrt n) := by
  unfold ofRoot
  split
  · trivial
  · exact Int.natCast_nonneg _

end Reckoner

namespace Dyadic

open Reckoner

variable {x : Dyadic} {p : Nat}

/-- The integer whose root is taken for a square root with `p` bits has about `2 p` of them, and
its unit is an even power of two. -/
theorem squareRoot_eq (positive : 0 < p) (mode : Rounding) (nonzero : x ≠ 0) :
    ∃ (n : Nat) (shift : Int) (size : Ordering),
      n = (if 0 < shift then x.significand.natAbs * 2 ^ shift.toNat
        else x.significand.natAbs / 2 ^ (-shift).toNat) ∧
      (bitLength n : Int) = x.length + shift ∧
      shift = 2 * p - (x.length % 2 : Nat) + x.exponent % 2 - x.length ∧
      x.squareRoot mode p = (scaled (mode.round (integerSqrt n) (.ofRoot n size))
        ((x.exponent - shift) / 2)).cut mode p := by
  refine ⟨_, _, _, rfl, ?_, rfl, rfl⟩
  have counted := Int.natAbs_ne_zero.mpr (significand_ne_zero nonzero)
  split
  · rw [bitLength_mul_two_pow counted]
    unfold length at *
    omega
  · rw [bitLength_div_two_pow]
    unfold length at *
    omega

/-- **A square root has half the magnitude**, but for what is rounded. -/
theorem magnitude_squareRoot (positive : 0 < p) (mode : Rounding) (nonzero : x ≠ 0) :
    x.magnitude ≤ 2 * (x.squareRoot mode p).magnitude + 1 ∧
      2 * (x.squareRoot mode p).magnitude ≤ x.magnitude + 7 := by
  obtain ⟨n, shift, size, -, bits, aligned, equal⟩ := squareRoot_eq positive mode nonzero
  obtain ⟨least, most⟩ := bitLength_integerSqrt (n := n) (k := p) (by omega) (by omega)
  have atLeast := bitLength_mono (Rounding.natAbs_le_round (Rest.ofRoot_outward n size) mode)
  have atMost := bitLength_le_succ (mode.natAbs_round_le (integerSqrt n) (.ofRoot n size))
  rw [Int.natAbs_natCast] at atLeast atMost
  have rounded : mode.round (integerSqrt n) (.ofRoot n size) ≠ 0 := by
    intro zero
    rw [zero] at atLeast
    exact absurd (Nat.le_trans least atLeast) (Nat.not_le.mpr positive)
  have cut := cut_spec positive mode
    (mt (scaled_eq_zero_iff (e := (x.exponent - shift) / 2)).mp rounded)
  rw [← equal, magnitude_scaled rounded] at cut
  unfold magnitude at cut ⊢
  omega

end Dyadic
