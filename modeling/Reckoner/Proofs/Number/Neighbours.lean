/-
The values of `p` bits next to a value.

Around a value of magnitude `g` the values of `p` bits are the multiples of the unit `2 ^ (g - p)`,
and there is always one between the value and any other value of `p` bits, also one with a smaller
unit. So the multiple that a direction chooses is the value of `p` bits that the direction asks for.

* `HasBits` — rationals that are `m * 2 ^ e` with `|m| < 2 ^ p`.
* `Rounding.Best` — what a direction asks for among the values of `p` bits. `Rounding.Best.mono` —
  **it keeps the order**.
* `Dyadic.exists_multiple` — between a value and a value of `p` bits there is a multiple of the
  unit.
* `Dyadic.cut_best` — **rounding to `p` bits gives the best value of `p` bits in every direction**.
* `Number.roundTo_best` — the same of numbers that are rounded into a context.
-/

import Reckoner.Proofs.Number.Nearest
import Mathlib.Order.Bounds.Basic
import Mathlib.Algebra.Order.Ring.Abs

namespace Reckoner

/-! ### Values of `p` bits -/

/-- Whether a rational is an integer of at most `p` bits times a power of two. -/
def HasBits (p : Nat) (q : Rat) : Prop := ∃ m e : Int, q = m * 2 ^ e ∧ |m| < 2 ^ p

/-- Whether an integer of exactly `p` bits, times a power of two, is a rational. -/
def IsSignificand (p : Nat) (q : Rat) (m : Int) : Prop :=
  (∃ e : Int, q = m * 2 ^ e) ∧ 2 ^ (p - 1) ≤ |m| ∧ |m| < 2 ^ p

theorem hasBits_zero (p : Nat) : HasBits p 0 := ⟨0, 0, by simp, by simp⟩

/-- A dyadic value is one of `p` bits exactly if its significand has no more. -/
theorem hasBits_toRat {p : Nat} {x : Dyadic} : HasBits p x.toRat ↔ x.length ≤ p := by
  constructor
  · rintro ⟨m, e, value, small⟩
    rw [← Dyadic.toRat_scaled, Dyadic.toRat_inj] at value
    rw [value]
    refine Dyadic.length_scaled_le (bitLength_le_iff.mpr ?_) e
    rw [Int.abs_eq_natAbs] at small
    exact_mod_cast small
  · intro short
    refine ⟨x.significand, x.exponent, Dyadic.toRat_eq x, ?_⟩
    rw [Int.abs_eq_natAbs]
    exact_mod_cast bitLength_le_iff.mp short

namespace Rounding

/-! ### What a direction asks for -/

/-- The values of `p` bits that are not above a rational. -/
def atMost (p : Nat) (q : Rat) : Set Rat := {v | HasBits p v ∧ v ≤ q}

/-- The values of `p` bits that are not below a rational. -/
def atLeast (p : Nat) (q : Rat) : Set Rat := {v | HasBits p v ∧ q ≤ v}

/-- Whether a value of `p` bits is nearest to a rational. If there are two, one of their
significands of `p` bits is even and the other one odd, and it is the one with the even
significand. -/
structure IsNearest (p : Nat) (q r : Rat) : Prop where
  hasBits : HasBits p r
  least (v : Rat) (other : HasBits p v) : |q - r| ≤ |q - v|
  even (v : Rat) (other : HasBits p v) (different : v ≠ r) (tie : |q - v| = |q - r|) :
    (∃ m, IsSignificand p r m ∧ m % 2 = 0) ∧ ∃ m, IsSignificand p v m ∧ m % 2 = 1

/-- What a direction asks for among the values of `p` bits: the greatest one that is not above a
rational, the least one that is not below it, one of these by the sign, or the nearest one. -/
def Best (mode : Rounding) (p : Nat) (q r : Rat) : Prop :=
  match mode with
  | .down => IsGreatest (atMost p q) r
  | .up => IsLeast (atLeast p q) r
  | .towardZero => (0 ≤ q → IsGreatest (atMost p q) r) ∧ (q < 0 → IsLeast (atLeast p q) r)
  | .awayFromZero => (0 ≤ q → IsLeast (atLeast p q) r) ∧ (q < 0 → IsGreatest (atMost p q) r)
  | .nearest => IsNearest p q r

variable {mode : Rounding} {p : Nat} {a b q r s : Rat}

theorem isGreatest_self (bits : HasBits p q) : IsGreatest (atMost p q) q :=
  ⟨⟨bits, le_rfl⟩, fun _ below => below.2⟩

theorem isLeast_self (bits : HasBits p q) : IsLeast (atLeast p q) q :=
  ⟨⟨bits, le_rfl⟩, fun _ above => above.2⟩

/-- A value of `p` bits is what every direction asks for. -/
theorem best_self (mode : Rounding) (bits : HasBits p q) : mode.Best p q q := by
  cases mode with
  | down => exact isGreatest_self bits
  | up => exact isLeast_self bits
  | towardZero => exact ⟨fun _ => isGreatest_self bits, fun _ => isLeast_self bits⟩
  | awayFromZero => exact ⟨fun _ => isLeast_self bits, fun _ => isGreatest_self bits⟩
  | nearest =>
    refine ⟨bits, fun v _ => ?_, fun v _ different tie => ?_⟩
    · rw [sub_self, abs_zero]
      exact abs_nonneg _
    · rw [sub_self, abs_zero, abs_eq_zero, sub_eq_zero] at tie
      exact absurd tie.symm different

theorem greatest_mono (le : a ≤ b) (first : IsGreatest (atMost p a) r)
    (second : IsGreatest (atMost p b) s) : r ≤ s :=
  second.2 ⟨first.1.1, le_trans first.1.2 le⟩

theorem least_mono (le : a ≤ b) (first : IsLeast (atLeast p a) r)
    (second : IsLeast (atLeast p b) s) : r ≤ s :=
  first.2 ⟨second.1.1, le_trans le second.1.2⟩

/-- A rational that is as near to the larger one of two others is not in the lower half. -/
theorem add_le_of_near (less : s < r) (near : |a - r| ≤ |a - s|) : s + r ≤ 2 * a := by
  have squares : (a - r) ^ 2 ≤ (a - s) ^ 2 := sq_le_sq.mpr near
  refine not_lt.mp fun lower => ?_
  have product : 0 < (r - s) * (s + r - 2 * a) := mul_pos (by linarith) (by linarith)
  have difference : (a - r) ^ 2 - (a - s) ^ 2 = (r - s) * (s + r - 2 * a) := by ring
  linarith

theorem le_add_of_near (less : s < r) (near : |b - s| ≤ |b - r|) : 2 * b ≤ s + r := by
  have opposite : |-b - -s| ≤ |-b - -r| := by
    rwa [neg_sub_neg, neg_sub_neg, abs_sub_comm s b, abs_sub_comm r b]
  have halves := add_le_of_near (neg_lt_neg less) opposite
  linarith

/-- **What a direction asks for keeps the order.** -/
theorem Best.mono (less : a < b) (first : mode.Best p a r) (second : mode.Best p b s) : r ≤ s := by
  have zero := hasBits_zero p
  cases mode with
  | down => exact greatest_mono less.le first second
  | up => exact least_mono less.le first second
  | towardZero =>
    rcases le_or_gt 0 a with above | below
    · exact greatest_mono less.le (first.1 above) (second.1 (le_trans above less.le))
    · rcases le_or_gt 0 b with above' | below'
      · -- Both of them turn to zero, which lies between.
        exact le_trans ((first.2 below).2 ⟨zero, below.le⟩) ((second.1 above').2 ⟨zero, above'⟩)
      · exact least_mono less.le (first.2 below) (second.2 below')
  | awayFromZero =>
    rcases le_or_gt 0 a with above | below
    · exact least_mono less.le (first.1 above) (second.1 (le_trans above less.le))
    · rcases le_or_gt 0 b with above' | below'
      · exact le_trans (first.2 below).1.2 (le_trans less.le (second.1 above').1.2)
      · exact greatest_mono less.le (first.2 below) (second.2 below')
  | nearest =>
    refine not_lt.mp fun swapped => ?_
    have upper := add_le_of_near swapped (first.least s second.hasBits)
    have lower := le_add_of_near swapped (second.least r first.hasBits)
    linarith

end Rounding

end Reckoner

namespace Dyadic

open Reckoner
open Rounding (nearest atMost atLeast)

variable {x y : Dyadic} {p : Nat} {mode : Rounding}

/-! ### Multiples of the unit -/

/-- A multiple of a power of two is one of every smaller power of two. -/
theorem multiple_of_le {u e : Int} (m : Int) (le : u ≤ e) :
    (m : Rat) * 2 ^ e = (m * 2 ^ (e - u).toNat : Int) * 2 ^ u := by
  have split : e = (e - u).toNat + u := by omega
  nth_rewrite 1 [split]
  rw [two_zpow_add, ← Rat.mul_assoc]
  push_cast
  rfl

/-- The power of two that a value reaches is a multiple of its unit. -/
theorem two_zpow_magnitude (positive : 0 < p) (x : Dyadic) :
    (2 : Rat) ^ (x.magnitude - 1) = ((2 ^ (p - 1) : Int) : Rat) * 2 ^ (x.magnitude - p) := by
  have split : x.magnitude - 1 = (p - 1 : Nat) + (x.magnitude - p) := by omega
  rw [split, two_zpow_add]
  push_cast
  rfl

/-- **Between a value and a value of `p` bits there is a multiple of the unit**, if the value of `p`
bits is none itself. -/
theorem exists_multiple (positive : 0 < p) (nonzero : x ≠ 0) {v : Rat} (bits : HasBits p v) :
    ∃ k : Int, v = k * 2 ^ (x.magnitude - p) ∨
      (v < k * 2 ^ (x.magnitude - p) ∧ k * 2 ^ (x.magnitude - p) ≤ x.toRat) ∨
      (x.toRat ≤ k * 2 ^ (x.magnitude - p) ∧ k * 2 ^ (x.magnitude - p) < v) := by
  obtain ⟨m, e, rfl, small⟩ := bits
  rcases le_or_gt (x.magnitude - p) e with coarse | fine
  · exact ⟨_, .inl (multiple_of_le m coarse)⟩
  · -- It has a finer unit, so it is smaller than the power of two that the value reaches.
    have reached := le_abs_toRat nonzero
    have size : |(m : Rat) * 2 ^ e| < 2 ^ (x.magnitude - 1) := by
      have count : |(m : Rat)| < 2 ^ p := by exact_mod_cast small
      calc |(m : Rat) * 2 ^ e| = |(m : Rat)| * 2 ^ e := by rw [abs_mul, abs_of_pos (two_zpow_pos e)]
        _ < 2 ^ p * 2 ^ e := mul_lt_mul_of_pos_right count (two_zpow_pos e)
        _ = 2 ^ (p + e) := by rw [zpow_add₀ two_ne_zero, zpow_natCast]
        _ ≤ 2 ^ (x.magnitude - 1) := zpow_le_zpow_right₀ one_le_two (by omega)
    obtain ⟨above, below⟩ := abs_lt.mp size
    rw [two_zpow_magnitude positive] at reached above below
    rcases lt_or_ge x.toRat 0 with negative | nonnegative
    · refine ⟨-2 ^ (p - 1), .inr (.inr ?_)⟩
      rw [abs_of_neg negative] at reached
      push_cast at reached above ⊢
      constructor
      · linarith
      · linarith
    · rw [abs_of_nonneg nonnegative] at reached
      exact ⟨2 ^ (p - 1), .inr (.inl ⟨below, reached⟩)⟩

/-! ### Directed rounding -/

section Directed

variable (positive : 0 < p) (nonzero : x ≠ 0) {r : Rat} (bits : HasBits p r)

include positive nonzero bits

/-- The greatest multiple of the unit that is not above a value is the greatest value of `p`
bits. -/
theorem floor_isGreatest
    (value : r = (x.toRat / 2 ^ (x.magnitude - p)).floor * 2 ^ (x.magnitude - p)) :
    IsGreatest (atMost p x.toRat) r := by
  have unit := two_zpow_pos (x.magnitude - p)
  have most {k : Int} (reaches : k * 2 ^ (x.magnitude - p) ≤ x.toRat) :
      k * 2 ^ (x.magnitude - p) ≤ r := by
    rw [value]
    refine mul_le_mul_of_nonneg_right ?_ unit.le
    exact_mod_cast Rat.le_floor_iff.mpr ((le_div_iff₀ unit).mpr reaches)
  refine ⟨⟨bits, ?_⟩, ?_⟩
  · rw [value, ← le_div_iff₀ unit]
    exact Rat.floor_le _
  · rintro v ⟨other, below⟩
    obtain ⟨k, rfl | ⟨less, reaches⟩ | ⟨reaches, less⟩⟩ := exists_multiple positive nonzero other
    · exact most below
    · exact le_trans less.le (most reaches)
    · exact absurd (lt_of_le_of_lt reaches less) (not_lt.mpr below)

/-- The least multiple of the unit that is not below a value is the least value of `p` bits. -/
theorem ceil_isLeast
    (value : r = (x.toRat / 2 ^ (x.magnitude - p)).ceil * 2 ^ (x.magnitude - p)) :
    IsLeast (atLeast p x.toRat) r := by
  have unit := two_zpow_pos (x.magnitude - p)
  have least {k : Int} (reaches : x.toRat ≤ k * 2 ^ (x.magnitude - p)) :
      r ≤ k * 2 ^ (x.magnitude - p) := by
    rw [value]
    refine mul_le_mul_of_nonneg_right ?_ unit.le
    exact_mod_cast Rat.ceil_le_iff.mpr ((div_le_iff₀ unit).mpr reaches)
  refine ⟨⟨bits, ?_⟩, ?_⟩
  · rw [value, ← div_le_iff₀ unit]
    exact Rat.le_ceil
  · rintro v ⟨other, above⟩
    obtain ⟨k, rfl | ⟨less, reaches⟩ | ⟨reaches, less⟩⟩ := exists_multiple positive nonzero other
    · exact least above
    · exact absurd (lt_of_lt_of_le less reaches) (not_lt.mpr above)
    · exact le_trans (least reaches) less.le

end Directed

/-! ### Rounding to nearest -/

/-- An odd count that reaches the first of `p` bits, and has no more but for a carry, is a
significand. -/
theorem isSignificand_of_odd {n : Int} (positive : 0 < p) (odd : n % 2 = 1)
    (lower : 2 ^ (p - 1) ≤ |n|) (upper : |n| ≤ 2 ^ p) (u : Int) :
    IsSignificand p (n * 2 ^ u) n := by
  refine ⟨⟨u, rfl⟩, lower, lt_of_le_of_ne upper fun power => ?_⟩
  obtain ⟨j, rfl⟩ : ∃ j, p = j + 1 := ⟨p - 1, by omega⟩
  rw [pow_succ] at power
  rcases abs_choice n with same | opposite
  · omega
  · omega

/-- An even count is twice a significand if it is a carry. -/
theorem exists_even_significand {n : Int} (two_le : 2 ≤ p) (even : n % 2 = 0)
    (lower : 2 ^ (p - 1) ≤ |n|) (upper : |n| ≤ 2 ^ p) (u : Int) :
    ∃ m, IsSignificand p (n * 2 ^ u) m ∧ m % 2 = 0 := by
  rcases lt_or_eq_of_le upper with less | carry
  · exact ⟨n, ⟨⟨u, rfl⟩, lower, less⟩, even⟩
  · obtain ⟨j, rfl⟩ : ∃ j, p = j + 2 := ⟨p - 2, by omega⟩
    obtain ⟨m, rfl⟩ : ∃ m, n = 2 * m := ⟨n / 2, by omega⟩
    have half : |m| = 2 * 2 ^ j := by
      rw [abs_mul, abs_two, pow_succ, pow_succ] at carry
      omega
    refine ⟨m, ⟨⟨u + 1, ?_⟩, ?_, ?_⟩, ?_⟩
    · rw [zpow_add_one₀ two_ne_zero]
      push_cast
      ring
    · rw [half, show j + 2 - 1 = j + 1 from rfl, pow_succ]
      omega
    · rw [half, pow_succ, pow_succ]
      have some : (0 : Int) < 2 ^ j := Int.pow_pos (by decide)
      omega
    · rcases abs_choice m with same | opposite
      · omega
      · omega

/-- What is within half of a count of units has its size. -/
theorem abs_count_of_near (positive : 0 < p) (nonzero : x ≠ 0) {k : Int}
    (near : 2 * |x.toRat / 2 ^ (x.magnitude - p) - k| ≤ 1) : 2 ^ (p - 1) ≤ |k| ∧ |k| ≤ 2 ^ p := by
  have unit := two_zpow_pos (x.magnitude - p)
  have least := le_abs_toRat nonzero
  have most := abs_toRat_lt nonzero
  have whole : (2 : Rat) ^ x.magnitude = ((2 ^ p : Int) : Rat) * 2 ^ (x.magnitude - p) := by
    have split : x.magnitude = p + (x.magnitude - p) := by omega
    nth_rewrite 1 [split]
    rw [two_zpow_add]
    push_cast
    rfl
  have size : |x.toRat / 2 ^ (x.magnitude - p)| = |x.toRat| / 2 ^ (x.magnitude - p) := by
    rw [abs_div, abs_of_pos unit]
  rw [two_zpow_magnitude positive, ← le_div_iff₀ unit, ← size] at least
  rw [whole, ← div_lt_iff₀ unit, ← size] at most
  generalize x.toRat / 2 ^ (x.magnitude - p) = q at near least most
  have below := abs_sub_abs_le_abs_sub q k
  have above := abs_sub_abs_le_abs_sub (k : Rat) q
  rw [abs_sub_comm (k : Rat) q] at above
  constructor
  · have strict : ((2 ^ (p - 1) : Int) : Rat) < (|k| + 1 : Int) := by
      push_cast at least ⊢
      linarith
    exact Int.lt_add_one_iff.mp (by exact_mod_cast strict)
  · have strict : ((|k| : Int) : Rat) < (2 ^ p + 1 : Int) := by
      push_cast at most ⊢
      linarith
    exact Int.lt_add_one_iff.mp (by exact_mod_cast strict)

/-- **The nearest multiple of the unit is the nearest value of `p` bits**, also where it is carried
into a larger unit. -/
theorem nearest_isNearest (two_le : 2 ≤ p) (nonzero : x ≠ 0) {n : Int}
    (bits : HasBits p (n * 2 ^ (x.magnitude - p)))
    (chosen : nearest.Chooses (x.toRat / 2 ^ (x.magnitude - p)) n) :
    Rounding.IsNearest p x.toRat (n * 2 ^ (x.magnitude - p)) := by
  have unit := two_zpow_pos (x.magnitude - p)
  have positive : 0 < p := by omega
  have distance (k : Int) : |x.toRat - k * 2 ^ (x.magnitude - p)| =
      |x.toRat / 2 ^ (x.magnitude - p) - k| * 2 ^ (x.magnitude - p) := by
    rw [abs_sub_eq_mul unit, mul_div_cancel_right₀ _ unit.ne']
  have nearer (k : Int) : |x.toRat - n * 2 ^ (x.magnitude - p)| ≤
      |x.toRat - k * 2 ^ (x.magnitude - p)| := by
    rw [distance, distance]
    exact mul_le_mul_of_nonneg_right (chosen.nearest_le k).1 unit.le
  have farther {v : Rat} (other : HasBits p v) :
      (∃ k : Int, v = k * 2 ^ (x.magnitude - p)) ∨
        |x.toRat - n * 2 ^ (x.magnitude - p)| < |x.toRat - v| := by
    obtain ⟨k, multiple | ⟨less, reaches⟩ | ⟨reaches, less⟩⟩ :=
      exists_multiple positive nonzero other
    · exact .inl ⟨k, multiple⟩
    · refine .inr (lt_of_le_of_lt (nearer k) ?_)
      rw [abs_of_nonneg (by linarith), abs_of_nonneg (by linarith)]
      linarith
    · refine .inr (lt_of_le_of_lt (nearer k) ?_)
      rw [abs_of_nonpos (by linarith), abs_of_nonpos (by linarith)]
      linarith
  refine ⟨bits, fun v other => ?_, fun v other different tie => ?_⟩
  · rcases farther other with ⟨k, rfl⟩ | less
    · exact nearer k
    · exact less.le
  · rcases farther other with ⟨k, rfl⟩ | less
    · rw [distance, distance, mul_left_inj' unit.ne'] at tie
      have another : k ≠ n := fun same => different (by rw [same])
      obtain ⟨even, odd⟩ := (chosen.nearest_le k).2 tie another
      have half := chosen.half
      obtain ⟨lower, upper⟩ := abs_count_of_near positive nonzero half
      rw [← tie] at half
      obtain ⟨lower', upper'⟩ := abs_count_of_near positive nonzero half
      exact ⟨exists_even_significand two_le even lower upper _,
        k, isSignificand_of_odd positive odd lower' upper' _, odd⟩
    · exact absurd tie less.ne'

/-! ### Rounding to `p` bits -/

/-- **Rounding to `p` bits gives the best value of `p` bits in every direction.** -/
theorem cut_best (two_le : 2 ≤ p) (mode : Rounding) (x : Dyadic) :
    mode.Best p x.toRat (x.cut mode p).toRat := by
  have positive : 0 < p := by omega
  by_cases zero : x = 0
  · rw [zero, zero_cut, toRat_zero]
    exact Rounding.best_self mode (hasBits_zero p)
  obtain ⟨n, same, chosen⟩ := cut_roundedAt mode p x
  have bits := hasBits_toRat.mpr (length_cut_le positive mode x)
  have value : (x.cut mode p).toRat = n * 2 ^ (x.magnitude - p) := by rw [same, toRat_scaled]
  have unit := two_zpow_pos (x.magnitude - p)
  have sign : x.toRat / 2 ^ (x.magnitude - p) < 0 ↔ x.toRat < 0 := by
    rw [div_lt_iff₀ unit, zero_mul]
  have greatest (turned : n = (x.toRat / 2 ^ (x.magnitude - p)).floor) :
      IsGreatest (atMost p x.toRat) (x.cut mode p).toRat :=
    floor_isGreatest positive zero bits (by rw [value, turned])
  have least (turned : n = (x.toRat / 2 ^ (x.magnitude - p)).ceil) :
      IsLeast (atLeast p x.toRat) (x.cut mode p).toRat :=
    ceil_isLeast positive zero bits (by rw [value, turned])
  cases mode with
  | down => exact greatest chosen
  | up => exact least chosen
  | towardZero =>
    have turned : n = if x.toRat / 2 ^ (x.magnitude - p) < 0 then
      (x.toRat / 2 ^ (x.magnitude - p)).ceil else (x.toRat / 2 ^ (x.magnitude - p)).floor := chosen
    refine ⟨fun nonnegative => greatest ?_, fun negative => least ?_⟩
    · rwa [if_neg (mt sign.mp (not_lt.mpr nonnegative))] at turned
    · rwa [if_pos (sign.mpr negative)] at turned
  | awayFromZero =>
    have turned : n = if x.toRat / 2 ^ (x.magnitude - p) < 0 then
      (x.toRat / 2 ^ (x.magnitude - p)).floor else (x.toRat / 2 ^ (x.magnitude - p)).ceil := chosen
    refine ⟨fun nonnegative => least ?_, fun negative => greatest ?_⟩
    · rwa [if_neg (mt sign.mp (not_lt.mpr nonnegative))] at turned
    · rwa [if_pos (sign.mpr negative)] at turned
  | nearest =>
    rw [value] at bits ⊢
    exact nearest_isNearest two_le zero bits chosen

/-- **Rounding to `p` bits keeps the order**, also across powers of two and through zero. -/
theorem cut_mono (two_le : 2 ≤ p) (mode : Rounding) (le : x.toRat ≤ y.toRat) :
    (x.cut mode p).toRat ≤ (y.cut mode p).toRat := by
  rcases lt_or_eq_of_le le with less | same
  · exact (cut_best two_le mode x).mono less (cut_best two_le mode y)
  · rw [toRat_inj.mp same]

end Dyadic

namespace Reckoner.Number

/-- A value that has no more bits than the precision is kept, whatever its label is. -/
theorem roundTo_of_hasBits {x : Number} {ctx : Context} (short : HasBits ctx.bits x.value.toRat) :
    (x.roundTo ctx).value = x.value := by
  unfold roundTo
  rw [Dyadic.cut_eq_self_iff.mpr (hasBits_toRat.mp short), ite_self]

/-- **Rounding a number with a label above the precision gives the best value of that precision in
every direction**, and keeps the order of two such numbers. A value that has no more bits is kept,
whatever its label is. -/
theorem roundTo_best (x y : Number) (ctx : Context) :
    (ctx.bits < x.bits →
      HasBits ctx.bits (x.roundTo ctx).value.toRat ∧
        ctx.rounding.Best ctx.bits x.value.toRat (x.roundTo ctx).value.toRat) ∧
    (ctx.bits < x.bits → ctx.bits < y.bits → x.value.toRat ≤ y.value.toRat →
      (x.roundTo ctx).value.toRat ≤ (y.roundTo ctx).value.toRat) ∧
    (HasBits ctx.bits x.value.toRat → (x.roundTo ctx).value = x.value) := by
  have two_le : 2 ≤ ctx.bits := ctx.minPrecision_le
  have cuts {z : Number} (labelled : ctx.bits < z.bits) :
      (z.roundTo ctx).value = z.value.cut ctx.rounding ctx.bits := if_pos labelled
  refine ⟨fun labelled => ?_, fun labelled labelled' le => ?_, roundTo_of_hasBits⟩
  · rw [cuts labelled]
    exact ⟨hasBits_toRat.mpr (Dyadic.length_cut_le (by omega) _ _), Dyadic.cut_best two_le _ _⟩
  · rw [cuts labelled, cuts labelled']
    exact Dyadic.cut_mono two_le _ le

/-- With two bits, seven lies midway between six and eight, and is carried to eight. The half behind
it is rounded to eight too, and three is kept. -/
theorem roundTo_best_carry :
    ((Context.ofBits 2 .nearest).bits < 3 ∧ HasBits (Context.ofBits 2 .nearest).bits 3 ∧
      (roundTo ⟨.scaled 7 0, 3⟩ (.ofBits 2 .nearest)).value = .scaled 8 0) ∧
    Rounding.IsNearest 2 (Dyadic.scaled 7 0).toRat (Dyadic.scaled 8 0).toRat ∧
    (roundTo ⟨.scaled 7 0, 3⟩ (.ofBits 2 .nearest)).value.toRat ≤
      (roundTo ⟨.scaled 15 (-1), 4⟩ (.ofBits 2 .nearest)).value.toRat ∧
    (roundTo ⟨.scaled 3 0, 3⟩ (.ofBits 2 .nearest)).value = .scaled 3 0 := by
  have labelled : (Context.ofBits 2 .nearest).bits < 3 := by decide
  have labelled' : (Context.ofBits 2 .nearest).bits < 4 := by decide
  have short : HasBits (Context.ofBits 2 .nearest).bits 3 := ⟨3, 0, by norm_num, by decide⟩
  have carried : (roundTo ⟨.scaled 7 0, 3⟩ (.ofBits 2 .nearest)).value = .scaled 8 0 := by
    decide +kernel
  have le : (Dyadic.scaled 7 0).toRat ≤ (Dyadic.scaled 15 (-1)).toRat := by
    rw [Dyadic.toRat_scaled, Dyadic.toRat_scaled]
    norm_num
  have three : (Dyadic.scaled 3 0).toRat = 3 := by
    rw [Dyadic.toRat_scaled]
    norm_num
  obtain ⟨best, keepsOrder, -⟩ :=
    roundTo_best ⟨.scaled 7 0, 3⟩ ⟨.scaled 15 (-1), 4⟩ (.ofBits 2 .nearest)
  obtain ⟨-, -, kept⟩ := roundTo_best ⟨.scaled 3 0, 3⟩ .zero (.ofBits 2 .nearest)
  have nearest := (best labelled).2
  rw [carried] at nearest
  exact ⟨⟨labelled, short, carried⟩, nearest, keepsOrder labelled labelled' le,
    kept (by rwa [three])⟩

end Reckoner.Number
