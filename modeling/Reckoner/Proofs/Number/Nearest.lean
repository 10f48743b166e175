/-
Doubles nearest to a value.

The pattern of a double counts a unit that depends on the size of the value. No other double is a
finer multiple of it unless it lies below all those of the unit. So the nearest integer of units is
the nearest double, through the carry into the next exponent, gradual underflow and the step to
infinity.

* `Rounding.Chooses.nearest_le`, `nearest_mono` — what a nearest integer is nearest to, and in which
  order nearest integers are.
* `Binary64.Encodes` — the pattern of the double nearest to a size; `Encodes.mono`: **larger sizes
  have larger patterns**.
* `Binary64.IsNearest` — the double nearest to a rational, ties to even, and the step to infinity.
* `Binary64.isNearest_iff` — **a dyadic value is rounded to its nearest double**, and no other double
  is that.
-/

import Reckoner.Proofs.Number.Unit

namespace Reckoner

/-! ### Nearest integers -/

/-- Distances are compared in any unit. -/
theorem abs_sub_eq_mul {unit : Rat} (positive : 0 < unit) (a b : Rat) :
    |a - b| = |a / unit - b / unit| * unit := by
  rw [← sub_div, abs_div, abs_of_pos positive, div_mul_cancel₀ _ positive.ne']

namespace Rounding

variable {q r : Rat} {m n : Int}

theorem Chooses.half (chosen : nearest.Chooses q n) : 2 * |q - n| ≤ 1 := by
  rw [← abs_eq_abs]
  exact chosen.1

/-- No integer is nearer than the one that is chosen, and another one is as near only if it is odd
and the choice is even. -/
theorem Chooses.nearest_le (chosen : nearest.Chooses q n) (j : Int) :
    |q - n| ≤ |q - j| ∧ (|q - j| = |q - n| → j ≠ n → n % 2 = 0 ∧ j % 2 = 1) := by
  have half := chosen.half
  by_cases same : j = n
  · subst same
    exact ⟨le_rfl, fun _ different => absurd rfl different⟩
  · have apart : (1 : Rat) ≤ |(n : Rat) - j| := by
      exact_mod_cast Int.one_le_abs (sub_ne_zero.mpr (Ne.symm same))
    have around := abs_sub_le (n : Rat) q j
    rw [abs_sub_comm (n : Rat) q] at around
    refine ⟨by linarith, fun tie _ => ⟨chosen.2 ?_, ?_⟩⟩
    · rw [abs_eq_abs]
      linarith
    · by_contra even
      have second : nearest.Chooses q j := by
        unfold Chooses
        rw [abs_eq_abs, tie]
        exact ⟨half, fun _ => by omega⟩
      exact same (second.unique chosen)

/-- A larger rational has no smaller nearest integer. -/
theorem Chooses.nearest_mono (first : nearest.Chooses q m) (second : nearest.Chooses r n)
    (le : q ≤ r) : m ≤ n := by
  refine not_lt.mp fun less => ?_
  have apart : (n : Rat) + 1 ≤ m := by exact_mod_cast less
  have below := (abs_le.mp (show |q - m| ≤ 1 / 2 by linarith [first.half])).1
  have above := (abs_le.mp (show |r - n| ≤ 1 / 2 by linarith [second.half])).2
  -- Both are one half away from the same rational, for which there is one choice.
  have same : q = r := by linarith
  rw [same] at first
  rw [first.unique second] at less
  exact lt_irrefl n less

theorem Chooses.nearest_nonneg (chosen : nearest.Chooses q n) (nonnegative : 0 ≤ q) : 0 ≤ n := by
  have whole : nearest.Chooses ((0 : Int) : Rat) 0 := chooses_self nearest 0
  exact whole.nearest_mono chosen (by exact_mod_cast nonnegative)

theorem Chooses.nearest_neg (chosen : nearest.Chooses q n) : nearest.Chooses (-q) (-n) := by
  have size : (-q - ((-n : Int) : Rat)).abs = (q - n).abs := by
    rw [abs_eq_abs, abs_eq_abs, Int.cast_neg, neg_sub_neg, abs_sub_comm]
  unfold Chooses at chosen ⊢
  rw [size]
  exact ⟨chosen.1, fun tie => by have even := chosen.2 tie; omega⟩

end Rounding

namespace Binary64

open Rounding (nearest)

/-! ### Patterns of sizes -/

/-- The units that doubles count, from the smallest double above zero on. -/
def unitOf (k : Nat) : Rat := 2 ^ ((k : Int) - 1074)

theorem unitOf_pos (k : Nat) : 0 < unitOf k := two_zpow_pos _

theorem unitOf_succ (k : Nat) : unitOf (k + 1) = unitOf k * 2 := by
  unfold unitOf
  rw [← zpow_add_one₀ two_ne_zero]
  congr 1
  omega

theorem unitOf_le {k l : Nat} (le : k ≤ l) : unitOf k ≤ unitOf l := zpow_le_zpow_right₀ one_le_two (by omega)

theorem isNegative_ofPattern (negative : Bool) {pattern : Nat} (bound : pattern < 2 ^ 63) :
    (ofPattern negative pattern).isNegative = negative := by
  unfold isNegative ofPattern
  rw [BitVec.toNat_ofNat]
  cases negative with
  | false =>
    rw [if_neg Bool.false_ne_true, decide_eq_false_iff_not]
    omega
  | true =>
    rw [if_pos rfl, decide_eq_true_eq]
    omega

/-- The double of a pattern that is put together from a unit and a count of it, up to the count that
is carried into the next unit. -/
theorem magnitude_ofPattern (negative : Bool) {k n : Nat} (normal : k = 0 ∨ 2 ^ 52 ≤ n)
    (most : n ≤ 2 ^ 53) (finite : k * 2 ^ 52 + n < infinityPattern) :
    (ofPattern negative (k * 2 ^ 52 + n)).magnitude.toRat = n * unitOf k ∧
      (ofPattern negative (k * 2 ^ 52 + n)).significand % 2 = n % 2 := by
  have infinite : infinityPattern = 2047 * 2 ^ 52 := rfl
  have pattern : (ofPattern negative (k * 2 ^ 52 + n)).pattern = k * 2 ^ 52 + n :=
    pattern_ofPattern negative (by omega)
  unfold magnitude significand unitExponent exponentField fractionField unitOf
  rw [pattern, Dyadic.toRat_scaled]
  have sizes : (k = 0 ∧ n < 2 ^ 52) ∨ (2 ^ 52 ≤ n ∧ n < 2 ^ 53) ∨ n = 2 ^ 53 := by omega
  rcases sizes with ⟨rfl, small⟩ | ⟨large, small⟩ | rfl
  · have field : (0 * 2 ^ 52 + n) / 2 ^ 52 = 0 := by omega
    have fraction : (0 * 2 ^ 52 + n) % 2 ^ 52 = n := by omega
    rw [field, fraction, if_pos rfl, if_pos rfl]
    exact ⟨rfl, rfl⟩
  · have field : (k * 2 ^ 52 + n) / 2 ^ 52 = k + 1 := by omega
    have fraction : 2 ^ 52 + (k * 2 ^ 52 + n) % 2 ^ 52 = n := by omega
    have unit : ((k + 1 : Nat) : Int) - 1075 = k - 1074 := by omega
    rw [field, if_neg (Nat.succ_ne_zero k), if_neg (Nat.succ_ne_zero k), fraction, unit]
    exact ⟨rfl, rfl⟩
  · have field : (k * 2 ^ 52 + 2 ^ 53) / 2 ^ 52 = k + 2 := by omega
    have fraction : (k * 2 ^ 52 + 2 ^ 53) % 2 ^ 52 = 0 := by omega
    have unit : ((k + 2 : Nat) : Int) - 1075 = k - 1074 + 1 := by omega
    rw [field, if_neg (Nat.succ_ne_zero _), if_neg (Nat.succ_ne_zero _), fraction, unit,
      zpow_add_one₀ two_ne_zero]
    refine ⟨?_, rfl⟩
    push_cast
    ring

/-- A double is its sign and its pattern. -/
theorem eq_of_pattern {d e : Binary64} (sign : d.isNegative = e.isNegative)
    (same : d.pattern = e.pattern) : d = e := by
  unfold isNegative at sign
  unfold pattern at same
  rw [decide_eq_decide] at sign
  have bits : d.bits = e.bits := by
    apply BitVec.eq_of_toNat_eq
    omega
  cases d
  cases e
  exact congrArg mk bits

section Fields

variable (d : Binary64)

theorem significand_lt : d.significand < 2 ^ 53 := by
  unfold significand fractionField
  split <;> omega

theorem le_unitExponent : -1074 ≤ d.unitExponent := by
  unfold unitExponent
  split <;> omega

/-- A double with another unit than the smallest one has 53 bits. -/
theorem le_significand (normal : -1074 < d.unitExponent) : 2 ^ 52 ≤ d.significand := by
  unfold unitExponent at normal
  unfold significand
  split
  · next zero =>
    rw [if_pos zero] at normal
    exact absurd normal (by decide)
  · exact Nat.le_add_right _ _

theorem toRat_magnitude : d.magnitude.toRat = d.significand * 2 ^ d.unitExponent := by
  unfold magnitude
  rw [Dyadic.toRat_scaled]
  rfl

theorem toRat_value :
    d.value.toRat = if d.isNegative then -d.magnitude.toRat else d.magnitude.toRat := by
  unfold value
  split
  · exact Dyadic.toRat_neg _
  · rfl

theorem abs_toRat_value : |d.value.toRat| = d.magnitude.toRat := by
  have nonnegative : 0 ≤ d.magnitude.toRat := by
    rw [toRat_magnitude]
    exact mul_nonneg (Nat.cast_nonneg _) (two_zpow_pos _).le
  rw [toRat_value]
  split
  · rw [abs_neg, abs_of_nonneg nonnegative]
  · exact abs_of_nonneg nonnegative

end Fields

/-- A count of a unit that is nearest to a size. In this unit the size has 53 bits, or fewer if there
is no finer one. -/
structure Counts (k : Nat) (q : Rat) (n : Nat) : Prop where
  nonnegative : 0 ≤ q
  below : q ≤ 2 ^ 53 * unitOf k
  normal : 0 < k → 2 ^ 52 * unitOf k ≤ q
  chosen : nearest.Chooses (q / unitOf k) n

namespace Counts

variable {k l n m : Nat} {q r : Rat}

/-- A size that does not exceed a count of its units is counted by no more. -/
theorem le_count (counts : Counts k q n) {c : Nat} (le : q ≤ c * unitOf k) : n ≤ c := by
  have whole : nearest.Chooses ((c : Int) : Rat) c := Rounding.chooses_self nearest c
  rw [← div_le_iff₀ (unitOf_pos k)] at le
  exact_mod_cast counts.chosen.nearest_mono whole le

theorem count_le (counts : Counts k q n) {c : Nat} (le : c * unitOf k ≤ q) : c ≤ n := by
  have whole : nearest.Chooses ((c : Int) : Rat) c := Rounding.chooses_self nearest c
  rw [← le_div_iff₀ (unitOf_pos k)] at le
  exact_mod_cast whole.nearest_mono counts.chosen le

theorem most (counts : Counts k q n) : n ≤ 2 ^ 53 :=
  counts.le_count (by exact_mod_cast counts.below)

theorem least (counts : Counts k q n) (positive : 0 < k) : 2 ^ 52 ≤ n :=
  counts.count_le (by exact_mod_cast counts.normal positive)

/-- What is counted is its own nearest count. -/
theorem counted (counts : Counts k q n) : Counts k (n * unitOf k) n := by
  have unit := unitOf_pos k
  refine ⟨mul_nonneg (Nat.cast_nonneg n) unit.le, ?_, fun positive => ?_, ?_⟩
  · refine mul_le_mul_of_nonneg_right ?_ unit.le
    exact_mod_cast counts.most
  · refine mul_le_mul_of_nonneg_right ?_ unit.le
    exact_mod_cast counts.least positive
  · rw [mul_div_cancel_right₀ _ unit.ne']
    exact_mod_cast Rounding.chooses_self nearest n

/-- **Larger sizes have larger patterns**, whatever their units are. -/
theorem mono (first : Counts k q n) (second : Counts l r m) (le : q ≤ r) :
    k * 2 ^ 52 + n ≤ l * 2 ^ 52 + m := by
  rcases lt_trichotomy k l with lower | rfl | higher
  · have most := first.most
    have least := second.least (by omega)
    omega
  · have units := div_le_div_of_nonneg_right le (unitOf_pos k).le
    have counts : n ≤ m := by exact_mod_cast first.chosen.nearest_mono second.chosen units
    omega
  · -- The smaller size has the larger unit only where that starts, at the end of the other one.
    have reached := first.normal (by omega)
    have below := second.below
    by_cases next : k = l + 1
    · subst next
      rw [unitOf_succ] at reached
      have starts : n ≤ 2 ^ 52 := by
        refine first.le_count ?_
        rw [unitOf_succ]
        push_cast
        linarith
      have ends : 2 ^ 53 ≤ m := by
        refine second.count_le ?_
        push_cast
        linarith
      omega
    · have coarser := unitOf_le (k := l + 1 + 1) (l := k) (by omega)
      rw [unitOf_succ, unitOf_succ] at coarser
      have positive := unitOf_pos l
      exfalso
      linarith

/-- **A double counts the unit of a size, or lies below all that have 53 bits in it** although the
size does not. -/
theorem count_or_below (counts : Counts k q n) (other : Binary64) :
    (∃ j : Int, other.magnitude.toRat = j * unitOf k ∧ (other.significand % 2 = 0 → j % 2 = 0)) ∨
      other.magnitude.toRat < 2 ^ 52 * unitOf k ∧ 2 ^ 52 * unitOf k ≤ q := by
  rw [toRat_magnitude]
  by_cases coarse : (k : Int) - 1074 ≤ other.unitExponent
  · obtain ⟨i, exponent⟩ : ∃ i : Nat, other.unitExponent = (i : Int) + (k - 1074) :=
      ⟨(other.unitExponent - (k - 1074)).toNat, by omega⟩
    refine .inl ⟨other.significand * 2 ^ i, ?_, fun even => ?_⟩
    · rw [exponent, zpow_add₀ two_ne_zero, zpow_natCast]
      push_cast
      exact (mul_assoc _ _ _).symm
    · exact Int.emod_eq_zero_of_dvd (Dvd.dvd.mul_right (by omega) _)
  · have least := other.le_unitExponent
    refine .inr ⟨?_, counts.normal (by omega)⟩
    have finer : (2 : Rat) ^ (other.unitExponent + 1) ≤ unitOf k :=
      zpow_le_zpow_right₀ one_le_two (by omega)
    rw [zpow_add_one₀ two_ne_zero] at finer
    have short : (other.significand : Rat) < 2 ^ 53 := by exact_mod_cast other.significand_lt
    calc (other.significand : Rat) * 2 ^ other.unitExponent
        < 2 ^ 53 * 2 ^ other.unitExponent := mul_lt_mul_of_pos_right short (two_zpow_pos _)
      _ = 2 ^ 52 * (2 ^ other.unitExponent * 2) := by ring
      _ ≤ 2 ^ 52 * unitOf k := mul_le_mul_of_nonneg_left finer (by norm_num)

/-- No other count of the unit is nearer, and one is as near only if it is odd and the chosen one is
even. -/
theorem nearest_count (counts : Counts k q n) (j : Int) :
    |q - n * unitOf k| ≤ |q - j * unitOf k| ∧
      (|q - j * unitOf k| = |q - n * unitOf k| → j ≠ n → n % 2 = 0 ∧ j % 2 = 1) := by
  have positive := unitOf_pos k
  obtain ⟨least, tie⟩ := counts.chosen.nearest_le j
  rw [Int.cast_natCast] at least tie
  rw [abs_sub_eq_mul positive q (n * unitOf k), abs_sub_eq_mul positive q (j * unitOf k),
    mul_div_cancel_right₀ _ positive.ne', mul_div_cancel_right₀ _ positive.ne']
  refine ⟨mul_le_mul_of_nonneg_right least positive.le, fun same differs => ?_⟩
  obtain ⟨even, odd⟩ := tie (mul_right_cancel₀ positive.ne' same) differs
  exact ⟨by omega, odd⟩

end Counts

/-- The pattern of the double nearest to a size: the unit and the count of it, up to infinity. -/
def Encodes (q : Rat) (pattern : Nat) : Prop :=
  ∃ k n, Counts k q n ∧ pattern = min (k * 2 ^ 52 + n) infinityPattern

/-- The size from which on a value is rounded to infinity: half a unit behind the largest double. -/
def overflow : Rat := 2 ^ (1024 : Int) - 2 ^ (970 : Int)

theorem overflow_eq : overflow = (2 ^ 53 - 1 / 2) * unitOf 2045 := by
  have top : (2 : Rat) ^ (1024 : Int) = 2 ^ 53 * 2 ^ (971 : Int) := by
    rw [show (1024 : Int) = (53 : Nat) + 971 from rfl, zpow_add₀ two_ne_zero, zpow_natCast]
  have half : (2 : Rat) ^ (971 : Int) = 2 ^ (970 : Int) * 2 := by
    rw [show (971 : Int) = 970 + 1 from rfl, zpow_add_one₀ two_ne_zero]
  show _ = _ * (2 : Rat) ^ (971 : Int)
  unfold overflow
  rw [top, half]
  generalize (2 : Rat) ^ (970 : Int) = unit
  ring

namespace Encodes

variable {q r : Rat} {pattern pattern' : Nat}

theorem mono (first : Encodes q pattern) (second : Encodes r pattern') (le : q ≤ r) :
    pattern ≤ pattern' := by
  obtain ⟨k, n, counts, rfl⟩ := first
  obtain ⟨l, m, counts', rfl⟩ := second
  have patterns := counts.mono counts' le
  omega

/-- A size has one pattern. -/
theorem unique (first : Encodes q pattern) (second : Encodes q pattern') : pattern = pattern' :=
  Nat.le_antisymm (first.mono second le_rfl) (second.mono first le_rfl)

theorem le_infinity (encodes : Encodes q pattern) : pattern ≤ infinityPattern := by
  obtain ⟨k, n, -, rfl⟩ := encodes
  exact Nat.min_le_right _ _

/-- At the step to infinity, the largest count is carried into a unit that no double has. -/
theorem at_overflow : Encodes overflow infinityPattern := by
  have unit := unitOf_pos 2045
  have units : overflow / unitOf 2045 = 2 ^ 53 - 1 / 2 := by
    rw [overflow_eq, mul_div_cancel_right₀ _ unit.ne']
  refine ⟨2045, 2 ^ 53, ⟨?_, ?_, fun _ => ?_, ?_⟩, rfl⟩
  · rw [overflow_eq]
    exact mul_nonneg (by norm_num) unit.le
  · rw [overflow_eq]
    exact mul_le_mul_of_nonneg_right (by norm_num) unit.le
  · rw [overflow_eq]
    exact mul_le_mul_of_nonneg_right (by norm_num) unit.le
  · rw [units]
    unfold Rounding.Chooses
    have half : (2 ^ 53 - 1 / 2 : Rat) - ((2 ^ 53 : Nat) : Int) = -(1 / 2) := by norm_num
    rw [abs_eq_abs, half, abs_neg, abs_of_pos (by norm_num)]
    exact ⟨by norm_num, fun _ => rfl⟩

/-- **A size is rounded to infinity exactly from half a unit behind the largest double on.** -/
theorem infinite_iff (encodes : Encodes q pattern) :
    pattern = infinityPattern ↔ overflow ≤ q := by
  constructor
  · intro infinite
    obtain ⟨k, n, counts, split⟩ := encodes
    have top : infinityPattern = 2047 * 2 ^ 52 := rfl
    have most := counts.most
    have positive := unitOf_pos 2045
    refine not_lt.mp fun small => ?_
    rw [overflow_eq] at small
    rcases lt_trichotomy k 2045 with lower | rfl | higher
    · omega
    · have half := counts.chosen.half
      have short : q / unitOf 2045 < 2 ^ 53 - 1 / 2 := by
        rw [div_lt_iff₀ positive]
        exact small
      have count : (n : Rat) < 2 ^ 53 := by
        have near := neg_abs_le (q / unitOf 2045 - (n : Int))
        push_cast at half near
        linarith
      have fewer : n < 2 ^ 53 := by exact_mod_cast count
      omega
    · have reached := counts.normal (by omega)
      have coarser := unitOf_le (k := 2045 + 1) (l := k) (by omega)
      rw [unitOf_succ] at coarser
      linarith
  · intro large
    have least := at_overflow.mono encodes large
    obtain ⟨k, n, -, split⟩ := encodes
    omega

/-- **No double is nearer to a size than the one of its pattern**, and another one is as near only
if its significand is odd and that of the chosen one is even. -/
theorem nearest_magnitude (encodes : Encodes q pattern) (finite : pattern < infinityPattern)
    (negative : Bool) (other : Binary64) :
    |q - (ofPattern negative pattern).magnitude.toRat| ≤ |q - other.magnitude.toRat| ∧
      (|q - other.magnitude.toRat| = |q - (ofPattern negative pattern).magnitude.toRat| →
        other.magnitude.toRat ≠ (ofPattern negative pattern).magnitude.toRat →
        (ofPattern negative pattern).significand % 2 = 0 ∧ other.significand % 2 = 1) := by
  obtain ⟨k, n, counts, rfl⟩ := encodes
  have inside : k * 2 ^ 52 + n < infinityPattern := by omega
  have normal : k = 0 ∨ 2 ^ 52 ≤ n := by
    by_cases zero : k = 0
    · exact .inl zero
    · exact .inr (counts.least (Nat.pos_of_ne_zero zero))
  obtain ⟨value, parity⟩ := magnitude_ofPattern negative normal counts.most inside
  rw [Nat.min_eq_left inside.le, value, parity]
  rcases counts.count_or_below other with ⟨j, whole, even⟩ | ⟨below, reached⟩
  · obtain ⟨least, tie⟩ := counts.nearest_count j
    rw [whole]
    refine ⟨least, fun same differs => ?_⟩
    obtain ⟨chosen, odd⟩ := tie same fun equal => differs (by rw [equal, Int.cast_natCast])
    exact ⟨chosen, by omega⟩
  · have least := (counts.nearest_count (2 ^ 52)).1
    rw [Int.cast_pow, Int.cast_ofNat, abs_of_nonneg (sub_nonneg.mpr reached)] at least
    have farther : |q - n * unitOf k| < |q - other.magnitude.toRat| :=
      calc |q - n * unitOf k| ≤ q - 2 ^ 52 * unitOf k := least
        _ < q - other.magnitude.toRat := sub_lt_sub_left below q
        _ ≤ |q - other.magnitude.toRat| := le_abs_self _
    exact ⟨farther.le, fun same => absurd same farther.ne'⟩

/-- A finite double has the pattern of its own size. -/
theorem of_magnitude {d : Binary64} (finite : d.isFinite) :
    Encodes d.magnitude.toRat d.pattern := by
  have least := d.le_unitExponent
  obtain ⟨k, exponent⟩ : ∃ k : Nat, d.unitExponent = k - 1074 :=
    ⟨(d.unitExponent + 1074).toNat, by omega⟩
  have positive := unitOf_pos k
  have value : d.magnitude.toRat = d.significand * unitOf k := by
    rw [toRat_magnitude, exponent]
    rfl
  rw [value]
  refine ⟨k, d.significand, ⟨?_, ?_, fun normal => ?_, ?_⟩, ?_⟩
  · exact mul_nonneg (Nat.cast_nonneg _) positive.le
  · refine mul_le_mul_of_nonneg_right ?_ positive.le
    exact_mod_cast d.significand_lt.le
  · refine mul_le_mul_of_nonneg_right ?_ positive.le
    exact_mod_cast d.le_significand (by omega)
  · rw [mul_div_cancel_right₀ _ positive.ne']
    exact_mod_cast Rounding.chooses_self nearest d.significand
  · have bound := of_decide_eq_true finite
    have split : k * 2 ^ 52 + d.significand = d.pattern := by
      unfold unitExponent exponentField at exponent
      unfold significand exponentField fractionField
      split at exponent <;> split <;> omega
    rw [split, Nat.min_eq_left bound.le]

end Encodes

/-! ### Dyadic values -/

/-- A dyadic value has 53 bits, or fewer if there is no finer unit, in the unit that far below its
magnitude. -/
theorem Counts.of_dyadic {x : Dyadic} {k n : Nat} (nonzero : x ≠ 0)
    (unit : (k : Int) - 1074 = max (x.magnitude - 53) (-1074))
    (chosen : nearest.Chooses (|x.toRat| / unitOf k) n) : Counts k |x.toRat| n := by
  have scale (j : Nat) : 2 ^ j * unitOf k = 2 ^ (j + ((k : Int) - 1074)) := by
    rw [zpow_add₀ two_ne_zero, zpow_natCast]
    rfl
  refine ⟨abs_nonneg _, ?_, fun positive => ?_, chosen⟩
  · rw [scale]
    exact le_trans (Dyadic.abs_toRat_lt nonzero).le (zpow_le_zpow_right₀ one_le_two (by omega))
  · rw [scale]
    exact le_trans (zpow_le_zpow_right₀ one_le_two (by omega)) (Dyadic.le_abs_toRat nonzero)

/-- **The size of a dyadic value is encoded by the pattern of the nearest double.** -/
theorem ofMagnitude_encodes {x : Dyadic} (nonnegative : 0 ≤ x.toRat) :
    ∃ pattern, Encodes |x.toRat| pattern ∧ ∀ negative, ofMagnitude negative x =
      ofPattern negative pattern := by
  by_cases zero : x = 0
  · subst zero
    refine ⟨0, ?_, fun negative => if_pos rfl⟩
    exact Encodes.of_magnitude (d := Binary64.zero false) rfl
  · obtain ⟨u, unit⟩ : ∃ u, u = max (x.magnitude - 53) (-1074) := ⟨_, rfl⟩
    obtain ⟨k, rfl⟩ : ∃ k : Nat, u = (k : Int) - 1074 := ⟨(u + 1074).toNat, by omega⟩
    have near : |x.toRat - x.truncAt (k - 1074) * unitOf k| < unitOf k := by
      unfold unitOf
      rw [abs_sub_comm, ← Dyadic.toRat_scaled]
      exact (x.truncated_roundedAt _).near.1
    have rounded : nearest.RoundedAt (k - 1074) x.toRat _ := Dyadic.roundFrom_roundedAt near
    obtain ⟨n, same, chosen⟩ := rounded
    have count := Dyadic.scaled_inj.mp same
    rw [← abs_of_nonneg nonnegative] at chosen
    obtain ⟨n, rfl⟩ := Int.eq_ofNat_of_zero_le
      (chosen.nearest_nonneg (div_nonneg (abs_nonneg _) (unitOf_pos k).le))
    refine ⟨_, ⟨k, n, Counts.of_dyadic zero unit chosen, rfl⟩, fun negative => ?_⟩
    have units : ((k : Int) - 1074 + 1074).toNat = k := by omega
    unfold ofMagnitude
    simp only [if_neg zero, ← unit, units, count]
    rfl

section OfDyadic

variable (x : Dyadic)

theorem exists_ofDyadic :
    ∃ pattern, Encodes |x.toRat| pattern ∧ ofDyadic x = ofPattern x.isNegative pattern := by
  have size := x.toRat_abs
  have nonnegative : 0 ≤ x.abs.toRat := by
    rw [size]
    exact abs_nonneg _
  obtain ⟨pattern, encodes, same⟩ := ofMagnitude_encodes nonnegative
  rw [size, abs_abs] at encodes
  exact ⟨pattern, encodes, same _⟩

/-- **The double of a dyadic value** has its sign, and the pattern of its size. -/
theorem ofDyadic_encodes : (ofDyadic x).isNegative = decide (x.toRat < 0) ∧
    Encodes |x.toRat| (ofDyadic x).pattern ∧
    ofDyadic x = ofPattern x.isNegative (ofDyadic x).pattern := by
  obtain ⟨pattern, encodes, rounded⟩ := exists_ofDyadic x
  have most := encodes.le_infinity
  have infinite : infinityPattern < 2 ^ 63 := by decide
  have same : (ofDyadic x).pattern = pattern := by
    rw [rounded, pattern_ofPattern _ (by omega)]
  refine ⟨?_, same ▸ encodes, same ▸ rounded⟩
  rw [rounded, isNegative_ofPattern _ (by omega), ← Bool.decide_coe x.isNegative]
  exact decide_eq_decide.mpr x.isNegative_iff

/-- Below the step to infinity, the double is finite and the nearest one in size. -/
theorem ofDyadic_nearest (inside : |x.toRat| < overflow) : (ofDyadic x).isFinite ∧
    ∀ other : Binary64,
      |(|x.toRat| - (ofDyadic x).magnitude.toRat)| ≤ |(|x.toRat| - other.magnitude.toRat)| ∧
      (|(|x.toRat| - other.magnitude.toRat)| = |(|x.toRat| - (ofDyadic x).magnitude.toRat)| →
        other.magnitude.toRat ≠ (ofDyadic x).magnitude.toRat →
        (ofDyadic x).significand % 2 = 0 ∧ other.significand % 2 = 1) := by
  obtain ⟨-, encodes, rounded⟩ := ofDyadic_encodes x
  have finite : (ofDyadic x).pattern < infinityPattern :=
    lt_of_le_of_ne encodes.le_infinity fun same =>
      absurd (encodes.infinite_iff.mp same) (not_le.mpr inside)
  refine ⟨decide_eq_true finite, fun other => ?_⟩
  rw [rounded]
  exact encodes.nearest_magnitude finite x.isNegative other

end OfDyadic

/-- Whether a double is the one nearest to a rational, the even one of two that are as near. It has
the sign of the rational, also as zero and as infinity. -/
structure IsNearest (q : Rat) (d : Binary64) : Prop where
  sign : d.isNegative = decide (q < 0)
  finite : |q| < overflow → d.isFinite ∧ ∀ other : Binary64, other.isFinite →
    |q - d.value.toRat| ≤ |q - other.value.toRat| ∧
      (|q - other.value.toRat| = |q - d.value.toRat| → other.value ≠ d.value →
        d.significand % 2 = 0)
  infinite : overflow ≤ |q| → d.isInfinite

section Signs

variable {q : Rat} {d : Binary64}

/-- With the sign of the rational, a double is as far from it as their sizes are. -/
theorem distance_eq (sign : d.isNegative = decide (q < 0)) :
    |q - d.value.toRat| = |(|q| - d.magnitude.toRat)| := by
  rw [toRat_value, sign]
  by_cases negative : q < 0
  · rw [if_pos (decide_eq_true negative), abs_of_neg negative, ← abs_neg]
    congr 1
    ring
  · rw [if_neg (by simpa using negative), abs_of_nonneg (not_lt.mp negative)]

theorem le_distance (q : Rat) (other : Binary64) :
    |(|q| - other.magnitude.toRat)| ≤ |q - other.value.toRat| := by
  rw [← abs_toRat_value]
  exact abs_abs_sub_abs_le _ _

/-- Two values of one size are as near only to zero. -/
theorem eq_zero_of_distance {other : Binary64}
    (size : other.magnitude.toRat = d.magnitude.toRat) (differs : other.value ≠ d.value)
    (same : |q - other.value.toRat| = |q - d.value.toRat|) : q = 0 := by
  have distinct : other.value.toRat ≠ d.value.toRat := mt Dyadic.toRat_inj.mp differs
  have opposite : other.value.toRat = -d.value.toRat := by
    rw [toRat_value, toRat_value, size] at distinct ⊢
    split at distinct <;> split at distinct <;> simp_all
  rw [opposite, abs_eq_iff_mul_self_eq] at same
  rw [opposite] at distinct
  have product : q * d.value.toRat = 0 := by linarith
  rcases mul_eq_zero.mp product with zero | zero
  · exact zero
  · rw [zero] at distinct
    exact absurd neg_zero distinct

end Signs

theorem ofDyadic_isNearest (x : Dyadic) : IsNearest x.toRat (ofDyadic x) := by
  obtain ⟨sign, encodes, -⟩ := ofDyadic_encodes x
  refine ⟨sign, fun inside => ?_, fun outside => ?_⟩
  · obtain ⟨finite, nearest⟩ := ofDyadic_nearest x inside
    refine ⟨finite, fun other _ => ?_⟩
    obtain ⟨least, tie⟩ := nearest other
    rw [distance_eq sign]
    refine ⟨le_trans least (le_distance _ _), fun same differs => ?_⟩
    by_cases size : other.magnitude.toRat = (ofDyadic x).magnitude.toRat
    · -- Only zero has two nearest values of one size, and its own value is zero.
      rw [← distance_eq sign] at same
      have zero := Dyadic.toRat_eq_zero_iff.mp (eq_zero_of_distance size differs same)
      rw [zero]
      rfl
    · have near := le_distance x.toRat other
      rw [same] at near
      exact (tie (le_antisymm near least) size).1
  · exact decide_eq_true (encodes.infinite_iff.mpr outside)

/-- **A dyadic value is rounded to its nearest double**, and no other double is that. -/
theorem isNearest_iff {x : Dyadic} {d : Binary64} : IsNearest x.toRat d ↔ d = ofDyadic x := by
  constructor
  · intro nearest
    have rounded := ofDyadic_isNearest x
    refine eq_of_pattern (nearest.sign.trans rounded.sign.symm) ?_
    by_cases inside : |x.toRat| < overflow
    · obtain ⟨finite, least⟩ := nearest.finite inside
      obtain ⟨finite', least'⟩ := ofDyadic_nearest x inside
      obtain ⟨le, tie⟩ := least _ finite'
      obtain ⟨ge, odd⟩ := least' d
      rw [distance_eq nearest.sign, distance_eq rounded.sign] at le tie
      have size : d.magnitude.toRat = (ofDyadic x).magnitude.toRat := by
        by_contra differs
        have even := tie (le_antisymm ge le) fun same => differs (by
          rw [← abs_toRat_value, ← abs_toRat_value, same])
        have chosen := (odd (le_antisymm le ge) differs).2
        omega
      have own := Encodes.of_magnitude finite
      rw [size] at own
      exact own.unique (Encodes.of_magnitude finite')
    · have outside := not_lt.mp inside
      rw [of_decide_eq_true (nearest.infinite outside),
        of_decide_eq_true (rounded.infinite outside)]
  · rintro rfl
    exact ofDyadic_isNearest x

end Binary64

end Reckoner
