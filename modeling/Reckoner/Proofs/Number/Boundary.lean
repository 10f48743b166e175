/-
Numbers at the boundary to doubles.

A number is rounded twice on its way to a double: to 53 bits, and then to the units that doubles
have. The second step does nothing unless these units are coarser, which they are below the smallest
double with 53 bits. There the first step may end on a tie that the number itself is not, and the
second one then goes to the even side.

* `Rounding.chooses_iff_not_misled` — **which integers two roundings in a row choose**.
* `Binary64.Slips`, `Binary64.ofDyadic_cut_iff` — the values whose double is not the nearest one.
* `Dyadic.cut_size_mono`, `Number.toBinary64_mono` — a larger number has no smaller double.
* `Number.toBinary64_ofBinary64` — every finite double comes back, zero without its sign;
  `Number.binary64_boundary` puts these together.
* `Number.toBinary64_misses` — a numeral whose number slips.
-/

import Reckoner.Proofs.Number.Nearest

namespace Reckoner

/-! ### Rounding in two steps -/

namespace Rounding

variable {q r : Rat} {c : Nat} {h n : Int}

theorem exists_chooses (mode : Rounding) (q : Rat) : ∃ n, mode.Chooses q n := by
  have ratio := chooses_ratio mode q.num q.den_pos
  rw [Rat.num_div_den] at ratio
  exact ⟨_, ratio⟩

/-- Whether a value is a tie that another value, which it stands for, is not: the even neighbour is
chosen for it although the other value lies on the side of the odd one. -/
def Misled (exact intermediate : Rat) : Prop :=
  ∃ j : Int, intermediate = j + 1 / 2 ∧
    if j % 2 = 0 then intermediate < exact else exact < intermediate

/-- An even integer is chosen up to one half, the ends included. -/
theorem chooses_even_iff (even : n % 2 = 0) : nearest.Chooses q n ↔ |q - n| ≤ 1 / 2 := by
  unfold Chooses
  rw [abs_eq_abs]
  constructor
  · rintro ⟨near, -⟩
    linarith
  · intro near
    exact ⟨by linarith, fun _ => even⟩

/-- At a tie, the even neighbour is chosen also for what lies near enough on its side. -/
theorem chooses_of_tie {j : Int} (coarse : nearest.Chooses ((j : Rat) + 1 / 2) n)
    (near : |q - (j + 1 / 2)| ≤ 1 / 4) :
    nearest.Chooses q n ↔ ¬if j % 2 = 0 then (j : Rat) + 1 / 2 < q else q < j + 1 / 2 := by
  obtain ⟨below, above⟩ := abs_le.mp near
  by_cases even : j % 2 = 0
  · have chosen : nearest.Chooses ((j : Rat) + 1 / 2) j := by
      rw [chooses_even_iff even, add_sub_cancel_left, abs_of_pos (by norm_num)]
    rw [coarse.unique chosen, chooses_even_iff even, if_pos even, not_lt, abs_le]
    constructor
    · intro ⟨_, le⟩
      linarith
    · intro le
      constructor
      · linarith
      · linarith
  · have even' : (j + 1) % 2 = 0 := by omega
    have chosen : nearest.Chooses ((j : Rat) + 1 / 2) (j + 1 : Int) := by
      rw [chooses_even_iff even', abs_le]
      push_cast
      constructor
      · linarith
      · linarith
    rw [coarse.unique chosen, chooses_even_iff even', if_neg even, not_lt, abs_le]
    push_cast
    constructor
    · intro ⟨le, _⟩
      linarith
    · intro le
      constructor
      · linarith
      · linarith

section TwoSteps

variable (fine : nearest.Chooses (q * (2 * c)) h) (coarse : nearest.Chooses (h / (2 * c)) n)
  (positive : 0 < c)

include fine positive

/-- The first step is off by a quarter of the coarser unit at most. -/
theorem abs_sub_fine_le : |q - h / (2 * c)| ≤ 1 / 4 := by
  have unit : (1 : Rat) ≤ c := by exact_mod_cast positive
  have size : (0 : Rat) < 2 * c := by linarith
  have half := fine.half
  rw [abs_sub_eq_mul size, mul_div_cancel_right₀ _ size.ne'] at half
  have least := mul_le_mul_of_nonneg_left unit (abs_nonneg (q - h / (2 * c)))
  linarith

include coarse

/-- Without a tie in the second step, the choice is that for the exact value. -/
theorem chooses_of_no_tie (no_tie : ¬∃ j : Int, (h : Rat) / (2 * c) = j + 1 / 2) :
    nearest.Chooses q n := by
  have unit : (0 : Rat) < 2 * c := by
    have least : (0 : Rat) < c := by exact_mod_cast positive
    linarith
  have count : |h - n * (2 * c)| ≤ (c : Int) := by
    have le := mul_le_mul_of_nonneg_right coarse.half unit.le
    have close : |(h : Rat) - n * (2 * c)| ≤ c := by
      rw [abs_sub_eq_mul unit, mul_div_cancel_right₀ _ unit.ne']
      linarith
    exact_mod_cast close
  -- The count of the finer units is whole, so it stays away from the ties by one of them.
  have ends (j : Int) : h ≠ n * (2 * c) + (2 * j - 1) * c := by
    refine fun same => no_tie ⟨n + j - 1, ?_⟩
    rw [div_eq_iff unit.ne', same]
    push_cast
    ring
  have above := ends 1
  have below := ends 0
  have short : |h - n * (2 * c)| ≤ (c : Int) - 1 := by
    rw [abs_le] at count ⊢
    constructor
    · omega
    · omega
  have near : |(h : Rat) - n * (2 * c)| ≤ c - 1 := by exact_mod_cast short
  have half := fine.half
  have total := abs_sub_le (q * (2 * c)) h (n * (2 * c))
  rw [← sub_mul, abs_mul, abs_of_pos unit] at total
  have strict : 2 * |q - n| < 1 := by
    refine lt_of_mul_lt_mul_right ?_ unit.le
    linarith
  unfold Chooses
  rw [abs_eq_abs]
  exact ⟨strict.le, fun tie => absurd tie strict.ne⟩

/-- **Two roundings in a row choose the nearest integer unless the first one ends on a tie**, on the
wrong side of the value. -/
theorem chooses_iff_not_misled : nearest.Chooses q n ↔ ¬Misled q (h / (2 * c)) := by
  by_cases tie : ∃ j : Int, (h : Rat) / (2 * c) = j + 1 / 2
  · obtain ⟨j, half⟩ := tie
    have near := abs_sub_fine_le fine positive
    rw [half] at coarse near ⊢
    rw [chooses_of_tie coarse near, not_iff_not]
    constructor
    · exact fun side => ⟨j, rfl, side⟩
    · rintro ⟨i, same, side⟩
      have equal : (j : Rat) = i := by linarith
      rwa [← Int.cast_inj.mp equal] at side
  · refine iff_of_true (chooses_of_no_tie fine coarse positive tie) ?_
    rintro ⟨j, half, -⟩
    exact tie ⟨j, half⟩

end TwoSteps

end Rounding

end Reckoner

namespace Dyadic

open Reckoner
open Rounding (nearest)

variable {x y : Dyadic} {p : Nat}

/-! ### Sizes of values rounded to nearest -/

/-- The size of a value rounded to nearest counts the nearest number of units of its size. -/
theorem exists_cut_size (p : Nat) (x : Dyadic) : ∃ n : Nat,
    |(x.cut .nearest p).toRat| = n * 2 ^ (x.magnitude - p) ∧
      nearest.Chooses (|x.toRat| / 2 ^ (x.magnitude - p)) n := by
  obtain ⟨n, same, chosen⟩ := cut_roundedAt .nearest p x
  have unit := two_zpow_pos (x.magnitude - p)
  obtain ⟨k, size, chosen⟩ : ∃ k : Int, |(n : Rat)| = |(k : Rat)| ∧
      nearest.Chooses (|x.toRat| / 2 ^ (x.magnitude - p)) k := by
    rcases le_or_gt 0 x.toRat with nonnegative | negative
    · rw [abs_of_nonneg nonnegative]
      exact ⟨n, rfl, chosen⟩
    · rw [abs_of_neg negative, neg_div]
      exact ⟨-n, by rw [Int.cast_neg, abs_neg], chosen.nearest_neg⟩
  obtain ⟨k, rfl⟩ := Int.eq_ofNat_of_zero_le
    (chosen.nearest_nonneg (div_nonneg (abs_nonneg _) unit.le))
  refine ⟨k, ?_, chosen⟩
  rw [same, toRat_scaled, abs_mul, abs_of_pos unit, size, Int.cast_natCast, Nat.abs_cast]

theorem cut_neg_iff (positive : 0 < p) : (x.cut .nearest p).toRat < 0 ↔ x.toRat < 0 := by
  by_cases zero : x = 0
  · rw [(cut_eq_zero_iff positive).mpr zero, zero]
  · rw [← isNegative_iff, (cut_spec positive .nearest zero).2.1, isNegative_iff]

/-- **Rounding to nearest keeps the order of sizes.** -/
theorem cut_size_mono (positive : 0 < p) (le : |x.toRat| ≤ |y.toRat|) :
    |(x.cut .nearest p).toRat| ≤ |(y.cut .nearest p).toRat| := by
  by_cases zero : x = 0
  · rw [(cut_eq_zero_iff positive).mpr zero, toRat_zero, abs_zero]
    exact abs_nonneg _
  obtain ⟨m, size, chosen⟩ := exists_cut_size p x
  obtain ⟨n, size', chosen'⟩ := exists_cut_size p y
  have lower := le_abs_toRat zero
  have reached : x.magnitude - 1 < y.magnitude := lt_magnitude (le_trans lower le)
  rcases eq_or_lt_of_le (Int.le_of_sub_one_lt reached) with same | longer
  · rw [size, size', ← same]
    rw [← same] at chosen'
    have unit := two_zpow_pos (x.magnitude - p)
    refine mul_le_mul_of_nonneg_right ?_ unit.le
    exact_mod_cast chosen.nearest_mono chosen' (div_le_div_of_nonneg_right le unit.le)
  · -- The power of two between them is kept by both.
    have nonzero : y ≠ 0 := by
      rintro rfl
      rw [toRat_zero, abs_zero, abs_nonpos_iff] at le
      exact zero (toRat_eq_zero_iff.mp le)
    obtain ⟨counted, -, atLeast, -⟩ := cut_spec positive .nearest nonzero
    have unit := two_zpow_pos (x.magnitude - p)
    have whole : (2 : Rat) ^ p * 2 ^ (x.magnitude - p) = 2 ^ x.magnitude := by
      rw [← zpow_natCast, ← zpow_add₀ two_ne_zero]
      congr 1
      omega
    have power : nearest.Chooses ((2 ^ p : Int) : Rat) (2 ^ p) := Rounding.chooses_self nearest _
    have most : (m : Int) ≤ 2 ^ p := by
      refine chosen.nearest_mono power ?_
      rw [div_le_iff₀ unit]
      push_cast
      rw [whole]
      exact (abs_toRat_lt zero).le
    have most : (m : Rat) ≤ 2 ^ p := by exact_mod_cast most
    calc |(x.cut .nearest p).toRat| = m * 2 ^ (x.magnitude - p) := size
      _ ≤ 2 ^ p * 2 ^ (x.magnitude - p) := mul_le_mul_of_nonneg_right most unit.le
      _ = 2 ^ x.magnitude := whole
      _ ≤ 2 ^ ((y.cut .nearest p).magnitude - 1) := zpow_le_zpow_right₀ one_le_two (by omega)
      _ ≤ |(y.cut .nearest p).toRat| := le_abs_toRat counted

end Dyadic

namespace Reckoner

open Rounding (nearest)

namespace Binary64

/-! ### Values whose double is not the nearest one -/

/-- Whether the nearest 53 bits of a value lie midway between two multiples of the smallest double
above zero, while the value itself lies on the side of the odd one. -/
def Slips (x : Dyadic) : Prop :=
  Rounding.Misled (|x.toRat| / unitOf 0) (|(x.cut .nearest 53).toRat| / unitOf 0)

theorem isNegative_ofDyadic_cut (x : Dyadic) :
    (ofDyadic (x.cut .nearest 53)).isNegative = decide (x.toRat < 0) := by
  rw [(ofDyadic_encodes _).1, decide_eq_decide]
  exact Dyadic.cut_neg_iff (by decide)

/-- Where 53 bits are a count of units that doubles have, the second rounding does nothing. -/
theorem cut_pattern_of_coarse {x : Dyadic} (nonzero : x ≠ 0) (coarse : -1074 ≤ x.magnitude - 53) :
    (ofDyadic (x.cut .nearest 53)).pattern = (ofDyadic x).pattern ∧ ¬Slips x := by
  obtain ⟨k, unit⟩ : ∃ k : Nat, x.magnitude - (53 : Nat) = (k : Int) - 1074 :=
    ⟨(x.magnitude - 53 + 1074).toNat, by omega⟩
  obtain ⟨n, size, chosen⟩ := Dyadic.exists_cut_size 53 x
  rw [unit] at size chosen
  have counts : Counts k |x.toRat| n := Counts.of_dyadic nonzero (by omega) chosen
  constructor
  · have own := (ofDyadic_encodes (x.cut .nearest 53)).2.1
    rw [size] at own
    rw [own.unique ⟨k, n, counts.counted, rfl⟩,
      (ofDyadic_encodes x).2.1.unique ⟨k, n, counts, rfl⟩]
  · rintro ⟨j, half, -⟩
    have binades : (2 : Rat) ^ ((k : Int) - 1074) = 2 ^ k * unitOf 0 := by
      rw [sub_eq_add_neg, zpow_add₀ two_ne_zero, zpow_natCast]
      rfl
    rw [size, binades, ← mul_assoc, mul_div_cancel_right₀ _ (unitOf_pos 0).ne'] at half
    have odd : 2 * (n * 2 ^ k : Nat) = 2 * j + 1 := by
      have twice : (2 : Rat) * (n * 2 ^ k : Nat) = 2 * j + 1 := by
        push_cast
        rw [half]
        ring
      exact_mod_cast twice
    omega

/-- Up to twice the smallest double with 53 bits, patterns count the smallest double above zero. -/
theorem pattern_chooses {x : Dyadic} (nonzero : x ≠ 0) (small : x.magnitude - 53 ≤ -1074) :
    nearest.Chooses (|x.toRat| / unitOf 0) (ofDyadic x).pattern := by
  obtain ⟨n, chosen⟩ := Rounding.exists_chooses nearest (|x.toRat| / unitOf 0)
  obtain ⟨n, rfl⟩ := Int.eq_ofNat_of_zero_le
    (chosen.nearest_nonneg (div_nonneg (abs_nonneg _) (unitOf_pos 0).le))
  have counts : Counts 0 |x.toRat| n := Counts.of_dyadic nonzero (by omega) chosen
  have most := counts.most
  have infinite : infinityPattern = 2047 * 2 ^ 52 := rfl
  rw [(ofDyadic_encodes x).2.1.unique ⟨0, n, counts, rfl⟩, Nat.min_eq_left (by omega),
    Nat.zero_mul, Nat.zero_add]
  exact chosen

/-- Where doubles have no unit as fine as that of 53 bits, these are two roundings in a row. -/
theorem cut_pattern_of_fine {x : Dyadic} (nonzero : x ≠ 0) (fine : x.magnitude - 53 < -1074) :
    (ofDyadic (x.cut .nearest 53)).pattern = (ofDyadic x).pattern ↔ ¬Slips x := by
  obtain ⟨counted, -, -, atMost⟩ := Dyadic.cut_spec (by decide : 0 < 53) .nearest nonzero
  have own := pattern_chooses nonzero (by omega)
  have cut := pattern_chooses counted (by omega)
  obtain ⟨h, size, chosen⟩ := Dyadic.exists_cut_size 53 x
  obtain ⟨i, unit⟩ : ∃ i : Nat, (-1074 : Int) = (i : Int) + 1 + (x.magnitude - (53 : Nat)) :=
    ⟨(-1075 - (x.magnitude - 53)).toNat, by omega⟩
  have positive := two_zpow_pos (x.magnitude - (53 : Nat))
  have units : unitOf 0 = 2 * ((2 ^ i : Nat) : Rat) * 2 ^ (x.magnitude - (53 : Nat)) := by
    show (2 : Rat) ^ (-1074 : Int) = _
    rw [unit, zpow_add₀ two_ne_zero, zpow_add_one₀ two_ne_zero, zpow_natCast]
    push_cast
    ring
  have finer : |x.toRat| / 2 ^ (x.magnitude - (53 : Nat)) =
      |x.toRat| / unitOf 0 * (2 * ((2 ^ i : Nat) : Rat)) := by
    rw [units]
    field_simp
  have coarser : |(x.cut .nearest 53).toRat| / unitOf 0 =
      ((h : Int) : Rat) / (2 * ((2 ^ i : Nat) : Rat)) := by
    rw [size, units, mul_div_mul_right _ _ positive.ne', Int.cast_natCast]
  rw [finer] at chosen
  unfold Slips
  rw [coarser] at cut ⊢
  rw [← Rounding.chooses_iff_not_misled chosen cut (Nat.pow_pos (by decide))]
  constructor
  · intro same
    rw [same]
    exact own
  · intro nearest
    exact_mod_cast nearest.unique own

/-- **The second rounding keeps the nearest double of a value exactly if it does not slip.** -/
theorem ofDyadic_cut_iff (x : Dyadic) : ofDyadic (x.cut .nearest 53) = ofDyadic x ↔ ¬Slips x := by
  have sign := (isNegative_ofDyadic_cut x).trans (ofDyadic_encodes x).1.symm
  have patterns : (ofDyadic (x.cut .nearest 53)).pattern = (ofDyadic x).pattern ↔ ¬Slips x := by
    by_cases zero : x = 0
    · have same : x.cut .nearest 53 = x := by
        rw [zero]
        rfl
      rw [same]
      refine iff_of_true rfl ?_
      rintro ⟨j, half, side⟩
      rw [same] at side
      split at side <;> exact lt_irrefl _ side
    · by_cases coarse : -1074 ≤ x.magnitude - 53
      · obtain ⟨same, stays⟩ := cut_pattern_of_coarse zero coarse
        exact iff_of_true same stays
      · exact cut_pattern_of_fine zero (Int.not_le.mp coarse)
  rw [← patterns]
  exact ⟨fun same => by rw [same], eq_of_pattern sign⟩

/-- A value that slips is smaller than the smallest double with 53 bits. -/
theorem Slips.lt {x : Dyadic} (slips : Slips x) : |x.toRat| < 2 ^ (-1022 : Int) := by
  refine not_le.mp fun large => ?_
  have reached := Dyadic.lt_magnitude large
  have nonzero : x ≠ 0 := by
    rintro rfl
    rw [Dyadic.toRat_zero, abs_zero] at large
    exact absurd (two_zpow_pos _) (not_lt.mpr large)
  exact (cut_pattern_of_coarse nonzero (by omega)).2 slips

/-! ### Doubles as values -/

section Values

variable (d : Binary64)

theorem significand_eq_zero_iff : d.significand = 0 ↔ d.isZero := by
  unfold significand isZero exponentField fractionField
  rw [decide_eq_true_eq]
  split <;> omega

theorem length_value_le : d.value.length ≤ 53 := by
  have bits : bitLength d.significand ≤ 53 := bitLength_le_iff.mpr d.significand_lt
  unfold value magnitude
  split
  · rw [Dyadic.neg_scaled]
    exact Dyadic.length_scaled_le (by rwa [Int.natAbs_neg]) _
  · exact Dyadic.length_scaled_le bits _

variable {d} in
/-- **A finite double is the one of its own value**, but the double of zero is positive. -/
theorem ofDyadic_value (finite : d.isFinite) :
    ofDyadic d.value = if d.isZero then zero false else d := by
  have size := d.toRat_magnitude
  split
  · next none =>
    rw [d.significand_eq_zero_iff.mpr none, Nat.cast_zero, zero_mul, ← d.abs_toRat_value,
      abs_eq_zero] at size
    rw [Dyadic.toRat_eq_zero_iff.mp size]
    rfl
  · next some =>
    have positive : 0 < d.magnitude.toRat := by
      rw [size]
      refine mul_pos ?_ (two_zpow_pos _)
      exact_mod_cast Nat.pos_of_ne_zero (mt d.significand_eq_zero_iff.mp some)
    obtain ⟨sign, encodes, -⟩ := ofDyadic_encodes d.value
    rw [abs_toRat_value] at encodes
    refine eq_of_pattern ?_ (encodes.unique (Encodes.of_magnitude finite))
    rw [sign, toRat_value]
    cases d.isNegative with
    | false => exact decide_eq_false (not_lt.mpr positive.le)
    | true => exact decide_eq_true (neg_lt_zero.mpr positive)

end Values

end Binary64

namespace Number

open Binary64

/-! ### Order -/

/-- **A larger number has no smaller double**, and never one without order. -/
theorem toBinary64_mono {x y : Number} (le : x.value.toRat ≤ y.value.toRat) :
    ∃ o, x.toBinary64.order? y.toBinary64 = some o ∧ o.isLE := by
  obtain ⟨-, encodes, -⟩ := ofDyadic_encodes (x.value.cut .nearest 53)
  obtain ⟨-, encodes', -⟩ := ofDyadic_encodes (y.value.cut .nearest 53)
  have number : x.toBinary64.isNaN = false := decide_eq_false (not_lt.mpr encodes.le_infinity)
  have number' : y.toBinary64.isNaN = false := decide_eq_false (not_lt.mpr encodes'.le_infinity)
  unfold order?
  rw [number, number']
  refine ⟨_, rfl, Int.isLE_compare.mpr ?_⟩
  unfold toBinary64
  simp only [isNegative_ofDyadic_cut, decide_eq_true_eq]
  rcases lt_or_ge x.value.toRat 0 with negative | nonnegative
  · rw [if_pos negative]
    rcases lt_or_ge y.value.toRat 0 with negative' | nonnegative'
    · -- Below zero, the larger number is the smaller one in size.
      have sizes : |y.value.toRat| ≤ |x.value.toRat| := by
        rw [abs_of_neg negative, abs_of_neg negative']
        exact neg_le_neg le
      have patterns := encodes'.mono encodes (Dyadic.cut_size_mono (by decide) sizes)
      rw [if_pos negative']
      omega
    · rw [if_neg (not_lt.mpr nonnegative')]
      omega
  · have nonnegative' := le_trans nonnegative le
    have sizes : |x.value.toRat| ≤ |y.value.toRat| := by
      rw [abs_of_nonneg nonnegative, abs_of_nonneg nonnegative']
      exact le
    have patterns := encodes.mono encodes' (Dyadic.cut_size_mono (by decide) sizes)
    rw [if_neg (not_lt.mpr nonnegative), if_neg (not_lt.mpr nonnegative')]
    omega

/-! ### Doubles as numbers -/

/-- **A finite double is a number of exactly its value**, which becomes the same double again. Zero
loses its sign. -/
theorem toBinary64_ofBinary64 {d : Binary64} (finite : d.isFinite) :
    ∃ x, ofBinary64 d = .ok x ∧ x.value = d.value ∧
      x.toBinary64 = if d.isZero then Binary64.zero false else d := by
  refine ⟨⟨d.value, bitLength d.significand⟩, if_pos finite, rfl, ?_⟩
  unfold toBinary64
  rw [Dyadic.cut_eq_self_iff.mpr d.length_value_le]
  exact ofDyadic_value finite

/-- **Numbers at the boundary to doubles.** A number becomes its nearest double exactly if it does
not slip, and none slips that reaches the smallest double with 53 bits. In any case a larger number
has no smaller double. A finite double becomes a number of exactly its value, and the same double
again, but for the sign of zero. -/
theorem binary64_boundary (x y : Number) (d : Binary64) :
    (IsNearest x.value.toRat x.toBinary64 ↔ ¬Slips x.value) ∧
    (2 ^ (-1022 : Int) ≤ |x.value.toRat| → IsNearest x.value.toRat x.toBinary64) ∧
    (x.value.toRat ≤ y.value.toRat →
      ∃ o, x.toBinary64.order? y.toBinary64 = some o ∧ o.isLE) ∧
    (d.isFinite → ∃ z, ofBinary64 d = .ok z ∧
      z.value.toRat = (if d.isNegative then -1 else 1) * (d.significand * 2 ^ d.unitExponent) ∧
      z.toBinary64 = if d.isZero then Binary64.zero false else d) := by
  have nearest : IsNearest x.value.toRat x.toBinary64 ↔ ¬Slips x.value :=
    isNearest_iff.trans (ofDyadic_cut_iff x.value)
  refine ⟨nearest, fun large => ?_, toBinary64_mono, fun finite => ?_⟩
  · exact nearest.mpr fun slips => absurd large (not_le.mpr slips.lt)
  · obtain ⟨z, converted, value, same⟩ := toBinary64_ofBinary64 finite
    refine ⟨z, converted, ?_, same⟩
    rw [value, toRat_value, toRat_magnitude]
    split
    · rw [neg_one_mul]
    · rw [one_mul]

/-- One half, one and a half, and the largest double below zero. -/
theorem binary64_boundary_half :
    IsNearest (Dyadic.scaled 1 (-1)).toRat (toBinary64 ⟨.scaled 1 (-1), 64⟩) ∧
    (∃ o, (toBinary64 ⟨.scaled 1 (-1), 64⟩).order? (toBinary64 ⟨.scaled 3 (-1), 64⟩) = some o ∧
      o.isLE) ∧
    ∃ z, ofBinary64 (ofPattern true 1) = .ok z ∧ z.value.toRat = -2 ^ (-1074 : Int) ∧
      z.toBinary64 = ofPattern true 1 := by
  obtain ⟨-, normal, order, back⟩ :=
    binary64_boundary ⟨.scaled 1 (-1), 64⟩ ⟨.scaled 3 (-1), 64⟩ (ofPattern true 1)
  refine ⟨normal ?_, order (by decide +kernel), ?_⟩
  · rw [Dyadic.toRat_scaled, Int.cast_one, one_mul, abs_of_pos (two_zpow_pos _)]
    exact zpow_le_zpow_right₀ one_le_two (by decide)
  · obtain ⟨z, converted, value, same⟩ := back (by decide +kernel)
    refine ⟨z, converted, ?_, same⟩
    have fields : (ofPattern true 1).isNegative = true ∧ (ofPattern true 1).significand = 1 ∧
      (ofPattern true 1).unitExponent = -1074 := by decide +kernel
    rw [value, fields.1, fields.2.1, fields.2.2, if_pos rfl, Nat.cast_one, one_mul, neg_one_mul]

/-- The number of a numeral just below the middle between two doubles becomes the farther one. -/
theorem toBinary64_misses : ∃ x, fromDecimal "2.2250738585072011e-308" 256 .nearest = .ok x ∧
    x.toBinary64 = ofPattern false (2 ^ 52) ∧ ¬IsNearest x.value.toRat x.toBinary64 := by
  have farther : (fromDecimal "2.2250738585072011e-308" 256 .nearest).map toBinary64 =
      .ok (ofPattern false (2 ^ 52)) := by decide +kernel
  have nearer : (fromDecimal "2.2250738585072011e-308" 256 .nearest).map
      (fun x => ofDyadic x.value) = .ok (ofPattern false (2 ^ 52 - 1)) := by decide +kernel
  cases numeral : fromDecimal "2.2250738585072011e-308" 256 .nearest with
  | error refused =>
    rw [numeral] at farther
    exact absurd farther nofun
  | ok x =>
    rw [numeral] at farther nearer
    have double : x.toBinary64 = ofPattern false (2 ^ 52) := Except.ok.inj farther
    have nearest : ofDyadic x.value = ofPattern false (2 ^ 52 - 1) := Except.ok.inj nearer
    refine ⟨x, rfl, double, ?_⟩
    rw [isNearest_iff, nearest, double]
    decide +kernel

end Number

end Reckoner
