/-
Values rounded at a unit.

A rounded result counts a unit `2 ^ u`, and its count is the integer that the direction chooses for
the exact value in that unit. On which side of the exact value the result lies, how far from it, and
when the two are equal follow from that and from the size of the unit, whatever computed the result.

* `Rounding.Directs` — on which side of an exact value a direction puts a result.
* `Rounding.RoundedAt` — a result counts the units that a direction chooses for an exact value.
* `RoundedAt.directs`, `RoundedAt.near`, `RoundedAt.eq_of_multiple` — what follows from that.
* `Dyadic.roundFrom_roundedAt` — **a count of units that is off by less than one, rounded with what
  it leaves out, gives a value rounded at that unit**.
* `Dyadic.cut_roundedAt` — rounding to `p` bits is rounding at the unit `p` bits below the magnitude.
-/

import Reckoner.Proofs.Number.Magnitude
import Reckoner.Proofs.Number.Rounding
import Mathlib.Algebra.Order.Field.Basic
import Mathlib.Tactic.FieldSimp
import Mathlib.Tactic.Linarith
import Mathlib.Tactic.Ring

namespace Reckoner

theorem two_zpow_pos (e : Int) : (0 : Rat) < 2 ^ e := Rat.zpow_pos (by decide)

theorem abs_eq_abs (q : Rat) : q.abs = |q| := by
  unfold Rat.abs
  split
  · next nonnegative => exact (abs_of_nonneg nonnegative).symm
  · next negative => exact (abs_of_neg (not_le.mp negative)).symm

namespace Rounding

/-! ### Sides and distances -/

/-- On which side of an exact value a direction puts a result. -/
def Directs (mode : Rounding) (exact result : Rat) : Prop :=
  match mode with
  | .down => result ≤ exact
  | .up => exact ≤ result
  | .towardZero => |result| ≤ |exact|
  | .awayFromZero => |exact| ≤ |result|
  | .nearest => True

variable {mode : Rounding} {q : Rat} {n : Int}

theorem Directs.refl (mode : Rounding) (a : Rat) : mode.Directs a a := by
  cases mode with
  | nearest => trivial
  | _ => exact le_rfl

theorem Directs.trans {a b c : Rat} (first : mode.Directs a b) (second : mode.Directs b c) :
    mode.Directs a c := by
  cases mode with
  | down => exact le_trans second first
  | up => exact le_trans first second
  | towardZero => exact le_trans second first
  | awayFromZero => exact le_trans first second
  | nearest => trivial

theorem Directs.mul_pos {a b c : Rat} (directed : mode.Directs a b) (positive : 0 < c) :
    mode.Directs (a * c) (b * c) := by
  have sizes {a b : Rat} (le : |a| ≤ |b|) : |a * c| ≤ |b * c| := by
    rw [abs_mul, abs_mul]
    exact mul_le_mul_of_nonneg_right le (abs_nonneg c)
  cases mode with
  | down => exact mul_le_mul_of_nonneg_right directed positive.le
  | up => exact mul_le_mul_of_nonneg_right directed positive.le
  | towardZero => exact sizes directed
  | awayFromZero => exact sizes directed
  | nearest => trivial

/-- **The integer that a direction chooses lies on the side of the direction.** -/
theorem Chooses.directs (chosen : mode.Chooses q n) : mode.Directs q n := by
  cases mode with
  | down =>
    rw [show n = q.floor from chosen]
    exact Rat.floor_le q
  | up =>
    rw [show n = q.ceil from chosen]
    exact Rat.le_ceil
  | towardZero =>
    show |(n : Rat)| ≤ |q|
    rw [show n = if q < 0 then q.ceil else q.floor from chosen]
    split
    · next negative =>
      have most : ((q.ceil : Int) : Rat) ≤ 0 := by
        exact_mod_cast Rat.ceil_le_iff.mpr negative.le
      rw [abs_of_nonpos most, abs_of_neg negative]
      exact neg_le_neg Rat.le_ceil
    · next nonnegative =>
      have least : (0 : Rat) ≤ (q.floor : Int) := by
        exact_mod_cast Rat.le_floor_iff.mpr (not_lt.mp nonnegative)
      rw [abs_of_nonneg least, abs_of_nonneg (not_lt.mp nonnegative)]
      exact Rat.floor_le q
  | awayFromZero =>
    show |q| ≤ |(n : Rat)|
    rw [show n = if q < 0 then q.floor else q.ceil from chosen]
    split
    · next negative =>
      have below := Rat.floor_le q
      rw [abs_of_neg negative, abs_of_neg (lt_of_le_of_lt below negative)]
      exact neg_le_neg below
    · next nonnegative =>
      have above := Rat.le_ceil (x := q)
      rw [abs_of_nonneg (not_lt.mp nonnegative),
        abs_of_nonneg (le_trans (not_lt.mp nonnegative) above)]
      exact above
  | nearest => trivial

/-- The integers next to a rational are less than one away. -/
theorem abs_floor_sub_lt (q : Rat) : |(q.floor : Rat) - q| < 1 := by
  have below := Rat.floor_le q
  have above := Rat.lt_floor (x := q)
  rw [abs_lt]
  constructor
  · linarith
  · linarith

theorem abs_ceil_sub_lt (q : Rat) : |(q.ceil : Rat) - q| < 1 := by
  have above := Rat.le_ceil (x := q)
  have below := Rat.ceil_lt (x := q)
  rw [abs_lt]
  constructor
  · linarith
  · linarith

/-- **The integer that a direction chooses is less than one away**, and the nearest one at most one
half. -/
theorem Chooses.near (chosen : mode.Chooses q n) :
    |(n : Rat) - q| < 1 ∧ (mode = .nearest → 2 * |(n : Rat) - q| ≤ 1) := by
  cases mode with
  | down =>
    rw [show n = q.floor from chosen]
    exact ⟨abs_floor_sub_lt q, nofun⟩
  | up =>
    rw [show n = q.ceil from chosen]
    exact ⟨abs_ceil_sub_lt q, nofun⟩
  | towardZero =>
    rw [show n = if q < 0 then q.ceil else q.floor from chosen]
    split
    · exact ⟨abs_ceil_sub_lt q, nofun⟩
    · exact ⟨abs_floor_sub_lt q, nofun⟩
  | awayFromZero =>
    rw [show n = if q < 0 then q.floor else q.ceil from chosen]
    split
    · exact ⟨abs_floor_sub_lt q, nofun⟩
    · exact ⟨abs_ceil_sub_lt q, nofun⟩
  | nearest =>
    have half : 2 * |(n : Rat) - q| ≤ 1 := by
      rw [abs_sub_comm, ← abs_eq_abs]
      exact chosen.1
    exact ⟨by linarith, fun _ => half⟩

/-! ### Units -/

/-- A result counts the units `2 ^ u` that a direction chooses for an exact value. -/
def RoundedAt (mode : Rounding) (u : Int) (exact : Rat) (result : Dyadic) : Prop :=
  ∃ n : Int, result = .scaled n u ∧ mode.Chooses (exact / 2 ^ u) n

namespace RoundedAt

variable {u : Int} {exact : Rat} {result : Dyadic} (rounded : mode.RoundedAt u exact result)

include rounded

/-- **A rounded value lies on the side of its direction.** -/
theorem directs : mode.Directs exact result.toRat := by
  obtain ⟨n, rfl, chosen⟩ := rounded
  have scaled := chosen.directs.mul_pos (two_zpow_pos u)
  rwa [div_mul_cancel₀ _ (two_zpow_pos u).ne', ← Dyadic.toRat_scaled] at scaled

/-- **A rounded value is less than a unit away**, and to nearest at most half a unit. -/
theorem near : |result.toRat - exact| < 2 ^ u ∧
    (mode = .nearest → 2 * |result.toRat - exact| ≤ 2 ^ u) := by
  obtain ⟨n, rfl, chosen⟩ := rounded
  have unit := two_zpow_pos u
  have distance : |(Dyadic.scaled n u).toRat - exact| = |(n : Rat) - exact / 2 ^ u| * 2 ^ u := by
    rw [Dyadic.toRat_scaled, ← abs_of_pos unit, ← abs_mul, abs_of_pos unit, sub_mul,
      div_mul_cancel₀ _ unit.ne']
  obtain ⟨near, half⟩ := chosen.near
  rw [distance]
  refine ⟨mul_lt_of_lt_one_left unit near, fun nearest => ?_⟩
  rw [← mul_assoc]
  exact mul_le_of_le_one_left unit.le (half nearest)

/-- A value that the unit divides is not rounded. -/
theorem eq_of_multiple {m : Int} (multiple : exact = m * 2 ^ u) : result.toRat = exact := by
  obtain ⟨n, rfl, chosen⟩ := rounded
  rw [multiple, mul_div_cancel_right₀ _ (two_zpow_pos u).ne'] at chosen
  rw [chosen.unique (chooses_self mode m), Dyadic.toRat_scaled, multiple]

end RoundedAt

/-! ### Truncation -/

/-- What division toward zero leaves out does not move the quotient of that direction. -/
theorem towardZero_round_of_outward {h : Int} {rest : Rest} (outward : rest.Outward h) :
    towardZero.round h rest = h := by
  cases rest with
  | zero => rfl
  | fraction negative againstHalf =>
    unfold Rest.Outward at outward
    cases negative with
    | false =>
      simp only [Bool.false_eq_true, if_false] at outward
      simp [round, Int.not_lt.mpr outward]
    | true =>
      simp only [if_true] at outward
      simp [round, Int.not_lt.mpr outward]

/-- Division toward zero chooses the integer toward zero. -/
theorem chooses_tdiv (n : Int) {d : Nat} (positive : 0 < d) :
    towardZero.Chooses ((n : Rat) / d) (n.tdiv d) := by
  have outward : (Rest.ofRatio (n.tmod d) d).Outward (n.tdiv d) := by
    unfold Rest.ofRatio
    split
    · trivial
    · next rest =>
      have divisor : (0 : Int) ≤ d := Int.natCast_nonneg d
      simp only [Rest.Outward, decide_eq_true_eq]
      rcases Int.le_total 0 n with nonnegative | negative
      · have remainder := Int.tmod_nonneg d nonnegative
        rw [if_neg (Int.not_lt.mpr remainder)]
        exact Int.tdiv_nonneg nonnegative divisor
      · have remainder := Int.tmod_nonneg (d : Int) (Int.neg_nonneg_of_nonpos negative)
        have quotient := Int.tdiv_nonneg (Int.neg_nonneg_of_nonpos negative) divisor
        rw [Int.neg_tmod] at remainder
        rw [Int.neg_tdiv] at quotient
        rw [if_pos (by omega)]
        omega
  rw [← towardZero_round_of_outward outward]
  exact chooses_ratio towardZero n positive

end Rounding

end Reckoner

namespace Dyadic

open Reckoner

variable {x : Dyadic} {u : Int} {p : Nat} {mode : Rounding}

/-- A value counted in units, as a fraction of integers. -/
theorem toRat_div_unit (x : Dyadic) (u : Int) :
    x.toRat / 2 ^ u = ((x.significand * 2 ^ (x.exponent - u).toNat : Int) : Rat) /
      ((2 ^ (u - x.exponent).toNat : Nat) : Rat) := by
  generalize above : (x.exponent - u).toNat = j
  generalize below : (u - x.exponent).toNat = k
  have split : x.exponent - u = (j : Int) - k := by omega
  rw [toRat_eq, mul_div_assoc, ← zpow_sub₀ two_ne_zero, split, zpow_sub₀ two_ne_zero,
    zpow_natCast, zpow_natCast, ← mul_div_assoc]
  push_cast
  rfl

/-- **The units of a value up to a truncation are the integer toward zero.** -/
theorem truncAt_chooses (x : Dyadic) (u : Int) :
    Rounding.towardZero.Chooses (x.toRat / 2 ^ u) (x.truncAt u) := by
  rw [toRat_div_unit]
  exact Rounding.chooses_tdiv _ (Nat.pow_pos (by decide))

/-- A value is rounded at every unit that divides it. -/
theorem roundedAt_self (below : u ≤ x.exponent) : mode.RoundedAt u x.toRat x := by
  refine ⟨_, eq_scaled below, ?_⟩
  nth_rewrite 1 [eq_scaled below]
  rw [toRat_scaled, mul_div_cancel_right₀ _ (two_zpow_pos u).ne']
  exact Rounding.chooses_self mode _

/-- A truncated value is rounded toward zero. -/
theorem truncated_roundedAt (x : Dyadic) (u : Int) :
    Rounding.towardZero.RoundedAt u x.toRat (scaled (x.truncAt u) u) :=
  ⟨_, rfl, truncAt_chooses x u⟩

/-! ### Signs and sizes -/

theorem isNegative_iff (x : Dyadic) : x.isNegative ↔ x.toRat < 0 := by
  have unit := two_zpow_pos x.exponent
  unfold isNegative
  rw [decide_eq_true_eq, toRat_eq, ← Rat.zero_mul (2 ^ x.exponent), Rat.mul_lt_mul_right unit,
    ← Rat.intCast_zero, Rat.intCast_lt_intCast]

theorem toRat_abs (x : Dyadic) : x.abs.toRat = |x.toRat| := by
  unfold abs
  by_cases negative : x.isNegative
  · rw [if_pos negative, toRat_neg, abs_of_neg (x.isNegative_iff.mp negative)]
  · rw [if_neg negative, abs_of_nonneg (not_lt.mp (mt x.isNegative_iff.mpr negative))]

theorem abs_toRat_lt (nonzero : x ≠ 0) : |x.toRat| < 2 ^ x.magnitude := by
  rw [← toRat_abs]
  exact (magnitude_spec nonzero).2

theorem le_abs_toRat (nonzero : x ≠ 0) : 2 ^ (x.magnitude - 1) ≤ |x.toRat| := by
  rw [← toRat_abs]
  exact (magnitude_spec nonzero).1

/-- A value is at least as long as a size that it reaches. -/
theorem lt_magnitude {g : Int} (large : 2 ^ g ≤ |x.toRat|) : g < x.magnitude := by
  have nonzero : x ≠ 0 := by
    rintro rfl
    rw [toRat_zero, abs_zero] at large
    exact absurd large (not_le.mpr (two_zpow_pos g))
  refine Int.not_le.mp fun small => ?_
  have below := (magnitude_le_iff nonzero).mp small
  rw [toRat_abs] at below
  exact absurd large (not_le.mpr below)

/-! ### Rounding -/

/-- Comparing twice a size with a unit compares the size in units with one half. -/
theorem againstHalf_order {size : Dyadic} (u : Int) :
    AgainstHalf (size.toRat / 2 ^ u) (order (scaled 2 0 * size) (scaled 1 u)) := by
  have unit := two_zpow_pos u
  have twice : (scaled 2 0 * size).toRat = 2 * size.toRat := by
    rw [toRat_mul, toRat_scaled, Rat.zpow_zero, Rat.mul_one]
    rfl
  have one : (scaled 1 u).toRat = 2 ^ u := by
    rw [toRat_scaled, Rat.intCast_one, Rat.one_mul]
  unfold order
  split
  · next less =>
    rw [← toRat_lt_toRat_iff, twice, one] at less
    show 2 * (size.toRat / 2 ^ u) < 1
    rwa [← mul_div_assoc, div_lt_one unit]
  · next least =>
    rw [← toRat_lt_toRat_iff, twice, one, not_lt] at least
    split
    · next same =>
      rw [← toRat_inj, twice, one] at same
      show 2 * (size.toRat / 2 ^ u) = 1
      rw [← mul_div_assoc, same, div_self unit.ne']
    · next different =>
      rw [← toRat_inj, twice, one] at different
      show 1 < 2 * (size.toRat / 2 ^ u)
      rw [← mul_div_assoc, one_lt_div unit]
      exact lt_of_le_of_ne least (Ne.symm different)

/-- A difference below a unit is described as a rest of that unit. -/
theorem leftOut_restAt {d : Dyadic} (small : |d.toRat| < 2 ^ u) :
    (restAt d u).LeftOut (d.toRat / 2 ^ u) := by
  have unit := two_zpow_pos u
  unfold restAt
  by_cases zero : d = 0
  · rw [if_pos zero, zero]
    exact zero_div _
  · have size : (if d.isNegative = true then -(d.toRat / 2 ^ u) else d.toRat / 2 ^ u) =
        d.abs.toRat / 2 ^ u := by
      unfold abs
      split
      · rw [toRat_neg, neg_div]
      · rfl
    have counted : 0 < |d.toRat| := abs_pos.mpr (mt toRat_eq_zero_iff.mp zero)
    rw [if_neg zero]
    simp only [Rest.LeftOut, size]
    refine ⟨?_, ?_, againstHalf_order u⟩
    · rw [toRat_abs]
      exact div_pos counted unit
    · rw [toRat_abs, div_lt_one unit]
      exact small

/-- **A count of units that is off by less than one, rounded with what it leaves out, gives a value
rounded at that unit.** -/
theorem roundFrom_roundedAt {h : Int} (near : |x.toRat - h * 2 ^ u| < 2 ^ u) :
    mode.RoundedAt u x.toRat (roundFrom mode x h u) := by
  refine ⟨_, rfl, Rounding.chooses_round mode ?_⟩
  have difference : x.toRat / 2 ^ u - h = (x - scaled h u).toRat / 2 ^ u := by
    rw [toRat_sub, toRat_scaled, sub_div, mul_div_cancel_right₀ _ (two_zpow_pos u).ne']
  rw [difference]
  refine leftOut_restAt ?_
  rwa [toRat_sub, toRat_scaled]

/-- **Rounding to `p` bits is rounding at the unit `p` bits below the magnitude**, also for values
that have no more bits. -/
theorem cut_roundedAt (mode : Rounding) (p : Nat) (x : Dyadic) :
    mode.RoundedAt (x.magnitude - p) x.toRat (x.cut mode p) := by
  by_cases long : p < x.length
  · have unit : x.exponent + (x.length - p : Nat) = x.magnitude - p := by
      unfold magnitude
      omega
    unfold cut
    rw [if_neg (Nat.not_le.mpr long)]
    simp only [unit]
    refine roundFrom_roundedAt ?_
    rw [abs_sub_comm, ← toRat_scaled]
    exact (truncated_roundedAt x _).near.1
  · have below : x.magnitude - p ≤ x.exponent := by
      unfold magnitude
      omega
    rw [cut_eq_self_iff.mpr (Nat.not_lt.mp long)]
    exact roundedAt_self below

/-- Cutting keeps a value from falling below zero. -/
theorem cut_nonneg (positive : 0 < p) (mode : Rounding) (nonnegative : 0 ≤ x.toRat) :
    0 ≤ (x.cut mode p).toRat := by
  by_cases zero : x = 0
  · rw [(cut_eq_zero_iff positive).mpr zero, toRat_zero]
  · refine not_lt.mp fun negative => ?_
    have same := (cut_spec positive mode zero).2.1
    have sign := (isNegative_iff _).mpr negative
    rw [same, isNegative_iff] at sign
    exact absurd sign (not_lt.mpr nonnegative)

end Dyadic
