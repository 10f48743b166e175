/-
Doubles that stay finite.

* `Dyadic.bitLength_truncAt_le` — how long an integer part is.
* `Binary64.pattern_ofMagnitude_le` — **a value below `2 ^ g` rounds to a pattern that is at most that
  of `2 ^ g`**, so it is finite for all `g` up to 1023.
* `Binary64.isFinite_mul` — the product of two doubles that are not too large is finite.
-/

import Reckoner.Number.Binary64
import Reckoner.Proofs.Number.Exact

namespace Dyadic

open Reckoner

/-- A value counts at most as many units as its magnitude says. -/
theorem bitLength_truncAt_le (x : Dyadic) (u : Int) :
    bitLength (x.truncAt u).natAbs ≤ (x.magnitude - u).toNat := by
  have power (j : Nat) : (2 ^ j : Int).natAbs = 2 ^ j := Int.natAbs_pow 2 j
  unfold truncAt
  rw [Int.natAbs_tdiv, Int.natAbs_mul, power, power]
  show bitLength (x.significand.natAbs * 2 ^ (x.exponent - u).toNat /
    2 ^ (u - x.exponent).toNat) ≤ _
  rw [bitLength_div_two_pow]
  by_cases zero : x.significand.natAbs = 0
  · rw [zero, Nat.zero_mul]
    exact Nat.le_trans (Nat.sub_le _ _) (Nat.zero_le _)
  · rw [bitLength_mul_two_pow zero]
    unfold magnitude length
    omega

theorem magnitude_mul_le {x y : Dyadic} (nonzero : x ≠ 0) (nonzero' : y ≠ 0) :
    (x * y).magnitude ≤ x.magnitude + y.magnitude := by
  have lengths := length_mul_le x y
  have exponents := (mul_parts nonzero nonzero').2
  unfold magnitude
  omega

end Dyadic

namespace Reckoner.Binary64

theorem pattern_ofPattern (negative : Bool) {pattern : Nat} (bound : pattern < 2 ^ 63) :
    (ofPattern negative pattern).pattern = pattern := by
  unfold Binary64.pattern ofPattern
  rw [BitVec.toNat_ofNat]
  split <;> omega

section Bounds

variable {g : Nat} (room : g ≤ 1023)

include room

/-- **The pattern of a value below `2 ^ g`** is at most that of `2 ^ g` itself. -/
theorem pattern_ofMagnitude_le {x : Dyadic} (bound : x.magnitude ≤ g) (negative : Bool) :
    (ofMagnitude negative x).pattern ≤ (g + 1023) * 2 ^ 52 := by
  unfold ofMagnitude
  split
  · unfold zero
    rw [pattern_ofPattern negative (by decide)]
    exact Nat.zero_le _
  · let u := max (x.magnitude - 53) (-1074)
    let rest := Dyadic.restAt (x - .scaled (x.truncAt u) u) u
    have whole : (x.truncAt u).natAbs < 2 ^ 53 := by
      refine bitLength_le_iff.mp (Nat.le_trans (x.bitLength_truncAt_le u) ?_)
      omega
    have rounded := Rounding.nearest.natAbs_round_le (x.truncAt u) rest
    have unit : (u + 1074).toNat ≤ g + 1021 := by omega
    show (ofPattern negative (min ((u + 1074).toNat * 2 ^ 52 +
      (Rounding.nearest.round (x.truncAt u) rest).toNat) infinityPattern)).pattern ≤ _
    have infinite : infinityPattern = 2047 * 2 ^ 52 := rfl
    rw [pattern_ofPattern negative (by omega)]
    omega

/-- A value below `2 ^ 1023` rounds to a finite double. -/
theorem isFinite_of_pattern {d : Binary64} (bound : d.pattern ≤ (g + 1023) * 2 ^ 52) :
    d.isFinite := by
  unfold isFinite infinityPattern
  rw [decide_eq_true_eq]
  omega

end Bounds

/-- The magnitude of a double, read off its pattern. -/
theorem magnitude_le_of_pattern {d : Binary64} {g : Nat}
    (bound : d.pattern ≤ (g + 1023) * 2 ^ 52) : d.magnitude.magnitude ≤ g + 1 := by
  by_cases zero : (d.significand : Int) = 0
  · have none : d.magnitude = 0 := by
      unfold magnitude
      rw [zero, Dyadic.scaled_eq_zero_iff.mpr rfl]
    rw [none]
    show (0 : Int) ≤ g + 1
    omega
  · have length : bitLength d.significand ≤ 53 := by
      rw [bitLength_le_iff]
      unfold significand fractionField
      split <;> omega
    have unit : d.unitExponent ≤ g - 52 := by
      unfold unitExponent exponentField
      split <;> omega
    unfold magnitude
    rw [Dyadic.magnitude_scaled zero, Int.natAbs_natCast]
    omega

/-- **The product of two doubles that are not too large is finite.** -/
theorem isFinite_mul {x y : Binary64} {g h : Nat} (first : x.pattern ≤ (g + 1023) * 2 ^ 52)
    (second : y.pattern ≤ (h + 1023) * 2 ^ 52) (room : g + h + 2 ≤ 1023) :
    (x.mul y).isFinite := by
  have finite {d : Binary64} {k : Nat} (bound : d.pattern ≤ (k + 1023) * 2 ^ 52)
      (small : k ≤ 1023) : d.isNaN = false ∧ d.isInfinite = false := by
    unfold isNaN isInfinite infinityPattern
    rw [decide_eq_false_iff_not, decide_eq_false_iff_not]
    omega
  obtain ⟨number, inside⟩ := finite first (by omega)
  obtain ⟨number', inside'⟩ := finite second (by omega)
  unfold mul
  simp only [number, number', inside, inside', Bool.or_self, Bool.false_eq_true, if_false]
  refine isFinite_of_pattern room (pattern_ofMagnitude_le room ?_ _)
  by_cases zero : x.magnitude = 0
  · rw [zero, Dyadic.zero_mul]
    show (0 : Int) ≤ _
    omega
  by_cases zero' : y.magnitude = 0
  · rw [zero', Dyadic.mul_zero]
    show (0 : Int) ≤ _
    omega
  have product := Dyadic.magnitude_mul_le zero zero'
  have left := magnitude_le_of_pattern first
  have right := magnitude_le_of_pattern second
  omega

/-- A natural number of at most `g` bits, as a double. -/
theorem pattern_ofInt_le {n g : Nat} (short : bitLength n ≤ g) (room : g ≤ 1023) :
    (ofInt n).pattern ≤ (g + 1023) * 2 ^ 52 := by
  unfold ofInt ofDyadic
  refine pattern_ofMagnitude_le room ?_ _
  rw [Dyadic.abs_scaled, Int.natAbs_natCast]
  by_cases zero : (n : Int) = 0
  · rw [zero, Dyadic.scaled_eq_zero_iff.mpr rfl]
    show (0 : Int) ≤ g
    omega
  · rw [Dyadic.magnitude_scaled zero, Int.natAbs_natCast]
    omega

end Reckoner.Binary64
