/-
Sums and differences of any size.

A sum is computed in its own way for values of one sign, for values of opposite sign, and for values
so far apart that the smaller one only decides what the larger one leaves out. In each of them the
result is rounded at a unit that is fine enough for the precision.

* `Faithful` — what rounding an exact value to `p` bits promises; `RoundedAt.faithful` — a fine unit
  keeps it.
* `Dyadic.near_of_far` — a value far below another one of opposite sign.
* `Dyadic.sum_roundedAt`, `Dyadic.sum_comm` — the sum of two values.
* `Number.add_faithful` — **addition and subtraction are rounded faithfully in every direction, for
  operands of any size, and addition is commutative**.
-/

import Reckoner.Proofs.Number.Unit

namespace Reckoner

/-- What rounding an exact value to `p` bits promises. A value that has no more bits is not rounded;
the result lies on the side of the direction; and it is less than a unit of the last of `p` bits
away, or half of that to nearest. -/
structure Faithful (mode : Rounding) (p : Nat) (exact result : Dyadic) : Prop where
  kept : exact.length ≤ p → result = exact
  directed : mode.Directs exact.toRat result.toRat
  near : |result.toRat - exact.toRat| < 2 ^ (exact.magnitude - p)
  nearest : mode = .nearest →
    2 * |result.toRat - exact.toRat| ≤ 2 ^ (exact.magnitude - p)

/-- **A value rounded at a unit that `p` bits need is rounded faithfully.** -/
theorem Rounding.RoundedAt.faithful {mode : Rounding} {p : Nat} {u : Int} {exact result : Dyadic}
    (rounded : mode.RoundedAt u exact.toRat result) (fine : u ≤ exact.magnitude - p) :
    Faithful mode p exact result where
  kept short := by
    have below : u ≤ exact.exponent := by
      unfold Dyadic.magnitude at fine
      omega
    have multiple := congrArg Dyadic.toRat (Dyadic.eq_scaled below)
    rw [Dyadic.toRat_scaled] at multiple
    exact Dyadic.toRat_inj.mp (rounded.eq_of_multiple multiple)
  directed := rounded.directs
  near := lt_of_lt_of_le rounded.near.1 (zpow_le_zpow_right₀ one_le_two fine)
  nearest nearest := le_trans (rounded.near.2 nearest) (zpow_le_zpow_right₀ one_le_two fine)

end Reckoner

namespace Dyadic

open Reckoner

variable {x y : Dyadic} {p : Nat} {mode : Rounding}

section Far

variable {large small : Dyadic} (nonzero : large ≠ 0) (nonzero' : small ≠ 0)
  (far : small.magnitude + p < large.magnitude)

include nonzero nonzero' far

/-- A value far below another one shortens their sum by at most one bit. -/
theorem magnitude_add_of_far (positive : 0 < p) :
    large.magnitude ≤ (large + small).magnitude + 1 := by
  have size := le_abs_toRat nonzero
  have rest := lt_of_lt_of_le (abs_toRat_lt nonzero')
    (zpow_le_zpow_right₀ one_le_two (show small.magnitude ≤ large.magnitude - 2 by omega))
  have double : (2 : Rat) ^ (large.magnitude - 1) = 2 * 2 ^ (large.magnitude - 2) := by
    rw [show large.magnitude - 1 = 1 + (large.magnitude - 2) by omega, Rat.zpow_add (by decide)]
    rfl
  have triangle := abs_sub_abs_le_abs_sub large.toRat (-small.toRat)
  rw [abs_neg, sub_neg_eq_add, ← toRat_add] at triangle
  have longer : large.magnitude - 2 < (large + small).magnitude := by
    refine lt_magnitude ?_
    linarith
  omega

omit nonzero in
/-- **A value far below another one of opposite sign leaves the count of units of the larger one off
by less than one**, for what truncation leaves of the larger one has the sign of the larger one. -/
theorem near_of_far (opposite : large.isNegative ≠ small.isNegative) :
    |(large + small).toRat - large.truncAt (large.magnitude - p - 1) *
      2 ^ (large.magnitude - p - 1)| < 2 ^ (large.magnitude - p - 1) := by
  have rest := lt_of_lt_of_le (abs_toRat_lt nonzero')
    (zpow_le_zpow_right₀ one_le_two (show small.magnitude ≤ large.magnitude - p - 1 by omega))
  have truncated := truncated_roundedAt large (large.magnitude - p - 1)
  have near := truncated.near.1
  have toward : |_| ≤ |large.toRat| := truncated.directs
  rw [toRat_scaled] at near toward
  rw [toRat_add]
  generalize (large.truncAt (large.magnitude - p - 1) : Rat) *
    2 ^ (large.magnitude - p - 1) = kept at near toward ⊢
  have signs : large.toRat < 0 ↔ ¬small.toRat < 0 := by
    rw [← isNegative_iff, ← isNegative_iff]
    revert opposite
    cases large.isNegative <;> cases small.isNegative <;> decide
  rw [abs_lt] at near rest ⊢
  by_cases negative : large.toRat < 0
  · have side := signs.mp negative
    rw [abs_of_neg negative] at toward
    have inner := (abs_le.mp toward).1
    constructor
    · linarith
    · linarith
  · have side := not_not.mp (mt signs.mpr negative)
    rw [abs_of_nonneg (not_lt.mp negative)] at toward
    have inner := (abs_le.mp toward).2
    constructor
    · linarith
    · linarith

end Far

/-- **A sum is rounded at a unit that is fine enough for the precision**, in each of its branches. -/
theorem sum_roundedAt (positive : 0 < p) (mode : Rounding) (x y : Dyadic) :
    ∃ u ≤ (x + y).magnitude - p, mode.RoundedAt u (x + y).toRat (x.sum mode p y) := by
  unfold sum
  by_cases zero : x = 0
  · subst zero
    rw [if_pos rfl, Dyadic.zero_add]
    exact ⟨_, le_rfl, cut_roundedAt mode p y⟩
  by_cases zero' : y = 0
  · subst zero'
    rw [if_neg zero, if_pos rfl, Dyadic.add_zero]
    exact ⟨_, le_rfl, cut_roundedAt mode p x⟩
  rw [if_neg zero, if_neg zero']
  by_cases plain : x.exponent = y.exponent ∨ x.isNegative = y.isNegative
  · rw [if_pos plain]
    exact ⟨_, le_rfl, cut_roundedAt mode p (x + y)⟩
  rw [if_neg plain]
  obtain ⟨-, opposite⟩ := not_or.mp plain
  -- One bit more is kept, or the smaller value is only a rest of the larger one.
  have longer : ∃ u ≤ (x + y).magnitude - p,
      mode.RoundedAt u (x + y).toRat ((x + y).cut mode (p + 1)) :=
    ⟨_, by push_cast; omega, cut_roundedAt mode (p + 1) (x + y)⟩
  by_cases order : y.exponent < x.exponent
  · simp only [if_pos order]
    split
    · next far =>
      refine ⟨_, ?_, roundFrom_roundedAt (near_of_far zero' far opposite)⟩
      have length := magnitude_add_of_far zero zero' far positive
      omega
    · exact longer
  · simp only [if_neg order]
    split
    · next far =>
      rw [Dyadic.add_comm x y]
      refine ⟨_, ?_, roundFrom_roundedAt (near_of_far zero far (Ne.symm opposite))⟩
      have length := magnitude_add_of_far zero' zero far positive
      omega
    · exact longer

/-- **A sum does not depend on the order of its operands.** -/
theorem sum_comm (mode : Rounding) (p : Nat) (x y : Dyadic) :
    x.sum mode p y = y.sum mode p x := by
  unfold sum
  by_cases zero : x = 0
  · by_cases zero' : y = 0
    · rw [zero, zero']
    · rw [if_pos zero, if_neg zero', if_pos zero]
  by_cases zero' : y = 0
  · rw [if_neg zero, if_pos zero', if_pos zero']
  rw [if_neg zero, if_neg zero', if_neg zero', if_neg zero, Dyadic.add_comm y x]
  by_cases plain : x.exponent = y.exponent ∨ x.isNegative = y.isNegative
  · rw [if_pos plain, if_pos (plain.imp Eq.symm Eq.symm)]
  · rw [if_neg plain, if_neg (mt (Or.imp Eq.symm Eq.symm) plain)]
    obtain ⟨different, -⟩ := not_or.mp plain
    by_cases order : y.exponent < x.exponent
    · simp only [if_pos order, if_neg (Int.lt_asymm order)]
    · have order' : x.exponent < y.exponent := by omega
      simp only [if_neg order, if_pos order']

end Dyadic

namespace Reckoner.Number

/-- **Addition and subtraction are rounded faithfully in every direction, for operands of any size,
and addition is commutative.** -/
theorem add_faithful (x y : Number) (ctx : Context) :
    Faithful ctx.rounding ctx.bits (x.value + y.value) (x.add y ctx).value ∧
      Faithful ctx.rounding ctx.bits (x.value - y.value) (x.sub y ctx).value ∧
      x.add y ctx = y.add x ctx := by
  have rounded (a b : Dyadic) :
      Faithful ctx.rounding ctx.bits (a + b) (a.sum ctx.rounding ctx.bits b) := by
    obtain ⟨u, fine, rounded⟩ := Dyadic.sum_roundedAt (positive_bits ctx) ctx.rounding a b
    exact rounded.faithful fine
  refine ⟨rounded x.value y.value, ?_, ?_⟩
  · have difference : x.value - y.value = x.value + -y.value := rfl
    rw [difference]
    exact rounded x.value (-y.value)
  · unfold add
    rw [Dyadic.sum_comm]

end Reckoner.Number
