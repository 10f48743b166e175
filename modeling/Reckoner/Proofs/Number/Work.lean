/-
Arithmetic at a working precision, and the sums of alternating series.

* `Dyadic.sum_offBy` — a sum is off by its last bit at most.
* `Work.add_offBy`, `sub_offBy`, `mul_offBy`, `divInt_between` — from six bits on, every operation is
  off by a small fraction.
* `Work.sumFrom_near` — **a series whose powers fall fast enough ends, close to its first term**.
-/

import Reckoner.Number.Work
import Reckoner.Proofs.Number.Quotient
import Reckoner.Proofs.Number.Sum

namespace Dyadic

open Reckoner

theorem toRat_one : (1 : Dyadic).toRat = 1 := by decide +kernel

/-- **A sum is off by its last bit at most.** -/
theorem sum_offBy {p : Nat} (positive : 0 < p) (mode : Rounding) (x y : Dyadic) :
    OffBy (lastBit p) (x.toRat + y.toRat) (x.sum mode p y).toRat := by
  obtain ⟨u, fine, rounded⟩ := sum_roundedAt positive mode x y
  rw [← toRat_add]
  by_cases zero : x + y = 0
  · have none : (x + y).toRat = (0 : Int) * 2 ^ u := by rw [zero, toRat_zero, Int.cast_zero, zero_mul]
    rw [rounded.eq_of_multiple none]
    exact .refl (lastBit_pos p).le _
  · refine rounded.offBy (le_trans ?_ (le_abs_toRat zero))
    exact zpow_le_zpow_right₀ one_le_two (by omega)

end Dyadic

namespace Reckoner

namespace Work

variable {work : Work} {a b : Dyadic}

/-! ### Operations -/

/-- A short integer is not rounded. -/
theorem int_eq {n : Int} (short : bitLength n.natAbs ≤ work.bits) : work.int n = .scaled n 0 :=
  Dyadic.cut_eq_self_iff.mpr (Dyadic.length_scaled_le short 0)

theorem toRat_int {n : Int} (short : bitLength n.natAbs ≤ work.bits) :
    (work.int n).toRat = n := by
  rw [int_eq short, Dyadic.toRat_scaled, zpow_zero, mul_one]

section Fine

variable (fine : 6 ≤ work.bits)

include fine

theorem int_one : work.int 1 = 1 := int_eq (Nat.le_trans (by decide) fine)

theorem lastBit_le : lastBit work.bits ≤ 1 / 16 :=
  le_trans (lastBit_le_of_le fine) (by decide +kernel)

theorem slack_le_sixteenth : slack work.bits ≤ 1 / 16 := by
  have small : lastBit work.bits ≤ 1 / 32 := le_trans (lastBit_le_of_le fine) (by decide +kernel)
  unfold slack
  linarith

theorem int_offBy (n : Int) : OffBy (1 / 16 : Rat) n (work.int n).toRat := by
  have off := (Dyadic.cut_offBy .nearest work.bits (.scaled n 0)).mono (lastBit_le fine)
  rwa [Dyadic.toRat_scaled, zpow_zero, mul_one] at off

theorem add_offBy (a b : Dyadic) : OffBy (1 / 16) (a.toRat + b.toRat) (work.add a b).toRat :=
  (Dyadic.sum_offBy (by omega) .nearest a b).mono (lastBit_le fine)

theorem sub_offBy (a b : Dyadic) : OffBy (1 / 16) (a.toRat - b.toRat) (work.sub a b).toRat := by
  have off := (Dyadic.sum_offBy (by omega) .nearest a (-b)).mono (lastBit_le fine)
  rwa [Dyadic.toRat_neg, ← sub_eq_add_neg] at off

theorem mul_offBy (a b : Dyadic) : OffBy (1 / 16) (a.toRat * b.toRat) (work.mul a b).toRat :=
  (Dyadic.product_offBy (by omega) .nearest a b).mono (slack_le_sixteenth fine)

theorem div_offBy (a : Dyadic) (nonzero : b ≠ 0) :
    OffBy (1 / 16) (a.toRat / b.toRat) (work.div a b).toRat :=
  (Dyadic.quotient_offBy (by omega) .nearest a nonzero).mono (slack_le_sixteenth fine)

/-- A quotient by a natural number, which may be rounded itself. -/
theorem divInt_between (nonnegative : 0 ≤ a.toRat) {n : Nat} (positive : 0 < n) :
    6 / 7 * (a.toRat / n) ≤ (work.divInt a n).toRat ∧
      (work.divInt a n).toRat ≤ 8 / 7 * (a.toRat / n) := by
  have size : (0 : Rat) < n := Nat.cast_pos.mpr positive
  obtain ⟨least, most⟩ := (int_offBy fine n).between (by exact_mod_cast size.le)
  rw [Int.cast_natCast] at least most
  have divisor : 0 < (work.int n).toRat := by linarith
  have nonzero : work.int n ≠ 0 := by
    intro zero
    rw [zero, Dyadic.toRat_zero] at divisor
    exact lt_irrefl _ divisor
  have off : OffBy (1 / 16) (a.toRat / (work.int n).toRat) (work.divInt a n).toRat :=
    div_offBy fine a nonzero
  obtain ⟨lower, upper⟩ := off.between (div_nonneg nonnegative divisor.le)
  have exact : 0 ≤ a.toRat / n := div_nonneg nonnegative size.le
  have whole : a.toRat / n * n = a.toRat := div_mul_cancel₀ _ size.ne'
  have below : 16 / 17 * (a.toRat / n) ≤ a.toRat / (work.int n).toRat := by
    rw [le_div_iff₀ divisor]
    linarith [mul_le_mul_of_nonneg_left most exact]
  have above : a.toRat / (work.int n).toRat ≤ 16 / 15 * (a.toRat / n) := by
    rw [div_le_iff₀ divisor]
    linarith [mul_le_mul_of_nonneg_left least exact]
  constructor
  · linarith
  · linarith

/-- A quotient by a number that is large enough falls to a fraction. -/
theorem divInt_le (nonnegative : 0 ≤ a.toRat) {m n : Nat} (positive : 0 < m) (le : m ≤ n) :
    0 ≤ (work.divInt a n).toRat ∧ (work.divInt a n).toRat ≤ 8 / 7 * (a.toRat / m) := by
  have size : (0 : Rat) < m := Nat.cast_pos.mpr positive
  obtain ⟨least, most⟩ := divInt_between fine nonnegative (by omega : 0 < n)
  have exact : 0 ≤ a.toRat / n := div_nonneg nonnegative (Nat.cast_nonneg n)
  have smaller : a.toRat / n ≤ a.toRat / m :=
    div_le_div_of_nonneg_left nonnegative size (Nat.cast_le.mpr le)
  constructor
  · linarith
  · linarith

end Fine

/-! ### Alternating series -/

theorem negligible_iff : work.negligible a ↔ |a.toRat| < 2 ^ (-work.bits : Int) := by
  unfold negligible
  rw [decide_eq_true_eq, ← Dyadic.toRat_lt_toRat_iff, Dyadic.toRat_abs, Dyadic.toRat_scaled,
    Int.cast_one, one_mul]

/-- Whether the powers of a series fall to a sixteenth from one to the next, and no term is above
its power. -/
structure Falls (series : AlternatingSeries) : Prop where
  power (k : Nat) {a : Dyadic} (nonnegative : 0 ≤ a.toRat) :
    0 ≤ (series.power k a).toRat ∧ 16 * (series.power k a).toRat ≤ a.toRat
  term {k : Nat} (positive : 0 < k) {a : Dyadic} (nonnegative : 0 ≤ a.toRat) :
    0 ≤ (series.term k a).toRat ∧ (series.term k a).toRat ≤ a.toRat

/-- A term that is not negligible moves a sum below one half by less than twice as much. -/
theorem step_near (positive : 0 < work.bits) (sum : Dyadic) {term : Dyadic} (k : Nat)
    (large : 2 ^ (-work.bits : Int) ≤ term.toRat) (room : |sum.toRat| + term.toRat ≤ 1 / 2) :
    |(if k % 2 = 1 then work.sub sum term else work.add sum term).toRat - sum.toRat| ≤
      2 * term.toRat := by
  have half : lastBit work.bits * (1 / 2) = 2 ^ (-work.bits : Int) := by
    have parts : lastBit work.bits = 2 * 2 ^ (-work.bits : Int) := by
      unfold lastBit
      rw [sub_eq_add_neg, zpow_add₀ two_ne_zero, zpow_one]
    rw [parts]
    ring
  -- The sum is rounded by less than the term, since the term has a bit at least.
  have near {other : Dyadic} (size : |other.toRat| = term.toRat) :
      |(sum.sum .nearest work.bits other).toRat - sum.toRat| ≤ 2 * term.toRat := by
    have off : |_| ≤ _ := Dyadic.sum_offBy positive .nearest sum other
    have inside := abs_add_le sum.toRat other.toRat
    have rounding := mul_le_mul_of_nonneg_left (show |sum.toRat + other.toRat| ≤ 1 / 2 by linarith)
      (lastBit_pos work.bits).le
    have triangle := abs_sub_le (sum.sum .nearest work.bits other).toRat
      (sum.toRat + other.toRat) sum.toRat
    rw [add_sub_cancel_left] at triangle
    linarith
  have above : 0 ≤ term.toRat := le_trans (two_zpow_pos _).le large
  split
  · refine near ?_
    rw [Dyadic.toRat_neg, abs_neg, abs_of_nonneg above]
  · exact near (abs_of_nonneg above)

/-- **A series whose powers fall fast enough ends, close to the sum that it starts with.** Every step
takes at least a bit of the power, and none is left when all are taken. -/
theorem sumFrom_near {series : AlternatingSeries} (falls : Falls series) (positive : 0 < work.bits)
    (steps : Nat) {k : Nat} (later : 0 < k) {before : Dyadic} (sum : Dyadic)
    (nonnegative : 0 ≤ before.toRat) (size : before.toRat < 2 ^ (steps - work.bits : Int))
    (room : |sum.toRat| + before.toRat / 7 ≤ 1 / 2) :
    |(work.sumFrom series k before sum).toRat - sum.toRat| ≤ before.toRat / 7 := by
  induction steps generalizing k before sum with
  | zero =>
    obtain ⟨above, falling⟩ := falls.power k nonnegative
    obtain ⟨above', below⟩ := falls.term later above
    have tiny : work.negligible (series.term k (series.power k before)) := by
      rw [negligible_iff, abs_of_nonneg above']
      rw [Nat.cast_zero, zero_sub] at size
      linarith
    rw [sumFrom, if_pos tiny, sub_self, abs_zero]
    linarith
  | succ steps ih =>
    obtain ⟨above, falling⟩ := falls.power k nonnegative
    obtain ⟨above', below⟩ := falls.term later above
    rw [sumFrom]
    split
    · rw [sub_self, abs_zero]
      linarith
    · next large =>
      rw [negligible_iff, abs_of_nonneg above', not_lt] at large
      have moved := step_near positive sum k large (by linarith)
      have double : (2 : Rat) ^ ((steps + 1 : Nat) - work.bits : Int) =
          2 * 2 ^ (steps - work.bits : Int) := by
        rw [show ((steps + 1 : Nat) - work.bits : Int) = 1 + (steps - work.bits) by omega,
          zpow_add₀ two_ne_zero, zpow_one]
      generalize series.power k before = power at *
      generalize (if k % 2 = 1 then work.sub sum (series.term k power)
        else work.add sum (series.term k power)) = next at *
      have inside := abs_sub_abs_le_abs_sub next.toRat sum.toRat
      have rest := ih (Nat.succ_pos k) next above (by linarith) (by linarith)
      have triangle := abs_sub_le (work.sumFrom series (k + 1) power next).toRat next.toRat
        sum.toRat
      linarith

end Work

end Reckoner
