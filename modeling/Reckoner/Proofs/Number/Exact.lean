/-
Results that fit into the precision are not rounded.

* `FitsIn` — a rational is `m * 2 ^ e` with `|m| < 2 ^ p`, and its magnitude is in range.
* `Dyadic.sum_eq`, `Dyadic.product_eq`, `Dyadic.quotient_mul` — **a sum, a product or a quotient
  that is no longer than the precision is exact in every direction**, through each of their
  branches.
* `Dyadic.toRat_remainder` — the remainder is exact in any case.
* `Number.add_exact`, `sub_exact`, `mul_exact`, `div_exact`, `rem_exact` — the operations on
  numbers.
-/

import Reckoner.Number.Arithmetic
import Reckoner.Proofs.Number.Length

namespace Reckoner

/-! ### Rationals that fit -/

/-- A rational that is `m * 2 ^ e` with at most `p` bits in `m`, and whose magnitude, the number of
bits before its binary point, is within the range of results. -/
def FitsIn (p : Nat) (q : Rat) : Prop :=
  ∃ m e : Int, q = m * 2 ^ e ∧ m.natAbs < 2 ^ p ∧
    (m ≠ 0 → (bitLength m.natAbs + e).natAbs ≤ maxMagnitude)

namespace FitsIn

variable {p : Nat} {x : Dyadic}

theorem neg {q : Rat} (fits : FitsIn p q) : FitsIn p (-q) := by
  obtain ⟨m, e, rfl, small, range⟩ := fits
  refine ⟨-m, e, ?_, by rwa [Int.natAbs_neg], fun nonzero => ?_⟩
  · rw [Rat.intCast_neg, Rat.neg_mul]
  · rw [Int.natAbs_neg]
    exact range (mt Int.neg_eq_zero.mpr nonzero)

theorem exists_toRat {q : Rat} (fits : FitsIn p q) : ∃ x : Dyadic, x.toRat = q := by
  obtain ⟨m, e, rfl, -⟩ := fits
  exact ⟨Dyadic.scaled m e, Dyadic.toRat_scaled m e⟩

theorem length_le (fits : FitsIn p x.toRat) : x.length ≤ p := by
  obtain ⟨m, e, value, small, -⟩ := fits
  rw [← Dyadic.toRat_scaled, Dyadic.toRat_inj] at value
  subst value
  exact Dyadic.length_scaled_le (bitLength_le_iff.mpr small) e

theorem magnitude_le (fits : FitsIn p x.toRat) : x.magnitude.natAbs ≤ maxMagnitude := by
  obtain ⟨m, e, value, -, range⟩ := fits
  rw [← Dyadic.toRat_scaled, Dyadic.toRat_inj] at value
  subst value
  by_cases zero : m = 0
  · rw [Dyadic.scaled_eq_zero_iff.mpr zero]
    exact Nat.zero_le _
  · rw [Dyadic.magnitude_scaled zero]
    exact range zero

end FitsIn

end Reckoner

namespace Dyadic

open Reckoner

variable {x y : Dyadic} {p : Nat} {mode : Rounding}

/-! ### Sums -/

/-- A value counted in units at or below its last bit. -/
theorem eq_scaled {u : Int} (below : u ≤ x.exponent) :
    x = scaled (x.significand * 2 ^ (x.exponent - u).toNat) u := by
  rw [scaled_mul_two_pow, Int.toNat_of_nonneg (by omega), ← Int.add_sub_assoc, Int.add_comm u,
    Int.add_sub_cancel, scaled_self]

theorem scaled_add (m n e : Int) : scaled m e + scaled n e = scaled (m + n) e := by
  rw [← toRat_inj, toRat_add, toRat_scaled, toRat_scaled, toRat_scaled, Rat.intCast_add,
    Rat.add_mul]

/-- **Far below a value there is no other one whose sum with it is short**: the sum reaches from
above the larger one's first bit but one to the last bit of the smaller one. -/
theorem magnitude_le_of_add (nonzero : x ≠ 0) (nonzero' : y ≠ 0)
    (apart : y.exponent < x.exponent) (positive : 0 < p) (short : (x + y).length ≤ p) :
    x.magnitude ≤ y.magnitude + p := by
  obtain ⟨k, split⟩ : ∃ k : Nat, x.exponent = y.exponent + (k + 1 : Nat) :=
    ⟨(x.exponent - y.exponent).toNat - 1, by omega⟩
  have numerators : x + y = scaled (x.significand * 2 ^ (k + 1) + y.significand) y.exponent := by
    have first := eq_scaled (Int.le_of_lt apart)
    rw [show (x.exponent - y.exponent).toNat = k + 1 by omega] at first
    rw [← scaled_add, ← first, scaled_self]
  have odd : (x.significand * 2 ^ (k + 1) + y.significand) % 2 = 1 := by
    have last := significand_odd nonzero'
    rw [Int.pow_succ, ← Int.mul_assoc]
    omega
  have bound : (x.significand * 2 ^ (k + 1) + y.significand).natAbs < 2 ^ p := by
    rw [← bitLength_le_iff, ← (scaled_odd odd y.exponent).1, ← numerators]
    exact short
  refine Int.not_lt.mp fun far => ?_
  have counted : x.significand.natAbs ≠ 0 := Int.natAbs_ne_zero.mpr (significand_ne_zero nonzero)
  have counted' := Int.natAbs_pos.mpr (significand_ne_zero nonzero')
  have large : 2 ^ (y.length + p) ≤ (x.significand * 2 ^ (k + 1)).natAbs := by
    have power : (2 ^ (k + 1) : Int).natAbs = 2 ^ (k + 1) := Int.natAbs_pow 2 (k + 1)
    rw [← Nat.not_lt, ← bitLength_le_iff, Int.natAbs_mul, power, bitLength_mul_two_pow counted]
    unfold magnitude at far
    have lengths : x.length = bitLength x.significand.natAbs := rfl
    omega
  have small : y.significand.natAbs < 2 ^ y.length := lt_two_pow_bitLength _
  have two_le {n : Nat} (some : 0 < n) : 2 ≤ 2 ^ n := Nat.pow_le_pow_right Nat.two_pos some
  have product : 2 ^ y.length + 2 ^ p ≤ 2 ^ (y.length + p) := by
    rw [Nat.pow_add]
    exact Nat.add_le_mul (two_le (bitLength_pos counted')) (two_le positive)
  omega

/-- **A short sum of short values is exact**, whichever way it is computed. -/
theorem sum_eq (positive : 0 < p) (first : x.length ≤ p) (second : y.length ≤ p)
    (short : (x + y).length ≤ p) : x.sum mode p y = x + y := by
  unfold sum
  by_cases zero : x = 0
  · rw [if_pos zero, zero, cut_eq_self_iff.mpr second, Dyadic.zero_add]
  by_cases zero' : y = 0
  · rw [if_neg zero, if_pos zero', zero', cut_eq_self_iff.mpr first, Dyadic.add_zero]
  rw [if_neg zero, if_neg zero']
  by_cases plain : x.exponent = y.exponent ∨ x.isNegative = y.isNegative
  · rw [if_pos plain, cut_eq_self_iff.mpr short]
  · rw [if_neg plain]
    have longer : (x + y).cut mode (p + 1) = x + y := cut_eq_self_iff.mpr (by omega)
    obtain ⟨different, -⟩ := not_or.mp plain
    by_cases order : y.exponent < x.exponent
    · have near := magnitude_le_of_add zero zero' order positive short
      simp only [if_pos order]
      rw [if_neg (by omega), longer]
    · have near := magnitude_le_of_add zero' zero (by omega) positive (Dyadic.add_comm x y ▸ short)
      simp only [if_neg order]
      rw [if_neg (by omega), longer]

/-! ### Products and quotients -/

theorem scaled_mul (m n e f : Int) : scaled m e * scaled n f = scaled (m * n) (e + f) := by
  rw [← toRat_inj, toRat_mul, toRat_scaled, toRat_scaled, toRat_scaled, Rat.intCast_mul,
    Rat.zpow_add (by decide), Rat.mul_assoc, Rat.mul_assoc, ← Rat.mul_assoc (2 ^ e),
    Rat.mul_comm (2 ^ e), Rat.mul_assoc]

/-- **A short product of short values is exact.** -/
theorem product_eq (first : x.length ≤ p) (second : y.length ≤ p) (short : (x * y).length ≤ p) :
    x.product mode p y = x * y := by
  have room {z : Dyadic} (short : z.length ≤ p) : z.cut mode (2 * p) = z :=
    cut_eq_self_iff.mpr (by omega)
  unfold product
  rw [room first, room second, cut_eq_self_iff.mpr short]

/-- Significand and exponent of a product. -/
theorem mul_parts (nonzero : x ≠ 0) (nonzero' : y ≠ 0) :
    (x * y).significand = x.significand * y.significand ∧
      (x * y).exponent = x.exponent + y.exponent := by
  have numerators : x * y = scaled (x.significand * y.significand) (x.exponent + y.exponent) := by
    rw [← scaled_mul, scaled_self, scaled_self]
  rw [numerators]
  refine scaled_odd ?_ _
  rw [Int.mul_emod, significand_odd nonzero, significand_odd nonzero']
  rfl

/-- **A quotient is exact if the dividend is not cut**: the divisor's significand divides the
dividend's, for both are odd. -/
theorem quotient_mul (nonzero : y ≠ 0) (short : (x * y).length ≤ y.length + p) :
    (x * y).quotient mode p y = x := by
  have divisor := significand_ne_zero nonzero
  unfold quotient
  simp only [cut_eq_self_iff.mpr short]
  by_cases zero : x = 0
  · subst zero
    rw [Dyadic.zero_mul]
    show (if (0 : Int).tmod _ = 0 then scaled ((0 : Int).tdiv _) _ else _) = 0
    rw [Int.zero_tmod, if_pos rfl, Int.zero_tdiv, scaled_eq_zero_iff.mpr rfl]
  · obtain ⟨significands, exponents⟩ := mul_parts zero nonzero
    rw [significands, exponents, Int.mul_tmod_left, if_pos rfl, Int.mul_tdiv_cancel _ divisor,
      Int.add_sub_cancel, scaled_self]

theorem length_mul_le (x y : Dyadic) : (x * y).length ≤ x.length + y.length := by
  by_cases zero : x = 0
  · subst zero
    rw [Dyadic.zero_mul]
    exact Nat.zero_le _
  by_cases zero' : y = 0
  · subst zero'
    rw [Dyadic.mul_zero]
    exact Nat.zero_le _
  · unfold length
    rw [(mul_parts zero zero').1, Int.natAbs_mul]
    exact bitLength_mul_le _ _

end Dyadic

/-! ### Remainders -/

namespace Reckoner

/-- The remainder of a division whose quotient is rounded toward zero. -/
def truncatedRemainder (a b : Rat) : Rat := a - b * ((a / b).num.tdiv (a / b).den : Int)

theorem tdiv_num_den {a b : Int} (nonzero : b ≠ 0) :
    ((a : Rat) / b).num.tdiv ((a : Rat) / b).den = a.tdiv b := by
  have ratio : ((a : Rat) / b).num * b = a * ((a : Rat) / b).den := by
    rw [← Rat.divInt_eq_divInt_iff (Int.natCast_ne_zero.mpr (Rat.den_nz _)) nonzero,
      Rat.num_divInt_den, Rat.divInt_eq_div]
  have positive : (0 : Int) < ((a : Rat) / b).den := Int.natCast_pos.mpr (Rat.den_pos _)
  generalize ((a : Rat) / b).num = n at ratio ⊢
  generalize (((a : Rat) / b).den : Int) = d at ratio positive ⊢
  rcases Int.lt_or_gt_of_ne nonzero with negative | above
  · have size : 0 < -b := by omega
    calc n.tdiv d = (-b * n).tdiv (-b * d) := (Int.mul_tdiv_mul_of_pos n d size).symm
      _ = (d * -a).tdiv (d * -b) := by
        rw [Int.neg_mul, Int.mul_comm b, ratio, Int.mul_comm (-b), Int.mul_neg d a, Int.mul_comm a]
      _ = (-a).tdiv (-b) := Int.mul_tdiv_mul_of_pos _ _ positive
      _ = a.tdiv b := by rw [Int.neg_tdiv, Int.tdiv_neg, Int.neg_neg]
  · calc n.tdiv d = (b * n).tdiv (b * d) := (Int.mul_tdiv_mul_of_pos n d above).symm
      _ = (d * a).tdiv (d * b) := by rw [Int.mul_comm b, ratio, Int.mul_comm b, Int.mul_comm a]
      _ = a.tdiv b := Int.mul_tdiv_mul_of_pos _ _ positive

end Reckoner

namespace Dyadic

open Reckoner

variable {x y : Dyadic}

/-- Two values counted in the same unit. -/
theorem exists_scaled (x y : Dyadic) : ∃ a b : Int,
    x = scaled a (min x.exponent y.exponent) ∧ y = scaled b (min x.exponent y.exponent) ∧
    x.remainder y = scaled (a.tmod b) (min x.exponent y.exponent) :=
  ⟨_, _, eq_scaled (Int.min_le_left _ _), eq_scaled (Int.min_le_right _ _), rfl⟩

/-- **The remainder is exact.** -/
theorem toRat_remainder (nonzero : y ≠ 0) :
    (x.remainder y).toRat = truncatedRemainder x.toRat y.toRat := by
  obtain ⟨a, b, first, second, remainder⟩ := exists_scaled x y
  generalize min x.exponent y.exponent = e at first second remainder
  have unit : (2 : Rat) ^ e ≠ 0 := Rat.ne_of_gt (Rat.zpow_pos (by decide))
  have divisor : b ≠ 0 := fun zero => nonzero (second.trans (scaled_eq_zero_iff.mpr zero))
  have divisor' : (b : Rat) ≠ 0 := fun zero => divisor (Rat.intCast_eq_zero_iff.mp zero)
  have ratio : (a : Rat) * 2 ^ e / (b * 2 ^ e) = a / b := by grind
  rw [remainder, first, second, toRat_scaled, toRat_scaled, toRat_scaled, truncatedRemainder, ratio,
    tdiv_num_den divisor, Int.tmod_def, Rat.intCast_sub, Rat.intCast_mul]
  grind

theorem neg_scaled (m e : Int) : -scaled m e = scaled (-m) e := by
  rw [← toRat_inj, toRat_neg, toRat_scaled, toRat_scaled, Rat.intCast_neg, Rat.neg_mul]

theorem abs_scaled (m e : Int) : (scaled m e).abs = scaled m.natAbs e := by
  unfold abs
  rw [isNegative_scaled, neg_scaled]
  by_cases negative : m < 0
  · rw [if_pos (decide_eq_true negative)]
    congr
    omega
  · rw [if_neg (by simpa using negative)]
    congr
    omega

theorem scaled_lt_scaled {m n e : Int} : scaled m e < scaled n e ↔ m < n := by
  rw [← toRat_lt_toRat_iff, toRat_scaled, toRat_scaled,
    Rat.mul_lt_mul_right (Rat.zpow_pos (by decide)), Rat.intCast_lt_intCast]

theorem zero_lt_abs (nonzero : x ≠ 0) : (0 : Dyadic).abs < x.abs := by
  have counted := Int.natAbs_pos.mpr (significand_ne_zero nonzero)
  rw [← scaled_self x, ← scaled_eq_zero_iff.mpr rfl, abs_scaled, abs_scaled, scaled_lt_scaled]
  exact Int.ofNat_lt.mpr counted

/-- A value nearer to zero than the divisor is its own remainder. -/
theorem remainder_of_lt (less : x.abs < y.abs) : x.remainder y = x := by
  obtain ⟨a, b, first, second, remainder⟩ := exists_scaled x y
  generalize min x.exponent y.exponent = e at first second remainder
  rw [first, second, abs_scaled, abs_scaled, scaled_lt_scaled] at less
  have quotient : a.tdiv b = 0 := by
    rw [← Int.natAbs_eq_zero, Int.natAbs_tdiv]
    exact Nat.div_eq_of_lt (by omega)
  rw [remainder, first, Int.tmod_def, quotient, Int.mul_zero, Int.sub_zero]

end Dyadic

namespace Reckoner

/-! ### Operations on numbers -/

/-- The result of an operation is a number with this value. -/
def Gives (result : Except DomainError Number) (q : Rat) : Prop :=
  ∃ z, result = .ok z ∧ z.value.toRat = q

/-- The exponents of two values with odd significands are at most `2 ^ 21` apart. -/
def Near (a b : Rat) : Prop :=
  ∀ m n e f : Int, m % 2 = 1 → n % 2 = 1 → a = m * 2 ^ e → b = n * 2 ^ f →
    (e - f).natAbs ≤ 2 ^ 21

theorem near_of_toRat {a b : Rat} {x y : Dyadic} (first : a = x.toRat) (second : b = y.toRat)
    (near : (x.exponent - y.exponent).natAbs ≤ 2 ^ 21) : Near a b := by
  subst first second
  intro m n e f odd odd' first second
  rw [← Dyadic.toRat_scaled, Dyadic.toRat_inj] at first second
  rw [first, second, (Dyadic.scaled_odd odd e).2, (Dyadic.scaled_odd odd' f).2] at near
  exact near

namespace Number

variable {x y : Number} {ctx : Context}

theorem gives_checked {p : Nat} {q : Rat} (value : x.value.toRat = q) (fits : FitsIn p q)
    (function : String) : Gives (x.checked function) q := by
  subst value
  have range := fits.magnitude_le
  have magnitude : x.magnitude = x.value.magnitude := rfl
  unfold checked
  rw [if_neg (by omega), if_neg (by omega)]
  exact ⟨x, rfl, rfl⟩

theorem positive_bits (ctx : Context) : 0 < ctx.bits :=
  Nat.lt_of_lt_of_le (by decide) ctx.minPrecision_le

variable (first : FitsIn ctx.bits x.value.toRat) (second : FitsIn ctx.bits y.value.toRat)

include first second

theorem add_exact (fits : FitsIn ctx.bits (x.value.toRat + y.value.toRat)) :
    Gives ((x.add y ctx).checked "addition") (x.value.toRat + y.value.toRat) := by
  refine gives_checked ?_ fits "addition"
  rw [← Dyadic.toRat_add] at fits ⊢
  exact congrArg Dyadic.toRat
    (Dyadic.sum_eq (positive_bits ctx) first.length_le second.length_le fits.length_le)

theorem sub_exact (fits : FitsIn ctx.bits (x.value.toRat - y.value.toRat)) :
    Gives ((x.sub y ctx).checked "subtraction") (x.value.toRat - y.value.toRat) := by
  have second' : FitsIn ctx.bits (-y.value).toRat := by
    rw [Dyadic.toRat_neg]
    exact second.neg
  refine gives_checked ?_ fits "subtraction"
  rw [Rat.sub_eq_add_neg, ← Dyadic.toRat_neg, ← Dyadic.toRat_add] at fits ⊢
  exact congrArg Dyadic.toRat
    (Dyadic.sum_eq (positive_bits ctx) first.length_le second'.length_le fits.length_le)

theorem mul_exact (fits : FitsIn ctx.bits (x.value.toRat * y.value.toRat)) :
    Gives (x.mul y ctx) (x.value.toRat * y.value.toRat) := by
  refine gives_checked ?_ fits "multiplication"
  rw [← Dyadic.toRat_mul] at fits ⊢
  exact congrArg Dyadic.toRat
    (Dyadic.product_eq first.length_le second.length_le fits.length_le)

omit first second in
theorem isZero_eq_false (nonzero : y.value.toRat ≠ 0) : y.isZero = false :=
  decide_eq_false fun zero => nonzero (Dyadic.toRat_eq_zero_iff.mpr zero)

omit first second in
theorem div_exact (nonzero : y.value.toRat ≠ 0)
    (fits : FitsIn ctx.bits (x.value.toRat / y.value.toRat)) :
    Gives (x.div y ctx) (x.value.toRat / y.value.toRat) := by
  obtain ⟨q, quotient⟩ := fits.exists_toRat
  have product : x.value = q * y.value := by
    rw [← Dyadic.toRat_inj, Dyadic.toRat_mul, quotient, Rat.div_mul_cancel nonzero]
  have short : q.length ≤ ctx.bits := by
    rw [← quotient] at fits
    exact fits.length_le
  have room := Dyadic.length_mul_le q y.value
  unfold div
  rw [isZero_eq_false nonzero, if_neg Bool.false_ne_true]
  refine gives_checked ?_ fits "division"
  have divisor : y.value ≠ 0 := mt Dyadic.toRat_eq_zero_iff.mpr nonzero
  rw [← quotient, product]
  exact congrArg Dyadic.toRat (Dyadic.quotient_mul divisor (by omega))

omit second in
theorem rem_exact (nonzero : y.value.toRat ≠ 0) (near : Near x.value.toRat y.value.toRat)
    (fits : FitsIn ctx.bits (truncatedRemainder x.value.toRat y.value.toRat)) :
    Gives (x.rem y ctx) (truncatedRemainder x.value.toRat y.value.toRat) := by
  have divisor : y.value ≠ 0 := mt Dyadic.toRat_eq_zero_iff.mpr nonzero
  rw [← Dyadic.toRat_remainder divisor] at fits ⊢
  unfold rem
  rw [isZero_eq_false nonzero, if_neg Bool.false_ne_true]
  by_cases less : x.value.abs < y.value.abs
  · have unrounded : x.value.cut ctx.rounding ctx.bits = x.value :=
      Dyadic.cut_eq_self_iff.mpr first.length_le
    rw [if_pos less, Dyadic.remainder_of_lt less]
    refine ⟨_, rfl, ?_⟩
    unfold roundTo
    rw [unrounded, ite_self]
  · have dividend : x.value ≠ 0 := by
      intro zero
      rw [zero] at less
      exact less (Dyadic.zero_lt_abs divisor)
    have apart : (x.value.exponent - y.value.exponent).natAbs ≤ maxRemainderShift :=
      near _ _ _ _ (Dyadic.significand_odd dividend) (Dyadic.significand_odd divisor)
        x.value.toRat_eq y.value.toRat_eq
    rw [if_neg less, if_neg (Nat.not_lt.mpr apart)]
    exact ⟨_, rfl, congrArg Dyadic.toRat (Dyadic.cut_eq_self_iff.mpr fits.length_le)⟩

end Number

end Reckoner
