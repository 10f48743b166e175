/-
Lengths in bits, and the normal form of dyadic values.

* `bitLength_le_iff` — the length of a number is at most `p` exactly if the number is below `2 ^ p`.
* `Dyadic.scaled_inj`, `Dyadic.scaled_mul_two_pow` — numerators of one unit, and of a finer one.
* `Dyadic.scaled_ne` — **a count of units above the last bit of a value is never the value**.
* `Dyadic.cut_eq_self_iff` — a value survives rounding to `p` bits exactly if it has no more.
* `Dyadic.cut_of_lt` — rounding to fewer bits leaves a count of larger units, and does not lower the
  magnitude.
* `Dyadic.length_cut_le`, `Dyadic.cut_scaled` — what is left has no more bits, and counts the same
  units.
-/

import Reckoner.Number.Dyadic

namespace Reckoner

/-! ### Lengths in bits -/

theorem bitLength_le_iff {n p : Nat} : bitLength n ≤ p ↔ n < 2 ^ p := by
  unfold bitLength
  split
  · next zero =>
    rw [zero]
    exact iff_of_true (Nat.zero_le p) (Nat.pow_pos (by decide))
  · next nonzero => exact Nat.log2_lt nonzero

theorem lt_two_pow_bitLength (n : Nat) : n < 2 ^ bitLength n :=
  bitLength_le_iff.mp (Nat.le_refl _)

theorem bitLength_pos {n : Nat} (positive : 0 < n) : 0 < bitLength n := by
  refine Nat.pos_of_ne_zero fun zero => ?_
  have small := bitLength_le_iff.mp (Nat.le_of_eq zero)
  omega

theorem bitLength_mono {m n : Nat} (le : m ≤ n) : bitLength m ≤ bitLength n :=
  bitLength_le_iff.mpr (Nat.lt_of_le_of_lt le (lt_two_pow_bitLength n))

/-- The factors of a product have together at least its length. -/
theorem bitLength_mul_le (m n : Nat) : bitLength (m * n) ≤ bitLength m + bitLength n := by
  rw [bitLength_le_iff, Nat.pow_add]
  exact Nat.mul_lt_mul'' (lt_two_pow_bitLength m) (lt_two_pow_bitLength n)

theorem bitLength_div_two_pow (n j : Nat) : bitLength (n / 2 ^ j) = bitLength n - j := by
  have bound (q : Nat) : bitLength (n / 2 ^ j) ≤ q ↔ bitLength n - j ≤ q := by
    rw [bitLength_le_iff, Nat.div_lt_iff_lt_mul (Nat.pow_pos (by decide)), ← Nat.pow_add,
      ← bitLength_le_iff]
    omega
  exact Nat.le_antisymm ((bound _).mpr (Nat.le_refl _)) ((bound _).mp (Nat.le_refl _))

theorem bitLength_mul_two_pow {n : Nat} (nonzero : n ≠ 0) (j : Nat) :
    bitLength (n * 2 ^ j) = bitLength n + j := by
  have shorter : bitLength n = bitLength (n * 2 ^ j) - j := by
    rw [← bitLength_div_two_pow, Nat.mul_div_cancel _ (Nat.pow_pos (by decide))]
  have large : 2 ^ j ≤ n * 2 ^ j := Nat.le_mul_of_pos_left _ (Nat.pos_of_ne_zero nonzero)
  have longer : ¬bitLength (n * 2 ^ j) ≤ j := by
    rw [bitLength_le_iff]
    omega
  omega

/-! ### Directions of rounding -/

/-- Whether a rest lies on the far side of an integer, seen from zero. -/
def Rest.Outward (h : Int) : Rest → Prop
  | .zero => True
  | .fraction negative _ => if negative then h ≤ 0 else 0 ≤ h

/-- A rest moves an integer by at most one, to the side of the rest. -/
theorem Rounding.round_fraction (mode : Rounding) (h : Int) (negative : Bool)
    (againstHalf : Ordering) :
    mode.round h (.fraction negative againstHalf) = h ∨
      mode.round h (.fraction negative againstHalf) = if negative then h - 1 else h + 1 := by
  have choice (moves : Bool) (there here : Int) :
      (if moves then there else here) = here ∨ (if moves then there else here) = there := by
    cases moves with
    | false => exact .inl rfl
    | true => exact .inr rfl
  exact choice _ _ _

/-- Rounding moves an integer by at most one. -/
theorem Rounding.natAbs_round_le (mode : Rounding) (h : Int) (rest : Rest) :
    (mode.round h rest).natAbs ≤ h.natAbs + 1 := by
  cases rest with
  | zero => exact Nat.le_succ h.natAbs
  | fraction negative againstHalf =>
    rcases mode.round_fraction h negative againstHalf with stays | moves
    · rw [stays]
      exact Nat.le_succ h.natAbs
    · rw [moves]
      cases negative with
      | false =>
        simp only [Bool.false_eq_true, if_false]
        omega
      | true =>
        simp only [if_true]
        omega

/-- A rest on the far side never rounds toward zero. -/
theorem Rounding.natAbs_le_round {h : Int} {rest : Rest} (outward : rest.Outward h)
    (mode : Rounding) : h.natAbs ≤ (mode.round h rest).natAbs := by
  cases rest with
  | zero => exact Nat.le_refl _
  | fraction negative againstHalf =>
    rcases mode.round_fraction h negative againstHalf with stays | moves
    · exact Nat.le_of_eq (congrArg Int.natAbs stays.symm)
    · unfold Rest.Outward at outward
      rw [moves]
      cases negative with
      | false =>
        simp only [Bool.false_eq_true, if_false] at outward ⊢
        omega
      | true =>
        simp only [if_true] at outward ⊢
        omega

end Reckoner

namespace Dyadic

open Reckoner

/-! ### Normal form -/

theorem toRat_eq (x : Dyadic) : x.toRat = x.significand * 2 ^ x.exponent := by
  cases x with
  | zero => exact (Rat.zero_mul _).symm
  | ofOdd n k odd =>
    rw [toRat_ofOdd_eq_mul_two_pow]
    rfl

theorem significand_odd {x : Dyadic} (nonzero : x ≠ 0) : x.significand % 2 = 1 := by
  cases x with
  | zero => exact absurd rfl nonzero
  | ofOdd n k odd => exact odd

theorem significand_ne_zero {x : Dyadic} (nonzero : x ≠ 0) : x.significand ≠ 0 := by
  intro zero
  have odd := significand_odd nonzero
  rw [zero] at odd
  exact absurd odd (by decide)

theorem scaled_self (x : Dyadic) : scaled x.significand x.exponent = x := by
  rw [← toRat_inj, toRat_scaled, toRat_eq]

/-- A numerator counts half a unit twice as often. -/
theorem scaled_mul_two_pow (m e : Int) (j : Nat) : scaled (m * 2 ^ j) e = scaled m (e + j) := by
  have cast : ((m * 2 ^ j : Int) : Rat) = m * 2 ^ (j : Int) := by
    rw [Rat.intCast_mul, Rat.intCast_pow, Rat.zpow_natCast]
    rfl
  rw [← toRat_inj, toRat_scaled, toRat_scaled, cast, Rat.mul_assoc, Int.add_comm,
    Rat.zpow_add (by decide)]

theorem scaled_inj {m n e : Int} : scaled m e = scaled n e ↔ m = n := by
  have unit : (2 : Rat) ^ e ≠ 0 := Rat.ne_of_gt (Rat.zpow_pos (by decide))
  constructor
  · intro equal
    rw [← toRat_inj, toRat_scaled, toRat_scaled] at equal
    have cancelled : (m : Rat) = n := by
      calc (m : Rat) = m * 2 ^ e * (2 ^ e)⁻¹ := by
            rw [Rat.mul_assoc, Rat.mul_inv_cancel _ unit, Rat.mul_one]
        _ = n * 2 ^ e * (2 ^ e)⁻¹ := by rw [equal]
        _ = n := by rw [Rat.mul_assoc, Rat.mul_inv_cancel _ unit, Rat.mul_one]
    exact Rat.intCast_inj.mp cancelled
  · intro equal
    rw [equal]

theorem scaled_eq_zero_iff {m e : Int} : scaled m e = 0 ↔ m = 0 := by
  have zero : scaled 0 e = 0 := by
    rw [← toRat_inj, toRat_scaled, toRat_zero]
    exact Rat.zero_mul _
  rw [← zero, scaled_inj]

/-- **A count of units above the last bit of a value is never the value.** -/
theorem scaled_ne {x : Dyadic} (nonzero : x ≠ 0) {u : Int} (above : x.exponent < u) (n : Int) :
    scaled n u ≠ x := by
  intro equal
  obtain ⟨j, split⟩ : ∃ j : Nat, u = x.exponent + (j + 1 : Nat) :=
    ⟨(u - x.exponent).toNat - 1, by omega⟩
  have numerators : n * 2 ^ (j + 1) = x.significand := by
    rw [← scaled_inj (e := x.exponent), scaled_mul_two_pow, ← split, equal, scaled_self]
  have odd := significand_odd nonzero
  rw [← numerators, Int.pow_succ, ← Int.mul_assoc] at odd
  omega

/-- The numerator of a value in a unit at or below its last bit. -/
theorem scaled_normal {n u : Int} (nonzero : n ≠ 0) :
    u ≤ (scaled n u).exponent ∧
      n = (scaled n u).significand * 2 ^ ((scaled n u).exponent - u).toNat := by
  have value : scaled n u ≠ 0 := fun zero => nonzero (scaled_eq_zero_iff.mp zero)
  have unit : u ≤ (scaled n u).exponent := by
    refine Int.not_lt.mp fun above => ?_
    exact scaled_ne value above n rfl
  refine ⟨unit, ?_⟩
  have split : (scaled n u).exponent = u + ((scaled n u).exponent - u).toNat := by omega
  rw [← scaled_inj (e := u), scaled_mul_two_pow, ← split, scaled_self]

theorem length_scaled_le {m : Int} {p : Nat} (short : bitLength m.natAbs ≤ p) (e : Int) :
    (scaled m e).length ≤ p := by
  by_cases zero : m = 0
  · rw [scaled_eq_zero_iff.mpr zero]
    exact Nat.zero_le p
  · have factors := congrArg Int.natAbs (scaled_normal (u := e) zero).2
    rw [Int.natAbs_mul] at factors
    refine Nat.le_trans (bitLength_mono ?_) short
    rw [factors]
    exact Nat.le_mul_of_pos_right _ (Int.natAbs_pos.mpr (Int.ne_of_gt (Int.pow_pos (by decide))))

/-- A power of two has one bit, however large it is. -/
theorem length_scaled_two_pow {m : Int} {j : Nat} (power : m.natAbs = 2 ^ j) (e : Int) :
    (scaled m e).length ≤ 1 := by
  have factors : m = m.sign * 2 ^ j := by
    calc m = m.sign * m.natAbs := (Int.sign_mul_natAbs m).symm
      _ = m.sign * 2 ^ j := by rw [power, Int.natCast_pow]; rfl
  have bit : bitLength m.sign.natAbs ≤ 1 := by
    rcases Int.sign_trichotomy m with one | zero | minus
    · rw [one]
      decide
    · rw [zero]
      decide
    · rw [minus]
      decide
  rw [factors, scaled_mul_two_pow]
  exact length_scaled_le bit _

theorem length_scaled_le_of_le {m : Int} {p : Nat} (positive : 0 < p)
    (small : m.natAbs ≤ 2 ^ p) (e : Int) : (scaled m e).length ≤ p := by
  rcases Nat.lt_or_eq_of_le small with less | power
  · exact length_scaled_le (bitLength_le_iff.mpr less) e
  · exact Nat.le_trans (length_scaled_two_pow power e) positive

theorem scaled_odd {m : Int} (odd : m % 2 = 1) (e : Int) :
    (scaled m e).significand = m ∧ (scaled m e).exponent = e := by
  have value : scaled m e = .ofOdd m (-e) odd := by
    rw [← toRat_inj, toRat_scaled, toRat_ofOdd_eq_mul_two_pow, Int.neg_neg]
  rw [value]
  exact ⟨rfl, Int.neg_neg e⟩

theorem magnitude_scaled {n : Int} (nonzero : n ≠ 0) (u : Int) :
    (scaled n u).magnitude = bitLength n.natAbs + u := by
  obtain ⟨unit, numerator⟩ := scaled_normal (u := u) nonzero
  have counted : (scaled n u).significand.natAbs ≠ 0 :=
    Int.natAbs_ne_zero.mpr (significand_ne_zero (mt scaled_eq_zero_iff.mp nonzero))
  have length : bitLength n.natAbs = (scaled n u).length + ((scaled n u).exponent - u).toNat := by
    have factors : n.natAbs =
        (scaled n u).significand.natAbs * 2 ^ ((scaled n u).exponent - u).toNat := by
      have power (j : Nat) : (2 ^ j : Int).natAbs = 2 ^ j := Int.natAbs_pow 2 j
      rw [← power, ← Int.natAbs_mul, ← numerator]
    rw [length, ← bitLength_mul_two_pow counted, ← factors]
  unfold magnitude
  omega

theorem isNegative_scaled (n u : Int) : (scaled n u).isNegative = decide (n < 0) := by
  by_cases zero : n = 0
  · rw [zero, scaled_eq_zero_iff.mpr rfl]
    rfl
  · obtain ⟨_, numerator⟩ := scaled_normal (u := u) zero
    have power : (0 : Int) < 2 ^ ((scaled n u).exponent - u).toNat := Int.pow_pos (by decide)
    have sign : n < 0 ↔ (scaled n u).significand < 0 := by
      constructor
      · intro negative
        refine Int.not_le.mp fun nonnegative => ?_
        have product := Int.mul_nonneg nonnegative (Int.le_of_lt power)
        rw [← numerator] at product
        omega
      · intro negative
        rw [numerator]
        exact Int.mul_neg_of_neg_of_pos negative power
    unfold isNegative
    rw [decide_eq_decide]
    exact sign.symm

/-! ### Rounding to fewer bits -/

theorem ne_zero_of_exponent {x : Dyadic} (fraction : x.exponent < 0) : x ≠ 0 := by
  intro zero
  rw [zero] at fraction
  exact absurd fraction (by decide)

theorem ne_zero_of_length {x : Dyadic} (positive : 0 < x.length) : x ≠ 0 := by
  intro zero
  rw [zero] at positive
  exact Nat.lt_irrefl 0 positive

/-- What truncation leaves out, in units of the last bit. -/
theorem sub_scaled_tdiv (x : Dyadic) (j : Nat) :
    x - scaled (x.significand.tdiv (2 ^ j)) (x.exponent + j) =
      scaled (x.significand.tmod (2 ^ j)) x.exponent := by
  have parts : (x.significand : Rat) =
      ((x.significand.tdiv (2 ^ j) * 2 ^ j : Int) : Rat) +
        (x.significand.tmod (2 ^ j) : Int) := by
    rw [← Rat.intCast_add, Int.mul_comm, Int.mul_tdiv_add_tmod]
  rw [← scaled_mul_two_pow, ← toRat_inj, toRat_sub, toRat_scaled, toRat_scaled, toRat_eq, parts,
    Rat.add_mul, Rat.sub_eq_add_neg, Rat.add_comm, ← Rat.add_assoc, Rat.neg_add_cancel,
    Rat.zero_add]

/-- Truncation leaves a rest on the far side. -/
theorem outward_restAt (x : Dyadic) (j : Nat) (u : Int) :
    (restAt (scaled (x.significand.tmod (2 ^ j)) x.exponent) u).Outward
      (x.significand.tdiv (2 ^ j)) := by
  have power : (0 : Int) ≤ 2 ^ j := Int.le_of_lt (Int.pow_pos (by decide))
  unfold restAt
  split
  · trivial
  · next difference =>
    have rest : x.significand.tmod (2 ^ j) ≠ 0 := fun zero =>
      difference (scaled_eq_zero_iff.mpr zero)
    simp only [Rest.Outward, isNegative_scaled, decide_eq_true_eq]
    by_cases side : x.significand < 0
    · obtain ⟨size, split⟩ : ∃ size, x.significand = -size := ⟨-x.significand, by omega⟩
      have positive : 0 ≤ size := by omega
      have quotient := Int.tdiv_nonneg positive power
      have remainder := Int.tmod_nonneg (2 ^ j) positive
      rw [split, Int.neg_tmod] at rest ⊢
      rw [Int.neg_tdiv, if_pos (by omega)]
      omega
    · have positive : 0 ≤ x.significand := Int.not_lt.mp side
      have remainder := Int.tmod_nonneg (2 ^ j) positive
      rw [if_neg (Int.not_lt.mpr remainder)]
      exact Int.tdiv_nonneg positive power

/-- A value that is too long is truncated to `p` bits, and the count of larger units rounded. -/
theorem cut_of_long {x : Dyadic} {p : Nat} (long : p < x.length) (mode : Rounding) :
    ∃ rest : Rest, rest.Outward (x.significand.tdiv (2 ^ (x.length - p))) ∧
      x.cut mode p = scaled (mode.round (x.significand.tdiv (2 ^ (x.length - p))) rest)
        (x.exponent + (x.length - p : Nat)) := by
  let j := x.length - p
  have truncated : x.truncAt (x.exponent + j) = x.significand.tdiv (2 ^ j) := by
    have below : (x.exponent - (x.exponent + j)).toNat = 0 := by omega
    have above : (x.exponent + j - x.exponent).toNat = j := by omega
    unfold truncAt
    rw [below, above, Int.pow_zero, Int.mul_one]
  refine ⟨restAt (scaled (x.significand.tmod (2 ^ j)) x.exponent) (x.exponent + j),
    outward_restAt x j _, ?_⟩
  unfold cut
  rw [if_neg (Nat.not_le.mpr long)]
  show roundFrom mode x (x.truncAt (x.exponent + j)) (x.exponent + j) = _
  unfold roundFrom
  rw [truncated, sub_scaled_tdiv]

/-- Truncation to `p` bits leaves `p` bits. -/
theorem bitLength_tdiv_of_long {x : Dyadic} {p : Nat} (long : p < x.length) :
    bitLength (x.significand.tdiv (2 ^ (x.length - p))).natAbs = p := by
  have power : (2 ^ (x.length - p) : Int).natAbs = 2 ^ (x.length - p) := Int.natAbs_pow 2 _
  rw [Int.natAbs_tdiv, power]
  show bitLength (x.significand.natAbs / _) = p
  rw [bitLength_div_two_pow]
  show x.length - (x.length - p) = p
  omega

/-- A value that is too long becomes a count of larger units that is no shorter than `p` bits. -/
theorem cut_eq_scaled {x : Dyadic} {p : Nat} (long : p < x.length) (mode : Rounding) :
    ∃ n : Int, x.cut mode p = scaled n (x.exponent + (x.length - p : Nat)) ∧
      p ≤ bitLength n.natAbs := by
  -- The rest has the sign of the value, so rounding never moves toward zero.
  obtain ⟨rest, outward, equal⟩ := cut_of_long long mode
  refine ⟨_, equal, ?_⟩
  have away := bitLength_mono (Rounding.natAbs_le_round outward mode)
  rwa [bitLength_tdiv_of_long long] at away

/-- Rounding to fewer bits moves the last bit up and the first one not down. -/
theorem cut_of_lt {x : Dyadic} {p : Nat} (long : p < x.length) (positive : 0 < p)
    (mode : Rounding) :
    x.exponent + (x.length - p : Nat) ≤ (x.cut mode p).exponent ∧
      x.magnitude ≤ (x.cut mode p).magnitude := by
  obtain ⟨n, equal, length⟩ := cut_eq_scaled long mode
  have counted : n ≠ 0 := by
    intro zero
    rw [zero] at length
    exact absurd length (Nat.not_le.mpr positive)
  rw [equal, magnitude_scaled counted]
  refine ⟨(scaled_normal counted).1, ?_⟩
  unfold magnitude
  omega

/-- A value survives rounding to `p` bits exactly if it has no more. -/
theorem cut_eq_self_iff {x : Dyadic} {mode : Rounding} {p : Nat} :
    x.cut mode p = x ↔ x.length ≤ p := by
  constructor
  · intro same
    refine Nat.not_lt.mp fun long => ?_
    obtain ⟨n, equal, _⟩ := cut_eq_scaled long mode
    have above : x.exponent < x.exponent + (x.length - p : Nat) := by omega
    exact scaled_ne (ne_zero_of_length (by omega)) above n (equal.symm.trans same)
  · intro short
    exact if_pos short

theorem zero_cut (mode : Rounding) (p : Nat) : (0 : Dyadic).cut mode p = 0 :=
  cut_eq_self_iff.mpr (Nat.zero_le p)

/-- A value that was cut to `p` bits has no more. -/
theorem length_cut_le {p : Nat} (positive : 0 < p) (mode : Rounding) (x : Dyadic) :
    (x.cut mode p).length ≤ p := by
  by_cases long : p < x.length
  · obtain ⟨rest, -, equal⟩ := cut_of_long long mode
    have bound := lt_two_pow_bitLength (x.significand.tdiv (2 ^ (x.length - p))).natAbs
    rw [bitLength_tdiv_of_long long] at bound
    rw [equal]
    refine length_scaled_le_of_le positive (Nat.le_trans (mode.natAbs_round_le _ rest) ?_) _
    omega
  · rw [cut_eq_self_iff.mpr (Nat.not_lt.mp long)]
    exact Nat.not_lt.mp long

/-- A rounded count is a count of the same units. -/
theorem cut_scaled (mode : Rounding) (p : Nat) (m e : Int) :
    ∃ n : Int, (scaled m e).cut mode p = scaled n e := by
  by_cases zero : m = 0
  · rw [scaled_eq_zero_iff.mpr zero, zero_cut]
    exact ⟨0, (scaled_eq_zero_iff.mpr rfl).symm⟩
  · have last := (scaled_normal (u := e) zero).1
    by_cases long : p < (scaled m e).length
    · obtain ⟨n, equal, -⟩ := cut_eq_scaled long mode
      generalize above : (scaled m e).exponent + ((scaled m e).length - p : Nat) = u at equal
      obtain ⟨j, rfl⟩ : ∃ j : Nat, u = e + j := ⟨(u - e).toNat, by omega⟩
      exact ⟨n * 2 ^ j, by rw [scaled_mul_two_pow, equal]⟩
    · exact ⟨m, cut_eq_self_iff.mpr (Nat.not_lt.mp long)⟩

end Dyadic
