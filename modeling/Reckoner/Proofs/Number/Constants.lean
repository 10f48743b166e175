/-
The built-in constants, within a few bits.

* `settle_eq` — what is settled on is the rounded value of anything that one of the approximations
  encloses.
* `Work.arcTangentInverse_between`, `Work.pi_between` — the arc tangents that the ratio of
  circumference and diameter is made of, by the first terms of their series.
* `powerSeries_bounds`, `squareTimes_bounds` — the exponential of a fraction stays below that of a
  geometric series, and so do its squares.
* `Number.pi_between`, `Number.e_between` — **the ratio of circumference and diameter and the base
  of the natural logarithm are a few units in every context**.
-/

import Reckoner.Number.Elementary
import Reckoner.Proofs.Number.Neighbours
import Reckoner.Proofs.Number.Work

namespace Reckoner

/-! ### Approximations at growing scale -/

section Settled

variable {mode : Rounding} {p : Nat}

/-- A value that an enclosure rounds to is the rounded value of anything between its ends. -/
theorem Enclosure.eq_cut_of_round? (two_le : 2 ≤ p) {enclosure : Enclosure}
    {r : Dyadic} (rounded : enclosure.round? mode p = some r) {x : Dyadic}
    (least : enclosure.lower.toRat ≤ x.toRat) (most : x.toRat ≤ enclosure.upper.toRat) :
    r = x.cut mode p := by
  unfold Enclosure.round? at rounded
  simp only [Option.ite_none_right_eq_some, Option.some.injEq] at rounded
  obtain ⟨agree, lower⟩ := rounded
  have above := Dyadic.cut_mono two_le mode least
  have below := Dyadic.cut_mono two_le mode most
  rw [← agree] at below
  rw [← lower, ← Dyadic.toRat_inj]
  exact le_antisymm above below

/-- A refinement gives zero, or what an approximation at least as fine as the first rounds to. -/
theorem refine_eq (approximate : Nat → Enclosure) (fuel w : Nat) :
    refine mode p approximate fuel w = 0 ∨ ∃ v, w ≤ v ∧
      (approximate v).round? mode p = some (refine mode p approximate fuel w) := by
  induction fuel generalizing w with
  | zero => exact .inl rfl
  | succ fuel ih =>
    rw [refine]
    cases answer : (approximate w).round? mode p with
    | some found => exact .inr ⟨w, Nat.le_refl w, answer⟩
    | none =>
      rcases ih (2 * w) with never | ⟨v, finer, found⟩
      · exact .inl never
      · exact .inr ⟨v, by omega, found⟩

/-- **What is settled on is the rounded value of anything that one of the approximations
encloses.** -/
theorem settle_eq (two_le : 2 ≤ p) (mode : Rounding) (w : Nat) (approximate : Nat → Enclosure) :
    settle mode p w approximate = 0 ∨ ∃ v, w ≤ v ∧ ∀ x : Dyadic,
      (approximate v).lower.toRat ≤ x.toRat → x.toRat ≤ (approximate v).upper.toRat →
        settle mode p w approximate = x.cut mode p := by
  refine (refine_eq approximate maxRefinements w).imp_right ?_
  rintro ⟨v, finer, found⟩
  exact ⟨v, finer, fun x => Enclosure.eq_cut_of_round? two_le found⟩

end Settled

theorem Work.six_le_forContext (ctx : Context) : 6 ≤ (Work.forContext ctx).bits :=
  Nat.le_trans (by decide : 6 ≤ guardBits) (Nat.le_add_left guardBits ctx.bits)

/-- A result is within a half of what it is rounded from. -/
theorem Work.finish_between (value : Dyadic) (nonnegative : 0 ≤ value.toRat) (ctx : Context) :
    value.toRat / 2 ≤ (Work.finish value ctx).value.toRat ∧
      (Work.finish value ctx).value.toRat ≤ 3 / 2 * value.toRat := by
  have half : lastBit ctx.bits ≤ 1 / 2 :=
    lastBit_le_half (le_trans (by decide) ctx.minPrecision_le)
  obtain ⟨least, most⟩ :=
    ((Dyadic.cut_offBy ctx.rounding ctx.bits value).mono half).between nonnegative
  unfold Work.finish
  constructor
  · linarith
  · linarith

/-! ### The ratio of circumference and diameter -/

namespace Work

section Fine

variable {work : Work} (fine : 6 ≤ work.bits)

include fine

theorem reciprocals_falls {n : Nat} (several : 5 ≤ n) : Falls (work.reciprocals n) where
  power k a nonnegative := by
    obtain ⟨above, below⟩ := divInt_le fine nonnegative (by decide : 0 < 25)
      (Nat.mul_le_mul several several)
    refine ⟨above, ?_⟩
    show 16 * (work.divInt a (n * n : Nat)).toRat ≤ a.toRat
    rw [Nat.cast_ofNat] at below
    linarith
  term {k} positive a nonnegative := by
    obtain ⟨above, below⟩ := divInt_le fine nonnegative (by decide : 0 < 3)
      (by omega : 3 ≤ 2 * k + 1)
    refine ⟨above, ?_⟩
    show (work.divInt a (2 * k + 1 : Nat)).toRat ≤ a.toRat
    rw [Nat.cast_ofNat] at below
    linarith

/-- **The arc tangent of `1 / n` is within a third of `1 / n`**, as the first term of its series
is, which the others change by a seventh. -/
theorem arcTangentInverse_between {n : Nat} (several : 5 ≤ n) :
    2 / 3 * (1 / n : Rat) ≤ (work.arcTangentInverse n).toRat ∧
      (work.arcTangentInverse n).toRat ≤ 4 / 3 * (1 / n : Rat) := by
  have one : (work.int 1).toRat = 1 := by rw [int_one fine, Dyadic.toRat_one]
  have quotient : (1 / n : Rat) ≤ 1 / 5 :=
    one_div_le_one_div_of_le (by norm_num) (by exact_mod_cast several)
  have positive : (0 : Rat) ≤ 1 / n := one_div_nonneg.mpr (Nat.cast_nonneg n)
  obtain ⟨least, most⟩ := divInt_between fine (one.symm ▸ zero_le_one) (by omega : 0 < n)
  rw [one] at least most
  show 2 / 3 * (1 / n : Rat) ≤ (work.sumFrom (work.reciprocals n) 1 (work.divInt (work.int 1) n)
      (work.divInt (work.int 1) n)).toRat ∧
    (work.sumFrom (work.reciprocals n) 1 (work.divInt (work.int 1) n)
      (work.divInt (work.int 1) n)).toRat ≤ 4 / 3 * (1 / n : Rat)
  generalize work.divInt (work.int 1) n = first at least most ⊢
  have nonnegative : 0 ≤ first.toRat := by linarith
  have size : first.toRat < 2 ^ (work.bits - work.bits : Int) := by
    rw [sub_self, zpow_zero]
    linarith
  have room : |first.toRat| + first.toRat / 7 ≤ 1 / 2 := by
    rw [abs_of_nonneg nonnegative]
    linarith
  obtain ⟨below, above⟩ := abs_le.mp (sumFrom_near (reciprocals_falls fine several)
    (Nat.lt_of_lt_of_le (by decide) fine) work.bits Nat.one_pos first nonnegative size room)
  constructor
  · linarith
  · linarith

theorem pi_between : 1 ≤ work.pi.toRat ∧ work.pi.toRat ≤ 5 := by
  obtain ⟨least, most⟩ := arcTangentInverse_between fine (by decide : 5 ≤ 5)
  obtain ⟨least', most'⟩ := arcTangentInverse_between fine (by decide : 5 ≤ 239)
  have large : (work.int 16).toRat = 16 := toRat_int (Nat.le_trans (by decide) fine)
  have small : (work.int 4).toRat = 4 := toRat_int (Nat.le_trans (by decide) fine)
  norm_num at least most least' most'
  obtain ⟨below, above⟩ := (mul_offBy fine (work.int 16) (work.arcTangentInverse 5)).between
    (by rw [large]; linarith)
  obtain ⟨below', above'⟩ := (mul_offBy fine (work.int 4) (work.arcTangentInverse 239)).between
    (by rw [small]; linarith)
  rw [large] at below above
  rw [small] at below' above'
  obtain ⟨lower, upper⟩ := (sub_offBy fine (work.mul (work.int 16) (work.arcTangentInverse 5))
    (work.mul (work.int 4) (work.arcTangentInverse 239))).between (by linarith)
  unfold pi
  constructor
  · linarith
  · linarith

end Fine

end Work

/-- **The ratio of circumference and diameter is a few units in every context.** -/
theorem Number.pi_between (ctx : Context) :
    1 / 4 ≤ (Number.pi ctx).value.toRat ∧ (Number.pi ctx).value.toRat ≤ 8 := by
  obtain ⟨least, most⟩ := Work.pi_between (Work.six_le_forContext ctx)
  obtain ⟨below, above⟩ := Work.finish_between _ (le_trans zero_le_one least) ctx
  unfold Number.pi
  constructor
  · linarith
  · linarith

/-! ### The logarithm of two -/

section Reciprocals

variable {n fuel k power sum : Nat}

theorem reciprocalSeries_of_zero : (reciprocalSeries n fuel k 0 sum).1 = sum := by
  cases fuel with
  | zero => rfl
  | succ fuel => rfl

theorem reciprocalSeries_succ (nonzero : power ≠ 0) :
    reciprocalSeries n (fuel + 1) k power sum =
      reciprocalSeries n fuel (k + 1) (power / (n * n)) (sum + power / (2 * k + 1)) := by
  rw [reciprocalSeries, if_neg nonzero]

variable (n fuel k power sum)

/-- **A sum of reciprocals adds its first term, and no more than a geometric series.** -/
theorem reciprocalSeries_bounds (several : 0 < n) :
    sum ≤ (reciprocalSeries n fuel k power sum).1 ∧
      (n * n - 1) * ((reciprocalSeries n fuel k power sum).1 - sum) ≤ n * n * power := by
  induction fuel generalizing k power sum with
  | zero =>
    rw [reciprocalSeries, Nat.sub_self, Nat.mul_zero]
    exact ⟨Nat.le_refl sum, Nat.zero_le _⟩
  | succ fuel ih =>
    by_cases zero : power = 0
    · rw [zero, reciprocalSeries_of_zero, Nat.sub_self, Nat.mul_zero]
      exact ⟨Nat.le_refl sum, Nat.zero_le _⟩
    · rw [reciprocalSeries_succ zero]
      have most : power / (2 * k + 1) ≤ power := Nat.div_le_self _ _
      generalize power / (2 * k + 1) = term at most
      obtain ⟨atLeast, rest⟩ := ih (k + 1) (power / (n * n)) (sum + term)
      generalize (reciprocalSeries n fuel (k + 1) (power / (n * n)) (sum + term)).1 = final
        at atLeast rest ⊢
      refine ⟨by omega, ?_⟩
      have square : 0 < n * n := Nat.mul_pos several several
      have part : n * n * (power / (n * n)) ≤ power := Nat.mul_div_le power (n * n)
      generalize n * n = square' at *
      calc (square' - 1) * (final - sum)
          = (square' - 1) * (final - (sum + term)) + (square' - 1) * term := by
            rw [← Nat.mul_add, show final - (sum + term) + term = final - sum by omega]
        _ ≤ power + (square' - 1) * power :=
            Nat.add_le_add (Nat.le_trans rest part) (Nat.mul_le_mul_left _ most)
        _ = square' * power := by
            rw [Nat.add_comm, ← Nat.succ_mul, Nat.succ_eq_add_one, Nat.sub_add_cancel square]

end Reciprocals

/-- The inverse hyperbolic tangent of `1 / n` lies between the first term of its series and a
geometric series. -/
theorem artanhInverse_bounds (w : Nat) {n : Nat} (several : 0 < n) :
    (2 ^ w / n : Nat) ≤ (artanhInverse w n).mid ∧
      ((n * n - 1 : Nat) : Int) * (artanhInverse w n).mid ≤ (n * n * (2 ^ w / n) : Nat) := by
  show ((2 ^ w / n : Nat) : Int) ≤ ((reciprocalSeries n (w + 2) 0 (2 ^ w / n) 0).1 : Nat) ∧
    ((n * n - 1 : Nat) : Int) * ((reciprocalSeries n (w + 2) 0 (2 ^ w / n) 0).1 : Nat) ≤ _
  generalize 2 ^ w / n = power
  rw [← Int.natCast_mul, Int.ofNat_le, Int.ofNat_le]
  constructor
  · by_cases zero : power = 0
    · rw [zero, reciprocalSeries_of_zero]
    · rw [reciprocalSeries_succ zero, Nat.mul_zero, Nat.zero_add, Nat.zero_add, Nat.div_one]
      exact (reciprocalSeries_bounds n (w + 1) 1 _ _ several).1
  · have rest := (reciprocalSeries_bounds n (w + 2) 0 power 0 several).2
    rwa [Nat.sub_zero] at rest

/-- The logarithm of two lies between two thirds and one. -/
theorem lnTwoBall_bounds {w : Nat} (fine : 8 ≤ w) :
    2 * 2 ^ w < 3 * (lnTwoBall w).mid ∧ (lnTwoBall w).mid ≤ 2 ^ w := by
  obtain ⟨least, most⟩ := artanhInverse_bounds (w + 8) (by decide : 0 < 26)
  obtain ⟨least', most'⟩ := artanhInverse_bounds (w + 8) (by decide : 0 < 4801)
  obtain ⟨least'', most''⟩ := artanhInverse_bounds (w + 8) (by decide : 0 < 8749)
  have mid : (lnTwoBall w).mid = (18 * (artanhInverse (w + 8) 26).mid +
    -(2 * (artanhInverse (w + 8) 4801).mid) + 8 * (artanhInverse (w + 8) 8749).mid) / 2 ^ 8 := rfl
  have unit : (2 ^ (w + 8) : Nat) = 2 ^ w * 256 := Nat.pow_add 2 w 8
  have cast : ((2 ^ w : Nat) : Int) = 2 ^ w := Int.natCast_pow 2 w
  have large : 2 ^ 8 ≤ 2 ^ w := Nat.pow_le_pow_right (by decide) fine
  rw [unit] at least most least' most' least'' most''
  rw [mid]
  generalize (2 ^ w : Nat) = size at *
  omega

/-! ### The base of the natural logarithm -/

/-- The next term of a power series is no more than the product. -/
theorem nextTerm_bounds (w : Nat) {x term : Ball} (positive : 0 ≤ x.mid) (above : 0 ≤ term.mid)
    (d : Nat) : 0 ≤ ((term.mul w x).divNat d).mid ∧
      ((term.mul w x).divNat d).mid * 2 ^ w ≤ term.mid * x.mid := by
  have unit : (0 : Int) < 2 ^ w := Int.pow_pos (by decide)
  have product : 0 ≤ term.mid * x.mid / 2 ^ w :=
    Int.ediv_nonneg (Int.mul_nonneg above positive) (Int.le_of_lt unit)
  constructor
  · exact Int.ediv_nonneg product (Int.natCast_nonneg d)
  · exact (Int.le_ediv_iff_mul_le unit).mp (Int.ediv_le_self _ product)

/-- **A power series of a fraction stays below a geometric series.** -/
theorem powerSeries_bounds (w : Nat) {x : Ball} (positive : 0 ≤ x.mid) (divisor : Nat → Nat)
    (fuel k : Nat) {term : Ball} (sum : Ball) (above : 0 ≤ term.mid) :
    sum.mid ≤ (powerSeries w x divisor fuel k term sum).mid ∧
      ((powerSeries w x divisor fuel k term sum).mid - sum.mid) * (2 ^ w - x.mid) ≤
        term.mid * 2 ^ w := by
  have stops {term sum : Ball} (above : 0 ≤ term.mid) :
      (sum.mid - sum.mid) * (2 ^ w - x.mid) ≤ term.mid * 2 ^ w := by
    rw [Int.sub_self, Int.zero_mul]
    exact Int.mul_nonneg above (Int.le_of_lt (Int.pow_pos (by decide)))
  induction fuel generalizing k term sum with
  | zero => exact ⟨Int.le_refl _, stops above⟩
  | succ fuel ih =>
    rw [powerSeries]
    split
    · exact ⟨Int.le_refl _, stops above⟩
    · obtain ⟨above', smaller⟩ := nextTerm_bounds w positive above (divisor k)
      obtain ⟨atLeast, rest⟩ := ih (k + 1) (sum.add term) above'
      have added : (sum.add term).mid = sum.mid + term.mid := rfl
      rw [added] at atLeast rest
      refine ⟨by omega, ?_⟩
      generalize (powerSeries w x divisor fuel (k + 1) _ (sum.add term)).mid = total at *
      calc (total - sum.mid) * (2 ^ w - x.mid)
          = (total - (sum.mid + term.mid)) * (2 ^ w - x.mid) + term.mid * (2 ^ w - x.mid) := by
            grind
        _ ≤ term.mid * x.mid + term.mid * (2 ^ w - x.mid) :=
            Int.add_le_add_right (Int.le_trans rest smaller) _
        _ = term.mid * 2 ^ w := by grind

/-- A term that is not tiny is added. -/
theorem le_powerSeries (w : Nat) {x : Ball} (positive : 0 ≤ x.mid) (divisor : Nat → Nat)
    (fuel k : Nat) {term : Ball} (sum : Ball) (large : 2 < term.mid) :
    sum.mid + term.mid ≤ (powerSeries w x divisor (fuel + 1) k term sum).mid := by
  rw [powerSeries, if_neg (by omega)]
  exact (powerSeries_bounds w positive divisor fuel (k + 1) (sum.add term)
    (nextTerm_bounds w positive (by omega) (divisor k)).1).1

/-- The square of the inverse of `1 - y` is at most the inverse of `1 - 2 y`, in units of `p`. -/
theorem square_le_inverse {p a y : Int} (unit : 0 < p) (positive : 0 ≤ y) (room : 2 * y ≤ p)
    (above : 0 ≤ a) (most : a * (p - y) ≤ p * p) : a * a / p * (p - 2 * y) ≤ p * p := by
  have floor : a * a / p * p ≤ a * a := Int.ediv_mul_le _ (Int.ne_of_gt unit)
  have square : (p - 2 * y) * p ≤ (p - y) * (p - y) := by
    have rest : 0 ≤ y * y := Int.mul_nonneg positive positive
    grind
  have nonnegative : 0 ≤ (p - 2 * y) * p := Int.mul_nonneg (by omega) (Int.le_of_lt unit)
  have nonnegative' : 0 ≤ a * (p - y) := Int.mul_nonneg above (by omega)
  have squares : 0 < p * p := Int.mul_pos unit unit
  refine Int.le_of_mul_le_mul_right ?_ squares
  calc a * a / p * (p - 2 * y) * (p * p)
      = a * a / p * p * ((p - 2 * y) * p) := by grind
    _ ≤ a * a * ((p - y) * (p - y)) :=
        Int.mul_le_mul floor square nonnegative (Int.mul_nonneg above above)
    _ = a * (p - y) * (a * (p - y)) := by grind
    _ ≤ p * p * (p * p) := Int.mul_le_mul most most nonnegative' (Int.le_of_lt squares)

/-- **Squares of the inverse of `1 - y` stay below the inverses of `1 - 2 y`, `1 - 4 y`, and so
on.** -/
theorem squareTimes_bounds {w : Nat} (times : Nat) {a : Ball} {y : Int} (positive : 0 ≤ y)
    (room : 2 ^ times * y ≤ 2 ^ w) (least : 2 ^ w ≤ a.mid)
    (most : a.mid * (2 ^ w - y) ≤ 2 ^ w * 2 ^ w) :
    2 ^ w ≤ (squareTimes w times a).mid ∧
      (squareTimes w times a).mid * (2 ^ w - 2 ^ times * y) ≤ 2 ^ w * 2 ^ w := by
  have unit : (0 : Int) < 2 ^ w := Int.pow_pos (by decide)
  induction times generalizing a y with
  | zero =>
    rw [Int.pow_zero, Int.one_mul]
    exact ⟨least, most⟩
  | succ times ih =>
    rw [Int.pow_succ, Int.mul_assoc] at room ⊢
    have within : 1 * (2 * y) ≤ 2 ^ times * (2 * y) :=
      Int.mul_le_mul_of_nonneg_right (Int.pow_pos (by decide)) (by omega)
    refine ih (by omega) room ?_ ?_
    · exact (Int.le_ediv_iff_mul_le unit).mpr (Int.mul_le_mul least least (Int.le_of_lt unit)
        (by omega))
    · exact square_le_inverse unit positive (by omega) (by omega) most

/-- **The exponential of a ball between zero and one half lies between one and two**, however often
the ball is halved before the series and the sum squared after it. -/
theorem exponential_bounds {v : Nat} (fine : 8 ≤ v) {x : Ball} (above : 0 ≤ x.mid)
    (half : 2 * x.mid ≤ 2 ^ v) (halvings : Nat) :
    let root := powerSeries v (x.coarsen halvings) (· + 1) (v + 2) 0 (.ofInt v 1) ⟨0, 0⟩
    2 ^ v ≤ (squareTimes v halvings root).mid ∧
      (squareTimes v halvings root).mid ≤ 2 * 2 ^ v := by
  intro root
  have unit : (0 : Int) < 2 ^ v := Int.pow_pos (by decide)
  have one : (Ball.ofInt v 1).mid = 2 ^ v := Int.one_mul _
  have several : 2 ^ 8 ≤ 2 ^ v := Nat.pow_le_pow_right (by decide) fine
  have cast : ((2 ^ v : Nat) : Int) = 2 ^ v := Int.natCast_pow 2 v
  have mid : (x.coarsen halvings).mid = x.mid / 2 ^ halvings := rfl
  have power : (0 : Int) < 2 ^ halvings := Int.pow_pos (by decide)
  have above' : 0 ≤ (x.coarsen halvings).mid := Int.ediv_nonneg above (Int.le_of_lt power)
  have within : 2 ^ halvings * (x.coarsen halvings).mid ≤ x.mid :=
    Int.mul_ediv_self_le (Int.ne_of_gt power)
  have most := (powerSeries_bounds v above' (· + 1) (v + 2) 0 ⟨0, 0⟩
    (by omega : 0 ≤ (Ball.ofInt v 1).mid)).2
  have least := le_powerSeries v above' (· + 1) (v + 1) 0 ⟨0, 0⟩
    (by omega : 2 < (Ball.ofInt v 1).mid)
  rw [one, Int.zero_add] at least
  rw [one, Int.sub_zero] at most
  obtain ⟨lower, upper⟩ := squareTimes_bounds halvings above' (by omega) least most
  refine ⟨lower, ?_⟩
  generalize (squareTimes v halvings root).mid = q at *
  generalize 2 ^ halvings * (x.coarsen halvings).mid = y at *
  refine Int.le_of_mul_le_mul_right (?_ : q * 2 ^ v ≤ 2 * 2 ^ v * 2 ^ v) unit
  calc q * 2 ^ v ≤ q * (2 * (2 ^ v - y)) := Int.mul_le_mul_of_nonneg_left (by omega) (by omega)
    _ = 2 * (q * (2 ^ v - y)) := by grind
    _ ≤ 2 * (2 ^ v * 2 ^ v) := by omega
    _ = 2 * 2 ^ v * 2 ^ v := (Int.mul_assoc 2 _ _).symm

/-- One less the logarithm of two lies between zero and one half. -/
theorem reduceByLnTwo_one {v : Nat} (fine : 8 ≤ v) (radius : Nat) : ∃ reduced : Ball,
    reduceByLnTwo v ⟨2 ^ v, radius⟩ = (reduced, 1) ∧ 0 ≤ reduced.mid ∧
      2 * reduced.mid ≤ 2 ^ v := by
  have size : (2 ^ v : Int).natAbs = 2 ^ v := Int.natAbs_pow 2 v
  have turns : bitLength (2 ^ v / 2 ^ v) + 2 = 3 := by
    rw [Nat.div_self (Nat.pow_pos (by decide))]
    decide
  have large : ¬2 ^ v < 2 ^ (v - 1) := Nat.not_lt.mpr (Nat.pow_le_pow_right (by decide) (by omega))
  obtain ⟨lower, upper⟩ := lnTwoBall_bounds (w := v + 3) (by omega)
  have unit : (2 ^ (v + 3) : Int) = 2 ^ v * 8 := Int.pow_add 2 v 3
  have several : 2 ^ 8 ≤ 2 ^ v := Nat.pow_le_pow_right (by decide) fine
  have cast : ((2 ^ v : Nat) : Int) = 2 ^ v := Int.natCast_pow 2 v
  unfold reduceByLnTwo
  simp only [size, turns]
  rw [if_neg large]
  generalize (2 ^ v : Int) = p at *
  generalize lnTwoBall (v + 3) = lnTwo at *
  have quotient : (2 * p * 2 ^ 3 + lnTwo.mid) / (2 * lnTwo.mid) = 1 := by
    have divisor : 0 < 2 * lnTwo.mid := by omega
    have least := (Int.le_ediv_iff_mul_le (a := 1) (b := 2 * p * 2 ^ 3 + lnTwo.mid) divisor).mpr
      (by omega)
    have most := (Int.ediv_lt_iff_lt_mul (a := 2 * p * 2 ^ 3 + lnTwo.mid) (b := 2) divisor).mpr
      (by omega)
    omega
  rw [quotient]
  refine ⟨_, rfl, ?_⟩
  show 0 ≤ p + -(1 * lnTwo.mid / 2 ^ 3) ∧ 2 * (p + -(1 * lnTwo.mid / 2 ^ 3)) ≤ p
  omega

/-- The exponential of one is twice a ball between one and two. -/
theorem expBall_one {w : Nat} (fine : 8 ≤ w) (radius : Nat) : ∃ ball : Ball,
    expBall w ⟨2 ^ w, radius⟩ = (ball, 1) ∧ 2 ^ w ≤ ball.mid ∧ ball.mid ≤ 2 * 2 ^ w := by
  obtain ⟨halvings, count⟩ : ∃ halvings,
      integerSqrt w / 2 + 1 - (w - bitLength (2 ^ w : Int).natAbs) = halvings := ⟨_, rfl⟩
  have unit : (0 : Int) < 2 ^ (halvings + 16) := Int.pow_pos (by decide)
  have split : (2 ^ (w + (halvings + 16)) : Int) = 2 ^ w * 2 ^ (halvings + 16) :=
    Int.pow_add 2 w _
  obtain ⟨reduced, reduction, above, half⟩ :=
    reduceByLnTwo_one (v := w + (halvings + 16)) (by omega) (radius * 2 ^ (halvings + 16))
  obtain ⟨least, most⟩ := exponential_bounds (by omega) above half halvings
  unfold expBall
  simp only [count, ← split, reduction]
  refine ⟨_, rfl, ?_⟩
  rw [split] at least most
  constructor
  · exact (Int.le_ediv_iff_mul_le unit).mpr least
  · refine Int.ediv_le_of_le_mul unit ?_
    rw [Int.mul_assoc]
    exact most

theorem Ball.ofDyadic_one (w : Nat) : Ball.ofDyadic w 1 = ⟨2 ^ w, 1⟩ := by
  have parts : (1 : Dyadic).significand = 1 ∧ (1 : Dyadic).exponent = 0 := by decide
  unfold Ball.ofDyadic Dyadic.truncAt
  rw [parts.1, parts.2, Int.one_mul, show (0 - (-w : Int)).toNat = w by omega,
    show ((-w : Int) - 0).toNat = 0 by omega, Int.pow_zero, Int.tdiv_one]

/-- The enclosures of the exponential of one, less one, hold a value between one and three. -/
theorem exists_enclosed {v : Nat} (fine : 8 ≤ v) : ∃ x : Dyadic, 1 ≤ x.toRat ∧ x.toRat ≤ 3 ∧
    (expEnclosure v (.ofDyadic v 1)).minusOne.lower.toRat ≤ x.toRat ∧
    x.toRat ≤ (expEnclosure v (.ofDyadic v 1)).minusOne.upper.toRat := by
  obtain ⟨ball, equal, least, most⟩ := expBall_one fine 1
  have unit : (0 : Rat) < 2 ^ (1 - v : Int) := two_zpow_pos _
  have two : (2 : Rat) ^ v * 2 ^ (1 - v : Int) = 2 := by
    rw [← zpow_natCast, ← zpow_add₀ two_ne_zero, add_sub_cancel, zpow_one]
  have value (m : Int) : (Dyadic.scaled m (1 - v) - 1).toRat = m * 2 ^ (1 - v : Int) - 1 := by
    rw [Dyadic.toRat_sub, Dyadic.toRat_scaled, Dyadic.toRat_one]
  have radius := mul_nonneg (Nat.cast_nonneg (α := Rat) ball.radius) unit.le
  have above := mul_le_mul_of_nonneg_right (Int.cast_le (R := Rat).mpr least) unit.le
  have below := mul_le_mul_of_nonneg_right (Int.cast_le (R := Rat).mpr most) unit.le
  push_cast at above below
  rw [two] at above
  rw [mul_assoc, two] at below
  refine ⟨.scaled ball.mid (1 - v) - 1, ?_⟩
  rw [Ball.ofDyadic_one, expEnclosure, equal]
  simp only [Enclosure.minusOne, Enclosure.ofBall, value]
  push_cast
  refine ⟨?_, ?_, ?_, ?_⟩ <;> linarith

/-- The exponential of one, less one, is a few units if it is settled on at all. -/
theorem expM1_one_between {p : Nat} (fine : 6 ≤ p) :
    0 ≤ (Dyadic.expM1 .nearest p 1).toRat ∧ (Dyadic.expM1 .nearest p 1).toRat ≤ 4 := by
  unfold Dyadic.expM1
  rw [if_neg (by decide)]
  rcases settle_eq (by omega : 2 ≤ p) .nearest (startScale p 1)
    (fun w => (expEnclosure w (.ofDyadic w 1)).minusOne) with never | ⟨v, finer, settled⟩
  · rw [never, Dyadic.toRat_zero]
    norm_num
  · have scale : 8 ≤ v := by
      unfold startScale at finer
      omega
    obtain ⟨x, least, most, lower, upper⟩ := exists_enclosed scale
    have quarter : lastBit p ≤ 1 / 4 := le_trans (lastBit_le_of_le fine) (by decide +kernel)
    obtain ⟨above, below⟩ :=
      ((Dyadic.cut_offBy .nearest p x).mono quarter).between (by linarith)
    rw [settled x lower upper]
    constructor
    · linarith
    · linarith

/-- **The base of the natural logarithm is a few units in every context.** -/
theorem Number.e_between (ctx : Context) :
    1 / 4 ≤ (Number.e ctx).value.toRat ∧ (Number.e ctx).value.toRat ≤ 8 := by
  have fine := Work.six_le_forContext ctx
  unfold Number.e
  generalize Work.forContext ctx = work at fine
  simp only [Work.int_one fine]
  have power : 0 ≤ (work.expM1 1).toRat ∧ (work.expM1 1).toRat ≤ 4 := expM1_one_between fine
  have sum : 0 ≤ (work.expM1 1).toRat + (1 : Dyadic).toRat := by
    rw [Dyadic.toRat_one]
    linarith
  obtain ⟨lower, upper⟩ := (Work.add_offBy fine (work.expM1 1) 1).between sum
  rw [Dyadic.toRat_one] at lower upper
  obtain ⟨above, below⟩ := Work.finish_between (work.add (work.expM1 1) 1) (by linarith) ctx
  constructor
  · linarith
  · linarith

end Reckoner
