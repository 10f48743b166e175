/-
Functions that round to an integer.

The integer that such a function gives is a property of the rational alone. A number is taken as it
is if it is an integer, by its sign alone if it is small, and otherwise by its digits; and the label
that is left does not make the evaluator cut an integer that fits into the precision.

* `IntegerFunction` — the four functions. `IntegerFunction.Gives` — the integer that one of them
  gives for a rational; `IntegerFunction.Gives.unique`: there is one at most.
* `IntegerFunction.gives_part`, `IntegerFunction.gives_tiny` — the integer of a dyadic value, and
  that of a small one.
* `IntegerFunction.toRat_apply` — **a number is rounded to the integer of its value** in all three
  ways.
* `IntegerFunction.eval_exact` — **the evaluator gives that integer in every direction of
  rounding**, if it fits into the precision.
-/

import Reckoner.Proofs.Evaluation.State
import Reckoner.Proofs.Number.DecimalText
import Reckoner.Proofs.Number.Neighbours
import Mathlib.Data.Rat.Floor

namespace Reckoner

/-- The functions that round to an integer. -/
inductive IntegerFunction where
  | floor
  | ceil
  | round
  | trunc

namespace IntegerFunction

/-- The name of a function. -/
def name : IntegerFunction → String
  | floor => "floor"
  | ceil => "ceil"
  | round => "round"
  | trunc => "trunc"

/-- The function on numbers. -/
def apply : IntegerFunction → Number → Number
  | floor => Number.floor
  | ceil => Number.ceil
  | round => Number.round
  | trunc => Number.trunc

/-- The integer of a dyadic value. -/
def part : IntegerFunction → Dyadic → Int
  | floor => Dyadic.floor
  | ceil => Dyadic.ceil
  | round => Dyadic.roundHalfAway
  | trunc => Dyadic.trunc

/-- Whether an integer is what a function gives for a rational: the greatest one that is not above
it, the least one that is not below it, the nearest one, which is the larger one in size if there
are two, or the integer part toward zero. -/
def Gives (f : IntegerFunction) (q : Rat) (n : Int) : Prop :=
  match f with
  | floor => IsGreatest {k : Int | (k : Rat) ≤ q} n
  | ceil => IsLeast {k : Int | q ≤ k} n
  | round => ∀ k : Int, |q - n| ≤ |q - k| ∧ (k ≠ n → |q - k| = |q - n| → |k| < |n|)
  | trunc =>
    (0 ≤ q → IsGreatest {k : Int | (k : Rat) ≤ q} n) ∧ (q < 0 → IsLeast {k : Int | q ≤ k} n)

variable {f : IntegerFunction} {q : Rat} {m n : Int}

/-- A function gives at most one integer. -/
theorem Gives.unique (first : f.Gives q m) (second : f.Gives q n) : m = n := by
  cases f with
  | floor => exact IsGreatest.unique first second
  | ceil => exact IsLeast.unique first second
  | round =>
    by_contra different
    have tie : |q - m| = |q - n| := le_antisymm (first n).1 (second m).1
    have larger := (first n).2 (Ne.symm different) tie.symm
    exact lt_asymm larger ((second m).2 different tie)
  | trunc =>
    rcases le_or_gt 0 q with nonnegative | negative
    · exact IsGreatest.unique (first.1 nonnegative) (second.1 nonnegative)
    · exact IsLeast.unique (first.2 negative) (second.2 negative)

theorem isGreatest_floor (q : Rat) : IsGreatest {k : Int | (k : Rat) ≤ q} ⌊q⌋ :=
  ⟨Int.floor_le q, fun _ below => Int.le_floor.mpr below⟩

theorem isLeast_ceil (q : Rat) : IsLeast {k : Int | q ≤ k} ⌈q⌉ :=
  ⟨Int.le_ceil q, fun _ above => Int.ceil_le.mpr above⟩

/-- Other integers than one within half are farther away, or as far and on the other side. -/
theorem lt_or_of_near (near : |q - n| ≤ 1 / 2) {k : Int} (different : k ≠ n) :
    |q - n| < |q - k| ∨ (|q - n| = 1 / 2 ∧ |q - k| = 1 / 2) := by
  have apart : (1 : Rat) ≤ |(n : Rat) - k| := by
    exact_mod_cast Int.one_le_abs (sub_ne_zero.mpr (Ne.symm different))
  have around := abs_sub_le (n : Rat) q k
  rw [abs_sub_comm (n : Rat) q] at around
  rcases lt_or_ge |q - n| |q - k| with less | least
  · exact .inl less
  · exact .inr ⟨by linarith, by linarith⟩

/-- The nearest integer of a rational that is not below zero. -/
theorem gives_round_of_nonneg (nonnegative : 0 ≤ q) : round.Gives q ⌊q + 1 / 2⌋ := by
  have below := Int.floor_le (q + 1 / 2)
  have above := Int.lt_floor_add_one (q + 1 / 2)
  generalize ⌊q + 1 / 2⌋ = n at below above
  have near : |q - n| ≤ 1 / 2 := abs_le.mpr ⟨by linarith, by linarith⟩
  intro k
  by_cases same : k = n
  · exact ⟨by rw [same], fun different => absurd same different⟩
  · rcases lt_or_of_near near same with less | ⟨half, half'⟩
    · exact ⟨less.le, fun _ tie => absurd tie less.ne'⟩
    · -- The choice is above the tie, and the other integer is the one before it.
      refine ⟨by rw [half, half'], fun _ _ => ?_⟩
      have upper : (n : Rat) = q + 1 / 2 := by
        rcases (abs_eq (by norm_num)).mp half with low | high
        · linarith
        · linarith
      have lower : (k : Rat) = (n - 1 : Int) := by
        push_cast
        rcases (abs_eq (by norm_num)).mp half' with low | high
        · linarith
        · have equal : (k : Rat) = n := by linarith
          exact absurd (Int.cast_inj.mp equal) same
      have positive : (0 : Rat) < n := by linarith
      have positive : 0 < n := by exact_mod_cast positive
      rw [Int.cast_inj.mp lower, abs_of_pos positive, abs_of_nonneg (by omega)]
      omega

theorem Gives.round_neg (gives : round.Gives q n) : round.Gives (-q) (-n) := by
  intro k
  obtain ⟨least, larger⟩ := gives (-k)
  have mirrored (j : Int) : |-q - ((-j : Int) : Rat)| = |q - j| := by
    rw [Int.cast_neg, neg_sub_neg, abs_sub_comm]
  have size := mirrored (-k)
  rw [neg_neg] at size
  rw [mirrored, size, abs_neg, ← abs_neg k]
  exact ⟨least, fun different => larger fun same => different (by rw [← same, neg_neg])⟩

end IntegerFunction

end Reckoner

namespace Dyadic

open Reckoner IntegerFunction

theorem floor_eq (x : Dyadic) : x.floor = ⌊x.toRat⌋ := by
  have fraction : x.floor =
      x.significand * 2 ^ x.exponent.toNat / ((2 ^ (-x.exponent).toNat : Nat) : Int) := by
    unfold floor
    split
    · next whole =>
      have places : (-x.exponent).toNat = 0 := by omega
      rw [places, pow_zero, Nat.cast_one, Int.ediv_one]
    · next broken =>
      have units : x.exponent.toNat = 0 := by omega
      rw [units, Int.pow_zero, Int.mul_one]
      push_cast
      rfl
  rw [fraction, ← Rat.floor_intCast_div_natCast, toRat_eq_fraction]
  push_cast
  rfl

theorem ceil_eq (x : Dyadic) : x.ceil = ⌈x.toRat⌉ := by
  rw [ceil, floor_eq, toRat_neg, Int.floor_neg, neg_neg]

theorem trunc_eq (x : Dyadic) : x.trunc = if x.toRat < 0 then ⌈x.toRat⌉ else ⌊x.toRat⌋ := by
  unfold trunc
  by_cases negative : x.isNegative
  · rw [if_pos negative, if_pos (x.isNegative_iff.mp negative), ceil_eq]
  · rw [if_neg negative, if_neg (mt x.isNegative_iff.mpr negative), floor_eq]

theorem roundHalfAway_eq (x : Dyadic) : x.roundHalfAway =
    if x.toRat < 0 then -⌊-x.toRat + 1 / 2⌋ else ⌊x.toRat + 1 / 2⌋ := by
  have half : (scaled 1 (-1)).toRat = 1 / 2 := by
    rw [toRat_scaled]
    norm_num
  unfold roundHalfAway
  by_cases negative : x.isNegative
  · rw [if_pos negative, if_pos (x.isNegative_iff.mp negative), ceil, floor_eq, toRat_neg,
      toRat_sub, half]
    congr 2
    ring
  · rw [if_neg negative, if_neg (mt x.isNegative_iff.mpr negative), floor_eq, toRat_add, half]

end Dyadic

namespace Reckoner

namespace IntegerFunction

variable {q : Rat}

/-- **The integer of a dyadic value is what a function gives for its rational.** -/
theorem gives_part (f : IntegerFunction) (x : Dyadic) : f.Gives x.toRat (f.part x) := by
  cases f with
  | floor =>
    rw [part, Dyadic.floor_eq]
    exact isGreatest_floor _
  | ceil =>
    rw [part, Dyadic.ceil_eq]
    exact isLeast_ceil _
  | round =>
    rw [part, Dyadic.roundHalfAway_eq]
    split
    · next negative =>
      have mirrored := (gives_round_of_nonneg (neg_nonneg.mpr negative.le)).round_neg
      rwa [neg_neg] at mirrored
    · next nonnegative => exact gives_round_of_nonneg (not_lt.mp nonnegative)
  | trunc =>
    rw [part, Dyadic.trunc_eq]
    constructor
    · intro nonnegative
      rw [if_neg (not_lt.mpr nonnegative)]
      exact isGreatest_floor _
    · intro negative
      rw [if_pos negative]
      exact isLeast_ceil _

/-! ### Integers and small values -/

/-- An integer is what every function gives for itself. -/
theorem gives_self (f : IntegerFunction) (n : Int) : f.Gives n n := by
  have greatest := isGreatest_floor n
  have least := isLeast_ceil n
  rw [Int.floor_intCast] at greatest
  rw [Int.ceil_intCast] at least
  cases f with
  | floor => exact greatest
  | ceil => exact least
  | round =>
    intro k
    rw [sub_self, abs_zero]
    refine ⟨abs_nonneg _, fun different tie => ?_⟩
    rw [abs_eq_zero, sub_eq_zero, Int.cast_inj] at tie
    exact absurd tie.symm different
  | trunc => exact ⟨fun _ => greatest, fun _ => least⟩

/-- What a function gives for a small value of a sign. -/
def tiny (f : IntegerFunction) (negative : Bool) : Int :=
  match f with
  | floor => if negative then -1 else 0
  | ceil => if negative then 0 else 1
  | round => 0
  | trunc => 0

theorem floor_of_small (small : |q| < 1) : ⌊q⌋ = if q < 0 then -1 else 0 := by
  obtain ⟨above, below⟩ := abs_lt.mp small
  split
  · next negative =>
    rw [Int.floor_eq_iff]
    push_cast
    constructor
    · linarith
    · linarith
  · next nonnegative =>
    rw [Int.floor_eq_iff, Int.cast_zero]
    exact ⟨not_lt.mp nonnegative, by linarith⟩

theorem ceil_of_small (nonzero : q ≠ 0) (small : |q| < 1) : ⌈q⌉ = if q < 0 then 0 else 1 := by
  obtain ⟨above, below⟩ := abs_lt.mp small
  split
  · next negative =>
    rw [Int.ceil_eq_iff]
    push_cast
    exact ⟨by linarith, negative.le⟩
  · next nonnegative =>
    have positive := lt_of_le_of_ne (not_lt.mp nonnegative) (Ne.symm nonzero)
    rw [Int.ceil_eq_iff]
    push_cast
    exact ⟨by linarith, by linarith⟩

/-- **Less than one half is rounded by its sign alone.** -/
theorem gives_tiny (f : IntegerFunction) (nonzero : q ≠ 0) (small : |q| < 1 / 2) :
    f.Gives q (f.tiny (q < 0)) := by
  have fraction : |q| < 1 := lt_trans small (by norm_num)
  have greatest := isGreatest_floor q
  have least := isLeast_ceil q
  rw [floor_of_small fraction] at greatest
  rw [ceil_of_small nonzero fraction] at least
  cases f with
  | floor =>
    simp only [tiny, decide_eq_true_eq]
    exact greatest
  | ceil =>
    simp only [tiny, decide_eq_true_eq]
    exact least
  | round =>
    intro k
    have near : |q - ((0 : Int) : Rat)| ≤ 1 / 2 := by
      rw [Int.cast_zero, sub_zero]
      exact small.le
    by_cases same : k = 0
    · exact ⟨by rw [same]; rfl, fun different => absurd same different⟩
    · rcases lt_or_of_near near same with less | ⟨half, -⟩
      · exact ⟨less.le, fun _ tie => absurd tie less.ne'⟩
      · rw [Int.cast_zero, sub_zero] at half
        exact absurd half small.ne
  | trunc =>
    constructor
    · intro nonnegative
      rwa [if_neg (not_lt.mpr nonnegative)] at greatest
    · intro negative
      rwa [if_pos negative] at least

/-! ### Numbers -/

/-- How small a value has to be for a function to look at its sign alone. -/
def threshold : IntegerFunction → Nat
  | round => 2
  | _ => 1

theorem apply_eq (f : IntegerFunction) (x : Number) :
    f.apply x = x.integerPart f.threshold (f.tiny x.isNegative) f.part := by
  cases f <;> rfl

/-- **A number is rounded to the integer of its value**, whether it is an integer, is small, or has
digits on both sides of its point. -/
theorem toRat_apply (f : IntegerFunction) (x : Number) :
    (f.apply x).value.toRat = f.part x.value := by
  have gives := f.gives_part x.value
  rw [apply_eq, Number.integerPart]
  split
  · next whole =>
    have integer : x.value.toRat = (x.value.significand * 2 ^ x.value.exponent.toNat : Int) := by
      have places : (-x.value.exponent).toNat = 0 := by omega
      rw [toRat_eq_fraction, places, pow_zero, div_one]
      push_cast
      rfl
    rw [integer] at gives ⊢
    rw [gives.unique (f.gives_self _)]
  · next fraction =>
    have nonzero : x.value ≠ 0 := Dyadic.ne_zero_of_exponent (by omega)
    split
    · next small =>
      have below : x.value.magnitude ≤ -1 := by
        unfold Number.magnitude at small
        omega
      have half : |x.value.toRat| < 1 / 2 := by
        have size := lt_of_lt_of_le (Dyadic.abs_toRat_lt nonzero) (zpow_le_zpow_right₀ one_le_two below)
        rwa [zpow_neg_one, ← one_div] at size
      have sign : x.isNegative = decide (x.value.toRat < 0) := by
        rw [Bool.eq_iff_iff, decide_eq_true_eq]
        exact x.value.isNegative_iff
      rw [sign, ← gives.unique (f.gives_tiny (mt Dyadic.toRat_eq_zero_iff.mp nonzero) half),
        Dyadic.toRat_scaled, zpow_zero, mul_one]
    · rw [Dyadic.toRat_scaled, zpow_zero, mul_one]

/-! ### Evaluation -/

/-- The built-in function of the name. -/
theorem ofName?_name (f : IntegerFunction) :
    Builtin.ofName? f.name = some (.total fun x ctx => (f.apply x).roundTo ctx) := by
  cases f <;> rfl

/-- **A function that rounds to an integer gives the integer of the value, and the evaluator gives
exactly that one in every direction of rounding** if it has no more bits than the precision, and the
name of the function does not stand for anything else. -/
theorem eval_exact (f : IntegerFunction) (x : Number) :
    ∃ n, f.Gives x.value.toRat n ∧ (f.apply x).value.toRat = n ∧
      ∀ (env : Environment) (state : EvalState) (levels : Nat) (argument : Expr)
        (nameSpan span : Span), resolve? env state f.name = none →
          (eval env (levels + 1) argument state).1 = .ok x → HasBits env.options.context.bits n →
            ∃ y, eval env (levels + 2) (.call f.name nameSpan [argument] span) state =
                (.ok y, state) ∧ y.value.toRat = n := by
  refine ⟨f.part x.value, f.gives_part x.value, f.toRat_apply x,
    fun env state levels argument nameSpan span free evaluated fits => ?_⟩
  have value : ((f.apply x).roundTo env.options.context).value.toRat = f.part x.value := by
    rw [Number.roundTo_of_hasBits (by rwa [f.toRat_apply]), f.toRat_apply]
  have ran : eval env (levels + 1) argument state = (.ok x, state) :=
    Prod.ext evaluated (eval_quiet env (levels + 1) argument state)
  refine ⟨_, ?_, value⟩
  show call env (eval env (levels + 1)) (eval env levels) f.name [argument] span state = _
  rw [run_call, free]
  simp only [callOf, ofName?_name, List.mapM_cons, List.mapM_nil]
  refine Eval.run_bind_eq_ok.mpr ⟨[x], state, ?_, rfl⟩
  exact Eval.run_bind_eq_ok.mpr ⟨x, state, ran, rfl⟩

/-- Nothing is defined, and results have eight bits and are rounded upward. -/
def plain : Environment := ⟨∅, .empty, ⟨.ofBits 8 .up, 4⟩⟩

/-- Two and a half below zero is rounded away from zero, also where results are rounded upward. -/
theorem eval_exact_half :
    (resolve? plain .initial "round" = none ∧ HasBits plain.options.context.bits (-3)) ∧
      ∃ y, eval plain 4 (.call "round" ⟨0, 5⟩
        [.unary .minus (.number "2.5" ⟨7, 10⟩) ⟨6, 10⟩] ⟨0, 11⟩) .initial = (.ok y, .initial) ∧
        y.value.toRat = -3 := by
  have free : resolve? plain .initial "round" = none := by decide +kernel
  have fits : HasBits plain.options.context.bits (-3) := ⟨-3, 0, by norm_num, by decide⟩
  have evaluated : (eval plain 3 (.unary .minus (.number "2.5" ⟨7, 10⟩) ⟨6, 10⟩) .initial).1 =
      .ok ⟨.scaled (-5) (-1), 8⟩ := by rfl
  have rounded : (round.apply ⟨.scaled (-5) (-1), 8⟩).value = .scaled (-3) 0 := by decide +kernel
  obtain ⟨n, -, value, gives⟩ := eval_exact round ⟨.scaled (-5) (-1), 8⟩
  rw [rounded, Dyadic.toRat_scaled, zpow_zero, mul_one] at value
  obtain rfl : -3 = n := Int.cast_inj.mp value
  obtain ⟨y, ran, same⟩ := gives plain .initial 2 _ ⟨0, 5⟩ ⟨0, 11⟩ free evaluated
    (by exact_mod_cast fits)
  exact ⟨⟨free, fits⟩, y, ran, by exact_mod_cast same⟩

end IntegerFunction

end Reckoner
