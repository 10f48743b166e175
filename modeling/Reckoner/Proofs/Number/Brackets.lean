/-
Results rounded down and up, and the exact value between them.

Operands of more than twice the precision are cut in the direction of the result before they are
multiplied, and so is a dividend that is too long for its divisor. A factor or a divisor below zero
turns that direction around, and the two roundings then pull against each other. A root is taken of
leading bits, and is not rounded if it is exact for them, whatever bits come after.

* `Brackets` — a lower and an upper result, with the exact value between them up to a fraction.
* `Dyadic.product_directs`, `Dyadic.quotient_directs_of_short` — **a product or a quotient lies on
  the side of its direction unless an operand is cut and the other one is below zero**.
* `Dyadic.squareRoot_down_le`, `Dyadic.sqrt_le_squareRoot_up_iff` — **a square root that is rounded
  up is too small exactly if its square is the value without its last bits**.
* `Number.mul_div_sqrt_brackets` — **products, quotients and square roots in both directions**, with
  how far they can miss.
* `Number.directed_misses` — operands for which each of them does miss.
-/

import Reckoner.Proofs.Number.Accuracy

namespace Reckoner

/-- A lower and an upper result about an exact value, which may miss it by a fraction. Zero, if it
stands for a value below the range, says nothing about the side. -/
structure Brackets (fraction : Rat) (exact : ℝ) (low high : Dyadic) : Prop where
  below : Flushed exact low ∨ low.toRat ≤ exact + fraction * |exact|
  above : Flushed exact high ∨ exact ≤ high.toRat + fraction * |exact|

namespace Rounding

variable {mode : Rounding} {a b c : Rat}

theorem Directs.mul_nonneg (directed : mode.Directs a b) (nonnegative : 0 ≤ c) :
    mode.Directs (a * c) (b * c) := by
  rcases nonnegative.lt_or_eq with positive | rfl
  · exact directed.mul_pos positive
  · rw [mul_zero, mul_zero]
    exact .refl mode 0

/-- What is rounded down from a value that is off is above the exact one by that much at most. -/
theorem Directs.le_of_offBy {δ : Rat} (directed : down.Directs b c) (off : OffBy δ a b) :
    c ≤ a + δ * |a| := by
  have below : c ≤ b := directed
  have near := (abs_le.mp off).2
  linarith

/-- What is rounded up from a value that is off is below the exact one by that much at most. -/
theorem Directs.ge_of_offBy {δ : Rat} (directed : up.Directs b c) (off : OffBy δ a b) :
    a ≤ c + δ * |a| := by
  have above : b ≤ c := directed
  have near := (abs_le.mp off).1
  linarith

end Rounding

end Reckoner

namespace Dyadic

open Reckoner

variable {x y : Dyadic} {p : Nat}

/-! ### Products and quotients -/

/-- **A product lies on the side of its direction if no factor is below zero where the other one is
cut.** -/
theorem product_directs (positive : 0 < p) (mode : Rounding)
    (first : 2 * p < x.length → 0 ≤ y.toRat) (second : 2 * p < y.length → 0 ≤ x.toRat) :
    mode.Directs (x.toRat * y.toRat) (x.product mode p y).toRat := by
  have left : mode.Directs (x.toRat * y.toRat) ((x.cut mode (2 * p)).toRat * y.toRat) := by
    by_cases short : x.length ≤ 2 * p
    · rw [cut_eq_self_iff.mpr short]
      exact .refl mode _
    · exact (cut_roundedAt mode _ x).directs.mul_nonneg (first (not_le.mp short))
  have right : mode.Directs ((x.cut mode (2 * p)).toRat * y.toRat)
      ((x.cut mode (2 * p)).toRat * (y.cut mode (2 * p)).toRat) := by
    by_cases short : y.length ≤ 2 * p
    · rw [cut_eq_self_iff.mpr short]
      exact .refl mode _
    · have factor := cut_nonneg (p := 2 * p) (by omega) mode (second (not_le.mp short))
      have directed := (cut_roundedAt mode (2 * p) y).directs.mul_nonneg factor
      rwa [Rat.mul_comm, Rat.mul_comm (y.cut mode (2 * p)).toRat] at directed
  have rounded := (cut_roundedAt mode p (x.cut mode (2 * p) * y.cut mode (2 * p))).directs
  rw [toRat_mul] at rounded
  exact (left.trans right).trans rounded

/-- The fraction of a product that is lost by cutting both of its factors. -/
theorem factors_offBy (mode : Rounding) (x y : Dyadic) :
    OffBy (compound (lastBit (2 * p)) (lastBit (2 * p))) (x.toRat * y.toRat)
      (x.cut mode (2 * p) * y.cut mode (2 * p)).toRat := by
  rw [toRat_mul]
  exact (cut_offBy mode (2 * p) x).mul (cut_offBy mode (2 * p) y) (lastBit_pos _).le

/-- **A quotient lies on the side of its direction if its dividend is not cut**, whatever the sign
of the divisor. -/
theorem quotient_directs_of_short (positive : 0 < p) (mode : Rounding) (nonzero : y ≠ 0)
    (short : x.length ≤ y.length + p) :
    mode.Directs (x.toRat / y.toRat) (x.quotient mode p y).toRat := by
  have directed := quotient_directs_of_cut (x := x) positive mode nonzero
  rwa [cut_eq_self_iff.mpr short] at directed

/-! ### Square roots -/

theorem round_down_ofRoot (n : Nat) (size : Ordering) :
    Rounding.down.round (integerSqrt n) (.ofRoot n size) = integerSqrt n := by
  unfold Rest.ofRoot
  split
  · rfl
  · rfl

theorem round_up_ofRoot (n : Nat) (size : Ordering) :
    Rounding.up.round (integerSqrt n) (.ofRoot n size) =
      if n = integerSqrt n * integerSqrt n then (integerSqrt n : Int) else integerSqrt n + 1 := by
  have least := (integerSqrt_spec n).1
  unfold Rest.ofRoot
  split
  · next whole =>
    rw [if_pos (by omega)]
    rfl
  · next rest =>
    rw [if_neg (by omega)]
    rfl

/-- **A square root that is rounded down is not above the exact one.** -/
theorem squareRoot_down_le (positive : 0 < p) (above : 0 < x.toRat) :
    ((x.squareRoot .down p).toRat : ℝ) ≤ √(x.toRat : ℝ) := by
  obtain ⟨n, k, size, leading, -, -, -, equal⟩ := squareRoot_leading positive .down above
  obtain ⟨lower, upper⟩ := leadingBits_bounds above leading
  have root := (integerSqrt_bounds lower upper).1
  have cut : (x.squareRoot .down p).toRat ≤ (scaled (integerSqrt n) k).toRat := by
    rw [equal, round_down_ofRoot]
    exact (cut_roundedAt .down p _).directs
  calc ((x.squareRoot .down p).toRat : ℝ) ≤ (scaled (integerSqrt n) k).toRat :=
        Rat.cast_le.mpr cut
    _ = integerSqrt n * 2 ^ k := by
        rw [cast_toRat_scaled, Int.cast_natCast]
    _ ≤ √((x.toRat / 2 ^ (2 * k) : Rat) : ℝ) * 2 ^ k :=
        mul_le_mul_of_nonneg_right root (zpow_pos two_pos k).le
    _ = √(x.toRat : ℝ) := (sqrt_toRat x k).symm

/-- A count that is rounded up is no less. -/
theorem cut_up_scaled (p : Nat) (m e : Int) :
    ∃ n : Int, (scaled m e).cut .up p = scaled n e ∧ m ≤ n := by
  obtain ⟨n, cut⟩ := cut_scaled .up p m e
  have directed : (scaled m e).toRat ≤ ((scaled m e).cut .up p).toRat :=
    (cut_roundedAt .up p (scaled m e)).directs
  rw [cut, toRat_scaled, toRat_scaled, mul_le_mul_iff_of_pos_right (two_zpow_pos e)] at directed
  exact ⟨n, cut, by exact_mod_cast directed⟩

/-- A square root that is rounded up is a count of units that is no less than the integer root of
the leading bits, and only if the leading bits are its square can it be less than the next. -/
theorem squareRoot_up_eq (positive : 0 < p) (above : 0 < x.toRat) :
    ∃ (n : Nat) (k c : Int), (n : Int) = x.truncAt (2 * k) ∧
      (x.length ≤ 2 * p → 2 * k ≤ x.exponent) ∧ p ≤ bitLength (integerSqrt n) ∧
      x.squareRoot .up p = scaled c k ∧
      (integerSqrt n + 1 ≤ c ∨ c = integerSqrt n ∧ n = integerSqrt n * integerSqrt n) := by
  obtain ⟨n, k, size, counted, whole, least, -, equal⟩ := squareRoot_leading positive .up above
  obtain ⟨c, cut, upward⟩ := cut_up_scaled p (Rounding.up.round (integerSqrt n) (.ofRoot n size)) k
  refine ⟨n, k, c, counted, whole, least, equal.trans cut, ?_⟩
  rw [round_up_ofRoot] at upward
  split at upward
  · next square =>
    rcases upward.lt_or_eq with more | same
    · exact .inl (by omega)
    · exact .inr ⟨same.symm, square⟩
  · exact .inl upward

/-- The bits of a value from the unit `2 ^ u` on. -/
def leading (x : Dyadic) (u : Int) : Dyadic := scaled (x.truncAt u) u

/-- A unit that divides a value leaves nothing of it out. -/
theorem leading_eq_self {u : Int} (divides : u ≤ x.exponent) : x.leading u = x := by
  have multiple := congrArg toRat (eq_scaled divides)
  rw [toRat_scaled] at multiple
  exact toRat_inj.mp ((truncated_roundedAt x u).eq_of_multiple multiple)

theorem leading_zero (u : Int) : (0 : Dyadic).leading u = 0 := by
  have none : (0 : Dyadic).truncAt u = 0 := by
    show (0 * _ : Int).tdiv _ = 0
    rw [Int.zero_mul, Int.zero_tdiv]
  unfold leading
  rw [none, scaled_eq_zero_iff.mpr rfl]

/-- What is left of a value above zero without some of its bits is below the value. -/
theorem toRat_leading_lt (above : 0 < x.toRat) {u : Int} (shorter : x.leading u ≠ x) :
    (x.leading u).toRat < x.toRat := by
  have side : |(x.leading u).toRat| ≤ |x.toRat| := (truncated_roundedAt x u).directs
  rw [abs_of_pos above] at side
  exact lt_of_le_of_ne (le_trans (le_abs_self _) side) (mt toRat_inj.mp shorter)

/-- **A square root that is rounded up is too small only for a long value**, and then its square is
the value without its last bits. -/
theorem sqrt_le_squareRoot_up_or (positive : 0 < p) (above : 0 < x.toRat) :
    √(x.toRat : ℝ) ≤ (x.squareRoot .up p).toRat ∨ 2 * p < x.length ∧ ∃ u, x.leading u ≠ x ∧
      x.squareRoot .up p * x.squareRoot .up p = x.leading u := by
  have nonzero : x ≠ 0 := mt toRat_eq_zero_iff.mpr above.ne'
  obtain ⟨n, k, c, counted, whole, -, equal, either⟩ := squareRoot_up_eq positive above
  have unit : (0 : ℝ) < 2 ^ k := zpow_pos two_pos k
  rcases either with next | ⟨rfl, square⟩
  · left
    obtain ⟨lower, upper⟩ := leadingBits_bounds above counted
    have root := (integerSqrt_bounds lower upper).2
    have next' : ((integerSqrt n : ℝ) + 1) ≤ c := by exact_mod_cast next
    rw [sqrt_toRat x k, equal, cast_toRat_scaled]
    exact mul_le_mul_of_nonneg_right (le_trans root.le next') unit.le
  · have squared : x.squareRoot .up p * x.squareRoot .up p = x.leading (2 * k) := by
      unfold leading
      rw [equal, scaled_mul, ← Int.natCast_mul, ← square, counted, two_mul]
    by_cases divides : 2 * k ≤ x.exponent
    · left
      rw [leading_eq_self divides] at squared
      have nonnegative : (0 : ℝ) ≤ (x.squareRoot .up p).toRat := by
        rw [equal, cast_toRat_scaled, Int.cast_natCast]
        positivity
      refine Real.sqrt_le_iff.mpr ⟨nonnegative, ?_⟩
      have value := congrArg (fun d : Dyadic => (d.toRat : ℝ)) squared
      simp only [toRat_mul, Rat.cast_mul] at value
      rw [sq, value]
    · refine .inr ⟨not_le.mp (mt whole divides), 2 * k, ?_, squared⟩
      exact scaled_ne nonzero (not_le.mp divides) _

/-- **A square root that is rounded up is not below the exact one, unless its square is the value
without its last bits.** -/
theorem sqrt_le_squareRoot_up_iff (positive : 0 < p) (above : 0 < x.toRat) :
    √(x.toRat : ℝ) ≤ (x.squareRoot .up p).toRat ↔ ¬∃ u, x.leading u ≠ x ∧
      x.squareRoot .up p * x.squareRoot .up p = x.leading u := by
  constructor
  · rintro least ⟨u, shorter, square⟩
    have less := toRat_leading_lt above shorter
    rw [← square, toRat_mul] at less
    have less' : ((x.squareRoot .up p).toRat * (x.squareRoot .up p).toRat : ℝ) < x.toRat := by
      exact_mod_cast less
    have atLeast := (Real.sqrt_le_iff.mp least).2
    rw [sq] at atLeast
    exact absurd less' (not_lt.mpr atLeast)
  · exact fun none => (sqrt_le_squareRoot_up_or positive above).resolve_right
      fun shorter => none shorter.2

/-- The root of a number that is less than one above a square. -/
theorem sqrt_le_of_square {root : Nat} {v : ℝ} (large : p ≤ bitLength root) (some : 0 < p)
    (less : v < root * root + 1) : √v ≤ root + lastBit (2 * p) * root := by
  have size : (2 : ℝ) ^ (p - 1) ≤ root := by
    have counted : root ≠ 0 := by
      rintro rfl
      exact absurd large (Nat.not_le.mpr some)
    have shorter := Nat.pow_le_pow_right Nat.two_pos (show p - 1 ≤ bitLength root - 1 by omega)
    exact_mod_cast le_trans shorter (two_pow_pred_bitLength_le counted)
  have last : (lastBit (2 * p) : ℝ) * (2 ^ (p - 1) * 2 ^ (p - 1)) = 1 / 2 := by
    have parts := lastBit_mul_pow (k := 2 * p) (by omega)
    rw [show 2 * p - 1 = (p - 1) + (p - 1) + 1 by omega, pow_succ, pow_add] at parts
    have parts' : (lastBit (2 * p) : ℝ) * (2 ^ (p - 1) * 2 ^ (p - 1) * 2) = 1 := by
      exact_mod_cast parts
    linarith
  have fraction : (0 : ℝ) ≤ lastBit (2 * p) := by exact_mod_cast (lastBit_pos _).le
  have squares : (2 : ℝ) ^ (p - 1) * 2 ^ (p - 1) ≤ root * root :=
    mul_self_le_mul_self (by positivity) size
  have half := mul_le_mul_of_nonneg_left squares fraction
  refine Real.sqrt_le_iff.mpr ⟨by positivity, ?_⟩
  nlinarith [sq_nonneg ((lastBit (2 * p) : ℝ) * root)]

/-- **It misses by the fraction of a last bit of twice the precision at most.** -/
theorem sqrt_le_squareRoot_up_add (positive : 0 < p) (above : 0 < x.toRat) :
    √(x.toRat : ℝ) ≤ (x.squareRoot .up p).toRat + lastBit (2 * p) * √(x.toRat : ℝ) := by
  obtain ⟨n, k, c, leading, -, large, equal, either⟩ := squareRoot_up_eq positive above
  obtain ⟨lower, upper⟩ := leadingBits_bounds above leading
  obtain ⟨least, most⟩ := integerSqrt_bounds lower upper
  have fraction : (0 : ℝ) ≤ lastBit (2 * p) := by exact_mod_cast (lastBit_pos _).le
  have unit : (0 : ℝ) ≤ 2 ^ k := (zpow_pos two_pos k).le
  have count : √((x.toRat / 2 ^ (2 * k) : Rat) : ℝ) ≤
      c + lastBit (2 * p) * √((x.toRat / 2 ^ (2 * k) : Rat) : ℝ) := by
    have more := mul_le_mul_of_nonneg_left least fraction
    rcases either with next | ⟨rfl, square⟩
    · have next' : ((integerSqrt n : ℝ) + 1) ≤ c := by exact_mod_cast next
      have positive := mul_nonneg fraction (Nat.cast_nonneg (α := ℝ) (integerSqrt n))
      linarith
    · have square' : (n : ℝ) = integerSqrt n * integerSqrt n := by exact_mod_cast square
      rw [square'] at upper
      have close := sqrt_le_of_square large positive upper
      rw [Int.cast_natCast]
      linarith
  rw [equal, cast_toRat_scaled, sqrt_toRat x k]
  generalize √((x.toRat / 2 ^ (2 * k) : Rat) : ℝ) = σ at count
  calc σ * 2 ^ k ≤ (c + lastBit (2 * p) * σ) * 2 ^ k := mul_le_mul_of_nonneg_right count unit
    _ = c * 2 ^ k + lastBit (2 * p) * (σ * 2 ^ k) := by ring

end Dyadic

namespace Reckoner.Number

variable {x y low high : Number} {ctx : Context}

/-! ### Results in both directions -/

/-- Two results whose range is checked, one on each side of an exact value. -/
theorem checked_brackets {fraction exact : Rat} {a b : Dyadic} {label : Nat} {function : String}
    (off : OffBy (slack ctx.bits) exact a.toRat) (off' : OffBy (slack ctx.bits) exact b.toRat)
    (first : checked ⟨a, label⟩ function = .ok low)
    (second : checked ⟨b, label⟩ function = .ok high)
    (below : a.toRat ≤ exact + fraction * |exact|) (above : exact ≤ b.toRat + fraction * |exact|) :
    Brackets fraction exact low.value high.value where
  below := by
    refine (checked_flushed off.cast first).imp_right fun same => ?_
    rw [same]
    exact_mod_cast below
  above := by
    refine (checked_flushed off'.cast second).imp_right fun same => ?_
    rw [same]
    exact_mod_cast above

section Product

variable (first : x.mul y (ctx.withRounding .down) = .ok low)
  (second : x.mul y (ctx.withRounding .up) = .ok high)

include first second

/-- Products miss by no more than what cutting both factors may lose. -/
theorem mul_brackets : Brackets (compound (lastBit (2 * ctx.bits)) (lastBit (2 * ctx.bits)))
    (x.value.toRat * y.value.toRat : Rat) low.value high.value := by
  have off (mode : Rounding) := Dyadic.product_offBy ctx.minPrecision_le mode x.value y.value
  refine checked_brackets (off .down) (off .up) first second ?_ ?_
  · refine Rounding.Directs.le_of_offBy ?_ (Dyadic.factors_offBy .down x.value y.value)
    exact (Dyadic.cut_roundedAt .down ctx.bits _).directs
  · refine Rounding.Directs.ge_of_offBy ?_ (Dyadic.factors_offBy .up x.value y.value)
    exact (Dyadic.cut_roundedAt .up ctx.bits _).directs

/-- They enclose the exact product if no factor is below zero where the other one is cut. -/
theorem mul_brackets_of_nonneg (factor : 2 * ctx.bits < x.value.length → 0 ≤ y.value.toRat)
    (factor' : 2 * ctx.bits < y.value.length → 0 ≤ x.value.toRat) :
    Brackets 0 (x.value.toRat * y.value.toRat : Rat) low.value high.value := by
  have off (mode : Rounding) := Dyadic.product_offBy ctx.minPrecision_le mode x.value y.value
  have directed (mode : Rounding) :=
    Dyadic.product_directs (positive_bits ctx) mode factor factor'
  refine checked_brackets (off .down) (off .up) first second ?_ ?_
  · exact (directed .down).le_of_offBy (.refl le_rfl _)
  · exact (directed .up).ge_of_offBy (.refl le_rfl _)

end Product

section Quotient

variable (first : x.div y (ctx.withRounding .down) = .ok low)
  (second : x.div y (ctx.withRounding .up) = .ok high)

include first second

/-- Quotients miss by no more than what cutting the dividend may lose. -/
theorem div_brackets : Brackets (lastBit (y.value.length + ctx.bits))
    (x.value.toRat / y.value.toRat : Rat) low.value high.value := by
  obtain ⟨nonzero, first⟩ := div_eq_ok first
  have second := (div_eq_ok second).2
  have off (mode : Rounding) := Dyadic.quotient_offBy ctx.minPrecision_le mode x.value nonzero
  have dividend (mode : Rounding) :=
    (Dyadic.cut_offBy mode (y.value.length + ctx.bits) x.value).div_right y.value.toRat
  have directed (mode : Rounding) :=
    Dyadic.quotient_directs_of_cut (x := x.value) (positive_bits ctx) mode nonzero
  refine checked_brackets (off .down) (off .up) first second ?_ ?_
  · exact (directed .down).le_of_offBy (dividend .down)
  · exact (directed .up).ge_of_offBy (dividend .up)

/-- They enclose the exact quotient if the dividend is not cut where the divisor is below zero. -/
theorem div_brackets_of_pos
    (divisor : y.value.length + ctx.bits < x.value.length → 0 < y.value.toRat) :
    Brackets 0 (x.value.toRat / y.value.toRat : Rat) low.value high.value := by
  obtain ⟨nonzero, first⟩ := div_eq_ok first
  have second := (div_eq_ok second).2
  have off (mode : Rounding) := Dyadic.quotient_offBy ctx.minPrecision_le mode x.value nonzero
  have directed (mode : Rounding) : mode.Directs (x.value.toRat / y.value.toRat)
      (x.value.quotient mode ctx.bits y.value).toRat := by
    by_cases short : x.value.length ≤ y.value.length + ctx.bits
    · exact Dyadic.quotient_directs_of_short (positive_bits ctx) mode nonzero short
    · exact Dyadic.quotient_directs (positive_bits ctx) mode (divisor (not_le.mp short))
  refine checked_brackets (off .down) (off .up) first second ?_ ?_
  · exact (directed .down).le_of_offBy (.refl le_rfl _)
  · exact (directed .up).ge_of_offBy (.refl le_rfl _)

end Quotient

/-- A square root rounded down is never too large. Rounded up it is too small only if its square is
the value without its last bits, and then by no more than what those bits are worth. -/
theorem sqrt_brackets (first : x.sqrt (ctx.withRounding .down) = .ok low)
    (second : x.sqrt (ctx.withRounding .up) = .ok high) :
    low.value.toRat ≤ √(x.value.toRat : ℝ) ∧
    √(x.value.toRat : ℝ) ≤ high.value.toRat + lastBit (2 * ctx.bits) * √(x.value.toRat : ℝ) ∧
    (√(x.value.toRat : ℝ) ≤ high.value.toRat ↔ ¬∃ u, x.value.leading u ≠ x.value ∧
      high.value * high.value = x.value.leading u) ∧
    (x.value.length ≤ 2 * ctx.bits → √(x.value.toRat : ℝ) ≤ high.value.toRat) := by
  rcases sqrt_eq_ok first, sqrt_eq_ok second with
    ⟨⟨zero, none⟩ | ⟨above, root⟩, ⟨zero', none'⟩ | ⟨above', root'⟩⟩
  · rw [zero, none, none', Dyadic.toRat_zero, Rat.cast_zero, Real.sqrt_zero, mul_zero, add_zero]
    refine ⟨le_rfl, le_rfl, iff_of_true le_rfl ?_, fun _ => le_rfl⟩
    rintro ⟨u, shorter, -⟩
    exact shorter (Dyadic.leading_zero u)
  · rw [zero, Dyadic.toRat_zero] at above'
    exact absurd above' (lt_irrefl 0)
  · rw [zero', Dyadic.toRat_zero] at above
    exact absurd above (lt_irrefl 0)
  · have positive := positive_bits ctx
    rw [root, root']
    refine ⟨Dyadic.squareRoot_down_le positive above,
      Dyadic.sqrt_le_squareRoot_up_add positive above,
      Dyadic.sqrt_le_squareRoot_up_iff positive above, fun short => ?_⟩
    exact (Dyadic.sqrt_le_squareRoot_up_or positive above).resolve_right
      fun long => absurd long.1 (not_lt.mpr short)

/-- **Products, quotients and square roots rounded down and up enclose the exact value** if what is
cut before the operation is not turned around. A factor of more than twice the precision has to be
multiplied by one that is not below zero, and a dividend that is too long divided by a divisor above
zero; a root is never too large, and too small only if its square is the value without its last
bits. In any case they miss the exact value by no more than what cutting the operands may lose. -/
theorem mul_div_sqrt_brackets (x y : Number) (ctx : Context) :
    (∀ low high, x.mul y (ctx.withRounding .down) = .ok low →
      x.mul y (ctx.withRounding .up) = .ok high →
        Brackets (compound (lastBit (2 * ctx.bits)) (lastBit (2 * ctx.bits)))
          (x.value.toRat * y.value.toRat : Rat) low.value high.value ∧
        ((2 * ctx.bits < x.value.length → 0 ≤ y.value.toRat) →
          (2 * ctx.bits < y.value.length → 0 ≤ x.value.toRat) →
            Brackets 0 (x.value.toRat * y.value.toRat : Rat) low.value high.value)) ∧
    (∀ low high, x.div y (ctx.withRounding .down) = .ok low →
      x.div y (ctx.withRounding .up) = .ok high →
        Brackets (lastBit (y.value.length + ctx.bits))
          (x.value.toRat / y.value.toRat : Rat) low.value high.value ∧
        ((y.value.length + ctx.bits < x.value.length → 0 < y.value.toRat) →
          Brackets 0 (x.value.toRat / y.value.toRat : Rat) low.value high.value)) ∧
    ∀ low high, x.sqrt (ctx.withRounding .down) = .ok low →
      x.sqrt (ctx.withRounding .up) = .ok high →
        low.value.toRat ≤ √(x.value.toRat : ℝ) ∧
        √(x.value.toRat : ℝ) ≤
          high.value.toRat + lastBit (2 * ctx.bits) * √(x.value.toRat : ℝ) ∧
        (√(x.value.toRat : ℝ) ≤ high.value.toRat ↔ ¬∃ u, x.value.leading u ≠ x.value ∧
          high.value * high.value = x.value.leading u) ∧
        (x.value.length ≤ 2 * ctx.bits → √(x.value.toRat : ℝ) ≤ high.value.toRat) := by
  exact ⟨fun low high first second => ⟨mul_brackets first second,
    mul_brackets_of_nonneg first second⟩, fun low high first second => ⟨div_brackets first second,
    div_brackets_of_pos first second⟩, fun low high => sqrt_brackets⟩

/-- A value of 301 bits, with the first and the last one set. -/
def longOperand : Number := ⟨.scaled (2 ^ 300 + 1) 0, 1024⟩

/-- Three times a value that is cut to 256 bits first, in both directions. -/
theorem mul_div_sqrt_brackets_triple : ∃ low high,
    longOperand.mul ⟨.scaled 3 0, 2⟩ (Context.standard.withRounding .down) = .ok low ∧
    longOperand.mul ⟨.scaled 3 0, 2⟩ (Context.standard.withRounding .up) = .ok high ∧
    low.value < high.value ∧
    Brackets 0 (longOperand.value.toRat * (Dyadic.scaled 3 0).toRat : Rat) low.value
      high.value := by
  refine ⟨⟨.scaled 3 300, 128⟩, ⟨.scaled (3 * 2 ^ 126 + 1) 174, 128⟩, by decide +kernel,
    by decide +kernel, by decide +kernel, ?_⟩
  refine ((mul_div_sqrt_brackets longOperand ⟨.scaled 3 0, 2⟩ Context.standard).1 _ _
    (by decide +kernel) (by decide +kernel)).2 (fun _ => ?_) fun long => absurd long ?_
  · decide +kernel
  · decide +kernel

/-- The opposite of the value, as a product and as a quotient, lies above what is rounded down to,
and its root above what is rounded up to. -/
theorem directed_misses :
    (∃ low high, mul ⟨.scaled (-1) 0, 1⟩ longOperand (Context.standard.withRounding .down) =
        .ok low ∧
      mul ⟨.scaled (-1) 0, 1⟩ longOperand (Context.standard.withRounding .up) = .ok high ∧
      low.value ≠ 0 ∧ high.value ≠ 0 ∧
      (Dyadic.scaled (-1) 0).toRat * longOperand.value.toRat < low.value.toRat) ∧
    (∃ low high, longOperand.div ⟨.scaled (-1) 0, 1⟩ (Context.standard.withRounding .down) =
        .ok low ∧
      longOperand.div ⟨.scaled (-1) 0, 1⟩ (Context.standard.withRounding .up) = .ok high ∧
      low.value ≠ 0 ∧ high.value ≠ 0 ∧
      longOperand.value.toRat / (Dyadic.scaled (-1) 0).toRat < low.value.toRat) ∧
    ∃ high, longOperand.sqrt (Context.standard.withRounding .up) = .ok high ∧
      high.value.toRat < √(longOperand.value.toRat : ℝ) := by
  refine ⟨⟨⟨.scaled (-1) 300, 128⟩, ⟨.scaled (-1) 300, 128⟩, by decide +kernel⟩,
    ⟨⟨.scaled (-1) 300, 128⟩, ⟨.scaled (-(2 ^ 128 + 1)) 172, 128⟩, by decide +kernel⟩,
    ⟨.scaled 1 150, 128⟩, by decide +kernel, ?_⟩
  have less : (Dyadic.scaled 1 150).toRat ^ 2 < longOperand.value.toRat := by decide +kernel
  refine Real.lt_sqrt_of_sq_lt ?_
  exact_mod_cast less

end Reckoner.Number
