/-
Plain decimal numerals, and the text of all digits of a number.

* `PlainDecimal` — a decimal numeral without an exponent and without superfluous zeros in front, the
  text and the value that it stands for.
* `PlainDecimal.trim` — a numeral without the zeros at the end of its fraction. It has the same
  value, and its text is the trimmed text (`trim_value`, `trim_text`).
* `PlainDecimal.ofUnits` — the numeral that the text of a number of units is (`ofUnits_text`).
* `trimFractionText_fixedText` — an odd number of units has no zero to trim.
* `Number.ofText?_toExactDecimal` — **all digits of a number are read as its numeral**.
-/

import Mathlib.Data.List.Basic
import Reckoner.Proofs.Number.FixedText

namespace Reckoner

/-! ### Plain numerals -/

/-- A decimal numeral without an exponent: an optional minus sign, digits without a superfluous zero
in front, and the digits of a fraction. -/
structure PlainDecimal where
  negative : Bool
  whole : List Char
  fraction : List Char
  digits : ∀ c ∈ whole ++ fraction, isDigit c
  whole_ne_nil : whole ≠ []
  whole_of_zero : whole.head? = some '0' → whole = ['0']

namespace PlainDecimal

/-- The text of a numeral, with a point only before a fraction. -/
def text (d : PlainDecimal) : List Char :=
  (if d.negative then ['-'] else []) ++ d.whole ++
    (if d.fraction = [] then [] else '.' :: d.fraction)

/-- The number of units of the last digit. -/
def units (d : PlainDecimal) : Int :=
  if d.negative then -(digitsValue (d.whole ++ d.fraction) : Int)
  else digitsValue (d.whole ++ d.fraction)

/-- The value of a numeral. -/
def value (d : PlainDecimal) : Rat := d.units / 10 ^ d.fraction.length

/-- A text ends with a digit. -/
theorem text_last (d : PlainDecimal) : ∀ c ∈ d.text.getLast?, isDigit c := by
  intro c last
  unfold text at last
  by_cases integer : d.fraction = []
  · rw [if_pos integer, List.append_nil, List.getLast?_append_of_ne_nil _ d.whole_ne_nil] at last
    exact d.digits c (List.mem_append_left _ (List.mem_of_getLast? last))
  · rw [if_neg integer, List.append_cons, List.getLast?_append_of_ne_nil _ integer] at last
    exact d.digits c (List.mem_append_right _ (List.mem_of_getLast? last))

theorem point_not_mem_front (d : PlainDecimal) :
    '.' ∉ (if d.negative then ['-'] else []) ++ d.whole := by
  intro member
  rcases List.mem_append.mp member with sign | digit
  · split at sign
    · exact absurd (List.mem_singleton.mp sign) (by decide)
    · cases sign
  · exact absurd (d.digits _ (List.mem_append_left _ digit)) (by decide)

/-! ### Trimming -/

/-- A fraction without the zeros at its end. -/
def trimZeros (fraction : List Char) : List Char :=
  (fraction.reverse.dropWhile (· = '0')).reverse

theorem trimZeros_last (fraction : List Char) : (trimZeros fraction).getLast? ≠ some '0' := by
  intro last
  have stopped := List.head?_dropWhile_not (· = '0') fraction.reverse
  rw [trimZeros, List.getLast?_reverse] at last
  rw [last] at stopped
  exact absurd stopped (by decide)

theorem trimZeros_eq_self {fraction : List Char} (last : fraction.getLast? ≠ some '0') :
    trimZeros fraction = fraction := by
  unfold trimZeros
  rw [dropWhile_of_head, List.reverse_reverse]
  intro c first
  rw [List.head?_reverse] at first
  refine decide_eq_false fun zero => last ?_
  rw [← zero]
  exact first

/-- A fraction is the trimmed fraction and zeros. -/
theorem eq_trimZeros_append (fraction : List Char) :
    ∃ zeros, fraction = trimZeros fraction ++ List.replicate zeros '0' := by
  have all : ∀ c ∈ fraction.reverse.takeWhile (· = '0'), c = '0' := by
    intro c member
    exact of_decide_eq_true (List.all_eq_true.mp List.all_takeWhile c member)
  refine ⟨(fraction.reverse.takeWhile (· = '0')).length, ?_⟩
  rw [← List.reverse_inj, List.reverse_append, List.reverse_replicate,
    ← List.eq_replicate_of_mem all, trimZeros, List.reverse_reverse,
    List.takeWhile_append_dropWhile]

/-- The numeral without the zeros at the end of its fraction. -/
def trim (d : PlainDecimal) : PlainDecimal where
  negative := d.negative
  whole := d.whole
  fraction := trimZeros d.fraction
  digits := by
    obtain ⟨zeros, fraction⟩ := eq_trimZeros_append d.fraction
    intro c member
    refine d.digits c ?_
    rw [fraction, ← List.append_assoc]
    exact List.mem_append_left _ member
  whole_ne_nil := d.whole_ne_nil
  whole_of_zero := d.whole_of_zero

theorem trim_eq_self {d : PlainDecimal} (last : d.fraction.getLast? ≠ some '0') : d.trim = d := by
  obtain ⟨negative, whole, fraction, digits, some, zero⟩ := d
  unfold trim
  congr
  exact trimZeros_eq_self last

/-- **Trimming keeps the value.** -/
theorem trim_value (d : PlainDecimal) : d.trim.value = d.value := by
  obtain ⟨zeros, fraction⟩ := eq_trimZeros_append d.fraction
  have nothing : digitsValue (List.replicate zeros '0') = 0 := by
    rw [← List.append_nil (List.replicate zeros '0'), digitsValue_replicate_append]
    rfl
  have digits : digitsValue (d.whole ++ d.fraction) =
      digitsValue (d.whole ++ trimZeros d.fraction) * 10 ^ zeros := by
    rw [fraction, ← List.append_assoc, digitsValue_append, List.length_replicate, nothing,
      Nat.add_zero, ← fraction]
  have units : d.units = d.trim.units * 10 ^ zeros := by
    unfold PlainDecimal.units trim
    rw [digits, Int.natCast_mul, Int.natCast_pow]
    split
    · rw [Int.neg_mul]
      rfl
    · rfl
  have places : d.fraction.length = d.trim.fraction.length + zeros := by
    have length := congrArg List.length fraction
    rw [List.length_append, List.length_replicate] at length
    exact length
  have power (n : Nat) : (10 : Rat) ^ n ≠ 0 := Rat.ne_of_gt (Rat.pow_pos (by decide))
  have product : (10 : Rat) ^ d.fraction.length = 10 ^ d.trim.fraction.length * 10 ^ zeros := by
    rw [places, ← Rat.zpow_natCast, Int.natCast_add, Rat.zpow_add (by decide), Rat.zpow_natCast,
      Rat.zpow_natCast]
  have count : (d.units : Rat) = d.trim.units * 10 ^ zeros := by
    rw [units, Rat.intCast_mul, Rat.intCast_pow]
    rfl
  have nonzero := power d.trim.fraction.length
  have nonzero' := power zeros
  unfold value
  rw [count, product]
  grind

theorem trimFractionText_append {front fraction : List Char} (plain : '.' ∉ front)
    (digits : ∀ c ∈ fraction, isDigit c) :
    trimFractionText (front ++ '.' :: fraction) =
      front ++ (if trimZeros fraction = [] then [] else '.' :: trimZeros fraction) := by
  have point : (front ++ '.' :: fraction).contains '.' = true := by
    rw [List.contains_iff_mem]
    exact List.mem_append_right _ List.mem_cons_self
  have reversed : (front ++ '.' :: fraction).reverse =
      fraction.reverse ++ '.' :: front.reverse := by simp
  unfold trimFractionText
  rw [if_pos point, reversed, List.dropWhile_append]
  by_cases nothing : trimZeros fraction = []
  · have empty : fraction.reverse.dropWhile (· = '0') = [] := List.reverse_eq_nil_iff.mp nothing
    have stop : front.reverse.dropWhile (· = '.') = front.reverse := by
      refine dropWhile_of_head fun c first => decide_eq_false fun same => plain ?_
      rw [← same]
      exact List.mem_reverse.mp (List.mem_of_mem_head? first)
    simp [nothing, empty, stop]
  · have reversed : fraction.reverse.dropWhile (· = '0') = (trimZeros fraction).reverse :=
      (List.reverse_reverse _).symm
    have kept : (trimZeros fraction).reverse ≠ [] := mt List.reverse_eq_nil_iff.mp nothing
    have stop : ((trimZeros fraction).reverse ++ '.' :: front.reverse).dropWhile (· = '.') =
        (trimZeros fraction).reverse ++ '.' :: front.reverse := by
      refine dropWhile_of_head fun c first => decide_eq_false ?_
      rw [List.head?_append, List.head?_eq_some_head kept, Option.some_or,
        ← List.head?_eq_some_head kept] at first
      obtain ⟨zeros, parts⟩ := eq_trimZeros_append fraction
      have member : c ∈ fraction := by
        rw [parts]
        exact List.mem_append_left _ (List.mem_reverse.mp (List.mem_of_mem_head? first))
      exact ne_of_isDigit (digits c member) rfl
    rw [reversed, if_neg (mt List.isEmpty_iff.mp kept), stop, if_neg nothing]
    simp

/-- Trimming the text of a numeral gives the text of the trimmed numeral. -/
theorem trim_text (d : PlainDecimal) : trimFractionText d.text = d.trim.text := by
  have front := d.point_not_mem_front
  unfold text
  by_cases integer : d.fraction = []
  · have nothing : d.trim.fraction = [] := by
      show trimZeros d.fraction = []
      rw [integer]
      rfl
    rw [if_pos integer, if_pos nothing, List.append_nil, List.append_nil]
    unfold trimFractionText
    rw [if_neg]
    · rfl
    · rwa [List.contains_iff_mem]
  · rw [if_neg integer, trimFractionText_append front fun c member =>
      d.digits c (List.mem_append_right _ member)]
    rfl

/-! ### The text of units -/

/-- The digits before the point start with a zero only if there is no other. -/
theorem fixedWhole_of_zero {units : Int} {places : Nat}
    (first : (fixedWhole units places).head? = some '0') : fixedWhole units places = ['0'] := by
  have long := lt_length_fixedDigits units places
  have digits := naturalDigits_cons units.natAbs
  unfold fixedWhole at first ⊢
  by_cases short : (naturalDigits units.natAbs).length ≤ places
  · -- The digits do not reach the point, so a single zero stands before it.
    have zeros : places + 1 - (naturalDigits units.natAbs).length =
        (places - (naturalDigits units.natAbs).length) + 1 := by omega
    have length : (fixedDigits units places).length - places = 1 := by
      unfold fixedDigits
      rw [List.length_append, List.length_replicate]
      omega
    rw [length]
    unfold fixedDigits
    rw [zeros, List.replicate_succ, List.cons_append]
    rfl
  · have plain : fixedDigits units places = naturalDigits units.natAbs := by
      have none : places + 1 - (naturalDigits units.natAbs).length = 0 := by omega
      unfold fixedDigits
      rw [none, List.replicate_zero, List.nil_append]
    have zero : units.natAbs = 0 := by
      refine Classical.byContradiction fun nonzero => naturalDigits_head nonzero ?_
      rw [plain, List.head?_take, if_neg (by omega)] at first
      exact first
    rw [plain, zero] at long ⊢
    have none : places = 0 := Nat.lt_one_iff.mp long
    rw [none]
    rfl

/-- The numeral of a number of units. -/
def ofUnits (units : Int) (places : Nat) : PlainDecimal where
  negative := decide (units < 0)
  whole := fixedWhole units places
  fraction := fixedFraction units places
  digits := by
    intro c member
    rw [fixedWhole_append_fixedFraction] at member
    exact isDigit_of_mem_fixedDigits units places member
  whole_ne_nil := fixedWhole_ne_nil units places
  whole_of_zero := fixedWhole_of_zero

section Units

variable (n : Int) (places : Nat)

@[simp]
theorem ofUnits_places : (ofUnits n places).fraction.length = places :=
  length_fixedFraction n places

@[simp]
theorem ofUnits_units : (ofUnits n places).units = n := by
  unfold units ofUnits
  rw [fixedWhole_append_fixedFraction, digitsValue_fixedDigits]
  by_cases negative : n < 0
  · simp only [negative, decide_true, if_true]
    omega
  · simp only [negative, decide_false, Bool.false_eq_true, if_false]
    omega

/-- The text of a number of units is that of its numeral. -/
@[simp]
theorem ofUnits_text : (ofUnits n places).text = fixedText n places := by
  have integer : fixedFraction n places = [] ↔ places = 0 := by
    rw [← List.length_eq_zero_iff, length_fixedFraction]
  unfold text ofUnits
  simp only [decide_eq_true_eq, integer]
  exact (fixedText_eq n places).symm

variable {n places}

theorem fixedFraction_last (last : places = 0 ∨ n.natAbs % 10 ≠ 0) :
    (fixedFraction n places).getLast? ≠ some '0' := by
  intro zero
  obtain ⟨front, ends⟩ := List.getLast?_eq_some_iff.mp zero
  have some := length_fixedFraction n places
  rw [ends, List.length_append, List.length_singleton] at some
  have odd : n.natAbs % 10 ≠ 0 := last.resolve_left (by omega)
  have digits : fixedDigits n places = (fixedWhole n places ++ front) ++ ['0'] := by
    rw [← fixedWhole_append_fixedFraction, ends, List.append_assoc]
  have value := digitsValue_fixedDigits n places
  rw [digits, digitsValue_append_zero] at value
  omega

/-- A text without zeros at the end of its fraction stays as it is. -/
theorem trimFractionText_fixedText (last : places = 0 ∨ n.natAbs % 10 ≠ 0) :
    trimFractionText (fixedText n places) = fixedText n places := by
  rw [← ofUnits_text, trim_text, trim_eq_self]
  exact fixedFraction_last last

end Units

end PlainDecimal

/-! ### All digits of a number -/

namespace Number

/-- A numerator of a fraction is odd, so nothing is trimmed. -/
theorem toExactText_eq (x : Number) :
    x.toExactText = fixedText x.numeral.mantissa (-x.value.exponent).toNat := by
  refine PlainDecimal.trimFractionText_fixedText ?_
  by_cases integer : 0 ≤ x.value.exponent
  · left
    omega
  · right
    have nonzero : x.value ≠ 0 := Dyadic.ne_zero_of_exponent (Int.not_le.mp integer)
    have whole : x.value.exponent.toNat = 0 := by omega
    have odd : x.value.significand * 2 ^ x.value.exponent.toNat *
        5 ^ (-x.value.exponent).toNat % 2 = 1 := by
      rw [whole, Int.pow_zero, Int.mul_one, Int.mul_emod, Dyadic.significand_odd nonzero,
        Dyadic.five_pow_odd]
      rfl
    omega

/-- **All digits of a number are read as its numeral**, unless there are too many places. -/
theorem ofText?_toExactDecimal (x : Number) :
    Numeral.ofText? x.toExactDecimal =
      if maxDecimalExponent < (-x.value.exponent).toNat then none else some x.numeral := by
  unfold toExactDecimal
  rw [toExactText_eq, ofText?_fixedText]
  rfl

end Number

end Reckoner
