/-
The value of a number as it is spelled.

* `NumberText.value` — the rational that digits, fraction and exponent stand for.
* `NumberText.ofText?_chars` — **a number that is spelled as the grammar has it is read as its
  digits and its scale**, unless the scale is too far from zero.
* `Numeral.toNumber_eq` — **a numeral whose value is short enough for the precision is read
  exactly**, as an integer or as a quotient by a power of ten.
* `NumberText.fromDecimal_exact` — so is a number in a program.
-/

import Reckoner.Evaluation.Evaluate
import Reckoner.Proofs.Expression.Spelling
import Reckoner.Proofs.Number.Exact
import Reckoner.Proofs.Number.FixedText

namespace Reckoner

/-! ### Values -/

/-- The value of an exponent. -/
def ExponentText.value (exponent : ExponentText) : Int :=
  if exponent.sign = Option.some .minus then -(digitsValue exponent.digits : Int)
  else digitsValue exponent.digits

namespace NumberText

/-- All digits of a number before its exponent. -/
def digits (number : NumberText) : List Char := number.whole ++ number.fraction.getD []

/-- The power of ten that the digits count. -/
def scale (number : NumberText) : Int :=
  number.exponent.elim 0 ExponentText.value - ((number.fraction.getD []).length : Int)

/-- The rational that a number stands for. -/
def value (number : NumberText) : Rat := digitsValue number.digits * 10 ^ number.scale

end NumberText

/-! ### Reading -/

theorem splitSign_of_digits {digits : List Char} (isDigits : digits.all isDigit) :
    Numeral.splitSign digits = (false, digits) := by
  unfold Numeral.splitSign
  split
  · exact absurd (List.all_eq_true.mp isDigits '-' List.mem_cons_self) (by decide)
  · exact absurd (List.all_eq_true.mp isDigits '+' List.mem_cons_self) (by decide)
  · rfl

namespace ExponentText

variable (exponent : ExponentText)

/-- The characters of an exponent after its mark. -/
def tail : List Char := exponent.sign.elim [] (fun sign => [sign.char]) ++ exponent.digits

theorem isDigit_of_mem {c : Char} (member : c ∈ exponent.digits) : isDigit c :=
  List.all_eq_true.mp exponent.isDigits c member

theorem splitSign_tail :
    Numeral.splitSign exponent.tail =
      (decide (exponent.sign = Option.some .minus), exponent.digits) := by
  unfold tail
  rcases exponent.sign with _ | sign
  · exact splitSign_of_digits exponent.isDigits
  · cases sign <;> rfl

/-- **An exponent is read as its value.** -/
theorem readExponent?_tail :
    Numeral.readExponent? exponent.tail = Option.some exponent.value := by
  have nonempty : exponent.digits.isEmpty = false := List.isEmpty_eq_false_iff.mpr exponent.some
  unfold Numeral.readExponent?
  rw [splitSign_tail]
  simp only [nonempty, exponent.isDigits, Bool.not_true, Bool.or_false, Bool.false_eq_true,
    if_false, decide_eq_true_eq, value]

/-- The characters of an exponent are digits, its mark and its sign. -/
theorem mem_chars {c : Char} (member : c ∈ exponent.chars) :
    isDigit c ∨ c ∈ ['e', 'E', '+', '-'] := by
  rcases List.mem_cons.mp member with rfl | tail
  · have mark := exponent.isMark
    simp only [Numeral.isExponentMark, Bool.or_eq_true, decide_eq_true_eq] at mark
    rcases mark with lower | upper
    · exact .inr (by simp [lower])
    · exact .inr (by simp [upper])
  · rcases List.mem_append.mp tail with sign | digit
    · rcases written : exponent.sign with _ | sign'
      · rw [written] at sign
        cases sign
      · rw [written] at sign
        rw [List.mem_singleton.mp sign]
        cases sign' <;> exact .inr (by decide)
    · exact .inl (exponent.isDigit_of_mem digit)

end ExponentText

namespace NumberText

variable (number : NumberText)

theorem isDigit_of_mem_digits {c : Char} (member : c ∈ number.digits) : isDigit c := by
  rcases List.mem_append.mp member with whole | fraction
  · exact List.all_eq_true.mp number.wholeDigits c whole
  · exact List.all_eq_true.mp number.fractionDigits c fraction

theorem digits_ne_nil : number.digits ≠ [] := by
  rcases number.some with whole | fraction
  · exact List.append_ne_nil_of_left_ne_nil whole _
  · exact List.append_ne_nil_of_right_ne_nil _ fraction

/-- The characters of a mantissa are digits and a point. -/
theorem mem_mantissa {c : Char} (member : c ∈ number.mantissa) : isDigit c ∨ c = '.' := by
  have digit := @isDigit_of_mem_digits number c
  revert digit member
  unfold mantissa digits
  cases number.fraction with
  | none => exact fun member digit => .inl (digit member)
  | some fraction =>
    simp only [Option.elim_some, Option.getD_some, List.mem_append, List.mem_cons]
    rintro (whole | point | fraction) digit
    · exact .inl (digit (.inl whole))
    · exact .inr point
    · exact .inl (digit (.inr fraction))

/-- A number is its mantissa up to the mark of its exponent. -/
theorem splitFirst?_chars :
    Text.splitFirst? Numeral.isExponentMark number.chars =
      number.exponent.map fun exponent => (number.mantissa, exponent.tail) := by
  have plain : ∀ c ∈ number.mantissa, Numeral.isExponentMark c = false := by
    intro c member
    rcases number.mem_mantissa member with digit | rfl
    · exact isExponentMark_of_isDigit digit
    · rfl
  unfold chars
  cases number.exponent with
  | none => rw [Option.elim_none, List.append_nil, splitFirst?_of_none plain, Option.map_none]
  | some exponent => exact splitFirst?_append plain exponent.isMark exponent.tail

theorem splitExponent?_chars : Numeral.splitExponent? number.chars =
    Option.some (number.mantissa, number.exponent.elim 0 ExponentText.value) := by
  unfold Numeral.splitExponent?
  rw [splitFirst?_chars]
  cases written : number.exponent with
  | none =>
    rw [chars, written, Option.elim_none, List.append_nil]
    rfl
  | some exponent =>
    rw [Option.map_some]
    dsimp only
    rw [exponent.readExponent?_tail]
    rfl

/-- A mantissa is its whole part up to the point. -/
theorem splitFirst?_mantissa :
    (Text.splitFirst? (· = '.') number.mantissa).getD (number.mantissa, []) =
      (number.whole, number.fraction.getD []) := by
  have plain : ∀ c ∈ number.whole, decide (c = '.') = false := fun c member =>
    decide_eq_false (ne_of_isDigit (List.all_eq_true.mp number.wholeDigits c member) rfl)
  unfold mantissa
  cases number.fraction with
  | none => rw [Option.elim_none, List.append_nil, splitFirst?_of_none plain]; rfl
  | some fraction =>
    have point : decide ('.' = '.') = true := rfl
    rw [Option.elim_some, splitFirst?_append plain point]
    rfl

/-- The characters of a number are digits, its point and those of its exponent. -/
theorem mem_chars {c : Char} (member : c ∈ number.chars) :
    isDigit c ∨ c ∈ ['.', 'e', 'E', '+', '-'] := by
  rcases List.mem_append.mp member with mantissa | exponent
  · rcases number.mem_mantissa mantissa with digit | rfl
    · exact .inl digit
    · exact .inr (by decide)
  · cases written : number.exponent with
    | none =>
      rw [written] at exponent
      cases exponent
    | some exponent' =>
      rw [written] at exponent
      exact (exponent'.mem_chars exponent).imp_right (List.mem_cons_of_mem _)

theorem not_blank {c : Char} (member : c ∈ number.chars) : Text.isBlank c = false := by
  have others : ['.', 'e', 'E', '+', '-'].all (fun c => !Text.isBlank c) = true := rfl
  rcases number.mem_chars member with digit | other
  · exact not_blank_of_isDigit digit
  · have plain := List.all_eq_true.mp others c other
    rwa [Bool.not_eq_true'] at plain

/-- A number has no sign in front of it. -/
theorem splitSign_chars : Numeral.splitSign number.chars = (false, number.chars) := by
  have first (c : Char) (rest : List Char) (starts : number.chars = c :: rest) :
      isDigit c ∨ c = '.' := IsNumber.head ⟨number, starts⟩
  unfold Numeral.splitSign
  split
  · rename_i rest starts
    exact absurd (first _ rest starts) (by decide)
  · rename_i rest starts
    exact absurd (first _ rest starts) (by decide)
  · rfl

/-- **A number is read as its digits and its scale**, unless the scale is too far from zero. -/
theorem ofText?_chars {text : String} (spelled : number.chars = text.toList) :
    Numeral.ofText? text =
      if maxDecimalExponent < number.scale.natAbs then Option.none
      else Option.some ⟨digitsValue number.digits, number.scale,
        max 1 (number.digits.dropWhile (· = '0')).length⟩ := by
  have trimmed : Text.trim text.toList = number.chars := by
    rw [← spelled, trim_of_not_blank fun c => number.not_blank]
  have digits : (number.whole ++ number.fraction.getD []).all isDigit :=
    List.all_eq_true.mpr fun c => number.isDigit_of_mem_digits
  rw [Numeral.ofText?_eq_bind, trimmed, splitSign_chars, splitExponent?_chars, Option.bind_some,
    Numeral.ofMantissa?_of_digits number.splitFirst?_mantissa digits number.digits_ne_nil]
  rfl

end NumberText

/-! ### Rounding -/

namespace Numeral

variable {numeral : Numeral}

/-- The value of a numeral. -/
def value (numeral : Numeral) : Rat := numeral.mantissa * 10 ^ numeral.exponent

theorem value_of_nonneg (integer : 0 ≤ numeral.exponent) :
    numeral.value = (numeral.mantissa * 10 ^ numeral.exponent.natAbs : Int) := by
  have power : numeral.exponent = (numeral.exponent.natAbs : Int) := by omega
  rw [value, power, Rat.zpow_natCast, Rat.intCast_mul, Rat.intCast_pow, Int.natAbs_natCast]
  rfl

theorem value_mul_of_neg (fraction : ¬0 ≤ numeral.exponent) :
    numeral.value * (10 ^ numeral.exponent.natAbs : Int) = numeral.mantissa := by
  have power : numeral.exponent = -(numeral.exponent.natAbs : Int) := by omega
  have nonzero : (10 ^ numeral.exponent.natAbs : Rat) ≠ 0 :=
    Rat.ne_of_gt (Rat.pow_pos (by decide))
  rw [value, power, Rat.zpow_neg, Rat.zpow_natCast, Rat.intCast_pow, Int.natAbs_neg,
    Int.natAbs_natCast, Rat.mul_assoc]
  exact (congrArg _ (Rat.inv_mul_cancel _ nonzero)).trans (Rat.mul_one _)

/-- A numeral that is an integer is rounded once. -/
theorem toNumber_of_nonneg (integer : 0 ≤ numeral.exponent) (ctx : Context) :
    ∃ z : Dyadic, z.toRat = numeral.value ∧
      (numeral.toNumber ctx).value = z.cut ctx.rounding ctx.bits := by
  refine ⟨.scaled (numeral.mantissa * 10 ^ numeral.exponent.natAbs) 0, ?_, ?_⟩
  · rw [value_of_nonneg integer, Dyadic.toRat_scaled, Rat.zpow_zero, Rat.mul_one]
  · rw [toNumber, if_pos integer]

/-- A numeral with a fraction is a quotient by a power of ten. -/
theorem toNumber_of_neg (fraction : ¬0 ≤ numeral.exponent) (ctx : Context) :
    ∃ y : Dyadic, 0 < y.toRat ∧ numeral.value * y.toRat = (Dyadic.scaled numeral.mantissa 0).toRat ∧
      (numeral.toNumber ctx).value =
        (Dyadic.scaled numeral.mantissa 0).quotient ctx.rounding ctx.bits y := by
  have integer : (Dyadic.scaled (10 ^ numeral.exponent.natAbs) 0).toRat =
      (10 ^ numeral.exponent.natAbs : Int) := by
    rw [Dyadic.toRat_scaled, Rat.zpow_zero, Rat.mul_one]
  refine ⟨.scaled (10 ^ numeral.exponent.natAbs) 0, ?_, ?_, ?_⟩
  · rw [integer, Rat.intCast_pow]
    exact Rat.pow_pos (by decide)
  · rw [integer, value_mul_of_neg fraction, Dyadic.toRat_scaled, Rat.zpow_zero, Rat.mul_one]
  · rw [toNumber, if_neg fraction]

/-- **A numeral whose value is short enough is read exactly**, as an integer or as a quotient by a
power of ten. -/
theorem toNumber_eq {ctx : Context} {z : Dyadic} (exact : z.toRat = numeral.value)
    (short : z.length ≤ ctx.bits) : (numeral.toNumber ctx).value = z := by
  by_cases integer : 0 ≤ numeral.exponent
  · obtain ⟨whole, same, read⟩ := toNumber_of_nonneg integer ctx
    rw [← exact, Dyadic.toRat_inj] at same
    rw [read, same, Dyadic.cut_eq_self_iff.mpr short]
  · obtain ⟨divisor, positive, product, read⟩ := toNumber_of_neg integer ctx
    rw [← exact, ← Dyadic.toRat_mul, Dyadic.toRat_inj] at product
    have nonzero : divisor ≠ 0 := mt Dyadic.toRat_eq_zero_iff.mpr (Rat.ne_of_gt positive)
    have room := Dyadic.length_mul_le z divisor
    rw [read, ← product]
    exact Dyadic.quotient_mul nonzero (by omega)

/-- A numeral whose value fits is read exactly. -/
theorem toNumber_exact {ctx : Context} (fits : FitsIn ctx.bits numeral.value) :
    (numeral.toNumber ctx).value.toRat = numeral.value := by
  obtain ⟨z, exact⟩ := fits.exists_toRat
  rw [← exact] at fits
  rw [toNumber_eq exact fits.length_le, exact]

end Numeral

/-- A precision that is in its range stays as it is. -/
theorem Context.ofBits_bits (ctx : Context) : Context.ofBits ctx.bits ctx.rounding = ctx := by
  have least := ctx.minPrecision_le
  have greatest := ctx.le_maxPrecision
  have same : max minPrecision (min ctx.bits maxPrecision) = ctx.bits := by omega
  cases ctx
  simp only [Context.ofBits, same]

/-- **A number in a program that is accepted is read exactly if its value fits.** -/
theorem NumberText.fromDecimal_exact {number : NumberText} {text : String} {ctx : Context}
    {x : Number} (spelled : number.chars = text.toList)
    (accepted : Number.fromDecimal text ctx.bits ctx.rounding = .ok x)
    (fits : FitsIn ctx.bits number.value) : x.value.toRat = number.value := by
  unfold Number.fromDecimal Number.readAt at accepted
  rw [number.ofText?_chars spelled] at accepted
  split at accepted
  · cases accepted
  · next numeral read =>
    split at read
    · cases read
    · cases read
      rw [Context.ofBits_bits] at accepted
      cases accepted
      exact Numeral.toNumber_exact fits

end Reckoner
