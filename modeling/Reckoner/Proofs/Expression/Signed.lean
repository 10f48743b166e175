/-
Signed numerals, and the texts that are read as one.

A text is read in two ways: as a numeral, from the parts of its mantissa and its exponent; and by a
scan that only counts the digits behind its point. Both see the parts that the text is spelled with.

* `SignedText` — a number with an optional sign in front, the rational that it stands for, and how
  many fractional and significant digits it is written with.
* `SignedText.exists_of_ofText?` — **a text that is read as a numeral is a signed number with blanks
  around it, and is read as that**.
* `SignedText.writtenDecimals_eq` — **the scan counts the fractional digits**, whatever the sign and
  the exponent.
* `SignedText.natAbs_mantissa_lt` — the digits of a number bound its mantissa.
-/

import Reckoner.Proofs.Expression.Numerals
import Reckoner.Proofs.Number.Rereading
import Mathlib.Data.List.TakeWhile

namespace Reckoner

/-! ### Parts of a text -/

/-- The characters of an optional sign. -/
def signChars (sign : Option Sign) : List Char := sign.elim [] fun sign => [sign.char]

/-- A text is its sign and what is left of it. -/
theorem exists_sign (text : List Char) : ∃ sign : Option Sign,
    text = signChars sign ++ (Numeral.splitSign text).2 ∧
      (Numeral.splitSign text).1 = decide (sign = some .minus) := by
  unfold Numeral.splitSign
  split
  · exact ⟨some .minus, rfl, rfl⟩
  · exact ⟨some .plus, rfl, rfl⟩
  · exact ⟨none, rfl, rfl⟩

/-- A text is its whole part and the fraction behind its point. -/
theorem exists_fraction (text : List Char) : ∃ fraction : Option (List Char),
    text = ((Text.splitFirst? (· = '.') text).getD (text, [])).1 ++ fraction.elim [] ('.' :: ·) ∧
      ((Text.splitFirst? (· = '.') text).getD (text, [])).2 = fraction.getD [] := by
  cases found : Text.splitFirst? (· = '.') text with
  | none => exact ⟨none, (List.append_nil text).symm, rfl⟩
  | some parts =>
    obtain ⟨mark, point, whole⟩ := exists_of_splitFirst? found
    rw [of_decide_eq_true point] at whole
    exact ⟨some parts.2, whole, rfl⟩

/-- A text that is read as an exponent is spelled as one. -/
theorem ExponentText.exists_of_readExponent? {mark : Char} {tail : List Char} {value : Int}
    (isMark : Numeral.isExponentMark mark) (read : Numeral.readExponent? tail = .some value) :
    ∃ exponent : ExponentText, exponent.chars = mark :: tail ∧ exponent.value = value := by
  obtain ⟨sign, parts, minus⟩ := exists_sign tail
  unfold Numeral.readExponent? at read
  generalize Numeral.splitSign tail = signed at parts minus read
  obtain ⟨negative, digits⟩ := signed
  simp only [Bool.or_eq_true, List.isEmpty_iff, Bool.not_eq_true'] at read
  split at read
  · cases read
  · next accepted =>
    rw [not_or, Bool.not_eq_false] at accepted
    cases read
    refine ⟨⟨mark, sign, digits, isMark, accepted.2, accepted.1⟩, ?_, ?_⟩
    · rw [parts]
      rfl
    · unfold ExponentText.value
      simp only at minus
      simp only [minus, decide_eq_true_eq]

namespace Numeral

/-- A text is its mantissa and its exponent. -/
theorem exists_exponent {text mantissa : List Char} {scale : Int}
    (split : splitExponent? text = some (mantissa, scale)) :
    ∃ exponent : Option ExponentText, text = mantissa ++ exponent.elim [] ExponentText.chars ∧
      scale = exponent.elim 0 ExponentText.value := by
  unfold splitExponent? at split
  split at split
  · next front tail found =>
    obtain ⟨value, isExponent, ⟨⟩⟩ := Option.map_eq_some_iff.mp split
    obtain ⟨mark, isMark, whole⟩ := exists_of_splitFirst? found
    obtain ⟨exponent, chars, same⟩ := ExponentText.exists_of_readExponent? isMark isExponent
    refine ⟨some exponent, ?_, same.symm⟩
    rw [whole, ← chars]
    rfl
  · cases split
    exact ⟨none, (List.append_nil text).symm, rfl⟩

end Numeral

/-! ### Signed numbers -/

/-- A number with an optional sign in front. -/
structure SignedText where
  sign : Option Sign
  number : NumberText

namespace SignedText

variable (signed : SignedText)

/-- The characters of a signed number. -/
def chars : List Char := signChars signed.sign ++ signed.number.chars

/-- The rational that a signed number stands for. -/
def value : Rat :=
  if signed.sign = some .minus then -signed.number.value else signed.number.value

/-- How many digits stand behind the point. -/
def places : Nat := (signed.number.fraction.getD []).length

/-- The exponent that is written. -/
def shift : Int := signed.number.exponent.elim 0 ExponentText.value

/-- How many digits are significant. -/
def significant : Nat := max 1 (signed.number.digits.dropWhile (· = '0')).length

/-- What a signed number is read as, unless its scale is too far from zero. -/
def numeral : Numeral where
  mantissa :=
    if signed.sign = some .minus then -(digitsValue signed.number.digits : Int)
    else digitsValue signed.number.digits
  exponent := signed.number.scale
  digits := signed.significant

theorem scale_eq : signed.number.scale = signed.shift - signed.places := rfl

theorem numeral_value : signed.numeral.value = signed.value := by
  unfold Numeral.value numeral value
  split
  · rw [Rat.intCast_neg, Rat.neg_mul]
    rfl
  · rfl

/-! ### Reading -/

variable {signed}

/-- What a mantissa is read as is the numeral of a number with that mantissa. -/
theorem exists_of_ofMantissa? {sign : Option Sign} {mantissa : List Char}
    {exponent : Option ExponentText} {numeral : Numeral}
    (read : Numeral.ofMantissa? (decide (sign = some .minus)) mantissa
      (exponent.elim 0 ExponentText.value) = some numeral) :
    ∃ number : NumberText, number.mantissa = mantissa ∧ number.exponent = exponent ∧
      numeral = (SignedText.mk sign number).numeral ∧
        number.scale.natAbs ≤ maxDecimalExponent := by
  obtain ⟨fraction, written, behind⟩ := exists_fraction mantissa
  unfold Numeral.ofMantissa? at read
  generalize (Text.splitFirst? (· = '.') mantissa).getD (mantissa, []) = ends at *
  obtain ⟨front, back⟩ := ends
  simp only at written behind read
  subst written behind
  split at read
  · cases read
  · next accepted =>
    simp only [Bool.or_eq_true, List.isEmpty_iff, Bool.not_eq_true', decide_eq_true_eq, not_or,
      Bool.not_eq_false, List.all_append, Bool.and_eq_true, List.append_eq_nil_iff,
      not_and_or] at accepted
    obtain ⟨⟨nonempty, wholeDigits, fractionDigits⟩, near⟩ := accepted
    cases read
    refine ⟨⟨front, fraction, exponent, wholeDigits, fractionDigits, nonempty⟩, rfl, rfl, ?_,
      Nat.not_lt.mp near⟩
    simp only [decide_eq_true_eq]
    rfl

/-- **A text that is read as a numeral is a signed number with blanks around it**, whose scale is
near enough to zero, and is read as that. -/
theorem exists_of_ofText? {text : String} {numeral : Numeral}
    (read : Numeral.ofText? text = some numeral) :
    ∃ signed : SignedText, Text.trim text.toList = signed.chars ∧ numeral = signed.numeral ∧
      signed.number.scale.natAbs ≤ maxDecimalExponent := by
  obtain ⟨sign, parts, minus⟩ := exists_sign (Text.trim text.toList)
  rw [Numeral.ofText?_eq_bind, minus] at read
  obtain ⟨⟨mantissa, scale⟩, split, read⟩ := Option.bind_eq_some_iff.mp read
  obtain ⟨exponent, unsigned, rfl⟩ := Numeral.exists_exponent split
  obtain ⟨number, rfl, rfl, same, near⟩ := exists_of_ofMantissa? read
  refine ⟨⟨sign, number⟩, ?_, same, near⟩
  rw [parts, unsigned]
  rfl

/-- A sign is neither a point nor the mark of an exponent. -/
theorem mem_signChars {sign : Option Sign} {c : Char} (member : c ∈ signChars sign) :
    decide (c = '.') = false ∧ Numeral.isExponentMark c = false := by
  rcases sign with _ | sign
  · cases member
  · rw [List.mem_singleton.mp member]
    cases sign <;> decide

theorem mantissa_plain (signed : SignedText) :
    ∀ c ∈ signChars signed.sign ++ signed.number.mantissa, Numeral.isExponentMark c = false := by
  intro c member
  rcases List.mem_append.mp member with sign | mantissa
  · exact (mem_signChars sign).2
  · rcases signed.number.mem_mantissa mantissa with digit | rfl
    · exact isExponentMark_of_isDigit digit
    · rfl

theorem whole_plain (signed : SignedText) :
    ∀ c ∈ signChars signed.sign ++ signed.number.whole, decide (c = '.') = false := by
  intro c member
  rcases List.mem_append.mp member with sign | whole
  · exact (mem_signChars sign).1
  · exact decide_eq_false
      (ne_of_isDigit (List.all_eq_true.mp signed.number.wholeDigits c whole) rfl)

/-- The scan finds the mantissa of a signed number, with its sign. -/
theorem splitFirst?_mark :
    (Text.splitFirst? Numeral.isExponentMark signed.chars).elim signed.chars Prod.fst =
      signChars signed.sign ++ signed.number.mantissa := by
  have plain := signed.mantissa_plain
  unfold chars NumberText.chars
  rw [← List.append_assoc]
  cases signed.number.exponent with
  | none => rw [Option.elim_none, List.append_nil, splitFirst?_of_none plain]; rfl
  | some exponent =>
    have found := splitFirst?_append plain exponent.isMark exponent.tail
    rw [show exponent.mark :: exponent.tail = exponent.chars from rfl] at found
    rw [Option.elim_some, found]
    rfl

/-- **The scan of a text counts the fractional digits of the number.** -/
theorem writtenDecimals_eq {text : String} (spelled : Text.trim text.toList = signed.chars) :
    writtenDecimals text = signed.places := by
  have plain := signed.whole_plain
  unfold writtenDecimals places
  simp only [spelled, splitFirst?_mark]
  unfold NumberText.mantissa
  have digits := List.all_eq_true.mp signed.number.fractionDigits
  rw [← List.append_assoc]
  cases written : signed.number.fraction with
  | none => rw [Option.elim_none, List.append_nil, splitFirst?_of_none plain]; rfl
  | some fraction =>
    rw [written] at digits
    rw [Option.elim_some, splitFirst?_append plain (show decide ('.' = '.') = true from rfl)]
    exact congrArg List.length (List.takeWhile_eq_self_iff.mpr digits)

/-! ### Digits -/

theorem digitsValue_dropWhile_zero (digits : List Char) :
    digitsValue (digits.dropWhile (· = '0')) = digitsValue digits := by
  induction digits with
  | nil => rfl
  | cons c rest ih =>
    rw [List.dropWhile_cons]
    split
    · next zero =>
      have nothing : digitValue '0' = 0 := rfl
      rw [ih, of_decide_eq_true zero, digitsValue_cons, nothing, Nat.zero_mul, Nat.zero_add]
    · rfl

/-- **The significant digits of a number bound its mantissa.** -/
theorem natAbs_mantissa_lt (signed : SignedText) :
    signed.numeral.mantissa.natAbs < 10 ^ signed.significant := by
  have size : signed.numeral.mantissa.natAbs = digitsValue signed.number.digits := by
    unfold numeral
    dsimp only
    split
    · rw [Int.natAbs_neg, Int.natAbs_natCast]
    · rw [Int.natAbs_natCast]
  have kept : ∀ c ∈ signed.number.digits.dropWhile (· = '0'), isDigit c := fun c member =>
    signed.number.isDigit_of_mem_digits (List.dropWhile_subset _ member)
  rw [size, ← digitsValue_dropWhile_zero]
  exact lt_of_lt_of_le (digitsValue_lt kept)
    (Nat.pow_le_pow_right (by decide) (Nat.le_max_right _ _))

end SignedText

end Reckoner
