/-
Decimal text of numbers.

* `naturalDigits` — the decimal digits of a natural number, found by halving the digits.
* `Number.toDecimal` — a number with a fixed count of fractional digits, rounded once.
* `Number.toExactDecimal` — every digit of a number.
* `Number.display` — as many digits as the label of the number supports.
* `Numeral.ofText?`, `Number.fromDecimal` — reading decimal text at a given precision; also at the
  precision that its own digits need, and at that of stored values.
-/

import Reckoner.Number.Basic
import Reckoner.Text.Ascii

namespace Reckoner

/-! ### Precision in bits and in digits -/

/-- The double nearest to the number of bits in a decimal digit. -/
def bitsPerDigit : Dyadic := .scaled 7480317065143153 (-51)

/-- The double nearest to the number of decimal digits in a bit. -/
def digitsPerBit : Dyadic := .scaled 5422874305198591 (-54)

/-- The product of a count and a double, computed in doubles. -/
def timesDouble (count : Nat) (factor : Dyadic) : Dyadic :=
  ((Dyadic.scaled count 0).cut .nearest 53 * factor).cut .nearest 53

/-- Largest count, of 64 bits. -/
def maxCount : Nat := 2 ^ 64 - 1

/-- Bits needed for a number of significant decimal digits, with two to spare. -/
def digitsToBits (digits : Nat) : Nat :=
  min maxCount (timesDouble digits bitsPerDigit).ceil.toNat + 2

/-- Decimal digits that a number of bits carries faithfully. -/
def bitsToDigits (bits : Nat) : Nat := min maxCount (timesDouble bits digitsPerBit).floor.toNat

/-! ### Digits -/

/-- The last `2 ^ k` decimal digits of `n`, zeros included. -/
def paddedDigits : (k : Nat) → (n : Nat) → List Char
  | 0, n => [digitChar n]
  | k + 1, n =>
    let unit := 10 ^ 2 ^ k
    paddedDigits k (n / unit) ++ paddedDigits k (n % unit)

/-- The decimal digits of `n < 10 ^ 2 ^ k` without leading zeros; none for zero. -/
def significantDigits : (k : Nat) → (n : Nat) → List Char
  | 0, n => if n = 0 then [] else [digitChar n]
  | k + 1, n =>
    let unit := 10 ^ 2 ^ k
    if n < unit then significantDigits k n
    else significantDigits k (n / unit) ++ paddedDigits k (n % unit)

/-- The decimal digits of `n`, with a single zero for zero. -/
def naturalDigits (n : Nat) : List Char :=
  if n = 0 then ['0'] else significantDigits (bitLength (bitLength n)) n

/-- The text of `units * 10 ^ (-places)`, with exactly `places` fractional digits. -/
def fixedText (units : Int) (places : Nat) : List Char :=
  let digits := naturalDigits units.natAbs
  let digits := List.replicate (places + 1 - digits.length) '0' ++ digits
  let whole := digits.take (digits.length - places)
  let fraction := digits.drop (digits.length - places)
  (if units < 0 then ['-'] else []) ++ whole ++ (if places = 0 then [] else '.' :: fraction)

/-- A text without the zeros at the end of its fraction, and without a point that ends it. -/
def trimFractionText (text : List Char) : List Char :=
  if text.contains '.' then
    ((text.reverse.dropWhile (· = '0')).dropWhile (· = '.')).reverse
  else text

/-- `trimFractionText` on strings. -/
def trimFraction (text : String) : String := String.ofList (trimFractionText text.toList)

/-! ### Writing numbers -/

/-- Most fractional digits that are ever written. -/
def maxDecimalDigits : Nat := 2 ^ 18

/-- The integer number of units `10 ^ (-places)` that stands for a value. -/
def decimalUnits (x : Dyadic) (places : Nat) (mode : Rounding) : Int :=
  let numerator := x.significand * 10 ^ places * 2 ^ x.exponent.toNat
  let denominator : Nat := 2 ^ (-x.exponent).toNat
  mode.round (numerator.tdiv denominator) (.ofRatio (numerator.tmod denominator) denominator)

namespace Number

/-- The number with exactly `places` fractional digits, at most `maxDecimalDigits`. -/
def toDecimalText (x : Number) (places : Nat) (mode : Rounding) : List Char :=
  let places := min places maxDecimalDigits
  fixedText (decimalUnits x.value places mode) places

/-- `toDecimalText` as a string. -/
def toDecimal (x : Number) (places : Nat) (mode : Rounding) : String :=
  String.ofList (x.toDecimalText places mode)

/-- Every digit of the number: a binary fraction with `k` places has `k` decimal places. -/
def toExactText (x : Number) : List Char :=
  let m := x.value.significand
  let places := (-x.value.exponent).toNat
  trimFractionText (fixedText (m * 2 ^ x.value.exponent.toNat * 5 ^ places) places)

/-- `toExactText` as a string. -/
def toExactDecimal (x : Number) : String := String.ofList x.toExactText

/-- Fractional digits that are worth showing: all of them without a label, otherwise those that the
label supports. -/
def displayPlaces (x : Number) : Nat :=
  let exact := (-x.value.exponent).toNat
  if x.bits = 0 then exact
  else min exact (bitsToDigits x.bits + bitsToDigits (-x.magnitude).toNat + 1)

/-- The text of a number in messages and listings. -/
def display (x : Number) : String :=
  String.ofList (trimFractionText (x.toDecimalText x.displayPlaces .nearest))

end Number

/-! ### Reading numbers -/

/-- Decimal exponents further from zero than this are refused. -/
def maxDecimalExponent : Nat := 100000

/-- Least precision of values read back from stored text. -/
def storedBits : Nat := 1024

/-- A decimal numeral `mantissa * 10 ^ exponent`, and how many significant digits it was written
with. -/
structure Numeral where
  mantissa : Int
  exponent : Int
  digits : Nat
deriving DecidableEq

namespace Numeral

/-- Takes an optional sign off a text, and tells whether it is a minus sign. -/
def splitSign : List Char → Bool × List Char
  | '-' :: rest => (true, rest)
  | '+' :: rest => (false, rest)
  | text => (false, text)

/-- The exponent written after `e`: an optional sign and at least one digit. -/
def readExponent? (text : List Char) : Option Int :=
  let (negative, digits) := splitSign text
  if digits.isEmpty || !digits.all isDigit then none
  else some (if negative then -(digitsValue digits : Int) else digitsValue digits)

/-- Whether a character separates mantissa and exponent. -/
def isExponentMark (c : Char) : Bool := c = 'e' || c = 'E'

/-- Reads an optional sign, digits with an optional fraction, and an optional exponent. -/
def ofText? (text : String) : Option Numeral := do
  let (negative, body) := splitSign (Text.trim text.toList)
  let (body, scale) ← match Text.splitFirst? isExponentMark body with
    | some (body, exponent) => (readExponent? exponent).map fun scale => (body, scale)
    | none => some (body, 0)
  let (whole, fraction) := (Text.splitFirst? (· = '.') body).getD (body, [])
  let digits := whole ++ fraction
  let exponent := scale - fraction.length
  if digits.isEmpty || !digits.all isDigit || maxDecimalExponent < exponent.natAbs then none
  else
    let magnitude := digitsValue digits
    some {
      mantissa := if negative then -(magnitude : Int) else magnitude
      exponent
      digits := max 1 (digits.dropWhile (· = '0')).length }

/-- The value of a numeral, rounded once into a context. -/
def toNumber (numeral : Numeral) (ctx : Context) : Number :=
  let power : Int := 10 ^ numeral.exponent.natAbs
  if 0 ≤ numeral.exponent then
    ⟨(Dyadic.scaled (numeral.mantissa * power) 0).cut ctx.rounding ctx.bits, ctx.bits⟩
  else
    ⟨(Dyadic.scaled numeral.mantissa 0).quotient ctx.rounding ctx.bits (Dyadic.scaled power 0),
      ctx.bits⟩

end Numeral

/-- A text that is no decimal numeral. -/
structure InvalidNumeral where
  text : String
deriving DecidableEq

/-- The message for a text that is no decimal numeral. -/
def InvalidNumeral.message (error : InvalidNumeral) : String :=
  s!"'{error.text}' is not a valid decimal number"

namespace Number

/-- Reads decimal text at the precision that its digits ask for. -/
def readAt (bits : Numeral → Nat) (text : String) (mode : Rounding) :
    Except InvalidNumeral Number :=
  match Numeral.ofText? text with
  | none => .error ⟨text⟩
  | some numeral => .ok (numeral.toNumber (.ofBits (bits numeral) mode))

/-- Reads decimal text and rounds it once to `bits` of precision. -/
def fromDecimal (text : String) (bits : Nat) (mode : Rounding) : Except InvalidNumeral Number :=
  readAt (fun _ => bits) text mode

/-- Reads decimal text at the precision of its significant digits. -/
def fromDecimalAuto (text : String) (mode : Rounding) : Except InvalidNumeral Number :=
  readAt (fun numeral => digitsToBits numeral.digits) text mode

/-- Reads decimal text at the precision of its significant digits, but at least `storedBits`. -/
def fromDecimalStored (text : String) (mode : Rounding) : Except InvalidNumeral Number :=
  readAt (fun numeral => max (digitsToBits numeral.digits) storedBits) text mode

end Number

/-- Number of fractional digits written in a text, whatever its exponent. -/
def writtenDecimals (text : String) : Nat :=
  let trimmed := Text.trim text.toList
  let mantissa := (Text.splitFirst? Numeral.isExponentMark trimmed).elim trimmed Prod.fst
  match Text.splitFirst? (· = '.') mantissa with
  | some (_, fraction) => (fraction.takeWhile isDigit).length
  | none => 0

end Reckoner
