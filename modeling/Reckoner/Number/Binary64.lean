/-
Machine doubles as their 64-bit patterns, with exact arithmetic rounded once to nearest even.

* `Binary64` — a bit pattern; every pattern is a double. `magnitude` and `value` read off what it
  denotes.
* `Binary64.ofMagnitude` — the double nearest to a dyadic value, ties to even. Patterns of one sign
  are ordered like their values, so a carry out of the significand moves into the exponent by
  itself, gradual underflow needs no case of its own, and overflow is one comparison.
* `Binary64.add`, `mul`, `div`, `rem` — the arithmetic that scripts use.
* `Binary64.display` — the fewest decimal digits that read back.
* `Number.ofBinary64`, `Number.toBinary64` — the boundary between numbers and doubles.
-/

import Reckoner.Number.Arithmetic

namespace Reckoner

/-- A double, as its bit pattern: a sign bit, eleven bits of exponent and 52 bits of fraction. -/
structure Binary64 where
  bits : BitVec 64
deriving DecidableEq

namespace Binary64

/-! ### Fields and values -/

/-- The pattern of infinity, above which lie those of no number. -/
def infinityPattern : Nat := 2047 * 2 ^ 52

/-- The double of a sign and a pattern of 63 bits. -/
def ofPattern (negative : Bool) (pattern : Nat) : Binary64 :=
  ⟨BitVec.ofNat 64 (if negative then 2 ^ 63 + pattern else pattern)⟩

def nan : Binary64 := ofPattern false (infinityPattern + 2 ^ 51)

def infinity (negative : Bool) : Binary64 := ofPattern negative infinityPattern

def zero (negative : Bool) : Binary64 := ofPattern negative 0

/-- Whether the sign bit is set. -/
def isNegative (d : Binary64) : Bool := 2 ^ 63 ≤ d.bits.toNat

/-- The pattern without its sign bit. -/
def pattern (d : Binary64) : Nat := d.bits.toNat % 2 ^ 63

def exponentField (d : Binary64) : Nat := d.pattern / 2 ^ 52

def fractionField (d : Binary64) : Nat := d.pattern % 2 ^ 52

def isFinite (d : Binary64) : Bool := d.pattern < infinityPattern

def isInfinite (d : Binary64) : Bool := d.pattern = infinityPattern

def isNaN (d : Binary64) : Bool := infinityPattern < d.pattern

def isZero (d : Binary64) : Bool := d.pattern = 0

/-- The integer significand of a finite double, with its leading bit where there is one. -/
def significand (d : Binary64) : Nat :=
  if d.exponentField = 0 then d.fractionField else 2 ^ 52 + d.fractionField

/-- The power of two that the significand of a finite double counts. -/
def unitExponent (d : Binary64) : Int :=
  if d.exponentField = 0 then -1074 else d.exponentField - 1075

/-- The absolute value of a finite double. -/
def magnitude (d : Binary64) : Dyadic := .scaled d.significand d.unitExponent

/-- The value of a finite double. -/
def value (d : Binary64) : Dyadic := if d.isNegative then -d.magnitude else d.magnitude

/-! ### Rounding to doubles -/

/-- The double of the given sign nearest to `x ≥ 0`, ties to even. -/
def ofMagnitude (negative : Bool) (x : Dyadic) : Binary64 :=
  if x = 0 then zero negative
  else
    let u := max (x.magnitude - 53) (-1074)
    let h := x.truncAt u
    let units := Rounding.nearest.round h (Dyadic.restAt (x - .scaled h u) u)
    ofPattern negative (min ((u + 1074).toNat * 2 ^ 52 + units.toNat) infinityPattern)

/-- The double nearest to a value, ties to even; zero is positive. -/
def ofDyadic (x : Dyadic) : Binary64 := ofMagnitude x.isNegative x.abs

/-- A dyadic value on the same side of every double, and of every midpoint of doubles, as the
quotient `a / b`: 64 leading bits, and one more that tells whether anything follows. -/
def stickyQuotient (a b : Nat) : Dyadic :=
  let shift := 64 + bitLength b - bitLength a
  let n := a * 2 ^ shift
  .scaled (2 * (n / b) + (if n % b = 0 then 0 else 1) : Nat) (-(shift : Int) - 1)

/-- The double nearest to a natural number of units `10 ^ exponent`. -/
def ofDecimal (negative : Bool) (n : Nat) (exponent : Int) : Binary64 :=
  ofMagnitude negative
    (if 0 ≤ exponent then .scaled (n * 10 ^ exponent.toNat : Nat) 0
    else stickyQuotient n (10 ^ (-exponent).toNat))

/-- The double nearest to an integer. -/
def ofInt (n : Int) : Binary64 := ofDyadic (.scaled n 0)

/-- Reads a decimal numeral, or one of the words for infinity and for no number. -/
def ofText? (text : String) : Option Binary64 :=
  match text.toLower with
  | "nan" => some nan
  | "inf" => some (infinity false)
  | "-inf" => some (infinity true)
  | _ => (Numeral.ofText? text).map fun numeral =>
    ofDecimal (text.startsWith "-") numeral.mantissa.natAbs numeral.exponent

/-! ### Arithmetic -/

def neg (x : Binary64) : Binary64 := ⟨x.bits ^^^ BitVec.ofNat 64 (2 ^ 63)⟩

def add (x y : Binary64) : Binary64 :=
  if x.isNaN || y.isNaN then nan
  else if x.isInfinite then (if y.isInfinite && x.isNegative != y.isNegative then nan else x)
  else if y.isInfinite then y
  else if x.isZero && y.isZero then zero (x.isNegative && y.isNegative)
  else ofDyadic (x.value + y.value)

def sub (x y : Binary64) : Binary64 := if y.isNaN then nan else x.add y.neg

def mul (x y : Binary64) : Binary64 :=
  let negative := x.isNegative != y.isNegative
  if x.isNaN || y.isNaN then nan
  else if x.isInfinite || y.isInfinite then
    (if x.isZero || y.isZero then nan else infinity negative)
  else ofMagnitude negative (x.magnitude * y.magnitude)

def div (x y : Binary64) : Binary64 :=
  let negative := x.isNegative != y.isNegative
  if x.isNaN || y.isNaN then nan
  else if x.isInfinite then (if y.isInfinite then nan else infinity negative)
  else if y.isInfinite then zero negative
  else if y.isZero then (if x.isZero then nan else infinity negative)
  else ofMagnitude negative
    (stickyQuotient x.significand y.significand <<< (x.unitExponent - y.unitExponent))

/-- The remainder of the truncated quotient, with the sign of `x`. -/
def rem (x y : Binary64) : Binary64 :=
  if x.isNaN || y.isNaN || x.isInfinite || y.isZero then nan
  else if y.isInfinite then x
  else ofMagnitude x.isNegative (x.magnitude.remainder y.magnitude)

/-- Order of two doubles; there is none with no number. -/
def order? (x y : Binary64) : Option Ordering :=
  if x.isNaN || y.isNaN then none
  else
    let rank (d : Binary64) : Int := if d.isNegative then -d.pattern else d.pattern
    some (compare (rank x) (rank y))

/-- The integer part of a finite double. -/
def trunc (x : Binary64) : Int := x.value.trunc

/-! ### Text -/

/-- The hexadecimal digits of the bit pattern, most significant first. -/
def toHex (d : Binary64) : String :=
  let digits := Nat.toDigits 16 d.bits.toNat
  String.ofList (List.replicate (16 - digits.length) '0' ++ digits)

/-- The decimal exponent `e` with `10 ^ (e - 1) ≤ x < 10 ^ e`, searched upward from `low`. -/
def decimalMagnitude (x : Rat) : (steps : Nat) → (low : Int) → Int
  | 0, low => low
  | steps + 1, low => if x < (10 : Rat) ^ low then low else decimalMagnitude x steps (low + 1)

/-- The shortest decimal `c * 10 ^ e` that reads back as the double of magnitude `x`, where the
values from `low` to `high` do; the ends do if `closed`. Tries `count` and more digits. -/
def shortestFrom (x low high : Rat) (closed : Bool) (magnitude : Int) :
    (fuel : Nat) → (count : Nat) → Nat × Int
  | 0, count => ((x / (10 : Rat) ^ (magnitude - count)).floor.toNat, magnitude - count)
  | fuel + 1, count =>
    let unit := (10 : Rat) ^ (magnitude - count)
    let below := (x / unit).floor
    let inside (c : Int) : Bool :=
      let v := c * unit
      if closed then low ≤ v && v ≤ high else low < v && v < high
    let lower : Bool := below ≠ 0 && inside below
    let upper := inside (below + 1)
    let nearer := if x - below * unit ≤ (below + 1) * unit - x then below else below + 1
    if lower && upper then (nearer.toNat, magnitude - count)
    else if lower then (below.toNat, magnitude - count)
    else if upper then ((below + 1).toNat, magnitude - count)
    else shortestFrom x low high closed magnitude fuel (count + 1)

/-- The shortest decimal that reads back as a finite double other than zero, as digits and an
exponent of ten. -/
def shortest (d : Binary64) : Nat × Int :=
  let x := d.magnitude.toRat
  let ulp := (2 : Rat) ^ d.unitExponent
  let below := if d.fractionField = 0 && 1 < d.exponentField then ulp / 4 else ulp / 2
  let closed := d.significand % 2 = 0
  let guess := (d.magnitude.magnitude - 1) * 3 / 10 - 1
  let magnitude := decimalMagnitude x 8 guess
  shortestFrom x (x - below) (x + ulp / 2) closed magnitude 17 1

/-- Positional text with one digit at least on both sides of the point, for values between
`1e-7` and `1e13`; otherwise one digit, a fraction if there are more, and the exponent. -/
def display (d : Binary64) : String :=
  let sign := if d.isNegative then "-" else ""
  if d.isNaN then "NaN"
  else if d.isInfinite then sign ++ "inf"
  else if d.isZero then "0.0"
  else
    let (n, e) := d.shortest
    let digits := (naturalDigits n).reverse.dropWhile (· = '0')
    let e := e + ((naturalDigits n).length - digits.length : Nat)
    let digits := digits.reverse
    let point := digits.length + e
    let x := d.magnitude.toRat
    if x < (10 : Rat) ^ (-7 : Int) || (10 : Rat) ^ (13 : Int) < x then
      let fraction := digits.drop 1
      let fraction := if fraction.isEmpty then [] else '.' :: fraction
      sign ++ String.ofList (digits.take 1 ++ fraction ++ ['e']) ++ toString (point - 1)
    else
      let zeros := List.replicate (-point).toNat '0'
      let padding := List.replicate (point - digits.length).toNat '0'
      let whole := digits.take point.toNat ++ padding
      let fraction := zeros ++ digits.drop point.toNat
      let whole := if whole.isEmpty then ['0'] else whole
      let fraction := if fraction.isEmpty then ['0'] else fraction
      sign ++ String.ofList (whole ++ '.' :: fraction)

/-- The word for a double that is no finite number. -/
def specialName (d : Binary64) : String :=
  if d.isNaN then "NaN" else if d.isNegative then "-inf" else "inf"

end Binary64

namespace Number

/-- The exact value of a double, labelled with the length of its significand. -/
def ofBinary64 (d : Binary64) : Except DomainError Number :=
  if d.isFinite then .ok ⟨d.value, bitLength d.significand⟩
  else .error (.notFinite d.specialName)

/-- The number as a double: rounded to the 53 bits of a significand, then to the grid of doubles,
which is coarser near zero. Both go to nearest, ties to even. -/
def toBinary64 (x : Number) : Binary64 := .ofDyadic (x.value.cut .nearest 53)

end Number

end Reckoner
