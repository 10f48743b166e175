/-
Numbers with a precision label, and the precision that a computation asks for.

* `Number` — a dyadic value with the number of bits it was computed at. The label takes part in no
  comparison of values; it decides when rounding to a precision cuts and how many digits are shown.
* `Context` — the precision and direction of rounding of a result. The precision always lies
  between two bits and `2 ^ 20` bits.
-/

import Reckoner.Number.Dyadic

namespace Reckoner

/-- Smallest precision of a context. -/
def minPrecision : Nat := 2

/-- Largest precision of a context. -/
def maxPrecision : Nat := 2 ^ 20

/-- Precision used when nothing else is configured. -/
def defaultPrecision : Nat := 128

/-- Results stay below `2 ^ maxMagnitude`, and those under `2 ^ (-maxMagnitude)` become zero. -/
def maxMagnitude : Nat := 2 ^ 20

/-- Precision and direction of rounding of a result. -/
structure Context where
  bits : Nat
  rounding : Rounding
  minPrecision_le : minPrecision ≤ bits
  le_maxPrecision : bits ≤ maxPrecision
deriving DecidableEq

namespace Context

/-- The context with this precision, moved into the allowed range. -/
def ofBits (bits : Nat) (rounding : Rounding) : Context where
  bits := max minPrecision (min bits maxPrecision)
  rounding := rounding
  minPrecision_le := Nat.le_max_left _ _
  le_maxPrecision := Nat.max_le.mpr ⟨by decide, Nat.min_le_right _ _⟩

/-- The same direction at another precision. -/
def withBits (ctx : Context) (bits : Nat) : Context := ofBits bits ctx.rounding

/-- The same precision in another direction. -/
def withRounding (ctx : Context) (rounding : Rounding) : Context := { ctx with rounding }

/-- 128 bits to nearest. -/
def standard : Context := ofBits defaultPrecision .nearest

end Context

/-- A dyadic value and the precision it was computed at. -/
structure Number where
  value : Dyadic
  bits : Nat
deriving DecidableEq

namespace Number

/-- Zero, exact at any precision. -/
def zero : Number := ⟨0, 0⟩

/-- One, exact at any precision. -/
def one : Number := ⟨1, 0⟩

/-- Whether two numbers have the same value, whatever their labels. -/
def same (x y : Number) : Bool := x.value = y.value

/-- The number without its label. -/
def unlabelled (x : Number) : Number := { x with bits := 0 }

/-- Order by value. -/
def order (x y : Number) : Ordering := x.value.order y.value

def isZero (x : Number) : Bool := x.value = 0

def isNegative (x : Number) : Bool := x.value.isNegative

def isInteger (x : Number) : Bool := x.value.isInteger

/-- The `g` with `2 ^ (g - 1) ≤ |x| < 2 ^ g`; zero for zero. -/
def magnitude (x : Number) : Int := x.value.magnitude

/-- An integer rounded into a context. -/
def ofInt (n : Int) (ctx : Context) : Number :=
  ⟨(Dyadic.scaled n 0).cut ctx.rounding ctx.bits, ctx.bits⟩

/-- The number rounded into a context. Only a label above the precision makes it cut. -/
def roundTo (x : Number) (ctx : Context) : Number :=
  ⟨if ctx.bits < x.bits then x.value.cut ctx.rounding ctx.bits else x.value, ctx.bits⟩

def negate (x : Number) : Number := { x with value := -x.value }

def abs (x : Number) : Number := { x with value := x.value.abs }

/-- The smaller of two numbers, the first when they are equal. -/
def smaller (x y : Number) : Number := if y.value < x.value then y else x

/-- The larger of two numbers, the first when they are equal. -/
def larger (x y : Number) : Number := if x.value < y.value then y else x

/-! ### Integer parts

An integer is unchanged. A value so small that its integer part is plain has an exact result
without label; otherwise the label loses the bits of the fraction. -/

/-- The integer part `part`, with the constant `tiny` for values below `2 ^ (-threshold)`. -/
def integerPart (x : Number) (threshold : Nat) (tiny : Int) (part : Dyadic → Int) : Number :=
  if 0 ≤ x.value.exponent then x
  else if x.magnitude < -threshold then ⟨Dyadic.scaled tiny 0, 0⟩
  else ⟨Dyadic.scaled (part x.value) 0, x.bits - (-x.value.exponent).toNat⟩

/-- Largest integer that is not greater than the number. -/
def floor (x : Number) : Number := x.integerPart 1 (if x.isNegative then -1 else 0) Dyadic.floor

/-- Smallest integer that is not less than the number. -/
def ceil (x : Number) : Number := x.integerPart 1 (if x.isNegative then 0 else 1) Dyadic.ceil

/-- Nearest integer, halves away from zero. -/
def round (x : Number) : Number := x.integerPart 2 0 Dyadic.roundHalfAway

/-- Integer part toward zero. -/
def trunc (x : Number) : Number := x.integerPart 1 0 Dyadic.trunc

end Number

end Reckoner
