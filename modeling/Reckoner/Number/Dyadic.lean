/-
Dyadic rationals as an odd significand times a power of two, and their rounding.

Every finite binary number is a dyadic rational `m * 2 ^ e`. Core's type keeps `m` odd, so equal
values are equal terms; this module reads significand and exponent off it and adds the operations
that round.

* `Dyadic.scaled m e` — the value `m * 2 ^ e` for any integer `m` (`toRat_scaled`).
* `Dyadic.roundFrom` — an integer number of units plus what it leaves out, rounded at that unit.
* `Dyadic.cut` — the nearest value with at most `p` significant bits, in a given direction.
* `Dyadic.sum`, `product`, `quotient`, `squareRoot`, `remainder` — arithmetic in `p` bits. Each
  rounds in its own fixed way, which is part of what it computes: a difference keeps one bit more,
  and an exact quotient is not cut.
-/

import Reckoner.Number.Rounding

namespace Reckoner

/-- Number of binary digits of `n`; zero has none. -/
def bitLength (n : Nat) : Nat := if n = 0 then 0 else n.log2 + 1

/-! ### Integer square roots -/

/-- Largest `r` with `r * r ≤ n`, found one binary digit at a time; `digits` bounds the binary
digits of the root. -/
def sqrtByDigits : (digits : Nat) → (n : Nat) → Nat
  | 0, _ => 0
  | digits + 1, n =>
    let r := 2 * sqrtByDigits digits (n / 4)
    if (r + 1) * (r + 1) ≤ n then r + 1 else r

/-- Approximates the root of `n`, whose root has `half + 1` binary digits, with twice as many
correct digits after each step. -/
def sqrtCandidate (n half : Nat) : (steps : Nat) → (approx settled : Nat) → Nat
  | 0, approx, _ => approx
  | steps + 1, approx, settled =>
    let next := half >>> steps
    let digits := n >>> (2 * half - settled - next + 1)
    let better := (approx <<< (next - settled - 1)) + digits / approx
    sqrtCandidate n half steps better next

/-- Integer square root: the largest `r` with `r * r ≤ n`. -/
def integerSqrt (n : Nat) : Nat :=
  let half := (bitLength n - 1) / 2
  let candidate := sqrtCandidate n half (bitLength half) 1 0
  let root := if n < candidate * candidate then candidate - 1 else candidate
  if root * root ≤ n ∧ n < (root + 1) * (root + 1) then root
  else sqrtByDigits (bitLength n) n

end Reckoner

namespace Dyadic

open Reckoner

/-! ### Significand and exponent -/

/-- The odd `m` of a value `m * 2 ^ e`; zero for zero. -/
def significand : Dyadic → Int
  | .zero => 0
  | .ofOdd n _ _ => n

/-- The `e` of a value `m * 2 ^ e` with `m` odd; zero for zero. -/
def exponent : Dyadic → Int
  | .zero => 0
  | .ofOdd _ k _ => -k

/-- Number of binary digits of the significand. -/
def length (x : Dyadic) : Nat := bitLength x.significand.natAbs

/-- The `g` with `2 ^ (g - 1) ≤ |x| < 2 ^ g`; zero for zero. -/
def magnitude (x : Dyadic) : Int := x.length + x.exponent

/-- Whether the value is below zero. -/
def isNegative (x : Dyadic) : Bool := x.significand < 0

/-- Whether the value is an integer. -/
def isInteger (x : Dyadic) : Bool := 0 ≤ x.exponent

/-- The absolute value. -/
def abs (x : Dyadic) : Dyadic := if x.isNegative then -x else x

/-- The value `m * 2 ^ e`, with all factors of two of `m` moved into the exponent at once. -/
def scaled (m e : Int) : Dyadic :=
  let twos := (m.natAbs ^^^ (m.natAbs - 1)).log2
  let odd := m / 2 ^ twos
  if h : odd % 2 = 1 ∧ odd * 2 ^ twos = m then .ofOdd odd (-(e + twos)) h.1
  else .ofIntWithPrec m (-e)

theorem toRat_scaled (m e : Int) : (scaled m e).toRat = m * 2 ^ e := by
  simp only [scaled]
  split
  · next h =>
    rw [toRat_ofOdd_eq_mul_two_pow, Int.neg_neg, Int.add_comm, Rat.zpow_add (by decide),
      ← Rat.mul_assoc]
    congr 1
    have cast := congrArg (Int.cast (R := Rat)) h.2
    rw [← cast, Rat.intCast_mul, Rat.intCast_pow, Rat.zpow_natCast]
    rfl
  · rw [toRat_ofIntWithPrec_eq_mul_two_pow, Int.neg_neg]

/-- Order of two values. -/
def order (x y : Dyadic) : Ordering := if x < y then .lt else if x = y then .eq else .gt

/-! ### Rounding -/

/-- The value counted in units of `2 ^ u`, truncated toward zero. -/
def truncAt (x : Dyadic) (u : Int) : Int :=
  (x.significand * 2 ^ (x.exponent - u).toNat).tdiv (2 ^ (u - x.exponent).toNat)

/-- What is left out by an integer that stands for a count of units `2 ^ u`, given the difference
of the two values. -/
def restAt (difference : Dyadic) (u : Int) : Rest :=
  if difference = 0 then .zero
  else .fraction difference.isNegative (order (scaled 2 0 * difference.abs) (scaled 1 u))

/-- The value `x`, of which `h` counts the units `2 ^ u`, rounded at that unit. -/
def roundFrom (mode : Rounding) (x : Dyadic) (h u : Int) : Dyadic :=
  scaled (mode.round h (restAt (x - scaled h u) u)) u

/-- Rounds to at most `p` significant bits; a value that has no more stays as it is. -/
def cut (mode : Rounding) (p : Nat) (x : Dyadic) : Dyadic :=
  if x.length ≤ p then x
  else
    let u := x.exponent + (x.length - p : Nat)
    roundFrom mode x (x.truncAt u) u

/-! ### Arithmetic in `p` bits -/

/-- The sum. Values of opposite sign with different exponents keep one bit more, and a value far
below the other one only decides the rest of the larger. -/
def sum (mode : Rounding) (p : Nat) (x y : Dyadic) : Dyadic :=
  if x = 0 then y.cut mode p
  else if y = 0 then x.cut mode p
  else if x.exponent = y.exponent ∨ x.isNegative = y.isNegative then (x + y).cut mode p
  else
    let large := if y.exponent < x.exponent then x else y
    let small := if y.exponent < x.exponent then y else x
    if small.magnitude + p < large.magnitude then
      let u := large.magnitude - p - 1
      roundFrom mode (x + y) (large.truncAt u) u
    else (x + y).cut mode (p + 1)

/-- The product, of operands cut to twice the precision. -/
def product (mode : Rounding) (p : Nat) (x y : Dyadic) : Dyadic :=
  (x.cut mode (2 * p) * y.cut mode (2 * p)).cut mode p

/-- The quotient by a nonzero `y`, with `p` or more significant bits. An exact integer quotient of
the significands is kept whole. -/
def quotient (mode : Rounding) (p : Nat) (x y : Dyadic) : Dyadic :=
  let x := x.cut mode (y.length + p)
  let b := y.significand
  let e := x.exponent - y.exponent
  let q := x.significand.tdiv b
  let r := x.significand.tmod b
  if r = 0 then scaled q e
  else
    let shift :=
      if q = 0 then y.length + p - bitLength r.natAbs else p - bitLength q.natAbs
    let r := r * 2 ^ shift
    let rest := Rest.ofRatio (r.tmod b * b.sign) b.natAbs
    scaled (mode.round (q * 2 ^ shift + r.tdiv b) rest) (e - shift)

/-- The square root of a positive value. A root that is exact on the leading bits is taken as it
is. -/
def squareRoot (mode : Rounding) (p : Nat) (x : Dyadic) : Dyadic :=
  let d := x.length
  let shift : Int := 2 * p - (d % 2 : Nat) + x.exponent % 2 - d
  let m := x.significand.natAbs
  let dropped := (-shift).toNat
  let n := if 0 < shift then m * 2 ^ shift.toNat else m / 2 ^ dropped
  let low := m % 2 ^ dropped
  let root := integerSqrt n
  let left := n - root * root
  let rest :=
    if left = 0 then Rest.zero
    else .fraction false ((compare left root).then (compare (4 * low) (2 ^ dropped)))
  (scaled (mode.round root rest) ((x.exponent - shift) / 2)).cut mode p

/-- The remainder of division by a nonzero `y`, with the sign of `x`; it is exact. -/
def remainder (x y : Dyadic) : Dyadic :=
  let e := min x.exponent y.exponent
  scaled ((x.significand * 2 ^ (x.exponent - e).toNat).tmod
    (y.significand * 2 ^ (y.exponent - e).toNat)) e

/-! ### Integer parts -/

/-- The greatest integer that is not above the value. -/
def floor (x : Dyadic) : Int :=
  if 0 ≤ x.exponent then x.significand * 2 ^ x.exponent.toNat
  else x.significand / 2 ^ (-x.exponent).toNat

/-- The least integer that is not below the value. -/
def ceil (x : Dyadic) : Int := -(-x).floor

/-- The integer part toward zero. -/
def trunc (x : Dyadic) : Int := if x.isNegative then x.ceil else x.floor

/-- The nearest integer, halves away from zero. -/
def roundHalfAway (x : Dyadic) : Int :=
  if x.isNegative then (x - scaled 1 (-1)).ceil else (x + scaled 1 (-1)).floor

end Dyadic
