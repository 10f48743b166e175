/-
The exponential and the logarithm, by series on balls with a bounded remainder.

* `artanhInverse`, `lnTwoBall` — the logarithm of two from series of reciprocals.
* `expBall` — the exponential as a ball and a power of two.
* `lnBall` — the logarithm of a dyadic value.
* `Dyadic.exp`, `Dyadic.expM1`, `Dyadic.ln` — **the exact value, rounded once to `p` bits.**

Each series stops once its terms fall below a unit, after which the remainder is at most two units.
The counts that bound the recursions are never reached: every term gains at least one bit. Where the
value of a function is dyadic it is found by a case of its own, for only such a value can lie on a
boundary of rounding; every other value is approximated at growing scale until it rounds (`settle`).
-/

import Reckoner.Number.Ball

namespace Reckoner

/-! ### The logarithm of two -/

/-- The terms `power / (2 k + 1)` with `power` divided by `n * n` from one to the next, added to
`sum` until they vanish; also how many there were. -/
def reciprocalSeries (n : Nat) : (fuel : Nat) → (k power sum : Nat) → Nat × Nat
  | 0, k, _, sum => (sum, k)
  | fuel + 1, k, power, sum =>
    if power = 0 then (sum, k)
    else reciprocalSeries n fuel (k + 1) (power / (n * n)) (sum + power / (2 * k + 1))

/-- The inverse hyperbolic tangent of `1 / n`; a term is wrong by two units at most. -/
def artanhInverse (w n : Nat) : Ball :=
  let (sum, terms) := reciprocalSeries n (w + 2) 0 (2 ^ w / n) 0
  ⟨sum, 3 * terms + 4⟩

/-- The natural logarithm of two. -/
def lnTwoBall (w : Nat) : Ball :=
  (((artanhInverse (w + 8) 26).scale 18 |>.sub ((artanhInverse (w + 8) 4801).scale 2)).add
    ((artanhInverse (w + 8) 8749).scale 8)).coarsen 8

/-! ### Power series -/

/-- The sum of `sum`, `term` and the terms that follow it, each of which is its predecessor times
`x` divided by `divisor k`, until a term is a unit or two. -/
def powerSeries (w : Nat) (x : Ball) (divisor : Nat → Nat) :
    (fuel : Nat) → (k : Nat) → (term sum : Ball) → Ball
  | 0, _, term, sum => ⟨sum.mid, sum.radius + 2 * (term.mid.natAbs + term.radius) + 2⟩
  | fuel + 1, k, term, sum =>
    if term.mid.natAbs ≤ 2 then ⟨sum.mid, sum.radius + 2 * (term.mid.natAbs + term.radius) + 2⟩
    else
      powerSeries w x divisor fuel (k + 1) ((term.mul w x).divNat (divisor k)) (sum.add term)

/-- The sum of `power / (2 k + 1)` over `k`, with `power` multiplied by `square` from one to the
next, until a power is a unit or two. -/
def oddSeries (w : Nat) (square : Ball) : (fuel : Nat) → (k : Nat) → (power sum : Ball) → Ball
  | 0, _, power, sum => ⟨sum.mid, sum.radius + 2 * (power.mid.natAbs + power.radius) + 2⟩
  | fuel + 1, k, power, sum =>
    if power.mid.natAbs ≤ 2 then
      ⟨sum.mid, sum.radius + 2 * (power.mid.natAbs + power.radius) + 2⟩
    else oddSeries w square fuel (k + 1) (power.mul w square) (sum.add (power.divNat (2 * k + 1)))

/-! ### Exponential and logarithm -/

/-- The square of the square of … of a ball. -/
def squareTimes (w : Nat) : (times : Nat) → Ball → Ball
  | 0, a => a
  | times + 1, a => squareTimes w times (a.mul w a)

/-- A ball less the multiple `k` of the logarithm of two that is nearest to it, and `k`. Nothing is
taken from a ball below one half. -/
def reduceByLnTwo (v : Nat) (x : Ball) : Ball × Int :=
  if x.mid.natAbs < 2 ^ (v - 1) then (x, 0)
  else
    let turns := bitLength (x.mid.natAbs / 2 ^ v) + 2
    let lnTwo := lnTwoBall (v + turns)
    let k := (2 * x.mid * 2 ^ turns + lnTwo.mid) / (2 * lnTwo.mid)
    (x.sub ((lnTwo.scale k).coarsen turns), k)

/-- The exponential of a ball at scale `w`, as a ball at scale `w` and the power of two that
multiplies it. The ball lies between one half and two. A small argument is halved less often. -/
def expBall (w : Nat) (x : Ball) : Ball × Int :=
  let halvings := integerSqrt w / 2 + 1 - (w - bitLength x.mid.natAbs)
  let guard := halvings + 16
  let v := w + guard
  let (reduced, k) := reduceByLnTwo v ⟨x.mid * 2 ^ guard, x.radius * 2 ^ guard⟩
  let one := Ball.ofInt v 1
  let root := powerSeries v (reduced.coarsen halvings) (· + 1) (v + 2) 0 one ⟨0, 0⟩
  ((squareTimes v halvings root).coarsen guard, k)

/-- The logarithm of a positive dyadic value, which is written as a power of two times a value
between three quarters and one and a half. -/
def lnBall (w : Nat) (x : Dyadic) : Ball :=
  let reduced := x >>> x.magnitude
  let low : Bool := reduced < .scaled 3 (-2)
  let k := if low then x.magnitude - 1 else x.magnitude
  let z := x >>> k
  let v := w + 16
  let common := min z.exponent 0
  let numerator := (z - 1).truncAt common
  let denominator := (z + 1).truncAt common
  let t := Ball.ofRatio v numerator denominator
  let series := oddSeries v (t.mul v t) (v + 2) 0 t ⟨0, 0⟩
  let turns := bitLength k.natAbs
  let power := (((lnTwoBall (v + turns)).scale k).coarsen turns)
  ((series.scale 2).add power).coarsen 16

/-! ### Rounded values -/

/-- The enclosure of the exponential of a ball at scale `w`. -/
def expEnclosure (w : Nat) (x : Ball) : Enclosure :=
  let (ball, k) := expBall w x
  .ofBall ball (k - w)

/-- Scale at which the approximation of a result starts that is about as large as `x`. -/
def startScale (p : Nat) (x : Dyadic) : Nat := p + 32 + (-x.magnitude).toNat

end Reckoner

namespace Dyadic

open Reckoner

/-- The exponential. -/
def exp (mode : Rounding) (p : Nat) (x : Dyadic) : Dyadic :=
  if x = 0 then 1 else settle mode p (p + 32) fun w => expEnclosure w (.ofDyadic w x)

/-- The exponential less one. -/
def expM1 (mode : Rounding) (p : Nat) (x : Dyadic) : Dyadic :=
  if x = 0 then 0
  else settle mode p (startScale p x) fun w => (expEnclosure w (.ofDyadic w x)).minusOne

/-- The natural logarithm of a positive value. -/
def ln (mode : Rounding) (p : Nat) (x : Dyadic) : Dyadic :=
  if x = 1 then 0
  else settle mode p (startScale p (x - 1)) fun w => .ofBall (lnBall w x) (-w)

end Dyadic
