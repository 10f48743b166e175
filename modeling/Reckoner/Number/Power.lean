/-
Powers of numbers, with integer and with dyadic exponents.

* `Dyadic.root?` — a root of degree `2 ^ k` that is dyadic.
* `Number.exactPower?` — a power that is dyadic and short enough to be written out. A longer power
  has too many significant bits to lie on a boundary of rounding, and so has one that is not dyadic.
* `Number.pow` — the power, rounded once.
-/

import Reckoner.Number.Elementary

namespace Dyadic

open Reckoner

/-- The root of degree `2 ^ k` of a positive value, if it is dyadic. -/
def root? : (k : Nat) → Dyadic → Option Dyadic
  | 0, x => some x
  | k + 1, x =>
    let m := x.significand.natAbs
    let root := integerSqrt m
    if x.exponent % 2 = 0 && root * root = m then root? k (scaled root (x.exponent / 2))
    else none

end Dyadic

namespace Reckoner

namespace Number

/-- The ball of `y` times a ball at scale `v`, at scale `w`. -/
def timesDyadic (v w : Nat) (a : Ball) (y : Dyadic) : Ball :=
  let shift : Int := v - w - y.exponent
  (a.scale (y.significand * 2 ^ (-shift).toNat)).coarsen shift.toNat

/-- An approximation of `|x| ^ y`, of the given sign, for `x` other than zero. -/
def powEnclosure (negative : Bool) (x y : Dyadic) (w : Nat) : Enclosure :=
  let v := w + y.magnitude.toNat + 4
  let (ball, k) := expBall w (timesDyadic v w (lnBall v x.abs) y)
  .ofBall (if negative then ball.neg else ball) (k - w)

/-- The power `x ^ n` for an integer `n`, if it is dyadic and has few enough bits. -/
def exactPower? (ctx : Context) (x : Dyadic) (n : Int) : Option Dyadic :=
  if x.length = 1 then
    some (.scaled (if n % 2 = 0 then 1 else x.significand) (x.exponent * n))
  else if 0 ≤ n && n.toNat * x.length ≤ 2 * ctx.bits + 2 ^ 16 then some (x ^ n.toNat)
  else none

/-- Scale at which the approximation of a power of `x` starts. -/
def powerScale (ctx : Context) (x : Dyadic) : Nat := startScale ctx.bits (x.abs - 1)

/-- The power `x ^ n` for an integer `n` and `x` other than zero. -/
def integerPower (ctx : Context) (x : Dyadic) (n : Int) : Dyadic :=
  match exactPower? ctx x n with
  | some power => power.cut ctx.rounding ctx.bits
  | none =>
    let negative := x.isNegative && n % 2 ≠ 0
    settle ctx.rounding ctx.bits (powerScale ctx x) (powEnclosure negative x (.scaled n 0))

/-- The power `x ^ y` for `x` other than zero, where `x` is positive or `y` an integer. -/
def powerOf (ctx : Context) (x y : Dyadic) : Number :=
  let power := match x.root? (-y.exponent).toNat with
    | some root => integerPower ctx root (y.significand * 2 ^ y.exponent.toNat)
    | none => settle ctx.rounding ctx.bits (powerScale ctx x) (powEnclosure false x y)
  ⟨power, ctx.bits⟩

/-- Bits by which the precision that a power is sized with is above that of its base and result. -/
def sizeGuardBits : Nat := 64

/-- The logarithm to base two of the size of `x ^ y`, for `x` other than zero, and the largest that
is computed. -/
def powerSize (x y : Number) (ctx : Context) : Dyadic × Dyadic :=
  let work : Work := ⟨max x.bits ctx.bits + sizeGuardBits⟩
  let log := work.div (work.ln x.value.abs) (work.ln (work.int 2))
  (work.mul log y.value, work.int (maxMagnitude + 1))

/-- The power. A negative number has powers with integer exponents only. -/
def pow (x y : Number) (ctx : Context) : Except DomainError Number :=
  if x.isZero then
    if y.isNegative then .error .divisionByZero
    else if y.isZero then .ok one
    else .ok zero
  else if x.isNegative && !y.isInteger then
    .error (.undefined "pow" ("a negative base with exponent " ++ y.display))
  else if x.value = 1 || y.isZero then .ok one
  else
    let (size, limit) := powerSize x y ctx
    if limit < size then .error (.overflow "pow")
    else if size < -limit then .ok zero
    else checked (powerOf ctx x.value y.value) "pow"

end Number

end Reckoner
