/-
Elementary functions by series, summed to nearest at a precision above that of the result.

A series ends with the first term below `2 ^ (-bits)`, whatever the size of its sum. So a result is
close to the exact value in absolute terms, and to the last bit if it is not small.

* `Work.add`, `sub`, `mul`, `div`, `sqrt`, `expM1`, `ln` — arithmetic at the working precision.
* `AlternatingSeries`, `Work.sumFrom` — series whose terms alternate in sign.
* `Work.pi`, `sine`, `cosine`, `arcTangent` — what is summed.
* `Work.reduce` — an argument less whole turns.
-/

import Reckoner.Number.Series

namespace Reckoner

/-- A precision at which intermediate results are rounded to nearest. -/
structure Work where
  bits : Nat

namespace Work

/-! ### Arithmetic -/

section Arithmetic

variable (work : Work)

/-- An integer. -/
def int (n : Int) : Dyadic := (Dyadic.scaled n 0).cut .nearest work.bits

def add (a b : Dyadic) : Dyadic := a.sum .nearest work.bits b

def sub (a b : Dyadic) : Dyadic := a.sum .nearest work.bits (-b)

def mul (a b : Dyadic) : Dyadic := a.product .nearest work.bits b

/-- The quotient by a value other than zero. -/
def div (a b : Dyadic) : Dyadic := a.quotient .nearest work.bits b

/-- The quotient by an integer other than zero. -/
def divInt (a : Dyadic) (n : Int) : Dyadic := work.div a (work.int n)

/-- The square root of a value that is not below zero. -/
def sqrt (a : Dyadic) : Dyadic := if a = 0 then 0 else a.squareRoot .nearest work.bits

def expM1 (a : Dyadic) : Dyadic := a.expM1 .nearest work.bits

/-- The natural logarithm of a positive value. -/
def ln (a : Dyadic) : Dyadic := a.ln .nearest work.bits

/-- Whether a term is too small to be added. -/
def negligible (term : Dyadic) : Bool := term.abs < .scaled 1 (-work.bits)

end Arithmetic

end Work

/-! ### Series -/

/-- A series of terms with alternating signs, made of the powers of something. The `k`-th power
follows from the one before. -/
structure AlternatingSeries where
  power : (k : Nat) → (before : Dyadic) → Dyadic
  term : (k : Nat) → (power : Dyadic) → Dyadic

namespace Work

/-- Adds the terms of a series from the `k`-th one on to `sum`, until one is negligible. -/
def sumFrom (work : Work) (series : AlternatingSeries) (k : Nat) (before sum : Dyadic) : Dyadic :=
  let power := series.power k before
  let term := series.term k power
  if work.negligible term then sum
  else
    let next := if k % 2 = 1 then work.sub sum term else work.add sum term
    work |>.sumFrom series (k + 1) power next
partial_fixpoint

section Series

variable (work : Work)

/-- The arc tangent of `1 / n`, without its first term. -/
def reciprocals (n : Nat) : AlternatingSeries where
  power _ before := work.divInt before (n * n : Nat)
  term k power := work.divInt power (2 * k + 1 : Nat)

/-- The arc tangent of `1 / n`. -/
def arcTangentInverse (n : Nat) : Dyadic :=
  let first := work.divInt (work.int 1) n
  work.sumFrom (work.reciprocals n) 1 first first

/-- The ratio of circumference and diameter. -/
def pi : Dyadic :=
  work.sub (work.mul (work.int 16) (work.arcTangentInverse 5))
    (work.mul (work.int 4) (work.arcTangentInverse 239))

/-- Half the ratio of circumference and diameter. -/
def halfPi : Dyadic := work.divInt work.pi 2

/-- Powers of a value over factorials: the `k`-th one is divided by `divisor k`. -/
def overFactorials (square : Dyadic) (divisor : Nat → Nat) : AlternatingSeries where
  power k before := work.divInt (work.mul before square) (divisor k)
  term _ power := power

/-- The sine of a value between `-π` and `π`. -/
def sine (x : Dyadic) : Dyadic :=
  let series := work.overFactorials (work.mul x x) fun k => (2 * k) * (2 * k + 1)
  work.sumFrom series 1 x x

/-- The cosine of a value between `-π` and `π`. -/
def cosine (x : Dyadic) : Dyadic :=
  let series := work.overFactorials (work.mul x x) fun k => (2 * k - 1) * (2 * k)
  work.sumFrom series 1 (work.int 1) (work.int 1)

/-- The odd powers of a value over odd numbers. -/
def overOdds (square : Dyadic) : AlternatingSeries where
  power _ before := work.mul before square
  term k power := work.divInt power (2 * k + 1 : Nat)

/-- `a / (1 + sqrt (1 + a ^ 2))`, the tangent of half the angle, several times over. -/
def halveAngle : (times : Nat) → Dyadic → Dyadic
  | 0, a => a
  | times + 1, a =>
    let root := work.sqrt (work.add (work.int 1) (work.mul a a))
    halveAngle times (work.div a (work.add (work.int 1) root))

/-- How often an angle is halved before its series is summed. -/
def halvings : Nat := 3

/-- The arc tangent. Beyond one it is that of the reciprocal, taken from a quarter turn. -/
def arcTangent (x : Dyadic) : Dyadic :=
  if x = 0 then 0
  else
    let one := work.int 1
    let inverted : Bool := one < x.abs
    let a := work.halveAngle halvings (if inverted then work.div one x.abs else x.abs)
    let sum := work.sumFrom (work.overOdds (work.mul a a)) 1 a a
    let angle := work.mul sum (work.int (2 ^ halvings : Nat))
    let angle := if inverted then work.sub work.halfPi angle else angle
    if x.isNegative then -angle else angle

end Series

/-- Largest magnitude of an argument that is reduced by turns. -/
def maxReduction : Nat := 4096

/-- An argument less the number of turns that is nearest to it, at a precision with as many bits
more as its integer part has; none for arguments that are too large. -/
def reduce (work : Work) (x : Dyadic) : Option (Work × Dyadic) :=
  if maxReduction < x.magnitude then none
  else
    let wide : Work := ⟨work.bits + x.magnitude.toNat⟩
    let turn := wide.mul (wide.int 2) wide.pi
    let turns := (wide.div x turn).roundHalfAway
    some (wide, wide.sub x (wide.mul (.scaled turns 0) turn))

end Work

end Reckoner
