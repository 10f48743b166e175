/-
Arithmetic on balls: an integer midpoint with a radius, both counted in units `2 ^ (-w)`.

A ball stands for a real number that lies within `radius` units of `mid`. Every operation takes the
scale `w`, rounds its midpoint down, and widens the radius by what the rounding and the radii of the
operands can move the result, so that the result again holds the exact one.

* `Ball.add`, `mul`, `divNat` — arithmetic of real numbers on balls.
* `Enclosure.round?` — a ball rounds to a number once both of its ends do.
* `settle` — an approximation at growing scale, until it rounds.
-/

import Reckoner.Number.Dyadic

namespace Reckoner

/-- The reals within `radius` units of `mid` units. -/
structure Ball where
  mid : Int
  radius : Nat

namespace Ball

/-- A dyadic value at scale `w`. -/
def ofDyadic (w : Nat) (x : Dyadic) : Ball := ⟨x.truncAt (-w), 1⟩

/-- The integer `n` at scale `w`. -/
def ofInt (w : Nat) (n : Int) : Ball := ⟨n * 2 ^ w, 0⟩

/-- The quotient of two integers at scale `w`. -/
def ofRatio (w : Nat) (a b : Int) : Ball := ⟨a * 2 ^ w / b, 1⟩

def neg (a : Ball) : Ball := ⟨-a.mid, a.radius⟩

def add (a b : Ball) : Ball := ⟨a.mid + b.mid, a.radius + b.radius⟩

def sub (a b : Ball) : Ball := a.add b.neg

/-- An integer multiple. -/
def scale (n : Int) (a : Ball) : Ball := ⟨n * a.mid, n.natAbs * a.radius⟩

/-- The quotient by a positive integer. -/
def divNat (a : Ball) (n : Nat) : Ball := ⟨a.mid / n, a.radius / n + 2⟩

/-- The ball in units that are `2 ^ k` times as large. -/
def coarsen (k : Nat) (a : Ball) : Ball := ⟨a.mid / 2 ^ k, a.radius / 2 ^ k + 2⟩

def mul (w : Nat) (a b : Ball) : Ball :=
  ⟨a.mid * b.mid / 2 ^ w,
    (a.mid.natAbs * b.radius + b.mid.natAbs * a.radius + a.radius * b.radius) / 2 ^ w + 2⟩

end Ball

/-- Two ends between which a real number lies. -/
structure Enclosure where
  lower : Dyadic
  upper : Dyadic

namespace Enclosure

/-- The ends of a ball in units `2 ^ e`. -/
def ofBall (a : Ball) (e : Int) : Enclosure :=
  ⟨.scaled (a.mid - a.radius) e, .scaled (a.mid + a.radius) e⟩

/-- The enclosure of a real number less one. -/
def minusOne (enclosure : Enclosure) : Enclosure := ⟨enclosure.lower - 1, enclosure.upper - 1⟩

/-- The value with `p` bits that every real of the enclosure rounds to, if both ends agree on one. -/
def round? (enclosure : Enclosure) (mode : Rounding) (p : Nat) : Option Dyadic :=
  let low := enclosure.lower.cut mode p
  if low = enclosure.upper.cut mode p then some low else none

end Enclosure

/-- How often the scale of an approximation is doubled at most. -/
def maxRefinements : Nat := 24

/-- The first value that approximations of doubling scale, starting with `w`, round to; failing that,
zero. -/
def refine (mode : Rounding) (p : Nat) (approximate : Nat → Enclosure) :
    (fuel : Nat) → (w : Nat) → Dyadic
  | 0, _ => 0
  | fuel + 1, w =>
    match (approximate w).round? mode p with
    | some value => value
    | none => refine mode p approximate fuel (2 * w)

/-- The number approximated, rounded once to `p` bits. -/
def settle (mode : Rounding) (p w : Nat) (approximate : Nat → Enclosure) : Dyadic :=
  refine mode p approximate maxRefinements w

end Reckoner
