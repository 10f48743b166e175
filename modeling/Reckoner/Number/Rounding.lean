/-
Directions of rounding, and the rounding of an integer that stands for a value it only approximates.

* `Rounding` — the five directions, with their names and a lenient reader for them.
* `Rest` — what an integer approximation leaves out: nothing, or a proper fraction of known sign
  whose size is known against one half.
* `Rounding.round` — the integer that a direction chooses for `h` plus a rest. It is `h` or the
  neighbour of `h` on the side of the rest.
-/

import Reckoner.Text.Blank

namespace Reckoner

/-- Powers of natural numbers are core's own, whatever other powers are in scope. -/
@[default_instance 30000]
instance powNat : Pow Nat Nat := instPowNat

/-- Powers of integers are core's own, whatever other powers are in scope. -/
@[default_instance 20000]
instance powInt : Pow Int Nat := instPowNat

/-- Direction in which inexact results are rounded. -/
inductive Rounding where
  | nearest
  | towardZero
  | up
  | down
  | awayFromZero
deriving DecidableEq

namespace Rounding

/-- Every direction, in the order in which they are listed to the user. -/
def all : List Rounding := [nearest, towardZero, up, down, awayFromZero]

/-- The written name of a direction. -/
def name : Rounding → String
  | nearest => "nearest"
  | towardZero => "toward_zero"
  | up => "up"
  | down => "down"
  | awayFromZero => "away_from_zero"

/-- The direction with exactly this name. -/
def ofName? (text : String) : Option Rounding := all.find? (·.name = text)

/-- Reads a name without regard to surrounding blanks, ASCII case, or hyphens for underscores. -/
def ofText? (text : String) : Option Rounding :=
  let spelled := (Text.trim text.toList).map fun c => if c = '-' then '_' else c.toLower
  ofName? (String.ofList spelled)

/-- The message for a text that names no direction. -/
def unknownMessage (text : String) : String :=
  let names := String.intercalate ", " (all.map name)
  s!"unknown rounding mode '{text}' (expected one of {names})"

end Rounding

/-- What an integer approximation leaves out. -/
inductive Rest where
  /-- The integer is exact. -/
  | zero
  /-- A proper fraction, below zero if `negative`, of the given size against one half. -/
  | fraction (negative : Bool) (againstHalf : Ordering)
deriving DecidableEq

/-- The rest `r / d`, where `|r| < d`. -/
def Rest.ofRatio (r : Int) (d : Nat) : Rest :=
  if r = 0 then .zero else .fraction (r < 0) (compare (2 * r.natAbs) d)

/-- The integer chosen for `h` plus a rest: `h`, or its neighbour on the side of the rest. -/
def Rounding.round (mode : Rounding) (h : Int) : Rest → Int
  | .zero => h
  | .fraction negative againstHalf =>
    let moves : Bool := match mode with
      | .up => !negative
      | .down => negative
      | .towardZero => if negative then 0 < h else h < 0
      | .awayFromZero => if negative then h ≤ 0 else 0 ≤ h
      | .nearest => match againstHalf with
        | .gt => true
        | .lt => false
        | .eq => h % 2 ≠ 0
    if moves then (if negative then h - 1 else h + 1) else h

end Reckoner
