/-
Elementary functions of numbers.

The exponential and the natural logarithm are the exact value, rounded once into the context. All
others are computed at a working precision with guard bits and then rounded into the context.

* `Number.exp`, `ln`, `log10`, `log2` — with the range of the exponential (`exceedsExpLimit`).
* `Number.sin`, `cos`, `tan` — undefined for arguments too large to be reduced; the tangent also
  where the cosine is within a few units in the last place of the argument.
* `Number.asin`, `acos`, `atan`, `sinh`, `cosh`, `tanh`, `pi`, `e`.
-/

import Reckoner.Number.Arithmetic
import Reckoner.Number.Work

namespace Reckoner

namespace Work

/-- Bits by which the working precision is above that of the result. -/
def guardBits : Nat := 32

/-- The working precision for results in a context. -/
def forContext (ctx : Context) : Work := ⟨ctx.bits + guardBits⟩

/-- A result of the working precision, rounded into a context. -/
def finish (value : Dyadic) (ctx : Context) : Number := ⟨value.cut ctx.rounding ctx.bits, ctx.bits⟩

end Work

namespace Number

/-- The error of a function that is undefined at `x`. -/
def undefinedAt {α : Type} (function : String) (x : Number) : Except DomainError α :=
  .error (.undefined function x.display)

/-! ### Constants -/

/-- The ratio of circumference and diameter. -/
def pi (ctx : Context) : Number := Work.finish (Work.forContext ctx).pi ctx

/-- The base of the natural logarithm. -/
def e (ctx : Context) : Number :=
  let work := Work.forContext ctx
  let one := work.int 1
  Work.finish (work.add (work.expM1 one) one) ctx

/-! ### Exponential and logarithms -/

/-- The double nearest to `2 ^ 20` times the logarithm of two. -/
def expLimit : Dyadic := .scaled 6243314768165359 (-33)

/-- Whether the exponential of a number leaves the range of magnitudes. -/
def exceedsExpLimit (x : Number) : Bool :=
  24 < x.magnitude || expLimit < (x.value.cut .nearest 53).abs

/-- The exponential; that of zero is exact. -/
def exp (x : Number) (ctx : Context) : Except DomainError Number :=
  if x.exceedsExpLimit then
    if x.isNegative then .ok zero else .error (.overflow "exp")
  else if x.isZero then .ok one
  else checked ⟨x.value.exp ctx.rounding ctx.bits, ctx.bits⟩ "exp"

/-- The natural logarithm; that of one is exact. -/
def ln (x : Number) (ctx : Context) : Except DomainError Number :=
  if x.isZero || x.isNegative then undefinedAt "ln" x
  else if x.value = 1 then .ok zero
  else .ok ⟨x.value.ln ctx.rounding ctx.bits, ctx.bits⟩

/-- The logarithm to a base. -/
def logBase (base : Nat) (function : String) (x : Number) (ctx : Context) :
    Except DomainError Number :=
  if x.isZero || x.isNegative then undefinedAt function x
  else
    let work := Work.forContext ctx
    .ok (Work.finish (work.div (work.ln x.value) (work.ln (work.int base))) ctx)

/-- The logarithm to base ten. -/
def log10 : Number → Context → Except DomainError Number := logBase 10 "log10"

/-- The logarithm to base two. -/
def log2 : Number → Context → Except DomainError Number := logBase 2 "log2"

/-! ### Circular functions -/

/-- The working precision and the argument of a circular function, if it can be reduced. -/
def reduced (function : String) (x : Number) (ctx : Context) : Except DomainError (Work × Dyadic) :=
  match (Work.forContext ctx).reduce x.value with
  | some reduction => .ok reduction
  | none => undefinedAt function x

/-- The sine. -/
def sin (x : Number) (ctx : Context) : Except DomainError Number := do
  let (work, angle) ← reduced "sin" x ctx
  pure (Work.finish (work.sine angle) ctx)

/-- The cosine. -/
def cos (x : Number) (ctx : Context) : Except DomainError Number := do
  let (work, angle) ← reduced "cos" x ctx
  pure (Work.finish (work.cosine angle) ctx)

/-- The tangent. A cosine within a few units in the last place of the argument means that the
argument is a pole, rounded into the context. -/
def tan (x : Number) (ctx : Context) : Except DomainError Number := do
  let (work, angle) ← reduced "tan" x ctx
  let cosine := work.cosine angle
  if cosine.abs < .scaled 1 (max x.magnitude 1 + 2 - ctx.bits) then undefinedAt "tan" x
  else pure (Work.finish (work.div (work.sine angle) cosine) ctx)

/-- The arc tangent. -/
def atan (x : Number) (ctx : Context) : Number :=
  Work.finish ((Work.forContext ctx).arcTangent x.value) ctx

/-- The arc sine at a working precision, for the function that needs it. -/
def arcSine (work : Work) (function : String) (x : Number) : Except DomainError Dyadic :=
  let one := work.int 1
  if one < x.value.abs then undefinedAt function x
  else if x.value.abs = one then .ok (if x.isNegative then -work.halfPi else work.halfPi)
  else
    let cosine := work.sqrt (work.sub one (work.mul x.value x.value))
    .ok (work.arcTangent (work.div x.value cosine))

/-- The arc sine. -/
def asin (x : Number) (ctx : Context) : Except DomainError Number := do
  let angle ← arcSine (.forContext ctx) "asin" x
  pure (Work.finish angle ctx)

/-- The arc cosine. -/
def acos (x : Number) (ctx : Context) : Except DomainError Number := do
  let work := Work.forContext ctx
  let angle ← arcSine work "acos" x
  pure (Work.finish (work.sub work.halfPi angle) ctx)

/-! ### Hyperbolic functions -/

/-- The exponentials of a number and of its negative, each less one. -/
def exponentials (work : Work) (x : Number) : Dyadic × Dyadic :=
  (work.expM1 x.value, work.expM1 (-x.value))

/-- The hyperbolic sine. -/
def sinh (x : Number) (ctx : Context) : Except DomainError Number :=
  if x.exceedsExpLimit then .error (.overflow "sinh")
  else
    let work := Work.forContext ctx
    let (up, down) := exponentials work x
    checked (Work.finish (work.divInt (work.sub up down) 2) ctx) "sinh"

/-- The hyperbolic cosine. -/
def cosh (x : Number) (ctx : Context) : Except DomainError Number :=
  if x.exceedsExpLimit then .error (.overflow "cosh")
  else
    let work := Work.forContext ctx
    let (up, down) := exponentials work x
    let sum := work.add (work.add up down) (work.int 2)
    checked (Work.finish (work.divInt sum 2) ctx) "cosh"

/-- The hyperbolic tangent. -/
def tanh (x : Number) (ctx : Context) : Number :=
  if x.exceedsExpLimit then ofInt (if x.isNegative then -1 else 1) ctx
  else
    let work := Work.forContext ctx
    let (up, down) := exponentials work x
    let sum := work.add (work.add up down) (work.int 2)
    Work.finish (work.div (work.sub up down) sum) ctx

end Number

end Reckoner
