/-
Arithmetic on numbers, rounded into a context, with its violations of domain and range.

* `DomainError` — why an operation has no result, and what is said about it.
* `Number.checked` — the range of results: a value of magnitude above `maxMagnitude` is an
  overflow, and one below `-maxMagnitude` becomes zero.
* `Number.add`, `sub`, `mul`, `div`, `rem`, `sqrt`.
-/

import Reckoner.Number.Decimal

namespace Reckoner

/-- Mathematical reasons for which an operation has no result. -/
inductive DomainError where
  | divisionByZero
  /-- The function has no value at the described argument. -/
  | undefined (function : String) (argument : String)
  /-- The described value is no finite number. -/
  | notFinite (value : String)
  /-- The result of the function leaves the range of numbers. -/
  | overflow (function : String)
deriving DecidableEq

/-- The message for a violation of domain. -/
def DomainError.message : DomainError → String
  | divisionByZero => "division by zero"
  | undefined function argument => s!"{function} is undefined for {argument}"
  | notFinite value => s!"{value} is not a finite number"
  | overflow function => s!"result of {function} is too large"

namespace Number

/-- Keeps the result of `function` inside the range of magnitudes. -/
def checked (x : Number) (function : String) : Except DomainError Number :=
  if maxMagnitude < x.magnitude then .error (.overflow function)
  else if x.magnitude < -maxMagnitude then .ok zero
  else .ok x

def add (x y : Number) (ctx : Context) : Number :=
  ⟨x.value.sum ctx.rounding ctx.bits y.value, ctx.bits⟩

def sub (x y : Number) (ctx : Context) : Number :=
  ⟨x.value.sum ctx.rounding ctx.bits (-y.value), ctx.bits⟩

def mul (x y : Number) (ctx : Context) : Except DomainError Number :=
  checked ⟨x.value.product ctx.rounding ctx.bits y.value, ctx.bits⟩ "multiplication"

def div (x y : Number) (ctx : Context) : Except DomainError Number :=
  if y.isZero then .error .divisionByZero
  else checked ⟨x.value.quotient ctx.rounding ctx.bits y.value, ctx.bits⟩ "division"

/-- Exponents of operands further apart than this have no remainder. -/
def maxRemainderShift : Nat := 2 * maxMagnitude

/-- The remainder of the truncated quotient, computed exactly and rounded once. It has the sign of
`x`. -/
def rem (x y : Number) (ctx : Context) : Except DomainError Number :=
  if y.isZero then .error .divisionByZero
  else if x.value.abs < y.value.abs then .ok (x.roundTo ctx)
  else if maxRemainderShift < (x.value.exponent - y.value.exponent).natAbs then
    .error (.overflow "rem")
  else .ok ⟨(x.value.remainder y.value).cut ctx.rounding ctx.bits, ctx.bits⟩

/-- The square root; that of zero is exact. -/
def sqrt (x : Number) (ctx : Context) : Except DomainError Number :=
  if x.isNegative then .error (.undefined "sqrt" x.display)
  else if x.isZero then .ok zero
  else .ok ⟨x.value.squareRoot ctx.rounding ctx.bits, ctx.bits⟩

end Number

end Reckoner
