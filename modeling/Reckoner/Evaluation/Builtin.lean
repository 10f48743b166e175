/-
Functions and constants that exist without any definition.

* `Arity` — how many arguments a callable accepts.
* `Builtin` — a function by the shape of its arguments, with `Builtin.result?`.
* `Builtin.ofName?`, `constant?` — the built-in function or constant of a name.
-/

import Reckoner.Number.Power

namespace Reckoner

/-- How many arguments a callable accepts. -/
inductive Arity where
  | exactly (count : Nat)
  | atLeast (count : Nat)
deriving DecidableEq

/-- Whether a number of arguments is accepted. -/
def Arity.accepts : Arity → Nat → Bool
  | exactly expected, count => count = expected
  | atLeast least, count => least ≤ count

/-- How messages write an arity. -/
def Arity.text : Arity → String
  | exactly count => toString count
  | atLeast count => s!"at least {count}"

/-- A built-in function, by the shape of its arguments. -/
inductive Builtin where
  | unary (apply : Number → Context → Except DomainError Number)
  | binary (apply : Number → Number → Context → Except DomainError Number)
  /-- Takes the first argument and those that follow it. -/
  | variadic (apply : Number → List Number → Context → Except DomainError Number)

namespace Builtin

def arity : Builtin → Arity
  | unary _ => .exactly 1
  | binary _ => .exactly 2
  | variadic _ => .atLeast 1

/-- The result for a list of arguments; none if there are too few or too many of them. -/
def result? (builtin : Builtin) (arguments : List Number) (ctx : Context) :
    Option (Except DomainError Number) :=
  match builtin, arguments with
  | unary f, [x] => some (f x ctx)
  | binary f, [x, y] => some (f x y ctx)
  | variadic f, x :: rest => some (f x rest ctx)
  | _, _ => none

/-- The length of the hypotenuse, with the squares and their sum at twice the precision. -/
def hypot (x y : Number) (ctx : Context) : Except DomainError Number := do
  let wide := ctx.withBits (2 * ctx.bits)
  let a ← x.mul x wide
  let b ← y.mul y wide
  (a.add b wide).sqrt ctx

/-- A function that cannot fail, as a unary built-in. -/
def total (f : Number → Context → Number) : Builtin := unary fun x ctx => .ok (f x ctx)

/-- A choice among the arguments, rounded into the context. -/
def choice (pick : Number → Number → Number) : Builtin :=
  variadic fun x rest ctx => .ok ((rest.foldl pick x).roundTo ctx)

/-- The names of the built-in functions, with the functions. -/
def table : List (String × Builtin) :=
  [("abs", total fun x _ => x.abs),
    ("sqrt", unary Number.sqrt),
    ("exp", unary Number.exp),
    ("ln", unary Number.ln),
    ("log", unary Number.ln),
    ("log10", unary Number.log10),
    ("log2", unary Number.log2),
    ("floor", total fun x ctx => x.floor.roundTo ctx),
    ("ceil", total fun x ctx => x.ceil.roundTo ctx),
    ("round", total fun x ctx => x.round.roundTo ctx),
    ("trunc", total fun x ctx => x.trunc.roundTo ctx),
    ("sin", unary Number.sin),
    ("cos", unary Number.cos),
    ("tan", unary Number.tan),
    ("asin", unary Number.asin),
    ("acos", unary Number.acos),
    ("atan", total Number.atan),
    ("sinh", unary Number.sinh),
    ("cosh", unary Number.cosh),
    ("tanh", total Number.tanh),
    ("pow", binary Number.pow),
    ("hypot", binary hypot),
    ("min", choice Number.smaller),
    ("max", choice Number.larger)]

/-- The built-in function of a name. -/
def ofName? (name : String) : Option Builtin := table.lookup name

end Builtin

/-- The built-in constant of a name. -/
def constant? (name : String) (ctx : Context) : Option Number :=
  match name with
  | "pi" => some (.pi ctx)
  | "e" => some (.e ctx)
  | _ => none

end Reckoner
