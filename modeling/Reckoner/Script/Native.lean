/-
Callables that need no script.

* `NativeCallable` — simple functions on doubles, with `NativeCallable.callable`.
* `NativeCallable.ofText?` — reads the written name of one.
-/

import Reckoner.Script.Registry

namespace Reckoner

/-- A simple function on doubles. -/
inductive NativeCallable where
  /-- The sum of all arguments, from left to right. -/
  | sum
  | difference
  | quotient
  /-- The first argument. -/
  | first
  | half
  /-- The number of arguments. -/
  | count
  | always (value : Binary64)
  | failure (message : String)

namespace NativeCallable

/-- The function itself. An argument that is not there is no number. -/
def callable (native : NativeCallable) : Callable := fun arguments =>
  let x := arguments.getD 0 .nan
  let y := arguments.getD 1 .nan
  match native with
  | sum => .ok (arguments.foldl Binary64.add (.zero false))
  | difference => .ok (x.sub y)
  | quotient => .ok (x.div y)
  | first => .ok x
  | half => .ok (x.div (.ofInt 2))
  | count => .ok (.ofInt arguments.length)
  | always value => .ok value
  | failure message => .error message

/-- Reads a name, after which constants and failures have a colon and their content. -/
def ofText? (text : String) : Option NativeCallable :=
  match text with
  | "sum" => some sum
  | "sub" => some difference
  | "div" => some quotient
  | "first" => some first
  | "half" => some half
  | "count" => some count
  | _ =>
    match Text.splitFirst? (· = ':') text.toList with
    | some (name, content) =>
      if name = "const".toList then (Binary64.ofText? (String.ofList content)).map always
      else if name = "fail".toList then some (failure (String.ofList content))
      else none
    | none => none

end NativeCallable

end Reckoner
