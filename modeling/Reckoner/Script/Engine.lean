/-
What compiles and runs scripts, as far as addons depend on it.

An engine is a parameter of whatever uses scripts. Two things are taken of every engine: a function
that is started without arguments depends on nothing but the files that it asks for, and one that is
called by an expression on nothing but its arguments.

* `CompiledScript` — the functions of a script, and what happens when they are called.
* `ScriptEngine` — makes compiled scripts of source texts.
* `CompiledScript.runEntryPoint` — starts a function without parameters, if there is one.
* `CompiledScript.callable` — a function on doubles, whose result has to be a number.
-/

import Reckoner.Files.Inquiry
import Reckoner.Script.Registry

namespace Reckoner

/-- What a function of a script gives back. -/
inductive ScriptResult where
  | float (d : Binary64)
  | int (n : Int)
  /-- A value of another type, of which only the name of the type is known. -/
  | other (typeName : String)

/-- A script that an engine has compiled. -/
structure CompiledScript where
  /-- The names of the functions, with the number of their parameters. -/
  functions : List (String × Nat)
  /-- Calls a function without arguments. It may ask for any files. -/
  start : (function : String) → Inquiry String Unit
  /-- Calls a function with doubles. -/
  call : (function : String) → List Binary64 → Except String ScriptResult

/-- An engine for scripts. -/
class ScriptEngine where
  /-- The script of a source text, or what is wrong with it. Each call of a function has a budget of
  steps, in which zero stands for no bound. -/
  compile : (source : String) → (budget : Nat) → Except String CompiledScript

namespace CompiledScript

/-- The number of parameters of the first function of a name. -/
def arityOf? (script : CompiledScript) (name : String) : Option Nat := script.functions.lookup name

def hasFunction (script : CompiledScript) (name : String) (arity : Nat) : Bool :=
  script.functions.contains (name, arity)

/-- Starts a function without parameters if there is one. -/
def runEntryPoint (script : CompiledScript) (name : String) : Inquiry String Unit :=
  if script.hasFunction name 0 then script.start name else pure ()

/-- A function on doubles. Its result has to be a number. -/
def callable (script : CompiledScript) (name : String) : Callable := fun arguments =>
  match script.call name arguments with
  | .error message => .error message
  | .ok (.float d) => .ok d
  | .ok (.int n) => .ok (.ofInt n)
  | .ok (.other typeName) =>
    .error ("'" ++ name ++ "' returned " ++ typeName ++ " instead of a number")

end CompiledScript

end Reckoner
