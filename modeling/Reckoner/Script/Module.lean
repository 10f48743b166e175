/-
The engine of this library, which runs programs of the script language.

* `ScriptProgram.compiled` — a program, as far as addons depend on it.
* The instance of `ScriptEngine` reads programs.
* `ScriptModule` — a script on its own, with no files to ask for.
-/

import Reckoner.Script.Engine
import Reckoner.Script.Run

namespace Reckoner

namespace ScriptValue

/-- A value as the result of a function. -/
def result : ScriptValue → ScriptResult
  | float d => .float d
  | int n => .int n
  | value => .other value.typeName

end ScriptValue

/-- The functions of a program, with the budget of steps that each call has. A function that is
called with doubles finds no files. -/
def ScriptProgram.compiled (program : ScriptProgram) (budget : Nat) : CompiledScript where
  functions := program.signatures
  start name := (program.call budget name []).mapError ScriptFault.message >>= fun _ => pure ()
  call name arguments :=
    match (program.call budget name (arguments.map .float)).result .empty with
    | .ok value => .ok value.result
    | .error fault => .error fault.message

instance : ScriptEngine where
  compile source budget :=
    match ScriptProgram.parse? source with
    | some program => .ok (program.compiled budget)
    | none => .error ScriptFault.malformed.message

/-- A compiled script with no files to ask for. -/
structure ScriptModule where
  program : CompiledScript

namespace ScriptModule

/-- The module of a source text, or what is wrong with it. -/
def compile (source : String) (budget : Nat) : Except String ScriptModule :=
  (ScriptEngine.compile source budget).map ScriptModule.mk

/-- Starts a function without parameters if there is one. -/
def runEntryPoint (module : ScriptModule) (name : String) : Except String Unit :=
  (module.program.runEntryPoint name).result .empty

/-- A function on doubles. -/
def callable (module : ScriptModule) (name : String) : Callable := module.program.callable name

end ScriptModule

end Reckoner
