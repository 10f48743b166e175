/-
Callables that script symbols refer to.

* `Callable` — a function on machine doubles that may fail with a message.
* `ScriptRegistry` — callables by reference; a new callable replaces the old one of its reference.
* `ScriptRegistry.run` — calls a callable with as many arguments as its reference says.
-/

import Reckoner.Number.Binary64
import Reckoner.Symbols.Basic
import Reckoner.Text.Shown

namespace Reckoner

/-- A function on doubles that may fail with a message. -/
abbrev Callable := List Binary64 → Except String Binary64

/-- Why a script has no result. -/
inductive ScriptError where
  | unregistered (ref : ScriptRef)
  | failed (message : String)
  /-- The callable gave an infinity or no number. -/
  | notFinite (value : Binary64)
  | arity (expected found : Nat)
deriving DecidableEq

/-- The message for a script without a result. -/
def ScriptError.message : ScriptError → String
  | unregistered ref => "no callable is registered for " ++ ref.text
  | failed message => message
  | notFinite value => "returned " ++ value.specialName ++ ", which is not a finite number"
  | arity expected found => s!"expects {expected} argument(s), got {found}"

/-- Callables by reference, the one registered last first. -/
structure ScriptRegistry where
  entries : List (ScriptRef × Callable)

namespace ScriptRegistry

/-- The registry without callables. -/
def empty : ScriptRegistry := ⟨[]⟩

/-- The registered references. -/
def refs (registry : ScriptRegistry) : List ScriptRef := registry.entries.map Prod.fst

def contains (registry : ScriptRegistry) (ref : ScriptRef) : Bool := registry.refs.contains ref

/-- The callable of a reference. -/
def find? (registry : ScriptRegistry) (ref : ScriptRef) : Option Callable :=
  registry.entries.lookup ref

/-- The registry without a reference. -/
def unregister (registry : ScriptRegistry) (ref : ScriptRef) : ScriptRegistry :=
  ⟨registry.entries.filter fun (other, _) => other ≠ ref⟩

/-- The registry with this callable under a reference. -/
def register (registry : ScriptRegistry) (ref : ScriptRef) (callable : Callable) :
    ScriptRegistry :=
  ⟨(ref, callable) :: (registry.unregister ref).entries⟩

/-- Calls the callable of a reference. -/
def run (registry : ScriptRegistry) (ref : ScriptRef) (arguments : List Binary64) :
    Except ScriptError Binary64 :=
  match registry.find? ref with
  | none => .error (.unregistered ref)
  | some callable =>
    if arguments.length ≠ ref.arity then .error (.arity ref.arity arguments.length)
    else match callable arguments with
      | .error message => .error (.failed message)
      | .ok result => if result.isFinite then .ok result else .error (.notFinite result)

/-- The texts of the references, in order. -/
def listing (registry : ScriptRegistry) : List String :=
  (registry.refs.map ScriptRef.text).mergeSort fun a b => a ≤ b

/-- A description of the registry that lists its references. -/
def describe (registry : ScriptRegistry) : String :=
  "ScriptHandler \x7b scripts: " ++ Text.shownList registry.listing ++ " \x7d"

end ScriptRegistry

end Reckoner
