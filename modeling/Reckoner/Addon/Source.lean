/-
Where addons come from, and what they bring.

* `Contribution` — the symbols and scripts that one addon adds to a session.
* `AddonError` — why an addon cannot be found, loaded, accepted or unloaded.
* `AddonSource` — the operations of a source with a state of its own.
-/

import Reckoner.Files.Tree
import Reckoner.Script.Registry

namespace Reckoner

/-- Why an operation on an addon fails. -/
inductive AddonError where
  | notFound (addon : String)
  | unreadable (path : String) (error : FileError)
  | manifest (addon message : String)
  | script (addon message : String)
  /-- A contributed name that stands for another symbol. -/
  | conflict (name : String) (kind : SymbolKind)
  | duplicateName (name : String)
deriving DecidableEq

/-- The message for a failed operation. -/
def AddonError.message : AddonError → String
  | notFound addon => s!"addon '{addon}' not found"
  | unreadable path error => s!"cannot read {path}: {error.message}"
  | manifest addon message => s!"invalid manifest for addon '{addon}': {message}"
  | script addon message => s!"script error in addon '{addon}': {message}"
  | conflict name kind => s!"{kind.name} '{name}' already exists"
  | duplicateName name => s!"'{name}' is contributed more than once"

/-- A script that an addon brings: the name it is called by, its reference, and what it does. -/
structure ScriptContribution where
  name : String
  ref : ScriptRef
  callable : Callable

/-- What an addon brings. -/
structure Contribution where
  /-- Constants and functions by name. -/
  symbols : List (String × Symbol)
  scripts : List ScriptContribution

/-- All symbols that an addon brings, scripts last. -/
def Contribution.entries (contribution : Contribution) : List (String × Symbol) :=
  contribution.symbols ++ contribution.scripts.map fun script => (script.name, .script script.ref)

/-- The operations of a source of addons with states of type `σ`. -/
structure AddonSource (σ : Type) where
  /-- The addons that could be loaded. -/
  discover : σ → Except AddonError NameSet
  load : String → σ → Except AddonError Contribution × σ
  unload : String → σ → Except AddonError Unit × σ

end Reckoner
