/-
Addons given as values.

* `MemoryAddon` — what an addon brings, and the messages with which it refuses to be loaded or
  unloaded.
* `AddonShelf` — addons by name, and a log of what has been loaded and unloaded.
* `AddonShelf.source` — the source made of a shelf.
-/

import Reckoner.Addon.Source
import Reckoner.Script.Native

namespace Reckoner

/-- A symbol of an addon: the constant of a numeral, or a function. -/
inductive MemorySymbol where
  | constant (name numeral : String)
  | function (name : String) (arguments : List String) (expression : String)

/-- An addon given as a value. -/
structure MemoryAddon where
  symbols : List MemorySymbol
  scripts : List ScriptContribution
  loadFailure : Option String
  unloadFailure : Option String

/-- Addons by name, and a log of what has been loaded and unloaded. -/
structure AddonShelf where
  addons : NameMap MemoryAddon
  log : List String

namespace MemorySymbol

/-- The symbol with its name, or what is wrong with it. -/
def entry : MemorySymbol → Except String (String × Symbol)
  | constant name numeral =>
    match Number.fromDecimalStored numeral .nearest with
    | .ok value => .ok (name, .constant ⟨value, some (writtenDecimals numeral)⟩)
    | .error error => .error error.message
  | function name arguments expression =>
    match UserFunction.define arguments expression with
    | .ok f => .ok (name, .function f)
    | .error error => .error error.message

end MemorySymbol

namespace AddonShelf

/-- A name that makes discovery fail. -/
def stopper : String := "!discover"

/-- All addons, unless one of them has the name that makes this fail. -/
def discover (shelf : AddonShelf) : Except AddonError NameSet :=
  if stopper ∈ shelf.addons then .error (.notFound stopper)
  else .ok (.ofList shelf.addons.keys compare)

/-- What an addon brings. -/
def contribution (shelf : AddonShelf) (addon : String) : Except AddonError Contribution :=
  match shelf.addons[addon]? with
  | none => .error (.notFound addon)
  | some found =>
    match found.loadFailure with
    | some message => .error (.script addon message)
    | none =>
      ((found.symbols.mapM MemorySymbol.entry).map fun symbols =>
        (⟨symbols, found.scripts⟩ : Contribution)).mapError (.script addon)

/-- The shelf with another entry in its log. -/
def logged (shelf : AddonShelf) (entry : String) : AddonShelf :=
  { shelf with log := shelf.log ++ [entry] }

/-- Loads an addon. -/
def load (addon : String) (shelf : AddonShelf) : Except AddonError Contribution × AddonShelf :=
  (shelf.contribution addon, shelf.logged ("load " ++ addon))

/-- Unloads an addon. -/
def unload (addon : String) (shelf : AddonShelf) : Except AddonError Unit × AddonShelf :=
  let result : Except AddonError Unit :=
    match shelf.addons[addon]?.bind MemoryAddon.unloadFailure with
    | some message => .error (.script addon message)
    | none => .ok ()
  (result, shelf.logged ("unload " ++ addon))

/-- The source made of a shelf. -/
def source : AddonSource AddonShelf := ⟨discover, load, unload⟩

end AddonShelf

end Reckoner
