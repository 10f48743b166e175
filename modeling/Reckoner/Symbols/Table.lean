/-
The symbols of a session by name, in the order of the names.

* `NameMap`, `NameSet` — finite maps from names and finite sets of names.
* `SymbolTable` — a finite map from names to symbols. A name stands for one symbol, whatever its
  kind, and a new symbol replaces the old one.
* `SymbolTable.rename`, `SymbolTable.nameError?` — moving a symbol, and whether a name is free.
* `SymbolTable.same` — equality but for precision labels.
-/

import Std.Data.ExtTreeMap
import Std.Data.ExtTreeSet
import Reckoner.Symbols.Basic

namespace Reckoner

/-- A finite map from names, in their order. -/
abbrev NameMap (α : Type) := Std.ExtTreeMap String α

/-- A finite set of names, in their order. -/
abbrev NameSet := Std.ExtTreeSet String

/-- The symbols of a session by name. -/
abbrev SymbolTable := NameMap Symbol

/-- Why a name cannot be given to a new symbol. -/
inductive NameError where
  | invalid (fault : DefinitionError)
  | taken (name : String) (kind : SymbolKind)
deriving DecidableEq

/-- The message for a name that cannot be given to a new symbol. -/
def NameError.message : NameError → String
  | invalid fault => fault.message
  | taken name kind => s!"a {kind.name} named '{name}' already exists"

namespace SymbolTable

/-- The kind of the symbol of a name. -/
def kind? (table : SymbolTable) (name : String) : Option SymbolKind := table[name]?.map Symbol.kind

/-- Moves the symbol of `old` to `new`, where it replaces what was there; none without a symbol. -/
def rename? (table : SymbolTable) (old new : String) : Option SymbolTable :=
  table[old]?.map fun symbol => (table.erase old).insert new symbol

/-- Why a name cannot be given to a new symbol. -/
def nameError? (table : SymbolTable) (name : String) : Option NameError :=
  match nameFault? name with
  | some fault => some (.invalid fault)
  | none => (table.kind? name).map (.taken name)

/-- The table without precision labels. -/
def unlabelled (table : SymbolTable) : SymbolTable := table.map fun _ symbol => symbol.unlabelled

/-- Whether two tables are equal but for precision labels. -/
def same (a b : SymbolTable) : Bool := a.unlabelled = b.unlabelled

/-- The names of the symbols of a kind, in order. -/
def namesOf (table : SymbolTable) (kind : SymbolKind) : List String :=
  (table.toList.filter fun (_, symbol) => symbol.kind = kind).map Prod.fst

end SymbolTable

end Reckoner
