/-
The document of a symbol table.

It has four maps from names to entries, one for each kind of symbol. A value with a known number of
fractional digits is written with exactly these; any other is written with all its digits, and with
the precision that it is read back at.

* `ValueEntry`, `FunctionEntry` — entries of the document.
* `SymbolTable.text`, `SymbolTable.read` — writing and reading the document.
-/

import Reckoner.Document.Error
import Reckoner.Symbols.Table

namespace Reckoner

/-! ### Entries -/

/-- The entry of a variable or a constant. -/
structure ValueEntry where
  value : String := ""
  decimals : Option Nat := none
  bits : Option Nat := none
deriving DecidableEq

namespace ValueEntry

/-- The entry of a value. -/
def ofValue (named : NamedValue) : ValueEntry :=
  match named.decimals with
  | some decimals => { value := named.value.toDecimal decimals .nearest, decimals := some decimals }
  | none =>
    { value := named.value.toExactDecimal
      bits := if named.value.bits = 0 then none else some named.value.bits }

/-- The value of an entry. -/
def toValue (entry : ValueEntry) : Except InvalidNumeral NamedValue := do
  let value ← match entry.bits with
    | none | some 0 => Number.fromDecimalStored entry.value .nearest
    | some bits => Number.fromDecimal entry.value bits .nearest
  pure ⟨value, entry.decimals⟩

/-- Reads an entry. -/
def reader : Reader ValueEntry :=
  .record
    [⟨"value", true, fun e => return { e with value := ← .string }⟩,
      ⟨"decimals", false, fun e => return { e with decimals := ← .optional .count }⟩,
      ⟨"bits", false, fun e => return { e with bits := ← .optional .count }⟩]
    true {}

/-- An entry as a value of the document. What it does not know is left out. -/
def json (entry : ValueEntry) : Json :=
  .record (("value", .text entry.value) ::
    ((entry.decimals.map fun n => ("decimals", Json.natural n)).toList ++
      (entry.bits.map fun n => ("bits", Json.natural n)).toList))

end ValueEntry

/-- The entry of a function. -/
structure FunctionEntry where
  expression : String := ""
  arguments : List String := []
deriving DecidableEq

namespace FunctionEntry

/-- Reads an entry. -/
def reader : Reader FunctionEntry :=
  .record
    [⟨"expression", true, fun e => return { e with expression := ← .string }⟩,
      ⟨"arguments", false, fun e => return { e with arguments := ← .list .string }⟩]
    true {}

/-- An entry as a value of the document. -/
def json (entry : FunctionEntry) : Json :=
  .record [("expression", .text entry.expression), ("arguments", .texts entry.arguments)]

end FunctionEntry

namespace ScriptRef

/-- Reads a reference. Other fields are passed over. -/
def reader : Reader ScriptRef :=
  .record
    [⟨"addon", true, fun r => return { r with addon := ← .string }⟩,
      ⟨"callable", true, fun r => return { r with callable := ← .string }⟩,
      ⟨"arity", true, fun r => return { r with arity := ← .count }⟩]
    false ⟨"", "", 0⟩

/-- A reference as a value of the document. -/
def json (ref : ScriptRef) : Json :=
  .record [("addon", .text ref.addon), ("callable", .text ref.callable),
    ("arity", .natural ref.arity)]

end ScriptRef

/-! ### The document -/

/-- Reads a map. Of two entries with one name the last one counts. -/
def NameMap.reader {α : Type} (value : Reader α) : Reader (NameMap α) :=
  (Std.ExtTreeMap.ofList · compare) <$> Reader.entries value

/-- A map as a value of a document. -/
def NameMap.json {α : Type} (value : α → Json) (map : NameMap α) : Json :=
  .record (map.toList.map fun (name, a) => (name, value a))

/-- The entries of a symbol table, by kind. -/
structure SymbolDocument where
  variableEntries : NameMap ValueEntry := ∅
  constantEntries : NameMap ValueEntry := ∅
  functionEntries : NameMap FunctionEntry := ∅
  scriptEntries : NameMap ScriptRef := ∅

namespace SymbolDocument

/-- Reads the maps of a document. Each of them may be missing. -/
def reader : Reader SymbolDocument :=
  .record
    [⟨"variables", false,
        fun d => return { d with variableEntries := ← NameMap.reader ValueEntry.reader }⟩,
      ⟨"constants", false,
        fun d => return { d with constantEntries := ← NameMap.reader ValueEntry.reader }⟩,
      ⟨"functions", false,
        fun d => return { d with functionEntries := ← NameMap.reader FunctionEntry.reader }⟩,
      ⟨"scripts", false,
        fun d => return { d with scriptEntries := ← NameMap.reader ScriptRef.reader }⟩]
    true {}

/-- A document as a value. -/
def json (document : SymbolDocument) : Json :=
  .record
    [("variables", NameMap.json ValueEntry.json document.variableEntries),
      ("constants", NameMap.json ValueEntry.json document.constantEntries),
      ("functions", NameMap.json FunctionEntry.json document.functionEntries),
      ("scripts", NameMap.json ScriptRef.json document.scriptEntries)]

/-- The entries of a table. -/
def ofTable (table : SymbolTable) : SymbolDocument where
  variableEntries := table.filterMap fun _ symbol => match symbol with
    | .variable value => some (.ofValue value)
    | _ => none
  constantEntries := table.filterMap fun _ symbol => match symbol with
    | .constant value => some (.ofValue value)
    | _ => none
  functionEntries := table.filterMap fun _ symbol => match symbol with
    | .function f => some ⟨f.expression, f.arguments⟩
    | _ => none
  scriptEntries := table.filterMap fun _ symbol => match symbol with
    | .script ref => some ref
    | _ => none

/-- The value of an entry under its name. -/
def valueOf (name : String) (entry : ValueEntry) : Except DocumentError NamedValue :=
  entry.toValue.mapError (.invalidValue name)

/-- The function of an entry under its name. -/
def functionOf (name : String) (entry : FunctionEntry) : Except DocumentError UserFunction :=
  (UserFunction.define entry.arguments entry.expression).mapError (.invalidDefinition name)

/-- The symbols of a document, by kind and then by name. -/
def symbols (document : SymbolDocument) : Except DocumentError (List (String × Symbol)) := do
  let assigned ← document.variableEntries.toList.mapM fun (name, entry) =>
    return (name, Symbol.variable (← valueOf name entry))
  let constants ← document.constantEntries.toList.mapM fun (name, entry) =>
    return (name, Symbol.constant (← valueOf name entry))
  let functions ← document.functionEntries.toList.mapM fun (name, entry) =>
    return (name, Symbol.function (← functionOf name entry))
  let scripts := document.scriptEntries.toList.map fun (name, ref) => (name, Symbol.script ref)
  pure (assigned ++ constants ++ functions ++ scripts)

/-- Adds a symbol of a document to those before it. -/
def add (table : SymbolTable) (entry : String × Symbol) : Except DocumentError SymbolTable :=
  let (name, symbol) := entry
  match nameFault? name with
  | some fault => .error (.invalidDefinition name fault)
  | none => if name ∈ table then .error (.duplicateName name) else .ok (table.insert name symbol)

/-- The table of a document. -/
def toTable (document : SymbolDocument) : Except DocumentError SymbolTable := do
  (← document.symbols).foldlM add ∅

end SymbolDocument

namespace SymbolTable

/-- The document of a table. -/
def text (table : SymbolTable) : String := (SymbolDocument.ofTable table).json.prettyText

/-- The table in a document. -/
def read (text : String) : Except DocumentError SymbolTable := do
  (← SymbolDocument.reader.run text).toTable

end SymbolTable

/-! ### Sets of addons -/

namespace NameSet

/-- The document of a set. -/
def text (names : NameSet) : String := (Json.texts names.toList).prettyText

/-- The set in a document. -/
def read (text : String) : Except DocumentError NameSet :=
  (fun names => .ofList names compare) <$> (Reader.list Reader.string).run text

end NameSet

end Reckoner
