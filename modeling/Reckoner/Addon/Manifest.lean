/-
The description that an addon gives of itself.

* `Manifest` — name, description and script file of an addon, and the constants, functions and
  scripts it contributes.
* `Manifest.read`, `Manifest.text` — reading a manifest, and writing it on one line.
-/

import Reckoner.Document.Symbols

namespace Reckoner

/-- A script of a manifest: a function of the script file, with the number of its arguments if the
file has several functions of that name. -/
structure ScriptEntry where
  function : String := ""
  arity : Option Nat := none
deriving DecidableEq

namespace ScriptEntry

/-- Reads an entry. -/
def reader : Reader ScriptEntry :=
  .record
    [⟨"function", true, fun e => return { e with function := ← .string }⟩,
      ⟨"arity", false, fun e => return { e with arity := ← .optional .count }⟩]
    true {}

/-- An entry as a value of the document. -/
def json (entry : ScriptEntry) : Json :=
  .record [("function", .text entry.function), ("arity", .ofOption .natural entry.arity)]

end ScriptEntry

/-- The description that an addon gives of itself. -/
structure Manifest where
  name : Option String := none
  description : Option String := none
  /-- The script file, as a path from the directory of the addon. -/
  script : Option String := none
  /-- Numerals by the names of the constants. -/
  constants : NameMap String := ∅
  functions : NameMap FunctionEntry := ∅
  scripts : NameMap ScriptEntry := ∅

namespace Manifest

/-- Reads a manifest. Every part may be missing. -/
def reader : Reader Manifest :=
  .record
    [⟨"name", false, fun m => return { m with name := ← .optional .string }⟩,
      ⟨"description", false, fun m => return { m with description := ← .optional .string }⟩,
      ⟨"script", false, fun m => return { m with script := ← .optional .string }⟩,
      ⟨"constants", false, fun m => return { m with constants := ← NameMap.reader .string }⟩,
      ⟨"functions", false,
        fun m => return { m with functions := ← NameMap.reader FunctionEntry.reader }⟩,
      ⟨"scripts", false,
        fun m => return { m with scripts := ← NameMap.reader ScriptEntry.reader }⟩]
    true {}

/-- The manifest in a text. -/
def read (text : String) : Except Fault Manifest := Reader.document reader text

/-- A manifest as a value of a document. -/
def json (manifest : Manifest) : Json :=
  .record
    [("name", .ofOption .text manifest.name),
      ("description", .ofOption .text manifest.description),
      ("script", .ofOption .text manifest.script),
      ("constants", NameMap.json .text manifest.constants),
      ("functions", NameMap.json FunctionEntry.json manifest.functions),
      ("scripts", NameMap.json ScriptEntry.json manifest.scripts)]

/-- A manifest on one line. -/
def text (manifest : Manifest) : String := manifest.json.compactText

end Manifest

end Reckoner
