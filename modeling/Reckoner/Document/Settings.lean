/-
Settings of a session, and the document that holds them.

* `Settings` — precision, display and limits.
* `Settings.read`, `Settings.text` — the document of settings. A field that is missing from it keeps
  its default.
* `Settings.context` — precision and rounding of every computed value.
-/

import Reckoner.Document.Error

namespace Reckoner

/-- Default limit on the depth of an evaluation. -/
def defaultMaxDepth : Nat := 256

/-- Settings of a session. -/
structure Settings where
  /-- Bits of precision of every computed value, before they are moved into the allowed range. -/
  precisionBits : Nat := defaultPrecision
  rounding : Rounding := .nearest
  /-- Fractional digits shown for results. -/
  displayPrecision : Nat := 20
  displayRounding : Rounding := .nearest
  /-- Limit on the depth of an evaluation. -/
  maxDepth : Nat := defaultMaxDepth
  /-- Budget of operations for each call of a script; zero for none. -/
  scriptMaxOperations : Nat := 0
deriving DecidableEq

namespace Settings

/-- Precision and rounding of every computed value. -/
def context (settings : Settings) : Context := .ofBits settings.precisionBits settings.rounding

/-- The fields of the document, in their order. -/
def fields : List (Reader.Field Settings) :=
  [⟨"precision_bits", false, fun s => return { s with precisionBits := ← Reader.count }⟩,
    ⟨"rounding", false, fun s => return { s with rounding := ← Reader.choice Rounding.ofName? }⟩,
    ⟨"display_precision", false, fun s => return { s with displayPrecision := ← Reader.count }⟩,
    ⟨"display_rounding", false,
      fun s => return { s with displayRounding := ← Reader.choice Rounding.ofName? }⟩,
    ⟨"max_depth", false, fun s => return { s with maxDepth := ← Reader.count }⟩,
    ⟨"script_max_operations", false,
      fun s => return { s with scriptMaxOperations := ← Reader.count }⟩]

/-- The settings in a document. -/
def read (text : String) : Except DocumentError Settings :=
  (Reader.record fields true {}).run text

/-- The settings as a value of a document. -/
def json (settings : Settings) : Json :=
  .record
    [("precision_bits", .natural settings.precisionBits),
      ("rounding", .text settings.rounding.name),
      ("display_precision", .natural settings.displayPrecision),
      ("display_rounding", .text settings.displayRounding.name),
      ("max_depth", .natural settings.maxDepth),
      ("script_max_operations", .natural settings.scriptMaxOperations)]

/-- The document of the settings. -/
def text (settings : Settings) : String := settings.json.prettyText

/-- The settings in a file, given its text if it exists; the defaults if it is no such document. -/
def ofFile (file : Option String) : Settings :=
  match file.map read with
  | some (.ok settings) => settings
  | _ => {}

end Settings

end Reckoner
