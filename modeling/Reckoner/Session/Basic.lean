/-
A calculator session: settings, symbols, scripts and addons together.

* `Session` — the state of a session over a source of addons.
* `Session.evaluate`, `Session.format` — values of texts, and how results are shown.
* `Session.define`, `Session.undefine` — functions of the user.
* `Session.setActive`, `Session.restore`, `Session.shutdown` — sets of active addons.
* `Session.importTable`, `Session.exportTable` — replacing the symbol table by that of a document,
  and the document of the symbols that no addon owns.
-/

import Reckoner.Addon.Workspace
import Reckoner.Document.Settings
import Reckoner.Document.Symbols
import Reckoner.Evaluation.Evaluate
import Reckoner.Session.Diagnostic

namespace Reckoner

/-- The state of a session over a source of addons with states of type `σ`. -/
structure Session (σ : Type) extends Workspace σ where
  settings : Settings

namespace Session

variable {σ : Type}

/-- A session without symbols and active addons. -/
def start (settings : Settings) (source : σ) : Session σ where
  toWorkspace := .initial source
  settings := settings

/-- Precision of values and limit of depth. -/
def options (session : Session σ) : EvalOptions :=
  ⟨session.settings.context, session.settings.maxDepth⟩

/-! ### Values -/

/-- The value of a text. Its assignments are kept if it has one. -/
def evaluate (session : Session σ) (text : String) :
    Except SessionError Number × Session σ :=
  let (result, table) := Reckoner.evaluate text session.table session.scripts session.options
  (result.mapError .ofEval, { session with table })

/-- A value with the digits that results are shown with, without zeros at the end. -/
def format (session : Session σ) (value : Number) : String :=
  trimFraction
    (value.toDecimal session.settings.displayPrecision session.settings.displayRounding)

/-! ### Functions of the user -/

/-- Defines or replaces a function. A name of another kind is refused. -/
def define (session : Session σ) (name : String) (arguments : List String) (expression : String) :
    Except SessionError (Session σ) := do
  if session.table.kind? name ≠ some .function then
    match session.table.nameError? name with
    | some error => throw (.definition error)
    | none => pure ()
  let function ← (UserFunction.define arguments expression).mapError fun fault =>
    .definition (.invalid fault)
  pure { session with table := session.table.insert name (.function function) }

/-- Removes a variable or a function; none without one. -/
def undefine? (session : Session σ) (name : String) : Option (Session σ) :=
  match session.table.kind? name with
  | some .variable | some .function => some { session with table := session.table.erase name }
  | _ => none

/-! ### Addons -/

/-- The addons that could be loaded. -/
def available (session : Session σ) (source : AddonSource σ) : Except SessionError NameSet :=
  (source.discover session.source).mapError .addon

/-- Makes a set of addons the active one, and lists the steps that failed. -/
def setActive (session : Session σ) (source : AddonSource σ) (requested : NameSet) :
    List AddonFailure × Session σ :=
  let (failures, workspace) := session.toWorkspace.setActive source requested
  (failures, { session with toWorkspace := workspace })

/-- Makes those addons of a saved set active that are still available. -/
def restore (session : Session σ) (source : AddonSource σ) (saved : NameSet) :
    Except SessionError (List AddonFailure × Session σ) := do
  let available ← session.available source
  pure (session.setActive source (saved.filter fun addon => addon ∈ available))

/-- Deactivates every addon. -/
def shutdown (session : Session σ) (source : AddonSource σ) : List AddonFailure × Session σ :=
  session.setActive source ∅

/-! ### Symbol tables -/

/-- Replaces the symbol table by that of a document. The active addons are deactivated with the old
table and activated again with the new one. -/
def importTable (session : Session σ) (source : AddonSource σ) (text : String) :
    Except SessionError (List AddonFailure × Session σ) := do
  let table ← (SymbolTable.read text).mapError .document
  let (before, cleared) := session.shutdown source
  let (after, session') := { cleared with table }.setActive source session.activeSet
  pure (before ++ after, session')

/-- The document of the symbols that no addon owns. -/
def exportTable (session : Session σ) : String := session.userSymbols.text

/-! ### Listings -/

/-- A text with blanks behind it up to a width. -/
def padded (width : Nat) (text : String) : String :=
  text ++ String.ofList (List.replicate (width - text.length) ' ')

/-- The line that lists a symbol. -/
def listing (session : Session σ) (name : String) (symbol : Symbol) : String :=
  let kind := padded 9 symbol.kind.name ++ " " ++ name
  let shown (named : NamedValue) : String :=
    match named.decimals with
    | some decimals => named.value.toDecimal decimals session.settings.displayRounding
    | none => session.format named.value
  match symbol with
  | .variable named => kind ++ " = " ++ shown named
  | .constant named => kind ++ " = " ++ shown named
  | .function function => kind ++ function.text
  | .script ref => kind ++ " -> " ++ ref.text

/-- The lines that list all symbols. -/
def listings (session : Session σ) : List String :=
  session.table.toList.map fun (name, symbol) => session.listing name symbol

end Session

end Reckoner
