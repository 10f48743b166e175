/-
What can be wrong with a document.

* `DocumentError` — a text that does not read as the document, or content that makes no symbols.
-/

import Reckoner.Document.Reader
import Reckoner.Symbols.Name

namespace Reckoner

/-- Why a document is refused. -/
inductive DocumentError where
  | malformed (fault : Fault)
  /-- A value of a symbol that is no numeral. -/
  | invalidValue (name : String) (error : InvalidNumeral)
  /-- A name, or the arguments of a function, that make no symbol. -/
  | invalidDefinition (name : String) (error : DefinitionError)
  /-- A name with symbols of two kinds. -/
  | duplicateName (name : String)
deriving DecidableEq

/-- The message for a refused document. -/
def DocumentError.message : DocumentError → String
  | malformed fault => "malformed document: " ++ fault.category
  | invalidValue name error => "invalid value for '" ++ name ++ "': " ++ error.message
  | invalidDefinition name error => "invalid definition of '" ++ name ++ "': " ++ error.message
  | duplicateName name => "'" ++ name ++ "' is defined more than once"

/-- Reads a document whose shape is all that can be wrong. -/
def Reader.run {α : Type} (reader : Reader α) (text : String) : Except DocumentError α :=
  (Reader.document reader text).mapError .malformed

end Reckoner
