/-
Errors of a session and how they are described.

* `SessionError` — an error of any part of a session, with its kind and message.
* `Diagnostic` — a message with its place in the text, code, help and related places.
* `SessionError.diagnostic` — the diagnostic of an error. An error inside the bodies of functions
  has the message of its root cause, and tells at the outermost call what was being evaluated.
-/

import Reckoner.Addon.Source
import Reckoner.Document.Error
import Reckoner.Evaluation.Error
import Reckoner.Symbols.Table

namespace Reckoner

/-- An error of a session. -/
inductive SessionError where
  /-- The text itself is not well formed. -/
  | parse (error : ParseError)
  | evaluation (error : EvalError)
  | definition (error : NameError)
  | addon (error : AddonError)
  | document (error : DocumentError)
deriving DecidableEq

/-- Broad kinds of errors. -/
inductive ErrorKind where
  | parse
  | unknownSymbol
  | arity
  /-- A symbol is used as one of another kind. -/
  | kind
  | domain
  | script
  /-- The evaluation is nested too deeply. -/
  | resourceExceeded
  | definition
  | addon
  | document
deriving DecidableEq

/-- The kind of a failed evaluation, that of its root cause. -/
def EvalError.kind (error : EvalError) : ErrorKind :=
  match error.rootCause with
  | .parse _ => .parse
  | .unknownSymbol .. => .unknownSymbol
  | .arity .. => .arity
  | .notCallable .. | .notAValue .. | .readOnly .. => .kind
  | .domain .. => .domain
  | .script .. => .script
  | .stackOverflow .. => .resourceExceeded
  | .inFunction .. => .kind

namespace SessionError

/-- The error of a failed evaluation. -/
def ofEval : EvalError → SessionError
  | .parse error => parse error
  | error => evaluation error

def kind : SessionError → ErrorKind
  | parse _ => .parse
  | evaluation error => error.kind
  | definition _ => .definition
  | addon _ => .addon
  | document _ => .document

/-- The message for an error. -/
def message : SessionError → String
  | parse error => error.fault.message
  | evaluation error => error.message
  | definition error => error.message
  | addon error => error.message
  | document error => error.message

end SessionError

/-- A description of an error. -/
structure Diagnostic where
  message : String
  span : Span
  code : String
  help : Option String
  /-- Related places, with what is to be said about them. -/
  related : List (Span × String)
deriving DecidableEq

/-- The diagnostic of a text that is not well formed. -/
def ParseError.diagnostic (error : ParseError) : Diagnostic where
  message := error.fault.message
  span := error.span
  code := error.fault.code
  help := error.fault.help?
  related := []

namespace EvalError

/-- The code of a failed evaluation, that of its root cause. -/
def code (error : EvalError) : String :=
  match error.rootCause with
  | unknownSymbol .. => "E001"
  | arity .. => "E002"
  | notCallable .. => "E003"
  | notAValue .. => "E004"
  | readOnly .. => "E005"
  | domain .. => "E006"
  | script .. => "E007"
  | stackOverflow .. => "E008"
  | parse _ => "E009"
  | inFunction .. => "E999"

/-- How to mend the root cause, where something can be said about it. -/
def help? (error : EvalError) : Option String :=
  match error.rootCause with
  | notAValue name _ _ => some s!"call it as {name}(...)"
  | readOnly .. => some "only variables can be assigned"
  | stackOverflow .. => some "check for functions that call themselves"
  | _ => none

/-- The diagnostic of a failed evaluation. -/
def diagnostic (error : EvalError) : Diagnostic :=
  match error with
  | parse error => error.diagnostic
  | inFunction name cause span =>
    { message := cause.rootCause.message
      span, code := error.code, help := error.help?
      related := [(span, s!"while evaluating '{name}': {cause.message}")] }
  | error =>
    { message := error.message, span := error.span, code := error.code, help := error.help?
      related := [] }

end EvalError

namespace SessionError

/-- The diagnostic of an error that has no place in a text. -/
def placeless (message code : String) : Diagnostic := ⟨message, ⟨0, 0⟩, code, none, []⟩

/-- The diagnostic of an error. -/
def diagnostic : SessionError → Diagnostic
  | parse error => error.diagnostic
  | evaluation error => error.diagnostic
  | definition error => placeless error.message "D001"
  | addon error => placeless error.message "A001"
  | document error => placeless error.message "S001"

/-- Whether an error has a place in a text. -/
def hasPlace : SessionError → Bool
  | parse _ => true
  | evaluation _ => true
  | _ => false

end SessionError

end Reckoner
