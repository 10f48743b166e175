/-
Why an evaluation has no value.

* `EvalError` — the cause, with the place in the text under evaluation. An error inside the body of
  a function is wrapped, so that the outermost place is in the text that was given.
* `EvalError.rootCause` — the innermost error.
-/

import Reckoner.Evaluation.Builtin
import Reckoner.Expression.Parser
import Reckoner.Symbols.Basic

namespace Reckoner

/-- Why an evaluation has no value. -/
inductive EvalError where
  | parse (error : ParseError)
  | unknownSymbol (name : String) (span : Span)
  | arity (name : String) (expected : Arity) (found : Nat) (span : Span)
  | notCallable (name : String) (kind : SymbolKind) (span : Span)
  /-- A symbol that is not called although it has no value of its own. -/
  | notAValue (name : String) (kind : SymbolKind) (span : Span)
  | readOnly (name : String) (kind : SymbolKind) (span : Span)
  | domain (error : DomainError) (span : Span)
  | script (name message : String) (span : Span)
  /-- An error in the body of a function, with the place of the call. -/
  | inFunction (name : String) (cause : EvalError) (span : Span)
  | stackOverflow (depth limit : Nat) (span : Span)
deriving DecidableEq

namespace EvalError

/-- The message for a failed evaluation. -/
def message : EvalError → String
  | parse error => error.text
  | unknownSymbol name _ => s!"unknown symbol '{name}'"
  | arity name expected found _ => s!"'{name}' expects {expected.text} argument(s), got {found}"
  | notCallable name kind _ => s!"{kind.name} '{name}' cannot be called"
  | notAValue name kind _ => s!"{kind.name} '{name}' must be called with arguments"
  | readOnly name kind _ => s!"cannot assign to {kind.name} '{name}'"
  | domain error _ => error.message
  | script name message _ => s!"script '{name}' failed: {message}"
  | inFunction name cause _ => s!"in function '{name}': {cause.message}"
  | stackOverflow depth limit _ => s!"evaluation depth {depth} exceeds maximum of {limit}"

/-- The place of an error in the text that was given. -/
def span : EvalError → Span
  | parse error => error.span
  | unknownSymbol _ span => span
  | arity _ _ _ span => span
  | notCallable _ _ span => span
  | notAValue _ _ span => span
  | readOnly _ _ span => span
  | domain _ span => span
  | script _ _ span => span
  | inFunction _ _ span => span
  | stackOverflow _ _ span => span

/-- The innermost error. -/
def rootCause : EvalError → EvalError
  | inFunction _ cause _ => cause.rootCause
  | error => error

/-- The error as the caller of a function sees it. The limit on depth is not the function's fault,
so its error passes as it is. -/
def throughCall (name : String) (span : Span) : EvalError → EvalError
  | stackOverflow depth limit place => stackOverflow depth limit place
  | error => inFunction name error span

end EvalError

end Reckoner
