/-
What a name can stand for.

* `NamedValue` — a number with the fractional digits it was entered with.
* `UserFunction` — an expression over named arguments, whose names are valid and distinct.
* `ScriptRef` — the callable of an addon that a script symbol stands for.
* `Symbol` — a variable, a constant, a function or a script; `Symbol.same` compares two of them by
  value, whatever the precision labels of their numbers.
-/

import Reckoner.Symbols.Name

namespace Reckoner

/-- A number and the fractional digits it was entered with; none if it was computed. -/
structure NamedValue where
  value : Number
  decimals : Option Nat
deriving DecidableEq

/-- An expression over named arguments. Its text is read at every call, so it may mention symbols
that are defined later. -/
structure UserFunction where
  arguments : List String
  expression : String
  wellFormed : argumentFault? [] arguments = none
deriving DecidableEq

namespace UserFunction

/-- The function of these arguments, unless something is wrong with their names. -/
def define (arguments : List String) (expression : String) :
    Except DefinitionError UserFunction :=
  match fault : argumentFault? [] arguments with
  | none => .ok ⟨arguments, expression, fault⟩
  | some error => .error error

def arity (function : UserFunction) : Nat := function.arguments.length

/-- A function as listings show it, without its name. -/
def text (function : UserFunction) : String :=
  "(" ++ String.intercalate ", " function.arguments ++ ") = " ++ function.expression

end UserFunction

/-- A callable of an addon, with the number of arguments it takes. -/
structure ScriptRef where
  addon : String
  callable : String
  arity : Nat
deriving DecidableEq

namespace ScriptRef

/-- The callable with its addon. -/
def qualifiedName (ref : ScriptRef) : String := ref.addon ++ "::" ++ ref.callable

/-- The reference as listings show it. -/
def text (ref : ScriptRef) : String := ref.qualifiedName ++ "/" ++ toString ref.arity

end ScriptRef

/-- What a name can stand for. -/
inductive Symbol where
  | variable (value : NamedValue)
  | constant (value : NamedValue)
  | function (function : UserFunction)
  | script (ref : ScriptRef)
deriving DecidableEq

/-- The kinds of symbols. -/
inductive SymbolKind where
  | variable
  | constant
  | function
  | script
deriving DecidableEq

/-- The word for a kind. -/
def SymbolKind.name : SymbolKind → String
  | .variable => "variable"
  | .constant => "constant"
  | .function => "function"
  | .script => "script"

/-- A value without the precision label of its number. -/
def NamedValue.unlabelled (value : NamedValue) : NamedValue :=
  { value with value := value.value.unlabelled }

namespace Symbol

def kind : Symbol → SymbolKind
  | .variable _ => .variable
  | .constant _ => .constant
  | .function _ => .function
  | .script _ => .script

/-- A symbol without the precision label of its number. -/
def unlabelled : Symbol → Symbol
  | .variable value => .variable value.unlabelled
  | .constant value => .constant value.unlabelled
  | .function f => .function f
  | .script ref => .script ref

/-- Whether two symbols are equal but for precision labels. -/
def same (a b : Symbol) : Bool := a.unlabelled = b.unlabelled

theorem same_iff {a b : Symbol} : a.same b ↔ a.unlabelled = b.unlabelled := by simp [same]

end Symbol

end Reckoner
