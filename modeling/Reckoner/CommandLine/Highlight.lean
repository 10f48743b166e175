/-
Classes of the parts of a line, for colouring it while it is typed.

A line is cut into runs of characters without regard to whether it can be read. Joined together
again, the runs are the line.

* `RunClass` — what a run is, with its colour.
* `classify` — the runs of a line.
-/

import Reckoner.Expression.Token

namespace Reckoner

/-- What a run of characters is. -/
inductive RunClass where
  | plain
  | number
  /-- A name in front of an opening parenthesis. -/
  | function
  | identifier
  | operator
  | command
deriving DecidableEq

/-- The colour of a class. -/
def RunClass.colour : RunClass → String
  | plain => "white"
  | number => "cyan"
  | function => "blue"
  | identifier => "red"
  | operator => "white"
  | command => "magenta"

/-- A run of characters of one class. -/
structure Run where
  kind : RunClass
  text : List Char
deriving DecidableEq

/-- Characters of operators and separators. -/
def isOperatorChar (c : Char) : Bool := "+-*/%^:=;,".toList.contains c

/-- Whether digits may be joined to a number by a character. -/
def isNumberChar (c : Char) : Bool := isDigit c || c = '.'

/-- Length of the digits and points at the start of a text, with the exponent behind them. -/
def numeralLength (text : List Char) : Nat :=
  let mantissa := (text.takeWhile isNumberChar).length
  mantissa + exponentLength (text.drop mantissa)

/-- The class and length of the run at the start of the text `c :: rest`, after its first
character. -/
def firstRun (c : Char) (rest : List Char) : RunClass × Nat :=
  if isNumberChar c then (.number, numeralLength (c :: rest) - 1)
  else if isNameStart c then
    let length := (rest.takeWhile isNameChar).length
    let isCall := (Text.trimLeft (rest.drop length)).head? = some '('
    (if isCall then .function else .identifier, length)
  else (if isOperatorChar c then .operator else .plain, 0)

/-- The runs of a text, the first `skipped` characters of which belong to a run already found. -/
def classifyFrom : (skipped : Nat) → List Char → List Run
  | _, [] => []
  | skipped + 1, _ :: rest => classifyFrom skipped rest
  | 0, c :: rest =>
    let (found, length) := firstRun c rest
    ⟨found, c :: rest.take length⟩ :: classifyFrom length rest

/-- The runs of a line. A command at its start is a run of its own. -/
def classify (line : List Char) : List Run :=
  match line with
  | ':' :: rest =>
    let name := rest.takeWhile fun c => !Text.isBlank c
    ⟨.command, ':' :: name⟩ :: classifyFrom 0 (rest.drop name.length)
  | _ => classifyFrom 0 line

end Reckoner
