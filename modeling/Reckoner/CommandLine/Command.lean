/-
Commands of the command line: lines that start with a colon.

* `Command` — the commands, with `Command.help`, the text that explains them.
* `CommandError` — why a line that starts with a colon is no command.
* `parseCommand?` — the command of a line; none if the line is an expression.
-/

import Reckoner.Number.Decimal

namespace Reckoner

/-- A command. -/
inductive Command where
  | help
  | quit
  | symbols
  | define (name : String) (arguments : List String) (expression : String)
  | undefine (name : String)
  | addons
  | enable (addon : String)
  | disable (addon : String)
  | save (path : String)
  | load (path : String)
  | precision (bits : Nat)
  | digits (count : Nat)
  | rounding (mode : Rounding)
deriving DecidableEq

/-- The text that explains the commands. -/
def Command.helpText : String := String.intercalate "\n"
  ["Expressions:",
    "  1 + 2 * 3            evaluate",
    "  x := 2; x ^ 10       assign variables, separate statements with ';'",
    "",
    "Commands:",
    "  :def f(a, b) = expr  define a function",
    "  :undef name          remove a variable or function",
    "  :vars                list symbols",
    "  :addons              list addons (* marks active ones)",
    "  :enable id           activate an addon",
    "  :disable id          deactivate an addon",
    "  :save path           write the symbol table to a file",
    "  :load path           replace the symbol table from a file",
    "  :precision bits      set the working precision",
    "  :digits n            set the displayed fractional digits",
    "  :rounding mode       nearest, toward_zero, up, down or away_from_zero",
    "  :help                show this text",
    "  :quit                leave"]

/-- Why a line that starts with a colon is no command. -/
inductive CommandError where
  | unknown (name : String)
  | usage (form : String)
  | rounding (text : String)
deriving DecidableEq

/-- The message for a line that is no command. -/
def CommandError.message : CommandError → String
  | .unknown name => s!"unknown command ':{name}' (try :help)"
  | .usage form => "usage: " ++ form
  | .rounding text => Rounding.unknownMessage text

namespace Command

/-- The rest of a line, which must not be empty. -/
def word (usage : String) (rest : List Char) : Except CommandError String :=
  if rest.isEmpty then .error (.usage usage) else .ok (String.ofList rest)

/-- The count that a text is: digits after an optional plus sign, within 64 bits. -/
def readCount? (text : List Char) : Option Nat :=
  let digits := match text with
    | '+' :: rest => rest
    | _ => text
  let count := digitsValue digits
  if digits.isEmpty || !digits.all isDigit || maxCount < count then none else some count

/-- The rest of a line as a count. -/
def count (usage : String) (rest : List Char) : Except CommandError Nat :=
  match readCount? rest with
  | some count => .ok count
  | none => .error (.usage usage)

/-- The direction that the rest of a line names. -/
def mode (rest : List Char) : Except CommandError Rounding :=
  let text := String.ofList rest
  match Rounding.ofText? text with
  | some mode => .ok mode
  | none => .error (.rounding text)

/-- The text before a closing parenthesis at the end. -/
def beforeClosing? (text : List Char) : Option (List Char) :=
  if text.getLast? = some ')' then some text.dropLast else none

/-- Texts between commas, without blanks around them and without empty ones. -/
def argumentNames (text : List Char) : List String :=
  (((Text.splitOn ',' text).map Text.trim).filter (!·.isEmpty)).map String.ofList

/-- The name and arguments of a definition: `name(a, b)`, or only a name. -/
def signature? (head : List Char) : Option (List Char × List String) :=
  match Text.splitFirst? (· = '(') head with
  | some (name, rest) =>
    (beforeClosing? (Text.trim rest)).map fun inner => (Text.trim name, argumentNames inner)
  | none => some (head, [])

/-- How a definition is written. -/
def defineUsage : String := ":def name(a, b) = expression"

/-- A definition: a signature, an equals sign, and an expression. -/
def definition (rest : List Char) : Except CommandError Command :=
  match Text.splitFirst? (· = '=') rest with
  | none => .error (.usage defineUsage)
  | some (head, expression) =>
    let expression := Text.trim expression
    match signature? (Text.trim head) with
    | none => .error (.usage defineUsage)
    | some (name, arguments) =>
      if expression.isEmpty || name.isEmpty then .error (.usage defineUsage)
      else .ok (define (String.ofList name) arguments (String.ofList expression))

/-- The command of a name and the rest of its line. -/
def ofName (name : String) (rest : List Char) : Except CommandError Command :=
  match name with
  | "help" | "h" => .ok help
  | "quit" | "q" | "exit" => .ok quit
  | "vars" => .ok symbols
  | "addons" => .ok addons
  | "def" => definition rest
  | "undef" => (word ":undef name" rest).map undefine
  | "enable" => (word ":enable id" rest).map enable
  | "disable" => (word ":disable id" rest).map disable
  | "save" => (word ":save path" rest).map save
  | "load" => (word ":load path" rest).map load
  | "precision" => (count ":precision bits" rest).map precision
  | "digits" => (count ":digits n" rest).map digits
  | "rounding" => (mode rest).map rounding
  | other => .error (.unknown other)

end Command

/-- The command of a line; none if the line is an expression. -/
def parseCommand? (line : String) : Option (Except CommandError Command) :=
  match Text.trim line.toList with
  | ':' :: rest =>
    let (name, rest) := (Text.splitFirst? Text.isBlank rest).getD (rest, [])
    some (Command.ofName (String.ofList name) (Text.trim rest))
  | _ => none

end Reckoner
