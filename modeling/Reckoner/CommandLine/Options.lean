/-
Arguments of the command line.

* `Options` — what can be said on the command line.
* `Options.ofArguments` — reads the arguments. An option has its value behind it or behind an equals
  sign, and after two dashes there are no more options.
-/

import Reckoner.CommandLine.Command
import Reckoner.Document.Settings

namespace Reckoner

/-- What can be said on the command line. -/
structure Options where
  precision : Option Nat := none
  rounding : Option Rounding := none
  digits : Option Nat := none
  addonsDirectory : Option String := none
  configDirectory : Option String := none
  withoutAddons : Bool := false
  /-- The expression to evaluate instead of the lines of the input. -/
  expression : Option String := none
deriving DecidableEq

namespace Options

/-- A value that an option cannot have. -/
def badValue (name value : String) : String := s!"invalid value '{value}' for '{name}'"

/-- The options with another one. -/
def withValue (options : Options) (name value : String) : Except String Options :=
  let count := Command.readCount? value.toList
  match name with
  | "--precision" =>
    if count.isNone then .error (badValue name value) else .ok { options with precision := count }
  | "--digits" =>
    if count.isNone then .error (badValue name value) else .ok { options with digits := count }
  | "--rounding" =>
    match Rounding.ofText? value with
    | some mode => .ok { options with rounding := some mode }
    | none => .error (Rounding.unknownMessage value)
  | "--addons-dir" => .ok { options with addonsDirectory := some value }
  | "--config-dir" => .ok { options with configDirectory := some value }
  | _ => .error s!"unexpected argument '{name}' found"

/-- The options with an expression, of which there can be one. -/
def withExpression (options : Options) (text : String) : Except String Options :=
  if options.expression.isSome then .error s!"unexpected argument '{text}' found"
  else .ok { options with expression := some text }

/-- Whether an argument is an option. -/
def isOption (argument : String) : Bool :=
  match argument.toList with
  | '-' :: _ :: _ => true
  | _ => false

/-- Name and value of an option that has its value behind an equals sign. -/
def splitValue? (argument : String) : Option (String × String) :=
  (Text.splitFirst? (· = '=') argument.toList).map fun (name, value) =>
    (String.ofList name, String.ofList value)

/-- Reads arguments after some options. -/
def readArguments (options : Options) : List String → Except String Options
  | [] => .ok options
  | "--" :: rest => rest.foldlM withExpression options
  | "--no-addons" :: rest => readArguments { options with withoutAddons := true } rest
  | argument :: rest =>
    if !isOption argument then do readArguments (← options.withExpression argument) rest
    else match splitValue? argument with
      | some (name, value) => do readArguments (← options.withValue name value) rest
      | none =>
        match rest with
        | value :: rest => do readArguments (← options.withValue argument value) rest
        | [] => .error s!"a value is required for '{argument}' but none was supplied"

/-- Reads the arguments of the command line. -/
def ofArguments (arguments : List String) : Except String Options := readArguments {} arguments

/-- The settings of a file with those of the command line in their place. -/
def settings (options : Options) (saved : Settings) : Settings :=
  { saved with
    precisionBits := options.precision.getD saved.precisionBits
    rounding := options.rounding.getD saved.rounding
    displayPrecision := options.digits.getD saved.displayPrecision }

end Options

end Reckoner
