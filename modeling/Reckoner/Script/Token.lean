/-
Tokens of the script language.

* `Place` — line and column in a script, counted from one.
* `ScriptToken` — numbers, texts, characters, names, keywords and symbols.
* `ScriptToken.first?` — the token at the start of a text, with the number of characters it takes.
* `scanScript?` — the tokens of a script with their places; none if some part of it is no token.
-/

import Reckoner.Script.Value

namespace Reckoner

/-- A line and a column in a script, counted from one. -/
structure Place where
  line : Nat
  column : Nat
deriving DecidableEq

namespace Place

/-- The place after a character. -/
def after (place : Place) (c : Char) : Place :=
  if c = '\n' then ⟨place.line + 1, 1⟩ else ⟨place.line, place.column + 1⟩

/-- How messages write a place. -/
def text (place : Place) : String := s!"line {place.line}, position {place.column}"

end Place

/-- A token of the script language. -/
inductive ScriptToken where
  | literal (value : ScriptValue)
  | name (name : String)
  | keyword (word : String)
  | symbol (sign : String)

namespace ScriptToken

/-! ### Words -/

/-- Words that are no names: those with a meaning, and those that are set aside. -/
def keywords : List String :=
  ["true", "false", "let", "if", "else", "while", "loop", "break", "continue", "return", "throw",
    "fn", "private", "const", "do", "until", "for", "in", "switch", "try", "catch", "import",
    "export", "as", "global", "this", "var", "static", "shared", "each", "then", "goto", "unless",
    "match", "case", "public", "protected", "new", "use", "with", "is", "module", "package",
    "super", "thread", "spawn", "go", "await", "async", "sync", "yield", "default", "void", "null", "nil"]

/-- The token of a word. A name needs a letter after its leading underscores. -/
def ofWord? (word : List Char) : Option ScriptToken :=
  let text := String.ofList word
  if text = "true" then some (.literal (.bool true))
  else if text = "false" then some (.literal (.bool false))
  else if keywords.contains text then some (.keyword text)
  else if ((word.dropWhile (· = '_')).head?).any isLetter then some (.name text)
  else none

/-! ### Texts -/

/-- What of an escape has been read: nothing, a backslash, or a code with `left` more digits. -/
inductive Escape where
  | closed
  | begun
  | code (value left : Nat)

/-- The text up to its closing quote, and how many characters it takes with that quote. -/
def untilQuote? (quote : Char) : Escape → List Char → Option (List Char × Nat)
  | _, [] => none
  | .closed, c :: rest =>
    if c = quote then some ([], 1)
    else if c = '\\' then (untilQuote? quote .begun rest).map fun (t, n) => (t, n + 1)
    else if c = '\n' then none
    else (untilQuote? quote .closed rest).map fun (t, n) => (c :: t, n + 1)
  | .begun, c :: rest =>
    let escaped (meant : Char) :=
      (untilQuote? quote .closed rest).map fun (t, n) => (meant :: t, n + 1)
    let coded (digits : Nat) :=
      (untilQuote? quote (.code 0 digits) rest).map fun (t, n) => (t, n + 1)
    match c with
    | '\\' => escaped '\\'
    | '"' => escaped '"'
    | '\'' => escaped '\''
    | 'n' => escaped '\n'
    | 'r' => escaped '\r'
    | 't' => escaped '\t'
    | 'x' => coded 2
    | 'u' => coded 4
    | 'U' => coded 8
    | _ => none
  | .code value left, c :: rest =>
    match hexValue? c with
    | none => none
    | some digit =>
      let value := 16 * value + digit
      if 1 < left then
        (untilQuote? quote (.code value (left - 1)) rest).map fun (t, n) => (t, n + 1)
      else if value.isValidChar then
        (untilQuote? quote .closed rest).map fun (t, n) => (Char.ofNat value :: t, n + 1)
      else none

/-! ### Numbers -/

/-- Digits and underscores at the start of a text, at least one of them a digit in front. -/
def digitRun (text : List Char) : List Char :=
  if text.head?.any isDigit then text.takeWhile fun c => isDigit c || c = '_' else []

/-- Length of the fraction at the start of a text, with its point. A point may also end a number
if nothing that could be a name follows it. -/
def fractionLength : List Char → Nat
  | '.' :: rest =>
    let digits := digitRun rest
    if !digits.isEmpty then digits.length + 1
    else match rest with
      | c :: _ => if isNameStart c || c = '.' then 0 else 1
      | [] => 0
  | _ => 0

/-- Length of the exponent at the start of a text, with its mark. -/
def exponentLength : List Char → Nat
  | 'e' :: rest =>
    let signed := if rest.head?.any fun c => c = '+' || c = '-' then 1 else 0
    let digits := digitRun (rest.drop signed)
    if digits.isEmpty then 0 else 1 + signed + digits.length
  | _ => 0

/-- The number at the start of a text, and how many characters it takes. An integer that does not
fit is a double. -/
def number? (text : List Char) : Option (ScriptToken × Nat) :=
  let whole := digitRun text
  let rest := text.drop whole.length
  let fraction := fractionLength rest
  let exponent := exponentLength (rest.drop fraction)
  let length := whole.length + fraction + exponent
  let digits := (text.take length).filter (· ≠ '_')
  let n := digitsValue digits
  if fraction + exponent = 0 && n < 2 ^ 63 then some (.literal (.int n), length)
  else (Binary64.ofText? (String.ofList digits)).map fun d => (.literal (.float d), length)

/-! ### Symbols -/

/-- Symbols, longer ones before those that start them. -/
def symbols : List String :=
  ["**=", "**", "+=", "-=", "*=", "/=", "%=", "==", "!=", "<=", ">=", "&&", "||", "::", "#\x7b", "+",
    "-", "*", "/", "%", "=", "<", ">", "!", "(", ")", "\x7b", "\x7d", "[", "]", ",", ";", ":"]

/-- Symbols that are set aside. -/
def reservedSymbols : List String := ["===", "!==", "++", "--", "->", "<-", ":=", "=>"]

/-- The symbol at the start of a text, and how many characters it takes. -/
def symbol? (text : List Char) : Option (ScriptToken × Nat) :=
  if reservedSymbols.any fun sign => sign.toList.isPrefixOf text then none
  else (symbols.find? fun sign => sign.toList.isPrefixOf text).map fun sign =>
    (.symbol sign, sign.length)

/-- The token at the start of a text, and how many characters it takes. -/
def first? (text : List Char) : Option (ScriptToken × Nat) :=
  match text with
  | [] => none
  | c :: rest =>
    if isDigit c then number? text
    else if isNameStart c then
      let word := text.takeWhile isNameChar
      (ofWord? word).map fun token => (token, word.length)
    else if c = '"' then
      (untilQuote? '"' .closed rest).map fun (content, n) =>
        (.literal (.text (String.ofList content)), n + 1)
    else if c = '\'' then
      match untilQuote? '\'' .closed rest with
      | some ([content], n) => some (.literal (.char content), n + 1)
      | _ => none
    else symbol? text

end ScriptToken

/-- A token and where it starts. -/
structure ScriptLexeme where
  token : ScriptToken
  place : Place

/-! ### Comments and blanks -/

/-- Length of the comment at the start of a text, where `depth` comments between `/*` and `*/` are
open; none if one of them is not closed. -/
def commentLength? : (depth : Nat) → List Char → Option Nat
  | 0, '/' :: '*' :: rest => (commentLength? 1 rest).map (· + 2)
  | 0, '/' :: '/' :: rest => some (2 + (rest.takeWhile (· ≠ '\n')).length)
  | 0, _ => some 0
  | _ + 1, [] => none
  | depth + 1, '*' :: '/' :: rest =>
    if depth = 0 then some 2 else (commentLength? depth rest).map (· + 2)
  | depth + 1, '/' :: '*' :: rest => (commentLength? (depth + 2) rest).map (· + 2)
  | depth + 1, _ :: rest => (commentLength? (depth + 1) rest).map (· + 1)

/-- Whether a character may stand between tokens. -/
def isScriptBlank (c : Char) : Bool := c = ' ' || c = '\t' || c = '\n' || c = '\r' || c = '\x0c'

/-- The tokens of a text that starts at `place`, of which the first `skipped` characters belong to a
token or comment already found. -/
def scanScriptFrom? : (skipped : Nat) → Place → List Char → Option (List ScriptLexeme)
  | _, _, [] => some []
  | skipped + 1, place, c :: rest => scanScriptFrom? skipped (place.after c) rest
  | 0, place, c :: rest =>
    if isScriptBlank c then scanScriptFrom? 0 (place.after c) rest
    else match commentLength? 0 (c :: rest) with
      | none => none
      | some (length + 1) => scanScriptFrom? length (place.after c) rest
      | some 0 =>
        match ScriptToken.first? (c :: rest) with
        | none => none
        | some (token, length) =>
          (scanScriptFrom? (length - 1) (place.after c) rest).map fun lexemes =>
            ⟨token, place⟩ :: lexemes

/-- The tokens of a script. -/
def scanScript? (source : String) : Option (List ScriptLexeme) :=
  scanScriptFrom? 0 ⟨1, 1⟩ source.toList

end Reckoner
