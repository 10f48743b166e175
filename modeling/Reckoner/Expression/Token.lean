/-
Tokens of calculator input.

* `numberLength`, `nameLength` — the written forms of numbers and names.
* `Token.longest` — the longest token at the start of a text.
* `lex` — the tokens of a text with their spans. After a token is found, its characters are counted
  off while the text is walked through, so the recursion is on the text alone.
-/

import Reckoner.Number.Decimal
import Reckoner.Expression.Basic

namespace Reckoner

/-- A token. A character that starts no token stands for itself. -/
inductive Token where
  | number (text : String)
  | name (text : String)
  | op (op : BinaryOp)
  | opening
  | closing
  | comma
  | semicolon
  | becomes
  | other (c : Char)
deriving DecidableEq

/-- A token, its first character, and its place in the text. -/
structure Lexeme where
  token : Token
  first : Char
  span : Span
deriving DecidableEq

/-! ### Written forms -/

/-- Blanks that may stand between tokens. -/
def isSpace (c : Char) : Bool := c = ' ' || c = '\t' || c = '\r' || c = '\n'

/-- Number of digits at the start of a text. -/
def digitCount (text : List Char) : Nat := (text.takeWhile isDigit).length

/-- Length of the exponent at the start of a text: a mark, an optional sign and digits. Zero if
there is none. -/
def exponentLength : List Char → Nat
  | mark :: text =>
    if Numeral.isExponentMark mark then
      let signed := match text with
        | c :: _ => if c = '+' || c = '-' then 1 else 0
        | [] => 0
      let digits := digitCount (text.drop signed)
      if digits = 0 then 0 else 1 + signed + digits
    else 0
  | [] => 0

/-- Length of the digits at the start of a text with their optional fraction, or of a point with at
least one digit. Zero if there is neither. -/
def mantissaLength (text : List Char) : Nat :=
  let whole := digitCount text
  match text.drop whole with
  | '.' :: fraction =>
    let digits := digitCount fraction
    if whole = 0 && digits = 0 then 0 else whole + 1 + digits
  | _ => whole

/-- Length of the number at the start of a text; zero if there is none. -/
def numberLength (text : List Char) : Nat :=
  let mantissa := mantissaLength text
  if mantissa = 0 then 0 else mantissa + exponentLength (text.drop mantissa)

/-- Length of the name at the start of a text; zero if there is none. -/
def nameLength : List Char → Nat
  | c :: rest => if isNameStart c then 1 + (rest.takeWhile isNameChar).length else 0
  | [] => 0

/-- The token that a single character makes up. -/
def Token.ofChar (c : Char) : Token :=
  match c with
  | '+' => .op .add
  | '-' => .op .sub
  | '*' => .op .mul
  | '/' => .op .div
  | '%' => .op .rem
  | '^' => .op .pow
  | '(' => .opening
  | ')' => .closing
  | ',' => .comma
  | ';' => .semicolon
  | _ => .other c

/-- The longest token at the start of the text `c :: rest`, and how many characters of `rest` it
takes up. -/
def Token.longest (c : Char) (rest : List Char) : Token × Nat :=
  let text := c :: rest
  let number := numberLength text
  let name := nameLength text
  if number ≠ 0 then (.number (String.ofList (text.take number)), number - 1)
  else if name ≠ 0 then (.name (String.ofList (text.take name)), name - 1)
  else if c = ':' && rest.head? = some '=' then (.becomes, 1)
  else (.ofChar c, 0)

/-! ### Tokens of a text -/

/-- The tokens of a text that starts at byte `offset`, of which the first `skipped` characters
belong to a token already found. -/
def lexFrom : (skipped offset : Nat) → (text : List Char) → List Lexeme
  | _, _, [] => []
  | skipped + 1, offset, c :: rest => lexFrom skipped (offset + c.utf8Size) rest
  | 0, offset, c :: rest =>
    let next := offset + c.utf8Size
    if isSpace c then lexFrom 0 next rest
    else
      let (token, extent) := Token.longest c rest
      ⟨token, c, offset, next + Text.byteLength (rest.take extent)⟩ :: lexFrom extent next rest

/-- The tokens of a text. -/
def lex (text : List Char) : List Lexeme := lexFrom 0 0 text

end Reckoner
