/-
Texts as descriptions show them: between quotes, on one line.

* `shown` — a text with quotes, backslashes, control characters and unusual blanks escaped.
* `shownList` — a list of texts between brackets.
-/

import Reckoner.Text.Blank

namespace Reckoner.Text

/-- Whether a character would not be seen in a description. -/
def isInvisible (c : Char) : Bool :=
  c.toNat < 32 || (127 ≤ c.toNat && c.toNat < 160) || (isBlank c && c ≠ ' ')

/-- A character as descriptions show it. -/
def shownChar (c : Char) : List Char :=
  match c with
  | '"' => ['\\', '"']
  | '\\' => ['\\', '\\']
  | '\t' => ['\\', 't']
  | '\n' => ['\\', 'n']
  | '\r' => ['\\', 'r']
  | '\x00' => ['\\', '0']
  | c =>
    if isInvisible c then ['\\', 'u', '\x7b'] ++ Nat.toDigits 16 c.toNat ++ ['\x7d'] else [c]

/-- A text as descriptions show it. -/
def shown (text : String) : String :=
  String.ofList ('"' :: (text.toList.flatMap shownChar ++ ['"']))

/-- A list of texts as descriptions show it. -/
def shownList (texts : List String) : String :=
  "[" ++ String.intercalate ", " (texts.map shown) ++ "]"

end Reckoner.Text
