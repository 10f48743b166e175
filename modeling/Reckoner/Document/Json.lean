/-
JSON values and their written forms.

* `Json` — the values that documents are made of.
* `Json.quoted` — a text between quotes, with only quotes, backslashes and control characters
  escaped.
* `Json.pretty`, `Json.compact` — a value over several lines with two blanks a level, and a value
  without any blank.
-/

import Reckoner.Number.Decimal

namespace Reckoner

/-- A value of a document. -/
inductive Json where
  | null
  | natural (n : Nat)
  | text (content : String)
  | list (items : List Json)
  | record (fields : List (String × Json))

namespace Json

/-- The value of an optional part, null if it is missing. -/
def ofOption {α : Type} (value : α → Json) : Option α → Json
  | some a => value a
  | none => null

/-- A list of texts. -/
def texts (contents : List String) : Json := list (contents.map text)

/-! ### Text between quotes -/

/-- A character as it is written between quotes. -/
def escaped (c : Char) : List Char :=
  match c with
  | '"' => ['\\', '"']
  | '\\' => ['\\', '\\']
  | '\x08' => ['\\', 'b']
  | '\t' => ['\\', 't']
  | '\n' => ['\\', 'n']
  | '\x0c' => ['\\', 'f']
  | '\r' => ['\\', 'r']
  | c =>
    if c.toNat < 32 then ['\\', 'u', '0', '0', hexChar (c.toNat / 16), hexChar (c.toNat % 16)]
    else [c]

/-- A text between quotes. -/
def quoted (content : String) : List Char := '"' :: (content.toList.flatMap escaped ++ ['"'])

/-! ### Values -/

/-- A new line that starts `level` levels deep. -/
def newLine (level : Nat) : List Char := '\n' :: List.replicate (2 * level) ' '

mutual

/-- A value over several lines, the first of which starts `level` levels deep. -/
def pretty (level : Nat) : Json → List Char
  | null => "null".toList
  | natural n => naturalDigits n
  | text content => quoted content
  | list items => '[' :: prettyItems level true items
  | record fields => '{' :: prettyFields level true fields

/-- The rest of a list, from its first item on or from a later one on. -/
def prettyItems (level : Nat) (first : Bool) : List Json → List Char
  | [] => if first then [']'] else newLine level ++ [']']
  | item :: rest =>
    (if first then [] else [',']) ++ newLine (level + 1) ++ item.pretty (level + 1) ++
      prettyItems level false rest

/-- The rest of a record, from its first field on or from a later one on. -/
def prettyFields (level : Nat) (first : Bool) : List (String × Json) → List Char
  | [] => if first then ['}'] else newLine level ++ ['}']
  | (name, value) :: rest =>
    (if first then [] else [',']) ++ newLine (level + 1) ++ quoted name ++ [':', ' '] ++
      value.pretty (level + 1) ++ prettyFields level false rest

end

mutual

/-- A value without any blank. -/
def compact : Json → List Char
  | null => "null".toList
  | natural n => naturalDigits n
  | text content => quoted content
  | list items => '[' :: compactItems true items
  | record fields => '{' :: compactFields true fields

/-- The rest of a list, from its first item on or from a later one on. -/
def compactItems (first : Bool) : List Json → List Char
  | [] => [']']
  | item :: rest => (if first then [] else [',']) ++ item.compact ++ compactItems false rest

/-- The rest of a record, from its first field on or from a later one on. -/
def compactFields (first : Bool) : List (String × Json) → List Char
  | [] => ['}']
  | (name, value) :: rest =>
    (if first then [] else [',']) ++ quoted name ++ ':' :: value.compact ++
      compactFields false rest

end

/-- The text of a document. -/
def prettyText (value : Json) : String := String.ofList (value.pretty 0)

/-- The text of a document on one line. -/
def compactText (value : Json) : String := String.ofList value.compact

end Json

end Reckoner
