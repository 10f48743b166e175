/-
Errors as they are shown below the line of text that they are about.

Offsets into the text count characters. A span is underlined, and an arm leads from its middle to
the message; the message of a related place has an arm of its own below the first one.

* `sourceLines`, `locate?` — the lines of a text, and the line of an offset.
* `Diagnostic.render` — a diagnostic with the line it is about.
* `SessionError.render` — an error; one without a place is shown on a line of its own.
-/

import Reckoner.Session.Diagnostic
import Reckoner.Text.Width

namespace Reckoner

/-! ### Lines of a text -/

/-- A line of a text with its end, and how many characters and lines are before it. -/
structure SourceLine where
  index : Nat
  offset : Nat
  content : List Char
deriving DecidableEq

/-- Whether a character ends a line. -/
def endsLine (c : Char) : Bool :=
  [0xA, 0xB, 0xC, 0xD, 0x85, 0x2028, 0x2029].contains c.toNat

/-- The lines of a text with their ends. A carriage return takes a line feed with it. -/
def splitLines : List Char → List (List Char)
  | [] => []
  | '\r' :: '\n' :: rest => ['\r', '\n'] :: splitLines rest
  | c :: rest =>
    if endsLine c then [c] :: splitLines rest
    else match splitLines rest with
      | [] => [[c]]
      | line :: lines => (c :: line) :: lines

/-- Numbers some lines that follow `index` lines with `offset` characters. -/
def numberLines (index offset : Nat) : List (List Char) → List SourceLine
  | [] => []
  | content :: rest =>
    ⟨index, offset, content⟩ :: numberLines (index + 1) (offset + content.length) rest

/-- The lines of a text. An empty text has one line. -/
def sourceLines (text : List Char) : List SourceLine :=
  if text.isEmpty then [⟨0, 0, []⟩] else numberLines 0 0 (splitLines text)

/-- The line of an offset; none for an offset behind the end of the text. -/
def locate? (text : List Char) (offset : Nat) : Option SourceLine :=
  if text.length < offset then none
  else ((sourceLines text).filter fun line => line.offset ≤ offset).getLast?

/-! ### Pictures -/

/-- A character of a line as it is shown, and its number of columns. A tab ends at the next fourth
column. -/
def shownInLine (c : Char) (column : Nat) : Char × Nat :=
  if c = '\t' then (' ', (column / 4 + 1) * 4 - column)
  else if Text.isBlank c then (' ', 1)
  else (c, Text.columns c)

/-- The characters of a line as they are shown, from a column on. -/
def shownLine (column : Nat) : List Char → List Char
  | [] => []
  | c :: rest =>
    let (shown, width) := shownInLine c column
    (if shown = ' ' then List.replicate width ' ' else [shown]) ++ shownLine (column + 1) rest

/-- A picture below a line: at each column up to `count` what `cell` gives, a character and what
fills up the columns of a wide one. -/
def picture (content : List Char) (count : Nat) (cell : Nat → Char × Char) : List Char :=
  (List.range count).flatMap fun column =>
    let width := content[column]?.elim 1 fun c => (shownInLine c column).2
    let (first, tail) := cell column
    (if width = 0 then [] else [first]) ++ List.replicate (width - 1) tail

/-- The underlined span from `start` to `stop` with the root of an arm at `middle`, or only the arm
below the first message. -/
def underlinePicture (line : List Char) (start stop middle : Nat) (first : Bool) : List Char :=
  picture line (stop + 2) fun column =>
    let underlined := first && start ≤ column && column < stop
    if column = middle then (if underlined then ('┬', '─') else ('│', ' '))
    else if underlined then ('─', '─') else (' ', ' ')

/-- The arm from `middle` to a message. -/
def armPicture (line : List Char) (stop middle : Nat) : List Char :=
  picture line (stop + 2) fun column =>
    if column = middle then ('╰', '─') else if middle < column then ('─', '─') else (' ', ' ')

namespace Diagnostic

/-- The messages below the line, each with its arm. -/
def messageLines (margin : String) (line : List Char) (start stop middle : Nat) (first : Bool) :
    List String → List String
  | [] => []
  | message :: rest =>
    (margin ++ String.ofList (underlinePicture line start stop middle first)) ::
      (margin ++ String.ofList (armPicture line stop middle) ++ " " ++ message) ::
        messageLines margin line start stop middle false rest

/-- The lines below the headline: where the error is, the line of text, the messages and the
help. -/
def bodyLines (d : Diagnostic) (line : SourceLine) : List String :=
  let content := Text.trimRight line.content
  let number := toString (line.index + 1)
  let indent := String.ofList (List.replicate (number.length + 2) ' ')
  let margin := indent ++ "│ "
  let start := d.span.start - line.offset
  let stop := min (max d.span.start d.span.stop) (line.offset + line.content.length) - line.offset
  let help := match d.help with
    | some help => [margin, margin ++ "Help: " ++ help]
    | none => []
  [indent ++ "╭─[ <input>:" ++ number ++ ":" ++ toString (start + 1) ++ " ]",
    indent ++ "│",
    " " ++ number ++ " │ " ++ String.ofList (shownLine 0 content)] ++
    messageLines margin content start stop ((start + stop) / 2) true
      (d.message :: d.related.map Prod.snd) ++
    help ++ [String.ofList (List.replicate (number.length + 2) '─') ++ "╯"]

/-- A diagnostic with the line of the text it is about. -/
def render (d : Diagnostic) (text : String) : String :=
  let headline := "[" ++ d.code ++ "] Error: " ++ d.message
  let body := (locate? text.toList d.span.start).elim [] d.bodyLines
  String.join ((headline :: body).map (· ++ "\n"))

end Diagnostic

/-- An error as it is shown for a text. -/
def SessionError.render (error : SessionError) (text : String) : String :=
  if error.hasPlace then error.diagnostic.render text else "error: " ++ error.message ++ "\n"

end Reckoner
