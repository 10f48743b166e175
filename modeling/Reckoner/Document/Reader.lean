/-
Reading documents in JSON.

A document is read from left to right by a reader for what it should hold, and the first problem
ends the reading. A value of another type is noticed at its first token.

* `Fault` — the text ends too early, is no JSON, or is JSON of another shape.
* `Reader` — takes a value off the start of a text.
* `Reader.string`, `Reader.count`, `Reader.list`, `Reader.entries`, `Reader.optional`,
  `Reader.choice` — readers for texts, counts, lists, maps, optional values and names of a fixed
  set.
* `Reader.skip` — passes over a value of any type.
* `Reader.document` — reads a whole text.
-/

import Reckoner.Document.Json
import Reckoner.Number.Binary64

namespace Reckoner

/-- Why a document cannot be read. -/
inductive Fault where
  /-- The text ends inside a value. -/
  | ended
  /-- A character that JSON does not allow in its place. -/
  | malformed
  /-- A value of the wrong type, out of range, unknown, repeated or missing. -/
  | mismatched
deriving DecidableEq

/-- The category of a fault, as messages name it. -/
def Fault.category : Fault → String
  | ended => "<Eof>"
  | malformed => "<Syntax>"
  | mismatched => "<Data>"

/-- Takes a value off the start of a text. -/
abbrev Reader := StateT (List Char) (Except Fault)

namespace Reader

/-- Whether a character may stand between tokens. -/
def isGap (c : Char) : Bool := c = ' ' || c = '\n' || c = '\t' || c = '\r'

/-- Passes over blanks and gives the next character, which stays. -/
def peek : Reader (Option Char) := fun text =>
  let text := text.dropWhile isGap
  .ok (text.head?, text)

/-- Takes a character off the text. -/
def advance : Reader Unit := modify List.tail

/-- Takes the rest of a word whose first character has been taken. -/
def word : List Char → Reader Unit
  | [] => pure ()
  | expected :: rest => do
    match ← get with
    | [] => throw .ended
    | c :: text => if c = expected then set text; word rest else throw .malformed

/-! ### Text between quotes -/

/-- What of an escape has been read. -/
inductive Escape where
  /-- No escape is open. -/
  | closed
  /-- The backslash. -/
  | begun
  /-- A UTF-16 unit up to its last `left` digits, after the leading unit of a pair if there is
  one. -/
  | unit (leading : Option Nat) (value left : Nat)
  /-- The leading unit of a pair. -/
  | halfPair (leading : Nat)
  /-- The leading unit of a pair and a backslash. -/
  | halfPairBegun (leading : Nat)

/-- The character of a backslash and a letter. -/
def escapedChar? (c : Char) : Option Char :=
  match c with
  | '"' => some '"'
  | '\\' => some '\\'
  | '/' => some '/'
  | 'b' => some '\x08'
  | 'f' => some '\x0c'
  | 'n' => some '\n'
  | 'r' => some '\r'
  | 't' => some '\t'
  | _ => none

/-- Whether a UTF-16 unit is the first of a pair. -/
def isLeading (unit : Nat) : Bool := 0xD800 ≤ unit && unit ≤ 0xDBFF

/-- Whether a UTF-16 unit is the second of a pair. -/
def isTrailing (unit : Nat) : Bool := 0xDC00 ≤ unit && unit ≤ 0xDFFF

/-- The text up to its closing quote, and what follows the quote. Units of pairs are joined if
`paired`; otherwise they stand for themselves, in a text that nobody wants. -/
def untilQuote (paired : Bool) : Escape → List Char → Except Fault (List Char × List Char)
  | _, [] => .error .ended
  | .closed, c :: text =>
    if c = '"' then .ok ([], text)
    else if c = '\\' then untilQuote paired .begun text
    else if c.toNat < 32 then .error .malformed
    else (untilQuote paired .closed text).map fun (content, rest) => (c :: content, rest)
  | .begun, c :: text =>
    if c = 'u' then
      if Text.byteLength (text.take 4) < 4 then .error .ended
      else untilQuote paired (.unit none 0 4) text
    else match escapedChar? c with
      | some meant =>
        (untilQuote paired .closed text).map fun (content, rest) => (meant :: content, rest)
      | none => .error .malformed
  | .unit leading value left, c :: text =>
    match hexValue? c with
    | none => .error .malformed
    | some digit =>
      let value := 16 * value + digit
      if 1 < left then untilQuote paired (.unit leading value (left - 1)) text
      else match leading with
        | some leading =>
          if isTrailing value then
            let code := 0x10000 + (leading - 0xD800) * 0x400 + (value - 0xDC00)
            (untilQuote paired .closed text).map fun (content, rest) =>
              (Char.ofNat code :: content, rest)
          else .error .malformed
        | none =>
          if paired && isTrailing value then .error .malformed
          else if paired && isLeading value then untilQuote paired (.halfPair value) text
          else (untilQuote paired .closed text).map fun (content, rest) =>
            (Char.ofNat value :: content, rest)
  | .halfPair leading, c :: text =>
    if c = '\\' then untilQuote paired (.halfPairBegun leading) text else .error .malformed
  | .halfPairBegun leading, c :: text =>
    if c = 'u' then
      if Text.byteLength (text.take 4) < 4 then .error .ended
      else untilQuote paired (.unit (some leading) 0 4) text
    else .error .malformed

/-- The rest of a text whose opening quote has been taken. -/
def afterQuote (paired : Bool) : Reader String := fun text =>
  (untilQuote paired .closed text).map fun (content, rest) => (String.ofList content, rest)

/-! ### Numbers -/

/-- A number as it is written: sign, digits before and after the point, and exponent. -/
structure Written where
  negative : Bool
  whole : List Char
  fraction : List Char
  exponent : Option Int

namespace Written

/-- The part of a list of digits that still fits behind a significand of 64 bits, as the new
significand with the number of digits it took. -/
def absorb (significand : Nat) : List Char → Nat × Nat
  | [] => (significand, 0)
  | digit :: rest =>
    let longer := 10 * significand + digitValue digit
    if maxCount < longer then (significand, 0)
    else
      let (final, taken) := absorb longer rest
      (final, taken + 1)

/-- Whether a number is beyond every double, computed from as many digits as fit into 64 bits. -/
def isTooLarge (number : Written) : Bool :=
  let (significand, wholeTaken) := absorb 0 number.whole
  let (significand, fractionTaken) := absorb significand number.fraction
  let dropped : Int := number.whole.length - wholeTaken
  let exponent := dropped - fractionTaken + number.exponent.getD 0
  if significand = 0 || exponent < 0 then false
  else if 308 < exponent then true
  else
    let power := Binary64.ofInt (10 ^ exponent.toNat)
    !((Binary64.ofInt significand).mul power).isFinite

/-- The count that a number is, if it is written without sign, fraction and exponent and fits into
64 bits. -/
def count? (number : Written) : Option Nat :=
  let value := digitsValue number.whole
  if number.negative || !number.fraction.isEmpty || number.exponent.isSome || maxCount < value then
    none
  else some value

end Written

/-- Takes the digits at the start of the text. -/
def digits : Reader (List Char) := fun text => .ok (text.takeWhile isDigit, text.dropWhile isDigit)

/-- Takes digits, of which there must be one. -/
def someDigits : Reader (List Char) := do
  match ← get with
  | [] => throw .ended
  | c :: _ => if isDigit c then digits else throw .malformed

/-- Takes an optional sign in front of an exponent. -/
def exponentSign : Reader Bool := do
  match ← get with
  | '-' :: rest => set rest; pure true
  | '+' :: rest => set rest; pure false
  | _ => pure false

/-- Takes an optional exponent. -/
def exponentPart : Reader (Option Int) := do
  match ← get with
  | mark :: rest =>
    if Numeral.isExponentMark mark then
      set rest
      let negative ← exponentSign
      let value : Int := digitsValue (← someDigits)
      pure (some (if negative then -value else value))
    else pure none
  | [] => pure none

/-- Takes an optional fraction. -/
def fractionPart : Reader (List Char) := do
  match ← get with
  | '.' :: rest => set rest; someDigits
  | _ => pure []

/-- Takes the digits before the point, of which a zero must be the only one. -/
def wholePart : Reader (List Char) := do
  let whole ← someDigits
  if whole.head? = some '0' && whole.length ≠ 1 then throw .malformed else pure whole

/-- Takes an optional minus sign. -/
def minusSign : Reader Bool := do
  match ← get with
  | '-' :: rest => set rest; pure true
  | _ => pure false

/-- Takes a number that starts with a digit or a minus sign. -/
def written : Reader Written := do
  let negative ← minusSign
  let whole ← wholePart
  let fraction ← fractionPart
  let exponent ← exponentPart
  pure { negative, whole, fraction, exponent }

/-- Takes a number that some double is close to. -/
def number : Reader Written := do
  let number ← written
  if number.isTooLarge then throw .malformed else pure number

/-- Whether a number starts with a character. -/
def startsNumber (c : Char) : Bool := c = '-' || isDigit c

/-! ### Values of a known type -/

/-- Refuses a value of another type, after taking its first token. -/
def mismatch {α : Type} : Reader α := do
  match ← peek with
  | none => throw .ended
  | some c =>
    if c = 'n' then advance; word ['u', 'l', 'l']
    else if c = 't' then advance; word ['r', 'u', 'e']
    else if c = 'f' then advance; word ['a', 'l', 's', 'e']
    else if startsNumber c then discard number
    else if c = '"' then advance; discard (afterQuote true)
    else if c ≠ '[' && c ≠ '{' then throw .malformed
    throw .mismatched

/-- A text. -/
def string : Reader String := do
  match ← peek with
  | some '"' => advance; afterQuote true
  | _ => mismatch

/-- A count: a natural number of 64 bits without fraction and exponent. -/
def count : Reader Nat := do
  if (← peek).any startsNumber then
    match (← number).count? with
    | some n => pure n
    | none => throw .mismatched
  else mismatch

/-- Null. -/
def null : Reader Unit := do
  match ← peek with
  | some 'n' => advance; word ['u', 'l', 'l']
  | _ => mismatch

/-- A value, or null for none. -/
def optional {α : Type} (value : Reader α) : Reader (Option α) := do
  match ← peek with
  | some 'n' => advance; word ['u', 'l', 'l']; pure none
  | _ => some <$> value

/-- Whether a sequence goes on, with a comma between its parts. If it does not, its closing bracket
stays. -/
def goesOn (closing : Char) (first : Bool) : Reader Bool := do
  match ← peek with
  | none => throw .ended
  | some c =>
    if c = closing then pure false
    else if first then pure true
    else if c = ',' then
      advance
      match ← peek with
      | none => throw .ended
      | some c => if c = closing then throw .malformed else pure true
    else throw .malformed

/-- The items of a list after its opening bracket; `fuel` bounds their number. -/
def items {α : Type} (item : Reader α) : (fuel : Nat) → (first : Bool) → Reader (List α)
  | 0, _ => throw .ended
  | fuel + 1, first => do
    if ← goesOn ']' first then
      let value ← item
      let rest ← items item fuel false
      pure (value :: rest)
    else
      advance
      pure []

/-- Runs a reader with a bound on the number of parts that the rest of the text can have. -/
def bounded {α : Type} (reader : (fuel : Nat) → Reader α) : Reader α := do
  reader ((← get).length + 1)

/-- A list. -/
def list {α : Type} (item : Reader α) : Reader (List α) := do
  match ← peek with
  | some '[' => advance; bounded fun fuel => items item fuel true
  | _ => mismatch

/-- The key of an entry. -/
def key (paired : Bool) : Reader String := do
  match ← peek with
  | none => throw .ended
  | some '"' => advance; afterQuote paired
  | some _ => throw .malformed

/-- The colon between a key and its value. -/
def colon : Reader Unit := do
  match ← peek with
  | none => throw .ended
  | some ':' => advance
  | some _ => throw .malformed

/-- The entries of a map after its opening brace; `fuel` bounds their number. -/
def pairs {α : Type} (paired : Bool) (value : Reader α) :
    (fuel : Nat) → (first : Bool) → Reader (List (String × α))
  | 0, _ => throw .ended
  | fuel + 1, first => do
    if ← goesOn '}' first then
      let name ← key paired
      colon
      let found ← value
      let rest ← pairs paired value fuel false
      pure ((name, found) :: rest)
    else
      advance
      pure []

/-- A map by its entries, in the order of the text. -/
def entries {α : Type} (value : Reader α) : Reader (List (String × α)) := do
  match ← peek with
  | some '{' => advance; bounded fun fuel => pairs true value fuel true
  | _ => mismatch

/-- One of a fixed set of names: as a text, or as the only key of a map, with the value null. -/
def choice {α : Type} (ofName? : String → Option α) : Reader α := do
  let named (name : String) : Reader α := match ofName? name with
    | some value => pure value
    | none => throw .mismatched
  match ← peek with
  | none => throw .ended
  | some '"' => named (← string)
  | some '{' =>
    advance
    let value ← named (← string)
    colon
    null
    match ← peek with
    | none => throw .ended
    | some '}' => advance; pure value
    | some _ => throw .malformed
  | some _ => throw .malformed

/-! ### Values of any type -/

/-- Passes over a number, whose end is never too early. -/
def skipNumber : Reader Unit := fun text =>
  match written text with
  | .ok (_, rest) => .ok ((), rest)
  | .error _ => .error .malformed

/-- Passes over a value; `fuel` bounds how deep it is nested. -/
def skip : (fuel : Nat) → Reader Unit
  | 0 => throw .ended
  | fuel + 1 => do
    match ← peek with
    | none => throw .ended
    | some c =>
      if c = 'n' then advance; word ['u', 'l', 'l']
      else if c = 't' then advance; word ['r', 'u', 'e']
      else if c = 'f' then advance; word ['a', 'l', 's', 'e']
      else if startsNumber c then skipNumber
      else if c = '"' then advance; discard (afterQuote false)
      else if c = '[' then advance; discard (bounded fun n => items (skip fuel) n true)
      else if c = '{' then advance; discard (bounded fun n => pairs false (skip fuel) n true)
      else throw .malformed

/-- Passes over a value. -/
def skipValue : Reader Unit := bounded skip

/-! ### Records -/

/-- A field of a record: its name, whether it may be missing, and how a value is read into the
record. -/
structure Field (α : Type) where
  name : String
  required : Bool
  read : α → Reader α

/-- A record written as a map, after its opening brace; `seen` are the fields that have been read.
Unknown fields are refused if `strict`, and passed over otherwise. -/
def fieldsByName {α : Type} (fields : List (Field α)) (strict : Bool) :
    (fuel : Nat) → (first : Bool) → (seen : List String) → α → Reader α
  | 0, _, _, _ => throw .ended
  | fuel + 1, first, seen, partly => do
    if ← goesOn '}' first then
      let name ← key true
      match fields.find? (·.name = name) with
      | some field =>
        if name ∈ seen then throw .mismatched
        colon
        let partly ← field.read partly
        fieldsByName fields strict fuel false (name :: seen) partly
      | none =>
        if strict then throw .mismatched
        colon
        skipValue
        fieldsByName fields strict fuel false seen partly
    else if fields.any fun field => field.required && !seen.contains field.name then
      throw .mismatched
    else
      advance
      pure partly

/-- A record written as the list of its fields, after its opening bracket. The last fields may be
missing. -/
def fieldsByPlace {α : Type} : List (Field α) → (first : Bool) → α → Reader α
  | [], _, complete => do
    match ← peek with
    | none => throw .ended
    | some ']' => advance; pure complete
    | some _ => throw .malformed
  | field :: rest, first, partly => do
    if ← goesOn ']' first then
      let partly ← field.read partly
      fieldsByPlace rest false partly
    else if (field :: rest).any Field.required then throw .mismatched
    else
      advance
      pure partly

/-- A record, read into one that holds the defaults. -/
def record {α : Type} (fields : List (Field α)) (strict : Bool) (defaults : α) : Reader α := do
  match ← peek with
  | some '{' => advance; bounded fun fuel => fieldsByName fields strict fuel true [] defaults
  | some '[' => advance; fieldsByPlace fields true defaults
  | _ => mismatch

/-! ### Documents -/

/-- What a whole text holds; only blanks may follow it. -/
def document {α : Type} (reader : Reader α) (text : String) : Except Fault α := do
  let (value, rest) ← reader text.toList
  if rest.all isGap then .ok value else .error .malformed

end Reader

end Reckoner
