/-
Reading programs.

Input is one or more statements between semicolons, the last of which may be followed by one. The
operators bind, from loosest to tightest: `+ -`, then `* / %`, then signs, then `^`. The last one
groups to the right, the others to the left; a sign may follow any of them.

* `ParseError` — what was expected in place of what, or a text nested too deeply.
* `checkNesting` — the limit on open parentheses and on signs in a row, taken on the raw text.
* `Parse` — the state between two tokens: finished statements, operators waiting for an operand, and
  the operand at hand. `Parse.step` takes one token.
* `parse` — the program of a text.
-/

import Reckoner.Expression.Token

namespace Reckoner

/-! ### Errors -/

/-- What a program can go on with at some point. -/
inductive Expected where
  /-- A statement, at the very start of the text. -/
  | program
  /-- A statement, at the start of the text but for blanks. -/
  | firstStatement
  /-- Another statement or the end, after a semicolon. -/
  | nextStatement
  /-- An expression, after an opening parenthesis, a comma or `:=`. -/
  | expression
  /-- An operand, after an operator. -/
  | operand
  /-- An operator or the end, after an operand. -/
  | operatorOrEnd
  /-- An operator, after an operand inside parentheses. -/
  | operator
deriving DecidableEq

/-- How messages list what is expected. -/
def Expected.text : Expected → String
  | program => "expression"
  | firstStatement => "expression or identifier"
  | nextStatement => "end of input, expression or identifier"
  | expression => "expression"
  | operand => "expression, number or identifier"
  | operatorOrEnd => "end of input or operator"
  | operator => "operator"

/-- Why a text is refused. -/
inductive ParseFault where
  /-- Something else stands where one of the expected things is due; nothing at the end. -/
  | unexpected (expected : Expected) (found : Option Char)
  /-- A number literal that cannot be represented. -/
  | invalidNumber (text : String)
  | tooDeep (depth limit : Nat)
  /-- A program that is not a single expression. -/
  | notSingle
deriving DecidableEq

/-- A refused text, and the place to point at. -/
structure ParseError where
  fault : ParseFault
  span : Span
deriving DecidableEq

namespace ParseFault

/-- The message for a refused text. -/
def message : ParseFault → String
  | unexpected expected (some c) =>
    "Expected " ++ expected.text ++ ", found '" ++ String.singleton c ++ "'"
  | unexpected expected none => "Expected " ++ expected.text ++ ", found end of input"
  | invalidNumber text => s!"Invalid number literal '{text}'"
  | tooDeep _ limit => s!"Expression nesting depth exceeds maximum of {limit} levels"
  | notSingle => "expected a single expression"

/-- The code of a refusal. -/
def code : ParseFault → String
  | unexpected .. => "P001"
  | invalidNumber _ => "P003"
  | tooDeep .. => "P004"
  | notSingle => "P999"

/-- How to mend a refused text, where something can be said about it. -/
def help? : ParseFault → Option String
  | invalidNumber _ => some s!"Decimal exponents are limited to {maxDecimalExponent}"
  | tooDeep .. => some "Reduce nesting or simplify the expression"
  | _ => none

end ParseFault

/-- The full text of a refusal: message, code and help. -/
def ParseError.text (error : ParseError) : String :=
  let help := match error.fault.help? with
    | some help => "\nhelp: " ++ help
    | none => ""
  "error: " ++ error.fault.message ++ " [" ++ error.fault.code ++ "]" ++ help

/-! ### The limit on nesting -/

/-- Default limit on open parentheses and on signs in a row. -/
def defaultNesting : Nat := 256

/-- Walks a text from byte `offset` with `depth` open parentheses and `signs` signs in a row, and
refuses it where either passes `limit`. Blanks do not end a row of signs. -/
def checkNestingFrom (limit : Nat) :
    (depth signs offset : Nat) → List Char → Except ParseError Unit
  | _, _, _, [] => .ok ()
  | depth, signs, offset, c :: rest =>
    let next := offset + c.utf8Size
    if c = '(' then
      if limit < depth + 1 then .error ⟨.tooDeep (depth + 1) limit, offset, offset + 1⟩
      else checkNestingFrom limit (depth + 1) 0 next rest
    else if c = ')' then checkNestingFrom limit (depth - 1) 0 next rest
    else if c = '+' || c = '-' then
      if limit < signs + 1 then .error ⟨.tooDeep (signs + 1) limit, offset, offset + 1⟩
      else checkNestingFrom limit depth (signs + 1) next rest
    else if Text.isBlank c then checkNestingFrom limit depth signs next rest
    else checkNestingFrom limit depth 0 next rest

/-- Refuses a text that is nested too deeply. -/
def checkNesting (limit : Nat) (text : List Char) : Except ParseError Unit :=
  checkNestingFrom limit 0 0 0 text

/-! ### Binding strength -/

/-- How tightly an operator binds the operand on its right. -/
def BinaryOp.strength : BinaryOp → Nat
  | add => 1
  | sub => 1
  | mul => 2
  | div => 2
  | rem => 2
  | pow => 4

/-- How tightly a sign binds its operand. -/
def Sign.strength : Nat := 3

/-- Waiting operators of at least this strength take the operand before the operator. Powers group
to the right, so none waits any longer for one of them. -/
def BinaryOp.threshold (op : BinaryOp) : Nat :=
  match op with
  | pow => op.strength + 1
  | _ => op.strength

/-- The sign that an operator is where an operand is due. -/
def BinaryOp.sign? : BinaryOp → Option Sign
  | add => some .plus
  | sub => some .minus
  | _ => none

/-! ### The state between two tokens -/

/-- Something that waits for what follows it. -/
inductive Waiting where
  /-- A sign that starts at a byte. -/
  | sign (sign : Sign) (start : Nat)
  /-- An operator with its left operand. -/
  | infixOp (op : BinaryOp) (left : Expr)
  /-- An opening parenthesis. -/
  | group
  /-- The parenthesis of a call, with the arguments before the last comma, the last one first. -/
  | call (name : String) (nameSpan : Span) (arguments : List Expr)

/-- Whether what waits is an open parenthesis. -/
def Waiting.isOpen : Waiting → Bool
  | group => true
  | call .. => true
  | _ => false

/-- The operand at hand. -/
inductive Operand where
  /-- None: one is due. -/
  | due
  /-- A name just read, which may turn out to be called or assigned to. -/
  | name (text : String) (span : Span)
  | complete (e : Expr)

/-- The state between two tokens. -/
structure Parse where
  /-- The finished statements, the last one first. -/
  finished : List Statement
  /-- The name that the current statement assigns to. -/
  target : Option (String × Span)
  /-- What waits in the current statement, the last one first. -/
  waiting : List Waiting
  operand : Operand

namespace Parse

/-- The state before the first token. -/
def start : Parse := ⟨[], none, [], .due⟩

/-- What can follow at byte `offset`. -/
def expected (state : Parse) (offset : Nat) : Expected :=
  match state.operand with
  | .due => match state.waiting with
    | .sign .. :: _ => .operand
    | .infixOp .. :: _ => .operand
    | _ :: _ => .expression
    | [] =>
      if state.target.isSome then .expression
      else if !state.finished.isEmpty then .nextStatement
      else if offset = 0 then .program
      else .firstStatement
  | _ => if state.waiting.any Waiting.isOpen then .operator else .operatorOrEnd

/-- The error of finding `found`, or the end of the text, at byte `offset`. -/
def refuse {α : Type} (state : Parse) (offset : Nat) (found : Option Char) : Except ParseError α :=
  .error ⟨.unexpected (state.expected offset) found, offset, offset⟩

/-- Gives the operand to the waiting operators of at least a given strength. -/
def reduce (threshold : Nat) : List Waiting → Expr → List Waiting × Expr
  | .sign sign start :: rest, e =>
    if threshold ≤ Sign.strength then reduce threshold rest (.unary sign e ⟨start, e.span.stop⟩)
    else (.sign sign start :: rest, e)
  | .infixOp op left :: rest, e =>
    if threshold ≤ op.strength then
      reduce threshold rest (.binary op left e (left.span.join e.span))
    else (.infixOp op left :: rest, e)
  | waiting, e => (waiting, e)

/-- The statement that ends with the expression `e`. -/
def statement (state : Parse) (e : Expr) : Statement :=
  match state.target with
  | some (name, nameSpan) => .assign name nameSpan e
  | none => .expr e

/-- Takes a token where the operand `e` is complete. -/
def afterOperand (state : Parse) (e : Expr) (lexeme : Lexeme) : Except ParseError Parse :=
  let refused := state.refuse lexeme.span.start lexeme.first
  match lexeme.token with
  | .op op =>
    let (waiting, left) := reduce op.threshold state.waiting e
    .ok { state with waiting := .infixOp op left :: waiting, operand := .due }
  | .closing =>
    match reduce 0 state.waiting e with
    | (.group :: rest, inner) => .ok { state with waiting := rest, operand := .complete inner }
    | (.call name nameSpan arguments :: rest, last) =>
      let e := Expr.call name nameSpan (arguments.reverse ++ [last]) (nameSpan.join lexeme.span)
      .ok { state with waiting := rest, operand := .complete e }
    | _ => refused
  | .comma =>
    match reduce 0 state.waiting e with
    | (.call name nameSpan arguments :: rest, last) =>
      .ok { state with waiting := .call name nameSpan (last :: arguments) :: rest, operand := .due }
    | _ => refused
  | .semicolon =>
    match reduce 0 state.waiting e with
    | ([], e) => .ok ⟨state.statement e :: state.finished, none, [], .due⟩
    | _ => refused
  | _ => refused

/-- Takes a token. -/
def step (state : Parse) (lexeme : Lexeme) : Except ParseError Parse :=
  let refused := state.refuse lexeme.span.start lexeme.first
  match state.operand with
  | .due =>
    match lexeme.token with
    | .number text => .ok { state with operand := .complete (.number text lexeme.span) }
    | .name text => .ok { state with operand := .name text lexeme.span }
    | .opening => .ok { state with waiting := .group :: state.waiting }
    | .op op =>
      match op.sign? with
      | some sign => .ok { state with waiting := .sign sign lexeme.span.start :: state.waiting }
      | none => refused
    | .closing =>
      match state.waiting with
      | .call name nameSpan [] :: rest =>
        let e := Expr.call name nameSpan [] (nameSpan.join lexeme.span)
        .ok { state with waiting := rest, operand := .complete e }
      | _ => refused
    | _ => refused
  | .name text nameSpan =>
    match lexeme.token with
    | .opening =>
      .ok { state with waiting := .call text nameSpan [] :: state.waiting, operand := .due }
    | .becomes =>
      if state.waiting.isEmpty && state.target.isNone then
        .ok { state with target := some (text, nameSpan), operand := .due }
      else refused
    | _ => state.afterOperand (.ident text nameSpan) lexeme
  | .complete e => state.afterOperand e lexeme

/-- The program, at the end of a text of `length` bytes. -/
def finish (state : Parse) (length : Nat) : Except ParseError Program :=
  let finishWith (e : Expr) : Except ParseError Program :=
    match reduce 0 state.waiting e with
    | ([], e) => .ok (state.statement e :: state.finished).reverse
    | _ => state.refuse length none
  match state.operand with
  | .complete e => finishWith e
  | .name text span => finishWith (.ident text span)
  | .due =>
    if state.waiting.isEmpty && state.target.isNone && !state.finished.isEmpty then
      .ok state.finished.reverse
    else state.refuse length none

end Parse

/-! ### Programs of a text -/

/-- The program of a text that keeps to a limit on nesting. -/
def parseWithin (limit : Nat) (source : String) : Except ParseError Program := do
  let text := source.toList
  checkNesting limit text
  let state ← (lex text).foldlM Parse.step Parse.start
  state.finish (Text.byteLength text)

/-- The program of a text. -/
def parse (source : String) : Except ParseError Program := parseWithin defaultNesting source

/-- The expression of a text that is a single expression. -/
def parseExpression (source : String) : Except ParseError Expr := do
  let program ← parse source
  match program with
  | [.expr e] => .ok e
  | _ => .error ⟨.notSingle, (program.getLast?.map Statement.span).getD ⟨0, 0⟩⟩

end Reckoner
