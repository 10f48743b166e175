/-
Programs of the script language.

A program has functions and statements. The statements outside of functions run only when another
program imports this one. A block has the value of its last statement, or no value if that ends with
a semicolon.

* `ScriptTerm` — expressions and statements.
* `ScriptFunction`, `ScriptProgram` — functions by name and number of parameters, and statements.
* `ScriptProgram.parse?` — the program of a source text; none if it is not well formed.
-/

import Reckoner.Script.Token

namespace Reckoner

/-! ### Terms -/

/-- An expression or a statement. -/
inductive ScriptTerm where
  | value (v : ScriptValue)
  | array (items : List ScriptTerm)
  | map (entries : List (String × ScriptTerm))
  | name (name : String) (place : Place)
  | negative (operand : ScriptTerm) (place : Place)
  | inverse (operand : ScriptTerm) (place : Place)
  | binary (op : ScriptOp) (left right : ScriptTerm) (place : Place)
  | call (name : String) (arguments : List ScriptTerm) (place : Place)
  /-- A call of a function of an imported program. -/
  | callIn (imported : String) (importedPlace : Place) (name : String)
      (arguments : List ScriptTerm) (place : Place)
  | block (terms : List ScriptTerm)
  | declare (name : String) (value : ScriptTerm)
  /-- An assignment, which first combines the old value with the new one if there is an operator. -/
  | assign (name : String) (place : Place) (op : Option ScriptOp) (opPlace : Place)
      (value : ScriptTerm)
  | conditional (condition : ScriptTerm) (place : Place) (yes no : ScriptTerm)
  | loop (condition : ScriptTerm) (place : Place) (body : ScriptTerm)
  | leaveLoop (value : ScriptTerm)
  | nextRound
  | giveBack (value : ScriptTerm)
  | fail (value : ScriptTerm) (place : Place)
  /-- Imports the program at a path, under a name if there is one. -/
  | importFrom (path : ScriptTerm) (place : Place) (name : Option String)

/-- A function of a program. -/
structure ScriptFunction where
  name : String
  parameters : List String
  body : ScriptTerm
  /-- Whether programs that import this one cannot call it. -/
  isPrivate : Bool

/-- A program: its functions, and the statements outside of them. -/
structure ScriptProgram where
  functions : List ScriptFunction
  statements : List ScriptTerm

namespace ScriptProgram

/-- The function of a name with a number of parameters. -/
def find? (program : ScriptProgram) (name : String) (arity : Nat) : Option ScriptFunction :=
  program.functions.find? fun f => f.name = name && f.parameters.length = arity

/-- The function of a name with a number of parameters that programs which import this one can
call. -/
def findPublic? (program : ScriptProgram) (name : String) (arity : Nat) : Option ScriptFunction :=
  (program.find? name arity).filter fun f => !f.isPrivate

/-- The names of the functions, with the number of their parameters. -/
def signatures (program : ScriptProgram) : List (String × Nat) :=
  program.functions.map fun f => (f.name, f.parameters.length)

end ScriptProgram

/-! ### Parsing -/

/-- Takes part of a program off the start of a list of tokens. -/
abbrev ScriptParser := StateT (List ScriptLexeme) Option

namespace ScriptParser

/-- The next token, which stays. -/
def next? : ScriptParser (Option ScriptLexeme) := return (← get).head?

/-- Takes a token. -/
def take : ScriptParser ScriptLexeme := do
  match ← get with
  | lexeme :: rest => set rest; pure lexeme
  | [] => failure

/-- Takes a symbol if it is the next token. -/
def accept (sign : String) : ScriptParser Bool := do
  match ← get with
  | ⟨.symbol found, _⟩ :: rest => if found = sign then set rest; pure true else pure false
  | _ => pure false

/-- Takes a symbol, which has to be the next token. -/
def expect (sign : String) : ScriptParser Unit := do
  if !(← accept sign) then failure

/-- Takes a keyword if it is the next token. -/
def acceptWord (word : String) : ScriptParser Bool := do
  match ← get with
  | ⟨.keyword found, _⟩ :: rest => if found = word then set rest; pure true else pure false
  | _ => pure false

/-- Takes a name. -/
def takeName : ScriptParser String := do
  match (← take).token with
  | .name name => pure name
  | _ => failure

/-- The place of the next token. -/
def here : ScriptParser Place := do
  match ← next? with
  | some lexeme => pure lexeme.place
  | none => failure

/-- Whether a statement ends before the next token. -/
def atEnd : ScriptParser Bool := do
  match ← next? with
  | none => pure true
  | some ⟨.symbol sign, _⟩ => pure (sign = ";" || sign = "\x7d")
  | _ => pure false

/-- Items up to a closing symbol, with commas between them. The last one may have a comma too. -/
def separated {α : Type} (closing : String) (item : ScriptParser α) :
    (fuel : Nat) → ScriptParser (List α)
  | 0 => failure
  | fuel + 1 => do
    if ← accept closing then pure []
    else
      let first ← item
      if ← accept "," then
        let rest ← separated closing item fuel
        pure (first :: rest)
      else
        expect closing
        pure [first]

/-! ### Operators -/

/-- The operator that a symbol stands for between two operands, and how tightly it binds. -/
def operator? (sign : String) : Option (ScriptOp × Nat) :=
  match sign with
  | "||" => some (.or, 1)
  | "&&" => some (.and, 2)
  | "==" => some (.equal, 3)
  | "!=" => some (.notEqual, 3)
  | "<" => some (.less, 4)
  | "<=" => some (.lessEqual, 4)
  | ">" => some (.greater, 4)
  | ">=" => some (.greaterEqual, 4)
  | "+" => some (.add, 5)
  | "-" => some (.sub, 5)
  | "*" => some (.mul, 6)
  | "/" => some (.div, 6)
  | "%" => some (.rem, 6)
  | "**" => some (.pow, 7)
  | _ => none

/-- The operator of an assignment, if it has one. -/
def assignment? (sign : String) : Option (Option ScriptOp) :=
  match sign with
  | "=" => some none
  | "+=" => some (some .add)
  | "-=" => some (some .sub)
  | "*=" => some (some .mul)
  | "/=" => some (some .div)
  | "%=" => some (some .rem)
  | "**=" => some (some .pow)
  | _ => none

/-- A sign in front of an operand. A negative number is one value. -/
def negate (operand : ScriptTerm) (place : Place) : ScriptTerm :=
  match operand with
  | .value (.int n) => .value (.int (-n))
  | .value (.float d) => .value (.float d.neg)
  | operand => .negative operand place

/-- No value. -/
def nothing : ScriptTerm := .value .unit

/-- A word after which no semicolon is needed. -/
def closesItself (lexeme : ScriptLexeme) : Bool :=
  match lexeme.token with
  | .keyword word => word = "if" || word = "while" || word = "loop"
  | .symbol sign => sign = "\x7b"
  | _ => false

/-! ### Expressions and statements -/

mutual

/-- An operand with the signs in front of it. -/
def operand (inLoop : Bool) : (fuel : Nat) → ScriptParser ScriptTerm
  | 0 => failure
  | fuel + 1 => do
    let place ← here
    if ← accept "-" then return negate (← operand inLoop fuel) place
    else if ← accept "+" then operand inLoop fuel
    else if ← accept "!" then return .inverse (← operand inLoop fuel) place
    else primary inLoop fuel

/-- An operand without signs. -/
def primary (inLoop : Bool) : (fuel : Nat) → ScriptParser ScriptTerm
  | 0 => failure
  | fuel + 1 => do
    match ← next? with
    | none => failure
    | some lexeme =>
      if closesItself lexeme then compound inLoop fuel
      else
        let lexeme ← take
        match lexeme.token with
        | .literal value => pure (.value value)
        | .name name =>
          if ← accept "(" then
            return .call name (← separated ")" (expression inLoop fuel) fuel) lexeme.place
          else if ← accept "::" then
            let place ← here
            let function ← takeName
            expect "("
            return .callIn name lexeme.place function
              (← separated ")" (expression inLoop fuel) fuel) place
          else pure (.name name lexeme.place)
        | .symbol "(" =>
          if ← accept ")" then pure nothing
          else
            let inner ← expression inLoop fuel
            expect ")"
            pure inner
        | .symbol "[" => return .array (← separated "]" (expression inLoop fuel) fuel)
        | .symbol "#\x7b" => return .map (← separated "\x7d" (entry inLoop fuel) fuel)
        | _ => failure

/-- An entry of a map. -/
def entry (inLoop : Bool) : (fuel : Nat) → ScriptParser (String × ScriptTerm)
  | 0 => failure
  | fuel + 1 => do
    let name ← match (← take).token with
      | .name name => pure name
      | .literal (.text name) => pure name
      | _ => failure
    expect ":"
    return (name, ← expression inLoop fuel)

/-- An expression that ends with a brace. -/
def compound (inLoop : Bool) : (fuel : Nat) → ScriptParser ScriptTerm
  | 0 => failure
  | fuel + 1 => do
    if ← acceptWord "if" then
      let place ← here
      let condition ← expression inLoop fuel
      let yes ← block inLoop fuel
      if ← acceptWord "else" then
        match ← next? with
        | some ⟨.keyword "if", _⟩ =>
          return .conditional condition place yes (← compound inLoop fuel)
        | _ => return .conditional condition place yes (← block inLoop fuel)
      else pure (.conditional condition place yes nothing)
    else if ← acceptWord "while" then
      let place ← here
      let condition ← expression inLoop fuel
      return .loop condition place (← block true fuel)
    else if ← acceptWord "loop" then
      let place ← here
      return .loop (.value (.bool true)) place (← block true fuel)
    else block inLoop fuel

/-- Statements between braces. -/
def block (inLoop : Bool) : (fuel : Nat) → ScriptParser ScriptTerm
  | 0 => failure
  | fuel + 1 => do
    expect "\x7b"
    return .block (← statements inLoop fuel)

/-- Statements up to a closing brace. -/
def statements (inLoop : Bool) : (fuel : Nat) → ScriptParser (List ScriptTerm)
  | 0 => failure
  | fuel + 1 => do
    if ← accept "\x7d" then pure []
    else if ← accept ";" then statements inLoop fuel
    else
      let closed := (← next?).any closesItself
      let first ← statement inLoop fuel
      if ← accept ";" then
        let rest ← statements inLoop fuel
        pure (first :: if rest.isEmpty then [nothing] else rest)
      else if closed then return first :: (← statements inLoop fuel)
      else
        expect "\x7d"
        pure [first]

/-- A statement. -/
def statement (inLoop : Bool) : (fuel : Nat) → ScriptParser ScriptTerm
  | 0 => failure
  | fuel + 1 => do
    let place ← here
    let optional : ScriptParser ScriptTerm := do
      if ← atEnd then pure nothing else expression inLoop fuel
    if ← acceptWord "let" then
      let name ← takeName
      if ← accept "=" then return .declare name (← expression inLoop fuel)
      else pure (.declare name nothing)
    else if ← acceptWord "break" then
      if inLoop then return .leaveLoop (← optional) else failure
    else if ← acceptWord "continue" then
      if inLoop then pure .nextRound else failure
    else if ← acceptWord "return" then return .giveBack (← optional)
    else if ← acceptWord "throw" then return .fail (← optional) place
    else if ← acceptWord "import" then
      let place ← here
      let path ← expression inLoop fuel
      if ← acceptWord "as" then return .importFrom path place (← takeName)
      else pure (.importFrom path place none)
    else if (← next?).any closesItself then compound inLoop fuel
    else
      let target ← expression inLoop fuel
      match target, ← next? with
      | .name name namePlace, some ⟨.symbol sign, opPlace⟩ =>
        match assignment? sign with
        | some op =>
          discard take
          return .assign name namePlace op opPlace (← expression inLoop fuel)
        | none => pure target
      | _, _ => pure target

/-- An expression. -/
def expression (inLoop : Bool) : (fuel : Nat) → ScriptParser ScriptTerm
  | 0 => failure
  | fuel + 1 => do
    let first ← operand inLoop fuel
    climb inLoop fuel 0 first

/-- Takes the operators that bind more tightly than `limit`, with their operands. Powers group to
the right. -/
def climb (inLoop : Bool) : (fuel : Nat) → (limit : Nat) → ScriptTerm → ScriptParser ScriptTerm
  | 0, _, _ => failure
  | fuel + 1, limit, left => do
    match ← next? with
    | some ⟨.symbol sign, place⟩ =>
      match operator? sign with
      | some (op, strength) =>
        if strength ≤ limit then pure left
        else
          discard take
          let first ← operand inLoop fuel
          let right ← climb inLoop fuel (if op = .pow then strength - 1 else strength) first
          climb inLoop fuel limit (.binary op left right place)
      | none => pure left
    | _ => pure left

end

/-! ### Programs -/

/-- A function after its keyword. -/
def function (isPrivate : Bool) (fuel : Nat) : ScriptParser ScriptFunction := do
  let name ← takeName
  expect "("
  let parameters ← separated ")" takeName fuel
  if !parameters.Nodup then failure
  let body ← block false fuel
  pure ⟨name, parameters, body, isPrivate⟩

/-- The functions and statements of a program. -/
def program : (fuel : Nat) → ScriptParser ScriptProgram
  | 0 => failure
  | fuel + 1 => do
    if (← get).isEmpty then pure ⟨[], []⟩
    else if ← accept ";" then program fuel
    else
      let isPrivate ← acceptWord "private"
      if ← acceptWord "fn" then
        let first ← function isPrivate fuel
        let rest ← program fuel
        if (rest.find? first.name first.parameters.length).isSome then failure
        pure { rest with functions := first :: rest.functions }
      else
        if isPrivate then failure
        let closed := (← next?).any closesItself
        let first ← statement false fuel
        let followed := (← accept ";") || (← get).isEmpty
        if closed || followed then
          let rest ← program fuel
          pure { rest with statements := first :: rest.statements }
        else failure

end ScriptParser

/-- The program of a source text; none if it is not well formed. -/
def ScriptProgram.parse? (source : String) : Option ScriptProgram := do
  let lexemes ← scanScript? source
  let (program, rest) ← (ScriptParser.program (16 * lexemes.length + 16)).run lexemes
  if rest.isEmpty then some program else none

end Reckoner
