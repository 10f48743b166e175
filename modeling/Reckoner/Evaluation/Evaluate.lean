/-
The value of a program.

Names are looked up in the innermost function, among the assignments made so far, in the table of
symbols, and at last among the built-in constants and functions. Assignments outside of functions
are kept apart and reach the table only if the whole program succeeds; those inside a function are
gone when it returns.

* `node` — one node of a tree, given how to evaluate the nodes below it and the bodies of functions.
* `eval` — a tree within a number of levels. A node uses up one level, and a call one more.
* `run` — the statements of a program, one after the other.
* `evaluate` — the value of a text, and the table afterwards.
-/

import Reckoner.Evaluation.State

namespace Reckoner

/-! ### Names -/

/-- The value of a name that is not called. -/
def lookup (env : Environment) (name : String) (span : Span) : Eval Number := do
  match (← get).value? name with
  | some value => pure value
  | none =>
    match env.table[name]? with
    | some (.variable named) => pure named.value
    | some (.constant named) => pure named.value
    | some symbol => throw (.notAValue name symbol.kind span)
    | none =>
      match constant? name env.options.context with
      | some value => pure value
      | none => throw (.unknownSymbol name span)

/-- Assigns to a name. Only variables, names bound in the innermost function and new names can be
assigned to. -/
def assign (env : Environment) (name : String) (span : Span) (value : Number) : Eval Unit := do
  if ((← get).bound? name).isNone then
    match env.table.kind? name with
    | none | some .variable => pure ()
    | some kind => throw (.readOnly name kind span)
  modify (·.bind name value)

/-! ### Statements -/

/-- A statement, given how to evaluate expressions. -/
def runStatement (env : Environment) (eval : Expr → Eval Number) : Statement → Eval Number
  | .assign name nameSpan expression => do
    let value ← eval expression
    assign env name nameSpan value
    pure value
  | .expr expression => eval expression

/-- The value of the last of some statements, given how to evaluate expressions. -/
def run (env : Environment) (eval : Expr → Eval Number) (program : Program) : Eval Number :=
  program.foldlM (fun _ statement => runStatement env eval statement) .zero

/-! ### Calls -/

/-- Calls a function with values for its arguments, given how to evaluate expressions of its
body. -/
def callFunction (env : Environment) (eval : Expr → Eval Number) (name : String)
    (function : UserFunction) (values : List Number) (span : Span) : Eval Number := do
  if values.length ≠ function.arity then
    throw (.arity name (.exactly function.arity) values.length span)
  match parse function.expression with
  | .error error => throw (.inFunction name (.parse error) span)
  | .ok body =>
    let frame : Bindings := .ofList (function.arguments.zip values) compare
    Eval.inFunction name span (Eval.withFrame frame (run env eval body))

/-- Calls a script with values for its arguments. -/
def callScript (env : Environment) (name : String) (ref : ScriptRef) (values : List Number)
    (span : Span) : Eval Number := do
  if values.length ≠ ref.arity then
    throw (.arity name (.exactly ref.arity) values.length span)
  match env.scripts.run ref (values.map Number.toBinary64) with
  | .error error => throw (.script name error.message span)
  | .ok result =>
    match Number.ofBinary64 result with
    | .error error => throw (.script name error.message span)
    | .ok value => pure (value.roundTo env.options.context)

/-- Calls a built-in function with values for its arguments. -/
def callBuiltin (env : Environment) (name : String) (builtin : Builtin) (values : List Number)
    (span : Span) : Eval Number :=
  match builtin.result? values env.options.context with
  | some result => .ofDomain span result
  | none => throw (.arity name builtin.arity values.length span)

/-- Calls what a name stands for, given how to evaluate the arguments and the bodies of
functions. -/
def call (env : Environment) (argument body : Expr → Eval Number) (name : String)
    (arguments : List Expr) (span : Span) : Eval Number := do
  if ((← get).value? name).isSome then throw (.notCallable name .variable span)
  match env.table[name]? with
  | some (.function function) =>
    callFunction env body name function (← arguments.mapM argument) span
  | some (.script ref) => callScript env name ref (← arguments.mapM argument) span
  | some symbol => throw (.notCallable name symbol.kind span)
  | none =>
    match Builtin.ofName? name with
    | some builtin => callBuiltin env name builtin (← arguments.mapM argument) span
    | none => throw (.unknownSymbol name span)

/-! ### Expressions -/

/-- The value of a sign and its operand. -/
def Sign.apply : Sign → Number → Number
  | minus, x => x.negate
  | plus, x => x

/-- The value of an operator and its operands. -/
def BinaryOp.apply (op : BinaryOp) (x y : Number) (ctx : Context) : Except DomainError Number :=
  match op with
  | add => (x.add y ctx).checked "addition"
  | sub => (x.sub y ctx).checked "subtraction"
  | mul => x.mul y ctx
  | div => x.div y ctx
  | rem => x.rem y ctx
  | pow => x.pow y ctx

/-- The value of a number as it is written. -/
def literal (ctx : Context) (text : String) (span : Span) : Eval Number :=
  match Number.fromDecimal text ctx.bits ctx.rounding with
  | .ok value => pure value
  | .error _ => throw (.parse ⟨.invalidNumber text, span⟩)

/-- A node of a tree, given how to evaluate the nodes below it and the bodies of functions. -/
def node (env : Environment) (child body : Expr → Eval Number) : Expr → Eval Number
  | .number text span => literal env.options.context text span
  | .ident name span => lookup env name span
  | .unary sign operand _ => sign.apply <$> child operand
  | .binary op left right span => do
    let x ← child left
    let y ← child right
    .ofDomain span (op.apply x y env.options.context)
  | .call name _ arguments span => call env child body name arguments span

/-- A tree within a number of levels. The depth of a node is what is missing from the levels of the
whole program, which are one more than the limit allows: at the limit, and one beyond it in the body
of a function, nothing is evaluated any more. -/
def eval (env : Environment) : (levels : Nat) → Expr → Eval Number
  | 0, e => throw (.stackOverflow (env.options.maxDepth + 1) env.options.maxDepth e.span)
  | 1, e => throw (.stackOverflow env.options.maxDepth env.options.maxDepth e.span)
  | levels + 2, e => node env (eval env (levels + 1)) (eval env levels) e

/-! ### Programs -/

/-- The value of a text, and the table afterwards: with the assignments of the text if it has a
value, and as it was otherwise. -/
def evaluate (text : String) (table : SymbolTable) (scripts : ScriptRegistry)
    (options : EvalOptions) : Except EvalError Number × SymbolTable :=
  let env : Environment := ⟨table, scripts, options⟩
  match parse text with
  | .error error => (.error (.parse error), table)
  | .ok program =>
    match run env (eval env (options.maxDepth + 1)) program EvalState.initial with
    | (.ok value, state) => (.ok value, state.commit table)
    | (.error error, _) => (.error error, table)

end Reckoner
