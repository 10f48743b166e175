/-
What an evaluation reads and what it changes.

* `Environment` — the symbols, scripts, precision and limit of depth, which stay as they are.
* `EvalState` — the frames of the functions being called and the assignments made so far.
* `Eval` — a computation that changes the state and may fail. The state is there after a failure
  too.
* `Eval.withFrame` — runs the body of a function in a frame of its own.
-/

import Reckoner.Evaluation.Error
import Reckoner.Script.Registry
import Reckoner.Symbols.Table

namespace Reckoner

/-- Precision of computed values and limit of depth of an evaluation. -/
structure EvalOptions where
  context : Context
  maxDepth : Nat
deriving DecidableEq

/-- What an evaluation reads. -/
structure Environment where
  table : SymbolTable
  scripts : ScriptRegistry
  options : EvalOptions

/-- Values by name. -/
abbrev Bindings := NameMap Number

/-- What an evaluation changes. -/
structure EvalState where
  /-- The bindings of the functions being called, the innermost first. -/
  frames : List Bindings
  /-- The assignments made outside of functions. -/
  pending : Bindings

namespace EvalState

/-- The state before an evaluation. -/
def initial : EvalState := ⟨[], ∅⟩

/-- The value of a name in the innermost function. -/
def bound? (state : EvalState) (name : String) : Option Number :=
  state.frames.head?.bind fun frame => frame[name]?

/-- The value of a name in the innermost function or, failing that, among the assignments. -/
def value? (state : EvalState) (name : String) : Option Number :=
  (state.bound? name).or state.pending[name]?

/-- Assigns to a name in the innermost function, or outside of functions. -/
def bind (state : EvalState) (name : String) (value : Number) : EvalState :=
  match state.frames with
  | frame :: callers => { state with frames := frame.insert name value :: callers }
  | [] => { state with pending := state.pending.insert name value }

/-- A table with the assignments made outside of functions. -/
def commit (state : EvalState) (table : SymbolTable) : SymbolTable :=
  table ∪ state.pending.map fun _ value => .variable ⟨value, none⟩

end EvalState

/-- A computation on the state that may fail. -/
abbrev Eval := ExceptT EvalError (StateM EvalState)

namespace Eval

/-- The result of an operation on numbers, whose violations are placed at `span`. -/
def ofDomain (span : Span) : Except DomainError Number → Eval Number
  | .ok value => pure value
  | .error error => throw (.domain error span)

/-- Runs a computation in a new frame, which is gone afterwards. -/
def withFrame {α : Type} (frame : Bindings) (body : Eval α) : Eval α := fun state =>
  let (result, after) := body { state with frames := frame :: state.frames }
  (result, { after with frames := after.frames.tail })

/-- Runs the body of the function `name`, called at `span`. -/
def inFunction {α : Type} (name : String) (span : Span) (body : Eval α) : Eval α := fun state =>
  let (result, after) := body state
  (result.mapError (.throughCall name span), after)

end Eval

end Reckoner
