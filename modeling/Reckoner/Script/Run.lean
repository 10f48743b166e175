/-
Running programs of the script language.

A program may import others, so a run asks for files. What it imports is there until the block or
the function around it ends.

* `ScriptFault` — why a call fails, with the place in the script.
* `ScriptUnit` — a program with the path it was imported by.
* `ScriptRun` — a computation on the variables of a call, which counts its steps.
* `ScriptProgram.call` — calls a function of a program within a budget of steps.
-/

import Reckoner.Files.Inquiry
import Reckoner.Script.Program

namespace Reckoner

/-! ### Faults -/

/-- Why a call of a script fails. -/
inductive ScriptFault where
  /-- No function has this name, or none takes these arguments. -/
  | unknownFunction (signature : String) (place : Option Place)
  | unknownVariable (name : String) (place : Place)
  | arithmetic (message : String) (place : Place)
  | wrongType (found expected : String) (place : Place)
  | thrown (value : ScriptValue) (place : Place)
  /-- A fault inside a function, of the program at `path`, that another one calls at `place`. -/
  | inCall (name path : String) (cause : ScriptFault) (place : Place)
  /-- No file is there to import, or nothing has been imported under this name. -/
  | unknownProgram (path : String) (place : Place)
  /-- A fault inside a program that is imported at `place`. -/
  | inImport (path : String) (cause : ScriptFault) (place : Place)
  /-- The source text of a program is not well formed. -/
  | malformed
  | tooManySteps
  | tooManyCalls

namespace ScriptFault

/-- A message with the place it is about. -/
def placed (message : String) (place : Place) : String := message ++ " (" ++ place.text ++ ")"

/-- The message for a failed call. -/
def message : ScriptFault → String
  | unknownFunction signature none => "Function not found: " ++ signature
  | unknownFunction signature (some place) => placed ("Function not found: " ++ signature) place
  | unknownVariable name place => placed ("Variable not found: " ++ name) place
  | arithmetic message place => placed message place
  | wrongType found expected place =>
    placed ("Data type incorrect: " ++ found ++ " (expecting " ++ expected ++ ")") place
  | thrown value place =>
    let text := value.display
    placed (if text.isEmpty then "Runtime error" else "Runtime error: " ++ text) place
  | inCall name path cause place =>
    let source := if path.isEmpty then "" else " @ '" ++ path ++ "'"
    placed (cause.message ++ "\nin call to function '" ++ name ++ "'" ++ source) place
  | unknownProgram path place => placed ("Module not found: " ++ path) place
  | inImport path cause place =>
    placed ("Error in module '" ++ path ++ "' > " ++ cause.message) place
  | malformed => "<compile>"
  | tooManySteps => "Too many operations"
  | tooManyCalls => "Stack overflow"

/-- A fault as the caller of a function sees it. Limits concern the whole run. -/
def throughCall (name path : String) (place : Place) : ScriptFault → ScriptFault
  | tooManySteps => tooManySteps
  | tooManyCalls => tooManyCalls
  | fault => inCall name path fault place

end ScriptFault

/-! ### Computations -/

/-- A program where it runs. -/
structure ScriptUnit where
  program : ScriptProgram
  /-- The path that it was imported by; empty for a program that was not. -/
  path : String
  /-- What it has imported itself, by name, the last first. -/
  imported : List (String × ScriptUnit)

/-- What ends a statement early. -/
inductive ScriptExit where
  | leaveLoop (value : ScriptValue)
  | nextRound
  | giveBack (value : ScriptValue)

/-- The state of a run. -/
structure ScriptState where
  /-- The variables in scope, the innermost first. -/
  scope : List (String × ScriptValue)
  /-- The imported programs in scope, the innermost first. -/
  imported : List (String × ScriptUnit)
  /-- Steps taken so far. -/
  steps : Nat
  /-- Calls that are open. -/
  calls : Nat

/-- A computation on the state of a run. It may ask for files, end early, and fail. -/
abbrev ScriptRun := ExceptT ScriptExit (StateT ScriptState (Inquiry ScriptFault))

namespace ScriptRun

/-- Fails. -/
def fault {α : Type} (fault : ScriptFault) : ScriptRun α := fun _ => .done (.error fault)

/-- Asks for the file at a path. -/
def ask (path : List Char) : ScriptRun (Except FileError String) := fun state =>
  .ask path fun answer => pure (.ok answer, state)

/-- Counts a step against a budget, in which zero stands for no bound. -/
def step (budget : Nat) : ScriptRun Unit := do
  let state ← get
  if budget ≠ 0 && budget < state.steps + 1 then fault .tooManySteps
  set { state with steps := state.steps + 1 }

/-- Runs a computation whose own variables and imports are gone afterwards. -/
def inBlock {α : Type} (body : ScriptRun α) : ScriptRun α := fun state => do
  let (result, after) ← body state
  let own := after.scope.length - state.scope.length
  pure (result, { after with scope := after.scope.drop own, imported := state.imported })

/-- The variables with a new value for the innermost one of this name; none without one. -/
def update? (name : String) (value : ScriptValue) :
    List (String × ScriptValue) → Option (List (String × ScriptValue))
  | [] => none
  | (other, old) :: rest =>
    if other = name then some ((name, value) :: rest)
    else (update? name value rest).map ((other, old) :: ·)

/-- The result of an operator at a place. -/
def applied (op : ScriptOp) (x y : ScriptValue) (place : Place) : ScriptRun ScriptValue :=
  match op.apply x y with
  | .ok value => pure value
  | .error (.arithmetic message) => fault (.arithmetic message place)
  | .error .undefined =>
    fault (.unknownFunction
      (op.sign ++ " (" ++ x.typeName ++ ", " ++ y.typeName ++ ")") (some place))

/-- A value that has to be true or false. -/
def truth (value : ScriptValue) (place : Place) : ScriptRun Bool :=
  match value with
  | .bool b => pure b
  | value => fault (.wrongType value.typeName "bool" place)

/-- Repeats a round until it gives a value; `fuel` bounds the number of rounds. -/
def rounds (round : ScriptRun (Option ScriptValue)) : (fuel : Nat) → ScriptRun ScriptValue
  | 0 => fault .tooManySteps
  | fuel + 1 => fun state => do
    match ← round state with
    | (.ok none, after) => rounds round fuel after
    | (.ok (some value), after) => pure (.ok value, after)
    | (.error (.leaveLoop value), after) => pure (.ok value, after)
    | (.error .nextRound, after) => rounds round fuel after
    | (.error exit, after) => pure (.error exit, after)

/-- Most calls that may be open inside the first one. -/
def maxCalls : Nat := 64

/-- Runs the body of a function on its own variables, with more imports than its caller has. -/
def inFunction (body : ScriptRun ScriptValue) (scope : List (String × ScriptValue))
    (imported : List (String × ScriptUnit)) : ScriptRun ScriptValue := fun state => do
  let inside : ScriptState :=
    { state with scope, imported := imported ++ state.imported, calls := state.calls + 1 }
  let (result, after) ← body inside
  let back : ScriptState := { state with steps := after.steps }
  match result with
  | .error (.giveBack value) => pure (.ok value, back)
  | result => pure (result, back)

/-- Runs the statements of a program that is imported, which tells what it imports itself. -/
def inImport (body : ScriptRun ScriptValue) : ScriptRun (List (String × ScriptUnit)) :=
  fun state => do
    let (result, after) ← body { state with scope := [] }
    let own := after.imported.take (after.imported.length - state.imported.length)
    let back : ScriptState := { state with steps := after.steps }
    match result with
    | .ok _ => pure (.ok own, back)
    | .error (.giveBack _) => pure (.ok own, back)
    | .error exit => pure (.error exit, back)

/-- The computation with another fault. -/
def mapFault {α : Type} (f : ScriptFault → ScriptFault) (body : ScriptRun α) : ScriptRun α :=
  fun state => (body state).mapError f

end ScriptRun

/-! ### Running terms -/

namespace ScriptProgram

open ScriptRun

/-- The extension of the files that can be imported. -/
def extension : String := "rhai"

/-- The types of values, as messages write them. -/
def typeNames (values : List ScriptValue) : String :=
  " (" ++ String.intercalate ", " (values.map ScriptValue.typeName) ++ ")"

/-- The value of a term of a program; `fuel` bounds how deep terms, rounds, calls and imports are
nested. -/
def run (budget : Nat) : (fuel : Nat) → (unit : ScriptUnit) → ScriptTerm → ScriptRun ScriptValue
  | 0, _, _ => fault .tooManySteps
  | fuel + 1, unit, term => do
    let eval := run budget fuel unit
    let callOf (other : ScriptUnit) (function : ScriptFunction) (values : List ScriptValue)
        (place : Place) : ScriptRun ScriptValue := do
      if maxCalls < (← get).calls then fault .tooManyCalls
      let scope := (function.parameters.zip values).reverse
      mapFault (.throughCall function.name other.path place)
        (inFunction (run budget fuel other function.body) scope other.imported)
    step budget
    match term with
    | .value v => pure v
    | .array items => return .array (← items.mapM eval)
    | .map entries =>
      return .map (← entries.mapM fun (name, value) => return (name, ← eval value))
    | .name name place =>
      match (← get).scope.lookup name with
      | some value => pure value
      | none => fault (.unknownVariable name place)
    | .negative operand place =>
      match ← eval operand with
      | .int n =>
        if ScriptOp.fits (-n) then pure (.int (-n))
        else fault (.arithmetic s!"Negation overflow: -{n}" place)
      | .float d => pure (.float d.neg)
      | value => fault (.unknownFunction ("- (" ++ value.typeName ++ ")") (some place))
    | .inverse operand place =>
      match ← eval operand with
      | .bool b => pure (.bool !b)
      | value => fault (.unknownFunction ("! (" ++ value.typeName ++ ")") (some place))
    | .binary .and left right place =>
      if ← truth (← eval left) place then return .bool (← truth (← eval right) place)
      else pure (.bool false)
    | .binary .or left right place =>
      if ← truth (← eval left) place then pure (.bool true)
      else return .bool (← truth (← eval right) place)
    | .binary op left right place =>
      let x ← eval left
      let y ← eval right
      applied op x y place
    | .call name arguments place =>
      let values ← arguments.mapM eval
      match unit.program.find? name values.length with
      | none => fault (.unknownFunction (name ++ typeNames values) (some place))
      | some function => callOf unit function values place
    | .callIn imported importedPlace name arguments place =>
      let values ← arguments.mapM eval
      match (← get).imported.lookup imported with
      | none => fault (.unknownProgram imported importedPlace)
      | some other =>
        match other.program.findPublic? name values.length with
        | none =>
          fault (.unknownFunction (imported ++ "::" ++ name ++ typeNames values) (some place))
        | some function => callOf other function values place
    | .block terms => inBlock (terms.foldlM (fun _ term => eval term) .unit)
    | .declare name value =>
      let value ← eval value
      modify fun state => { state with scope := (name, value) :: state.scope }
      pure .unit
    | .assign name place op opPlace value =>
      let value ← eval value
      let state ← get
      match state.scope.lookup name with
      | none => fault (.unknownVariable name place)
      | some old =>
        let value ← match op with
          | some op => applied op old value opPlace
          | none => pure value
        set { state with scope := (update? name value state.scope).getD [] }
        pure .unit
    | .conditional condition place yes no =>
      if ← truth (← eval condition) place then eval yes else eval no
    | .loop condition place body =>
      let round : ScriptRun (Option ScriptValue) := do
        if ← truth (← eval condition) place then
          discard (eval body)
          pure none
        else pure (some .unit)
      rounds round fuel
    | .leaveLoop value => throw (.leaveLoop (← eval value))
    | .nextRound => throw .nextRound
    | .giveBack value => throw (.giveBack (← eval value))
    | .fail value place => fault (.thrown (← eval value) place)
    | .importFrom path place name =>
      match ← eval path with
      | .text path =>
        let source := Path.join (Path.parent unit.path.toList) path.toList
        match ← ask (Path.withExtension extension.toList source) with
        | .error _ => fault (.unknownProgram path place)
        | .ok text =>
          match parse? text with
          | none => fault (.inImport path .malformed place)
          | some program =>
            let statements := program.statements.foldlM
              (fun _ term => run budget fuel ⟨program, path, []⟩ term) .unit
            let imported ← mapFault (.inImport path · place) (inImport statements)
            if let some name := name then
              modify fun state =>
                { state with imported := (name, ⟨program, path, imported⟩) :: state.imported }
            pure .unit
      | value => fault (.wrongType value.typeName "string" place)

/-- Nesting allowed without a budget, more than any run can reach. -/
def unboundedFuel : Nat := 2 ^ 62

/-- Calls a function with values for its parameters within a budget of steps, in which zero stands
for no bound. -/
def call (program : ScriptProgram) (budget : Nat) (name : String) (arguments : List ScriptValue) :
    Inquiry ScriptFault ScriptValue :=
  match program.find? name arguments.length with
  | none => .done (.error (.unknownFunction name none))
  | some function => do
    let fuel := if budget = 0 then unboundedFuel else budget + 1
    let scope := (function.parameters.zip arguments).reverse
    let (result, _) ←
      inFunction (run budget fuel ⟨program, "", []⟩ function.body) scope [] ⟨[], [], 0, 0⟩
    match result with
    | .ok value => pure value
    | .error _ => pure .unit

end ScriptProgram

end Reckoner
