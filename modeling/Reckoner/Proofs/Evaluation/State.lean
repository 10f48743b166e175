/-
What an evaluation does to its state.

* `Eval.run_bind`, `run_assign`, `runFrom_cons` — computations applied to a state, step by step.
* `Eval.Quiet` — a computation that leaves the state as it found it, whether it fails or not;
  closed under sequencing.
* `Eval.Confined` — a computation that changes nothing but the innermost frame. The body of a
  function is confined (`run_confined`), and running it in a frame of its own is quiet
  (`withFrame_quiet`).
* `eval_quiet` — **evaluating an expression is quiet**, at every depth and whatever functions it
  calls.
-/

import Reckoner.Evaluation.Evaluate
import Reckoner.Proofs.Outcome

namespace Reckoner

/-! ### Computations applied to a state -/

namespace Eval

variable {α β : Type}

/-- A sequence stops at its first failure, with the state of that moment. -/
theorem run_bind (x : Eval α) (f : α → Eval β) (state : EvalState) :
    (x >>= f) state = match x state with
      | (.ok a, after) => f a after
      | (.error error, after) => (.error error, after) := by
  show (ExceptT.bind x f) state = _
  simp only [ExceptT.bind, ExceptT.mk, bind, StateT.bind]
  rcases x state with ⟨_ | _, after⟩ <;> rfl

theorem run_get (state : EvalState) : (get : Eval EvalState) state = (.ok state, state) := rfl

theorem run_get_bind (f : EvalState → Eval β) (state : EvalState) :
    (get >>= f) state = f state state := by
  rw [run_bind, run_get]

theorem run_map (g : α → β) (x : Eval α) (state : EvalState) :
    (g <$> x) state = ((x state).1.map g, (x state).2) := by
  rw [map_eq_pure_bind, run_bind]
  rcases x state with ⟨_ | _, after⟩ <;> rfl

/-- A sequence succeeds exactly when both of its parts do, one after the other. -/
theorem run_bind_eq_ok {x : Eval α} {f : α → Eval β} {state after : EvalState} {b : β} :
    (x >>= f) state = (.ok b, after) ↔
      ∃ a between, x state = (.ok a, between) ∧ f a between = (.ok b, after) := by
  rw [run_bind]
  rcases x state with ⟨error | a, between⟩
  · constructor
    · rintro ⟨⟩
    · rintro ⟨_, _, ⟨⟩, _⟩
  · constructor
    · intro rest
      exact ⟨a, between, rfl, rest⟩
    · rintro ⟨a', between', same, rest⟩
      cases same
      exact rest

end Eval

/-! ### Quiet computations -/

namespace Eval

variable {α β : Type}

/-- A computation that leaves the state as it found it, whether it fails or not. -/
def Quiet (x : Eval α) : Prop := ∀ state, (x state).2 = state

/-- A quiet computation ends in the state it started in. -/
theorem Quiet.state_eq {x : Eval α} (quiet : Quiet x) {state after : EvalState}
    {result : Except EvalError α} (ran : x state = (result, after)) : after = state := by
  rw [← quiet state, ran]

theorem quiet_pure (a : α) : Quiet (pure a) := fun _ => rfl

theorem quiet_throw (error : EvalError) : Quiet (throw error : Eval α) := fun _ => rfl

theorem Quiet.bind {x : Eval α} {f : α → Eval β} (first : Quiet x) (rest : ∀ a, Quiet (f a)) :
    Quiet (x >>= f) := by
  intro state
  have unchanged := first state
  rw [run_bind]
  rcases ran : x state with ⟨error | a, after⟩
  · rw [ran] at unchanged
    exact unchanged
  · rw [ran] at unchanged
    subst unchanged
    exact rest a after

theorem quiet_compatible : Compatible (m := Eval) (n := Eval) fun _ x _ => Quiet x :=
  ⟨quiet_pure, Quiet.bind⟩

theorem Quiet.map {x : Eval α} (g : α → β) (quiet : Quiet x) : Quiet (g <$> x) :=
  quiet_compatible.map g (y := x) quiet

theorem quiet_ofDomain (span : Span) (result : Except DomainError Number) :
    Quiet (ofDomain span result) := by
  cases result with
  | ok value => exact quiet_pure value
  | error error => exact quiet_throw _

theorem quiet_mapM {f : α → Eval β} (each : ∀ a, Quiet (f a)) (list : List α) :
    Quiet (list.mapM f) :=
  quiet_compatible.mapM (g := f) fun a _ => each a

theorem Quiet.inFunction {x : Eval α} (name : String) (span : Span) (quiet : Quiet x) :
    Quiet (inFunction name span x) := fun state => quiet state

end Eval

/-! ### Confined computations -/

namespace Eval

variable {α β : Type}

/-- A computation that changes nothing but the innermost frame. -/
def Confined (x : Eval α) : Prop :=
  ∀ frame callers pending, ∃ frame',
    (x ⟨frame :: callers, pending⟩).2 = ⟨frame' :: callers, pending⟩

theorem Quiet.confined {x : Eval α} (quiet : Quiet x) : Confined x :=
  fun frame _ _ => ⟨frame, quiet _⟩

theorem Confined.bind {x : Eval α} {f : α → Eval β} (first : Confined x)
    (rest : ∀ a, Confined (f a)) : Confined (x >>= f) := by
  intro frame callers pending
  obtain ⟨frame', changed⟩ := first frame callers pending
  rw [run_bind]
  rcases ran : x ⟨frame :: callers, pending⟩ with ⟨error | a, after⟩
  · rw [ran] at changed
    exact ⟨frame', changed⟩
  · rw [ran] at changed
    subst changed
    exact rest a frame' callers pending

theorem confined_compatible : Compatible (m := Eval) (n := Eval) fun _ x _ => Confined x :=
  ⟨fun a => (quiet_pure a).confined, Confined.bind⟩

/-- **A confined computation in a frame of its own is quiet.** -/
theorem withFrame_quiet (frame : Bindings) {body : Eval α} (confined : Confined body) :
    Quiet (withFrame frame body) := by
  intro state
  obtain ⟨frame', changed⟩ := confined frame state.frames state.pending
  show ({ (body ⟨frame :: state.frames, state.pending⟩).2 with
    frames := (body ⟨frame :: state.frames, state.pending⟩).2.frames.tail } : EvalState) = state
  rw [changed]
  rfl

end Eval

/-! ### Assignments -/

/-- The kind of the symbol that keeps a name from being assigned to. A name bound in the innermost
function can always be assigned to. -/
def protection? (env : Environment) (state : EvalState) (name : String) : Option SymbolKind :=
  if (state.bound? name).isSome then none
  else (env.table.kind? name).filter (· ≠ .variable)

/-- An assignment is refused by a protecting symbol, and binds the name otherwise. -/
theorem run_assign (env : Environment) (name : String) (span : Span) (value : Number)
    (state : EvalState) :
    assign env name span value state = match protection? env state name with
      | some kind => (.error (.readOnly name kind span), state)
      | none => (.ok (), state.bind name value) := by
  unfold assign protection?
  rw [Eval.run_get_bind]
  cases state.bound? name with
  | some _ => rfl
  | none =>
    generalize env.table.kind? name = kind?
    cases kind? with
    | none => rfl
    | some kind => cases kind <;> rfl

theorem assign_confined (env : Environment) (name : String) (span : Span) (value : Number) :
    Eval.Confined (assign env name span value) := by
  intro frame callers pending
  rw [run_assign]
  cases protection? env ⟨frame :: callers, pending⟩ name with
  | some kind => exact ⟨frame, rfl⟩
  | none => exact ⟨frame.insert name value, rfl⟩

/-! ### Statements -/

/-- The value of the last of some statements, or `last` without any, given how to evaluate
expressions. -/
def runFrom (env : Environment) (eval : Expr → Eval Number) (last : Number) (program : Program) :
    Eval Number :=
  program.foldlM (fun _ statement => runStatement env eval statement) last

theorem run_eq_runFrom (env : Environment) (eval : Expr → Eval Number) (program : Program) :
    run env eval program = runFrom env eval .zero program := rfl

theorem runFrom_cons (env : Environment) (eval : Expr → Eval Number) (last : Number)
    (statement : Statement) (rest : Program) :
    runFrom env eval last (statement :: rest) =
      runStatement env eval statement >>= fun value => runFrom env eval value rest :=
  List.foldlM_cons

theorem runFrom_append (env : Environment) (eval : Expr → Eval Number) (last : Number)
    (first second : Program) :
    runFrom env eval last (first ++ second) =
      runFrom env eval last first >>= fun value => runFrom env eval value second :=
  List.foldlM_append

section Statements

variable {env : Environment} {eval : Expr → Eval Number}

theorem runStatement_confined (quiet : ∀ e, Eval.Quiet (eval e)) (statement : Statement) :
    Eval.Confined (runStatement env eval statement) := by
  cases statement with
  | assign name nameSpan e =>
    refine (quiet e).confined.bind fun value => ?_
    exact (assign_confined env name nameSpan value).bind fun _ => (Eval.quiet_pure value).confined
  | expr e => exact (quiet e).confined

theorem runFrom_confined (quiet : ∀ e, Eval.Quiet (eval e)) (last : Number) (program : Program) :
    Eval.Confined (runFrom env eval last program) :=
  Eval.confined_compatible.foldlM (g := fun _ => runStatement env eval)
    (fun _ statement _ => runStatement_confined quiet statement) last

/-- **The statements of a body change nothing but the frame they run in.** -/
theorem run_confined (quiet : ∀ e, Eval.Quiet (eval e)) (program : Program) :
    Eval.Confined (run env eval program) := by
  rw [run_eq_runFrom]
  exact runFrom_confined quiet .zero program

end Statements

/-! ### Names -/

/-- The entries of a table after an evaluation: an assigned value is a variable without a known
number of fractional digits. -/
theorem EvalState.getElem?_commit (state : EvalState) (table : SymbolTable) (name : String) :
    (state.commit table)[name]? =
      (state.pending[name]?.map fun value => .variable ⟨value, none⟩).or table[name]? := by
  unfold EvalState.commit
  rw [Std.ExtTreeMap.getElem?_union, Std.ExtTreeMap.getElem?_map]

/-- What a name stands for: a value bound innermost or assigned so far counts as a variable, and
otherwise the symbol of the table counts. -/
def resolve? (env : Environment) (state : EvalState) (name : String) : Option Symbol :=
  ((state.value? name).map fun value => .variable ⟨value, none⟩).or env.table[name]?

/-- Outside of functions a name stands for its entry of the table that the assignments would
leave. -/
theorem resolve?_eq (env : Environment) (state : EvalState) (name : String) :
    resolve? env state name = ((state.bound? name).map fun value => .variable ⟨value, none⟩).or
      (state.commit env.table)[name]? := by
  rw [resolve?, EvalState.getElem?_commit, EvalState.value?, Option.map_or, Option.or_assoc]

/-- The value of a name that stands for a symbol, or for none. -/
def valueOf (env : Environment) (name : String) (span : Span) :
    Option Symbol → Except EvalError Number
  | some (.variable named) => .ok named.value
  | some (.constant named) => .ok named.value
  | some symbol => .error (.notAValue name symbol.kind span)
  | none =>
    match constant? name env.options.context with
    | some value => .ok value
    | none => .error (.unknownSymbol name span)

/-- The value of a name is that of what it stands for. -/
theorem run_lookup (env : Environment) (name : String) (span : Span) (state : EvalState) :
    lookup env name span state = (valueOf env name span (resolve? env state name), state) := by
  unfold lookup resolve?
  rw [Eval.run_get_bind]
  cases state.value? name with
  | some value => rfl
  | none =>
    simp only [Option.map_none, Option.none_or]
    cases env.table[name]? with
    | some symbol => cases symbol <;> rfl
    | none =>
      simp only [valueOf]
      cases constant? name env.options.context <;> rfl

theorem lookup_quiet (env : Environment) (name : String) (span : Span) :
    Eval.Quiet (lookup env name span) := by
  intro state
  rw [run_lookup]

/-! ### Expressions -/

theorem literal_quiet (ctx : Context) (text : String) (span : Span) :
    Eval.Quiet (literal ctx text span) := by
  unfold literal
  split
  · exact Eval.quiet_pure _
  · exact Eval.quiet_throw _

section Calls

variable {env : Environment} {argument body : Expr → Eval Number}

/-- A call of a function is refused for its number of arguments or for its body. -/
theorem callFunction_eq (env : Environment) (body : Expr → Eval Number) (name : String)
    (function : UserFunction) (values : List Number) (span : Span) :
    callFunction env body name function values span =
      if values.length ≠ function.arity then
        throw (.arity name (.exactly function.arity) values.length span)
      else match parse function.expression with
        | .error error => throw (.inFunction name (.parse error) span)
        | .ok program =>
          Eval.inFunction name span
            (Eval.withFrame (.ofList (function.arguments.zip values) compare)
              (run env body program)) := by
  unfold callFunction
  by_cases wrong : values.length ≠ function.arity
  · rw [if_pos wrong, if_pos wrong]
    rfl
  · exact (if_neg wrong).trans (if_neg wrong).symm

/-- A call of a script is refused for its number of arguments, by the script, or for its result. -/
theorem callScript_eq (env : Environment) (name : String) (ref : ScriptRef)
    (values : List Number) (span : Span) :
    callScript env name ref values span =
      if values.length ≠ ref.arity then
        throw (.arity name (.exactly ref.arity) values.length span)
      else match env.scripts.run ref (values.map Number.toBinary64) with
        | .error error => throw (.script name error.message span)
        | .ok result => match Number.ofBinary64 result with
          | .error error => throw (.script name error.message span)
          | .ok value => pure (value.roundTo env.options.context) := by
  unfold callScript
  by_cases wrong : values.length ≠ ref.arity
  · rw [if_pos wrong, if_pos wrong]
    rfl
  · exact (if_neg wrong).trans (if_neg wrong).symm

theorem callFunction_quiet (quiet : ∀ e, Eval.Quiet (body e)) (name : String)
    (function : UserFunction) (values : List Number) (span : Span) :
    Eval.Quiet (callFunction env body name function values span) := by
  rw [callFunction_eq]
  split
  · exact Eval.quiet_throw _
  · split
    · exact Eval.quiet_throw _
    · exact (Eval.withFrame_quiet _ (run_confined quiet _)).inFunction name span

theorem callScript_quiet (env : Environment) (name : String) (ref : ScriptRef)
    (values : List Number) (span : Span) : Eval.Quiet (callScript env name ref values span) := by
  rw [callScript_eq]
  repeat' split
  all_goals first | exact Eval.quiet_pure _ | exact Eval.quiet_throw _

theorem callBuiltin_quiet (env : Environment) (name : String) (builtin : Builtin)
    (values : List Number) (span : Span) :
    Eval.Quiet (callBuiltin env name builtin values span) := by
  unfold callBuiltin
  split
  · exact Eval.quiet_ofDomain span _
  · exact Eval.quiet_throw _

/-- A call of what a name stands for, or of a built-in function if it stands for nothing. -/
def callOf (env : Environment) (argument body : Expr → Eval Number) (name : String)
    (arguments : List Expr) (span : Span) : Option Symbol → Eval Number
  | some (.function function) =>
    arguments.mapM argument >>= fun values => callFunction env body name function values span
  | some (.script ref) =>
    arguments.mapM argument >>= fun values => callScript env name ref values span
  | some symbol => throw (.notCallable name symbol.kind span)
  | none =>
    match Builtin.ofName? name with
    | some builtin =>
      arguments.mapM argument >>= fun values => callBuiltin env name builtin values span
    | none => throw (.unknownSymbol name span)

/-- A call of a name calls what it stands for. -/
theorem run_call (env : Environment) (argument body : Expr → Eval Number) (name : String)
    (arguments : List Expr) (span : Span) (state : EvalState) :
    call env argument body name arguments span state =
      callOf env argument body name arguments span (resolve? env state name) state := by
  unfold call resolve?
  rw [Eval.run_get_bind]
  cases state.value? name with
  | some value => rfl
  | none =>
    simp only [Option.map_none, Option.none_or]
    cases env.table[name]? with
    | some symbol => cases symbol <;> rfl
    | none =>
      simp only [callOf]
      cases Builtin.ofName? name <;> rfl

theorem callOf_quiet (quietArgument : ∀ e, Eval.Quiet (argument e))
    (quietBody : ∀ e, Eval.Quiet (body e)) (name : String) (arguments : List Expr) (span : Span)
    (symbol : Option Symbol) :
    Eval.Quiet (callOf env argument body name arguments span symbol) := by
  have values := Eval.quiet_mapM quietArgument arguments
  rcases symbol with _ | (named | named | function | ref)
  · simp only [callOf]
    split
    · exact values.bind fun _ => callBuiltin_quiet env name _ _ span
    · exact Eval.quiet_throw _
  · exact Eval.quiet_throw _
  · exact Eval.quiet_throw _
  · exact values.bind fun _ => callFunction_quiet quietBody name _ _ span
  · exact values.bind fun _ => callScript_quiet env name _ _ span

theorem call_quiet (quietArgument : ∀ e, Eval.Quiet (argument e))
    (quietBody : ∀ e, Eval.Quiet (body e)) (name : String) (arguments : List Expr) (span : Span) :
    Eval.Quiet (call env argument body name arguments span) := by
  intro state
  rw [run_call]
  exact callOf_quiet quietArgument quietBody name arguments span _ state

/-- A node is quiet if the nodes below it and the bodies of functions are. -/
theorem node_quiet (quietArgument : ∀ e, Eval.Quiet (argument e))
    (quietBody : ∀ e, Eval.Quiet (body e)) (e : Expr) :
    Eval.Quiet (node env argument body e) := by
  cases e with
  | number text span => exact literal_quiet _ text span
  | ident name span => exact lookup_quiet env name span
  | unary sign operand span => exact (quietArgument operand).map sign.apply
  | binary op left right span =>
    exact (quietArgument left).bind fun x => (quietArgument right).bind fun y =>
      Eval.quiet_ofDomain span _
  | call name nameSpan arguments span =>
    exact call_quiet quietArgument quietBody name arguments span

end Calls

/-- **Evaluating an expression leaves the state as it was**, whatever functions it calls and
wherever it fails. -/
theorem eval_quiet (env : Environment) (levels : Nat) (e : Expr) :
    Eval.Quiet (eval env levels e) := by
  -- A node evaluates its children one level below and the bodies of functions two levels below.
  induction levels using Nat.strongRecOn generalizing e with
  | _ levels ih =>
    match levels with
    | 0 => exact Eval.quiet_throw _
    | 1 => exact Eval.quiet_throw _
    | levels + 2 =>
      exact node_quiet (fun e => ih (levels + 1) (by omega) e) (fun e => ih levels (by omega) e) e

end Reckoner
