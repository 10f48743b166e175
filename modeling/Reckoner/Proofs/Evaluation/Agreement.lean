/-
Evaluations that cannot tell two states apart.

* `Alike` — two states in two environments in which every name stands for the same, inside and
  outside of functions. Assignments of one may be entries of the table in the other.
* `Agree` — two results with the same value, and with the same error where errors are compared.
* `Eval.Parallel` — two computations that agree on states that are alike, and end in such states;
  closed under sequencing.
* `eval_parallel`, `runFrom_parallel` — **evaluation gives the same in states that are alike**, also
  for a text at another place.
-/

import Reckoner.Proofs.Evaluation.State
import Reckoner.Proofs.Expression.Places
import Reckoner.Proofs.Symbols.Map

namespace Reckoner

/-! ### States that are alike -/

/-- Every name stands for the same in two states: in the innermost function, and in the tables that
the assignments made so far would leave. -/
structure Alike (env env' : Environment) (state state' : EvalState) : Prop where
  options : env'.options = env.options
  scripts : env'.scripts = env.scripts
  frame : state'.frames.head? = state.frames.head?
  table : state'.commit env'.table = state.commit env.table
  /-- The same names are kept from being assigned to. -/
  protection : ∀ name, (env'.table.kind? name).filter (· ≠ .variable) =
    (env.table.kind? name).filter (· ≠ .variable)

namespace Alike

variable {env env' : Environment} {state state' : EvalState}

theorem bound?_eq (alike : Alike env env' state state') (name : String) :
    state'.bound? name = state.bound? name := by
  rw [EvalState.bound?, EvalState.bound?, alike.frame]

/-- A name stands for the same in both states. -/
theorem resolve?_eq (alike : Alike env env' state state') (name : String) :
    resolve? env' state' name = resolve? env state name := by
  rw [Reckoner.resolve?_eq, Reckoner.resolve?_eq, alike.bound?_eq, alike.table]

theorem protection?_eq (alike : Alike env env' state state') (name : String) :
    protection? env' state' name = protection? env state name := by
  rw [protection?, protection?, alike.bound?_eq, alike.protection]

/-- A new innermost frame hides the old one. -/
theorem push (alike : Alike env env' state state') (frame : Bindings) :
    Alike env env' ⟨frame :: state.frames, state.pending⟩
      ⟨frame :: state'.frames, state'.pending⟩ :=
  ⟨alike.options, alike.scripts, rfl, alike.table, alike.protection⟩


/-- States stay alike when a name is bound to a value in both. -/
theorem bind (alike : Alike env env' state state') (name : String) (value : Number) :
    Alike env env' (state.bind name value) (state'.bind name value) := by
  obtain ⟨frames, pending⟩ := state
  obtain ⟨frames', pending'⟩ := state'
  have frame := alike.frame
  have assigned : (EvalState.mk [] (pending'.insert name value)).commit env'.table =
      (EvalState.mk [] (pending.insert name value)).commit env.table := by
    refine Std.ExtTreeMap.ext_getElem? fun other => ?_
    have entry := congrArg (fun table : SymbolTable => table[other]?) alike.table
    simp only [EvalState.getElem?_commit] at entry ⊢
    rw [NameMap.getElem?_insert, NameMap.getElem?_insert]
    by_cases same : name = other
    · rw [if_pos same, if_pos same]
      rfl
    · rw [if_neg same, if_neg same]
      exact entry
  cases frames with
  | nil =>
    cases frames' with
    | nil => exact ⟨alike.options, alike.scripts, rfl, assigned, alike.protection⟩
    | cons frame' callers' => cases frame
  | cons frame callers =>
    cases frames' with
    | nil => cases frame
    | cons frame' callers' =>
      cases frame
      exact ⟨alike.options, alike.scripts, rfl, alike.table, alike.protection⟩

end Alike

/-! ### Results that agree -/

/-- Two results have the same value, and the same error where errors are compared. -/
structure Agree {ε α : Type} (compared : Prop) (result result' : Except ε α) : Prop where
  value : result'.toOption = result.toOption
  error : compared → result' = result

namespace Agree

variable {ε α β : Type} {compared : Prop}

theorem refl (result : Except ε α) : Agree compared result result := ⟨rfl, fun _ => rfl⟩

theorem ofError {error error' : ε} (same : compared → error' = error) :
    Agree compared (.error error : Except ε α) (.error error') :=
  ⟨rfl, fun holds => by rw [same holds]⟩

end Agree

/-! ### Computations in parallel -/

namespace Eval

section Parallel

variable {α β : Type} (env env' : Environment) (compared : Prop)

/-- Two computations agree on states that are alike, and end in such states. -/
def Parallel (x x' : Eval α) : Prop :=
  ∀ state state', Alike env env' state state' →
    Agree compared (x state).1 (x' state').1 ∧ Alike env env' (x state).2 (x' state').2

variable {env env' : Environment} {compared : Prop}

/-- Quiet computations that agree run in parallel. -/
theorem Parallel.of_quiet {x x' : Eval α} (quiet : Quiet x) (quiet' : Quiet x')
    (agree : ∀ state state', Alike env env' state state' →
      Agree compared (x state).1 (x' state').1) : Parallel env env' compared x x' := by
  intro state state' alike
  rw [quiet state, quiet' state']
  exact ⟨agree state state' alike, alike⟩

theorem parallel_pure (a : α) : Parallel env env' compared (pure a) (pure a) :=
  fun _ _ alike => ⟨.refl _, alike⟩

theorem parallel_throw {error error' : EvalError} (same : compared → error' = error) :
    Parallel env env' compared (throw error : Eval α) (throw error') :=
  fun _ _ alike => ⟨.ofError same, alike⟩

theorem Parallel.bind {x x' : Eval α} {f f' : α → Eval β}
    (first : Parallel env env' compared x x')
    (rest : ∀ a, Parallel env env' compared (f a) (f' a)) :
    Parallel env env' compared (x >>= f) (x' >>= f') := by
  intro state state' alike
  obtain ⟨⟨value, error⟩, after⟩ := first state state' alike
  rw [run_bind, run_bind]
  rcases ran : x state with ⟨failed | a, final⟩ <;> rcases ran' : x' state' with
    ⟨failed' | a', final'⟩ <;> rw [ran, ran'] at value error after
  · exact ⟨.ofError fun holds => Except.error.inj (error holds), after⟩
  · cases value
  · cases value
  · cases value
    exact rest a final final' after

theorem parallel_compatible :
    Compatible (m := Eval) (n := Eval) fun _ x x' => Parallel env env' compared x x' :=
  ⟨parallel_pure, Parallel.bind⟩

theorem parallel_ofDomain {span span' : Span} (same : compared → span' = span)
    (result : Except DomainError Number) :
    Parallel env env' compared (ofDomain span result) (ofDomain span' result) := by
  cases result with
  | ok value => exact parallel_pure value
  | error error => exact parallel_throw fun holds => by rw [same holds]

theorem parallel_mapM {f f' : β → Eval α} {g : β → β} (each : ∀ b,
    Parallel env env' compared (f b) (f' (g b))) (list : List β) :
    Parallel env env' compared (list.mapM f) ((list.map g).mapM f') := by
  rw [List.mapM_map]
  exact parallel_compatible.mapM fun b _ => each b

/-- The body of a function is told apart neither by the place of the call nor by its callers. -/
theorem Parallel.call {name : String} {span span' : Span} (same : compared → span' = span)
    {frame : Bindings} {body body' : Eval α} (confined : Confined body)
    (confined' : Confined body') (parallel : Parallel env env' True body body') :
    Parallel env env' compared (inFunction name span (withFrame frame body))
      (inFunction name span' (withFrame frame body')) := by
  refine .of_quiet ((withFrame_quiet frame confined).inFunction name span)
    ((withFrame_quiet frame confined').inFunction name span') fun state state' alike => ?_
  obtain ⟨agree, -⟩ := parallel _ _ (alike.push frame)
  show Agree compared ((body ⟨frame :: state.frames, state.pending⟩).1.mapError _)
    ((body' ⟨frame :: state'.frames, state'.pending⟩).1.mapError _)
  rw [agree.error trivial]
  cases (body ⟨frame :: state.frames, state.pending⟩).1 with
  | ok value => exact .refl _
  | error error => exact .ofError fun holds => by rw [same holds]

/-- Computations in parallel have the same values and leave the same tables. -/
theorem Parallel.commit_iff {x x' : Eval α} (parallel : Parallel env env' compared x x')
    {state state' : EvalState} (alike : Alike env env' state state') {a : α}
    {table : SymbolTable} :
    (∃ after, x' state' = (.ok a, after) ∧ table = after.commit env'.table) ↔
      ∃ after, x state = (.ok a, after) ∧ table = after.commit env.table := by
  obtain ⟨⟨value, -⟩, after⟩ := parallel state state' alike
  rcases ran : x state with ⟨failed | b, final⟩ <;> rcases ran' : x' state' with
    ⟨failed' | b', final'⟩ <;> rw [ran, ran'] at value after
  · exact iff_of_false (fun ⟨_, equal, _⟩ => by cases equal) fun ⟨_, equal, _⟩ => by cases equal
  · cases value
  · cases value
  · cases value
    constructor
    · rintro ⟨_, ⟨⟩, rfl⟩
      exact ⟨final, rfl, after.table⟩
    · rintro ⟨_, ⟨⟩, rfl⟩
      exact ⟨final', rfl, after.table.symm⟩

end Parallel

end Eval

/-! ### Programs in parallel -/

section Programs

variable {env env' : Environment} {place : Nat → Nat}

/-- Places of errors are compared where they are the same. -/
theorem span_map_of_id (span : Span) (same : place = id) : span.map place = span := by
  rw [same, Span.map_id]

theorem assign_parallel (name : String) (span : Span) (value : Number) :
    Eval.Parallel env env' (place = id) (assign env name span value)
      (assign env' name (span.map place) value) := by
  intro state state' alike
  rw [run_assign, run_assign, alike.protection?_eq]
  cases protection? env state name with
  | some kind => exact ⟨.ofError fun same => by rw [span_map_of_id span same], alike⟩
  | none => exact ⟨.refl _, alike.bind name value⟩

/-- How to evaluate the expressions of a text, and those of the same text at another place. -/
abbrev EvalParallel (env env' : Environment) (place : Nat → Nat)
    (eval eval' : Expr → Eval Number) : Prop :=
  ∀ e, Eval.Parallel env env' (place = id) (eval e) (eval' (e.mapPlaces place))

variable {eval eval' : Expr → Eval Number}

theorem runStatement_parallel (parallel : EvalParallel env env' place eval eval')
    (statement : Statement) :
    Eval.Parallel env env' (place = id) (runStatement env eval statement)
      (runStatement env' eval' (statement.mapPlaces place)) := by
  cases statement with
  | assign name nameSpan e =>
    refine (parallel e).bind fun value => ?_
    exact (assign_parallel name nameSpan value).bind fun _ => Eval.parallel_pure value
  | expr e => exact parallel e

/-- **The statements of a text give the same in states that are alike**, also at another place. -/
theorem runFrom_parallel (parallel : EvalParallel env env' place eval eval') (last : Number)
    (program : Program) :
    Eval.Parallel env env' (place = id) (runFrom env eval last program)
      (runFrom env' eval' last (program.map (Statement.mapPlaces place))) := by
  rw [runFrom, runFrom, List.foldlM_map]
  exact Eval.parallel_compatible.foldlM
    (fun _ statement _ => runStatement_parallel parallel statement) last

/-- The statements of one text give the same in states that are alike, errors included. -/
theorem run_parallel (parallel : EvalParallel env env' id eval eval') (program : Program) :
    Eval.Parallel env env' True (run env eval program) (run env' eval' program) := by
  have statements := runFrom_parallel parallel .zero program
  rwa [show Statement.mapPlaces id = id from funext Statement.mapPlaces_id, List.map_id,
    show ((id : Nat → Nat) = id) = True from eq_self _] at statements

end Programs

/-! ### Expressions in parallel -/

section Expressions

variable {env env' : Environment} {place : Nat → Nat}

theorem literal_parallel (ctx : Context) (text : String) (span : Span) :
    Eval.Parallel env env' (place = id) (literal ctx text span)
      (literal ctx text (span.map place)) := by
  unfold literal
  cases Number.fromDecimal text ctx.bits ctx.rounding with
  | ok value => exact Eval.parallel_pure value
  | error error => exact Eval.parallel_throw fun same => by rw [span_map_of_id span same]

theorem lookup_parallel (name : String) (span : Span) :
    Eval.Parallel env env' (place = id) (lookup env name span)
      (lookup env' name (span.map place)) := by
  intro state state' alike
  rw [run_lookup, run_lookup, alike.resolve?_eq]
  refine ⟨?_, alike⟩
  rcases resolve? env state name with _ | (named | named | function | ref)
  · simp only [valueOf, alike.options]
    cases constant? name env.options.context with
    | some value => exact .refl _
    | none => exact .ofError fun same => by rw [span_map_of_id span same]
  · exact .refl _
  · exact .refl _
  · exact .ofError fun same => by rw [span_map_of_id span same]
  · exact .ofError fun same => by rw [span_map_of_id span same]

theorem callScript_parallel (options : env'.options = env.options)
    (scripts : env'.scripts = env.scripts) (name : String) (ref : ScriptRef)
    (values : List Number) (span : Span) :
    Eval.Parallel env env' (place = id) (callScript env name ref values span)
      (callScript env' name ref values (span.map place)) := by
  rw [callScript_eq, callScript_eq, options, scripts]
  by_cases wrong : values.length ≠ ref.arity
  · rw [if_pos wrong, if_pos wrong]
    exact Eval.parallel_throw fun same => by rw [span_map_of_id span same]
  · rw [if_neg wrong, if_neg wrong]
    cases env.scripts.run ref (values.map Number.toBinary64) with
    | error error => exact Eval.parallel_throw fun same => by rw [span_map_of_id span same]
    | ok result =>
      simp only
      cases Number.ofBinary64 result with
      | error error => exact Eval.parallel_throw fun same => by rw [span_map_of_id span same]
      | ok value => exact Eval.parallel_pure _

theorem callBuiltin_parallel (options : env'.options = env.options) (name : String)
    (builtin : Builtin) (values : List Number) (span : Span) :
    Eval.Parallel env env' (place = id) (callBuiltin env name builtin values span)
      (callBuiltin env' name builtin values (span.map place)) := by
  unfold callBuiltin
  rw [options]
  cases builtin.result? values env.options.context with
  | some result => exact Eval.parallel_ofDomain (span_map_of_id span) result
  | none => exact Eval.parallel_throw fun same => by rw [span_map_of_id span same]

section Calls

variable {argument argument' body body' : Expr → Eval Number}

theorem callFunction_parallel (quiet : ∀ e, Eval.Quiet (body e))
    (quiet' : ∀ e, Eval.Quiet (body' e)) (parallel : EvalParallel env env' id body body')
    (name : String) (function : UserFunction) (values : List Number) (span : Span) :
    Eval.Parallel env env' (place = id) (callFunction env body name function values span)
      (callFunction env' body' name function values (span.map place)) := by
  rw [callFunction_eq, callFunction_eq]
  by_cases wrong : values.length ≠ function.arity
  · rw [if_pos wrong, if_pos wrong]
    exact Eval.parallel_throw fun same => by rw [span_map_of_id span same]
  · rw [if_neg wrong, if_neg wrong]
    cases parse function.expression with
    | error error => exact Eval.parallel_throw fun same => by rw [span_map_of_id span same]
    | ok program =>
      exact Eval.Parallel.call (span_map_of_id span) (run_confined quiet program)
        (run_confined quiet' program) (run_parallel parallel program)

theorem call_parallel (quiet : ∀ e, Eval.Quiet (body e)) (quiet' : ∀ e, Eval.Quiet (body' e))
    (parallel : EvalParallel env env' place argument argument')
    (parallelBody : EvalParallel env env' id body body') (name : String)
    (arguments : List Expr) (span : Span) :
    Eval.Parallel env env' (place = id) (call env argument body name arguments span)
      (call env' argument' body' name (Expr.mapPlacesAll place arguments) (span.map place)) := by
  intro state state' alike
  have values := Eval.parallel_mapM parallel arguments
  rw [run_call, run_call, alike.resolve?_eq, Expr.mapPlacesAll_eq]
  rcases resolve? env state name with _ | (named | named | function | ref)
  · simp only [callOf]
    cases Builtin.ofName? name with
    | some builtin =>
      exact (values.bind fun values => callBuiltin_parallel alike.options name builtin values span)
        state state' alike
    | none => exact ⟨.ofError fun same => by rw [span_map_of_id span same], alike⟩
  · exact ⟨.ofError fun same => by rw [span_map_of_id span same], alike⟩
  · exact ⟨.ofError fun same => by rw [span_map_of_id span same], alike⟩
  · exact (values.bind fun values => callFunction_parallel quiet quiet' parallelBody name function
      values span) state state' alike
  · exact (values.bind fun values => callScript_parallel alike.options alike.scripts name ref
      values span) state state' alike

end Calls

/-- **An expression has the same value in states that are alike**, also at another place, and the
same error at the same place. -/
theorem eval_parallel (options : env'.options = env.options) (levels : Nat) :
    EvalParallel env env' place (eval env levels) (eval env' levels) := by
  -- The bodies of functions stand at the same place in both, whatever the place of the text.
  induction levels using Nat.strongRecOn generalizing place with
  | _ levels ih =>
    intro e
    have overflow (depth limit : Nat) : Eval.Parallel env env' (place = id)
        (throw (.stackOverflow depth limit e.span))
        (throw (.stackOverflow depth limit (e.mapPlaces place).span) : Eval Number) := by
      rw [Expr.span_mapPlaces]
      exact Eval.parallel_throw fun same => by rw [span_map_of_id e.span same]
    match levels with
    | 0 =>
      simp only [eval, options]
      exact overflow _ _
    | 1 =>
      simp only [eval, options]
      exact overflow _ _
    | levels + 2 =>
      have child : EvalParallel env env' place (eval env (levels + 1)) (eval env' (levels + 1)) :=
        ih (levels + 1) (by omega)
      have body : EvalParallel env env' id (eval env levels) (eval env' levels) :=
        ih levels (by omega)
      simp only [eval]
      cases e with
      | number text span =>
        rw [Expr.mapPlaces, node, node, options]
        exact literal_parallel env.options.context text span
      | ident name span =>
        rw [Expr.mapPlaces, node, node]
        exact lookup_parallel name span
      | unary sign operand span =>
        rw [Expr.mapPlaces, node, node]
        exact Eval.parallel_compatible.map sign.apply (child operand)
      | binary op left right span =>
        rw [Expr.mapPlaces, node, node, options]
        exact (child left).bind fun x => (child right).bind fun y =>
          Eval.parallel_ofDomain (span_map_of_id span) _
      | call name nameSpan arguments span =>
        rw [Expr.mapPlaces, node, node]
        exact call_parallel (eval_quiet env levels) (eval_quiet env' levels) child body name
          arguments span

end Expressions

end Reckoner
