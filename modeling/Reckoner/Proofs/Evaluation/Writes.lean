/-
What an evaluation writes to the table.

* `Program.targets` — the names that the statements of a program assign to.
* `Reaches`, `LastAssigned` — the state after the first statements of a program, and the value of
  the last assignment to a name.
* `Written` — what the assignments made so far say about the statements executed so far. One
  statement keeps it (`Written.step`), so all of them do (`Written.run`).
* `evaluate_writes` — **the table after an evaluation**: unchanged after a failure; after a
  success, the variables that the top level assigned to have the values of their last assignments,
  and everything else is as before.
-/

import Reckoner.Proofs.Evaluation.State
import Reckoner.Proofs.Symbols.Map

namespace Reckoner

/-- The name that a statement assigns to. -/
def Statement.target? : Statement → Option String
  | .assign name _ _ => some name
  | .expr _ => none

/-- The names that the statements of a program assign to, in source order. -/
def Program.targets (program : Program) : List String := program.filterMap Statement.target?

/-- Statements at the end of a program do not take targets away. -/
theorem Program.mem_targets_append {name : String} {first second : Program} :
    name ∈ Program.targets (first ++ second) ↔
      name ∈ Program.targets first ∨ name ∈ Program.targets second := by
  unfold Program.targets
  rw [List.filterMap_append, List.mem_append]

/-- How the top level of a program evaluates an expression. -/
abbrev topLevel (env : Environment) : Expr → Eval Number := eval env (env.options.maxDepth + 1)

/-- All statements of a program succeed and end in a state. -/
def Reaches (env : Environment) (program : Program) (state : EvalState) : Prop :=
  ∃ last, run env (topLevel env) program .initial = (.ok last, state)

/-- A value is that of the last assignment of a program to a name: of its expression in the state
after the statements before it. -/
def LastAssigned (env : Environment) (program : Program) (name : String) (value : Number) : Prop :=
  ∃ before nameSpan e rest state,
    program = before ++ .assign name nameSpan e :: rest ∧ name ∉ Program.targets rest ∧
      Reaches env before state ∧ topLevel env e state = (.ok value, state)

/-- A statement that does not assign to the name leaves the last assignment what it was. -/
theorem LastAssigned.append {env : Environment} {program : Program} {name : String}
    {value : Number} (last : LastAssigned env program name value) {statement : Statement}
    (other : name ∉ Program.targets [statement]) :
    LastAssigned env (program ++ [statement]) name value := by
  obtain ⟨before, nameSpan, e, rest, state, rfl, notLater, reached, evaluated⟩ := last
  refine ⟨before, nameSpan, e, rest ++ [statement], state, by simp, ?_, reached, evaluated⟩
  rw [Program.mem_targets_append]
  exact not_or.mpr ⟨notLater, other⟩

/-- What the assignments made so far say about the statements executed so far. -/
structure Written (env : Environment) (program : Program) (state : EvalState) : Prop where
  reached : Reaches env program state
  /-- No function is being called. -/
  outside : state.frames = []
  untouched : ∀ name, name ∉ Program.targets program → state.pending[name]? = none
  assigned : ∀ name, name ∈ Program.targets program →
    ∃ value, LastAssigned env program name value ∧ state.pending[name]? = some value
  /-- Only variables and new names have been assigned to. -/
  unprotected : ∀ name, name ∈ Program.targets program →
    ∀ symbol, env.table[name]? = some symbol → symbol.kind = .variable

namespace Written

theorem initial (env : Environment) : Written env [] .initial where
  reached := ⟨.zero, rfl⟩
  outside := rfl
  untouched _ _ := Std.ExtTreeMap.getElem?_empty
  assigned _ member := by cases member
  unprotected _ member := by cases member

section Step

variable {env : Environment} {program : Program} {statement : Statement} {state after : EvalState}
  {value : Number}

/-- One more statement has been executed. -/
theorem reached_append (written : Written env program state)
    (ran : runStatement env (topLevel env) statement state = (.ok value, after)) :
    Reaches env (program ++ [statement]) after := by
  obtain ⟨last, before⟩ := written.reached
  refine ⟨value, ?_⟩
  rw [run_eq_runFrom] at before ⊢
  rw [runFrom_append, Eval.run_bind, before]
  show runFrom env (topLevel env) last [statement] state = (.ok value, after)
  rw [runFrom_cons, Eval.run_bind, ran]
  rfl

/-- An assignment outside of functions that succeeds is recorded, and the name is not protected. -/
theorem assign_eq_ok {name : String} {span : Span} (outside : state.frames = [])
    (ran : assign env name span value state = (.ok (), after)) :
    after = { state with pending := state.pending.insert name value } ∧
      ∀ symbol, env.table[name]? = some symbol → symbol.kind = .variable := by
  rw [run_assign] at ran
  have unbound : state.bound? name = none := by rw [EvalState.bound?, outside]; rfl
  have recorded : state.bind name value =
      { state with pending := state.pending.insert name value } := by
    rw [EvalState.bind, outside]
  cases protect : protection? env state name with
  | some kind =>
    rw [protect] at ran
    cases ran
  | none =>
    rw [protect] at ran
    cases ran
    refine ⟨recorded, fun symbol entry => ?_⟩
    rw [protection?, unbound, SymbolTable.kind?, entry] at protect
    simpa using protect

/-- **One more statement keeps what is known about the assignments.** -/
theorem step (written : Written env program state)
    (ran : runStatement env (topLevel env) statement state = (.ok value, after)) :
    Written env (program ++ [statement]) after := by
  have reached := written.reached_append ran
  cases statement with
  | expr e =>
    obtain rfl := (eval_quiet env _ e).state_eq ran
    have none (name : String) : name ∉ Program.targets [.expr e] := List.not_mem_nil
    have targets (name : String) : name ∈ Program.targets (program ++ [.expr e]) ↔
        name ∈ Program.targets program := by
      rw [Program.mem_targets_append, or_iff_left (none name)]
    refine ⟨reached, written.outside, fun name other => ?_, fun name member => ?_,
      fun name member => ?_⟩
    · exact written.untouched name (mt (targets name).mpr other)
    · obtain ⟨value, last, entry⟩ := written.assigned name ((targets name).mp member)
      exact ⟨value, last.append (none name), entry⟩
    · exact written.unprotected name ((targets name).mp member)
  | assign target nameSpan e =>
    obtain ⟨assigned, between, evaluated, finished⟩ := Eval.run_bind_eq_ok.mp ran
    obtain rfl := (eval_quiet env _ e).state_eq evaluated
    obtain ⟨_, final, stored, returned⟩ := Eval.run_bind_eq_ok.mp finished
    cases returned
    obtain ⟨rfl, free⟩ := assign_eq_ok written.outside stored
    have targets (name : String) : name ∈ Program.targets (program ++ [.assign target nameSpan e]) ↔
        name ∈ Program.targets program ∨ name = target := by
      rw [Program.mem_targets_append]
      exact or_congr_right List.mem_singleton
    refine ⟨reached, written.outside, fun name other => ?_, fun name member => ?_,
      fun name member => ?_⟩
    · obtain ⟨notBefore, notNow⟩ := not_or.mp (mt (targets name).mpr other)
      rw [NameMap.getElem?_insert, if_neg (Ne.symm notNow)]
      exact written.untouched name notBefore
    · by_cases now : name = target
      · subst now
        refine ⟨_, ⟨program, nameSpan, e, [], between, rfl, List.not_mem_nil, written.reached,
          evaluated⟩, ?_⟩
        rw [NameMap.getElem?_insert, if_pos rfl]
      · obtain ⟨value, last, entry⟩ :=
          written.assigned name (((targets name).mp member).resolve_right now)
        refine ⟨value, last.append (mt List.mem_singleton.mp now), ?_⟩
        rw [NameMap.getElem?_insert, if_neg (Ne.symm now)]
        exact entry
    · rcases (targets name).mp member with before | rfl
      · exact written.unprotected name before
      · exact free

end Step

/-- **The rest of a program keeps what is known about the assignments.** -/
theorem runFrom {env : Environment} {done : Program} {state after : EvalState} {last value : Number}
    (rest : Program) (written : Written env done state)
    (ran : runFrom env (topLevel env) last rest state = (.ok value, after)) :
    Written env (done ++ rest) after := by
  induction rest generalizing done state last with
  | nil =>
    cases ran
    rw [List.append_nil]
    exact written
  | cons statement rest ih =>
    rw [runFrom_cons] at ran
    obtain ⟨between, state', ranFirst, ranRest⟩ := Eval.run_bind_eq_ok.mp ran
    have := ih (written.step ranFirst) ranRest
    rwa [List.append_assoc] at this

/-- A program that succeeds has recorded its assignments. -/
theorem run {env : Environment} {program : Program} {state : EvalState} {value : Number}
    (ran : run env (topLevel env) program .initial = (.ok value, state)) :
    Written env program state := by
  rw [run_eq_runFrom] at ran
  exact Written.runFrom program (Written.initial env) ran

end Written

/-! ### The table after an evaluation -/

/-- The result of an evaluation, and the table afterwards, from those of its statements. -/
def committed (table : SymbolTable) :
    Except EvalError Number × EvalState → Except EvalError Number × SymbolTable
  | (.ok value, state) => (.ok value, state.commit table)
  | (.error error, _) => (.error error, table)

theorem committed_eq_ok {table after : SymbolTable} {value : Number}
    {result : Except EvalError Number × EvalState} :
    committed table result = (.ok value, after) ↔
      ∃ state, result = (.ok value, state) ∧ after = state.commit table := by
  rcases result with ⟨error | value', state⟩
  · constructor
    · rintro ⟨⟩
    · rintro ⟨_, ⟨⟩, _⟩
  · constructor
    · rintro ⟨⟩
      exact ⟨state, rfl, rfl⟩
    · rintro ⟨_, ⟨⟩, rfl⟩
      rfl

theorem committed_fst (table : SymbolTable) (result : Except EvalError Number × EvalState) :
    (committed table result).1 = result.1 := by
  rcases result with ⟨_ | _, _⟩ <;> rfl

theorem evaluate_of_parse {text : String} {program : Program} (table : SymbolTable)
    (scripts : ScriptRegistry) (options : EvalOptions) (parsed : parse text = .ok program) :
    evaluate text table scripts options = committed table
      (run ⟨table, scripts, options⟩ (topLevel ⟨table, scripts, options⟩) program .initial) := by
  unfold evaluate
  rw [parsed]
  rfl

/-- An evaluation succeeds exactly when its text is a program whose statements succeed. -/
theorem evaluate_eq_ok {text : String} {table after : SymbolTable} {scripts : ScriptRegistry}
    {options : EvalOptions} {value : Number} :
    evaluate text table scripts options = (.ok value, after) ↔
      ∃ program state, parse text = .ok program ∧
        run ⟨table, scripts, options⟩ (topLevel ⟨table, scripts, options⟩) program .initial =
          (.ok value, state) ∧
        after = state.commit table := by
  cases parsed : parse text with
  | error error =>
    unfold evaluate
    rw [parsed]
    constructor
    · rintro ⟨⟩
    · rintro ⟨program, state, ⟨⟩, _⟩
  | ok program =>
    rw [evaluate_of_parse table scripts options parsed, committed_eq_ok]
    constructor
    · rintro ⟨state, ran, left⟩
      exact ⟨program, state, rfl, ran, left⟩
    · rintro ⟨_, state, ⟨⟩, ran, left⟩
      exact ⟨state, ran, left⟩

/-- A failed evaluation leaves the table as it was. -/
theorem evaluate_eq_error {text : String} {table after : SymbolTable} {scripts : ScriptRegistry}
    {options : EvalOptions} {error : EvalError}
    (failed : evaluate text table scripts options = (.error error, after)) : after = table := by
  unfold evaluate at failed
  split at failed
  · cases failed
    rfl
  · simp only at failed
    split at failed
    · cases failed
    · cases failed
      rfl

/-- **What an evaluation writes.** After a failure the table is as it was. After a success a name
that no statement of the program assigns to keeps its entry, so does every constant, function and
script, and a name that is assigned to is a variable with the value of its last assignment. The
bodies of functions have no part in this: evaluating an expression, whatever it calls, leaves the
assignments made so far as they are. -/
theorem evaluate_writes (text : String) (table : SymbolTable) (scripts : ScriptRegistry)
    (options : EvalOptions) :
    (match evaluate text table scripts options with
      | (.error _, after) => after = table
      | (.ok _, after) => ∃ program, parse text = .ok program ∧
        (∀ name, name ∉ Program.targets program → after[name]? = table[name]?) ∧
        (∀ (name : String) (symbol : Symbol), table[name]? = some symbol →
          symbol.kind ≠ .variable → after[name]? = some symbol) ∧
        ∀ name, name ∈ Program.targets program →
          ∃ value, LastAssigned ⟨table, scripts, options⟩ program name value ∧
            after[name]? = some (.variable ⟨value, none⟩)) ∧
      ∀ levels e state, (eval ⟨table, scripts, options⟩ levels e state).2 = state := by
  refine ⟨?_, fun levels e => eval_quiet _ levels e⟩
  split
  · rename_i error after failed
    exact evaluate_eq_error failed
  · rename_i value after succeeded
    obtain ⟨program, state, parsed, ran, rfl⟩ := evaluate_eq_ok.mp succeeded
    have written := Written.run ran
    refine ⟨program, parsed, fun name other => ?_, fun name symbol entry kind => ?_,
      fun name member => ?_⟩
    · rw [EvalState.getElem?_commit, written.untouched name other]
      rfl
    · have other : name ∉ Program.targets program := fun member =>
        kind (written.unprotected name member symbol entry)
      rw [EvalState.getElem?_commit, written.untouched name other]
      exact entry
    · obtain ⟨value, last, pending⟩ := written.assigned name member
      refine ⟨value, last, ?_⟩
      rw [EvalState.getElem?_commit, pending]
      rfl

end Reckoner
