/-
One evaluation of two texts, and two evaluations one after the other.

* `Written.alike_initial` — the state after some statements is like the state before an evaluation
  over the table that their assignments leave.
* `run_append_eq_ok` — the statements of two programs, one after the other.
* `evaluate_sequence` — **two texts around a semicolon have the value and leave the table of the
  second text evaluated after the first.**
-/

import Reckoner.Proofs.Evaluation.Agreement
import Reckoner.Proofs.Evaluation.Writes
import Reckoner.Proofs.Expression.Sequence

namespace Reckoner

/-- An evaluation that makes no assignments leaves the table as it is. -/
theorem commit_initial (table : SymbolTable) : EvalState.initial.commit table = table := by
  refine Std.ExtTreeMap.ext_getElem? fun name => ?_
  rw [EvalState.getElem?_commit, show EvalState.initial.pending[name]? = none from
    Std.ExtTreeMap.getElem?_empty]
  rfl

/-- **The state before an evaluation over the table that some statements leave is like the state
after these statements.** -/
theorem Written.alike_initial {env : Environment} {program : Program} {state : EvalState}
    (written : Written env program state) :
    Alike ⟨state.commit env.table, env.scripts, env.options⟩ env .initial state where
  options := rfl
  scripts := rfl
  frame := by
    rw [written.outside]
    rfl
  table := (commit_initial _).symm
  protection name := by
    rw [SymbolTable.kind?, SymbolTable.kind?, EvalState.getElem?_commit]
    by_cases member : name ∈ Program.targets program
    · -- The name of an assignment was a variable or new, and is a variable now.
      obtain ⟨value, -, entry⟩ := written.assigned name member
      rw [entry]
      cases found : env.table[name]? with
      | none => rfl
      | some symbol =>
        rw [Option.map_some, written.unprotected name member symbol found]
        rfl
    · rw [written.untouched name member]
      rfl

section Sequence

variable {env : Environment} {first second : Program}

/-- The statements of two programs succeed if those of the first do and then those of the second. -/
theorem run_append_eq_ok {ev : Expr → Eval Number} (some : second ≠ []) {state after : EvalState}
    {value : Number} :
    run env ev (first ++ second) state = (.ok value, after) ↔
      ∃ earlier between, run env ev first state = (.ok earlier, between) ∧
        run env ev second between = (.ok value, after) := by
  -- The value of a program that is not empty does not depend on what came before.
  have last (earlier : Number) : runFrom env ev earlier second = run env ev second := by
    cases second with
    | nil => exact absurd rfl some
    | cons statement rest => rw [run_eq_runFrom, runFrom_cons, runFrom_cons]
  rw [run_eq_runFrom, run_eq_runFrom, runFrom_append, Eval.run_bind_eq_ok]
  simp only [last]

end Sequence

/-- A parsed program is not empty. -/
theorem ne_nil_of_parse {source : String} {program : Program}
    (parsed : parse source = .ok program) : program ≠ [] := by
  obtain ⟨-, state, -, finished⟩ := parseWithin_eq_ok.mp parsed
  let semicolon : Lexeme := ⟨.semicolon, ';', ⟨0, 1⟩⟩
  have ends : semicolon.token = .semicolon := rfl
  rcases (Parse.finish_eq_ok ends).mp finished with ⟨after, stepped, rfl⟩ | ⟨-, some, rfl⟩
  · obtain ⟨_, _, _, _, rfl⟩ := (Parse.step_semicolon ends).mp stepped
    exact mt List.reverse_eq_nil_iff.mp (List.cons_ne_nil _ _)
  · exact mt List.reverse_eq_nil_iff.mp some

/-- **Two texts around a semicolon succeed exactly when the first succeeds and then the second does
over the table that the first leaves**, and have the value and leave the table of the second. The
first text does not end in a semicolon of its own, and the second one is not blank. -/
theorem evaluate_sequence (first second : String) (table : SymbolTable) (scripts : ScriptRegistry)
    (options : EvalOptions) (notEnded : endsInSemicolon first.toList = false)
    (notBlank : second.toList.all isSpace = false) (value : Number) (after : SymbolTable) :
    evaluate (first ++ ";" ++ second) table scripts options = (.ok value, after) ↔
      ∃ earlier between, evaluate first table scripts options = (.ok earlier, between) ∧
        evaluate second between scripts options = (.ok value, after) := by
  simp only [evaluate_eq_ok]
  let later := (· + (Text.byteLength first.toList + 1))
  let env : Environment := ⟨table, scripts, options⟩
  -- The second program runs in the state of the first, or over the table that the first leaves.
  have staged {earlier : Number} {program : Program} {between : EvalState}
      (ran : run env (topLevel env) program .initial = (.ok earlier, between)) (rest : Program) :
      (∃ final, run env (topLevel env) (rest.map (Statement.mapPlaces later)) between =
          (.ok value, final) ∧ after = final.commit table) ↔
        ∃ final, run ⟨between.commit table, scripts, options⟩
          (topLevel ⟨between.commit table, scripts, options⟩) rest .initial =
            (.ok value, final) ∧ after = final.commit (between.commit table) := by
    have alike := (Written.run ran).alike_initial
    exact (runFrom_parallel (eval_parallel alike.options _) .zero rest).commit_iff alike
  constructor
  · rintro ⟨program, final, parsed, ran, rfl⟩
    obtain ⟨initial, rest, parsedFirst, parsedSecond, rfl⟩ :=
      (parseWithin_semicolon notEnded notBlank).mp parsed
    have some : rest.map (Statement.mapPlaces later) ≠ [] :=
      mt List.map_eq_nil_iff.mp (ne_nil_of_parse parsedSecond)
    obtain ⟨earlier, between, ranFirst, ranRest⟩ := (run_append_eq_ok some).mp ran
    obtain ⟨final', ranSecond, left⟩ := (staged ranFirst rest).mp ⟨final, ranRest, rfl⟩
    exact ⟨earlier, between.commit table, ⟨initial, between, parsedFirst, ranFirst, rfl⟩,
      rest, final', parsedSecond, ranSecond, left⟩
  · rintro ⟨earlier, _, ⟨initial, between, parsedFirst, ranFirst, rfl⟩,
      rest, final', parsedSecond, ranSecond, left⟩
    have some : rest.map (Statement.mapPlaces later) ≠ [] :=
      mt List.map_eq_nil_iff.mp (ne_nil_of_parse parsedSecond)
    obtain ⟨final, ranRest, left'⟩ := (staged ranFirst rest).mpr ⟨final', ranSecond, left⟩
    exact ⟨initial ++ rest.map (Statement.mapPlaces later), final,
      (parseWithin_semicolon notEnded notBlank).mpr
        ⟨initial, rest, parsedFirst, parsedSecond, rfl⟩,
      (run_append_eq_ok some).mpr ⟨earlier, between, ranFirst, ranRest⟩, left'⟩

/-- Precision and limit of depth of a short example. -/
def EvalOptions.short : EvalOptions := ⟨⟨64, .nearest, by decide, by decide⟩, 8⟩

/-- The second text reads what the first one assigns. -/
theorem evaluate_sequence_assigned :
    evaluate ("x := 2" ++ ";" ++ "x * 3") ∅ .empty .short =
      (.ok ⟨.ofInt 6, 64⟩,
        (evaluate "x * 3" (evaluate "x := 2" ∅ .empty .short).2 .empty .short).2) := by
  have evaluates (outcome : Except EvalError Number × SymbolTable) (value : Number)
      (found : outcome.1.toOption = some value) : outcome = (.ok value, outcome.2) :=
    Prod.ext (toOption_eq_some.mp found) rfl
  have first := evaluates (evaluate "x := 2" ∅ .empty .short) ⟨.ofInt 2, 64⟩
    (by decide +kernel)
  have second := evaluates
    (evaluate "x * 3" (evaluate "x := 2" ∅ .empty .short).2 .empty .short) ⟨.ofInt 6, 64⟩
    (by decide +kernel)
  exact (evaluate_sequence "x := 2" "x * 3" ∅ .empty .short (by decide) (by decide) _ _).mpr
    ⟨_, _, first, second⟩

end Reckoner
