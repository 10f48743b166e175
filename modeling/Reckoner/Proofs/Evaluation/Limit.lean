/-
The limit on depth stops an evaluation and changes nothing else about it.

* `Overflows` — results that say that the limit was reached.
* `EvalError.IsOverflow` — the error at the limit, which calls pass on as it is.
* `eval_extends` — **more levels, and a higher limit, give the same result unless the limit was
  reached**.
* `evaluate_limit` — **every evaluation ends within the limit, and a higher limit gives the same
  unless it was reached**.
-/

import Reckoner.Proofs.Evaluation.Meter
import Reckoner.Proofs.Evaluation.Staging
import Reckoner.Proofs.Evaluation.Stopping

namespace Reckoner

/-- Whether a result says that the limit on depth was reached. -/
def Overflows {α : Type} (result : Except EvalError α) : Prop :=
  ∃ depth limit span, result = .error (.stackOverflow depth limit span)

/-- Whether an error says that the limit on depth was reached. -/
def EvalError.IsOverflow (error : EvalError) : Prop :=
  ∃ depth limit span, error = .stackOverflow depth limit span

theorem overflows_iff {α : Type} (result : Except EvalError α) :
    Overflows result ↔ StopsWith EvalError.IsOverflow result := by
  constructor
  · rintro ⟨depth, limit, span, equal⟩
    exact ⟨_, equal, depth, limit, span, rfl⟩
  · rintro ⟨_, equal, depth, limit, span, rfl⟩
    exact ⟨depth, limit, span, equal⟩

/-- A call passes the error at the limit on and makes no other error one. -/
theorem isOverflow_keptByCalls : Eval.KeptByCalls EvalError.IsOverflow := by
  intro name span error
  cases error with
  | stackOverflow depth limit place => exact Iff.rfl
  | _ =>
    refine iff_of_false ?_ ?_
    · rintro ⟨_, _, _, ⟨⟩⟩
    · rintro ⟨_, _, _, ⟨⟩⟩

/-! ### Evaluation under a higher limit -/

/-- **More levels under a higher limit give the same unless the limit was reached.** -/
theorem eval_extends (env : Environment) (limit : Nat) {levels levels' : Nat}
    (more : levels ≤ levels') (e : Expr) :
    Eval.EqualUnless EvalError.IsOverflow (eval (env.withLimit limit) levels' e)
      (eval env levels e) := by
  induction levels using Nat.strongRecOn generalizing levels' e with
  | _ levels ih =>
    match levels with
    | 0 => exact Eval.equalUnless_throw _ ⟨_, _, _, rfl⟩
    | 1 => exact Eval.equalUnless_throw _ ⟨_, _, _, rfl⟩
    | levels + 2 =>
      obtain ⟨above, rfl⟩ : ∃ above, levels' = above + 2 := ⟨levels' - 2, by omega⟩
      rw [eval, eval]
      exact node_equalUnless env limit isOverflow_keptByCalls
        (fun e => ih (levels + 1) (by omega) (by omega) e)
        (fun e => ih levels (by omega) (by omega) e) e

/-- **Every evaluation ends within the limit, which only ever cuts it short.** It ends, as it does on
a machine that counts its depth, with the counter never above one more than the limit and never more
than half as many frames; and under a higher limit it has the same value or error and leaves the same
table, unless the limit was reached. -/
theorem evaluate_limit (text : String) (table : SymbolTable) (scripts : ScriptRegistry)
    (options : EvalOptions) :
    (∃ result machine, Metered.evaluate text table scripts options = some (result, machine) ∧
      evaluate text table scripts options = committed table (result, machine.state) ∧
      machine.depth = 0 ∧ machine.deepest ≤ options.maxDepth + 1 ∧
      machine.mostFrames ≤ (options.maxDepth + 1) / 2) ∧
    (¬Overflows (evaluate text table scripts options).1 → ∀ limit, options.maxDepth ≤ limit →
      evaluate text table scripts { options with maxDepth := limit } =
        evaluate text table scripts options) := by
  refine ⟨Metered.evaluate_follows text table scripts options, fun calm limit higher => ?_⟩
  cases parsed : parse text with
  | error error =>
    unfold evaluate
    rw [parsed]
  | ok program =>
    let env : Environment := ⟨table, scripts, options⟩
    have raised : Eval.EqualUnless EvalError.IsOverflow
        (run (env.withLimit limit) (eval (env.withLimit limit) (limit + 1)) program)
        (run env (eval env (options.maxDepth + 1)) program) :=
      run_equalUnless env limit (eval_extends env limit (by omega)) program
    rw [evaluate_of_parse table scripts options parsed, committed_fst, overflows_iff] at calm
    rw [evaluate_of_parse table scripts options parsed, evaluate_of_parse table scripts _ parsed]
    exact congrArg (committed table) (raised .initial calm)

/-- Two functions of which one calls the other. -/
def SymbolTable.nested : SymbolTable :=
  ((∅ : SymbolTable).insert "f" (.function ⟨["n"], "g(n) * 2", rfl⟩)).insert "g"
    (.function ⟨["n"], "m := n * n; m + 1", rfl⟩)

/-- Seven levels are just enough for a call within a call, so no higher limit matters. -/
theorem evaluate_limit_nested :
    evaluate "f(3)" .nested .empty ⟨EvalOptions.short.context, 1000000⟩ =
        evaluate "f(3)" .nested .empty ⟨EvalOptions.short.context, 7⟩ ∧
      Overflows (evaluate "f(3)" .nested .empty ⟨EvalOptions.short.context, 6⟩).1 := by
  have value : (evaluate "f(3)" .nested .empty ⟨EvalOptions.short.context, 7⟩).1 =
      .ok ⟨.ofInt 20, 64⟩ :=
    toOption_eq_some.mp (by decide +kernel)
  have calm : ¬Overflows (evaluate "f(3)" .nested .empty ⟨EvalOptions.short.context, 7⟩).1 := by
    rw [value]
    rintro ⟨_, _, _, ⟨⟩⟩
  have reached : (evaluate "f(3)" .nested .empty ⟨EvalOptions.short.context, 6⟩).1 =
      .error (.stackOverflow 6 6 ⟨5, 6⟩) :=
    failure?_eq_some.mp (by decide +kernel)
  exact ⟨(evaluate_limit "f(3)" .nested .empty _).2 calm 1000000 (by decide), 6, 6, _, reached⟩

end Reckoner
