/-
What a call of a function depends on, and what it changes.

* `callFunction_result` — **the result of a call is the same whoever calls**: names in the body stand
  for what is bound in its own frame or outside of functions.
* `function_isolated` — **a call has the same result under any callers and leaves their frames, the
  assignments and the depth as they were**, whether it fails or not.
-/

import Reckoner.Proofs.Evaluation.Agreement
import Reckoner.Proofs.Evaluation.Meter

namespace Reckoner

section Callers

variable {env : Environment} {body : Expr → Eval Number}

/-- States that differ in what lies below their innermost frame are alike. -/
theorem alike_of_frame (env : Environment) (frame : Bindings) (callers callers' : List Bindings)
    (pending : Bindings) :
    Alike env env ⟨frame :: callers, pending⟩ ⟨frame :: callers', pending⟩ :=
  ⟨rfl, rfl, rfl, rfl, fun _ => rfl⟩

/-- **The result of a call is the same whoever calls.** -/
theorem callFunction_result (parallel : EvalParallel env env id body body) (name : String)
    (function : UserFunction) (values : List Number) (span : Span)
    (callers callers' : List Bindings) (pending : Bindings) :
    (callFunction env body name function values span ⟨callers, pending⟩).1 =
      (callFunction env body name function values span ⟨callers', pending⟩).1 := by
  rw [callFunction_eq]
  by_cases wrong : values.length ≠ function.arity
  · rw [if_pos wrong]
    rfl
  · rw [if_neg wrong]
    cases parse function.expression with
    | error error => rfl
    | ok program =>
      let frame : Bindings := .ofList (function.arguments.zip values) compare
      obtain ⟨agree, _⟩ := run_parallel parallel program _ _
        (alike_of_frame env frame callers' callers pending)
      exact congrArg (Except.mapError (EvalError.throughCall name span)) (agree.error trivial)

end Callers

theorem evalAtDepth_parallel (env : Environment) (depth : Nat) :
    EvalParallel env env id (evalAtDepth env depth) (evalAtDepth env depth) := by
  intro e
  unfold evalAtDepth
  split
  · rw [Expr.mapPlaces_id]
    exact Eval.parallel_throw fun _ => rfl
  · exact eval_parallel rfl _ e

/-- **A call of a function is isolated from its callers.** Whatever frames there are, it has one
result, and afterwards the frames, the assignments and the depth are as they were, on a machine that
counts the depth and, where the limit allows the call, within the levels that are left. -/
theorem function_isolated (env : Environment) (name : String) (function : UserFunction)
    (values : List Number) (span : Span) (pending : Bindings) (depth : Nat) :
    ∃ result, ∀ callers deepest mostFrames,
      (∃ deepest' mostFrames',
        Metered.function env name function values span
            ⟨⟨callers, pending⟩, depth, deepest, mostFrames⟩ =
          some (result, ⟨⟨callers, pending⟩, depth, deepest', mostFrames'⟩)) ∧
      (depth ≤ env.options.maxDepth →
        callFunction env (eval env (env.options.maxDepth - depth)) name function values span
          ⟨callers, pending⟩ = (result, ⟨callers, pending⟩)) := by
  have quiet : Eval.Quiet (callFunction env (evalAtDepth env (depth + 1)) name function values span) :=
    callFunction_quiet (evalAtDepth_quiet env (depth + 1)) name function values span
  refine ⟨(callFunction env (evalAtDepth env (depth + 1)) name function values span
    ⟨[], pending⟩).1, fun callers deepest mostFrames => ?_⟩
  have same := callFunction_result (evalAtDepth_parallel env (depth + 1)) name function values span
    callers [] pending
  constructor
  · obtain ⟨⟨state, depth', deepest', mostFrames'⟩, ran, unchanged, returns⟩ :=
      Metered.call_follows env depth name function values span
        ⟨⟨callers, pending⟩, depth, deepest, mostFrames⟩ rfl
    have back : depth' = depth := returns.depth
    have left : state = ⟨callers, pending⟩ := unchanged.trans (quiet _)
    refine ⟨deepest', mostFrames', ?_⟩
    rw [ran, same, back, left]
  · intro allowed
    have levels : env.options.maxDepth - depth = env.options.maxDepth + 1 - (depth + 1) := by
      omega
    rw [levels, eval_eq_evalAtDepth (by omega)]
    exact Prod.ext same (quiet _)

/-- A body that reads a name bound only by its caller fails, and the caller keeps its binding. -/
theorem function_isolated_local :
    let env : Environment := ⟨∅, .empty, ⟨.standard, 8⟩⟩
    let function : UserFunction := ⟨["x"], "x + y", rfl⟩
    let caller : Bindings := (∅ : Bindings).insert "y" .zero
    callFunction env (eval env 7) "f" function [.zero] ⟨0, 4⟩ ⟨[caller], ∅⟩ =
      (.error (.inFunction "f" (.unknownSymbol "y" ⟨4, 5⟩) ⟨0, 4⟩), ⟨[caller], ∅⟩) := by
  intro env function caller
  obtain ⟨result, isolated⟩ := function_isolated env "f" function [.zero] ⟨0, 4⟩ ∅ 1
  have allowed : 1 ≤ env.options.maxDepth := by decide
  have alone := (isolated [] 0 0).2 allowed
  have below := (isolated [caller] 0 0).2 allowed
  have failure : (callFunction env (eval env 7) "f" function [.zero] ⟨0, 4⟩ ⟨[], ∅⟩).1 =
      .error (.inFunction "f" (.unknownSymbol "y" ⟨4, 5⟩) ⟨0, 4⟩) :=
    failure?_eq_some.mp (by decide +kernel)
  have reason : result = .error (.inFunction "f" (.unknownSymbol "y" ⟨4, 5⟩) ⟨0, 4⟩) := by
    rw [← failure]
    exact (congrArg Prod.fst alone).symm
  rw [← reason]
  exact below

end Reckoner
