/-
Where the diagnostics of a session point.

Every error of an evaluation is placed in the text that was given, because a call wraps what goes
wrong in the body of a function and puts its own place in front. Only the error at the limit on depth
passes unwrapped, with its place in the body in which the limit was reached.

* `EvalError.Strays`, `EvalError.Placed` — errors at the limit in the body of some function, and
  errors that stand in the text or are of that kind.
* `eval_placed` — **expressions of a text, at any depth, fail with placed errors only**.
* `Session.evaluate_diagnostic` — **a diagnostic and its related places are ranges of the text unless
  the limit on depth was reached in the body of a function**.
* `Session.evaluate_diagnostic_outside` — a diagnostic beyond the end of the text.
-/

import Reckoner.Proofs.Evaluation.Failures
import Reckoner.Proofs.Evaluation.Writes
import Reckoner.Session.Basic

namespace Reckoner

/-! ### Errors of an evaluation -/

/-- The number of bytes of the body of a function. -/
def UserFunction.size (function : UserFunction) : Nat :=
  Text.byteLength function.expression.toList

namespace EvalError

/-- Whether an error says that the limit on depth was reached in the body of some function, and stands
there. -/
def Strays (table : SymbolTable) (error : EvalError) : Prop :=
  ∃ (depth limit : Nat) (span : Span) (name : String) (function : UserFunction),
    error = .stackOverflow depth limit span ∧ table[name]? = some (.function function) ∧
      span.Within function.size

/-- Whether an error stands in a text of some length, or strays. -/
def Placed (table : SymbolTable) (length : Nat) (error : EvalError) : Prop :=
  error.span.Within length ∨ error.Strays table

/-- An error of the body of a function is placed at the call, unless it passes unwrapped. -/
theorem Placed.throughCall {table : SymbolTable} {function : UserFunction} {name : String}
    (entry : table[name]? = some (.function function)) {error : EvalError}
    (placed : error.Placed table function.size) {span : Span} {length : Nat}
    (within : span.Within length) : (error.throughCall name span).Placed table length := by
  cases error with
  | stackOverflow depth limit place =>
    rcases placed with inside | strays
    · exact .inr ⟨depth, limit, place, name, function, rfl, entry, inside⟩
    · exact .inr strays
  | _ => exact .inl within

end EvalError

section Evaluation

variable {env : Environment} {child : Expr → Eval Number} {length : Nat}

theorem run_placed
    (exprs : ∀ {e low}, e.Laid low length → Eval.Fails (EvalError.Placed env.table length) (child e))
    {program : Program} (laid : InOrder Statement.Laid 0 length program) :
    Eval.Fails (EvalError.Placed env.table length) (run env child program) := by
  have inside {statement : Statement} (member : statement ∈ program) :
      statement.Laid 0 length := laid.mem Statement.laid_placing member
  refine run_fails (fun statement member => exprs (inside member).value) ?_
  intro name nameSpan e member error _ here
  obtain ⟨between, named, value⟩ := inside member
  have before := Expr.laid_placing.le value
  rw [EvalError.Placed, here]
  exact .inl (named.widen (Nat.le_refl _) before).within

/-- **The expressions of a text fail with errors in the text, or at the limit in the body of a
function**, at every depth and whatever functions they call. -/
theorem eval_placed (env : Environment) (levels : Nat) {e : Expr} {low length : Nat}
    (laid : e.Laid low length) :
    Eval.Fails (EvalError.Placed env.table length) (eval env levels e) := by
  -- The nodes below are in the same text; the bodies of functions are texts of their own.
  induction levels using Nat.strongRecOn generalizing e low length with
  | _ levels ih =>
    have place : e.span.Within length := laid.span_lies.within
    match levels with
    | 0 => exact Eval.fails_throw (.inl place)
    | 1 => exact Eval.fails_throw (.inl place)
    | levels + 2 =>
      rw [eval]
      refine node_fails (fun error _ here => .inl (here ▸ place)) (fun part member => ?_) ?_
      · refine ih (levels + 1) (by omega) (Expr.laid_placing.widen (laid.parts member)
          (Nat.le_refl _) place.bound)
      · rintro name nameSpan arguments span function rfl entry values
        refine callFunction_fails (fun error _ here => .inl (here ▸ place))
          (fun error _ => .inl place) (fun program parsed => ?_)
          (fun error placed => EvalError.Placed.throughCall entry placed place) values
        exact run_placed (fun laid => ih levels (by omega) laid) (parseWithin_laid parsed)

/-- **A text fails with an error in it, or at the limit in the body of a function.** -/
theorem evaluate_placed {text : String} {table after : SymbolTable} {scripts : ScriptRegistry}
    {options : EvalOptions} {error : EvalError}
    (failed : evaluate text table scripts options = (.error error, after)) :
    error.Placed table (Text.byteLength text.toList) := by
  cases parsed : parse text with
  | error refused =>
    unfold evaluate at failed
    rw [parsed] at failed
    cases failed
    exact .inl (parseWithin_error parsed)
  | ok program =>
    rw [evaluate_of_parse table scripts options parsed] at failed
    have result := congrArg Prod.fst failed
    rw [committed_fst] at result
    exact run_placed (fun laid => eval_placed _ _ laid) (parseWithin_laid parsed) _ _ result

end Evaluation

/-! ### Diagnostics -/

/-- Whether a diagnostic and its related places are ranges of a text of some length. -/
structure Diagnostic.Within (length : Nat) (diagnostic : Diagnostic) : Prop where
  span : diagnostic.span.Within length
  related : ∀ place ∈ diagnostic.related, place.1.Within length

/-- The diagnostic of an error points where the error stands. -/
theorem EvalError.diagnostic_within {error : EvalError} {length : Nat} :
    error.diagnostic.Within length ↔ error.span.Within length := by
  refine ⟨fun within => ?_, fun within => ⟨?_, ?_⟩⟩
  · cases error <;> exact within.span
  · cases error <;> exact within
  · intro place member
    cases error with
    | inFunction name cause span =>
      rw [List.mem_singleton.mp member]
      exact within
    | _ => cases member

theorem SessionError.diagnostic_ofEval (error : EvalError) :
    (SessionError.ofEval error).diagnostic = error.diagnostic := by
  cases error <;> rfl

namespace Session

/-- **The diagnostic of a failed evaluation and its related places are ranges of the text**, whatever
symbols, addons and settings the session has, unless the limit on depth was reached in the body of a
function. -/
theorem evaluate_diagnostic {σ : Type} {session : Session σ} {text : String} {error : SessionError}
    (failed : (session.evaluate text).1 = .error error) :
    error.diagnostic.Within (Text.byteLength text.toList) ∨
      ∃ overflow : EvalError, error = .evaluation overflow ∧ overflow.Strays session.table := by
  unfold evaluate at failed
  rcases outcome : Reckoner.evaluate text session.table session.scripts session.options with
    ⟨cause | value, after⟩
  · rw [outcome] at failed
    cases failed
    rw [SessionError.diagnostic_ofEval, EvalError.diagnostic_within]
    refine (evaluate_placed outcome).imp_right fun strays => ⟨cause, ?_, strays⟩
    obtain ⟨depth, limit, span, _, _, rfl, _⟩ := strays
    rfl
  · rw [outcome] at failed
    cases failed

/-- A session with one function. -/
def defining (settings : Settings) (name : String) (function : UserFunction) : Session Unit :=
  { start settings () with table := (∅ : SymbolTable).insert name (.function function) }

/-- Division by zero in a body that is longer than the text. -/
theorem evaluate_diagnostic_quotient :
    ∃ error, ((defining {} "inv" ⟨["a"], "  1 / (a - a)", rfl⟩).evaluate "1+inv(0)").1 =
        .error error ∧
      error.diagnostic.Within (Text.byteLength "1+inv(0)".toList) := by
  have failed : ((defining {} "inv" ⟨["a"], "  1 / (a - a)", rfl⟩).evaluate "1+inv(0)").1 =
      .error (.evaluation (.inFunction "inv" (.domain .divisionByZero ⟨2, 12⟩) ⟨2, 8⟩)) :=
    failure?_eq_some.mp (by decide +kernel)
  refine ⟨_, failed, ?_⟩
  rcases evaluate_diagnostic failed with within | ⟨_, ⟨⟩, _, _, _, _, _, ⟨⟩, _⟩
  exact within

/-- A function that calls itself without end fails at a place in its body, beyond the end of the
text. -/
theorem evaluate_diagnostic_outside :
    (start {} ()).define "f" ["n"] "1 + f(n + 1)" =
        .ok (defining {} "f" ⟨["n"], "1 + f(n + 1)", rfl⟩) ∧
      ((defining {} "f" ⟨["n"], "1 + f(n + 1)", rfl⟩).evaluate "f(1)").1 =
        .error (.evaluation (.stackOverflow 256 256 ⟨6, 11⟩)) ∧
      ¬(SessionError.evaluation (.stackOverflow 256 256 ⟨6, 11⟩)).diagnostic.Within
        (Text.byteLength "f(1)".toList) := by
  refine ⟨rfl, failure?_eq_some.mp (by decide +kernel), fun within => ?_⟩
  have bound : 11 ≤ 4 := within.span.bound
  exact absurd bound (by decide)

end Session

end Reckoner
