/-
Errors of a session as chains of calls.

What goes wrong in the body of a function reaches the text that was given through the calls that led
there, each of which wraps it once. Arguments, their number and the name that is called are the
business of the text of the call, and so are its errors.

* `EvalError.Chain` — an error of a text: one of its own, or that of a call in it, around an error of
  the body of the function that is called.
* `eval_chained` — **expressions of a text, at any depth, fail with such errors, or at the limit**.
* `Session.evaluate_chain` — **so do texts, unless they are refused**.
-/

import Reckoner.Proofs.Evaluation.Limit
import Reckoner.Proofs.Session.Diagnostics

namespace Reckoner

/-! ### Chains of calls -/

namespace EvalError

/-- Whether an error is one of a text. An error of the text itself stands in it. Any other error is
at a call in the text, and around an error of the text of the function that the table has for the
name. -/
inductive Chain (table : SymbolTable) : (text : String) → EvalError → Prop where
  | root {text : String} {error : EvalError} (direct : error.Direct)
      (within : error.span.Within (Text.byteLength text.toList)) : Chain table text error
  | call {text name : String} {program : Program} {nameSpan span : Span} {arguments : List Expr}
      {function : UserFunction} {cause : EvalError} (parsed : Reckoner.parse text = .ok program)
      (node : program.HasNode (.call name nameSpan arguments span))
      (entry : table[name]? = some (.function function))
      (inside : Chain table function.expression cause) :
      Chain table text (.inFunction name cause span)

/-- Chains never end at the limit on depth, nor in another call. -/
theorem Chain.rootCause_direct {table : SymbolTable} {text : String} {error : EvalError}
    (chain : Chain table text error) : error.rootCause.Direct := by
  induction chain with
  | @root text error direct within =>
    cases error with
    | inFunction name cause span => exact direct.elim
    | _ => exact direct
  | call parsed node entry inside ih => exact ih

/-- An error of a body as the caller sees it: the limit on depth passes, all else is wrapped. -/
theorem throughCall_chain {table : SymbolTable} {text name : String} {program : Program}
    {nameSpan span : Span} {arguments : List Expr} {function : UserFunction} {cause : EvalError}
    (parsed : Reckoner.parse text = .ok program)
    (node : program.HasNode (.call name nameSpan arguments span))
    (entry : table[name]? = some (.function function))
    (inside : cause.IsOverflow ∨ Chain table function.expression cause) :
    (cause.throughCall name span).IsOverflow ∨ Chain table text (cause.throughCall name span) := by
  rcases inside with ⟨depth, limit, place, rfl⟩ | chain
  · exact .inl ⟨depth, limit, place, rfl⟩
  · cases cause with
    | stackOverflow depth limit place => exact chain.rootCause_direct.elim
    | _ => exact .inr (.call parsed node entry chain)

end EvalError

/-! ### Evaluation -/

section Evaluation

variable {env : Environment} {text : String} {program : Program}

/-- A program fails as its expressions do, for an assignment is part of its text. -/
theorem run_chained {child : Expr → Eval Number} (parsed : Reckoner.parse text = .ok program)
    (nodes : ∀ {e}, program.HasNode e → Eval.Fails
      (fun error => error.IsOverflow ∨ error.Chain env.table text) (child e)) :
    Eval.Fails (fun error => error.IsOverflow ∨ error.Chain env.table text)
      (run env child program) := by
  refine run_fails (fun statement member => nodes ⟨statement, member, .self⟩) ?_
  intro name nameSpan e member error direct here
  obtain ⟨between, named, value⟩ := (parseWithin_laid parsed).mem Statement.laid_placing member
  have before := Expr.laid_placing.le value
  refine .inr (.root direct ?_)
  rw [here]
  exact (named.widen (Nat.le_refl _) before).within

/-- **The expressions of a text fail with chains of calls from the text on, or at the limit**, at every
depth and whatever functions they call. -/
theorem eval_chained (env : Environment) (levels : Nat) {e : Expr} (parsed : parse text = .ok program)
    (has : program.HasNode e) :
    Eval.Fails (fun error => error.IsOverflow ∨ error.Chain env.table text)
      (eval env levels e) := by
  -- The nodes below are of the same text; the body of a function is a text with nodes of its own.
  induction levels using Nat.strongRecOn generalizing e text program with
  | _ levels ih =>
    have place : e.span.Within (Text.byteLength text.toList) :=
      (has.laid (parseWithin_laid parsed)).span_lies.within
    match levels with
    | 0 => exact Eval.fails_throw (.inl ⟨_, _, _, rfl⟩)
    | 1 => exact Eval.fails_throw (.inl ⟨_, _, _, rfl⟩)
    | levels + 2 =>
      have own (error : EvalError) (direct : error.Direct) (here : error.span = e.span) :
          error.IsOverflow ∨ error.Chain env.table text :=
        .inr (.root direct (here ▸ place))
      rw [eval]
      refine node_fails own (fun part member => ?_) ?_
      · exact ih (levels + 1) (by omega) parsed (has.part member)
      · rintro name nameSpan arguments span function rfl entry values
        refine callFunction_fails own (fun error refused => ?_) (fun body bodyParsed => ?_)
          (fun cause inside => EvalError.throughCall_chain parsed has entry inside) values
        · exact .inr (.call parsed has entry (.root trivial (parseWithin_error refused)))
        · exact run_chained bodyParsed fun below => ih levels (by omega) bodyParsed below

/-- **A text that can be read fails with a chain of calls from it on, or at the limit.** -/
theorem evaluate_chained {table after : SymbolTable} {scripts : ScriptRegistry}
    {options : EvalOptions} {error : EvalError} (parsed : parse text = .ok program)
    (failed : evaluate text table scripts options = (.error error, after)) :
    error.IsOverflow ∨ error.Chain table text := by
  rw [evaluate_of_parse table scripts options parsed] at failed
  have result := congrArg Prod.fst failed
  rw [committed_fst] at result
  exact run_chained parsed (fun below => eval_chained ⟨table, scripts, options⟩ _ parsed below) _ _
    result

end Evaluation

/-! ### Sessions -/

namespace Session

/-- **An evaluation that fails has refused the text or reached the limit on depth, or its error is a
chain of calls**: from a call in the text, through a call in the body of each function that is called,
to an error in the last of these bodies. -/
theorem evaluate_chain {σ : Type} {session : Session σ} {text : String} {error : SessionError}
    (failed : (session.evaluate text).1 = .error error) :
    (∃ refused, parse text = .error refused ∧ error = .parse refused) ∨
      ∃ cause, error = .ofEval cause ∧ (cause.IsOverflow ∨ cause.Chain session.table text) := by
  unfold evaluate at failed
  rcases outcome : Reckoner.evaluate text session.table session.scripts session.options with
    ⟨cause | value, after⟩
  · rw [outcome] at failed
    cases failed
    cases parsed : parse text with
    | error refused =>
      unfold Reckoner.evaluate at outcome
      rw [parsed] at outcome
      cases outcome
      exact .inl ⟨refused, rfl, rfl⟩
    | ok program => exact .inr ⟨cause, rfl, Reckoner.evaluate_chained parsed outcome⟩
  · rw [outcome] at failed
    cases failed

/-- A session with a function that calls another one. -/
def relaying : Session Unit :=
  let callee := defining {} "g" ⟨["y"], "1 / y", rfl⟩
  { callee with table := callee.table.insert "f" (.function ⟨["x"], "1 + g(x)", rfl⟩) }

/-- Division by zero in a function that is called by another one. -/
theorem evaluate_chain_twice :
    (relaying.evaluate "2 + f(0)").1 = .error (.evaluation
        (.inFunction "f" (.inFunction "g" (.domain .divisionByZero ⟨0, 5⟩) ⟨4, 8⟩) ⟨4, 8⟩)) ∧
      EvalError.Chain relaying.table "2 + f(0)"
        (.inFunction "f" (.inFunction "g" (.domain .divisionByZero ⟨0, 5⟩) ⟨4, 8⟩) ⟨4, 8⟩) := by
  have failed : (relaying.evaluate "2 + f(0)").1 = .error (.evaluation
      (.inFunction "f" (.inFunction "g" (.domain .divisionByZero ⟨0, 5⟩) ⟨4, 8⟩) ⟨4, 8⟩)) :=
    failure?_eq_some.mp (by decide +kernel)
  refine ⟨failed, ?_⟩
  rcases evaluate_chain failed with ⟨_, _, ⟨⟩⟩ | ⟨cause, same, ⟨_, _, _, rfl⟩ | chain⟩
  · cases same
  · cases cause with
    | inFunction name inner span =>
      cases same
      exact chain
    | _ => cases same

end Session

end Reckoner
