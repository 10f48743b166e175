/-
Computations that only stop earlier than others.

* `Eval.EqualUnless` — a computation ends as another one does, unless that one stops with an error of
  a certain kind; closed under sequencing, and under calls if these keep the kind of an error.
* `run_equalUnless`, `node_equalUnless` — statements and nodes of a tree do so if the trees below them
  and the bodies of functions do, also under another limit on depth.
-/

import Reckoner.Proofs.Evaluation.State

namespace Reckoner

/-- An environment with another limit on depth. -/
def Environment.withLimit (env : Environment) (limit : Nat) : Environment :=
  { env with options := { env.options with maxDepth := limit } }

/-- Whether a result is an error of a certain kind. -/
def StopsWith {α : Type} (stop : EvalError → Prop) (result : Except EvalError α) : Prop :=
  ∃ error, result = .error error ∧ stop error

namespace Eval

variable {α β : Type} {stop : EvalError → Prop}

/-- A computation ends as another one does, unless that one stops with an error of a certain
kind. -/
def EqualUnless (stop : EvalError → Prop) (x' x : Eval α) : Prop :=
  ∀ state, ¬StopsWith stop (x state).1 → x' state = x state

theorem EqualUnless.refl (x : Eval α) : EqualUnless stop x x := fun _ _ => rfl

theorem equalUnless_throw (x' : Eval α) {error : EvalError} (stops : stop error) :
    EqualUnless stop x' (throw error) :=
  fun _ calm => absurd ⟨error, rfl, stops⟩ calm

theorem EqualUnless.bind {x' x : Eval α} {f' f : α → Eval β} (first : EqualUnless stop x' x)
    (rest : ∀ a, EqualUnless stop (f' a) (f a)) : EqualUnless stop (x' >>= f') (x >>= f) := by
  intro state calm
  rw [run_bind] at calm
  rw [run_bind, run_bind]
  rcases ran : x state with ⟨error | a, after⟩
  · rw [ran] at calm
    have same : x' state = (.error error, after) := by
      rw [← ran]
      refine first state fun stopped => ?_
      rw [ran] at stopped
      obtain ⟨error', equal, stops⟩ := stopped
      cases equal
      exact calm ⟨error, rfl, stops⟩
    rw [same]
  · rw [ran] at calm
    have same : x' state = (.ok a, after) := by
      rw [← ran]
      refine first state fun stopped => ?_
      rw [ran] at stopped
      obtain ⟨_, ⟨⟩, _⟩ := stopped
    rw [same]
    exact rest a after calm

theorem equalUnless_compatible :
    Compatible (m := Eval) (n := Eval) fun _ x' x => EqualUnless stop x' x :=
  ⟨fun a => .refl (pure a), EqualUnless.bind⟩

/-- A computation may stop where it would have succeeded. -/
theorem EqualUnless.check {x' x : Eval α} (same : EqualUnless stop x' x) {check : α → Eval α}
    (checks : ∀ a, check a = pure a ∨ ∃ error, check a = throw error ∧ stop error) :
    EqualUnless stop x' (x >>= check) := by
  rw [← bind_pure x']
  refine same.bind fun a => ?_
  rcases checks a with passed | ⟨error, failed, stops⟩
  · rw [passed]
    exact .refl (pure a)
  · rw [failed]
    exact equalUnless_throw (pure a) stops

theorem EqualUnless.withFrame {x' x : Eval α} (frame : Bindings) (same : EqualUnless stop x' x) :
    EqualUnless stop (withFrame frame x') (withFrame frame x) := by
  intro state calm
  have inside := same { state with frames := frame :: state.frames } calm
  unfold Eval.withFrame
  rw [inside]

/-- Whether calls keep the kind of an error. -/
def KeptByCalls (stop : EvalError → Prop) : Prop :=
  ∀ name span error, stop (.throughCall name span error) ↔ stop error

theorem EqualUnless.inFunction {x' x : Eval α} (kept : KeptByCalls stop) (name : String)
    (span : Span) (same : EqualUnless stop x' x) :
    EqualUnless stop (inFunction name span x') (inFunction name span x) := by
  intro state calm
  have inside : x' state = x state := by
    refine same state fun stopped => calm ?_
    obtain ⟨error, equal, stops⟩ := stopped
    refine ⟨.throughCall name span error, ?_, (kept name span error).mpr stops⟩
    show ((x state).1).mapError _ = _
    rw [equal]
    rfl
  show ((x' state).1.mapError _, (x' state).2) = ((x state).1.mapError _, (x state).2)
  rw [inside]

end Eval

/-! ### Evaluation -/

section Evaluation

variable (env : Environment) (limit : Nat) {child' child body' body : Expr → Eval Number}
  {stop : EvalError → Prop}

theorem run_equalUnless (exprs : ∀ e, Eval.EqualUnless stop (child' e) (child e))
    (program : Program) :
    Eval.EqualUnless stop (run (env.withLimit limit) child' program) (run env child program) := by
  refine Eval.equalUnless_compatible.foldlM (fun _ statement _ => ?_) Number.zero
  cases statement with
  | assign name nameSpan e => exact (exprs e).bind fun value => .refl _
  | expr e => exact exprs e

variable (kept : Eval.KeptByCalls stop)

include kept

theorem callFunction_equalUnless (bodies : ∀ e, Eval.EqualUnless stop (body' e) (body e))
    (name : String) (function : UserFunction) (values : List Number) (span : Span) :
    Eval.EqualUnless stop (callFunction (env.withLimit limit) body' name function values span)
      (callFunction env body name function values span) := by
  rw [callFunction_eq, callFunction_eq]
  by_cases wrong : values.length ≠ function.arity
  · rw [if_pos wrong, if_pos wrong]
    exact .refl _
  rw [if_neg wrong, if_neg wrong]
  cases parse function.expression with
  | error error => exact .refl _
  | ok program => exact ((run_equalUnless env limit bodies program).withFrame _).inFunction kept name span

theorem node_equalUnless (exprs : ∀ e, Eval.EqualUnless stop (child' e) (child e))
    (bodies : ∀ e, Eval.EqualUnless stop (body' e) (body e)) (e : Expr) :
    Eval.EqualUnless stop (node (env.withLimit limit) child' body' e) (node env child body e) := by
  cases e with
  | number text span => exact .refl _
  | ident name span => exact .refl _
  | unary sign operand span => exact Eval.equalUnless_compatible.map sign.apply (exprs operand)
  | binary op left right span =>
    exact (exprs left).bind fun x => (exprs right).bind fun y => .refl _
  | call name nameSpan arguments span =>
    have values : Eval.EqualUnless stop (arguments.mapM child') (arguments.mapM child) :=
      Eval.equalUnless_compatible.mapM fun e _ => exprs e
    intro state
    rw [node, node, run_call, run_call]
    have same : resolve? (env.withLimit limit) state name = resolve? env state name := rfl
    rw [same]
    rcases resolve? env state name with _ | (named | named | function | ref)
    · simp only [callOf]
      cases Builtin.ofName? name with
      | some builtin => exact (values.bind fun values => .refl _) state
      | none => exact Eval.EqualUnless.refl _ state
    · exact Eval.EqualUnless.refl _ state
    · exact Eval.EqualUnless.refl _ state
    · exact (values.bind fun values =>
        callFunction_equalUnless env limit kept bodies name function values span) state
    · exact (values.bind fun values => .refl _) state

end Evaluation

end Reckoner
