/-
Where the errors of an evaluation come from.

* `Eval.Fails` — a computation all of whose errors have some property; closed under sequencing.
* `EvalError.Direct` — errors of a node itself: neither from the body of a function nor at the limit.
* `node_fails`, `callFunction_fails`, `run_fails` — **an error of a node is its own, of a node below
  it, or of a call**, an error of a call comes from its arguments, its body or its text, and an error
  of a program from one of its statements.
-/

import Reckoner.Proofs.Evaluation.State
import Reckoner.Proofs.Expression.Layout

namespace Reckoner

/-! ### Computations and their errors -/

namespace Eval

variable {α β : Type} {P Q : EvalError → Prop}

/-- Whether all errors of a computation have some property. -/
def Fails (P : EvalError → Prop) (x : Eval α) : Prop :=
  ∀ state error, (x state).1 = .error error → P error

theorem fails_pure (a : α) : Fails P (pure a : Eval α) := by
  rintro state error ⟨⟩

theorem fails_throw {error : EvalError} (holds : P error) : Fails P (throw error : Eval α) := by
  rintro state _ ⟨⟩
  exact holds

theorem Fails.bind {x : Eval α} {f : α → Eval β} (first : Fails P x)
    (rest : ∀ a, Fails P (f a)) : Fails P (x >>= f) := by
  intro state error failed
  rw [run_bind] at failed
  rcases ran : x state with ⟨found | a, after⟩
  · rw [ran] at failed
    cases failed
    exact first state error (congrArg Prod.fst ran)
  · rw [ran] at failed
    exact rest a after error failed

theorem fails_compatible : Compatible (m := Eval) (n := Eval) fun _ x _ => Fails P x :=
  ⟨fails_pure, Fails.bind⟩

theorem Fails.map {x : Eval α} (g : α → β) (fails : Fails P x) : Fails P (g <$> x) :=
  fails_compatible.map g (y := x) fails

theorem fails_mapM {f : α → Eval β} {list : List α} (each : ∀ a ∈ list, Fails P (f a)) :
    Fails P (list.mapM f) :=
  fails_compatible.mapM (g := f) each

theorem fails_foldlM {f : β → α → Eval β} {list : List α}
    (each : ∀ b, ∀ a ∈ list, Fails P (f b a)) (start : β) : Fails P (list.foldlM f start) :=
  fails_compatible.foldlM (g := f) each start

theorem Fails.withFrame {x : Eval α} (frame : Bindings) (fails : Fails P x) :
    Fails P (withFrame frame x) :=
  fun state error failed => fails { state with frames := frame :: state.frames } error failed

theorem Fails.inFunction {x : Eval α} {name : String} {span : Span} (fails : Fails Q x)
    (passes : ∀ error, Q error → P (error.throughCall name span)) :
    Fails P (inFunction name span x) := by
  intro state error failed
  change (x state).1.mapError (.throughCall name span) = .error error at failed
  cases ran : (x state).1 with
  | ok a =>
    rw [ran] at failed
    cases failed
  | error cause =>
    rw [ran] at failed
    cases failed
    exact passes cause (fails state cause ran)

end Eval

/-! ### Errors of a single node -/

/-- Whether an error is one of a node itself: neither from the body of a function nor at the limit
on depth. -/
def EvalError.Direct : EvalError → Prop
  | inFunction .. => False
  | stackOverflow .. => False
  | _ => True

section Nodes

variable {P Q : EvalError → Prop} {env : Environment} {span : Span}
  (own : ∀ error : EvalError, error.Direct → error.span = span → P error)

include own

theorem ofDomain_fails (result : Except DomainError Number) :
    Eval.Fails P (Eval.ofDomain span result) := by
  cases result with
  | ok value => exact Eval.fails_pure value
  | error error => exact Eval.fails_throw (own _ trivial rfl)

theorem literal_fails (ctx : Context) (text : String) : Eval.Fails P (literal ctx text span) := by
  unfold literal
  split
  · exact Eval.fails_pure _
  · exact Eval.fails_throw (own _ trivial rfl)

theorem lookup_fails (name : String) : Eval.Fails P (lookup env name span) := by
  intro state error failed
  rw [run_lookup] at failed
  generalize resolve? env state name = symbol? at failed
  rcases symbol? with _ | (named | named | function | ref)
  · simp only [valueOf] at failed
    split at failed
    · cases failed
    · cases failed
      exact own _ trivial rfl
  · cases failed
  · cases failed
  · cases failed
    exact own _ trivial rfl
  · cases failed
    exact own _ trivial rfl

theorem assign_fails (name : String) (value : Number) :
    Eval.Fails P (assign env name span value) := by
  intro state error failed
  rw [run_assign] at failed
  cases kept : protection? env state name with
  | none =>
    rw [kept] at failed
    cases failed
  | some kind =>
    rw [kept] at failed
    cases failed
    exact own _ trivial rfl

theorem callScript_fails (name : String) (ref : ScriptRef) (values : List Number) :
    Eval.Fails P (callScript env name ref values span) := by
  rw [callScript_eq]
  repeat' split
  all_goals first | exact Eval.fails_pure _ | exact Eval.fails_throw (own _ trivial rfl)

theorem callBuiltin_fails (name : String) (builtin : Builtin) (values : List Number) :
    Eval.Fails P (callBuiltin env name builtin values span) := by
  unfold callBuiltin
  split
  · exact ofDomain_fails own _
  · exact Eval.fails_throw (own _ trivial rfl)

variable {body : Expr → Eval Number}

/-- An error of a call is its own, that of the text of the function, or one of its body. -/
theorem callFunction_fails {function : UserFunction} {name : String}
    (unread : ∀ error, parse function.expression = .error error →
      P (.inFunction name (.parse error) span))
    (bodies : ∀ program, parse function.expression = .ok program →
      Eval.Fails Q (run env body program))
    (passes : ∀ error, Q error → P (error.throughCall name span)) (values : List Number) :
    Eval.Fails P (callFunction env body name function values span) := by
  rw [callFunction_eq]
  by_cases wrong : values.length ≠ function.arity
  · rw [if_pos wrong]
    exact Eval.fails_throw (own _ trivial rfl)
  rw [if_neg wrong]
  cases parsed : parse function.expression with
  | error error => exact Eval.fails_throw (unread error parsed)
  | ok program => exact ((bodies program parsed).withFrame _).inFunction passes

end Nodes

/-! ### Errors of trees and programs -/

section Trees

variable {P : EvalError → Prop} {env : Environment} {child body : Expr → Eval Number}

/-- **An error of a node is its own, of a node right below it, or of the call of a function.** -/
theorem node_fails {e : Expr}
    (own : ∀ error : EvalError, error.Direct → error.span = e.span → P error)
    (parts : ∀ part ∈ e.parts, Eval.Fails P (child part))
    (calls : ∀ name nameSpan arguments span function,
      e = .call name nameSpan arguments span → env.table[name]? = some (.function function) →
        ∀ values, Eval.Fails P (callFunction env body name function values span)) :
    Eval.Fails P (node env child body e) := by
  cases e with
  | number text span => exact literal_fails own _ text
  | ident name span => exact lookup_fails own name
  | unary sign operand span => exact (parts operand List.mem_cons_self).map sign.apply
  | binary op left right span =>
    refine (parts left List.mem_cons_self).bind fun x => ?_
    exact (parts right (List.mem_cons_of_mem _ List.mem_cons_self)).bind fun y =>
      ofDomain_fails own _
  | call name nameSpan arguments span =>
    have values := Eval.fails_mapM parts
    intro state
    rw [node, run_call]
    rcases found : resolve? env state name with _ | (named | named | function | ref)
    · simp only [callOf]
      cases Builtin.ofName? name with
      | some builtin => exact (values.bind fun values => callBuiltin_fails own name _ values) state
      | none => exact Eval.fails_throw (own (.unknownSymbol name span) trivial rfl) state
    · exact Eval.fails_throw (own (.notCallable name .variable span) trivial rfl) state
    · exact Eval.fails_throw (own (.notCallable name .constant span) trivial rfl) state
    · have entry : env.table[name]? = some (.function function) := by
        unfold resolve? at found
        cases bound : state.value? name with
        | none =>
          rw [bound] at found
          exact found
        | some value =>
          rw [bound] at found
          cases found
      exact (values.bind fun values =>
        calls name nameSpan arguments span function rfl entry values) state
    · exact (values.bind fun values => callScript_fails own name ref values) state

/-- **An error of a program is one of its expressions, or of an assignment.** -/
theorem run_fails {program : Program}
    (values : ∀ statement ∈ program, Eval.Fails P (child statement.value))
    (assigns : ∀ name nameSpan e, .assign name nameSpan e ∈ program → ∀ error : EvalError,
      error.Direct → error.span = nameSpan → P error) :
    Eval.Fails P (run env child program) := by
  refine Eval.fails_foldlM (fun _ statement member => ?_) Number.zero
  cases statement with
  | assign name nameSpan e =>
    refine (values _ member).bind fun value => ?_
    exact (assign_fails (assigns name nameSpan e member) name value).bind fun _ =>
      Eval.fails_pure value
  | expr e => exact values _ member

end Trees

end Reckoner
