/-
Expressions without rounding.

* `Expr.height` — how many levels a tree has.
* `BinaryOp.rational?`, `Sign.rational` — the operations on rationals.
* `ExactValue` — an expression of numbers, variables, constants, signs and the operators but `^` has
  a value in rationals, and the values of all its parts fit into the precision.
* `ExactValue.run_eval` — **such an expression evaluates to its value**, wherever nothing is
  assigned to its names.
* `evaluate_exact` — so does every text that is one such expression, in every direction of rounding.
-/

import Reckoner.Proofs.Evaluation.Staging
import Reckoner.Proofs.Expression.Numerals

namespace Reckoner

/-! ### Levels -/

namespace Expr

mutual

/-- How many levels a tree has. -/
def height : Expr → Nat
  | number _ _ => 1
  | ident _ _ => 1
  | unary _ operand _ => operand.height + 1
  | binary _ left right _ => max left.height right.height + 1
  | call _ _ arguments _ => argumentsHeight arguments + 1

/-- How many levels the highest of some trees has. -/
def argumentsHeight : List Expr → Nat
  | [] => 0
  | argument :: rest => max argument.height (argumentsHeight rest)

end

theorem height_pos (e : Expr) : 0 < e.height := by
  cases e <;> simp only [height] <;> omega

/-- Where there are more levels than a tree has, its root is evaluated. -/
theorem exists_levels {e : Expr} {levels : Nat} (enough : e.height < levels) :
    ∃ below, levels = below + 2 := by
  have positive := e.height_pos
  exact ⟨levels - 2, by omega⟩

end Expr

/-! ### Values in rationals -/

/-- A sign in front of a rational. -/
def Sign.rational : Sign → Rat → Rat
  | minus, q => -q
  | plus, q => q

/-- The operators on rationals. Nothing is divided by zero, and there are no powers here. -/
def BinaryOp.rational? : BinaryOp → Rat → Rat → Option Rat
  | add, a, b => some (a + b)
  | sub, a, b => some (a - b)
  | mul, a, b => some (a * b)
  | div, a, b => if b = 0 then none else some (a / b)
  | rem, a, b => if b = 0 then none else some (truncatedRemainder a b)
  | pow, _, _ => none

/-- An expression has a value in rationals, and it and the values of all parts of the expression
fit into the precision. -/
inductive ExactValue (table : SymbolTable) (ctx : Context) : Expr → Rat → Prop
  | number {text : String} {span : Span} {number : NumberText} {x : Number}
      (spelled : number.chars = text.toList)
      (accepted : Number.fromDecimal text ctx.bits ctx.rounding = .ok x)
      (fits : FitsIn ctx.bits number.value) :
      ExactValue table ctx (.number text span) number.value
  | ident {name : String} {span : Span} {named : NamedValue}
      (entry : table[name]? = some (.variable named) ∨ table[name]? = some (.constant named))
      (fits : FitsIn ctx.bits named.value.value.toRat) :
      ExactValue table ctx (.ident name span) named.value.value.toRat
  | unary {sign : Sign} {operand : Expr} {span : Span} {q : Rat}
      (inner : ExactValue table ctx operand q) :
      ExactValue table ctx (.unary sign operand span) (sign.rational q)
  | binary {op : BinaryOp} {left right : Expr} {span : Span} {a b c : Rat}
      (first : ExactValue table ctx left a) (second : ExactValue table ctx right b)
      (result : op.rational? a b = some c) (near : op = .rem → Near a b)
      (fits : FitsIn ctx.bits c) :
      ExactValue table ctx (.binary op left right span) c

/-! ### Operations -/

theorem Sign.toRat_apply (sign : Sign) (x : Number) :
    (sign.apply x).value.toRat = sign.rational x.value.toRat := by
  cases sign with
  | minus => exact Dyadic.toRat_neg x.value
  | plus => rfl

/-- **An operator on numbers gives what it gives on rationals if that fits.** -/
theorem BinaryOp.apply_exact {op : BinaryOp} {x y : Number} {ctx : Context} {c : Rat}
    (first : FitsIn ctx.bits x.value.toRat) (second : FitsIn ctx.bits y.value.toRat)
    (result : op.rational? x.value.toRat y.value.toRat = some c)
    (near : op = .rem → Near x.value.toRat y.value.toRat) (fits : FitsIn ctx.bits c) :
    Gives (op.apply x y ctx) c := by
  cases op with
  | add =>
    cases result
    exact Number.add_exact first second fits
  | sub =>
    cases result
    exact Number.sub_exact first second fits
  | mul =>
    cases result
    exact Number.mul_exact first second fits
  | div =>
    simp only [rational?] at result
    split at result
    · cases result
    · next nonzero =>
      cases result
      exact Number.div_exact nonzero fits
  | rem =>
    simp only [rational?] at result
    split at result
    · cases result
    · next nonzero =>
      cases result
      exact Number.rem_exact first nonzero (near rfl) fits
  | pow => cases result

/-! ### Evaluation -/

theorem ExactValue.fits {table : SymbolTable} {ctx : Context} {e : Expr} {q : Rat}
    (exact : ExactValue table ctx e q) : FitsIn ctx.bits q := by
  induction exact with
  | number spelled accepted fits => exact fits
  | ident entry fits => exact fits
  | @unary sign _ _ _ inner ih =>
    cases sign with
    | minus => exact ih.neg
    | plus => exact ih
  | binary first second result near fits => exact fits

/-- A name that nothing is assigned to has the value of its entry in the table. -/
theorem run_lookup_named {env : Environment} {name : String} {named : NamedValue}
    (entry : env.table[name]? = some (.variable named) ∨
      env.table[name]? = some (.constant named))
    {state : EvalState} (unassigned : state.value? name = none) (span : Span) :
    lookup env name span state = (.ok named.value, state) := by
  rw [run_lookup, resolve?, unassigned]
  rcases entry with entry | entry
  · rw [entry]
    rfl
  · rw [entry]
    rfl

/-- **An exact expression evaluates to its value**, whatever the direction of rounding, if there are
levels enough and nothing is assigned to its names. -/
theorem ExactValue.run_eval {env : Environment} {e : Expr} {q : Rat}
    (exact : ExactValue env.table env.options.context e q) {levels : Nat}
    (enough : e.height < levels) {state : EvalState}
    (unassigned : ∀ name, state.value? name = none) :
    ∃ x, eval env levels e state = (.ok x, state) ∧ x.value.toRat = q := by
  -- The operands of a node are evaluated one level below it, in the state the node found.
  induction exact generalizing levels with
  | @number text span number x spelled accepted fits =>
    obtain ⟨below, rfl⟩ := Expr.exists_levels enough
    refine ⟨x, ?_, number.fromDecimal_exact spelled accepted fits⟩
    show literal env.options.context text span state = _
    rw [literal, accepted]
    rfl
  | @ident name span named entry fits =>
    obtain ⟨below, rfl⟩ := Expr.exists_levels enough
    exact ⟨named.value, run_lookup_named entry (unassigned name) span, rfl⟩
  | @unary sign operand span q inner ih =>
    obtain ⟨below, rfl⟩ := Expr.exists_levels enough
    rw [Expr.height] at enough
    obtain ⟨x, ran, value⟩ := @ih (below + 1) (by omega)
    refine ⟨sign.apply x, ?_, ?_⟩
    · show (sign.apply <$> eval env (below + 1) operand) state = _
      rw [Eval.run_map, ran]
      rfl
    · rw [sign.toRat_apply, value]
  | @binary op left right span a b c first second result near fits ihFirst ihSecond =>
    obtain ⟨below, rfl⟩ := Expr.exists_levels enough
    rw [Expr.height] at enough
    obtain ⟨x, ranFirst, valueFirst⟩ := @ihFirst (below + 1) (by omega)
    obtain ⟨y, ranSecond, valueSecond⟩ := @ihSecond (below + 1) (by omega)
    subst valueFirst valueSecond
    obtain ⟨z, applied, value⟩ := BinaryOp.apply_exact first.fits second.fits result near fits
    have operated : Eval.ofDomain span (op.apply x y env.options.context) state =
        (.ok z, state) := by
      rw [applied]
      rfl
    exact ⟨z, Eval.run_bind_eq_ok.mpr ⟨x, state, ranFirst,
      Eval.run_bind_eq_ok.mpr ⟨y, state, ranSecond, operated⟩⟩, value⟩

/-- **An exact expression as a text evaluates to its value.** -/
theorem evaluate_exact {text : String} {table : SymbolTable} {scripts : ScriptRegistry}
    {options : EvalOptions} {e : Expr} {q : Rat} (accepted : parse text = .ok [.expr e])
    (exact : ExactValue table options.context e q) (height : e.height ≤ options.maxDepth) :
    ∃ x, evaluate text table scripts options = (.ok x, table) ∧ x.value.toRat = q := by
  let env : Environment := ⟨table, scripts, options⟩
  have unassigned (name : String) : EvalState.initial.value? name = none :=
    Std.ExtTreeMap.getElem?_empty
  obtain ⟨x, ran, value⟩ := @ExactValue.run_eval env e q exact (options.maxDepth + 1)
    (Nat.lt_succ_of_le height) .initial unassigned
  have whole : run env (topLevel env) [.expr e] .initial = (.ok x, .initial) :=
    Eval.run_bind_eq_ok.mpr ⟨x, .initial, ran, rfl⟩
  exact ⟨x, evaluate_eq_ok.mpr ⟨_, .initial, accepted, whole, (commit_initial table).symm⟩, value⟩

/-- The remainder of a sum with a sign in front. -/
theorem evaluate_exact_remainder : ∃ (table : SymbolTable) (x : Number),
    table = (∅ : SymbolTable).insert "x" (.variable ⟨⟨.scaled 7 (-1), 64⟩, none⟩) ∧
    evaluate "-(x + 0.25) % 2" table .empty .short = (.ok x, table) ∧
    x.value.toRat = -7 / 4 := by
  have parsed : parse "-(x + 0.25) % 2" = .ok [.expr (.binary .rem
      (.unary .minus (.binary .add (.ident "x" ⟨2, 3⟩) (.number "0.25" ⟨6, 10⟩) ⟨2, 10⟩) ⟨0, 10⟩)
      (.number "2" ⟨14, 15⟩) ⟨0, 15⟩)] := rfl
  generalize named : (∅ : SymbolTable).insert "x" (.variable ⟨⟨.scaled 7 (-1), 64⟩, none⟩) = table
  have entry : table["x"]? = some (.variable ⟨⟨.scaled 7 (-1), 64⟩, none⟩) := by
    rw [← named]
    exact Std.ExtTreeMap.getElem?_insert_self
  have x : ExactValue table EvalOptions.short.context (.ident "x" ⟨2, 3⟩)
      (Dyadic.scaled 7 (-1)).toRat :=
    .ident (.inl entry) ⟨7, -1, Dyadic.toRat_scaled 7 (-1), by decide, by decide⟩
  have quarter : ExactValue table EvalOptions.short.context (.number "0.25" ⟨6, 10⟩)
      (NumberText.value ⟨['0'], some ['2', '5'], none, rfl, rfl, by decide⟩) :=
    .number rfl rfl ⟨1, -2, by decide +kernel, by decide, by decide⟩
  have two : ExactValue table EvalOptions.short.context (.number "2" ⟨14, 15⟩)
      (NumberText.value ⟨['2'], none, none, rfl, rfl, by decide⟩) :=
    .number rfl rfl ⟨1, 1, by decide +kernel, by decide, by decide⟩
  have sum : ExactValue table EvalOptions.short.context
      (.binary .add (.ident "x" ⟨2, 3⟩) (.number "0.25" ⟨6, 10⟩) ⟨2, 10⟩) (15 / 4) :=
    .binary x quarter (by decide +kernel) (fun isRem => absurd isRem (by decide))
      ⟨15, -2, by decide +kernel, by decide, by decide⟩
  have near : Near (Sign.minus.rational (15 / 4))
      (NumberText.value ⟨['2'], none, none, rfl, rfl, by decide⟩) :=
    @near_of_toRat _ _ (.scaled (-15) (-2)) (.scaled 2 0) (by decide +kernel) (by decide +kernel)
      (by decide)
  obtain ⟨x, evaluated, value⟩ := @evaluate_exact _ table .empty .short _ _ parsed
    (.binary (.unary sum) two (by decide +kernel : BinaryOp.rational? .rem _ _ = some (-7 / 4))
      (fun _ => near) ⟨-7, -2, by decide +kernel, by decide, by decide⟩) (by decide)
  exact ⟨table, x, rfl, evaluated, value⟩

end Reckoner
