/-
The range of numbers in an evaluation.

* `SymbolTable.InRange`, `EvalState.InRange` — every value of a table or of a state is in the range.
* `Expr.isUnchecked` — the nodes whose values nothing holds in the range: numbers as they are
  written, remainders, and the functions of `Builtin.unchecked`.
* `Guarded.evaluate` — evaluation that stops where such a node leaves the range.
* `Eval.Keeps` — a computation in a state in the range ends in one, with a result of some property;
  closed under sequencing and calls.
* `evaluate_inRange` — **an evaluation stays in the range unless one of these nodes leaves it**.
* `evaluate_leaves_range` — a remainder does so.
-/

import Reckoner.Proofs.Evaluation.Staging
import Reckoner.Proofs.Evaluation.Stopping
import Reckoner.Proofs.Number.Range
import Reckoner.Proofs.Symbols.Map

namespace Reckoner

/-! ### Tables and states in the range -/

/-- Whether every value of a table is in the range. -/
def SymbolTable.InRange (table : SymbolTable) : Prop :=
  ∀ (name : String) (named : NamedValue), (table[name]? = some (.variable named) ∨
    table[name]? = some (.constant named)) → named.value.InRange

theorem SymbolTable.inRange_empty : (∅ : SymbolTable).InRange := by
  intro name named found
  rw [Std.ExtTreeMap.getElem?_empty] at found
  rcases found with found | found
  · cases found
  · cases found

theorem SymbolTable.InRange.insert {table : SymbolTable} (inRange : table.InRange) (name : String)
    {symbol : Symbol} (within : ∀ named, symbol = .variable named ∨ symbol = .constant named →
      named.value.InRange) : SymbolTable.InRange (table.insert name symbol) := by
  intro other named entry
  rw [NameMap.getElem?_insert] at entry
  split at entry
  · exact within named (entry.imp Option.some.inj Option.some.inj)
  · exact inRange other named entry

/-- Whether every value of some bindings is in the range. -/
def Bindings.InRange (bindings : Bindings) : Prop :=
  ∀ (name : String) (value : Number), bindings[name]? = some value → value.InRange

theorem bindings_inRange_empty : Bindings.InRange ∅ := by
  intro name value found
  rw [Std.ExtTreeMap.getElem?_empty] at found
  cases found

theorem Bindings.InRange.insert {bindings : Bindings} (inRange : Bindings.InRange bindings)
    (name : String) {value : Number} (within : value.InRange) :
    Bindings.InRange (bindings.insert name value) := by
  intro other bound found
  rw [NameMap.getElem?_insert] at found
  split at found
  · rwa [← Option.some.inj found]
  · exact inRange other bound found

/-- Arguments in the range make a frame in the range. -/
theorem bindings_inRange_ofList (names : List String) {values : List Number}
    (inRange : ∀ value ∈ values, value.InRange) :
    Bindings.InRange (.ofList (names.zip values) compare) := by
  intro name value found
  exact inRange value (List.of_mem_zip (NameMap.mem_of_getElem?_ofList found)).2

namespace EvalState

/-- Whether every value bound in a state is in the range. -/
structure InRange (state : EvalState) : Prop where
  frames : ∀ frame ∈ state.frames, Bindings.InRange frame
  pending : Bindings.InRange state.pending

theorem inRange_initial : EvalState.initial.InRange :=
  ⟨nofun, bindings_inRange_empty⟩

theorem InRange.bind {state : EvalState} (inRange : state.InRange) (name : String)
    {value : Number} (within : value.InRange) : (state.bind name value).InRange := by
  obtain ⟨frames, pending⟩ := state
  cases frames with
  | nil => exact ⟨nofun, inRange.pending.insert name within⟩
  | cons frame callers =>
    obtain ⟨here, below⟩ := List.forall_mem_cons.mp inRange.frames
    exact ⟨List.forall_mem_cons.mpr ⟨here.insert name within, below⟩, inRange.pending⟩

/-- A value that a name has in a state in the range is in the range. -/
theorem InRange.value {state : EvalState} (inRange : state.InRange) {name : String}
    {value : Number} (found : state.value? name = some value) : value.InRange := by
  rcases Option.or_eq_some_iff.mp found with bound | ⟨-, assigned⟩
  · obtain ⟨frame, first, entry⟩ := Option.bind_eq_some_iff.mp bound
    exact inRange.frames frame (List.mem_of_head? first) name value entry
  · exact inRange.pending name value assigned

/-- What an evaluation leaves is in the range with its table and its state. -/
theorem InRange.commit {state : EvalState} (inRange : state.InRange) {table : SymbolTable}
    (within : table.InRange) : (state.commit table).InRange := by
  intro name named entry
  rw [getElem?_commit] at entry
  cases assigned : state.pending[name]? with
  | some value =>
    rw [assigned] at entry
    rcases entry with same | same
    · cases same
      exact inRange.pending name value assigned
    · cases same
  | none =>
    rw [assigned] at entry
    exact within name named entry

end EvalState

/-! ### Evaluation that stops where it leaves the range -/

/-- Whether nothing holds the value of a node in the range: it is a number as it is written, a
remainder, or the result of an unchecked function. -/
def Expr.isUnchecked : Expr → Bool
  | .number .. => true
  | .ident .. => false
  | .unary .. => false
  | .binary op .. => op = .rem
  | .call name .. => name ∈ Builtin.unchecked

namespace Guarded

/-- What evaluation is stopped with. -/
def outOfRange : DomainError := .overflow "an unchecked operation"

/-- The value of a node, unless nothing holds it in the range and it is outside. -/
def guard (e : Expr) (x : Number) : Eval Number :=
  if e.isUnchecked ∧ ¬x.InRange then throw (.domain outOfRange e.span) else pure x

/-- A node of a tree, stopped where it leaves the range. -/
def node (env : Environment) (child body : Expr → Eval Number) (e : Expr) : Eval Number :=
  Reckoner.node env child body e >>= guard e

/-- A tree within a number of levels, stopped where it leaves the range. -/
def eval (env : Environment) : (levels : Nat) → Expr → Eval Number
  | 0, e => Reckoner.eval env 0 e
  | 1, e => Reckoner.eval env 1 e
  | levels + 2, e => node env (eval env (levels + 1)) (eval env levels) e

/-- The value of a text, and the table afterwards, stopped where it leaves the range. -/
def evaluate (text : String) (table : SymbolTable) (scripts : ScriptRegistry)
    (options : EvalOptions) : Except EvalError Number × SymbolTable :=
  let env : Environment := ⟨table, scripts, options⟩
  match parse text with
  | .error error => (.error (.parse error), table)
  | .ok program => committed table (run env (eval env (options.maxDepth + 1)) program .initial)

end Guarded

/-- Whether an error says that a node left the range, here or in the body of a function. -/
def EvalError.LeavesRange (error : EvalError) : Prop :=
  ∃ span, error.rootCause = .domain Guarded.outOfRange span

theorem leavesRange_keptByCalls : Eval.KeptByCalls EvalError.LeavesRange := by
  intro name span error
  cases error with
  | _ => exact Iff.rfl

/-- **Evaluation that is stopped gives the same as evaluation unless it is stopped.** -/
theorem Guarded.eval_equalUnless (env : Environment) (levels : Nat) (e : Expr) :
    Eval.EqualUnless EvalError.LeavesRange (Reckoner.eval env levels e)
      (Guarded.eval env levels e) := by
  induction levels using Nat.strongRecOn generalizing e with
  | _ levels ih =>
    match levels with
    | 0 => exact .refl _
    | 1 => exact .refl _
    | levels + 2 =>
      rw [Reckoner.eval, Guarded.eval]
      refine (node_equalUnless env env.options.maxDepth leavesRange_keptByCalls
        (fun e => ih (levels + 1) (by omega) e) (fun e => ih levels (by omega) e) e).check
          fun x => ?_
      unfold Guarded.guard
      split
      · exact .inr ⟨_, rfl, _, rfl⟩
      · exact .inl rfl

/-! ### Computations that keep the range -/

namespace Eval

variable {α β : Type} {P : α → Prop} {Q : β → Prop}

/-- Whether a computation in a state in the range ends in one, with a result of some property. -/
def Keeps (P : α → Prop) (x : Eval α) : Prop :=
  ∀ state a after, state.InRange → x state = (.ok a, after) → P a ∧ after.InRange

theorem keeps_pure {a : α} (holds : P a) : Keeps P (pure a) := by
  rintro state _ _ inRange ⟨⟩
  exact ⟨holds, inRange⟩

theorem keeps_throw (error : EvalError) : Keeps P (throw error : Eval α) := by
  rintro state _ _ _ ⟨⟩

theorem Keeps.bind {x : Eval α} {f : α → Eval β} (first : Keeps P x)
    (rest : ∀ a, P a → Keeps Q (f a)) : Keeps Q (x >>= f) := by
  intro state b after inRange ran
  obtain ⟨a, between, ranFirst, ranRest⟩ := run_bind_eq_ok.mp ran
  obtain ⟨holds, inRange'⟩ := first state a between inRange ranFirst
  exact rest a holds between b after inRange' ranRest

theorem Keeps.imp {x : Eval α} {P' : α → Prop} (keeps : Keeps P x) (weaker : ∀ a, P a → P' a) :
    Keeps P' x :=
  fun state a after inRange ran => (keeps state a after inRange ran).imp_left (weaker a)

theorem Keeps.map {x : Eval α} (g : α → β) (keeps : Keeps P x) (image : ∀ a, P a → Q (g a)) :
    Keeps Q (g <$> x) := by
  rw [map_eq_pure_bind]
  exact keeps.bind fun a holds => keeps_pure (image a holds)

theorem keeps_mapM {f : α → Eval β} (each : ∀ a, Keeps Q (f a)) (list : List α) :
    Keeps (fun bs => ∀ b ∈ bs, Q b) (list.mapM f) := by
  induction list with
  | nil => exact keeps_pure nofun
  | cons a rest ih =>
    rw [List.mapM_cons]
    refine (each a).bind fun b holds => ih.bind fun bs all => keeps_pure ?_
    exact List.forall_mem_cons.mpr ⟨holds, all⟩

theorem keeps_foldlM {f : β → α → Eval β} (each : ∀ b a, Keeps Q (f b a)) (list : List α)
    {start : β} (holds : Q start) : Keeps Q (list.foldlM f start) := by
  induction list generalizing start with
  | nil => exact keeps_pure holds
  | cons a rest ih =>
    rw [List.foldlM_cons]
    exact (each start a).bind fun b holds => ih holds

theorem Keeps.withFrame {body : Eval α} (keeps : Keeps P body) {frame : Bindings}
    (within : Bindings.InRange frame) : Keeps P (withFrame frame body) := by
  intro state a after inRange ran
  have pushed : EvalState.InRange { state with frames := frame :: state.frames } :=
    ⟨List.forall_mem_cons.mpr ⟨within, inRange.frames⟩, inRange.pending⟩
  rcases inside : body { state with frames := frame :: state.frames } with ⟨result, left⟩
  unfold Eval.withFrame at ran
  rw [inside] at ran
  cases ran
  obtain ⟨holds, kept⟩ := keeps _ a left pushed inside
  exact ⟨holds, fun frame member => kept.frames frame (List.mem_of_mem_tail member), kept.pending⟩

theorem Keeps.inFunction {body : Eval α} (keeps : Keeps P body) (name : String) (span : Span) :
    Keeps P (inFunction name span body) := by
  intro state a after inRange ran
  rcases inside : body state with ⟨error | value, left⟩
  · unfold Eval.inFunction at ran
    rw [inside] at ran
    cases ran
  · unfold Eval.inFunction at ran
    rw [inside] at ran
    cases ran
    exact keeps state a after inRange inside

theorem keeps_ofDomain {result : Except DomainError Number} {P : Number → Prop}
    (holds : ∀ x, result = .ok x → P x) (span : Span) : Keeps P (ofDomain span result) := by
  cases result with
  | ok x => exact keeps_pure (holds x rfl)
  | error error => exact keeps_throw _

end Eval

/-! ### Evaluation keeps the range -/

section Evaluation

variable {env : Environment} {child body : Expr → Eval Number}

theorem assign_keeps (env : Environment) (name : String) (span : Span) {value : Number}
    (within : value.InRange) : Eval.Keeps (fun _ => True) (assign env name span value) := by
  intro state _ after inRange ran
  rw [run_assign] at ran
  split at ran
  · cases ran
  · cases ran
    exact ⟨trivial, inRange.bind name within⟩

theorem run_keeps (exprs : ∀ e, Eval.Keeps Number.InRange (child e)) (program : Program) :
    Eval.Keeps Number.InRange (run env child program) := by
  refine Eval.keeps_foldlM (fun _ statement => ?_) program Number.inRange_zero
  cases statement with
  | assign name nameSpan e =>
    exact (exprs e).bind fun value within =>
      (assign_keeps env name nameSpan within).bind fun _ _ => Eval.keeps_pure within
  | expr e => exact exprs e

theorem lookup_keeps (tableInRange : env.table.InRange) (name : String) (span : Span) :
    Eval.Keeps Number.InRange (lookup env name span) := by
  intro state value after inRange ran
  rw [run_lookup, resolve?] at ran
  obtain ⟨found, rfl⟩ := Prod.mk.inj ran
  refine ⟨?_, inRange⟩
  cases bound : state.value? name with
  | some given =>
    rw [bound] at found
    rw [← Except.ok.inj found]
    exact inRange.value bound
  | none =>
    rw [bound, Option.map_none, Option.none_or] at found
    cases entry : env.table[name]? with
    | some symbol =>
      rw [entry] at found
      rcases symbol with named | named | function | ref
      · rw [← Except.ok.inj found]
        exact tableInRange name named (.inl entry)
      · rw [← Except.ok.inj found]
        exact tableInRange name named (.inr entry)
      · cases found
      · cases found
    | none =>
      rw [entry, valueOf] at found
      split at found
      · next constant =>
        rw [← Except.ok.inj found]
        exact constant?_inRange constant
      · cases found

theorem callFunction_keeps (bodies : ∀ e, Eval.Keeps Number.InRange (body e)) (name : String)
    (function : UserFunction) {values : List Number} (within : ∀ value ∈ values, value.InRange)
    (span : Span) : Eval.Keeps Number.InRange (callFunction env body name function values span) := by
  rw [callFunction_eq]
  split
  · exact Eval.keeps_throw _
  · split
    · exact Eval.keeps_throw _
    · exact ((run_keeps bodies _).withFrame
        (bindings_inRange_ofList function.arguments within)).inFunction name span

theorem callScript_keeps (name : String) (ref : ScriptRef) (values : List Number) (span : Span) :
    Eval.Keeps Number.InRange (callScript env name ref values span) := by
  rw [callScript_eq]
  split
  · exact Eval.keeps_throw _
  · split
    · exact Eval.keeps_throw _
    · split
      · exact Eval.keeps_throw _
      · next finite => exact Eval.keeps_pure (Number.ofBinary64_inRange finite _)

theorem callBuiltin_keeps {name : String} {builtin : Builtin}
    (found : Builtin.ofName? name = some builtin) {values : List Number}
    (within : ∀ value ∈ values, value.InRange) (span : Span) :
    Eval.Keeps (fun x => name ∉ Builtin.unchecked → x.InRange)
      (callBuiltin env name builtin values span) := by
  unfold callBuiltin
  split
  · next result accepted =>
    refine Eval.keeps_ofDomain (fun x succeeded checked => ?_) span
    rw [succeeded] at accepted
    exact Builtin.keepsRange found checked values _ x within accepted
  · exact Eval.keeps_throw _

theorem callOf_keeps (exprs : ∀ e, Eval.Keeps Number.InRange (child e))
    (bodies : ∀ e, Eval.Keeps Number.InRange (body e)) (name : String) (arguments : List Expr)
    (span : Span) (symbol? : Option Symbol) :
    Eval.Keeps (fun x => name ∉ Builtin.unchecked → x.InRange)
      (callOf env child body name arguments span symbol?) := by
  have values := Eval.keeps_mapM exprs arguments
  rcases symbol? with _ | (named | named | function | ref)
  · simp only [callOf]
    split
    · next builtin found =>
      exact values.bind fun values within => callBuiltin_keeps found within span
    · exact Eval.keeps_throw _
  · exact Eval.keeps_throw _
  · exact Eval.keeps_throw _
  · exact (values.bind fun values within =>
      callFunction_keeps bodies name function within span).imp fun x within _ => within
  · exact (values.bind fun values _ =>
      callScript_keeps name ref values span).imp fun x within _ => within

/-- **A node keeps the range if the nodes below it and the bodies of functions do**, unless it is
one that nothing holds there. -/
theorem node_keeps (tableInRange : env.table.InRange)
    (exprs : ∀ e, Eval.Keeps Number.InRange (child e))
    (bodies : ∀ e, Eval.Keeps Number.InRange (body e)) (e : Expr) :
    Eval.Keeps (fun x => e.isUnchecked = false → x.InRange) (node env child body e) := by
  cases e with
  | number text span =>
    rw [node, literal]
    split
    · exact Eval.keeps_pure (by rintro ⟨⟩)
    · exact Eval.keeps_throw _
  | ident name span =>
    exact (lookup_keeps tableInRange name span).imp fun x within _ => within
  | unary sign operand span =>
    exact (exprs operand).map _ fun x within _ => sign.apply_inRange within
  | binary op left right span =>
    refine (exprs left).bind fun x _ => (exprs right).bind fun y _ => ?_
    refine Eval.keeps_ofDomain (fun z applied checked => ?_) span
    exact BinaryOp.apply_inRange (of_decide_eq_false checked) applied
  | call name nameSpan arguments span =>
    intro state value after inRange ran
    rw [node, run_call] at ran
    refine (callOf_keeps exprs bodies name arguments span _ state value after inRange ran).imp_left
      fun within checked => ?_
    exact within (of_decide_eq_false checked)

theorem Guarded.eval_keeps (tableInRange : env.table.InRange) (levels : Nat) (e : Expr) :
    Eval.Keeps Number.InRange (Guarded.eval env levels e) := by
  induction levels using Nat.strongRecOn generalizing e with
  | _ levels ih =>
    match levels with
    | 0 => exact Eval.keeps_throw _
    | 1 => exact Eval.keeps_throw _
    | levels + 2 =>
      rw [Guarded.eval]
      refine (node_keeps tableInRange (fun e => ih (levels + 1) (by omega) e)
        (fun e => ih levels (by omega) e) e).bind fun x within => ?_
      unfold Guarded.guard
      split
      · exact Eval.keeps_throw _
      · next passed =>
        refine Eval.keeps_pure ?_
        cases unchecked : e.isUnchecked with
        | false => exact within unchecked
        | true => exact Decidable.not_not.mp fun outside => passed ⟨unchecked, outside⟩

end Evaluation

/-! ### Programs -/

theorem Guarded.evaluate_of_parse {text : String} {program : Program} (table : SymbolTable)
    (scripts : ScriptRegistry) (options : EvalOptions) (parsed : parse text = .ok program) :
    Guarded.evaluate text table scripts options = committed table
      (run ⟨table, scripts, options⟩
        (Guarded.eval ⟨table, scripts, options⟩ (options.maxDepth + 1)) program .initial) := by
  unfold Guarded.evaluate
  rw [parsed]

/-- **An evaluation stays in the range of results unless a number as it is written, a remainder or
an unchecked function leaves it.** With a table in the range, evaluation that stops where such a node
leaves the range is stopped there, or gives the same as evaluation; and then the value of the text
and every value of the table afterwards are in the range. -/
theorem evaluate_inRange (text : String) (table : SymbolTable) (scripts : ScriptRegistry)
    (options : EvalOptions) (inRange : table.InRange) :
    StopsWith EvalError.LeavesRange (Guarded.evaluate text table scripts options).1 ∨
      Guarded.evaluate text table scripts options = evaluate text table scripts options ∧
        ∀ value after, evaluate text table scripts options = (.ok value, after) →
          value.InRange ∧ after.InRange := by
  cases parsed : parse text with
  | error error =>
    right
    unfold Guarded.evaluate evaluate
    rw [parsed]
    exact ⟨rfl, nofun⟩
  | ok program =>
    let env : Environment := ⟨table, scripts, options⟩
    by_cases stopped : StopsWith EvalError.LeavesRange
        (Guarded.evaluate text table scripts options).1
    · exact .inl stopped
    · rw [Guarded.evaluate_of_parse table scripts options parsed, committed_fst] at stopped
      have same := run_equalUnless env options.maxDepth
        (Guarded.eval_equalUnless env (options.maxDepth + 1)) program .initial stopped
      have equal : Guarded.evaluate text table scripts options =
          evaluate text table scripts options := by
        rw [Guarded.evaluate_of_parse table scripts options parsed,
          evaluate_of_parse table scripts options parsed]
        exact congrArg (committed table) same.symm
      refine .inr ⟨equal, fun value after succeeded => ?_⟩
      rw [← equal, Guarded.evaluate_of_parse table scripts options parsed, committed_eq_ok]
        at succeeded
      obtain ⟨state, ran, rfl⟩ := succeeded
      obtain ⟨within, kept⟩ := run_keeps (Guarded.eval_keeps inRange (options.maxDepth + 1))
        program .initial value state EvalState.inRange_initial ran
      exact ⟨within, kept.commit inRange⟩

/-- A constant, and a function that takes a remainder. -/
def SymbolTable.reduced : SymbolTable :=
  ((∅ : SymbolTable).insert "c" (.constant ⟨⟨.scaled 3 (-2), 64⟩, some 2⟩)).insert "f"
    (.function ⟨["total"], "rest := total % 4; rest * c", rfl⟩)

/-- A function that takes a remainder in the range, and a value at the upper end of the range. -/
theorem evaluate_inRange_reduced : SymbolTable.reduced.InRange ∧
    (evaluate "y := f(7) * 2 ^ 1048574" .reduced .empty EvalOptions.short).1 =
      .ok ⟨.scaled 9 1048572, 64⟩ ∧
    (evaluate "y := f(7) * 2 ^ 1048574" .reduced .empty EvalOptions.short).2.InRange := by
  have inRange : SymbolTable.reduced.InRange := by
    refine (SymbolTable.inRange_empty.insert "c" ?_).insert "f" ?_
    · rintro named (⟨⟨⟩⟩ | ⟨⟨⟩⟩)
      exact .inr (by decide +kernel)
    · rintro named (⟨⟨⟩⟩ | ⟨⟨⟩⟩)
  have value : (Guarded.evaluate "y := f(7) * 2 ^ 1048574" .reduced .empty EvalOptions.short).1 =
      .ok ⟨.scaled 9 1048572, 64⟩ :=
    toOption_eq_some.mp (by decide +kernel)
  have passes : ¬StopsWith EvalError.LeavesRange
      (Guarded.evaluate "y := f(7) * 2 ^ 1048574" .reduced .empty EvalOptions.short).1 := by
    rw [value]
    rintro ⟨_, ⟨⟩, _⟩
  obtain ⟨same, kept⟩ := (evaluate_inRange "y := f(7) * 2 ^ 1048574" .reduced .empty
    EvalOptions.short inRange).resolve_left passes
  rw [same] at value
  refine ⟨inRange, value, ?_⟩
  generalize evaluate "y := f(7) * 2 ^ 1048574" .reduced .empty EvalOptions.short = outcome
    at value kept ⊢
  obtain ⟨result, after⟩ := outcome
  exact (kept ⟨.scaled 9 1048572, 64⟩ after (congrArg (·, after) value)).2

/-- A text whose remainder is below the range. -/
def remainderBelowRange : String := "x := (2 ^ -1048570 * (1 + 2 ^ -20)) % 2 ^ -1048570"

/-- The remainder of two numbers near the lower end of the range is below it, and is kept. -/
theorem evaluate_leaves_range : (∅ : SymbolTable).InRange ∧
    ∃ x, (evaluate remainderBelowRange ∅ .empty EvalOptions.short).1 = .ok x ∧ ¬x.InRange ∧
      (evaluate remainderBelowRange ∅ .empty EvalOptions.short).2["x"]? =
        some (.variable ⟨x, none⟩) :=
  ⟨SymbolTable.inRange_empty, ⟨.scaled 1 (-1048590), 64⟩, toOption_eq_some.mp (by decide +kernel),
    by decide +kernel, by decide +kernel⟩

end Reckoner
