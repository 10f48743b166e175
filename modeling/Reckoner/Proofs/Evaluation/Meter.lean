/-
Evaluation with a counter for its depth.

Instead of levels that are used up, the depth is counted in the state: by one for every expression
and by one more for every call of a function, and down again on the way back, also after an error.
Nothing but the counter is compared with the limit. A result is missing if the recursion is given up
before the limit is reached, which never happens.

* `Machine` — the state with the counter, and with how deep it was and how many frames there were.
* `Metered.expr`, `Metered.function`, `Metered.evaluate` — evaluation on a machine; none if it is
  given up.
* `evalAtDepth` — an expression at a depth, by the levels that are left there.
* `Metered.Follows` — a computation on a machine ends as one on its state does, within bounds on the
  depth and on the number of frames; closed under sequencing.
* `Metered.expr_follows`, `Metered.call_follows`, `Metered.evaluate_follows` — **counting gives what
  the levels give, and the counter is put back**.
-/

import Reckoner.Proofs.Evaluation.Writes

namespace Reckoner

/-! ### The machine -/

/-- The state of an evaluation that counts its depth. -/
structure Machine where
  state : EvalState
  depth : Nat
  /-- The greatest depth so far. -/
  deepest : Nat
  /-- The greatest number of frames so far. -/
  mostFrames : Nat

namespace Machine

/-- The machine before an evaluation. -/
def initial : Machine := ⟨.initial, 0, 0, 0⟩

/-- Goes one deeper. -/
def enter (machine : Machine) : Machine :=
  { machine with
    depth := machine.depth + 1
    deepest := max machine.deepest (machine.depth + 1) }

/-- Comes back from one deeper. -/
def leave (machine : Machine) : Machine := { machine with depth := machine.depth - 1 }

/-- Opens a frame. -/
def push (frame : Bindings) (machine : Machine) : Machine :=
  { machine with
    state := { machine.state with frames := frame :: machine.state.frames }
    mostFrames := max machine.mostFrames (machine.state.frames.length + 1) }

/-- Closes the innermost frame. -/
def pop (machine : Machine) : Machine :=
  { machine with state := { machine.state with frames := machine.state.frames.tail } }

end Machine

/-- A computation on a machine that may fail, or not end. -/
abbrev Metered := ExceptT EvalError (StateT Machine Option)

namespace Metered

/-- A computation that counts nothing. -/
def lift {α : Type} (x : Eval α) : Metered α := fun machine =>
  some ((x machine.state).1, { machine with state := (x machine.state).2 })

/-- A computation between two changes of the machine, of which the second is made after an error
too. -/
def between {α β : Type} (before after : Machine → Machine)
    (map : Except EvalError α → Except EvalError β) (x : Metered α) : Metered β :=
  show StateT Machine Option (Except EvalError β) from do
    modify before
    let result ← x.run
    modify after
    pure (map result)

section Nodes

variable (env : Environment) (child : Expr → Metered Number)

/-- A statement. -/
def statement : Statement → Metered Number
  | .assign name nameSpan e => do
    let value ← child e
    lift (assign env name nameSpan value)
    pure value
  | .expr e => child e

/-- The value of the last of some statements. -/
def program (statements : Program) : Metered Number :=
  statements.foldlM (fun _ entry => statement env child entry) .zero

/-- A call of a function, whose body is read and runs in a frame of its own, one deeper. -/
def invoke (name : String) (f : UserFunction) (values : List Number) (span : Span) :
    Metered Number := do
  if values.length ≠ f.arity then
    throw (.arity name (.exactly f.arity) values.length span)
  else
    match parse f.expression with
    | .error error => throw (.inFunction name (.parse error) span)
    | .ok body =>
      let frame : Bindings := .ofList (f.arguments.zip values) compare
      between (fun machine => (machine.push frame).enter) (fun machine => machine.leave.pop)
        (.mapError (.throughCall name span)) (program env child body)

/-- A node, after it has been counted. -/
def node : Expr → Metered Number
  | .number text span => lift (literal env.options.context text span)
  | .ident name span => lift (lookup env name span)
  | .unary sign operand _ => do
    let x ← child operand
    pure (sign.apply x)
  | .binary op left right span => do
    let x ← child left
    let y ← child right
    lift (.ofDomain span (op.apply x y env.options.context))
  | .call name _ arguments span => do
    if ((← get).state.value? name).isSome then
      throw (.notCallable name .variable span)
    else
      match env.table[name]? with
      | some (.function f) =>
        let values ← arguments.mapM child
        invoke env child name f values span
      | some (.script ref) =>
        let values ← arguments.mapM child
        lift (callScript env name ref values span)
      | some symbol => throw (.notCallable name symbol.kind span)
      | none =>
        match Builtin.ofName? name with
        | some builtin =>
          let values ← arguments.mapM child
          lift (callBuiltin env name builtin values span)
        | none => throw (.unknownSymbol name span)

/-- An expression, unless the limit is reached. -/
def counted (e : Expr) : Metered Number := do
  let depth := (← get).depth
  if env.options.maxDepth ≤ depth then
    throw (.stackOverflow depth env.options.maxDepth e.span)
  else
    between Machine.enter Machine.leave id (node env child e)

end Nodes

/-- An expression, given up where expressions and calls are nested any deeper. -/
def exprWithin (env : Environment) : Nat → Expr → Metered Number
  | 0, _ => fun _ => none
  | nesting + 1, e => counted env (exprWithin env nesting) e

/-- An expression. It is never given up, since the counter reaches the limit before. -/
def expr (env : Environment) (e : Expr) : Metered Number :=
  exprWithin env (env.options.maxDepth + 1) e

/-- A call of a function. -/
def function (env : Environment) (name : String) (f : UserFunction) (values : List Number)
    (span : Span) : Metered Number :=
  invoke env (expr env) name f values span

/-- The result of a text, and the machine afterwards. -/
def evaluate (text : String) (table : SymbolTable) (scripts : ScriptRegistry)
    (options : EvalOptions) : Option (Except EvalError Number × Machine) :=
  match parse text with
  | .error error => some (.error (.parse error), .initial)
  | .ok statements =>
    let env : Environment := ⟨table, scripts, options⟩
    program env (expr env) statements .initial

end Metered

/-! ### Expressions by depth -/

/-- An expression at a depth. At the limit and beyond nothing is evaluated. -/
def evalAtDepth (env : Environment) (depth : Nat) (e : Expr) : Eval Number :=
  if env.options.maxDepth ≤ depth then
    throw (.stackOverflow depth env.options.maxDepth e.span)
  else eval env (env.options.maxDepth + 1 - depth) e

section Depths

variable {env : Environment} {depth : Nat}

theorem evalAtDepth_of_le (reached : env.options.maxDepth ≤ depth) (e : Expr) :
    evalAtDepth env depth e = throw (.stackOverflow depth env.options.maxDepth e.span) :=
  if_pos reached

/-- **The depth of a node is what is missing from the levels of the whole program.** -/
theorem eval_eq_evalAtDepth (bound : depth ≤ env.options.maxDepth + 1) :
    eval env (env.options.maxDepth + 1 - depth) = evalAtDepth env depth := by
  funext e
  unfold evalAtDepth
  by_cases reached : env.options.maxDepth ≤ depth
  · rw [if_pos reached]
    rcases Nat.lt_or_eq_of_le reached with beyond | equal
    · have last : depth = env.options.maxDepth + 1 := by omega
      rw [last, Nat.sub_self]
      rfl
    · rw [← equal, Nat.add_sub_cancel_left]
      rfl
  · rw [if_neg reached]

/-- The nodes below a node are one deeper, and the bodies of functions two. -/
theorem evalAtDepth_of_lt (below : depth < env.options.maxDepth) (e : Expr) :
    evalAtDepth env depth e =
      Reckoner.node env (evalAtDepth env (depth + 1)) (evalAtDepth env (depth + 2)) e := by
  obtain ⟨levels, left⟩ : ∃ levels, env.options.maxDepth + 1 - depth = levels + 2 :=
    ⟨env.options.maxDepth - 1 - depth, by omega⟩
  have child : levels + 1 = env.options.maxDepth + 1 - (depth + 1) := by omega
  have body : levels = env.options.maxDepth + 1 - (depth + 2) := by omega
  rw [← eval_eq_evalAtDepth (by omega), left, eval, child, body,
    eval_eq_evalAtDepth (by omega), eval_eq_evalAtDepth (by omega)]

theorem evalAtDepth_quiet (env : Environment) (depth : Nat) (e : Expr) :
    Eval.Quiet (evalAtDepth env depth e) := by
  unfold evalAtDepth
  split
  · exact Eval.quiet_throw _
  · exact eval_quiet env _ e

end Depths

/-! ### Counting follows the levels -/

/-- A machine after a computation that counts down as often as it counts up, goes no deeper than
`deep`, and opens at most `extra` frames on top of those it finds. -/
structure Machine.Returns (deep extra : Nat) (machine after : Machine) : Prop where
  depth : after.depth = machine.depth
  frames : after.state.frames.length = machine.state.frames.length
  deepest : after.deepest ≤ max machine.deepest deep
  mostFrames : after.mostFrames ≤ max machine.mostFrames (machine.state.frames.length + extra)

namespace Machine

variable {deep extra : Nat} {first second third : Machine}

theorem Returns.refl (machine : Machine) : Returns deep extra machine machine :=
  ⟨rfl, rfl, Nat.le_max_left _ _, Nat.le_max_left _ _⟩

theorem Returns.trans (start : Returns deep extra first second)
    (stop : Returns deep extra second third) : Returns deep extra first third := by
  refine ⟨stop.depth.trans start.depth, stop.frames.trans start.frames, ?_, ?_⟩
  · have before := start.deepest
    have after := stop.deepest
    omega
  · have before := start.mostFrames
    have after := stop.mostFrames
    rw [start.frames] at after
    omega

theorem Returns.mono {low least : Nat} (returns : Returns low least first second)
    (deeper : low ≤ deep) (more : least ≤ extra) : Returns deep extra first second := by
  refine ⟨returns.depth, returns.frames, ?_, ?_⟩
  · have deepest := returns.deepest
    omega
  · have mostFrames := returns.mostFrames
    omega

end Machine

namespace Metered

variable {α β : Type}

theorem run_bind_ok {x : Metered α} {f : α → Metered β} {machine after : Machine} {a : α}
    (ran : x machine = some (.ok a, after)) : (x >>= f) machine = f a after := by
  show (ExceptT.bind x f) machine = _
  simp only [ExceptT.bind, ExceptT.mk, bind, StateT.bind, ran, Option.bind, ExceptT.bindCont]

theorem run_bind_error {x : Metered α} {f : α → Metered β} {machine after : Machine}
    {error : EvalError} (ran : x machine = some (.error error, after)) :
    (x >>= f) machine = some (.error error, after) := by
  show (ExceptT.bind x f) machine = _
  simp only [ExceptT.bind, ExceptT.mk, bind, StateT.bind, ran, Option.bind, ExceptT.bindCont]
  rfl

theorem run_get_bind (f : Machine → Metered β) (machine : Machine) :
    (get >>= f) machine = f machine machine := rfl

theorem run_between (before after : Machine → Machine)
    (map : Except EvalError α → Except EvalError β) (x : Metered α) (machine : Machine) :
    between before after map x machine =
      (x (before machine)).map fun outcome => (map outcome.1, after outcome.2) :=
  Option.map_eq_bind.symm

/-- At a depth, a computation on a machine ends as another one does on the state, and returns. -/
def Follows (depth deep extra : Nat) (x : Metered α) (y : Eval α) : Prop :=
  ∀ machine, machine.depth = depth → ∃ after,
    x machine = some ((y machine.state).1, after) ∧ after.state = (y machine.state).2 ∧
      machine.Returns deep extra after

section Sequences

variable {depth deep extra : Nat}

/-- A computation that counts nothing follows itself if it opens and closes no frame. -/
theorem follows_lift {x : Eval α}
    (frames : ∀ state, (x state).2.frames.length = state.frames.length) :
    Follows depth deep extra (lift x) x := by
  intro machine _
  exact ⟨_, rfl, rfl, rfl, frames machine.state, Nat.le_max_left _ _, Nat.le_max_left _ _⟩

theorem follows_quiet {x : Eval α} (quiet : Eval.Quiet x) :
    Follows depth deep extra (lift x) x :=
  follows_lift fun state => by rw [quiet state]

theorem follows_pure (a : α) : Follows depth deep extra (pure a) (pure a) :=
  fun machine _ => ⟨machine, rfl, rfl, .refl machine⟩

theorem follows_throw (error : EvalError) :
    Follows depth deep extra (throw error : Metered α) (throw error) :=
  fun machine _ => ⟨machine, rfl, rfl, .refl machine⟩

theorem Follows.mono {low least : Nat} {x : Metered α} {y : Eval α}
    (follows : Follows depth low least x y) (deeper : low ≤ deep) (more : least ≤ extra) :
    Follows depth deep extra x y := by
  intro machine here
  obtain ⟨after, ran, state, returns⟩ := follows machine here
  exact ⟨after, ran, state, returns.mono deeper more⟩

theorem Follows.bind {x : Metered α} {f : α → Metered β} {y : Eval α} {g : α → Eval β}
    (first : Follows depth deep extra x y)
    (rest : ∀ a, Follows depth deep extra (f a) (g a)) :
    Follows depth deep extra (x >>= f) (y >>= g) := by
  intro machine here
  obtain ⟨between, ran, state, returns⟩ := first machine here
  rw [Eval.run_bind]
  rcases result : y machine.state with ⟨error | a, reached⟩
  · rw [result] at ran state
    exact ⟨between, run_bind_error ran, state, returns⟩
  · rw [result] at ran state
    obtain ⟨after, ran', state', returns'⟩ := rest a between (returns.depth.trans here)
    rw [state] at ran' state'
    exact ⟨after, (run_bind_ok ran).trans ran', state', returns.trans returns'⟩

theorem follows_compatible :
    Compatible (m := Metered) (n := Eval) fun _ x y => Follows depth deep extra x y :=
  ⟨follows_pure, Follows.bind⟩

end Sequences

section Evaluation

variable {env : Environment} {depth deep extra : Nat} {expr : Expr → Metered Number}
  {child body : Expr → Eval Number}

theorem statement_follows (exprs : ∀ e, Follows depth deep extra (expr e) (child e))
    (entry : Statement) :
    Follows depth deep extra (statement env expr entry) (runStatement env child entry) := by
  cases entry with
  | assign name nameSpan e =>
    rw [statement]
    refine (exprs e).bind fun value => Follows.bind (follows_lift fun state => ?_) fun _ =>
      follows_pure value
    rw [run_assign]
    cases protection? env state name with
    | some kind => rfl
    | none =>
      obtain ⟨_ | ⟨frame, callers⟩, pending⟩ := state
      · rfl
      · rfl
  | expr e =>
    rw [statement]
    exact exprs e

theorem program_follows (exprs : ∀ e, Follows depth deep extra (expr e) (child e))
    (statements : Program) :
    Follows depth deep extra (program env expr statements) (run env child statements) := by
  rw [program]
  exact follows_compatible.foldlM (fun _ entry _ => statement_follows exprs entry) Number.zero

/-- A call of a function, whose body runs one deeper and in one more frame. -/
theorem invoke_follows (exprs : ∀ e, Follows (depth + 1) deep extra (expr e) (body e))
    (deeper : depth + 1 ≤ deep) (name : String) (f : UserFunction) (values : List Number)
    (span : Span) :
    Follows depth deep (extra + 1) (invoke env expr name f values span)
      (callFunction env body name f values span) := by
  rw [invoke, callFunction_eq]
  by_cases wrong : values.length ≠ f.arity
  · rw [if_pos wrong, if_pos wrong]
    exact follows_throw _
  rw [if_neg wrong, if_neg wrong]
  cases parse f.expression with
  | error error => exact follows_throw _
  | ok statements =>
    intro machine here
    let frame : Bindings := .ofList (f.arguments.zip values) compare
    let opened := (machine.push frame).enter
    obtain ⟨after, ran, state, returns⟩ :=
      program_follows exprs statements opened (congrArg (· + 1) here)
    refine ⟨after.leave.pop, ?_, ?_, ?_⟩
    · exact (run_between _ _ _ _ machine).trans (congrArg (Option.map _) ran)
    · show { after.state with frames := after.state.frames.tail } = _
      rw [state]
      rfl
    · have depth : after.depth = machine.depth + 1 := returns.depth
      have frames : after.state.frames.length = machine.state.frames.length + 1 := returns.frames
      have deepest : after.deepest ≤ max (max machine.deepest (machine.depth + 1)) deep :=
        returns.deepest
      have mostFrames : after.mostFrames ≤ max (max machine.mostFrames
          (machine.state.frames.length + 1)) (machine.state.frames.length + 1 + extra) :=
        returns.mostFrames
      refine ⟨?_, ?_, ?_, ?_⟩
      · show after.depth - 1 = _
        omega
      · show after.state.frames.tail.length = _
        rw [List.length_tail]
        omega
      · show after.deepest ≤ _
        omega
      · show after.mostFrames ≤ _
        omega

theorem node_follows (exprs : ∀ e, Follows depth deep extra (expr e) (child e))
    (calls : ∀ name f values span, Follows depth deep extra (invoke env expr name f values span)
      (callFunction env body name f values span)) (e : Expr) :
    Follows depth deep extra (node env expr e) (Reckoner.node env child body e) := by
  cases e with
  | number text span =>
    rw [node]
    exact follows_quiet (literal_quiet _ text span)
  | ident name span =>
    rw [node]
    exact follows_quiet (lookup_quiet env name span)
  | unary sign operand span =>
    rw [node, Reckoner.node, ← map_eq_pure_bind]
    exact follows_compatible.map sign.apply (exprs operand)
  | binary op left right span =>
    rw [node]
    exact (exprs left).bind fun x => (exprs right).bind fun y =>
      follows_quiet (Eval.quiet_ofDomain span _)
  | call name nameSpan arguments span =>
    have values : Follows depth deep extra (arguments.mapM expr) (arguments.mapM child) :=
      follows_compatible.mapM fun e _ => exprs e
    intro machine here
    rw [node, run_get_bind, Reckoner.node, call, Eval.run_get_bind]
    cases machine.state.value? name with
    | some value => exact follows_throw _ machine here
    | none =>
      simp only [Option.isSome_none, Bool.false_eq_true, if_false]
      rcases env.table[name]? with _ | (named | named | f | ref)
      · simp only
        cases Builtin.ofName? name with
        | some builtin =>
          exact (values.bind fun values =>
            follows_quiet (callBuiltin_quiet env name builtin values span)) machine here
        | none => exact follows_throw _ machine here
      · exact follows_throw _ machine here
      · exact follows_throw _ machine here
      · exact (values.bind fun values => calls name f values span) machine here
      · exact (values.bind fun values =>
          follows_quiet (callScript_quiet env name ref values span)) machine here

/-- A node at the limit is not evaluated. -/
theorem counted_follows_of_le (reached : env.options.maxDepth ≤ depth) (e : Expr) :
    Follows depth deep extra (counted env expr e) (evalAtDepth env depth e) := by
  rw [evalAtDepth_of_le reached]
  intro machine here
  rw [counted, run_get_bind]
  simp only [here, reached, if_true]
  exact follows_throw _ machine here

/-- A node that is counted. -/
theorem counted_follows_of_lt (below : depth < env.options.maxDepth) (deeper : depth + 1 ≤ deep)
    {e : Expr} {y : Eval Number} (nodes : Follows (depth + 1) deep extra (node env expr e) y) :
    Follows depth deep extra (counted env expr e) y := by
  intro machine here
  obtain ⟨after, ran, state, returns⟩ := nodes machine.enter (congrArg (· + 1) here)
  rw [counted, run_get_bind]
  simp only [here, Nat.not_le.mpr below, if_false]
  refine ⟨after.leave, (run_between _ _ _ _ machine).trans (congrArg (Option.map _) ran), state, ?_⟩
  have counted : after.depth = machine.depth + 1 := returns.depth
  have deepest : after.deepest ≤ max (max machine.deepest (machine.depth + 1)) deep :=
    returns.deepest
  refine ⟨?_, returns.frames, ?_, returns.mostFrames⟩
  · show after.depth - 1 = _
    omega
  · show after.deepest ≤ _
    omega

end Evaluation

/-- **Counting the depth of an expression gives what the levels left at that depth give**, and goes
at most one beyond the limit. -/
theorem exprWithin_follows (env : Environment) (nesting depth : Nat)
    (enough : env.options.maxDepth ≤ nesting + depth) (e : Expr) :
    Follows depth (env.options.maxDepth + 1) ((env.options.maxDepth + 1 - depth) / 2)
      (exprWithin env (nesting + 1) e) (evalAtDepth env depth e) := by
  induction nesting generalizing depth e with
  | zero => exact counted_follows_of_le (by omega) e
  | succ nesting ih =>
    by_cases reached : env.options.maxDepth ≤ depth
    · exact counted_follows_of_le reached e
    rw [Nat.not_le] at reached
    rw [evalAtDepth_of_lt reached]
    refine counted_follows_of_lt reached (by omega) (node_follows (fun e => ?_) ?_ e)
    · exact (ih (depth + 1) (by omega) e).mono (Nat.le_refl _) (by omega)
    · intro name f values span
      exact (invoke_follows (fun e => ih (depth + 2) (by omega) e) (by omega) name f values span).mono
        (Nat.le_refl _) (by omega)

/-- **Counting the depth of an expression gives what the levels left at that depth give.** -/
theorem expr_follows (env : Environment) (depth : Nat) (e : Expr) :
    Follows depth (env.options.maxDepth + 1) ((env.options.maxDepth + 1 - depth) / 2)
      (expr env e) (evalAtDepth env depth e) :=
  exprWithin_follows env _ depth (Nat.le_add_right _ _) e

/-- **A call of a function at any depth gives what the levels left inside of it give.** -/
theorem call_follows (env : Environment) (depth : Nat) (name : String) (f : UserFunction)
    (values : List Number) (span : Span) :
    Follows depth (max (depth + 1) (env.options.maxDepth + 1))
      ((env.options.maxDepth - depth) / 2 + 1) (function env name f values span)
      (callFunction env (evalAtDepth env (depth + 1)) name f values span) := by
  refine invoke_follows (fun e => ?_) (Nat.le_max_left _ _) name f values span
  exact (expr_follows env (depth + 1) e).mono (Nat.le_max_right _ _) (by omega)

/-- **A text is evaluated with a counter as it is with levels**, whatever its functions are: the
evaluation ends, with the counter at most one beyond the limit and at most half as many frames. -/
theorem evaluate_follows (text : String) (table : SymbolTable) (scripts : ScriptRegistry)
    (options : EvalOptions) : ∃ result machine,
      Metered.evaluate text table scripts options = some (result, machine) ∧
        Reckoner.evaluate text table scripts options = committed table (result, machine.state) ∧
        machine.depth = 0 ∧ machine.deepest ≤ options.maxDepth + 1 ∧
        machine.mostFrames ≤ (options.maxDepth + 1) / 2 := by
  unfold Metered.evaluate
  cases parsed : parse text with
  | error error =>
    refine ⟨_, _, rfl, ?_, rfl, Nat.zero_le _, Nat.zero_le _⟩
    unfold Reckoner.evaluate
    rw [parsed]
    rfl
  | ok statements =>
    have exprs := expr_follows ⟨table, scripts, options⟩ 0
    rw [← eval_eq_evalAtDepth (Nat.zero_le _)] at exprs
    obtain ⟨machine, ran, state, returns⟩ := program_follows exprs statements .initial rfl
    refine ⟨_, machine, ran, ?_, returns.depth, ?_, ?_⟩
    · rw [evaluate_of_parse table scripts options parsed, state]
      rfl
    · exact Nat.le_trans returns.deepest (by simp [Machine.initial])
    · exact Nat.le_trans returns.mostFrames (by simp [Machine.initial, EvalState.initial])

end Metered

end Reckoner
