/-
What the grammar derives, the parser accepts.

While an expression is read, operators inside of it may go on waiting, but an operator that comes
later and binds no tighter than the level of the expression takes all of it.

* `Parse.Blocks` — nothing that waits takes an operand before operators of some strength.
* `Parse.Holds` — a state that differs from an earlier one by an expression read since.
* `Derives.takes` — **the parser takes the tokens of an expression and holds its tree.** The
  induction is on the derivation, for all states that block what its level would take.
* `Program.Derives.read` — **the parser reads the programs that the grammar derives.**
-/

import Reckoner.Proofs.Expression.Reading

namespace Reckoner

namespace Parse

/-! ### What waits and what does not -/

/-- No operator of at least some strength waits inside the innermost parenthesis. -/
def Blocks (threshold : Nat) : List Waiting → Prop
  | .sign .. :: _ => Sign.strength < threshold
  | .infixOp op _ :: _ => op.strength < threshold
  | _ => True

section Blocks

variable {threshold : Nat} {waiting : List Waiting}

theorem Blocks.reduce_eq (blocks : Blocks threshold waiting) (e : Expr) :
    reduce threshold waiting e = (waiting, e) := by
  unfold reduce
  split
  · rw [if_neg (Nat.not_le.mpr blocks)]
  · rw [if_neg (Nat.not_le.mpr blocks)]
  · rfl

theorem Blocks.mono {stronger : Nat} (blocks : Blocks threshold waiting)
    (le : threshold ≤ stronger) : Blocks stronger waiting := by
  unfold Blocks at blocks ⊢
  split
  · exact Nat.lt_of_lt_of_le blocks le
  · exact Nat.lt_of_lt_of_le blocks le
  · trivial

/-- Nothing binds tighter than a power. -/
theorem blocks_tightest : Blocks 5 waiting := by
  unfold Blocks
  split
  · decide
  · rename_i op _ _
    cases op <;> decide
  · trivial

/-- An operand that has been given away waits for nothing of that strength any more. -/
theorem blocks_reduce (threshold : Nat) (waiting : List Waiting) (e : Expr) :
    Blocks threshold (reduce threshold waiting e).1 := by
  induction waiting generalizing e with
  | nil => trivial
  | cons wait rest ih =>
    cases wait with
    | sign sign start =>
      rw [reduce]
      split
      · exact ih _
      · exact Nat.not_le.mp ‹_›
    | infixOp op left =>
      rw [reduce]
      split
      · exact ih _
      · exact Nat.not_le.mp ‹_›
    | group => trivial
    | call name nameSpan arguments => trivial

end Blocks

/-! ### Expressions that have been read -/

/-- A state that differs from an earlier one by an expression read since. Operators of at most some
strength find the whole of it. -/
structure Holds (state : Parse) (strength : Nat) (e : Expr) (after : Parse) : Prop where
  finished : after.finished = state.finished
  target : after.target = state.target
  operand : ∃ last, after.operand.expr? = some last ∧
    ∀ threshold ≤ strength, reduce threshold after.waiting last = reduce threshold state.waiting e

/-- The parser takes some tokens as an expression. -/
def Reads (state : Parse) (strength : Nat) (tokens : List Token) (e : Expr) : Prop :=
  ∃ after, state.Takes tokens after ∧ state.Holds strength e after

section Reads

variable {state : Parse} {strength : Nat} {found : List Token} {e : Expr}

theorem Reads.mono {weaker : Nat} (reads : state.Reads strength found e) (le : weaker ≤ strength) :
    state.Reads weaker found e := by
  obtain ⟨after, takes, finished, target, last, operand, reduced⟩ := reads
  exact ⟨after, takes, finished, target, last, operand,
    fun threshold small => reduced threshold (Nat.le_trans small le)⟩

/-- A single token that is an operand. -/
theorem Reads.single {token : Token} {operand : Operand}
    (moves : Moves state ⟨token, ' ', .nowhere⟩ { state with operand := operand })
    (held : operand.expr? = some e) (strength : Nat) : state.Reads strength [token] e :=
  ⟨_, takes_cons.mpr ⟨_, moves, takes_nil.mpr rfl⟩, rfl, rfl, e, held, fun _ _ => rfl⟩

/-- An operator takes a left operand that has been read, and waits for the right one. -/
theorem Reads.binary {op : BinaryOp} {left right : Expr} {before after : List Token}
    {reach : Nat} (first : state.Reads strength before left) (le : op.threshold ≤ strength)
    (blocks : Blocks op.threshold state.waiting)
    (second : Reads { state with waiting := .infixOp op left :: state.waiting, operand := .due }
      reach after right)
    (bare : left.span = .nowhere ∧ right.span = .nowhere) {weaker : Nat}
    (small : weaker ≤ reach ∧ weaker ≤ op.strength) :
    state.Reads weaker (before ++ .op op :: after) (.binary op left right .nowhere) := by
  obtain ⟨between, takes, finished, target, last, operand, reduced⟩ := first
  obtain ⟨final, takes', finished', target', last', operand', reduced'⟩ := second
  have whole := (reduced _ le).trans (blocks.reduce_eq left)
  rw [← finished, ← target] at takes'
  refine ⟨final, takes_append.mpr ⟨between, takes, takes_cons.mpr
    ⟨_, .infixOp operand rfl whole, takes'⟩⟩, finished', target', last', operand',
    fun threshold le => ?_⟩
  rw [reduced' threshold (Nat.le_trans le small.1), reduce,
    if_pos (Nat.le_trans le small.2), bare.1, bare.2]
  rfl

/-- A row of arguments up to the closing parenthesis, after those in front of it. -/
theorem Reads.arguments {name : String} {arguments : List (List Token × Expr)}
    (some : arguments ≠ [])
    (each : ∀ argument ∈ arguments, ∀ state : Parse, state.operand = .due →
      Blocks 1 state.waiting → state.Reads 1 argument.1 argument.2)
    (state : Parse) {before : List Expr} {rest : List Waiting} (due : state.operand = .due)
    (waiting : state.waiting = .call name .nowhere before :: rest) :
    state.Takes (List.intercalate [.comma] (arguments.map Prod.fst) ++ [.closing])
      { state with
        waiting := rest
        operand := .complete
          (.call name .nowhere (before.reverse ++ arguments.map Prod.snd) .nowhere) } := by
  induction arguments generalizing state before with
  | nil => exact absurd rfl some
  | cons argument others ih =>
    obtain ⟨first, later⟩ := List.forall_mem_cons.mp each
    obtain ⟨after, takes, finished, target, last, operand, reduced⟩ :=
      first state due (by rw [waiting]; trivial)
    have whole := reduced 0 (Nat.zero_le 1)
    rw [waiting] at whole
    cases others with
    | nil =>
      refine takes_append.mpr ⟨after, by simpa using takes,
        takes_cons.mpr ⟨_, .call operand rfl whole, ?_⟩⟩
      rw [takes_nil, ← finished, ← target]
      rfl
    | cons next others =>
      have comma : Moves after ⟨.comma, ' ', .nowhere⟩ _ := .comma operand rfl whole
      have remaining := ih (List.cons_ne_nil _ _) later { after with
        waiting := .call name .nowhere (argument.2 :: before) :: rest, operand := .due } rfl rfl
      rw [List.map_cons, List.map_cons, List.intercalate_cons_cons, List.append_assoc,
        List.append_assoc, List.singleton_append]
      refine takes_append.mpr ⟨after, takes, takes_cons.mpr ⟨_, comma, ?_⟩⟩
      simpa [finished, target] using remaining

end Reads

end Parse

open Parse

/-! ### Expressions -/

/-- The strongest operator that finds the whole of an expression of some level. -/
def Level.reach : Level → Nat
  | sum => 1
  | term => 2
  | signed => 3
  | power => 3
  | atom => 5

/-- **The parser takes the tokens of an expression and holds its tree.** -/
theorem Derives.takes {level : Level} {found : List Token} {e : Expr}
    (derives : Derives level found e) (state : Parse) (due : state.operand = .due)
    (blocks : level.rank ≤ 2 → Blocks level.rank state.waiting) :
    state.Reads level.reach found e := by
  induction derives generalizing state with
  | @sum before after left right op additive first second ih ih' =>
    have weak : op.threshold = 1 ∧ op.strength = 1 := by rcases additive with rfl | rfl <;> decide
    refine (ih state due fun _ => blocks (by decide)).binary (by rw [weak.1]; decide)
      (by rw [weak.1]; exact blocks (by decide)) (ih' _ rfl fun _ => ?_)
      ⟨first.span_eq, second.span_eq⟩ ⟨by decide, by rw [weak.2]; decide⟩
    show op.strength < 2
    rw [weak.2]
    decide
  | ofTerm _ ih => exact (ih state due fun _ => (blocks (by decide)).mono (by decide)).mono (by decide)
  | @term before after left right op multiplicative first second ih ih' =>
    have medium : op.threshold = 2 ∧ op.strength = 2 := by
      rcases multiplicative with rfl | rfl | rfl <;> decide
    exact (ih state due fun _ => blocks (by decide)).binary (by rw [medium.1]; decide)
      (by rw [medium.1]; exact blocks (by decide)) (ih' _ rfl fun small => absurd small (by decide))
      ⟨first.span_eq, second.span_eq⟩ ⟨by decide, by rw [medium.2]; decide⟩
  | ofSigned _ ih => exact (ih state due fun small => absurd small (by decide)).mono (by decide)
  | @signed tokens e sign operand ih =>
    have signs : sign.op.sign? = some sign := by cases sign <;> rfl
    obtain ⟨final, takes, finished, target, last, held, reduced⟩ :=
      ih { state with waiting := .sign sign 0 :: state.waiting } due
        fun small => absurd small (by decide)
    refine ⟨final, takes_cons.mpr ⟨_, .sign due rfl signs, takes⟩, finished, target, last, held,
      fun threshold small => ?_⟩
    have strong : threshold ≤ Sign.strength := small
    rw [reduced threshold small, reduce, if_pos strong, operand.span_eq]
    rfl
  | ofPower _ ih => exact ih state due fun small => absurd small (by decide)
  | @power before after left right first second ih ih' =>
    have tight : BinaryOp.pow.threshold ≤ Level.atom.reach := by decide
    exact (ih state due fun small => absurd small (by decide)).binary tight blocks_tightest
      (ih' _ rfl fun small => absurd small (by decide)) ⟨first.span_eq, second.span_eq⟩
      ⟨by decide, by decide⟩
  | ofAtom _ ih => exact (ih state due fun small => absurd small (by decide)).mono (by decide)
  | number text => exact .single (.number due rfl) rfl _
  | ident name => exact .single (.name due rfl) rfl _
  | @call name arguments each ih =>
    let called : Parse :=
      { state with waiting := .call name .nowhere [] :: state.waiting, operand := .due }
    let closed : Parse := { state with
      operand := .complete (.call name .nowhere (arguments.map Prod.snd) .nowhere) }
    have inside : called.Takes (List.intercalate [.comma] (arguments.map Prod.fst) ++ [.closing])
        closed := by
      by_cases some : arguments = []
      · subst some
        exact takes_cons.mpr ⟨_, .empty rfl rfl rfl, takes_nil.mpr rfl⟩
      · exact Reads.arguments some (fun argument member state due blocks =>
          ih argument member state due fun _ => blocks) called rfl rfl
    exact ⟨closed, takes_cons.mpr ⟨_, .name due rfl, takes_cons.mpr
      ⟨called, .calling rfl rfl, inside⟩⟩, rfl, rfl, _, rfl, fun _ _ => rfl⟩
  | @group tokens e inner ih =>
    obtain ⟨after, takes, finished, target, last, operand, reduced⟩ :=
      ih { state with waiting := .group :: state.waiting } due fun _ => trivial
    have closing : Moves after ⟨.closing, ' ', .nowhere⟩ _ :=
      .group operand rfl (reduced 0 (Nat.zero_le _))
    exact ⟨_, takes_cons.mpr ⟨_, .opening due rfl, takes_append.mpr ⟨after, takes,
      takes_cons.mpr ⟨_, closing, takes_nil.mpr rfl⟩⟩⟩, finished, target, e, rfl, fun _ _ => rfl⟩

/-! ### Programs -/

/-- The parser takes a statement and the semicolon after it, and rests. -/
theorem Statement.Derives.takes {found : List Token} {statement : Statement}
    (derives : Statement.Derives found statement) (finished : List Statement) :
    ∃ state, Takes ⟨finished, none, [], .due⟩ found state ∧
      Moves state ⟨.semicolon, ' ', .nowhere⟩ ⟨statement :: finished, none, [], .due⟩ := by
  cases derives with
  | @assign tokens value name sum =>
    obtain ⟨after, takes, kept, target, last, operand, reduced⟩ :=
      sum.takes ⟨finished, some (name, .nowhere), [], .due⟩ rfl fun _ => trivial
    have moves : Moves after ⟨.semicolon, ' ', .nowhere⟩ _ :=
      .semicolon operand rfl (reduced 0 (Nat.zero_le _))
    rw [kept, Parse.statement, target] at moves
    exact ⟨after, takes_cons.mpr ⟨_, .name rfl rfl, takes_cons.mpr
      ⟨_, .becomes rfl rfl rfl rfl, takes⟩⟩, moves⟩
  | expr sum =>
    obtain ⟨after, takes, kept, target, last, operand, reduced⟩ :=
      sum.takes ⟨finished, none, [], .due⟩ rfl fun _ => trivial
    have moves : Moves after ⟨.semicolon, ' ', .nowhere⟩ _ :=
      .semicolon operand rfl (reduced 0 (Nat.zero_le _))
    rw [kept, Parse.statement, target] at moves
    exact ⟨after, takes, moves⟩

/-- The parser takes statements with semicolons between them, and one more after the last. -/
theorem takes_statements {parts : List (List Token × Statement)} (some : parts ≠ [])
    (each : ∀ part ∈ parts, Statement.Derives part.1 part.2) (finished : List Statement) :
    ∃ state, Takes ⟨finished, none, [], .due⟩
        (List.intercalate [.semicolon] (parts.map Prod.fst)) state ∧
      Moves state ⟨.semicolon, ' ', .nowhere⟩
        ⟨(parts.map Prod.snd).reverse ++ finished, none, [], .due⟩ := by
  induction parts generalizing finished with
  | nil => exact absurd rfl some
  | cons part others ih =>
    obtain ⟨first, later⟩ := List.forall_mem_cons.mp each
    obtain ⟨between, takes, moves⟩ := first.takes finished
    cases others with
    | nil => exact ⟨between, by simpa using takes, moves⟩
    | cons next others =>
      obtain ⟨state, takes', moves'⟩ := ih (List.cons_ne_nil _ _) later (part.2 :: finished)
      refine ⟨state, ?_, by simpa using moves'⟩
      rw [List.map_cons, List.map_cons, List.intercalate_cons_cons, List.append_assoc,
        List.singleton_append]
      exact takes_append.mpr ⟨between, takes, takes_cons.mpr ⟨_, moves, takes'⟩⟩

/-- **The parser reads the programs that the grammar derives.** -/
theorem Program.Derives.read {found : List Token} {program : Program}
    (derives : Program.Derives found program) : readProgram found = some program := by
  obtain ⟨parts, some, each, rfl, ends⟩ := derives
  obtain ⟨state, takes, moves⟩ := takes_statements some each []
  have reversed : ((parts.map Prod.snd).reverse ++ []).reverse = parts.map Prod.snd := by simp
  rw [readProgram_eq_some]
  rcases ends with rfl | rfl
  · exact ⟨state, takes, .inl ⟨_, moves, reversed.symm⟩⟩
  · exact ⟨_, takes_append.mpr ⟨state, takes, takes_cons.mpr ⟨_, moves, takes_nil.mpr rfl⟩⟩,
      .inr ⟨⟨rfl, rfl, rfl⟩, by simpa using some, reversed.symm⟩⟩

end Reckoner
