/-
What the parser builds, the grammar derives.

A state of the parser stands for the tokens taken so far: those of the finished statements, those of
everything that waits, and those of the operand at hand.

* `Pending` — the tokens of what waits. An operator waits only behind weaker ones.
* `Pending.reduce` — **an operand that is given to waiting operators derives at the level that the
  next operator asks for.**
* `Pending.comma`, `Pending.close` — an operand becomes an argument of the call that waits.
* `Taken`, `Taken.step` — the tokens of a state, and one more of them.
* `readProgram_eq_some_iff` — **the parser reads exactly the programs that the grammar derives.**
* `parseWithin_grammar` — **the parser accepts exactly the texts that the grammar generates, and
  builds the one program of each.**
-/

import Reckoner.Proofs.Expression.Acceptance

namespace Reckoner

open Parse

/-! ### The levels of operators -/

namespace BinaryOp

/-- The level of an expression with an operator at its root. -/
def level : BinaryOp → Level
  | add | sub => .sum
  | mul | div | rem => .term
  | pow => .power

/-- The level of a left operand. -/
def leftLevel : BinaryOp → Level
  | add | sub => .sum
  | mul | div | rem => .term
  | pow => .atom

/-- The level of a right operand. -/
def rightLevel : BinaryOp → Level
  | add | sub => .term
  | mul | div | rem | pow => .signed

end BinaryOp

/-- The level of expressions that no operator of some strength tears apart. -/
def Level.of : Nat → Level
  | 0 | 1 => sum
  | 2 => term
  | 3 => signed
  | 4 => power
  | _ => atom

theorem Level.rank_of_le {threshold strength : Nat} (le : threshold ≤ strength)
    (positive : 1 ≤ strength) : (Level.of threshold).rank ≤ strength := by
  match threshold, le with
  | 0, _ => exact positive
  | 1, le | 2, le | 3, le | 4, le => exact le
  | threshold + 5, le => exact Nat.le_trans (Nat.le_add_left 5 threshold) le

theorem Level.rank_le (level : Level) : level.rank ≤ 5 := by
  cases level <;> decide

theorem Level.of_threshold (op : BinaryOp) : Level.of op.threshold = op.leftLevel := by
  cases op <;> rfl

theorem BinaryOp.rank_level (op : BinaryOp) : op.level.rank = op.strength := by
  cases op <;> rfl

/-- The productions of all operators. -/
theorem Derives.binary {op : BinaryOp} {before after : List Token} {left right : Expr}
    (first : Derives op.leftLevel before left) (second : Derives op.rightLevel after right) :
    Derives op.level (before ++ .op op :: after) (.binary op left right .nowhere) := by
  cases op with
  | add => exact .sum (.inl rfl) first second
  | sub => exact .sum (.inr rfl) first second
  | mul => exact .term (.inl rfl) first second
  | div => exact .term (.inr (.inl rfl)) first second
  | rem => exact .term (.inr (.inr rfl)) first second
  | pow => exact .power first second

/-! ### What waits -/

/-- The level of the operand that is taken by what waits. -/
def operandLevel : List Waiting → Level
  | .sign .. :: _ => .signed
  | .infixOp op _ :: _ => op.rightLevel
  | _ => .sum

theorem rank_operandLevel_le (waiting : List Waiting) : (operandLevel waiting).rank ≤ 3 := by
  unfold operandLevel
  split
  · decide
  · rename_i op _ _
    cases op <;> decide
  · decide

/-- An expression with an operator at its root is an operand for what waited before the operator. -/
theorem rank_operandLevel_of_blocks {op : BinaryOp} {waiting : List Waiting}
    (blocks : Blocks op.threshold waiting) : (operandLevel waiting).rank ≤ op.level.rank := by
  unfold operandLevel
  split
  · have weak : Sign.strength < op.threshold := blocks
    revert weak
    cases op <;> decide
  · rename_i other _ _
    have weak : other.strength < op.threshold := blocks
    revert weak
    cases op <;> cases other <;> decide
  · cases op <;> decide

/-- The tokens that what waits has taken up. -/
inductive Pending : List Waiting → List Token → Prop where
  | nil : Pending [] []
  | sign {waiting : List Waiting} {before : List Token} (sign : Sign)
      (pending : Pending waiting before) :
      Pending (.sign sign 0 :: waiting) (before ++ [.op sign.op])
  | infixOp {waiting : List Waiting} {before found : List Token} {op : BinaryOp} {left : Expr}
      (pending : Pending waiting before) (blocks : Blocks op.threshold waiting)
      (derives : Derives op.leftLevel found left) :
      Pending (.infixOp op left :: waiting) (before ++ (found ++ [.op op]))
  | group {waiting : List Waiting} {before : List Token} (pending : Pending waiting before) :
      Pending (.group :: waiting) (before ++ [.opening])
  | call {waiting : List Waiting} {before : List Token} {name : String}
      {arguments : List (List Token × Expr)} (pending : Pending waiting before)
      (each : ∀ argument ∈ arguments, Derives .sum argument.1 argument.2) :
      Pending (.call name .nowhere (arguments.map Prod.snd).reverse :: waiting)
        (before ++ (.name name :: .opening ::
          arguments.flatMap fun argument => argument.1 ++ [.comma]))

/-- **An operand that is given to waiting operators** derives at the level of the operator that takes
it, and is an operand for what still waits. -/
theorem Pending.reduce {waiting : List Waiting} {before found : List Token} {e : Expr}
    {threshold : Nat} (pending : Pending waiting before)
    (operand : Derives (operandLevel waiting) found e)
    (tight : Derives (Level.of threshold) found e) :
    ∃ before' found', before' ++ found' = before ++ found ∧
      Pending (Parse.reduce threshold waiting e).1 before' ∧
      Derives (Level.of threshold) found' (Parse.reduce threshold waiting e).2 := by
  induction pending generalizing found e with
  | nil => exact ⟨_, _, rfl, .nil, tight⟩
  | @sign waiting before sign pending ih =>
    by_cases taken : threshold ≤ Sign.strength
    · rw [Parse.reduce, if_pos taken, operand.span_eq]
      have signed := Derives.signed sign operand
      obtain ⟨before', found', split, remaining, derives⟩ :=
        ih (signed.loosen (rank_operandLevel_le waiting))
          (signed.loosen (Level.rank_of_le taken (by decide)))
      exact ⟨before', found', by simpa using split, remaining, derives⟩
    · rw [Parse.reduce, if_neg taken]
      exact ⟨_, _, rfl, .sign sign pending, tight⟩
  | @infixOp waiting before left op leftTree pending blocks derives ih =>
    by_cases taken : threshold ≤ op.strength
    · rw [Parse.reduce, if_pos taken, operand.span_eq, derives.span_eq]
      have whole := derives.binary operand
      have positive : 1 ≤ op.strength := by cases op <;> decide
      obtain ⟨before', found', split, remaining, derives⟩ :=
        ih (whole.loosen (rank_operandLevel_of_blocks blocks))
          (whole.loosen (by rw [op.rank_level]; exact Level.rank_of_le taken positive))
      exact ⟨before', found', by simpa using split, remaining, derives⟩
    · rw [Parse.reduce, if_neg taken]
      exact ⟨_, _, rfl, .infixOp pending blocks derives, tight⟩
  | group pending => exact ⟨_, _, rfl, .group pending, tight⟩
  | call pending each => exact ⟨_, _, rfl, .call pending each, tight⟩

/-- The arguments of a call with commas between them, the last one after those that have theirs
behind them. -/
theorem intercalate_concat {α β : Type} (arguments : List (List α × β)) (separator last : List α) :
    List.intercalate separator (arguments.map Prod.fst ++ [last]) =
      (arguments.flatMap fun argument => argument.1 ++ separator) ++ last := by
  induction arguments with
  | nil => simp
  | cons argument rest ih =>
    cases rest with
    | nil => simp
    | cons next rest =>
      rw [List.map_cons, List.map_cons, List.cons_append, List.cons_append,
        List.intercalate_cons_cons, ← List.cons_append, ← List.map_cons, ih]
      simp

/-- **An operand at hand that is given away**, whatever operator or parenthesis asks for it. -/
theorem Pending.give {waiting remaining : List Waiting} {before found : List Token} {e whole : Expr}
    {threshold : Nat} (pending : Pending waiting before) (atom : Derives .atom found e)
    (reduced : Parse.reduce threshold waiting e = (remaining, whole)) :
    ∃ before' found', before' ++ found' = before ++ found ∧ Pending remaining before' ∧
      Derives (Level.of threshold) found' whole := by
  have result := pending.reduce
    (atom.loosen (Nat.le_trans (rank_operandLevel_le waiting) (by decide)))
    (atom.loosen (Level.of threshold).rank_le)
  rwa [reduced] at result

section Calls

variable {waiting : List Waiting} {name : String} {nameSpan : Span} {arguments : List Expr}
  {before found : List Token} {e : Expr}

/-- A call that waits has its name, a parenthesis and its arguments so far behind it. -/
theorem Pending.call_cases (pending : Pending (.call name nameSpan arguments :: waiting) before) :
    nameSpan = .nowhere ∧ ∃ (outer : List Token) (taken : List (List Token × Expr)),
      Pending waiting outer ∧ (∀ argument ∈ taken, Derives .sum argument.1 argument.2) ∧
      arguments = (taken.map Prod.snd).reverse ∧
      before = outer ++
        (.name name :: .opening :: taken.flatMap fun argument => argument.1 ++ [.comma]) := by
  cases pending with
  | call outer each => exact ⟨rfl, _, _, outer, each, rfl, rfl⟩

/-- A comma makes the operand an argument. -/
theorem Pending.comma (pending : Pending (.call name nameSpan arguments :: waiting) before)
    (argument : Derives .sum found e) :
    Pending (.call name nameSpan (e :: arguments) :: waiting) (before ++ (found ++ [.comma])) := by
  obtain ⟨rfl, outer, taken, remaining, each, rfl, rfl⟩ := pending.call_cases
  have longer := @Pending.call _ _ name (taken ++ [(found, e)]) remaining
    (List.forall_mem_append.mpr ⟨each, List.forall_mem_singleton.mpr argument⟩)
  simpa using longer

/-- A parenthesis behind the last argument completes a call. -/
theorem Pending.close (pending : Pending (.call name nameSpan arguments :: waiting) before)
    (argument : Derives .sum found e) :
    ∃ outer whole, outer ++ whole = before ++ (found ++ [.closing]) ∧ Pending waiting outer ∧
      Derives .atom whole (.call name .nowhere (arguments.reverse ++ [e]) .nowhere) := by
  obtain ⟨rfl, outer, taken, remaining, each, rfl, rfl⟩ := pending.call_cases
  have called := @Derives.call name (taken ++ [(found, e)])
    (List.forall_mem_append.mpr ⟨each, List.forall_mem_singleton.mpr argument⟩)
  simp only [List.map_append, List.map_cons, List.map_nil, intercalate_concat] at called
  rw [List.reverse_reverse]
  exact ⟨outer, _, by simp, remaining, called⟩

/-- A parenthesis behind the one that opened it completes a call without arguments. -/
theorem Pending.closeEmpty (pending : Pending (.call name nameSpan [] :: waiting) before) :
    ∃ outer whole, outer ++ whole = before ++ [.closing] ∧ Pending waiting outer ∧
      Derives .atom whole (.call name .nowhere [] .nowhere) := by
  obtain ⟨rfl, outer, taken, remaining, each, none, rfl⟩ := pending.call_cases
  rw [eq_comm, List.reverse_eq_nil_iff, List.map_eq_nil_iff] at none
  subst none
  exact ⟨outer, _, by simp, remaining, .call name each⟩

end Calls

/-! ### The tokens of a state -/

/-- The tokens of the name that a statement assigns to. -/
inductive Aims : Option (String × Span) → List Token → Prop where
  | none : Aims none []
  | some (name : String) : Aims (some (name, .nowhere)) [.name name, .becomes]

/-- The tokens of the operand at hand. -/
inductive Operand.Derives : Operand → List Token → Prop where
  | due : Derives .due []
  | name (text : String) : Derives (.name text .nowhere) [.name text]
  | complete {found : List Token} {e : Expr} (atom : Reckoner.Derives .atom found e) :
      Derives (.complete e) found

theorem Operand.Derives.atom {operand : Operand} {found : List Token} {e : Expr}
    (derives : operand.Derives found) (held : operand.expr? = some e) :
    Reckoner.Derives .atom found e := by
  cases derives with
  | due => cases held
  | name text =>
    cases held
    exact .ident text
  | complete atom =>
    cases held
    exact atom

/-- **The tokens that a state stands for**: finished statements with their semicolons, the target of
the current statement, what waits, and the operand at hand. -/
inductive Taken : List Token → Parse → Prop where
  | intro {parts : List (List Token × Statement)} {target : Option (String × Span)}
      {waiting : List Waiting} {operand : Operand} {aimed before current : List Token}
      (each : ∀ part ∈ parts, Statement.Derives part.1 part.2) (aims : Aims target aimed)
      (pending : Pending waiting before) (held : operand.Derives current) :
      Taken ((parts.flatMap fun part => part.1 ++ [.semicolon]) ++ (aimed ++ (before ++ current)))
        ⟨(parts.map Prod.snd).reverse, target, waiting, operand⟩

theorem Taken.congr {found found' : List Token} {state : Parse} (taken : Taken found state)
    (equal : found = found') : Taken found' state := equal ▸ taken

/-- A statement that has ended is one of the finished ones. -/
theorem Taken.ended {parts : List (List Token × Statement)} {found : List Token}
    {statement : Statement} (each : ∀ part ∈ parts, Statement.Derives part.1 part.2)
    (derives : Statement.Derives found statement) :
    Taken ((parts.flatMap fun part => part.1 ++ [.semicolon]) ++ (found ++ [.semicolon]))
      ⟨statement :: (parts.map Prod.snd).reverse, none, [], .due⟩ := by
  have more := @Taken.intro (parts ++ [(found, statement)]) _ _ _ _ _ _
    (List.forall_mem_append.mpr ⟨each, List.forall_mem_singleton.mpr derives⟩) .none .nil .due
  simpa using more

/-- **One more token.** -/
theorem Taken.step {found : List Token} {state after : Parse} {token : Token}
    (taken : Taken found state) (moves : Moves state ⟨token, ' ', .nowhere⟩ after) :
    Taken (found ++ [token]) after := by
  obtain @⟨parts, target, waiting, operand, aimed, before, current, each, aims, pending, held⟩ :=
    taken
  cases moves with
  | number due isToken =>
    cases isToken
    cases due
    cases held
    exact (Taken.intro each aims pending (.complete (.number _))).congr (by simp)
  | name due isToken =>
    cases isToken
    cases due
    cases held
    exact (Taken.intro each aims pending (.name _)).congr (by simp)
  | opening due isToken =>
    cases isToken
    cases due
    cases held
    exact (Taken.intro each aims pending.group .due).congr (by simp)
  | @sign op sign due isToken signs =>
    cases isToken
    cases due
    cases held
    have written : op = sign.op := by cases op <;> cases signs <;> rfl
    subst written
    exact (Taken.intro each aims (pending.sign sign) .due).congr (by simp)
  | empty due isToken waits =>
    cases isToken
    cases due
    cases held
    obtain rfl : waiting = _ := waits
    obtain ⟨rfl, -⟩ := pending.call_cases
    obtain ⟨outer, whole, split, remaining, called⟩ := pending.closeEmpty
    exact (Taken.intro each aims remaining (.complete called)).congr (by simp [split])
  | @calling text _ named isToken =>
    cases isToken
    cases named
    cases held
    have called := @Pending.call _ _ text [] pending nofun
    exact (Taken.intro each aims called .due).congr (by simp)
  | becomes named isToken alone first =>
    cases isToken
    cases named
    cases held
    cases alone
    cases pending
    cases first
    cases aims
    exact (Taken.intro each (.some _) .nil .due).congr (by simp)
  | @infixOp op e left remaining atHand isToken reduced =>
    cases isToken
    obtain ⟨before', found', split, pending', derives⟩ := pending.give (held.atom atHand) reduced
    have blocks := blocks_reduce op.threshold waiting e
    rw [show Parse.reduce op.threshold waiting e = _ from reduced] at blocks
    rw [Level.of_threshold] at derives
    refine (Taken.intro each aims (pending'.infixOp blocks derives) .due).congr ?_
    simp [← split]
  | group atHand isToken reduced =>
    cases isToken
    obtain ⟨before', found', split, pending', derives⟩ := pending.give (held.atom atHand) reduced
    cases pending' with
    | group pending' =>
      refine (Taken.intro each aims pending' (.complete (.group derives))).congr ?_
      simp [← split]
  | call atHand isToken reduced =>
    cases isToken
    obtain ⟨before', found', split, pending', derives⟩ := pending.give (held.atom atHand) reduced
    obtain ⟨rfl, -⟩ := pending'.call_cases
    obtain ⟨outer, whole, split', remaining, called⟩ := pending'.close derives
    refine (Taken.intro each aims remaining (.complete called)).congr ?_
    simp [split', ← split]
  | comma atHand isToken reduced =>
    cases isToken
    obtain ⟨before', found', split, pending', derives⟩ := pending.give (held.atom atHand) reduced
    refine (Taken.intro each aims (pending'.comma derives) .due).congr ?_
    simp [← split]
  | semicolon atHand isToken reduced =>
    cases isToken
    obtain ⟨before', found', split, pending', derives⟩ := pending.give (held.atom atHand) reduced
    cases pending'
    cases aims with
    | none => exact (Taken.ended each (.expr derives)).congr (by simp [← split])
    | some name => exact (Taken.ended each (.assign name derives)).congr (by simp [← split])

/-- The tokens of a run. -/
theorem Taken.run {found more : List Token} {state after : Parse} (taken : Taken found state)
    (takes : state.Takes more after) : Taken (found ++ more) after := by
  induction more generalizing found state with
  | nil =>
    rw [takes_nil] at takes
    subst takes
    rwa [List.append_nil]
  | cons token rest ih =>
    obtain ⟨between, moves, later⟩ := takes_cons.mp takes
    exact (ih (taken.step moves) later).congr (by simp)

theorem taken_start : Taken [] Parse.start := @Taken.intro [] _ _ _ _ _ _ nofun .none .nil .due

/-- Between two statements, all tokens are those of finished statements. -/
theorem Taken.statements {found : List Token} {state : Parse} (taken : Taken found state)
    (resting : state.Resting) :
    ∃ parts : List (List Token × Statement),
      (∀ part ∈ parts, Statement.Derives part.1 part.2) ∧
      found = (parts.flatMap fun part => part.1 ++ [.semicolon]) ∧
      state.finished.reverse = parts.map Prod.snd := by
  obtain @⟨parts, target, waiting, operand, aimed, before, current, each, aims, pending, held⟩ :=
    taken
  obtain ⟨rfl, rfl, rfl⟩ := resting
  cases aims
  cases pending
  cases held
  exact ⟨parts, each, by simp, List.reverse_reverse _⟩

/-! ### Programs -/

/-- Statements with semicolons behind them have semicolons between them and one at the end. -/
theorem flatMap_semicolon {parts : List (List Token × Statement)} (some : parts ≠ []) :
    (parts.flatMap fun part => part.1 ++ [Token.semicolon]) =
      List.intercalate [.semicolon] (parts.map Prod.fst) ++ [.semicolon] := by
  rcases List.eq_nil_or_concat parts with rfl | ⟨front, last, rfl⟩
  · exact absurd rfl some
  · simp [intercalate_concat]

/-- **The parser reads exactly the programs that the grammar derives.** -/
theorem readProgram_eq_some_iff {found : List Token} {program : Program} :
    readProgram found = some program ↔ Program.Derives found program := by
  refine ⟨fun read => ?_, Program.Derives.read⟩
  obtain ⟨state, takes, ends⟩ := readProgram_eq_some.mp read
  have taken : Taken found state := taken_start.run takes
  rcases ends with ⟨after, moves, rfl⟩ | ⟨resting, begun, rfl⟩
  · obtain ⟨_, _, _, _, rfl⟩ := (step_semicolon rfl).mp (step_eq_ok.mpr moves)
    obtain ⟨parts, each, split, program⟩ := (taken.step moves).statements ⟨rfl, rfl, rfl⟩
    have some : parts ≠ [] := by
      rintro rfl
      simp at program
    rw [flatMap_semicolon some] at split
    exact ⟨parts, some, each, program, .inl (List.append_cancel_right split)⟩
  · obtain ⟨parts, each, rfl, program⟩ := taken.statements resting
    have some : parts ≠ [] := by
      rintro rfl
      exact begun (List.reverse_eq_nil_iff.mp program)
    exact ⟨parts, some, each, program, .inr (flatMap_semicolon some)⟩

/-- The programs that the grammar generates from a text are those that the parser reads from its
tokens. -/
theorem generates_iff {text : List Char} {program : Program} :
    Generates text program ↔ readProgram (tokens text) = some program := by
  constructor
  · rintro ⟨found, spelled, derives⟩
    rw [tokens_of_spelled spelled]
    exact derives.read
  · intro read
    obtain ⟨state, takes, -⟩ := readProgram_eq_some.mp read
    exact ⟨tokens text, spelled_tokens takes.isOther, readProgram_eq_some_iff.mp read⟩

section Programs

variable {limit : Nat} {source : String} (shallow : checkNesting limit source.toList = .ok ())

include shallow

/-- A program that is parsed is one that the grammar generates. -/
theorem generates_of_parseWithin {program : Program}
    (parsed : parseWithin limit source = .ok program) :
    Generates source.toList (program.map Statement.unplaced) := by
  have read := parseWithin_unplaced shallow
  rw [parsed] at read
  exact generates_iff.mpr read.symm

/-- A program that the grammar generates is parsed, with its places. -/
theorem parseWithin_of_generates {program : Program} (generated : Generates source.toList program) :
    ∃ placed, parseWithin limit source = .ok placed ∧
      placed.map Statement.unplaced = program := by
  have read := parseWithin_unplaced shallow
  rw [generates_iff.mp generated, Option.map_eq_some_iff] at read
  obtain ⟨placed, accepted, same⟩ := read
  exact ⟨placed, toOption_eq_some.mp accepted, same⟩

end Programs

/-- **The parser accepts exactly the texts that the grammar generates**, and builds the one program
of each. The text is not nested too deeply. -/
theorem parseWithin_grammar {limit : Nat} {source : String}
    (shallow : checkNesting limit source.toList = .ok ()) :
    ((∃ program, parseWithin limit source = .ok program) ↔
      ∃ program, Generates source.toList program) ∧
    ∀ program, parseWithin limit source = .ok program →
      Generates source.toList (program.map Statement.unplaced) ∧
      ∀ other, Generates source.toList other → other = program.map Statement.unplaced := by
  have read := parseWithin_unplaced shallow
  simp only [generates_iff, ← read, Option.map_eq_some_iff, toOption_eq_some]
  refine ⟨⟨?_, ?_⟩, fun program parsed => ⟨⟨program, parsed, rfl⟩, ?_⟩⟩
  · rintro ⟨program, parsed⟩
    exact ⟨_, program, parsed, rfl⟩
  · rintro ⟨_, program, parsed, -⟩
    exact ⟨program, parsed⟩
  · rintro _ ⟨again, parsed', rfl⟩
    rw [parsed] at parsed'
    cases parsed'
    rfl

/-- A sign is an operand of the power before it, and ends where the product begins. -/
theorem parseWithin_grammar_signs : ∃ tree : Expr,
    tree = .binary .mul
      (.binary .pow (.number "2" .nowhere) (.unary .minus (.ident "x" .nowhere) .nowhere) .nowhere)
      (.call "f" .nowhere [.number "3" .nowhere] .nowhere) .nowhere ∧
    Generates "2 ^ -x * f(3);".toList [.expr tree] ∧
    ∀ other, Generates "2 ^ -x * f(3);".toList other → other = [.expr tree] := by
  have shallow : checkNesting 1 "2 ^ -x * f(3);".toList = .ok () := rfl
  have parsed : parseWithin 1 "2 ^ -x * f(3);" = .ok [.expr (.binary .mul
      (.binary .pow (.number "2" ⟨0, 1⟩) (.unary .minus (.ident "x" ⟨5, 6⟩) ⟨4, 6⟩) ⟨0, 6⟩)
      (.call "f" ⟨9, 10⟩ [.number "3" ⟨11, 12⟩] ⟨9, 13⟩) ⟨0, 13⟩)] := rfl
  exact ⟨_, rfl, (parseWithin_grammar shallow).2 _ parsed⟩

end Reckoner
