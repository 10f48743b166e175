/-
Trees, tokens and states of the parser under a change of places.

* `Span.map`, `Expr.mapPlaces`, `Statement.mapPlaces`, `Lexeme.mapPlaces` — every byte offset
  replaced by another. A text that starts later has later places.
* `Parse.moved` — a state of the parser at other places and after earlier statements.
* `Parse.step_moved`, `Parse.foldlM_moved` — **the parser takes the same tokens at other places and
  after other statements**, and builds the same trees there.
-/

import Reckoner.Expression.Parser
import Reckoner.Proofs.Outcome

namespace Reckoner

/-- A span with other offsets. -/
def Span.map (place : Nat → Nat) (span : Span) : Span := ⟨place span.start, place span.stop⟩

theorem Span.map_join (place : Nat → Nat) (a b : Span) :
    (a.join b).map place = (a.map place).join (b.map place) := rfl

theorem Span.map_id (span : Span) : span.map id = span := rfl

namespace Expr

mutual

/-- A tree with other offsets. -/
def mapPlaces (place : Nat → Nat) : Expr → Expr
  | number text span => number text (span.map place)
  | ident name span => ident name (span.map place)
  | unary sign operand span => unary sign (operand.mapPlaces place) (span.map place)
  | binary op left right span =>
    binary op (left.mapPlaces place) (right.mapPlaces place) (span.map place)
  | call name nameSpan arguments span =>
    call name (nameSpan.map place) (mapPlacesAll place arguments) (span.map place)

/-- Trees with other offsets. -/
def mapPlacesAll (place : Nat → Nat) : List Expr → List Expr
  | [] => []
  | e :: rest => e.mapPlaces place :: mapPlacesAll place rest

end

variable (place : Nat → Nat)

theorem mapPlacesAll_eq (list : List Expr) : mapPlacesAll place list = list.map (mapPlaces place) := by
  induction list with
  | nil => rw [mapPlacesAll, List.map_nil]
  | cons e rest ih => rw [mapPlacesAll, List.map_cons, ih]

theorem span_mapPlaces (e : Expr) : (e.mapPlaces place).span = e.span.map place := by
  cases e <;> rw [mapPlaces] <;> rfl

mutual

theorem mapPlaces_id (e : Expr) : e.mapPlaces id = e := by
  cases e with
  | number text span => rw [mapPlaces, Span.map_id]
  | ident name span => rw [mapPlaces, Span.map_id]
  | unary sign operand span => rw [mapPlaces, Span.map_id, mapPlaces_id operand]
  | binary op left right span =>
    rw [mapPlaces, Span.map_id, mapPlaces_id left, mapPlaces_id right]
  | call name nameSpan arguments span =>
    rw [mapPlaces, Span.map_id, Span.map_id, mapPlacesAll_id arguments]

theorem mapPlacesAll_id (list : List Expr) : mapPlacesAll id list = list := by
  cases list with
  | nil => rw [mapPlacesAll]
  | cons e rest => rw [mapPlacesAll, mapPlaces_id e, mapPlacesAll_id rest]

end

end Expr

/-- A statement with other offsets. -/
def Statement.mapPlaces (place : Nat → Nat) : Statement → Statement
  | assign name nameSpan value => assign name (nameSpan.map place) (value.mapPlaces place)
  | expr value => expr (value.mapPlaces place)

theorem Statement.mapPlaces_id (statement : Statement) : statement.mapPlaces id = statement := by
  cases statement with
  | assign name nameSpan value => rw [mapPlaces, Span.map_id, Expr.mapPlaces_id]
  | expr value => rw [mapPlaces, Expr.mapPlaces_id]

/-- A token at another place. -/
def Lexeme.mapPlaces (place : Nat → Nat) (lexeme : Lexeme) : Lexeme :=
  { lexeme with span := lexeme.span.map place }

/-! ### States of the parser -/

/-- Something that waits, with other offsets. -/
def Waiting.mapPlaces (place : Nat → Nat) : Waiting → Waiting
  | .sign symbol start => .sign symbol (place start)
  | .infixOp op left => .infixOp op (left.mapPlaces place)
  | .group => .group
  | .call name nameSpan arguments =>
    .call name (nameSpan.map place) (arguments.map (Expr.mapPlaces place))

/-- An operand with other offsets. -/
def Operand.mapPlaces (place : Nat → Nat) : Operand → Operand
  | due => due
  | name text span => name text (span.map place)
  | complete e => complete (e.mapPlaces place)

namespace Parse

/-- A state with other offsets, after some earlier statements. -/
def moved (place : Nat → Nat) (earlier : List Statement) (state : Parse) : Parse where
  finished := state.finished.map (Statement.mapPlaces place) ++ earlier
  target := state.target.map fun (name, nameSpan) => (name, nameSpan.map place)
  waiting := state.waiting.map (Waiting.mapPlaces place)
  operand := state.operand.mapPlaces place

section Moved

variable (place : Nat → Nat) (earlier : List Statement)

theorem reduce_mapPlaces (threshold : Nat) (waiting : List Waiting) (e : Expr) :
    reduce threshold (waiting.map (Waiting.mapPlaces place)) (e.mapPlaces place) =
      ((reduce threshold waiting e).1.map (Waiting.mapPlaces place),
        (reduce threshold waiting e).2.mapPlaces place) := by
  induction waiting generalizing e with
  | nil => rfl
  | cons wait rest ih =>
    cases wait with
    | sign sign start =>
      rw [List.map_cons, Waiting.mapPlaces, reduce, reduce]
      split
      · rw [← ih, Expr.mapPlaces, Span.map, Expr.span_mapPlaces]
        rfl
      · rfl
    | infixOp op left =>
      rw [List.map_cons, Waiting.mapPlaces, reduce, reduce]
      split
      · rw [← ih, Expr.mapPlaces, Span.map_join, Expr.span_mapPlaces, Expr.span_mapPlaces]
      · rfl
    | group => rfl
    | call name nameSpan arguments => rfl

theorem statement_moved (state : Parse) (e : Expr) :
    (state.moved place earlier).statement (e.mapPlaces place) =
      (state.statement e).mapPlaces place := by
  unfold statement moved
  cases state.target <;> rfl

theorem afterOperand_moved (state : Parse) (e : Expr) (lexeme : Lexeme) :
    ((state.moved place earlier).afterOperand (e.mapPlaces place)
        (lexeme.mapPlaces place)).toOption =
      (state.afterOperand e lexeme).toOption.map (moved place earlier) := by
  have reduced (threshold : Nat) : reduce threshold (state.moved place earlier).waiting
      (e.mapPlaces place) = ((reduce threshold state.waiting e).1.map (Waiting.mapPlaces place),
        (reduce threshold state.waiting e).2.mapPlaces place) :=
    reduce_mapPlaces place threshold state.waiting e
  obtain ⟨token, first, span⟩ := lexeme
  cases token with
  | op op =>
    simp only [afterOperand, Lexeme.mapPlaces, reduced]
    rfl
  | closing =>
    simp only [afterOperand, Lexeme.mapPlaces, reduced]
    rcases reduce 0 state.waiting e with ⟨_ | ⟨wait, rest⟩, whole⟩
    · rfl
    · cases wait with
      | sign sign start => rfl
      | infixOp op left => rfl
      | group => rfl
      | call name nameSpan arguments =>
        simp [Except.toOption, moved, Operand.mapPlaces, Expr.mapPlaces, Waiting.mapPlaces,
          Expr.mapPlacesAll_eq, Span.map_join]
  | comma =>
    simp only [afterOperand, Lexeme.mapPlaces, reduced]
    rcases reduce 0 state.waiting e with ⟨_ | ⟨wait, rest⟩, whole⟩
    · rfl
    · cases wait <;> rfl
  | semicolon =>
    simp only [afterOperand, Lexeme.mapPlaces, reduced]
    rcases reduce 0 state.waiting e with ⟨_ | ⟨wait, rest⟩, whole⟩
    · simp only [List.map_nil, statement_moved]
      rfl
    · rfl
  | number text => rfl
  | name text => rfl
  | opening => rfl
  | becomes => rfl
  | other c => rfl

/-- **The parser takes the same tokens at other places and after other statements.** -/
theorem step_moved (state : Parse) (lexeme : Lexeme) :
    ((state.moved place earlier).step (lexeme.mapPlaces place)).toOption =
      (state.step lexeme).toOption.map (moved place earlier) := by
  obtain ⟨finished, target, waiting, operand⟩ := state
  cases operand with
  | complete e => exact afterOperand_moved place earlier ⟨finished, target, waiting, .complete e⟩ e lexeme
  | due =>
    obtain ⟨token, first, span⟩ := lexeme
    cases token with
    | op op => cases op <;> rfl
    | closing =>
      cases waiting with
      | nil => rfl
      | cons wait rest =>
        cases wait with
        | call name nameSpan arguments => cases arguments <;> rfl
        | sign sign start => rfl
        | infixOp op left => rfl
        | group => rfl
    | number text => rfl
    | name text => rfl
    | opening => rfl
    | comma => rfl
    | semicolon => rfl
    | becomes => rfl
    | other c => rfl
  | name text nameSpan =>
    have following := afterOperand_moved place earlier
      ⟨finished, target, waiting, .name text nameSpan⟩ (.ident text nameSpan) lexeme
    obtain ⟨token, first, span⟩ := lexeme
    cases token with
    | becomes => cases waiting <;> cases target <;> rfl
    | opening => rfl
    | op op => exact following
    | closing => exact following
    | comma => exact following
    | semicolon => exact following
    | number text => rfl
    | name text => rfl
    | other c => rfl

/-- **A run of the parser is the same at other places and after other statements.** -/
theorem foldlM_moved (lexemes : List Lexeme) (state : Parse) :
    ((lexemes.map (Lexeme.mapPlaces place)).foldlM step (state.moved place earlier)).toOption =
      (lexemes.foldlM step state).toOption.map (moved place earlier) := by
  induction lexemes generalizing state with
  | nil => rfl
  | cons lexeme rest ih =>
    rw [List.map_cons, List.foldlM_cons, List.foldlM_cons, toOption_bind, toOption_bind, step_moved]
    cases state.step lexeme with
    | error error => rfl
    | ok after => exact ih after

end Moved

end Parse

end Reckoner
