/-
The parser on tokens alone.

Where tokens stand decides the places in a tree and nothing else, so that a text is read like its
tokens would be if they stood nowhere.

* `Parse.take`, `Parse.Takes` — the parser on tokens that stand nowhere, one by one and in a row.
* `readProgram` — the program of some tokens.
* `parseWithin_unplaced` — **the program of a text, without its places, is that of its tokens.**
-/

import Reckoner.Proofs.Expression.Grammar
import Reckoner.Proofs.Expression.Sequence

namespace Reckoner

namespace Parse

/-! ### Tokens that stand nowhere -/

/-- The state after a token that stands nowhere, if the parser takes it. -/
def take (state : Parse) (token : Token) : Option Parse :=
  (state.step ⟨token, ' ', .nowhere⟩).toOption

theorem take_eq_some {state after : Parse} {token : Token} :
    state.take token = some after ↔ Moves state ⟨token, ' ', .nowhere⟩ after := by
  rw [take, toOption_eq_some, step_eq_ok]

/-- The first character of a token appears in errors only. -/
theorem Moves.withFirst {state after : Parse} {token : Token} {first : Char} {span : Span}
    (moves : Moves state ⟨token, first, span⟩ after) (other : Char) :
    Moves state ⟨token, other, span⟩ after := by
  cases moves with
  | number due isToken => exact .number due isToken
  | name due isToken => exact .name due isToken
  | opening due isToken => exact .opening due isToken
  | sign due isToken signs => exact .sign due isToken signs
  | empty due isToken waiting => exact .empty due isToken waiting
  | calling named isToken => exact .calling named isToken
  | becomes named isToken alone first => exact .becomes named isToken alone first
  | infixOp operand isToken reduced => exact .infixOp operand isToken reduced
  | group operand isToken reduced => exact .group operand isToken reduced
  | call operand isToken reduced => exact .call operand isToken reduced
  | comma operand isToken reduced => exact .comma operand isToken reduced
  | semicolon operand isToken reduced => exact .semicolon operand isToken reduced

theorem toOption_step (state : Parse) (lexeme : Lexeme) :
    (state.step (lexeme.mapPlaces fun _ => 0)).toOption = state.take lexeme.token := by
  refine Option.ext fun after => ?_
  rw [take_eq_some, toOption_eq_some, step_eq_ok]
  constructor
  · intro moves
    exact moves.withFirst ' '
  · intro moves
    exact moves.withFirst lexeme.first

/-- The state after a row of tokens that stand nowhere. -/
def Takes (state : Parse) (tokens : List Token) (after : Parse) : Prop :=
  tokens.foldlM take state = some after

@[simp] theorem takes_nil {state after : Parse} : state.Takes [] after ↔ after = state := by
  simp [Takes, eq_comm]

theorem takes_cons {state after : Parse} {token : Token} {tokens : List Token} :
    state.Takes (token :: tokens) after ↔
      ∃ between, Moves state ⟨token, ' ', .nowhere⟩ between ∧ between.Takes tokens after := by
  simp [Takes, ← take_eq_some, Option.bind_eq_some_iff]

theorem takes_append {state after : Parse} {first second : List Token} :
    state.Takes (first ++ second) after ↔
      ∃ between, state.Takes first between ∧ between.Takes second after := by
  simp [Takes, Option.bind_eq_some_iff]

theorem Moves.isOther {state after : Parse} {lexeme : Lexeme} (moves : Moves state lexeme after) :
    lexeme.token.isOther = false := by
  cases moves with
  | number _ isToken | name _ isToken | opening _ isToken | calling _ isToken => rw [isToken]; rfl
  | sign _ isToken | empty _ isToken | becomes _ isToken => rw [isToken]; rfl
  | infixOp _ isToken | group _ isToken | call _ isToken => rw [isToken]; rfl
  | comma _ isToken | semicolon _ isToken => rw [isToken]; rfl

/-- A token that the parser takes is one of the grammar's. -/
theorem Takes.isOther {state after : Parse} {tokens : List Token}
    (takes : state.Takes tokens after) : ∀ token ∈ tokens, token.isOther = false := by
  induction tokens generalizing state with
  | nil => nofun
  | cons token rest ih =>
    obtain ⟨between, moves, later⟩ := takes_cons.mp takes
    exact List.forall_mem_cons.mpr ⟨moves.isOther, ih later⟩

/-- **The parser takes the tokens of a text as if they stood nowhere.** -/
theorem foldlM_unplaced (lexemes : List Lexeme) :
    (lexemes.map Lexeme.token).foldlM take start =
      (lexemes.foldlM step start).toOption.map (moved (fun _ => 0) []) := by
  have bare (state : Parse) : (lexemes.map Lexeme.token).foldlM take state =
      ((lexemes.map (Lexeme.mapPlaces fun _ => 0)).foldlM step state).toOption := by
    induction lexemes generalizing state with
    | nil => rfl
    | cons lexeme rest ih =>
      simp only [List.map_cons, List.foldlM_cons, toOption_bind, toOption_step]
      exact congrArg _ (funext ih)
  rw [bare, ← foldlM_moved]
  rfl

/-- **A text ends where its tokens may end**, wherever they stand. -/
theorem finish_unplaced (state : Parse) (length : Nat) :
    ((state.moved (fun _ => 0) []).finish 0).toOption =
      (state.finish length).toOption.map (List.map Statement.unplaced) := by
  refine Option.ext fun program => ?_
  rw [toOption_eq_some, Option.map_eq_some_iff]
  simp only [toOption_eq_some]
  by_cases begun : state.Resting → state.finished ≠ []
  · rw [finish_moved 0 length begun]
    simp only [List.reverse_nil, List.nil_append, eq_comm (a := program)]
    rfl
  · -- Neither side ends where nothing has been read.
    obtain ⟨resting, none⟩ := Classical.not_imp.mp begun
    rw [ne_eq, Decidable.not_not] at none
    obtain ⟨finished, target, waiting, operand⟩ := state
    obtain ⟨rfl, rfl, rfl⟩ := resting
    cases none
    simp [finish, moved, Operand.mapPlaces, refuse]

end Parse

/-! ### Programs -/

/-- The program of some tokens. -/
def readProgram (tokens : List Token) : Option Program := do
  let state ← tokens.foldlM Parse.take Parse.start
  (state.finish 0).toOption

/-- **The program of a text, without its places, is that of its tokens.** -/
theorem parseWithin_unplaced {limit : Nat} {source : String}
    (shallow : checkNesting limit source.toList = .ok ()) :
    (parseWithin limit source).toOption.map (List.map Statement.unplaced) =
      readProgram (tokens source.toList) := by
  simp only [parseWithin, readProgram, tokens, Parse.foldlM_unplaced, shallow, toOption_bind]
  cases (lex source.toList).foldlM Parse.step Parse.start with
  | error error => rfl
  | ok state => exact (Parse.finish_unplaced state _).symm

/-- A program is read where the parser takes a semicolon after the tokens, or rests after them. -/
theorem readProgram_eq_some {found : List Token} {program : Program} :
    readProgram found = some program ↔ ∃ state, Parse.start.Takes found state ∧
      ((∃ after, Parse.Moves state ⟨.semicolon, ' ', .nowhere⟩ after ∧
        program = after.finished.reverse) ∨
        (state.Resting ∧ state.finished ≠ [] ∧ program = state.finished.reverse)) := by
  have ends (state : Parse) := @Parse.finish_eq_ok state 0 program ⟨.semicolon, ' ', .nowhere⟩ rfl
  unfold readProgram
  simp only [Option.bind_eq_bind, Option.bind_eq_some_iff, toOption_eq_some, ← Parse.step_eq_ok,
    ends, Parse.Takes]

end Reckoner
