/-
What stands in front of a refused token.

Whatever the parser has taken, it can be ended: by an operand, if one is due, and by a closing
parenthesis for each open one. So the text up to the place where a text is refused is the start of a
program.

* `tokens_separated`, `tokens_closings` — the tokens of such an ending.
* `Parse.exists_closed` — **closing parentheses complete an operand**, by induction on the open ones.
* `exists_program` — what the parser takes can be continued to a program.
* `parseWithin_unexpected` — **a text is refused at the character that is reported, behind the start
  of a program**.
-/

import Reckoner.Proofs.Expression.Cuts
import Reckoner.Proofs.Expression.Derivation
import Reckoner.Proofs.Expression.Layout

namespace Reckoner

/-! ### Tokens of an ending -/

/-- The tokens of two texts around a character that separates, without their places. -/
theorem tokens_separated {stop : Char} (separated : separates stop) (text after : List Char) :
    tokens (text ++ stop :: after) = tokens text ++ tokens (stop :: after) := by
  rw [tokens, lex, lexFrom_append separated text after (Nat.zero_le _), List.map_append,
    map_token_lexFrom, map_token_lexFrom, List.drop_zero, List.drop_zero]

theorem tokens_closings (count : Nat) :
    tokens (List.replicate count ')') = List.replicate count .closing := by
  induction count with
  | zero => rfl
  | succ count ih =>
    rw [List.replicate_succ, List.replicate_succ, ← ih]
    exact tokens_symbol .closing _

/-- Closing parentheses behind a text. -/
theorem tokens_append_closings (text : List Char) (count : Nat) :
    tokens (text ++ ' ' :: List.replicate count ')') =
      tokens text ++ List.replicate count .closing := by
  rw [tokens_separated rfl, tokens_space rfl, tokens_closings]

/-- A number behind a text. -/
theorem tokens_append_one (text : List Char) :
    tokens (text ++ [' ', '1']) = tokens text ++ [.number "1"] := by
  rw [tokens_separated rfl]
  rfl

/-! ### Ends of what has been taken -/

namespace Parse

/-- A closing parenthesis is taken wherever one is open. -/
theorem exists_closing {state : Parse} {e inner : Expr} {wait : Waiting} {rest : List Waiting}
    (operand : state.operand.expr? = some e)
    (reduced : reduce 0 state.waiting e = (wait :: rest, inner)) :
    wait.isOpen ∧ ∃ closed, Moves state ⟨.closing, ' ', .nowhere⟩
      { state with waiting := rest, operand := .complete closed } := by
  have blocks := blocks_reduce 0 state.waiting e
  rw [reduced] at blocks
  cases wait with
  | sign sign start => exact absurd blocks (Nat.not_lt_zero _)
  | infixOp op left => exact absurd blocks (Nat.not_lt_zero _)
  | group => exact ⟨rfl, _, .group operand rfl reduced⟩
  | call name nameSpan arguments => exact ⟨rfl, _, .call operand rfl reduced⟩

/-- **Closing parentheses complete an operand.** -/
theorem exists_closed {state : Parse} {e : Expr} (operand : state.operand.expr? = some e) :
    ∃ count after last whole, state.Takes (List.replicate count .closing) after ∧
      after.operand.expr? = some last ∧ reduce 0 after.waiting last = ([], whole) := by
  -- Each of them closes the innermost parenthesis, so the induction is on the open ones.
  generalize opened : state.openCount = n
  induction n using Nat.strongRecOn generalizing state e with
  | ind n ih =>
    rcases reduced : reduce 0 state.waiting e with ⟨_ | ⟨wait, rest⟩, inner⟩
    · exact ⟨0, state, e, inner, takes_nil.mpr rfl, operand, reduced⟩
    · obtain ⟨isOpen, closed, moves⟩ := exists_closing operand reduced
      let next : Parse := { state with waiting := rest, operand := .complete closed }
      have fewer : next.openCount < n := by
        rw [← opened, openCount, openCount, ← countP_reduce 0 state.waiting e, reduced,
          List.countP_cons_of_pos isOpen]
        exact Nat.lt_succ_self _
      have held : next.operand.expr? = some closed := rfl
      obtain ⟨count, after, last, whole, takes, ended⟩ := ih _ fewer held rfl
      refine ⟨count + 1, after, last, whole, ?_, ended⟩
      rw [List.replicate_succ]
      exact takes_cons.mpr ⟨_, moves, takes⟩

end Parse

/-- Tokens after which an operand is at hand can be continued to a program by closing parentheses. -/
theorem exists_program_of_operand {text : List Char} {state : Parse} {e : Expr}
    (takes : Parse.start.Takes (tokens text) state) (operand : state.operand.expr? = some e) :
    ∃ continuation program, Generates (text ++ continuation) program := by
  obtain ⟨count, after, last, whole, closings, held, reduced⟩ := Parse.exists_closed operand
  refine ⟨' ' :: List.replicate count ')', _, generates_iff.mpr (readProgram_eq_some.mpr
    ⟨after, ?_, .inl ⟨_, .semicolon held rfl reduced, rfl⟩⟩)⟩
  rw [tokens_append_closings]
  exact Parse.takes_append.mpr ⟨state, takes, closings⟩

/-- **A text whose tokens the parser takes is the start of a program.** -/
theorem exists_program {text : List Char} {state : Parse}
    (walked : (lex text).foldlM Parse.step Parse.start = .ok state) :
    ∃ continuation program, Generates (text ++ continuation) program := by
  have takes : Parse.start.Takes (tokens text) (state.moved (fun _ => 0) []) := by
    rw [Parse.Takes, tokens, Parse.foldlM_unplaced, walked]
    rfl
  cases operand : (state.moved (fun _ => 0) []).operand with
  | name name span => exact exists_program_of_operand takes (congrArg Operand.expr? operand)
  | complete e => exact exists_program_of_operand takes (congrArg Operand.expr? operand)
  | due =>
    -- A number is an operand wherever one is due.
    let one : Expr := .number "1" .nowhere
    let after : Parse := { state.moved (fun _ => 0) [] with operand := .complete one }
    have number : Parse.start.Takes (tokens (text ++ [' ', '1'])) after := by
      rw [tokens_append_one]
      exact Parse.takes_append.mpr ⟨_, takes,
        Parse.takes_cons.mpr ⟨after, .number operand rfl, Parse.takes_nil.mpr rfl⟩⟩
    have held : after.operand.expr? = some one := rfl
    obtain ⟨continuation, program, generated⟩ := exists_program_of_operand number held
    rw [List.append_assoc] at generated
    exact ⟨_, program, generated⟩

/-! ### Refused texts -/

/-- **A text is refused at the character that is reported, behind the start of a program.** The end of
the text is reported exactly where it is the place. -/
theorem parseWithin_unexpected {limit : Nat} {source : String} {expected : Expected}
    {found : Option Char} {span : Span}
    (refused : parseWithin limit source = .error ⟨.unexpected expected found, span⟩) :
    ∃ before after, source.toList = before ++ after ∧ Text.byteLength before = span.start ∧
      span.stop = span.start ∧ found = after.head? ∧
      (found = none ↔ span.start = Text.byteLength source.toList) ∧
      ∃ continuation program, Generates (before ++ continuation) program := by
  rcases parseWithin_eq_error refused with
    ⟨⟨_, ⟨⟩⟩, -⟩ | ⟨front, lexeme, back, state, lexed, walked, same⟩ | ⟨state, walked, same⟩
  · obtain ⟨before, c, rest, split, -, visible, taken, here⟩ := exists_of_lexFrom_eq_append lexed
    rw [lexFrom_token visible, Nat.zero_add, List.cons.injEq] at here
    obtain ⟨rfl, -⟩ := here
    cases same
    have wide : 0 < c.utf8Size := Char.utf8Size_pos c
    refine ⟨before, c :: rest, split, rfl, rfl, rfl, iff_of_false nofun ?_, ?_⟩
    · rw [split, byteLength_append, byteLength_cons]
      show Text.byteLength before ≠ _
      omega
    · rw [← taken] at walked
      exact exists_program walked
  · cases same
    exact ⟨source.toList, [], (List.append_nil _).symm, rfl, rfl, rfl, iff_of_true rfl rfl,
      exists_program walked⟩

/-- A number where an operator is due, inside of the arguments of a call. -/
theorem parseWithin_unexpected_number :
    parseWithin 1 "f(2 3" = .error ⟨.unexpected .operator (some '3'), ⟨4, 4⟩⟩ ∧
      ∃ before after, "f(2 3".toList = before ++ after ∧ Text.byteLength before = 4 ∧
        ∃ continuation program, Generates (before ++ continuation) program := by
  have refused : parseWithin 1 "f(2 3" = .error ⟨.unexpected .operator (some '3'), ⟨4, 4⟩⟩ := rfl
  obtain ⟨before, after, split, start, -, -, -, generated⟩ := parseWithin_unexpected refused
  exact ⟨refused, before, after, split, start, generated⟩

end Reckoner
