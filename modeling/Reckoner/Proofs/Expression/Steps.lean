/-
What the parser does with a token.

* `Operand.expr?` — the operand at hand as a tree.
* `Parse.Moves`, `Parse.step_eq_ok` — the tokens that the parser takes in each state, and the
  states they lead to.
* `Parse.Resting`, `Parse.Moves.resting` — between two statements: only a semicolon leads there.
* `Parse.finish_eq_ok` — the states in which a text may end, and its program.
-/

import Reckoner.Expression.Parser
import Reckoner.Proofs.Outcome

namespace Reckoner

/-- The operand at hand as a tree; none if one is due. -/
def Operand.expr? : Operand → Option Expr
  | due => none
  | name text span => some (.ident text span)
  | complete e => some e

namespace Parse

/-- A token that the parser takes, and the states before and after it. -/
inductive Moves : Parse → Lexeme → Parse → Prop where
  | number {state : Parse} {lexeme : Lexeme} {text : String} (due : state.operand = .due)
      (token : lexeme.token = .number text) :
      Moves state lexeme { state with operand := .complete (.number text lexeme.span) }
  | name {state : Parse} {lexeme : Lexeme} {text : String} (due : state.operand = .due)
      (token : lexeme.token = .name text) :
      Moves state lexeme { state with operand := .name text lexeme.span }
  | opening {state : Parse} {lexeme : Lexeme} (due : state.operand = .due)
      (token : lexeme.token = .opening) :
      Moves state lexeme { state with waiting := .group :: state.waiting }
  | sign {state : Parse} {lexeme : Lexeme} {op : BinaryOp} {sign : Sign}
      (due : state.operand = .due) (token : lexeme.token = .op op) (signs : op.sign? = some sign) :
      Moves state lexeme { state with waiting := .sign sign lexeme.span.start :: state.waiting }
  /-- A call without arguments. -/
  | empty {state : Parse} {lexeme : Lexeme} {name : String} {nameSpan : Span}
      {rest : List Waiting} (due : state.operand = .due) (token : lexeme.token = .closing)
      (waiting : state.waiting = .call name nameSpan [] :: rest) :
      Moves state lexeme { state with
        waiting := rest
        operand := .complete (.call name nameSpan [] (nameSpan.join lexeme.span)) }
  | calling {state : Parse} {lexeme : Lexeme} {text : String} {nameSpan : Span}
      (named : state.operand = .name text nameSpan) (token : lexeme.token = .opening) :
      Moves state lexeme { state with
        waiting := .call text nameSpan [] :: state.waiting
        operand := .due }
  | becomes {state : Parse} {lexeme : Lexeme} {text : String} {nameSpan : Span}
      (named : state.operand = .name text nameSpan) (token : lexeme.token = .becomes)
      (alone : state.waiting = []) (first : state.target = none) :
      Moves state lexeme { state with target := some (text, nameSpan), operand := .due }
  | infixOp {state : Parse} {lexeme : Lexeme} {op : BinaryOp} {e left : Expr}
      {waiting : List Waiting} (operand : state.operand.expr? = some e)
      (token : lexeme.token = .op op)
      (reduced : reduce op.threshold state.waiting e = (waiting, left)) :
      Moves state lexeme { state with waiting := .infixOp op left :: waiting, operand := .due }
  | group {state : Parse} {lexeme : Lexeme} {e inner : Expr} {rest : List Waiting}
      (operand : state.operand.expr? = some e) (token : lexeme.token = .closing)
      (reduced : reduce 0 state.waiting e = (.group :: rest, inner)) :
      Moves state lexeme { state with waiting := rest, operand := .complete inner }
  | call {state : Parse} {lexeme : Lexeme} {e last : Expr} {name : String} {nameSpan : Span}
      {arguments : List Expr} {rest : List Waiting} (operand : state.operand.expr? = some e)
      (token : lexeme.token = .closing)
      (reduced : reduce 0 state.waiting e = (.call name nameSpan arguments :: rest, last)) :
      Moves state lexeme { state with
        waiting := rest
        operand := .complete (.call name nameSpan (arguments.reverse ++ [last])
          (nameSpan.join lexeme.span)) }
  | comma {state : Parse} {lexeme : Lexeme} {e last : Expr} {name : String} {nameSpan : Span}
      {arguments : List Expr} {rest : List Waiting} (operand : state.operand.expr? = some e)
      (token : lexeme.token = .comma)
      (reduced : reduce 0 state.waiting e = (.call name nameSpan arguments :: rest, last)) :
      Moves state lexeme { state with
        waiting := .call name nameSpan (last :: arguments) :: rest
        operand := .due }
  | semicolon {state : Parse} {lexeme : Lexeme} {e whole : Expr}
      (operand : state.operand.expr? = some e) (token : lexeme.token = .semicolon)
      (reduced : reduce 0 state.waiting e = ([], whole)) :
      Moves state lexeme ⟨state.statement whole :: state.finished, none, [], .due⟩

theorem afterOperand_eq_ok {state after : Parse} {lexeme : Lexeme} {e : Expr}
    (operand : state.operand.expr? = some e)
    (stepped : state.afterOperand e lexeme = .ok after) : Moves state lexeme after := by
  unfold afterOperand at stepped
  split at stepped
  · rename_i op token
    cases stepped
    exact .infixOp operand token rfl
  · rename_i token
    split at stepped
    · cases stepped
      exact .group operand token ‹_›
    · cases stepped
      exact .call operand token ‹_›
    · cases stepped
  · rename_i token
    split at stepped
    · cases stepped
      exact .comma operand token ‹_›
    · cases stepped
  · rename_i token
    split at stepped
    · cases stepped
      exact .semicolon operand token ‹_›
    · cases stepped
  · cases stepped

theorem moves_of_step {state after : Parse} {lexeme : Lexeme}
    (stepped : state.step lexeme = .ok after) : Moves state lexeme after := by
  unfold step at stepped
  split at stepped
  · rename_i due
    split at stepped
    · cases stepped
      exact .number due ‹_›
    · cases stepped
      exact .name due ‹_›
    · cases stepped
      exact .opening due ‹_›
    · split at stepped
      · cases stepped
        exact .sign due ‹_› ‹_›
      · cases stepped
    · split at stepped
      · cases stepped
        exact .empty due ‹_› ‹_›
      · cases stepped
    · cases stepped
  · rename_i text nameSpan named
    split at stepped
    · cases stepped
      exact .calling named ‹_›
    · split at stepped
      · rename_i free
        cases stepped
        rw [Bool.and_eq_true, List.isEmpty_iff, Option.isNone_iff_eq_none] at free
        exact .becomes named ‹_› free.1 free.2
      · cases stepped
    · exact afterOperand_eq_ok (by rw [named]; rfl) stepped
  · rename_i e complete
    exact afterOperand_eq_ok (by rw [complete]; rfl) stepped

/-- Operators, closing parentheses, commas and semicolons follow a name like any other operand. -/
theorem step_of_expr? {state : Parse} {lexeme : Lexeme} {e : Expr}
    (operand : state.operand.expr? = some e) (notOpening : lexeme.token ≠ .opening)
    (notBecomes : lexeme.token ≠ .becomes) : state.step lexeme = state.afterOperand e lexeme := by
  cases at_hand : state.operand with
  | due =>
    rw [at_hand] at operand
    cases operand
  | name text nameSpan =>
    rw [at_hand] at operand
    cases operand
    unfold step
    rw [at_hand]
    cases token : lexeme.token with
    | opening => exact absurd token notOpening
    | becomes => exact absurd token notBecomes
    | number text => rfl
    | name text => rfl
    | op op => rfl
    | closing => rfl
    | comma => rfl
    | semicolon => rfl
    | other c => rfl
  | complete e =>
    rw [at_hand] at operand
    cases operand
    unfold step
    rw [at_hand]

/-- **A token is taken exactly as one of the moves says.** -/
theorem step_eq_ok {state after : Parse} {lexeme : Lexeme} :
    state.step lexeme = .ok after ↔ Moves state lexeme after := by
  refine ⟨moves_of_step, fun moves => ?_⟩
  cases moves with
  | number due token => simp only [step, due, token]
  | name due token => simp only [step, due, token]
  | opening due token => simp only [step, due, token]
  | sign due token signs => simp only [step, due, token, signs]
  | empty due token waiting => simp only [step, due, token, waiting]
  | calling named token => simp only [step, named, token]
  | becomes named token alone first =>
    simp only [step, named, token, alone, first, List.isEmpty_nil, Option.isNone_none, Bool.and_self,
      if_true]
  | infixOp operand token reduced =>
    rw [step_of_expr? operand (by rw [token]; nofun) (by rw [token]; nofun)]
    simp only [afterOperand, token, reduced]
  | group operand token reduced =>
    rw [step_of_expr? operand (by rw [token]; nofun) (by rw [token]; nofun)]
    simp only [afterOperand, token, reduced]
  | call operand token reduced =>
    rw [step_of_expr? operand (by rw [token]; nofun) (by rw [token]; nofun)]
    simp only [afterOperand, token, reduced]
  | comma operand token reduced =>
    rw [step_of_expr? operand (by rw [token]; nofun) (by rw [token]; nofun)]
    simp only [afterOperand, token, reduced]
  | semicolon operand token reduced =>
    rw [step_of_expr? operand (by rw [token]; nofun) (by rw [token]; nofun)]
    simp only [afterOperand, token, reduced]

/-! ### Between two statements -/

/-- Nothing of a statement has been read since the last semicolon. -/
structure Resting (state : Parse) : Prop where
  due : state.operand = .due
  waiting : state.waiting = []
  target : state.target = none

/-- Only a semicolon leads to the space between two statements. -/
theorem Moves.resting {state after : Parse} {lexeme : Lexeme} (moves : Moves state lexeme after)
    (resting : after.Resting) : lexeme.token = .semicolon ∧ after.finished ≠ [] := by
  obtain ⟨due, waiting, target⟩ := resting
  cases moves with
  | number => cases due
  | name => cases due
  | opening => cases waiting
  | sign => cases waiting
  | empty => cases due
  | calling => cases waiting
  | becomes => cases target
  | infixOp => cases waiting
  | group => cases due
  | call => cases due
  | comma => cases waiting
  | semicolon operand token reduced => exact ⟨token, List.cons_ne_nil _ _⟩

/-- After some tokens, the parser is between two statements only if the last of them is a
semicolon. -/
theorem resting_of_foldlM {lexemes : List Lexeme} {state after : Parse}
    (walked : lexemes.foldlM step state = .ok after) (some : lexemes ≠ [])
    (resting : after.Resting) :
    (∃ last, lexemes.getLast? = .some last ∧ last.token = .semicolon) ∧ after.finished ≠ [] := by
  rcases List.eq_nil_or_concat lexemes with rfl | ⟨front, last, rfl⟩
  · exact absurd rfl some
  · rw [List.concat_eq_append] at walked ⊢
    rw [List.getLast?_concat]
    obtain ⟨between, -, stepped⟩ := foldlM_append_eq_ok.mp walked
    obtain ⟨_, taken, done⟩ := foldlM_cons_eq_ok.mp stepped
    cases done
    obtain ⟨semicolon, finished⟩ := (step_eq_ok.mp taken).resting resting
    exact ⟨⟨last, rfl, semicolon⟩, finished⟩

/-- A semicolon ends the statement at hand. -/
theorem step_semicolon {state after : Parse} {lexeme : Lexeme}
    (semicolon : lexeme.token = .semicolon) :
    state.step lexeme = .ok after ↔ ∃ e whole, state.operand.expr? = some e ∧
      reduce 0 state.waiting e = ([], whole) ∧
      after = ⟨state.statement whole :: state.finished, none, [], .due⟩ := by
  constructor
  · intro stepped
    cases moves_of_step stepped with
    | semicolon operand token reduced => exact ⟨_, _, operand, reduced, rfl⟩
    | number due token => rw [semicolon] at token; cases token
    | name due token => rw [semicolon] at token; cases token
    | opening due token => rw [semicolon] at token; cases token
    | sign due token => rw [semicolon] at token; cases token
    | empty due token => rw [semicolon] at token; cases token
    | calling named token => rw [semicolon] at token; cases token
    | becomes named token => rw [semicolon] at token; cases token
    | infixOp operand token => rw [semicolon] at token; cases token
    | group operand token => rw [semicolon] at token; cases token
    | call operand token => rw [semicolon] at token; cases token
    | comma operand token => rw [semicolon] at token; cases token
  · rintro ⟨e, whole, operand, reduced, rfl⟩
    exact step_eq_ok.mpr (.semicolon operand semicolon reduced)

/-- The end of a text where the operand `e` is complete. -/
def finishWith (state : Parse) (length : Nat) (e : Expr) : Except ParseError Program :=
  match reduce 0 state.waiting e with
  | ([], e) => .ok (state.statement e :: state.finished).reverse
  | _ => state.refuse length none

/-- A complete operand at the end of a text is taken as before a semicolon. -/
theorem finishWith_eq_ok {state : Parse} {length : Nat} {program : Program} {lexeme : Lexeme}
    {e : Expr} (operand : state.operand.expr? = some e)
    (semicolon : lexeme.token = .semicolon) :
    state.finishWith length e = .ok program ↔
      ∃ after, state.step lexeme = .ok after ∧ program = after.finished.reverse := by
  unfold finishWith
  constructor
  · intro finished
    split at finished
    · rename_i whole reduced
      cases finished
      exact ⟨_, (step_semicolon semicolon).mpr ⟨e, whole, operand, reduced, rfl⟩, rfl⟩
    · cases finished
  · rintro ⟨after, stepped, rfl⟩
    obtain ⟨e', whole, operand', reduced, rfl⟩ := (step_semicolon semicolon).mp stepped
    rw [operand] at operand'
    cases operand'
    rw [reduced]

/-- **The end of a text is taken like a semicolon**, or follows one. -/
theorem finish_eq_ok {state : Parse} {length : Nat} {program : Program} {lexeme : Lexeme}
    (semicolon : lexeme.token = .semicolon) :
    state.finish length = .ok program ↔
      (∃ after, state.step lexeme = .ok after ∧ program = after.finished.reverse) ∨
      (state.Resting ∧ state.finished ≠ [] ∧ program = state.finished.reverse) := by
  have busy {e : Expr} (operand : state.operand.expr? = some e) :
      ¬ (state.Resting ∧ state.finished ≠ [] ∧ program = state.finished.reverse) := by
    rintro ⟨resting, -⟩
    rw [resting.due] at operand
    cases operand
  cases at_hand : state.operand with
  | complete e =>
    have operand : state.operand.expr? = some e := by rw [at_hand]; rfl
    rw [or_iff_left (busy operand), ← finishWith_eq_ok operand semicolon, finish, at_hand]
    rfl
  | name text span =>
    have operand : state.operand.expr? = some (.ident text span) := by rw [at_hand]; rfl
    rw [or_iff_left (busy operand), ← finishWith_eq_ok operand semicolon, finish, at_hand]
    rfl
  | due =>
    have refused : ¬ ∃ after, state.step lexeme = .ok after ∧
        program = after.finished.reverse := by
      rintro ⟨after, stepped, _⟩
      obtain ⟨e, _, operand, _⟩ := (step_semicolon semicolon).mp stepped
      rw [at_hand] at operand
      cases operand
    rw [or_iff_right refused, finish, at_hand]
    simp only
    split
    · rename_i free
      rw [Bool.and_eq_true, Bool.and_eq_true, List.isEmpty_iff, Option.isNone_iff_eq_none,
        Bool.not_eq_true', List.isEmpty_eq_false_iff] at free
      obtain ⟨⟨waiting, target⟩, finished⟩ := free
      constructor
      · rintro ⟨⟩
        exact ⟨⟨at_hand, waiting, target⟩, finished, rfl⟩
      · rintro ⟨_, _, rfl⟩
        rfl
    · rename_i notFree
      constructor
      · rintro ⟨⟩
      · rintro ⟨⟨_, waiting, target⟩, finished, _⟩
        refine absurd ?_ notFree
        rw [waiting, target, List.isEmpty_eq_false_iff.mpr finished]
        rfl

end Parse

end Reckoner
