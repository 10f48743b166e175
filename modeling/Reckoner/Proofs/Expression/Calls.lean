/-
Calls read on their own.

Between the name of a call and its closing parenthesis, the parser never touches what waited in front
of the name. So it takes the tokens of the call in the same way where nothing stands in front of them.

* `Parse.reduce_exchange` — operators that take an operand do so whatever waits behind those that go
  on waiting.
* `Parse.opens_call` — **the tokens since the name of an open call lead to what waits since then**, by
  induction on the tokens, one case for each of the moves.
* `parseWithin_alone` — **the text of a call is a program**, with the same tree at places from its own
  start on.
-/

import Mathlib.Data.List.Induction
import Reckoner.Proofs.Expression.Acceptance
import Reckoner.Proofs.Expression.Cuts

namespace Reckoner

namespace Parse

/-! ### What waits since some token -/

/-- The operators that take an operand do so whatever waits behind them. -/
theorem exists_reduced (threshold : Nat) (waiting : List Waiting) (e : Expr) :
    ∃ taken, waiting = taken ++ (reduce threshold waiting e).1 ∧ ∀ others,
      reduce threshold (taken ++ others) e =
        reduce threshold others (reduce threshold waiting e).2 := by
  induction waiting generalizing e with
  | nil => exact ⟨[], rfl, fun _ => rfl⟩
  | cons wait rest ih =>
    cases wait with
    | sign sign start =>
      by_cases weak : threshold ≤ Sign.strength
      · obtain ⟨taken, split, others⟩ := ih (.unary sign e ⟨start, e.span.stop⟩)
        have here (waiting : List Waiting) : reduce threshold (.sign sign start :: waiting) e =
            reduce threshold waiting (.unary sign e ⟨start, e.span.stop⟩) := by
          rw [reduce, if_pos weak]
        refine ⟨.sign sign start :: taken, ?_, fun waiting => ?_⟩
        · rw [here, List.cons_append, ← split]
        · rw [List.cons_append, here, here, others]
      · rw [reduce, if_neg weak]
        exact ⟨[], rfl, fun _ => rfl⟩
    | infixOp op left =>
      by_cases weak : threshold ≤ op.strength
      · obtain ⟨taken, split, others⟩ := ih (.binary op left e (left.span.join e.span))
        have here (waiting : List Waiting) : reduce threshold (.infixOp op left :: waiting) e =
            reduce threshold waiting (.binary op left e (left.span.join e.span)) := by
          rw [reduce, if_pos weak]
        refine ⟨.infixOp op left :: taken, ?_, fun waiting => ?_⟩
        · rw [here, List.cons_append, ← split]
        · rw [List.cons_append, here, here, others]
      · rw [reduce, if_neg weak]
        exact ⟨[], rfl, fun _ => rfl⟩
    | group => exact ⟨[], rfl, fun _ => rfl⟩
    | call name nameSpan arguments => exact ⟨[], rfl, fun _ => rfl⟩

/-- What blocks an operator is what waits last. -/
theorem Blocks.exchange {threshold : Nat} {wait : Waiting} {rest : List Waiting}
    (blocks : Blocks threshold (wait :: rest)) (others : List Waiting) :
    Blocks threshold (wait :: others) := by
  cases wait <;> exact blocks

/-- **Operators that take an operand do so whatever waits behind those that go on waiting.** -/
theorem reduce_exchange {threshold : Nat} {waiting outer : List Waiting} {wait : Waiting}
    {e whole : Expr} (inner : List Waiting)
    (reduced : reduce threshold waiting e = (inner ++ wait :: outer, whole)) :
    ∃ taken, waiting = taken ++ inner ++ wait :: outer ∧
      reduce threshold (taken ++ inner ++ [wait]) e = (inner ++ [wait], whole) := by
  obtain ⟨taken, split, others⟩ := exists_reduced threshold waiting e
  have blocks := blocks_reduce threshold waiting e
  rw [reduced] at split others blocks
  refine ⟨taken, by rw [split, List.append_assoc], ?_⟩
  have kept : Blocks threshold (inner ++ [wait]) := by
    cases inner with
    | nil => exact blocks.exchange []
    | cons first inner => exact blocks.exchange _
  rw [List.append_assoc, others, kept.reduce_eq]

/-- Whether the last of some tokens, from a name on, lead to a state on their own. -/
def Opens (tokens : List Lexeme) (name : String) (nameSpan : Span) (state : Parse) : Prop :=
  ∃ front lexeme own, tokens = front ++ lexeme :: own ∧ lexeme.token = .name name ∧
    lexeme.span = nameSpan ∧ (lexeme :: own).foldlM step start = .ok state

section Opens

variable {tokens : List Lexeme} {name : String} {nameSpan : Span} {state after : Parse}
  {lexeme : Lexeme}

theorem Opens.moves (opens : Opens tokens name nameSpan state) (moves : Moves state lexeme after) :
    Opens (tokens ++ [lexeme]) name nameSpan after := by
  obtain ⟨front, first, own, rfl, token, place, walked⟩ := opens
  refine ⟨front, first, own ++ [lexeme], by simp, token, place, ?_⟩
  rw [← List.cons_append, foldlM_append_eq_ok]
  exact ⟨state, walked, foldlM_cons_eq_ok.mpr ⟨after, step_eq_ok.mpr moves, rfl⟩⟩

/-- A name at hand is the last token. -/
theorem opens_name (walked : tokens.foldlM step start = .ok state)
    (named : state.operand = .name name nameSpan) :
    Opens tokens name nameSpan ⟨[], none, [], .name name nameSpan⟩ := by
  rcases List.eq_nil_or_concat tokens with rfl | ⟨front, last, rfl⟩
  · cases walked
    cases named
  · rw [List.concat_eq_append] at walked ⊢
    obtain ⟨between, -, walked⟩ := foldlM_append_eq_ok.mp walked
    obtain ⟨_, stepped, ⟨⟩⟩ := foldlM_cons_eq_ok.mp walked
    cases step_eq_ok.mp stepped with
    | name due token =>
      cases named
      refine ⟨front, last, [], rfl, token, rfl, ?_⟩
      exact foldlM_cons_eq_ok.mpr ⟨_, step_eq_ok.mpr (.name rfl token), rfl⟩
    | opening due token => cases due.symm.trans named
    | sign due token signs => cases due.symm.trans named
    | number | empty | calling | becomes | infixOp | group | call | comma | semicolon =>
      cases named

/-- **The tokens since the name of an open call lead to what waits since then**, whatever stands in
front of the name. -/
theorem opens_call {inner outer : List Waiting} {arguments : List Expr}
    (walked : tokens.foldlM step start = .ok state)
    (waiting : state.waiting = inner ++ .call name nameSpan arguments :: outer) :
    Opens tokens name nameSpan
      ⟨[], none, inner ++ [.call name nameSpan arguments], state.operand⟩ := by
  induction tokens using List.reverseRecOn generalizing state inner outer arguments with
  | nil =>
    cases walked
    cases inner <;> cases waiting
  | append_singleton tokens lexeme ih =>
    obtain ⟨before, earlier, last⟩ := foldlM_append_eq_ok.mp walked
    obtain ⟨_, stepped, ⟨⟩⟩ := foldlM_cons_eq_ok.mp last
    cases step_eq_ok.mp stepped with
    | number due token => exact (ih earlier waiting).moves (.number due token)
    | name due token => exact (ih earlier waiting).moves (.name due token)
    | opening due token =>
      cases inner with
      | nil => cases waiting
      | cons wait inner =>
        obtain ⟨rfl, behind⟩ := List.cons.inj waiting
        exact (ih earlier behind).moves (.opening due token)
    | sign due token signs =>
      cases inner with
      | nil => cases waiting
      | cons wait inner =>
        obtain ⟨rfl, behind⟩ := List.cons.inj waiting
        exact (ih earlier behind).moves (.sign due token signs)
    | @empty callee calleeSpan rest due token called =>
      subst waiting
      rw [← List.cons_append] at called
      exact (ih earlier called).moves (.empty due token rfl)
    | calling named token =>
      cases inner with
      | nil =>
        cases waiting
        exact (opens_name earlier named).moves (.calling rfl token)
      | cons wait inner =>
        obtain ⟨rfl, behind⟩ := List.cons.inj waiting
        exact (ih earlier behind).moves (.calling named token)
    | becomes named token alone first =>
      change before.waiting = _ at waiting
      rw [alone] at waiting
      cases inner <;> cases waiting
    | infixOp operand token reduced =>
      cases inner with
      | nil => cases waiting
      | cons wait inner =>
        obtain ⟨rfl, rfl⟩ := List.cons.inj waiting
        obtain ⟨taken, split, exchanged⟩ := reduce_exchange inner reduced
        exact (ih earlier split).moves (.infixOp operand token exchanged)
    | group operand token reduced =>
      subst waiting
      obtain ⟨taken, split, exchanged⟩ := reduce_exchange (.group :: inner) reduced
      exact (ih earlier split).moves (.group operand token exchanged)
    | @call e last callee calleeSpan given rest operand token reduced =>
      subst waiting
      obtain ⟨taken, split, exchanged⟩ :=
        reduce_exchange (.call callee calleeSpan given :: inner) reduced
      exact (ih earlier split).moves (.call operand token exchanged)
    | @comma e last callee calleeSpan given rest operand token reduced =>
      cases inner with
      | nil =>
        cases waiting
        obtain ⟨taken, split, exchanged⟩ := reduce_exchange [] reduced
        exact (ih earlier split).moves (.comma operand token exchanged)
      | cons wait inner =>
        obtain ⟨rfl, rfl⟩ := List.cons.inj waiting
        obtain ⟨taken, split, exchanged⟩ :=
          reduce_exchange (.call callee calleeSpan given :: inner) reduced
        exact (ih earlier split).moves (.comma operand token exchanged)
    | semicolon operand token reduced => cases inner <;> cases waiting

/-- Whether a tree is what some tokens in a row, up to a closing parenthesis, are read as on their
own. -/
def Alone (tokens : List Lexeme) (e : Expr) : Prop :=
  ∃ front first own closing back, tokens = front ++ first :: (own ++ closing :: back) ∧
    closing.token = .closing ∧ e.span = first.span.join closing.span ∧
    (first :: (own ++ [closing])).foldlM step start = .ok ⟨[], none, [], .complete e⟩

theorem Alone.append {e : Expr} (alone : Alone tokens e) (more : List Lexeme) :
    Alone (tokens ++ more) e := by
  obtain ⟨front, first, own, closing, back, rfl, rest⟩ := alone
  exact ⟨front, first, own, closing, back ++ more, by simp, rest⟩

/-- The parenthesis that closes a call is the last of its tokens. -/
theorem Opens.close {e : Expr} (opens : Opens tokens name nameSpan state)
    (token : lexeme.token = .closing) (place : e.span = nameSpan.join lexeme.span)
    (moves : Moves state lexeme ⟨[], none, [], .complete e⟩) : Alone (tokens ++ [lexeme]) e := by
  obtain ⟨front, first, own, rfl, -, rfl, walked⟩ := opens
  refine ⟨front, first, own, lexeme, [], by simp, token, place, ?_⟩
  rw [← List.cons_append, foldlM_append_eq_ok]
  exact ⟨state, walked, foldlM_cons_eq_ok.mpr ⟨_, step_eq_ok.mpr moves, rfl⟩⟩

end Opens

end Parse

/-! ### Texts of calls -/

/-- The text of tokens in a row, up to a closing parenthesis. -/
theorem exists_part {text : List Char} {front own back : List Lexeme} {first closing : Lexeme}
    (lexed : lex text = front ++ first :: (own ++ closing :: back))
    (token : closing.token = .closing) :
    ∃ word, (first.span.join closing.span).Selects text word ∧
      lexFrom 0 first.span.start word = first :: (own ++ [closing]) := by
  obtain ⟨before, c, rest, rfl, -, visible, -, here⟩ := exists_of_lexFrom_eq_append lexed
  have start : first.span.start = Text.byteLength before := by
    rw [lexFrom_token visible, List.cons.injEq] at here
    rw [← here.1, Nat.zero_add]
  rw [Nat.zero_add, ← start, ← List.cons_append] at here
  obtain ⟨inside, d, after, split, -, visible', tokens, last⟩ := exists_of_lexFrom_eq_append here
  -- A closing parenthesis is a character that separates, and a token wherever it stands.
  rw [lexFrom_token visible', List.cons.injEq] at last
  obtain ⟨rfl, -⟩ := last
  have single : (Token.longest d after).1.char? = some ')' := congrArg Token.char? token
  obtain ⟨rfl, extent⟩ := Token.eq_of_longest single
  have alone : Token.longest ')' [] = (.closing, 0) :=
    Token.longest_single (by decide) (by decide) (by decide) (by decide) []
  refine ⟨inside ++ [')'], ⟨before, after, ?_, start.symm, ?_⟩, ?_⟩
  · rw [split]
    simp
  · rw [byteLength_append, byteLength_append, ← start, extent]
    show _ + (_ + (_ + 0)) = _ + _ + _ + 0
    omega
  · rw [lexFrom_append (by decide) inside [] (Nat.zero_le _), tokens,
      lexFrom_token (by decide), alone]
    simp only [extent]
    rfl

/-- **The text of tokens that are read on their own is a program**, with the same tree at places from
its own start on. -/
theorem parseWithin_alone {limit : Nat} {source : String} {e : Expr}
    (shallow : checkNesting limit source.toList = .ok ())
    (alone : Parse.Alone (lex source.toList) e) :
    ∃ word own, e.span.Selects source.toList word ∧
      parseWithin limit (String.ofList word) = .ok [.expr own] ∧
      own.mapPlaces (· + e.span.start) = e := by
  obtain ⟨front, first, inner, closing, back, lexed, token, place, walked⟩ := alone
  obtain ⟨word, selects, tokens⟩ := exists_part lexed token
  have start : e.span.start = first.span.start := by
    rw [place]
    rfl
  have nested : checkNesting limit word = .ok () := by
    obtain ⟨before, after, split, -⟩ := selects
    rw [split] at shallow
    exact checkNesting_part shallow
  -- The tokens of the part are those of the whole text, but for their places.
  have moved := Parse.foldlM_moved (· + e.span.start) [] (lex word) Parse.start
  rw [lex, ← lexFrom_shift, Nat.zero_add, start, tokens, ← start] at moved
  obtain ⟨state, own, same⟩ := Option.map_eq_some_iff.mp
    (moved.symm.trans (congrArg Except.toOption walked))
  rw [toOption_eq_some] at own
  obtain ⟨finished, target, waiting, operand⟩ := state
  simp only [Parse.moved, Parse.mk.injEq, List.append_nil, List.map_eq_nil_iff,
    Option.map_eq_none_iff] at same
  obtain ⟨rfl, rfl, rfl, placed⟩ := same
  cases operand with
  | due => cases placed
  | name text span => cases placed
  | complete tree =>
    refine ⟨word, tree, place ▸ selects, ?_, Operand.complete.inj placed⟩
    rw [parseWithin_eq_ok, String.toList_ofList]
    exact ⟨nested, _, own, rfl⟩

end Reckoner
