/-
The tokens of a text as a relation.

* `Token.Symbol` — the tokens that are spelled by fixed characters.
* `Spelled` — a text is a row of tokens with blanks around them, and every number and every name
  is the longest one that starts where it does.
* `tokens` — the tokens that the lexer finds, without their places.
* `spelled_iff` — **a text is spelled by the tokens that the lexer finds**, and by no others, unless
  a character of it belongs to no token.
-/

import Reckoner.Proofs.Expression.Spelling

namespace Reckoner

/-! ### The relation -/

/-- The tokens that are spelled by fixed characters. -/
inductive Token.Symbol : List Char → Token → Prop where
  | op (op : BinaryOp) : Symbol [op.char] (.op op)
  | opening : Symbol ['('] .opening
  | closing : Symbol [')'] .closing
  | comma : Symbol [','] .comma
  | semicolon : Symbol [';'] .semicolon
  | becomes : Symbol [':', '='] .becomes

/-- A text spells a row of tokens. Blanks may stand between them, and numbers and names go on as
long as they can. -/
inductive Spelled : List Char → List Token → Prop where
  | nil : Spelled [] []
  | space {c : Char} {rest : List Char} {tokens : List Token} (space : isSpace c)
      (spelled : Spelled rest tokens) : Spelled (c :: rest) tokens
  | number {word rest : List Char} {tokens : List Token}
      (longest : LongestWord IsNumber word rest) (spelled : Spelled rest tokens) :
      Spelled (word ++ rest) (.number (String.ofList word) :: tokens)
  | name {word rest : List Char} {tokens : List Token}
      (longest : LongestWord IsName word rest) (spelled : Spelled rest tokens) :
      Spelled (word ++ rest) (.name (String.ofList word) :: tokens)
  | symbol {word rest : List Char} {token : Token} {tokens : List Token}
      (symbol : token.Symbol word) (spelled : Spelled rest tokens) :
      Spelled (word ++ rest) (token :: tokens)

/-- Whether a token is a character that starts no token. -/
def Token.isOther : Token → Bool
  | other _ => true
  | _ => false

/-! ### The tokens that the lexer finds -/

/-- The tokens of a text, without their places. -/
def tokens (text : List Char) : List Token := (lex text).map Lexeme.token

theorem tokens_nil : tokens [] = [] := rfl

/-- Tokens do not depend on where a text starts, and characters that belong to a token already found
are passed over. -/
theorem map_token_lexFrom (skipped offset : Nat) (text : List Char) :
    (lexFrom skipped offset text).map Lexeme.token = tokens (text.drop skipped) := by
  have later (offset : Nat) (text : List Char) :
      (lexFrom 0 offset text).map Lexeme.token = tokens text := by
    rw [← Nat.zero_add offset, lexFrom_shift, List.map_map]
    rfl
  induction text generalizing skipped offset with
  | nil => cases skipped <;> rfl
  | cons c rest ih =>
    cases skipped with
    | zero => exact later offset _
    | succ skipped =>
      rw [lexFrom, List.drop_succ_cons]
      exact ih skipped _

theorem tokens_space {c : Char} (space : isSpace c) (rest : List Char) :
    tokens (c :: rest) = tokens rest := by
  rw [tokens, lex, lexFrom_space space, map_token_lexFrom, List.drop_zero]

theorem tokens_cons {c : Char} (visible : isSpace c = false) (rest : List Char) :
    tokens (c :: rest) =
      (Token.longest c rest).1 :: tokens (rest.drop (Token.longest c rest).2) := by
  rw [tokens, lex, lexFrom_token visible, List.map_cons, map_token_lexFrom]

/-! ### The longest token -/

/-- A character of a class without white space is no white space. -/
theorem isSpace_eq_false {kind : Char → Bool} {c : Char} (member : kind c)
    (spaces : [' ', '\t', '\r', '\n'].any kind = false) : isSpace c = false := by
  rw [Bool.eq_false_iff]
  intro space
  have listed : c ∈ [' ', '\t', '\r', '\n'] := by simpa [isSpace, or_assoc] using space
  exact Bool.eq_false_iff.mp spaces (List.any_eq_true.mpr ⟨c, listed, member⟩)

/-- The longest number of a text is its first token. -/
theorem tokens_number {word rest : List Char} (longest : LongestWord IsNumber word rest) :
    tokens (word ++ rest) = .number (String.ofList word) :: tokens rest := by
  have some := numberLength_measures.pos_of_longest longest
  have length := numberLength_measures.eq_of_longest longest
  have number := longest.isWord
  cases word with
  | nil => exact absurd rfl number.ne_nil
  | cons c word =>
    have visible : isSpace c = false := by
      rcases number.head with digit | rfl
      · exact isSpace_eq_false digit rfl
      · rfl
    have first : Token.longest c (word ++ rest) =
        (.number (String.ofList (c :: word)), word.length) := by
      rw [List.cons_append] at some length
      rcases Token.longest_cases c (word ++ rest) with ⟨_, found⟩ | ⟨none, _⟩ | ⟨none, _⟩ |
          ⟨none, _⟩
      · rw [found, length, ← List.cons_append, List.take_left]
        rfl
      all_goals exact absurd none some
    rw [List.cons_append, tokens_cons visible, first, List.drop_left]

/-- The longest name of a text is its first token. -/
theorem tokens_name {word rest : List Char} (longest : LongestWord IsName word rest) :
    tokens (word ++ rest) = .name (String.ofList word) :: tokens rest := by
  have some := nameLength_measures.pos_of_longest longest
  have length := nameLength_measures.eq_of_longest longest
  have name := longest.isWord
  cases word with
  | nil => exact name.elim
  | cons c word =>
    have visible : isSpace c = false := isSpace_eq_false name.1 rfl
    have noNumber : numberLength (c :: (word ++ rest)) = 0 := numberLength_of_nameStart name.1 _
    have first : Token.longest c (word ++ rest) =
        (.name (String.ofList (c :: word)), word.length) := by
      rw [List.cons_append] at some length
      rcases Token.longest_cases c (word ++ rest) with ⟨number, _⟩ | ⟨_, _, found⟩ |
          ⟨_, none, _⟩ | ⟨_, none, _⟩
      · exact absurd noNumber number
      · rw [found, length, ← List.cons_append, List.take_left]
        rfl
      all_goals exact absurd none some
    rw [List.cons_append, tokens_cons visible, first, List.drop_left]

/-- A character that is a token of its own is the first token of a text. -/
theorem tokens_single {c : Char} (visible : isSpace c = false) (notNumber : isDigit c = false)
    (notPoint : c ≠ '.') (notName : isNameStart c = false) (notColon : c ≠ ':')
    (rest : List Char) : tokens (c :: rest) = .ofChar c :: tokens rest := by
  rw [tokens_cons visible, Token.longest_single notNumber notPoint notName notColon,
    List.drop_zero]

/-- The fixed characters of a token at the start of a text are its first token. -/
theorem tokens_symbol {word : List Char} {token : Token} (symbol : token.Symbol word)
    (rest : List Char) : tokens (word ++ rest) = token :: tokens rest := by
  cases symbol with
  | op op =>
    cases op <;>
      exact tokens_single (by decide) (by decide) (by decide) (by decide) (by decide) rest
  | opening => exact tokens_single (by decide) (by decide) (by decide) (by decide) (by decide) rest
  | closing => exact tokens_single (by decide) (by decide) (by decide) (by decide) (by decide) rest
  | comma => exact tokens_single (by decide) (by decide) (by decide) (by decide) (by decide) rest
  | semicolon =>
    exact tokens_single (by decide) (by decide) (by decide) (by decide) (by decide) rest
  | becomes =>
    have number : numberLength (':' :: '=' :: rest) = 0 :=
      numberLength_eq_zero (by decide) (by decide) _
    have name : nameLength (':' :: '=' :: rest) = 0 := rfl
    have first : Token.longest ':' ('=' :: rest) = (.becomes, 1) := by
      simp [Token.longest, number, name]
    show tokens (':' :: '=' :: rest) = _
    rw [tokens_cons (by decide), first]
    rfl

/-- A single character is an operator, a parenthesis, a comma or a semicolon, or starts no token. -/
theorem Token.symbol_ofChar {c : Char} (known : (Token.ofChar c).isOther = false) :
    (Token.ofChar c).Symbol [c] := by
  unfold Token.ofChar at known ⊢
  split
  · exact .op .add
  · exact .op .sub
  · exact .op .mul
  · exact .op .div
  · exact .op .rem
  · exact .op .pow
  · exact .opening
  · exact .closing
  · exact .comma
  · exact .semicolon
  · exact absurd known (by simp [Token.isOther])

/-! ### Both ways -/

theorem tokens_of_spelled {text : List Char} {found : List Token} (spelled : Spelled text found) :
    tokens text = found := by
  induction spelled with
  | nil => exact tokens_nil
  | space space _ ih => rw [tokens_space space, ih]
  | number longest _ ih => rw [tokens_number longest, ih]
  | name longest _ ih => rw [tokens_name longest, ih]
  | symbol symbol _ ih => rw [tokens_symbol symbol, ih]

theorem isOther_of_spelled {text : List Char} {found : List Token}
    (spelled : Spelled text found) : ∀ token ∈ found, token.isOther = false := by
  induction spelled with
  | nil => nofun
  | space _ _ ih => exact ih
  | number _ _ ih => exact List.forall_mem_cons.mpr ⟨rfl, ih⟩
  | name _ _ ih => exact List.forall_mem_cons.mpr ⟨rfl, ih⟩
  | symbol symbol _ ih =>
    refine List.forall_mem_cons.mpr ⟨?_, ih⟩
    cases symbol <;> rfl

theorem drop_pred {c : Char} {rest : List Char} {n : Nat} (some : n ≠ 0) :
    rest.drop (n - 1) = (c :: rest).drop n := by
  rw [← List.drop_succ_cons (a := c), Nat.sub_add_cancel (Nat.pos_of_ne_zero some)]

theorem take_append_drop_pred {c : Char} {rest : List Char} {n : Nat} (some : n ≠ 0) :
    (c :: rest).take n ++ rest.drop (n - 1) = c :: rest := by
  rw [drop_pred some, List.take_append_drop]

/-- The lexer's tokens spell the text. -/
theorem spelled_tokens {text : List Char} (known : ∀ token ∈ tokens text, token.isOther = false) :
    Spelled text (tokens text) := by
  -- By induction on the length, for a token takes several characters away at once.
  generalize size : text.length = n
  induction n using Nat.strongRecOn generalizing text with
  | ind n ih =>
    cases text with
    | nil => exact .nil
    | cons c rest =>
      rw [List.length_cons] at size
      have shorter (extent : Nat) (known : ∀ token ∈ tokens (rest.drop extent),
          token.isOther = false) : Spelled (rest.drop extent) (tokens (rest.drop extent)) := by
        have length := List.length_drop (i := extent) (l := rest)
        exact ih (rest.drop extent).length (by omega) known rfl
      cases visible : isSpace c with
      | true =>
        rw [tokens_space visible] at known ⊢
        exact .space visible (shorter 0 known)
      | false =>
        rw [tokens_cons visible] at known ⊢
        obtain ⟨knownFirst, knownRest⟩ := List.forall_mem_cons.mp known
        have spelled := shorter _ knownRest
        rcases Token.longest_cases c rest with ⟨some, first⟩ | ⟨_, some, first⟩ |
            ⟨_, _, rfl, equals, first⟩ | ⟨_, _, _, first⟩
        · rw [first] at spelled ⊢
          have longest := numberLength_measures.longest_take some
          rw [← drop_pred some] at longest
          have result := Spelled.number longest spelled
          rw [take_append_drop_pred some] at result
          exact result
        · rw [first] at spelled ⊢
          have longest := nameLength_measures.longest_take some
          rw [← drop_pred some] at longest
          have result := Spelled.name longest spelled
          rw [take_append_drop_pred some] at result
          exact result
        · cases rest with
          | nil => cases equals
          | cons next after =>
            cases equals
            rw [first] at spelled ⊢
            exact .symbol .becomes spelled
        · rw [first] at knownFirst spelled ⊢
          exact .symbol (Token.symbol_ofChar knownFirst) spelled

/-- **A text is spelled by the tokens that the lexer finds**, and by no others, unless a character of
it belongs to no token. -/
theorem spelled_iff {text : List Char} {found : List Token} :
    Spelled text found ↔ tokens text = found ∧ ∀ token ∈ found, token.isOther = false := by
  constructor
  · intro spelled
    exact ⟨tokens_of_spelled spelled, isOther_of_spelled spelled⟩
  · rintro ⟨rfl, known⟩
    exact spelled_tokens known

end Reckoner
