/-
Texts cut in front of a token.

* `Measures.length_eq_of_append` — a longest word that ends inside of a text ends there, whatever
  follows the text.
* `exists_of_lexFrom_eq_append` — **a text whose tokens are cut in two is cut in two with them**: the
  tokens in front are those of the characters in front.
* `Text.IsBoundary`, `Span.Selects` — the places between two characters, and the characters between
  two of them.
* `selects_of_mem_lex` — **the span of a token selects its characters**, which are the text of a
  number or a name.
-/

import Reckoner.Proofs.Expression.Spelling

namespace Reckoner

/-! ### Words that end inside of a text -/

section Measures

variable {length : List Char → Nat} {IsWord : List Char → Prop} (measures : Measures length IsWord)

include measures

/-- What follows a text can only make its longest word longer. -/
theorem Measures.length_le_append (text after : List Char) :
    length text ≤ length (text ++ after) := by
  by_cases none : length text = 0
  · omega
  · have reached := measures.reached _ (text.drop (length text) ++ after) (measures.taken text none)
    rw [← List.append_assoc, List.take_append_drop, List.length_take,
      Nat.min_eq_left (measures.within text)] at reached
    exact reached

/-- A longest word that ends inside of a text ends there, whatever follows the text. -/
theorem Measures.length_eq_of_append {text after : List Char}
    (within : length (text ++ after) ≤ text.length) : length text = length (text ++ after) := by
  refine Nat.le_antisymm (measures.length_le_append text after) ?_
  by_cases none : length (text ++ after) = 0
  · omega
  · have word := measures.taken _ none
    rw [List.take_append_of_le_length within] at word
    have reached := measures.reached _ (text.drop (length (text ++ after))) word
    rw [List.take_append_drop, List.length_take, Nat.min_eq_left within] at reached
    exact reached

end Measures

/-- **A token that ends inside of a text ends there**, whatever follows the text. -/
theorem Token.longest_of_append {c : Char} {before after : List Char}
    (within : (Token.longest c (before ++ after)).2 ≤ before.length) :
    Token.longest c before = Token.longest c (before ++ after) := by
  have number := numberLength_measures.length_le_append (c :: before) after
  have name := nameLength_measures.length_le_append (c :: before) after
  rw [List.cons_append] at number name
  have take (n : Nat) (inside : n ≤ (c :: before).length) :
      (c :: before).take n = (c :: (before ++ after)).take n :=
    (List.take_append_of_le_length inside).symm
  rcases Token.longest_cases c (before ++ after) with ⟨some, longest⟩ | ⟨none, some, longest⟩ |
      ⟨none, none', colon, equals, longest⟩ | ⟨none, none', other, longest⟩
  · rw [longest] at within
    have inside : numberLength (c :: (before ++ after)) ≤ before.length + 1 :=
      Nat.sub_le_iff_le_add.mp within
    have same : numberLength (c :: before) = numberLength (c :: (before ++ after)) :=
      numberLength_measures.length_eq_of_append inside
    rw [longest]
    simp [Token.longest, same, some, take _ inside]
  · rw [longest] at within
    have inside : nameLength (c :: (before ++ after)) ≤ before.length + 1 :=
      Nat.sub_le_iff_le_add.mp within
    have same : nameLength (c :: before) = nameLength (c :: (before ++ after)) :=
      nameLength_measures.length_eq_of_append inside
    have still : numberLength (c :: before) = 0 := by omega
    rw [longest]
    simp [Token.longest, still, same, some, take _ inside]
  · rw [longest] at within
    have still : numberLength (c :: before) = 0 ∧ nameLength (c :: before) = 0 := by omega
    cases before with
    | nil => exact absurd within (by decide)
    | cons next before =>
      obtain rfl : next = '=' := Option.some.inj equals
      subst colon
      rw [longest]
      simp [Token.longest, still]
  · have still : numberLength (c :: before) = 0 ∧ nameLength (c :: before) = 0 := by omega
    have other : ¬(c = ':' ∧ before.head? = some '=') := by
      rintro ⟨colon, equals⟩
      refine other ⟨colon, ?_⟩
      rw [List.head?_append, equals]
      rfl
    rw [longest]
    simp [Token.longest, still, other]

/-! ### Texts cut in two -/

theorem byteLength_append (first second : List Char) :
    Text.byteLength (first ++ second) = Text.byteLength first + Text.byteLength second := by
  induction first with
  | nil => exact (Nat.zero_add _).symm
  | cons c rest ih => rw [List.cons_append, byteLength_cons, byteLength_cons, ih, Nat.add_assoc]

/-- **A text whose tokens are cut in two is cut in two with them.** -/
theorem exists_of_lexFrom_eq_append {text : List Char} {skipped offset : Nat}
    {front back : List Lexeme} {lexeme : Lexeme}
    (lexed : lexFrom skipped offset text = front ++ lexeme :: back) :
    ∃ before c rest, text = before ++ c :: rest ∧ skipped ≤ before.length ∧ isSpace c = false ∧
      lexFrom skipped offset before = front ∧
      lexFrom 0 (offset + Text.byteLength before) (c :: rest) = lexeme :: back := by
  induction text generalizing skipped offset front with
  | nil => cases front <;> cases lexed
  | cons c rest ih =>
    have size (before : List Char) : offset + Text.byteLength (c :: before) =
        offset + c.utf8Size + Text.byteLength before := by
      rw [byteLength_cons, Nat.add_assoc]
    cases skipped with
    | succ skipped =>
      rw [lexFrom] at lexed
      obtain ⟨before, d, after, rfl, inside, visible, first, second⟩ := ih lexed
      refine ⟨c :: before, d, after, rfl, Nat.succ_le_succ inside, visible, ?_, ?_⟩
      · rw [lexFrom, first]
      · rw [size, second]
    | zero =>
      cases space : isSpace c with
      | true =>
        rw [lexFrom_space space] at lexed
        obtain ⟨before, d, after, rfl, -, visible, first, second⟩ := ih lexed
        refine ⟨c :: before, d, after, rfl, Nat.zero_le _, visible, ?_, ?_⟩
        · rw [lexFrom_space space, first]
        · rw [size, second]
      | false =>
        cases front with
        | nil => exact ⟨[], c, rest, rfl, Nat.le_refl _, space, rfl, lexed⟩
        | cons head front =>
          rw [lexFrom_token space, List.cons_append, List.cons.injEq] at lexed
          obtain ⟨rfl, lexed⟩ := lexed
          -- The first token ends in front of the cut, so it is one of the text in front of it.
          obtain ⟨before, d, after, rfl, inside, visible, first, second⟩ := ih lexed
          refine ⟨c :: before, d, after, rfl, Nat.zero_le _, visible, ?_, ?_⟩
          · rw [lexFrom_token space, Token.longest_of_append inside, first,
              List.take_append_of_le_length inside]
          · rw [size, second]

/-! ### Places of a text -/

/-- Whether a byte offset of a text is between two of its characters, or at one of its ends. -/
def Text.IsBoundary (text : List Char) (offset : Nat) : Prop :=
  ∃ before after, text = before ++ after ∧ Text.byteLength before = offset

/-- Whether some characters are those between the two ends of a span of a text. -/
def Span.Selects (text word : List Char) (span : Span) : Prop :=
  ∃ before after, text = before ++ word ++ after ∧ Text.byteLength before = span.start ∧
    Text.byteLength (before ++ word) = span.stop

section Selects

variable {text word : List Char} {span : Span}

theorem Span.Selects.start (selects : span.Selects text word) :
    Text.IsBoundary text span.start := by
  obtain ⟨before, after, split, start, -⟩ := selects
  exact ⟨before, word ++ after, by rw [split, List.append_assoc], start⟩

theorem Span.Selects.stop (selects : span.Selects text word) : Text.IsBoundary text span.stop := by
  obtain ⟨before, after, split, -, stop⟩ := selects
  exact ⟨before ++ word, after, split, stop⟩

theorem eq_nil_of_byteLength {text : List Char} (none : Text.byteLength text = 0) : text = [] := by
  cases text with
  | nil => rfl
  | cons c rest =>
    have wide : 0 < c.utf8Size := Char.utf8Size_pos c
    rw [byteLength_cons] at none
    omega

/-- A span between two boundaries of a text selects some of its characters. -/
theorem Span.exists_selects (start : Text.IsBoundary text span.start)
    (stop : Text.IsBoundary text span.stop) (le : span.start ≤ span.stop) :
    ∃ word, span.Selects text word := by
  obtain ⟨first, rest, rfl, start⟩ := start
  obtain ⟨second, after, split, stop⟩ := stop
  rcases List.append_eq_append_iff.mp split with ⟨word, rfl, rfl⟩ | ⟨word, rfl, rfl⟩
  · exact ⟨word, first, after, (List.append_assoc _ _ _).symm, start, stop⟩
  · rw [byteLength_append] at start
    have none : word = [] := eq_nil_of_byteLength (by omega)
    subst none
    refine ⟨[], second, rest, by simp, ?_, by rw [List.append_nil, stop]⟩
    rw [← start]
    rfl

end Selects

/-- The text of a number or a name. -/
def Token.text? : Token → Option String
  | number text => some text
  | name text => some text
  | _ => none

/-- A number or a name has the characters that it takes up. -/
theorem Token.text?_longest {c : Char} {rest : List Char} {word : String}
    (worded : (Token.longest c rest).1.text? = some word) :
    word.toList = c :: rest.take (Token.longest c rest).2 := by
  have taken {length : Nat} (some : length ≠ 0) :
      (c :: rest).take length = c :: rest.take (length - 1) := by
    obtain ⟨length, rfl⟩ := Nat.exists_eq_succ_of_ne_zero some
    rfl
  rcases Token.longest_cases c rest with ⟨some, longest⟩ | ⟨_, some, longest⟩ |
      ⟨_, _, _, _, longest⟩ | ⟨_, _, _, longest⟩
  · rw [longest] at worded ⊢
    cases worded
    rw [String.toList_ofList, taken some]
  · rw [longest] at worded ⊢
    cases worded
    rw [String.toList_ofList, taken some]
  · rw [longest] at worded
    cases worded
  · rw [longest] at worded
    unfold Token.ofChar at worded
    split at worded <;> cases worded

/-- **The span of a token selects its characters**, which are the text of a number or a name. -/
theorem selects_of_mem_lex {text : List Char} {lexeme : Lexeme} (member : lexeme ∈ lex text) :
    ∃ word, lexeme.span.Selects text word ∧
      ∀ written, lexeme.token.text? = some written → written.toList = word := by
  obtain ⟨front, back, lexed⟩ := List.append_of_mem member
  obtain ⟨before, c, rest, rfl, -, visible, -, here⟩ := exists_of_lexFrom_eq_append lexed
  rw [lexFrom_token visible, List.cons.injEq] at here
  obtain ⟨rfl, -⟩ := here
  refine ⟨c :: rest.take (Token.longest c rest).2,
    ⟨before, rest.drop (Token.longest c rest).2, ?_, ?_, ?_⟩, fun written => Token.text?_longest⟩
  · rw [List.append_assoc, List.cons_append, List.take_append_drop]
  · exact (Nat.zero_add _).symm
  · rw [byteLength_append, byteLength_cons]
    show _ = 0 + _ + _ + _
    omega

end Reckoner
