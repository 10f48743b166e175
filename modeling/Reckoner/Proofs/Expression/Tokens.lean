/-
Tokens of a text that is put together from two.

* `separates` — characters that no token before them goes on with, such as blanks and semicolons.
* `Token.longest_append` — a token ends before a character that separates, whatever follows it.
* `lexFrom_append` — **the tokens of two texts around such a character are those of the two
  texts.**
* `lexFrom_shift` — the tokens of a text that starts later are the same, at later places.
* `depthAfter_lexFrom` — parentheses are tokens of their own, so the tokens leave as many of them
  open as the characters do.
* `exists_of_getLast?_semicolon` — a text whose last token is a semicolon ends in one, but for
  blanks.
-/

import Reckoner.Proofs.Expression.Places

namespace Reckoner

/-! ### Runs of a class of characters -/

section Runs

variable {p : Char → Bool}

theorem takeWhile_append_stop {stop : Char} (ends : p stop = false) (text after : List Char) :
    (text ++ stop :: after).takeWhile p = text.takeWhile p := by
  induction text with
  | nil => simp [ends]
  | cons c rest ih =>
    rw [List.cons_append, List.takeWhile_cons, List.takeWhile_cons, ih]

theorem length_takeWhile_le (text : List Char) : (text.takeWhile p).length ≤ text.length :=
  (List.takeWhile_prefix p).length_le

end Runs

/-! ### Written forms before a separating character -/

/-- Whether no token that starts before a character can go on with it. -/
def separates (c : Char) : Bool :=
  !isNameChar c && c ≠ '.' && c ≠ '+' && c ≠ '-' && c ≠ '='

theorem isNameChar_of_isDigit {c : Char} (digit : isDigit c) : isNameChar c := by
  unfold isNameChar
  rw [digit, Bool.or_true]

theorem isNameChar_of_isExponentMark {c : Char} (mark : Numeral.isExponentMark c) :
    isNameChar c := by
  unfold Numeral.isExponentMark at mark
  rw [Bool.or_eq_true, decide_eq_true_eq, decide_eq_true_eq] at mark
  rcases mark with rfl | rfl <;> decide

theorem isNameChar_of_isNameStart {c : Char} (start : isNameStart c) : isNameChar c := by
  unfold isNameStart at start
  unfold isNameChar
  rw [start, Bool.true_or]

/-- What a separating character is not. -/
theorem separates_iff {c : Char} :
    separates c ↔ isNameChar c = false ∧ c ≠ '.' ∧ c ≠ '+' ∧ c ≠ '-' ∧ c ≠ '=' := by
  simp [separates, and_assoc]

section Separated

variable {stop : Char} (separated : separates stop)

include separated

theorem not_digit_of_separates : isDigit stop = false := by
  rw [Bool.eq_false_iff]
  intro digit
  have named := isNameChar_of_isDigit digit
  rw [(separates_iff.mp separated).1] at named
  exact Bool.false_ne_true named

theorem not_exponentMark_of_separates : Numeral.isExponentMark stop = false := by
  rw [Bool.eq_false_iff]
  intro mark
  have named := isNameChar_of_isExponentMark mark
  rw [(separates_iff.mp separated).1] at named
  exact Bool.false_ne_true named

theorem not_nameStart_of_separates : isNameStart stop = false := by
  rw [Bool.eq_false_iff]
  intro start
  have named := isNameChar_of_isNameStart start
  rw [(separates_iff.mp separated).1] at named
  exact Bool.false_ne_true named

theorem digitCount_append (text after : List Char) :
    digitCount (text ++ stop :: after) = digitCount text := by
  unfold digitCount
  rw [takeWhile_append_stop (not_digit_of_separates separated)]

end Separated

theorem digitCount_le (text : List Char) : digitCount text ≤ text.length := length_takeWhile_le text

/-- The length of an exponent after its mark, from the number of characters its sign takes up. -/
def exponentTail (signed : Nat) (text : List Char) : Nat :=
  if digitCount (text.drop signed) = 0 then 0 else 1 + signed + digitCount (text.drop signed)

/-- The number of characters that the sign at the start of a text takes up. -/
def signLength : List Char → Nat
  | c :: _ => if c = '+' || c = '-' then 1 else 0
  | [] => 0

theorem exponentLength_cons (mark : Char) (text : List Char) :
    exponentLength (mark :: text) =
      if Numeral.isExponentMark mark then exponentTail (signLength text) text else 0 := rfl

theorem signLength_le (text : List Char) : signLength text ≤ text.length := by
  cases text with
  | nil => exact Nat.le_refl 0
  | cons c rest =>
    rw [signLength, List.length_cons]
    split <;> omega

theorem exponentLength_le (text : List Char) : exponentLength text ≤ text.length := by
  cases text with
  | nil => exact Nat.le_refl 0
  | cons mark text =>
    have digits := digitCount_le (text.drop (signLength text))
    have sign := signLength_le text
    rw [List.length_drop] at digits
    rw [exponentLength_cons, exponentTail, List.length_cons]
    split
    · split <;> omega
    · exact Nat.zero_le _

/-- The length of a mantissa from that of its whole part and what follows it. -/
def mantissaTail (whole : Nat) : List Char → Nat
  | '.' :: fraction =>
    if whole = 0 && digitCount fraction = 0 then 0 else whole + 1 + digitCount fraction
  | _ => whole

theorem mantissaLength_eq (text : List Char) :
    mantissaLength text = mantissaTail (digitCount text) (text.drop (digitCount text)) := by
  unfold mantissaLength mantissaTail
  rfl

theorem mantissaTail_of_ne {whole : Nat} {c : Char} {rest : List Char} (other : c ≠ '.') :
    mantissaTail whole (c :: rest) = whole := by
  unfold mantissaTail
  split
  · rename_i equal
    exact absurd (List.cons.inj equal).1 other
  · rfl

theorem mantissaTail_le (whole : Nat) (text : List Char) :
    mantissaTail whole text ≤ whole + text.length := by
  unfold mantissaTail
  split
  · rename_i fraction
    have digits := digitCount_le fraction
    rw [List.length_cons]
    split <;> omega
  · exact Nat.le_add_right _ _

theorem mantissaLength_le (text : List Char) : mantissaLength text ≤ text.length := by
  have tail := mantissaTail_le (digitCount text) (text.drop (digitCount text))
  have digits := digitCount_le text
  rw [List.length_drop] at tail
  rw [mantissaLength_eq]
  omega

theorem numberLength_le (text : List Char) : numberLength text ≤ text.length := by
  have exponent := exponentLength_le (text.drop (mantissaLength text))
  have mantissa := mantissaLength_le text
  rw [List.length_drop] at exponent
  simp only [numberLength]
  split <;> omega

theorem nameLength_le (text : List Char) : nameLength text ≤ text.length := by
  cases text with
  | nil => exact Nat.le_refl 0
  | cons c rest =>
    have run := length_takeWhile_le (p := isNameChar) rest
    rw [nameLength, List.length_cons]
    split <;> omega

section Separated

variable {stop : Char} (separated : separates stop)

include separated

theorem exponentLength_append (text after : List Char) :
    exponentLength (text ++ stop :: after) = exponentLength text := by
  cases text with
  | nil =>
    rw [List.nil_append, exponentLength_cons, not_exponentMark_of_separates separated]
    rfl
  | cons mark text =>
    have sign : signLength (text ++ stop :: after) = signLength text := by
      cases text with
      | nil =>
        obtain ⟨-, -, notPlus, notMinus, -⟩ := separates_iff.mp separated
        simp [signLength, notPlus, notMinus]
      | cons c rest => rfl
    rw [List.cons_append, exponentLength_cons, exponentLength_cons, sign, exponentTail,
      exponentTail, List.drop_append_of_le_length (signLength_le text),
      digitCount_append separated]

theorem mantissaLength_append (text after : List Char) :
    mantissaLength (text ++ stop :: after) = mantissaLength text := by
  rw [mantissaLength_eq, mantissaLength_eq, digitCount_append separated,
    List.drop_append_of_le_length (digitCount_le text)]
  cases rest : text.drop (digitCount text) with
  | nil => exact mantissaTail_of_ne (separates_iff.mp separated).2.1
  | cons c fraction =>
    by_cases point : c = '.'
    · subst point
      simp only [List.cons_append, mantissaTail, digitCount_append separated]
    · rw [List.cons_append, mantissaTail_of_ne point, mantissaTail_of_ne point]

theorem numberLength_append (text after : List Char) :
    numberLength (text ++ stop :: after) = numberLength text := by
  simp only [numberLength]
  rw [mantissaLength_append separated, List.drop_append_of_le_length (mantissaLength_le text),
    exponentLength_append separated]

theorem nameLength_append (text after : List Char) :
    nameLength (text ++ stop :: after) = nameLength text := by
  cases text with
  | nil =>
    rw [List.nil_append, nameLength, not_nameStart_of_separates separated]
    rfl
  | cons c rest =>
    rw [List.cons_append, nameLength, nameLength,
      takeWhile_append_stop (separates_iff.mp separated).1]

end Separated

/-- A written form that ends before every character that separates has none in it. -/
theorem not_separates_of_mem_take {length : List Char → Nat} {text : List Char}
    (append : ∀ {stop : Char}, separates stop → ∀ before after,
      length (before ++ stop :: after) = length before)
    (within : ∀ text, length text ≤ text.length) {c : Char}
    (member : c ∈ text.take (length text)) : separates c = false := by
  rw [Bool.eq_false_iff]
  intro separated
  obtain ⟨before, after, taken⟩ := List.append_of_mem member
  have whole : text = before ++ c :: (after ++ text.drop (length text)) := by
    rw [← List.cons_append, ← List.append_assoc, ← taken, List.take_append_drop]
  -- The form would be no longer than what stands before the character.
  have short : length text ≤ before.length := by
    rw [whole, append separated]
    exact within before
  have long : (before ++ c :: after).length ≤ length text := by
    rw [← taken, List.length_take]
    exact Nat.min_le_left _ _
  rw [List.length_append, List.length_cons] at long
  omega

/-! ### The longest token -/

section Longest

variable (c : Char) (rest : List Char)

/-- A token is a number, a name, an assignment sign or a single character. -/
theorem Token.longest_cases :
    (numberLength (c :: rest) ≠ 0 ∧ Token.longest c rest =
      (.number (String.ofList ((c :: rest).take (numberLength (c :: rest)))),
        numberLength (c :: rest) - 1)) ∨
    (numberLength (c :: rest) = 0 ∧ nameLength (c :: rest) ≠ 0 ∧ Token.longest c rest =
      (.name (String.ofList ((c :: rest).take (nameLength (c :: rest)))),
        nameLength (c :: rest) - 1)) ∨
    (numberLength (c :: rest) = 0 ∧ nameLength (c :: rest) = 0 ∧ c = ':' ∧ rest.head? = some '=' ∧
      Token.longest c rest = (.becomes, 1)) ∨
    (numberLength (c :: rest) = 0 ∧ nameLength (c :: rest) = 0 ∧
      ¬ (c = ':' ∧ rest.head? = some '=') ∧ Token.longest c rest = (.ofChar c, 0)) := by
  unfold Token.longest
  by_cases number : numberLength (c :: rest) = 0
  · by_cases name : nameLength (c :: rest) = 0
    · by_cases becomes : c = ':' ∧ rest.head? = some '='
      · right; right; left
        obtain ⟨rfl, equals⟩ := becomes
        refine ⟨number, name, rfl, equals, ?_⟩
        simp [number, name, equals]
      · right; right; right
        refine ⟨number, name, becomes, ?_⟩
        simp [number, name, becomes]
    · right; left
      refine ⟨number, name, ?_⟩
      simp [number, name]
  · left
    refine ⟨number, ?_⟩
    simp [number]

/-- A token does not take up more than there is. -/
theorem Token.longest_extent_le : (Token.longest c rest).2 ≤ rest.length := by
  have number := numberLength_le (c :: rest)
  have name := nameLength_le (c :: rest)
  rw [List.length_cons] at number name
  rcases Token.longest_cases c rest with ⟨_, longest⟩ | ⟨_, _, longest⟩ |
      ⟨_, _, _, equals, longest⟩ | ⟨_, _, _, longest⟩
  · rw [longest]
    exact Nat.sub_le_of_le_add number
  · rw [longest]
    exact Nat.sub_le_of_le_add name
  · rw [longest]
    cases rest with
    | nil => cases equals
    | cons next rest => exact Nat.succ_le_succ (Nat.zero_le _)
  · rw [longest]
    exact Nat.zero_le _

/-- **A token ends before a character that separates**, whatever follows it. -/
theorem Token.longest_append {stop : Char} (separated : separates stop) (after : List Char) :
    Token.longest c (rest ++ stop :: after) = Token.longest c rest := by
  have number : numberLength (c :: (rest ++ stop :: after)) = numberLength (c :: rest) :=
    numberLength_append separated (c :: rest) after
  have name : nameLength (c :: (rest ++ stop :: after)) = nameLength (c :: rest) :=
    nameLength_append separated (c :: rest) after
  have equals : (rest ++ stop :: after).head? = some '=' ↔ rest.head? = some '=' := by
    cases rest with
    | nil =>
      constructor
      · intro found
        exact absurd (Option.some.inj found) (separates_iff.mp separated).2.2.2.2
      · rintro ⟨⟩
    | cons next rest => exact Iff.rfl
  have take (n : Nat) (within : n ≤ (c :: rest).length) :
      (c :: (rest ++ stop :: after)).take n = (c :: rest).take n :=
    List.take_append_of_le_length within
  unfold Token.longest
  simp only [number, name, equals, take _ (numberLength_le (c :: rest)),
    take _ (nameLength_le (c :: rest))]

end Longest

theorem digitCount_stop {c : Char} (stop : isDigit c = false) (rest : List Char) :
    digitCount (c :: rest) = 0 := by
  simp [digitCount, stop]

/-- A text whose first character is neither a digit nor a point starts with no number. -/
theorem numberLength_eq_zero {c : Char} (notNumber : isDigit c = false) (notPoint : c ≠ '.')
    (rest : List Char) : numberLength (c :: rest) = 0 := by
  have mantissa : mantissaLength (c :: rest) = 0 := by
    rw [mantissaLength_eq, digitCount_stop notNumber]
    exact mantissaTail_of_ne notPoint
  simp only [numberLength]
  rw [if_pos mantissa]

/-- A character that stands for a token of its own and that nothing else starts with. -/
theorem Token.longest_single {c : Char} (notNumber : isDigit c = false) (notPoint : c ≠ '.')
    (notName : isNameStart c = false) (notColon : c ≠ ':') (rest : List Char) :
    Token.longest c rest = (.ofChar c, 0) := by
  have number : numberLength (c :: rest) = 0 := numberLength_eq_zero notNumber notPoint rest
  have name : nameLength (c :: rest) = 0 := by
    rw [nameLength, notName]
    rfl
  rcases Token.longest_cases c rest with ⟨some, _⟩ | ⟨_, some, _⟩ | ⟨_, _, colon, _⟩ |
      ⟨_, _, _, longest⟩
  · exact absurd number some
  · exact absurd name some
  · exact absurd colon notColon
  · exact longest

/-! ### The tokens of a text -/

section Tokens

theorem lexFrom_space {c : Char} (space : isSpace c) (offset : Nat) (rest : List Char) :
    lexFrom 0 offset (c :: rest) = lexFrom 0 (offset + c.utf8Size) rest := by
  rw [lexFrom, if_pos space]

theorem lexFrom_token {c : Char} (visible : isSpace c = false) (offset : Nat) (rest : List Char) :
    lexFrom 0 offset (c :: rest) =
      ⟨(Token.longest c rest).1, c, offset,
        offset + c.utf8Size + Text.byteLength (rest.take (Token.longest c rest).2)⟩ ::
      lexFrom (Token.longest c rest).2 (offset + c.utf8Size) rest := by
  rw [lexFrom, if_neg (Bool.eq_false_iff.mp visible)]

theorem byteLength_cons (c : Char) (rest : List Char) :
    Text.byteLength (c :: rest) = c.utf8Size + Text.byteLength rest := rfl

/-- **The tokens of two texts around a character that separates** are those of the first text and
those of the rest. -/
theorem lexFrom_append {stop : Char} (separated : separates stop) (text after : List Char)
    {skipped : Nat} (within : skipped ≤ text.length) (offset : Nat) :
    lexFrom skipped offset (text ++ stop :: after) =
      lexFrom skipped offset text ++
        lexFrom 0 (offset + Text.byteLength text) (stop :: after) := by
  -- Characters that belong to a token already found are counted off like any others.
  induction text generalizing skipped offset with
  | nil =>
    rw [List.length_nil, Nat.le_zero] at within
    subst within
    rfl
  | cons c rest ih =>
    have size : offset + Text.byteLength (c :: rest) =
        offset + c.utf8Size + Text.byteLength rest := by
      rw [byteLength_cons, Nat.add_assoc]
    cases skipped with
    | succ skipped =>
      rw [List.length_cons, Nat.add_le_add_iff_right] at within
      rw [List.cons_append, lexFrom, lexFrom, size]
      exact ih within _
    | zero =>
      cases visible : isSpace c with
      | true =>
        rw [List.cons_append, lexFrom_space visible, lexFrom_space visible, size]
        exact ih (Nat.zero_le _) _
      | false =>
        have extent := Token.longest_extent_le c rest
        rw [List.cons_append, lexFrom_token visible, lexFrom_token visible,
          Token.longest_append c rest separated, List.take_append_of_le_length extent,
          List.cons_append, size, ih extent]

/-- The tokens of a text that starts later have later places. -/
theorem lexFrom_shift (later : Nat) (text : List Char) (skipped offset : Nat) :
    lexFrom skipped (offset + later) text =
      (lexFrom skipped offset text).map (Lexeme.mapPlaces (· + later)) := by
  induction text generalizing skipped offset with
  | nil => rfl
  | cons c rest ih =>
    have next : offset + later + c.utf8Size = offset + c.utf8Size + later := by omega
    cases skipped with
    | succ skipped => rw [lexFrom, lexFrom, next, ih]
    | zero =>
      cases visible : isSpace c with
      | true => rw [lexFrom_space visible, lexFrom_space visible, next, ih]
      | false =>
        rw [lexFrom_token visible, lexFrom_token visible, next, ih, List.map_cons]
        congr 2
        simp only [Span.mk.injEq, Span.map, true_and]
        omega

/-- A text without tokens is blank. -/
theorem lexFrom_eq_nil {text : List Char} {offset : Nat} (none : lexFrom 0 offset text = []) :
    text.all isSpace := by
  induction text generalizing offset with
  | nil => rfl
  | cons c rest ih =>
    cases visible : isSpace c with
    | true =>
      rw [lexFrom_space visible] at none
      rw [List.all_cons, visible, ih none]
      rfl
    | false =>
      rw [lexFrom_token visible] at none
      cases none

/-- The character of a token that is a single one. -/
def Token.char? : Token → Option Char
  | op binary => some binary.char
  | opening => some '('
  | closing => some ')'
  | comma => some ','
  | semicolon => some ';'
  | other c => some c
  | _ => none

theorem Token.char?_ofChar (c : Char) : (Token.ofChar c).char? = some c := by
  unfold Token.ofChar
  split <;> rfl

/-- A token of a single character takes up that character only. -/
theorem Token.eq_of_longest {c d : Char} {rest : List Char}
    (single : (Token.longest c rest).1.char? = some d) :
    c = d ∧ (Token.longest c rest).2 = 0 := by
  rcases Token.longest_cases c rest with ⟨_, longest⟩ | ⟨_, _, longest⟩ |
      ⟨_, _, _, _, longest⟩ | ⟨_, _, _, longest⟩
  · rw [longest] at single
    cases single
  · rw [longest] at single
    cases single
  · rw [longest] at single
    cases single
  · rw [longest, Token.char?_ofChar] at single
    rw [longest]
    exact ⟨Option.some.inj single, rfl⟩

/-- A text whose last token is a semicolon ends in one, but for blanks. -/
theorem exists_of_getLast?_semicolon {text : List Char} {skipped offset : Nat} {last : Lexeme}
    (final : (lexFrom skipped offset text).getLast? = some last)
    (semicolon : last.token = .semicolon) :
    ∃ before blanks, text = before ++ ';' :: blanks ∧ blanks.all isSpace := by
  induction text generalizing skipped offset with
  | nil => cases final
  | cons c rest ih =>
    have further {skipped offset : Nat}
        (final : (lexFrom skipped offset rest).getLast? = some last) :
        ∃ before blanks, c :: rest = before ++ ';' :: blanks ∧ blanks.all isSpace := by
      obtain ⟨before, blanks, rfl, blank⟩ := ih final
      exact ⟨c :: before, blanks, rfl, blank⟩
    cases skipped with
    | succ skipped => exact further final
    | zero =>
      cases visible : isSpace c with
      | true =>
        rw [lexFrom_space visible] at final
        exact further final
      | false =>
        rw [lexFrom_token visible] at final
        cases tokens : lexFrom (Token.longest c rest).2 (offset + c.utf8Size) rest with
        | cons next others =>
          rw [tokens, List.getLast?_cons_cons, ← tokens] at final
          exact further final
        | nil =>
          rw [tokens, List.getLast?_singleton, Option.some.injEq] at final
          subst final
          have single : (Token.longest c rest).1.char? = some ';' := congrArg Token.char? semicolon
          obtain ⟨rfl, extent⟩ := Token.eq_of_longest single
          rw [extent] at tokens
          exact ⟨[], rest, rfl, lexFrom_eq_nil tokens⟩

end Tokens

end Reckoner
