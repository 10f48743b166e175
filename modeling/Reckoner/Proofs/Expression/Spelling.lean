/-
How numbers and names are spelled.

* `NumberText`, `IsNumber` — digits with an optional fraction, or a point with at least one digit,
  and an optional exponent.
* `IsName` — a letter or an underscore, and then letters, underscores and digits.
* `LongestWord`, `Measures` — a word of some kind that nothing at the same place goes beyond, and a
  function that gives its length.
* `numberLength_measures`, `nameLength_measures` — **the lexer's lengths of numbers and names are
  those of the longest ones.**
-/

import Reckoner.Proofs.Expression.Tokens

namespace Reckoner

/-! ### Numbers and names -/

/-- The exponent of a number: a mark, an optional sign and some digits. -/
structure ExponentText where
  mark : Char
  sign : Option Sign
  digits : List Char
  isMark : Numeral.isExponentMark mark
  isDigits : digits.all isDigit
  some : digits ≠ []

/-- The characters of an exponent. -/
def ExponentText.chars (exponent : ExponentText) : List Char :=
  exponent.mark :: (exponent.sign.elim [] (fun sign => [sign.char]) ++ exponent.digits)

/-- The parts of a number. There may be no digits before the point or none after it, but there are
some. -/
structure NumberText where
  whole : List Char
  /-- The digits after the point; none without a point. -/
  fraction : Option (List Char)
  exponent : Option ExponentText
  wholeDigits : whole.all isDigit
  fractionDigits : (fraction.getD []).all isDigit
  some : whole ≠ [] ∨ fraction.getD [] ≠ []

namespace NumberText

/-- The characters of a number without its exponent. -/
def mantissa (number : NumberText) : List Char :=
  number.whole ++ number.fraction.elim [] ('.' :: ·)

/-- The characters of a number. -/
def chars (number : NumberText) : List Char :=
  number.mantissa ++ number.exponent.elim [] ExponentText.chars

end NumberText

/-- Whether a word is a number. -/
def IsNumber (word : List Char) : Prop := ∃ number : NumberText, number.chars = word

/-- Whether a word is a name. -/
def IsName : List Char → Prop
  | c :: rest => isNameStart c ∧ rest.all isNameChar
  | [] => False

/-! ### The longest word of a kind -/

/-- A word of a kind, and no longer one of that kind starts in the same place. -/
structure LongestWord (IsWord : List Char → Prop) (word rest : List Char) : Prop where
  isWord : IsWord word
  longest : ∀ other, other <+: word ++ rest → IsWord other → other.length ≤ word.length

/-- A function that gives the length of the longest word of a kind at the start of a text, and zero
if there is none. -/
structure Measures (length : List Char → Nat) (IsWord : List Char → Prop) : Prop where
  within : ∀ text, length text ≤ text.length
  nonempty : ∀ word, IsWord word → word ≠ []
  taken : ∀ text, length text ≠ 0 → IsWord (text.take (length text))
  reached : ∀ word rest, IsWord word → word.length ≤ length (word ++ rest)

namespace Measures

variable {length : List Char → Nat} {IsWord : List Char → Prop} (measures : Measures length IsWord)

include measures

theorem pos_of_longest {word rest : List Char} (longest : LongestWord IsWord word rest) :
    length (word ++ rest) ≠ 0 := by
  have some := List.length_pos_iff.mpr (measures.nonempty word longest.isWord)
  have reached := measures.reached word rest longest.isWord
  omega

theorem eq_of_longest {word rest : List Char} (longest : LongestWord IsWord word rest) :
    length (word ++ rest) = word.length := by
  have atMost := longest.longest _ (List.take_prefix _ _)
    (measures.taken _ (measures.pos_of_longest longest))
  rw [List.length_take, Nat.min_eq_left (measures.within _)] at atMost
  exact Nat.le_antisymm atMost (measures.reached word rest longest.isWord)

theorem longest_take {text : List Char} (some : length text ≠ 0) :
    LongestWord IsWord (text.take (length text)) (text.drop (length text)) := by
  refine ⟨measures.taken text some, fun other isPrefix isWord => ?_⟩
  rw [List.take_append_drop] at isPrefix
  obtain ⟨after, rfl⟩ := isPrefix
  rw [List.length_take, Nat.min_eq_left (measures.within _)]
  exact measures.reached other after isWord

/-- A word that the measure ends before a character is the longest one there. -/
theorem longest_of_append {word after : List Char} {stop : Char} (isWord : IsWord word)
    (ends : length (word ++ stop :: after) = length word) :
    LongestWord IsWord word (stop :: after) := by
  refine ⟨isWord, fun other isPrefix isOther => ?_⟩
  obtain ⟨beyond, whole⟩ := isPrefix
  have reached := measures.reached other beyond isOther
  rw [whole, ends] at reached
  exact Nat.le_trans reached (measures.within word)

end Measures

/-! ### Digits -/

theorem isDigit_eq_false_of_mark {c : Char} (mark : Numeral.isExponentMark c) :
    isDigit c = false := by
  unfold Numeral.isExponentMark at mark
  rw [Bool.or_eq_true, decide_eq_true_eq, decide_eq_true_eq] at mark
  rcases mark with rfl | rfl <;> decide

theorem ne_point_of_mark {c : Char} (mark : Numeral.isExponentMark c) : c ≠ '.' := by
  rintro rfl
  revert mark
  decide

/-- Digits at the start of a text count with those that follow them. -/
theorem digitCount_digits {digits : List Char} (isDigits : digits.all isDigit)
    (rest : List Char) : digitCount (digits ++ rest) = digits.length + digitCount rest := by
  unfold digitCount
  rw [List.takeWhile_append_of_pos (List.all_eq_true.mp isDigits), List.length_append]

/-- The digits at the start of a text. -/
theorem take_digitCount (text : List Char) : text.take (digitCount text) = text.takeWhile isDigit :=
  (List.prefix_iff_eq_take.mp (List.takeWhile_prefix isDigit)).symm

theorem all_take_digitCount (text : List Char) : (text.take (digitCount text)).all isDigit := by
  rw [take_digitCount]
  exact List.all_takeWhile

theorem length_take_digitCount (text : List Char) :
    (text.take (digitCount text)).length = digitCount text := by
  rw [take_digitCount]
  rfl

/-! ### The longest exponent and the longest mantissa -/

theorem signLength_elim (sign : Option Sign) {digits : List Char} (isDigits : digits.all isDigit)
    (some : digits ≠ []) (rest : List Char) :
    signLength (sign.elim [] (fun sign => [sign.char]) ++ (digits ++ rest)) =
      (sign.elim [] fun sign => [sign.char]).length := by
  cases sign with
  | some sign => cases sign <;> rfl
  | none =>
    cases digits with
    | nil => exact absurd rfl some
    | cons c digits =>
      have digit : isDigit c := (List.forall_mem_cons.mp (List.all_eq_true.mp isDigits)).1
      have notSign : ¬ (c = '+' ∨ c = '-') := by
        rintro (rfl | rfl) <;> revert digit <;> decide
      simpa [signLength] using notSign

theorem ExponentText.length_le (exponent : ExponentText) (rest : List Char) :
    exponent.chars.length ≤ exponentLength (exponent.chars ++ rest) := by
  obtain ⟨mark, sign, digits, isMark, isDigits, some⟩ := exponent
  have positive : digits.length ≠ 0 := by simpa using some
  simp only [ExponentText.chars, List.cons_append, List.append_assoc, exponentLength_cons]
  rw [if_pos isMark, signLength_elim sign isDigits some, exponentTail, List.drop_left,
    digitCount_digits isDigits, if_neg (by omega)]
  simp only [List.length_cons, List.length_append]
  omega

/-- The exponent at the start of a text, if its length says that there is one. -/
theorem take_exponentLength {text : List Char} (some : exponentLength text ≠ 0) :
    ∃ exponent : ExponentText, exponent.chars = text.take (exponentLength text) := by
  cases text with
  | nil => exact absurd rfl some
  | cons mark text =>
    rw [exponentLength_cons] at some ⊢
    split at some
    · rename_i isMark
      rw [if_pos isMark]
      unfold exponentTail at some ⊢
      split at some
      · exact absurd rfl some
      · rename_i digits
        have isDigits := all_take_digitCount (text.drop (signLength text))
        have length := length_take_digitCount (text.drop (signLength text))
        have nonempty : (text.drop (signLength text)).take
            (digitCount (text.drop (signLength text))) ≠ [] := by
          intro empty
          rw [empty] at length
          exact digits length.symm
        -- The characters up to the digits are the mark and the sign.
        have signed : ∃ sign : Option Sign,
            sign.elim [] (fun sign => [sign.char]) = text.take (signLength text) := by
          cases text with
          | nil => exact ⟨none, rfl⟩
          | cons c rest =>
            by_cases plus : c = '+'
            · exact ⟨Option.some .plus, by simp [signLength, plus, Sign.char]⟩
            · by_cases minus : c = '-'
              · exact ⟨Option.some .minus, by simp [signLength, minus, Sign.char]⟩
              · exact ⟨none, by simp [signLength, plus, minus]⟩
        obtain ⟨sign, spelled⟩ := signed
        refine ⟨⟨mark, sign, _, isMark, isDigits, nonempty⟩, ?_⟩
        rw [if_neg digits, ExponentText.chars, spelled, ← List.take_add, Nat.add_assoc,
          Nat.add_comm 1, List.take_succ_cons]
    · exact absurd rfl some

namespace NumberText

theorem mantissa_ne_nil (number : NumberText) : number.mantissa ≠ [] := by
  obtain ⟨whole, fraction, exponent, wholeDigits, fractionDigits, some⟩ := number
  cases fraction with
  | none =>
    rcases some with some | some
    · simpa [mantissa] using some
    · exact absurd rfl some
  | some fraction => simp [mantissa]

/-- The digits of a mantissa are counted up to a character that is none, and perhaps beyond. -/
theorem mantissa_length_le (number : NumberText) (rest : List Char) :
    number.mantissa.length ≤ mantissaLength (number.mantissa ++ rest) := by
  obtain ⟨whole, fraction, exponent, wholeDigits, fractionDigits, some⟩ := number
  rw [mantissaLength_eq]
  cases fraction with
  | none =>
    simp only [mantissa, Option.elim_none, List.append_nil, digitCount_digits wholeDigits]
    unfold mantissaTail
    split
    · split
      · rename_i none
        simp only [Bool.and_eq_true, decide_eq_true_eq] at none
        omega
      · omega
    · omega
  | some fraction =>
    have digits : fraction.all isDigit := fractionDigits
    have positive : ¬ (whole.length = 0 ∧ fraction.length = 0) := by
      simpa [Decidable.or_iff_not_imp_left] using some
    simp only [mantissa, Option.elim_some, List.append_assoc, List.cons_append,
      digitCount_digits wholeDigits, digitCount_stop (c := '.') (by decide), Nat.add_zero,
      List.drop_left, mantissaTail, digitCount_digits digits]
    rw [if_neg (by simp only [Bool.and_eq_true, decide_eq_true_eq]; omega)]
    simp only [List.length_append, List.length_cons]
    omega

/-- A mantissa ends before an exponent. -/
theorem mantissaLength_mantissa (number : NumberText) {stop : Char} (ends : isDigit stop = false)
    (notPoint : stop ≠ '.') (rest : List Char) :
    mantissaLength (number.mantissa ++ stop :: rest) = number.mantissa.length := by
  obtain ⟨whole, fraction, exponent, wholeDigits, fractionDigits, some⟩ := number
  rw [mantissaLength_eq]
  cases fraction with
  | none =>
    simp only [mantissa, Option.elim_none, List.append_nil, digitCount_digits wholeDigits,
      digitCount_stop ends, Nat.add_zero, List.drop_left, mantissaTail_of_ne notPoint]
  | some fraction =>
    have digits : fraction.all isDigit := fractionDigits
    have positive : ¬ (whole.length = 0 ∧ fraction.length = 0) := by
      simpa [Decidable.or_iff_not_imp_left] using some
    simp only [mantissa, Option.elim_some, List.append_assoc, List.cons_append,
      digitCount_digits wholeDigits, digitCount_stop (c := '.') (by decide), Nat.add_zero,
      List.drop_left, mantissaTail, digitCount_digits digits,
      digitCount_stop ends]
    rw [if_neg (by simpa only [Bool.and_eq_true, decide_eq_true_eq] using positive)]
    simp only [List.length_append, List.length_cons]
    omega

end NumberText

/-- The mantissa at the start of a text, if its length says that there is one. -/
theorem take_mantissaLength {text : List Char} (some : mantissaLength text ≠ 0)
    (exponent : Option ExponentText) :
    ∃ number : NumberText, number.mantissa = text.take (mantissaLength text) ∧
      number.exponent = exponent := by
  have wholeDigits := all_take_digitCount text
  have wholeLength := length_take_digitCount text
  rw [mantissaLength_eq] at some ⊢
  cases rest : text.drop (digitCount text) with
  | nil =>
    rw [rest] at some
    have nonempty : text.take (digitCount text) ≠ [] := by
      intro empty
      rw [empty] at wholeLength
      exact some wholeLength.symm
    exact ⟨⟨_, none, exponent, wholeDigits, rfl, .inl nonempty⟩, List.append_nil _, rfl⟩
  | cons c after =>
    rw [rest] at some
    by_cases point : c = '.'
    · subst point
      rw [mantissaTail] at some ⊢
      split at some
      · exact absurd rfl some
      · rename_i digits
        rw [if_neg digits]
        simp only [Bool.and_eq_true, decide_eq_true_eq, not_and] at digits
        have fractionDigits := all_take_digitCount after
        have fractionLength := length_take_digitCount after
        have nonempty : text.take (digitCount text) ≠ [] ∨ after.take (digitCount after) ≠ [] := by
          by_cases empty : digitCount text = 0
          · refine .inr fun none => digits empty ?_
            rw [none] at fractionLength
            exact fractionLength.symm
          · refine .inl fun none => empty ?_
            rw [none] at wholeLength
            exact wholeLength.symm
        refine ⟨⟨_, Option.some _, exponent, wholeDigits, fractionDigits, nonempty⟩, ?_, rfl⟩
        rw [Nat.add_assoc, Nat.add_comm 1, List.take_add, rest, List.take_succ_cons]
        rfl
    · rw [mantissaTail_of_ne point] at some ⊢
      have nonempty : text.take (digitCount text) ≠ [] := by
        intro empty
        rw [empty] at wholeLength
        exact some wholeLength.symm
      exact ⟨⟨_, none, exponent, wholeDigits, rfl, .inl nonempty⟩, List.append_nil _, rfl⟩

/-! ### The longest number and the longest name -/

theorem mantissaLength_le_numberLength (text : List Char) :
    mantissaLength text ≤ numberLength text := by
  simp only [numberLength]
  split <;> omega

/-- No number at the start of a text is longer than its length says. -/
theorem NumberText.length_le (number : NumberText) (rest : List Char) :
    number.chars.length ≤ numberLength (number.chars ++ rest) := by
  have positive : number.mantissa.length ≠ 0 := by simpa using number.mantissa_ne_nil
  unfold chars
  cases number.exponent with
  | none =>
    rw [Option.elim_none, List.append_nil]
    exact Nat.le_trans (number.mantissa_length_le rest) (mantissaLength_le_numberLength _)
  | some exponent =>
    have ends : isDigit exponent.mark = false := isDigit_eq_false_of_mark exponent.isMark
    have mantissa : mantissaLength (number.mantissa ++ (exponent.chars ++ rest)) =
        number.mantissa.length :=
      number.mantissaLength_mantissa ends (ne_point_of_mark exponent.isMark) _
    have length := exponent.length_le rest
    simp only [numberLength, Option.elim_some, List.append_assoc, mantissa, List.drop_left]
    rw [if_neg positive, List.length_append]
    omega

/-- The number at the start of a text, if its length says that there is one. -/
theorem take_numberLength {text : List Char} (some : numberLength text ≠ 0) :
    IsNumber (text.take (numberLength text)) := by
  simp only [numberLength] at some ⊢
  split at some
  · exact absurd rfl some
  · rename_i mantissa
    rw [if_neg mantissa, List.take_add]
    by_cases empty : exponentLength (text.drop (mantissaLength text)) = 0
    · obtain ⟨number, spelled, none⟩ := take_mantissaLength mantissa none
      refine ⟨number, ?_⟩
      rw [NumberText.chars, none, spelled, empty]
      rfl
    · obtain ⟨exponent, spelled⟩ := take_exponentLength empty
      obtain ⟨number, spelled', marked⟩ := take_mantissaLength mantissa (Option.some exponent)
      refine ⟨number, ?_⟩
      rw [NumberText.chars, marked, spelled', Option.elim_some, spelled]

/-- A number starts with a digit or a point. -/
theorem IsNumber.head {c : Char} {rest : List Char} (number : IsNumber (c :: rest)) :
    isDigit c ∨ c = '.' := by
  obtain ⟨number, spelled⟩ := number
  by_cases digit : isDigit c
  · exact .inl digit
  · by_cases point : c = '.'
    · exact .inr point
    · have length := number.length_le []
      rw [List.append_nil, spelled,
        numberLength_eq_zero (Bool.eq_false_iff.mpr digit) point] at length
      simp at length

theorem IsNumber.ne_nil {word : List Char} (number : IsNumber word) : word ≠ [] := by
  obtain ⟨number, rfl⟩ := number
  exact List.append_ne_nil_of_left_ne_nil number.mantissa_ne_nil _

/-- **The lexer measures the longest number.** -/
theorem numberLength_measures : Measures numberLength IsNumber where
  within := numberLength_le
  nonempty _ number := number.ne_nil
  taken _ := take_numberLength
  reached := by
    rintro _ rest ⟨number, rfl⟩
    exact number.length_le rest

/-- **The lexer measures the longest name.** -/
theorem nameLength_measures : Measures nameLength IsName where
  within := nameLength_le
  nonempty := by
    rintro _ name rfl
    exact name
  taken text some := by
    cases text with
    | nil => exact absurd rfl some
    | cons c rest =>
      rw [nameLength] at some ⊢
      split at some
      · rename_i start
        rw [if_pos start, Nat.add_comm, List.take_succ_cons,
          ← List.prefix_iff_eq_take.mp (List.takeWhile_prefix isNameChar)]
        exact ⟨start, List.all_takeWhile⟩
      · exact absurd rfl some
  reached word rest name := by
    cases word with
    | nil => exact name.elim
    | cons c word =>
      obtain ⟨start, others⟩ := name
      rw [List.cons_append, nameLength, if_pos start,
        List.takeWhile_append_of_pos (List.all_eq_true.mp others), List.length_append,
        List.length_cons]
      omega

theorem isSpace_iff {c : Char} : isSpace c ↔ c = ' ' ∨ c = '\t' ∨ c = '\r' ∨ c = '\n' := by
  simp [isSpace, or_assoc]

/-- A letter or an underscore is no digit. -/
theorem not_digit_of_nameStart {c : Char} (start : isNameStart c) : isDigit c = false := by
  rw [Bool.eq_false_iff]
  intro digit
  simp only [isNameStart, isLetter, isDigit, Bool.or_eq_true, Bool.and_eq_true,
    decide_eq_true_eq, Char.le_def, UInt32.le_iff_toNat_le] at start digit
  have last : c.val.toNat ≤ 57 := digit.2
  rcases start with (⟨letter, -⟩ | ⟨letter, -⟩) | rfl
  · exact absurd (Nat.le_trans letter last) (by decide)
  · exact absurd (Nat.le_trans letter last) (by decide)
  · exact absurd last (by decide)

/-- A letter or an underscore starts no number. -/
theorem numberLength_of_nameStart {c : Char} (start : isNameStart c) (rest : List Char) :
    numberLength (c :: rest) = 0 := by
  refine numberLength_eq_zero (not_digit_of_nameStart start) ?_ rest
  rintro rfl
  revert start
  decide

end Reckoner
