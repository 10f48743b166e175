/-
Reading back texts between quotes and counts.

* `untilQuote_escaped` — the escape of one character, and `afterQuote_quoted` — **the text between
  quotes is read as it was written**.
* `Ends` — what may stand after a number that is complete.
* `written_naturalDigits` — the digits of a number are one number.
* `Countable`, `count_naturalDigits` — **a written count is read exactly if it fits into 64 bits**.
-/

import Reckoner.Document.Reader
import Reckoner.Proofs.Number.Digits
import Reckoner.Proofs.Outcome

namespace Reckoner.Reader

/-! ### Steps of a reader -/

section Steps

variable {α β : Type}

theorem run_bind (reader : Reader α) (next : α → Reader β) (text : List Char) :
    (reader >>= next) text = reader text >>= fun taken => next taken.1 taken.2 := rfl

/-- A reader in front that takes its part leaves the rest to the next one. -/
theorem run_bind_ok {reader : Reader α} {next : α → Reader β} {text rest : List Char} {value : α}
    (taken : reader text = .ok (value, rest)) : (reader >>= next) text = next value rest := by
  rw [run_bind, taken]
  rfl

theorem run_get (next : List Char → Reader β) (text : List Char) :
    (get >>= next) text = next text text := rfl

theorem run_peek (next : Option Char → Reader β) (text : List Char) :
    (peek >>= next) text = next (text.dropWhile isGap).head? (text.dropWhile isGap) := rfl

theorem run_advance (next : Unit → Reader β) (text : List Char) :
    (advance >>= next) text = next () text.tail := rfl

/-- Two readers in a row take a text if the first takes its part and the second the rest. -/
theorem run_bind_eq_ok {reader : Reader α} {next : α → Reader β} {text : List Char}
    {result : β × List Char} :
    (reader >>= next) text = .ok result ↔
      ∃ value rest, reader text = .ok (value, rest) ∧ next value rest = .ok result := by
  rw [run_bind, bind_eq_ok]
  constructor
  · rintro ⟨⟨value, rest⟩, first, second⟩
    exact ⟨value, rest, first, second⟩
  · rintro ⟨value, rest, first, second⟩
    exact ⟨(value, rest), first, second⟩

end Steps

/-- A text of blanks only. -/
def Gap (text : List Char) : Prop := ∀ c ∈ text, isGap c

theorem Gap.nil : Gap [] := by
  intro c member
  cases member

theorem Gap.newLine (level : Nat) : Gap (Json.newLine level) := by
  intro c member
  rcases List.mem_cons.mp member with line | indent
  · rw [line]
    rfl
  · rw [List.eq_of_mem_replicate indent]
    rfl

theorem Gap.dropWhile {gap : List Char} (blank : Gap gap) {c : Char} (solid : isGap c = false)
    (rest : List Char) : (gap ++ c :: rest).dropWhile isGap = c :: rest := by
  rw [List.dropWhile_append_of_pos blank, List.dropWhile_cons, solid]
  rfl

/-! ### Text between quotes -/

theorem hexValue?_hexChar {digit : Nat} (bound : digit < 16) :
    hexValue? (hexChar digit) = some digit := by
  have every : ∀ digit < 16, hexValue? (hexChar digit) = some digit := by decide
  exact every digit bound

theorem four_le_byteLength (a b c d : Char) : ¬Text.byteLength [a, b, c, d] < 4 := by
  have bytes (c : Char) : 1 ≤ c.utf8Size := Char.utf8Size_pos c
  have first := bytes a
  have second := bytes b
  have third := bytes c
  have fourth := bytes d
  simp only [Text.byteLength]
  omega

/-- A control character is written as a UTF-16 unit of its own. -/
theorem untilQuote_control {c : Char} (control : c.toNat < 32) {text content rest : List Char}
    (read : untilQuote true .closed text = .ok (content, rest)) :
    untilQuote true .closed
        ('\\' :: 'u' :: '0' :: '0' :: hexChar (c.toNat / 16) :: hexChar (c.toNat % 16) :: text) =
      .ok (c :: content, rest) := by
  have high : c.toNat / 16 < 16 := by omega
  have low : c.toNat % 16 < 16 := by omega
  have zero : hexValue? '0' = some 0 := rfl
  have value : 16 * (c.toNat / 16) + c.toNat % 16 = c.toNat := by omega
  have alone : isTrailing c.toNat = false ∧ isLeading c.toNat = false := by
    unfold isTrailing isLeading
    constructor
    · rw [decide_eq_false (by omega), Bool.false_and]
    · rw [decide_eq_false (by omega), Bool.false_and]
  have bytes := four_le_byteLength '0' '0' (hexChar (c.toNat / 16)) (hexChar (c.toNat % 16))
  simp [untilQuote, bytes, zero, hexValue?_hexChar high, hexValue?_hexChar low, value, alone.1,
    alone.2, read, Except.map]

/-- **The escape of a character is read as the character.** -/
theorem untilQuote_escaped (c : Char) {text content rest : List Char}
    (read : untilQuote true .closed text = .ok (content, rest)) :
    untilQuote true .closed (Json.escaped c ++ text) = .ok (c :: content, rest) := by
  unfold Json.escaped
  split
  case h_8 quote backslash _ _ _ _ _ =>
    split
    · next control => exact untilQuote_control control read
    · next plain =>
      have open_ : c ≠ '"' := fun same => quote same
      have kept : c ≠ '\\' := fun same => backslash same
      rw [List.singleton_append, untilQuote, if_neg open_, if_neg kept, if_neg plain, read]
      rfl
  all_goals
    simp [untilQuote, escapedChar?, read, Except.map]

theorem untilQuote_flatMap (content rest : List Char) :
    untilQuote true .closed (content.flatMap Json.escaped ++ '"' :: rest) =
      .ok (content, rest) := by
  induction content with
  | nil => rfl
  | cons c others ih =>
    rw [List.flatMap_cons, List.append_assoc]
    exact untilQuote_escaped c ih

/-- **The text between quotes is read as it was written.** -/
theorem afterQuote_quoted (content : String) (rest : List Char) :
    afterQuote true (content.toList.flatMap Json.escaped ++ '"' :: rest) = .ok (content, rest) := by
  unfold afterQuote
  rw [untilQuote_flatMap]
  show Except.ok (String.ofList content.toList, rest) = _
  rw [String.ofList_toList]

theorem quoted_append (content : String) (rest : List Char) :
    Json.quoted content ++ rest =
      '"' :: (content.toList.flatMap Json.escaped ++ '"' :: rest) := by
  unfold Json.quoted
  rw [List.cons_append, List.append_assoc]
  rfl

/-! ### Counts -/

/-- What stands after a complete value of a document: a comma, a new line, or nothing. -/
def Ends (rest : List Char) : Prop := ∀ c ∈ rest.head?, c = ',' ∨ c = '\n'

section Counts

variable {rest : List Char}

theorem someDigits_append {digits : List Char} (some : digits ≠ [])
    (every : ∀ c ∈ digits, isDigit c) (ends : Ends rest) :
    someDigits (digits ++ rest) = .ok (digits, rest) := by
  have stop : ∀ c ∈ rest.head?, isDigit c = false := by
    intro c head
    rcases ends c head with comma | line
    · rw [comma]
      rfl
    · rw [line]
      rfl
  have taken : rest.takeWhile isDigit = [] ∧ rest.dropWhile isDigit = rest := by
    cases rest with
    | nil => exact ⟨rfl, rfl⟩
    | cons c tail =>
      rw [List.takeWhile_cons, List.dropWhile_cons, stop c rfl]
      exact ⟨rfl, rfl⟩
  cases digits with
  | nil => exact absurd rfl some
  | cons c tail =>
    have digit : isDigit c := every c List.mem_cons_self
    show (if isDigit c then Reader.digits else throw .malformed) (c :: tail ++ rest) = _
    rw [if_pos digit]
    show Except.ok ((c :: tail ++ rest).takeWhile isDigit, (c :: tail ++ rest).dropWhile isDigit) = _
    rw [List.takeWhile_append_of_pos every, List.dropWhile_append_of_pos every, taken.1, taken.2,
      List.append_nil]

theorem wholePart_naturalDigits (n : Nat) (ends : Ends rest) :
    wholePart (naturalDigits n ++ rest) = .ok (naturalDigits n, rest) := by
  have lone : (decide ((naturalDigits n).head? = some '0') &&
      decide ((naturalDigits n).length ≠ 1)) = false := by
    by_cases zero : n = 0
    · rw [zero]
      rfl
    · rw [decide_eq_false (naturalDigits_head zero), Bool.false_and]
  unfold wholePart
  rw [run_bind_ok (someDigits_append (naturalDigits_ne_nil n) naturalDigits_isDigit ends), lone]
  rfl

theorem isGap_of_isDigit {c : Char} (digit : isDigit c) : isGap c = false := by
  have different (other : Char) (blank : isDigit other = false) : decide (c = other) = false :=
    decide_eq_false (ne_of_isDigit digit blank)
  unfold isGap
  rw [different ' ' rfl, different '\n' rfl, different '\t' rfl, different '\r' rfl]
  rfl

theorem fractionPart_of_ends (ends : Ends rest) : fractionPart rest = .ok ([], rest) := by
  cases rest with
  | nil => rfl
  | cons c tail =>
    rcases ends c rfl with rfl | rfl <;> rfl

theorem exponentPart_of_ends (ends : Ends rest) : exponentPart rest = .ok (none, rest) := by
  cases rest with
  | nil => rfl
  | cons c tail =>
    rcases ends c rfl with rfl | rfl <;> rfl

theorem minusSign_of_digit {c : Char} (digit : isDigit c) (text : List Char) :
    minusSign (c :: text) = .ok (false, c :: text) := by
  have unsigned : c ≠ '-' := ne_of_isDigit digit rfl
  simp only [minusSign, run_get, List.cons.injEq, unsigned, false_and, imp_false, not_false_eq_true,
    implies_true]
  rfl

/-- A number as it is written by its digits only. -/
def plain (n : Nat) : Written := ⟨false, naturalDigits n, [], none⟩

/-- The digits of a number are read as one number. -/
theorem written_naturalDigits (n : Nat) (ends : Ends rest) :
    written (naturalDigits n ++ rest) = .ok (plain n, rest) := by
  have sign : minusSign (naturalDigits n ++ rest) = .ok (false, naturalDigits n ++ rest) := by
    obtain ⟨c, more, digits, digit⟩ := naturalDigits_cons n
    rw [digits]
    exact minusSign_of_digit digit (more ++ rest)
  unfold written
  rw [run_bind_ok sign, run_bind_ok (wholePart_naturalDigits n ends),
    run_bind_ok (fractionPart_of_ends ends), run_bind_ok (exponentPart_of_ends ends)]
  rfl

/-- Whether a number is a count of 64 bits, which a reader checks in two ways. -/
def Countable (n : Nat) : Prop := (plain n).isTooLarge = false ∧ n ≤ maxCount

instance (n : Nat) : Decidable (Countable n) := inferInstanceAs (Decidable (_ ∧ _))

theorem count?_plain (n : Nat) : (plain n).count? = if maxCount < n then none else some n := by
  unfold Written.count? plain
  simp only [digitsValue_naturalDigits, Bool.false_or, List.isEmpty_nil, Bool.not_true,
    Option.isSome_none, decide_eq_true_eq]

theorem number_naturalDigits (n : Nat) (ends : Ends rest) :
    number (naturalDigits n ++ rest) =
      if (plain n).isTooLarge then .error .malformed else .ok (plain n, rest) := by
  unfold number
  rw [run_bind_ok (written_naturalDigits n ends)]
  show (if (plain n).isTooLarge = true then throw .malformed else pure (plain n) :
    Reader Written) rest = _
  split <;> rfl

theorem Gap.dropWhile_naturalDigits {gap : List Char} (blank : Gap gap) (n : Nat) :
    (gap ++ (naturalDigits n ++ rest)).dropWhile isGap = naturalDigits n ++ rest := by
  obtain ⟨c, more, digits, digit⟩ := naturalDigits_cons n
  rw [digits]
  exact blank.dropWhile (isGap_of_isDigit digit) (more ++ rest)

/-- **A written count is read exactly if it fits.** -/
theorem count_naturalDigits (n : Nat) {gap : List Char} (blank : Gap gap) (ends : Ends rest)
    {result : Nat × List Char} :
    count (gap ++ (naturalDigits n ++ rest)) = .ok result ↔ Countable n ∧ result = (n, rest) := by
  have starts : (naturalDigits n ++ rest).head?.any startsNumber = true := by
    obtain ⟨c, more, digits, digit⟩ := naturalDigits_cons n
    rw [digits]
    show (c = '-' || isDigit c) = true
    rw [digit, Bool.or_true]
  have taken := number_naturalDigits n ends
  unfold count
  rw [run_peek, blank.dropWhile_naturalDigits n, if_pos starts]
  unfold Countable
  by_cases large : (plain n).isTooLarge = true
  · rw [if_pos large] at taken
    rw [run_bind, taken]
    refine iff_of_false ?_ ?_
    · rintro ⟨⟩
    · rintro ⟨⟨small, _⟩, _⟩
      rw [large] at small
      cases small
  · rw [if_neg large] at taken
    rw [run_bind_ok taken, count?_plain]
    by_cases wide : maxCount < n
    · rw [if_pos wide]
      refine iff_of_false ?_ ?_
      · rintro ⟨⟩
      · rintro ⟨⟨_, narrow⟩, _⟩
        exact Nat.not_lt.mpr narrow wide
    · rw [if_neg wide]
      constructor
      · rintro ⟨⟩
        exact ⟨⟨Bool.eq_false_iff.mpr large, Nat.not_lt.mp wide⟩, rfl⟩
      · rintro ⟨_, rfl⟩
        rfl

end Counts

end Reckoner.Reader
