/-
Reading back the decimal text of an integer number of units.

* `Numeral.ofText?_eq_bind`, `Numeral.ofMantissa?_of_digits` — a numeral is read part by part.
* `fixedDigits` — the digits of a number of units, with zeros in front of a fraction.
* `ofText?_fixedText` — **the text of units is a numeral for exactly these units**, unless it has
  more places than a numeral may have.
-/

import Reckoner.Proofs.Number.Digits
import Reckoner.Proofs.Number.Recovery

namespace Reckoner

/-! ### Cutting texts -/

theorem dropWhile_of_head {α : Type} {p : α → Bool} {text : List α}
    (head : ∀ c ∈ text.head?, p c = false) : text.dropWhile p = text := by
  cases text with
  | nil => rfl
  | cons c rest =>
    have kept : p c = false := head c rfl
    rw [List.dropWhile_cons, kept]
    rfl

theorem trim_of_not_blank {text : List Char} (plain : ∀ c ∈ text, Text.isBlank c = false) :
    Text.trim text = text := by
  have front : text.dropWhile Text.isBlank = text :=
    dropWhile_of_head fun c first => plain c (List.mem_of_mem_head? first)
  have back : text.reverse.dropWhile Text.isBlank = text.reverse :=
    dropWhile_of_head fun c last =>
      plain c (List.mem_reverse.mp (List.mem_of_mem_head? last))
  unfold Text.trim Text.trimLeft Text.trimRight
  rw [front, back, List.reverse_reverse]

theorem splitFirst?_of_none {p : Char → Bool} {text : List Char}
    (none : ∀ c ∈ text, p c = false) : Text.splitFirst? p text = .none := by
  induction text with
  | nil => rfl
  | cons c rest ih =>
    have others := ih fun d member => none d (List.mem_cons_of_mem c member)
    rw [Text.splitFirst?, none c List.mem_cons_self, others]
    rfl

theorem splitFirst?_append {p : Char → Bool} {front : List Char}
    (none : ∀ c ∈ front, p c = false) {mark : Char} (marked : p mark) (back : List Char) :
    Text.splitFirst? p (front ++ mark :: back) = some (front, back) := by
  induction front with
  | nil =>
    rw [List.nil_append, Text.splitFirst?, if_pos marked]
  | cons c rest ih =>
    have others := ih fun d member => none d (List.mem_cons_of_mem c member)
    rw [List.cons_append, Text.splitFirst?, none c List.mem_cons_self, others]
    rfl

/-- A text that is split is its parts with a mark between them. -/
theorem exists_of_splitFirst? {p : Char → Bool} {text front back : List Char}
    (found : Text.splitFirst? p text = some (front, back)) :
    ∃ mark, p mark ∧ text = front ++ mark :: back := by
  induction text generalizing front with
  | nil => cases found
  | cons c rest ih =>
    unfold Text.splitFirst? at found
    split at found
    · next marked =>
      cases found
      exact ⟨c, marked, rfl⟩
    · obtain ⟨⟨front, back⟩, others, ⟨⟩⟩ := Option.map_eq_some_iff.mp found
      obtain ⟨mark, marked, rest⟩ := ih others
      exact ⟨mark, marked, congrArg (c :: ·) rest⟩

/-! ### Parts of a numeral -/

namespace Numeral

/-- The mantissa of an unsigned text and its exponent, zero without a mark. -/
def splitExponent? (text : List Char) : Option (List Char × Int) :=
  match Text.splitFirst? isExponentMark text with
  | some (mantissa, exponent) => (readExponent? exponent).map fun scale => (mantissa, scale)
  | none => some (text, 0)

/-- What a mantissa is read as, with a sign and an exponent. -/
def ofMantissa? (negative : Bool) (mantissa : List Char) (scale : Int) : Option Numeral :=
  let (whole, fraction) := (Text.splitFirst? (· = '.') mantissa).getD (mantissa, [])
  let digits := whole ++ fraction
  let exponent := scale - fraction.length
  if digits.isEmpty || !digits.all isDigit || maxDecimalExponent < exponent.natAbs then none
  else
    some ⟨if negative then -(digitsValue digits : Int) else digitsValue digits, exponent,
      max 1 (digits.dropWhile (· = '0')).length⟩

/-- Sign, exponent and mantissa are read one after the other. -/
theorem ofText?_eq_bind (text : String) :
    ofText? text = (splitExponent? (splitSign (Text.trim text.toList)).2).bind fun parts =>
      ofMantissa? (splitSign (Text.trim text.toList)).1 parts.1 parts.2 := by
  unfold ofText? splitExponent?
  generalize splitSign (Text.trim text.toList) = signed
  obtain ⟨negative, unsigned⟩ := signed
  dsimp only
  cases Text.splitFirst? isExponentMark unsigned with
  | none => rfl
  | some parts => rfl

/-- A mantissa of digits is read as their value, unless its scale is too far from zero. -/
theorem ofMantissa?_of_digits {mantissa whole fraction : List Char}
    (parts : (Text.splitFirst? (· = '.') mantissa).getD (mantissa, []) = (whole, fraction))
    (digits : (whole ++ fraction).all isDigit) (some : whole ++ fraction ≠ []) (negative : Bool)
    (scale : Int) :
    ofMantissa? negative mantissa scale =
      if maxDecimalExponent < (scale - fraction.length).natAbs then none
      else Option.some ⟨if negative then -(digitsValue (whole ++ fraction) : Int)
        else digitsValue (whole ++ fraction), scale - fraction.length,
        max 1 ((whole ++ fraction).dropWhile (· = '0')).length⟩ := by
  have nonempty : (whole ++ fraction).isEmpty = false := List.isEmpty_eq_false_iff.mpr some
  unfold ofMantissa?
  simp only [parts, digits, nonempty, Bool.not_true, Bool.false_or, decide_eq_true_eq]

end Numeral

/-! ### Texts of units -/

/-- The digits of a number of units, of which at least one stands before the fraction. -/
def fixedDigits (units : Int) (places : Nat) : List Char :=
  List.replicate (places + 1 - (naturalDigits units.natAbs).length) '0' ++
    naturalDigits units.natAbs

/-- The digits before the point. -/
def fixedWhole (units : Int) (places : Nat) : List Char :=
  (fixedDigits units places).take ((fixedDigits units places).length - places)

/-- The digits after the point. -/
def fixedFraction (units : Int) (places : Nat) : List Char :=
  (fixedDigits units places).drop ((fixedDigits units places).length - places)

section Units

variable (units : Int) (places : Nat)

theorem fixedText_eq : fixedText units places =
    (if units < 0 then ['-'] else []) ++ fixedWhole units places ++
      (if places = 0 then [] else '.' :: fixedFraction units places) := rfl

theorem fixedWhole_append_fixedFraction :
    fixedWhole units places ++ fixedFraction units places = fixedDigits units places :=
  List.take_append_drop _ _

theorem isDigit_of_mem_fixedDigits {c : Char} (member : c ∈ fixedDigits units places) :
    isDigit c := by
  rcases List.mem_append.mp member with zero | digit
  · rw [List.eq_of_mem_replicate zero]
    rfl
  · exact naturalDigits_isDigit c digit

theorem isDigit_of_mem_fixedWhole {c : Char} (member : c ∈ fixedWhole units places) :
    isDigit c := isDigit_of_mem_fixedDigits units places (List.mem_of_mem_take member)

theorem isDigit_of_mem_fixedFraction {c : Char} (member : c ∈ fixedFraction units places) :
    isDigit c := isDigit_of_mem_fixedDigits units places (List.mem_of_mem_drop member)

theorem digitsValue_fixedDigits : digitsValue (fixedDigits units places) = units.natAbs := by
  unfold fixedDigits
  rw [digitsValue_replicate_append, digitsValue_naturalDigits]

theorem lt_length_fixedDigits : places < (fixedDigits units places).length := by
  unfold fixedDigits
  rw [List.length_append, List.length_replicate]
  omega

theorem length_fixedFraction : (fixedFraction units places).length = places := by
  have long := lt_length_fixedDigits units places
  unfold fixedFraction
  rw [List.length_drop]
  omega

theorem fixedWhole_ne_nil : fixedWhole units places ≠ [] := by
  have long := lt_length_fixedDigits units places
  refine List.ne_nil_of_length_pos ?_
  unfold fixedWhole
  rw [List.length_take]
  omega

/-- Without the zeros in front there are the digits of the number, but none of zero. -/
theorem significant_fixedDigits :
    max 1 ((fixedDigits units places).dropWhile (· = '0')).length =
      (naturalDigits units.natAbs).length := by
  have zeros : ∀ c ∈ List.replicate (places + 1 - (naturalDigits units.natAbs).length) '0',
      decide (c = '0') = true := fun c member => decide_eq_true (List.eq_of_mem_replicate member)
  unfold fixedDigits
  rw [List.dropWhile_append_of_pos zeros]
  by_cases zero : units.natAbs = 0
  · rw [zero]
    rfl
  · have first : ∀ c ∈ (naturalDigits units.natAbs).head?, decide (c = '0') = false := by
      intro c head
      refine decide_eq_false fun same => naturalDigits_head zero ?_
      rw [← same]
      exact head
    have positive := List.length_pos_iff.mpr (naturalDigits_ne_nil units.natAbs)
    rw [dropWhile_of_head first]
    omega

/-! ### Reading -/

/-- The text of units without its sign. -/
def fixedBody : List Char :=
  fixedWhole units places ++ (if places = 0 then [] else '.' :: fixedFraction units places)

theorem mem_fixedBody {c : Char} (member : c ∈ fixedBody units places) : isDigit c ∨ c = '.' := by
  rcases List.mem_append.mp member with whole | fraction
  · exact .inl (isDigit_of_mem_fixedWhole units places whole)
  · split at fraction
    · cases fraction
    · rcases List.mem_cons.mp fraction with point | digit
      · exact .inr point
      · exact .inl (isDigit_of_mem_fixedFraction units places digit)

theorem splitFirst?_fixedBody :
    (Text.splitFirst? (· = '.') (fixedBody units places)).getD (fixedBody units places, []) =
      (fixedWhole units places, fixedFraction units places) := by
  have plain : ∀ c ∈ fixedWhole units places, decide (c = '.') = false := by
    intro c member
    have digit := isDigit_of_mem_fixedWhole units places member
    exact decide_eq_false (ne_of_isDigit digit rfl)
  unfold fixedBody
  split
  · next none =>
    have fraction : fixedFraction units places = [] := by
      rw [← List.length_eq_zero_iff, length_fixedFraction, none]
    rw [List.append_nil, splitFirst?_of_none plain, fraction]
    rfl
  · have point : decide ('.' = '.') = true := rfl
    rw [splitFirst?_append plain point]
    rfl

theorem fixedBody_head : ∃ c rest, fixedBody units places = c :: rest ∧ isDigit c := by
  unfold fixedBody
  cases whole : fixedWhole units places with
  | nil => exact absurd whole (fixedWhole_ne_nil units places)
  | cons c rest =>
    have member : c ∈ fixedWhole units places := by
      rw [whole]
      exact List.mem_cons_self
    exact ⟨c, _, rfl, isDigit_of_mem_fixedWhole units places member⟩

theorem fixedText_not_blank {c : Char} (member : c ∈ fixedText units places) :
    Text.isBlank c = false := by
  have signed : c ∈ (if units < 0 then ['-'] else []) ++ fixedBody units places := by
    rw [fixedText_eq, List.append_assoc] at member
    exact member
  rcases List.mem_append.mp signed with sign | body
  · split at sign
    · rw [List.mem_singleton.mp sign]
      rfl
    · cases sign
  · rcases mem_fixedBody units places body with digit | point
    · exact not_blank_of_isDigit digit
    · rw [point]
      rfl

/-- The sign of a text of units, which starts with a digit without one. -/
theorem splitSign_fixedBody :
    Numeral.splitSign ((if units < 0 then ['-'] else []) ++ fixedBody units places) =
      (decide (units < 0), fixedBody units places) := by
  by_cases negative : units < 0
  · rw [if_pos negative, decide_eq_true negative]
    rfl
  · obtain ⟨c, rest, first, digit⟩ := fixedBody_head units places
    have minus : c ≠ '-' := ne_of_isDigit digit rfl
    have plus : c ≠ '+' := ne_of_isDigit digit rfl
    rw [if_neg negative, decide_eq_false negative, List.nil_append, first]
    unfold Numeral.splitSign
    split
    · next same => exact absurd (List.cons.inj same).1 minus
    · next same => exact absurd (List.cons.inj same).1 plus
    · rfl

/-- **The text of units is a numeral for these units**, unless it has too many places. -/
theorem ofText?_fixedText :
    Numeral.ofText? (String.ofList (fixedText units places)) =
      if maxDecimalExponent < places then none
      else some ⟨units, -places, (naturalDigits units.natAbs).length⟩ := by
  have trimmed : Text.trim (String.ofList (fixedText units places)).toList =
      (if units < 0 then ['-'] else []) ++ fixedBody units places := by
    rw [String.toList_ofList, trim_of_not_blank fun c => fixedText_not_blank units places,
      fixedText_eq, List.append_assoc]
    rfl
  have marks : Text.splitFirst? Numeral.isExponentMark (fixedBody units places) = none := by
    refine splitFirst?_of_none fun c member => ?_
    rcases mem_fixedBody units places member with digit | point
    · exact isExponentMark_of_isDigit digit
    · rw [point]
      rfl
  have body : Numeral.splitExponent? (fixedBody units places) =
      some (fixedBody units places, 0) := by
    unfold Numeral.splitExponent?
    rw [marks]
  have digits : (fixedWhole units places ++ fixedFraction units places).all isDigit := by
    rw [fixedWhole_append_fixedFraction]
    exact List.all_eq_true.mpr fun c => isDigit_of_mem_fixedDigits units places
  have some : fixedWhole units places ++ fixedFraction units places ≠ [] :=
    List.append_ne_nil_of_left_ne_nil (fixedWhole_ne_nil units places) _
  have exponent : (-(places : Int)).natAbs = places := by omega
  have mantissa : (if units < 0 then -(units.natAbs : Int) else units.natAbs) = units := by
    split <;> omega
  rw [Numeral.ofText?_eq_bind, trimmed, splitSign_fixedBody, body, Option.bind_some,
    Numeral.ofMantissa?_of_digits (splitFirst?_fixedBody units places) digits some]
  simp only [fixedWhole_append_fixedFraction, length_fixedFraction, Int.zero_sub, exponent,
    digitsValue_fixedDigits, significant_fixedDigits, decide_eq_true_eq, mantissa]

end Units

end Reckoner
