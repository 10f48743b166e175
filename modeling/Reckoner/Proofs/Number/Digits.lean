/-
Decimal digits and the numbers that they write.

* `digitsValue_append` — the number of one list of digits after another.
* `naturalDigits_isDigit`, `digitsValue_naturalDigits`, `naturalDigits_head` — **the digits of a
  number are digits that write it**, without a zero in front.
-/

import Reckoner.Number.Decimal

namespace Reckoner

/-! ### Digits and other characters -/

theorem isDigit_iff {c : Char} : isDigit c ↔ 48 ≤ c.toNat ∧ c.toNat ≤ 57 := by
  simp only [isDigit, Bool.and_eq_true, decide_eq_true_eq]
  exact Iff.rfl

theorem not_blank_of_isDigit {c : Char} (digit : isDigit c) : Text.isBlank c = false := by
  have codes : ∀ code < 58, 48 ≤ code → Text.blankCodes.contains code = false := by decide
  obtain ⟨lower, upper⟩ := isDigit_iff.mp digit
  exact codes c.toNat (Nat.lt_succ_of_le upper) lower

theorem ne_of_isDigit {c other : Char} (digit : isDigit c) (different : isDigit other = false) :
    c ≠ other := by
  intro same
  rw [same, different] at digit
  exact Bool.false_ne_true digit

theorem isExponentMark_of_isDigit {c : Char} (digit : isDigit c) :
    Numeral.isExponentMark c = false := by
  have lower : c ≠ 'e' := ne_of_isDigit digit rfl
  have upper : c ≠ 'E' := ne_of_isDigit digit rfl
  simp only [Numeral.isExponentMark, lower, upper, decide_false, Bool.or_false]

/-! ### Lists of digits -/

theorem digitsValue_foldl (digits : List Char) (start : Nat) :
    digits.foldl (fun n c => 10 * n + digitValue c) start =
      start * 10 ^ digits.length + digitsValue digits := by
  unfold digitsValue
  induction digits generalizing start with
  | nil => simp
  | cons c rest ih =>
    rw [List.foldl_cons, List.foldl_cons, ih, ih (10 * 0 + digitValue c), List.length_cons,
      Nat.pow_succ, Nat.add_mul, Nat.mul_zero, Nat.zero_add, Nat.mul_comm 10 start,
      Nat.mul_assoc, Nat.mul_comm 10 (10 ^ rest.length), Nat.add_assoc]

theorem digitsValue_append (front back : List Char) :
    digitsValue (front ++ back) = digitsValue front * 10 ^ back.length + digitsValue back := by
  have unfolded : digitsValue (front ++ back) =
      back.foldl (fun n c => 10 * n + digitValue c) (digitsValue front) := List.foldl_append
  rw [unfolded, digitsValue_foldl]

theorem digitsValue_singleton (c : Char) : digitsValue [c] = digitValue c := by
  simp [digitsValue]

theorem digitsValue_cons (c : Char) (rest : List Char) :
    digitsValue (c :: rest) = digitValue c * 10 ^ rest.length + digitsValue rest := by
  rw [← List.singleton_append, digitsValue_append, digitsValue_singleton]

/-- Zeros in front change nothing. -/
theorem digitsValue_replicate_append (zeros : Nat) (digits : List Char) :
    digitsValue (List.replicate zeros '0' ++ digits) = digitsValue digits := by
  induction zeros with
  | zero => rfl
  | succ zeros ih =>
    have nothing : digitValue '0' = 0 := rfl
    rw [List.replicate_succ, List.cons_append, digitsValue_cons, ih, nothing, Nat.zero_mul,
      Nat.zero_add]

/-- A zero at the end multiplies by ten. -/
theorem digitsValue_append_zero (digits : List Char) :
    digitsValue (digits ++ ['0']) = 10 * digitsValue digits := by
  have nothing : digitValue '0' = 0 := rfl
  rw [digitsValue_append, digitsValue_singleton, nothing, List.length_singleton, Nat.pow_one,
    Nat.add_zero, Nat.mul_comm]

/-! ### The digits of a number -/

theorem digitChar_spec (n : Nat) : isDigit (digitChar n) ∧ digitValue (digitChar n) = n % 10 := by
  have every : ∀ d < 10, isDigit (Char.ofNat (48 + d)) ∧ digitValue (Char.ofNat (48 + d)) = d := by
    decide
  exact every (n % 10) (Nat.mod_lt n (by decide))

theorem digitChar_ne_zero {n : Nat} (nonzero : n % 10 ≠ 0) : digitChar n ≠ '0' := by
  intro zero
  have value := (digitChar_spec n).2
  rw [zero] at value
  exact nonzero value.symm

theorem paddedDigits_isDigit {k n : Nat} : ∀ c ∈ paddedDigits k n, isDigit c := by
  induction k generalizing n with
  | zero =>
    intro c member
    rw [paddedDigits, List.mem_singleton] at member
    rw [member]
    exact (digitChar_spec n).1
  | succ k ih =>
    intro c member
    rw [paddedDigits, List.mem_append] at member
    exact member.elim (ih c) (ih c)

theorem length_paddedDigits (k n : Nat) : (paddedDigits k n).length = 2 ^ k := by
  induction k generalizing n with
  | zero => rfl
  | succ k ih =>
    rw [paddedDigits, List.length_append, ih, ih, Nat.pow_succ]
    omega

theorem digitsValue_paddedDigits (k n : Nat) :
    digitsValue (paddedDigits k n) = n % 10 ^ 2 ^ k := by
  induction k generalizing n with
  | zero =>
    rw [paddedDigits, digitsValue_singleton, (digitChar_spec n).2]
    rfl
  | succ k ih =>
    have square : 10 ^ 2 ^ (k + 1) = 10 ^ 2 ^ k * 10 ^ 2 ^ k := by
      rw [← Nat.pow_add, Nat.pow_succ, Nat.mul_two]
    rw [paddedDigits, digitsValue_append, ih, ih, length_paddedDigits, square, Nat.mod_mod,
      Nat.mod_mul, Nat.add_comm, Nat.mul_comm]

theorem significantDigits_isDigit {k n : Nat} : ∀ c ∈ significantDigits k n, isDigit c := by
  induction k generalizing n with
  | zero =>
    intro c member
    rw [significantDigits] at member
    split at member
    · cases member
    · rw [List.mem_singleton] at member
      rw [member]
      exact (digitChar_spec n).1
  | succ k ih =>
    intro c member
    simp only [significantDigits] at member
    split at member
    · exact ih c member
    · rw [List.mem_append] at member
      exact member.elim (ih c) (paddedDigits_isDigit c)

/-- A number below the square of a unit has a quotient below the unit. -/
theorem div_unit_lt {k n : Nat} (bound : n < 10 ^ 2 ^ (k + 1)) : n / 10 ^ 2 ^ k < 10 ^ 2 ^ k := by
  rw [Nat.pow_succ, Nat.mul_two, Nat.pow_add] at bound
  exact Nat.div_lt_of_lt_mul bound

theorem digitsValue_significantDigits {k n : Nat} (bound : n < 10 ^ 2 ^ k) :
    digitsValue (significantDigits k n) = n := by
  induction k generalizing n with
  | zero =>
    rw [significantDigits]
    split
    · next zero =>
      rw [zero]
      rfl
    · have small : n < 10 := bound
      rw [digitsValue_singleton, (digitChar_spec n).2, Nat.mod_eq_of_lt small]
  | succ k ih =>
    simp only [significantDigits]
    split
    · next small => exact ih small
    · rw [digitsValue_append, ih (div_unit_lt bound), length_paddedDigits,
        digitsValue_paddedDigits, Nat.mod_mod, Nat.mul_comm]
      exact Nat.div_add_mod n (10 ^ 2 ^ k)

theorem significantDigits_ne_nil {k n : Nat} (bound : n < 10 ^ 2 ^ k) (nonzero : n ≠ 0) :
    significantDigits k n ≠ [] := by
  intro empty
  have value := digitsValue_significantDigits bound
  rw [empty] at value
  exact nonzero value.symm

theorem significantDigits_head {k n : Nat} (bound : n < 10 ^ 2 ^ k) (nonzero : n ≠ 0) :
    (significantDigits k n).head? ≠ some '0' := by
  induction k generalizing n with
  | zero =>
    have small : n < 10 := bound
    rw [significantDigits, if_neg nonzero, List.head?_cons]
    intro zero
    refine digitChar_ne_zero ?_ (Option.some.inj zero)
    omega
  | succ k ih =>
    simp only [significantDigits]
    split
    · next small => exact ih small nonzero
    · next large =>
      have quotient := div_unit_lt bound
      have positive : n / 10 ^ 2 ^ k ≠ 0 :=
        Nat.ne_of_gt (Nat.div_pos (Nat.le_of_not_lt large) (Nat.pow_pos (by decide)))
      have first := ih quotient positive
      cases digits : significantDigits k (n / 10 ^ 2 ^ k) with
      | nil => exact absurd digits (significantDigits_ne_nil quotient positive)
      | cons c rest =>
        rw [digits] at first
        exact first

theorem lt_bitLength_bitLength (n : Nat) : n < 10 ^ 2 ^ bitLength (bitLength n) := by
  have bits : ∀ m : Nat, m < 2 ^ bitLength m := by
    intro m
    unfold bitLength
    split
    · next zero => omega
    · exact Nat.lt_log2_self
  have length := bits (bitLength n)
  have wider : 2 ^ bitLength n ≤ 2 ^ 2 ^ bitLength (bitLength n) :=
    Nat.pow_le_pow_right (by decide) (Nat.le_of_lt length)
  have base : 2 ^ 2 ^ bitLength (bitLength n) ≤ 10 ^ 2 ^ bitLength (bitLength n) :=
    Nat.pow_le_pow_left (by decide) _
  exact Nat.lt_of_lt_of_le (bits n) (Nat.le_trans wider base)

theorem naturalDigits_isDigit {n : Nat} : ∀ c ∈ naturalDigits n, isDigit c := by
  intro c member
  unfold naturalDigits at member
  split at member
  · rw [List.mem_singleton] at member
    rw [member]
    rfl
  · exact significantDigits_isDigit c member

/-- **The digits of a number write the number.** -/
theorem digitsValue_naturalDigits (n : Nat) : digitsValue (naturalDigits n) = n := by
  unfold naturalDigits
  split
  · next zero =>
    rw [zero]
    rfl
  · exact digitsValue_significantDigits (lt_bitLength_bitLength n)

theorem naturalDigits_ne_nil (n : Nat) : naturalDigits n ≠ [] := by
  unfold naturalDigits
  split
  · exact List.cons_ne_nil _ _
  · next nonzero => exact significantDigits_ne_nil (lt_bitLength_bitLength n) nonzero

theorem naturalDigits_cons (n : Nat) : ∃ c more, naturalDigits n = c :: more ∧ isDigit c := by
  cases digits : naturalDigits n with
  | nil => exact absurd digits (naturalDigits_ne_nil n)
  | cons c more =>
    have member : c ∈ naturalDigits n := by
      rw [digits]
      exact List.mem_cons_self
    exact ⟨c, more, rfl, naturalDigits_isDigit c member⟩

/-- Only zero starts with a zero. -/
theorem naturalDigits_head {n : Nat} (nonzero : n ≠ 0) : (naturalDigits n).head? ≠ some '0' := by
  unfold naturalDigits
  rw [if_neg nonzero]
  exact significantDigits_head (lt_bitLength_bitLength n) nonzero

end Reckoner
