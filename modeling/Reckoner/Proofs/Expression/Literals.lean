/-
Numbers in programs, from their characters to their rounded values.

* `Converted` — what reading a rational at a precision promises: short values are kept, the result
  lies on the side of the direction, and it is off by two last bits at most.
* `Numeral.toNumber_converted` — **a numeral is converted**, though a long mantissa is cut before
  the quotient is rounded.
* `NumberText.parse_text` — a number alone is a program of one literal.
* `NumberText.literal_converted` — **every number of the grammar is accepted exactly if its scale is
  near enough to zero, and means its value; evaluation reports the others**.
-/

import Reckoner.Proofs.Evaluation.State
import Reckoner.Proofs.Expression.Numerals
import Reckoner.Proofs.Expression.Printing
import Reckoner.Proofs.Number.Quotient

namespace Reckoner

/-! ### Conversions -/

/-- What reading a rational with `p` bits promises. -/
structure Converted (mode : Rounding) (p : Nat) (exact result : Rat) : Prop where
  kept : ∀ m e : Int, exact = m * 2 ^ e → m.natAbs < 2 ^ p → result = exact
  directed : mode.Directs exact result
  near : |result - exact| ≤ 2 ^ (2 - p : Int) * |exact|

namespace Numeral

/-- **A numeral is converted**, in one rounding or in two. -/
theorem toNumber_converted (numeral : Numeral) (ctx : Context) :
    Converted ctx.rounding ctx.bits numeral.value (numeral.toNumber ctx).value.toRat where
  kept m e written small := by
    have exact : (Dyadic.scaled m e).toRat = numeral.value := by
      rw [Dyadic.toRat_scaled, written]
    rw [toNumber_eq exact (Dyadic.length_scaled_le (bitLength_le_iff.mpr small) e), exact]
  directed := by
    by_cases integer : 0 ≤ numeral.exponent
    · obtain ⟨z, exact, read⟩ := toNumber_of_nonneg integer ctx
      rw [read, ← exact]
      exact (Dyadic.cut_roundedAt _ _ z).directs
    · obtain ⟨divisor, positive, product, read⟩ := toNumber_of_neg integer ctx
      rw [read, eq_div_of_mul_eq positive.ne' product]
      exact Dyadic.quotient_directs (Number.positive_bits ctx) _ positive
  near := by
    rw [← two_mul_lastBit]
    by_cases integer : 0 ≤ numeral.exponent
    · obtain ⟨z, exact, read⟩ := toNumber_of_nonneg integer ctx
      rw [read, ← exact]
      exact (Dyadic.cut_offBy _ _ z).mono
        (le_trans (lastBit_le_slack _) (slack_le_two_mul_lastBit _))
    · obtain ⟨divisor, positive, product, read⟩ := toNumber_of_neg integer ctx
      have nonzero : divisor ≠ 0 := mt Dyadic.toRat_eq_zero_iff.mpr positive.ne'
      rw [read, eq_div_of_mul_eq positive.ne' product]
      exact (Dyadic.quotient_offBy ctx.minPrecision_le _ _ nonzero).mono
        (slack_le_two_mul_lastBit _)

end Numeral

/-! ### Texts -/

namespace NumberText

variable (number : NumberText)

/-- The text of a number. -/
def text : String := String.ofList number.chars

theorem toList_text : number.text.toList = number.chars := String.toList_ofList

theorem isNumber_text : IsNumber number.text.toList := ⟨number, number.toList_text.symm⟩

/-- What a number is read as, unless its scale is too far from zero. -/
def numeral : Numeral where
  mantissa := digitsValue number.digits
  exponent := number.scale
  digits := max 1 (number.digits.dropWhile (· = '0')).length

/-- Reading the text of a number, at any precision. -/
theorem fromDecimal_text (bits : Nat) (mode : Rounding) :
    Number.fromDecimal number.text bits mode =
      if maxDecimalExponent < number.scale.natAbs then .error ⟨number.text⟩
      else .ok (number.numeral.toNumber (.ofBits bits mode)) := by
  unfold Number.fromDecimal Number.readAt
  rw [number.ofText?_chars number.toList_text.symm]
  by_cases far : maxDecimalExponent < number.scale.natAbs
  · rw [if_pos far, if_pos far]
  · rw [if_neg far, if_neg far]
    rfl

/-! ### Programs of one number -/

theorem not_parenthesis {c : Char} (member : c ∈ number.chars) : c ≠ '(' ∧ c ≠ ')' := by
  have others : ['.', 'e', 'E', '+', '-'].all (fun c => c ≠ '(' && c ≠ ')') = true := rfl
  rcases number.mem_chars member with digit | other
  · exact ⟨ne_of_isDigit digit rfl, ne_of_isDigit digit rfl⟩
  · have plain := List.all_eq_true.mp others c other
    simpa only [Bool.and_eq_true, decide_eq_true_eq] using plain

/-- The grammar generates a number as the literal of that number. -/
theorem generates_text :
    Generates number.text.toList [.expr (.number number.text .nowhere)] := by
  have parted : Parted [] := trivial
  have longest := numberLength_measures.longest_of_parted numberLength_append
    number.isNumber_text parted
  have spelled := Spelled.number longest .nil
  rw [List.append_nil, String.ofList_toList] at spelled
  have derives : Derives .sum [.number number.text] (.number number.text .nowhere) :=
    Derives.loosen (.number number.text) (by decide)
  refine ⟨[.number number.text], spelled,
    [([.number number.text], .expr (.number number.text .nowhere))], List.cons_ne_nil _ _,
    ?_, rfl, .inl rfl⟩
  exact List.forall_mem_singleton.mpr (.expr derives)

/-- **A number alone is a program of one literal.** -/
theorem parse_text : ∃ span, parse number.text = .ok [.expr (.number number.text span)] := by
  have shallow : checkNesting defaultNesting number.text.toList = .ok () := by
    refine checkNesting_of_calm number.isNumber_text.calm (by decide) ?_
    rw [toList_text, parenthesisDepth_of_plain fun c => number.not_parenthesis]
    exact Nat.zero_le _
  obtain ⟨program, parsed, same⟩ := parseWithin_of_generates shallow number.generates_text
  match program, same with
  | [.expr (.number other span)], same =>
    cases same
    exact ⟨span, parsed⟩

/-- **A literal whose scale is too far from zero is reported**, wherever it stands in a program. -/
theorem eval_text_of_far (far : maxDecimalExponent < number.scale.natAbs) (env : Environment)
    (levels : Nat) (span : Span) (state : EvalState) :
    eval env (levels + 2) (.number number.text span) state =
      (.error (.parse ⟨.invalidNumber number.text, span⟩), state) := by
  have refused := number.fromDecimal_text env.options.context.bits env.options.context.rounding
  rw [if_pos far] at refused
  rw [eval, node, literal, refused]
  rfl

/-- So is one that is a program of its own. -/
theorem evaluate_text_of_far (far : maxDecimalExponent < number.scale.natAbs)
    (table : SymbolTable) (scripts : ScriptRegistry) {options : EvalOptions}
    (deep : 0 < options.maxDepth) :
    ∃ span, evaluate number.text table scripts options =
      (.error (.parse ⟨.invalidNumber number.text, span⟩), table) := by
  obtain ⟨span, parsed⟩ := number.parse_text
  obtain ⟨levels, enough⟩ : ∃ levels, options.maxDepth + 1 = levels + 2 :=
    ⟨options.maxDepth - 1, by omega⟩
  have single (env : Environment) (child : Expr → Eval Number) (e : Expr) :
      run env child [.expr e] = child e >>= pure := rfl
  refine ⟨span, ?_⟩
  unfold evaluate
  rw [parsed, enough]
  simp only [single, Eval.run_bind, number.eval_text_of_far far]

/-- **Every number of the grammar means its value.** -/
theorem literal_converted (number : NumberText) :
    (∀ bits mode,
      ((∃ x, Number.fromDecimal number.text bits mode = .ok x) ↔
        number.scale.natAbs ≤ maxDecimalExponent) ∧
      ∀ x, Number.fromDecimal number.text bits mode = .ok x →
        Converted mode (Context.ofBits bits mode).bits number.value x.value.toRat) ∧
    (maxDecimalExponent < number.scale.natAbs →
      (∀ env levels span state, eval env (levels + 2) (.number number.text span) state =
        (.error (.parse ⟨.invalidNumber number.text, span⟩), state)) ∧
      ∀ table scripts options, 0 < options.maxDepth → ∃ span,
        evaluate number.text table scripts options =
          (.error (.parse ⟨.invalidNumber number.text, span⟩), table)) := by
  refine ⟨fun bits mode => ?_, fun far => ⟨number.eval_text_of_far far,
    fun table scripts options => number.evaluate_text_of_far far table scripts⟩⟩
  rw [fromDecimal_text]
  by_cases far : maxDecimalExponent < number.scale.natAbs
  · rw [if_pos far]
    exact ⟨iff_of_false nofun (Nat.not_le.mpr far), nofun⟩
  · rw [if_neg far]
    refine ⟨iff_of_true ⟨_, rfl⟩ (Nat.not_lt.mp far), ?_⟩
    rintro _ ⟨⟩
    exact number.numeral.toNumber_converted (.ofBits bits mode)

end NumberText

end Reckoner
