/-
Open parentheses of a text, of its tokens and of the parser.

* `nestingStep`, `checkNesting_eq_ok` — the limit on nesting as a walk over the characters that
  keeps the open parentheses and the signs in a row.
* `checkNesting_part` — a part of a text is nested no deeper than the text.
* `depthAfter_lexFrom` — parentheses are tokens of their own, so the tokens leave as many of them
  open as the characters do.
* `Parse.step_openCount`, `Parse.foldlM_openCount` — the parser waits for as many closing
  parentheses as its tokens leave open.
* `checkNesting_semicolon` — **a semicolon outside of parentheses splits the check**: both sides
  are checked as if they stood alone.
-/

import Reckoner.Proofs.Expression.Steps
import Reckoner.Proofs.Expression.Tokens

namespace Reckoner

/-! ### The check as a walk -/

/-- The open parentheses after one more character. -/
def depthStep (depth : Nat) (c : Char) : Nat :=
  if c = '(' then depth + 1 else if c = ')' then depth - 1 else depth

/-- The open parentheses after a text. -/
def depthAfter (depth : Nat) (text : List Char) : Nat := text.foldl depthStep depth

/-- The signs in a row after one more character. -/
def signStep (signs : Nat) (c : Char) : Nat :=
  if c = '+' || c = '-' then signs + 1 else if Text.isBlank c then signs else 0

/-- The open parentheses and signs in a row after one more character, unless one of them passes the
limit. -/
def nestingStep (limit : Nat) (level : Nat × Nat) (c : Char) : Option (Nat × Nat) :=
  if limit < depthStep level.1 c && c = '(' || limit < signStep level.2 c && (c = '+' || c = '-')
  then none
  else some (depthStep level.1 c, signStep level.2 c)

theorem nestingStep_fst {limit : Nat} {level after : Nat × Nat} {c : Char}
    (stepped : nestingStep limit level c = some after) : after.1 = depthStep level.1 c := by
  unfold nestingStep at stepped
  split at stepped <;> cases stepped
  rfl

theorem foldlM_nestingStep_fst {limit : Nat} {text : List Char} {level after : Nat × Nat}
    (walked : text.foldlM (nestingStep limit) level = some after) :
    after.1 = depthAfter level.1 text := by
  induction text generalizing level with
  | nil =>
    cases walked
    rfl
  | cons c rest ih =>
    rw [List.foldlM_cons] at walked
    obtain ⟨between, stepped, remaining⟩ := Option.bind_eq_some_iff.mp walked
    rw [ih remaining, nestingStep_fst stepped]
    rfl

theorem checkNestingFrom_eq_ok {limit : Nat} (text : List Char) (depth signs offset : Nat) :
    checkNestingFrom limit depth signs offset text = .ok () ↔
      (text.foldlM (nestingStep limit) (depth, signs)).isSome := by
  induction text generalizing depth signs offset with
  | nil => exact iff_of_true rfl rfl
  | cons c rest ih =>
    rw [List.foldlM_cons, checkNestingFrom]
    by_cases opening : c = '('
    · subst opening
      by_cases deep : limit < depth + 1
      · simp [nestingStep, depthStep, deep]
      · simp [nestingStep, depthStep, signStep, deep, ih, show Text.isBlank '(' = false by decide]
    · by_cases closing : c = ')'
      · subst closing
        simp [nestingStep, depthStep, signStep, ih, show Text.isBlank ')' = false by decide]
      · by_cases sign : c = '+' ∨ c = '-'
        · by_cases long : limit < signs + 1
          · simp [nestingStep, signStep, opening, closing, sign, long]
          · simp [nestingStep, depthStep, signStep, opening, closing, sign, long, ih]
        · by_cases blank : Text.isBlank c
          · simp [nestingStep, depthStep, signStep, opening, closing, sign, blank, ih]
          · simp [nestingStep, depthStep, signStep, opening, closing, sign, blank, ih]

/-- A text keeps to the limit exactly when the walk over it does. -/
theorem checkNesting_eq_ok {limit : Nat} {text : List Char} :
    checkNesting limit text = .ok () ↔ (text.foldlM (nestingStep limit) (0, 0)).isSome :=
  checkNestingFrom_eq_ok text 0 0 0

/-! ### The check as two bounds -/

/-- The highest level of a walk over a text. -/
def highest (step : Nat → Char → Nat) (level : Nat) : List Char → Nat
  | [] => level
  | c :: rest => max level (highest step (step level c) rest)

/-- How deeply the parentheses of a text nest. -/
def parenthesisDepth (text : List Char) : Nat := highest depthStep 0 text

theorem le_highest (step : Nat → Char → Nat) (level : Nat) (text : List Char) :
    level ≤ highest step level text := by
  cases text with
  | nil => exact Nat.le_refl level
  | cons c rest => exact Nat.le_max_left _ _

theorem highest_append (step : Nat → Char → Nat) (level : Nat) (first second : List Char) :
    highest step level (first ++ second) =
      max (highest step level first) (highest step (first.foldl step level) second) := by
  induction first generalizing level with
  | nil =>
    show _ = max level (highest step level second)
    exact (Nat.max_eq_right (le_highest step level second)).symm
  | cons c rest ih =>
    rw [List.cons_append, highest, highest, ih, List.foldl_cons, Nat.max_assoc]

/-- **The limit bounds the open parentheses and the signs in a row**, each on its own. -/
theorem isSome_foldlM_nestingStep {limit : Nat} (text : List Char) {depth signs : Nat}
    (shallow : depth ≤ limit) (short : signs ≤ limit) :
    (text.foldlM (nestingStep limit) (depth, signs)).isSome ↔
      highest depthStep depth text ≤ limit ∧ highest signStep signs text ≤ limit := by
  induction text generalizing depth signs with
  | nil => exact iff_of_true rfl ⟨shallow, short⟩
  | cons c rest ih =>
    rw [List.foldlM_cons, highest, highest, Nat.max_le, Nat.max_le]
    by_cases deep : limit < depthStep depth c
    · have opening : c = '(' := by
        refine Decidable.byContradiction fun other => absurd deep ?_
        unfold depthStep
        rw [if_neg other]
        split <;> omega
      subst opening
      have passed := Nat.lt_of_lt_of_le deep (le_highest depthStep _ rest)
      rw [nestingStep, if_pos (by simp [deep])]
      refine iff_of_false (by simp) fun ⟨⟨_, bound⟩, _⟩ => ?_
      omega
    · by_cases long : limit < signStep signs c
      · have sign : c = '+' ∨ c = '-' := by
          refine Decidable.byContradiction fun other => absurd long ?_
          unfold signStep
          rw [if_neg (by simpa using other)]
          split <;> omega
        have passed := Nat.lt_of_lt_of_le long (le_highest signStep _ rest)
        rw [nestingStep, if_pos (by simp [sign, long])]
        refine iff_of_false (by simp) fun ⟨_, ⟨_, bound⟩⟩ => ?_
        omega
      · rw [nestingStep, if_neg (by simp [deep, long])]
        have walked := ih (Nat.le_of_not_lt deep) (Nat.le_of_not_lt long)
        simpa [shallow, short] using walked

theorem depthStep_mono {depth deeper : Nat} (le : depth ≤ deeper) (c : Char) :
    depthStep depth c ≤ depthStep deeper c := by
  unfold depthStep
  repeat' split
  all_goals omega

theorem signStep_mono {signs more : Nat} (le : signs ≤ more) (c : Char) :
    signStep signs c ≤ signStep more c := by
  unfold signStep
  repeat' split
  all_goals omega

/-- A walk that starts at a higher level stays higher. -/
theorem highest_mono {step : Nat → Char → Nat}
    (mono : ∀ {level higher : Nat}, level ≤ higher → ∀ c, step level c ≤ step higher c)
    (text : List Char) {level higher : Nat} (le : level ≤ higher) :
    highest step level text ≤ highest step higher text := by
  induction text generalizing level higher with
  | nil => exact le
  | cons c rest ih =>
    have later := ih (mono le c)
    rw [highest, highest]
    omega

/-- **A part of a text is nested no deeper than the text.** -/
theorem checkNesting_part {limit : Nat} {before part after : List Char}
    (shallow : checkNesting limit (before ++ part ++ after) = .ok ()) :
    checkNesting limit part = .ok () := by
  have walk (text : List Char) := isSome_foldlM_nestingStep text (Nat.zero_le limit)
    (Nat.zero_le limit)
  rw [checkNesting_eq_ok, walk, highest_append, highest_append, highest_append, highest_append]
    at shallow
  rw [checkNesting_eq_ok, walk]
  have deep := highest_mono depthStep_mono part (Nat.zero_le (before.foldl depthStep 0))
  have long := highest_mono signStep_mono part (Nat.zero_le (before.foldl signStep 0))
  omega

/-! ### Parentheses among the tokens -/

/-- The open parentheses after one more token. -/
def Token.depthStep (depth : Nat) : Token → Nat
  | opening => depth + 1
  | closing => depth - 1
  | _ => depth

theorem depthAfter_append (depth : Nat) (first second : List Char) :
    depthAfter depth (first ++ second) = depthAfter (depthAfter depth first) second :=
  List.foldl_append

theorem depthStep_of_ne {depth : Nat} {c : Char} (notOpening : c ≠ '(') (notClosing : c ≠ ')') :
    depthStep depth c = depth := by
  rw [depthStep, if_neg notOpening, if_neg notClosing]

/-- A text without parentheses nests nothing. -/
theorem parenthesisDepth_of_plain {text : List Char} (plain : ∀ c ∈ text, c ≠ '(' ∧ c ≠ ')') :
    parenthesisDepth text = 0 := by
  unfold parenthesisDepth
  induction text with
  | nil => rfl
  | cons c rest ih =>
    obtain ⟨⟨opening, closing⟩, later⟩ := List.forall_mem_cons.mp plain
    rw [highest, depthStep_of_ne opening closing, ih later]
    rfl

/-- Characters that separate no tokens are no parentheses. -/
theorem depthStep_of_not_separates {depth : Nat} {c : Char} (inner : separates c = false) :
    depthStep depth c = depth := by
  refine depthStep_of_ne ?_ ?_ <;> rintro rfl <;> revert inner <;> decide

theorem depthAfter_of_not_separates {depth : Nat} {text : List Char}
    (inner : ∀ c ∈ text, separates c = false) : depthAfter depth text = depth := by
  induction text with
  | nil => rfl
  | cons c rest ih =>
    obtain ⟨first, others⟩ := List.forall_mem_cons.mp inner
    rw [depthAfter, List.foldl_cons, depthStep_of_not_separates first]
    exact ih others

theorem Token.depthStep_ofChar (depth : Nat) (c : Char) :
    (Token.ofChar c).depthStep depth = Reckoner.depthStep depth c := by
  by_cases opening : c = '('
  · subst opening
    rfl
  · by_cases closing : c = ')'
    · subst closing
      rfl
    · rw [depthStep_of_ne opening closing]
      unfold Token.ofChar
      split <;> first | rfl | contradiction

/-- A token of several characters has no parentheses, so a token changes the depth as its characters
do. -/
theorem Token.depthStep_longest (depth : Nat) (c : Char) (rest : List Char) :
    (Token.longest c rest).1.depthStep depth =
      depthAfter depth (c :: rest.take (Token.longest c rest).2) := by
  have inner {length : Nat} (some : length ≠ 0)
      (inner : ∀ x ∈ (c :: rest).take length, separates x = false) :
      depthAfter depth (c :: rest.take (length - 1)) = depth := by
    obtain ⟨length, rfl⟩ := Nat.exists_eq_succ_of_ne_zero some
    exact depthAfter_of_not_separates inner
  rcases Token.longest_cases c rest with ⟨number, longest⟩ | ⟨_, name, longest⟩ |
      ⟨_, _, rfl, equals, longest⟩ | ⟨_, _, _, longest⟩
  · rw [longest, inner number fun x => not_separates_of_mem_take numberLength_append
      numberLength_le]
    rfl
  · rw [longest, inner name fun x => not_separates_of_mem_take nameLength_append nameLength_le]
    rfl
  · rw [longest]
    cases rest with
    | nil => cases equals
    | cons next rest =>
      cases equals
      rfl
  · rw [longest, Token.depthStep_ofChar]
    rfl

theorem depthStep_of_isSpace {depth : Nat} {c : Char} (space : isSpace c) :
    depthStep depth c = depth := by
  refine depthStep_of_ne ?_ ?_ <;> rintro rfl <;> revert space <;> decide

/-- **The tokens of a text leave as many parentheses open as its characters do.** -/
theorem depthAfter_lexFrom (text : List Char) (skipped offset depth : Nat) :
    (lexFrom skipped offset text).foldl (fun depth lexeme => lexeme.token.depthStep depth) depth =
      depthAfter depth (text.drop skipped) := by
  induction text generalizing skipped offset depth with
  | nil =>
    rw [List.drop_nil]
    rfl
  | cons c rest ih =>
    cases skipped with
    | succ skipped => rw [lexFrom, List.drop_succ_cons, ih]
    | zero =>
      cases visible : isSpace c with
      | true =>
        rw [lexFrom_space visible, ih, List.drop_zero, List.drop_zero, depthAfter, depthAfter,
          List.foldl_cons, depthStep_of_isSpace visible]
      | false =>
        have split : c :: rest = (c :: rest.take (Token.longest c rest).2) ++
            rest.drop (Token.longest c rest).2 := by
          rw [List.cons_append, List.take_append_drop]
        rw [lexFrom_token visible, List.foldl_cons, ih, Token.depthStep_longest, List.drop_zero,
          ← depthAfter_append, ← split]

/-! ### Parentheses that the parser waits for -/

namespace Parse

/-- How many open parentheses a state waits in. -/
def openCount (state : Parse) : Nat := state.waiting.countP Waiting.isOpen

/-- Operators take operands, not parentheses. -/
theorem countP_reduce (threshold : Nat) (waiting : List Waiting) (e : Expr) :
    (reduce threshold waiting e).1.countP Waiting.isOpen = waiting.countP Waiting.isOpen := by
  induction waiting generalizing e with
  | nil => rfl
  | cons wait rest ih =>
    cases wait with
    | sign sign start =>
      rw [reduce]
      split
      · rw [ih]
        rfl
      · rfl
    | infixOp op left =>
      rw [reduce]
      split
      · rw [ih]
        rfl
      · rfl
    | group => rfl
    | call name nameSpan arguments => rfl

/-- A token changes the parentheses that the parser waits in as it changes the depth. -/
theorem Moves.openCount_eq {state after : Parse} {lexeme : Lexeme}
    (moves : Moves state lexeme after) :
    after.openCount = lexeme.token.depthStep state.openCount := by
  have count {threshold : Nat} {e whole : Expr} {waiting : List Waiting}
      (reduced : reduce threshold state.waiting e = (waiting, whole)) :
      state.openCount = waiting.countP Waiting.isOpen := by
    rw [openCount, ← countP_reduce threshold state.waiting e, reduced]
  have opened {wait : Waiting} (isOpen : wait.isOpen) (rest : List Waiting) :
      (wait :: rest).countP Waiting.isOpen = rest.countP Waiting.isOpen + 1 :=
    List.countP_cons_of_pos isOpen
  cases moves with
  | number due token => rw [token]; rfl
  | name due token => rw [token]; rfl
  | opening due token => rw [token, openCount, opened rfl]; rfl
  | sign due token signs => rw [token]; rfl
  | empty due token waiting => rw [token, openCount, openCount, waiting, opened rfl]; rfl
  | calling named token => rw [token, openCount, opened rfl]; rfl
  | becomes named token alone first => rw [token]; rfl
  | infixOp operand token reduced => rw [token, count reduced]; rfl
  | group operand token reduced => rw [token, count reduced, opened rfl]; rfl
  | call operand token reduced => rw [token, count reduced, opened rfl]; rfl
  | comma operand token reduced => rw [token, count reduced, openCount, opened rfl, opened rfl]; rfl
  | semicolon operand token reduced => rw [token, count reduced]; rfl

/-- **The parser waits for as many closing parentheses as the tokens so far leave open.** -/
theorem foldlM_openCount {lexemes : List Lexeme} {state after : Parse}
    (walked : lexemes.foldlM step state = .ok after) :
    after.openCount =
      lexemes.foldl (fun depth lexeme => lexeme.token.depthStep depth) state.openCount := by
  induction lexemes generalizing state with
  | nil =>
    cases walked
    rfl
  | cons lexeme rest ih =>
    obtain ⟨between, stepped, remaining⟩ := foldlM_cons_eq_ok.mp walked
    rw [ih remaining, (step_eq_ok.mp stepped).openCount_eq]
    rfl

end Parse

/-! ### A text around a semicolon -/

/-- **A semicolon outside of parentheses splits the check**: both sides are checked as if they
stood alone. -/
theorem checkNesting_semicolon {limit : Nat} {first second : List Char}
    (closed : depthAfter 0 first = 0) :
    checkNesting limit (first ++ ';' :: second) = .ok () ↔
      checkNesting limit first = .ok () ∧ checkNesting limit second = .ok () := by
  have semicolon (signs : Nat) : nestingStep limit (0, signs) ';' = some (0, 0) := by
    simp [nestingStep, depthStep, signStep, show Text.isBlank ';' = false by decide]
  rw [checkNesting_eq_ok, checkNesting_eq_ok, checkNesting_eq_ok, List.foldlM_append]
  cases walked : first.foldlM (nestingStep limit) (0, 0) with
  | none => simp
  | some level =>
    obtain ⟨depth, signs⟩ := level
    have depthZero : depth = 0 := (foldlM_nestingStep_fst walked).trans closed
    subst depthZero
    simp only [Option.bind_eq_bind, Option.bind_some, List.foldlM_cons, semicolon, Option.isSome_some,
      true_and]

end Reckoner
