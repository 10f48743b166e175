/-
The text of a tree, read back.

* `Expr.WellSpelled` — trees of any shape whose numbers and names are spelled as the lexer wants
  them.
* `Calm` — a text in which signs stand alone. The limit on nesting bounds only its parentheses.
* `Expr.WellSpelled.reads` — **the text of a tree spells tokens that derive the tree**, whatever
  separate character follows it.
* `parseWithin_text` — **the text of a tree parses to the tree**, but for its places, within every
  limit that bounds its parentheses.
-/

import Reckoner.Proofs.Expression.Derivation

namespace Reckoner

/-- Trees whose numbers and names are spelled as the grammar has them. They need not come from a
text. -/
inductive Expr.WellSpelled : Expr → Prop where
  | number {text : String} {span : Span} (spelled : IsNumber text.toList) :
      WellSpelled (.number text span)
  | ident {name : String} {span : Span} (spelled : IsName name.toList) :
      WellSpelled (.ident name span)
  | unary {sign : Sign} {operand : Expr} {span : Span} (well : WellSpelled operand) :
      WellSpelled (.unary sign operand span)
  | binary {op : BinaryOp} {left right : Expr} {span : Span} (first : WellSpelled left)
      (second : WellSpelled right) : WellSpelled (.binary op left right span)
  | call {name : String} {nameSpan span : Span} {arguments : List Expr}
      (spelled : IsName name.toList) (each : ∀ argument ∈ arguments, WellSpelled argument) :
      WellSpelled (.call name nameSpan arguments span)

/-! ### Signs in a row -/

/-- A text with no two signs in a row, none at its start after another one, and none at its end. -/
def Calm (text : List Char) : Prop :=
  ∀ signs ≤ 1, highest signStep signs text ≤ 1 ∧ text.foldl signStep signs = 0

theorem foldl_le_highest (step : Nat → Char → Nat) (level : Nat) (text : List Char) :
    text.foldl step level ≤ highest step level text := by
  induction text generalizing level with
  | nil => exact Nat.le_refl level
  | cons c rest ih => exact Nat.le_trans (ih _) (Nat.le_max_right _ _)

/-- Between two calm texts there may be a sign. -/
theorem Calm.around {first second : List Char} (before : Calm first) (gap : List Char)
    (alone : highest signStep 0 gap ≤ 1) (after : Calm second) :
    Calm (first ++ (gap ++ second)) := by
  intro signs few
  obtain ⟨low, rests⟩ := before signs few
  obtain ⟨low', rests'⟩ := after _ (Nat.le_trans (foldl_le_highest signStep 0 gap) alone)
  rw [highest_append, highest_append, List.foldl_append, List.foldl_append, rests]
  exact ⟨Nat.max_le.mpr ⟨low, Nat.max_le.mpr ⟨alone, low'⟩⟩, rests'⟩

theorem Calm.append {first second : List Char} (before : Calm first) (after : Calm second) :
    Calm (first ++ second) := before.around [] (Nat.zero_le 1) after

/-- Whether a character ends a row of signs. -/
def isPlain (c : Char) : Bool := c ≠ '+' && c ≠ '-' && !Text.isBlank c

theorem calm_of_plain {text : List Char} (some : text ≠ []) (plain : text.all isPlain) :
    Calm text := by
  have single {c : Char} (plain : isPlain c) : Calm [c] := by
    intro signs few
    have zero : signStep signs c = 0 := by
      simp only [isPlain, Bool.and_eq_true, decide_eq_true_eq, Bool.not_eq_true'] at plain
      obtain ⟨⟨notPlus, notMinus⟩, notBlank⟩ := plain
      simp [signStep, notPlus, notMinus, notBlank]
    rw [highest, highest, List.foldl_cons, List.foldl_nil, zero]
    exact ⟨by omega, rfl⟩
  induction text with
  | nil => exact absurd rfl some
  | cons c rest ih =>
    obtain ⟨first, others⟩ := List.all_cons.symm ▸ plain |> Bool.and_eq_true_iff.mp
    by_cases last : rest = []
    · subst last
      exact single first
    · exact (single first).append (ih last others)

/-- The characters of names have codes between those of zero and of the last small letter. -/
theorem code_of_isNameChar {c : Char} (named : isNameChar c) : 48 ≤ c.toNat ∧ c.toNat ≤ 122 := by
  simp only [isNameChar, isLetter, isDigit, Bool.or_eq_true, Bool.and_eq_true, decide_eq_true_eq,
    Char.le_def, UInt32.le_iff_toNat_le] at named
  rcases named with ((⟨first, last⟩ | ⟨first, last⟩) | rfl) | ⟨first, last⟩
  · exact ⟨Nat.le_trans (by decide) first, last⟩
  · exact ⟨Nat.le_trans (by decide) first, Nat.le_trans last (by decide)⟩
  · decide
  · exact ⟨first, Nat.le_trans last (by decide)⟩

theorem isPlain_of_isNameChar {c : Char} (named : isNameChar c) : isPlain c := by
  have notBlank : Text.isBlank c = false := by
    rw [Bool.eq_false_iff]
    intro blank
    have codes : ∀ code ∈ Text.blankCodes, code ≤ 32 ∨ 133 ≤ code := by decide
    have outside := codes c.toNat (List.contains_iff_mem.mp blank)
    have within := code_of_isNameChar named
    omega
  have notSign {sign : Char} (other : isNameChar sign = false) : c ≠ sign := by
    rintro rfl
    exact absurd named (Bool.eq_false_iff.mp other)
  simp [isPlain, notBlank, @notSign '+' rfl, @notSign '-' rfl]

theorem all_isPlain_digits {digits : List Char} (isDigits : digits.all isDigit) :
    digits.all isPlain :=
  List.all_eq_true.mpr fun c member =>
    isPlain_of_isNameChar (isNameChar_of_isDigit (List.all_eq_true.mp isDigits c member))

theorem IsName.calm {word : List Char} (name : IsName word) : Calm word := by
  cases word with
  | nil => exact name.elim
  | cons c rest =>
    obtain ⟨start, others⟩ := name
    have named : (c :: rest).all isNameChar := by
      rw [List.all_cons, isNameChar_of_isNameStart start, others]
      rfl
    exact calm_of_plain (List.cons_ne_nil c rest) (List.all_eq_true.mpr fun x member =>
      isPlain_of_isNameChar (List.all_eq_true.mp named x member))

/-- The sign of an exponent stands alone. -/
theorem IsNumber.calm {word : List Char} (number : IsNumber word) : Calm word := by
  obtain ⟨number, rfl⟩ := number
  have plain : number.mantissa.all isPlain := by
    unfold NumberText.mantissa
    rw [List.all_append, all_isPlain_digits number.wholeDigits, Bool.true_and]
    have fraction := all_isPlain_digits number.fractionDigits
    revert fraction
    cases number.fraction with
    | none => exact fun _ => rfl
    | some digits =>
      intro fraction
      show (isPlain '.' && digits.all isPlain) = true
      exact fraction
  have mantissa := calm_of_plain number.mantissa_ne_nil plain
  unfold NumberText.chars
  cases number.exponent with
  | none => rwa [Option.elim_none, List.append_nil]
  | some exponent =>
    have mark : Calm [exponent.mark] := by
      refine calm_of_plain (List.cons_ne_nil _ _) ?_
      rw [List.all_cons, isPlain_of_isNameChar (isNameChar_of_isExponentMark exponent.isMark)]
      rfl
    have digits : Calm exponent.digits :=
      calm_of_plain exponent.some (all_isPlain_digits exponent.isDigits)
    refine mantissa.append (mark.around (exponent.sign.elim [] fun sign => [sign.char]) ?_ digits)
    cases exponent.sign with
    | none => exact Nat.zero_le 1
    | some sign => cases sign <;> decide

theorem calm_opening : Calm ['('] := calm_of_plain (List.cons_ne_nil _ _) (by decide)

theorem calm_closing : Calm [')'] := calm_of_plain (List.cons_ne_nil _ _) (by decide)

theorem calm_argumentChars {arguments : List Expr}
    (each : ∀ argument ∈ arguments, Calm argument.chars) :
    Calm (Expr.argumentChars arguments ++ [')']) := by
  match arguments, each with
  | [], _ => exact calm_closing
  | [argument], each => exact (List.forall_mem_singleton.mp each).append calm_closing
  | argument :: next :: rest, each =>
    obtain ⟨first, others⟩ := List.forall_mem_cons.mp each
    have after := first.around [',', ' '] (by decide) (calm_argumentChars others)
    simpa [Expr.argumentChars] using after

/-- **The text of a tree has no two signs in a row**: a sign stands behind the parenthesis of its
own. -/
theorem Expr.WellSpelled.calm {e : Expr} (well : e.WellSpelled) : Calm e.chars := by
  induction well with
  | number spelled => exact spelled.calm
  | ident spelled => exact spelled.calm
  | @unary sign operand span _ ih =>
    have alone : highest signStep 0 [sign.char] ≤ 1 := by cases sign <;> decide
    exact calm_opening.around [sign.char] alone (ih.append calm_closing)
  | @binary op left right span _ _ ih ih' =>
    have alone : highest signStep 0 [' ', op.char, ' '] ≤ 1 := by cases op <;> decide
    have within := (calm_opening.append ih).around [' ', op.char, ' '] alone
      (ih'.append calm_closing)
    simpa [Expr.chars] using within
  | call spelled _ ih =>
    have called := (spelled.calm.append calm_opening).append (calm_argumentChars ih)
    simpa [Expr.chars] using called

/-- The limit on nesting bounds the parentheses of a calm text. -/
theorem checkNesting_of_calm {limit : Nat} {text : List Char} (calm : Calm text)
    (positive : 1 ≤ limit) (shallow : parenthesisDepth text ≤ limit) :
    checkNesting limit text = .ok () := by
  rw [checkNesting_eq_ok, isSome_foldlM_nestingStep text (Nat.zero_le _) (Nat.zero_le _)]
  exact ⟨shallow, Nat.le_trans (calm 0 (Nat.zero_le 1)).1 positive⟩

/-! ### Words before a separating character -/

/-- A text that no token before it goes on with. -/
def Parted : List Char → Prop
  | [] => True
  | c :: _ => separates c

/-- A word is the longest one where a separate text follows. -/
theorem Measures.longest_of_parted {length : List Char → Nat} {IsWord : List Char → Prop}
    (measures : Measures length IsWord)
    (append : ∀ {stop : Char}, separates stop → ∀ text after,
      length (text ++ stop :: after) = length text)
    {word rest : List Char} (isWord : IsWord word) (parted : Parted rest) :
    LongestWord IsWord word rest := by
  cases rest with
  | nil =>
    refine ⟨isWord, fun other within _ => ?_⟩
    rw [List.append_nil] at within
    exact within.length_le
  | cons stop after => exact measures.longest_of_append isWord (append parted word after)

/-! ### The tokens of the text -/

/-- A text spells some tokens in front of every separate text. -/
def Spells (text : List Char) (found : List Token) : Prop :=
  ∀ {rest : List Char} {more : List Token}, Parted rest → Spelled rest more →
    Spelled (text ++ rest) (found ++ more)

theorem Spelled.single {c : Char} {token : Token} {rest : List Char} {more : List Token}
    (symbol : token.Symbol [c]) (spelled : Spelled rest more) :
    Spelled (c :: rest) (token :: more) := .symbol symbol spelled

theorem Sign.symbol (sign : Sign) : (Token.op sign.op).Symbol [sign.char] := by
  cases sign
  · exact .op .sub
  · exact .op .add

/-- The texts of arguments, with commas between them, spell the arguments. -/
theorem spells_argumentChars {arguments : List Expr}
    (each : ∀ argument ∈ arguments, ∃ found, Derives .atom found argument.unplaced ∧
      Spells argument.chars found) :
    ∃ parts : List (List Token × Expr), (∀ part ∈ parts, Derives .sum part.1 part.2) ∧
      parts.map Prod.snd = arguments.map Expr.unplaced ∧
      Spells (Expr.argumentChars arguments) (List.intercalate [.comma] (parts.map Prod.fst)) := by
  match arguments, each with
  | [], _ => exact ⟨[], nofun, rfl, fun _ spelled => spelled⟩
  | [argument], each =>
    obtain ⟨found, derives, spells⟩ := List.forall_mem_singleton.mp each
    refine ⟨[(found, argument.unplaced)],
      List.forall_mem_singleton.mpr (derives.loosen (by decide)), rfl, ?_⟩
    show Spells argument.chars (List.intercalate [.comma] [found])
    rwa [List.intercalate_singleton]
  | argument :: next :: rest, each =>
    obtain ⟨⟨found, derives, spells⟩, others⟩ := List.forall_mem_cons.mp each
    obtain ⟨parts, derive, trees, spells'⟩ := spells_argumentChars others
    refine ⟨(found, argument.unplaced) :: parts,
      List.forall_mem_cons.mpr ⟨derives.loosen (by decide), derive⟩, ?_, ?_⟩
    · rw [List.map_cons, trees]
      rfl
    · intro after more parted spelled
      cases parts with
      | nil => simp at trees
      | cons part parts =>
        have spaced := Spelled.single .comma (.space (c := ' ') rfl (spells' parted spelled))
        have whole := @spells (',' :: _) _ rfl spaced
        simpa [Expr.argumentChars] using whole

/-- **The text of a tree spells tokens that derive the tree**, in front of every separate text. -/
theorem Expr.WellSpelled.reads {e : Expr} (well : e.WellSpelled) :
    ∃ found, Derives .atom found e.unplaced ∧ Spells e.chars found := by
  induction well with
  | @number text span spelled =>
    refine ⟨[.number text], .number text, fun parted spelled' => ?_⟩
    have longest := numberLength_measures.longest_of_parted numberLength_append spelled parted
    have word := Spelled.number longest spelled'
    rwa [String.ofList_toList] at word
  | @ident name span spelled =>
    refine ⟨[.name name], .ident name, fun parted spelled' => ?_⟩
    have longest := nameLength_measures.longest_of_parted nameLength_append spelled parted
    have word := Spelled.name longest spelled'
    rwa [String.ofList_toList] at word
  | @unary sign operand span _ ih =>
    obtain ⟨found, derives, spells⟩ := ih
    refine ⟨.opening :: (.op sign.op :: found ++ [.closing]),
      .group (.ofTerm (.ofSigned (.signed sign (derives.loosen (by decide))))), ?_⟩
    intro rest more parted spelled
    have closed := @spells (')' :: rest) _ rfl (.single .closing spelled)
    have whole := Spelled.single .opening (.single sign.symbol closed)
    simpa [Expr.chars] using whole
  | @binary op left right span _ _ ih ih' =>
    obtain ⟨found, derives, spells⟩ := ih
    obtain ⟨found', derives', spells'⟩ := ih'
    have first : Derives op.leftLevel found left.unplaced :=
      derives.loosen (by cases op <;> decide)
    have second : Derives op.rightLevel found' right.unplaced :=
      derives'.loosen (by cases op <;> decide)
    refine ⟨.opening :: ((found ++ .op op :: found') ++ [.closing]),
      .group ((first.binary second).loosen (by cases op <;> decide)), ?_⟩
    intro rest more parted spelled
    have closed := @spells' (')' :: rest) _ rfl (.single .closing spelled)
    have spaced := Spelled.space (c := ' ') rfl (.single (.op op) (.space (c := ' ') rfl closed))
    have whole := Spelled.single .opening (@spells (' ' :: _) _ rfl spaced)
    simpa [Expr.chars] using whole
  | @call name nameSpan span arguments spelled _ ih =>
    obtain ⟨parts, derive, trees, spells⟩ := spells_argumentChars ih
    have called := Derives.call name derive
    rw [trees] at called
    have tree : (Expr.call name nameSpan arguments span).unplaced =
        .call name .nowhere (arguments.map Expr.unplaced) .nowhere := by
      rw [Expr.unplaced, Expr.mapPlaces, Expr.mapPlacesAll_eq]
      rfl
    refine ⟨_, tree ▸ called, fun {rest more} parted spelled' => ?_⟩
    have closed := @spells (')' :: rest) _ rfl (.single .closing spelled')
    have parted' : Parted ('(' :: (Expr.argumentChars arguments ++ ')' :: rest)) := rfl
    have longest := nameLength_measures.longest_of_parted nameLength_append spelled parted'
    have word := Spelled.name longest (.single .opening closed)
    rw [String.ofList_toList] at word
    simpa [Expr.chars] using word

/-- **The text of a tree parses to the tree**, but for its places. The tree may have any shape and
depth; the limit on nesting is at least one and bounds the parentheses of the text. -/
theorem parseWithin_text {e : Expr} (well : e.WellSpelled) {limit : Nat} (positive : 1 ≤ limit)
    (shallow : parenthesisDepth e.text.toList ≤ limit) :
    ∃ parsed : Expr, parseWithin limit e.text = .ok [.expr parsed] ∧
      parsed.unplaced = e.unplaced := by
  have chars : e.text.toList = e.chars := String.toList_ofList
  obtain ⟨found, derives, spells⟩ := well.reads
  have spelled : Spelled e.chars found := by simpa using @spells [] _ trivial .nil
  have generated : Generates e.text.toList [.expr e.unplaced] := by
    rw [chars]
    refine ⟨found, spelled, [(found, .expr e.unplaced)], List.cons_ne_nil _ _,
      List.forall_mem_singleton.mpr (.expr (derives.loosen (by decide))), rfl, .inl ?_⟩
    simp
  have nested : checkNesting limit e.text.toList = .ok () := by
    rw [chars] at shallow ⊢
    exact checkNesting_of_calm well.calm positive shallow
  have read := parseWithin_unplaced nested
  rw [generates_iff.mp generated, Option.map_eq_some_iff] at read
  obtain ⟨program, parsed, unplaced⟩ := read
  rw [toOption_eq_some] at parsed
  obtain ⟨statement, rfl, same⟩ := List.map_eq_singleton_iff.mp unplaced
  cases statement with
  | expr value => exact ⟨value, parsed, Statement.expr.inj same⟩
  | assign => cases same

/-- A number with an exponent, next to a comma. -/
theorem parseWithin_text_call : ∃ tree parsed : Expr,
    tree = .unary .minus
      (.call "f" .nowhere [.number ".5e-2" .nowhere, .ident "x" .nowhere] .nowhere) .nowhere ∧
    tree.text = "(-f(.5e-2, x))" ∧
    parseWithin 2 tree.text = .ok [.expr parsed] ∧ parsed.unplaced = tree.unplaced := by
  have number : IsNumber ".5e-2".toList :=
    ⟨⟨[], some ['5'], some ⟨'e', some .minus, ['2'], rfl, rfl, by decide⟩, rfl, rfl, by decide⟩, rfl⟩
  have name : IsName "x".toList := ⟨rfl, rfl⟩
  have called : IsName "f".toList := ⟨rfl, rfl⟩
  have well : (Expr.unary .minus (.call "f" .nowhere [.number ".5e-2" .nowhere, .ident "x" .nowhere]
      .nowhere) .nowhere).WellSpelled :=
    .unary (.call called (List.forall_mem_cons.mpr
      ⟨.number number, List.forall_mem_singleton.mpr (.ident name)⟩))
  obtain ⟨parsed, read, same⟩ := @parseWithin_text _ well 2 (by decide) (by decide)
  exact ⟨_, parsed, rfl, rfl, read, same⟩

end Reckoner
