/-
The runs of a line and the program that it is read as.

A line is cut into runs by rules of their own: digits and points go on as long as they can, and a name is
one of a function if a parenthesis follows the blanks behind it. In a line that can be read, no number
follows another one, and blanks are those between tokens, so the runs are the tokens.

* `flatMap_classify`, `ne_nil_of_mem_classify` — **the runs of a line are the line.**
* `Expr.words`, `Statement.words` — the numbers and names of a program, in source order.
* `wordsOf` — those of some tokens. `Derives.hasWords` — they are those of the tree that the tokens
  derive.
* `Parse.Takes.apart` — no number follows another one in what the parser takes.
* `filter_classifyFrom` — the words among the runs of a text are those of the tokens that it spells.
* `selects_of_classify` — **every run starts and ends at a byte boundary of the line, and numbers and
  names have as many bytes as characters.**
* `classify_words` — **the runs of a line that is a program are the numbers and names of the program.**
-/

import Mathlib.Data.List.Chain
import Reckoner.CommandLine.Highlight
import Reckoner.Proofs.CommandLine.Definitions
import Reckoner.Proofs.Expression.Cuts
import Reckoner.Proofs.Expression.Derivation

namespace Reckoner

open Parse

/-! ### Runs of a line -/

theorem flatMap_classifyFrom (skipped : Nat) (text : List Char) :
    (classifyFrom skipped text).flatMap Run.text = text.drop skipped := by
  induction text generalizing skipped with
  | nil => simp [classifyFrom]
  | cons c rest ih =>
    cases skipped with
    | succ skipped => rw [classifyFrom, ih, List.drop_succ_cons]
    | zero =>
      rw [classifyFrom, List.flatMap_cons, ih, List.drop_zero, List.cons_append,
        List.take_append_drop]

theorem ne_nil_of_mem_classifyFrom {skipped : Nat} {text : List Char} {run : Run}
    (member : run ∈ classifyFrom skipped text) : run.text ≠ [] := by
  induction text generalizing skipped with
  | nil => simp [classifyFrom] at member
  | cons c rest ih =>
    cases skipped with
    | succ skipped =>
      rw [classifyFrom] at member
      exact ih member
    | zero =>
      rw [classifyFrom] at member
      rcases List.mem_cons.mp member with rfl | later
      · exact List.cons_ne_nil _ _
      · exact ih later

/-- **The runs of a line are the line.** -/
theorem flatMap_classify (line : List Char) : (classify line).flatMap Run.text = line := by
  unfold classify
  split
  · rename_i rest
    rw [List.flatMap_cons, flatMap_classifyFrom, List.drop_zero, List.cons_append,
      List.prefix_iff_eq_append.mp (List.takeWhile_prefix _)]
  · exact flatMap_classifyFrom 0 line

theorem ne_nil_of_mem_classify {line : List Char} {run : Run} (member : run ∈ classify line) :
    run.text ≠ [] := by
  unfold classify at member
  split at member
  · rcases List.mem_cons.mp member with rfl | later
    · exact List.cons_ne_nil _ _
    · exact ne_nil_of_mem_classifyFrom later
  · exact ne_nil_of_mem_classifyFrom member

/-- Characters that belong to a run already found are passed over. -/
theorem classifyFrom_drop (skipped : Nat) (text : List Char) :
    classifyFrom skipped text = classifyFrom 0 (text.drop skipped) := by
  induction text generalizing skipped with
  | nil => cases skipped <;> rfl
  | cons c rest ih =>
    cases skipped with
    | zero => rfl
    | succ skipped => rw [classifyFrom, ih, List.drop_succ_cons]

/-- The first run of a text. -/
theorem classifyFrom_cons {c : Char} {rest : List Char} {kind : RunClass} {length : Nat}
    (first : firstRun c rest = (kind, length)) :
    classifyFrom 0 (c :: rest) =
      ⟨kind, c :: rest.take length⟩ :: classifyFrom 0 (rest.drop length) := by
  rw [classifyFrom, first]
  exact congrArg (_ :: ·) (classifyFrom_drop length rest)

/-! ### Numbers and names of a program -/

/-- Whether a run is a number or a name. -/
def Run.isWord (run : Run) : Bool :=
  match run.kind with
  | .number => true
  | .function => true
  | .identifier => true
  | _ => false

namespace Expr

mutual

/-- The number literals, the names of calls and the identifiers of a tree, in source order. -/
def words : Expr → List Run
  | number text _ => [⟨.number, text.toList⟩]
  | ident name _ => [⟨.identifier, name.toList⟩]
  | unary _ operand _ => operand.words
  | binary _ left right _ => left.words ++ right.words
  | call name _ arguments _ => ⟨.function, name.toList⟩ :: argumentWords arguments

/-- Those of the arguments of a call. -/
def argumentWords : List Expr → List Run
  | [] => []
  | argument :: rest => argument.words ++ argumentWords rest

end

theorem argumentWords_eq (arguments : List Expr) :
    argumentWords arguments = arguments.flatMap words := by
  induction arguments with
  | nil => rfl
  | cons argument rest ih => rw [argumentWords, ih, List.flatMap_cons]

mutual

theorem words_mapPlaces (place : Nat → Nat) (e : Expr) : (e.mapPlaces place).words = e.words := by
  cases e with
  | number text span => rw [mapPlaces, words, words]
  | ident name span => rw [mapPlaces, words, words]
  | unary sign operand span => rw [mapPlaces, words, words, words_mapPlaces place operand]
  | binary op left right span =>
    rw [mapPlaces, words, words, words_mapPlaces place left, words_mapPlaces place right]
  | call name nameSpan arguments span =>
    rw [mapPlaces, words, words, argumentWords_mapPlacesAll place arguments]

theorem argumentWords_mapPlacesAll (place : Nat → Nat) (arguments : List Expr) :
    argumentWords (mapPlacesAll place arguments) = argumentWords arguments := by
  cases arguments with
  | nil => rw [mapPlacesAll]
  | cons argument rest =>
    rw [mapPlacesAll, argumentWords, argumentWords, words_mapPlaces place argument,
      argumentWords_mapPlacesAll place rest]

end

end Expr

/-- The name that a statement assigns to, and the numbers and names of its expression. -/
def Statement.words : Statement → List Run
  | assign name _ value => ⟨.identifier, name.toList⟩ :: value.words
  | expr value => value.words

theorem Statement.words_unplaced (statement : Statement) :
    statement.unplaced.words = statement.words := by
  cases statement with
  | assign name nameSpan value => exact congrArg (_ :: ·) (value.words_mapPlaces _)
  | expr value => exact value.words_mapPlaces _

/-! ### Numbers and names among tokens -/

/-- The numbers and names of some tokens. A name in front of a parenthesis is that of a call. -/
def wordsOf : List Token → List Run
  | [] => []
  | .number text :: rest => ⟨.number, text.toList⟩ :: wordsOf rest
  | .name text :: rest =>
    ⟨if rest.head? = some .opening then .function else .identifier, text.toList⟩ :: wordsOf rest
  | _ :: rest => wordsOf rest

/-- Whether some tokens have some words, whatever follows them but a parenthesis. -/
def HasWords (found : List Token) (words : List Run) : Prop :=
  ∀ rest : List Token, rest.head? ≠ some .opening → wordsOf (found ++ rest) = words ++ wordsOf rest

/-- Whether a token is a number or a name. -/
def Token.isWord : Token → Bool
  | number _ => true
  | name _ => true
  | _ => false

theorem wordsOf_cons {token : Token} (plain : token.isWord = false) (rest : List Token) :
    wordsOf (token :: rest) = wordsOf rest := by
  cases token <;> first | rfl | cases plain

theorem wordsOf_name {text : String} {rest : List Token} (notCall : rest.head? ≠ some .opening) :
    wordsOf (.name text :: rest) = ⟨.identifier, text.toList⟩ :: wordsOf rest := by
  rw [wordsOf, if_neg notCall]

section HasWords

variable {first second : List Token} {words words' : List Run} {separator : Token}

/-- Two expressions with a separator between them. -/
theorem HasWords.around (before : HasWords first words) (after : HasWords second words')
    (plain : separator.isWord = false) (notCall : separator ≠ .opening) :
    HasWords (first ++ separator :: second) (words ++ words') := by
  intro rest behind
  rw [List.append_assoc, List.cons_append, before _ (by simpa using notCall), wordsOf_cons plain,
    after rest behind, List.append_assoc]

/-- Some parts with separators between them. -/
theorem hasWords_intercalate {α : Type} {of : α → List Run} {parts : List (List Token × α)}
    (plain : separator.isWord = false) (notCall : separator ≠ .opening)
    (each : ∀ part ∈ parts, HasWords part.1 (of part.2)) :
    HasWords (List.intercalate [separator] (parts.map Prod.fst)) ((parts.map Prod.snd).flatMap of) := by
  induction parts with
  | nil => exact fun rest _ => rfl
  | cons part others ih =>
    obtain ⟨first, later⟩ := List.forall_mem_cons.mp each
    cases others with
    | nil => simpa using first
    | cons next others =>
      have whole := first.around (ih later) plain notCall
      rw [List.map_cons, List.map_cons, List.intercalate_cons_cons, List.map_cons, List.flatMap_cons,
        List.append_assoc]
      exact whole

end HasWords

/-- **The words of the tokens that derive a tree are those of the tree.** -/
theorem Derives.hasWords {level : Level} {found : List Token} {e : Expr}
    (derives : Derives level found e) : HasWords found e.words := by
  induction derives with
  | sum _ _ _ ih ih' | term _ _ _ ih ih' | power _ _ ih ih' =>
    rw [Expr.words]
    exact ih.around ih' rfl nofun
  | ofTerm _ ih | ofSigned _ ih | ofPower _ ih | ofAtom _ ih => exact ih
  | signed sign _ ih =>
    intro rest behind
    rw [Expr.words, List.cons_append, wordsOf_cons rfl, ih rest behind]
  | number text => exact fun rest _ => rfl
  | ident name =>
    intro rest behind
    rw [List.singleton_append, wordsOf_name behind]
    rfl
  | @call name arguments each ih =>
    intro rest _
    have inside : HasWords (List.intercalate [.comma] (arguments.map Prod.fst))
        ((arguments.map Prod.snd).flatMap Expr.words) := hasWords_intercalate rfl nofun ih
    rw [Expr.words, Expr.argumentWords_eq, List.cons_append, List.cons_append, List.append_assoc,
      wordsOf, wordsOf_cons rfl, inside _ (by simp), List.singleton_append, wordsOf_cons rfl]
    rfl
  | group _ ih =>
    intro rest _
    rw [List.cons_append, List.append_assoc, wordsOf_cons rfl, ih _ (by simp), List.singleton_append,
      wordsOf_cons rfl]

theorem Statement.Derives.hasWords {found : List Token} {statement : Statement}
    (derives : Statement.Derives found statement) : HasWords found statement.words := by
  cases derives with
  | assign name sum =>
    intro rest behind
    rw [List.cons_append, List.cons_append, wordsOf_name (by simp), wordsOf_cons rfl,
      sum.hasWords rest behind]
    rfl
  | expr sum => exact sum.hasWords

/-- **The words of the tokens that derive a program are those of the program.** -/
theorem Program.Derives.wordsOf_eq {found : List Token} {program : Program}
    (derives : Program.Derives found program) :
    wordsOf found = program.flatMap Statement.words := by
  obtain ⟨parts, -, each, rfl, ends⟩ := derives
  have words : HasWords (List.intercalate [.semicolon] (parts.map Prod.fst))
      ((parts.map Prod.snd).flatMap Statement.words) :=
    hasWords_intercalate rfl nofun fun part member => (each part member).hasWords
  rcases ends with rfl | rfl
  · have whole := words [] nofun
    rwa [List.append_nil, wordsOf, List.append_nil] at whole
  · rw [words [.semicolon] nofun, wordsOf_cons rfl, wordsOf, List.append_nil]

/-! ### Numbers that stand apart -/

/-- Whether a token is a number. -/
def Token.isNumber : Token → Bool
  | number _ => true
  | _ => false

/-- Whether no number follows another one. -/
def Apart (found : List Token) : Prop :=
  found.IsChain fun token next => token.isNumber → next.isNumber = false

theorem Parse.Moves.of_isNumber {state after : Parse} {lexeme : Lexeme}
    (moves : Moves state lexeme after) (isNumber : lexeme.token.isNumber) :
    state.operand = .due ∧ after.operand ≠ .due := by
  cases moves with
  | number due token => exact ⟨due, nofun⟩
  | name _ token | opening _ token | sign _ token | empty _ token | calling _ token
  | becomes _ token | infixOp _ token | group _ token | call _ token | comma _ token
  | semicolon _ token =>
    rw [token] at isNumber
    cases isNumber

/-- **The parser takes no number after another one**, and none after an operand. -/
theorem Parse.Takes.apart {state after : Parse} {found : List Token}
    (takes : state.Takes found after) :
    Apart found ∧ (state.operand ≠ .due → ∀ token ∈ found.head?, token.isNumber = false) := by
  induction found generalizing state with
  | nil => exact ⟨List.isChain_nil, fun _ => nofun⟩
  | cons token rest ih =>
    obtain ⟨between, moves, later⟩ := takes_cons.mp takes
    obtain ⟨apart, notNext⟩ := ih later
    refine ⟨List.isChain_cons.mpr ⟨fun next isNext isNumber => ?_, apart⟩, ?_⟩
    · exact notNext (moves.of_isNumber isNumber).2 next isNext
    · rintro busy _ ⟨⟩
      cases isNumber : token.isNumber with
      | false => rfl
      | true => exact absurd (moves.of_isNumber isNumber).1 busy

/-! ### Runs of words -/

section Characters

variable {c : Char}

theorem not_numberChar_of_mark (mark : Numeral.isExponentMark c) : isNumberChar c = false := by
  unfold isNumberChar
  rw [isDigit_eq_false_of_mark mark, Bool.false_or, decide_eq_false_iff_not]
  exact ne_point_of_mark mark

theorem not_numberChar_of_nameStart (start : isNameStart c) : isNumberChar c = false := by
  unfold isNumberChar
  rw [not_digit_of_nameStart start, Bool.false_or, decide_eq_false_iff_not]
  rintro rfl
  revert start
  decide

/-- A number starts with a digit or a point. -/
theorem IsNumber.isNumberChar {word : List Char} (number : IsNumber (c :: word)) :
    isNumberChar c := by
  rcases number.head with digit | rfl
  · simp [Reckoner.isNumberChar, digit]
  · rfl

theorem isNumberChar_eq_false_iff : isNumberChar c = false ↔ isDigit c = false ∧ c ≠ '.' := by
  simp [isNumberChar]

end Characters

namespace NumberText

variable (number : NumberText) {tail : List Char}
  (ends : ∀ c ∈ tail.head?, isNumberChar c = false)

theorem isNumberChar_of_mem_mantissa {c : Char} (member : c ∈ number.mantissa) :
    isNumberChar c := by
  unfold isNumberChar
  rcases List.mem_append.mp member with whole | fraction
  · simp [List.all_eq_true.mp number.wholeDigits c whole]
  · have digits := List.all_eq_true.mp number.fractionDigits
    cases isFraction : number.fraction with
    | none =>
      rw [isFraction] at fraction
      cases fraction
    | some text =>
      rw [isFraction] at fraction digits
      rcases List.mem_cons.mp fraction with rfl | digit
      · rfl
      · simp [digits c digit]

include ends

/-- The digits and points of a mantissa go on up to its end. -/
theorem takeWhile_mantissa : (number.mantissa ++ tail).takeWhile isNumberChar = number.mantissa := by
  rw [List.takeWhile_append_of_pos fun c => number.isNumberChar_of_mem_mantissa]
  cases tail with
  | nil => exact List.append_nil _
  | cons c rest =>
    rw [List.takeWhile_cons_of_neg (by simp [ends c rfl]), List.append_nil]

theorem mantissaLength_append :
    mantissaLength (number.mantissa ++ tail) = number.mantissa.length := by
  cases tail with
  | nil =>
    have atLeast := number.mantissa_length_le []
    have atMost := mantissaLength_le (number.mantissa ++ [])
    rw [List.append_nil] at atLeast atMost ⊢
    exact Nat.le_antisymm atMost atLeast
  | cons c rest =>
    obtain ⟨notDigit, notPoint⟩ := isNumberChar_eq_false_iff.mp (ends c rfl)
    exact number.mantissaLength_mantissa notDigit notPoint rest

end NumberText

/-- **The run of a number is the number**, if no digit and no point follows it. -/
theorem numeralLength_eq {word rest : List Char} (longest : LongestWord IsNumber word rest)
    (ends : ∀ c ∈ rest.head?, isNumberChar c = false) :
    numeralLength (word ++ rest) = word.length := by
  have length := numberLength_measures.eq_of_longest longest
  obtain ⟨number, rfl⟩ := longest.isWord
  have tailEnds : ∀ c ∈ (number.exponent.elim [] ExponentText.chars ++ rest).head?,
      isNumberChar c = false := by
    cases number.exponent with
    | none => exact ends
    | some exponent =>
      rintro c ⟨⟩
      exact not_numberChar_of_mark exponent.isMark
  have some : number.mantissa.length ≠ 0 := by simpa using number.mantissa_ne_nil
  rw [NumberText.chars, List.append_assoc] at length ⊢
  rw [numberLength, number.mantissaLength_append tailEnds, if_neg some] at length
  rw [numeralLength, number.takeWhile_mantissa tailEnds]
  exact length

/-- A character that starts neither a number nor a name is a run without words. -/
theorem filter_classifyFrom_cons {c : Char} (notNumber : isNumberChar c = false)
    (notName : isNameStart c = false) (rest : List Char) :
    (classifyFrom 0 (c :: rest)).filter Run.isWord = (classifyFrom 0 rest).filter Run.isWord := by
  have single : firstRun c rest = (if isOperatorChar c then .operator else .plain, 0) := by
    simp [firstRun, notNumber, notName]
  rw [classifyFrom_cons single]
  refine List.filter_cons_of_neg ?_
  cases isOperatorChar c <;> exact Bool.false_ne_true

/-- The run of a number. -/
theorem classifyFrom_number {word rest : List Char} (longest : LongestWord IsNumber word rest)
    (ends : ∀ c ∈ rest.head?, isNumberChar c = false) :
    classifyFrom 0 (word ++ rest) = ⟨.number, word⟩ :: classifyFrom 0 rest := by
  have length := numeralLength_eq longest ends
  cases word with
  | nil => exact absurd rfl longest.isWord.ne_nil
  | cons c word =>
    have first : firstRun c (word ++ rest) = (.number, word.length) := by
      rw [firstRun, if_pos longest.isWord.isNumberChar, ← List.cons_append, length]
      rfl
    rw [List.cons_append, classifyFrom_cons first, List.take_left, List.drop_left]

/-- The run of a name. -/
theorem classifyFrom_name {word rest : List Char} (longest : LongestWord IsName word rest) :
    classifyFrom 0 (word ++ rest) =
      ⟨if (Text.trimLeft rest).head? = some '(' then .function else .identifier, word⟩ ::
        classifyFrom 0 rest := by
  have length := nameLength_measures.eq_of_longest longest
  cases word with
  | nil => exact longest.isWord.elim
  | cons c word =>
    have start : isNameStart c := longest.isWord.1
    have number := not_numberChar_of_nameStart start
    have run : ((word ++ rest).takeWhile isNameChar).length = word.length := by
      rw [List.cons_append, nameLength, if_pos start, List.length_cons] at length
      omega
    have first : firstRun c (word ++ rest) =
        (if (Text.trimLeft rest).head? = some '(' then .function else .identifier, word.length) := by
      simp only [firstRun, number, start, run, List.drop_left]
      simp
    rw [List.cons_append, classifyFrom_cons first, List.take_left, List.drop_left]

/-! ### Runs of a text that spells tokens -/

/-- A blank between tokens is a run of its own, and is passed over in front of a parenthesis. -/
theorem plain_of_isSpace {c : Char} (space : isSpace c) :
    isNumberChar c = false ∧ isNameStart c = false ∧ Text.isBlank c := by
  rcases isSpace_iff.mp space with rfl | rfl | rfl | rfl <;> decide

/-- What a symbol starts with. -/
theorem Token.Symbol.head {c : Char} {word : List Char} {token : Token}
    (symbol : token.Symbol (c :: word)) :
    isNumberChar c = false ∧ isNameStart c = false ∧ Text.isBlank c = false ∧
      (c = '(' ↔ token = .opening) := by
  cases symbol with
  | op op => cases op <;> decide
  | opening | closing | comma | semicolon | becomes => decide

namespace Spelled

variable {c : Char} {text rest : List Char} {found : List Token}

/-- **What a text starts with**: a blank, or the first character of its first token. -/
theorem first (spelled : Spelled (c :: rest) found) :
    (isSpace c ∧ Spelled rest found) ∨
    ∃ token later, found = token :: later ∧
      ((isNumberChar c ∧ token.isNumber) ∨ (isNameStart c ∧ ∃ text, token = .name text) ∨
        ∃ word, token.Symbol (c :: word)) := by
  generalize whole : c :: rest = text at spelled
  cases spelled with
  | nil => cases whole
  | space space later =>
    cases whole
    exact .inl ⟨space, later⟩
  | @number word _ _ longest _ =>
    cases word with
    | nil => exact absurd rfl longest.isWord.ne_nil
    | cons d word =>
      cases whole
      exact .inr ⟨_, _, rfl, .inl ⟨longest.isWord.isNumberChar, rfl⟩⟩
  | @name word _ _ longest _ =>
    cases word with
    | nil => exact longest.isWord.elim
    | cons d word =>
      cases whole
      exact .inr ⟨_, _, rfl, .inr (.inl ⟨longest.isWord.1, _, rfl⟩)⟩
  | @symbol word _ _ _ symbol _ =>
    cases word with
    | nil => cases symbol
    | cons d word =>
      cases whole
      exact .inr ⟨_, _, rfl, .inr (.inr ⟨word, symbol⟩)⟩

/-- A text that starts with a digit or a point spells a number first. -/
theorem head_isNumber (spelled : Spelled (c :: rest) found) (isNumber : isNumberChar c) :
    ∃ token ∈ found.head?, token.isNumber := by
  rcases spelled.first with ⟨space, -⟩ | ⟨token, later, rfl, ⟨-, number⟩ | ⟨start, -⟩ | ⟨word, symbol⟩⟩
  · exact absurd isNumber (by simp [(plain_of_isSpace space).1])
  · exact ⟨token, rfl, number⟩
  · exact absurd isNumber (by simp [not_numberChar_of_nameStart start])
  · exact absurd isNumber (by simp [symbol.head.1])

/-- A text that starts with a colon spells an assignment sign first. -/
theorem head_becomes (spelled : Spelled (':' :: rest) found) : found.head? = some .becomes := by
  rcases spelled.first with ⟨space, -⟩ | ⟨token, later, rfl, ⟨number, -⟩ | ⟨start, -⟩ | ⟨word, symbol⟩⟩
  · exact absurd space (by decide)
  · exact absurd number (by decide)
  · exact absurd start (by decide)
  · generalize colon : ':' :: word = text at symbol
    cases symbol with
    | op op => cases op <;> cases colon
    | opening | closing | comma | semicolon => cases colon
    | becomes => rfl

/-- Behind its blanks, a text starts with a parenthesis if it spells one first. -/
theorem head_opening (spelled : Spelled text found) :
    (Text.trimLeft text).head? = some '(' ↔ found.head? = some .opening := by
  induction text with
  | nil =>
    rw [← tokens_of_spelled spelled]
    exact iff_of_false nofun nofun
  | cons c rest ih =>
    have visible (visible : Text.isBlank c = false) : (Text.trimLeft (c :: rest)).head? = some c := by
      rw [Text.trimLeft, List.dropWhile_cons_of_neg (by simp [visible])]
      rfl
    rcases spelled.first with
      ⟨space, spelled⟩ | ⟨token, later, rfl, ⟨number, isNumber⟩ | ⟨start, text, rfl⟩ | ⟨word, symbol⟩⟩
    · rw [Text.trimLeft, List.dropWhile_cons_of_pos (plain_of_isSpace space).2.2]
      exact ih spelled
    · have seen : Text.isBlank c = false ∧ c ≠ '(' := by
        have digitOrPoint : isDigit c ∨ c = '.' := by simpa [isNumberChar] using number
        rcases digitOrPoint with digit | rfl
        · exact ⟨not_blank_of_isDigit digit, ne_of_isDigit digit rfl⟩
        · decide
      rw [visible seen.1]
      refine iff_of_false (by simpa using seen.2) ?_
      rintro ⟨⟩
      cases isNumber
    · have named : isNameChar c := isNameChar_of_isNameStart start
      rw [visible (not_blank_of_isNameChar named)]
      exact iff_of_false (by simpa using ne_of_isNameChar named rfl) nofun
    · obtain ⟨-, -, seen, opening⟩ := symbol.head
      rw [visible seen]
      simpa using opening

end Spelled

/-- The run or the runs of a symbol. -/
theorem Token.Symbol.filter_classifyFrom {word : List Char} {token : Token}
    (symbol : token.Symbol word) (rest : List Char) :
    (classifyFrom 0 (word ++ rest)).filter Run.isWord = (classifyFrom 0 rest).filter Run.isWord := by
  cases symbol with
  | op op => cases op <;> exact filter_classifyFrom_cons rfl rfl rest
  | opening | closing | comma | semicolon => exact filter_classifyFrom_cons rfl rfl rest
  | becomes =>
    exact (filter_classifyFrom_cons rfl rfl _).trans (filter_classifyFrom_cons rfl rfl rest)

theorem Token.Symbol.isWord {word : List Char} {token : Token} (symbol : token.Symbol word) :
    token.isWord = false := by
  cases symbol <;> rfl

/-- **The words among the runs of a text are those of the tokens that it spells.** -/
theorem filter_classifyFrom {text : List Char} {found : List Token} (spelled : Spelled text found)
    (apart : Apart found) : (classifyFrom 0 text).filter Run.isWord = wordsOf found := by
  induction spelled with
  | nil => rfl
  | @space c rest tokens space _ ih =>
    obtain ⟨notNumber, notName, -⟩ := plain_of_isSpace space
    rw [filter_classifyFrom_cons notNumber notName, ih apart]
  | @number word rest tokens longest spelled ih =>
    obtain ⟨next, later⟩ := List.isChain_cons.mp apart
    have ends : ∀ c ∈ rest.head?, isNumberChar c = false := by
      intro c first
      rw [Bool.eq_false_iff]
      intro isNumber
      obtain ⟨behind, rfl⟩ := List.head?_eq_some_iff.mp first
      obtain ⟨token, isNext, number⟩ := spelled.head_isNumber isNumber
      rw [next token isNext rfl] at number
      cases number
    rw [classifyFrom_number longest ends, List.filter_cons_of_pos rfl, ih later, wordsOf,
      String.toList_ofList]
  | @name word rest tokens longest spelled ih =>
    obtain ⟨-, later⟩ := List.isChain_cons.mp apart
    rw [classifyFrom_name longest, List.filter_cons_of_pos (by split <;> rfl), ih later, wordsOf,
      String.toList_ofList]
    simp only [spelled.head_opening]
  | @symbol word rest token tokens symbol spelled ih =>
    obtain ⟨-, later⟩ := List.isChain_cons.mp apart
    rw [symbol.filter_classifyFrom, ih later, wordsOf_cons symbol.isWord]

/-! ### Bytes of runs -/

section Bytes

variable {c : Char} {text : List Char}

theorem byteLength_eq_length (ascii : ∀ c ∈ text, c.utf8Size = 1) :
    Text.byteLength text = text.length := by
  induction text with
  | nil => rfl
  | cons c rest ih =>
    obtain ⟨first, others⟩ := List.forall_mem_cons.mp ascii
    rw [byteLength_cons, first, ih others, List.length_cons, Nat.add_comm]

/-- A character up to an ASCII character has one byte. -/
theorem utf8Size_of_le {bound : Char} (le : c ≤ bound) (ascii : bound.val ≤ 127) :
    c.utf8Size = 1 :=
  Char.utf8Size_eq_one_iff.mpr (UInt32.le_trans le ascii)

theorem utf8Size_of_isDigit (digit : isDigit c) : c.utf8Size = 1 := by
  unfold isDigit at digit
  rw [Bool.and_eq_true, decide_eq_true_eq, decide_eq_true_eq] at digit
  exact utf8Size_of_le digit.2 (by decide)

theorem utf8Size_of_isNumberChar (member : isNumberChar c) : c.utf8Size = 1 := by
  unfold isNumberChar at member
  rw [Bool.or_eq_true, decide_eq_true_eq] at member
  rcases member with digit | rfl
  · exact utf8Size_of_isDigit digit
  · decide

theorem utf8Size_of_isNameChar (member : isNameChar c) : c.utf8Size = 1 := by
  unfold isNameChar isLetter at member
  simp only [Bool.or_eq_true, Bool.and_eq_true, decide_eq_true_eq] at member
  rcases member with ((lower | upper) | rfl) | digit
  · exact utf8Size_of_le lower.2 (by decide)
  · exact utf8Size_of_le upper.2 (by decide)
  · decide
  · exact utf8Size_of_isDigit digit

theorem utf8Size_of_mem_exponent {exponent : ExponentText} (member : c ∈ exponent.chars) :
    c.utf8Size = 1 := by
  obtain ⟨mark, sign, digits, isMark, isDigits, some⟩ := exponent
  rcases List.mem_cons.mp member with rfl | behind
  · unfold Numeral.isExponentMark at isMark
    rw [Bool.or_eq_true, decide_eq_true_eq, decide_eq_true_eq] at isMark
    rcases isMark with rfl | rfl <;> decide
  · rcases List.mem_append.mp behind with signed | digit
    · cases sign with
      | none => cases signed
      | some sign =>
        obtain rfl := List.mem_singleton.mp signed
        cases sign <;> decide
    · exact utf8Size_of_isDigit (List.all_eq_true.mp isDigits c digit)

theorem utf8Size_of_mem_numeral (member : c ∈ text.take (numeralLength text)) :
    c.utf8Size = 1 := by
  rw [numeralLength, List.take_add] at member
  rcases List.mem_append.mp member with mantissa | exponent
  · rw [← List.prefix_iff_eq_take.mp (List.takeWhile_prefix isNumberChar)] at mantissa
    exact utf8Size_of_isNumberChar (List.all_eq_true.mp List.all_takeWhile c mantissa)
  · by_cases none : exponentLength (text.drop (text.takeWhile isNumberChar).length) = 0
    · rw [none, List.take_zero] at exponent
      cases exponent
    · obtain ⟨spelled, chars⟩ := take_exponentLength none
      rw [← chars] at exponent
      exact utf8Size_of_mem_exponent exponent

/-- A numeral has a character at least, so the first run of a text takes up all of it. -/
theorem take_numeralLength {rest : List Char} (number : isNumberChar c) :
    (c :: rest).take (numeralLength (c :: rest)) =
      c :: rest.take (numeralLength (c :: rest) - 1) := by
  have some : numeralLength (c :: rest) ≠ 0 := by
    rw [numeralLength, List.takeWhile_cons_of_pos number, List.length_cons]
    omega
  obtain ⟨length, count⟩ := Nat.exists_eq_succ_of_ne_zero some
  rw [count]
  rfl

/-- A number or a name at the start of a text. -/
theorem utf8Size_of_mem_firstRun {first : Char} {rest : List Char}
    (word : (Run.mk (firstRun first rest).1 []).isWord)
    (member : c ∈ first :: rest.take (firstRun first rest).2) : c.utf8Size = 1 := by
  unfold firstRun at word member
  split at member
  · next number =>
    rw [← take_numeralLength number] at member
    exact utf8Size_of_mem_numeral member
  · split at member
    · next start =>
      rw [← List.prefix_iff_eq_take.mp (List.takeWhile_prefix isNameChar)] at member
      rcases List.mem_cons.mp member with rfl | later
      · exact utf8Size_of_isNameChar (isNameChar_of_isNameStart start)
      · exact utf8Size_of_isNameChar (List.all_eq_true.mp List.all_takeWhile c later)
    · next other name =>
      rw [if_neg other, if_neg name] at word
      dsimp only at word
      split at word <;> cases word

end Bytes

/-- A number or a name among the runs has as many bytes as characters. -/
theorem byteLength_of_mem_classifyFrom {skipped : Nat} {text : List Char} {run : Run}
    (member : run ∈ classifyFrom skipped text) (word : run.isWord) :
    Text.byteLength run.text = run.text.length := by
  induction text generalizing skipped with
  | nil => simp [classifyFrom] at member
  | cons c rest ih =>
    cases skipped with
    | succ skipped =>
      rw [classifyFrom] at member
      exact ih member
    | zero =>
      rw [classifyFrom] at member
      rcases List.mem_cons.mp member with rfl | later
      · exact byteLength_eq_length fun d => utf8Size_of_mem_firstRun word
      · exact ih later

/-- **Every run starts and ends at a byte boundary of the line, and a number or a name has as many
bytes as characters.** -/
theorem selects_of_classify {line : List Char} {front back : List Run} {run : Run}
    (cut : classify line = front ++ run :: back) :
    (Span.mk (Text.byteLength (front.flatMap Run.text))
      (Text.byteLength (front.flatMap Run.text) + Text.byteLength run.text)).Selects
        line run.text ∧
    (run.isWord → Text.byteLength run.text = run.text.length) := by
  constructor
  · refine ⟨front.flatMap Run.text, back.flatMap Run.text, ?_, rfl, byteLength_append _ _⟩
    rw [← flatMap_classify line, cut, List.flatMap_append, List.flatMap_cons, List.append_assoc]
  · intro word
    have member : run ∈ classify line := by
      rw [cut]
      exact List.mem_append_right front List.mem_cons_self
    unfold classify at member
    split at member
    · rcases List.mem_cons.mp member with rfl | later
      · cases word
      · exact byteLength_of_mem_classifyFrom later word
    · exact byteLength_of_mem_classifyFrom member word

/-! ### Lines that are programs -/

/-- No program starts with an assignment sign. -/
theorem Parse.Takes.head_ne_becomes {state : Parse} {found : List Token}
    (takes : start.Takes found state) : found.head? ≠ some .becomes := by
  cases found with
  | nil => nofun
  | cons token rest =>
    rintro ⟨⟩
    obtain ⟨between, moves, -⟩ := takes_cons.mp takes
    cases moves with
    | becomes named _ _ _ => cases named
    | number _ token | name _ token | opening _ token | sign _ token | empty _ token
    | calling _ token | infixOp _ token | group _ token | call _ token | comma _ token
    | semicolon _ token => cases token

/-- The words among the runs of a text that the grammar generates. -/
theorem filter_classify {text : List Char} {program : Program} (generated : Generates text program) :
    (classify text).filter Run.isWord = program.flatMap Statement.words := by
  obtain ⟨found, spelled, derives⟩ := generated
  obtain ⟨state, takes, -⟩ := readProgram_eq_some.mp derives.read
  have noCommand : classify text = classifyFrom 0 text := by
    unfold classify
    split
    · exact absurd spelled.head_becomes takes.head_ne_becomes
    · rfl
  rw [noCommand, filter_classifyFrom spelled takes.apart.1, derives.wordsOf_eq]

/-- **The runs of a line are the line, and those of a program are its numbers and names**: the numbers
are its literals, the functions are the names of its calls, and the identifiers are its other names and
those that it assigns to. -/
theorem classify_words (line : String) :
    (classify line.toList).flatMap Run.text = line.toList ∧
    (∀ run ∈ classify line.toList, run.text ≠ []) ∧
    ∀ program, parse line = .ok program →
      (classify line.toList).filter Run.isWord = program.flatMap Statement.words ∧
      ∀ kind ∈ [RunClass.number, .function, .identifier],
        (classify line.toList).filter (·.kind = kind) =
          (program.flatMap Statement.words).filter (·.kind = kind) := by
  refine ⟨flatMap_classify _, fun run => ne_nil_of_mem_classify, fun program parsed => ?_⟩
  have unplaced : (program.map Statement.unplaced).flatMap Statement.words =
      program.flatMap Statement.words := by
    rw [List.flatMap_map]
    exact congrArg (List.flatMap · program) (funext Statement.words_unplaced)
  have words : (classify line.toList).filter Run.isWord = program.flatMap Statement.words := by
    rw [filter_classify (generates_of_parseWithin (parseWithin_eq_ok.mp parsed).1 parsed), unplaced]
  refine ⟨words, fun kind listed => ?_⟩
  rw [← words, List.filter_filter]
  refine List.filter_congr fun run _ => ?_
  cases same : decide (run.kind = kind) with
  | false => rfl
  | true =>
    have isWord : run.isWord := by
      unfold Run.isWord
      rw [of_decide_eq_true same]
      revert listed
      cases kind <;> simp
    exact isWord.symm

/-- The name of a call is that of a function although a blank stands behind it. -/
theorem classify_words_spaced : ∃ program, parse "x := sqrt (2.5e-3) + y" = .ok program ∧
    (classify "x := sqrt (2.5e-3) + y".toList).filter Run.isWord =
      [⟨.identifier, "x".toList⟩, ⟨.function, "sqrt".toList⟩, ⟨.number, "2.5e-3".toList⟩,
        ⟨.identifier, "y".toList⟩] := by
  let call : Expr := .call "sqrt" ⟨5, 9⟩ [.number "2.5e-3" ⟨11, 17⟩] ⟨5, 18⟩
  let sum : Expr := .binary .add call (.ident "y" ⟨21, 22⟩) ⟨5, 22⟩
  have parsed : parse "x := sqrt (2.5e-3) + y" = .ok [.assign "x" ⟨0, 1⟩ sum] := rfl
  exact ⟨_, parsed, ((classify_words _).2.2 _ parsed).1⟩

end Reckoner
