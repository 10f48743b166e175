/-
Definitions that are typed back as they are listed.

A definition is cut at its first equals sign, at the first parenthesis in front of that, and at the
commas between the parentheses. A name has none of these, so the cuts fall on the separators that
the listing of a function puts there, whatever the expression holds.

* `Text.trim_eq_self_iff`, `Text.trim_around` — texts without blanks around them.
* `Command.argumentNames_intercalate` — **names between commas are found again.**
* `Command.definition_text` — **a name and the listing of a function are a definition of it.**
* `listed_definition` — **a listed definition is the command that makes it**, whatever blanks stand
  around the line.
-/

import Reckoner.CommandLine.Command
import Reckoner.Proofs.Expression.Names
import Reckoner.Proofs.Expression.Printing
import Reckoner.Proofs.Files.Names
import Reckoner.Proofs.Number.FixedText

namespace Reckoner

/-! ### Blanks around a text -/

namespace Text

theorem trim_cons_of_blank {c : Char} (blank : isBlank c) (text : List Char) :
    trim (c :: text) = trim text := by
  unfold trim trimLeft
  rw [List.dropWhile_cons, if_pos blank]

/-- What is left after trimming has no blank at its ends. -/
theorem trim_ends (text : List Char) :
    (∀ c ∈ (trim text).head?, isBlank c = false) ∧
      ∀ c ∈ (trim text).getLast?, isBlank c = false := by
  have kept (text : List Char) : ∀ c ∈ (text.dropWhile isBlank).head?, isBlank c = false := by
    intro c first
    have found := List.head?_dropWhile_not isBlank text
    rw [Option.mem_def.mp first] at found
    exact found
  constructor
  · -- The first character was the first one before the end was cut, too.
    intro c first
    have front : trim text <+: trimLeft text := by
      have back := List.dropWhile_suffix isBlank (l := (trimLeft text).reverse)
      have reversed := List.reverse_prefix.mpr back
      rwa [List.reverse_reverse] at reversed
    obtain ⟨rest, whole⟩ := front
    refine kept text c ?_
    rw [show text.dropWhile isBlank = trim text ++ rest from whole.symm, List.head?_append,
      Option.mem_def.mp first]
    rfl
  · intro c last
    unfold trim trimRight at last
    rw [List.getLast?_reverse] at last
    exact kept _ c last

/-- **Trimming keeps exactly the texts that have no blank at their ends.** -/
theorem trim_eq_self_iff {text : List Char} :
    trim text = text ↔
      (∀ c ∈ text.head?, isBlank c = false) ∧ ∀ c ∈ text.getLast?, isBlank c = false := by
  constructor
  · intro trimmed
    rw [← trimmed]
    exact trim_ends text
  · rintro ⟨first, last⟩
    have front : trimLeft text = text := dropWhile_of_head first
    have back : text.reverse.dropWhile isBlank = text.reverse := by
      refine dropWhile_of_head fun c member => last c ?_
      rwa [List.head?_reverse] at member
    unfold trim trimRight
    rw [front, back, List.reverse_reverse]

/-- **A text with blanks around it is trimmed to itself.** -/
theorem trim_around {before text after : List Char} (some : text ≠ []) (trimmed : trim text = text)
    (left : ∀ c ∈ before, isBlank c) (right : ∀ c ∈ after, isBlank c) :
    trim (before ++ text ++ after) = text := by
  obtain ⟨first, last⟩ := trim_eq_self_iff.mp trimmed
  have front : trimLeft (before ++ text ++ after) = text ++ after := by
    unfold trimLeft
    rw [List.append_assoc, List.dropWhile_append_of_pos left]
    obtain ⟨start, rest, rfl⟩ := List.exists_cons_of_ne_nil some
    exact dropWhile_of_head first
  have back : (text ++ after).reverse.dropWhile isBlank = text.reverse := by
    rw [List.reverse_append, List.dropWhile_append_of_pos
      fun c member => right c (List.mem_reverse.mp member)]
    refine dropWhile_of_head fun c member => last c ?_
    rwa [List.head?_reverse] at member
  unfold trim trimRight
  rw [front, back, List.reverse_reverse]

/-- What stands between two trimmed texts does not matter. -/
theorem trim_between {first last : List Char} (front : first ≠ []) (back : last ≠ [])
    (trimmed : trim first = first) (trimmed' : trim last = last) (middle : List Char) :
    trim (first ++ middle ++ last) = first ++ middle ++ last := by
  refine trim_eq_self_iff.mpr ⟨?_, ?_⟩
  · obtain ⟨c, rest, rfl⟩ := List.exists_cons_of_ne_nil front
    exact (trim_eq_self_iff.mp trimmed).1
  · rw [List.getLast?_append, List.getLast?_eq_some_getLast back, Option.some_or,
      ← List.getLast?_eq_some_getLast back]
    exact (trim_eq_self_iff.mp trimmed').2

end Text

/-! ### Characters of names -/

theorem ne_of_isNameChar {c other : Char} (named : isNameChar c) (outside : isNameChar other = false) :
    c ≠ other := by
  rintro rfl
  rw [outside] at named
  cases named

theorem not_blank_of_isNameChar {c : Char} (named : isNameChar c) : Text.isBlank c = false := by
  have plain := isPlain_of_isNameChar named
  simp only [isPlain, Bool.and_eq_true, Bool.not_eq_true'] at plain
  exact plain.2

theorem IsName.ne_nil {word : List Char} (isName : IsName word) : word ≠ [] := by
  rintro rfl
  exact isName

theorem IsName.trim_eq {word : List Char} (isName : IsName word) : Text.trim word = word :=
  trim_of_not_blank fun c member => not_blank_of_isNameChar (isName.isNameChar c member)

/-- A name has no character that no name can have. -/
theorem IsName.not_mem {word : List Char} (isName : IsName word) {other : Char}
    (outside : Reckoner.isNameChar other = false) : other ∉ word :=
  fun member => ne_of_isNameChar (isName.isNameChar other member) outside rfl

/-! ### Definitions -/

/-- Valid and distinct arguments make a function. -/
theorem UserFunction.exists_define {arguments : List String} (expression : String)
    (distinct : arguments.Nodup) (valid : ∀ argument ∈ arguments, isValidName argument) :
    ∃ f, define arguments expression = .ok f ∧ f.arguments = arguments ∧
      f.expression = expression := by
  have wellFormed : argumentFault? [] arguments = none :=
    argumentFault?_eq_none_iff.mpr ⟨distinct, fun argument member => ⟨valid argument member, nofun⟩⟩
  refine ⟨⟨arguments, expression, wellFormed⟩, ?_, rfl, rfl⟩
  unfold define
  split
  · rfl
  · next found =>
    rw [wellFormed] at found
    cases found

namespace Command

variable {name : List Char} {arguments : List String}

theorem argumentNames_append (before after : List Char) :
    argumentNames (before ++ ',' :: after) = argumentNames before ++ argumentNames after := by
  unfold argumentNames
  rw [Text.splitOn_append, List.map_append, List.filter_append, List.map_append]

theorem argumentNames_space (text : List Char) :
    argumentNames (' ' :: text) = argumentNames text := by
  obtain ⟨piece, others, pieces⟩ := List.exists_cons_of_ne_nil (Text.splitOn_ne_nil ',' text)
  unfold argumentNames
  rw [Text.splitOn, if_neg (by decide), pieces, List.map_cons, List.map_cons,
    Text.trim_cons_of_blank (by decide)]

theorem argumentNames_of_isName (isName : IsName name) :
    argumentNames name = [String.ofList name] := by
  unfold argumentNames
  rw [Text.splitOn_of_not_mem (isName.not_mem (by decide)), List.map_singleton, isName.trim_eq]
  simp [isName.ne_nil]

/-- **Names between commas are found again.** -/
theorem argumentNames_intercalate (valid : ∀ argument ∈ arguments, isValidName argument) :
    argumentNames (List.intercalate [',', ' '] (arguments.map String.toList)) = arguments := by
  induction arguments with
  | nil => rfl
  | cons argument others ih =>
    obtain ⟨first, later⟩ := List.forall_mem_cons.mp valid
    have single := argumentNames_of_isName (isValidName_iff.mp first)
    rw [String.ofList_toList] at single
    cases others with
    | nil => simpa using single
    | cons next others =>
      have split : List.intercalate [',', ' '] ((argument :: next :: others).map String.toList) =
          argument.toList ++
            ',' :: ' ' :: List.intercalate [',', ' '] ((next :: others).map String.toList) := by
        simp [List.intercalate_cons_cons]
      rw [split, argumentNames_append, argumentNames_space, single, ih later]
      rfl

/-- The names between the parentheses start with no blank. -/
theorem trim_arguments (valid : ∀ argument ∈ arguments, isValidName argument) :
    Text.trim (List.intercalate [',', ' '] (arguments.map String.toList) ++ [')']) =
      List.intercalate [',', ' '] (arguments.map String.toList) ++ [')'] := by
  refine Text.trim_eq_self_iff.mpr ⟨?_, by simp [show Text.isBlank ')' = false by decide]⟩
  cases arguments with
  | nil =>
    rintro _ ⟨⟩
    rfl
  | cons argument others =>
    have isName := isValidName_iff.mp (valid argument List.mem_cons_self)
    have split : ∃ rest, List.intercalate [',', ' '] ((argument :: others).map String.toList) =
        argument.toList ++ rest := by
      cases others with
      | nil => exact ⟨[], by simp⟩
      | cons next others => exact ⟨_, by rw [List.map_cons, List.map_cons,
          List.intercalate_cons_cons, List.append_assoc]⟩
    obtain ⟨rest, split⟩ := split
    obtain ⟨c, word, spelled⟩ := List.exists_cons_of_ne_nil isName.ne_nil
    rw [split, spelled]
    rintro _ ⟨⟩
    exact not_blank_of_isNameChar (isName.isNameChar c (by simp [spelled]))

theorem not_mem_intercalate {α : Type} {separator : List α} {parts : List (List α)} {a : α}
    (outside : a ∉ separator) (each : ∀ part ∈ parts, a ∉ part) :
    a ∉ List.intercalate separator parts := by
  induction parts with
  | nil => simp
  | cons part others ih =>
    obtain ⟨first, later⟩ := List.forall_mem_cons.mp each
    cases others with
    | nil => simpa using first
    | cons next others =>
      rw [List.intercalate_cons_cons]
      simp [first, outside, ih later]

/-- What stands in front of the equals sign of a definition. -/
def signatureChars (name : List Char) (arguments : List String) : List Char :=
  name ++ '(' :: (List.intercalate [',', ' '] (arguments.map String.toList) ++ [')'])

theorem trim_signatureChars (isName : IsName name) (arguments : List String) :
    Text.trim (signatureChars name arguments) = signatureChars name arguments := by
  have ends := Text.trim_between isName.ne_nil (List.cons_ne_nil ')' []) isName.trim_eq (by decide)
    ('(' :: List.intercalate [',', ' '] (arguments.map String.toList))
  rwa [List.append_assoc] at ends

theorem equals_not_mem_signatureChars (isName : IsName name)
    (valid : ∀ argument ∈ arguments, isValidName argument) :
    '=' ∉ signatureChars name arguments := by
  have arguments : '=' ∉ List.intercalate [',', ' '] (arguments.map String.toList) := by
    refine not_mem_intercalate (by decide) fun part member => ?_
    obtain ⟨argument, named, rfl⟩ := List.mem_map.mp member
    exact (isValidName_iff.mp (valid argument named)).not_mem (by decide)
  simp [signatureChars, isName.not_mem (show isNameChar '=' = false by decide), arguments]

/-- **A signature is cut at its first parenthesis**, behind the name. -/
theorem signature?_signatureChars (isName : IsName name)
    (valid : ∀ argument ∈ arguments, isValidName argument) :
    signature? (signatureChars name arguments) = some (name, arguments) := by
  have plain : ∀ c ∈ name, decide (c = '(') = false := fun c member =>
    decide_eq_false (ne_of_isNameChar (isName.isNameChar c member) (by decide))
  rw [signature?, signatureChars, splitFirst?_append plain (decide_eq_true rfl)]
  simp only [trim_arguments valid, beforeClosing?, List.getLast?_concat, if_true,
    List.dropLast_concat, Option.map_some, isName.trim_eq, argumentNames_intercalate valid]

/-- **A name and the listing of a function are a definition of it**, whatever its expression holds. -/
theorem definition_text (isName : IsName name) (f : UserFunction) (some : f.expression ≠ "")
    (trimmed : Text.trim f.expression.toList = f.expression.toList) :
    definition (name ++ f.text.toList) =
      .ok (.define (String.ofList name) f.arguments f.expression) := by
  have valid : ∀ argument ∈ f.arguments, isValidName argument := fun argument member =>
    ((argumentFault?_eq_none_iff.mp f.wellFormed).2 argument member).1
  have text : name ++ f.text.toList =
      (signatureChars name f.arguments ++ [' ']) ++ '=' :: ' ' :: f.expression.toList := by
    simp [UserFunction.text, signatureChars]
  -- The equals sign behind the signature is the first one.
  have plain : ∀ c ∈ signatureChars name f.arguments ++ [' '], decide (c = '=') = false := by
    have absent := equals_not_mem_signatureChars isName valid
    exact fun c member => decide_eq_false fun same => by simp [same, absent] at member
  have head : Text.trim ([] ++ signatureChars name f.arguments ++ [' ']) =
      signatureChars name f.arguments :=
    Text.trim_around (List.append_ne_nil_of_left_ne_nil isName.ne_nil _)
      (trim_signatureChars isName _) nofun (List.forall_mem_singleton.mpr rfl)
  rw [List.nil_append] at head
  have body : Text.trim (' ' :: f.expression.toList) = f.expression.toList := by
    rw [Text.trim_cons_of_blank (by decide), trimmed]
  rw [text, definition, splitFirst?_append plain (decide_eq_true rfl)]
  simp only [head, body, signature?_signatureChars isName valid, String.ofList_toList]
  rw [if_neg (by simp [some, isName.ne_nil])]

end Command

/-! ### Lines -/

/-- What follows the name of the command is read as a definition, whatever blanks stand around the
line. -/
theorem parseCommand?_definition {before rest after : List Char} (some : rest ≠ [])
    (trimmed : Text.trim rest = rest) (blank : ∀ c ∈ before ++ after, Text.isBlank c) :
    parseCommand? (String.ofList (before ++ (":def ".toList ++ rest) ++ after)) =
      .some (Command.definition rest) := by
  obtain ⟨left, right⟩ := List.forall_mem_append.mp blank
  have line := Text.trim_between (List.cons_ne_nil ':' []) some (by decide) trimmed
    ['d', 'e', 'f', ' ']
  have whole : Text.trim (before ++ (":def ".toList ++ rest) ++ after) =
      ':' :: (['d', 'e', 'f'] ++ ' ' :: rest) :=
    Text.trim_around (List.cons_ne_nil _ _) line left right
  have split : Text.splitFirst? Text.isBlank (['d', 'e', 'f'] ++ ' ' :: rest) =
      Option.some (['d', 'e', 'f'], rest) :=
    splitFirst?_append (fun c member => not_blank_of_isNameChar (List.all_eq_true.mp rfl c member))
      rfl rest
  rw [parseCommand?, String.toList_ofList, whole]
  simp only [split, Option.getD_some, trimmed]
  rfl

/-- **A listed definition is the command that makes it.** Its expression may hold any characters,
with no blank at its ends; and any blanks may stand around the line. -/
theorem listed_definition {name expression : String} {arguments : List String}
    {before after : List Char} (named : isValidName name) (distinct : arguments.Nodup)
    (valid : ∀ argument ∈ arguments, isValidName argument) (some : expression ≠ "")
    (trimmed : Text.trim expression.toList = expression.toList)
    (blank : ∀ c ∈ before ++ after, Text.isBlank c) :
    ∃ f, UserFunction.define arguments expression = .ok f ∧
      parseCommand? (String.ofList before ++ (":def " ++ name ++ f.text) ++ String.ofList after) =
        .some (.ok (.define name arguments expression)) := by
  obtain ⟨f, defined, rfl, rfl⟩ := UserFunction.exists_define expression distinct valid
  refine ⟨f, defined, ?_⟩
  have isName := isValidName_iff.mp named
  -- The line starts with the name and ends with the expression, so it has no blanks at its ends.
  obtain ⟨middle, listed⟩ : ∃ middle, f.text.toList = middle ++ f.expression.toList :=
    ⟨_, by rw [UserFunction.text, String.toList_append]⟩
  have ends := Text.trim_between isName.ne_nil (by simpa using some) isName.trim_eq trimmed middle
  rw [List.append_assoc, ← listed] at ends
  have read := parseCommand?_definition (List.append_ne_nil_of_left_ne_nil isName.ne_nil _) ends blank
  rw [Command.definition_text isName f some trimmed, String.ofList_toList] at read
  rw [← read]
  congr 1
  simp [← String.toList_inj]

/-- A function whose expression has an assignment, an equals sign and a call, between blanks that are
no spaces. -/
theorem listed_definition_nested :
    isValidName "f" ∧ ["a", "b"].Nodup ∧ (∀ argument ∈ ["a", "b"], isValidName argument) ∧
      Text.trim "t := a = b; (g(t, b))".toList = "t := a = b; (g(t, b))".toList ∧
      (∀ c ∈ ['\t', '\u00a0'] ++ ['\u3000'], Text.isBlank c) ∧
      ∃ f, UserFunction.define ["a", "b"] "t := a = b; (g(t, b))" = .ok f ∧
        parseCommand? (String.ofList ['\t', '\u00a0'] ++ (":def " ++ "f" ++ f.text) ++
            String.ofList ['\u3000']) =
          some (.ok (.define "f" ["a", "b"] "t := a = b; (g(t, b))")) := by
  have valid : ∀ argument ∈ ["a", "b"], isValidName argument := by decide
  have trimmed : Text.trim "t := a = b; (g(t, b))".toList = "t := a = b; (g(t, b))".toList := by decide
  have blank : ∀ c ∈ ['\t', '\u00a0'] ++ ['\u3000'], Text.isBlank c := List.all_eq_true.mp rfl
  exact ⟨by decide, by decide, valid, trimmed, blank,
    listed_definition (by decide) (by decide) valid (by decide) trimmed blank⟩

end Reckoner
