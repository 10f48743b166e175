/-
Names in texts.

* `isValidName_iff` — a valid name is what the grammar calls a name.
* `Spelled.isValidName` — a text spells valid names only, so the names that a program assigns to
  are valid (`isValidName_of_mem_targets`).
* `isValidName_iff_parseExpression` — **a text is a valid name exactly if it is read as the
  identifier of that name**.
-/

import Reckoner.Proofs.Evaluation.Writes
import Reckoner.Proofs.Expression.Derivation

namespace Reckoner

/-! ### Names among tokens -/

/-- A valid name is what the grammar calls a name. -/
theorem isValidName_iff {name : String} : isValidName name ↔ IsName name.toList := by
  unfold isValidName
  cases name.toList with
  | nil => exact iff_of_false Bool.false_ne_true id
  | cons first rest =>
    simp only [Bool.and_eq_true]
    exact Iff.rfl

/-- **A text spells valid names only.** -/
theorem Spelled.isValidName {text : List Char} {found : List Token} (spelled : Spelled text found)
    {name : String} (member : .name name ∈ found) : isValidName name := by
  induction spelled with
  | nil => cases member
  | space _ _ ih => exact ih member
  | number _ _ ih =>
    rcases List.mem_cons.mp member with same | later
    · cases same
    · exact ih later
  | name longest _ ih =>
    rcases List.mem_cons.mp member with same | later
    · cases same
      rw [isValidName_iff, String.toList_ofList]
      exact longest.isWord
    · exact ih later
  | symbol symbol _ ih =>
    rcases List.mem_cons.mp member with same | later
    · subst same
      cases symbol
    · exact ih later

/-- An identifier is one of its tokens. -/
theorem Derives.name_mem {level : Level} {found : List Token} {e : Expr}
    (derives : Derives level found e) {name : String} {span : Span} (ident : e = .ident name span) :
    .name name ∈ found := by
  induction derives with
  | sum | term | signed | power | number | call => cases ident
  | ofTerm _ ih | ofSigned _ ih | ofPower _ ih | ofAtom _ ih => exact ih ident
  | ident other =>
    cases ident
    exact List.mem_cons_self
  | group _ ih => exact List.mem_cons_of_mem _ (List.mem_append_left _ (ih ident))

theorem mem_intercalate {α : Type} {separator part : List α} {parts : List (List α)} {a : α}
    (among : part ∈ parts) (member : a ∈ part) : a ∈ List.intercalate separator parts := by
  induction parts with
  | nil => cases among
  | cons first rest ih =>
    cases rest with
    | nil =>
      rw [List.mem_singleton.mp among] at member
      rwa [List.intercalate_singleton]
    | cons second rest =>
      rw [List.intercalate_cons_cons]
      rcases List.mem_cons.mp among with here | later
      · rw [here] at member
        exact List.mem_append_left _ (List.mem_append_left _ member)
      · exact List.mem_append_right _ (ih later)

/-- The tokens of a statement are tokens of its program. -/
theorem Program.Derives.exists_of_mem {found : List Token} {program : Program}
    (derives : Program.Derives found program) {statement : Statement}
    (member : statement ∈ program) :
    ∃ part, Statement.Derives part statement ∧ part ⊆ found := by
  obtain ⟨parts, -, each, rfl, tokens⟩ := derives
  obtain ⟨part, among, rfl⟩ := List.mem_map.mp member
  refine ⟨part.1, each part among, fun token inside => ?_⟩
  have within : token ∈ List.intercalate [.semicolon] (parts.map Prod.fst) :=
    mem_intercalate (List.mem_map_of_mem among) inside
  rcases tokens with rfl | rfl
  · exact within
  · exact List.mem_append_left _ within

/-! ### Names of programs -/

/-- The text of a program spells tokens from which its statements derive. -/
theorem exists_of_mem_of_parse {source : String} {program : Program} {statement : Statement}
    (parsed : parse source = .ok program) (member : statement ∈ program) :
    ∃ found part, Spelled source.toList found ∧ Statement.Derives part statement.unplaced ∧
      part ⊆ found := by
  obtain ⟨shallow, -⟩ := parseWithin_eq_ok.mp parsed
  obtain ⟨found, spelled, derives⟩ := generates_of_parseWithin shallow parsed
  obtain ⟨part, ofStatement, within⟩ := derives.exists_of_mem (List.mem_map_of_mem member)
  exact ⟨found, part, spelled, ofStatement, within⟩

/-- **A program assigns to valid names only.** -/
theorem isValidName_of_mem_targets {source : String} {program : Program} {name : String}
    (parsed : parse source = .ok program) (member : name ∈ Program.targets program) :
    isValidName name := by
  obtain ⟨statement, among, target⟩ := List.mem_filterMap.mp member
  obtain ⟨found, part, spelled, derives, within⟩ := exists_of_mem_of_parse parsed among
  cases statement with
  | expr e => cases target
  | assign other nameSpan e =>
    cases target
    generalize placed : (Statement.assign name nameSpan e).unplaced = plain at derives
    cases derives with
    | assign =>
      cases placed
      exact spelled.isValidName (within List.mem_cons_self)
    | expr => cases placed

/-! ### Texts that are names -/

/-- Whether a character counts toward nesting. -/
def isNesting (c : Char) : Bool := c = '(' || c = ')' || c = '+' || c = '-'

theorem checkNestingFrom_of_plain {limit : Nat} {text : List Char}
    (plain : ∀ c ∈ text, isNesting c = false) (depth signs offset : Nat) :
    checkNestingFrom limit depth signs offset text = .ok () := by
  induction text generalizing signs offset with
  | nil => rfl
  | cons c rest ih =>
    obtain ⟨here, later⟩ := List.forall_mem_cons.mp plain
    simp only [isNesting, Bool.or_eq_false_iff, decide_eq_false_iff_not] at here
    obtain ⟨⟨⟨opening, closing⟩, plus⟩, minus⟩ := here
    simp [checkNestingFrom, opening, closing, plus, minus, ih later]

theorem isNesting_eq_false {c : Char} (inName : isNameChar c) : isNesting c = false := by
  have other (nesting : Char) (outside : isNameChar nesting = false) : c ≠ nesting := by
    rintro rfl
    rw [outside] at inName
    cases inName
  simp [isNesting, other '(' rfl, other ')' rfl, other '+' rfl, other '-' rfl]

theorem IsName.isNameChar {word : List Char} (isName : IsName word) :
    ∀ c ∈ word, isNameChar c := by
  cases word with
  | nil => exact fun _ member => by cases member
  | cons first rest =>
    obtain ⟨start, others⟩ := isName
    exact List.forall_mem_cons.mpr ⟨isNameChar_of_isNameStart start, List.all_eq_true.mp others⟩

/-- The grammar generates a name as the identifier of that name. -/
theorem generates_name {name : String} (isName : IsName name.toList) :
    Generates name.toList [.expr (.ident name .nowhere)] := by
  have longest : LongestWord IsName name.toList [] := by
    refine ⟨isName, fun other isPrefix _ => ?_⟩
    rw [List.append_nil] at isPrefix
    exact isPrefix.length_le
  have spelled := Spelled.name longest .nil
  rw [List.append_nil, String.ofList_toList] at spelled
  have derives : Derives .sum [.name name] (.ident name .nowhere) :=
    Derives.loosen (.ident name) (by decide)
  refine ⟨[.name name], spelled, [([.name name], .expr (.ident name .nowhere))],
    List.cons_ne_nil _ _, ?_, rfl, .inl rfl⟩
  intro part member
  rw [List.mem_singleton.mp member]
  exact .expr derives

/-- A program that is an identifier, but for its places. -/
theorem eq_of_map_unplaced {program : Program} {name : String}
    (same : [Statement.expr (.ident name .nowhere)] = program.map Statement.unplaced) :
    ∃ span, program = [.expr (.ident name span)] := by
  match program, same with
  | [.expr (.ident other span)], same =>
    cases same
    exact ⟨span, rfl⟩

/-- **A text is a valid name exactly if it is read as the identifier of that name.** -/
theorem isValidName_iff_parseExpression (text : String) :
    isValidName text ↔ ∃ span, parseExpression text = .ok (.ident text span) := by
  constructor
  · intro valid
    have isName := isValidName_iff.mp valid
    have shallow : checkNesting defaultNesting text.toList = .ok () :=
      checkNestingFrom_of_plain (fun c member => isNesting_eq_false (isName.isNameChar c member))
        0 0 0
    obtain ⟨program, parsed, same⟩ := parseWithin_of_generates shallow (generates_name isName)
    obtain ⟨span, rfl⟩ := eq_of_map_unplaced same.symm
    refine ⟨span, bind_eq_ok.mpr ⟨_, parsed, rfl⟩⟩
  · rintro ⟨span, read⟩
    obtain ⟨program, parsed, single⟩ := bind_eq_ok.mp read
    have ident : program = [.expr (.ident text span)] := by
      split at single
      · cases single
        rfl
      · cases single
    have member : .expr (.ident text span) ∈ program := by
      rw [ident]
      exact List.mem_singleton.mpr rfl
    obtain ⟨found, part, spelled, derives, within⟩ := exists_of_mem_of_parse parsed member
    generalize placed : (Statement.expr (.ident text span)).unplaced = plain at derives
    cases derives with
    | assign => cases placed
    | expr sum =>
      cases placed
      exact spelled.isValidName (within (sum.name_mem rfl))

end Reckoner
