/-
The program of two texts around a semicolon.

* `endsInSemicolon` — a text whose last character is a semicolon, but for blanks.
* `parseWithin_eq_ok` — the steps of reading a program.
* `Parse.finish_moved` — a text may end after earlier statements where it may end without them.
* `parseWithin_semicolon` — **the program of two texts around a semicolon consists of the statements
  of the first and those of the second at later places.**
-/

import Reckoner.Proofs.Expression.Nesting
import Reckoner.Proofs.Expression.Places

namespace Reckoner

/-! ### The end of a text -/

/-- Whether a text ends in a semicolon, but for blanks. -/
def endsInSemicolon (text : List Char) : Bool :=
  (text.reverse.dropWhile isSpace).head? = some ';'

theorem endsInSemicolon_of_blanks {before blanks : List Char} (blank : blanks.all isSpace) :
    endsInSemicolon (before ++ ';' :: blanks) := by
  have reversed : (before ++ ';' :: blanks).reverse = blanks.reverse ++ ';' :: before.reverse := by
    rw [List.reverse_append, List.reverse_cons, List.append_assoc]
    rfl
  have skipped : ∀ c ∈ blanks.reverse, isSpace c := by
    intro c member
    exact List.all_eq_true.mp blank c (List.mem_reverse.mp member)
  unfold endsInSemicolon
  rw [reversed, List.dropWhile_append_of_pos skipped]
  rfl

/-! ### Reading a program -/

/-- A text is a program if it is not nested too deeply, the parser takes its tokens, and it may end
where they end. -/
theorem parseWithin_eq_ok {limit : Nat} {source : String} {program : Program} :
    parseWithin limit source = .ok program ↔
      checkNesting limit source.toList = .ok () ∧
        ∃ state, (lex source.toList).foldlM Parse.step Parse.start = .ok state ∧
          state.finish (Text.byteLength source.toList) = .ok program := by
  unfold parseWithin
  rw [bind_eq_ok]
  constructor
  · rintro ⟨⟨⟩, checked, rest⟩
    exact ⟨checked, bind_eq_ok.mp rest⟩
  · rintro ⟨checked, rest⟩
    exact ⟨(), checked, bind_eq_ok.mpr rest⟩

namespace Parse

section Moved

variable {place : Nat → Nat} {earlier : List Statement} {state : Parse}

theorem resting_moved : (state.moved place earlier).Resting ↔ state.Resting := by
  obtain ⟨finished, target, waiting, operand⟩ := state
  constructor
  · rintro ⟨due, waits, aims⟩
    refine ⟨?_, List.map_eq_nil_iff.mp waits, Option.map_eq_none_iff.mp aims⟩
    cases operand with
    | due => rfl
    | name text span => cases due
    | complete e => cases due
  · rintro ⟨due, waits, aims⟩
    cases due
    cases waits
    cases aims
    exact ⟨rfl, rfl, rfl⟩

/-- **A text may end after earlier statements where it may end without them**, unless it has no
statement of its own. -/
theorem finish_moved (length length' : Nat) {program : Program}
    (begun : state.Resting → state.finished ≠ []) :
    (state.moved place earlier).finish length = .ok program ↔
      ∃ own, state.finish length' = .ok own ∧
        program = earlier.reverse ++ own.map (Statement.mapPlaces place) := by
  have reversed (state : Parse) : (state.moved place earlier).finished.reverse =
      earlier.reverse ++ state.finished.reverse.map (Statement.mapPlaces place) := by
    rw [moved, List.reverse_append, List.map_reverse]
  let semicolon : Lexeme := ⟨.semicolon, ';', ⟨0, 1⟩⟩
  have stepped (after : Parse) : (state.moved place earlier).step (semicolon.mapPlaces place) =
      .ok after ↔ ∃ own, state.step semicolon = .ok own ∧ after = own.moved place earlier := by
    rw [← toOption_eq_some, step_moved, Option.map_eq_some_iff]
    simp only [toOption_eq_some, @eq_comm Parse after]
  have ended : (semicolon.mapPlaces place).token = .semicolon := rfl
  have ends : semicolon.token = .semicolon := rfl
  rw [finish_eq_ok ended, resting_moved]
  constructor
  · rintro (⟨after, taken, rfl⟩ | ⟨resting, -, rfl⟩)
    · obtain ⟨own, taken', rfl⟩ := (stepped after).mp taken
      exact ⟨own.finished.reverse, (finish_eq_ok ends).mpr
        (.inl ⟨own, taken', rfl⟩), reversed own⟩
    · exact ⟨state.finished.reverse, (finish_eq_ok ends).mpr
        (.inr ⟨resting, begun resting, rfl⟩), reversed state⟩
  · rintro ⟨own, finished, rfl⟩
    rcases (finish_eq_ok ends).mp finished with
      ⟨after, taken, rfl⟩ | ⟨resting, some, rfl⟩
    · exact .inl ⟨_, (stepped _).mpr ⟨after, taken, rfl⟩, (reversed after).symm⟩
    · refine .inr ⟨resting, ?_, (reversed state).symm⟩
      rw [moved]
      simp [some]

end Moved

/-- The parser waits in no parenthesis when a statement ends. -/
theorem openCount_of_semicolon {state after : Parse} {lexeme : Lexeme}
    (semicolon : lexeme.token = .semicolon) (stepped : state.step lexeme = .ok after) :
    state.openCount = 0 := by
  have count := (step_eq_ok.mp stepped).openCount_eq
  obtain ⟨_, _, _, _, rfl⟩ := (step_semicolon semicolon).mp stepped
  rw [semicolon] at count
  exact count.symm

end Parse

/-! ### Two texts around a semicolon -/

section Sequence

variable {first second : List Char}

/-- The tokens of two texts around a semicolon. -/
theorem lex_semicolon (first second : List Char) :
    lex (first ++ ';' :: second) =
      lex first ++ ⟨.semicolon, ';', Text.byteLength first, Text.byteLength first + 1⟩ ::
        (lex second).map (Lexeme.mapPlaces (· + (Text.byteLength first + 1))) := by
  have single : Token.longest ';' second = (.semicolon, 0) :=
    Token.longest_single (by decide) (by decide) (by decide) (by decide) second
  unfold lex
  rw [lexFrom_append (by decide) first second (Nat.zero_le _), lexFrom_token (by decide), single,
    Nat.zero_add, ← lexFrom_shift, Nat.zero_add]
  rfl

/-- The statements that the tokens of a text leave behind before a semicolon. -/
theorem depthAfter_of_semicolon {state after : Parse} {lexeme : Lexeme}
    (walked : (lex first).foldlM Parse.step Parse.start = .ok state)
    (semicolon : lexeme.token = .semicolon) (stepped : state.step lexeme = .ok after) :
    depthAfter 0 first = 0 := by
  have count := Parse.foldlM_openCount walked
  rw [Parse.openCount_of_semicolon semicolon stepped] at count
  rw [lex, show Parse.start.openCount = 0 from rfl, depthAfter_lexFrom, List.drop_zero] at count
  exact count.symm

/-- A text that is not blank does not leave the parser where it starts. -/
theorem finished_of_not_blank {text : List Char} {state : Parse}
    (walked : (lex text).foldlM Parse.step Parse.start = .ok state)
    (notBlank : text.all isSpace = false) (resting : state.Resting) : state.finished ≠ [] := by
  have some : lex text ≠ [] := by
    intro none
    rw [lexFrom_eq_nil none] at notBlank
    cases notBlank
  exact (Parse.resting_of_foldlM walked some resting).2

/-- A text that does not end in a semicolon ends a statement. -/
theorem step_of_finish {text : List Char} {state : Parse} {length : Nat} {program : Program}
    (lexeme : Lexeme) (semicolon : lexeme.token = .semicolon)
    (walked : (lex text).foldlM Parse.step Parse.start = .ok state)
    (notEnded : endsInSemicolon text = false) (finished : state.finish length = .ok program) :
    ∃ after, state.step lexeme = .ok after ∧ program = after.finished.reverse := by
  rcases (Parse.finish_eq_ok semicolon).mp finished with stepped | ⟨resting, begun, -⟩
  · exact stepped
  · have some : lex text ≠ [] := by
      intro none
      rw [none] at walked
      cases walked
      exact begun rfl
    obtain ⟨⟨last, final, token⟩, -⟩ := Parse.resting_of_foldlM walked some resting
    obtain ⟨before, blanks, rfl, blank⟩ := exists_of_getLast?_semicolon final token
    rw [endsInSemicolon_of_blanks blank] at notEnded
    cases notEnded

/-- **The program of two texts around a semicolon** consists of the statements of the first text and
those of the second one at later places. The first text does not end in a semicolon of its own, and
the second one is not blank. -/
theorem parseWithin_semicolon {limit : Nat} {first second : String} {program : Program}
    (notEnded : endsInSemicolon first.toList = false)
    (notBlank : second.toList.all isSpace = false) :
    parseWithin limit (first ++ ";" ++ second) = .ok program ↔
      ∃ earlier later, parseWithin limit first = .ok earlier ∧
        parseWithin limit second = .ok later ∧
        program = earlier ++
          later.map (Statement.mapPlaces (· + (Text.byteLength first.toList + 1))) := by
  have text : (first ++ ";" ++ second).toList = first.toList ++ ';' :: second.toList := by
    simp
  have restart (after : Parse) (finished : List Statement)
      (ended : after = ⟨finished, none, [], .due⟩) (place : Nat → Nat) :
      after = Parse.start.moved place after.finished := by
    rw [ended]
    rfl
  simp only [parseWithin_eq_ok, text, lex_semicolon, foldlM_append_eq_ok, foldlM_cons_eq_ok]
  constructor
  · rintro ⟨checked, state, ⟨state₁, walked₁, after, stepped, walked⟩, finished⟩
    have closed := depthAfter_of_semicolon walked₁ rfl stepped
    obtain ⟨checked₁, checked₂⟩ := (checkNesting_semicolon closed).mp checked
    obtain ⟨_, _, _, _, ended⟩ := (Parse.step_semicolon rfl).mp stepped
    rw [restart _ _ ended (· + (Text.byteLength first.toList + 1)), ← toOption_eq_some,
      Parse.foldlM_moved, Option.map_eq_some_iff] at walked
    obtain ⟨state₂, walked₂, rfl⟩ := walked
    rw [toOption_eq_some] at walked₂
    obtain ⟨own, finished₂, rfl⟩ := (Parse.finish_moved _ (Text.byteLength second.toList)
      (finished_of_not_blank walked₂ notBlank)).mp finished
    exact ⟨after.finished.reverse, own, ⟨checked₁, state₁, walked₁,
      (Parse.finish_eq_ok rfl).mpr (.inl ⟨after, stepped, rfl⟩)⟩,
      ⟨checked₂, state₂, walked₂, finished₂⟩, rfl⟩
  · rintro ⟨earlier, later, ⟨checked₁, state₁, walked₁, finished₁⟩,
      ⟨checked₂, state₂, walked₂, finished₂⟩, rfl⟩
    obtain ⟨after, stepped, rfl⟩ := step_of_finish ⟨.semicolon, ';', Text.byteLength first.toList,
      Text.byteLength first.toList + 1⟩ rfl walked₁ notEnded finished₁
    have closed := depthAfter_of_semicolon walked₁ rfl stepped
    obtain ⟨_, _, _, _, ended⟩ := (Parse.step_semicolon rfl).mp stepped
    refine ⟨(checkNesting_semicolon closed).mpr ⟨checked₁, checked₂⟩,
      state₂.moved (· + (Text.byteLength first.toList + 1)) after.finished,
      ⟨state₁, walked₁, after, stepped, ?_⟩, ?_⟩
    · rw [restart _ _ ended (· + (Text.byteLength first.toList + 1)), ← toOption_eq_some,
        Parse.foldlM_moved, walked₂]
      rfl
    · exact (Parse.finish_moved _ _ (finished_of_not_blank walked₂ notBlank)).mpr
        ⟨later, finished₂, rfl⟩

end Sequence

end Reckoner
