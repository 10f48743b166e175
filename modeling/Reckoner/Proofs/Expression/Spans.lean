/-
What the spans of a program select.

Every tree that the parser holds is built of tokens it has taken: numbers and names have the place of
a token, signs start at one, operators reach from one operand to the other, and calls are read on their
own. Each token that it takes keeps this.

* `Expr.Built`, `Parse.Built` — trees and states that are built of some tokens.
* `Parse.Moves.built` — **what the parser holds is built of the tokens taken**.
* `Expr.Faithful`, `Statement.Faithful` — spans that select what they are said to.
* `parseWithin_spans` — **the spans of a program are nested, in source order and faithful**.
-/

import Reckoner.Proofs.Expression.Calls
import Reckoner.Proofs.Expression.Layout

namespace Reckoner

/-! ### Built of tokens -/

/-- Whether a name stands where one of some tokens does. -/
def Named (tokens : List Lexeme) (name : String) (span : Span) : Prop :=
  ∃ lexeme ∈ tokens, lexeme.token = .name name ∧ lexeme.span = span

theorem Named.append {tokens : List Lexeme} {name : String} {span : Span}
    (named : Named tokens name span) (more : List Lexeme) : Named (tokens ++ more) name span := by
  obtain ⟨lexeme, member, rest⟩ := named
  exact ⟨lexeme, List.mem_append_left more member, rest⟩

/-- Whether a tree is built of some tokens. -/
inductive Expr.Built (tokens : List Lexeme) : Expr → Prop where
  | number {lexeme : Lexeme} {text : String} (member : lexeme ∈ tokens)
      (token : lexeme.token = .number text) : Built tokens (.number text lexeme.span)
  | ident {name : String} {span : Span} (named : Named tokens name span) :
      Built tokens (.ident name span)
  | unary {sign : Sign} {operand : Expr} {lexeme : Lexeme} (member : lexeme ∈ tokens)
      (built : Built tokens operand) :
      Built tokens (.unary sign operand ⟨lexeme.span.start, operand.span.stop⟩)
  | binary {op : BinaryOp} {left right : Expr} (first : Built tokens left)
      (second : Built tokens right) :
      Built tokens (.binary op left right (left.span.join right.span))
  | call {name : String} {nameSpan : Span} {arguments : List Expr} {closing : Lexeme}
      (named : Named tokens name nameSpan) (last : closing ∈ tokens)
      (each : ∀ argument ∈ arguments, Built tokens argument)
      (alone : Parse.Alone tokens (.call name nameSpan arguments (nameSpan.join closing.span))) :
      Built tokens (.call name nameSpan arguments (nameSpan.join closing.span))

namespace Expr.Built

variable {tokens : List Lexeme} {e : Expr}

theorem append (built : e.Built tokens) (more : List Lexeme) : e.Built (tokens ++ more) := by
  induction built with
  | number member token => exact .number (List.mem_append_left more member) token
  | ident named => exact .ident (named.append more)
  | unary member _ ih => exact .unary (List.mem_append_left more member) ih
  | binary _ _ ih ih' => exact .binary ih ih'
  | call named last _ alone ih =>
    exact .call (named.append more) (List.mem_append_left more last) ih (alone.append more)

theorem parts (built : e.Built tokens) {part : Expr} (member : part ∈ e.parts) :
    part.Built tokens := by
  cases built with
  | number => cases member
  | ident => cases member
  | unary _ operand =>
    rw [List.mem_singleton.mp member]
    exact operand
  | binary first second =>
    rcases List.mem_cons.mp member with rfl | member
    · exact first
    · rw [List.mem_singleton.mp member]
      exact second
  | call _ _ each _ => exact each part member

/-- The nodes of a tree are built of the same tokens. -/
theorem node (built : e.Built tokens) {node : Expr} (has : e.HasNode node) : node.Built tokens := by
  induction has with
  | self => exact built
  | part _ member ih => exact ih.parts member

/-- A tree starts where a token does and stops where a token does. -/
theorem ends (built : e.Built tokens) :
    (∃ lexeme ∈ tokens, e.span.start = lexeme.span.start) ∧
      ∃ lexeme ∈ tokens, e.span.stop = lexeme.span.stop := by
  induction built with
  | @number lexeme text member token => exact ⟨⟨lexeme, member, rfl⟩, lexeme, member, rfl⟩
  | ident named =>
    obtain ⟨lexeme, member, -, rfl⟩ := named
    exact ⟨⟨lexeme, member, rfl⟩, lexeme, member, rfl⟩
  | @unary sign operand lexeme member _ ih => exact ⟨⟨lexeme, member, rfl⟩, ih.2⟩
  | binary _ _ ih ih' => exact ⟨ih.1, ih'.2⟩
  | @call name nameSpan arguments closing named last =>
    obtain ⟨lexeme, member, -, rfl⟩ := named
    exact ⟨⟨lexeme, member, rfl⟩, closing, last, rfl⟩

end Expr.Built

/-- Whether a statement is built of some tokens. -/
def Statement.Built (tokens : List Lexeme) : Statement → Prop
  | assign name nameSpan value => Named tokens name nameSpan ∧ value.Built tokens
  | expr value => value.Built tokens

theorem Statement.Built.append {tokens : List Lexeme} {statement : Statement}
    (built : statement.Built tokens) (more : List Lexeme) : statement.Built (tokens ++ more) := by
  cases statement with
  | assign name nameSpan value => exact ⟨built.1.append more, built.2.append more⟩
  | expr value => exact Expr.Built.append built more

theorem Statement.Built.value {tokens : List Lexeme} {statement : Statement}
    (built : statement.Built tokens) : statement.value.Built tokens := by
  cases statement with
  | assign name nameSpan value => exact built.2
  | expr value => exact built

/-- Whether what waits is built of some tokens. -/
def Waiting.Built (tokens : List Lexeme) : Waiting → Prop
  | sign _ start => ∃ lexeme ∈ tokens, start = lexeme.span.start
  | infixOp _ left => left.Built tokens
  | group => True
  | call _ _ arguments => ∀ argument ∈ arguments, argument.Built tokens

theorem Waiting.Built.append {tokens : List Lexeme} {wait : Waiting} (built : wait.Built tokens)
    (more : List Lexeme) : wait.Built (tokens ++ more) := by
  cases wait with
  | sign sign start =>
    obtain ⟨lexeme, member, here⟩ := built
    exact ⟨lexeme, List.mem_append_left more member, here⟩
  | infixOp op left => exact Expr.Built.append built more
  | group => trivial
  | call name nameSpan arguments =>
    exact fun argument member => (built argument member).append more

/-- Whether the operand at hand is built of some tokens. -/
def Operand.Built (tokens : List Lexeme) : Operand → Prop
  | due => True
  | name text span => Named tokens text span
  | complete e => e.Built tokens

theorem Operand.Built.append {tokens : List Lexeme} {operand : Operand}
    (built : operand.Built tokens) (more : List Lexeme) : operand.Built (tokens ++ more) := by
  cases operand with
  | due => trivial
  | name text span => exact Named.append built more
  | complete e => exact Expr.Built.append built more

theorem Operand.Built.of_expr? {tokens : List Lexeme} {operand : Operand} {e : Expr}
    (built : operand.Built tokens) (found : operand.expr? = some e) : e.Built tokens := by
  cases operand with
  | due => cases found
  | name text span =>
    cases found
    exact .ident built
  | complete e =>
    cases found
    exact built

namespace Parse

/-- Whether what a state holds is built of some tokens. -/
structure Built (tokens : List Lexeme) (state : Parse) : Prop where
  finished : ∀ statement ∈ state.finished, statement.Built tokens
  target : ∀ name span, state.target = some (name, span) → Named tokens name span
  waiting : ∀ wait ∈ state.waiting, wait.Built tokens
  operand : state.operand.Built tokens

/-- An operand that waiting operators take is built of the same tokens. -/
theorem reduce_built {tokens : List Lexeme} {threshold : Nat} {waiting waiting' : List Waiting}
    {e e' : Expr} (reduced : reduce threshold waiting e = (waiting', e'))
    (waits : ∀ wait ∈ waiting, wait.Built tokens) (built : e.Built tokens) :
    (∀ wait ∈ waiting', wait.Built tokens) ∧ e'.Built tokens := by
  induction waiting generalizing e with
  | nil =>
    cases reduced
    exact ⟨waits, built⟩
  | cons wait rest ih =>
    have stays (same : (wait :: rest, e) = (waiting', e')) :
        (∀ wait ∈ waiting', wait.Built tokens) ∧ e'.Built tokens := by
      cases same
      exact ⟨waits, built⟩
    obtain ⟨here, others⟩ := List.forall_mem_cons.mp waits
    cases wait with
    | sign sign start =>
      rw [reduce] at reduced
      split at reduced
      · obtain ⟨lexeme, member, rfl⟩ := here
        exact ih reduced others (.unary member built)
      · exact stays reduced
    | infixOp op left =>
      rw [reduce] at reduced
      split at reduced
      · exact ih reduced others (.binary here built)
      · exact stays reduced
    | group => exact stays reduced
    | call name nameSpan arguments => exact stays reduced

section Steps

variable {tokens : List Lexeme} {state after : Parse}

theorem start_built : start.Built [] :=
  ⟨nofun, nofun, nofun, trivial⟩

theorem Built.append (built : state.Built tokens) (more : List Lexeme) :
    state.Built (tokens ++ more) where
  finished statement member := (built.finished statement member).append more
  target name span named := (built.target name span named).append more
  waiting wait member := (built.waiting wait member).append more
  operand := built.operand.append more

theorem Built.statement (built : state.Built tokens) {e : Expr} (value : e.Built tokens) :
    (state.statement e).Built tokens := by
  unfold Parse.statement
  cases named : state.target with
  | none => exact value
  | some assigned => exact ⟨built.target _ _ named, value⟩

/-- **What the parser holds is built of the tokens taken**, and of the next one if it takes it. -/
theorem Moves.built {lexeme : Lexeme} (moves : Moves state lexeme after)
    (walked : tokens.foldlM step start = .ok state) (built : state.Built tokens) :
    after.Built (tokens ++ [lexeme]) := by
  have here : lexeme ∈ tokens ++ [lexeme] := List.mem_append_right _ (List.mem_singleton.mpr rfl)
  have later := built.append [lexeme]
  obtain ⟨finished, target, waiting, held⟩ := id later
  have reduction {threshold : Nat} {e whole : Expr} {rest : List Waiting}
      (operand : state.operand.expr? = some e)
      (reduced : reduce threshold state.waiting e = (rest, whole)) :
      (∀ wait ∈ rest, wait.Built (tokens ++ [lexeme])) ∧ whole.Built (tokens ++ [lexeme]) :=
    reduce_built reduced waiting (held.of_expr? operand)
  -- A closing parenthesis ends the tokens that have been taken since the name of the call.
  have closed (inner : List Waiting) {name : String} {nameSpan : Span} {given arguments : List Expr}
      {rest : List Waiting} (token : lexeme.token = .closing)
      (opened : state.waiting = inner ++ .call name nameSpan given :: rest)
      (each : ∀ argument ∈ arguments, argument.Built (tokens ++ [lexeme]))
      (moves : Moves ⟨[], none, inner ++ [.call name nameSpan given], state.operand⟩ lexeme
        ⟨[], none, [], .complete (.call name nameSpan arguments (nameSpan.join lexeme.span))⟩) :
      (Expr.call name nameSpan arguments (nameSpan.join lexeme.span)).Built
        (tokens ++ [lexeme]) := by
    have opens := opens_call walked opened
    obtain ⟨front, first, own, rfl, named, rfl, -⟩ := id opens
    exact .call ⟨first, by simp, named, rfl⟩ here each (opens.close token rfl moves)
  cases moves with
  | number due token => exact ⟨finished, target, waiting, .number here token⟩
  | name due token => exact ⟨finished, target, waiting, lexeme, here, token, rfl⟩
  | opening due token =>
    refine ⟨finished, target, List.forall_mem_cons.mpr ⟨trivial, waiting⟩, ?_⟩
    exact (congrArg (Operand.Built _) due).mpr trivial
  | sign due token signs =>
    refine ⟨finished, target, List.forall_mem_cons.mpr ⟨⟨lexeme, here, rfl⟩, waiting⟩, ?_⟩
    exact (congrArg (Operand.Built _) due).mpr trivial
  | empty due token called =>
    rw [called] at waiting
    refine ⟨finished, target, (List.forall_mem_cons.mp waiting).2, ?_⟩
    exact closed [] token called nofun (.empty due token rfl)
  | calling named token =>
    exact ⟨finished, target, List.forall_mem_cons.mpr ⟨nofun, waiting⟩, trivial⟩
  | becomes named token alone first =>
    rw [named] at held
    refine ⟨finished, ?_, waiting, trivial⟩
    rintro _ _ ⟨⟩
    exact held
  | infixOp found token reduced =>
    obtain ⟨rest, left⟩ := reduction found reduced
    exact ⟨finished, target, List.forall_mem_cons.mpr ⟨left, rest⟩, trivial⟩
  | group found token reduced =>
    obtain ⟨rest, inner⟩ := reduction found reduced
    exact ⟨finished, target, (List.forall_mem_cons.mp rest).2, inner⟩
  | @call e last callee calleeSpan given rest found token reduced =>
    obtain ⟨waits, final⟩ := reduction found reduced
    obtain ⟨others, remaining⟩ := List.forall_mem_cons.mp waits
    obtain ⟨taken, split, exchanged⟩ := reduce_exchange [] reduced
    rw [List.append_nil] at split exchanged
    refine ⟨finished, target, remaining, closed taken token split ?_ (.call found token exchanged)⟩
    intro argument member
    rcases List.mem_append.mp member with member | member
    · exact others argument (List.mem_reverse.mp member)
    · rw [List.mem_singleton.mp member]
      exact final
  | comma found token reduced =>
    obtain ⟨waits, last⟩ := reduction found reduced
    obtain ⟨others, remaining⟩ := List.forall_mem_cons.mp waits
    refine ⟨finished, target, List.forall_mem_cons.mpr ⟨?_, remaining⟩, trivial⟩
    exact List.forall_mem_cons.mpr ⟨last, others⟩
  | semicolon found token reduced =>
    obtain ⟨-, whole⟩ := reduction found reduced
    exact ⟨List.forall_mem_cons.mpr ⟨later.statement whole, finished⟩, nofun, nofun, trivial⟩

/-- **What the parser holds after some tokens is built of them.** -/
theorem foldlM_built (walked : tokens.foldlM step start = .ok state) : state.Built tokens := by
  induction tokens using List.reverseRecOn generalizing state with
  | nil =>
    cases walked
    exact start_built
  | append_singleton tokens lexeme ih =>
    obtain ⟨before, earlier, last⟩ := foldlM_append_eq_ok.mp walked
    obtain ⟨_, stepped, ⟨⟩⟩ := foldlM_cons_eq_ok.mp last
    exact (step_eq_ok.mp stepped).built earlier (ih earlier)

end Steps

end Parse

/-- The statements of a program are built of the tokens of its text. -/
theorem parseWithin_built {limit : Nat} {source : String} {program : Program}
    (parsed : parseWithin limit source = .ok program) {statement : Statement}
    (member : statement ∈ program) : statement.Built (lex source.toList) := by
  obtain ⟨-, state, walked, finished⟩ := parseWithin_eq_ok.mp parsed
  have built := Parse.foldlM_built walked
  have semicolon : (Lexeme.mk .semicolon ';' ⟨0, 0⟩).token = .semicolon := rfl
  rcases (Parse.finish_eq_ok semicolon).mp finished with ⟨after, stepped, rfl⟩ | ⟨_, _, rfl⟩
  · obtain ⟨e, whole, operand, reduced, rfl⟩ := (Parse.step_semicolon semicolon).mp stepped
    obtain ⟨-, value⟩ := Parse.reduce_built reduced built.waiting (built.operand.of_expr? operand)
    rcases List.mem_cons.mp (List.mem_reverse.mp member) with rfl | earlier
    · exact built.statement value
    · exact built.finished statement earlier
  · exact built.finished statement (List.mem_reverse.mp member)

/-! ### Spans of a text -/

/-- What a node has its number or its name from, and where that stands. -/
def Expr.written? : Expr → Option (String × Span)
  | number text span => some (text, span)
  | ident name span => some (name, span)
  | call name nameSpan _ _ => some (name, nameSpan)
  | _ => none

/-- Whether the places of a node select what they are said to: its span some characters, that of a
number or a name the characters of it, and the span of a call a text that is read, on its own, as the
same node with all places counted from its start. -/
structure Expr.Faithful (limit : Nat) (source : String) (node : Expr) : Prop where
  span : ∃ word, node.span.Selects source.toList word
  written : ∀ text place, node.written? = some (text, place) →
    place.Selects source.toList text.toList
  call : ∀ name nameSpan arguments span, node = .call name nameSpan arguments span →
    ∃ word own, span.Selects source.toList word ∧
      parseWithin limit (String.ofList word) = .ok [.expr own] ∧
      own.mapPlaces (· + span.start) = node

/-- Whether the span of a statement selects some characters, and that of the name that it assigns to
the characters of the name. -/
structure Statement.Faithful (source : String) (statement : Statement) : Prop where
  span : ∃ word, statement.span.Selects source.toList word
  name : ∀ name nameSpan value, statement = .assign name nameSpan value →
    nameSpan.Selects source.toList name.toList

section Faithful

variable {source : String}

theorem start_of_mem_lex {lexeme : Lexeme} (member : lexeme ∈ lex source.toList) :
    Text.IsBoundary source.toList lexeme.span.start := by
  obtain ⟨word, selects, -⟩ := selects_of_mem_lex member
  exact selects.start

theorem stop_of_mem_lex {lexeme : Lexeme} (member : lexeme ∈ lex source.toList) :
    Text.IsBoundary source.toList lexeme.span.stop := by
  obtain ⟨word, selects, -⟩ := selects_of_mem_lex member
  exact selects.stop

/-- A token that is a number or a name selects its characters. -/
theorem written_of_mem_lex {lexeme : Lexeme} {text : String} (member : lexeme ∈ lex source.toList)
    (worded : lexeme.token.text? = some text) :
    lexeme.span.Selects source.toList text.toList := by
  obtain ⟨word, selects, written⟩ := selects_of_mem_lex member
  rwa [written text worded]

theorem Named.selects {name : String} {span : Span} (named : Named (lex source.toList) name span) :
    span.Selects source.toList name.toList := by
  obtain ⟨lexeme, member, token, rfl⟩ := named
  exact written_of_mem_lex member (congrArg Token.text? token)

/-- **A tree that is built of the tokens of a text is faithful to it.** -/
theorem Expr.Built.faithful {limit : Nat} {node : Expr}
    (shallow : checkNesting limit source.toList = .ok ()) (built : node.Built (lex source.toList))
    (le : node.span.start ≤ node.span.stop) : node.Faithful limit source where
  span := by
    obtain ⟨⟨first, member, start⟩, last, member', stop⟩ := built.ends
    exact Span.exists_selects (start ▸ start_of_mem_lex member) (stop ▸ stop_of_mem_lex member') le
  written text place found := by
    cases built with
    | number member token =>
      cases found
      exact written_of_mem_lex member (congrArg Token.text? token)
    | ident named =>
      cases found
      exact named.selects
    | call named =>
      cases found
      exact named.selects
    | unary => cases found
    | binary => cases found
  call name nameSpan arguments span called := by
    subst called
    cases built with
    | call _ _ _ alone => exact parseWithin_alone shallow alone

theorem Statement.Built.faithful {statement : Statement}
    (built : statement.Built (lex source.toList))
    (le : statement.span.start ≤ statement.span.stop) : statement.Faithful source where
  span := by
    obtain ⟨⟨first, member, start⟩, last, member', stop⟩ := built.value.ends
    have stops : Text.IsBoundary source.toList statement.value.span.stop :=
      stop ▸ stop_of_mem_lex member'
    cases statement with
    | assign name nameSpan value => exact Span.exists_selects built.1.selects.start stops le
    | expr value =>
      exact Span.exists_selects (start ▸ start_of_mem_lex member) stops le
  name name nameSpan value assigns := by
    subst assigns
    exact built.1.selects

end Faithful

/-- **The spans of a program are nested, in source order and faithful.** Its statements lie in the text
one after the other, and so do the parts of each node inside of it. What a span selects are characters
of the text, for a name or a number its own; the text of a call is a program with the same node. -/
theorem parseWithin_spans {limit : Nat} {source : String} {program : Program}
    (parsed : parseWithin limit source = .ok program) :
    InOrder (fun low high statement => statement.span.Lies low high ∧ statement.Laid low high) 0
        (Text.byteLength source.toList) program ∧
      (∀ statement ∈ program, statement.Faithful source) ∧
      ∀ node, program.HasNode node →
        node.Laid 0 (Text.byteLength source.toList) ∧ node.Faithful limit source := by
  have ordered := parseWithin_laid parsed
  have built {statement : Statement} (member : statement ∈ program) :
      statement.Built (lex source.toList) := parseWithin_built parsed member
  refine ⟨ordered.imp fun _ _ _ laid => ⟨laid.span_lies, laid⟩, fun statement member => ?_,
    fun node has => ?_⟩
  · have lies := (ordered.mem Statement.laid_placing member).span_lies
    exact (built member).faithful (Nat.le_of_lt lies.nonempty)
  · have laid := has.laid ordered
    obtain ⟨statement, member, below⟩ := has
    exact ⟨laid, ((built member).value.node below).faithful (parseWithin_eq_ok.mp parsed).1
      (Nat.le_of_lt laid.span_lies.nonempty)⟩

/-- A call that is the exponent of a power. -/
theorem parseWithin_spans_call :
    parseWithin 1 "y := 2 ^ f(x)" = .ok [.assign "y" ⟨0, 1⟩ (.binary .pow (.number "2" ⟨5, 6⟩)
        (.call "f" ⟨9, 10⟩ [.ident "x" ⟨11, 12⟩] ⟨9, 13⟩) ⟨5, 13⟩)] ∧
      (Expr.call "f" ⟨9, 10⟩ [.ident "x" ⟨11, 12⟩] ⟨9, 13⟩).Faithful 1 "y := 2 ^ f(x)" := by
  have parsed : parseWithin 1 "y := 2 ^ f(x)" = .ok [.assign "y" ⟨0, 1⟩
      (.binary .pow (.number "2" ⟨5, 6⟩) (.call "f" ⟨9, 10⟩ [.ident "x" ⟨11, 12⟩] ⟨9, 13⟩)
        ⟨5, 13⟩)] := rfl
  refine ⟨parsed, ((parseWithin_spans parsed).2.2 _ ?_).2⟩
  exact ⟨_, List.mem_singleton.mpr rfl, .part .self (List.mem_cons_of_mem _ List.mem_cons_self)⟩

end Reckoner
