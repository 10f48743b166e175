/-
Where trees, statements and errors stand in a text.

* `Span.Lies`, `InOrder` — spans that are not empty, and parts of a text one after the other.
* `Expr.Laid`, `Statement.Laid` — trees whose parts stand inside of them and in source order.
* `Expr.HasNode`, `Program.HasNode` — the nodes of trees and programs, at any depth.
* `Parse.Laid`, `Parse.Moves.laid` — the same of what the parser has read, kept by every token.
* `parseWithin_laid` — **the statements of a text lie inside of it, in source order, and so do the
  parts of each**.
* `parseWithin_eq_error` — a text is refused at its nesting, at a token or at its end.
* `parseWithin_error` — **what a refused text is refused for stands inside of it**.
-/

import Reckoner.Proofs.Expression.Sequence

namespace Reckoner

/-! ### Parts in source order -/

/-- Whether a span is not empty and lies between two bytes. -/
structure Span.Lies (low high : Nat) (span : Span) : Prop where
  low : low ≤ span.start
  nonempty : span.start < span.stop
  high : span.stop ≤ high

theorem Span.Lies.widen {low low' high high' : Nat} {span : Span} (lies : span.Lies low high)
    (lower : low' ≤ low) (higher : high ≤ high') : span.Lies low' high' :=
  ⟨Nat.le_trans lower lies.low, lies.nonempty, Nat.le_trans lies.high higher⟩

/-- A way to lie between two bytes, in which anything lies that lies between bytes that are closer
together. -/
structure Placing {α : Type} (lies : Nat → Nat → α → Prop) : Prop where
  le : ∀ {low high a}, lies low high a → low ≤ high
  widen : ∀ {low low' high high' a}, lies low high a → low' ≤ low → high ≤ high' →
    lies low' high' a

/-- Whether parts lie between two bytes, each after the one before it. -/
def InOrder {α : Type} (lies : Nat → Nat → α → Prop) : (low high : Nat) → List α → Prop
  | low, high, [] => low ≤ high
  | low, high, a :: rest => ∃ between, lies low between a ∧ InOrder lies between high rest

theorem InOrder.imp {α : Type} {lies lies' : Nat → Nat → α → Prop} {low high : Nat} {list : List α}
    (ordered : InOrder lies low high list)
    (imp : ∀ low high a, lies low high a → lies' low high a) : InOrder lies' low high list := by
  induction list generalizing low with
  | nil => exact ordered
  | cons a rest ih =>
    obtain ⟨between, first, others⟩ := ordered
    exact ⟨between, imp low between a first, ih others⟩

section InOrder

variable {α : Type} {lies : Nat → Nat → α → Prop} (placing : Placing lies)
  {low low' between high high' : Nat} {list : List α} {a : α}

include placing

theorem InOrder.le (ordered : InOrder lies low high list) : low ≤ high := by
  induction list generalizing low with
  | nil => exact ordered
  | cons a rest ih =>
    obtain ⟨between, first, others⟩ := ordered
    exact Nat.le_trans (placing.le first) (ih others)

theorem InOrder.widen (ordered : InOrder lies low high list) (lower : low' ≤ low)
    (higher : high ≤ high') : InOrder lies low' high' list := by
  induction list generalizing low low' with
  | nil => exact Nat.le_trans lower (Nat.le_trans ordered higher)
  | cons a rest ih =>
    obtain ⟨between, first, others⟩ := ordered
    exact ⟨between, placing.widen first lower (Nat.le_refl _), ih others (Nat.le_refl _)⟩

theorem InOrder.mem (ordered : InOrder lies low high list) (member : a ∈ list) :
    lies low high a := by
  induction list generalizing low with
  | nil => cases member
  | cons first rest ih =>
    obtain ⟨between, here, others⟩ := ordered
    rcases List.mem_cons.mp member with rfl | later
    · exact placing.widen here (Nat.le_refl _) (others.le placing)
    · exact placing.widen (ih others later) (placing.le here) (Nat.le_refl _)

/-- One more part lies behind all others. -/
theorem inOrder_concat : InOrder lies low high (list ++ [a]) ↔
    ∃ between, InOrder lies low between list ∧ lies between high a := by
  induction list generalizing low with
  | nil =>
    constructor
    · rintro ⟨between, here, after⟩
      exact ⟨low, Nat.le_refl _, placing.widen here (Nat.le_refl _) after⟩
    · rintro ⟨between, before, here⟩
      exact ⟨high, placing.widen here before (Nat.le_refl _), Nat.le_refl _⟩
  | cons first rest ih =>
    constructor
    · rintro ⟨between, here, others⟩
      obtain ⟨after, ordered, last⟩ := ih.mp others
      exact ⟨after, ⟨between, here, ordered⟩, last⟩
    · rintro ⟨after, ⟨between, here, ordered⟩, last⟩
      exact ⟨between, here, ih.mpr ⟨after, ordered, last⟩⟩

end InOrder

/-! ### Trees -/

namespace Expr

/-- The nodes right below a node. -/
def parts : Expr → List Expr
  | number .. => []
  | ident .. => []
  | unary _ operand _ => [operand]
  | binary _ left right _ => [left, right]
  | call _ _ arguments _ => arguments

mutual

/-- Whether a tree lies between two bytes, and its parts inside of it in source order. -/
def Laid (low high : Nat) : Expr → Prop
  | number _ span => span.Lies low high
  | ident _ span => span.Lies low high
  | unary _ operand span => span.Lies low high ∧ operand.Laid span.start span.stop
  | binary _ left right span => span.Lies low high ∧
      ∃ between, left.Laid span.start between ∧ right.Laid between span.stop
  | call _ nameSpan arguments span => span.Lies low high ∧
      nameSpan.Lies span.start span.stop ∧ LaidAll nameSpan.stop span.stop arguments

/-- Whether trees lie between two bytes, each after the one before it. -/
def LaidAll (low high : Nat) : List Expr → Prop
  | [] => low ≤ high
  | e :: rest => ∃ between, e.Laid low between ∧ LaidAll between high rest

end

variable {low low' between high high' : Nat} {e : Expr}

theorem laidAll_iff {list : List Expr} : LaidAll low high list ↔ InOrder Laid low high list := by
  induction list generalizing low with
  | nil => rw [LaidAll, InOrder]
  | cons e rest ih =>
    rw [LaidAll, InOrder]
    exact exists_congr fun between => and_congr_right fun _ => ih

theorem Laid.span_lies (laid : e.Laid low high) : e.span.Lies low high := by
  cases e with
  | number text span => rwa [Laid] at laid
  | ident name span => rwa [Laid] at laid
  | unary sign operand span =>
    rw [Laid] at laid
    exact laid.1
  | binary op left right span =>
    rw [Laid] at laid
    exact laid.1
  | call name nameSpan arguments span =>
    rw [Laid] at laid
    exact laid.1

/-- The place of a tree is that of its span. -/
theorem Laid.of_span (laid : e.Laid low high) (lies : e.span.Lies low' high') :
    e.Laid low' high' := by
  cases e with
  | number text span =>
    rw [Laid]
    exact lies
  | ident name span =>
    rw [Laid]
    exact lies
  | unary sign operand span =>
    rw [Laid] at laid ⊢
    exact ⟨lies, laid.2⟩
  | binary op left right span =>
    rw [Laid] at laid ⊢
    exact ⟨lies, laid.2⟩
  | call name nameSpan arguments span =>
    rw [Laid] at laid ⊢
    exact ⟨lies, laid.2⟩

theorem laid_placing : Placing Laid where
  le laid := by
    obtain ⟨above, some, below⟩ := laid.span_lies
    omega
  widen laid lower higher := laid.of_span (laid.span_lies.widen lower higher)

/-- The nodes below a node lie inside of it. -/
theorem Laid.parts (laid : e.Laid low high) {part : Expr} (member : part ∈ e.parts) :
    part.Laid e.span.start e.span.stop := by
  cases e with
  | number text span => cases member
  | ident name span => cases member
  | unary sign operand span =>
    rw [Laid] at laid
    rw [List.mem_singleton.mp member]
    exact laid.2
  | binary op left right span =>
    rw [Laid] at laid
    obtain ⟨-, between, first, second⟩ := laid
    rcases List.mem_cons.mp member with rfl | member
    · exact laid_placing.widen first (Nat.le_refl _) (laid_placing.le second)
    · rw [List.mem_singleton.mp member]
      exact laid_placing.widen second (laid_placing.le first) (Nat.le_refl _)
  | call name nameSpan arguments span =>
    rw [Laid, laidAll_iff] at laid
    obtain ⟨-, named, ordered⟩ := laid
    have inside := ordered.mem laid_placing member
    refine laid_placing.widen inside ?_ (Nat.le_refl _)
    exact Nat.le_trans named.low (Nat.le_of_lt named.nonempty)

/-- Whether a tree is a node of another, at any depth. -/
inductive HasNode (e : Expr) : Expr → Prop where
  | self : HasNode e e
  | part {node part : Expr} (above : HasNode e node) (member : part ∈ node.parts) : HasNode e part

/-- The nodes of a tree lie where it does. -/
theorem Laid.node (laid : e.Laid low high) {node : Expr} (has : e.HasNode node) :
    node.Laid low high := by
  induction has with
  | self => exact laid
  | part _ member ih =>
    have inside := ih.span_lies
    exact laid_placing.widen (ih.parts member) inside.low inside.high

/-- A sign in front of a tree. -/
theorem Laid.unary {start : Nat} (laid : e.Laid between high) (above : low ≤ start)
    (before : start ≤ between) (sign : Sign) :
    (Expr.unary sign e ⟨start, e.span.stop⟩).Laid low high := by
  obtain ⟨first, some, last⟩ := laid.span_lies
  rw [Laid]
  refine ⟨⟨above, ?_, last⟩, laid.of_span ⟨?_, some, Nat.le_refl _⟩⟩
  · show start < e.span.stop
    omega
  · show start ≤ e.span.start
    omega

/-- An operator between two trees. -/
theorem Laid.binary {left : Expr} (first : left.Laid low between) (second : e.Laid between high)
    (op : BinaryOp) : (Expr.binary op left e (left.span.join e.span)).Laid low high := by
  obtain ⟨above, some, last⟩ := first.span_lies
  obtain ⟨above', some', last'⟩ := second.span_lies
  rw [Laid]
  refine ⟨⟨above, ?_, last'⟩, between, first.of_span ⟨Nat.le_refl _, some, last⟩,
    second.of_span ⟨above', some', Nat.le_refl _⟩⟩
  show left.span.start < e.span.stop
  omega

/-- A call, from its name to its closing parenthesis. -/
theorem Laid.call {name : String} {nameSpan closing : Span} {arguments : List Expr}
    (above : low ≤ nameSpan.start) (named : nameSpan.start < nameSpan.stop)
    (laid : InOrder Laid nameSpan.stop closing.stop arguments) (below : closing.stop ≤ high) :
    (Expr.call name nameSpan arguments (nameSpan.join closing)).Laid low high := by
  have after := laid.le laid_placing
  rw [Laid]
  refine ⟨⟨above, ?_, below⟩, ⟨Nat.le_refl _, named, after⟩, laidAll_iff.mpr laid⟩
  show nameSpan.start < closing.stop
  omega

end Expr

/-- Whether a statement lies between two bytes, its name in front of its value. -/
def Statement.Laid (low high : Nat) : Statement → Prop
  | assign _ nameSpan value => ∃ between, nameSpan.Lies low between ∧ value.Laid between high
  | expr value => value.Laid low high

theorem Statement.Laid.value {statement : Statement} {low high : Nat}
    (laid : statement.Laid low high) : statement.value.Laid low high := by
  cases statement with
  | assign name nameSpan value =>
    obtain ⟨between, named, value⟩ := laid
    refine Expr.laid_placing.widen value ?_ (Nat.le_refl _)
    exact Nat.le_trans named.low (Nat.le_trans (Nat.le_of_lt named.nonempty) named.high)
  | expr value => exact laid

theorem Statement.Laid.span_lies {statement : Statement} {low high : Nat}
    (laid : statement.Laid low high) : statement.span.Lies low high := by
  cases statement with
  | assign name nameSpan value =>
    obtain ⟨between, ⟨above, named, before⟩, laid⟩ := laid
    obtain ⟨after, some, below⟩ := laid.span_lies
    refine ⟨above, ?_, below⟩
    show nameSpan.start < value.span.stop
    omega
  | expr value => exact Expr.Laid.span_lies laid

theorem Statement.laid_placing : Placing Statement.Laid where
  le {low high statement} laid := by
    cases statement with
    | assign name nameSpan value =>
      obtain ⟨between, ⟨above, some, below⟩, value⟩ := laid
      have after := Expr.laid_placing.le value
      omega
    | expr value => exact Expr.laid_placing.le laid
  widen {low low' high high' statement} laid lower higher := by
    cases statement with
    | assign name nameSpan value =>
      obtain ⟨between, named, value⟩ := laid
      exact ⟨between, named.widen lower (Nat.le_refl _),
        Expr.laid_placing.widen value (Nat.le_refl _) higher⟩
    | expr value => exact Expr.laid_placing.widen laid lower higher

/-- Whether a tree is a node of one of the statements of a program. -/
def Program.HasNode (program : Program) (node : Expr) : Prop :=
  ∃ statement ∈ program, statement.value.HasNode node

theorem Program.HasNode.part {program : Program} {node part : Expr} (has : program.HasNode node)
    (member : part ∈ node.parts) : program.HasNode part := by
  obtain ⟨statement, listed, above⟩ := has
  exact ⟨statement, listed, .part above member⟩

/-- The nodes of a program lie where its statements do. -/
theorem Program.HasNode.laid {program : Program} {node : Expr} (has : program.HasNode node)
    {low high : Nat} (ordered : InOrder Statement.Laid low high program) : node.Laid low high := by
  obtain ⟨statement, listed, below⟩ := has
  exact (ordered.mem Statement.laid_placing listed).value.node below

/-! ### States of the parser -/

/-- Whether what waits for more lies between two bytes. -/
def Waiting.Laid (low high : Nat) : Waiting → Prop
  | sign _ start => low ≤ start ∧ start ≤ high
  | infixOp _ left => left.Laid low high
  | group => low ≤ high
  | call _ nameSpan arguments => low ≤ nameSpan.start ∧ nameSpan.start < nameSpan.stop ∧
      InOrder Expr.Laid nameSpan.stop high arguments.reverse

theorem Waiting.laid_placing : Placing Waiting.Laid where
  le {low high waiting} laid := by
    cases waiting with
    | sign sign start => exact Nat.le_trans laid.1 laid.2
    | infixOp op left => exact Expr.laid_placing.le laid
    | group => exact laid
    | call name nameSpan arguments =>
      obtain ⟨above, some, ordered⟩ := laid
      have after := ordered.le Expr.laid_placing
      omega
  widen {low low' high high' waiting} laid lower higher := by
    cases waiting with
    | sign sign start => exact ⟨Nat.le_trans lower laid.1, Nat.le_trans laid.2 higher⟩
    | infixOp op left => exact Expr.laid_placing.widen laid lower higher
    | group => exact Nat.le_trans lower (Nat.le_trans laid higher)
    | call name nameSpan arguments =>
      obtain ⟨above, some, ordered⟩ := laid
      exact ⟨Nat.le_trans lower above, some,
        ordered.widen Expr.laid_placing (Nat.le_refl _) higher⟩

/-- A call that waits for arguments takes one more behind those it has. -/
theorem Waiting.Laid.give {name : String} {nameSpan : Span} {arguments : List Expr} {e : Expr}
    {low between high : Nat} (laid : (call name nameSpan arguments).Laid low between)
    (last : e.Laid between high) : (call name nameSpan (e :: arguments)).Laid low high := by
  obtain ⟨above, some, ordered⟩ := laid
  refine ⟨above, some, ?_⟩
  rw [List.reverse_cons, inOrder_concat Expr.laid_placing]
  exact ⟨between, ordered, last⟩

/-- Whether the operand at hand, if there is one, lies between two bytes. -/
def Operand.Laid (low high : Nat) : Operand → Prop
  | due => low ≤ high
  | name _ span => span.Lies low high
  | complete e => e.Laid low high

theorem Operand.laid_of_expr? {operand : Operand} {e : Expr} {low high : Nat}
    (laid : operand.Laid low high) (found : operand.expr? = some e) : e.Laid low high := by
  cases operand with
  | due => cases found
  | name text span =>
    cases found
    rw [Expr.Laid]
    exact laid
  | complete e =>
    cases found
    exact laid

theorem Operand.Laid.widen {operand : Operand} {low high high' : Nat}
    (laid : operand.Laid low high) (higher : high ≤ high') : operand.Laid low high' := by
  cases operand with
  | due => exact Nat.le_trans laid higher
  | name text span => exact Span.Lies.widen laid (Nat.le_refl _) higher
  | complete e => exact Expr.laid_placing.widen laid (Nat.le_refl _) higher

theorem Operand.Laid.le {operand : Operand} {low high : Nat} (laid : operand.Laid low high) :
    low ≤ high := by
  cases operand with
  | due => exact laid
  | name text span =>
    exact Nat.le_trans laid.low (Nat.le_trans (Nat.le_of_lt laid.nonempty) laid.high)
  | complete e => exact Expr.laid_placing.le laid

namespace Parse

/-- Whether the parts of a state lie one after the other: the finished statements up to `ended`, the
name that is assigned to up to `begun`, what waits up to `held`, and the operand up to `stop`. -/
structure Laid (state : Parse) (ended begun held stop : Nat) : Prop where
  finished : InOrder Statement.Laid 0 ended state.finished.reverse
  target : InOrder (fun low high (_, span) => Span.Lies low high span) ended begun
    state.target.toList
  waiting : InOrder Waiting.Laid begun held state.waiting.reverse
  operand : state.operand.Laid held stop

/-- What gives its operand away and what takes one stay in their places. -/
theorem reduce_laid {threshold : Nat} {waiting waiting' : List Waiting} {e e' : Expr}
    {begun held stop : Nat} (reduced : reduce threshold waiting e = (waiting', e'))
    (laid : InOrder Waiting.Laid begun held waiting.reverse) (operand : e.Laid held stop) :
    ∃ held', InOrder Waiting.Laid begun held' waiting'.reverse ∧ e'.Laid held' stop := by
  induction waiting generalizing e held with
  | nil =>
    cases reduced
    exact ⟨held, laid, operand⟩
  | cons wait rest ih =>
    have stays (same : (wait :: rest, e) = (waiting', e')) :
        ∃ held', InOrder Waiting.Laid begun held' waiting'.reverse ∧ e'.Laid held' stop := by
      cases same
      exact ⟨held, laid, operand⟩
    have split := laid
    rw [List.reverse_cons, inOrder_concat Waiting.laid_placing] at split
    obtain ⟨between, others, last⟩ := split
    cases wait with
    | sign sign start =>
      rw [reduce] at reduced
      split at reduced
      · exact ih reduced others (operand.unary last.1 last.2 sign)
      · exact stays reduced
    | infixOp op left =>
      rw [reduce] at reduced
      split at reduced
      · exact ih reduced others (Expr.Laid.binary last operand op)
      · exact stays reduced
    | group => exact stays reduced
    | call name nameSpan arguments => exact stays reduced

section Steps

variable {state after : Parse} {ended begun held stop : Nat}

theorem start_laid : start.Laid 0 0 0 0 :=
  ⟨Nat.le_refl _, Nat.le_refl _, Nat.le_refl _, Nat.le_refl _⟩

theorem Laid.widen {stop' : Nat} (laid : state.Laid ended begun held stop)
    (higher : stop ≤ stop') : state.Laid ended begun held stop' :=
  ⟨laid.finished, laid.target, laid.waiting, laid.operand.widen higher⟩

theorem Laid.le (laid : state.Laid ended begun held stop) : ended ≤ stop := by
  have spans : Placing fun low high (assigned : String × Span) => assigned.2.Lies low high :=
    ⟨fun lies => Nat.le_trans lies.low (Nat.le_trans (Nat.le_of_lt lies.nonempty) lies.high),
      fun lies lower higher => lies.widen lower higher⟩
  exact Nat.le_trans (laid.target.le spans)
    (Nat.le_trans (laid.waiting.le Waiting.laid_placing) laid.operand.le)

/-- The operand at hand, with what it completes, lies behind what still waits. -/
theorem Laid.reduced (laid : state.Laid ended begun held stop) {threshold : Nat} {e whole : Expr}
    {waiting : List Waiting} (operand : state.operand.expr? = some e)
    (reduced : reduce threshold state.waiting e = (waiting, whole)) :
    ∃ held', InOrder Waiting.Laid begun held' waiting.reverse ∧ whole.Laid held' stop :=
  reduce_laid reduced laid.waiting (Operand.laid_of_expr? laid.operand operand)

/-- The statement that ends here lies behind those that are finished. -/
theorem Laid.statement (laid : state.Laid ended begun held stop) {e whole : Expr}
    (operand : state.operand.expr? = some e)
    (reduced : reduce 0 state.waiting e = ([], whole)) :
    InOrder Statement.Laid 0 stop (state.statement whole :: state.finished).reverse := by
  obtain ⟨held', free, value⟩ := laid.reduced operand reduced
  have from_begun : whole.Laid begun stop :=
    Expr.laid_placing.widen value free (Nat.le_refl _)
  rw [List.reverse_cons, inOrder_concat Statement.laid_placing]
  refine ⟨ended, laid.finished, ?_⟩
  have target := laid.target
  unfold Parse.statement
  cases named : state.target with
  | none =>
    rw [named] at target
    exact Expr.laid_placing.widen from_begun target (Nat.le_refl _)
  | some assigned =>
    rw [named] at target
    obtain ⟨between, name, before⟩ := target
    exact ⟨between, name, Expr.laid_placing.widen from_begun before (Nat.le_refl _)⟩

/-- What waits longest ago of some waiting parts lies behind the others. -/
theorem waiting_cons {wait : Waiting} {rest : List Waiting} {low high : Nat} :
    InOrder Waiting.Laid low high (wait :: rest).reverse ↔
      ∃ between, InOrder Waiting.Laid low between rest.reverse ∧ wait.Laid between high := by
  rw [List.reverse_cons]
  exact inOrder_concat Waiting.laid_placing

/-- **Every token that the parser takes keeps the parts of its state in order.** -/
theorem Moves.laid {lexeme : Lexeme} {stop' : Nat} (moves : Moves state lexeme after)
    (laid : state.Laid ended begun held stop) (lies : lexeme.span.Lies stop stop') :
    ∃ ended begun held, after.Laid ended begun held stop' := by
  obtain ⟨above, some, below⟩ := lies
  have finished := laid.finished
  have target := laid.target
  have waiting := laid.waiting
  have operand := laid.operand
  cases moves with
  | @number text due token =>
    rw [due] at operand
    refine ⟨ended, begun, held, finished, target, waiting, ?_⟩
    show Expr.Laid held stop' (.number text lexeme.span)
    rw [Expr.Laid]
    exact ⟨Nat.le_trans operand above, some, below⟩
  | name due token =>
    rw [due] at operand
    exact ⟨ended, begun, held, finished, target, waiting, Nat.le_trans operand above, some, below⟩
  | opening due token =>
    rw [due] at operand
    have group : Waiting.group.Laid held stop' :=
      Nat.le_trans operand (Nat.le_trans above (by omega))
    exact ⟨ended, begun, stop', finished, target, waiting_cons.mpr ⟨held, waiting, group⟩,
      (congrArg (Operand.Laid stop' stop') due).mpr (Nat.le_refl _)⟩
  | sign due token signs =>
    rw [due] at operand
    refine ⟨ended, begun, stop', finished, target, waiting_cons.mpr ⟨held, waiting, ?_, ?_⟩,
      (congrArg (Operand.Laid stop' stop') due).mpr (Nat.le_refl _)⟩
    · exact Nat.le_trans operand above
    · omega
  | @empty callee nameSpan rest due token called =>
    rw [due] at operand
    rw [called] at waiting
    obtain ⟨between, others, name, named, arguments⟩ := waiting_cons.mp waiting
    refine ⟨ended, begun, between, finished, target, others, ?_⟩
    show Expr.Laid between stop' (.call callee _ _ _)
    refine Expr.Laid.call name named ?_ below
    have before : held ≤ stop := operand
    exact Nat.le_trans arguments (by omega)
  | calling named token =>
    rw [named] at operand
    refine ⟨ended, begun, stop', finished, target,
      waiting_cons.mpr ⟨held, waiting, operand.low, operand.nonempty, ?_⟩, Nat.le_refl _⟩
    exact Nat.le_trans operand.high (by omega)
  | becomes named token alone first =>
    rw [named] at operand
    rw [alone] at waiting
    rw [first] at target
    have assigned : Span.Lies ended stop' _ :=
      Span.Lies.widen operand (Nat.le_trans target waiting) (by omega)
    have free : InOrder Waiting.Laid stop' stop' state.waiting.reverse := by
      rw [alone]
      exact Nat.le_refl _
    exact ⟨ended, stop', stop', finished, ⟨stop', assigned, Nat.le_refl _⟩, free, Nat.le_refl _⟩
  | infixOp found token reduced =>
    obtain ⟨held', others, left⟩ := laid.reduced found reduced
    refine ⟨ended, begun, stop', finished, target, waiting_cons.mpr ⟨held', others, ?_⟩,
      Nat.le_refl _⟩
    exact Expr.laid_placing.widen left (Nat.le_refl _) (by omega)
  | group found token reduced =>
    obtain ⟨held', others, inner⟩ := laid.reduced found reduced
    obtain ⟨between, others, group⟩ := waiting_cons.mp others
    exact ⟨ended, begun, between, finished, target, others,
      Expr.laid_placing.widen inner group (by omega)⟩
  | @call e last callee nameSpan given rest found token reduced =>
    obtain ⟨held', others, last⟩ := laid.reduced found reduced
    obtain ⟨between, others, call⟩ := waiting_cons.mp others
    obtain ⟨name, named, arguments⟩ :=
      call.give (Expr.laid_placing.widen last (Nat.le_refl _) (by omega : stop ≤ lexeme.span.stop))
    rw [List.reverse_cons] at arguments
    refine ⟨ended, begun, between, finished, target, others, ?_⟩
    show Expr.Laid between stop' (.call callee _ _ _)
    exact Expr.Laid.call name named arguments below
  | comma found token reduced =>
    obtain ⟨held', others, last⟩ := laid.reduced found reduced
    obtain ⟨between, others, call⟩ := waiting_cons.mp others
    have given := call.give (Expr.laid_placing.widen last (Nat.le_refl _) (by omega : stop ≤ stop'))
    exact ⟨ended, begun, stop', finished, target, waiting_cons.mpr ⟨between, others, given⟩,
      Nat.le_refl _⟩
  | semicolon found token reduced =>
    refine ⟨stop', stop', stop', ?_, Nat.le_refl _, Nat.le_refl _, Nat.le_refl _⟩
    exact (laid.statement found reduced).widen Statement.laid_placing (Nat.le_refl _) (by omega)

end Steps

end Parse

/-! ### Tokens -/

/-- Whether a token lies between two bytes. -/
def Lexeme.Lies (low high : Nat) (lexeme : Lexeme) : Prop := lexeme.span.Lies low high

theorem Lexeme.lies_placing : Placing Lexeme.Lies where
  le lies := Nat.le_trans lies.low (Nat.le_trans (Nat.le_of_lt lies.nonempty) lies.high)
  widen lies lower higher := Span.Lies.widen lies lower higher

/-- **The tokens of a text lie inside of it, one after the other.** -/
theorem lexFrom_inOrder (text : List Char) (skipped offset : Nat) :
    InOrder Lexeme.Lies (offset + Text.byteLength (text.take skipped))
      (offset + Text.byteLength text) (lexFrom skipped offset text) := by
  induction text generalizing skipped offset with
  | nil =>
    rw [List.take_nil, lexFrom]
    exact Nat.le_refl _
  | cons c rest ih =>
    rw [byteLength_cons, ← Nat.add_assoc]
    cases skipped with
    | succ skipped =>
      rw [List.take_succ_cons, byteLength_cons, ← Nat.add_assoc, lexFrom]
      exact ih skipped _
    | zero =>
      have wide : 0 < c.utf8Size := Char.utf8Size_pos c
      by_cases space : isSpace c
      · rw [lexFrom_space space]
        exact (ih 0 _).widen Lexeme.lies_placing (by simp [Text.byteLength]) (Nat.le_refl _)
      · rw [lexFrom_token (Bool.eq_false_iff.mpr space)]
        refine ⟨_, ⟨Nat.le_refl _, ?_, Nat.le_refl _⟩, ih _ _⟩
        show offset < offset + c.utf8Size + _
        omega

theorem lex_inOrder (text : List Char) :
    InOrder Lexeme.Lies 0 (Text.byteLength text) (lex text) := by
  have ordered := lexFrom_inOrder text 0 0
  simp only [List.take_zero, Nat.zero_add] at ordered
  exact ordered

/-! ### Texts -/

namespace Parse

/-- A run over tokens in order keeps the parts of the state in order. -/
theorem foldlM_laid {lexemes : List Lexeme} {state after : Parse} {low high : Nat}
    (ordered : InOrder Lexeme.Lies low high lexemes)
    (walked : lexemes.foldlM step state = .ok after)
    (laid : ∃ ended begun held, state.Laid ended begun held low) :
    ∃ ended begun held, after.Laid ended begun held high := by
  induction lexemes generalizing state low with
  | nil =>
    cases walked
    obtain ⟨ended, begun, held, laid⟩ := laid
    exact ⟨ended, begun, held, laid.widen ordered⟩
  | cons lexeme rest ih =>
    obtain ⟨between, lies, others⟩ := ordered
    obtain ⟨next, stepped, walked⟩ := foldlM_cons_eq_ok.mp walked
    obtain ⟨_, _, _, laid⟩ := laid
    exact ih others walked ((step_eq_ok.mp stepped).laid laid lies)

end Parse

theorem lex_laid {text : List Char} {state : Parse}
    (walked : (lex text).foldlM Parse.step Parse.start = .ok state) :
    ∃ ended begun held, state.Laid ended begun held (Text.byteLength text) :=
  Parse.foldlM_laid (lex_inOrder text) walked ⟨0, 0, 0, Parse.start_laid⟩

/-- **The statements of a text lie inside of it in source order**, and so do the parts of each. -/
theorem parseWithin_laid {limit : Nat} {source : String} {program : Program}
    (parsed : parseWithin limit source = .ok program) :
    InOrder Statement.Laid 0 (Text.byteLength source.toList) program := by
  obtain ⟨-, state, walked, finished⟩ := parseWithin_eq_ok.mp parsed
  obtain ⟨ended, begun, held, laid⟩ := lex_laid walked
  have semicolon : (Lexeme.mk .semicolon ';' ⟨0, 0⟩).token = .semicolon := rfl
  rcases (Parse.finish_eq_ok semicolon).mp finished with ⟨after, stepped, rfl⟩ | ⟨_, _, rfl⟩
  · obtain ⟨e, whole, operand, reduced, rfl⟩ := (Parse.step_semicolon semicolon).mp stepped
    exact laid.statement operand reduced
  · exact laid.finished.widen Statement.laid_placing (Nat.le_refl _) laid.le

/-! ### Refused texts -/

/-- Whether a span, which may be empty, is one of a text of some length. -/
structure Span.Within (length : Nat) (span : Span) : Prop where
  ordered : span.start ≤ span.stop
  bound : span.stop ≤ length

theorem Span.Lies.within {low high : Nat} {span : Span} (lies : span.Lies low high) :
    span.Within high :=
  ⟨Nat.le_of_lt lies.nonempty, lies.high⟩

/-- A text that is nested too deeply is refused at one of its characters. -/
theorem checkNestingFrom_error {limit : Nat} {text : List Char} {depth signs offset : Nat}
    {error : ParseError} (refused : checkNestingFrom limit depth signs offset text = .error error) :
    (∃ level, error.fault = .tooDeep level limit) ∧
      error.span.Within (offset + Text.byteLength text) := by
  induction text generalizing depth signs offset with
  | nil => cases refused
  | cons c rest ih =>
    have wide : 0 < c.utf8Size := Char.utf8Size_pos c
    rw [byteLength_cons, ← Nat.add_assoc]
    have here {level : Nat} (found : Except.error ⟨.tooDeep level limit, offset, offset + 1⟩ =
        (.error error : Except ParseError Unit)) :
        (∃ level, error.fault = .tooDeep level limit) ∧
          error.span.Within (offset + c.utf8Size + Text.byteLength rest) := by
      cases found
      refine ⟨⟨level, rfl⟩, Nat.le_succ offset, ?_⟩
      show offset + 1 ≤ _
      omega
    rw [checkNestingFrom] at refused
    repeat' split at refused
    all_goals first | exact here refused | exact ih refused

namespace Parse

/-- A token is refused at its start, with its first character. -/
theorem afterOperand_error {state : Parse} {lexeme : Lexeme} {e : Expr} {error : ParseError}
    (refused : state.afterOperand e lexeme = .error error) :
    error = ⟨.unexpected (state.expected lexeme.span.start) (some lexeme.first),
      lexeme.span.start, lexeme.span.start⟩ := by
  unfold afterOperand at refused
  repeat' split at refused
  all_goals
    cases refused
  all_goals
    rfl

theorem step_error {state : Parse} {lexeme : Lexeme} {error : ParseError}
    (refused : state.step lexeme = .error error) :
    error = ⟨.unexpected (state.expected lexeme.span.start) (some lexeme.first),
      lexeme.span.start, lexeme.span.start⟩ := by
  unfold step at refused
  repeat' split at refused
  all_goals first | exact afterOperand_error refused | cases refused
  all_goals
    rfl

/-- The end of a text is refused there. -/
theorem finish_error {state : Parse} {length : Nat} {error : ParseError}
    (refused : state.finish length = .error error) :
    error = ⟨.unexpected (state.expected length) none, length, length⟩ := by
  unfold finish at refused
  dsimp only at refused
  repeat' split at refused
  all_goals
    cases refused
  all_goals
    rfl

end Parse

/-- **A text is refused because it is nested too deeply, at a token, or at its end.** The parser takes
the tokens in front. -/
theorem parseWithin_eq_error {limit : Nat} {source : String} {error : ParseError}
    (refused : parseWithin limit source = .error error) :
    ((∃ level, error.fault = .tooDeep level limit) ∧
      error.span.Within (Text.byteLength source.toList)) ∨
    (∃ front lexeme back state, lex source.toList = front ++ lexeme :: back ∧
      front.foldlM Parse.step Parse.start = .ok state ∧
      error = ⟨.unexpected (state.expected lexeme.span.start) (some lexeme.first),
        lexeme.span.start, lexeme.span.start⟩) ∨
    ∃ state, (lex source.toList).foldlM Parse.step Parse.start = .ok state ∧
      error = ⟨.unexpected (state.expected (Text.byteLength source.toList)) none,
        Text.byteLength source.toList, Text.byteLength source.toList⟩ := by
  unfold parseWithin at refused
  rcases bind_eq_error.mp refused with nested | ⟨_, _, refused⟩
  · obtain ⟨deep, within⟩ := checkNestingFrom_error nested
    rw [Nat.zero_add] at within
    exact .inl ⟨deep, within⟩
  rcases bind_eq_error.mp refused with taken | ⟨state, walked, ended⟩
  · obtain ⟨front, lexeme, back, state, lexed, walked, refused⟩ := foldlM_eq_error taken
    exact .inr (.inl ⟨front, lexeme, back, state, lexed, walked, Parse.step_error refused⟩)
  · exact .inr (.inr ⟨state, walked, Parse.finish_error ended⟩)

/-- **What a refused text is refused for stands inside of it**, or at its end. -/
theorem parseWithin_error {limit : Nat} {source : String} {error : ParseError}
    (refused : parseWithin limit source = .error error) :
    error.span.Within (Text.byteLength source.toList) := by
  rcases parseWithin_eq_error refused with
    ⟨-, within⟩ | ⟨front, lexeme, back, state, lexed, -, rfl⟩ | ⟨state, -, rfl⟩
  · exact within
  · have member : lexeme ∈ lex source.toList := by simp [lexed]
    have lies := (lex_inOrder source.toList).mem Lexeme.lies_placing member
    exact ⟨Nat.le_refl _, Nat.le_trans (Nat.le_of_lt lies.nonempty) lies.high⟩
  · exact ⟨Nat.le_refl _, Nat.le_refl _⟩

end Reckoner
