/-
How deeply the parser descends, and how deeply trees nest to the right.

The limit on nesting is one on open parentheses and on signs in a row. Between two of these there are
at most a sum and a product that wait, since an operator that groups to the left waits for looser ones
only. Powers group to the right: each waits for the next one, and none of them is counted.

* `Shallow`, `shallow_tokens` — tokens that keep to the limit.
* `Expr.rightDepth`, `Expr.powerDepth` — how deeply a tree nests to the right, and how many of these
  steps are powers.
* `Derives.rightDepth_le` — the depth of a tree, by induction on its derivation.
* `Pending.length_le` — the length of what waits, by induction on its tokens.
* `parseWithin_descends` — **what waits and what nests is bounded by the limit and by the number of
  powers.**
* `parseWithin_unbounded` — the limit alone is no bound.
-/

import Mathlib.Data.List.TakeWhile
import Reckoner.Proofs.Expression.Cuts
import Reckoner.Proofs.Expression.Printing

namespace Reckoner

open Parse

/-! ### Tokens that keep to the limit -/

/-- Whether a token may be a sign. -/
def Token.isSign : Token → Bool
  | op .add => true
  | op .sub => true
  | _ => false

theorem Sign.isSign_op (sign : Sign) : (Token.op sign.op).isSign := by
  cases sign <;> rfl

/-- Whether no more signs than the limit allows are in a row. -/
def FewSigns (limit : Nat) (found : List Token) : Prop :=
  ∀ row, row <:+: found → (∀ token ∈ row, token.isSign) → row.length ≤ limit

theorem FewSigns.part {limit : Nat} {part found : List Token} (few : FewSigns limit found)
    (inside : part <:+: found) : FewSigns limit part :=
  fun row within => few row (within.trans inside)

/-- Whether tokens keep to the limit on open parentheses, where some are open in front of them, and on
signs in a row. -/
structure Shallow (limit depth : Nat) (found : List Token) : Prop where
  opens {front : List Token} : front <+: found → front.foldl Token.depthStep depth ≤ limit
  signs : FewSigns limit found

namespace Shallow

variable {limit depth : Nat} {first second : List Token}

theorem depth_le (shallow : Shallow limit depth first) : depth ≤ limit :=
  shallow.opens List.nil_prefix

theorem left (shallow : Shallow limit depth (first ++ second)) : Shallow limit depth first where
  opens front := shallow.opens (front.trans (List.prefix_append first second))
  signs := shallow.signs.part (List.prefix_append first second).isInfix

theorem right (shallow : Shallow limit depth (first ++ second)) :
    Shallow limit (first.foldl Token.depthStep depth) second where
  opens {front} before := by
    rw [← List.foldl_append]
    exact shallow.opens ((List.prefix_append_right_inj first).mpr before)
  signs := shallow.signs.part (List.suffix_append first second).isInfix

end Shallow

/-- Tokens that are signs spell a text with at least as many signs in a row. -/
theorem le_foldl_signStep {text : List Char} {row : List Token} (spelled : Spelled text row)
    (signs : ∀ token ∈ row, token.isSign) (before : Nat) :
    before + row.length ≤ text.foldl signStep before := by
  induction spelled generalizing before with
  | nil => exact Nat.le_refl _
  | @space c rest tokens space _ ih =>
    have blank : signStep before c = before := by
      rcases isSpace_iff.mp space with rfl | rfl | rfl | rfl <;> rfl
    rw [List.foldl_cons, blank]
    exact ih signs before
  | number | name => exact absurd (signs _ List.mem_cons_self) Bool.false_ne_true
  | @symbol word rest token tokens symbol _ ih =>
    obtain ⟨sign, later⟩ := List.forall_mem_cons.mp signs
    have next := ih later (before + 1)
    have step : word.foldl signStep before = before + 1 := by
      cases symbol with
      | op op =>
        cases op with
        | add | sub => rfl
        | mul | div | rem | pow => cases sign
      | opening | closing | comma | semicolon | becomes => cases sign
    rw [List.length_cons, List.foldl_append, step]
    omega

/-- A text whose tokens are cut in two is cut in two with them. -/
theorem exists_of_tokens_eq_append {text : List Char} {front back : List Token}
    (split : tokens text = front ++ back) :
    ∃ before after, text = before ++ after ∧ tokens before = front ∧ tokens after = back := by
  cases back with
  | nil => exact ⟨text, [], (List.append_nil text).symm, by rw [split, List.append_nil], rfl⟩
  | cons token back =>
    obtain ⟨first, second, lexed, rfl, behind⟩ := List.map_eq_append_iff.mp split
    obtain ⟨lexeme, rest, rfl, rfl, rfl⟩ := List.map_eq_cons_iff.mp behind
    obtain ⟨before, c, after, rfl, -, -, inFront, later⟩ := exists_of_lexFrom_eq_append lexed
    refine ⟨before, c :: after, rfl, congrArg (List.map Lexeme.token) inFront, ?_⟩
    rw [← List.map_cons, ← later, map_token_lexFrom, List.drop_zero]

/-- **The tokens of a text keep to the limit that the text keeps to.** -/
theorem shallow_tokens {limit : Nat} {text : List Char} (shallow : checkNesting limit text = .ok ()) :
    Shallow limit 0 (tokens text) := by
  have walk {part : List Char} (shallow : checkNesting limit part = .ok ()) :=
    (isSome_foldlM_nestingStep part (Nat.zero_le limit) (Nat.zero_le limit)).mp
      (checkNesting_eq_ok.mp shallow)
  constructor
  · rintro front ⟨back, split⟩
    obtain ⟨before, after, rfl, rfl, -⟩ := exists_of_tokens_eq_append split.symm
    have part : checkNesting limit ([] ++ before ++ after) = .ok () := shallow
    have depth := depthAfter_lexFrom before 0 0 0
    rw [← List.foldl_map, List.drop_zero] at depth
    calc (tokens before).foldl Token.depthStep 0 = before.foldl depthStep 0 := depth
      _ ≤ highest depthStep 0 before := foldl_le_highest _ _ _
      _ ≤ limit := (walk (checkNesting_part part)).1
  · rintro row ⟨front, back, split⟩ signs
    rw [List.append_assoc] at split
    obtain ⟨before, rest, rfl, -, later⟩ := exists_of_tokens_eq_append split.symm
    obtain ⟨middle, after, rfl, rfl, -⟩ := exists_of_tokens_eq_append later
    rw [← List.append_assoc] at shallow
    have spelled : Spelled middle (tokens middle) := spelled_tokens fun token member => by
      have sign := signs token member
      cases token <;> first | rfl | cases sign
    calc (tokens middle).length = 0 + (tokens middle).length := (Nat.zero_add _).symm
      _ ≤ middle.foldl signStep 0 := le_foldl_signStep spelled signs 0
      _ ≤ highest signStep 0 middle := foldl_le_highest _ _ _
      _ ≤ limit := (walk (checkNesting_part shallow)).2

/-! ### Trees -/

/-- A step down into a tree. -/
inductive Descent where
  | sign
  | right (op : BinaryOp)
  | argument

/-- Whether a step is the right operand of a power. -/
def Descent.isPower : Descent → Bool
  | right .pow => true
  | _ => false

namespace Expr

mutual

/-- The greatest weight of the steps down to a leaf of a tree. A left operand is no step. -/
def descent (weight : Descent → Nat) : Expr → Nat
  | number .. => 0
  | ident .. => 0
  | unary _ operand _ => weight .sign + operand.descent weight
  | binary op left right _ =>
    max (left.descent weight) (weight (.right op) + right.descent weight)
  | call _ _ arguments _ => descentAll weight arguments

/-- The greatest weight of the steps down to a leaf of an argument. -/
def descentAll (weight : Descent → Nat) : List Expr → Nat
  | [] => 0
  | e :: rest => max (weight .argument + e.descent weight) (descentAll weight rest)

end

/-- How deeply a tree nests to the right. -/
def rightDepth (e : Expr) : Nat := e.descent fun _ => 1

/-- How many right operands of powers are nested in a tree. -/
def powerDepth (e : Expr) : Nat := e.descent fun step => if step.isPower then 1 else 0

theorem descentAll_le_iff {weight : Descent → Nat} {arguments : List Expr} {bound : Nat} :
    descentAll weight arguments ≤ bound ↔
      ∀ e ∈ arguments, weight .argument + e.descent weight ≤ bound := by
  induction arguments with
  | nil => simp [descentAll]
  | cons e rest ih => rw [descentAll, Nat.max_le, ih, List.forall_mem_cons]

mutual

/-- Places make no difference. -/
theorem descent_mapPlaces (weight : Descent → Nat) (place : Nat → Nat) (e : Expr) :
    (e.mapPlaces place).descent weight = e.descent weight := by
  cases e with
  | number text span => rw [mapPlaces, descent, descent]
  | ident name span => rw [mapPlaces, descent, descent]
  | unary sign operand span =>
    rw [mapPlaces, descent, descent, descent_mapPlaces weight place operand]
  | binary op left right span =>
    rw [mapPlaces, descent, descent, descent_mapPlaces weight place left,
      descent_mapPlaces weight place right]
  | call name nameSpan arguments span =>
    rw [mapPlaces, descent, descent, descentAll_mapPlacesAll weight place arguments]

theorem descentAll_mapPlacesAll (weight : Descent → Nat) (place : Nat → Nat) (list : List Expr) :
    descentAll weight (mapPlacesAll place list) = descentAll weight list := by
  cases list with
  | nil => rw [mapPlacesAll]
  | cons e rest =>
    rw [mapPlacesAll, descentAll, descentAll, descent_mapPlaces weight place e,
      descentAll_mapPlacesAll weight place rest]

end

end Expr

/-! ### Derivations -/

/-- Whether tokens close the parentheses that they open. -/
def Closed (found : List Token) : Prop :=
  ∀ depth, found.foldl Token.depthStep depth = depth

section Separated

variable {separator : Token} {parts : List (List Token)}

/-- Closed parts are closed with a separator between them. -/
theorem closed_intercalate (plain : Closed [separator]) (each : ∀ part ∈ parts, Closed part) :
    Closed (List.intercalate [separator] parts) := by
  intro depth
  induction parts with
  | nil => rfl
  | cons part others ih =>
    obtain ⟨first, later⟩ := List.forall_mem_cons.mp each
    cases others with
    | nil => simpa using first depth
    | cons next others =>
      rw [List.intercalate_cons_cons, List.append_assoc, List.foldl_append, first, List.foldl_append,
        plain]
      exact ih later

/-- Each of some closed parts keeps to the limit that all of them keep to. -/
theorem Shallow.of_mem {limit depth : Nat} (plain : Closed [separator])
    (each : ∀ part ∈ parts, Closed part)
    (shallow : Shallow limit depth (List.intercalate [separator] parts)) :
    ∀ part ∈ parts, Shallow limit depth part := by
  induction parts with
  | nil => nofun
  | cons part others ih =>
    obtain ⟨first, later⟩ := List.forall_mem_cons.mp each
    cases others with
    | nil => simpa using shallow
    | cons next others =>
      rw [List.intercalate_cons_cons, List.append_assoc] at shallow
      have behind := shallow.right.right
      rw [first, plain] at behind
      exact List.forall_mem_cons.mpr ⟨shallow.left, ih later behind⟩

end Separated

/-- An expression is closed. -/
theorem Derives.closed {level : Level} {found : List Token} {e : Expr}
    (derives : Derives level found e) : Closed found := by
  intro depth
  induction derives generalizing depth with
  | sum _ _ _ ih ih' | term _ _ _ ih ih' | power _ _ ih ih' =>
    rw [List.foldl_append, ih, List.foldl_cons]
    exact ih' depth
  | ofTerm _ ih | ofSigned _ ih | ofPower _ ih | ofAtom _ ih => exact ih depth
  | signed sign _ ih => exact ih depth
  | number | ident => rfl
  | @call name arguments _ ih =>
    have inside : Closed (List.intercalate [.comma] (arguments.map Prod.fst)) :=
      closed_intercalate (fun _ => rfl) fun part member => by
        obtain ⟨argument, listed, rfl⟩ := List.mem_map.mp member
        exact fun depth => ih argument listed depth
    rw [List.foldl_cons, List.foldl_cons, List.foldl_append, inside]
    rfl
  | group _ ih =>
    rw [List.foldl_cons, List.foldl_append, ih]
    rfl

/-- A statement is closed. -/
theorem Statement.Derives.closed {found : List Token} {statement : Statement}
    (derives : Statement.Derives found statement) : Closed found := by
  cases derives with
  | assign name sum => exact sum.closed
  | expr sum => exact sum.closed

/-- Each argument of a call keeps to the limit. -/
theorem Shallow.argument {limit depth : Nat} {arguments : List (List Token × Expr)}
    (each : ∀ argument ∈ arguments, Derives .sum argument.1 argument.2)
    (shallow : Shallow limit depth (List.intercalate [.comma] (arguments.map Prod.fst))) :
    ∀ argument ∈ arguments, Shallow limit depth argument.1 := fun argument listed =>
  shallow.of_mem (fun _ => rfl) (fun part member => by
    obtain ⟨other, among, rfl⟩ := List.mem_map.mp member
    exact (each other among).closed) _ (List.mem_map_of_mem listed)

/-- The signs in front of an expression are few. -/
theorem Shallow.takeWhile_le {limit depth : Nat} {found : List Token}
    (shallow : Shallow limit depth found) : (found.takeWhile Token.isSign).length ≤ limit :=
  shallow.signs _ (List.takeWhile_prefix _).isInfix fun _ member => List.mem_takeWhile_imp member

/-- What follows an operator keeps to the limit. -/
theorem Shallow.operand {level : Level} {limit depth : Nat} {before after : List Token} {op : BinaryOp}
    {left : Expr} (shallow : Shallow limit depth (before ++ .op op :: after))
    (first : Derives level before left) : Shallow limit depth after := by
  have behind := shallow.right
  rw [first.closed, ← List.singleton_append] at behind
  exact behind.right

/-- What stands between two parentheses keeps to the limit, with one more of them open. -/
theorem Shallow.inside {limit depth : Nat} {tokens : List Token}
    (shallow : Shallow limit depth (.opening :: (tokens ++ [.closing]))) :
    Shallow limit (depth + 1) tokens := by
  rw [← List.singleton_append] at shallow
  exact shallow.right.left

/-! ### The depth of trees -/

/-- The room that open parentheses and powers make: a sum, a product, a row of signs and one more step
for each of the parentheses that may still be opened, and for each of the powers. -/
def room (limit depth powers : Nat) : Nat := (limit - depth + powers) * (limit + 3)

section Room

variable {limit depth powers : Nat}

theorem room_mono {more : Nat} (le : powers ≤ more) :
    room limit depth powers ≤ room limit depth more :=
  Nat.mul_le_mul_right _ (Nat.add_le_add_left le _)

theorem room_power : room limit depth (1 + powers) = room limit depth powers + (limit + 3) := by
  rw [room, room, Nat.add_left_comm, Nat.add_comm 1, Nat.succ_mul]

theorem room_inside (le : depth + 1 ≤ limit) :
    room limit depth powers = room limit (depth + 1) powers + (limit + 3) := by
  rw [room, room, ← Nat.succ_mul]
  congr 1
  omega

end Room

/-- How much deeper than that an expression of some level may be. -/
def Level.slack (limit : Nat) (found : List Token) : Level → Nat
  | sum => limit + 2
  | term => limit + 1
  | signed => (found.takeWhile Token.isSign).length
  | power => 0
  | atom => 0

namespace Expr

section Bounds

variable {limit depth slack : Nat}

theorem rightDepth_unary_le (sign : Sign) {operand : Expr} (span : Span)
    (deep : operand.rightDepth ≤ room limit depth operand.powerDepth + slack) :
    (unary sign operand span).rightDepth ≤
      room limit depth (unary sign operand span).powerDepth + (slack + 1) := by
  have same : (unary sign operand span).powerDepth = operand.powerDepth := by
    rw [powerDepth, descent]
    exact Nat.zero_add _
  rw [same, rightDepth, descent]
  unfold rightDepth at deep
  omega

theorem rightDepth_binary_le {op : BinaryOp} {left right : Expr} {span : Span}
    (first : left.rightDepth ≤ room limit depth left.powerDepth + slack)
    (second : 1 + right.rightDepth ≤
      room limit depth ((if op = .pow then 1 else 0) + right.powerDepth) + slack) :
    (binary op left right span).rightDepth ≤
      room limit depth (binary op left right span).powerDepth + slack := by
  have powers : (binary op left right span).powerDepth =
      max left.powerDepth ((if op = .pow then 1 else 0) + right.powerDepth) := by
    rw [powerDepth, descent]
    cases op <;> rfl
  rw [powers, rightDepth, descent]
  exact Nat.max_le.mpr
    ⟨Nat.le_trans first (Nat.add_le_add_right (room_mono (Nat.le_max_left _ _)) _),
      Nat.le_trans second (Nat.add_le_add_right (room_mono (Nat.le_max_right _ _)) _)⟩

theorem rightDepth_call_le {name : String} {nameSpan span : Span} {arguments : List Expr}
    (each : ∀ argument ∈ arguments,
      1 + argument.rightDepth ≤ room limit depth argument.powerDepth + slack) :
    (call name nameSpan arguments span).rightDepth ≤
      room limit depth (call name nameSpan arguments span).powerDepth + slack := by
  rw [rightDepth, descent]
  refine descentAll_le_iff.mpr fun argument member => ?_
  have powers : argument.powerDepth ≤ (call name nameSpan arguments span).powerDepth := by
    rw [powerDepth, powerDepth, descent]
    exact Nat.le_trans (Nat.le_add_left _ _) (descentAll_le_iff.mp (Nat.le_refl _) argument member)
  exact Nat.le_trans (each argument member) (Nat.add_le_add_right (room_mono powers) _)

end Bounds

end Expr

/-- **The depth of a tree.** Each parenthesis that is opened and each power on the way down makes room
for a sum, a product and a row of signs. -/
theorem Derives.rightDepth_le {level : Level} {found : List Token} {e : Expr}
    (derives : Derives level found e) {limit depth : Nat} (shallow : Shallow limit depth found) :
    e.rightDepth ≤ room limit depth e.powerDepth + level.slack limit found := by
  induction derives generalizing depth with
  | @sum before after left right op additive first second ih ih' =>
    have deep := ih' (shallow.operand first)
    have plain : op ≠ .pow := by rcases additive with rfl | rfl <;> nofun
    refine Expr.rightDepth_binary_le (ih shallow.left) ?_
    rw [if_neg plain, Nat.zero_add]
    simp only [Level.slack] at deep ⊢
    omega
  | ofTerm _ ih => exact Nat.le_trans (ih shallow) (by simp [Level.slack])
  | @term before after left right op multiplicative first second ih ih' =>
    have deep := ih' (shallow.operand first)
    have signs := (shallow.operand first).takeWhile_le
    have plain : op ≠ .pow := by rcases multiplicative with rfl | rfl | rfl <;> nofun
    refine Expr.rightDepth_binary_le (ih shallow.left) ?_
    rw [if_neg plain, Nat.zero_add]
    simp only [Level.slack] at deep ⊢
    omega
  | ofSigned _ ih =>
    have deep := ih shallow
    have signs := shallow.takeWhile_le
    simp only [Level.slack] at deep ⊢
    omega
  | @signed tokens e sign operand ih =>
    rw [← List.singleton_append] at shallow
    have deep := Expr.rightDepth_unary_le sign .nowhere (ih shallow.right)
    rwa [Level.slack, ← List.length_cons, ← List.takeWhile_cons_of_pos sign.isSign_op] at deep
  | ofPower _ ih => exact Nat.le_trans (ih shallow) (by simp [Level.slack])
  | @power before after left right first second ih ih' =>
    have deep := ih' (shallow.operand first)
    have signs := (shallow.operand first).takeWhile_le
    refine Expr.rightDepth_binary_le (ih shallow.left) ?_
    rw [if_pos rfl, room_power]
    simp only [Level.slack] at deep ⊢
    omega
  | ofAtom _ ih => exact ih shallow
  | number | ident => exact Nat.zero_le _
  | @call name arguments each ih =>
    rw [← List.singleton_append] at shallow
    have inside : Shallow limit (depth + 1)
        (List.intercalate [.comma] (arguments.map Prod.fst)) := shallow.right.inside
    refine Expr.rightDepth_call_le fun e member => ?_
    obtain ⟨argument, listed, rfl⟩ := List.mem_map.mp member
    have deep := ih argument listed (Shallow.argument each inside argument listed)
    rw [room_inside inside.depth_le]
    simp only [Level.slack] at deep ⊢
    omega
  | @group tokens e inner ih =>
    have deep := ih shallow.inside
    rw [room_inside shallow.inside.depth_le]
    simp only [Level.slack] at deep ⊢
    omega

/-! ### What waits -/

/-- Whether what waits is a power with its left operand. -/
def Waiting.isPower : Waiting → Bool
  | infixOp .pow _ => true
  | _ => false

/-- Whether what waits makes room for looser operators behind it. -/
def Waiting.makesRoom (wait : Waiting) : Bool := wait.isOpen || wait.isPower

/-- How many sums, products and signs wait behind the last parenthesis or power. -/
def looseCount : List Waiting → Nat
  | .sign .. :: rest => looseCount rest + 1
  | .infixOp op _ :: _ => if op = .pow then 0 else op.strength
  | _ => 0

/-- Behind a sum and a product there are signs only, which are the last tokens. -/
theorem Pending.exists_row {waiting : List Waiting} {before : List Token}
    (pending : Pending waiting before) :
    ∃ row, row <:+ before ∧ (∀ token ∈ row, token.isSign) ∧
      looseCount waiting ≤ row.length + 2 := by
  induction pending with
  | nil | group | call => exact ⟨[], List.nil_suffix, nofun, Nat.zero_le _⟩
  | infixOp =>
    rename_i op _ _ _ _ _
    refine ⟨[], List.nil_suffix, nofun, ?_⟩
    cases op <;> simp [looseCount, BinaryOp.strength]
  | @sign waiting before sign pending ih =>
    obtain ⟨row, last, signs, few⟩ := ih
    refine ⟨row ++ [.op sign.op], ?_, ?_, ?_⟩
    · obtain ⟨front, rfl⟩ := last
      exact ⟨front, by rw [List.append_assoc]⟩
    · exact List.forall_mem_append.mpr ⟨signs, List.forall_mem_singleton.mpr sign.isSign_op⟩
    · rw [looseCount, List.length_append]
      exact Nat.succ_le_succ few

theorem Pending.looseCount_le {limit : Nat} {waiting : List Waiting} {before : List Token}
    (pending : Pending waiting before) (few : FewSigns limit before) :
    looseCount waiting ≤ limit + 2 := by
  obtain ⟨row, last, signs, bound⟩ := pending.exists_row
  exact Nat.le_trans bound (Nat.add_le_add_right (few row last.isInfix signs) 2)

/-- What waits in front of an operator that groups to the left is looser than it. -/
theorem looseCount_lt {op : BinaryOp} {waiting : List Waiting} (blocks : Blocks op.threshold waiting)
    (plain : op ≠ .pow) : looseCount waiting < op.strength := by
  have positive : 0 < op.strength := by cases op <;> decide
  match waiting, blocks with
  | [], _ | .group :: _, _ | .call .. :: _, _ => exact positive
  | .sign .. :: _, blocks =>
    have weak : Sign.strength < op.threshold := blocks
    refine absurd weak ?_
    revert plain
    cases op <;> decide
  | .infixOp other _ :: _, blocks =>
    have weak : other.strength < op.threshold := blocks
    show (if other = .pow then 0 else other.strength) < op.strength
    revert weak plain
    cases op <;> cases other <;> decide

section Length

variable {limit : Nat} {waiting : List Waiting}

/-- One more thing that waits makes room for what comes behind it, or is tighter than what was there. -/
theorem length_cons_le {wait : Waiting}
    (inner : waiting.length ≤ waiting.countP Waiting.makesRoom * (limit + 3) + looseCount waiting)
    (few : looseCount waiting ≤ limit + 2)
    (tighter : wait.makesRoom = false → looseCount waiting < looseCount (wait :: waiting)) :
    (wait :: waiting).length ≤
      (wait :: waiting).countP Waiting.makesRoom * (limit + 3) + looseCount (wait :: waiting) := by
  rw [List.length_cons]
  cases makes : wait.makesRoom with
  | true =>
    rw [List.countP_cons_of_pos makes, Nat.succ_mul]
    omega
  | false =>
    have less := tighter makes
    rw [List.countP_cons_of_neg (by rw [makes]; exact Bool.false_ne_true)]
    omega

/-- **The length of what waits.** Each open parenthesis and each power makes room for a sum, a product
and a row of signs behind it. -/
theorem Pending.length_le {before : List Token} (pending : Pending waiting before)
    (few : FewSigns limit before) :
    waiting.length ≤ waiting.countP Waiting.makesRoom * (limit + 3) + looseCount waiting := by
  have loose {waiting : List Waiting} {inner outer : List Token} (pending : Pending waiting inner)
      (few : FewSigns limit (inner ++ outer)) : looseCount waiting ≤ limit + 2 :=
    pending.looseCount_le (few.part (List.prefix_append inner outer).isInfix)
  induction pending with
  | nil => exact Nat.zero_le _
  | sign sign pending ih =>
    exact length_cons_le (ih (few.part (List.prefix_append _ _).isInfix)) (loose pending few)
      fun _ => Nat.lt_succ_self _
  | @infixOp waiting before found op left pending blocks derives ih =>
    refine length_cons_le (ih (few.part (List.prefix_append _ _).isInfix)) (loose pending few)
      fun makes => ?_
    have plain : op ≠ .pow := by
      rintro rfl
      cases makes
    rw [looseCount, if_neg plain]
    exact looseCount_lt blocks plain
  | group pending ih | call pending each ih =>
    exact length_cons_le (ih (few.part (List.prefix_append _ _).isInfix)) (loose pending few) nofun

end Length

/-! ### Texts -/

/-- What waits makes room by a parenthesis or by a power. -/
theorem countP_makesRoom (waiting : List Waiting) :
    waiting.countP Waiting.makesRoom =
      waiting.countP Waiting.isOpen + waiting.countP Waiting.isPower := by
  induction waiting with
  | nil => rfl
  | cons wait rest ih =>
    have disjoint : (if wait.makesRoom then 1 else 0) =
        (if wait.isOpen then 1 else 0) + if wait.isPower then 1 else 0 := by
      cases wait with
      | infixOp op left => cases op <;> rfl
      | sign | group | call => rfl
    rw [List.countP_cons, List.countP_cons, List.countP_cons, ih, disjoint]
    omega

theorem Waiting.makesRoom_mapPlaces (place : Nat → Nat) (wait : Waiting) :
    (wait.mapPlaces place).makesRoom = wait.makesRoom := by
  cases wait with
  | infixOp op left => cases op <;> rfl
  | sign | group | call => rfl

/-- What waits in a state has some of the tokens that were taken. -/
theorem Taken.pending {found : List Token} {state : Parse} (taken : Taken found state) :
    ∃ before, Pending state.waiting before ∧ before <:+: found := by
  obtain @⟨parts, target, waiting, operand, aimed, before, current, -, -, pending, -⟩ := taken
  refine ⟨before, pending, (parts.flatMap fun part => part.1 ++ [.semicolon]) ++ aimed, current, ?_⟩
  simp

theorem Statement.value_unplaced (statement : Statement) :
    statement.unplaced.value = statement.value.unplaced := by
  cases statement <;> rfl

/-- The tokens of a statement keep to the limit that those of its program keep to. -/
theorem Program.Derives.exists_shallow {limit : Nat} {found : List Token} {program : Program}
    (derives : Program.Derives found program) (shallow : Shallow limit 0 found)
    {statement : Statement} (member : statement ∈ program) :
    ∃ part, Statement.Derives part statement ∧ Shallow limit 0 part := by
  obtain ⟨parts, -, each, rfl, ends⟩ := derives
  obtain ⟨part, among, rfl⟩ := List.mem_map.mp member
  have inside : Shallow limit 0 (List.intercalate [.semicolon] (parts.map Prod.fst)) := by
    rcases ends with rfl | rfl
    · exact shallow
    · exact shallow.left
  refine ⟨part.1, each part among, inside.of_mem (fun _ => rfl) (fun other listed => ?_) _
    (List.mem_map_of_mem among)⟩
  obtain ⟨source, among, rfl⟩ := List.mem_map.mp listed
  exact (each source among).closed

section Texts

variable {limit : Nat} {source : String} (shallow : checkNesting limit source.toList = .ok ())

include shallow

/-- Between two tokens of a text there waits no more than the limit and the powers make room for. -/
theorem length_waiting_lt {front back : List Lexeme} (split : lex source.toList = front ++ back)
    {state : Parse} (walked : front.foldlM step start = .ok state) :
    state.waiting.length < (limit + 1 + state.waiting.countP Waiting.isPower) * (limit + 3) := by
  have inFront : front.map Lexeme.token <+: tokens source.toList :=
    ⟨back.map Lexeme.token, by rw [← List.map_append, ← split]; rfl⟩
  have takes : start.Takes (front.map Lexeme.token) (state.moved (fun _ => 0) []) := by
    rw [Takes, foldlM_unplaced, walked]
    rfl
  obtain ⟨before, pending, inside⟩ := (taken_start.run takes).pending
  have few : FewSigns limit before :=
    (shallow_tokens shallow).signs.part (inside.trans inFront.isInfix)
  have bound := pending.length_le few
  have loose := pending.looseCount_le few
  have same : Waiting.makesRoom ∘ Waiting.mapPlaces (fun _ => 0) = Waiting.makesRoom :=
    funext (Waiting.makesRoom_mapPlaces _)
  rw [moved, List.length_map, List.countP_map, same] at bound
  have opens : state.waiting.countP Waiting.isOpen ≤ limit := by
    have count := foldlM_openCount walked
    have depth := (shallow_tokens shallow).opens inFront
    rw [List.foldl_map] at depth
    exact Nat.le_trans (Nat.le_of_eq count) depth
  calc state.waiting.length ≤ state.waiting.countP Waiting.makesRoom * (limit + 3) + (limit + 2) :=
        Nat.le_trans bound (Nat.add_le_add_left loose _)
    _ < (state.waiting.countP Waiting.makesRoom + 1) * (limit + 3) := by
        rw [Nat.succ_mul]
        omega
    _ ≤ (limit + 1 + state.waiting.countP Waiting.isPower) * (limit + 3) := by
        refine Nat.mul_le_mul_right _ ?_
        rw [countP_makesRoom]
        omega

/-- A tree of a text nests no deeper to the right than the limit and its powers make room for. -/
theorem rightDepth_lt {program : Program} (parsed : parseWithin limit source = .ok program)
    {statement : Statement} (member : statement ∈ program) :
    statement.value.rightDepth < (limit + 1 + statement.value.powerDepth) * (limit + 3) := by
  have plain {e : Expr} {found : List Token} (derives : Derives .sum found e)
      (shallow : Shallow limit 0 found) :
      e.rightDepth < (limit + 1 + e.powerDepth) * (limit + 3) := by
    have deep := derives.rightDepth_le shallow
    rw [room, Level.slack] at deep
    calc e.rightDepth ≤ (limit + e.powerDepth) * (limit + 3) + (limit + 2) := deep
      _ < (limit + e.powerDepth + 1) * (limit + 3) := by
          rw [Nat.succ_mul]
          omega
      _ = (limit + 1 + e.powerDepth) * (limit + 3) := by rw [Nat.add_right_comm]
  obtain ⟨found, spelled, derives⟩ := generates_of_parseWithin shallow parsed
  have tokensShallow := shallow_tokens shallow
  rw [tokens_of_spelled spelled] at tokensShallow
  obtain ⟨part, ofStatement, short⟩ :=
    derives.exists_shallow tokensShallow (List.mem_map_of_mem member)
  have bound : statement.unplaced.value.rightDepth <
      (limit + 1 + statement.unplaced.value.powerDepth) * (limit + 3) := by
    generalize statement.unplaced = bare at ofStatement
    cases ofStatement with
    | @assign tokens value name sum =>
      have value : Shallow limit 0 ([.name name, .becomes] ++ tokens) := short
      exact plain sum value.right
    | expr sum => exact plain sum short
  rw [Statement.value_unplaced, Expr.rightDepth, Expr.powerDepth, Expr.unplaced,
    Expr.descent_mapPlaces, Expr.descent_mapPlaces] at bound
  exact bound

end Texts

/-- **What the parser descends through is bounded by the limit and by the number of powers**: between
any two tokens of a text that is accepted, the operators with their left operands, signs, parentheses
and calls that wait, and in the end the depth to which a tree nests to the right. -/
theorem parseWithin_descends {limit : Nat} {source : String} {program : Program}
    (parsed : parseWithin limit source = .ok program) :
    (∀ front back, lex source.toList = front ++ back →
      ∃ state, front.foldlM step start = .ok state ∧
        state.waiting.length < (limit + 1 + state.waiting.countP Waiting.isPower) * (limit + 3)) ∧
    ∀ statement ∈ program,
      statement.value.rightDepth < (limit + 1 + statement.value.powerDepth) * (limit + 3) := by
  obtain ⟨shallow, final, walked, -⟩ := parseWithin_eq_ok.mp parsed
  refine ⟨fun front back split => ?_, fun statement member => rightDepth_lt shallow parsed member⟩
  rw [split] at walked
  obtain ⟨state, taken, -⟩ := foldlM_append_eq_ok.mp walked
  exact ⟨state, taken, length_waiting_lt shallow split taken⟩

/-- A sum, a product and a sign wait on both sides of a parenthesis, which is as much as may wait
without a power. -/
theorem parseWithin_descends_full : ∃ program front back state,
    parseWithin 1 "1 + 2 * -(3 + 4 * -x)" = .ok program ∧
      lex "1 + 2 * -(3 + 4 * -x)".toList = front ++ back ∧
      front.foldlM step start = .ok state ∧ state.waiting.length = 7 ∧
      state.waiting.length < (1 + 1 + state.waiting.countP Waiting.isPower) * (1 + 3) ∧
      ∀ statement ∈ program,
        statement.value.rightDepth < (1 + 1 + statement.value.powerDepth) * (1 + 3) := by
  have accepted : (parseWithin 1 "1 + 2 * -(3 + 4 * -x)").toOption.isSome := by decide +kernel
  obtain ⟨program, found⟩ := Option.isSome_iff_exists.mp accepted
  have parsed := toOption_eq_some.mp found
  obtain ⟨chains, trees⟩ := parseWithin_descends parsed
  obtain ⟨state, walked, bound⟩ := chains _ _
    (List.take_append_drop 11 (lex "1 + 2 * -(3 + 4 * -x)".toList)).symm
  have length : (((lex "1 + 2 * -(3 + 4 * -x)".toList).take 11).foldlM step start).toOption.map
      (·.waiting.length) = some 7 := by decide +kernel
  rw [walked] at length
  exact ⟨program, _, _, state, parsed, (List.take_append_drop 11 _).symm, walked,
    Option.some.inj length, bound, trees⟩

/-! ### Towers of powers -/

/-- A tower of some powers of a name. -/
def towerText : Nat → List Char
  | 0 => ['x']
  | n + 1 => 'x' :: '^' :: towerText n

/-- The tokens of a tower up to its last power. -/
def towerTokens : Nat → List Token
  | 0 => []
  | n + 1 => .name "x" :: .op .pow :: towerTokens n

/-- The tree of a tower. -/
def towerTree : Nat → Expr
  | 0 => .ident "x" .nowhere
  | n + 1 => .binary .pow (.ident "x" .nowhere) (towerTree n) .nowhere

theorem spelled_tower (n : Nat) : Spelled (towerText n) (towerTokens n ++ [.name "x"]) := by
  have longest (rest : List Char) (parted : Parted rest) : LongestWord IsName ['x'] rest :=
    nameLength_measures.longest_of_parted nameLength_append ⟨by decide, rfl⟩ parted
  induction n with
  | zero => exact .name (longest [] trivial) .nil
  | succ n ih =>
    have power : separates '^' := by decide
    exact .name (longest ('^' :: towerText n) power) (.single (.op .pow) ih)

theorem derives_tower (n : Nat) : Derives .signed (towerTokens n ++ [.name "x"]) (towerTree n) := by
  induction n with
  | zero => exact .ofPower (.ofAtom (.ident "x"))
  | succ n ih => exact .ofPower (.power (.ident "x") ih)

theorem generates_tower (n : Nat) : Generates (towerText n) [.expr (towerTree n)] :=
  ⟨_, spelled_tower n, [(_, .expr (towerTree n))], List.cons_ne_nil _ _,
    List.forall_mem_singleton.mpr (.expr ((derives_tower n).loosen (by decide))), rfl, .inl
      (List.intercalate_singleton ..).symm⟩

theorem rightDepth_tower (n : Nat) : (towerTree n).rightDepth = n := by
  induction n with
  | zero => rfl
  | succ n ih =>
    have deeper : (towerTree (n + 1)).rightDepth = max 0 (1 + (towerTree n).rightDepth) := rfl
    rw [deeper, ih, Nat.zero_max, Nat.add_comm]

/-- Every power of a tower waits for the next one. -/
theorem takes_tower (n : Nat) (state : Parse) (due : state.operand = .due) :
    ∃ after, state.Takes (towerTokens n) after ∧
      after.waiting.length = state.waiting.length + n := by
  induction n generalizing state with
  | zero => exact ⟨state, takes_nil.mpr rfl, rfl⟩
  | succ n ih =>
    have reduced : reduce BinaryOp.pow.threshold state.waiting (.ident "x" .nowhere) = _ :=
      blocks_tightest.reduce_eq _
    obtain ⟨after, takes, length⟩ := ih { state with
      waiting := .infixOp .pow (.ident "x" .nowhere) :: state.waiting, operand := .due } rfl
    refine ⟨after, takes_cons.mpr ⟨_, .name due rfl, takes_cons.mpr
      ⟨_, .infixOp rfl rfl reduced, takes⟩⟩, ?_⟩
    rw [length, List.length_cons, Nat.add_assoc, Nat.add_comm 1]

/-- A tower has no parentheses and no signs. -/
theorem checkNesting_tower (n : Nat) : checkNesting 0 (towerText n) = .ok () := by
  have plain (offset : Nat) : checkNestingFrom 0 0 0 offset (towerText n) = .ok () := by
    induction n generalizing offset with
    | zero => rfl
    | succ n ih => exact ih _
  exact plain 0

/-- A tower of any height is accepted with no nesting allowed. -/
theorem exists_tower (n : Nat) :
    ∃ source program statement front back state, parseWithin 0 source = .ok program ∧
      statement ∈ program ∧ statement.value.rightDepth = n ∧
      lex source.toList = front ++ back ∧ front.foldlM step start = .ok state ∧
      state.waiting.length = n := by
  obtain ⟨source, isTower⟩ : ∃ source : String, source.toList = towerText n :=
    ⟨_, String.toList_ofList⟩
  have shallow : checkNesting 0 source.toList = .ok () := by
    rw [isTower]
    exact checkNesting_tower n
  have generated := generates_tower n
  rw [← isTower] at generated
  obtain ⟨program, parsed, unplaced⟩ := parseWithin_of_generates shallow generated
  obtain ⟨statement, rfl, same⟩ := List.map_eq_singleton_iff.mp unplaced
  have value : statement.value.unplaced = towerTree n := by
    rw [← Statement.value_unplaced, same]
    rfl
  have depth : statement.value.rightDepth = n := by
    rw [← rightDepth_tower n, ← value, Expr.rightDepth, Expr.rightDepth, Expr.unplaced,
      Expr.descent_mapPlaces]
  have split : (lex source.toList).map Lexeme.token = towerTokens n ++ [.name "x"] := by
    rw [isTower]
    exact tokens_of_spelled (spelled_tower n)
  obtain ⟨front, back, split, inFront, -⟩ := List.map_eq_append_iff.mp split
  obtain ⟨-, final, walked, -⟩ := parseWithin_eq_ok.mp parsed
  rw [split] at walked
  obtain ⟨state, taken, -⟩ := foldlM_append_eq_ok.mp walked
  have length : state.waiting.length = n := by
    obtain ⟨after, takes, length⟩ := takes_tower n start rfl
    rw [Takes, ← inFront, foldlM_unplaced, taken] at takes
    cases takes
    rwa [moved, List.length_map, start, List.length_nil, Nat.zero_add] at length
  exact ⟨source, _, statement, front, back, state, parsed, List.mem_singleton_self _, depth, split,
    taken, length⟩

/-- **The limit alone is no bound**, neither on what waits nor on the depth of trees. -/
theorem parseWithin_unbounded :
    (¬ ∃ bound : Nat → Nat, ∀ limit source program, parseWithin limit source = .ok program →
      ∀ front back state, lex source.toList = front ++ back → front.foldlM step start = .ok state →
        state.waiting.length ≤ bound limit) ∧
    ¬ ∃ bound : Nat → Nat, ∀ limit source program, parseWithin limit source = .ok program →
      ∀ statement ∈ program, statement.value.rightDepth ≤ bound limit := by
  constructor
  · rintro ⟨bound, all⟩
    obtain ⟨source, program, _, front, back, state, parsed, -, -, split, walked, length⟩ :=
      exists_tower (bound 0 + 1)
    have few := all 0 source program parsed front back state split walked
    omega
  · rintro ⟨bound, all⟩
    obtain ⟨source, program, statement, _, _, _, parsed, member, depth, -⟩ :=
      exists_tower (bound 0 + 1)
    have few := all 0 source program parsed statement member
    omega

end Reckoner
