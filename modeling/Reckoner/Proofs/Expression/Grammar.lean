/-
The grammar of programs.

* `Expr.unplaced`, `Statement.unplaced` — trees without their places in the text.
* `Derives` — the productions of the five levels of expressions, with the tree that each of them
  builds. Parentheses leave no node.
* `Statement.Derives`, `Program.Derives` — assignments and expressions between semicolons.
* `Generates` — a text spells the tokens of a program.
* `Derives.loosen` — what derives at a tight level derives at a looser one.
-/

import Reckoner.Proofs.Expression.Tokenization

namespace Reckoner

/-! ### Trees without places -/

/-- The span of trees that stand nowhere. -/
def Span.nowhere : Span := ⟨0, 0⟩

/-- A tree without its places. Two trees are equal up to spans exactly if these are equal. -/
def Expr.unplaced (e : Expr) : Expr := e.mapPlaces fun _ => 0

/-- A statement without its places. -/
def Statement.unplaced (statement : Statement) : Statement := statement.mapPlaces fun _ => 0

/-! ### Expressions -/

/-- The levels of expressions, from the loosest to the tightest. -/
inductive Level where
  | sum
  | term
  | signed
  | power
  | atom

/-- The operator that a sign is written as. -/
def Sign.op : Sign → BinaryOp
  | minus => .sub
  | plus => .add

/-- Tokens derive a tree at a level. -/
inductive Derives : Level → List Token → Expr → Prop where
  /-- `sum ::= sum (+ | -) term` -/
  | sum {before after : List Token} {left right : Expr} {op : BinaryOp}
      (additive : op = .add ∨ op = .sub) (first : Derives .sum before left)
      (second : Derives .term after right) :
      Derives .sum (before ++ .op op :: after) (.binary op left right .nowhere)
  /-- `sum ::= term` -/
  | ofTerm {tokens : List Token} {e : Expr} (term : Derives .term tokens e) : Derives .sum tokens e
  /-- `term ::= term (* | / | %) signed` -/
  | term {before after : List Token} {left right : Expr} {op : BinaryOp}
      (multiplicative : op = .mul ∨ op = .div ∨ op = .rem) (first : Derives .term before left)
      (second : Derives .signed after right) :
      Derives .term (before ++ .op op :: after) (.binary op left right .nowhere)
  /-- `term ::= signed` -/
  | ofSigned {tokens : List Token} {e : Expr} (signed : Derives .signed tokens e) :
      Derives .term tokens e
  /-- `signed ::= (+ | -) signed` -/
  | signed {tokens : List Token} {e : Expr} (sign : Sign) (operand : Derives .signed tokens e) :
      Derives .signed (.op sign.op :: tokens) (.unary sign e .nowhere)
  /-- `signed ::= power` -/
  | ofPower {tokens : List Token} {e : Expr} (power : Derives .power tokens e) :
      Derives .signed tokens e
  /-- `power ::= atom ^ signed` -/
  | power {before after : List Token} {left right : Expr} (first : Derives .atom before left)
      (second : Derives .signed after right) :
      Derives .power (before ++ .op .pow :: after) (.binary .pow left right .nowhere)
  /-- `power ::= atom` -/
  | ofAtom {tokens : List Token} {e : Expr} (atom : Derives .atom tokens e) :
      Derives .power tokens e
  /-- `atom ::= number` -/
  | number (text : String) : Derives .atom [.number text] (.number text .nowhere)
  /-- `atom ::= identifier` -/
  | ident (name : String) : Derives .atom [.name name] (.ident name .nowhere)
  /-- `atom ::= name ( args )`, where `args` is empty or has commas between its members -/
  | call (name : String) {arguments : List (List Token × Expr)}
      (each : ∀ argument ∈ arguments, Derives .sum argument.1 argument.2) :
      Derives .atom
        (.name name :: .opening ::
          (List.intercalate [.comma] (arguments.map Prod.fst) ++ [.closing]))
        (.call name .nowhere (arguments.map Prod.snd) .nowhere)
  /-- `atom ::= ( sum )` -/
  | group {tokens : List Token} {e : Expr} (inner : Derives .sum tokens e) :
      Derives .atom (.opening :: (tokens ++ [.closing])) e

/-! ### Programs -/

/-- Tokens derive a statement. -/
inductive Statement.Derives : List Token → Statement → Prop where
  /-- `statement ::= name := sum` -/
  | assign {tokens : List Token} {value : Expr} (name : String)
      (sum : Reckoner.Derives .sum tokens value) :
      Derives (.name name :: .becomes :: tokens) (.assign name .nowhere value)
  /-- `statement ::= sum` -/
  | expr {tokens : List Token} {value : Expr} (sum : Reckoner.Derives .sum tokens value) :
      Derives tokens (.expr value)

/-- Tokens derive a program: one or more statements with semicolons between them, and perhaps one
at the end. -/
def Program.Derives (tokens : List Token) (program : Program) : Prop :=
  ∃ parts : List (List Token × Statement), parts ≠ [] ∧
    (∀ part ∈ parts, Statement.Derives part.1 part.2) ∧ program = parts.map Prod.snd ∧
    (tokens = List.intercalate [.semicolon] (parts.map Prod.fst) ∨
      tokens = List.intercalate [.semicolon] (parts.map Prod.fst) ++ [.semicolon])

/-- The grammar generates a text as a program: the text spells tokens that derive the program. -/
def Generates (text : List Char) (program : Program) : Prop :=
  ∃ found, Spelled text found ∧ Program.Derives found program

/-! ### Levels -/

/-- How tight a level is. -/
def Level.rank : Level → Nat
  | sum => 1
  | term => 2
  | signed => 3
  | power => 4
  | atom => 5

namespace Derives

variable {tokens : List Token} {e : Expr}

/-- What derives at a tight level derives at a looser one. -/
theorem loosen {tight loose : Level} (derives : Derives tight tokens e)
    (le : loose.rank ≤ tight.rank) : Derives loose tokens e := by
  have power (le : 4 ≤ tight.rank) : Derives .power tokens e := by
    cases tight with
    | power => exact derives
    | atom => exact .ofAtom derives
    | sum | term | signed => exact absurd le (by decide)
  have signed (le : 3 ≤ tight.rank) : Derives .signed tokens e := by
    cases tight with
    | signed => exact derives
    | power | atom => exact .ofPower (power (by decide))
    | sum | term => exact absurd le (by decide)
  have term (le : 2 ≤ tight.rank) : Derives .term tokens e := by
    cases tight with
    | term => exact derives
    | signed | power | atom => exact .ofSigned (signed (by decide))
    | sum => exact absurd le (by decide)
  cases loose with
  | sum =>
    cases tight with
    | sum => exact derives
    | term | signed | power | atom => exact .ofTerm (term (by decide))
  | term => exact term le
  | signed => exact signed le
  | power => exact power le
  | atom =>
    cases tight with
    | atom => exact derives
    | sum | term | signed | power => exact absurd le (by decide)

/-- A tree that derives stands nowhere. -/
theorem span_eq {level : Level} (derives : Derives level tokens e) : e.span = .nowhere := by
  induction derives with
  | sum | term | signed | power | number | ident | call => rfl
  | ofTerm _ ih | ofSigned _ ih | ofPower _ ih | ofAtom _ ih | group _ ih => exact ih

end Derives

end Reckoner
