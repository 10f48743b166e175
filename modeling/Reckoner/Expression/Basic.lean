/-
Expressions and programs, with the places in the text that they come from.

* `Span` — a range of bytes of the text.
* `Expr` — an expression tree. Numbers stay as they are written, for their value depends on the
  precision of the evaluation; parentheses leave no node.
* `Statement`, `Program` — assignments and expressions in source order.
* `Expr.chars` — the fully parenthesised text of a tree.
-/

import Reckoner.Text.Blank

namespace Reckoner

/-- The bytes of a text from `start` up to `stop`. -/
structure Span where
  start : Nat
  stop : Nat
deriving DecidableEq

/-- The span from the start of one span to the end of another. -/
def Span.join (a b : Span) : Span := ⟨a.start, b.stop⟩

/-- Operators between two operands. -/
inductive BinaryOp where
  | add
  | sub
  | mul
  | div
  | rem
  | pow
deriving DecidableEq

namespace BinaryOp

/-- The character of an operator. -/
def char : BinaryOp → Char
  | add => '+'
  | sub => '-'
  | mul => '*'
  | div => '/'
  | rem => '%'
  | pow => '^'

end BinaryOp

/-- Operators in front of an operand. -/
inductive Sign where
  | minus
  | plus
deriving DecidableEq

/-- The character of a sign. -/
def Sign.char : Sign → Char
  | minus => '-'
  | plus => '+'

/-- An expression tree. -/
inductive Expr where
  | number (text : String) (span : Span)
  | ident (name : String) (span : Span)
  | unary (sign : Sign) (operand : Expr) (span : Span)
  | binary (op : BinaryOp) (left right : Expr) (span : Span)
  | call (name : String) (nameSpan : Span) (arguments : List Expr) (span : Span)

namespace Expr

/-- Where an expression stands in the text. -/
def span : Expr → Span
  | number _ span => span
  | ident _ span => span
  | unary _ _ span => span
  | binary _ _ _ span => span
  | call _ _ _ span => span

mutual

/-- The fully parenthesised text of an expression. -/
def chars : Expr → List Char
  | number text _ => text.toList
  | ident name _ => name.toList
  | unary sign operand _ => '(' :: sign.char :: (operand.chars ++ [')'])
  | binary op left right _ => '(' :: (left.chars ++ ' ' :: op.char :: ' ' :: (right.chars ++ [')']))
  | call name _ arguments _ => name.toList ++ '(' :: (argumentChars arguments ++ [')'])

/-- The texts of the arguments of a call, between commas. -/
def argumentChars : List Expr → List Char
  | [] => []
  | [argument] => argument.chars
  | argument :: next :: rest => argument.chars ++ ',' :: ' ' :: argumentChars (next :: rest)

end

/-- The fully parenthesised text of an expression, as a string. -/
def text (e : Expr) : String := String.ofList e.chars

end Expr

/-- A statement of a program. -/
inductive Statement where
  /-- `name := value` -/
  | assign (name : String) (nameSpan : Span) (value : Expr)
  | expr (value : Expr)

namespace Statement

/-- The expression of a statement. -/
def value : Statement → Expr
  | assign _ _ value => value
  | expr value => value

/-- Where a statement stands in the text. -/
def span : Statement → Span
  | assign _ nameSpan value => nameSpan.join value.span
  | expr value => value.span

end Statement

/-- The statements of a text, in source order. -/
abbrev Program := List Statement

end Reckoner
