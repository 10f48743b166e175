/-
Values of the script language and its operators.

Numbers are doubles or integers of 64 bits. Two integers give an integer, with overflow an error; a
double on either side gives a double.

* `ScriptValue` — a value, with the name of its type and its text.
* `ScriptOp`, `ScriptOp.apply` — operators between two values.
* `Binary64.pow` — the power of two doubles.
-/

import Reckoner.Number.Binary64
import Reckoner.Number.Power
import Reckoner.Text.Shown

namespace Reckoner

/-! ### Powers of doubles -/

namespace Binary64

/-- Whether a double is an odd integer. -/
def isOdd (d : Binary64) : Bool := d.isFinite && d.value.isInteger && d.trunc % 2 ≠ 0

/-- The power of two doubles. Any power of one, and the power zero of anything, is one. -/
def pow (x y : Binary64) : Binary64 :=
  let one := ofInt 1
  let negative := x.isNegative && y.isOdd
  let small : Bool := x.order? one = some .lt && x.order? one.neg = some .gt
  if y.isZero || x = one then one
  else if x.isNaN || y.isNaN then nan
  else if y.isInfinite then
    if x = one.neg then one
    else if small = y.isNegative then infinity false
    else zero false
  else if x.isZero || x.isInfinite then
    if x.isZero = y.isNegative then infinity negative else zero negative
  else
    let ctx := Context.ofBits 256 .nearest
    match Number.pow ⟨x.value, 53⟩ ⟨y.value, 53⟩ ctx with
    | .ok power => if power.isZero then zero negative else power.toBinary64
    | .error (.overflow _) => infinity negative
    | .error _ => nan

end Binary64

/-! ### Values -/

/-- A value of the script language. -/
inductive ScriptValue where
  | unit
  | bool (b : Bool)
  | int (n : Int)
  | float (d : Binary64)
  | text (content : String)
  | char (c : Char)
  | array (items : List ScriptValue)
  | map (entries : List (String × ScriptValue))

namespace ScriptValue

/-- The name of the type of a value. -/
def typeName : ScriptValue → String
  | unit => "()"
  | bool _ => "bool"
  | int _ => "i64"
  | float _ => "f64"
  | text _ => "string"
  | char _ => "char"
  | array _ => "array"
  | map _ => "map"

mutual

/-- A value inside a collection. -/
def inner : ScriptValue → String
  | unit => "()"
  | bool b => toString b
  | int n => toString n
  | float d => d.display
  | text content => Text.shown content
  | char c => "'" ++ String.singleton c ++ "'"
  | array items => "[" ++ String.intercalate ", " (innerItems items) ++ "]"
  | map entries => "#\x7b" ++ String.intercalate ", " (innerEntries entries) ++ "\x7d"

/-- The values of a list. -/
def innerItems : List ScriptValue → List String
  | [] => []
  | item :: rest => item.inner :: innerItems rest

/-- The entries of a map. -/
def innerEntries : List (String × ScriptValue) → List String
  | [] => []
  | (name, value) :: rest => (Text.shown name ++ ": " ++ value.inner) :: innerEntries rest

end

/-- The text of a value. -/
def display : ScriptValue → String
  | unit => ""
  | text content => content
  | char c => String.singleton c
  | value => value.inner

/-- A number as a double. -/
def number? : ScriptValue → Option Binary64
  | int n => some (.ofInt n)
  | float d => some d
  | _ => none

/-- Whether two values are of one simple type and equal, or equal numbers. -/
def same (x y : ScriptValue) : Bool :=
  match x, y with
  | unit, unit => true
  | bool a, bool b => a = b
  | int a, int b => a = b
  | text a, text b => a = b
  | char a, char b => a = b
  | _, _ =>
    match x.number?, y.number? with
    | some a, some b => a.order? b = some .eq
    | _, _ => false

/-- Order of two numbers, texts or characters; none of other values. -/
def order? (x y : ScriptValue) : Option Ordering :=
  match x, y with
  | int a, int b => some (compare a b)
  | text a, text b => some (compare a b)
  | char a, char b => some (compare a.toNat b.toNat)
  | _, _ =>
    match x.number?, y.number? with
    | some a, some b => a.order? b
    | _, _ => none

end ScriptValue

/-! ### Operators -/

/-- An operator between two values. -/
inductive ScriptOp where
  | add
  | sub
  | mul
  | div
  | rem
  | pow
  | equal
  | notEqual
  | less
  | lessEqual
  | greater
  | greaterEqual
  | and
  | or
deriving DecidableEq

namespace ScriptOp

/-- The sign of an operator. -/
def sign : ScriptOp → String
  | add => "+"
  | sub => "-"
  | mul => "*"
  | div => "/"
  | rem => "%"
  | pow => "**"
  | equal => "=="
  | notEqual => "!="
  | less => "<"
  | lessEqual => "<="
  | greater => ">"
  | greaterEqual => ">="
  | .and => "&&"
  | .or => "||"

/-- Why an operator has no result. -/
inductive Fault where
  /-- An integer result does not exist, or does not fit. -/
  | arithmetic (message : String)
  /-- The operator is not defined for values of these types. -/
  | undefined

/-- Whether an integer fits into 64 bits. -/
def fits (n : Int) : Bool := -(2 ^ 63) ≤ n && n < 2 ^ 63

/-- An integer result that has to fit. -/
def fitting (op : ScriptOp) (what : String) (x y result : Int) : Except Fault ScriptValue :=
  if fits result then .ok (.int result)
  else .error (.arithmetic (what ++ s!" overflow: {x} " ++ op.sign ++ s!" {y}"))

/-- The result of an operator on two integers. -/
def onInts (op : ScriptOp) (x y : Int) : Except Fault ScriptValue :=
  match op with
  | add => fitting op "Addition" x y (x + y)
  | sub => fitting op "Subtraction" x y (x - y)
  | mul => fitting op "Multiplication" x y (x * y)
  | div =>
    if y = 0 then .error (.arithmetic s!"Division by zero: {x} / {y}")
    else fitting op "Division" x y (x.tdiv y)
  | rem =>
    if y = 0 then .error (.arithmetic s!"Modulo division by zero or overflow: {x} % {y}")
    else .ok (.int (x.tmod y))
  | pow =>
    if y < 0 then .error (.arithmetic s!"Integer raised to a negative power: {x} ** {y}")
    else if x.natAbs ≤ 1 then .ok (.int (if y % 2 = 0 then x ^ (2 * min y.toNat 1) else x))
    else if 64 ≤ y then .error (.arithmetic s!"Exponential overflow: {x} ** {y}")
    else fitting op "Exponential" x y (x ^ y.toNat)
  | _ => .error .undefined

/-- The result of an operator on two doubles. -/
def onFloats (op : ScriptOp) (x y : Binary64) : Except Fault ScriptValue :=
  match op with
  | add => .ok (.float (x.add y))
  | sub => .ok (.float (x.sub y))
  | mul => .ok (.float (x.mul y))
  | div => .ok (.float (x.div y))
  | rem => .ok (.float (x.rem y))
  | pow => .ok (.float (x.pow y))
  | _ => .error .undefined

/-- The result of an arithmetic operator. A sum with a text is a longer text. -/
def arithmetic (op : ScriptOp) (x y : ScriptValue) : Except Fault ScriptValue :=
  let joined : Except Fault ScriptValue :=
    if op = add then .ok (.text (x.display ++ y.display)) else .error .undefined
  match x, y with
  | .int a, .int b => onInts op a b
  | .text _, _ => joined
  | _, .text _ => joined
  | .char _, .char _ => joined
  | _, _ =>
    match x.number?, y.number? with
    | some a, some b => onFloats op a b
    | _, _ => .error .undefined

/-- The result of an operator on two values. -/
def apply (op : ScriptOp) (x y : ScriptValue) : Except Fault ScriptValue :=
  let compared (holds : Ordering → Bool) : Except Fault ScriptValue :=
    .ok (.bool ((x.order? y).any holds))
  match op with
  | equal => .ok (.bool (x.same y))
  | notEqual => .ok (.bool (!x.same y))
  | less => compared (· = .lt)
  | lessEqual => compared (· ≠ .gt)
  | greater => compared (· = .gt)
  | greaterEqual => compared (· ≠ .lt)
  | _ => op.arithmetic x y

end ScriptOp

end Reckoner
