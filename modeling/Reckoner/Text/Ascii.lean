/-
Classes and values of ASCII characters.

* `isDigit`, `digitValue`, `digitsValue` — decimal digits and the numbers they write.
* `hexValue?`, `hexChar` — hexadecimal digits.
* `isLetter`, `isNameStart`, `isNameChar` — characters of names.
-/

namespace Reckoner

/-- Whether a character is an ASCII digit. -/
def isDigit (c : Char) : Bool := '0' ≤ c && c ≤ '9'

/-- The character of a decimal digit. -/
def digitChar (n : Nat) : Char := Char.ofNat (48 + n % 10)

/-- The value of a character as a decimal digit. -/
def digitValue (c : Char) : Nat := c.toNat - 48

/-- The natural number written by a list of digits. -/
def digitsValue (digits : List Char) : Nat := digits.foldl (fun n c => 10 * n + digitValue c) 0

/-- The lower-case character of a hexadecimal digit. -/
def hexChar (n : Nat) : Char := if n < 10 then Char.ofNat (48 + n) else Char.ofNat (87 + n)

/-- The value of a hexadecimal digit of either case. -/
def hexValue? (c : Char) : Option Nat :=
  if isDigit c then some (c.toNat - 48)
  else if 'a' ≤ c && c ≤ 'f' then some (c.toNat - 87)
  else if 'A' ≤ c && c ≤ 'F' then some (c.toNat - 55)
  else none

def isLetter (c : Char) : Bool := 'a' ≤ c && c ≤ 'z' || 'A' ≤ c && c ≤ 'Z'

/-- Whether a name can start with a character. -/
def isNameStart (c : Char) : Bool := isLetter c || c = '_'

/-- Whether a name can go on with a character. -/
def isNameChar (c : Char) : Bool := isLetter c || c = '_' || isDigit c

end Reckoner
