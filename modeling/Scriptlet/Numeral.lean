/-!
# Decimal numerals

Integers are written in base ten with no leading zeros and a minus sign in front of negative
ones; a run of decimal digits, leading zeros allowed, is read as the number it denotes.
Conversions between text and integers are refused beyond `digitLimit` digits.
-/

namespace Scriptlet.Numeral

set_option autoImplicit false

/-- A decimal digit. -/
def isDigit (c : Char) : Bool :=
  '0' ≤ c && c ≤ '9'

/-- The number that a decimal digit denotes. -/
def digitValue (c : Char) : Nat :=
  c.toNat - 48

/-- The digit of a number below ten. -/
def digit (n : Nat) : Char :=
  Char.ofNat (48 + n)

/-- The number denoted by a run of digits. -/
def value (cs : List Char) : Nat :=
  cs.foldl (fun n c => n * 10 + digitValue c) 0

/-- The digits of a natural number, most significant first. -/
def digits (n : Nat) : List Char :=
  if n < 10 then [digit n] else digits (n / 10) ++ [digit (n % 10)]
termination_by n

/-- The numeral of an integer, as characters. -/
def chars : Int → List Char
  | .ofNat n => digits n
  | .negSucc n => '-' :: digits (n + 1)

/-- The numeral of a natural number. -/
def ofNat (n : Nat) : String :=
  String.ofList (digits n)

/-- The numeral of a natural number with zeros in front up to a width. -/
def padded (width n : Nat) : String :=
  let ds := digits n
  String.ofList (List.replicate (width - ds.length) '0' ++ ds)

/-- The numeral of an integer. -/
def ofInt (n : Int) : String :=
  String.ofList (chars n)

/-- The largest number of digits that a conversion between text and integers accepts. -/
def digitLimit : Nat := 4300

/-- Whether an integer has too many digits to be written. -/
def isWide (n : Int) : Bool :=
  digitLimit < (digits n.natAbs).length

end Scriptlet.Numeral
