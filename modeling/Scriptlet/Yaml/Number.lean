import Scriptlet.Data
import Scriptlet.Decimal.Reader
import Scriptlet.Json.Reader
import Scriptlet.Text.Case

/-!
# Numbers of a YAML document

Integers in base two, eight, ten, sixteen and sixty, and floating-point numbers, also in base
sixty.  Underscores are left out.  A scalar may be tagged as a number without being one; what is
then reported is the complaint of the conversion.
-/

namespace Scriptlet.Yaml

set_option autoImplicit false

/-- A text that is empty where a first character is needed. -/
def emptyText : Failure :=
  .breakdown (.exception "IndexError" "string index out of range")

/-- The value of a digit in a base. -/
def digitIn? (base : Nat) (c : Char) : Option Nat := do
  let n ← Json.hexValue? c
  if n < base then some n else none

/-- The mark that may stand in front of digits in a base. -/
def baseMark (base : Nat) : List (List Char) :=
  if base = 2 then [['0', 'b'], ['0', 'B']]
  else if base = 8 then [['0', 'o'], ['0', 'O']]
  else if base = 16 then [['0', 'x'], ['0', 'X']]
  else []

/-- The complaint about a text that is no integer in a base.  It shows the start of the text. -/
def notInteger (base : Nat) (text : List Char) : Failure :=
  let shown := (Text.quoted (String.ofList text)).toList.take 200
  .breakdown (.exception "ValueError"
    ("invalid literal for int() with base " ++ Numeral.ofNat base ++ ": " ++ String.ofList shown))

/-- The integer that a text denotes in a base: digits of any script with blanks around them, and
before them a sign and the mark of the base.  In base ten the number of digits is limited, and a text
of too many is refused for that, whatever follows them. -/
def integerIn (base : Nat) (text : List Char) : Except Failure Int :=
  let cs := (text.map Text.plainChar).dropWhile Text.isAsciiBlank
  let negative := cs.head? == some '-'
  let body := if negative || cs.head? == some '+' then cs.drop 1 else cs
  let body := if (baseMark base).any fun m => m.isPrefixOf body then body.drop 2 else body
  let digits := body.takeWhile fun c => (digitIn? base c).isSome
  let rest := body.drop digits.length
  if base = 10 && Numeral.digitLimit < digits.length then
    .error (.breakdown (.digitLimit digits.length))
  else if digits.isEmpty || !rest.all Text.isAsciiBlank then .error (notInteger base text)
  else
    let n : Int := digits.foldl (fun n c => n * base + (digitIn? base c).getD 0) 0
    .ok (if negative then -n else n)

/-- The parts of a text between colons. -/
def colonParts : List Char → List (List Char)
  | [] => [[]]
  | c :: rest =>
    if c = ':' then [] :: colonParts rest
    else
      match colonParts rest with
      | part :: parts => (c :: part) :: parts
      | [] => [[c]]

/-- The sign of a number and the text behind it, without underscores. -/
def signed (text : List Char) : Except Failure (Bool × List Char) :=
  match text.filter (· != '_') with
  | [] => .error emptyText
  | c :: rest => .ok (c == '-', if c == '-' || c == '+' then rest else c :: rest)

/-- The integer of a scalar. -/
def integer (text : List Char) : Except Failure Int := do
  let (negative, body) ← signed text
  let n ←
    match body with
    | [] => .error emptyText
    | ['0'] => pure 0
    | '0' :: 'b' :: digits => integerIn 2 digits
    | '0' :: 'x' :: digits => integerIn 16 digits
    | '0' :: _ => integerIn 8 body
    | _ =>
      if body.contains ':' then do
        let parts ← (colonParts body).mapM (integerIn 10)
        pure (parts.foldl (fun n part => n * 60 + part) 0)
      else integerIn 10 body
  return if negative then -n else n

/-- The double that a text denotes. -/
def decimal (text : List Char) : Except Failure Decimal.Double :=
  match Decimal.Double.parse? text with
  | some x => .ok x
  | none => .error (.breakdown (.exception "ValueError"
      ("could not convert string to float: " ++ Text.quoted (String.ofList text))))

/-- The sum of the places of a number in base sixty, the last one first.  A place is multiplied by
the double nearest to its power of sixty, which must be in range. -/
def sumOfPlaces (power : Nat) (sum : Decimal.Double) :
    List Decimal.Double → Except Failure Decimal.Double
  | [] => .ok sum
  | place :: rest =>
    match Decimal.Double.ofNat? power with
    | some weight => sumOfPlaces (power * 60) (sum.add (place.mul weight)) rest
    | none =>
      .error (.breakdown (.exception "OverflowError" "int too large to convert to float"))

/-- The floating-point number of a scalar. -/
def float (text : List Char) : Except Failure Decimal.Double := do
  let (negative, body) ← signed (Text.lower text)
  let x ←
    if body = ".inf".toList then pure (.infinite false)
    else if body = ".nan".toList then pure .nan
    else if body.contains ':' then do
      let places ← (colonParts body).mapM decimal
      sumOfPlaces 1 (.finite false 0 (-1074)) places.reverse
    else decimal body
  return if negative then x.negate else x

/-- Whether a scalar is the one number that is no number, and not one of its own. -/
def isStandardNan (text : List Char) : Bool :=
  match signed (Text.lower text) with
  | .ok (_, body) => body == ".nan".toList
  | .error _ => false

end Scriptlet.Yaml
