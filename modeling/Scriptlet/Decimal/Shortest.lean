import Scriptlet.Decimal.Double
import Scriptlet.Numeral

/-!
# The shortest decimal of a double

A double is written with the fewest digits that read back as the same double, and among those
with the ones nearest to it.  Numbers from a ten-thousandth up to ten quadrillion are written
positionally, with at least one digit after the point; others with an exponent of at least two
digits and a sign.
-/

namespace Scriptlet.Decimal

set_option autoImplicit false

/-- The decimal `digits * 10 ^ exponent`. -/
structure Scientific where
  digits : Nat
  exponent : Int
deriving DecidableEq, Repr, Inhabited

/-- A positive fraction and the numbers that round to the same double: those between `low` and
`high` over the denominator, with the ends if `closed`. -/
structure Interval where
  low : Nat
  value : Nat
  high : Nat
  denominator : Nat
  closed : Bool

namespace Interval

/-- The numbers that round to `m * 2 ^ e`.  Below a power of two the doubles are closer. -/
def ofDouble (m : Nat) (e : Int) : Interval :=
  let up := Nat.pow 2 e.toNat
  let below := if m = leastNormal && -1074 < e then 1 else 2
  ⟨(4 * m - below) * up, 4 * m * up, (4 * m + 2) * up, 4 * Nat.pow 2 (-e).toNat, m % 2 = 0⟩

/-- Whether `n / d` lies in the interval. -/
def contains (i : Interval) (n d : Nat) : Bool :=
  let left := i.low * d
  let mid := n * i.denominator
  let right := i.high * d
  if i.closed then left ≤ mid && mid ≤ right else left < mid && mid < right

/-- The number of digits in front of the decimal point, or minus the number of zeros after it. -/
def magnitude (i : Interval) : Int :=
  if i.denominator ≤ i.value then (Numeral.digits (i.value / i.denominator)).length
  else
    let zeros := ((List.range 400).find? fun k => i.denominator ≤ i.value * Nat.pow 10 (k + 1)).getD 0
    Int.neg zeros

/-- The decimal of `count` digits nearest to the value that lies in the interval. -/
def candidate? (i : Interval) (count : Nat) : Option Scientific :=
  let exponent := i.magnitude - count
  let up := Nat.pow 10 exponent.toNat
  let down := Nat.pow 10 (-exponent).toNat
  let n := i.value * down
  let d := i.denominator * up
  let floor := n / d
  let fits (c : Nat) : Bool := i.contains (c * up) down
  let twice := 2 * (n % d)
  let nearest := if twice < d || (twice = d && floor % 2 = 0) then floor else floor + 1
  let other := if nearest = floor then floor + 1 else floor
  if fits nearest then some ⟨nearest, exponent⟩
  else if fits other then some ⟨other, exponent⟩
  else none

/-- The shortest decimal in the interval; seventeen digits are always enough. -/
def shortest (i : Interval) : Scientific :=
  ((List.range 17).findSome? fun k => i.candidate? (k + 1)).getD ⟨0, 0⟩

end Interval

/-- A decimal without zeros at its end. -/
def Scientific.trimmed (s : Scientific) : List Char × Int :=
  let digits := Numeral.digits s.digits
  let kept := (digits.reverse.dropWhile (· == '0')).reverse
  if kept.isEmpty then (['0'], 0) else (kept, s.exponent + (digits.length - kept.length : Nat))

/-- The exponent with its sign and at least two digits. -/
def exponentText (e : Int) : List Char :=
  let digits := Numeral.digits e.natAbs
  (if e < 0 then '-' else '+') :: (if digits.length < 2 then '0' :: digits else digits)

/-- The digits of a decimal, in positional or exponent form. -/
def Scientific.text (s : Scientific) : List Char :=
  let (digits, exponent) := s.trimmed
  let point : Int := digits.length + exponent
  if -4 < point && point ≤ 16 then
    if point ≤ 0 then '0' :: '.' :: List.replicate (-point).toNat '0' ++ digits
    else if exponent ≥ 0 then digits ++ List.replicate exponent.toNat '0' ++ ['.', '0']
    else digits.take point.toNat ++ '.' :: digits.drop point.toNat
  else
    let tail := digits.drop 1
    digits.take 1 ++ (if tail.isEmpty then [] else '.' :: tail) ++ 'e' :: exponentText (point - 1)

/-- The text of a double. -/
def Double.text : Double → String
  | nan => "nan"
  | infinite negative => if negative then "-inf" else "inf"
  | finite negative m e =>
    let digits := if m = 0 then ['0', '.', '0'] else (Interval.ofDouble m e).shortest.text
    String.ofList (if negative then '-' :: digits else digits)

end Scriptlet.Decimal
