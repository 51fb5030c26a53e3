/-!
# Doubles as exact numbers

A double is not a number, an infinity, or plus or minus `m * 2 ^ e` with `m` below `2 ^ 53`.  The
nearest double of a decimal is found by exact arithmetic on natural numbers, a tie going to the
even neighbour.
-/

namespace Scriptlet.Decimal

set_option autoImplicit false

/-- A floating-point number of 64 bits. -/
inductive Double where
  | nan
  | infinite (negative : Bool)
  /-- The number `m * 2 ^ e`, with a sign; `e` is at least `-1074`. -/
  | finite (negative : Bool) (m : Nat) (e : Int)
deriving DecidableEq, Repr, Inhabited

/-- The least number with the 53 binary digits of a double, the power of two with exponent 52. -/
def leastNormal : Nat := 0x10000000000000

namespace Double

/-- The quotient of two natural numbers rounded to the nearest, a tie to the even one. -/
def roundDiv (n d : Nat) : Nat :=
  let q := n / d
  let twice := 2 * (n % d)
  if twice < d then q else if d < twice then q + 1 else if q % 2 = 0 then q else q + 1

/-- The fraction `n / d` divided by `2 ^ e`, as numerator and denominator. -/
def scale (n d : Nat) (e : Int) : Nat × Nat :=
  if 0 ≤ e then (n, d * Nat.pow 2 e.toNat) else (n * Nat.pow 2 (-e).toNat, d)

/-- The double nearest to `n / d`. -/
def ofRatio (negative : Bool) (n d : Nat) : Double :=
  if n = 0 then finite negative 0 (-1074)
  else
    let guess : Int := (Nat.log2 n : Int) - Nat.log2 d - 53
    let s := scale n d guess
    let e := max (-1074) (if 2 * leastNormal ≤ s.1 / s.2 then guess + 1 else guess)
    let t := scale n d e
    let m := roundDiv t.1 t.2
    let r : Nat × Int := if m = 2 * leastNormal then (leastNormal, e + 1) else (m, e)
    if 971 < r.2 then infinite negative else finite negative r.1 r.2

/-- The double nearest to `m * 10 ^ e`. -/
def ofDecimal (negative : Bool) (m : Nat) (e : Int) : Double :=
  let size : Int := Nat.log2 m / 3 + 1
  if m = 0 then finite negative 0 (-1074)
  else if 400 < e then infinite negative
  else if size + e < -400 then finite negative 0 (-1074)
  else if 0 ≤ e then ofRatio negative (m * Nat.pow 10 e.toNat) 1
  else ofRatio negative m (Nat.pow 10 (-e).toNat)

/-- Whether two doubles are equal as numbers. -/
def sameNumber : Double → Double → Bool
  | nan, _ => false
  | finite s m e, finite t n f => (m == 0 && n == 0) || (s == t && m == n && e == f)
  | x, y => x == y

/-- The integer that a double is, if it is one. -/
def toInt? : Double → Option Int
  | finite s m e =>
    let signed (k : Nat) : Int := if s then -k else k
    if 0 ≤ e then some (signed (m * Nat.pow 2 e.toNat))
    else if m % Nat.pow 2 (-e).toNat = 0 then some (signed (m / Nat.pow 2 (-e).toNat))
    else none
  | _ => none

/-- A finite double as a fraction, and zero for the others. -/
def toRatio : Double → Int × Nat
  | finite s m e =>
    let n : Int := (m * Nat.pow 2 e.toNat : Nat)
    (if s then -n else n, Nat.pow 2 (-e).toNat)
  | _ => (0, 1)

/-- Whether a double has a minus sign. -/
def isNegative : Double → Bool
  | nan => false
  | infinite s => s
  | finite s _ _ => s

/-- Whether a double is zero. -/
def isZero : Double → Bool
  | finite _ m _ => m == 0
  | _ => false

/-- The double nearest to a fraction; `negative` is the sign of a zero. -/
def ofFraction (negative : Bool) (n : Int) (d : Nat) : Double :=
  ofRatio (if n = 0 then negative else n < 0) n.natAbs d

/-- The double nearest to a natural number, if that is in range. -/
def ofNat? (n : Nat) : Option Double :=
  match ofRatio false n 1 with
  | finite s m e => some (finite s m e)
  | _ => none

/-- The sum of two doubles.  A sum of zero is positive unless both are negative, and infinities of
different sign have no sum. -/
def add : Double → Double → Double
  | nan, _ => nan
  | _, nan => nan
  | infinite s, infinite t => if s == t then infinite s else nan
  | infinite s, _ => infinite s
  | _, infinite t => infinite t
  | x, y =>
    let (a, b) := x.toRatio
    let (c, d) := y.toRatio
    ofFraction (x.isNegative && y.isNegative) (a * d + c * b) (b * d)

/-- The product of two doubles.  Zero and infinity have no product. -/
def mul : Double → Double → Double
  | nan, _ => nan
  | _, nan => nan
  | infinite s, y => if y.isZero then nan else infinite (s != y.isNegative)
  | x, infinite t => if x.isZero then nan else infinite (x.isNegative != t)
  | x, y =>
    let (a, b) := x.toRatio
    let (c, d) := y.toRatio
    ofFraction (x.isNegative != y.isNegative) (a * c) (b * d)

/-- The double with the other sign. -/
def negate : Double → Double
  | nan => nan
  | infinite s => infinite !s
  | finite s m e => finite (!s) m e

end Double

end Scriptlet.Decimal
