import Scriptlet.Value

/-!
# Operators on values

Arithmetic is exact on numbers of 64 bits and fails where the result does not fit.  Equality
comes in two forms: the strict one refuses values of different sorts and nulls, the loose one
answers false and true for them.  Objects cannot be compared at all.
-/

namespace Scriptlet.Value

set_option autoImplicit false

variable {ε : Type}

/-- The number that a value must be. -/
def asNumber : Value ε → Except Cause Int
  | number n => .ok n
  | _ => .error .expectedNumber

/-- A number, if it is in range. -/
def checked (n : Int) : Except Cause (Value ε) :=
  if Literal.inRange n then .ok (.number n) else .error .overflow

/-- An operation on two numbers; the left operand is looked at first. -/
def arithmetic (op : Int → Int → Int) (v w : Value ε) : Except Cause (Value ε) := do
  let m ← v.asNumber
  let n ← w.asNumber
  checked (op m n)

/-- The sum of two numbers. -/
def add (v w : Value ε) : Except Cause (Value ε) := arithmetic (· + ·) v w

/-- The difference of two numbers. -/
def subtract (v w : Value ε) : Except Cause (Value ε) := arithmetic (· - ·) v w

/-- The product of two numbers. -/
def multiply (v w : Value ε) : Except Cause (Value ε) := arithmetic (· * ·) v w

/-- The number with the opposite sign. -/
def negate (v : Value ε) : Except Cause (Value ε) := do
  checked (-(← v.asNumber))

/-- The opposite truth value. -/
def inverse : Value ε → Except Cause (Value ε)
  | boolean b => .ok (.boolean !b)
  | _ => .error .notBoolean

/-- Equality; `loose` also answers for values of different sorts and for nulls. -/
def compare [BEq ε] (loose : Bool) : Value ε → Value ε → Except Cause (Value ε)
  | number m, number n => .ok (.boolean (m == n))
  | boolean b, boolean c => .ok (.boolean (b == c))
  | string s, string t => .ok (.boolean (s == t))
  | function f, function g => .ok (.boolean (f.same g))
  | null, null => if loose then .ok (.boolean true) else .error .comparedNulls
  | v, w =>
    if v.sameType w then .error .incomparable
    else if loose then .ok (.boolean false)
    else .error .differentTypes

/-- The order of two numbers.  The operands are looked at before the operator. -/
def compareInequality (op : String) : Value ε → Value ε → Except Failure (Value ε)
  | number m, number n =>
    if op = "<" then .ok (.boolean (m < n))
    else if op = ">" then .ok (.boolean (m > n))
    else if op = "<=" then .ok (.boolean (m ≤ n))
    else if op = ">=" then .ok (.boolean (m ≥ n))
    else .error (.breakdown (.unsupported (.comparison op)))
  | _, _ => .error (.error (.notTwoNumbers op))

/-- The result of a binary operator. -/
def applyOperator [BEq ε] (v : Value ε) (op : String) (w : Value ε) : Except Failure (Value ε) :=
  if op = "==" then (v.compare false w).mapError .error
  else if op = "===" then (v.compare true w).mapError .error
  else if op = "!=" then (v.compare false w >>= inverse).mapError .error
  else if op = "!==" then (v.compare true w >>= inverse).mapError .error
  else if op = "<" || op = ">" || op = "<=" || op = ">=" then v.compareInequality op w
  else if op = "+" then (v.add w).mapError .error
  else if op = "-" then (v.subtract w).mapError .error
  else if op = "*" then (v.multiply w).mapError .error
  else .error (.breakdown (.unsupported (.operator op)))

/-- The result of a unary operator. -/
def applyUnary (op : String) (v : Value ε) : Except Failure (Value ε) :=
  if op = "-" then v.negate.mapError .error
  else if op = "!" then v.inverse.mapError .error
  else .error (.breakdown (.unsupported (.unary op)))

end Scriptlet.Value
