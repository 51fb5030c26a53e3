import Scriptlet.Error

/-!
# Literals

What the literals of a source text denote.  A number is a run of decimal digits, maybe signed,
that fits in 64 bits; a string stands between equal quotes and knows six escapes; a boolean is
one of two words.
-/

namespace Scriptlet.Literal

set_option autoImplicit false

/-- The least number of the language. -/
def numberMin : Int := -0x8000000000000000

/-- The greatest number of the language. -/
def numberMax : Int := 0x7fffffffffffffff

/-- Whether an integer is a number of the language. -/
def inRange (n : Int) : Bool :=
  numberMin ≤ n && n ≤ numberMax

/-- The sign of a numeral and its digits. -/
def splitSign : List Char → Bool × List Char
  | '-' :: cs => (true, cs)
  | '+' :: cs => (false, cs)
  | cs => (false, cs)

/-- The integer that a numeral denotes. -/
def integer (text : String) : Except Failure Int :=
  let (negative, cs) := splitSign text.toList
  if cs.isEmpty || !cs.all Numeral.isDigit then .error (.error (.invalidDigit text))
  else if Numeral.digitLimit < cs.length then .error (.breakdown (.digitLimit cs.length))
  else
    let n : Int := Numeral.value cs
    .ok (if negative then -n else n)

/-- The number that a numeral denotes. -/
def number (text : String) : Except Failure Int := do
  let n ← integer text
  if inRange n then .ok n else .error (.error (.outOfRange text))

/-- The character that a backslash and `c` stand for. -/
def escape? (c : Char) : Option Char :=
  if c = 'n' then some '\n'
  else if c = 't' then some '\t'
  else if c = 'r' then some '\r'
  else if c = '\\' || c = '\'' || c = '"' then some c
  else none

/-- The contents of a string after its opening quote `q`, which must close it at the end. -/
def contents (q : Char) : List Char → Except Cause (List Char)
  | [] => .error .cutShort
  | c :: rest =>
    if c = '\\' then
      match rest with
      | [] => .error .cutShort
      | e :: rest =>
        match escape? e with
        | none => .error .unknownEscape
        | some d => (contents q rest).map (d :: ·)
    else if c = q then
      if rest.isEmpty then .ok [] else .error .earlyTerminator
    else (contents q rest).map (c :: ·)

/-- The contents of a quoted string. -/
def string (text : String) : Except Cause String :=
  match text.toList with
  | q :: c :: rest =>
    if q = '"' || q = '\'' then (contents q (c :: rest)).map String.ofList
    else .error .notQuoted
  | _ => .error .notQuoted

/-- The truth value of a word. -/
def boolean (text : String) : Except Cause Bool :=
  if text = "true" then .ok true
  else if text = "false" then .ok false
  else .error (.notBooleanLiteral text)

end Scriptlet.Literal
