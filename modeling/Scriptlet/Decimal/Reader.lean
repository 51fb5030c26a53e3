import Scriptlet.Decimal.Double
import Scriptlet.Numeral
import Scriptlet.Text.Digit

/-!
# Reading decimals

The double that a text denotes: a sign, digits with an optional point among them, an optional
exponent, or one of the words for infinity and for what is not a number.  Blanks around it do not
count, and the digits may be those of any script.
-/

namespace Scriptlet.Decimal

set_option autoImplicit false

/-- The exponent of a decimal after its mark. -/
def exponentOf? (cs : List Char) : Option Int :=
  let negative := cs.head? == some '-'
  let digits := if negative || cs.head? == some '+' then cs.drop 1 else cs
  if digits.isEmpty || !digits.all Numeral.isDigit then none
  else
    let n : Int := Numeral.value digits
    some (if negative then -n else n)

/-- The double of digits with a point and an exponent. -/
def unsigned? (cs : List Char) : Option Double :=
  let mantissa := cs.takeWhile fun c => c != 'e' && c != 'E'
  let tail := cs.drop mantissa.length
  let whole := mantissa.takeWhile (· != '.')
  let fraction := (mantissa.drop whole.length).drop 1
  let digits := whole ++ fraction
  if digits.isEmpty || !digits.all Numeral.isDigit then none
  else do
    let e ← if tail.isEmpty then some 0 else exponentOf? (tail.drop 1)
    return .ofDecimal false (Numeral.value digits) (e - fraction.length)

/-- The double that a text denotes. -/
def Double.parse? (text : List Char) : Option Double :=
  let cs := Text.trimAscii (text.map Text.plainChar)
  let negative := cs.head? == some '-'
  let body := if negative || cs.head? == some '+' then cs.drop 1 else cs
  let word := String.ofList (body.map Char.toLower)
  let magnitude :=
    if word = "inf" || word = "infinity" then some (.infinite false)
    else if word = "nan" then some .nan
    else unsigned? body
  magnitude.map fun x => if negative then x.negate else x

end Scriptlet.Decimal
