import Scriptlet.Data
import Scriptlet.Location

/-!
# Reading JSON

A document is one value with blanks around it.  Besides the standard forms the words `NaN`,
`Infinity` and `-Infinity` are numbers.  The first thing that is wrong is reported with its line,
its column and its offset in the text; an integer of too many digits is refused as soon as it is
read.  How deep arrays and objects may nest is not limited here.
-/

namespace Scriptlet.Json

set_option autoImplicit false

variable {ε : Type}

/-- What is wrong with a document. -/
inductive Complaint where
  | value | propertyName | comma | colon | extra | unterminated | control | escape | unicode
  | byteOrderMark
deriving DecidableEq, Repr

/-- The words for what is wrong. -/
def Complaint.text : Complaint → String
  | value => "Expecting value"
  | propertyName => "Expecting property name enclosed in double quotes"
  | comma => "Expecting ',' delimiter"
  | colon => "Expecting ':' delimiter"
  | extra => "Extra data"
  | unterminated => "Unterminated string starting at"
  | control => "Invalid control character at"
  | escape => "Invalid \\escape"
  | unicode => "Invalid \\uXXXX escape"
  | byteOrderMark => "Unexpected UTF-8 BOM (decode using utf-8-sig)"

/-- What is wrong and where. -/
def complain (c : Complaint) (place : Cursor) : Failure :=
  .error (.invalidJson (c.text ++ ": line " ++ Numeral.ofNat place.line ++ " column " ++
    Numeral.ofNat place.col ++ " (char " ++ Numeral.ofNat place.offset ++ ")"))

/-- A blank between the parts of a document. -/
def isSpace (c : Char) : Bool :=
  c == ' ' || c == '\t' || c == '\n' || c == '\r'

/-- The place after the blanks. -/
def skip (place : Cursor) : Cursor :=
  place.advance (place.rest.takeWhile isSpace).length

/-- The value of a hexadecimal digit. -/
def hexValue? (c : Char) : Option Nat :=
  if '0' ≤ c && c ≤ '9' then some (c.toNat - 48)
  else if 'a' ≤ c && c ≤ 'f' then some (c.toNat - 87)
  else if 'A' ≤ c && c ≤ 'F' then some (c.toNat - 55)
  else none

/-- The number of four hexadecimal digits that more text follows. -/
def hex4? : List Char → Option Nat
  | a :: b :: c :: d :: _ :: _ => do
    return (((← hexValue? a) * 16 + (← hexValue? b)) * 16 + (← hexValue? c)) * 16 + (← hexValue? d)
  | _ => none

/-- The character of a simple escape. -/
def escape? (c : Char) : Option Char :=
  match c with
  | '"' => some '"'
  | '\\' => some '\\'
  | '/' => some '/'
  | 'b' => some '\x08'
  | 'f' => some '\x0c'
  | 'n' => some '\n'
  | 'r' => some '\r'
  | 't' => some '\t'
  | _ => none

/-- The unit of the second half of a surrogate pair that follows the first half, with one more
character behind it. -/
def lowHalf? (rest : List Char) : Except Unit (Option Nat) :=
  match rest with
  | '\\' :: 'u' :: digits =>
    if digits.length < 5 then .ok none
    else
      match hex4? digits with
      | none => .error ()
      | some unit => .ok (if 0xdc00 ≤ unit && unit ≤ 0xdfff then some unit else none)
  | _ => .ok none

/-- The character of a code point.  A half of a surrogate pair is no character, and a string here
holds nothing else, so a text that asks for one is not read. -/
def character (code : Nat) : Except Failure Char :=
  if 0xd800 ≤ code && code ≤ 0xdfff then .error (.breakdown .loneSurrogate)
  else .ok (Char.ofNat code)

/-- The rest of a string, up to its closing quote, and the place after it.  `opening` is the place
of the opening quote. -/
def stringBody (opening : Cursor) : Nat → Cursor → Except Failure (List Char × Cursor)
  | 0, _ => .error (complain .unterminated opening)
  | fuel + 1, place =>
    match place.rest with
    | [] => .error (complain .unterminated opening)
    | c :: rest =>
      let next := place.advance 1
      if c = '"' then .ok ([], next)
      else if c = '\\' then
        match rest with
        | [] => .error (complain .unterminated opening)
        | 'u' :: digits =>
          match hex4? digits with
          | none => .error (complain .unicode next)
          | some unit =>
            let after := next.advance 5
            if 0xd800 ≤ unit && unit ≤ 0xdbff then
              match lowHalf? after.rest with
              | .error () => .error (complain .unicode (after.advance 1))
              | .ok (some low) => do
                let (cs, stop) ← stringBody opening fuel (after.advance 6)
                return (Char.ofNat (0x10000 + (unit - 0xd800) * 0x400 + (low - 0xdc00)) :: cs, stop)
              | .ok none => .error (.breakdown .loneSurrogate)
            else do
              let c ← character unit
              let (cs, stop) ← stringBody opening fuel after
              return (c :: cs, stop)
        | e :: _ =>
          match escape? e with
          | none => .error (complain .escape place)
          | some d => do
            let (cs, stop) ← stringBody opening fuel (next.advance 1)
            return (d :: cs, stop)
      else if c.toNat < 0x20 then .error (complain .control place)
      else do
        let (cs, stop) ← stringBody opening fuel next
        return (c :: cs, stop)

/-- The string at an opening quote. -/
def string (opening : Cursor) : Except Failure (List Char × Cursor) :=
  stringBody opening (opening.rest.length + 1) (opening.advance 1)

/-- The parts of a number: its sign, its digits before and after the point, its exponent, and the
number of characters. -/
structure NumberParts where
  negative : Bool
  whole : List Char
  fraction : Option (List Char)
  exponent : Option Int
  length : Nat

/-- The exponent that a text starts with: its value and length. -/
def exponent? : List Char → Option (Int × Nat)
  | e :: rest =>
    if e = 'e' || e = 'E' then
      let sign := (rest.takeWhile fun c => c == '+' || c == '-').take 1
      let digits := (rest.drop sign.length).takeWhile Numeral.isDigit
      if digits.isEmpty then none
      else
        let n : Int := Numeral.value digits
        some (if sign = ['-'] then -n else n, 1 + sign.length + digits.length)
    else none
  | [] => none

/-- The fraction that a text starts with: its digits. -/
def fraction? : List Char → Option (List Char)
  | '.' :: rest =>
    let digits := rest.takeWhile Numeral.isDigit
    if digits.isEmpty then none else some digits
  | _ => none

/-- The number that a text starts with. -/
def number? (cs : List Char) : Option NumberParts :=
  let negative := cs.head? == some '-'
  let body := if negative then cs.drop 1 else cs
  let whole :=
    match body with
    | '0' :: _ => ['0']
    | _ => body.takeWhile Numeral.isDigit
  if whole.isEmpty then none
  else
    let rest := body.drop whole.length
    let fraction := fraction? rest
    let fractionLength := (fraction.map fun ds => ds.length + 1).getD 0
    let exponent := exponent? (rest.drop fractionLength)
    some ⟨negative, whole, fraction, exponent.map (·.1),
      (if negative then 1 else 0) + whole.length + fractionLength + (exponent.map (·.2)).getD 0⟩

/-- The datum of a number. -/
def NumberParts.datum (n : NumberParts) : Except Failure (Data ε) :=
  if n.fraction.isNone && n.exponent.isNone then
    if Numeral.digitLimit < n.whole.length then .error (.breakdown (.digitLimit n.whole.length))
    else
      let k : Int := Numeral.value n.whole
      .ok (.int (if n.negative then -k else k))
  else
    let fraction := n.fraction.getD []
    .ok (.float (.ofDecimal n.negative (Numeral.value (n.whole ++ fraction))
      (n.exponent.getD 0 - fraction.length)))

/-- The words that stand for a datum. -/
def words : List (List Char × Data ε) :=
  [("null".toList, .null), ("true".toList, .bool true), ("false".toList, .bool false),
   ("NaN".toList, .float .nan), ("Infinity".toList, .float (.infinite false)),
   ("-Infinity".toList, .float (.infinite true))]

/-- The scalar at a place that is no string. -/
def scalar (place : Cursor) : Except Failure (Data ε × Cursor) :=
  match words.find? fun w => w.1.isPrefixOf place.rest with
  | some (word, d) => .ok (d, place.advance word.length)
  | none =>
    match number? place.rest with
    | some n => do return (← n.datum, place.advance n.length)
    | none => .error (complain .value place)

mutual

/-- The value at a place, and the place after it. -/
def value : Nat → Cursor → Except Failure (Data ε × Cursor)
  | 0, place => .error (complain .value place)
  | fuel + 1, place =>
    match place.rest with
    | '"' :: _ => do
      let (cs, stop) ← string place
      return (.str (String.ofList cs), stop)
    | '{' :: _ =>
      let inside := skip (place.advance 1)
      match inside.rest with
      | '}' :: _ => .ok (.map [], inside.advance 1)
      | _ => do
        let (entries, stop) ← members fuel inside
        return (.ofEntries entries, stop)
    | '[' :: _ =>
      let inside := skip (place.advance 1)
      match inside.rest with
      | ']' :: _ => .ok (.list [], inside.advance 1)
      | _ => do
        let (items, stop) ← elements fuel inside
        return (.list items, stop)
    | _ => scalar place

/-- The members of an object up to its closing brace. -/
def members : Nat → Cursor → Except Failure (List (Data ε × Data ε) × Cursor)
  | 0, place => .error (complain .propertyName place)
  | fuel + 1, place =>
    match place.rest with
    | '"' :: _ => do
      let (key, afterKey) ← string place
      let colon := skip afterKey
      match colon.rest with
      | ':' :: _ =>
        let (d, afterValue) ← value fuel (skip (colon.advance 1))
        let close := skip afterValue
        let entry : Data ε × Data ε := (.str (String.ofList key), d)
        match close.rest with
        | '}' :: _ => .ok ([entry], close.advance 1)
        | ',' :: _ => do
          let (entries, stop) ← members fuel (skip (close.advance 1))
          return (entry :: entries, stop)
        | _ => .error (complain .comma close)
      | _ => .error (complain .colon colon)
    | _ => .error (complain .propertyName place)

/-- The elements of an array up to its closing bracket. -/
def elements : Nat → Cursor → Except Failure (List (Data ε) × Cursor)
  | 0, place => .error (complain .value place)
  | fuel + 1, place => do
    let (d, afterValue) ← value fuel place
    let close := skip afterValue
    match close.rest with
    | ']' :: _ => .ok ([d], close.advance 1)
    | ',' :: _ =>
      let (items, stop) ← elements fuel (skip (close.advance 1))
      return (d :: items, stop)
    | _ => .error (complain .comma close)

end

/-- The datum of a document.  An array takes two steps for each bracket. -/
def read (text : String) : Except Failure (Data ε) :=
  let start := Cursor.start text.toList
  if text.toList.head? = some '\uFEFF' then .error (complain .byteOrderMark start)
  else do
    let (d, stop) ← value (2 * text.length + 1) (skip start)
    let final := skip stop
    if final.rest.isEmpty then .ok d else .error (complain .extra final)

end Scriptlet.Json
