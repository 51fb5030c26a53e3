import Scriptlet.Data

/-!
# Writing JSON

A document is written on one line, with a space after each comma and colon, or over several lines
with two spaces of indentation a level.  Characters beyond ASCII stay as they are.
-/

namespace Scriptlet.Json

set_option autoImplicit false

variable {ε : Type}

/-- A character of a string. -/
def writeChar (c : Char) : List Char :=
  if c = '"' then ['\\', '"']
  else if c = '\\' then ['\\', '\\']
  else if c = '\n' then ['\\', 'n']
  else if c = '\r' then ['\\', 'r']
  else if c = '\t' then ['\\', 't']
  else if c = '\x0c' then ['\\', 'f']
  else if c = '\x08' then ['\\', 'b']
  else if c.toNat < 0x20 then '\\' :: 'u' :: Text.hexDigits 4 c.toNat
  else [c]

/-- A string between quotes. -/
def writeString (s : String) : String :=
  String.ofList ('"' :: s.toList.flatMap writeChar ++ ['"'])

/-- A number with a fraction. -/
def writeDouble (x : Decimal.Double) : String :=
  match x with
  | .nan => "NaN"
  | .infinite negative => if negative then "-Infinity" else "Infinity"
  | _ => x.text

/-- A key, which is always written as a string. -/
def writeKey : Data ε → Except Breakdown String
  | .str s => .ok (writeString s)
  | .null => .ok (writeString "null")
  | .bool b => .ok (writeString (if b then "true" else "false"))
  | .int n => .ok (writeString (Numeral.ofInt n))
  | .float x => .ok (writeString (writeDouble x))
  | d => .error (.notJsonKey d.typeName)

/-- How a document is laid out: in one line if there is no level, else by levels of nesting. -/
abbrev Layout := Option Nat

/-- The layout one level further in. -/
def Layout.deeper (l : Layout) : Layout :=
  l.map (· + 1)

/-- What stands in front of the first part of a list or object, or behind its last. -/
def Layout.edge : Layout → String
  | none => ""
  | some n => "\n" ++ String.ofList (List.replicate (2 * n) ' ')

/-- What stands between two parts. -/
def Layout.separator : Layout → String
  | none => ", "
  | some n => "," ++ Layout.edge (some n)

mutual

/-- A datum in a layout. -/
def write (l : Layout) : Data ε → Except Breakdown String
  | .null => .ok "null"
  | .bool b => .ok (if b then "true" else "false")
  | .int n => .ok (Numeral.ofInt n)
  | .float x => .ok (writeDouble x)
  | .str s => .ok (writeString s)
  | .list [] => .ok "[]"
  | .list (d :: ds) => do
    let items ← writeItems l.deeper (d :: ds)
    return "[" ++ l.deeper.edge ++ String.intercalate l.deeper.separator items ++ l.edge ++ "]"
  | .map [] => .ok "\x7b\x7d"
  | .map (e :: es) => do
    let entries ← writeEntries l.deeper (e :: es)
    return "\x7b" ++ l.deeper.edge ++ String.intercalate l.deeper.separator entries ++ l.edge ++
      "\x7d"
  | d => .error (.notJson d.typeName)

/-- The items of a list. -/
def writeItems (l : Layout) : List (Data ε) → Except Breakdown (List String)
  | [] => .ok []
  | d :: ds => do
    let item ← write l d
    return item :: (← writeItems l ds)

/-- The entries of a map. -/
def writeEntries (l : Layout) : List (Data ε × Data ε) → Except Breakdown (List String)
  | [] => .ok []
  | (k, d) :: es => do
    let key ← writeKey k
    let datum ← write l d
    return (key ++ ": " ++ datum) :: (← writeEntries l es)

end

end Scriptlet.Json
