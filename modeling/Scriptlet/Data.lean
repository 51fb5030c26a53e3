import Scriptlet.Calendar
import Scriptlet.Decimal.Shortest
import Scriptlet.Text.Bytes
import Scriptlet.Value.Printer

/-!
# Plain data

The data that a host and a program exchange and that documents hold: scalars, lists and maps.  A
map keeps its entries in the order in which their keys first came, and its keys are data too.  A
host may also pass a value of the language through unchanged, and functions of its own.  A document
may hold data that contain themselves; where they come back to a part around them, they are endless.
-/

namespace Scriptlet

set_option autoImplicit false

/-- Data that a document may hold and the language has no use for.  Of sets and pairs only their
being there matters. -/
inductive Foreign where
  | bytes (content : List UInt8)
  | date (d : Date)
  | moment (m : Moment)
  | set
  | pair
deriving DecidableEq, Repr

namespace Foreign

/-- The name of a type of data. -/
def typeName : Foreign → String
  | bytes _ => "bytes"
  | date _ => "date"
  | moment _ => "datetime"
  | set => "set"
  | pair => "tuple"

/-- Data as text. -/
def text : Foreign → String
  | bytes content => Text.quotedBytes content
  | date d => d.text
  | moment m => m.text
  | set => "set()"
  | pair => "()"

/-- Whether two keys are the same entry of a map. -/
def same : Foreign → Foreign → Bool
  | bytes a, bytes b => a == b
  | date a, date b => a == b
  | moment a, moment b => a.same b
  | _, _ => false

end Foreign

/-- Plain data; `ε` is the type of the host's functions. -/
inductive Data (ε : Type) where
  | null
  | bool (b : Bool)
  | int (n : Int)
  | float (x : Decimal.Double)
  | str (s : String)
  | list (items : List (Data ε))
  | map (entries : List (Data ε × Data ε))
  | foreign (f : Foreign)
  | value (v : Value ε)
  | callable (e : ε) (name : String)
  /-- A reference to a list or map around it. -/
  | endless

instance {ε : Type} : Inhabited (Data ε) := ⟨.null⟩

namespace Data

variable {ε : Type}

/-- The name of a type of data. -/
def typeName : Data ε → String
  | null => "NoneType"
  | bool _ => "bool"
  | int _ => "int"
  | float _ => "float"
  | str _ => "str"
  | list _ => "list"
  | map _ => "dict"
  | foreign f => f.typeName
  | value v =>
    match v.variant with
    | .number => "Number"
    | .boolean => "Boolean"
    | .string => "String"
    | .null => "Null"
    | .object => "Object"
    | .function => "Subroutine"
  | callable _ _ => "function"
  | endless => "dict"

/-- The integer that a key counts as, if it is a number without fraction. -/
def keyInt? : Data ε → Option Int
  | bool b => some (if b then 1 else 0)
  | int n => some n
  | float x => x.toInt?
  | _ => none

/-- Whether two keys are the same entry of a map.  Numbers of any type are compared as numbers. -/
def sameKey (a b : Data ε) : Bool :=
  match a.keyInt?, b.keyInt? with
  | some m, some n => m == n
  | none, none =>
    match a, b with
    | null, null => true
    | float x, float y => x.sameNumber y
    | str s, str t => s == t
    | foreign f, foreign g => f.same g
    | _, _ => false
  | _, _ => false

/-- Sets an entry: in the place of the one with the same key, whose key stays, or at the end. -/
def insert (key datum : Data ε) : List (Data ε × Data ε) → List (Data ε × Data ε)
  | [] => [(key, datum)]
  | (k, d) :: rest => if k.sameKey key then (k, datum) :: rest else (k, d) :: insert key datum rest

/-- The map of the given entries, where a later entry replaces an earlier one of the same key. -/
def ofEntries (entries : List (Data ε × Data ε)) : Data ε :=
  map (entries.foldl (fun m e => insert e.1 e.2 m) [])

mutual

/-- Data as text that tells strings from other scalars. -/
def describe : Data ε → String
  | null => "None"
  | bool b => if b then "True" else "False"
  | int n => Numeral.ofInt n
  | float x => x.text
  | str s => Text.quoted s
  | list items => "[" ++ String.intercalate ", " (describeItems items) ++ "]"
  | map entries => "\x7b" ++ String.intercalate ", " (describeEntries entries) ++ "\x7d"
  | foreign f => f.text
  | value v => v.describe
  | callable _ name => "<function " ++ name ++ ">"
  | endless => "..."

/-- The items of a list as text. -/
def describeItems : List (Data ε) → List String
  | [] => []
  | d :: rest => describe d :: describeItems rest

/-- The entries of a map as text. -/
def describeEntries : List (Data ε × Data ε) → List String
  | [] => []
  | (k, d) :: rest => (describe k ++ ": " ++ describe d) :: describeEntries rest

end

mutual

/-- Refuses data that cannot be shown in full: those that contain themselves, and integers of too
many digits. -/
def checkShown : Data ε → Except Breakdown Unit
  | endless => .error .callDepth
  | int n => if Numeral.isWide n then .error .wideInteger else .ok ()
  | list items => checkItems items
  | map entries => checkEntries entries
  | _ => .ok ()

/-- Refuses the items of a list of which one cannot be shown. -/
def checkItems : List (Data ε) → Except Breakdown Unit
  | [] => .ok ()
  | d :: rest => do
    checkShown d
    checkItems rest

/-- Refuses the entries of a map of which one cannot be shown. -/
def checkEntries : List (Data ε × Data ε) → Except Breakdown Unit
  | [] => .ok ()
  | (k, d) :: rest => do
    checkShown k
    checkShown d
    checkEntries rest

end

/-- Data as plain text: strings as they are. -/
def text : Data ε → String
  | str s => s
  | value v => v.text
  | d => d.describe

/-- The name that a key becomes when its map becomes an object: its text, unless it is an integer of
too many digits. -/
def name : Data ε → Except Breakdown String
  | int n => if Numeral.isWide n then .error .wideInteger else .ok (Numeral.ofInt n)
  | d => .ok d.text

end Data

end Scriptlet
