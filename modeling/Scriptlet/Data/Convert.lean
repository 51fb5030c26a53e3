import Scriptlet.Data
import Scriptlet.Host
import Scriptlet.Scope

/-!
# Between data and values

A datum becomes a value if it is a scalar that the language has, or a map of such data under
different names; an object becomes a map again.  On this conversion rest the functions of the host
that work on plain data.
-/

namespace Scriptlet

set_option autoImplicit false

variable {ε σ : Type}

namespace Data

/-- The number of an integer. -/
def numberOf (n : Int) : Except Failure (Value ε) :=
  if Numeral.isWide n then .error (.breakdown .wideInteger)
  else if Literal.inRange n then .ok (.number n)
  else .error (.error (.outOfRange (Numeral.ofInt n)))

mutual

/-- The value of a datum; the fields of its objects are all variable or all constant. -/
def toValue (isMutable : Bool) : Data ε → Except Failure (Value ε)
  | null => .ok .null
  | bool b => .ok (.boolean b)
  | int n => numberOf n
  | str s => .ok (.string s)
  | map entries => do return .object (← toFields isMutable entries [])
  | value v => .ok v
  | callable e name => .ok (.function ⟨.host e, none, name⟩)
  | float _ => .error (.error (.cannotImport "float"))
  | list _ => .error (.error (.cannotImport "list"))
  | foreign f => .error (.error (.cannotImport f.typeName))
  | endless => .error (.breakdown .callDepth)

/-- The fields of the entries of a map, added to those before them. -/
def toFields (isMutable : Bool) :
    List (Data ε × Data ε) → List (Slot ε) → Except Failure (List (Slot ε))
  | [], fields => .ok fields
  | (key, datum) :: rest, fields => do
    let name ← key.name.mapError .breakdown
    let v ← toValue isMutable datum
    let fields ← (Fields.define ⟨name, isMutable, v⟩ fields).mapError .error
    toFields isMutable rest fields

end

end Data

namespace Value

mutual

/-- The datum of a value; functions and shared objects stay as they are. -/
def toData : Value ε → Data ε
  | number n => .int n
  | boolean b => .bool b
  | string s => .str s
  | null => .null
  | object fields => .map (toEntries fields)
  | function f => .value (.function f)
  | shared holder place => .value (.shared holder place)

/-- The entries of the fields of an object. -/
def toEntries : List (Slot ε) → List (Data ε × Data ε)
  | [] => []
  | ⟨name, _, value⟩ :: rest => (.str name, toData value) :: toEntries rest

end

end Value

/-- The datum of a value that may already be one; what is none has no export. -/
def Data.exported : Data ε → Except Cause (Data ε)
  | .value v => .ok v.toData
  | d => .error (.cannotExport d.describe)

/-- How host code on plain data ends. -/
inductive Answer (ε : Type) where
  | data (d : Data ε)
  /-- An error of the language. -/
  | error (cause : Cause)
  /-- A complaint about the type or the value of an argument. -/
  | complaint (kind message : String)
  /-- Any other exception. -/
  | exception (kind message : String)
  /-- The answer is that of another call, in an empty scope. -/
  | call (f : Function ε) (args : List (Value ε))

/-- The reply of a function on plain data.  If `tolerant`, its complaints are type errors of the
program; otherwise they escape like any exception. -/
def Answer.reply (tolerant : Bool) : Answer ε → Reply ε
  | data d =>
    match d.toValue false with
    | .ok v => .value v
    | .error f => .fail f
  | error cause => .fail (.error cause)
  | complaint kind message =>
    if tolerant then .fail (.error (.raised .type message))
    else .fail (.breakdown (.exception kind message))
  | exception kind message => .fail (.breakdown (.exception kind message))
  | call f args => .callAlone f args

/-- Refuses fewer arguments than a function of any number of arguments needs. -/
def Reply.requiring (required : Nat) (args : List (Value ε)) (reply : Reply ε) : Reply ε :=
  if args.length < required then .fail (.error (.tooFew required args.length)) else reply

end Scriptlet
