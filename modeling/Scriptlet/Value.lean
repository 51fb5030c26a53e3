import Scriptlet.Error
import Scriptlet.Literal
import Scriptlet.Syntax

/-!
# Values

A value is a number, a boolean, a string, null, an object or a function.  An object is a list
of named slots, each of them constant or variable.  A function is a script function, one of the
standard functions, or a function of the host: `ε` is the type of the host's functions, and a
language without a host takes `Empty`.

Values are trees.  Runs by reference, in which objects are cells of a heap, are in `Machine`; that
they show runs on trees rests on the fact that a program by itself never makes two slots share an
object.  Only a function of the host can, by keeping an object and handing it out as well.  Such an
object stands in a store, and its slots hold the function that shared it and its place there.

A function is identified by its callback: each declaration that is executed makes a callback of
its own, numbered by the order of their making.
-/

namespace Scriptlet

set_option autoImplicit false

/-- The standard functions. -/
inductive Builtin where
  | emit | length | log | throw | toString | typeOf
deriving DecidableEq, Repr, Inhabited

/-- What a function declaration says. -/
structure ScriptFunction where
  name : String
  params : List String
  body : Block
  source : String

/-- What runs when a function is called. -/
inductive Callback (ε : Type) where
  | script (id : Nat) (function : ScriptFunction)
  | builtin (b : Builtin)
  | host (e : ε)

/-- A callback, the number of arguments it takes (any number if `none`) and a name. -/
structure Function (ε : Type) where
  callback : Callback ε
  arity : Option Nat
  name : String

mutual

/-- The values of the language. -/
inductive Value (ε : Type) where
  | number (n : Int)
  | boolean (b : Bool)
  | string (s : String)
  | null
  | object (fields : List (Slot ε))
  | function (f : Function ε)
  /-- The object at a place of the store, shared by a function of the host. -/
  | shared (holder : ε) (place : Nat)

/-- A named place for a value. -/
structure Slot (ε : Type) where
  name : String
  isMutable : Bool
  value : Value ε

end

instance {ε : Type} : Inhabited (Value ε) := ⟨.null⟩

instance {ε : Type} : Inhabited (Slot ε) := ⟨⟨"", false, .null⟩⟩

/-- The sorts of values. -/
inductive Variant where
  | number | boolean | string | null | object | function
deriving DecidableEq, Repr, Inhabited

namespace Callback

variable {ε : Type}

/-- Whether two callbacks are one and the same. -/
def same [BEq ε] : Callback ε → Callback ε → Bool
  | script i _, script j _ => i == j
  | builtin b, builtin c => b == c
  | host e, host f => e == f
  | _, _ => false

end Callback

namespace Function

variable {ε : Type}

/-- Whether two functions have the same callback and take the same number of arguments. -/
def same [BEq ε] (f g : Function ε) : Bool :=
  f.callback.same g.callback && f.arity == g.arity

end Function

namespace Value

variable {ε : Type}

/-- The sort of a value. -/
def variant : Value ε → Variant
  | number _ => .number
  | boolean _ => .boolean
  | string _ => .string
  | null => .null
  | object _ => .object
  | function _ => .function
  | shared _ _ => .object

/-- The name of a sort in the language. -/
def typeName (v : Value ε) : String :=
  match v.variant with
  | .number => "number"
  | .boolean => "boolean"
  | .string => "string"
  | .null => "null"
  | .object => "object"
  | .function => "function"

/-- Whether two values are of the same sort. -/
def sameType (v w : Value ε) : Bool :=
  v.variant == w.variant

mutual

/-- Whether two values are equal.  The order of fields does not count, their flags do. -/
def same [BEq ε] : Value ε → Value ε → Bool
  | number m, number n => m == n
  | boolean b, boolean c => b == c
  | string s, string t => s == t
  | null, null => true
  | object fs, object gs => fs.length == gs.length && sameFields fs gs
  | function f, function g => f.same g
  | shared _ p, shared _ q => p == q
  | _, _ => false

/-- Whether every field of a list has an equal field in the other. -/
def sameFields [BEq ε] : List (Slot ε) → List (Slot ε) → Bool
  | [], _ => true
  | ⟨name, isMutable, value⟩ :: rest, gs =>
    (match gs.find? (·.name == name) with
      | some g => isMutable == g.isMutable && same value g.value
      | none => false) && sameFields rest gs

end

/-- The text of a value when it is logged, thrown or turned into a string.  Numbers have no more than
`Numeral.digitLimit` digits: there is no text for a longer integer, and the language has none. -/
def text : Value ε → String
  | number n => Numeral.ofInt n
  | boolean true => "true"
  | boolean false => "false"
  | string s => s
  | null => "null"
  | object _ => "[object]"
  | function _ => "[function]"
  | shared _ _ => "[object]"

end Value

namespace Slot

variable {ε : Type}

/-- Whether two slots have equal values and the same flag; their names do not count. -/
def same [BEq ε] (s t : Slot ε) : Bool :=
  s.isMutable == t.isMutable && s.value.same t.value

/-- The slot with a new value: of the same sort as the old one, and only if it is variable. -/
def assign (s : Slot ε) (v : Value ε) : Except Cause (Slot ε) :=
  if !s.value.sameType v then .error .typeMismatch
  else if !s.isMutable then .error .constantBinding
  else .ok { s with value := v }

end Slot

end Scriptlet
