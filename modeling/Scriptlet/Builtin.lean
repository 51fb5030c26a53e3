import Scriptlet.World

/-!
# Standard functions

`log` and `emit` send a message, `type_of` and `to_string` look at a value, `length` counts the
characters of a string, and `throw` ends the program with an error.
-/

namespace Scriptlet.Builtin

set_option autoImplicit false

variable {ε σ : Type}

/-- All standard functions, in the order of their names. -/
def all : List Builtin :=
  [emit, length, log, throw, toString, typeOf]

/-- The name of a standard function. -/
def name : Builtin → String
  | emit => "emit"
  | length => "length"
  | log => "log"
  | throw => "throw"
  | toString => "to_string"
  | typeOf => "type_of"

/-- The number of arguments of a standard function. -/
def arity : Builtin → Option Nat
  | emit | log => none
  | _ => some 1

/-- A standard function as a value. -/
def function (b : Builtin) : Function ε :=
  ⟨.builtin b, b.arity, b.name⟩

/-- The texts of values with a space between them. -/
def message (args : List (Value ε)) : String :=
  String.intercalate " " (args.map (·.text))

/-- Runs a standard function. -/
def run : Builtin → List (Value ε) → Exec ε σ (Value ε)
  | log, args => do
    Exec.emit ⟨["stdout"], message args⟩
    pure .null
  | emit, topic :: args => do
    Exec.emit ⟨[topic.text], message args⟩
    pure .null
  | emit, [] => Exec.fail (.tooFew 1 0)
  | typeOf, v :: _ => pure (.string v.typeName)
  | toString, v :: _ => pure (.string v.text)
  | length, .string s :: _ => pure (.number s.length)
  | length, _ :: _ => Exec.fail .expectedString
  | throw, v :: _ => Exec.fail (.thrown v.text)
  | _, [] => Exec.fail (.wrongCount 1 0)

end Scriptlet.Builtin
