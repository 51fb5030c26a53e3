import Scriptlet.Eval
import Scriptlet.Parser

/-!
# Sessions

What a host does with an interpreter: define names, run sources one after the other in the same
scope, and call the functions that they leave behind.
-/

namespace Scriptlet.Session

set_option autoImplicit false

variable {ε σ : Type} [BEq ε]

/-- How many calls may be open at once. -/
def callLimit : Nat := 100

/-- The syntax tree of a source. -/
def parse (rule : Rule) (source : String) : Exec ε σ Node :=
  match Parser.parse rule source with
  | .ok node => pure node
  | .error m => throw (.error ⟨.malformed m, some m.loc, []⟩)

/-- How functions are called in a session. -/
def caller (host : Host ε σ) : Caller ε σ :=
  Eval.callFunction host callLimit

/-- The value of an expression given as text. -/
def runExpression (host : Host ε σ) (source : String) : Exec ε σ (Value ε) := do
  Eval.evaluate (caller host) (← parse .expression source)

/-- What a script given as text comes to. -/
def executeScript (host : Host ε σ) (source : String) : Exec ε σ (Outcome ε) := do
  Eval.execute (caller host) (← parse .script source)

/-- The value that a script given as text is worth. -/
def runScript (host : Host ε σ) (source : String) : Exec ε σ (Value ε) := do
  return (← executeScript host source).unwrap

/-- Defines a name in the top frame. -/
def define (name : String) (isMutable : Bool) (v : Value ε) : Exec ε σ Unit :=
  Exec.define ⟨name, isMutable, v⟩

/-- Gives a variable a new value. -/
def update (name : String) (v : Value ε) : Exec ε σ Unit :=
  Exec.modifySlot (.name name) fun slot => (slot.assign v).mapError .error

/-- Calls the function that a name means. -/
def call (host : Host ε σ) (name : String) (args : List (Value ε)) : Exec ε σ (Value ε) := do
  let f ← Exec.ofExcept (Eval.asFunction (← Exec.resolve (.name name)))
  Eval.invoke (caller host) f args none

/-- The slot that an expression given as text leads to. -/
def lvalue (source : String) : Exec ε σ (Slot ε) := do
  Exec.resolve (← parse .expression source).path

end Scriptlet.Session
