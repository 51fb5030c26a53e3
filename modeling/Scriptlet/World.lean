import Scriptlet.Fault
import Scriptlet.Scope.Path

/-!
# The state of a run

A run reads and changes a `World`: the scope, the objects that the host shares, the node visited
last, the effects so far, the number of functions made, and whatever state the host keeps.  The
state survives a failure: what was done before it stays done.
-/

namespace Scriptlet

set_option autoImplicit false

/-- A message that a program sends to the outside. -/
structure Effect where
  topics : List String
  message : String
deriving DecidableEq, Repr

/-- What a run can read and change. -/
structure World (ε σ : Type) where
  scope : Scope ε
  store : Store ε
  visited : Option Node
  effects : List Effect
  made : Nat
  host : σ

/-- A computation on the world that may fail. -/
abbrev Exec (ε σ α : Type) : Type :=
  ExceptT (Fault ε) (StateM (World ε σ)) α

namespace World

variable {ε σ : Type}

/-- A world in which nothing has happened yet. -/
def initial (host : σ) : World ε σ :=
  ⟨.empty, .empty, none, [], 0, host⟩

end World

namespace Exec

variable {ε σ α : Type}

/-- The outcome of a computation and the world after it. -/
def outcome (x : Exec ε σ α) (w : World ε σ) : Except (Fault ε) α × World ε σ :=
  (ExceptT.run x).run w

/-- A computation given by its outcomes. -/
def ofOutcome (f : World ε σ → Except (Fault ε) α × World ε σ) : Exec ε σ α :=
  ExceptT.mk fun w => pure (f w)

/-- Fails with an error of the language. -/
def fail (cause : Cause) : Exec ε σ α :=
  throw (.ofCause cause)

/-- Fails outside the language. -/
def breakDown (b : Breakdown) : Exec ε σ α :=
  throw (.breakdown b)

/-- The result of an operation that may have an error. -/
def ofExcept : Except Cause α → Exec ε σ α
  | .ok a => pure a
  | .error cause => fail cause

/-- The result of an operation that may fail. -/
def ofFailing : Except Failure α → Exec ε σ α
  | .ok a => pure a
  | .error f => throw (.ofFailure f)

/-- The result of an operation that may break down. -/
def ofBreaking : Except Breakdown α → Exec ε σ α
  | .ok a => pure a
  | .error b => breakDown b

/-- Changes the failure of a computation, in view of the store that it leaves. -/
def adapt (f : Store ε → Fault ε → Fault ε) (x : Exec ε σ α) : Exec ε σ α :=
  ofOutcome fun w =>
    match x.outcome w with
    | (.ok a, w) => (.ok a, w)
    | (.error e, w) => (.error (f w.store e), w)

/-- Gives the errors of a computation a place. -/
def located (loc : Option Location) (x : Exec ε σ α) : Exec ε σ α :=
  adapt (fun _ => Fault.attach loc) x

/-- Notes the node that is visited. -/
def visit (node : Node) : Exec ε σ Unit :=
  modify fun w => { w with visited := some node }

/-- Sends a message. -/
def emit (effect : Effect) : Exec ε σ Unit :=
  modify fun w => { w with effects := w.effects ++ [effect] }

/-- The slot that a path leads to. -/
def resolve (path : Path) : Exec ε σ (Slot ε) := do
  let w ← get
  ofExcept (w.scope.resolve w.store path)

/-- A copy of a value, which shares nothing. -/
def copy (v : Value ε) : Exec ε σ (Value ε) := do
  ofBreaking ((← get).store.copy v)

/-- Copies of values, which share nothing. -/
def copyAll (vs : List (Value ε)) : Exec ε σ (List (Value ε)) := do
  ofBreaking ((← get).store.copyAll vs)

/-- A copy of the value that a path leads to. -/
def read (path : Path) : Exec ε σ (Value ε) := do
  copy (← resolve path).value

/-- Adds a slot to the top frame. -/
def define (slot : Slot ε) : Exec ε σ Unit := do
  let w ← get
  let scope ← ofExcept (w.scope.define slot)
  set { w with scope }

/-- Changes the slot that a path leads to. -/
def modifySlot (path : Path) (f : Slot ε → Except Failure (Slot ε)) : Exec ε σ Unit := do
  let w ← get
  let (scope, store) ← ofFailing (w.scope.modify w.store path f)
  set { w with scope, store }

/-- The number of a new function. -/
def fresh : Exec ε σ Nat := do
  let w ← get
  set { w with made := w.made + 1 }
  pure w.made

/-- Runs with one more frame on the scope, which is gone afterwards. -/
def nested (x : Exec ε σ α) : Exec ε σ α :=
  ofOutcome fun w =>
    let r := x.outcome { w with scope := w.scope.push }
    (r.1, { r.2 with scope := r.2.scope.pop })

/-- Runs in another scope and comes back to this one, which stays as it was. -/
def isolated (scope : Scope ε) (x : Exec ε σ α) : Exec ε σ α :=
  ofOutcome fun w =>
    let r := x.outcome { w with scope, visited := none }
    (r.1, { r.2 with scope := w.scope, visited := w.visited })

end Exec

end Scriptlet
