import Scriptlet.Scope
import Scriptlet.Store

/-!
# Paths to slots

What stands left of an assignment, or in front of the arguments of a call, is a path: a name in
the scope, followed by names of fields.  Parentheses around any part of it do not count.  A step
that is no name cannot be followed; it is reported only once the steps before it have been.

A path may lead through shared objects.  A change at its end is then a change of the last shared
object that it passes, and all before it stays as it was.
-/

namespace Scriptlet

set_option autoImplicit false

variable {ε : Type}

/-- One step of a path: a name, or an expression that cannot be followed. -/
inductive Step where
  | name (name : String)
  | other (text : String)
deriving DecidableEq, Repr

/-- A path has at least one step. -/
structure Path where
  first : Step
  rest : List Step
deriving DecidableEq, Repr

namespace Path

/-- The path of a single name. -/
def name (n : String) : Path := ⟨.name n, []⟩

/-- One path after the other. -/
def append (p q : Path) : Path :=
  ⟨p.first, p.rest ++ q.first :: q.rest⟩

end Path

/-- What a node is called when it is no path: its text, if it is known, or else its form. -/
def Node.lvalueText (loc : Option Location) (form : Form) : String :=
  match loc.bind (·.text) with
  | none => form.label
  | some text => if text = "" then form.label else text

/-- The path that an expression denotes. -/
def Node.path : Node → Path
  | ⟨_, .ident name⟩ => .name name
  | ⟨_, .group expr⟩ => expr.path
  | ⟨_, .member object member⟩ => object.path.append member.path
  | ⟨loc, form⟩ => ⟨.other (lvalueText loc form), []⟩

/-- The slot that a step leads to, where `find` looks names up. -/
def Step.follow {α : Type} (find : String → Option α) : Step → Except Cause α
  | name n =>
    match find n with
    | some slot => .ok slot
    | none => .error (.unbound n)
  | other text => .error (.notLvalue text)

namespace Slot

/-- The slot that the steps lead to from here, through fields of objects. -/
def resolve (store : Store ε) : List Step → Slot ε → Except Cause (Slot ε)
  | [], slot => .ok slot
  | step :: rest, slot =>
    match slot.value.fields? store with
    | some fields => do resolve store rest (← step.follow (Fields.find? · fields))
    | none => .error .notObject

end Slot

/-- What a change along a path leaves: a slot in the place of the one where the path starts, or a
store in which a shared object has changed. -/
inductive Change (ε : Type) where
  | slot (s : Slot ε)
  | store (s : Store ε)

namespace Slot

/-- The change of the slot that the steps lead to from here by `f`. -/
def modify (store : Store ε) (f : Slot ε → Except Failure (Slot ε)) :
    List Step → Slot ε → Except Failure (Change ε)
  | [], slot => (f slot).map .slot
  | step :: rest, slot =>
    match slot.value with
    | .object fields => do
      let field ← (step.follow (Fields.find? · fields)).mapError .error
      match ← modify store f rest field with
      | .slot changed => .ok (.slot { slot with value := .object (Fields.put changed fields) })
      | .store changed => .ok (.store changed)
    | .shared _ place => do
      let fields := store.fields place
      let field ← (step.follow (Fields.find? · fields)).mapError .error
      match ← modify store f rest field with
      | .slot changed => .ok (.store (store.setFields place (Fields.put changed fields)))
      | .store changed => .ok (.store changed)
    | _ => .error (.error .notObject)

end Slot

namespace Scope

/-- The slot that a path leads to. -/
def resolve (s : Scope ε) (store : Store ε) (path : Path) : Except Cause (Slot ε) := do
  Slot.resolve store path.rest (← path.first.follow s.find?)

/-- The scope and the store with the slot that a path leads to changed by `f`. -/
def modify (s : Scope ε) (store : Store ε) (path : Path)
    (f : Slot ε → Except Failure (Slot ε)) : Except Failure (Scope ε × Store ε) := do
  let slot ← (path.first.follow s.find?).mapError .error
  match ← slot.modify store f path.rest with
  | .slot changed => .ok (s.replace changed, store)
  | .store changed => .ok (s, changed)

/-- The scope and the store with a new value in the slot that a path leads to. -/
def assign (s : Scope ε) (store : Store ε) (path : Path) (v : Value ε) :
    Except Failure (Scope ε × Store ε) :=
  s.modify store path fun slot => (slot.assign v).mapError .error

end Scope

end Scriptlet
