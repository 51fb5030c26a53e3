import Scriptlet.Proofs.Moving
import Scriptlet.Proofs.Rewriting

/-!
# Values with other locations

The only locations in a value are those in the bodies of its script functions.  To move them is one way
to rewrite function bodies (`Rewriting.moving`).  A path that cannot be followed is reported with its
text, so a move keeps the text of every location.
-/

namespace Scriptlet

set_option autoImplicit false

variable {ε : Type}

/-! ## Values -/

/-- A script function whose locations are moved. -/
def ScriptFunction.moved (move : Location → Location) (f : ScriptFunction) : ScriptFunction :=
  { f with body := f.body.moved move }

/-- A callback whose locations are moved. -/
def Callback.moved (move : Location → Location) : Callback ε → Callback ε
  | script id function => script id (function.moved move)
  | builtin b => builtin b
  | host e => host e

/-- A function whose locations are moved. -/
def Function.moved (move : Location → Location) (f : Function ε) : Function ε :=
  { f with callback := f.callback.moved move }

namespace Value

mutual

/-- A value whose locations are moved. -/
def moved (move : Location → Location) : Value ε → Value ε
  | number n => number n
  | boolean b => boolean b
  | string s => string s
  | null => null
  | object fields => object (movedFields move fields)
  | function f => function (f.moved move)
  | shared holder place => shared holder place

/-- Fields whose locations are moved. -/
def movedFields (move : Location → Location) : List (Slot ε) → List (Slot ε)
  | [] => []
  | ⟨name, isMutable, value⟩ :: rest => ⟨name, isMutable, value.moved move⟩ :: movedFields move rest

end

end Value

/-- A slot whose locations are moved. -/
def Slot.moved (move : Location → Location) (s : Slot ε) : Slot ε :=
  { s with value := s.value.moved move }

/-- A scope whose locations are moved. -/
def Scope.moved (move : Location → Location) (s : Scope ε) : Scope ε :=
  ⟨s.top.map (Slot.moved move), s.outer.map (List.map (Slot.moved move))⟩

/-- A store whose locations are moved. -/
def Store.moved (move : Location → Location) (s : Store ε) : Store ε :=
  ⟨s.objects.map (List.map (Slot.moved move))⟩

/-! ## Moving is a rewriting -/

/-- The rewriting that moves every location of a tree. -/
def Rewriting.moving (move : Location → Location) : Rewriting :=
  ⟨move, Node.moved move⟩

variable {move : Location → Location}

theorem Block.moved_eq (body : Block) : body.moved move = (Rewriting.moving move).body body := by
  obtain ⟨loc, statements⟩ := body
  rw [moved, Node.movedAll_eq_map]
  rfl

/-- A move that keeps texts rewrites faithfully. -/
theorem Rewriting.moving_faithful (ht : ∀ loc, (move loc).text = loc.text) :
    (Rewriting.moving move).Faithful where
  text := ht
  node loc form := by
    left
    show Node.moved move ⟨loc, form⟩ = _
    rw [Node.moved, Form.moved_eq_map]
    rfl

theorem Function.moved_eq (f : Function ε) : f.moved move = f.rewritten (.moving move) := by
  obtain ⟨callback, arity, name⟩ := f
  cases callback with
  | script id function =>
    simp only [moved, rewritten, Callback.moved, Callback.rewritten, ScriptFunction.moved,
      ScriptFunction.rewritten, Block.moved_eq]
  | builtin b => rfl
  | host e => rfl

namespace Value

mutual

theorem moved_eq : (v : Value ε) → v.moved move = v.rewritten (.moving move)
  | number _ | boolean _ | string _ | null | shared _ _ => rfl
  | function f => congrArg function f.moved_eq
  | object fields => congrArg object (movedFields_eq fields)

theorem movedFields_eq : (fields : List (Slot ε)) →
    movedFields move fields = rewrittenFields (.moving move) fields
  | [] => rfl
  | ⟨name, isMutable, value⟩ :: rest => by
    rw [movedFields, rewrittenFields, moved_eq value, movedFields_eq rest]

end

end Value

theorem Slot.moved_eq : Slot.moved move = (Slot.rewritten (.moving move) : Slot ε → Slot ε) :=
  funext fun s => congrArg (Slot.mk s.name s.isMutable) s.value.moved_eq

theorem Scope.moved_eq (s : Scope ε) : s.moved move = s.rewritten (.moving move) := by
  rw [moved, rewritten, Slot.moved_eq]

theorem Store.moved_eq (s : Store ε) : s.moved move = s.rewritten (.moving move) := by
  rw [moved, rewritten, Slot.moved_eq]

end Scriptlet
