import Scriptlet.Value
import Scriptlet.Value.Printer

/-!
# Scopes

A scope is a stack of frames, each a list of slots with different names in the order of their
definition.  A name means the slot of the innermost frame that has it; definitions go to the top
frame.  `items` lists what is visible: the names in the order in which they first appear from the
outermost frame inwards, each with the slot that look-up finds.
-/

namespace Scriptlet

set_option autoImplicit false

variable {ε : Type}

namespace Fields

/-- The slot of a name. -/
def find? (name : String) (fields : List (Slot ε)) : Option (Slot ε) :=
  List.find? (·.name == name) fields

/-- Whether a name has a slot. -/
def has (name : String) (fields : List (Slot ε)) : Bool :=
  fields.any (·.name == name)

/-- Puts a slot in the place of the one of the same name, or at the end. -/
def put (slot : Slot ε) : List (Slot ε) → List (Slot ε)
  | [] => [slot]
  | s :: rest => if s.name == slot.name then slot :: rest else s :: put slot rest

/-- Adds a slot of a new name at the end. -/
def define (slot : Slot ε) (fields : List (Slot ε)) : Except Cause (List (Slot ε)) :=
  if has slot.name fields then .error (.alreadyDefined slot.name) else .ok (fields ++ [slot])

/-- The slots defined one after the other. -/
def defineAll (slots : List (Slot ε)) (fields : List (Slot ε)) :
    Except Cause (List (Slot ε)) :=
  slots.foldlM (fun fields slot => define slot fields) fields

end Fields

/-- The object of the given fields, all constant or all variable. -/
def Value.record (isMutable : Bool) (fields : List (String × Value ε)) : Except Cause (Value ε) :=
  (Fields.defineAll (fields.map fun f => ⟨f.1, isMutable, f.2⟩) []).map .object

/-- A stack of frames: the top one and those around it, the nearest first. -/
structure Scope (ε : Type) where
  top : List (Slot ε)
  outer : List (List (Slot ε))

namespace Scope

/-- The scope of one empty frame. -/
def empty : Scope ε := ⟨[], []⟩

/-- The frames, innermost first. -/
def frames (s : Scope ε) : List (List (Slot ε)) :=
  s.top :: s.outer

/-- The number of frames. -/
def depth (s : Scope ε) : Nat :=
  s.frames.length

/-- A scope with a new empty frame on top. -/
def push (s : Scope ε) : Scope ε :=
  ⟨[], s.frames⟩

/-- The scope without its top frame; the last frame stays. -/
def pop (s : Scope ε) : Scope ε :=
  match s.outer with
  | [] => s
  | frame :: rest => ⟨frame, rest⟩

/-- Whether the top frame has a name. -/
def hasOnTop (s : Scope ε) (name : String) : Bool :=
  Fields.has name s.top

/-- Whether some frame has a name. -/
def has (s : Scope ε) (name : String) : Bool :=
  s.frames.any (Fields.has name)

/-- The slot that a name means. -/
def find? (s : Scope ε) (name : String) : Option (Slot ε) :=
  s.frames.findSome? (Fields.find? name)

/-- The slot that a name means, or an error. -/
def get (s : Scope ε) (name : String) : Except Cause (Slot ε) :=
  match s.find? name with
  | some slot => .ok slot
  | none => .error (.unbound name)

/-- Puts a slot into the top frame, whether or not the name is taken. -/
def set (s : Scope ε) (slot : Slot ε) : Scope ε :=
  { s with top := Fields.put slot s.top }

/-- Adds a slot of a new name to the top frame. -/
def define (s : Scope ε) (slot : Slot ε) : Except Cause (Scope ε) :=
  (Fields.define slot s.top).map fun top => { s with top }

/-- Puts a slot into the innermost of the frames that has its name. -/
def replaceIn (slot : Slot ε) : List (List (Slot ε)) → List (List (Slot ε))
  | [] => []
  | frame :: rest =>
    if Fields.has slot.name frame then Fields.put slot frame :: rest
    else frame :: replaceIn slot rest

/-- Puts a slot where its name is found. -/
def replace (s : Scope ε) (slot : Slot ε) : Scope ε :=
  if s.hasOnTop slot.name then { s with top := Fields.put slot s.top }
  else { s with outer := replaceIn slot s.outer }

/-- The visible slots, outermost names first. -/
def items (s : Scope ε) : List (Slot ε) :=
  s.frames.reverse.foldl (fun seen frame => frame.foldl (fun seen slot => Fields.put slot seen) seen) []

/-- The visible names. -/
def names (s : Scope ε) : List String :=
  s.items.map (·.name)

/-- The number of visible names. -/
def size (s : Scope ε) : Nat :=
  s.names.length

/-- Whether two scopes show equal slots under the same names. -/
def same [BEq ε] (s t : Scope ε) : Bool :=
  s.items.length == t.items.length && Value.sameFields s.items t.items

/-- A scope as the number of its frames and its visible slots. -/
def describe (s : Scope ε) : String :=
  describeScope s.depth (Value.describeFields s.items)

/-- The object whose fields are the visible slots. -/
def toObject (s : Scope ε) : Value ε :=
  .object s.items

/-- The scope in which a function body runs: its parameters, as constants. -/
def ofParams (params : List String) (args : List (Value ε)) : Scope ε :=
  (params.zip args).foldl (fun s p => s.set ⟨p.1, false, p.2⟩) empty

end Scope

end Scriptlet
