import Scriptlet.Scope.Path

/-!
# Scopes by reference

A scope is a list of frames, a frame has slots by name, and a slot holds a value or, if the value is an
object, the scope of its fields.  Scopes, frames and slots stand in a heap, refer to each other by
address and are changed where they stand, so that a change shows wherever the address is known.  A nested
scope takes over the frames of the scope around it by address.  A copy makes every frame and every slot
anew, and every object inside.

No address leads to a cell of another kind than is expected there; what such a cell would count as does
not matter.
-/

namespace Scriptlet

set_option autoImplicit false

variable {ε : Type}

/-- What a slot holds: the scope of an object, or any other value. -/
inductive Held (ε : Type) where
  | value (v : Value ε)
  | object (scope : Nat)

/-- What stands at an address: a slot, a frame with the addresses of its slots in the order of their
definition, or a scope with the addresses of its frames, the top one apart. -/
inductive Cell (ε : Type) where
  | slot (isMutable : Bool) (held : Held ε)
  | frame (entries : List (String × Nat))
  | scope (top : Nat) (outer : List Nat)

/-- The sort of the value that is held. -/
def Held.variant : Held ε → Variant
  | value v => v.variant
  | object _ => .object

/-- Cells by address. -/
structure Heap (ε : Type) where
  cells : List (Cell ε)

namespace Heap

/-- Adds a cell, at the address that comes first. -/
def alloc (heap : Heap ε) (cell : Cell ε) : Nat × Heap ε :=
  (heap.cells.length, ⟨heap.cells ++ [cell]⟩)

/-- Puts a cell at an address. -/
def write (heap : Heap ε) (address : Nat) (cell : Cell ε) : Heap ε :=
  ⟨heap.cells.set address cell⟩

/-- The slot at an address. -/
def slot (heap : Heap ε) (address : Nat) : Bool × Held ε :=
  match heap.cells[address]? with
  | some (.slot isMutable held) => (isMutable, held)
  | _ => (false, .value .null)

/-- The entries of the frame at an address. -/
def frame (heap : Heap ε) (address : Nat) : List (String × Nat) :=
  match heap.cells[address]? with
  | some (.frame entries) => entries
  | _ => []

/-- The frames of the scope at an address. -/
def scope (heap : Heap ε) (address : Nat) : Nat × List Nat :=
  match heap.cells[address]? with
  | some (.scope top outer) => (top, outer)
  | _ => (address, [])

/-! ## Values -/

mutual

/-- Builds a value, with slots, a frame and a scope for every object in it. -/
def place (heap : Heap ε) : Value ε → Held ε × Heap ε
  | .object fields =>
    let (entries, heap) := heap.placeFields fields
    let (frame, heap) := heap.alloc (.frame entries)
    let (scope, heap) := heap.alloc (.scope frame [])
    (.object scope, heap)
  | v => (.value v, heap)

/-- Builds the slots of a frame. -/
def placeFields (heap : Heap ε) : List (Slot ε) → List (String × Nat) × Heap ε
  | [] => ([], heap)
  | ⟨name, isMutable, value⟩ :: rest =>
    let (held, heap) := heap.place value
    let (slot, heap) := heap.alloc (.slot isMutable held)
    let (entries, heap) := heap.placeFields rest
    ((name, slot) :: entries, heap)

end

/-- The slots of some entries, where `read` reads what they hold. -/
def readSlots (heap : Heap ε) (read : Held ε → Except Breakdown (Value ε)) :
    List (String × Nat) → Except Breakdown (List (Slot ε))
  | [] => .ok []
  | (name, address) :: rest => do
    let (isMutable, held) := heap.slot address
    let value ← read held
    let others ← heap.readSlots read rest
    .ok (⟨name, isMutable, value⟩ :: others)

end Heap

/-- The value that is held, where `readScope` reads the scope of an object. -/
def Held.read (readScope : Nat → Except Breakdown (Scope ε)) : Held ε → Except Breakdown (Value ε)
  | value v => .ok v
  | object scope => (readScope scope).map Scope.toObject

namespace Heap

/-- What the scope at an address shows, with at most `depth` scopes inside one another. -/
def readScope (heap : Heap ε) : (depth : Nat) → (address : Nat) → Except Breakdown (Scope ε)
  | 0, _ => .error .callDepth
  | depth + 1, address => do
    let (top, outer) := heap.scope address
    let read := Held.read (heap.readScope depth)
    let top ← heap.readSlots read (heap.frame top)
    let outer ← outer.mapM fun frame => heap.readSlots read (heap.frame frame)
    .ok ⟨top, outer⟩

end Heap

/-! ## Copies -/

/-- A copy of what is held, where `copyScope` copies the scope of an object. -/
def Held.clone (copyScope : Nat → Heap ε → Except Breakdown (Nat × Heap ε)) (held : Held ε)
    (heap : Heap ε) : Except Breakdown (Held ε × Heap ε) :=
  match held with
  | value v => .ok (value v, heap)
  | object scope => (copyScope scope heap).map fun copied => (object copied.1, copied.2)

namespace Heap

/-- New slots for some entries, where `clone` copies what they hold. -/
def copySlots (clone : Held ε → Heap ε → Except Breakdown (Held ε × Heap ε)) :
    List (String × Nat) → Heap ε → Except Breakdown (List (String × Nat) × Heap ε)
  | [], heap => .ok ([], heap)
  | (name, address) :: rest, heap => do
    let (isMutable, held) := heap.slot address
    let (held, heap) ← clone held heap
    let (slot, heap) := heap.alloc (.slot isMutable held)
    let (entries, heap) ← copySlots clone rest heap
    .ok ((name, slot) :: entries, heap)

/-- A new frame, like the one at an address. -/
def copyFrame (clone : Held ε → Heap ε → Except Breakdown (Held ε × Heap ε)) (address : Nat)
    (heap : Heap ε) : Except Breakdown (Nat × Heap ε) := do
  let (entries, heap) ← copySlots clone (heap.frame address) heap
  .ok (heap.alloc (.frame entries))

/-- New frames, like those at some addresses. -/
def copyFrames (clone : Held ε → Heap ε → Except Breakdown (Held ε × Heap ε)) :
    List Nat → Heap ε → Except Breakdown (List Nat × Heap ε)
  | [], heap => .ok ([], heap)
  | address :: rest, heap => do
    let (frame, heap) ← copyFrame clone address heap
    let (frames, heap) ← copyFrames clone rest heap
    .ok (frame :: frames, heap)

/-- A new scope, like the one at an address, with at most `depth` scopes inside one another. -/
def copyScope : (depth : Nat) → (address : Nat) → Heap ε → Except Breakdown (Nat × Heap ε)
  | 0, _, _ => .error .callDepth
  | depth + 1, address, heap => do
    let (top, outer) := heap.scope address
    let (top, heap) ← copyFrame (Held.clone (copyScope depth)) top heap
    let (outer, heap) ← copyFrames (Held.clone (copyScope depth)) outer heap
    .ok (heap.alloc (.scope top outer))

/-! ## Names -/

/-- The slot that a name means in a scope. -/
def find? (heap : Heap ε) (scope : Nat) (name : String) : Option Nat :=
  let (top, outer) := heap.scope scope
  (top :: outer).findSome? fun frame => (heap.frame frame).lookup name

/-- The slot that a name means in a scope, or an error. -/
def get (heap : Heap ε) (scope : Nat) (name : String) : Except Cause Nat :=
  match heap.find? scope name with
  | some slot => .ok slot
  | none => .error (.unbound name)

/-- Whether some frame of a scope has a name. -/
def has (heap : Heap ε) (scope : Nat) (name : String) : Bool :=
  let (top, outer) := heap.scope scope
  (top :: outer).any fun frame => ((heap.frame frame).lookup name).isSome

/-- The slot that the steps lead to from a slot, through fields of objects. -/
def walk (heap : Heap ε) : List Step → Nat → Except Cause Nat
  | [], slot => .ok slot
  | step :: rest, slot =>
    match (heap.slot slot).2 with
    | .object scope => do heap.walk rest (← step.follow (heap.find? scope))
    | .value _ => .error .notObject

/-- Puts a new value into a slot: of the same sort as the old one, and only if it is variable. -/
def setValue (heap : Heap ε) (held : Held ε) (address : Nat) : Except Cause (Heap ε) :=
  let (isMutable, old) := heap.slot address
  if !(old.variant == held.variant) then .error .typeMismatch
  else if !isMutable then .error .constantBinding
  else .ok (heap.write address (.slot isMutable held))

/-- Gives a name a new value in the slot that a path leads to. -/
def assign (heap : Heap ε) (scope : Nat) (path : Path) (held : Held ε) : Except Cause (Heap ε) := do
  let first ← path.first.follow (heap.find? scope)
  let slot ← heap.walk path.rest first
  heap.setValue held slot

/-- Puts an entry in the place of the one of the same name, or at the end. -/
def putEntry (name : String) (address : Nat) : List (String × Nat) → List (String × Nat)
  | [] => [(name, address)]
  | entry :: rest =>
    if entry.1 == name then (name, address) :: rest else entry :: putEntry name address rest

/-- The visible names of a scope with their slots, outermost names first. -/
def items (heap : Heap ε) (scope : Nat) : List (String × Nat) :=
  let (top, outer) := heap.scope scope
  (top :: outer).reverse.foldl
    (fun seen frame => (heap.frame frame).foldl (fun seen e => putEntry e.1 e.2 seen) seen) []

/-- The number of visible names of a scope. -/
def size (heap : Heap ε) (scope : Nat) : Nat :=
  (heap.items scope).length

/-- Puts a new slot into the top frame of a scope, whether or not the name is taken. -/
def set (heap : Heap ε) (scope : Nat) (name : String) (isMutable : Bool) (held : Held ε) : Heap ε :=
  let top := (heap.scope scope).1
  let (slot, heap) := heap.alloc (.slot isMutable held)
  heap.write top (.frame (putEntry name slot (heap.frame top)))

/-- Puts a new slot into the top frame of a scope, where its name is to be new. -/
def define (heap : Heap ε) (scope : Nat) (name : String) (isMutable : Bool) (held : Held ε) :
    Except Cause (Heap ε) :=
  if ((heap.frame (heap.scope scope).1).lookup name).isSome then .error (.alreadyDefined name)
  else .ok (heap.set scope name isMutable held)

/-- A new scope with an empty frame on top of the frames of another one. -/
def nest (heap : Heap ε) (scope : Nat) : Nat × Heap ε :=
  let (top, outer) := heap.scope scope
  let (frame, heap) := heap.alloc (.frame [])
  heap.alloc (.scope frame (top :: outer))

end Heap

/-! ## Scopes that are at hand -/

/-- A heap, and the scopes in it that are at hand. -/
structure Scopes (ε : Type) where
  heap : Heap ε
  handles : List Nat

namespace Scopes

/-- A single empty scope. -/
def single : Scopes ε := ⟨⟨[.frame [], .scope 0 []]⟩, [1]⟩

/-- What the scope of a handle shows.  As many scopes as there are cells can stand inside one another,
and no more unless an object holds itself. -/
def view? (s : Scopes ε) (handle : Nat) : Option (Scope ε) :=
  s.handles[handle]?.bind fun scope => (s.heap.readScope s.heap.cells.length scope).toOption

/-- Changes the heap through the scope of a handle. -/
def through (s : Scopes ε) (handle : Nat) (change : Nat → Except Cause (Heap ε)) :
    Except Cause (Scopes ε) :=
  match s.handles[handle]? with
  | some scope => (change scope).map fun heap => { s with heap }
  | none => .ok s

/-- Defines a name, with a value built for it. -/
def define (s : Scopes ε) (handle : Nat) (slot : Slot ε) : Except Cause (Scopes ε) :=
  s.through handle fun scope =>
    let (held, heap) := s.heap.place slot.value
    heap.define scope slot.name slot.isMutable held

/-- Sets a name, with a value built for it. -/
def set (s : Scopes ε) (handle : Nat) (slot : Slot ε) : Except Cause (Scopes ε) :=
  s.through handle fun scope =>
    let (held, heap) := s.heap.place slot.value
    .ok (heap.set scope slot.name slot.isMutable held)

/-- Assigns a value built for it to a name, or to a field of the object there. -/
def assign (s : Scopes ε) (handle : Nat) (path : Path) (v : Value ε) : Except Cause (Scopes ε) :=
  s.through handle fun scope =>
    let (held, heap) := s.heap.place v
    heap.assign scope path held

/-- Adds a scope nested in that of a handle; its handle is the number of scopes before. -/
def nest (s : Scopes ε) (handle : Nat) : Scopes ε :=
  match s.handles[handle]? with
  | some scope =>
    let (nested, heap) := s.heap.nest scope
    ⟨heap, s.handles ++ [nested]⟩
  | none => s

/-- Adds an independent copy of the scope of a handle. -/
def copy (s : Scopes ε) (handle : Nat) : Except Breakdown (Scopes ε) :=
  match s.handles[handle]? with
  | some scope => do
    let (copied, heap) ← Heap.copyScope s.heap.cells.length scope s.heap
    .ok ⟨heap, s.handles ++ [copied]⟩
  | none => .ok s

end Scopes

end Scriptlet
