import Scriptlet.Value

/-!
# Shared objects

A function of the host may keep an object in a slot and hand it out as well; from then on several
slots share it, and a change made through one of them shows in all.  The store holds the fields of
such objects by their places.  A copy of a value shares nothing with it: it is a tree in which every
shared object is written out.

An object can come to hold itself, and then it has no copy.  Where there is no host, nothing is
shared, and every value is its own copy (`copy_eq_self`).
-/

namespace Scriptlet

set_option autoImplicit false

variable {ε : Type}

/-- The fields of the shared objects, by place. -/
structure Store (ε : Type) where
  objects : List (List (Slot ε))

namespace Value

mutual

/-- A copy of a value, where `fieldsAt` copies the fields of the shared object at a place. -/
def copyWith (fieldsAt : Nat → Except Breakdown (List (Slot ε))) :
    Value ε → Except Breakdown (Value ε)
  | number n => .ok (.number n)
  | boolean b => .ok (.boolean b)
  | string s => .ok (.string s)
  | null => .ok .null
  | object fields => (copyFieldsWith fieldsAt fields).map .object
  | function f => .ok (.function f)
  | shared _ place => (fieldsAt place).map .object

/-- A copy of fields. -/
def copyFieldsWith (fieldsAt : Nat → Except Breakdown (List (Slot ε))) :
    List (Slot ε) → Except Breakdown (List (Slot ε))
  | [] => .ok []
  | ⟨name, isMutable, value⟩ :: rest => do
    let copied ← copyWith fieldsAt value
    let others ← copyFieldsWith fieldsAt rest
    .ok (⟨name, isMutable, copied⟩ :: others)

end

mutual

/-- Without a host a value is its own copy. -/
theorem copyWith_eq_self (fieldsAt : Nat → Except Breakdown (List (Slot Empty))) :
    (v : Value Empty) → v.copyWith fieldsAt = .ok v
  | number _ | boolean _ | string _ | null | function _ => rfl
  | object fields => by
    rw [copyWith, copyFieldsWith_eq_self fieldsAt fields]
    rfl
  | shared holder _ => nomatch holder

/-- Without a host fields are their own copy. -/
theorem copyFieldsWith_eq_self (fieldsAt : Nat → Except Breakdown (List (Slot Empty))) :
    (fields : List (Slot Empty)) → copyFieldsWith fieldsAt fields = .ok fields
  | [] => rfl
  | ⟨name, isMutable, value⟩ :: rest => by
    rw [copyFieldsWith, copyWith_eq_self fieldsAt value, copyFieldsWith_eq_self fieldsAt rest]
    rfl

end

end Value

namespace Store

/-- The store of no objects. -/
def empty : Store ε := ⟨[]⟩

/-- The fields of the object at a place. -/
def fields (s : Store ε) (place : Nat) : List (Slot ε) :=
  s.objects.getD place []

/-- Gives the object at a place other fields. -/
def setFields (s : Store ε) (place : Nat) (fields : List (Slot ε)) : Store ε :=
  ⟨s.objects.set place fields⟩

/-- Shares an object: it moves to the store, and what is returned stands for it in every slot.
Anything else, and an object that is shared already, stays as it is. -/
def share (s : Store ε) (holder : ε) : Value ε → Value ε × Store ε
  | .object fields => (.shared holder s.objects.length, ⟨s.objects ++ [fields]⟩)
  | v => (v, s)

/-- A copy of the fields of the object at a place, through at most `depth` shared objects inside
one another. -/
def copyFields (s : Store ε) : (depth : Nat) → (place : Nat) → Except Breakdown (List (Slot ε))
  | 0, _ => .error .callDepth
  | depth + 1, place => Value.copyFieldsWith (s.copyFields depth) (s.fields place)

/-- A copy of a value.  As many shared objects as the store has can stand inside one another, and
no more unless one of them holds itself. -/
def copy (s : Store ε) (v : Value ε) : Except Breakdown (Value ε) :=
  v.copyWith (s.copyFields s.objects.length)

/-- A copy of a slot. -/
def copySlot (s : Store ε) (slot : Slot ε) : Except Breakdown (Slot ε) :=
  (s.copy slot.value).map fun value => { slot with value }

/-- Copies of values. -/
def copyAll (s : Store ε) : List (Value ε) → Except Breakdown (List (Value ε))
  | [] => .ok []
  | v :: rest => do
    let copied ← s.copy v
    let others ← s.copyAll rest
    .ok (copied :: others)

/-- Without a host a value is its own copy. -/
theorem copy_eq_self (s : Store Empty) (v : Value Empty) : s.copy v = .ok v :=
  v.copyWith_eq_self _

/-- Without a host values are their own copies. -/
theorem copyAll_eq_self (s : Store Empty) : (vs : List (Value Empty)) → s.copyAll vs = .ok vs
  | [] => rfl
  | v :: rest => by
    rw [copyAll, copy_eq_self, copyAll_eq_self s rest]
    rfl

end Store

namespace Value

/-- The fields of an object, wherever they stand. -/
def fields? (store : Store ε) : Value ε → Option (List (Slot ε))
  | object fields => some fields
  | shared _ place => some (store.fields place)
  | _ => none

end Value

end Scriptlet
