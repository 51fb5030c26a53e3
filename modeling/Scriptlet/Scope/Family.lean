import Scriptlet.Scope.Path

/-!
# Families of scopes

Scopes that grow out of one another: a nested scope shares the frames of the scope it was nested
from, so that each sees what the other assigns, while a copy shares nothing.  The family keeps
every frame once and a scope as the numbers of its frames; values are trees.
-/

namespace Scriptlet

set_option autoImplicit false

variable {ε : Type}

/-- Frames by number, and scopes as the numbers of their frames, the top one apart. -/
structure Family (ε : Type) where
  frames : List (List (Slot ε))
  scopes : List (Nat × List Nat)

namespace Family

/-- The family of a single empty scope. -/
def single : Family ε := ⟨[[]], [(0, [])]⟩

/-- The frame of a number. -/
def frame (fam : Family ε) (i : Nat) : List (Slot ε) :=
  fam.frames.getD i []

/-- The scope of a handle. -/
def view? (fam : Family ε) (handle : Nat) : Option (Scope ε) :=
  fam.scopes[handle]?.map fun ids => ⟨fam.frame ids.1, ids.2.map fam.frame⟩

/-- The family after the scope of a handle has become `s`, frame by frame. -/
def store (fam : Family ε) (handle : Nat) (s : Scope ε) : Family ε :=
  match fam.scopes[handle]? with
  | none => fam
  | some ids =>
    { fam with frames := ((ids.1 :: ids.2).zip s.frames).foldl (fun fs p => fs.set p.1 p.2) fam.frames }

/-- Adds a scope nested in that of a handle; its handle is the number of scopes before. -/
def nest (fam : Family ε) (handle : Nat) : Family ε :=
  match fam.scopes[handle]? with
  | none => fam
  | some ids => ⟨fam.frames ++ [[]], fam.scopes ++ [(fam.frames.length, ids.1 :: ids.2)]⟩

/-- Adds an independent copy of the scope of a handle. -/
def copy (fam : Family ε) (handle : Nat) : Family ε :=
  match fam.scopes[handle]? with
  | none => fam
  | some ids =>
    let n := fam.frames.length
    ⟨fam.frames ++ (fam.frame ids.1 :: ids.2.map fam.frame),
      fam.scopes ++ [(n, List.range' (n + 1) ids.2.length)]⟩

end Family

end Scriptlet
