import Scriptlet.World

/-!
# Functions of the host

The host lends its own functions to a program.  One of them sees its arguments, the scope of the
call, the shared objects and the host's state; it may change all but the arguments and answers with
a value, with a failure, or by handing the call on to another function, in the same scope or in an
empty one.
-/

namespace Scriptlet

set_option autoImplicit false

/-- How a function of the host answers. -/
inductive Reply (ε : Type) where
  | value (v : Value ε)
  | fail (f : Failure)
  /-- The answer is that of another call, in the scope of this one. -/
  | call (f : Function ε) (args : List (Value ε))
  /-- The answer is that of another call, in an empty scope. -/
  | callAlone (f : Function ε) (args : List (Value ε))

/-- What a function of the host can see and change. -/
structure Access (ε σ : Type) where
  scope : Scope ε
  store : Store ε
  state : σ

/-- The behaviour of the functions of a host. -/
structure Host (ε σ : Type) where
  run : ε → List (Value ε) → Access ε σ → Reply ε × Access ε σ

namespace Host

/-- A host without functions. -/
def none : Host Empty Unit :=
  ⟨fun e => nomatch e⟩

variable {ε σ : Type}

/-- Asks a function of the host. -/
def ask (host : Host ε σ) (e : ε) (args : List (Value ε)) : Exec ε σ (Reply ε) := do
  let w ← get
  let (reply, access) := host.run e args ⟨w.scope, w.store, w.host⟩
  set { w with scope := access.scope, store := access.store, host := access.state }
  pure reply

end Host

end Scriptlet
