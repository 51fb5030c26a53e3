import Scriptlet.Value

/-!
# Failures of a run

An error of a running program knows where it happened and which calls were open.  The place is
that of the innermost node at hand; the calls are listed innermost first.
-/

namespace Scriptlet

set_option autoImplicit false

/-- A call that an error came out of. -/
structure CallFrame (ε : Type) where
  name : String
  args : List (Value ε)
  site : Option Location

/-- An error of the language with its place and the calls that were open. -/
structure Error (ε : Type) where
  cause : Cause
  loc : Option Location
  trace : List (CallFrame ε)

/-- How a run fails. -/
inductive Fault (ε : Type) where
  | error (e : Error ε)
  | breakdown (b : Breakdown)

namespace Fault

variable {ε : Type}

/-- An error that has no place yet. -/
def ofCause (cause : Cause) : Fault ε :=
  .error ⟨cause, none, []⟩

/-- A failure that has no place yet. -/
def ofFailure : Failure → Fault ε
  | .error cause => ofCause cause
  | .breakdown b => .breakdown b

/-- What failed, without the place and the calls. -/
def failure : Fault ε → Failure
  | error e => .error e.cause
  | breakdown b => .breakdown b

/-- Gives an error its place, unless it has one. -/
def attach (loc : Option Location) : Fault ε → Fault ε
  | error e => error { e with loc := e.loc.or loc }
  | breakdown b => breakdown b

/-- Adds the call that an error comes out of. -/
def through (frame : CallFrame ε) : Fault ε → Fault ε
  | error e => error { e with trace := e.trace ++ [frame] }
  | breakdown b => breakdown b

end Fault

end Scriptlet
