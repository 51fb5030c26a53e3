import Scriptlet.CommandLine.Output

/-!
# What a platform refuses

Nested data may be too deep for the stack that there is, and a text may hold a character that the
encoding of the output lacks.  How much is too much differs from one platform to the next, so it is
left open here.  While a program runs, failures of either kind are reported like all others; what is
said here is about the constants of a document, before the program runs, and about what is printed of
it afterwards.
-/

namespace Scriptlet.CommandLine

set_option autoImplicit false

/-- What a platform takes. -/
structure Platform where
  /-- Whether there is room to read a document of a given name and contents and to make values of its
  data. -/
  loads : String → ByteArray → Bool
  /-- Whether there is room to write a value as text. -/
  shows : Value Empty → Bool
  /-- Whether a text can be printed. -/
  prints : String → Bool

namespace Platform

/-- A platform that refuses nothing. -/
def ample : Platform :=
  ⟨fun _ _ => true, fun _ => true, fun _ => true⟩

variable (p : Platform)

/-- Why the value of a run cannot be printed. -/
def refusal (v : Value Empty) : Option Breakdown :=
  match v with
  | .null => none
  | v =>
    if !p.shows v then some .callDepth
    else if !p.prints v.pretty then some .notEncodable
    else none

/-- Where the output of a run breaks off: what is printed up to there, and why no more is.  Errors are
printed in any encoding. -/
def breakOff (result : Result Empty) : Option (Output × Breakdown) :=
  let messages := result.messages "stdout"
  let output := Output.concat ((messages.takeWhile p.prints).map Output.line)
  if messages.all p.prints then
    match result.outcome with
    | .ok v => (p.refusal v).map fun b => (output, b)
    | .error _ => none
  else some (output, .notEncodable)

end Platform

end Scriptlet.CommandLine
