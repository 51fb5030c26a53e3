import Scriptlet.Runner

/-!
# What is shown to the user

The output of a run: its messages to the standard topic, and then its value, unless that is null,
or the report of its failure.  A platform may refuse to print a part of it.
-/

namespace Scriptlet.CommandLine

set_option autoImplicit false

variable {ε : Type}

/-- Text for the user and text about failures. -/
structure Output where
  stdout : String
  stderr : String
deriving DecidableEq, Repr

namespace Output

/-- No output. -/
def empty : Output := ⟨"", ""⟩

/-- One output after the other. -/
def append (a b : Output) : Output :=
  ⟨a.stdout ++ b.stdout, a.stderr ++ b.stderr⟩

instance : Append Output := ⟨append⟩

/-- Text for the user. -/
def text (s : String) : Output := ⟨s, ""⟩

/-- A line for the user. -/
def line (s : String) : Output := text (s ++ "\n")

/-- A line about a failure. -/
def errorLine (s : String) : Output := ⟨"", s ++ "\n"⟩

/-- The output of all parts, in order. -/
def concat (parts : List Output) : Output :=
  parts.foldr append empty

/-- The value that a run came to. -/
def ofValue (v : Value ε) : Output :=
  match v with
  | .null => empty
  | v => line v.pretty

/-- The output of a run. -/
def ofResult (r : Result ε) : Output :=
  let messages := r.effects.filter fun e => e.topics == ["stdout"]
  let shown := concat (messages.map fun e => line e.message)
  match r.outcome with
  | .ok v => shown ++ ofValue v
  | .error report => shown ++ errorLine report.format

end Output

end Scriptlet.CommandLine
