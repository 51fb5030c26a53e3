import Scriptlet.CommandLine

/-!
# The program

Reads the files that the arguments name, shows what the command line puts out, and hands on typed
lines until the user is done.
-/

namespace Scriptlet.Program

set_option autoImplicit false

/-- What stands in the way of reading a file. -/
def obstacle : IO.Error → Obstacle
  | .inappropriateType .. => .folder
  | .invalidArgument .. => .longName
  | _ => .missing

/-- The contents of a file. -/
def readFile (path : String) : IO (Except Obstacle ByteArray) := do
  try
    return .ok (← IO.FS.readBinFile path)
  catch e =>
    return .error (obstacle e)

/-- The files that the arguments name. -/
def namedFiles (arguments : List String) : IO Files := do
  let paths :=
    match CommandLine.Options.ofArguments arguments with
    | .ok o => o.globals.toList ++ o.file.toList
    | .error _ => []
  let contents ← paths.mapM fun path => do
    return (FileName.ofText path, ← readFile path)
  return fun name =>
    match contents.find? fun c => c.1 == name with
    | some c => c.2
    | none => .error .missing

/-- Shows output. -/
def display (output : CommandLine.Output) : IO Unit := do
  IO.print output.stdout
  (← IO.getStdout).flush
  IO.eprint output.stderr

/-- Reads and answers typed lines. -/
def converse (first : CommandLine.Plain) : IO Unit := do
  let mut r := first
  repeat
    display CommandLine.prompt
    let typed ← (← IO.getStdin).getLine
    if typed.isEmpty then
      display CommandLine.farewell
      break
    let (output, status) := CommandLine.respond .ample r typed
    display output
    match status with
    | .interactive after => r := after
    | _ => break

/-- Does what the arguments ask for; the result is the exit code. -/
def run (arguments : List String) : IO UInt32 := do
  let (output, status) := CommandLine.start .ample arguments (← namedFiles arguments)
  display output
  match status with
  | .exit code => return UInt32.ofNat code
  | .broken b =>
    IO.eprintln b.message
    return 1
  | .interactive r =>
    converse r
    return 0

end Scriptlet.Program

/-- Runs the program. -/
def main (arguments : List String) : IO UInt32 :=
  Scriptlet.Program.run arguments
