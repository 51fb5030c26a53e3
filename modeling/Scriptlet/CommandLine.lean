import Scriptlet.CommandLine.Options
import Scriptlet.CommandLine.Platform
import Scriptlet.Document

/-!
# The command line

The arguments choose between a single expression, a script file and an interactive session, each
with the standard functions and, if wanted, the constants of a document.  `start` does everything
up to the first typed line, `respond` answers one typed line, and `runOn` puts them together for
input that is known beforehand.
-/

namespace Scriptlet.CommandLine

set_option autoImplicit false

/-- A runner for programs without a host. -/
abbrev Plain := Runner Empty Unit

/-- The runner that every session starts with. -/
def standard : Except Cause Plain :=
  Runner.create Host.none () true []

/-- How the command line goes on after its arguments are dealt with. -/
inductive Status where
  | exit (code : Nat)
  /-- A failure outside the language ends the program. -/
  | broken (b : Breakdown)
  /-- The user may type. -/
  | interactive (r : Plain)

section

variable (p : Platform)

/-- Shows what a run came to and goes on, unless the output breaks off. -/
def present (result : Result Empty) (next : Status) : Output × Status :=
  match p.breakOff result with
  | some (output, b) => (output, .broken b)
  | none => (.ofResult result, next)

/-- Runs a source as a whole program. -/
def runOnce (r : Plain) (rule : Rule) (source : String) : Output × Status :=
  let result := (r.run rule source).1
  present p result (.exit (if result.outcome.isOk then 0 else 1))

/-- Runs a script file. -/
def runFile (r : Plain) (files : Files) (path : String) : Output × Status :=
  let name := FileName.ofText path
  match files name with
  | .error .missing => (.errorLine ("Error: file not found: " ++ path), .exit 1)
  | .error obstacle => (.empty, .broken (obstacle.breakdown name))
  | .ok bytes =>
    match Document.decode bytes with
    | .ok source => runOnce p r .script source
    | .error b => (.empty, .broken b)

/-- Ends the program because the constants could not be defined. -/
def globalsError (path reason : String) : Output × Status :=
  (.errorLine ("Error loading globals from " ++ path ++ ": " ++ reason), .exit 1)

/-- Defines the constants of a file and goes on. -/
def withGlobals (r : Plain) (files : Files) (path : String) (next : Plain → Output × Status) :
    Output × Status :=
  let name := FileName.ofText path
  match files name with
  | .error .nullCharacter => (.empty, .broken (Obstacle.nullCharacter.breakdown name))
  | .error obstacle => globalsError path (obstacle.message name)
  | .ok bytes =>
    if !p.loads path bytes then (.empty, .broken .callDepth)
    else
      match Document.globals path bytes with
      | .error (.breakdown b) => (.empty, .broken b)
      | .error (.error cause) => globalsError path cause.describe
      | .ok globals =>
        match r.defineGlobals globals with
        | (.ok _, r) => next r
        | (.error (.error e), _) => globalsError path e.cause.describe
        | (.error (.breakdown b), _) => (.empty, .broken b)

/-- The greeting of an interactive session. -/
def greeting : Output :=
  .line "Sable REPL v0.1" ++ .line "Type 'exit' or press Ctrl+D to quit."

/-- What is shown where the user may type. -/
def prompt : Output :=
  .text ">> "

/-- What is shown when the input ends. -/
def farewell : Output :=
  .line "\nExiting."

/-- What is shown if the expression is left out. -/
def noExpression : String :=
  "InternalError: 'NoneType' object has no attribute 'char_pos'"

/-- Follows the options.  An empty file name is none, and so is an empty name of a document. -/
def follow (o : Options) (files : Files) (r : Plain) : Output × Status :=
  let main (r : Plain) : Output × Status :=
    match o.expression, o.file.filter (· ≠ "") with
    | some (some text), _ => runOnce p r .expression text
    | some none, _ => (.errorLine noExpression, .exit 1)
    | none, some path => runFile p r files path
    | none, none => (greeting, .interactive r)
  match o.globals.filter (· ≠ "") with
  | some path => withGlobals p r files path main
  | none => main r

/-- Does what the arguments ask for. -/
def start (arguments : List String) (files : Files) : Output × Status :=
  match Options.ofArguments arguments with
  | .error .help => (.text help, .exit 0)
  | .error (.misuse m) => (⟨"", usage⟩ ++ .errorLine ("sable: error: " ++ m.message), .exit 2)
  | .ok o =>
    match standard with
    | .ok r => follow p o files r
    | .error cause => (.errorLine cause.describe, .exit 1)

/-- Answers a typed line. -/
def respond (r : Plain) (typed : String) : Output × Status :=
  let line := String.ofList (Text.trim typed.toList)
  if line = "" then (.empty, .interactive r)
  else if line = "exit" then (.empty, .exit 0)
  else
    let rule := if (Parser.parse .expression line).isOk then Rule.expression else Rule.script
    let (result, next) := r.run rule line
    present p result (.interactive next)

/-- Answers typed lines until the user is done or the input ends. -/
def converse (r : Plain) : List String → Output × Except Breakdown Nat
  | [] => (prompt ++ farewell, .ok 0)
  | typed :: rest =>
    match respond p r typed with
    | (output, .exit code) => (prompt ++ output, .ok code)
    | (output, .broken b) => (prompt ++ output, .error b)
    | (output, .interactive r) =>
      let (more, ending) := converse r rest
      (prompt ++ output ++ more, ending)

/-- The lines of typed input.  The last one needs no end. -/
def typedLines (input : String) : List String :=
  go [] (Text.uniform input.toList)
where
  /-- The lines of a text whose current line holds `line`, the last character first. -/
  go : List Char → List Char → List String
    | [], [] => []
    | line, [] => [String.ofList line.reverse]
    | line, c :: rest =>
      if c = '\n' then String.ofList line.reverse :: go [] rest else go (c :: line) rest

/-- The output and the exit code, or the failure that ended the program, of a command line with the
whole input. -/
def runOn (arguments : List String) (files : Files) (input : String) :
    Output × Except Breakdown Nat :=
  match start p arguments files with
  | (output, .exit code) => (output, .ok code)
  | (output, .broken b) => (output, .error b)
  | (output, .interactive r) =>
    let (more, ending) := converse p r (typedLines input)
    (output ++ more, ending)

end

/-- A command line on a platform that refuses nothing. -/
def run (arguments : List String) (files : Files) (input : String) :
    Output × Except Breakdown Nat :=
  runOn .ample arguments files input

end Scriptlet.CommandLine
