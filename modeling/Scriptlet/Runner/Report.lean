import Scriptlet.Fault
import Scriptlet.Text.Lines
import Scriptlet.Value.Printer

/-!
# Reports of failed runs

A report says what went wrong, shows the lines of the source around the place with a caret under
it, and lists the calls that were open, the outermost first.
-/

namespace Scriptlet

set_option autoImplicit false

/-- What is told about a failed run. -/
structure Report where
  message : String
  token : Option Location
  /-- Whether the failure lies outside the language. -/
  internal : Bool

namespace Report

variable {ε : Type}

/-- A text filled up with spaces on the left. -/
def padLeft (width : Nat) (s : String) : String :=
  String.ofList (List.replicate (width - s.length) ' ') ++ s

/-- A line of the context: its number in a gutter, and a mark if it is the line in question. -/
def contextLine (width : Nat) (marked : Bool) (number : Nat) (text : List Char) : String :=
  (if marked then ">" else " ") ++ " " ++ padLeft width (Numeral.ofNat number) ++ " | " ++
    String.ofList text

/-- The line with a caret under a column. -/
def caretLine (width col : Nat) : String :=
  "  " ++ padLeft width "" ++ " | " ++ padLeft (col - 1) "" ++ "^"

/-- The lines of a source around a given one, up to `radius` to each side, or nothing if the
source has no such line. -/
def sourceContext (source : String) (line : Nat) (col : Option Nat) (radius : Int) : String :=
  let lines := Text.lines source.toList
  if line < 1 || lines.length < line then ""
  else
    let first := (max 1 ((line : Int) - radius)).toNat
    let last := (min (lines.length : Int) ((line : Int) + radius)).toNat
    let width := (Numeral.ofNat last).length
    let shown := (lines.zipIdx 1).filter fun p => first ≤ p.2 && p.2 ≤ last
    String.intercalate "\n" (shown.flatMap fun p =>
      contextLine width (p.2 == line) p.2 p.1 ::
        (if p.2 == line then (col.map (caretLine width)).toList else []))

/-- An open call: its name and its arguments, each on one line. -/
def callText (frame : CallFrame ε) : String :=
  let name := if frame.name = "" then "<call>" else frame.name
  let args := String.intercalate " " (frame.args.map fun v =>
    String.ofList (v.pretty.toList.map fun c => if c = '\n' then ' ' else c))
  if args = "" then "(" ++ name ++ ")" else "(" ++ name ++ " " ++ args ++ ")"

/-- The open calls, the outermost first. -/
def stackText (trace : List (CallFrame ε)) : String :=
  "Sable stacktrace: " ++ String.intercalate " " (trace.reverse.map callText)

/-- The place that a report points at.  It always lies in the source that was run: a function may
come from another source, but the outermost call does not. -/
def place (e : Error ε) (visited : Option Location) : Option Location :=
  match e.trace.getLast? with
  | some outermost => outermost.site
  | none => e.loc.or visited

/-- The report of an error in a source. -/
def ofError (e : Error ε) (visited : Option Location) (source : String) : Report :=
  let token := place e visited
  let context :=
    match token with
    | none => ""
    | some loc => sourceContext source loc.line (some loc.col) 2
  let parts := e.cause.describe :: ((if context = "" then [] else [context]) ++
    (if e.trace.isEmpty then [] else [stackText e.trace]))
  ⟨String.intercalate "\n" parts, token, false⟩

/-- The report of a failure outside the language. -/
def ofBreakdown (b : Breakdown) : Report :=
  let label :=
    match b with
    | .unsupported _ => "NotImplementedError: "
    | _ => "InternalError: "
  ⟨label ++ b.message, none, true⟩

/-- The report of a failure.  `visited` is the place of the node that was visited last. -/
def ofFault (fault : Fault ε) (visited : Option Location) (source : String) : Report :=
  match fault with
  | .error e => ofError e visited source
  | .breakdown b => ofBreakdown b

/-- A message with the line and column in front, unless it already starts with them. -/
def headline (message : String) (line : Option Int) (col : Option Int) : String :=
  let message := if message = "" then "Unknown error" else message
  match line with
  | none => message
  | some line =>
    if "Error on line ".isPrefixOf message then message
    else
      "Error on line " ++ Numeral.ofInt line ++
        (match col with
          | none => ""
          | some col => ", col " ++ Numeral.ofInt col) ++ ": " ++ message

/-- The text that reports a failed run. -/
def format (r : Report) : String :=
  headline r.message (r.token.map fun t => (t.line : Int)) (r.token.map fun t => (t.col : Int))

end Report

end Scriptlet
