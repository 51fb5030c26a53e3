import Scriptlet.Runner.Report
import Scriptlet.Session

/-!
# Running programs for a host

A runner keeps one root scope for all the programs that it runs.  Each run gives a result: the
value or a report of the failure, and the messages that the program sent.  A failure is itself
announced by a last message.
-/

namespace Scriptlet

set_option autoImplicit false

/-- What a run gives. -/
structure Result (ε : Type) where
  outcome : Except Report (Value ε)
  effects : List Effect

/-- The messages of a run to a topic, in order. -/
def Result.messages {ε : Type} (r : Result ε) (topic : String) : List String :=
  (r.effects.filter (·.topics == [topic])).map (·.message)

/-- The text that reports a failed run, and nothing for one that succeeded. -/
def Result.formatError {ε : Type} (r : Result ε) : String :=
  match r.outcome with
  | .ok _ => ""
  | .error report => report.format

/-- A host and the world that its programs share. -/
structure Runner (ε σ : Type) where
  host : Host ε σ
  world : World ε σ

namespace Runner

variable {ε σ : Type} [BEq ε]

/-- Defines functions as constants under their own names. -/
def install (functions : List (Function ε)) (scope : Scope ε) : Except Cause (Scope ε) :=
  functions.foldlM (fun scope f => scope.define ⟨f.name, false, .function f⟩) scope

/-- A runner whose root scope holds the standard functions, if wanted, and those of the host. -/
def create (host : Host ε σ) (state : σ) (standard : Bool) (api : List (Function ε)) :
    Except Cause (Runner ε σ) := do
  let sorted := api.mergeSort fun f g => f.name ≤ g.name
  let functions := (if standard then Builtin.all.map Builtin.function else []) ++ sorted
  let scope ← install functions .empty
  return ⟨host, { (World.initial state : World ε σ) with scope }⟩

/-- Defines constants in the root scope, in order. -/
def defineGlobals (r : Runner ε σ) (globals : List (String × Value ε)) :
    Except (Fault ε) Unit × Runner ε σ :=
  let done := Exec.outcome (globals.forM fun g => Session.define g.1 false g.2) r.world
  (done.1, { r with world := done.2 })

/-- Runs a source and reports how it went. -/
def run (r : Runner ε σ) (rule : Rule) (source : String) : Result ε × Runner ε σ :=
  let program : Exec ε σ (Value ε) :=
    match rule with
    | .script => Session.runScript r.host source
    | .expression => Session.runExpression r.host source
  let done := program.outcome { r.world with effects := [], visited := none }
  let world := done.2
  match done.1 with
  | .ok v => (⟨.ok v, world.effects⟩, { r with world })
  | .error fault =>
    let report := Report.ofFault fault (world.visited.bind (·.loc)) source
    (⟨.error report, world.effects ++ [⟨["stderr"], report.message⟩]⟩, { r with world })

end Runner

end Scriptlet
