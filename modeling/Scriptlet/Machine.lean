import Scriptlet.Scope.Heap
import Scriptlet.Session

/-!
# Runs by reference

A run on scopes that stand in a heap.  A value is handed on by reference, and whoever has a reference to an
object sees what becomes of the object.  What a name or a path is read as is a copy, made when it is read, and
the parameters of a script function are copies of the arguments; nothing else is copied.  An error keeps the
very arguments that were passed to the calls it comes out of.

The functions are those of the language itself.  `Eval` has the same runs on trees, where a copy is of no
account.
-/

namespace Scriptlet

set_option autoImplicit false

variable {ε : Type}

/-- What is held as far as operators and standard functions look at it: an object without its fields. -/
def Held.head : Held ε → Value ε
  | value v => v
  | object _ => .object []

namespace Heap

/-- The slot that a path leads to. -/
def resolve (heap : Heap ε) (scope : Nat) (path : Path) : Except Cause Nat := do
  heap.walk path.rest (← path.first.follow (heap.find? scope))

/-- A copy of what is held.  As many scopes as there are cells can stand inside one another. -/
def clone (heap : Heap ε) (held : Held ε) : Except Breakdown (Held ε × Heap ε) :=
  held.clone (copyScope heap.cells.length) heap

/-- The value of what is held, as a tree. -/
def read (heap : Heap ε) (held : Held ε) : Except Breakdown (Value ε) :=
  held.read (heap.readScope heap.cells.length)

end Heap

/-- What a run by reference can read and change. -/
structure Machine where
  heap : Heap Empty
  visited : Option Node
  effects : List Effect
  made : Nat

namespace Machine

/-- A call that an error came out of, with the arguments themselves. -/
structure Call where
  name : String
  args : List (Held Empty)
  site : Option Location

/-- How a run by reference fails. -/
inductive Fault where
  | error (cause : Cause) (loc : Option Location) (trace : List Call)
  | breakdown (b : Breakdown)

namespace Fault

/-- An error that has no place yet. -/
def ofCause (cause : Cause) : Fault :=
  error cause none []

/-- A failure that has no place yet. -/
def ofFailure : Failure → Fault
  | .error cause => ofCause cause
  | .breakdown b => .breakdown b

/-- Gives an error its place, unless it has one. -/
def attach (loc : Option Location) : Fault → Fault
  | error cause place trace => error cause (place.or loc) trace
  | breakdown b => breakdown b

/-- Adds the call that an error comes out of. -/
def through (call : Call) : Fault → Fault
  | error cause loc trace => error cause loc (trace ++ [call])
  | breakdown b => breakdown b

end Fault

/-- A computation on a machine that may fail. -/
abbrev Run (α : Type) : Type :=
  ExceptT Fault (StateM Machine) α

/-- What a statement comes to: a value, or a `return` on its way out. -/
inductive Outcome where
  | value (held : Held Empty)
  | returned (held : Held Empty)

/-- The value that a finished run is worth. -/
def Outcome.unwrap : Outcome → Held Empty
  | value held => held
  | returned held => held

/-- How functions are called. -/
abbrev Caller : Type :=
  Function Empty → List (Held Empty) → Run (Held Empty)

/-- The world of trees that has the scope `s` where the machine has a heap. -/
def world (m : Machine) (s : Scope Empty) : World Empty Unit :=
  ⟨s, .empty, m.visited, m.effects, m.made, ()⟩

/-! ## Steps -/

namespace Run

variable {α : Type}

/-- The outcome of a computation and the machine after it. -/
def outcome (x : Run α) (m : Machine) : Except Fault α × Machine :=
  (ExceptT.run x).run m

/-- A computation given by its outcomes. -/
def ofOutcome (f : Machine → Except Fault α × Machine) : Run α :=
  ExceptT.mk fun m => pure (f m)

/-- Fails outside the language. -/
def breakDown (b : Breakdown) : Run α :=
  throw (.breakdown b)

/-- The result of an operation that may have an error. -/
def ofExcept : Except Cause α → Run α
  | .ok a => pure a
  | .error cause => throw (.ofCause cause)

/-- The result of an operation that may fail. -/
def ofFailing : Except Failure α → Run α
  | .ok a => pure a
  | .error f => throw (.ofFailure f)

/-- The result of an operation that may break down. -/
def ofBreaking : Except Breakdown α → Run α
  | .ok a => pure a
  | .error b => breakDown b

/-- Changes the failure of a computation. -/
def adapt (f : Fault → Fault) (x : Run α) : Run α :=
  ofOutcome fun m => ((x.outcome m).1.mapError f, (x.outcome m).2)

/-- The result of a computation on trees that has nothing to do with the scope. -/
def aside (x : Exec Empty Unit α) : Run α :=
  ofOutcome fun m =>
    let (r, w) := x.outcome (m.world .empty)
    (r.mapError fun fault => .ofFailure fault.failure,
      { m with visited := w.visited, effects := w.effects, made := w.made })

/-- The result of a change of the heap. -/
def onHeap (f : Heap Empty → α × Heap Empty) : Run α :=
  ofOutcome fun m => (.ok (f m.heap).1, { m with heap := (f m.heap).2 })

/-- Runs with no node visited yet; the node that was visited before is the last one again afterwards. -/
def isolated (x : Run α) : Run α :=
  ofOutcome fun m =>
    let r := x.outcome { m with visited := none }
    (r.1, { r.2 with visited := m.visited })

/-- A copy of what is held. -/
def copy (held : Held Empty) : Run (Held Empty) := do
  let m ← get
  let (copied, heap) ← ofBreaking (m.heap.clone held)
  set { m with heap }
  pure copied

/-- What the slot holds that a path leads to. -/
def resolve (scope : Nat) (path : Path) : Run (Held Empty) := do
  let m ← get
  let slot ← ofExcept (m.heap.resolve scope path)
  pure (m.heap.slot slot).2

/-- A copy of what a path leads to. -/
def read (scope : Nat) (path : Path) : Run (Held Empty) := do
  copy (← resolve scope path)

/-- Adds a slot to the top frame. -/
def define (scope : Nat) (name : String) (isMutable : Bool) (held : Held Empty) : Run Unit := do
  let m ← get
  let heap ← ofExcept (m.heap.define scope name isMutable held)
  set { m with heap }

/-- What a slot holds after an assignment with an operator, where it holds `old` before. -/
def assigned (op : String) (old operand : Held Empty) : Except Failure (Held Empty) :=
  if op = "=" then .ok operand
  else if op = "+=" then update "+"
  else if op = "-=" then update "-"
  else if op = "*=" then update "*"
  else .error (.breakdown (.unsupported (.assignment op)))
where
  /-- The result of an operator. -/
  update (binary : String) : Except Failure (Held Empty) :=
    (old.head.applyOperator binary operand.head).map .value

/-- Assigns to the slot that a path leads to. -/
def assign (scope : Nat) (path : Path) (op : String) (operand : Held Empty) : Run Unit := do
  let m ← get
  let slot ← ofExcept (m.heap.resolve scope path)
  let held ← ofFailing (assigned op (m.heap.slot slot).2 operand)
  let heap ← ofExcept (m.heap.setValue held slot)
  set { m with heap }

/-- A scope with an empty frame on top of the frames of another one. -/
def nest (scope : Nat) : Run Nat :=
  onHeap (·.nest scope)

/-- A scope of one empty frame. -/
def newScope : Run Nat :=
  onHeap fun heap =>
    let (frame, heap) := heap.alloc (.frame [])
    heap.alloc (.scope frame [])

/-- Sets names to copies, as constants. -/
def bindAll (scope : Nat) : List (String × Held Empty) → Run Unit
  | [] => pure ()
  | (name, held) :: rest => do
    let own ← copy held
    onHeap fun heap => ((), heap.set scope name false own)
    bindAll scope rest

end Run

/-! ## Evaluation -/

open Run

/-- The function that is held. -/
def asFunction : Held Empty → Except Cause (Function Empty)
  | .value (.function f) => .ok f
  | _ => .error .notFunction

/-- Calls a function; an error that comes out of it has passed through this call. -/
def invoke (call : Caller) (f : Function Empty) (args : List (Held Empty)) (site : Option Location) :
    Run (Held Empty) :=
  adapt (Fault.through ⟨f.name, args, site⟩) (call f args)

mutual

/-- The value of an expression. -/
def evaluate (call : Caller) (scope : Nat) : Node → Run (Held Empty)
  | ⟨loc, form⟩ => do
    aside (Exec.visit ⟨loc, form⟩)
    adapt (Fault.attach loc) (evaluateForm call scope loc form)

/-- The value of an expression that stands at `loc`. -/
def evaluateForm (call : Caller) (scope : Nat) (loc : Option Location) : Form → Run (Held Empty)
  | .ident name => read scope (.name name)
  | .member object member => read scope (object.path.append member.path)
  | .group expr => evaluate call scope expr
  | .number text => do return .value (.number (← ofFailing (Literal.number text)))
  | .string text => do return .value (.string (← Run.ofExcept (Literal.string text)))
  | .boolean text => do return .value (.boolean (← Run.ofExcept (Literal.boolean text)))
  | .null => pure (.value .null)
  | .call callee args => do
    let f ← Run.ofExcept (asFunction (← resolve scope callee.path))
    let values ← evaluateAll call scope args
    invoke call f values loc
  | .ternary condition thenBranch elseBranch => do
    match (← evaluate call scope condition).head with
    | .boolean true => evaluate call scope thenBranch
    | .boolean false => evaluate call scope elseBranch
    | _ => Run.ofExcept (.error .conditionNotBoolean)
  | .assign target op value => do
    let operand ← evaluate call scope value
    assign scope target.path op operand
    pure (.value .null)
  | .chain _ first rest => do evaluateRest call scope (← evaluate call scope first) rest
  | .unary op operand => do
    return .value (← ofFailing ((← evaluate call scope operand).head.applyUnary op))
  | form => breakDown (.unsupported (.expression form.label))

/-- The values of expressions, from left to right. -/
def evaluateAll (call : Caller) (scope : Nat) : List Node → Run (List (Held Empty))
  | [] => pure []
  | node :: rest => do
    let held ← evaluate call scope node
    let others ← evaluateAll call scope rest
    pure (held :: others)

/-- The value of a run of operators that starts from what is held. -/
def evaluateRest (call : Caller) (scope : Nat) (held : Held Empty) :
    List (String × Node) → Run (Held Empty)
  | [] => pure held
  | (op, node) :: rest => do
    let operand ← evaluate call scope node
    evaluateRest call scope (.value (← ofFailing (held.head.applyOperator op operand.head))) rest

end

/-- Declares a function as a constant. -/
def declareFunction (scope : Nat) (function : ScriptFunction) : Run Unit := do
  if !function.params.Nodup then Run.ofExcept (.error (.repeatedParameter function.name))
  let id ← aside Exec.fresh
  define scope function.name false
    (.value (.function ⟨.script id function, some function.params.length, function.name⟩))

mutual

/-- Runs a statement. -/
def execute (call : Caller) (scope : Nat) : Node → Run Outcome
  | ⟨loc, form⟩ => do
    aside (Exec.visit ⟨loc, form⟩)
    adapt (Fault.attach loc) (executeForm call scope loc form)

/-- Runs a statement that stands at `loc`. -/
def executeForm (call : Caller) (scope : Nat) (loc : Option Location) : Form → Run Outcome
  | .script statements => executeAll call scope (.value (.value .null)) statements
  | .expression expr => do return .value (← evaluate call scope expr)
  | .block statements => do executeAll call (← nest scope) (.value (.value .null)) statements
  | .function name params body source => do
    declareFunction scope ⟨name, params, body, source⟩
    return .value (.value .null)
  | .declaration name value isMutable => do
    let held ← evaluate call scope value
    define scope name isMutable held
    return .value (.value .null)
  | .ret none => return .returned (.value .null)
  | .ret (some expr) => do return .returned (← evaluate call scope expr)
  | .bare => breakDown (.unsupported (.statement Form.bare.label))
  | form => do return .value (← evaluate call scope ⟨loc, form⟩)

/-- Runs statements in order, up to the first `return`; `last` is what came before them. -/
def executeAll (call : Caller) (scope : Nat) (last : Outcome) : List Node → Run Outcome
  | [] => pure last
  | node :: rest => do
    match ← execute call scope node with
    | .returned held => pure (.returned held)
    | .value held => executeAll call scope (.value held) rest

end

/-- Runs a standard function. -/
def runBuiltin (b : Builtin) (args : List (Held Empty)) : Run (Held Empty) := do
  return .value (← aside (b.run (args.map Held.head)))

/-- The value that a function body returns. -/
def runBody (call : Caller) (scope : Nat) (body : Block) : Run (Held Empty) := do
  match ← executeAll call scope (.value (.value .null)) body.statements with
  | .returned held => pure held
  | .value _ => pure (.value .null)

/-- A new scope with copies of the arguments and nothing else. -/
def bodyScope (params : List String) (args : List (Held Empty)) : Run Nat := do
  let scope ← newScope
  bindAll scope (params.zip args)
  pure scope

/-- Runs a script function in a scope of its own. -/
def runScript (call : Caller) (function : ScriptFunction) (args : List (Held Empty)) :
    Run (Held Empty) :=
  isolated do
    let scope ← bodyScope function.params args
    runBody call scope function.body

/-- Calls a function, with at most `depth` calls open at once. -/
def callFunction : Nat → Caller
  | 0, _, _ => breakDown .callDepth
  | depth + 1, f, args => do
    Run.ofExcept (Eval.checkArity f (args.map Held.head))
    match f.callback with
    | .script _ function => runScript (callFunction depth) function args
    | .builtin b => runBuiltin b args
    | .host e => nomatch e

/-- Runs a syntax tree as what it was read as, with at most `depth` calls open at once. -/
def runTree (depth : Nat) (scope : Nat) : Rule → Node → Run (Held Empty)
  | .expression, node => evaluate (callFunction depth) scope node
  | .script, node => do return (← execute (callFunction depth) scope node).unwrap

/-! ## Sessions -/

/-- The machine of a single empty scope, in which nothing has happened yet. -/
def initial : Machine :=
  ⟨(Scopes.single : Scopes Empty).heap, none, [], 0⟩

/-- The address of the scope of `initial`. -/
def home : Nat := 1

/-- Builds a value. -/
def build (v : Value Empty) : Run (Held Empty) :=
  onHeap (·.place v)

/-- Defines a name in the top frame, with a value built for it. -/
def defineValue (scope : Nat) (name : String) (isMutable : Bool) (v : Value Empty) : Run Unit := do
  define scope name isMutable (← build v)

/-- Gives a variable a new value, built for it. -/
def updateValue (scope : Nat) (name : String) (v : Value Empty) : Run Unit := do
  assign scope (.name name) "=" (← build v)

/-- Calls the function that a name means. -/
def callNamed (scope : Nat) (name : String) (args : List (Held Empty)) : Run (Held Empty) := do
  let f ← Run.ofExcept (asFunction (← resolve scope (.name name)))
  invoke (callFunction Session.callLimit) f args none

/-- Runs a source, which is a script or an expression. -/
def runSource (scope : Nat) (rule : Rule) (source : String) : Run (Held Empty) :=
  match Parser.parse rule source with
  | .ok node => runTree Session.callLimit scope rule node
  | .error m => throw (.error (.malformed m) (some m.loc) [])

/-! ## What is shown -/

/-- The world of trees that a machine shows at a scope. -/
def shows (m : Machine) (scope : Nat) : Except Breakdown (World Empty Unit) :=
  (m.heap.readScope m.heap.cells.length scope).map m.world

/-- A call with its arguments as they are now. -/
def Call.shown (heap : Heap Empty) (call : Call) : Except Breakdown (CallFrame Empty) :=
  (call.args.mapM heap.read).map fun args => ⟨call.name, args, call.site⟩

/-- A failure with the arguments of its calls as they are now. -/
def Fault.shown (heap : Heap Empty) : Fault → Except Breakdown (Scriptlet.Fault Empty)
  | error cause loc trace =>
    (trace.mapM (Call.shown heap)).map fun trace => .error ⟨cause, loc, trace⟩
  | breakdown b => .ok (.breakdown b)

/-- What a run comes to, as it is now. -/
def shownEnd (heap : Heap Empty) :
    Except Fault (Held Empty) → Except Breakdown (Except (Scriptlet.Fault Empty) (Value Empty))
  | .ok held => (heap.read held).map .ok
  | .error fault => (fault.shown heap).map .error

/-- What an expression comes to, as it is once it has been evaluated. -/
def valueOf (call : Caller) (scope : Nat) (node : Node) (m : Machine) :
    Except Breakdown (Except (Scriptlet.Fault Empty) (Value Empty)) :=
  let (r, after) := (evaluate call scope node).outcome m
  shownEnd after.heap r

/-- What a path is read as. -/
def reads (m : Machine) (scope : Nat) (path : Path) : Except Failure (Value Empty) := do
  let slot ← (m.heap.resolve scope path).mapError .error
  (m.heap.read (m.heap.slot slot).2).mapError .breakdown

end Machine

end Scriptlet
