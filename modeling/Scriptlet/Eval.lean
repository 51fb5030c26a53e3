import Scriptlet.Builtin
import Scriptlet.Host
import Scriptlet.Value.Operators

/-!
# Evaluation

`evaluate` gives an expression its value and `execute` runs a statement.  Both go down the tree;
what a call does is a parameter of theirs, and `callFunction` ties the knot: a script function runs
its body in a scope that holds its parameters and nothing else, and at most `depth` calls may be
open at once.  What a name or a path is read as, and what a script function is given, are copies.
-/

namespace Scriptlet

set_option autoImplicit false

variable {ε σ : Type} [BEq ε]

/-- What a statement comes to: a value, or a `return` on its way out. -/
inductive Outcome (ε : Type) where
  | value (v : Value ε)
  | returned (v : Value ε)

/-- The value that a finished run is worth. -/
def Outcome.unwrap : Outcome ε → Value ε
  | value v => v
  | returned v => v

/-- How functions are called. -/
abbrev Caller (ε σ : Type) : Type :=
  Function ε → List (Value ε) → Exec ε σ (Value ε)

namespace Eval

/-- The function in a slot. -/
def asFunction (slot : Slot ε) : Except Cause (Function ε) :=
  match slot.value with
  | .function f => .ok f
  | _ => .error .notFunction

/-- The slot after an assignment with an operator. -/
def assigned (op : String) (operand : Value ε) (slot : Slot ε) : Except Failure (Slot ε) :=
  if op = "=" then (slot.assign operand).mapError .error
  else if op = "+=" then update "+"
  else if op = "-=" then update "-"
  else if op = "*=" then update "*"
  else .error (.breakdown (.unsupported (.assignment op)))
where
  /-- The slot with the result of an operator. -/
  update (binary : String) : Except Failure (Slot ε) := do
    let v ← slot.value.applyOperator binary operand
    (slot.assign v).mapError .error

/-- A failure that comes out of a call.  An error keeps copies of the arguments. -/
def outOf (f : Function ε) (args : List (Value ε)) (site : Option Location) (store : Store ε)
    (fault : Fault ε) : Fault ε :=
  match store.copyAll args with
  | .ok args => fault.through ⟨f.name, args, site⟩
  | .error b => .breakdown b

/-- Calls a function; an error that comes out of it has passed through this call. -/
def invoke (call : Caller ε σ) (f : Function ε) (args : List (Value ε))
    (site : Option Location) : Exec ε σ (Value ε) :=
  Exec.adapt (outOf f args site) (call f args)

mutual

/-- The value of an expression. -/
def evaluate (call : Caller ε σ) : Node → Exec ε σ (Value ε)
  | ⟨loc, form⟩ => do
    Exec.visit ⟨loc, form⟩
    Exec.located loc (evaluateForm call loc form)

/-- The value of an expression that stands at `loc`. -/
def evaluateForm (call : Caller ε σ) (loc : Option Location) : Form → Exec ε σ (Value ε)
  | .ident name => Exec.read (.name name)
  | .member object member => Exec.read (object.path.append member.path)
  | .group expr => evaluate call expr
  | .number text => do return .number (← Exec.ofFailing (Literal.number text))
  | .string text => do return .string (← Exec.ofExcept (Literal.string text))
  | .boolean text => do return .boolean (← Exec.ofExcept (Literal.boolean text))
  | .null => pure .null
  | .call callee args => do
    let f ← Exec.ofExcept (asFunction (← Exec.resolve callee.path))
    let values ← evaluateAll call args
    invoke call f values loc
  | .ternary condition thenBranch elseBranch => do
    match ← evaluate call condition with
    | .boolean true => evaluate call thenBranch
    | .boolean false => evaluate call elseBranch
    | _ => Exec.fail .conditionNotBoolean
  | .assign target op value => do
    let operand ← evaluate call value
    Exec.modifySlot target.path (assigned op operand)
    pure .null
  | .chain _ first rest => do evaluateRest call (← evaluate call first) rest
  | .unary op operand => do Exec.ofFailing ((← evaluate call operand).applyUnary op)
  | form => Exec.breakDown (.unsupported (.expression form.label))

/-- The values of expressions, from left to right. -/
def evaluateAll (call : Caller ε σ) : List Node → Exec ε σ (List (Value ε))
  | [] => pure []
  | node :: rest => do
    let v ← evaluate call node
    let vs ← evaluateAll call rest
    pure (v :: vs)

/-- The value of a run of operators that starts from `v`. -/
def evaluateRest (call : Caller ε σ) (v : Value ε) : List (String × Node) → Exec ε σ (Value ε)
  | [] => pure v
  | (op, node) :: rest => do
    let operand ← evaluate call node
    evaluateRest call (← Exec.ofFailing (v.applyOperator op operand)) rest

end

/-- Declares a function as a constant. -/
def declareFunction (function : ScriptFunction) : Exec ε σ Unit := do
  if !function.params.Nodup then Exec.fail (.repeatedParameter function.name)
  let id ← Exec.fresh
  Exec.define ⟨function.name, false,
    .function ⟨.script id function, some function.params.length, function.name⟩⟩

mutual

/-- Runs a statement. -/
def execute (call : Caller ε σ) : Node → Exec ε σ (Outcome ε)
  | ⟨loc, form⟩ => do
    Exec.visit ⟨loc, form⟩
    Exec.located loc (executeForm call loc form)

/-- Runs a statement that stands at `loc`. -/
def executeForm (call : Caller ε σ) (loc : Option Location) : Form → Exec ε σ (Outcome ε)
  | .script statements => executeAll call (.value .null) statements
  | .expression expr => do return .value (← evaluate call expr)
  | .block statements => Exec.nested (executeAll call (.value .null) statements)
  | .function name params body source => do
    declareFunction ⟨name, params, body, source⟩
    return .value .null
  | .declaration name value isMutable => do
    let v ← evaluate call value
    Exec.define ⟨name, isMutable, v⟩
    return .value .null
  | .ret none => return .returned .null
  | .ret (some expr) => do return .returned (← evaluate call expr)
  | .bare => Exec.breakDown (.unsupported (.statement Form.bare.label))
  | form => do return .value (← evaluate call ⟨loc, form⟩)

/-- Runs statements in order, up to the first `return`; `last` is what came before them. -/
def executeAll (call : Caller ε σ) (last : Outcome ε) : List Node → Exec ε σ (Outcome ε)
  | [] => pure last
  | node :: rest => do
    match ← execute call node with
    | .returned v => pure (.returned v)
    | .value v => executeAll call (.value v) rest

end

/-- Refuses a wrong number of arguments. -/
def checkArity (f : Function ε) (args : List (Value ε)) : Except Cause Unit :=
  match f.arity with
  | none => .ok ()
  | some n => if args.length = n then .ok () else .error (.wrongCount n args.length)

/-- Calls a function, with at most `depth` calls open at once. -/
def callFunction (host : Host ε σ) : Nat → Caller ε σ
  | 0, _, _ => Exec.breakDown .callDepth
  | depth + 1, f, args => do
    Exec.ofExcept (checkArity f args)
    match f.callback with
    | .script _ function =>
      let own ← Exec.copyAll args
      Exec.isolated (.ofParams function.params own) do
        match ← executeAll (callFunction host depth) (.value .null) function.body.statements with
        | .returned v => pure v
        | .value _ => pure .null
    | .builtin b => b.run args
    | .host e =>
      match ← host.ask e args with
      | .value v => pure v
      | .fail f => throw (.ofFailure f)
      | .call g args => callFunction host depth g args
      | .callAlone g args => Exec.isolated .empty (callFunction host depth g args)

end Eval

end Scriptlet
