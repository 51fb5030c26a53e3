import Scriptlet.Proofs.Failures
import Scriptlet.Proofs.StandingForms

/-!
# The trace of an error is the call stack

An error gets its place and its trace on its way out: every node that it leaves may give it a place,
and every call adds itself.  `evaluateOn`, `executeOn` and `callFunctionOn` do without this.  They are
handed the stack of all that is under way, the calls and the nodes, and an error is made where it is
raised, from the stack at that moment (`CallStack.raise`).  Nothing changes it afterwards.

Both ways come to the same end wherever the code is read from sources
(`Rule.outcome_run_eq`): there every node that can fail has a location.
-/

namespace Scriptlet

set_option autoImplicit false

variable {ε σ : Type}

/-! ## Stacks -/

/-- What is under way in a run: a node that is evaluated or executed, or a call. -/
inductive Activity (ε : Type) where
  | node (node : Node)
  | call (frame : CallFrame ε)

namespace Activity

/-- The node that is evaluated or executed. -/
def node? : Activity ε → Option Node
  | node n => some n
  | call _ => none

/-- The call that is open. -/
def call? : Activity ε → Option (CallFrame ε)
  | node _ => none
  | call frame => some frame

end Activity

/-- All that is under way at a moment of a run, innermost first. -/
structure CallStack (ε : Type) where
  activities : List (Activity ε)

namespace CallStack

/-- The stack before a run. -/
def empty : CallStack ε :=
  ⟨[]⟩

/-- The stack while a node is evaluated or executed. -/
def enter (s : CallStack ε) (node : Node) : CallStack ε :=
  ⟨.node node :: s.activities⟩

/-- The stack while a call is open. -/
def call (s : CallStack ε) (frame : CallFrame ε) : CallStack ε :=
  ⟨.call frame :: s.activities⟩

/-- The location of the innermost node. -/
def loc (s : CallStack ε) : Option Location :=
  (s.activities.findSome? Activity.node?).bind Node.loc

/-- The calls that are open, innermost first. -/
def calls (s : CallStack ε) : List (CallFrame ε) :=
  s.activities.filterMap Activity.call?

/-- A failure that happens now. -/
def raise (s : CallStack ε) : Failure → Fault ε
  | .error cause => .error ⟨cause, s.loc, s.calls⟩
  | .breakdown b => .breakdown b

/-- A computation that makes no call and evaluates no node; it fails with the stack at hand. -/
def raising {α : Type} (s : CallStack ε) (x : Exec ε σ α) : Exec ε σ α :=
  Exec.adapt (fun _ fault => s.raise fault.failure) x

@[simp] theorem loc_enter (s : CallStack ε) (node : Node) : (s.enter node).loc = node.loc := rfl

@[simp] theorem loc_call (s : CallStack ε) (frame : CallFrame ε) : (s.call frame).loc = s.loc := rfl

@[simp] theorem calls_enter (s : CallStack ε) (node : Node) : (s.enter node).calls = s.calls := rfl

@[simp] theorem calls_call (s : CallStack ε) (frame : CallFrame ε) :
    (s.call frame).calls = frame :: s.calls := rfl

end CallStack

/-! ## Evaluation on a stack -/

/-- How functions are called on a stack, on which the call is open already. -/
abbrev StackCaller (ε σ : Type) : Type :=
  CallStack ε → Caller ε σ

namespace Eval

variable [BEq ε]

mutual

/-- The value of an expression. -/
def evaluateOn (call : StackCaller ε σ) (s : CallStack ε) : Node → Exec ε σ (Value ε)
  | ⟨loc, form⟩ => do
    Exec.visit ⟨loc, form⟩
    evaluateFormOn call (s.enter ⟨loc, form⟩) loc form

/-- The value of an expression that stands at `loc`; it is on the stack already. -/
def evaluateFormOn (call : StackCaller ε σ) (s : CallStack ε) (loc : Option Location) :
    Form → Exec ε σ (Value ε)
  | .ident name => s.raising (Exec.read (.name name))
  | .member object member => s.raising (Exec.read (object.path.append member.path))
  | .group expr => evaluateOn call s expr
  | .number text => do return .number (← s.raising (Exec.ofFailing (Literal.number text)))
  | .string text => do return .string (← s.raising (Exec.ofExcept (Literal.string text)))
  | .boolean text => do return .boolean (← s.raising (Exec.ofExcept (Literal.boolean text)))
  | .null => pure .null
  | .call callee args => do
    let slot ← s.raising (Exec.resolve callee.path)
    let f ← s.raising (Exec.ofExcept (asFunction slot))
    let values ← evaluateAllOn call s args
    call (s.call ⟨f.name, values, loc⟩) f values
  | .ternary condition thenBranch elseBranch => do
    match ← evaluateOn call s condition with
    | .boolean true => evaluateOn call s thenBranch
    | .boolean false => evaluateOn call s elseBranch
    | _ => s.raising (Exec.fail .conditionNotBoolean)
  | .assign target op value => do
    let operand ← evaluateOn call s value
    s.raising (Exec.modifySlot target.path (assigned op operand))
    pure .null
  | .chain _ first rest => do evaluateRestOn call s (← evaluateOn call s first) rest
  | .unary op operand => do
    let v ← evaluateOn call s operand
    s.raising (Exec.ofFailing (v.applyUnary op))
  | form => s.raising (Exec.breakDown (.unsupported (.expression form.label)))

/-- The values of expressions, from left to right. -/
def evaluateAllOn (call : StackCaller ε σ) (s : CallStack ε) :
    List Node → Exec ε σ (List (Value ε))
  | [] => pure []
  | node :: rest => do
    let v ← evaluateOn call s node
    let vs ← evaluateAllOn call s rest
    pure (v :: vs)

/-- The value of a run of operators that starts from `v`. -/
def evaluateRestOn (call : StackCaller ε σ) (s : CallStack ε) (v : Value ε) :
    List (String × Node) → Exec ε σ (Value ε)
  | [] => pure v
  | (op, node) :: rest => do
    let operand ← evaluateOn call s node
    let u ← s.raising (Exec.ofFailing (v.applyOperator op operand))
    evaluateRestOn call s u rest

end

mutual

/-- Runs a statement. -/
def executeOn (call : StackCaller ε σ) (s : CallStack ε) : Node → Exec ε σ (Outcome ε)
  | ⟨loc, form⟩ => do
    Exec.visit ⟨loc, form⟩
    executeFormOn call (s.enter ⟨loc, form⟩) loc form

/-- Runs a statement that stands at `loc`; it is on the stack already. -/
def executeFormOn (call : StackCaller ε σ) (s : CallStack ε) (loc : Option Location) :
    Form → Exec ε σ (Outcome ε)
  | .script statements => executeAllOn call s (.value .null) statements
  | .expression expr => do return .value (← evaluateOn call s expr)
  | .block statements => Exec.nested (executeAllOn call s (.value .null) statements)
  | .function name params body source => do
    s.raising (declareFunction ⟨name, params, body, source⟩)
    return .value .null
  | .declaration name value isMutable => do
    let v ← evaluateOn call s value
    s.raising (Exec.define ⟨name, isMutable, v⟩)
    return .value .null
  | .ret none => return .returned .null
  | .ret (some expr) => do return .returned (← evaluateOn call s expr)
  | .bare => s.raising (Exec.breakDown (.unsupported (.statement Form.bare.label)))
  | form => do return .value (← evaluateOn call s ⟨loc, form⟩)

/-- Runs statements in order, up to the first `return`; `last` is what came before them. -/
def executeAllOn (call : StackCaller ε σ) (s : CallStack ε) (last : Outcome ε) :
    List Node → Exec ε σ (Outcome ε)
  | [] => pure last
  | node :: rest => do
    match ← executeOn call s node with
    | .returned v => pure (.returned v)
    | .value v => executeAllOn call s (.value v) rest

end

/-- Calls a function, with at most `depth` calls open at once. -/
def callFunctionOn (host : Host ε σ) : Nat → StackCaller ε σ
  | 0, s, _, _ => s.raising (Exec.breakDown .callDepth)
  | depth + 1, s, f, args => do
    s.raising (Exec.ofExcept (checkArity f args))
    match f.callback with
    | .script _ function =>
      let own ← s.raising (Exec.copyAll args)
      Exec.isolated (.ofParams function.params own) do
        match ← executeAllOn (callFunctionOn host depth) s (.value .null)
            function.body.statements with
        | .returned v => pure v
        | .value _ => pure .null
    | .builtin b => s.raising (b.run args)
    | .host e =>
      match ← s.raising (host.ask e args) with
      | .value v => pure v
      | .fail f => throw (s.raise f)
      | .call g args => callFunctionOn host depth s g args
      | .callAlone g args => Exec.isolated .empty (callFunctionOn host depth s g args)

end Eval

/-- Runs the tree of a source on a stack of its own, with at most `depth` calls open at once. -/
def Rule.runOn [BEq ε] (host : Host ε σ) (depth : Nat) : Rule → Node → Exec ε σ (Value ε)
  | .expression, node => Eval.evaluateOn (Eval.callFunctionOn host depth) .empty node
  | .script, node => do
    return (← Eval.executeOn (Eval.callFunctionOn host depth) .empty node).unwrap

/-! ## Code from sources -/

/-- A node of the tree of a source. -/
def Node.HasSource (node : Node) : Prop :=
  ∃ (rule : Rule) (source : String) (root : Node) (i : Nat),
    Parser.parse rule source = .ok root ∧ root.Stands i node

/-- A standard function, or a script function whose body is a node of the tree of a source. -/
def Function.HasSource (f : Function ε) : Prop :=
  match f.callback with
  | .script _ function => function.body.node.HasSource
  | .builtin _ => True
  | .host _ => False

namespace Node.HasSource

variable {node : Node}

theorem child (h : node.HasSource) {c : Node} (hc : .node c ∈ node.form.items) : c.HasSource := by
  obtain ⟨rule, source, root, i, hp, hnode⟩ := h
  obtain ⟨j, hj⟩ := Item.exists_mem_nodes hc i
  exact ⟨rule, source, root, j, hp, .child hnode hj⟩

/-- Only a script without statements has no location. -/
theorem located (h : node.HasSource) : node.loc.isSome ∨ node.form = .script [] := by
  obtain ⟨rule, source, root, i, hp, hnode⟩ := h
  refine or_iff_not_imp_right.2 fun hform => ?_
  obtain ⟨s, -, hloc⟩ := (((Parser.nodes_located hp).2.2 i node hnode).2.2 hform).loc
  rw [hloc]
  rfl

end Node.HasSource

theorem Parser.hasSource {rule : Rule} {source : String} {node : Node}
    (h : parse rule source = .ok node) : node.HasSource :=
  ⟨rule, source, node, 0, h, .root⟩

/-! ## Unwinding -/

namespace CallStack

/-- What becomes of an error on its way out of all that is under way. -/
def unwind (s : CallStack ε) : Fault ε → Fault ε
  | .error e => .error { e with loc := e.loc.or s.loc, trace := e.trace ++ s.calls }
  | .breakdown b => .breakdown b

variable (s : CallStack ε)

theorem unwind_ofFailure (failure : Failure) : s.unwind (.ofFailure failure) = s.raise failure := by
  cases failure <;> rfl

/-- A call adds itself to the trace on the way out. -/
theorem unwind_through (frame : CallFrame ε) (fault : Fault ε) :
    s.unwind (fault.through frame) = (s.call frame).unwind fault := by
  cases fault with
  | breakdown b => rfl
  | error e => simp [unwind, Fault.through]

/-- A node with a location is the last one that may give an error its place. -/
theorem unwind_attach {node : Node} (h : node.loc.isSome) (fault : Fault ε) :
    s.unwind (fault.attach node.loc) = (s.enter node).unwind fault := by
  obtain ⟨loc, hloc⟩ := Option.isSome_iff_exists.1 h
  cases fault with
  | breakdown b => rfl
  | error e => cases he : e.loc <;> simp [unwind, Fault.attach, hloc, he]

@[simp] theorem unwind_empty (fault : Fault ε) : (empty : CallStack ε).unwind fault = fault := by
  cases fault with
  | breakdown b => rfl
  | error e => simp [unwind, empty, loc, calls]

end CallStack

namespace Exec

variable {α β : Type}

/-- The errors of a computation have no place and no trace yet. -/
def Bare (x : Exec ε σ α) : Prop :=
  ∀ w fault, (x.outcome w).1 = .error fault → fault = .ofFailure fault.failure

namespace Bare

variable {x : Exec ε σ α}

theorem pure (a : α) : Bare (pure a : Exec ε σ α) :=
  fun _ _ h => nomatch h

theorem ofFailing (r : Except Failure α) : Bare (ofFailing r : Exec ε σ α) := by
  intro w fault h
  rw [outcome_ofFailing] at h
  obtain ⟨failure, -, rfl⟩ := mapError_eq_error.1 h
  rw [Fault.failure_ofFailure]

theorem breakDown (b : Breakdown) : Bare (breakDown b : Exec ε σ α) :=
  ofFailing (.error (.breakdown b))

theorem fail (cause : Cause) : Bare (fail cause : Exec ε σ α) :=
  ofFailing (.error (.error cause))

theorem ofExcept (r : Except Cause α) : Bare (ofExcept r : Exec ε σ α) := by
  cases r with
  | ok a => exact pure a
  | error cause => exact fail cause

theorem ofBreaking (r : Except Breakdown α) : Bare (ofBreaking r : Exec ε σ α) := by
  cases r with
  | ok a => exact pure a
  | error b => exact breakDown b

theorem bind (hx : Bare x) {f : α → Exec ε σ β} (hf : ∀ a, Bare (f a)) : Bare (x >>= f) := by
  intro w fault h
  rw [outcome_bind] at h
  have hbare := hx w
  generalize x.outcome w = r at h hbare
  obtain ⟨e | a, after⟩ := r
  · exact hbare fault (congrArg Except.error (Except.error.inj h))
  · exact hf a after fault h

/-- A computation that never fails. -/
theorem of_ok (h : ∀ w, ∃ a, (x.outcome w).1 = .ok a) : Bare x := by
  intro w fault hfault
  obtain ⟨a, ha⟩ := h w
  rw [ha] at hfault
  exact nomatch hfault

theorem resolve (path : Path) : Bare (resolve path : Exec ε σ (Slot ε)) :=
  fun w => ofExcept (w.scope.resolve w.store path) w

theorem read (path : Path) : Bare (read path : Exec ε σ (Value ε)) :=
  (resolve path).bind fun slot w => ofBreaking (w.store.copy slot.value) w

theorem copyAll (vs : List (Value ε)) : Bare (copyAll vs : Exec ε σ (List (Value ε))) :=
  fun w => ofBreaking (w.store.copyAll vs) w

theorem define (slot : Slot ε) : Bare (define slot : Exec ε σ Unit) :=
  fun w => (ofExcept (w.scope.define slot)).bind (fun _ => of_ok fun _ => ⟨(), rfl⟩) w

theorem modifySlot (path : Path) (f : Slot ε → Except Failure (Slot ε)) :
    Bare (modifySlot path f : Exec ε σ Unit) :=
  fun w => (ofFailing (w.scope.modify w.store path f)).bind (fun _ => of_ok fun _ => ⟨(), rfl⟩) w

theorem declareFunction (function : ScriptFunction) :
    Bare (Eval.declareFunction function : Exec ε σ Unit) := by
  have declare : Bare (do
      let id ← Exec.fresh
      Exec.define ⟨function.name, false, .function (function.made id)⟩ : Exec ε σ Unit) :=
    Bare.bind (of_ok fun w => ⟨w.made, rfl⟩) fun _ => define _
  rw [Eval.declareFunction]
  split
  · exact (fail _).bind fun _ => declare
  · exact declare

/-- A standard function fails by itself. -/
theorem builtin (b : Builtin) (args : List (Value ε)) :
    Bare (b.run args : Exec ε σ (Value ε)) := by
  unfold Builtin.run
  split
  case h_1 | h_2 => exact Bare.bind (of_ok fun _ => ⟨(), rfl⟩) fun _ => pure _
  case h_4 | h_5 | h_6 => exact pure _
  all_goals exact fail _

end Bare

end Exec

/-- The terms of code that was read from sources, where objects are shared only if `S`. -/
def Terms.sourced (S : Prop) : Terms ε :=
  .failing Function.HasSource S (fun _ => True) fun _ => False

namespace Exec

variable [BEq ε] {α β : Type}

/-- In worlds of functions with sources `x` keeps to its terms, and `y`, which has the stack `s` at
hand, comes to the end that `x` comes to, with errors that have unwound through `s`. -/
structure Unwinds (S : Prop) (s : CallStack ε) (Q : α → Prop) (x y : Exec ε σ α) : Prop where
  follows : Follows (Terms.sourced S) true Q x x
  outcome : ∀ w, w.Holds Function.HasSource S →
    y.outcome w = ((x.outcome w).1.mapError s.unwind, (x.outcome w).2)

namespace Unwinds

variable {S : Prop} {s : CallStack ε} {Q : α → Prop} {R : β → Prop} {x y : Exec ε σ α}

theorem pure {a : α} (h : Q a) : Unwinds S s Q (pure a : Exec ε σ α) (pure a) :=
  ⟨.pure h, fun _ _ => rfl⟩

theorem bind {f g : α → Exec ε σ β} (hx : Unwinds S s Q x y)
    (hf : ∀ a, Q a → Unwinds S s R (f a) (g a)) : Unwinds S s R (x >>= f) (y >>= g) := by
  refine ⟨hx.follows.bind fun a ha => (hf a ha).follows, fun w hw => ?_⟩
  have hcourse := hx.follows w hw
  rw [outcome_bind, outcome_bind, hx.outcome w hw]
  generalize x.outcome w = r at hcourse
  obtain ⟨e | a, after⟩ := r
  · rfl
  · exact (hf a (hcourse.result a rfl)).outcome after hcourse.holds

/-- What is raised with the stack at hand is what an error becomes that unwinds through it. -/
theorem raising (hx : Follows (Terms.sourced S) true Q x x) (hb : Bare x) :
    Unwinds S s Q x (s.raising x) := by
  refine ⟨hx, fun w hw => ?_⟩
  have hbare := hb w
  rw [CallStack.raising, outcome_adapt]
  generalize x.outcome w = r at hbare
  obtain ⟨e | a, after⟩ := r
  · have he : s.raise e.failure = s.unwind e := by
      rw [← s.unwind_ofFailure, ← hbare e rfl]
    exact congrArg (fun fault => (Except.error fault, after)) he
  · rfl

theorem fail {cause : Cause} :
    Unwinds S s Q (fail cause : Exec ε σ α) (s.raising (Exec.fail cause)) :=
  raising (.throw trivial) (.fail cause)

theorem breakDown {b : Breakdown} :
    Unwinds S s Q (breakDown b : Exec ε σ α) (s.raising (Exec.breakDown b)) :=
  raising (.throw trivial) (.breakDown b)

theorem visit (n : Node) :
    Unwinds S s (fun _ => True) (visit n : Exec ε σ Unit) (Exec.visit n) :=
  ⟨.visit n, fun _ _ => rfl⟩

/-- Where an error is changed on its way out of what is under way on `t`. -/
theorem adapt {t : CallStack ε} {f : Store ε → Fault ε → Fault ε} (hx : Unwinds S t Q x y)
    (hf : ∀ store fault, (f store fault).failure = fault.failure)
    (ht : ∀ w store fault, (x.outcome w).1 = .error fault →
      s.unwind (f store fault) = t.unwind fault) :
    Unwinds S s Q (adapt f x) y := by
  refine ⟨hx.follows.adapt hf, fun w hw => ?_⟩
  have hunwind := ht w
  rw [hx.outcome w hw, outcome_adapt]
  generalize x.outcome w = r at hunwind
  obtain ⟨e | a, after⟩ := r
  · exact congrArg (fun fault => (Except.error fault, after)) (hunwind after.store e rfl).symm
  · rfl

/-- A node that is left has given an error its place, if it has a location. -/
theorem located {n : Node} (hx : Unwinds S (s.enter n) Q x y)
    (h : n.loc.isSome ∨ ∀ w e, (x.outcome w).1 ≠ .error (.error e)) :
    Unwinds S s Q (located n.loc x) y := by
  refine hx.adapt (fun _ fault => Fault.failure_attach _ fault) fun w _ fault hfault => ?_
  rcases h with hloc | hnone
  · exact s.unwind_attach hloc fault
  · cases fault with
    | breakdown b => rfl
    | error e => exact (hnone w e hfault).elim

/-- A call that is left has added itself to the trace. -/
theorem invoke {call : Caller ε σ} {f : Function ε} {args : List (Value ε)}
    {site : Option Location} {y : Exec ε σ (Value ε)} {Q : Value ε → Prop}
    (hargs : ∀ v ∈ args, v.Every Function.HasSource)
    (hx : Unwinds S (s.call ⟨f.name, args, site⟩) Q (call f args) y) :
    Unwinds S s Q (Eval.invoke call f args site) y := by
  have hout : ∀ store fault, Eval.outOf f args site store fault =
      fault.through ⟨f.name, args, site⟩ := by
    intro store fault
    rw [Eval.outOf, Store.copyAll_every hargs]
  refine hx.adapt (fun store fault => ?_) fun _ store fault _ => ?_
  · rw [hout, Fault.failure_through]
  · rw [hout, s.unwind_through]

theorem nested (hx : Unwinds S s Q x y) : Unwinds S s Q (nested x) (nested y) := by
  refine ⟨.nested hx.follows, fun w hw => ?_⟩
  have hpush : { w with scope := w.scope.push }.Holds Function.HasSource S :=
    ⟨Scope.All.push hw.scope, hw.store⟩
  rw [outcome_nested, outcome_nested, hx.outcome _ hpush]

theorem isolated {scope : Scope ε} (hs : scope.Holds Function.HasSource False)
    (hx : Unwinds False s Q x y) : Unwinds S s Q (isolated scope x) (isolated scope y) := by
  refine ⟨.isolated hs hx.follows, fun w _ => ?_⟩
  rw [outcome_isolated, outcome_isolated, hx.outcome _ ⟨hs, False.elim⟩]

end Unwinds

end Exec

/-! ## Runs -/

namespace Eval

open Exec

variable [BEq ε] {S : Prop} {call : Caller ε σ} {callOn : StackCaller ε σ}

/-- Two ways to call functions with sources, the second of which has the stack at hand. -/
def UnwindingCallers (S : Prop) (call : Caller ε σ) (callOn : StackCaller ε σ) : Prop :=
  ∀ s f args, f.HasSource → (∀ v ∈ args, v.Every Function.HasSource) →
    Unwinds S s (Value.Every Function.HasSource) (call f args) (callOn s f args)

mutual

theorem evaluate_unwinds (hc : UnwindingCallers S call callOn) (s : CallStack ε) :
    (node : Node) → node.HasSource →
      Unwinds S s (Value.Every Function.HasSource) (evaluate call node) (evaluateOn callOn s node)
  | ⟨loc, form⟩, h => by
    rw [evaluate, evaluateOn]
    apply (Unwinds.visit _).bind
    intro _ _
    refine (evaluateForm_unwinds hc _ loc form h).located (n := ⟨loc, form⟩) ?_
    refine h.located.imp_right fun hform w e he => ?_
    obtain rfl : form = .script [] := hform
    rw [evaluateForm] at he
    · exact nomatch he
    all_goals simp

theorem evaluateForm_unwinds (hc : UnwindingCallers S call callOn) (s : CallStack ε)
    (loc : Option Location) :
    (form : Form) → Node.HasSource ⟨loc, form⟩ →
      Unwinds S s (Value.Every Function.HasSource) (evaluateForm call loc form)
        (evaluateFormOn callOn s loc form)
  | .ident name, _ => by
    rw [evaluateForm, evaluateFormOn]
    exact .raising (.read fun _ _ => trivial) (.read _)
  | .member object member, _ => by
    rw [evaluateForm, evaluateFormOn]
    exact .raising (.read fun _ _ => trivial) (.read _)
  | .group expr, h => by
    rw [evaluateForm, evaluateFormOn]
    exact evaluate_unwinds hc s expr (h.child (by simp [Form.items]))
  | .number text, _ => by
    rw [evaluateForm, evaluateFormOn]
    refine Unwinds.bind (Q := fun _ => True) ?_ fun _ _ => .pure trivial
    exact .raising (.ofFailing (fun _ _ => trivial) fun _ _ => trivial) (.ofFailing _)
  | .string text, _ => by
    rw [evaluateForm, evaluateFormOn]
    refine Unwinds.bind (Q := fun _ => True) ?_ fun _ _ => .pure trivial
    exact .raising (.ofExcept (fun _ _ => trivial) fun _ _ => trivial) (.ofExcept _)
  | .boolean text, _ => by
    rw [evaluateForm, evaluateFormOn]
    refine Unwinds.bind (Q := fun _ => True) ?_ fun _ _ => .pure trivial
    exact .raising (.ofExcept (fun _ _ => trivial) fun _ _ => trivial) (.ofExcept _)
  | .null, _ => by rw [evaluateForm, evaluateFormOn]; exact .pure trivial
  | .call callee args, h => by
    rw [evaluateForm, evaluateFormOn]
    apply (Unwinds.raising (.resolve fun _ _ => trivial) (.resolve _)).bind
    intro slot hslot
    refine Unwinds.bind (Q := Function.HasSource) (.raising (.ofExcept
      (fun f hf => asFunction_holds hslot hf) fun _ _ => trivial) (.ofExcept _)) fun f hf => ?_
    apply (evaluateAll_unwinds hc s args fun arg harg => h.child (Form.mem_items_arg harg)).bind
    intro values hvalues
    exact .invoke hvalues (hc _ f values hf hvalues)
  | .ternary condition thenBranch elseBranch, h => by
    rw [evaluateForm, evaluateFormOn]
    apply (evaluate_unwinds hc s condition (h.child (by simp [Form.items]))).bind
    intro v _
    have hthen := evaluate_unwinds hc s thenBranch (h.child (by simp [Form.items]))
    have helse := evaluate_unwinds hc s elseBranch (h.child (by simp [Form.items]))
    cases v with
    | boolean b =>
      cases b with
      | true => exact hthen
      | false => exact helse
    | _ => exact .fail
  | .assign target op value, h => by
    rw [evaluateForm, evaluateFormOn]
    apply (evaluate_unwinds hc s value (h.child (by simp [Form.items]))).bind
    intro operand ho
    have hassign : Follows (Terms.sourced S) true (fun _ => True)
        (modifySlot target.path (assigned op operand) : Exec ε σ Unit)
        (modifySlot target.path (assigned op operand)) :=
      .modifySlot trivial (fun _ _ => trivial) (fun _ _ => trivial) ho
    exact (Unwinds.raising hassign (.modifySlot _ _)).bind fun _ _ => .pure trivial
  | .chain _ first rest, h => by
    rw [evaluateForm, evaluateFormOn]
    apply (evaluate_unwinds hc s first (h.child (by simp [Form.items]))).bind
    intro v hv
    exact evaluateRest_unwinds hc s v hv rest fun p hp => h.child (Form.mem_items_operand hp)
  | .unary op operand, h => by
    rw [evaluateForm, evaluateFormOn]
    apply (evaluate_unwinds hc s operand (h.child (by simp [Form.items]))).bind
    intro v _
    exact .raising (.ofFailing (fun u hu => (Value.applyUnary_scalar hu).every)
      fun _ _ => trivial) (.ofFailing _)
  | .bare, _ | .expression _, _ | .block _, _ | .function _ _ _ _, _ | .declaration _ _ _, _
  | .ret _, _ | .script _, _ => by
    rw [evaluateForm, evaluateFormOn]
    · exact .breakDown
    all_goals simp

theorem evaluateAll_unwinds (hc : UnwindingCallers S call callOn) (s : CallStack ε) :
    (nodes : List Node) → (∀ node ∈ nodes, node.HasSource) →
      Unwinds S s (fun vs => ∀ v ∈ vs, v.Every Function.HasSource) (evaluateAll call nodes)
        (evaluateAllOn callOn s nodes)
  | [], _ => by rw [evaluateAll, evaluateAllOn]; exact .pure (List.forall_mem_nil _)
  | node :: rest, h => by
    rw [List.forall_mem_cons] at h
    rw [evaluateAll, evaluateAllOn]
    apply (evaluate_unwinds hc s node h.1).bind
    intro v hv
    apply (evaluateAll_unwinds hc s rest h.2).bind
    intro vs hvs
    exact .pure (List.forall_mem_cons.2 ⟨hv, hvs⟩)

theorem evaluateRest_unwinds (hc : UnwindingCallers S call callOn) (s : CallStack ε)
    (v : Value ε) (hv : v.Every Function.HasSource) :
    (rest : List (String × Node)) → (∀ p ∈ rest, p.2.HasSource) →
      Unwinds S s (Value.Every Function.HasSource) (evaluateRest call v rest)
        (evaluateRestOn callOn s v rest)
  | [], _ => by rw [evaluateRest, evaluateRestOn]; exact .pure hv
  | (op, node) :: rest, h => by
    rw [List.forall_mem_cons] at h
    rw [evaluateRest, evaluateRestOn]
    apply (evaluate_unwinds hc s node h.1).bind
    intro operand _
    refine Unwinds.bind (Q := Value.Every Function.HasSource) (.raising (.ofFailing
      (fun u hu => (Value.applyOperator_scalar hu).every) fun _ _ => trivial) (.ofFailing _))
      fun u hu => ?_
    exact evaluateRest_unwinds hc s u hu rest h.2

end

mutual

theorem execute_unwinds (hc : UnwindingCallers S call callOn) (s : CallStack ε) :
    (node : Node) → node.HasSource →
      Unwinds S s (HeldOutcome (Terms.sourced S)) (execute call node) (executeOn callOn s node)
  | ⟨loc, form⟩, h => by
    rw [execute, executeOn]
    apply (Unwinds.visit _).bind
    intro _ _
    refine (executeForm_unwinds hc _ loc form h).located (n := ⟨loc, form⟩) ?_
    refine h.located.imp_right fun hform w e he => ?_
    obtain rfl : form = .script [] := hform
    rw [executeForm, executeAll] at he
    exact nomatch he

theorem executeForm_unwinds (hc : UnwindingCallers S call callOn) (s : CallStack ε)
    (loc : Option Location) :
    (form : Form) → Node.HasSource ⟨loc, form⟩ →
      Unwinds S s (HeldOutcome (Terms.sourced S)) (executeForm call loc form)
        (executeFormOn callOn s loc form)
  | .script statements, h => by
    rw [executeForm, executeFormOn]
    refine executeAll_unwinds hc s (.value .null) trivial statements fun node hnode => h.child ?_
    exact List.mem_map_of_mem hnode
  | .expression expr, h => by
    rw [executeForm, executeFormOn]
    apply (evaluate_unwinds hc s expr (h.child (by simp [Form.items]))).bind
    intro _ hv
    exact .pure hv
  | .block statements, h => by
    rw [executeForm, executeFormOn]
    refine .nested (executeAll_unwinds hc s (.value .null) trivial statements fun node hnode => ?_)
    exact h.child (Form.mem_items_block hnode)
  | .function name params body source, h => by
    rw [executeForm, executeFormOn]
    have hdeclare : Follows (Terms.sourced S) true (fun _ => True)
        (declareFunction ⟨name, params, body, source⟩ : Exec ε σ Unit)
        (declareFunction ⟨name, params, body, source⟩) :=
      declareFunction_follows fun _ => h.child Form.mem_items_body
    exact (Unwinds.raising hdeclare (.declareFunction _)).bind fun _ _ => .pure trivial
  | .declaration name value isMutable, h => by
    rw [executeForm, executeFormOn]
    apply (evaluate_unwinds hc s value (h.child (by simp [Form.items]))).bind
    intro v hv
    have hdefine : Follows (Terms.sourced S) true (fun _ => True)
        (define ⟨name, isMutable, v⟩ : Exec ε σ Unit) (define ⟨name, isMutable, v⟩) := .define hv
    exact (Unwinds.raising hdefine (.define _)).bind fun _ _ => .pure trivial
  | .ret none, _ => by rw [executeForm, executeFormOn]; exact .pure trivial
  | .ret (some expr), h => by
    rw [executeForm, executeFormOn]
    apply (evaluate_unwinds hc s expr (h.child (by simp [Form.items]))).bind
    intro _ hv
    exact .pure hv
  | .bare, _ => by rw [executeForm, executeFormOn]; exact .breakDown
  | .number _, h | .string _, h | .boolean _, h | .null, h | .ident _, h | .member _ _, h
  | .group _, h | .call _ _, h | .ternary _ _ _, h | .assign _ _ _, h | .chain _ _ _, h
  | .unary _ _, h => by
    rw [executeForm, executeFormOn]
    · exact (evaluate_unwinds hc s _ h).bind fun _ hv => .pure hv
    all_goals simp

theorem executeAll_unwinds (hc : UnwindingCallers S call callOn) (s : CallStack ε)
    (last : Outcome ε) (hl : HeldOutcome (Terms.sourced S) last) :
    (nodes : List Node) → (∀ node ∈ nodes, node.HasSource) →
      Unwinds S s (HeldOutcome (Terms.sourced S)) (executeAll call last nodes)
        (executeAllOn callOn s last nodes)
  | [], _ => by rw [executeAll, executeAllOn]; exact .pure hl
  | node :: rest, h => by
    rw [List.forall_mem_cons] at h
    rw [executeAll, executeAllOn]
    apply (execute_unwinds hc s node h.1).bind
    intro o ho
    cases o with
    | returned v => exact .pure ho
    | value v => exact executeAll_unwinds hc s (.value v) ho rest h.2

end

/-- Calls unwind through the stack, on which they are open.  The induction is on the number of calls
that may be open. -/
theorem callFunction_unwinds (host : Host ε σ) (depth : Nat) :
    ∀ S, UnwindingCallers S (callFunction host depth) (callFunctionOn host depth) := by
  induction depth with
  | zero => exact fun _ _ _ _ _ _ => .breakDown
  | succ depth ih =>
    intro S s f args hf hargs
    rw [callFunction, callFunctionOn]
    have harity : Follows (Terms.sourced S) true (fun _ => True)
        (ofExcept (checkArity f args) : Exec ε σ Unit) (ofExcept (checkArity f args)) :=
      .ofExcept (fun _ _ => trivial) fun _ _ => trivial
    apply (Unwinds.raising harity (.ofExcept _)).bind
    intro _ _
    rw [Function.HasSource] at hf
    cases hcallback : f.callback with
    | script id g =>
      rw [hcallback] at hf
      apply (Unwinds.raising (.copyAll hargs) (.copyAll _)).bind
      intro own hown
      subst hown
      have hscope : (Scope.ofParams g.params own).Holds Function.HasSource False :=
        Scope.All.ofParams g.params fun v hv _ => (hargs v hv).holds
      refine .isolated hscope ?_
      refine (executeAll_unwinds (ih False) s (.value .null) trivial g.body.statements
        fun node hnode => hf.child (Form.mem_items_block hnode)).bind fun o ho => ?_
      cases o with
      | returned v => exact .pure ho
      | value v => exact .pure trivial
    | builtin b => exact .raising (builtin_follows b args).defining (.builtin b args)
    | host e =>
      rw [hcallback] at hf
      exact hf.elim

end Eval

variable [BEq ε]

theorem Rule.run_unwinds (host : Host ε σ) (depth : Nat) {rule : Rule} {node : Node}
    (h : node.HasSource) :
    Exec.Unwinds True .empty (Value.Every Function.HasSource) (rule.run host depth node)
      (rule.runOn host depth node) := by
  have hc := Eval.callFunction_unwinds host depth True
  cases rule with
  | expression => exact Eval.evaluate_unwinds hc .empty node h
  | script => exact (Eval.execute_unwinds hc .empty node h).bind fun _ ho => .pure ho

omit [BEq ε] in
theorem Function.IsStandard.hasSource {f : Function ε} (h : f.IsStandard) : f.HasSource := by
  obtain ⟨b, hb⟩ := h
  rw [HasSource, hb]
  trivial

/-- In the worlds that a host supplies functions have sources. -/
theorem Supplied.hasSource {host : Host ε σ} {w : World ε σ} (h : Supplied host w) :
    w.Holds Function.HasSource True :=
  h.holds_of (fun _ => Function.IsStandard.hasSource) fun depth hp hw =>
    ((Rule.run_unwinds host depth (Parser.hasSource hp)).follows _ hw).holds

/-- Where the functions are standard ones or come from
sources, the tree of a source comes to the same end, in the same world, whether errors are given
their place and their trace on the way out or are made from the stack where they are raised: the
trace lists the calls that were open then, innermost first, each with its arguments as they were
passed, and the place is that of the innermost node. -/
theorem Rule.outcome_run_eq (host : Host ε σ) {w : World ε σ}
    (hw : w.Holds Function.HasSource True) {rule : Rule} {source : String} {node : Node}
    (hp : Parser.parse rule source = .ok node) (depth : Nat) :
    (rule.run host depth node).outcome w = (rule.runOn host depth node).outcome w := by
  rw [(rule.run_unwinds host depth (Parser.hasSource hp)).outcome w hw]
  generalize (rule.run host depth node).outcome w = r
  obtain ⟨e | v, after⟩ := r
  · exact congrArg (fun fault => (Except.error fault, after)) (CallStack.unwind_empty e).symm
  · rfl

end Scriptlet
