import Scriptlet.Proofs.CallStack
import Scriptlet.Proofs.Isolation
import Scriptlet.Proofs.ReferenceSessions

/-!
# Calls are isolated

A script function is handed the very objects that its caller has, and may change the fields of its parameters.
It changes no cell of the caller even so: two calls on arguments that show the same values come to the same end,
whatever else stands in the two heaps and however the arguments are shared there (`script_function_isolated`).
The arguments in the trace of an error are the caller's objects too, and they still show what was passed
(`error_trace_is_call_stack`).
-/

namespace Scriptlet

set_option autoImplicit false

namespace Machine

open Run

variable {m m' after after' : Machine} {scope : Nat}

/-! ## Isolation -/

/-- A run by reference hits the limit of open calls where the run on trees does. -/
theorem Ends.hitsLimit {R : Heap Empty → Held Empty → Value Empty → List Nat → Prop} {heap : Heap Empty}
    {old : Nat} {own : List Nat} {r : Except Fault (Held Empty)}
    {q : Except (Scriptlet.Fault Empty) (Value Empty)} (h : Ends R heap old own r q) (hq : HitsLimit q) :
    r = .error (.breakdown .callDepth) := by
  obtain rfl := hq
  cases h with
  | error hfault =>
    cases hfault
    rfl

/-- Cells that are kept keep what is read of a scope. -/
theorem Reached.reads_grows (hm : Reached m scope) (hgrows : m.heap.cells <+: after.heap.cells) (path : Path) :
    after.reads scope path = m.reads scope path := by
  obtain ⟨s, own, hs⟩ := hm.holds
  rw [reads_eq hs, reads_eq (hs.grows hgrows)]

/-- The call on trees that a call by reference follows. -/
theorem callFunction_tree (depth : Nat) (f : Function Empty) (s : Scope Empty) {args : List (Held Empty)}
    {values : List (Value Empty)} (hargs : List.Forall₂ m.heap.Shows args values)
    {r : Except Fault (Held Empty)} (h : (callFunction depth f args).outcome m = (r, after)) :
    ∃ q, (Eval.callFunction Host.none depth f values).outcome (m.world s) = (q, after.world s) ∧
      m.heap.cells <+: after.heap.cells ∧ Ends StandsFor after.heap m.heap.cells.length [] r q := by
  obtain ⟨hworld, hgrows, hends⟩ := callFunction_returns depth f args values m s hargs
  rw [h] at hworld hgrows hends
  exact ⟨_, Prod.ext rfl hworld, hgrows, hends⟩

/-- **Script functions are isolated.**  A script function is called in two machines on arguments that show the
same values, and the functions in them were made before; the arguments may be shared in any way, with each other
and with what else stands in the heaps.  If neither run hits the limit of open calls, both come to the same value
or to the same failure, out of the same calls, up to the numbers of the functions that they make.  They send the
same messages, and every cell of both heaps is what it was: all bindings, and the objects that were passed. -/
theorem script_function_isolated {f : Function Empty} {id : Nat} {function : ScriptFunction}
    (hf : f.callback = .script id function) {args args' : List (Held Empty)} {values : List (Value Empty)}
    (hargs : List.Forall₂ m.heap.Shows args values) (hargs' : List.Forall₂ m'.heap.Shows args' values)
    (hmade : ∀ v ∈ values, v.MadeBefore (min m.made m'.made)) (depth depth' : Nat)
    {r r' : Except Fault (Held Empty)} (h : (callFunction depth f args).outcome m = (r, after))
    (h' : (callFunction depth' f args').outcome m' = (r', after'))
    (hr : r ≠ .error (.breakdown .callDepth)) (hr' : r' ≠ .error (.breakdown .callDepth)) :
    (∃ q q', shownEnd after.heap r = .ok q ∧ shownEnd after'.heap r' = .ok q' ∧
      Agree (Fault.Alike (Function.Renamed m.made m'.made)) (Value.Alike (Function.Renamed m.made m'.made))
        q q') ∧
    (∃ sent, after.effects = m.effects ++ sent ∧ after'.effects = m'.effects ++ sent) ∧
    (m.heap.cells <+: after.heap.cells ∧
      ∀ scope path, Reached m scope → after.reads scope path = m.reads scope path) ∧
    (m'.heap.cells <+: after'.heap.cells ∧
      ∀ scope path, Reached m' scope → after'.reads scope path = m'.reads scope path) := by
  obtain ⟨q, hq, hgrows, hends⟩ := callFunction_tree depth f .empty hargs h
  obtain ⟨q', hq', hgrows', hends'⟩ := callFunction_tree depth' f .empty hargs' h'
  obtain ⟨hagree, hsent, -, -⟩ := callScript_isolated Host.none Host.none hf depth depth' hmade hq hq'
    (mt hends.hitsLimit hr) (mt hends'.hitsLimit hr')
  exact ⟨⟨q, q', hends.shown, hends'.shown, hagree⟩, hsent,
    ⟨hgrows, fun _ path hm => hm.reads_grows hgrows path⟩,
    ⟨hgrows', fun _ path hm => hm.reads_grows hgrows' path⟩⟩

/-- The texts of the fields of an object. -/
def fieldTexts : Value Empty → List String
  | .object fields => fields.map fun field => field.value.text
  | _ => []

/-- The function `function f(o, p, say) { o.a = 2; say(p.a); return p; }`. -/
def changingFunction : Function Empty :=
  let field (name : String) : Node := ⟨none, .member ⟨none, .ident name⟩ ⟨none, .ident "a"⟩⟩
  let body : Block := ⟨none, [
    ⟨none, .expression ⟨none, .assign (field "o") "=" ⟨none, .number "2"⟩⟩⟩,
    ⟨none, .expression ⟨none, .call ⟨none, .ident "say"⟩ [field "p"]⟩⟩,
    ⟨none, .ret (some ⟨none, .ident "p"⟩)⟩]⟩
  ⟨.script 0 ⟨"f", ["o", "p", "say"], body, ""⟩, some 3, "f"⟩

/-- A machine with a function and an object `o`, in whose field `a` is 1. -/
def busyMachine : Machine :=
  { ((defineValue home "o" true (.object [⟨"a", true, .number 1⟩])).outcome initial).2 with made := 1 }

/-- A machine in which two objects have been built that look like that one. -/
def builtMachine : Machine :=
  let build (m : Machine) : Machine := ((build (.object [⟨"a", true, .number 1⟩])).outcome m).2
  { build (build initial) with made := 1 }

/-- Once the function is passed two objects and once the very object of `o`, twice.  It gives back 1 and sends
the same message both times, and `o` stays as it was. -/
theorem script_function_isolated_changing :
    let log : Held Empty := .value (.function Builtin.log.function)
    let run := (callFunction 2 changingFunction [.object 4, .object 7, log]).outcome builtMachine
    let run' := (callFunction 3 changingFunction [.object 4, .object 4, log]).outcome busyMachine
    (busyMachine.heap.slot 5).2 matches .object 4 ∧
      ((shownEnd run.2.heap run.1).toOption.bind Except.toOption).map fieldTexts = some ["1"] ∧
      ((shownEnd run'.2.heap run'.1).toOption.bind Except.toOption).map fieldTexts = some ["1"] ∧
      run.2.effects.length = 1 ∧ run'.2.effects = run.2.effects ∧
      busyMachine.heap.cells <+: run'.2.heap.cells := by
  intro log run run'
  have hfresh : (Value.object [⟨"a", true, .number 1⟩] : Value Empty).Fresh := by
    simp [Value.Fresh, Value.FreshFields]
  have hone : (Value.number 1 : Value Empty).variant ≠ .object := by decide
  have hlog (heap : Heap Empty) : heap.Shows log (.function Builtin.log.function) :=
    ⟨⟨[], .value (by decide)⟩, trivial⟩
  have hfirst : builtMachine.heap.Shows (.object 4) (.object [⟨"a", true, .number 1⟩]) :=
    ⟨⟨_, .object rfl (.mk rfl (.cons (.mk rfl (.value hone)) .nil))⟩, hfresh⟩
  have hsecond : builtMachine.heap.Shows (.object 7) (.object [⟨"a", true, .number 1⟩]) :=
    ⟨⟨_, .object rfl (.mk rfl (.cons (.mk rfl (.value hone)) .nil))⟩, hfresh⟩
  have hbound : busyMachine.heap.Shows (.object 4) (.object [⟨"a", true, .number 1⟩]) :=
    ⟨⟨_, .object rfl (.mk rfl (.cons (.mk rfl (.value hone)) .nil))⟩, hfresh⟩
  have hmade : ∀ v ∈ ([.object [⟨"a", true, .number 1⟩], .object [⟨"a", true, .number 1⟩],
      .function Builtin.log.function] : List (Value Empty)),
      v.MadeBefore (min builtMachine.made busyMachine.made) := by
    simp [Value.MadeBefore, Value.Every, Value.EveryField, Function.MadeBefore, Builtin.function]
  have hends : run.1.isOk ∧ run'.1.isOk := by decide +kernel
  have h := script_function_isolated rfl
    (.cons hfirst (.cons hsecond (.cons (hlog _) .nil)))
    (.cons hbound (.cons hbound (.cons (hlog _) .nil)))
    hmade 2 3 (Prod.mk.eta (p := run)).symm (Prod.mk.eta (p := run')).symm
    (fun he => absurd hends.1 (by rw [he]; exact Bool.false_ne_true))
    (fun he => absurd hends.2 (by rw [he]; exact Bool.false_ne_true))
  obtain ⟨sent, hsent, hsent'⟩ := h.2.1
  exact ⟨by decide +kernel, by decide +kernel, by decide +kernel, by decide +kernel,
    hsent'.trans hsent.symm, h.2.2.2.1⟩

/-! ## Traces -/

/-- **The trace of an error is the call stack.**  In a machine that is reached, let the functions be standard
ones or come from sources.  The tree of a source comes to the end, and leaves the scope in the state, that a run
on trees comes to in which errors are made from the stack where they are raised.  The trace lists the calls that
were open then, innermost first, each with its arguments as they were passed, and the place is that of the
innermost node. -/
theorem error_trace_is_call_stack (hm : Reached m scope) {w : World Empty Unit} (hw : m.shows scope = .ok w)
    (hsources : w.Holds Function.HasSource True) {rule : Rule} {source : String} {node : Node}
    (hp : Parser.parse rule source = .ok node) (depth : Nat) :
    let run := (runTree depth scope rule node).outcome m
    let stacked := (rule.runOn Host.none depth node).outcome w
    shownEnd run.2.heap run.1 = .ok stacked.1 ∧ run.2.shows scope = .ok stacked.2 := by
  intro run stacked
  obtain ⟨s, own, hs⟩ := hm.holds
  obtain rfl : w = m.world s := Except.ok.inj (hw.symm.trans (shows_eq hs))
  rw [show stacked = _ from (rule.outcome_run_eq Host.none hsources hp depth).symm]
  exact (runTree_follows depth rule node).shown hs

/-- The error of the language that is shown. -/
def errorOf? : Except Breakdown (Except (Scriptlet.Fault Empty) (Value Empty)) → Option (Error Empty)
  | .ok (.error (.error e)) => some e
  | _ => none

/-- A function that changes a field of its parameter and then fails, and one that calls the function that it is
passed. -/
def failingFunctions : String :=
  "function inner(p) \x7b p.a = 2; return p.a + true; \x7d
   function outer(f, p) \x7b return f(p); \x7d"

/-- A machine with an object `o`, in whose field `a` is 1. -/
def suppliedMachine : Machine :=
  ((defineValue home "o" false (.object [⟨"a", true, .number 1⟩])).outcome initial).2

/-- That machine with these functions. -/
def failingMachine : Machine :=
  ((runSource home .script failingFunctions).outcome suppliedMachine).2

/-- What is shown of that machine has functions from sources only. -/
theorem failingMachine_shows :
    ∃ w, failingMachine.shows home = .ok w ∧ w.Holds Function.HasSource True := by
  obtain ⟨script, hscript⟩ := Parser.exists_of_isOk
    (show (Parser.parse .script failingFunctions).isOk by decide +kernel)
  have hfresh : (Value.object [⟨"a", true, .number 1⟩] : Value Empty).Fresh := by
    simp [Value.Fresh, Value.FreshFields]
  have hdefine : Follows home _ _ _ := defineValue_follows hfresh "o" false
  obtain ⟨s, own, hworld, hs, -, -⟩ := hdefine initial .empty _ (HoldsScope.empty ⟨[]⟩).2
  obtain ⟨t, _, hworld', ht, -, -⟩ := runTree_follows Session.callLimit .script script suppliedMachine s own hs
  have hsupplied : Supplied Host.none (suppliedMachine.world s) := by
    rw [← show _ = suppliedMachine.world s from hworld]
    exact .define "o" false (.initial ()) ⟨trivial, trivial⟩
      ⟨show Numeral.isWide 1 = false by decide +kernel, trivial⟩
  have hmachine : failingMachine =
      ((runTree Session.callLimit home .script script).outcome suppliedMachine).2 := by
    rw [failingMachine, runSource, hscript]
  rw [← hmachine] at hworld' ht
  refine ⟨failingMachine.world t, shows_eq ht, ?_⟩
  rw [← hworld']
  exact (hsupplied.run Session.callLimit hscript).hasSource

/-- An error two calls deep.  The object of the trace is the one that was passed. -/
theorem error_trace_is_call_stack_nested :
    ∃ node w, Parser.parse .expression "outer(inner, o)" = .ok node ∧ failingMachine.shows home = .ok w ∧
      let run := (runTree Session.callLimit home .expression node).outcome failingMachine
      shownEnd run.2.heap run.1 =
          .ok ((Rule.expression.runOn Host.none Session.callLimit node).outcome w).1 ∧
        ∃ e, errorOf? (shownEnd run.2.heap run.1) = some e ∧ e.loc = some ⟨1, 37, some "p.a + true"⟩ ∧
          e.trace.map (fun call => (call.name, call.args.map fieldTexts, call.site)) =
            [("inner", [["1"]], some ⟨2, 34, some "f(p)"⟩),
              ("outer", [[], ["1"]], some ⟨1, 1, some "outer(inner, o)"⟩)] := by
  obtain ⟨node, hnode⟩ := Parser.exists_of_isOk
    (show (Parser.parse .expression "outer(inner, o)").isOk by decide +kernel)
  obtain ⟨w, hw, hsources⟩ := failingMachine_shows
  have hm : Reached failingMachine home := .source .script failingFunctions (.define "o" false .initial (by
    simp [Value.Fresh, Value.FreshFields]))
  have herror : (errorOf? (shownEnd ((runSource home .expression "outer(inner, o)").outcome failingMachine).2.heap
      ((runSource home .expression "outer(inner, o)").outcome failingMachine).1)).any (fun e =>
        decide (e.loc = some ⟨1, 37, some "p.a + true"⟩) &&
        decide (e.trace.map (fun call => (call.name, call.args.map fieldTexts, call.site)) =
          [("inner", [["1"]], some ⟨2, 34, some "f(p)"⟩),
            ("outer", [[], ["1"]], some ⟨1, 1, some "outer(inner, o)"⟩)])) = true := by
    decide +kernel
  rw [show runSource home .expression "outer(inner, o)" =
    runTree Session.callLimit home .expression node by rw [runSource, hnode]] at herror
  obtain ⟨e, he, hshown⟩ := (Option.any_eq_true _ _).1 herror
  rw [Bool.and_eq_true, decide_eq_true_eq, decide_eq_true_eq] at hshown
  exact ⟨node, w, hnode, hw, (error_trace_is_call_stack hm hw hsources hnode Session.callLimit).1, e, he, hshown⟩

end Machine

end Scriptlet
