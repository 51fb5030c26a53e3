import Scriptlet.Proofs.ErrorPlaces
import Scriptlet.Proofs.Ungrouping

/-!
# Parentheses do not change what a program does

A tree of a source and the same tree without parentheses run alike, in worlds that are the same up to
parentheses in function bodies (`parentheses_keep_meaning`).  Both runs are compared with a third one,
that of the tree without parentheses in a world from which they are left out with care: what the
cautious rewriting makes of either run is what the third one comes to.
-/

namespace Scriptlet

set_option autoImplicit false

variable {ε σ : Type}

/-! ## Up to parentheses -/

/-- A function whose body, if it has one, is that of a source, with or without its parentheses. -/
def Function.FromSource (f : Function ε) : Prop :=
  ∀ id function, f.callback = .script id function → ∃ body : Block, body.node.HasSource ∧
    (function.body = body ∨ function.body = Rewriting.ungrouping.body body)

/-- Two worlds in which all but the messages is the same, up to parentheses in function bodies. -/
structure World.SameButGroups (w w' : World ε σ) : Prop where
  scope : w.scope.rewritten .ungrouping = w'.scope.rewritten .ungrouping
  store : w.store.rewritten .ungrouping = w'.store.rewritten .ungrouping
  made : w.made = w'.made
  host : w.host = w'.host

/-- `x` runs from `w` like `y` from `w'`, up to parentheses in function bodies: it comes to the same
result or fails with the same error, it leaves the same behind, and it sends the same messages. -/
structure Exec.AgreesButGroups {α : Type} (g : α → α) (x : Exec ε σ α) (w : World ε σ)
    (y : Exec ε σ α) (w' : World ε σ) : Prop where
  result : ((x.outcome w).1.map g).mapError (Fault.rewritten .ungrouping) =
    ((y.outcome w').1.map g).mapError (Fault.rewritten .ungrouping)
  world : (x.outcome w).2.SameButGroups (y.outcome w').2
  visited : (x.outcome w).2.visited.map Node.ungrouped = (y.outcome w').2.visited.map Node.ungrouped
  effects : ∃ sent, (x.outcome w).2.effects = w.effects ++ sent ∧
    (y.outcome w').2.effects = w'.effects ++ sent

/-- In the body of a source all groups are left out with care. -/
theorem Block.cautious_eq {body : Block} (h : body.node.HasSource) :
    Rewriting.cautious.body body = Rewriting.ungrouping.body body := by
  obtain ⟨loc, statements⟩ := body
  exact congrArg (Block.mk _) (List.map_congr_left fun node hnode => (h.part hnode).cautious_eq)

theorem Function.FromSource.cautious_eq (f : Function ε) (h : f.FromSource) :
    f.rewritten .cautious = f.rewritten .ungrouping := by
  obtain ⟨callback, arity, name⟩ := f
  cases callback with
  | script id function =>
    obtain ⟨own, params, body, source⟩ := function
    have hbody : Rewriting.cautious.body body = Rewriting.ungrouping.body body := by
      obtain ⟨body, hsource, rfl | rfl⟩ := h id _ rfl
      · exact Block.cautious_eq hsource
      · rw [← Rewriting.body_comp, ← Rewriting.body_comp, Rewriting.cautious_comp_ungrouping,
          Rewriting.ungrouping_comp_ungrouping]
    simp only [rewritten, Callback.rewritten, ScriptFunction.rewritten, hbody]
  | builtin b => rfl
  | host e => rfl

/-- Worlds that are the same up to parentheses are the same once these are left out with care. -/
theorem World.SameButGroups.cautious {w w' : World ε σ} (h : w.SameButGroups w')
    (hw : w.Holds Function.FromSource True) (hw' : w'.Holds Function.FromSource True) :
    w.scope.rewritten .cautious = w'.scope.rewritten .cautious ∧
      w.store.rewritten .cautious = w'.store.rewritten .cautious := by
  constructor
  · rw [Scope.rewritten_congr Function.FromSource.cautious_eq hw.scope, h.scope,
      ← Scope.rewritten_congr Function.FromSource.cautious_eq hw'.scope]
  · rw [Store.rewritten_congr Function.FromSource.cautious_eq (hw.store trivial), h.store,
      ← Store.rewritten_congr Function.FromSource.cautious_eq (hw'.store trivial)]

namespace Exec

variable {α : Type} {g g' : α → α} {x y z : Exec ε σ α} {w w' : World ε σ}

/-- Two computations that a third one is the rewriting of come to the same once they are rewritten, from
worlds that are the same once they are rewritten; the messages come after those that were sent before. -/
theorem outcome_eq_of_rewrites {ρ : Rewriting} (hx : Rewrites ρ w'.effects g x z)
    (hy : Rewrites ρ [] g y z)
    (hz : ∀ (w : World ε σ) visited, z.outcome { w with visited } = z.outcome w)
    (hscope : w.scope.rewritten ρ = w'.scope.rewritten ρ)
    (hstore : w.store.rewritten ρ = w'.store.rewritten ρ) (hmade : w.made = w'.made)
    (hhost : w.host = w'.host) :
    let r := x.outcome { w with effects := [] }
    let r' := y.outcome w'
    (r'.1.map g).mapError (Fault.rewritten ρ) = (r.1.map g).mapError (Fault.rewritten ρ) ∧
      r'.2.rewritten ρ [] = r.2.rewritten ρ w'.effects := by
  have hworld : ({ w'.rewritten ρ [] with visited := none } : World ε σ) =
      { ({ w with effects := [] } : World ε σ).rewritten ρ w'.effects with visited := none } := by
    simp only [World.rewritten, hscope, hstore, hmade, hhost, List.nil_append, List.append_nil]
  have hsame : z.outcome (w'.rewritten ρ []) =
      z.outcome (({ w with effects := [] } : World ε σ).rewritten ρ w'.effects) := by
    rw [← hz (w'.rewritten ρ []) none, hworld, hz]
  rw [hx, hy] at hsame
  exact Prod.mk.inj hsame

/-- What is the same once parentheses are left out with care is the same up to parentheses. -/
theorem result_eq_of_cautious (hg : g' ∘ g = g') {r r' : Except (Fault ε) α}
    (h : (r'.map g).mapError (Fault.rewritten .cautious) =
      (r.map g).mapError (Fault.rewritten .cautious)) :
    (r'.map g').mapError (Fault.rewritten .ungrouping) =
      (r.map g').mapError (Fault.rewritten .ungrouping) := by
  have hfault : Fault.rewritten .ungrouping ∘ Fault.rewritten .cautious =
      (Fault.rewritten .ungrouping : Fault ε → _) := by
    rw [Fault.rewritten_comp, Rewriting.ungrouping_comp_cautious]
  have htwice : ∀ r : Except (Fault ε) α, (r.map g').mapError (Fault.rewritten .ungrouping) =
      ((((r.map g).mapError (Fault.rewritten .cautious)).map g').mapError
        (Fault.rewritten .ungrouping)) := by
    intro r
    cases r with
    | error e => exact congrArg Except.error (congrFun hfault e).symm
    | ok a => exact congrArg Except.ok (congrFun hg a).symm
  rw [htwice, h, ← htwice]

theorem world_of_cautious {sent : List Effect}
    (h : w'.rewritten .cautious [] = w.rewritten .cautious sent) :
    w'.SameButGroups w ∧ w'.visited.map Node.ungrouped = w.visited.map Node.ungrouped ∧
      w'.effects = sent ++ w.effects := by
  obtain ⟨hscope, hstore, hvisited, heffects, hmade, hhost⟩ := World.mk.inj h
  refine ⟨⟨?_, ?_, hmade, hhost⟩, ?_, heffects⟩
  · rw [← Rewriting.ungrouping_comp_cautious, ← Scope.rewritten_rewritten, hscope,
      Scope.rewritten_rewritten]
  · rw [← Rewriting.ungrouping_comp_cautious, ← Store.rewritten_rewritten, hstore,
      Store.rewritten_rewritten]
  · have htwice : Node.ungrouped ∘ Rewriting.cautious.node = Node.ungrouped :=
      funext Node.ungrouped_ungroupedWhere
    rw [← htwice, ← Option.map_map, hvisited, Option.map_map]

/-- Computations that a third one is the cautious rewriting of run alike. -/
theorem agreesButGroups_of_rewrites (hg : g' ∘ g = g') (hx : ∀ sent, Rewrites .cautious sent g x z)
    (hy : ∀ sent, Rewrites .cautious sent g y z)
    (hz : ∀ (w : World ε σ) visited, z.outcome { w with visited } = z.outcome w)
    (hw : w.Holds Function.FromSource True) (hw' : w'.Holds Function.FromSource True)
    (hsame : w.SameButGroups w') : AgreesButGroups g' x w y w' := by
  obtain ⟨hscope, hstore⟩ := hsame.cautious hw hw'
  -- Both runs are compared with that of `x` without the messages that were sent before.
  obtain ⟨hresult, hworld⟩ := outcome_eq_of_rewrites (hx _) (hx []) hz
    (Eq.refl (w.scope.rewritten .cautious)) (Eq.refl (w.store.rewritten .cautious)) rfl rfl
  obtain ⟨hresult', hworld'⟩ := outcome_eq_of_rewrites (hx _) (hy []) hz hscope hstore hsame.made
    hsame.host
  obtain ⟨hafter, hvisited, heffects⟩ := world_of_cautious hworld
  obtain ⟨hafter', hvisited', heffects'⟩ := world_of_cautious hworld'
  exact {
    result := (result_eq_of_cautious hg hresult).trans (result_eq_of_cautious hg hresult').symm
    world := ⟨hafter.scope.trans hafter'.scope.symm, hafter.store.trans hafter'.store.symm,
      hafter.made.trans hafter'.made.symm, hafter.host.trans hafter'.host.symm⟩
    visited := hvisited.trans hvisited'.symm
    effects := ⟨_, heffects, heffects'⟩ }

end Exec

/-! ## Programs -/

namespace Eval

variable [BEq ε] (call : Caller ε σ) (node : Node) (w : World ε σ) (visited : Option Node)

/-- A statement visits its node first. -/
theorem outcome_execute_visited :
    (execute call node).outcome { w with visited } = (execute call node).outcome w := by
  obtain ⟨loc, form⟩ := node
  rw [outcome_execute, outcome_execute]

/-- An expression visits its node first. -/
theorem outcome_evaluate_visited :
    (evaluate call node).outcome { w with visited } = (evaluate call node).outcome w := by
  obtain ⟨loc, form⟩ := node
  rw [outcome_evaluate, outcome_evaluate]

end Eval

open Exec Eval in
/-- **Parentheses do not change what a program does.**  A tree of a source, and the same tree without
parentheses, are executed and evaluated alike in worlds that are the same up to the parentheses in
function bodies, whatever the host does, as long as it does not look into function bodies. -/
theorem parentheses_keep_meaning [BEq ε] (host : Host ε σ) (hhost : host.IgnoresBodies) {rule : Rule}
    {source : String} {node : Node} (hp : Parser.parse rule source = .ok node) {w w' : World ε σ}
    (hw : w.Holds Function.FromSource True) (hw' : w'.Holds Function.FromSource True)
    (hsame : w.SameButGroups w') (depth : Nat) :
    let call := callFunction host depth
    AgreesButGroups (Outcome.rewritten .ungrouping) (execute call node) w
        (execute call node.ungrouped) w' ∧
      AgreesButGroups (Value.rewritten .ungrouping) (evaluate call node) w
        (evaluate call node.ungrouped) w' := by
  intro call
  have hnode : Rewriting.cautious.node node = node.ungrouped := (Parser.hasSource hp).cautious_eq
  have hungrouped : Rewriting.cautious.node node.ungrouped = node.ungrouped :=
    node.ungroupedWhere_ungrouped
  have hc : ∀ sent, RewritingCallers .cautious sent call call :=
    fun _ => callFunction_rewrites Rewriting.cautious_faithful hhost depth
  constructor
  · have houtcome : Outcome.rewritten .ungrouping ∘ Outcome.rewritten .cautious =
        (Outcome.rewritten .ungrouping : Outcome ε → _) := by
      rw [Outcome.rewritten_comp, Rewriting.ungrouping_comp_cautious]
    refine agreesButGroups_of_rewrites houtcome (fun sent => ?_) (fun sent => ?_)
      (outcome_execute_visited call node.ungrouped) hw hw' hsame
    · rw [← hnode]
      exact execute_rewrites Rewriting.cautious_faithful (hc sent) node
    · have hrun := execute_rewrites Rewriting.cautious_faithful (hc sent) node.ungrouped
      rwa [hungrouped] at hrun
  · have hvalue : Value.rewritten .ungrouping ∘ Value.rewritten .cautious =
        (Value.rewritten .ungrouping : Value ε → _) := by
      funext v
      rw [Function.comp_apply, Value.rewritten_rewritten, Rewriting.ungrouping_comp_cautious]
    refine agreesButGroups_of_rewrites hvalue (fun sent => ?_) (fun sent => ?_)
      (outcome_evaluate_visited call node.ungrouped) hw hw' hsame
    · rw [← hnode]
      exact evaluate_rewrites Rewriting.cautious_faithful (hc sent) node
    · have hrun := evaluate_rewrites Rewriting.cautious_faithful (hc sent) node.ungrouped
      rwa [hungrouped] at hrun

/-! ## A program with parentheses -/

theorem Node.mem_allDeclared {g : ScriptFunction} {nodes : List Node} :
    g ∈ Node.allDeclared nodes ↔ ∃ node ∈ nodes, g ∈ node.declared := by
  induction nodes with
  | nil => simp [allDeclared]
  | cons node rest ih => simp [allDeclared, ih]

/-- The functions that the tree of a source declares have bodies of a source. -/
theorem Node.HasSource.declared {node : Node} (h : node.HasSource) {g : ScriptFunction}
    (hg : g ∈ node.declared) : g.body.node.HasSource := by
  induction node using Node.induction with
  | step loc form ih =>
    rw [Node.declared] at hg
    cases form with
    | block statements | script statements =>
      obtain ⟨statement, hstatement, hg⟩ := Node.mem_allDeclared.1 hg
      exact ih statement hstatement (h.part hstatement) hg
    | function name params body source =>
      obtain rfl := List.mem_singleton.1 hg
      exact h.child Form.mem_items_body
    | _ => exact absurd hg List.not_mem_nil

/-- The tree of a source, if it has one. -/
def Parser.tree (rule : Rule) (source : String) : Node :=
  (Parser.parse rule source).toOption.getD default

theorem Parser.parse_eq_tree {rule : Rule} {source : String} (h : (Parser.parse rule source).isOk) :
    Parser.parse rule source = .ok (Parser.tree rule source) := by
  obtain ⟨node, hnode⟩ := Parser.exists_of_isOk h
  rw [tree, hnode]
  rfl

/-- A host whose one function calls the function that it is given. -/
def Host.applying : Host Unit Unit where
  run _ args access :=
    match args with
    | .function f :: rest => (.call f rest, access)
    | _ => (.value .null, access)

theorem Host.applying_ignoresBodies : Host.applying.IgnoresBodies := by
  intro ρ e args access
  rcases args with _ | ⟨v, rest⟩
  · rfl
  · cases v <;> rfl

/-- A world with script functions, the function of the host and the standard functions. -/
def World.applying (functions : List ScriptFunction) : World Unit Unit :=
  let slots := Builtin.all.map fun b => ⟨b.name, false, .function b.function⟩
  { (World.initial () : World Unit Unit) with
    scope := ⟨functions.map (fun f => ⟨f.name, false, .function (f.made 0)⟩) ++
      ⟨"apply", false, .function ⟨.host (), none, "apply"⟩⟩ :: slots, []⟩ }

theorem World.applying_holds {functions : List ScriptFunction}
    (h : ∀ f ∈ functions, ∃ body : Block, body.node.HasSource ∧
      (f.body = body ∨ f.body = Rewriting.ungrouping.body body)) :
    (World.applying functions).Holds Function.FromSource True := by
  refine ⟨?_, fun _ => Store.holds_iff.2 (List.forall_mem_nil _)⟩
  simp only [applying, Scope.Holds, Scope.All, Scope.frames, List.forall_mem_singleton,
    List.forall_mem_append, List.forall_mem_cons, List.forall_mem_map]
  refine ⟨?_, ?_, ?_⟩
  · intro f hf id function hcallback
    obtain ⟨-, rfl⟩ := Callback.script.inj hcallback
    exact h f hf
  · intro id function hcallback
    cases hcallback
  · intro b _ id function hcallback
    cases hcallback

theorem World.applying_sameButGroups (functions : List ScriptFunction) :
    (World.applying functions).SameButGroups
      (World.applying (functions.map (ScriptFunction.rewritten .ungrouping))) := by
  refine ⟨?_, rfl, rfl, rfl⟩
  have hbody : ∀ body : Block, Rewriting.ungrouping.body (Rewriting.ungrouping.body body) =
      Rewriting.ungrouping.body body := fun body => by
    rw [← Rewriting.body_comp, Rewriting.ungrouping_comp_ungrouping]
  simp [applying, Scope.rewritten, Slot.rewritten, Value.rewritten, Function.rewritten,
    ScriptFunction.made, Callback.rewritten, ScriptFunction.rewritten, hbody]

open Exec Eval in
/-- Groups around a value, a target, an argument, a condition and branches, and in the body of a
function that the host calls. -/
theorem parentheses_keep_meaning_nested :
    let root := Parser.tree .script "function f(a) \x7b return ((a) * 3); \x7d"
    let node := Parser.tree .script
      "let x = (0); (x) = apply(f, (2)); ((x) == 6) ? log((x)) : (null);"
    let w := World.applying root.declared
    let w' := World.applying (root.declared.map (ScriptFunction.rewritten .ungrouping))
    let call := callFunction Host.applying 100
    w.SameButGroups w' ∧ ((execute call node).outcome w).2.effects = [⟨["stdout"], "6"⟩] ∧
      AgreesButGroups (Outcome.rewritten .ungrouping) (execute call node) w
        (execute call node.ungrouped) w' := by
  intro root node w w' call
  have hroot : Parser.parse .script "function f(a) \x7b return ((a) * 3); \x7d" = .ok root :=
    Parser.parse_eq_tree (by decide +kernel)
  have hnode : Parser.parse .script
      "let x = (0); (x) = apply(f, (2)); ((x) == 6) ? log((x)) : (null);" = .ok node :=
    Parser.parse_eq_tree (by decide +kernel)
  have hw : w.Holds Function.FromSource True := World.applying_holds fun f hf =>
    ⟨f.body, (Parser.hasSource hroot).declared hf, .inl rfl⟩
  have hw' : w'.Holds Function.FromSource True := by
    refine World.applying_holds fun f hf => ?_
    obtain ⟨g, hg, rfl⟩ := List.mem_map.1 hf
    exact ⟨g.body, (Parser.hasSource hroot).declared hg, .inr rfl⟩
  have hsame : w.SameButGroups w' := World.applying_sameButGroups root.declared
  refine ⟨hsame, by decide +kernel, ?_⟩
  exact (parentheses_keep_meaning Host.applying Host.applying_ignoresBodies hnode hw hw' hsame 100).1

end Scriptlet
