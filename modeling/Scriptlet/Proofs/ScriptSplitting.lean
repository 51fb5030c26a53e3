import Scriptlet.Proofs.ErrorPlaces
import Scriptlet.Proofs.MovedRuns
import Scriptlet.Proofs.ScriptConcatenation

/-!
# Running scripts one below the other

A script that consists of two texts, one below the other, runs like the two texts one after the other
(`executeScript_concat`).  The statements of the first text run as they do alone.  Those of the second
one stand further down than they do alone, so that what they leave behind is the same up to the lines
and columns that function bodies keep.
-/

namespace Scriptlet

set_option autoImplicit false

variable {ε σ : Type}

/-- A location of which only the text is left. -/
def Location.erased (loc : Location) : Location :=
  ⟨0, 0, loc.text⟩

/-- The world in which a run begins that collects its own messages. -/
def World.cleared (w : World ε σ) : World ε σ :=
  { w with effects := [], visited := none }

/-- Two worlds in which all but the messages is the same, up to the lines and columns in function
bodies. -/
structure World.SameButPlaces (w w' : World ε σ) : Prop where
  scope : w.scope.moved .erased = w'.scope.moved .erased
  store : w.store.moved .erased = w'.store.moved .erased
  made : w.made = w'.made
  host : w.host = w'.host

/-- What a run answers, up to lines and columns: what it comes to, or what failed. -/
def Outcome.answer (r : Except (Fault ε) (Outcome ε)) : Except Failure (Outcome ε) :=
  (r.map (Outcome.moved .erased)).mapError Fault.failure

theorem Outcome.answer_attach (loc : Option Location) (r : Except (Fault ε) (Outcome ε)) :
    answer (r.mapError (Fault.attach loc)) = answer r := by
  cases r with
  | ok o => rfl
  | error e => exact congrArg Except.error (Fault.failure_attach loc e)

theorem Fault.failure_moved (move : Location → Location) (e : Fault ε) :
    (e.moved move).failure = e.failure := by
  cases e <;> rfl

/-- Runs that come to the same end without places answer the same. -/
theorem Outcome.answer_congr {r r' : Except (Fault ε) (Outcome ε)}
    (h : (r'.map (Outcome.moved .erased)).mapError (Fault.moved .erased) =
      (r.map (Outcome.moved .erased)).mapError (Fault.moved .erased)) : answer r' = answer r := by
  have hanswer : ∀ r : Except (Fault ε) (Outcome ε), answer r =
      ((r.map (Outcome.moved .erased)).mapError (Fault.moved .erased)).mapError Fault.failure := by
    intro r
    cases r with
    | ok o => rfl
    | error e => exact congrArg Except.error (Fault.failure_moved _ e).symm
  rw [hanswer, h, ← hanswer]

namespace Eval

open Exec

variable [BEq ε] {call : Caller ε σ}

/-- Where there is a statement, what came before does not matter. -/
theorem executeAll_visited (last last' : Outcome ε) (node : Node) (rest : List Node) (w : World ε σ)
    (visited : Option Node) :
    (executeAll call last (node :: rest)).outcome { w with visited } =
      (executeAll call last' (node :: rest)).outcome w := by
  obtain ⟨loc, form⟩ := node
  rw [executeAll, executeAll, outcome_bind, outcome_bind, outcome_execute, outcome_execute]

/-- How statements go on after what came before them: not at all behind a `return`. -/
def continueAll (call : Caller ε σ) (nodes : List Node) : Outcome ε → Exec ε σ (Outcome ε)
  | .returned v => pure (.returned v)
  | .value v => executeAll call (.value v) nodes

/-- Statements run one after the other. -/
theorem executeAll_append (v : Value ε) (front back : List Node) :
    executeAll call (.value v) (front ++ back) =
      executeAll call (.value v) front >>= continueAll call back := by
  induction front generalizing v with
  | nil =>
    rw [List.nil_append, executeAll, pure_bind]
    rfl
  | cons node front ih =>
    rw [List.cons_append, executeAll, executeAll, bind_assoc]
    congr 1
    funext o
    cases o with
    | returned v => rfl
    | value v => exact ih v

/-- In which world statements begin that were visited last in another place: what they leave behind
differs in nothing but the node visited last, and not even there unless there are none. -/
theorem executeAll_revisited (call : Caller ε σ) (v : Value ε) (nodes : List Node) (w : World ε σ)
    (visited : Option Node) :
    ∃ last, (executeAll call (.value v) nodes).outcome { w with visited } =
        (((executeAll call (.value v) nodes).outcome w).1,
          { ((executeAll call (.value v) nodes).outcome w).2 with visited := last }) ∧
      (last = ((executeAll call (.value v) nodes).outcome w).2.visited ∨
        ((executeAll call (.value v) nodes).outcome w).1 = .ok (.value v)) := by
  cases nodes with
  | nil =>
    rw [executeAll]
    exact ⟨visited, rfl, .inr rfl⟩
  | cons node rest =>
    rw [executeAll_visited (.value v) (.value v)]
    exact ⟨_, rfl, .inl rfl⟩

/-- Statements run alike without their places, whatever was sent before. -/
theorem executeAll_erases (sent : List Effect) (depth : Nat) (nodes : List Node) :
    Exec.Moves (ε := ε) (σ := σ) .erased sent (Outcome.moved .erased)
      (executeAll (callFunction Host.idle depth) (.value .null) nodes)
      (executeAll (callFunction Host.idle depth) (.value .null) (Node.movedAll .erased nodes)) := by
  have ht : ∀ loc : Location, loc.erased.text = loc.text := fun _ => rfl
  exact executeAll_moves ht sent depth nodes

/-- Statements that stand elsewhere, and behind other messages, come to the same end up to places. -/
theorem executeAll_sameButPlaces (host : Host ε σ) (depth : Nat) {nodes nodes' : List Node}
    (hn : nodes'.map (Node.moved .erased) = nodes.map (Node.moved .erased)) (hne : nodes ≠ [])
    {w : World ε σ} (hw : w.Hostless) (last : Outcome ε) (visited visited' : Option Node) :
    let r := (executeAll (callFunction host depth) (.value .null) nodes).outcome
      { w with effects := [], visited }
    let r' := (executeAll (callFunction host depth) last nodes').outcome { w with visited := visited' }
    Outcome.answer r'.1 = Outcome.answer r.1 ∧ r'.2.SameButPlaces r.2 ∧
      r'.2.effects = w.effects ++ r.2.effects := by
  intro r r'
  have hmoved : Node.movedAll .erased nodes' = Node.movedAll .erased nodes := by
    rw [Node.movedAll_eq_map, Node.movedAll_eq_map, hn]
  have hcleared : ({ w with effects := [] } : World ε σ).Hostless := ⟨hw.scope, hw.store⟩
  -- both runs begin in the same world, if that of the second one gets the messages of the first in front
  have hr : r = (executeAll (callFunction Host.idle depth) (.value .null) nodes).outcome
      { w with effects := [] } := by
    obtain ⟨node, rest, rfl⟩ := List.exists_cons_of_ne_nil hne
    rw [(executeAll_hosts host Host.idle depth _ hcleared).1]
    exact executeAll_visited _ _ node rest { w with effects := [] } visited
  have hr' : r' = (executeAll (callFunction Host.idle depth) (.value .null) nodes').outcome w := by
    have hne' : nodes' ≠ [] := by
      rintro rfl
      exact hne (List.map_eq_nil_iff.1 hn.symm)
    obtain ⟨node, rest, rfl⟩ := List.exists_cons_of_ne_nil hne'
    rw [(executeAll_hosts host Host.idle depth _ hw).1]
    exact executeAll_visited _ _ node rest w visited'
  have hrun := executeAll_erases w.effects depth nodes { w with effects := [] }
  have hrun' := executeAll_erases [] depth nodes' w
  rw [hmoved] at hrun'
  have hworld : ({ w with effects := [] } : World ε σ).moved .erased w.effects = w.moved .erased [] := by
    simp [World.moved]
  rw [hworld, hrun', ← hr, ← hr'] at hrun
  obtain ⟨hresult, hafter⟩ := Prod.mk.inj hrun
  obtain ⟨hscope, hstore, -, heffects, hmade, hhost⟩ := World.mk.inj hafter
  exact ⟨Outcome.answer_congr hresult, ⟨hscope, hstore, hmade, hhost⟩, heffects⟩

/-- Statements further down, behind those that came before, do the same as where they stand alone;
what they answer depends on what came before only if there are none. -/
theorem executeAll_below (host : Host ε σ) (depth lines : Nat) (nodes : List Node) {w : World ε σ}
    (hw : w.Hostless) (v : Value ε) (visited : Option Node) (script : Node) :
    let r := (executeAll (callFunction host depth) (.value .null) nodes).outcome
      { w.cleared with visited := some script }
    let r' := (executeAll (callFunction host depth) (.value v)
      (nodes.map (Node.moved (Location.below lines)))).outcome { w with visited }
    r'.2.SameButPlaces r.2 ∧ r'.2.effects = w.effects ++ r.2.effects ∧
      (nodes ≠ [] → Outcome.answer r'.1 = Outcome.answer r.1) ∧ (nodes = [] → r'.1 = .ok (.value v)) := by
  intro r r'
  by_cases hnodes : nodes = []
  · subst hnodes
    simp only [r, r', List.map_nil, executeAll]
    exact ⟨⟨rfl, rfl, rfl, rfl⟩, (List.append_nil _).symm, fun h => absurd rfl h, fun _ => rfl⟩
  · have hplaces : (nodes.map (Node.moved (Location.below lines))).map (Node.moved .erased) =
        nodes.map (Node.moved .erased) := by
      rw [List.map_map]
      exact List.map_congr_left fun node _ => Node.moved_moved node
    obtain ⟨hanswer, hsame, heffects⟩ :=
      executeAll_sameButPlaces host depth hplaces hnodes hw (.value v) (some script) visited
    exact ⟨hsame, heffects, fun _ => hanswer, fun h => absurd h hnodes⟩

end Eval

namespace Session

open Exec

variable [BEq ε]

/-- A script runs its statements; an error that is nowhere else yet is at its beginning. -/
theorem outcome_executeScript (host : Host ε σ) {source : String} {node : Node} {statements : List Node}
    (hp : Parser.parse .script source = .ok node) (hform : node.form = .script statements)
    (w : World ε σ) :
    (executeScript host source).outcome w =
      (((Eval.executeAll (caller host) (.value .null) statements).outcome
          { w with visited := some node }).1.mapError (Fault.attach node.loc),
        ((Eval.executeAll (caller host) (.value .null) statements).outcome
          { w with visited := some node }).2) := by
  obtain ⟨loc, form⟩ := node
  obtain rfl : form = .script statements := hform
  have hparse : (parse .script source : Exec ε σ Node) = pure ⟨loc, .script statements⟩ := by
    rw [parse, hp]
  rw [executeScript, hparse, pure_bind, Eval.outcome_execute, Eval.executeForm]

/-- **Splitting a script.**  Of two scripts, one below the other, the statements of the first are
followed by those of the second, further down.  If the first script comes to its end, what follows is
what the second one does afterwards: it leaves the same behind up to the places in function bodies,
its messages come after those of the first, and it answers what the second answers unless there is
nothing in it.  If the first script fails or returns, that is all. -/
theorem executeScript_concat (host : Host ε σ) {first second : String} {a b : Node}
    (ha : Parser.parse .script first = .ok a) (hb : Parser.parse .script second = .ok b)
    {w : World ε σ} (hw : w.Hostless) :
    let run (source : String) (w : World ε σ) := (executeScript host source).outcome w.cleared
    let whole := run (first ++ "\n" ++ second) w
    ∃ as bs node, a.form = .script as ∧ b.form = .script bs ∧
      Parser.parse .script (first ++ "\n" ++ second) = .ok node ∧
      node.form = .script (as ++ bs.map (Node.moved (Location.below (lineBehind first.toList)))) ∧
      match run first w with
      | (.ok (.value v), after) =>
        whole.2.SameButPlaces (run second after).2 ∧
          whole.2.effects = after.effects ++ (run second after).2.effects ∧
          (bs ≠ [] → Outcome.answer whole.1 = Outcome.answer (run second after).1) ∧
          (bs = [] → whole.1 = .ok (.value v))
      | (.ok (.returned v), after) => whole = (.ok (.returned v), after)
      | (.error e, after) => Outcome.answer whole.1 = .error e.failure ∧ whole.2 = after := by
  intro run whole
  obtain ⟨as, bs, node, hformA, hformB, hp, hform⟩ := Parser.parse_concat ha hb
  refine ⟨as, bs, node, hformA, hformB, hp, hform, ?_⟩
  obtain ⟨alone, halone⟩ : ∃ r, r = (Eval.executeAll (caller host) (.value .null) as).outcome
      { w.cleared with visited := some a } := ⟨_, rfl⟩
  have hfirst : run first w = (alone.1.mapError (Fault.attach a.loc), alone.2) := by
    rw [halone]
    exact outcome_executeScript host ha hformA w.cleared
  -- the whole script begins like the first one, but for the node visited before
  obtain ⟨last, hbegin, hlast⟩ := Eval.executeAll_revisited (caller host) .null as
    { w.cleared with visited := some a } (some node)
  rw [← halone] at hbegin hlast
  have hbegins : ({ w.cleared with visited := some a } : World ε σ).Hostless := ⟨hw.scope, hw.store⟩
  have hhostless : alone.2.Hostless := by
    rw [halone]
    exact (Eval.executeAll_hosts host host callLimit as hbegins).2
  have hwhole := outcome_executeScript host hp hform w.cleared
  rw [Eval.executeAll_append, outcome_bind, hbegin] at hwhole
  rw [hfirst]
  obtain ⟨e | o, after⟩ := alone
  · obtain rfl : last = after.visited := hlast.resolve_right nofun
    rw [show whole = _ from hwhole]
    exact ⟨congrArg Except.error ((Fault.failure_attach _ e).trans (Fault.failure_attach _ e).symm), rfl⟩
  · cases o with
    | returned v =>
      obtain rfl : last = after.visited := hlast.resolve_right nofun
      exact hwhole
    | value v =>
      obtain ⟨hsame, heffects, hanswer, hnone⟩ := Eval.executeAll_below host callLimit
        (lineBehind first.toList) bs hhostless v last b
      have hsecond := outcome_executeScript host hb hformB after.cleared
      rw [show whole = _ from hwhole]
      change _ ∧ _ ∧ (_ → _ = Outcome.answer (run second after).1) ∧ _
      rw [show run second after = _ from hsecond, Outcome.answer_attach, Outcome.answer_attach]
      refine ⟨hsame, heffects, hanswer, fun hbs => ?_⟩
      exact congrArg (Except.mapError _) (hnone hbs)

/-- Two scripts that count and send, on a runner with the standard functions.  The function of the
second one keeps another place if the two are one script. -/
theorem executeScript_concat_counting :
    let first := "let x = 1;\nlog(x);"
    let second := "function f(a) \x7b return a + 1; \x7d\nx = f(x);\nlog(x);\nx;"
    let run (source : String) (w : World Empty Unit) := (executeScript Host.none source).outcome w.cleared
    let after := (run first Runner.standard.world).2
    let whole := run (first ++ "\n" ++ second) Runner.standard.world
    (Parser.parse .script first).isOk ∧ (Parser.parse .script second).isOk ∧
      Runner.standard.world.Hostless ∧ whole.2.SameButPlaces (run second after).2 ∧
      whole.2.effects = after.effects ++ (run second after).2.effects ∧
      whole.2.effects = [⟨["stdout"], "1"⟩, ⟨["stdout"], "2"⟩] ∧
      Outcome.answer whole.1 = Outcome.answer (run second after).1 := by
  intro first second run after whole
  have hA : (Parser.parse .script first).isOk := by decide +kernel
  have hB : (Parser.parse .script second).isOk := by decide +kernel
  have hw : Runner.standard.world.Hostless := by
    refine ⟨?_, fun _ => Store.holds_iff.2 (List.forall_mem_nil _)⟩
    simp only [Runner.standard, Scope.Holds, Scope.All, Scope.frames, List.forall_mem_singleton,
      List.forall_mem_map]
    exact fun _ _ e => e.elim
  have heffects : whole.2.effects = [⟨["stdout"], "1"⟩, ⟨["stdout"], "2"⟩] := by decide +kernel
  have hsent : after.effects = [⟨["stdout"], "1"⟩] := by decide +kernel
  obtain ⟨a, ha⟩ := Parser.exists_of_isOk hA
  obtain ⟨b, hb⟩ := Parser.exists_of_isOk hB
  obtain ⟨as, bs, node, -, -, -, -, h⟩ := executeScript_concat Host.none ha hb hw
  -- the second script does something, for it sends a message
  have hmore : whole.2 ≠ after := by
    intro heq
    rw [heq, hsent] at heffects
    exact absurd heffects (by decide)
  split at h
  · next v left hr =>
    obtain rfl : left = after := (congrArg Prod.snd hr).symm
    obtain ⟨hsame, hboth, hanswer, hnone⟩ := h
    have hbs : bs ≠ [] := by
      intro hbs
      have hvalue := (hnone hbs).trans (congrArg Prod.fst hr).symm
      have hfirst : (run first Runner.standard.world).1.toOption.map (·.unwrap.text) = some "null" := by
        decide +kernel
      have hlast : whole.1.toOption.map (·.unwrap.text) = some "2" := by decide +kernel
      rw [show whole.1 = _ from hvalue, hfirst] at hlast
      exact absurd hlast (by decide)
    exact ⟨hA, hB, hw, hsame, hboth, heffects, hanswer hbs⟩
  · next v left hr =>
    exact absurd ((congrArg Prod.snd h).trans (congrArg Prod.snd hr).symm) hmore
  · next e left hr => exact absurd (h.2.trans (congrArg Prod.snd hr).symm) hmore

end Session

end Scriptlet
