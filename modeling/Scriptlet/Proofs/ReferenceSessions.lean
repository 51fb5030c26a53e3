import Scriptlet.Proofs.DistinctNames
import Scriptlet.Proofs.Failures
import Scriptlet.Proofs.ReferenceRuns

/-!
# Sessions by reference

In every machine that a host comes to, and in the midst of every run there, the scope at hand shares nothing
(`Reached.holds`).  So what is shown of it, and of what a run comes to, is what the run on trees has
(`sources_show_trees`).
-/

namespace Scriptlet

set_option autoImplicit false

/-! ## Names in the frames of a scope -/

theorem HoldsFrame.names {ε : Type} {heap : Heap ε} {f : Nat} {slots : List (Slot ε)} {own : List Nat}
    (h : HoldsFrame heap f slots own) : (heap.frame f).map Prod.fst = slots.map Slot.name := by
  cases h with
  | mk hframe hslots =>
    rw [Heap.frame_eq hframe]
    clear hframe
    induction hslots with
    | nil => rfl
    | cons hfirst _ ih =>
      cases hfirst with
      | mk _ _ => exact congrArg (List.cons _) ih

theorem HoldsScope.distinct {ε : Type} {heap : Heap ε} {scope : Nat} {s : Scope ε} {own : List Nat}
    (h : HoldsScope heap scope s own) : Entries.Distinct (heap.entries scope) := by
  obtain ⟨top, outer, hcell, hframes⟩ := h.frames
  rw [Heap.entries, Heap.scope_eq hcell]
  refine List.forall_mem_map.2 fun f hf => ?_
  obtain ⟨i, hi⟩ := List.mem_iff_getElem?.1 hf
  obtain ⟨slots, _, hslots, hframe, _⟩ := hframes.get_left hi
  rw [hframe.names]
  exact (h.fresh slots (List.mem_of_getElem? hslots)).names

namespace Machine

open Run

/-! ## What is shown -/

section Shown

variable {heap : Heap Empty} {m m' : Machine} {scope : Nat} {s s' : Scope Empty} {own own' : List Nat}

/-- What is shown of a call. -/
theorem Call.StandsFor.shown {call : Call} {frame : CallFrame Empty} (h : call.StandsFor heap frame) :
    call.shown heap = .ok frame := by
  rw [Call.shown, except_mapM_eq_ok.2 (h.args.imp fun _ _ => Heap.Shows.read), h.name, h.site]
  rfl

theorem Fault.StandsFor.shown {fault : Fault} {fault' : Scriptlet.Fault Empty}
    (h : fault.StandsFor heap fault') : fault.shown heap = .ok fault' := by
  cases h with
  | error htrace =>
    rw [Fault.shown, except_mapM_eq_ok.2 (htrace.imp fun _ _ => Call.StandsFor.shown)]
    rfl
  | breakdown b => rfl

/-- What is shown of a run is what the run on trees comes to. -/
theorem Ends.shown {old : Nat} {r : Except Fault (Held Empty)}
    {q : Except (Scriptlet.Fault Empty) (Value Empty)} (h : Ends StandsFor heap old own r q) :
    shownEnd heap r = .ok q := by
  cases h with
  | ok hv _ _ =>
    rw [shownEnd, hv.shows.read]
    rfl
  | error hfault =>
    rw [shownEnd, hfault.shown]
    rfl

/-- What is shown of a scope is the tree that it stands for. -/
theorem shows_eq (h : HoldsScope m.heap scope s own) : m.shows scope = .ok (m.world s) := by
  rw [shows, h.read]
  rfl

/-- A path is read as in the tree. -/
theorem reads_eq (h : HoldsScope m.heap scope s own) (path : Path) :
    m.reads scope path = ((s.resolve .empty path).map (·.value)).mapError .error := by
  rw [reads]
  rcases h.resolve path with ⟨cause, htree, hheap⟩ | ⟨slot, a, htree, hheap, -, hshows⟩
  · rw [htree, hheap]
    rfl
  · rw [htree, hheap]
    show (m.heap.read (m.heap.slot a).2).mapError Failure.breakdown = _
    rw [hshows.read]
    rfl

end Shown

/-! ## Steps of a host -/

section Hosts

variable {scope : Nat} {v : Value Empty}

/-- What a host builds stands on new cells. -/
theorem build_follows (hv : v.Fresh) : Follows scope StandsFor (build v) (pure v) := by
  intro m s own hs
  obtain ⟨built, hadds, hstands⟩ := m.heap.place_standsFor hv
  have hnew : ∀ c ∈ built, m.heap.cells.length ≤ c := fun c hc => (hadds.bounds c hc).1
  exact ⟨s, own, rfl, hs.grows hadds.grows, (Heap.Moves.refl _ _).grow hadds.grows,
    .ok hstands (hs.apart hadds.nodup hnew) hnew⟩

theorem defineValue_follows (hv : v.Fresh) (name : String) (isMutable : Bool) :
    Follows scope (fun _ _ _ _ => True) (defineValue scope name isMutable v)
      (Session.define name isMutable v) := by
  intro m s own hs
  have h := (build_follows hv m s own hs).bind (g := fun v => Session.define name isMutable v)
    fun _ _ _ _ _ _ hs' hmoves hheld hapart hnew => define_leads hs' hmoves hheld hapart hnew name isMutable
  rwa [pure_bind] at h

theorem updateValue_follows (hv : v.Fresh) (name : String) :
    Follows scope (fun _ _ _ _ => True) (updateValue scope name v) (Session.update name v) := by
  intro m s own hs
  have h := (build_follows hv m s own hs).bind
    (g := fun v => Exec.modifySlot (.name name) (Eval.assigned "=" v))
    fun _ _ _ _ _ _ hs' hmoves hheld hapart hnew => assign_leads hs' hmoves hheld hapart hnew (.name name) "="
  rwa [pure_bind] at h

/-- A host may pass on whatever it has at hand. -/
theorem callNamed_leads {m : Machine} {s : Scope Empty} {own : List Nat} {args : List (Held Empty)}
    {values : List (Value Empty)} (hs : HoldsScope m.heap scope s own)
    (hargs : List.Forall₂ m.heap.Shows args values) (name : String) :
    Leads scope StandsFor m.heap own ((callNamed scope name args).outcome m)
      ((Session.call Host.none name values).outcome (m.world s)) := by
  rw [callNamed, Session.call, outcome_bind, Exec.outcome_bind, outcome_resolve, Exec.outcome_resolve,
    world_scope, world_store]
  rcases hs.resolve (.name name) with ⟨cause, htree, hheap⟩ | ⟨slot, a, htree, hheap, -, hshows⟩
  · rw [htree, hheap]
    exact ⟨s, own, rfl, hs, .refl _ _, .error (.ofCause _ cause)⟩
  · rw [htree, hheap]
    dsimp only [Except.map, Except.mapError]
    rw [outcome_bind, Exec.outcome_bind, outcome_ofExcept, Exec.outcome_ofExcept,
      asFunction_eq hshows.head_eq]
    cases Eval.asFunction slot with
    | error cause => exact ⟨s, own, rfl, hs, .refl _ _, .error (.ofCause _ cause)⟩
    | ok f => exact invoke_leads (callFunction_returns _) hs (.refl _ _) hargs f none

theorem runTree_follows (depth : Nat) (rule : Rule) (node : Node) :
    Follows scope StandsFor (runTree depth scope rule node) (rule.run Host.none depth node) := by
  cases rule with
  | expression => exact evaluate_follows (callFunction_returns depth) node
  | script => exact (execute_follows (callFunction_returns depth) node).map fun _ _ _ _ => Outcome.StandsFor.unwrap

/-- Running a source by reference follows running it on trees. -/
theorem runSource_follows (source : String) :
    Follows scope StandsFor (runSource scope .expression source) (Session.runExpression Host.none source) ∧
      Follows scope StandsFor (runSource scope .script source) (Session.runScript Host.none source) := by
  constructor
  · rw [runSource]
    cases hp : Parser.parse .expression source with
    | ok node =>
      rw [Session.runExpression_eq Host.none hp]
      exact runTree_follows _ .expression node
    | error message =>
      refine .of_outcome fun m s own hs => ⟨_, _, rfl, ?_, .error (.error .nil)⟩
      rw [Session.runExpression, Session.parse, hp]
      rfl
  · rw [runSource]
    cases hp : Parser.parse .script source with
    | ok node =>
      rw [Session.runScript_eq Host.none hp]
      exact runTree_follows _ .script node
    | error message =>
      refine .of_outcome fun m s own hs => ⟨_, _, rfl, ?_, .error (.error .nil)⟩
      rw [Session.runScript, Session.executeScript, Session.parse, hp]
      rfl

end Hosts

/-! ## Machines that are reached -/

/-- The machines, with the scope at hand, that a host comes to from an empty one.  It builds values, defines
names and gives variables new values with what it builds, calls functions on whatever it has, and runs sources.
In the midst of a run they are the machines after a statement, at the start of a block and at the start of a
function body. -/
inductive Reached : Machine → Nat → Prop
  | initial : Reached initial home
  | build {m : Machine} {scope : Nat} {v : Value Empty} :
    Reached m scope → v.Fresh → Reached ((build v).outcome m).2 scope
  | define {m : Machine} {scope : Nat} {v : Value Empty} (name : String) (isMutable : Bool) :
    Reached m scope → v.Fresh → Reached ((defineValue scope name isMutable v).outcome m).2 scope
  | update {m : Machine} {scope : Nat} {v : Value Empty} (name : String) :
    Reached m scope → v.Fresh → Reached ((updateValue scope name v).outcome m).2 scope
  | call {m : Machine} {scope : Nat} {args : List (Held Empty)} {values : List (Value Empty)}
    (name : String) : Reached m scope → List.Forall₂ m.heap.Shows args values →
    Reached ((callNamed scope name args).outcome m).2 scope
  | source {m : Machine} {scope : Nat} (rule : Rule) (source : String) :
    Reached m scope → Reached ((runSource scope rule source).outcome m).2 scope
  | statement {m : Machine} {scope : Nat} (depth : Nat) (node : Node) :
    Reached m scope → Reached ((execute (callFunction depth) scope node).outcome m).2 scope
  | block {m after : Machine} {scope nested : Nat} :
    Reached m scope → (nest scope).outcome m = (.ok nested, after) → Reached after nested
  | body {m after : Machine} {scope own : Nat} {args : List (Held Empty)} {values : List (Value Empty)}
    (params : List String) : Reached m scope → List.Forall₂ m.heap.Shows args values →
    (bodyScope params args).outcome { m with visited := none } = (.ok own, after) → Reached after own

theorem Leads.holds {α β : Type} {R : Heap Empty → α → β → List Nat → Prop} {scope : Nat}
    {start : Heap Empty} {own : List Nat} {r : Except Fault α × Machine}
    {q : Except (Scriptlet.Fault Empty) β × World Empty Unit} (h : Leads scope R start own r q) :
    ∃ s own, HoldsScope r.2.heap scope s own :=
  let ⟨s, own, _, hs, _, _⟩ := h
  ⟨s, own, hs⟩

/-- Nothing is shared in a machine that is reached. -/
theorem Reached.holds {m : Machine} {scope : Nat} (h : Reached m scope) :
    ∃ s own, HoldsScope m.heap scope s own := by
  induction h with
  | initial => exact ⟨_, _, (HoldsScope.empty ⟨[]⟩).2⟩
  | build _ hv ih =>
    obtain ⟨s, own, hs⟩ := ih
    exact (build_follows hv _ s own hs).holds
  | define name isMutable _ hv ih =>
    obtain ⟨s, own, hs⟩ := ih
    exact (defineValue_follows hv name isMutable _ s own hs).holds
  | update name _ hv ih =>
    obtain ⟨s, own, hs⟩ := ih
    exact (updateValue_follows hv name _ s own hs).holds
  | call name _ hargs ih =>
    obtain ⟨s, own, hs⟩ := ih
    exact (callNamed_leads hs hargs name).holds
  | source rule source _ ih =>
    obtain ⟨s, own, hs⟩ := ih
    cases rule with
    | expression => exact ((runSource_follows source).1 _ s own hs).holds
    | script => exact ((runSource_follows source).2 _ s own hs).holds
  | statement depth node _ ih =>
    obtain ⟨s, own, hs⟩ := ih
    exact (execute_follows (callFunction_returns depth) node _ s own hs).holds
  | block _ hnest ih =>
    obtain ⟨s, own, hs⟩ := ih
    obtain ⟨hnested, rfl⟩ := Prod.mk.inj hnest
    obtain rfl := Except.ok.inj hnested
    exact ⟨_, _, hs.nest.2⟩
  | @body m _ _ own _ _ params _ hargs hbody _ =>
    obtain ⟨_, _, _, hbegun, _, hs, _⟩ := bodyScope_holds (m := { m with visited := none }) params hargs
    cases hbody.symm.trans hbegun
    exact ⟨_, _, hs⟩

/-- In the frames of the scope at hand the names are different. -/
theorem Reached.distinct {m : Machine} {scope : Nat} (h : Reached m scope) :
    Entries.Distinct (m.heap.entries scope) :=
  let ⟨_, _, hs⟩ := h.holds
  hs.distinct

theorem Follows.shown {scope : Nat} {x : Run (Held Empty)} {y : Exec Empty Unit (Value Empty)}
    (h : Follows scope StandsFor x y) {m : Machine} {s : Scope Empty} {own : List Nat}
    (hs : HoldsScope m.heap scope s own) :
    shownEnd (x.outcome m).2.heap (x.outcome m).1 = .ok (y.outcome (m.world s)).1 ∧
      (x.outcome m).2.shows scope = .ok (y.outcome (m.world s)).2 :=
  let ⟨_, _, hworld, hs', _, hends⟩ := h m s own hs
  ⟨hends.shown, (shows_eq hs').trans (congrArg Except.ok hworld.symm)⟩

/-- Where a run by reference comes to something, the run on trees does too. -/
theorem Follows.tree {α β : Type} {R : Heap Empty → α → β → List Nat → Prop} {scope : Nat} {x : Run α}
    {y : Exec Empty Unit β} (h : Follows scope R x y) {m after : Machine} {s : Scope Empty} {own : List Nat}
    (hs : HoldsScope m.heap scope s own) {a : α} (hx : x.outcome m = (.ok a, after)) :
    ∃ b s' own', y.outcome (m.world s) = (.ok b, after.world s') ∧ HoldsScope after.heap scope s' own' := by
  obtain ⟨s', own', hworld, hs', -, hends⟩ := h m s own hs
  rw [hx] at hworld hs' hends
  generalize y.outcome (m.world s) = q at hworld hends ⊢
  obtain ⟨q, w⟩ := q
  obtain rfl : w = after.world s' := hworld
  cases hends with
  | ok _ _ _ => exact ⟨_, s', own', rfl, hs'⟩

/-- **Runs by reference show runs on trees.**  A machine that is reached shows a world of trees.  Every source
comes to the same end there as in this world, with the same value or error, and the machine shows the same world
afterwards. -/
theorem sources_show_trees {m : Machine} {scope : Nat} (hm : Reached m scope) :
    ∃ w, m.shows scope = .ok w ∧ ∀ source,
      let expression := (runSource scope .expression source).outcome m
      let script := (runSource scope .script source).outcome m
      (shownEnd expression.2.heap expression.1 = .ok ((Session.runExpression Host.none source).outcome w).1 ∧
        expression.2.shows scope = .ok ((Session.runExpression Host.none source).outcome w).2) ∧
      (shownEnd script.2.heap script.1 = .ok ((Session.runScript Host.none source).outcome w).1 ∧
        script.2.shows scope = .ok ((Session.runScript Host.none source).outcome w).2) := by
  obtain ⟨s, own, hs⟩ := hm.holds
  exact ⟨m.world s, shows_eq hs, fun source =>
    ⟨(runSource_follows source).1.shown hs, (runSource_follows source).2.shown hs⟩⟩

end Machine

end Scriptlet
