import Scriptlet.Proofs.ReferenceSessions
import Scriptlet.Proofs.Stability
import Scriptlet.Proofs.ValueSemantics

/-!
# Objects are values

Objects stand in a heap and are changed where they stand, and yet each of them behaves as a value.  An
assignment changes what is read through its target and through no path apart from it, and after `x` has been
made a copy of `y` no assignment through one of them is seen through the other
(`assignment_changes_target_only`).  A binding whose name a node does not assign is unchanged after the node,
with all fields of its object (`unassigned_unchanged`).

Both hold on trees.  They hold in the heap because nothing is shared there (`Reached.holds`).
-/

namespace Scriptlet

set_option autoImplicit false

/-- Where no function is the host's, what shares nothing is owned. -/
theorem Scope.Fresh.owned {s : Scope Empty} (h : s.Fresh) : s.Owned := fun frame hframe slot hslot =>
  (h.every frame hframe slot hslot).imp fun _ _ e => e.elim

namespace Machine

open Run

variable {m m' : Machine} {scope scope' : Nat} {s s' : Scope Empty} {own own' : List Nat}

theorem world_owned (h : HoldsScope m.heap scope s own) : (m.world s).Owned :=
  h.fresh.owned

theorem reads_tree (h : HoldsScope m.heap scope s own) (path : Path) :
    m.reads scope path = ((m.world s).reads path).mapError Scriptlet.Fault.failure := by
  rw [(world_owned h).reads_eq, reads_eq h, world_scope, world_store]
  cases s.resolve .empty path <;> rfl

/-- What two machines are read as, where the trees are read alike. -/
theorem reads_congr (h : HoldsScope m.heap scope s own) (h' : HoldsScope m'.heap scope' s' own')
    {path path' : Path} (heq : (m.world s).reads path = (m'.world s').reads path') :
    m.reads scope path = m'.reads scope' path' := by
  rw [reads_tree h, reads_tree h', heq]

/-! ## Assignments -/

/-- The machine after expressions have been evaluated one after the other, whatever they come to. -/
def afterAll (call : Caller) (scope : Nat) (nodes : List Node) (m : Machine) : Machine :=
  nodes.foldl (fun m node => ((evaluate call scope node).outcome m).2) m

theorem afterAll_follows {call : Caller} {call' : Scriptlet.Caller Empty Unit} (hc : CallsFollow call call')
    (hs : HoldsScope m.heap scope s own) (nodes : List Node) :
    ∃ s' own', HoldsScope (afterAll call scope nodes m).heap scope s' own' ∧
      Eval.afterAll call' nodes (m.world s) = (afterAll call scope nodes m).world s' := by
  induction nodes generalizing m s own with
  | nil => exact ⟨s, own, hs, rfl⟩
  | cons node rest ih =>
    obtain ⟨_, _, hworld, hs', _, _⟩ := evaluate_follows hc node m s own hs
    obtain ⟨s'', own'', hs'', hafter⟩ := ih hs'
    refine ⟨s'', own'', hs'', ?_⟩
    rw [Eval.afterAll, List.foldl_cons, hworld]
    exact hafter

/-- The assignments through one name are not seen through another. -/
theorem reads_afterAll (hs : HoldsScope m.heap scope s own) {root other : String} (hne : root ≠ other)
    {nodes : List Node} (hnodes : ∀ node ∈ nodes, node.AssignsThrough root) (depth : Nat)
    (fields : List String) :
    (afterAll (callFunction depth) scope nodes m).reads scope (.ofNames other fields) =
      m.reads scope (.ofNames other fields) := by
  obtain ⟨s', own', hs', hafter⟩ := afterAll_follows (callFunction_returns depth) hs nodes
  refine reads_congr hs' hs ?_
  rw [← hafter]
  exact Eval.reads_afterAll (Eval.callFunction_owned Host.none depth) hne hnodes (world_owned hs) fields

/-- **Objects are values.**  In a machine that is reached, an assignment with `=` makes its target read as the
value that the right side had just before, and leaves what is read through any path apart from the target as it
was.  After `x` has been made a copy of `y`, the two read alike, and no assignments through one of them are seen
through the other. -/
theorem assignment_changes_target_only (hm : Reached m scope) (depth : Nat) :
    (∀ loc target value name fields held after,
      target.path = .ofNames name fields → value.form.IsSimple →
      (evaluate (callFunction depth) scope ⟨loc, .assign target "=" value⟩).outcome m = (.ok held, after) →
      ∃ v, valueOf (callFunction depth) scope value m = .ok (.ok v) ∧
        after.reads scope (.ofNames name fields) = .ok v ∧
        ∀ other others, ¬ (name :: fields) <+: (other :: others) →
          ¬ (other :: others) <+: (name :: fields) →
          after.reads scope (.ofNames other others) = m.reads scope (.ofNames other others)) ∧
    (∀ x y node outcome after, x ≠ y → node.MakesCopy x y →
      (execute (callFunction depth) scope node).outcome m = (.ok outcome, after) →
      after.reads scope (.name x) = m.reads scope (.name y) ∧
      after.reads scope (.name y) = m.reads scope (.name y) ∧
      (∀ assignments fields, (∀ a ∈ assignments, a.AssignsThrough x) →
        (afterAll (callFunction depth) scope assignments after).reads scope (.ofNames y fields) =
          after.reads scope (.ofNames y fields)) ∧
      (∀ assignments fields, (∀ a ∈ assignments, a.AssignsThrough y) →
        (afterAll (callFunction depth) scope assignments after).reads scope (.ofNames x fields) =
          after.reads scope (.ofNames x fields))) := by
  obtain ⟨s, own, hs⟩ := hm.holds
  have hc := callFunction_returns depth
  have howned := Eval.callFunction_owned (σ := Unit) Host.none depth
  constructor
  · intro loc target value name fields held after htarget hsimple h
    obtain ⟨_, s', own', hrun, hs'⟩ := (evaluate_follows hc ⟨loc, .assign target "=" value⟩).tree hs h
    obtain ⟨v, hv, hread, hothers⟩ := Eval.reads_assignment howned htarget hsimple (world_owned hs) hrun
    refine ⟨v, ?_, ?_, fun other others hl hr => reads_congr hs' hs (hothers other others hl hr)⟩
    · rw [← hv]
      exact ((evaluate_follows hc value).shown hs).1
    · rw [reads_tree hs', hread]
      rfl
  · intro x y node outcome after hne hnode h
    obtain ⟨_, s', own', hrun, hs'⟩ := (execute_follows hc node).tree hs h
    obtain ⟨hx, hy⟩ := Eval.reads_copied howned hne hnode (world_owned hs) hrun
    refine ⟨reads_congr hs' hs hx, reads_congr hs' hs hy, fun assignments fields hall => ?_,
      fun assignments fields hall => ?_⟩
    · exact reads_afterAll hs' hne hall depth fields
    · exact reads_afterAll hs' hne.symm hall depth fields

/-- The machine in which `y` is an object that holds an object, whose field is 1. -/
def nestedObject : Machine :=
  ((defineValue home "y" true (.object [⟨"a", true, .object [⟨"b", true, .number 1⟩]⟩])).outcome initial).2

/-- After `let x = y;` the assignment `x.a.b = 2` is not seen through `y`, and `x.a.b` reads 2. -/
theorem assignment_changes_target_only_nested :
    let copied := ((execute (callFunction 1) home ⟨none, .declaration "x" ⟨none, .ident "y"⟩ true⟩).outcome
      nestedObject).2
    let path : Node := ⟨none, .member ⟨none, .ident "x"⟩
      ⟨none, .member ⟨none, .ident "a"⟩ ⟨none, .ident "b"⟩⟩⟩
    let changed := afterAll (callFunction 1) home [⟨none, .assign path "=" ⟨none, .number "2"⟩⟩] copied
    Reached nestedObject home ∧
      changed.reads home (.ofNames "y" ["a", "b"]) = .ok (.number 1) ∧
      changed.reads home (.ofNames "x" ["a", "b"]) = .ok (.number 2) := by
  intro copied path changed
  have hm : Reached nestedObject home := .define "y" true .initial (by
    simp [Value.Fresh, Value.FreshFields])
  have hcopy := (assignment_changes_target_only hm 1).2 "x" "y" _ (.value (.value .null)) copied (by decide)
    (.declaration true) rfl
  have hseen := hcopy.2.2.1 [⟨none, .assign path "=" ⟨none, .number "2"⟩⟩] ["a", "b"] (by
    intro node hn
    rw [List.mem_singleton.1 hn]
    exact .assign "=" ["a", "b"] rfl trivial)
  exact ⟨hm, hseen.trans rfl, rfl⟩

/-! ## Bindings -/

/-- The frames of a scope, innermost first. -/
def frames (m : Machine) (scope : Nat) : List Nat :=
  (m.heap.scope scope).1 :: (m.heap.scope scope).2

/-- A slot is what it was, with all fields of an object in it. -/
structure KeepsSlot (m after : Machine) (slot : Nat) : Prop where
  isMutable : (after.heap.slot slot).1 = (m.heap.slot slot).1
  value : ∃ v, m.heap.read (m.heap.slot slot).2 = .ok v ∧ after.heap.read (after.heap.slot slot).2 = .ok v

/-- An entry of a frame that goes on. -/
theorem lookup_kept {heap heap' : Heap Empty} (h : heap.Extends heap') {f a : Nat} {x : String}
    {slots : List (Slot Empty)} {part : List Nat} (hframe : HoldsFrame heap f slots part)
    (ha : (heap.frame f).lookup x = some a) : (heap'.frame f).lookup x = some a := by
  cases hframe with
  | mk hcell _ =>
    obtain ⟨added, hcell'⟩ := h.frames f _ hcell
    rw [Heap.frame_eq hcell] at ha
    rw [Heap.frame_eq hcell', List.lookup_append, ha]
    rfl

/-- A binding of the scope is kept where it is in the tree. -/
theorem keepsSlot_of_tree {after : Machine} (hs : HoldsScope m.heap scope s own)
    (hs' : HoldsScope after.heap scope s' own') (hmoves : m.heap.Moves after.heap own own') {x : String}
    (hkept : ∀ i slot, s.bindingAt i x = some slot → s'.bindingAt i x = some slot) {f a : Nat}
    (hf : f ∈ m.frames scope) (ha : (m.heap.frame f).lookup x = some a) :
    (after.heap.frame f).lookup x = some a ∧ m.KeepsSlot after a := by
  obtain ⟨top, outer, hcell, hframes⟩ := hs.frames
  obtain ⟨top', outer', hcell', hframes'⟩ := hs'.frames
  cases hcell'.symm.trans (hmoves.scopes _ _ _ hcell)
  rw [frames, Heap.scope_eq hcell] at hf
  obtain ⟨i, hi⟩ := List.mem_iff_getElem?.1 hf
  obtain ⟨slots, part, hslots, hframe, _⟩ := hframes.get_left hi
  obtain ⟨slots', part', hslots', hframe', _⟩ := hframes'.get_left hi
  have ha' := lookup_kept hmoves.extends_heap hframe ha
  obtain ⟨slot, hfind, hflag, hshows⟩ := hframe.shows (hs.fresh _ (List.mem_of_getElem? hslots)) ha
  obtain ⟨slot', hfind', hflag', hshows'⟩ := hframe'.shows (hs'.fresh _ (List.mem_of_getElem? hslots')) ha'
  have hbinding := hkept i slot (by rw [Scope.bindingAt, hslots, Option.bind_some, hfind])
  rw [Scope.bindingAt, hslots', Option.bind_some, hfind'] at hbinding
  obtain rfl := Option.some.inj hbinding
  exact ⟨ha', hflag'.trans hflag.symm, slot'.value, hshows.read, hshows'.read⟩

/-- **What is not assigned is unchanged.**  In a machine that is reached, let a frame of the scope have a
binding whose name a node does not assign.  After the node, whatever it comes to and whatever functions it
calls, the frame has the same binding, and it is what it was, with all fields of its object at every depth.  A
node without assignments changes no binding at all. -/
theorem unassigned_unchanged (hm : Reached m scope) (depth : Nat) (node : Node) :
    let evaluated := ((evaluate (callFunction depth) scope node).outcome m).2
    let executed := ((execute (callFunction depth) scope node).outcome m).2
    (∀ x f a, x ∉ node.assigned → f ∈ m.frames scope → (m.heap.frame f).lookup x = some a →
      ((evaluated.heap.frame f).lookup x = some a ∧ m.KeepsSlot evaluated a) ∧
      ((executed.heap.frame f).lookup x = some a ∧ m.KeepsSlot executed a)) ∧
    (node.targets = [] → ∃ before w w' added, m.shows scope = .ok before ∧
      (evaluated.shows scope = .ok w ∧ w.scope = before.scope) ∧
      (executed.shows scope = .ok w' ∧
        w'.scope = { before.scope with top := before.scope.top ++ added })) := by
  intro evaluated executed
  obtain ⟨s, own, hs⟩ := hm.holds
  have hc := callFunction_returns depth
  obtain ⟨t, part, hworld, ht, hmoves, _⟩ := evaluate_follows hc node m s own hs
  obtain ⟨u, part', hworld', hu, hmoves', _⟩ := execute_follows hc node m s own hs
  constructor
  · intro x f a hx hf ha
    have hkept := Eval.bindingAt_unassigned Host.none (world_owned hs) depth hx
    rw [hworld, hworld'] at hkept
    exact ⟨keepsSlot_of_tree hs ht hmoves (fun i slot h => (hkept i slot h).1) hf ha,
      keepsSlot_of_tree hs hu hmoves' (fun i slot h => (hkept i slot h).2) hf ha⟩
  · intro hnone
    obtain ⟨hsame, added, hadded⟩ := Eval.scope_untargeted Host.none (world_owned hs) depth hnone
    rw [hworld] at hsame
    rw [hworld'] at hadded
    exact ⟨_, _, _, added, shows_eq hs, ⟨shows_eq ht, hsame⟩, shows_eq hu, hadded⟩

/-- The machine in which `y` and `z` are objects with a field `a`. -/
def objectPair : Machine :=
  let define (name : String) : Run Unit := defineValue home name true (.object [⟨"a", true, .number 1⟩])
  ((define "z").outcome ((define "y").outcome initial).2).2

/-- The block `{ let z = 5; (y).a = z; z.a; }` assigns to `y` only.  It fails, and leaves the outer `z` as it
was. -/
theorem unassigned_unchanged_shadowed :
    let ident (name : String) : Node := ⟨none, .ident name⟩
    let block : Node := ⟨none, .block [⟨none, .declaration "z" ⟨none, .number "5"⟩ true⟩,
      ⟨none, .assign ⟨none, .member ⟨none, .group (ident "y")⟩ (ident "a")⟩ "=" (ident "z")⟩,
      ⟨none, .member (ident "z") (ident "a")⟩]⟩
    let run := (execute (callFunction 1) home block).outcome objectPair
    Reached objectPair home ∧ block.assigned = ["y"] ∧ run.1.isOk = false ∧
      (run.2.reads home (.ofNames "y" ["a"])).toOption.map Value.text = some "5" ∧
      ∃ z, (objectPair.heap.frame 0).lookup "z" = some z ∧ (run.2.heap.frame 0).lookup "z" = some z ∧
        objectPair.KeepsSlot run.2 z := by
  intro ident block run
  have hv : (Value.object [⟨"a", true, .number 1⟩] : Value Empty).Fresh := by
    simp [Value.Fresh, Value.FreshFields]
  have hm : Reached objectPair home := .define "z" true (.define "y" true .initial hv) hv
  have hassigned : block.assigned = ["y"] := rfl
  have h := ((unassigned_unchanged hm 1 block).1 "z" 0 9 (by rw [hassigned]; decide) (by decide) rfl).2
  exact ⟨hm, hassigned, by decide +kernel, by decide +kernel, 9, rfl, h.1, h.2⟩

end Machine

end Scriptlet
