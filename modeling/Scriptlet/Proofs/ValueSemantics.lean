import Scriptlet.Proofs.Ownership

/-!
# Assignments on trees

In a world that shares nothing an assignment gives its target the value that the right side had, and
whatever is read through a path apart from the target stays as it was (`reads_assignment`).  So after `x`
has been made a copy of `y`, by a declaration or by an assignment (`reads_copied`), each of them can be
changed inside, at any depth, and the other does not show it (`reads_afterAll`).
-/

namespace Scriptlet

set_option autoImplicit false

variable {ε σ : Type}

/-- An access path: a name of the scope followed by names of fields. -/
def Path.ofNames (name : String) (fields : List String) : Path :=
  ⟨.name name, fields.map .name⟩

/-- A literal, a name or a member access. -/
def Form.IsSimple : Form → Prop
  | .number _ | .string _ | .boolean _ | .null | .ident _ | .member _ _ => True
  | _ => False

namespace Node

/-- An assignment, with any operator, of a simple value to a path that starts with a name. -/
inductive AssignsThrough (root : String) : Node → Prop
  | assign {loc : Option Location} {target value : Node} (op : String) (fields : List String) :
    target.path = .ofNames root fields → value.form.IsSimple →
    AssignsThrough root ⟨loc, .assign target op value⟩

/-- A declaration of `x` with the value of `y`, or an assignment of `y` to `x`. -/
inductive MakesCopy (x y : String) : Node → Prop
  | declaration {loc place : Option Location} (isMutable : Bool) :
    MakesCopy x y ⟨loc, .declaration x ⟨place, .ident y⟩ isMutable⟩
  | assign {loc place : Option Location} {target : Node} :
    target.path = .name x → MakesCopy x y ⟨loc, .assign target "=" ⟨place, .ident y⟩⟩

end Node

namespace World

/-- What a path is read as. -/
def reads (w : World ε σ) (path : Path) : Except (Fault ε) (Value ε) :=
  ((Exec.read path).outcome w).1

theorem reads_congr {v w : World ε σ} (hs : v.scope = w.scope) (ht : v.store = w.store)
    (path : Path) : v.reads path = w.reads path := by
  simp only [reads, Exec.outcome_read, hs, ht]

theorem reads_visited (w : World ε σ) (visited : Option Node) (path : Path) :
    { w with visited }.reads path = w.reads path := by
  simp only [reads, Exec.outcome_read]

theorem outcome_read_eq (w : World ε σ) (path : Path) :
    (Exec.read path).outcome w = (w.reads path, w) := by
  rw [reads, Exec.outcome_read]

/-- In an owned world a path is read as the value that it leads to. -/
theorem Owned.reads_eq {w : World ε σ} (h : w.Owned) (path : Path) :
    w.reads path = ((w.scope.resolve w.store path).map (·.value)).mapError .ofCause := by
  rw [reads, Exec.outcome_read_owned path h]

theorem Owned.reads_name {w : World ε σ} (h : w.Owned) (name : String) :
    w.reads (.name name) =
      match w.scope.find? name with
      | some slot => .ok slot.value
      | none => .error (.ofCause (.unbound name)) := by
  rw [h.reads_eq, Scope.resolve, Path.name, Step.follow]
  cases w.scope.find? name <;> rfl

end World

namespace Eval

variable [BEq ε]

open Exec

/-- The world after expressions have been evaluated one after the other, whatever they come to. -/
def afterAll (call : Caller ε σ) (nodes : List Node) (w : World ε σ) : World ε σ :=
  nodes.foldl (fun w node => ((evaluate call node).outcome w).2) w

variable {call : Caller ε σ}

/-- A simple value is found without a change of the world; the node visited does not matter. -/
theorem evaluate_simple (call : Caller ε σ) {value : Node} (hs : value.form.IsSimple) (w : World ε σ) :
    ∃ r, ∀ visited, (evaluate call value).outcome { w with visited } =
      (r, { w with visited := some value }) := by
  obtain ⟨loc, form⟩ := value
  have step : ∀ r, (∀ visited, (evaluateForm call loc form).outcome { w with visited } =
      (r, { w with visited })) → ∀ visited,
      (evaluate call ⟨loc, form⟩).outcome { w with visited } =
        (r.mapError (Fault.attach loc), { w with visited := some ⟨loc, form⟩ }) := by
    intro r hr visited
    simp only [outcome_evaluate, hr]
  cases form with
  | number text =>
    refine ⟨_, step ((Literal.number text).mapError .ofFailure |>.map .number) ?_⟩
    intro visited
    rw [evaluateForm, outcome_bind, outcome_ofFailing]
    cases Literal.number text <;> rfl
  | string text =>
    refine ⟨_, step ((Literal.string text).mapError .ofCause |>.map .string) ?_⟩
    intro visited
    rw [evaluateForm, outcome_bind, outcome_ofExcept]
    cases Literal.string text <;> rfl
  | boolean text =>
    refine ⟨_, step ((Literal.boolean text).mapError .ofCause |>.map .boolean) ?_⟩
    intro visited
    rw [evaluateForm, outcome_bind, outcome_ofExcept]
    cases Literal.boolean text <;> rfl
  | null => exact ⟨_, step (.ok .null) fun visited => by rw [evaluateForm]; rfl⟩
  | ident name =>
    refine ⟨_, step (w.reads (.name name)) ?_⟩
    intro visited
    rw [evaluateForm, World.outcome_read_eq, World.reads_visited]
  | member object member =>
    refine ⟨_, step (w.reads (object.path.append member.path)) ?_⟩
    intro visited
    rw [evaluateForm, World.outcome_read_eq, World.reads_visited]
  | _ => exact hs.elim

/-- An assignment of a simple value fails and changes nothing that can be read, or it succeeds and
has changed the slot of its target. -/
theorem evaluate_assign_cases {value : Node} (hs : value.form.IsSimple) (loc : Option Location)
    (target : Node) (op : String) (w : World ε σ) {r : Except (Fault ε) (Value ε)}
    {after : World ε σ}
    (h : (evaluate call ⟨loc, .assign target op value⟩).outcome w = (r, after)) :
    ((∃ e, r = .error e) ∧ after.scope = w.scope ∧ after.store = w.store) ∨
    ∃ v, ((evaluate call value).outcome w).1 = .ok v ∧
      w.scope.modify w.store target.path (assigned op v) = .ok (after.scope, after.store) := by
  obtain ⟨found, hfound⟩ := evaluate_simple call hs w
  have hvalue : ((evaluate call value).outcome w).1 = found := by rw [hfound w.visited]
  simp only [outcome_evaluate, evaluateForm, outcome_bind, hfound] at h
  cases found with
  | error e =>
    obtain ⟨rfl, rfl⟩ := Prod.mk.inj h
    exact .inl ⟨⟨_, rfl⟩, rfl, rfl⟩
  | ok v =>
    simp only [outcome_modifySlot] at h
    cases hm : w.scope.modify w.store target.path (assigned op v) with
    | error failure =>
      rw [hm] at h
      obtain ⟨rfl, rfl⟩ := Prod.mk.inj h
      exact .inl ⟨⟨_, rfl⟩, rfl, rfl⟩
    | ok changed =>
      rw [hm] at h
      obtain ⟨rfl, rfl⟩ := Prod.mk.inj h
      exact .inr ⟨v, hvalue, hm⟩

theorem outcome_evaluate_ident (place : Option Location) (name : String) (w : World ε σ) :
    (evaluate call ⟨place, .ident name⟩).outcome w =
      ((w.reads (.name name)).mapError (Fault.attach place),
        { w with visited := some ⟨place, .ident name⟩ }) := by
  simp only [outcome_evaluate, evaluateForm, World.outcome_read_eq, World.reads_visited]

end Eval

/-! ## What a change shows -/

namespace Path

theorem steps_ofNames (name : String) (fields : List String) :
    (ofNames name fields).steps = (name :: fields).map .name := rfl

theorem steps_prefix_iff {n m : String} {ns ms : List String} :
    (ofNames n ns).steps <+: (ofNames m ms).steps ↔ (n :: ns) <+: (m :: ms) := by
  rw [steps_ofNames, steps_ofNames]
  exact List.prefix_map_iff_of_injective (fun a b h => Step.name.inj h)

end Path

namespace World.Owned

variable [BEq ε] {w after : World ε σ} {target : Path} {op : String} {v : Value ε}

/-- What was assigned with `=` is read back. -/
theorem reads_assigned (h : w.Owned) (ha : after.Owned)
    (hm : w.scope.modify w.store target (Eval.assigned "=" v) = .ok (after.scope, after.store)) :
    after.reads target = .ok v := by
  obtain ⟨old, new, _, hf, hnew⟩ := Scope.resolve_modify_end h Eval.assigned_name hm
  obtain ⟨n, slot, changed, _, _, _, _, hstore⟩ := Scope.modify_every h hm
  have hnewv : new.value = v := by
    rw [Eval.assigned, if_pos rfl] at hf
    rw [(Slot.assign_eq (mapError_eq_ok.1 hf)).2.2]
  rw [ha.reads_eq, hstore, hnew, ← hnewv]
  rfl

/-- What is read through a path apart from the target has not changed. -/
theorem reads_apart (h : w.Owned) (ha : after.Owned)
    (hm : w.scope.modify w.store target (Eval.assigned op v) = .ok (after.scope, after.store))
    {other : Path} (hl : ¬ target.steps <+: other.steps) (hr : ¬ other.steps <+: target.steps) :
    after.reads other = w.reads other := by
  obtain ⟨n, slot, changed, _, _, _, _, hstore⟩ := Scope.modify_every h hm
  rw [ha.reads_eq, h.reads_eq, hstore, Scope.resolve_modify_apart h Eval.assigned_name hm hl hr]

end World.Owned

namespace Eval

variable [BEq ε] {call : Caller ε σ}

open Exec

/-- Assignments through one name are not seen through another. -/
theorem reads_afterAll (hc : OwnedCaller call) {root other : String} (hne : root ≠ other)
    {nodes : List Node} (hn : ∀ node ∈ nodes, node.AssignsThrough root) {w : World ε σ} (hw : w.Owned)
    (fields : List String) :
    (afterAll call nodes w).reads (.ofNames other fields) = w.reads (.ofNames other fields) := by
  induction nodes generalizing w with
  | nil => rfl
  | cons node rest ih =>
    have ha := (evaluate_owned hc node w hw).1
    rw [afterAll, List.foldl_cons]
    refine (ih (fun n hm => hn n (List.mem_cons_of_mem _ hm)) ha).trans ?_
    obtain ⟨op, _, htarget, hs⟩ := hn node List.mem_cons_self
    rcases evaluate_assign_cases hs _ _ op w rfl with ⟨_, hscope, hstore⟩ | ⟨v, _, hm⟩
    · exact World.reads_congr hscope hstore _
    · rw [htarget] at hm
      refine hw.reads_apart ha hm ?_ ?_
      · rw [Path.steps_prefix_iff, List.cons_prefix_cons]
        exact fun h => hne h.1
      · rw [Path.steps_prefix_iff, List.cons_prefix_cons]
        exact fun h => hne h.1.symm

/-- After `x` has been declared with the value of `y`, both are read as `y` was. -/
theorem reads_declaration (hc : OwnedCaller call) {x y : String} (hne : x ≠ y)
    {loc place : Option Location} {isMutable : Bool} {w after : World ε σ} (hw : w.Owned)
    {r : Outcome ε}
    (h : (execute call ⟨loc, .declaration x ⟨place, .ident y⟩ isMutable⟩).outcome w = (.ok r, after)) :
    after.reads (.name x) = w.reads (.name y) ∧ after.reads (.name y) = w.reads (.name y) := by
  have ha : after.Owned := (execute_owned hc _).after hw h
  rw [execute_eq_ok, executeForm] at h
  obtain ⟨v, between, hv, h⟩ := bind_eq_ok.1 h
  rw [outcome_evaluate_ident, World.reads_visited] at hv
  obtain ⟨hread, rfl⟩ := Prod.mk.inj hv
  obtain ⟨_, _, hd, h⟩ := bind_eq_ok.1 h
  cases h
  rw [outcome_define] at hd
  split at hd
  · next scope hs =>
    obtain ⟨-, rfl⟩ := Prod.mk.inj hd
    rw [ha.reads_name, ha.reads_name, Scope.find?_define hs, Scope.find?_define hs, if_pos rfl,
      if_neg hne, ← hw.reads_name y]
    exact ⟨(mapError_eq_ok.1 hread).symm, rfl⟩
  · exact nomatch hd

/-- After `y` has been assigned to `x`, both are read as `y` was. -/
theorem reads_assign (hc : OwnedCaller call) {x y : String} (hne : x ≠ y)
    {loc place : Option Location} {target : Node} (htarget : target.path = .name x)
    {w after : World ε σ} (hw : w.Owned) {r : Outcome ε}
    (h : (execute call ⟨loc, .assign target "=" ⟨place, .ident y⟩⟩).outcome w = (.ok r, after)) :
    after.reads (.name x) = w.reads (.name y) ∧ after.reads (.name y) = w.reads (.name y) := by
  have ha : after.Owned := (execute_owned hc _).after hw h
  have hs : (⟨place, .ident y⟩ : Node).form.IsSimple := trivial
  rw [execute_eq_ok, executeForm] at h
  · obtain ⟨_, _, he, h⟩ := bind_eq_ok.1 h
    cases h
    rcases evaluate_assign_cases hs _ _ _ _ he with ⟨⟨e, he⟩, -⟩ | ⟨v, hv, hm⟩
    · exact nomatch he
    · rw [outcome_evaluate_ident, World.reads_visited] at hv
      rw [htarget] at hm
      constructor
      · rw [mapError_eq_ok.1 hv]
        exact World.Owned.reads_assigned hw ha hm
      · rw [ha.reads_name, hw.reads_name, Scope.find?_modify hw assigned_name hm]
        exact fun h => hne (Step.name.inj h)
  all_goals simp

/-- After `x` has been made a copy of `y`, both are read as `y` was. -/
theorem reads_copied (hc : OwnedCaller call) {x y : String} (hne : x ≠ y) {node : Node}
    (hn : node.MakesCopy x y) {w after : World ε σ} (hw : w.Owned) {r : Outcome ε}
    (h : (execute call node).outcome w = (.ok r, after)) :
    after.reads (.name x) = w.reads (.name y) ∧ after.reads (.name y) = w.reads (.name y) := by
  cases hn with
  | declaration isMutable => exact reads_declaration hc hne hw h
  | assign htarget => exact reads_assign hc hne htarget hw h

/-- An assignment makes its target read as the value that the right side had, and leaves what is read through
a path apart from the target as it was. -/
theorem reads_assignment (hc : OwnedCaller call) {loc : Option Location} {target value : Node} {name : String}
    {fields : List String} (htarget : target.path = .ofNames name fields) (hs : value.form.IsSimple)
    {w after : World ε σ} (hw : w.Owned) {r : Value ε}
    (h : (evaluate call ⟨loc, .assign target "=" value⟩).outcome w = (.ok r, after)) :
    ∃ v, ((evaluate call value).outcome w).1 = .ok v ∧ after.reads (.ofNames name fields) = .ok v ∧
      ∀ other others, ¬ (name :: fields) <+: (other :: others) → ¬ (other :: others) <+: (name :: fields) →
        after.reads (.ofNames other others) = w.reads (.ofNames other others) := by
  have ha : after.Owned := (evaluate_owned hc _).after hw h
  rcases evaluate_assign_cases hs loc target "=" w h with ⟨⟨e, he⟩, -⟩ | ⟨v, hv, hm⟩
  · exact nomatch he
  · rw [htarget] at hm
    refine ⟨v, hv, hw.reads_assigned ha hm, fun other others hl hr => ?_⟩
    exact hw.reads_apart ha hm (mt Path.steps_prefix_iff.1 hl) (mt Path.steps_prefix_iff.1 hr)

end Eval

end Scriptlet
