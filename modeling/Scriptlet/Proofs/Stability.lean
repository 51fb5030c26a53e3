import Mathlib.Data.List.Forall2
import Scriptlet.Proofs.Conduct

/-!
# Bindings are stable

A run leaves every frame with the slots that it had, in the same order, and adds slots only at the
end of the top frame of its own scope; an expression, a `return` and a block add none there.  A slot
keeps its name, its flag and the sort of its value, and a constant that is no object keeps its value
(`bindings_stable`).  The slot of a name that the code does not assign is the same afterwards,
whatever functions the code calls (`bindingAt_unassigned`).

`Scope.Stays R` and `Scope.Grows R` compare scopes slot by slot, for any relation `R` that goes from
one step to a whole run (`Steady`).
-/

namespace Scriptlet

set_option autoImplicit false

variable {ε σ : Type}

/-! ## Scopes compared slot by slot -/

/-- A relation between a slot and what is left of it.  It may be taken step by step, and holds of a
slot that changes by an assignment along a path in `T`. -/
structure Steady [BEq ε] (T : Path → Prop) (R : Slot ε → Slot ε → Prop) : Prop where
  refl : ∀ s, R s s
  trans : ∀ s t u, R s t → R t u → R s u
  name : ∀ s t, R s t → t.name = s.name
  assign : ∀ path op v store s t, T path → path.first = .name s.name →
    s.modify store (Eval.assigned op v) path.rest = .ok (.slot t) → R s t

/-- Two scopes with slots in the same places, which are related by `R`. -/
def Scope.Stays (R : Slot ε → Slot ε → Prop) (s t : Scope ε) : Prop :=
  List.Forall₂ (List.Forall₂ R) s.frames t.frames

/-- Two scopes with slots in the same places, which are related by `R`; the second may have slots of
new names at the end of its top frame. -/
def Scope.Grows (R : Slot ε → Slot ε → Prop) (s t : Scope ε) : Prop :=
  ∃ kept added, s.Stays R kept ∧ t = { kept with top := kept.top ++ added } ∧
    ∀ slot ∈ added, Fields.has slot.name s.top = false

namespace Steady

variable [BEq ε] {T : Path → Prop} {R : Slot ε → Slot ε → Prop} (hR : Steady T R)

include hR

theorem refl_fields (fields : List (Slot ε)) : List.Forall₂ R fields fields :=
  List.forall₂_same.2 fun s _ => hR.refl s

theorem trans_fields {f g h : List (Slot ε)} (hfg : List.Forall₂ R f g) (hgh : List.Forall₂ R g h) :
    List.Forall₂ R f h := by
  induction hfg generalizing h with
  | nil => exact hgh
  | cons hab _ ih =>
    cases hgh with
    | cons hbc hrest => exact .cons (hR.trans _ _ _ hab hbc) (ih hrest)

theorem has_eq {f g : List (Slot ε)} (h : List.Forall₂ R f g) (name : String) :
    Fields.has name g = Fields.has name f := by
  induction h with
  | nil => rfl
  | cons hab _ ih =>
    rw [Fields.has, List.any_cons, hR.name _ _ hab]
    exact congrArg _ ih

/-- A slot is put in the place of the one that its name finds. -/
theorem put {fields : List (Slot ε)} {slot changed : Slot ε}
    (hfind : Fields.find? changed.name fields = some slot) (h : R slot changed) :
    List.Forall₂ R fields (Fields.put changed fields) := by
  induction fields with
  | nil => exact nomatch hfind
  | cons first rest ih =>
    rw [Fields.find?, List.find?_cons] at hfind
    rw [Fields.put]
    split at hfind
    · next hn =>
      rw [if_pos hn, Option.some.inj hfind]
      exact .cons h (hR.refl_fields rest)
    · next hn =>
      rw [if_neg (by simp [hn])]
      exact .cons (hR.refl first) (ih hfind)

theorem refl_scope (s : Scope ε) : s.Stays R s :=
  List.forall₂_same.2 fun frame _ => hR.refl_fields frame

theorem trans_scope {s t u : Scope ε} (hst : s.Stays R t) (htu : t.Stays R u) : s.Stays R u := by
  have trans_frames : ∀ {f g h : List (List (Slot ε))}, List.Forall₂ (List.Forall₂ R) f g →
      List.Forall₂ (List.Forall₂ R) g h → List.Forall₂ (List.Forall₂ R) f h := by
    intro f g h hfg
    induction hfg generalizing h with
    | nil => exact fun hgh => hgh
    | cons hab _ ih =>
      intro hgh
      cases hgh with
      | cons hbc hrest => exact .cons (hR.trans_fields hab hbc) (ih hrest)
  exact trans_frames hst htu

theorem replace {s : Scope ε} {slot changed : Slot ε} (hfind : s.find? changed.name = some slot)
    (h : R slot changed) : s.Stays R (s.replace changed) := by
  have replaceIn_frames : ∀ frames : List (List (Slot ε)),
      frames.findSome? (Fields.find? changed.name) = some slot →
      List.Forall₂ (List.Forall₂ R) frames (Scope.replaceIn changed frames) := by
    intro frames
    induction frames with
    | nil => exact fun h => nomatch h
    | cons frame rest ih =>
      intro hfind
      rw [List.findSome?_cons] at hfind
      rw [Scope.replaceIn, Fields.has_eq_isSome]
      split at hfind
      · next found hf =>
        obtain rfl := Option.some.inj hfind
        rw [if_pos (by rw [hf]; rfl)]
        exact .cons (hR.put hf h) (List.forall₂_same.2 fun frame _ => hR.refl_fields frame)
      · next hf =>
        rw [if_neg (by rw [hf]; simp)]
        exact .cons (hR.refl_fields frame) (ih hfind)
  rw [Scope.Stays, Scope.replace_frames]
  exact replaceIn_frames s.frames hfind

end Steady

namespace Scope

variable {R : Slot ε → Slot ε → Prop} {s t u : Scope ε}

theorem Stays.grows (h : s.Stays R t) : s.Grows R t :=
  ⟨t, [], h, by rw [List.append_nil], List.forall_mem_nil _⟩

theorem Stays.top (h : s.Stays R t) : List.Forall₂ R s.top t.top :=
  (List.forall₂_cons.1 h).1

theorem Stays.outer (h : s.Stays R t) : List.Forall₂ (List.Forall₂ R) s.outer t.outer :=
  (List.forall₂_cons.1 h).2

theorem Stays.trans_grows [BEq ε] {T : Path → Prop} (hR : Steady T R) (hst : s.Stays R t)
    (htu : t.Grows R u) : s.Grows R u := by
  obtain ⟨kept, added, hkept, rfl, hadded⟩ := htu
  refine ⟨kept, added, hR.trans_scope hst hkept, rfl, ?_⟩
  intro slot hslot
  rw [← hR.has_eq hst.top]
  exact hadded slot hslot

/-- A slot of a new name may be added first. -/
theorem Grows.of_define [BEq ε] {T : Path → Prop} (hR : Steady T R) {slot : Slot ε}
    (hd : s.define slot = .ok t) (htu : t.Grows R u) : s.Grows R u := by
  obtain ⟨hnew, rfl⟩ := define_eq hd
  obtain ⟨kept, added, hkept, rfl, hadded⟩ := htu
  -- What is left of the top frame is followed by what is left of the new slot.
  have hold : List.Forall₂ R s.top (kept.top.take s.top.length) := by
    have htake := List.forall₂_take s.top.length hkept.top
    rwa [List.take_left] at htake
  have hlast : List.Forall₂ R [slot] (kept.top.drop s.top.length) := by
    have hdrop := List.forall₂_drop s.top.length hkept.top
    rwa [List.drop_left] at hdrop
  refine ⟨{ kept with top := kept.top.take s.top.length },
    kept.top.drop s.top.length ++ added, .cons hold hkept.outer, ?_, ?_⟩
  · rw [← List.append_assoc, List.take_append_drop]
  · intro other hother
    rcases List.mem_append.1 hother with hother | hother
    · generalize kept.top.drop s.top.length = last at hlast hother
      obtain _ | ⟨hname, _ | _⟩ := hlast
      rw [List.mem_singleton.1 hother, hR.name _ _ hname]
      exact hnew
    · have hfree := hadded other hother
      rw [Fields.has, List.any_append, Bool.or_eq_false_iff] at hfree
      exact hfree.1

/-- What is left of the frames under a new one is what is left of the frames. -/
theorem Grows.pop (h : s.push.Grows R t) : s.Stays R t.pop := by
  obtain ⟨kept, added, hkept, rfl, _⟩ := h
  have houter : List.Forall₂ (List.Forall₂ R) s.frames kept.outer := hkept.outer
  obtain ⟨top, outer⟩ := kept
  cases houter with
  | cons hf hrest => exact .cons hf hrest

end Scope

namespace Scope.Becomes

variable [BEq ε] {P : Function ε → Prop} {T : Path → Prop} {R : Slot ε → Slot ε → Prop}
  {defines : Bool} {s t : Scope ε}

/-- What one assignment leaves of a slot, a run leaves of every slot.  The induction is on the
changes of the run; a block keeps the frames under its own. -/
theorem stays_grows (hR : Steady T R) (h : s.Becomes P T defines t) :
    (defines = false → s.Stays R t) ∧ s.Grows R t := by
  induction h with
  | done s => exact ⟨fun _ => hR.refl_scope s, (hR.refl_scope s).grows⟩
  | @assign defines s t u store store' path op v hpath _ hm _ ih =>
    have hst : s.Stays R t := by
      obtain ⟨n, slot, hfirst, hn, ⟨changed, hc, rfl, _⟩ | ⟨_, rfl⟩⟩ := modify_cases hm
      · have hname : slot.name = n := find?_name hn
        have hchanged : R slot changed :=
          hR.assign path op v store slot changed hpath (by rw [hname, hfirst]) hc
        exact hR.replace (by rw [hR.name _ _ hchanged, hname, hn]) hchanged
      · exact hR.refl_scope t
    exact ⟨fun hd => hR.trans_scope hst (ih.1 hd), hst.trans_grows hR ih.2⟩
  | define _ hd _ ih => exact ⟨fun hf => (nomatch hf), .of_define hR hd ih.2⟩
  | block _ _ ihBlock ih =>
    have hpop := ihBlock.2.pop
    exact ⟨fun hd => hR.trans_scope hpop (ih.1 hd), hpop.trans_grows hR ih.2⟩

end Scope.Becomes

/-! ## What a run leaves of a slot -/

/-- A slot keeps its name, its flag and the sort of its value, and a constant that is no object
keeps its value. -/
structure Slot.Keeps (s t : Slot ε) : Prop where
  name : t.name = s.name
  isMutable : t.isMutable = s.isMutable
  variant : t.value.variant = s.value.variant
  constant : s.isMutable = false → s.value.variant ≠ .object → t.value = s.value

namespace Slot

variable {store : Store ε} {slot changed : Slot ε}

/-- A change inside an object leaves an object in the slot. -/
theorem modify_inside {f : Slot ε → Except Failure (Slot ε)} {step : Step} {rest : List Step}
    (h : slot.modify store f (step :: rest) = .ok (.slot changed)) :
    slot.value.variant = .object ∧ ∃ fields, changed = { slot with value := .object fields } := by
  obtain ⟨n, fields, field, inner, _, _, _, hcase⟩ := modify_cons_eq h
  rcases hcase with ⟨hv, hc⟩ | ⟨holder, place, _, _, hc⟩
  · refine ⟨by rw [hv]; rfl, ?_⟩
    cases inner with
    | slot put => exact ⟨_, Change.slot.inj hc⟩
    | store put => exact nomatch hc
  · cases inner with
    | slot put => exact nomatch hc
    | store put => exact nomatch hc

theorem keeps_assigned [BEq ε] {op : String} {v : Value ε}
    (h : Eval.assigned op v slot = .ok changed) : slot.Keeps changed := by
  obtain ⟨u, ha, _⟩ := Eval.assigned_eq h
  obtain ⟨hm, ht, rfl⟩ := assign_eq ha
  refine ⟨rfl, rfl, (eq_of_beq ht).symm, fun hc => ?_⟩
  rw [hm] at hc
  exact nomatch hc

theorem keeps_modify [BEq ε] {op : String} {v : Value ε} {steps : List Step}
    (h : slot.modify store (Eval.assigned op v) steps = .ok (.slot changed)) :
    slot.Keeps changed := by
  cases steps with
  | nil =>
    rw [modify] at h
    obtain ⟨found, hc, hfound⟩ := except_map_eq_ok.1 h
    exact Change.slot.inj hfound ▸ keeps_assigned hc
  | cons step rest =>
    obtain ⟨hv, fields, rfl⟩ := modify_inside h
    exact ⟨rfl, rfl, hv.symm, fun _ hn => (hn hv).elim⟩

theorem steady_keeps [BEq ε] (T : Path → Prop) : Steady T (Slot.Keeps : Slot ε → Slot ε → Prop) where
  refl _ := ⟨rfl, rfl, rfl, fun _ _ => rfl⟩
  trans s t u hst htu := by
    refine ⟨htu.name.trans hst.name, htu.isMutable.trans hst.isMutable,
      htu.variant.trans hst.variant, ?_⟩
    intro hm hv
    rw [htu.constant (hst.isMutable.trans hm) (hst.variant ▸ hv), hst.constant hm hv]
  name _ _ h := h.name
  assign _ _ _ _ _ _ _ _ := keeps_modify

end Slot

open Eval in
/-- Whatever a node comes to, every frame keeps its slots, in their order, with their names, flags,
the sorts of their values and the values of constants that are no objects.  An expression adds no
slot, a statement only new names at the end of the top frame, and only a declaration or a script of
statements adds any. -/
theorem bindings_stable [BEq ε] (host : Host ε σ) (depth : Nat) (node : Node) {w : World ε σ}
    (hw : w.Hostless) :
    w.scope.Stays Slot.Keeps ((evaluate (callFunction host depth) node).outcome w).2.scope ∧
      w.scope.Grows Slot.Keeps ((execute (callFunction host depth) node).outcome w).2.scope ∧
      (node.form.defines = false →
        w.scope.Stays Slot.Keeps ((execute (callFunction host depth) node).outcome w).2.scope) := by
  let π : Terms ε := .failing Function.Owned True (fun _ => True) fun _ => False
  have hc := callFunction_follows host π Function.closed_owned depth
  have hevaluate := evaluate_follows hc node (fun _ _ => trivial) (fun _ _ => trivial) w hw
  have hexecute := execute_follows hc node (fun _ _ => trivial) (fun _ _ => trivial)
    (fun _ _ _ _ he => nomatch he) w hw
  obtain ⟨hstays, _⟩ := hevaluate.scope.stays_grows (Slot.steady_keeps _)
  obtain ⟨hquiet, hgrows⟩ := hexecute.scope.stays_grows (Slot.steady_keeps _)
  exact ⟨hstays rfl, hgrows, hquiet⟩

/-- A world in which `o` and the constant `p` of an outer frame are one object. -/
def sharingWorld : World Unit Unit :=
  { (World.initial () : World Unit Unit) with
    scope := ⟨[⟨"x", true, .number 1⟩, ⟨"o", true, .shared () 0⟩], [[⟨"p", false, .shared () 0⟩]]⟩
    store := ⟨[[⟨"a", true, .number 1⟩]]⟩ }

open Eval in
/-- The block `{ let y = 2; x = y; p = o; }` changes `x` and then fails at the constant `p`; its `y`
is gone. -/
theorem bindings_stable_failing_block :
    let host : Host Unit Unit := ⟨fun _ _ access => (.value .null, access)⟩
    let ident (name : String) : Node := ⟨none, .ident name⟩
    let assign (target value : Node) : Node := ⟨none, .expression ⟨none, .assign target "=" value⟩⟩
    let block : Node := ⟨none, .block [⟨none, .declaration "y" ⟨none, .number "2"⟩ true⟩,
      assign (ident "x") (ident "y"), assign (ident "p") (ident "o")]⟩
    let run := (execute (callFunction host 1) block).outcome sharingWorld
    sharingWorld.Hostless ∧ sharingWorld.scope.Stays Slot.Keeps run.2.scope ∧
      run.1.isOk = false ∧ (run.2.scope.find? "x").map (·.value.text) = some "2" := by
  intro host ident assign block run
  have hw : sharingWorld.Hostless := by
    refine ⟨?_, fun _ place => ?_⟩
    · simp [sharingWorld, Scope.Holds, Scope.All, Scope.frames, Value.Holds]
    · rcases place with _ | place
      · simp [sharingWorld, Store.fields, Value.Holds]
      · simp [sharingWorld, Store.fields]
  exact ⟨hw, (bindings_stable host 1 block hw).2.2 rfl, by decide +kernel, by decide +kernel⟩

/-! ## Names that are not assigned -/

/-- The name that a path starts from. -/
def Path.root? (path : Path) : Option String :=
  match path.first with
  | .name name => some name
  | .other _ => none

/-- The names from which the paths left of the assignments in a node start.  Function bodies do not
count. -/
def Node.assigned (node : Node) : List String :=
  node.targets.filterMap Path.root?

/-- The slot of a name in the `i`-th frame, the top frame being the first. -/
def Scope.bindingAt (s : Scope ε) (i : Nat) (name : String) : Option (Slot ε) :=
  s.frames[i]?.bind (Fields.find? name)

theorem Scope.name_bindingAt {s : Scope ε} {i : Nat} {x : String} {slot : Slot ε}
    (h : s.bindingAt i x = some slot) : slot.name = x := by
  obtain ⟨frame, _, hfind⟩ := Option.bind_eq_some_iff.1 h
  exact Fields.find?_name hfind

/-- A slot keeps its name, and all of it if the name is `x`. -/
structure Slot.Spares (x : String) (s t : Slot ε) : Prop where
  name : t.name = s.name
  whole : s.name = x → t = s

/-- The slot of a name that is not assigned is spared. -/
theorem Slot.steady_spares [BEq ε] {node : Node} {x : String} (hx : x ∉ node.assigned) :
    Steady (· ∈ node.targets) (Slot.Spares x : Slot ε → Slot ε → Prop) where
  refl _ := ⟨rfl, fun _ => rfl⟩
  trans s t u hst htu := by
    refine ⟨htu.name.trans hst.name, ?_⟩
    intro hname
    rw [htu.whole (hst.name.trans hname), hst.whole hname]
  name _ _ h := h.name
  assign path _ _ _ s _ hpath hfirst hm := by
    refine ⟨(Slot.keeps_modify hm).name, fun hname => (hx ?_).elim⟩
    exact List.mem_filterMap.2 ⟨path, hpath, by rw [Path.root?, hfirst, hname]⟩

/-- Without assignments no slot changes. -/
theorem Slot.steady_eq [BEq ε] {node : Node} (h : node.targets = []) :
    Steady (· ∈ node.targets) (Eq : Slot ε → Slot ε → Prop) where
  refl _ := rfl
  trans _ _ _ := Eq.trans
  name _ _ heq := by rw [heq]
  assign path _ _ _ _ _ hpath := by
    rw [h] at hpath
    exact nomatch hpath

/-- The slot that a name finds is left in its place. -/
theorem Fields.find?_left {R : Slot ε → Slot ε → Prop} (hname : ∀ s t, R s t → t.name = s.name)
    {x : String} {slot : Slot ε} {fields left : List (Slot ε)} (h : List.Forall₂ R fields left)
    (hf : Fields.find? x fields = some slot) :
    ∃ kept, Fields.find? x left = some kept ∧ R slot kept := by
  induction h with
  | nil => exact nomatch hf
  | @cons s t fields left hst _ ih =>
    rw [Fields.find?, List.find?_cons] at hf
    rw [Fields.find?, List.find?_cons, hname s t hst]
    split at hf
    · obtain rfl := Option.some.inj hf
      exact ⟨t, rfl, hst⟩
    · exact ih hf

namespace Scope

variable {x : String} {s t : Scope ε} {i : Nat} {slot : Slot ε}

theorem Stays.eq (h : s.Stays Eq t) : t = s := by
  rw [Stays, List.forall₂_eq_eq_eq, List.forall₂_eq_eq_eq] at h
  obtain ⟨htop, houter⟩ := List.cons.inj h
  rw [Scope.mk.injEq]
  exact ⟨htop.symm, houter.symm⟩

section Left

variable {R : Slot ε → Slot ε → Prop} (hname : ∀ s t, R s t → t.name = s.name)
include hname

theorem Stays.bindingAt_left (h : s.Stays R t) (hs : s.bindingAt i x = some slot) :
    ∃ kept, t.bindingAt i x = some kept ∧ R slot kept := by
  obtain ⟨frame, hframe, hfind⟩ := Option.bind_eq_some_iff.1 hs
  obtain ⟨hi, rfl⟩ := List.getElem?_eq_some_iff.1 hframe
  have hi' : i < t.frames.length := by
    rw [← List.Forall₂.length_eq h]
    exact hi
  have hleft : List.Forall₂ R s.frames[i] t.frames[i] := List.Forall₂.get h hi hi'
  obtain ⟨kept, hkept, hR⟩ := Fields.find?_left hname hleft hfind
  exact ⟨kept, Option.bind_eq_some_iff.2 ⟨t.frames[i], List.getElem?_eq_getElem hi', hkept⟩, hR⟩

theorem Grows.bindingAt_left (h : s.Grows R t) (hs : s.bindingAt i x = some slot) :
    ∃ kept, t.bindingAt i x = some kept ∧ R slot kept := by
  obtain ⟨mid, added, hmid, rfl, _⟩ := h
  obtain ⟨kept, hkept, hR⟩ := hmid.bindingAt_left hname hs
  refine ⟨kept, ?_, hR⟩
  cases i with
  | zero =>
    have htop : Fields.find? x mid.top = some kept := hkept
    show Fields.find? x (mid.top ++ added) = some kept
    rw [Fields.find?, List.find?_append, ← Fields.find?, htop]
    rfl
  | succ i => exact hkept

end Left

theorem Stays.bindingAt (h : s.Stays (Slot.Spares x) t) (hs : s.bindingAt i x = some slot) :
    t.bindingAt i x = some slot := by
  obtain ⟨kept, hkept, hspares⟩ := h.bindingAt_left (fun _ _ => Slot.Spares.name) hs
  rw [hkept, hspares.whole (name_bindingAt hs)]

theorem Grows.bindingAt (h : s.Grows (Slot.Spares x) t) (hs : s.bindingAt i x = some slot) :
    t.bindingAt i x = some slot := by
  obtain ⟨kept, hkept, hspares⟩ := h.bindingAt_left (fun _ _ => Slot.Spares.name) hs
  rw [hkept, hspares.whole (name_bindingAt hs)]

end Scope

theorem World.Owned.holds {w : World ε σ} (hw : w.Owned) : w.Holds Function.Owned False :=
  ⟨fun frame hf slot hs => (hw frame hf slot hs).holds, False.elim⟩

namespace Eval

variable [BEq ε] {w : World ε σ}

/-- A binding whose name a node does not assign is the same after the node as before, whatever the node comes
to and whatever functions it calls. -/
theorem bindingAt_unassigned (host : Host ε σ) (hw : w.Owned) (depth : Nat) {node : Node} {x : String}
    (hx : x ∉ node.assigned) (i : Nat) (slot : Slot ε) (hs : w.scope.bindingAt i x = some slot) :
    ((evaluate (callFunction host depth) node).outcome w).2.scope.bindingAt i x = some slot ∧
      ((execute (callFunction host depth) node).outcome w).2.scope.bindingAt i x = some slot := by
  let π : Terms ε := .failing Function.Owned False (· ∈ node.targets) fun _ => False
  have hc := callFunction_follows host π Function.closed_owned depth
  have hevaluate := evaluate_follows hc node (fun _ h => h) (fun _ _ => trivial) w hw.holds
  have hexecute := execute_follows hc node (fun _ h => h) (fun _ _ => trivial)
    (fun _ _ _ _ he => nomatch he) w hw.holds
  exact ⟨((hevaluate.scope.stays_grows (Slot.steady_spares hx)).1 rfl).bindingAt hs,
    (hexecute.scope.stays_grows (Slot.steady_spares hx)).2.bindingAt hs⟩

/-- A node without assignments changes no binding. -/
theorem scope_untargeted (host : Host ε σ) (hw : w.Owned) (depth : Nat) {node : Node} (hnone : node.targets = []) :
    ((evaluate (callFunction host depth) node).outcome w).2.scope = w.scope ∧
      ∃ added, ((execute (callFunction host depth) node).outcome w).2.scope =
        { w.scope with top := w.scope.top ++ added } := by
  let π : Terms ε := .failing Function.Owned False (· ∈ node.targets) fun _ => False
  have hc := callFunction_follows host π Function.closed_owned depth
  have hevaluate := evaluate_follows hc node (fun _ h => h) (fun _ _ => trivial) w hw.holds
  have hexecute := execute_follows hc node (fun _ h => h) (fun _ _ => trivial)
    (fun _ _ _ _ he => nomatch he) w hw.holds
  obtain ⟨kept, added, hkept, hgrown, _⟩ := (hexecute.scope.stays_grows (Slot.steady_eq hnone)).2
  refine ⟨((hevaluate.scope.stays_grows (Slot.steady_eq hnone)).1 rfl).eq, added, ?_⟩
  rw [← hkept.eq]
  exact hgrown

end Eval

end Scriptlet
