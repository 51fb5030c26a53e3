import Scriptlet.Proofs.Leaves

/-!
# What a world holds

`World.Holds P S` says that every function in a world has `P` and that objects are shared only if
`S`.  What is read along a path holds functions with `P` again, and so does a world after a change
along a path.  A copy shares nothing.
-/

namespace Scriptlet

set_option autoImplicit false

variable {ε σ : Type}

/-! ## Values -/

namespace Value

mutual

/-- Every function in a value has `P`, and objects in it are shared only if `S`. -/
def Holds (P : Function ε → Prop) (S : Prop) : Value ε → Prop
  | number _ | boolean _ | string _ | null => True
  | object fields => FieldsHold P S fields
  | function f => P f
  | shared _ _ => S

/-- Every function in fields has `P`, and objects in them are shared only if `S`. -/
def FieldsHold (P : Function ε → Prop) (S : Prop) : List (Slot ε) → Prop
  | [] => True
  | ⟨_, _, v⟩ :: rest => Holds P S v ∧ FieldsHold P S rest

end

variable {P P' : Function ε → Prop} {S : Prop} {v u : Value ε} {fields : List (Slot ε)}

theorem fieldsHold_iff : FieldsHold P S fields ↔ ∀ slot ∈ fields, slot.value.Holds P S := by
  induction fields with
  | nil => simp [FieldsHold]
  | cons slot rest ih =>
    obtain ⟨name, isMutable, value⟩ := slot
    rw [FieldsHold, ih, List.forall_mem_cons]

/-- What a leaf of a value with `Holds P S` must be. -/
def LeafHolds (P : Function ε → Prop) (S : Prop) : Value ε → Prop
  | function f => P f
  | shared _ _ => S
  | _ => True

mutual

theorem holds_iff_leaves : {v : Value ε} → (v.Holds P S ↔ v.Leaves (LeafHolds P S))
  | object _ => fieldsHold_iff_leaves
  | number _ | boolean _ | string _ | null | function _ | shared _ _ => Iff.rfl

theorem fieldsHold_iff_leaves :
    {fields : List (Slot ε)} → (FieldsHold P S fields ↔ FieldLeaves (LeafHolds P S) fields)
  | [] => Iff.rfl
  | ⟨_, _, _⟩ :: _ => and_congr holds_iff_leaves fieldsHold_iff_leaves

end

mutual

theorem every_iff_leaves : {v : Value ε} → (v.Every P ↔ v.Leaves (LeafHolds P False))
  | object _ => everyField_iff_leaves
  | number _ | boolean _ | string _ | null | function _ | shared _ _ => Iff.rfl

theorem everyField_iff_leaves :
    {fields : List (Slot ε)} → (EveryField P fields ↔ FieldLeaves (LeafHolds P False) fields)
  | [] => Iff.rfl
  | ⟨_, _, _⟩ :: _ => and_congr every_iff_leaves everyField_iff_leaves

end

theorem LeafHolds.imp {S' : Prop} (hP : ∀ f, P f → P' f) (hS : S → S') (v : Value ε)
    (h : v.LeafHolds P S) : v.LeafHolds P' S' := by
  cases v with
  | function f => exact hP f h
  | shared _ _ => exact hS h
  | _ => trivial

/-- Shared objects apart, a leaf may stand where nothing is shared. -/
theorem LeafHolds.unshared (v : Value ε) (hv : v.variant ≠ .object) (h : v.LeafHolds P S) :
    v.LeafHolds P False := by
  cases v with
  | shared _ _ => exact hv rfl
  | function f => exact h
  | _ => trivial

theorem Every.imp (hP : ∀ f, P f → P' f) (h : v.Every P) : v.Every P' :=
  every_iff_leaves.2 ((every_iff_leaves.1 h).imp (LeafHolds.imp hP id))

theorem Holds.imp (hP : ∀ f, P f → P' f) (h : v.Holds P S) : v.Holds P' S :=
  holds_iff_leaves.2 ((holds_iff_leaves.1 h).imp (LeafHolds.imp hP id))

/-- A value that shares nothing may stand anywhere. -/
theorem Every.holds (h : v.Every P) : v.Holds P S :=
  holds_iff_leaves.2 ((every_iff_leaves.1 h).imp (LeafHolds.imp (fun _ => id) False.elim))

theorem IsScalar.every (h : v.IsScalar) : v.Every P := by
  cases v with
  | object _ | function _ | shared _ _ => exact h.elim
  | _ => trivial

end Value

variable {P : Function ε → Prop} {S : Prop}

/-- Every function in the slots of a scope has `P`, and objects are shared only if `S`. -/
def Scope.Holds (P : Function ε → Prop) (S : Prop) (s : Scope ε) : Prop :=
  s.All fun slot => slot.value.Holds P S

/-- Every function in the shared objects has `P`. -/
def Store.Holds (P : Function ε → Prop) (S : Prop) (s : Store ε) : Prop :=
  ∀ place, ∀ slot ∈ s.fields place, slot.value.Holds P S

/-- Every function that can be found in a world has `P`, and objects are shared only if `S`; where
nothing is shared, the store is out of reach. -/
structure World.Holds (P : Function ε → Prop) (S : Prop) (w : World ε σ) : Prop where
  scope : w.scope.Holds P S
  store : S → w.store.Holds P S

/-- A world without functions of the host; objects may be shared. -/
def World.Hostless (w : World ε σ) : Prop :=
  w.Holds Function.Owned True

namespace Store

theorem holds_iff {s : Store ε} :
    s.Holds P S ↔ ∀ fields ∈ s.objects, ∀ slot ∈ fields, slot.value.Holds P S := by
  constructor
  · intro h fields hfields slot hslot
    obtain ⟨place, hplace⟩ := List.mem_iff_getElem?.1 hfields
    apply h place
    rw [Store.fields, List.getD_eq_getElem?_getD, hplace]
    exact hslot
  · intro h place slot hslot
    rw [Store.fields, List.getD_eq_getElem?_getD] at hslot
    cases hplace : s.objects[place]? with
    | none => rw [hplace] at hslot; cases hslot
    | some fields =>
      rw [hplace] at hslot
      exact h fields (List.mem_of_getElem? hplace) slot hslot

/-- Where nothing is shared, the store is out of reach. -/
theorem leaves {s : Store ε} (h : S → s.Holds P S) : s.Leaves (Value.LeafHolds P S) :=
  fun _ place hS slot hslot => Value.holds_iff_leaves.1 (h hS place slot hslot)

/-- A copy shares nothing and holds the functions of the original. -/
theorem every_copy {s : Store ε} (hs : S → s.Holds P S) {v u : Value ε} (hv : v.Holds P S)
    (hc : s.copy v = .ok u) : u.Every P :=
  Value.every_iff_leaves.2
    ((leaves hs).copy Value.LeafHolds.unshared (Value.holds_iff_leaves.1 hv) hc)

theorem copyAll_every {s : Store ε} {vs : List (Value ε)} (h : ∀ v ∈ vs, v.Every P) :
    s.copyAll vs = .ok vs := by
  induction vs with
  | nil => rfl
  | cons v rest ih =>
    have hv : s.copy v = .ok v := (h v List.mem_cons_self).copyWith
    rw [copyAll, hv, ih fun u hu => h u (List.mem_cons_of_mem _ hu)]
    rfl

end Store

namespace World.Holds

variable {w : World ε σ}

theorem leaves (h : w.Holds P S) : w.Leaves (Value.LeafHolds P S) where
  scope frame hframe slot hslot := Value.holds_iff_leaves.1 (h.scope frame hframe slot hslot)
  store := Store.leaves h.store

theorem resolve (h : w.Holds P S) {path : Path} {slot : Slot ε}
    (hr : w.scope.resolve w.store path = .ok slot) : slot.value.Holds P S :=
  Value.holds_iff_leaves.2 (h.leaves.resolve hr)

theorem modify (h : w.Holds P S) {f : Slot ε → Except Failure (Slot ε)}
    (hf : ∀ s t, s.value.Holds P S → f s = .ok t → t.value.Holds P S) {path : Path}
    {scope : Scope ε} {store : Store ε} (hm : w.scope.modify w.store path f = .ok (scope, store)) :
    { w with scope, store }.Holds P S ∧ (S ∨ store = w.store) := by
  have hleaves : ∀ s t, s.value.Leaves (Value.LeafHolds P S) → f s = .ok t →
      t.value.Leaves (Value.LeafHolds P S) := by
    intro s t hs ht
    exact Value.holds_iff_leaves.1 (hf s t (Value.holds_iff_leaves.2 hs) ht)
  obtain ⟨⟨hscope, hstore⟩, hshared⟩ := h.leaves.modify hleaves hm
  have hscope' : scope.Holds P S := fun frame hframe slot hslot =>
    Value.holds_iff_leaves.2 (hscope frame hframe slot hslot)
  rcases hshared with ⟨holder, place, hS⟩ | rfl
  · refine ⟨⟨hscope', fun _ place slot hslot => ?_⟩, .inl hS⟩
    exact Value.holds_iff_leaves.2 (hstore holder place hS slot hslot)
  · exact ⟨⟨hscope', h.store⟩, .inr rfl⟩

end World.Holds

/-- An assignment leaves what the slot held, the operand, or a scalar. -/
theorem Eval.assigned_holds [BEq ε] {op : String} {operand : Value ε} (ho : operand.Every P)
    (s t : Slot ε) (_ : s.value.Holds P S) (h : assigned op operand s = .ok t) :
    t.value.Holds P S := by
  obtain ⟨v, ha, ⟨_, rfl⟩ | ⟨binary, hv⟩⟩ := assigned_eq h
  · rw [(Slot.assign_eq ha).2.2]
    exact ho.holds
  · rw [(Slot.assign_eq ha).2.2]
    exact (Value.applyOperator_scalar hv).every.holds

end Scriptlet
