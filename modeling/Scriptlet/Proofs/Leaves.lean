import Scriptlet.Proofs.Ownership

/-!
# The leaves of values

A leaf of a value is a part of it that has no fields of its own: a scalar, a function, or what
stands for a shared object.  `World.Leaves L` says that every leaf at hand in a world has `L`; the
shared objects count as far as `L` allows what stands for them.  What is read along a path has such
leaves again, and so has a world after a change along a path.  A copy has the leaves of the original
but shares nothing.
-/

namespace Scriptlet

set_option autoImplicit false

variable {ε σ : Type}

/-! ## Values -/

namespace Value

mutual

/-- Every leaf of a value has `L`. -/
def Leaves (L : Value ε → Prop) : Value ε → Prop
  | object fields => FieldLeaves L fields
  | v => L v

/-- Every leaf of fields has `L`. -/
def FieldLeaves (L : Value ε → Prop) : List (Slot ε) → Prop
  | [] => True
  | ⟨_, _, v⟩ :: rest => Leaves L v ∧ FieldLeaves L rest

end

variable {L L' : Value ε → Prop} {fields : List (Slot ε)}

theorem fieldLeaves_iff : FieldLeaves L fields ↔ ∀ slot ∈ fields, slot.value.Leaves L := by
  induction fields with
  | nil => simp [FieldLeaves]
  | cons slot rest ih =>
    obtain ⟨name, isMutable, value⟩ := slot
    rw [FieldLeaves, ih, List.forall_mem_cons]

theorem leaves_object : Leaves L (.object fields) ↔ ∀ slot ∈ fields, slot.value.Leaves L := by
  rw [Leaves, fieldLeaves_iff]

mutual

theorem Leaves.imp (hL : ∀ v, L v → L' v) : {v : Value ε} → v.Leaves L → v.Leaves L'
  | object _, h => FieldLeaves.imp hL h
  | number _, h | boolean _, h | string _, h | null, h | function _, h | shared _ _, h => hL _ h

theorem FieldLeaves.imp (hL : ∀ v, L v → L' v) :
    {fields : List (Slot ε)} → FieldLeaves L fields → FieldLeaves L' fields
  | [], _ => trivial
  | ⟨_, _, _⟩ :: _, h => ⟨Leaves.imp hL h.1, FieldLeaves.imp hL h.2⟩

end

mutual

/-- A copy has the leaves of the original, and those of shared objects in their place. -/
theorem Leaves.copyWith {fieldsAt : Nat → Except Breakdown (List (Slot ε))}
    (hL : ∀ v, v.variant ≠ .object → L v → L' v)
    (hat : ∀ holder place copied, L (.shared holder place) → fieldsAt place = .ok copied →
      FieldLeaves L' copied) :
    {v u : Value ε} → v.Leaves L → v.copyWith fieldsAt = .ok u → u.Leaves L'
  | number _, u, h, hc | boolean _, u, h, hc | string _, u, h, hc | null, u, h, hc
  | function _, u, h, hc => by
    obtain rfl := Except.ok.inj hc
    exact hL _ (by rintro ⟨⟩) h
  | object fields, u, h, hc => by
    rw [copyWith] at hc
    obtain ⟨copied, hf, rfl⟩ := except_map_eq_ok.1 hc
    exact FieldLeaves.copyFieldsWith hL hat h hf
  | shared holder place, u, h, hc => by
    rw [copyWith] at hc
    obtain ⟨copied, hf, rfl⟩ := except_map_eq_ok.1 hc
    exact hat holder place copied h hf

theorem FieldLeaves.copyFieldsWith {fieldsAt : Nat → Except Breakdown (List (Slot ε))}
    (hL : ∀ v, v.variant ≠ .object → L v → L' v)
    (hat : ∀ holder place copied, L (.shared holder place) → fieldsAt place = .ok copied →
      FieldLeaves L' copied) :
    {fields copied : List (Slot ε)} → FieldLeaves L fields →
      copyFieldsWith fieldsAt fields = .ok copied → FieldLeaves L' copied
  | [], copied, _, hc => by
    obtain rfl := Except.ok.inj hc
    trivial
  | ⟨name, isMutable, value⟩ :: rest, copied, h, hc => by
    rw [copyFieldsWith] at hc
    obtain ⟨first, hv, hc⟩ := except_bind_eq_ok.1 hc
    obtain ⟨others, hr, hc⟩ := except_bind_eq_ok.1 hc
    obtain rfl := Except.ok.inj hc
    exact ⟨Leaves.copyWith hL hat h.1 hv, FieldLeaves.copyFieldsWith hL hat h.2 hr⟩

end

end Value

variable {L L' : Value ε → Prop}

/-! ## Shared objects -/

/-- Every leaf of a shared object has `L`, if what stands for the object does. -/
def Store.Leaves (L : Value ε → Prop) (s : Store ε) : Prop :=
  ∀ holder place, L (.shared holder place) → ∀ slot ∈ s.fields place, slot.value.Leaves L

namespace Store

variable {s : Store ε}

theorem Leaves.copyFields (h : s.Leaves L) (hL : ∀ v, v.variant ≠ .object → L v → L' v)
    (depth : Nat) {holder : ε} {place : Nat} {copied : List (Slot ε)}
    (hplace : L (.shared holder place)) (hc : s.copyFields depth place = .ok copied) :
    Value.FieldLeaves L' copied := by
  induction depth generalizing holder place copied with
  | zero => cases hc
  | succ depth ih =>
    exact Value.FieldLeaves.copyFieldsWith hL (fun _ _ _ hplace hat => ih hplace hat)
      (Value.fieldLeaves_iff.2 (h holder place hplace)) hc

theorem Leaves.copy (h : s.Leaves L) (hL : ∀ v, v.variant ≠ .object → L v → L' v)
    {v u : Value ε} (hv : v.Leaves L) (hc : s.copy v = .ok u) : u.Leaves L' :=
  hv.copyWith hL (fun _ _ _ hplace hat => h.copyFields hL _ hplace hat) hc

theorem Leaves.copyAll (h : s.Leaves L) (hL : ∀ v, v.variant ≠ .object → L v → L' v)
    {vs us : List (Value ε)} (hvs : ∀ v ∈ vs, v.Leaves L) (hc : s.copyAll vs = .ok us) :
    ∀ u ∈ us, u.Leaves L' := by
  induction vs generalizing us with
  | nil =>
    obtain rfl := Except.ok.inj hc
    exact List.forall_mem_nil _
  | cons v rest ih =>
    rw [Store.copyAll] at hc
    obtain ⟨copied, hv, hc⟩ := except_bind_eq_ok.1 hc
    obtain ⟨others, hr, hc⟩ := except_bind_eq_ok.1 hc
    obtain rfl := Except.ok.inj hc
    rw [List.forall_mem_cons] at hvs ⊢
    exact ⟨h.copy hL hvs.1 hv, ih hvs.2 hr⟩

theorem Leaves.setFields (h : s.Leaves L) (place : Nat) {fields : List (Slot ε)}
    (hf : ∀ slot ∈ fields, slot.value.Leaves L) : (s.setFields place fields).Leaves L := by
  intro holder other hother slot hslot
  rw [Store.fields, Store.setFields, List.getD_eq_getElem?_getD, List.getElem?_set] at hslot
  split at hslot
  · split at hslot
    · exact hf slot hslot
    · cases hslot
  · rw [← List.getD_eq_getElem?_getD] at hslot
    exact h holder other hother slot hslot

end Store

/-- The fields of an object have the leaves of the object, wherever they stand. -/
theorem Value.Leaves.fields? {store : Store ε} (hs : store.Leaves L) {v : Value ε}
    {fields : List (Slot ε)} (h : v.Leaves L) (hf : v.fields? store = some fields) :
    ∀ field ∈ fields, field.value.Leaves L := by
  cases v with
  | object own =>
    obtain rfl := Option.some.inj hf
    exact Value.leaves_object.1 h
  | shared holder place =>
    obtain rfl := Option.some.inj hf
    exact hs holder place h
  | _ => cases hf

/-! ## Changes along a path -/

/-- Every leaf of what a change leaves has `L`; it touches the store only if `L` allows what stands
for some shared object. -/
def Change.Leaves (L : Value ε → Prop) : Change ε → Prop
  | slot s => s.value.Leaves L
  | store s => (∃ holder place, L (.shared holder place)) ∧ s.Leaves L

/-- A change inside an object as a change of the whole, which `put` makes of a changed field. -/
def Change.within (put : Slot ε → Change ε) : Change ε → Change ε
  | slot changed => put changed
  | store changed => store changed

namespace Slot

variable {store : Store ε} {f : Slot ε → Except Failure (Slot ε)}

theorem resolve_leaves (hs : store.Leaves L) {steps : List Step} {slot target : Slot ε}
    (h : slot.value.Leaves L) (hr : slot.resolve store steps = .ok target) :
    target.value.Leaves L := by
  induction steps generalizing slot with
  | nil => exact Except.ok.inj hr ▸ h
  | cons step rest ih =>
    rw [resolve] at hr
    split at hr
    · next fields hf =>
      obtain ⟨field, hn, hrest⟩ := except_bind_eq_ok.1 hr
      obtain ⟨n, _, hfind⟩ := Step.follow_eq hn
      exact ih (h.fields? hs hf field (Fields.find?_mem hfind)) hrest
    · cases hr

/-- A change through a field is a change of the object that the field is in. -/
theorem modify_cons_eq {step : Step} {rest : List Step} {slot : Slot ε} {change : Change ε}
    (hm : slot.modify store f (step :: rest) = .ok change) :
    ∃ n fields field inner, step = .name n ∧ Fields.find? n fields = some field ∧
      field.modify store f rest = .ok inner ∧
      ((slot.value = .object fields ∧ change = inner.within fun changed =>
          .slot { slot with value := .object (Fields.put changed fields) }) ∨
        ∃ holder place, slot.value = .shared holder place ∧ fields = store.fields place ∧
          change = inner.within fun changed =>
            .store (store.setFields place (Fields.put changed fields))) := by
  rw [modify] at hm
  split at hm
  · next fields hv =>
    obtain ⟨field, hn, hfield⟩ := except_bind_eq_ok.1 hm
    obtain ⟨n, hstep, hfind⟩ := Step.follow_eq (mapError_eq_ok.1 hn)
    obtain ⟨inner, hr, hinner⟩ := except_bind_eq_ok.1 hfield
    refine ⟨n, fields, field, inner, hstep, hfind, hr, .inl ⟨hv, ?_⟩⟩
    cases inner with
    | slot changed => exact (Except.ok.inj hinner).symm
    | store changed => exact (Except.ok.inj hinner).symm
  · next holder place hv =>
    obtain ⟨field, hn, hfield⟩ := except_bind_eq_ok.1 hm
    obtain ⟨n, hstep, hfind⟩ := Step.follow_eq (mapError_eq_ok.1 hn)
    obtain ⟨inner, hr, hinner⟩ := except_bind_eq_ok.1 hfield
    refine ⟨n, _, field, inner, hstep, hfind, hr, .inr ⟨holder, place, hv, rfl, ?_⟩⟩
    cases inner with
    | slot changed => exact (Except.ok.inj hinner).symm
    | store changed => exact (Except.ok.inj hinner).symm
  · cases hm

theorem put_leaves {changed : Slot ε} {fields : List (Slot ε)} (hc : changed.value.Leaves L)
    (hfields : ∀ field ∈ fields, field.value.Leaves L) :
    ∀ field ∈ Fields.put changed fields, field.value.Leaves L := by
  intro field hmem
  rcases Fields.mem_put hmem with rfl | hmem
  · exact hc
  · exact hfields field hmem

theorem modify_leaves (hs : store.Leaves L)
    (hf : ∀ s t, s.value.Leaves L → f s = .ok t → t.value.Leaves L) {steps : List Step}
    {slot : Slot ε} {change : Change ε} (h : slot.value.Leaves L)
    (hm : slot.modify store f steps = .ok change) : change.Leaves L := by
  induction steps generalizing slot change with
  | nil =>
    rw [modify] at hm
    obtain ⟨changed, hc, rfl⟩ := except_map_eq_ok.1 hm
    exact hf slot changed h hc
  | cons step rest ih =>
    obtain ⟨n, fields, field, inner, rfl, hfind, hinner, hcase⟩ := modify_cons_eq hm
    rcases hcase with ⟨hv, rfl⟩ | ⟨holder, place, hv, rfl, rfl⟩
    · rw [hv] at h
      have hfields := Value.leaves_object.1 h
      have hin := ih (hfields field (Fields.find?_mem hfind)) hinner
      cases inner with
      | slot changed => exact Value.leaves_object.2 (put_leaves hin hfields)
      | store changed => exact hin
    · rw [hv] at h
      have hfields := hs holder place h
      have hin := ih (hfields field (Fields.find?_mem hfind)) hinner
      cases inner with
      | slot changed => exact ⟨⟨holder, place, h⟩, hs.setFields place (put_leaves hin hfields)⟩
      | store changed => exact hin

end Slot

/-- A change along a path changes the slot where the path starts, or the store and no slot. -/
theorem Scope.modify_cases {s t : Scope ε} {store store' : Store ε} {path : Path}
    {f : Slot ε → Except Failure (Slot ε)} (hm : s.modify store path f = .ok (t, store')) :
    ∃ n slot, path.first = .name n ∧ s.find? n = some slot ∧
      ((∃ changed, slot.modify store f path.rest = .ok (.slot changed) ∧ t = s.replace changed ∧
          store' = store) ∨
        (slot.modify store f path.rest = .ok (.store store') ∧ t = s)) := by
  rw [Scope.modify] at hm
  obtain ⟨slot, hs, hm⟩ := except_bind_eq_ok.1 hm
  obtain ⟨n, hfirst, hn⟩ := Step.follow_eq (mapError_eq_ok.1 hs)
  obtain ⟨change, hr, hm⟩ := except_bind_eq_ok.1 hm
  refine ⟨n, slot, hfirst, hn, ?_⟩
  cases change with
  | slot changed =>
    obtain ⟨rfl, rfl⟩ := Prod.mk.inj (Except.ok.inj hm)
    exact .inl ⟨changed, hr, rfl, rfl⟩
  | store changed =>
    obtain ⟨rfl, rfl⟩ := Prod.mk.inj (Except.ok.inj hm)
    exact .inr ⟨hr, rfl⟩

/-! ## Worlds -/

/-- Every leaf in the slots of a scope has `L`. -/
def Scope.Leaves (L : Value ε → Prop) (s : Scope ε) : Prop :=
  s.All fun slot => slot.value.Leaves L

/-- Every leaf that can be found in a world has `L`. -/
structure World.Leaves (L : Value ε → Prop) (w : World ε σ) : Prop where
  scope : w.scope.Leaves L
  store : w.store.Leaves L

namespace World.Leaves

variable {w : World ε σ}

theorem resolve (h : w.Leaves L) {path : Path} {slot : Slot ε}
    (hr : w.scope.resolve w.store path = .ok slot) : slot.value.Leaves L := by
  rw [Scope.resolve] at hr
  obtain ⟨first, hs, hr⟩ := except_bind_eq_ok.1 hr
  obtain ⟨n, _, hn⟩ := Step.follow_eq hs
  exact Slot.resolve_leaves h.store (Scope.All.find? h.scope hn) hr

theorem modify (h : w.Leaves L) {f : Slot ε → Except Failure (Slot ε)}
    (hf : ∀ s t, s.value.Leaves L → f s = .ok t → t.value.Leaves L) {path : Path}
    {scope : Scope ε} {store : Store ε} (hm : w.scope.modify w.store path f = .ok (scope, store)) :
    { w with scope, store }.Leaves L ∧
      ((∃ holder place, L (.shared holder place)) ∨ store = w.store) := by
  obtain ⟨n, slot, _, hn, ⟨changed, hc, rfl, rfl⟩ | ⟨hc, rfl⟩⟩ := Scope.modify_cases hm
  · have hslot : changed.value.Leaves L :=
      Slot.modify_leaves h.store hf (Scope.All.find? h.scope hn) hc
    exact ⟨⟨Scope.All.replace h.scope hslot, h.store⟩, .inr rfl⟩
  · obtain ⟨hshared, hstore⟩ := Slot.modify_leaves h.store hf (Scope.All.find? h.scope hn) hc
    exact ⟨⟨h.scope, hstore⟩, .inl hshared⟩

end World.Leaves

end Scriptlet
