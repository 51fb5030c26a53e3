import Scriptlet.Proofs.Ownership

/-!
# Fresh values

A value that is built for a single use is a tree, with fields of different names in each of its
objects: it is `Fresh`.  Every such value is equal to itself, and so is a scope of fresh values.
Definitions and assignments of fresh values keep a scope fresh.
-/

namespace Scriptlet

set_option autoImplicit false

variable {ε : Type}

/-! ## Fresh values -/

namespace Value

mutual

/-- A value in which nothing is shared and the fields of each object have different names. -/
def Fresh : Value ε → Prop
  | number _ | boolean _ | string _ | null | function _ => True
  | object fields => (fields.map Slot.name).Nodup ∧ FreshFields fields
  | shared _ _ => False

/-- Fields with fresh values. -/
def FreshFields : List (Slot ε) → Prop
  | [] => True
  | ⟨_, _, value⟩ :: rest => Fresh value ∧ FreshFields rest

end

theorem freshFields_iff {fields : List (Slot ε)} :
    FreshFields fields ↔ ∀ slot ∈ fields, slot.value.Fresh := by
  induction fields with
  | nil => simp [FreshFields]
  | cons slot rest ih =>
    obtain ⟨name, isMutable, value⟩ := slot
    rw [FreshFields, ih, List.forall_mem_cons]

mutual

/-- Nothing in a fresh value is shared. -/
theorem Fresh.every : {v : Value ε} → v.Fresh → v.Every fun _ => True
  | number _, _ | boolean _, _ | string _, _ | null, _ | function _, _ => trivial
  | object _, h => FreshFields.everyField h.2

theorem FreshFields.everyField : {fields : List (Slot ε)} → FreshFields fields →
    EveryField (fun _ => True) fields
  | [], _ => trivial
  | ⟨_, _, _⟩ :: _, h => ⟨Fresh.every h.1, FreshFields.everyField h.2⟩

end

theorem IsScalar.fresh {v : Value ε} (h : v.IsScalar) : v.Fresh := by
  cases v with
  | object _ | function _ | shared _ _ => exact h.elim
  | _ => trivial

end Value

/-- Slots of different names with fresh values. -/
structure Fields.Fresh (fields : List (Slot ε)) : Prop where
  names : (fields.map Slot.name).Nodup
  values : ∀ slot ∈ fields, slot.value.Fresh

theorem Value.fresh_object {fields : List (Slot ε)} :
    Value.Fresh (.object fields) ↔ Fields.Fresh fields := by
  rw [Value.Fresh, Value.freshFields_iff]
  exact ⟨fun h => ⟨h.1, h.2⟩, fun h => ⟨h.names, h.values⟩⟩

namespace Fields

variable {fields : List (Slot ε)} {slot : Slot ε}

theorem fresh_nil : Fresh ([] : List (Slot ε)) :=
  ⟨List.nodup_nil, List.forall_mem_nil _⟩

theorem map_fst_entry (fields : List (Slot ε)) :
    (fields.map Slot.entry).map Prod.fst = fields.map Slot.name :=
  List.map_map

theorem nodup_put (slot : Slot ε) (h : (fields.map Slot.name).Nodup) :
    ((put slot fields).map Slot.name).Nodup := by
  rw [← map_fst_entry] at h ⊢
  rw [map_entry_put]
  exact Entries.nodup_put h

theorem Fresh.put (h : Fresh fields) (hslot : slot.value.Fresh) : Fresh (put slot fields) where
  names := nodup_put slot h.names
  values s hs := by
    rcases mem_put hs with rfl | hs
    · exact hslot
    · exact h.values s hs

/-- A slot of a new name comes after the others. -/
theorem put_new {slot : Slot ε} {fields : List (Slot ε)} (h : has slot.name fields = false) :
    put slot fields = fields ++ [slot] := by
  induction fields with
  | nil => rfl
  | cons s rest ih =>
    rw [has, List.any_cons, Bool.or_eq_false_iff] at h
    rw [put, h.1, if_neg Bool.false_ne_true, ih h.2, List.cons_append]

/-- Slots of different new names come after the others. -/
theorem foldl_put {seen fields : List (Slot ε)} (h : ((seen ++ fields).map Slot.name).Nodup) :
    fields.foldl (fun seen slot => put slot seen) seen = seen ++ fields := by
  induction fields generalizing seen with
  | nil => rw [List.foldl_nil, List.append_nil]
  | cons slot rest ih =>
    have hnew : has slot.name seen = false := by
      rw [List.map_append, List.nodup_append] at h
      exact has_eq_false.2 fun hmem => h.2.2 _ hmem _ (List.mem_map_of_mem List.mem_cons_self) rfl
    rw [List.append_cons] at h ⊢
    rw [List.foldl_cons, put_new hnew, ih h]

/-- A slot is found under its own name. -/
theorem Fresh.find? (h : Fresh fields) (hslot : slot ∈ fields) :
    find? slot.name fields = some slot := by
  have hnames := h.names
  clear h
  induction fields with
  | nil => cases hslot
  | cons s rest ih =>
    rw [List.map_cons, List.nodup_cons] at hnames
    rw [Fields.find?, List.find?_cons]
    rcases List.mem_cons.1 hslot with rfl | hslot
    · simp
    · have hne : (s.name == slot.name) = false := by
        rw [beq_eq_false_iff_ne]
        exact fun he => hnames.1 (he ▸ List.mem_map_of_mem hslot)
      rw [hne]
      exact ih hslot hnames.2

theorem Fresh.append (h : Fresh fields) (hnew : has slot.name fields = false)
    (hslot : slot.value.Fresh) : Fresh (fields ++ [slot]) where
  names := by
    have hmem := has_eq_false.1 hnew
    rw [List.map_append, List.map_singleton]
    exact List.nodup_append.2 ⟨h.names, List.pairwise_singleton _ _, by simpa using hmem⟩
  values s hs := by
    rcases List.mem_append.1 hs with hs | hs
    · exact h.values s hs
    · rw [List.mem_singleton.1 hs]
      exact hslot

end Fields

/-- The slots of a single frame are what it shows. -/
theorem Scope.items_single {fields : List (Slot ε)} (h : (fields.map Slot.name).Nodup) :
    (Scope.mk fields []).items = fields :=
  Fields.foldl_put h

/-! ## Equality -/

section Equality

variable [BEq ε]

theorem Value.sameFields_iff {fs gs : List (Slot ε)} :
    Value.sameFields fs gs = true ↔
      ∀ slot ∈ fs, ∃ g, Fields.find? slot.name gs = some g ∧ slot.same g = true := by
  induction fs with
  | nil => simp [Value.sameFields]
  | cons slot rest ih =>
    obtain ⟨name, isMutable, value⟩ := slot
    rw [Value.sameFields, Bool.and_eq_true, ih, List.forall_mem_cons]
    refine and_congr_left' ?_
    show _ ↔ ∃ g, List.find? _ gs = some g ∧ _
    cases List.find? (fun g => g.name == name) gs with
    | none => simp
    | some g => simp [Slot.same]

theorem Function.same_self [ReflBEq ε] (f : Function ε) : f.same f = true := by
  obtain ⟨callback, arity, name⟩ := f
  cases callback <;> simp [Function.same, Callback.same]

mutual

theorem Value.Fresh.same_self [ReflBEq ε] : {v : Value ε} → v.Fresh → v.same v = true
  | .number _, _ | .boolean _, _ | .string _, _ => by simp [Value.same]
  | .null, _ => rfl
  | .function f, _ => f.same_self
  | .object fields, h => by
    rw [Value.same, Bool.and_eq_true, Value.sameFields_iff]
    refine ⟨beq_self_eq_true _, fun slot hslot => ⟨slot, (Value.fresh_object.1 h).find? hslot, ?_⟩⟩
    rw [Slot.same, beq_self_eq_true, Bool.true_and]
    exact Value.FreshFields.same_self h.2 slot hslot

theorem Value.FreshFields.same_self [ReflBEq ε] : {fields : List (Slot ε)} → Value.FreshFields fields →
    ∀ slot ∈ fields, slot.value.same slot.value = true
  | [], _ => List.forall_mem_nil _
  | ⟨_, _, _⟩ :: _, h => List.forall_mem_cons.2
    ⟨Value.Fresh.same_self h.1, Value.FreshFields.same_self h.2⟩

end

end Equality

/-! ## Scopes -/

/-- A scope of frames whose slots have different names and fresh values. -/
def Scope.Fresh (s : Scope ε) : Prop :=
  ∀ frame ∈ s.frames, Fields.Fresh frame

/-- A change that leaves fresh values leaves them along its path. -/
theorem Slot.Changes.fresh {f : Slot ε → Except Failure (Slot ε)}
    (hf : ∀ s t, s.value.Fresh → f s = .ok t → t.value.Fresh) {steps : List Step}
    {slot changed : Slot ε} (hc : Slot.Changes f steps slot changed) (h : slot.value.Fresh) :
    changed.value.Fresh := by
  induction hc with
  | here ha => exact hf _ _ h ha
  | inside hvalue hfind _ ih =>
    rw [hvalue, Value.fresh_object] at h
    exact Value.fresh_object.2 (h.put (ih (h.values _ (Fields.find?_mem hfind))))

/-- An assignment leaves the value that is assigned. -/
theorem Slot.assign_fresh {v : Value ε} (hv : v.Fresh) (s t : Slot ε) (_ : s.value.Fresh)
    (h : (s.assign v).mapError Failure.error = .ok t) : t.value.Fresh := by
  obtain ⟨_, _, rfl⟩ := Slot.assign_eq (mapError_eq_ok.1 h)
  exact hv

/-- The steps lead to a fresh value inside a fresh one. -/
theorem Slot.resolve_fresh {store : Store ε} {steps : List Step} {slot target : Slot ε}
    (h : slot.value.Fresh) (hr : slot.resolve store steps = .ok target) : target.value.Fresh := by
  induction steps generalizing slot with
  | nil => exact Except.ok.inj hr ▸ h
  | cons step rest ih =>
    rw [resolve] at hr
    split at hr
    · next fields hf =>
      obtain ⟨field, hs, hfield⟩ := except_bind_eq_ok.1 hr
      obtain ⟨n, rfl, hn⟩ := Step.follow_eq hs
      rw [h.every.fields?_eq hf, Value.fresh_object] at h
      exact ih (h.values field (Fields.find?_mem hn)) hfield
    · cases hr

namespace Scope.Fresh

variable {s t : Scope ε} {slot : Slot ε}

theorem resolve (h : s.Fresh) {store : Store ε} {path : Path} (hr : s.resolve store path = .ok slot) :
    slot.value.Fresh := by
  rw [Scope.resolve] at hr
  obtain ⟨first, hs, hrest⟩ := except_bind_eq_ok.1 hr
  obtain ⟨n, _, hn⟩ := Step.follow_eq hs
  obtain ⟨frame, hframe, hslot⟩ := find?_mem hn
  exact Slot.resolve_fresh ((h frame hframe).values first hslot) hrest

theorem define (h : s.Fresh) (hslot : slot.value.Fresh) (hd : s.define slot = .ok t) : t.Fresh := by
  obtain ⟨hnew, rfl⟩ := Scope.define_eq hd
  have ⟨htop, houter⟩ := List.forall_mem_cons.1 h
  exact List.forall_mem_cons.2 ⟨htop.append hnew hslot, houter⟩

theorem set (h : s.Fresh) (hslot : slot.value.Fresh) : (s.set slot).Fresh := by
  have ⟨htop, houter⟩ := List.forall_mem_cons.1 h
  exact List.forall_mem_cons.2 ⟨htop.put hslot, houter⟩

theorem push (h : s.Fresh) : s.push.Fresh :=
  List.forall_mem_cons.2 ⟨Fields.fresh_nil, h⟩

theorem pop (h : s.Fresh) : s.pop.Fresh := by
  obtain ⟨top, _ | ⟨frame, rest⟩⟩ := s
  · exact h
  · exact (List.forall_mem_cons.1 h).2

theorem replace (h : s.Fresh) (hslot : slot.value.Fresh) : (s.replace slot).Fresh := by
  have hframes : ∀ frames : List (List (Slot ε)), (∀ frame ∈ frames, Fields.Fresh frame) →
      ∀ frame ∈ replaceIn slot frames, Fields.Fresh frame := by
    intro frames
    induction frames with
    | nil => exact id
    | cons first rest ih =>
      intro h
      have ⟨hfirst, hrest⟩ := List.forall_mem_cons.1 h
      rw [replaceIn]
      split
      · exact List.forall_mem_cons.2 ⟨hfirst.put hslot, hrest⟩
      · exact List.forall_mem_cons.2 ⟨hfirst, ih hrest⟩
  rw [Scope.Fresh, replace_frames]
  exact hframes s.frames h

/-- Nothing in a fresh scope is shared. -/
theorem every (h : s.Fresh) :
    ∀ frame ∈ s.frames, ∀ slot ∈ frame, slot.value.Every fun _ => True :=
  fun frame hframe slot hslot => ((h frame hframe).values slot hslot).every

theorem modify (h : s.Fresh) {f : Slot ε → Except Failure (Slot ε)}
    (hf : ∀ s t, s.value.Fresh → f s = .ok t → t.value.Fresh) {store store' : Store ε} {path : Path}
    (hm : s.modify store path f = .ok (t, store')) :
    t.Fresh ∧ ∃ changed : Slot ε, t = s.replace changed := by
  obtain ⟨n, slot, changed, _, hfind, hc, rfl, _⟩ := modify_every h.every hm
  obtain ⟨frame, hframe, hslot⟩ := find?_mem hfind
  exact ⟨h.replace (hc.fresh hf ((h frame hframe).values slot hslot)), changed, rfl⟩

theorem assign (h : s.Fresh) {store store' : Store ε} {path : Path} {v : Value ε} (hv : v.Fresh)
    (ha : s.assign store path v = .ok (t, store')) :
    t.Fresh ∧ ∃ changed : Slot ε, t = s.replace changed :=
  h.modify (Slot.assign_fresh hv) ha

/-- What is visible in a fresh scope has different names and fresh values. -/
theorem items (h : s.Fresh) : Fields.Fresh s.items := by
  refine List.foldlRecOn _ _ Fields.fresh_nil fun seen hseen frame hframe => ?_
  refine List.foldlRecOn _ _ hseen fun seen hseen slot hslot => ?_
  exact hseen.put ((h frame (List.mem_reverse.1 hframe)).values slot hslot)

theorem same_self [BEq ε] [ReflBEq ε] (h : s.Fresh) : s.same s = true := by
  rw [Scope.same, Bool.and_eq_true, Value.sameFields_iff]
  refine ⟨beq_self_eq_true _, fun slot hslot => ⟨slot, h.items.find? hslot, ?_⟩⟩
  rw [Slot.same, beq_self_eq_true, Bool.true_and]
  exact (h.items.values slot hslot).same_self

end Scope.Fresh

end Scriptlet
