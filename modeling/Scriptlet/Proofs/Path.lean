import Scriptlet.Proofs.NamedEntries
import Scriptlet.Proofs.Outcome

/-!
# Changes along a path

Look-up after a definition or a replacement, and what a change at the end of a path leaves.  A value
that shares nothing is `Owned`; a change inside such a value stays in its slot, and `Slot.Changes`
says which slot it leaves: `f` has been applied at the end of the path, every object on the way has
the changed field in the place of the old one, and all else is as before.
-/

namespace Scriptlet

set_option autoImplicit false

variable {ε : Type}

/-! ## Look-up -/

namespace Fields

theorem find?_name {name : String} {fields : List (Slot ε)} {slot : Slot ε}
    (h : find? name fields = some slot) : slot.name = name := by
  have := List.find?_some h
  simpa using this

theorem find?_mem {name : String} {fields : List (Slot ε)} {slot : Slot ε}
    (h : find? name fields = some slot) : slot ∈ fields :=
  List.mem_of_find?_eq_some h

theorem has_eq_isSome (name : String) (fields : List (Slot ε)) :
    has name fields = (find? name fields).isSome := by
  rw [has, find?, Bool.eq_iff_iff, List.find?_isSome, List.any_eq_true]

theorem has_eq_false {name : String} {fields : List (Slot ε)} :
    has name fields = false ↔ name ∉ fields.map Slot.name := by
  rw [has, List.any_eq_false, List.mem_map]
  simp only [beq_iff_eq, not_exists, not_and]

theorem find?_put (slot : Slot ε) (fields : List (Slot ε)) (name : String) :
    find? name (put slot fields) = if slot.name = name then some slot else find? name fields := by
  rw [← lookup_map_entry, map_entry_put, Entries.lookup_put, lookup_map_entry]
  exact if_congr eq_comm rfl rfl

theorem find?_append_new {slot : Slot ε} {fields : List (Slot ε)} (h : has slot.name fields = false)
    (name : String) :
    find? name (fields ++ [slot]) = if slot.name = name then some slot else find? name fields := by
  rw [find?, List.find?_append]
  by_cases hn : slot.name = name
  · rw [has_eq_isSome, hn, Option.isSome_eq_false_iff, Option.isNone_iff_eq_none, find?] at h
    simp [h, hn]
  · simp [hn, find?]

theorem mem_put {slot s : Slot ε} {fields : List (Slot ε)} (h : s ∈ put slot fields) :
    s = slot ∨ s ∈ fields := by
  induction fields with
  | nil => exact .inl (List.mem_singleton.1 h)
  | cons t rest ih =>
    rw [put] at h
    split at h
    · rcases List.mem_cons.1 h with h | h
      · exact .inl h
      · exact .inr (List.mem_cons_of_mem _ h)
    · rcases List.mem_cons.1 h with h | h
      · exact .inr (h ▸ List.mem_cons_self)
      · exact (ih h).imp_right (List.mem_cons_of_mem _)

end Fields

namespace Scope

theorem find?_mem {s : Scope ε} {name : String} {slot : Slot ε} (h : s.find? name = some slot) :
    ∃ frame ∈ s.frames, slot ∈ frame := by
  obtain ⟨frame, hf, hs⟩ := List.exists_of_findSome?_eq_some h
  exact ⟨frame, hf, Fields.find?_mem hs⟩

theorem find?_name {s : Scope ε} {name : String} {slot : Slot ε} (h : s.find? name = some slot) :
    slot.name = name := by
  obtain ⟨frame, _, hs⟩ := List.exists_of_findSome?_eq_some h
  exact Fields.find?_name hs

theorem findSome?_replaceIn (slot : Slot ε) (name : String) (frames : List (List (Slot ε)))
    (h : (frames.findSome? (Fields.find? slot.name)).isSome) :
    (replaceIn slot frames).findSome? (Fields.find? name) =
      if slot.name = name then some slot else frames.findSome? (Fields.find? name) := by
  induction frames with
  | nil => simp at h
  | cons frame rest ih =>
    rw [replaceIn]
    cases hf : Fields.find? slot.name frame with
    | some old =>
      rw [if_pos (by rw [Fields.has_eq_isSome, hf]; rfl)]
      rw [List.findSome?_cons, Fields.find?_put]
      by_cases hn : slot.name = name <;> simp [hn, List.findSome?_cons]
    | none =>
      rw [if_neg (by rw [Fields.has_eq_isSome, hf]; simp)]
      rw [List.findSome?_cons, hf] at h
      rw [List.findSome?_cons, ih h]
      by_cases hn : slot.name = name
      · rw [← hn, hf]
        simp
      · simp [hn, List.findSome?_cons]

theorem replace_frames (s : Scope ε) (slot : Slot ε) :
    (s.replace slot).frames = replaceIn slot s.frames := by
  rw [frames, frames, replaceIn, replace, hasOnTop]
  split <;> rfl

/-- A slot that is put in the place of another is found there, and no other name is touched. -/
theorem find?_replace {s : Scope ε} {slot : Slot ε} (h : (s.find? slot.name).isSome) (name : String) :
    (s.replace slot).find? name = if slot.name = name then some slot else s.find? name := by
  rw [find?, replace_frames]
  exact findSome?_replaceIn slot name s.frames h

/-- A definition adds its slot to the top frame, where its name is new. -/
theorem define_eq {s t : Scope ε} {slot : Slot ε} (h : s.define slot = .ok t) :
    Fields.has slot.name s.top = false ∧ t = { s with top := s.top ++ [slot] } := by
  rw [define, Fields.define] at h
  split at h
  · exact nomatch h
  · next hn => exact ⟨Bool.eq_false_iff.2 hn, (Except.ok.inj h).symm⟩

/-- A defined slot is found, and no other name is touched. -/
theorem find?_define {s t : Scope ε} {slot : Slot ε} (h : s.define slot = .ok t) (name : String) :
    t.find? name = if slot.name = name then some slot else s.find? name := by
  obtain ⟨hn, rfl⟩ := define_eq h
  rw [find?, find?, frames, frames, List.findSome?_cons, List.findSome?_cons]
  rw [Fields.find?_append_new hn]
  by_cases h : slot.name = name <;> simp [h]

end Scope

/-! ## Values that share nothing -/

/-- A function that is not the host's. -/
def Function.Owned (f : Function ε) : Prop :=
  ∀ e, f.callback ≠ .host e

namespace Value

mutual

/-- Nothing in a value is shared, and every function in it has `P`. -/
def Every (P : Function ε → Prop) : Value ε → Prop
  | number _ | boolean _ | string _ | null => True
  | object fields => EveryField P fields
  | function f => P f
  | shared _ _ => False

/-- Nothing in fields is shared, and every function in them has `P`. -/
def EveryField (P : Function ε → Prop) : List (Slot ε) → Prop
  | [] => True
  | ⟨_, _, v⟩ :: rest => Every P v ∧ EveryField P rest

end

theorem everyField_iff {P : Function ε → Prop} (fields : List (Slot ε)) :
    EveryField P fields ↔ ∀ slot ∈ fields, slot.value.Every P := by
  induction fields with
  | nil => simp [EveryField]
  | cons slot rest ih =>
    obtain ⟨name, isMutable, value⟩ := slot
    rw [EveryField, ih, List.forall_mem_cons]

/-- A value that shares nothing: no shared object and no function of the host is in it. -/
def Owned (v : Value ε) : Prop :=
  v.Every Function.Owned

theorem owned_object {fields : List (Slot ε)} :
    Owned (.object fields) ↔ ∀ slot ∈ fields, slot.value.Owned :=
  everyField_iff fields

mutual

theorem Every.copyWith {P : Function ε → Prop} {fieldsAt : Nat → Except Breakdown (List (Slot ε))} :
    {v : Value ε} → v.Every P → v.copyWith fieldsAt = .ok v
  | number _, _ | boolean _, _ | string _, _ | null, _ | function _, _ => rfl
  | object fields, h => by
    rw [Value.copyWith, EveryField.copyFieldsWith h]
    rfl

theorem EveryField.copyFieldsWith {P : Function ε → Prop}
    {fieldsAt : Nat → Except Breakdown (List (Slot ε))} :
    {fields : List (Slot ε)} → EveryField P fields →
      Value.copyFieldsWith fieldsAt fields = .ok fields
  | [], _ => rfl
  | ⟨name, isMutable, value⟩ :: rest, h => by
    rw [Value.copyFieldsWith, Every.copyWith h.1, EveryField.copyFieldsWith h.2]
    rfl

end

/-- A value that shares nothing is its own copy. -/
theorem Owned.copy {v : Value ε} (h : v.Owned) (store : Store ε) : store.copy v = .ok v :=
  Every.copyWith h

theorem Owned.copyAll {vs : List (Value ε)} (h : ∀ v ∈ vs, v.Owned) (store : Store ε) :
    store.copyAll vs = .ok vs := by
  induction vs with
  | nil => rfl
  | cons v rest ih =>
    rw [Store.copyAll, (h v List.mem_cons_self).copy, ih fun u hu => h u (List.mem_cons_of_mem _ hu)]
    rfl

/-- The fields of an object that shares nothing stand in it, wherever the store is. -/
theorem Every.fields?_eq {P : Function ε → Prop} {v : Value ε} (h : v.Every P) {store : Store ε}
    {fields : List (Slot ε)} (hf : v.fields? store = some fields) : v = .object fields := by
  cases v with
  | object fs => rw [fields?, Option.some.injEq] at hf; rw [hf]
  | shared holder place => exact h.elim
  | _ => exact nomatch hf

end Value

/-! ## Changes -/

/-- The slot that a change by `f` at the end of the steps leaves. -/
inductive Slot.Changes (f : Slot ε → Except Failure (Slot ε)) : List Step → Slot ε → Slot ε → Prop
  | here {slot changed : Slot ε} : f slot = .ok changed → Changes f [] slot changed
  | inside {n : String} {rest : List Step} {slot field changed : Slot ε} {fields : List (Slot ε)} :
    slot.value = .object fields → Fields.find? n fields = some field →
    Changes f rest field changed →
    Changes f (.name n :: rest) slot { slot with value := .object (Fields.put changed fields) }

/-- A step that leads to a slot is the name under which the slot is found. -/
theorem Step.follow_eq {find : String → Option (Slot ε)} {step : Step} {slot : Slot ε}
    (h : step.follow find = .ok slot) : ∃ n, step = .name n ∧ find n = some slot := by
  cases step with
  | other text => exact nomatch h
  | name n =>
    rw [follow] at h
    split at h
    · next found hn => exact ⟨n, rfl, hn.trans (congrArg some (Except.ok.inj h))⟩
    · exact nomatch h

namespace Slot

variable {store : Store ε} {f : Slot ε → Except Failure (Slot ε)}

theorem resolve_owned {steps : List Step} {slot target : Slot ε} (h : slot.value.Owned)
    (hr : slot.resolve store steps = .ok target) : target.value.Owned := by
  induction steps generalizing slot with
  | nil => exact Except.ok.inj hr ▸ h
  | cons step rest ih =>
    rw [resolve] at hr
    split at hr
    · next fields hf =>
      cases hs : step.follow (Fields.find? · fields) with
      | error cause => rw [hs] at hr; exact nomatch hr
      | ok field =>
        rw [hs] at hr
        obtain ⟨n, rfl, hn⟩ := Step.follow_eq hs
        rw [Value.Every.fields?_eq h hf] at h
        exact ih (Value.owned_object.1 h field (Fields.find?_mem hn)) hr
    · exact nomatch hr

/-- A change inside a value that shares nothing stays in its slot. -/
theorem modify_every {P : Function ε → Prop} {steps : List Step} {slot : Slot ε} {change : Change ε}
    (h : slot.value.Every P) (hm : slot.modify store f steps = .ok change) :
    ∃ changed, change = .slot changed ∧ Changes f steps slot changed := by
  induction steps generalizing slot change with
  | nil =>
    rw [modify] at hm
    cases hf : f slot with
    | error failure => rw [hf] at hm; exact nomatch hm
    | ok changed => rw [hf] at hm; exact ⟨changed, (Except.ok.inj hm).symm, .here hf⟩
  | cons step rest ih =>
    rw [modify] at hm
    split at hm
    · next fields hv =>
      cases hs : step.follow (Fields.find? · fields) with
      | error cause => rw [hs] at hm; exact nomatch hm
      | ok field =>
        rw [hs] at hm
        obtain ⟨n, rfl, hn⟩ := Step.follow_eq hs
        have ho : field.value.Every P := by
          rw [hv] at h
          exact (Value.everyField_iff _).1 h field (Fields.find?_mem hn)
        cases hr : field.modify store f rest with
        | error failure => simp [hr, bind, Except.bind, mapError_ok] at hm
        | ok inner =>
          obtain ⟨changed, rfl, hc⟩ := ih ho hr
          simp only [hr, bind, Except.bind, mapError_ok] at hm
          exact ⟨_, (Except.ok.inj hm).symm, .inside hv hn hc⟩
    · next holder place hv => rw [hv] at h; exact h.elim
    · exact nomatch hm

namespace Changes

variable {steps : List Step} {slot changed : Slot ε}

theorem name_eq (hf : ∀ s t, f s = .ok t → t.name = s.name) (h : Changes f steps slot changed) :
    changed.name = slot.name := by
  cases h with
  | here hc => exact hf _ _ hc
  | inside _ _ _ => rfl

theorem owned (hf : ∀ s t, s.value.Owned → f s = .ok t → t.value.Owned)
    (h : Changes f steps slot changed) (ho : slot.value.Owned) : changed.value.Owned := by
  induction h with
  | here hc => exact hf _ _ ho hc
  | @inside n rest slot field changed fields hv hn _ ih =>
    rw [hv, Value.owned_object] at ho
    apply Value.owned_object.2
    intro s hs
    rcases Fields.mem_put hs with rfl | hs
    · exact ih (ho field (Fields.find?_mem hn))
    · exact ho s hs

/-- At the end of the path stands what `f` made of the slot that stood there. -/
theorem resolve_end (hf : ∀ s t, f s = .ok t → t.name = s.name) (h : Changes f steps slot changed)
    (store : Store ε) :
    ∃ old new, slot.resolve store steps = .ok old ∧ f old = .ok new ∧
      changed.resolve store steps = .ok new := by
  induction h with
  | @here slot changed hc => exact ⟨slot, changed, rfl, hc, rfl⟩
  | @inside n rest slot field changed fields hv hn hc ih =>
    obtain ⟨old, new, ho, hfo, hnew⟩ := ih
    refine ⟨old, new, ?_, hfo, ?_⟩
    · simp only [resolve, hv, Value.fields?, Step.follow, hn]
      exact ho
    · have hname : changed.name = n := (name_eq hf hc).trans (Fields.find?_name hn)
      simp only [resolve, Value.fields?, Step.follow, Fields.find?_put, hname, if_true]
      exact hnew

/-- Nothing has changed at the end of a path of which this one is no part, and which is no part of
this one. -/
theorem resolve_apart (hf : ∀ s t, f s = .ok t → t.name = s.name)
    (h : Changes f steps slot changed) {others : List Step} (hl : ¬ steps <+: others)
    (hr : ¬ others <+: steps) : changed.resolve store others = slot.resolve store others := by
  induction h generalizing others with
  | here _ => exact (hl List.nil_prefix).elim
  | @inside n rest slot field changed fields hv hn hc ih =>
    cases others with
    | nil => exact (hr List.nil_prefix).elim
    | cons step others =>
      have hname : changed.name = n := (name_eq hf hc).trans (Fields.find?_name hn)
      simp only [resolve, hv, Value.fields?]
      cases step with
      | other text => rfl
      | name m =>
        by_cases hm : n = m
        · subst hm
          simp only [Step.follow, Fields.find?_put, hname, if_true, hn]
          refine ih (fun hp => hl ?_) (fun hp => hr ?_)
          · exact (List.prefix_cons_inj _).2 hp
          · exact (List.prefix_cons_inj _).2 hp
        · simp only [Step.follow, Fields.find?_put, hname, if_neg hm]

end Changes

end Slot

/-- All steps of a path. -/
def Path.steps (p : Path) : List Step :=
  p.first :: p.rest

namespace Scope

variable {store : Store ε} {f : Slot ε → Except Failure (Slot ε)}

/-- A scope whose values share nothing. -/
def Owned (s : Scope ε) : Prop :=
  ∀ frame ∈ s.frames, ∀ slot ∈ frame, slot.value.Owned

theorem Owned.find? {s : Scope ε} (h : s.Owned) {name : String} {slot : Slot ε}
    (hf : s.find? name = some slot) : slot.value.Owned := by
  obtain ⟨frame, hm, hs⟩ := find?_mem hf
  exact h frame hm slot hs

theorem Owned.resolve {s : Scope ε} (h : s.Owned) {path : Path} {slot : Slot ε}
    (hr : s.resolve store path = .ok slot) : slot.value.Owned := by
  rw [Scope.resolve] at hr
  cases hs : path.first.follow s.find? with
  | error cause => rw [hs] at hr; exact nomatch hr
  | ok first =>
    rw [hs] at hr
    obtain ⟨n, _, hn⟩ := Step.follow_eq hs
    exact Slot.resolve_owned (h.find? hn) hr

/-- A change along a path, from the slot that its name means. -/
theorem modify_found {s : Scope ε} {path : Path} {n : String} {slot : Slot ε}
    (hfirst : path.first = .name n) (hfind : s.find? n = some slot) (store : Store ε)
    (f : Slot ε → Except Failure (Slot ε)) :
    s.modify store path f = (slot.modify store f path.rest).map fun change =>
      match change with
      | .slot changed => (s.replace changed, store)
      | .store changed => (s, changed) := by
  rw [Scope.modify, hfirst, Step.follow, hfind]
  cases hmodify : slot.modify store f path.rest with
  | error failure =>
    show (slot.modify store f path.rest >>= _) = _
    rw [hmodify]
    rfl
  | ok change =>
    show (slot.modify store f path.rest >>= _) = _
    rw [hmodify]
    cases change <;> rfl

/-- A change in a scope whose values share nothing is a change of one slot, in its place. -/
theorem modify_every {P : Function ε → Prop} {s t : Scope ε}
    (h : ∀ frame ∈ s.frames, ∀ slot ∈ frame, slot.value.Every P) {path : Path} {store' : Store ε}
    (hm : s.modify store path f = .ok (t, store')) :
    ∃ n slot changed, path.first = .name n ∧ s.find? n = some slot ∧
      slot.Changes f path.rest changed ∧ t = s.replace changed ∧ store' = store := by
  rw [Scope.modify] at hm
  cases hs : path.first.follow s.find? with
  | error cause => rw [hs] at hm; exact nomatch hm
  | ok slot =>
    obtain ⟨n, hfirst, hn⟩ := Step.follow_eq hs
    obtain ⟨frame, hframe, hslot⟩ := find?_mem hn
    cases hr : slot.modify store f path.rest with
    | error failure => simp [hs, hr, bind, Except.bind, mapError_ok] at hm
    | ok change =>
      obtain ⟨changed, rfl, hc⟩ := Slot.modify_every (h frame hframe slot hslot) hr
      simp only [hs, hr, bind, Except.bind, mapError_ok, Except.ok.injEq, Prod.mk.injEq] at hm
      exact ⟨n, slot, changed, hfirst, hn, hc, hm.1.symm, hm.2.symm⟩

section Modified

variable {s t : Scope ε} {path : Path} {store' : Store ε}

/-- A changed slot is found in the place of the old one, and no other name is touched. -/
theorem find?_replace_changes (hf : ∀ s t, f s = .ok t → t.name = s.name) {n : String}
    {slot changed : Slot ε} {steps : List Step} (hn : s.find? n = some slot)
    (hc : slot.Changes f steps changed) (name : String) :
    (s.replace changed).find? name = if n = name then some changed else s.find? name := by
  have hname : changed.name = n := (hc.name_eq hf).trans (find?_name hn)
  have hsome : (s.find? changed.name).isSome := by rw [hname, hn]; rfl
  rw [find?_replace hsome, hname]

theorem find?_modify (h : s.Owned) (hf : ∀ s t, f s = .ok t → t.name = s.name)
    (hm : s.modify store path f = .ok (t, store')) {name : String} (hn : path.first ≠ .name name) :
    t.find? name = s.find? name := by
  obtain ⟨n, slot, changed, hfirst, hfind, hc, rfl, _⟩ := modify_every h hm
  rw [find?_replace_changes hf hfind hc, if_neg]
  rintro rfl
  exact hn hfirst

/-- The path of a change leads to what `f` made of the slot that it led to. -/
theorem resolve_modify_end {P : Function ε → Prop}
    (h : ∀ frame ∈ s.frames, ∀ slot ∈ frame, slot.value.Every P) (hf : ∀ s t, f s = .ok t → t.name = s.name)
    (hm : s.modify store path f = .ok (t, store')) :
    ∃ old new, s.resolve store path = .ok old ∧ f old = .ok new ∧
      t.resolve store path = .ok new := by
  obtain ⟨n, slot, changed, hfirst, hfind, hc, rfl, _⟩ := modify_every h hm
  obtain ⟨old, new, hold, hfo, hnew⟩ := hc.resolve_end hf store
  refine ⟨old, new, ?_, hfo, ?_⟩
  · simp only [resolve, hfirst, Step.follow, hfind]
    exact hold
  · simp only [resolve, hfirst, Step.follow, find?_replace_changes hf hfind hc, if_true]
    exact hnew

/-- Every path that is neither a part of the path of a change nor has it as a part leads where it
led. -/
theorem resolve_modify_apart (h : s.Owned) (hf : ∀ s t, f s = .ok t → t.name = s.name)
    (hm : s.modify store path f = .ok (t, store')) {other : Path} (hl : ¬ path.steps <+: other.steps)
    (hr : ¬ other.steps <+: path.steps) : t.resolve store other = s.resolve store other := by
  obtain ⟨first, rest⟩ := other
  by_cases hfirst : path.first = first
  · obtain ⟨n, slot, changed, hn, hfind, hc, rfl, _⟩ := modify_every h hm
    obtain rfl : first = .name n := hfirst.symm.trans hn
    simp only [Path.steps, hn, List.prefix_cons_inj] at hl hr
    simp only [resolve, Step.follow, hfind, find?_replace_changes hf hfind hc, if_true]
    exact hc.resolve_apart hf hl hr
  · cases first with
    | other text => rfl
    | name n => simp only [resolve, Step.follow, find?_modify h hf hm hfirst]

end Modified

end Scope

end Scriptlet
