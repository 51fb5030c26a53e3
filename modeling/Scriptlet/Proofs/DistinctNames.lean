import Scriptlet.Proofs.NamedEntries
import Scriptlet.Proofs.ScopesInHeap

/-!
# Different names in a frame

No frame has two slots of one name.  Nothing but putting a slot adds to a frame, and this takes the place of
a slot of the same name if there is one.  So the invariant holds of an empty scope and is kept by whatever is
done to scopes, both in trees (`Scope.Distinct`) and in a heap (`Heap.Distinct`), where it is kept frame by
frame, of objects too.
-/

namespace Scriptlet

set_option autoImplicit false

variable {ε : Type}

/-! ## Scopes of values -/

namespace Scope

/-- The frames of a scope with their slots by name. -/
def entries (s : Scope ε) : List (List (String × Slot ε)) :=
  s.frames.map (·.map Slot.entry)

/-- In each frame of a scope the names are different. -/
def Distinct (s : Scope ε) : Prop :=
  Entries.Distinct s.entries

theorem distinct_iff {s : Scope ε} :
    s.Distinct ↔ ∀ frame ∈ s.frames, (frame.map Slot.name).Nodup := by
  simp only [Distinct, Entries.Distinct, entries, List.forall_mem_map, Fields.map_fst_entry]

theorem Fresh.distinct {s : Scope ε} (h : s.Fresh) : s.Distinct :=
  distinct_iff.2 fun frame hframe => (h frame hframe).names

theorem distinct_empty : (empty : Scope ε).Distinct :=
  distinct_iff.2 (List.forall_mem_singleton.2 List.nodup_nil)

namespace Distinct

variable {s t : Scope ε}

theorem push (h : s.Distinct) : s.push.Distinct :=
  distinct_iff.2 (List.forall_mem_cons.2 ⟨List.nodup_nil, distinct_iff.1 h⟩)

theorem pop (h : s.Distinct) : s.pop.Distinct := by
  obtain ⟨top, outer⟩ := s
  cases outer with
  | nil => exact h
  | cons frame rest => exact distinct_iff.2 (List.forall_mem_cons.1 (distinct_iff.1 h)).2

theorem set (h : s.Distinct) (slot : Slot ε) : (s.set slot).Distinct := by
  obtain ⟨htop, houter⟩ := List.forall_mem_cons.1 (distinct_iff.1 h)
  exact distinct_iff.2 (List.forall_mem_cons.2 ⟨Fields.nodup_put slot htop, houter⟩)

theorem define (h : s.Distinct) {slot : Slot ε} (hd : s.define slot = .ok t) : t.Distinct := by
  obtain ⟨hnew, rfl⟩ := Scope.define_eq hd
  rw [← Fields.put_new hnew]
  exact h.set slot

theorem replace (h : s.Distinct) (slot : Slot ε) : (s.replace slot).Distinct := by
  rw [distinct_iff, replace_frames]
  replace h := distinct_iff.1 h
  generalize s.frames = frames at h
  induction frames with
  | nil => exact h
  | cons frame rest ih =>
    obtain ⟨hframe, hrest⟩ := List.forall_mem_cons.1 h
    rw [replaceIn]
    split
    · exact List.forall_mem_cons.2 ⟨Fields.nodup_put slot hframe, hrest⟩
    · exact List.forall_mem_cons.2 ⟨hframe, ih hrest⟩

/-- A change along a path puts at most one slot in the place of another. -/
theorem modify (h : s.Distinct) {store store' : Store ε} {path : Path}
    {f : Slot ε → Except Failure (Slot ε)} (hm : s.modify store path f = .ok (t, store')) :
    t.Distinct := by
  obtain ⟨slot, _, hm⟩ := except_bind_eq_ok.1 hm
  obtain ⟨change, _, hm⟩ := except_bind_eq_ok.1 hm
  cases change with
  | slot changed =>
    obtain ⟨rfl, _⟩ := Prod.mk.inj (Except.ok.inj hm)
    exact h.replace changed
  | store _ =>
    obtain ⟨rfl, _⟩ := Prod.mk.inj (Except.ok.inj hm)
    exact h

end Distinct

end Scope

/-! ## Scopes in a heap -/

/-- In a cell that is a frame the names are different. -/
def Cell.Distinct : Cell ε → Prop
  | frame entries => (entries.map Prod.fst).Nodup
  | slot _ _ | scope _ _ => True

namespace Heap

open Family (line)

/-- The frames of a scope with the addresses of their slots by name. -/
def entries (heap : Heap ε) (scope : Nat) : List (List (String × Nat)) :=
  (line (heap.scope scope)).map heap.frame

theorem putEntry_eq (name : String) (address : Nat) (entries : List (String × Nat)) :
    putEntry name address entries = Entries.put (name, address) entries := by
  induction entries with
  | nil => rfl
  | cons entry rest ih =>
    rw [putEntry, Entries.put, ih]
    simp only [beq_iff_eq]

/-- In every frame of a heap the names are different. -/
def Distinct (heap : Heap ε) : Prop :=
  ∀ cell ∈ heap.cells, cell.Distinct

namespace Distinct

variable {heap heap' : Heap ε}

theorem frame (h : heap.Distinct) (address : Nat) : ((heap.frame address).map Prod.fst).Nodup := by
  rw [Heap.frame]
  split
  · next hcell => exact h _ (List.mem_of_getElem? hcell)
  · exact List.nodup_nil

/-- So they are in the frames of every scope. -/
theorem entries (h : heap.Distinct) (scope : Nat) : Entries.Distinct (heap.entries scope) :=
  List.forall_mem_map.2 fun address _ => h.frame address

theorem alloc (h : heap.Distinct) {cell : Cell ε} (hcell : cell.Distinct) : (heap.alloc cell).2.Distinct :=
  List.forall_mem_append.2 ⟨h, List.forall_mem_singleton.2 hcell⟩

theorem alloc_slot (h : heap.Distinct) (isMutable : Bool) (held : Held ε) :
    (heap.alloc (.slot isMutable held)).2.Distinct :=
  h.alloc trivial

theorem write (h : heap.Distinct) (address : Nat) {cell : Cell ε} (hcell : cell.Distinct) :
    (heap.write address cell).Distinct := by
  intro c hc
  rcases List.mem_or_eq_of_mem_set hc with hc | rfl
  · exact h c hc
  · exact hcell

mutual

theorem place : (v : Value ε) → {heap : Heap ε} → heap.Distinct → v.Fresh → (heap.place v).2.Distinct
  | .object fields, heap, h, hv => by
    obtain ⟨hfields, hnames⟩ := placeFields fields h hv.2
    have hframe : (Cell.frame (ε := ε) (heap.placeFields fields).1).Distinct := by
      rw [Cell.Distinct, hnames]
      exact hv.1
    exact (hfields.alloc hframe).alloc trivial
  | .number _, _, h, _ | .boolean _, _, h, _ | .string _, _, h, _ | .null, _, h, _
  | .function _, _, h, _ => h
  | .shared _ _, _, _, hv => hv.elim

theorem placeFields : (fields : List (Slot ε)) → {heap : Heap ε} → heap.Distinct →
    Value.FreshFields fields → (heap.placeFields fields).2.Distinct ∧
      (heap.placeFields fields).1.map Prod.fst = fields.map Slot.name
  | [], _, h, _ => ⟨h, rfl⟩
  | ⟨name, isMutable, value⟩ :: rest, heap, h, hv => by
    have hvalue := place value h hv.1
    obtain ⟨hrest, hnames⟩ := placeFields rest (hvalue.alloc_slot isMutable (heap.place value).1) hv.2
    exact ⟨hrest, congrArg (name :: ·) hnames⟩

end

theorem set (h : heap.Distinct) (scope : Nat) (name : String) (isMutable : Bool) (held : Held ε) :
    (heap.set scope name isMutable held).Distinct := by
  have hslot := h.alloc_slot isMutable held
  refine hslot.write _ ?_
  rw [Cell.Distinct, putEntry_eq]
  exact Entries.nodup_put (hslot.frame _)

theorem define (h : heap.Distinct) {scope : Nat} {name : String} {isMutable : Bool} {held : Held ε}
    (hd : heap.define scope name isMutable held = .ok heap') : heap'.Distinct := by
  rw [Heap.define] at hd
  split at hd
  · cases hd
  · obtain rfl := Except.ok.inj hd
    exact h.set scope name isMutable held

theorem setValue (h : heap.Distinct) {held : Held ε} {address : Nat}
    (hs : heap.setValue held address = .ok heap') : heap'.Distinct := by
  rw [Heap.setValue] at hs
  dsimp only at hs
  split at hs
  · cases hs
  · split at hs
    · cases hs
    · obtain rfl := Except.ok.inj hs
      exact h.write address trivial

theorem assign (h : heap.Distinct) {scope : Nat} {path : Path} {held : Held ε}
    (ha : heap.assign scope path held = .ok heap') : heap'.Distinct := by
  obtain ⟨_, _, ha⟩ := except_bind_eq_ok.1 ha
  obtain ⟨_, _, ha⟩ := except_bind_eq_ok.1 ha
  exact h.setValue ha

theorem nest (h : heap.Distinct) (scope : Nat) : (heap.nest scope).2.Distinct :=
  have hframe : (Cell.frame (ε := ε) []).Distinct := List.nodup_nil
  (h.alloc hframe).alloc trivial

/-! A copied frame has the names of the original, whatever is done for the values inside. -/

section Copies

variable {clone : Held ε → Heap ε → Except Breakdown (Held ε × Heap ε)}
  (hclone : ∀ {held held' : Held ε} {heap heap' : Heap ε}, heap.Distinct →
    clone held heap = .ok (held', heap') → heap'.Distinct)
include hclone

theorem copySlots {entries entries' : List (String × Nat)} (h : heap.Distinct)
    (hc : copySlots clone entries heap = .ok (entries', heap')) :
    heap'.Distinct ∧ entries'.map Prod.fst = entries.map Prod.fst := by
  induction entries generalizing heap heap' entries' with
  | nil =>
    obtain ⟨rfl, rfl⟩ := Prod.mk.inj (Except.ok.inj hc)
    exact ⟨h, rfl⟩
  | cons entry rest ih =>
    obtain ⟨⟨_, _⟩, hheld, hc⟩ := except_bind_eq_ok.1 hc
    obtain ⟨⟨_, _⟩, hrest, hc⟩ := except_bind_eq_ok.1 hc
    obtain ⟨rfl, rfl⟩ := Prod.mk.inj (Except.ok.inj hc)
    obtain ⟨hdone, hnames⟩ := ih ((hclone h hheld).alloc_slot _ _) hrest
    exact ⟨hdone, congrArg (entry.1 :: ·) hnames⟩

theorem copyFrame {address address' : Nat} (h : heap.Distinct)
    (hc : copyFrame clone address heap = .ok (address', heap')) : heap'.Distinct := by
  obtain ⟨⟨entries, _⟩, hslots, hc⟩ := except_bind_eq_ok.1 hc
  obtain ⟨_, rfl⟩ := Prod.mk.inj (Except.ok.inj hc)
  obtain ⟨hdone, hnames⟩ := copySlots hclone h hslots
  refine hdone.alloc ?_
  rw [Cell.Distinct, hnames]
  exact h.frame address

theorem copyFrames {addresses addresses' : List Nat} (h : heap.Distinct)
    (hc : copyFrames clone addresses heap = .ok (addresses', heap')) : heap'.Distinct := by
  induction addresses generalizing heap addresses' with
  | nil =>
    obtain ⟨_, rfl⟩ := Prod.mk.inj (Except.ok.inj hc)
    exact h
  | cons address rest ih =>
    obtain ⟨⟨_, _⟩, hframe, hc⟩ := except_bind_eq_ok.1 hc
    obtain ⟨⟨_, _⟩, hrest, hc⟩ := except_bind_eq_ok.1 hc
    obtain ⟨_, rfl⟩ := Prod.mk.inj (Except.ok.inj hc)
    exact ih (copyFrame hclone h hframe) hrest

end Copies

theorem copyScope {depth address address' : Nat} (h : heap.Distinct)
    (hc : copyScope depth address heap = .ok (address', heap')) : heap'.Distinct := by
  induction depth generalizing heap heap' address address' with
  | zero => cases hc
  | succ depth ih =>
    have hclone : ∀ {held held' : Held ε} {heap heap' : Heap ε}, heap.Distinct →
        Held.clone (Heap.copyScope depth) held heap = .ok (held', heap') → heap'.Distinct := by
      intro held held' heap heap' h hheld
      cases held with
      | value v =>
        obtain ⟨_, rfl⟩ := Prod.mk.inj (Except.ok.inj hheld)
        exact h
      | object scope =>
        obtain ⟨⟨_, _⟩, hscope, hpair⟩ := except_map_eq_ok.1 hheld
        obtain ⟨_, rfl⟩ := Prod.mk.inj hpair
        exact ih h hscope
    obtain ⟨⟨_, _⟩, htop, hc⟩ := except_bind_eq_ok.1 hc
    obtain ⟨⟨_, _⟩, houter, hc⟩ := except_bind_eq_ok.1 hc
    obtain ⟨_, rfl⟩ := Prod.mk.inj (Except.ok.inj hc)
    exact (copyFrames hclone (copyFrame hclone h htop) houter).alloc trivial

end Distinct

end Heap

/-! ## Scopes that are at hand -/

namespace Scopes

theorem distinct_single : (single : Scopes ε).heap.Distinct :=
  List.forall_mem_cons.2 ⟨List.nodup_nil, List.forall_mem_singleton.2 trivial⟩

variable {s : Scopes ε}

/-- What is done through a handle keeps the names different if the change does. -/
theorem distinct_through (h : s.heap.Distinct) {handle : Nat} {change : Nat → Except Cause (Heap ε)}
    (hchange : ∀ {scope heap}, change scope = .ok heap → heap.Distinct) :
    ((s.through handle change).toOption.getD s).heap.Distinct := by
  rw [through]
  cases s.handles[handle]? with
  | none => exact h
  | some scope =>
    dsimp only
    cases hc : change scope with
    | error cause => exact h
    | ok heap => exact hchange hc

/-- An operation with a value that was built for it keeps the names different. -/
theorem distinct_apply (h : s.heap.Distinct) {op : Family.Operation ε} (hop : op.Fresh) :
    (s.apply op).heap.Distinct := by
  cases op with
  | define handle slot => exact distinct_through h fun hc => (h.place slot.value hop).define hc
  | set handle slot =>
    refine distinct_through h fun hc => ?_
    obtain rfl := Except.ok.inj hc
    exact (h.place slot.value hop).set _ _ _ _
  | assign handle path v => exact distinct_through h fun hc => (h.place v hop).assign hc
  | nest handle =>
    rw [apply, nest]
    cases s.handles[handle]? with
    | none => exact h
    | some scope => exact h.nest scope
  | copy handle =>
    rw [apply, copy]
    cases s.handles[handle]? with
    | none => exact h
    | some scope =>
      dsimp only
      cases hc : Heap.copyScope s.heap.cells.length scope s.heap with
      | error b => exact h
      | ok copied => exact h.copyScope hc

/-- The frames of all scopes that grow out of a single empty one have different names. -/
theorem distinct_after {ops : List (Family.Operation ε)} (hops : ∀ op ∈ ops, op.Fresh) :
    ((single : Scopes ε).after ops).heap.Distinct := by
  suffices hall : ∀ s : Scopes ε, s.heap.Distinct → (s.after ops).heap.Distinct from
    hall single distinct_single
  induction ops with
  | nil => exact fun s h => h
  | cons op rest ih =>
    obtain ⟨hop, hrest⟩ := List.forall_mem_cons.1 hops
    exact fun s h => ih hrest (s.apply op) (distinct_apply h hop)

end Scopes

end Scriptlet
