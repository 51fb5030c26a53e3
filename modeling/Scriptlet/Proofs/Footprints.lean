import Mathlib.Data.List.Perm.Subperm
import Scriptlet.Proofs.FreshValues
import Scriptlet.Scope.Heap

/-!
# Values in a heap

What a slot holds in a heap stands for a value by way of the cells that it leads to, its footprint.  A
footprint names every cell once: no two fields lead to the same object.  Such a value stays what it is
while nothing is written to its footprint, and reading it, building it and copying it are what they are
for trees.
-/

namespace Scriptlet

set_option autoImplicit false

variable {ε : Type}

/-! ## Pieces -/

/-- Lists that are related member by member, with the footprints of the members one after the other. -/
inductive Pieces {α β : Type} (R : α → β → List Nat → Prop) : List α → List β → List Nat → Prop
  | nil : Pieces R [] [] []
  | cons {a : α} {b : β} {as : List α} {bs : List β} {own owns : List Nat} :
    R a b own → Pieces R as bs owns → Pieces R (a :: as) (b :: bs) (own ++ owns)

namespace Pieces

variable {α β : Type} {R S : α → β → List Nat → Prop} {as as' : List α} {bs bs' : List β}
  {own own' : List Nat}

theorem append (h : Pieces R as bs own) (h' : Pieces R as' bs' own') :
    Pieces R (as ++ as') (bs ++ bs') (own ++ own') := by
  induction h with
  | nil => exact h'
  | cons hfirst _ ih =>
    rw [List.append_assoc]
    exact .cons hfirst ih

theorem imp (h : Pieces R as bs own)
    (hR : ∀ a b own', (∀ x ∈ own', x ∈ own) → R a b own' → S a b own') : Pieces S as bs own := by
  induction h with
  | nil => exact .nil
  | cons hfirst _ ih =>
    refine .cons (hR _ _ _ (fun x hx => List.mem_append_left _ hx) hfirst) (ih fun a b own' hown' => ?_)
    exact hR a b own' fun x hx => List.mem_append_right _ (hown' x hx)

theorem length_eq (h : Pieces R as bs own) : as.length = bs.length := by
  induction h with
  | nil => rfl
  | cons _ _ ih => rw [List.length_cons, List.length_cons, ih]

/-- The member that is related to another one, with its part of the footprint. -/
theorem get (h : Pieces R as bs own) {i : Nat} {b : β} (hb : bs[i]? = some b) :
    ∃ a own', as[i]? = some a ∧ R a b own' ∧ own'.Sublist own := by
  induction h generalizing i with
  | nil => cases hb
  | cons hfirst _ ih =>
    cases i with
    | zero =>
      obtain rfl := Option.some.inj hb
      exact ⟨_, _, rfl, hfirst, List.sublist_append_left _ _⟩
    | succ i =>
      obtain ⟨a, own', ha, hpiece, hown'⟩ := ih (i := i) hb
      exact ⟨a, own', ha, hpiece, hown'.trans (List.sublist_append_right _ _)⟩

theorem get_left (h : Pieces R as bs own) {i : Nat} {a : α} (ha : as[i]? = some a) :
    ∃ b own', bs[i]? = some b ∧ R a b own' ∧ own'.Sublist own := by
  induction h generalizing i with
  | nil => cases ha
  | cons hfirst _ ih =>
    cases i with
    | zero =>
      obtain rfl := Option.some.inj ha
      exact ⟨_, _, rfl, hfirst, List.sublist_append_left _ _⟩
    | succ i =>
      obtain ⟨b, own', hb, hpiece, hown'⟩ := ih (i := i) ha
      exact ⟨b, own', hb, hpiece, hown'.trans (List.sublist_append_right _ _)⟩

theorem forall₂ (h : Pieces R as bs own) {P : α → β → Prop}
    (hR : ∀ a b own', b ∈ bs → R a b own' → P a b) : List.Forall₂ P as bs := by
  induction h with
  | nil => exact .nil
  | cons hfirst _ ih =>
    exact .cons (hR _ _ _ List.mem_cons_self hfirst) (ih fun a b own' hb => hR a b own' (List.mem_cons_of_mem _ hb))

end Pieces

/-! ## Cells -/

namespace Heap

variable {heap heap' heap'' : Heap ε} {a : Nat} {cell : Cell ε}

theorem slot_eq {isMutable : Bool} {held : Held ε}
    (h : heap.cells[a]? = some (.slot isMutable held)) : heap.slot a = (isMutable, held) := by
  rw [slot, h]

theorem frame_eq {entries : List (String × Nat)} (h : heap.cells[a]? = some (.frame entries)) :
    heap.frame a = entries := by
  rw [frame, h]

theorem scope_eq {top : Nat} {outer : List Nat} (h : heap.cells[a]? = some (.scope top outer)) :
    heap.scope a = (top, outer) := by
  rw [scope, h]

theorem bound_of_cell (h : heap.cells[a]? = some cell) : a < heap.cells.length :=
  (List.getElem?_eq_some_iff.1 h).1

/-- A cell stays where it is when cells are added. -/
theorem cell_kept (hgrows : heap.cells <+: heap'.cells) (ha : a < heap.cells.length) :
    heap'.cells[a]? = heap.cells[a]? := by
  rw [List.prefix_iff_getElem?.1 hgrows a ha, List.getElem?_eq_getElem ha]

theorem cell_grows (hgrows : heap.cells <+: heap'.cells) (h : heap.cells[a]? = some cell) :
    heap'.cells[a]? = some cell :=
  (cell_kept hgrows (bound_of_cell h)).trans h

/-- There are as many cells as a footprint has that names each of them once. -/
theorem length_le {own : List Nat} (hbound : ∀ a ∈ own, a < heap.cells.length) (hnodup : own.Nodup) :
    own.length ≤ heap.cells.length := by
  have hsub : own ⊆ List.range heap.cells.length := fun a ha => List.mem_range.2 (hbound a ha)
  have hlength := (hnodup.subperm hsub).length_le
  rwa [List.length_range] at hlength

/-- Cells are added, those of a footprint among them. -/
structure Adds (heap heap' : Heap ε) (own : List Nat) : Prop where
  grows : heap.cells <+: heap'.cells
  bounds : ∀ a ∈ own, heap.cells.length ≤ a ∧ a < heap'.cells.length
  nodup : own.Nodup

theorem Adds.refl (heap : Heap ε) : Adds heap heap [] :=
  ⟨List.prefix_rfl, List.forall_mem_nil _, List.nodup_nil⟩

theorem Adds.trans {own owns : List Nat} (h : Adds heap heap' own) (h' : Adds heap' heap'' owns) :
    Adds heap heap'' (own ++ owns) where
  grows := h.grows.trans h'.grows
  bounds a ha := by
    have hlength := h.grows.length_le
    have hlength' := h'.grows.length_le
    rcases List.mem_append.1 ha with ha | ha
    · have := h.bounds a ha
      omega
    · have := h'.bounds a ha
      omega
  nodup := by
    refine List.nodup_append.2 ⟨h.nodup, h'.nodup, fun a ha b hb => ?_⟩
    have hold := (h.bounds a ha).2
    have hnew := (h'.bounds b hb).1
    omega

theorem Adds.grow {own : List Nat} (h : Adds heap heap' own) (hgrows : heap'.cells <+: heap''.cells) :
    Adds heap heap'' own :=
  ⟨h.grows.trans hgrows, fun a ha => ⟨(h.bounds a ha).1, Nat.lt_of_lt_of_le (h.bounds a ha).2 hgrows.length_le⟩,
    h.nodup⟩

theorem adds_alloc (heap : Heap ε) (cell : Cell ε) :
    Adds heap (heap.alloc cell).2 [heap.cells.length] where
  grows := List.prefix_append _ _
  bounds := by simp [alloc]
  nodup := List.pairwise_singleton _ _

theorem alloc_cell (heap : Heap ε) (cell : Cell ε) :
    (heap.alloc cell).2.cells[heap.cells.length]? = some cell :=
  List.getElem?_concat_length

end Heap

/-! ## Values -/

mutual

/-- What is held stands for a value, with the cells of a footprint. -/
inductive Holds (heap : Heap ε) : Held ε → Value ε → List Nat → Prop
  | value {v : Value ε} : v.variant ≠ .object → Holds heap (.value v) v []
  | object {a f : Nat} {fields : List (Slot ε)} {own : List Nat} :
    heap.cells[a]? = some (.scope f []) → HoldsFrame heap f fields own →
    Holds heap (.object a) (.object fields) (own ++ [a])

/-- An entry of a frame stands for a slot. -/
inductive HoldsSlot (heap : Heap ε) : String × Nat → Slot ε → List Nat → Prop
  | mk {name : String} {a : Nat} {isMutable : Bool} {held : Held ε} {v : Value ε} {own : List Nat} :
    heap.cells[a]? = some (.slot isMutable held) → Holds heap held v own →
    HoldsSlot heap (name, a) ⟨name, isMutable, v⟩ (own ++ [a])

/-- The frame at an address has some slots. -/
inductive HoldsFrame (heap : Heap ε) : Nat → List (Slot ε) → List Nat → Prop
  | mk {f : Nat} {entries : List (String × Nat)} {slots : List (Slot ε)} {own : List Nat} :
    heap.cells[f]? = some (.frame entries) → Pieces (HoldsSlot heap) entries slots own →
    HoldsFrame heap f slots (own ++ [f])

end

mutual

/-- How many objects of a value stand inside one another. -/
def Value.height : Value ε → Nat
  | .object fields => Value.heightIn fields + 1
  | _ => 0

/-- How many objects of some fields stand inside one another. -/
def Value.heightIn : List (Slot ε) → Nat
  | [] => 0
  | ⟨_, _, value⟩ :: rest => max (Value.height value) (Value.heightIn rest)

end

section Footprint

variable {heap heap' : Heap ε} {held : Held ε} {v : Value ε} {own : List Nat}
  {entries : List (String × Nat)} {slots : List (Slot ε)} {f : Nat}

mutual

theorem Holds.bound : {held : Held ε} → {v : Value ε} → {own : List Nat} → Holds heap held v own →
    ∀ a ∈ own, a < heap.cells.length
  | _, _, _, .value _ => List.forall_mem_nil _
  | _, _, _, .object hscope hframe => List.forall_mem_append.2
    ⟨hframe.bound, List.forall_mem_singleton.2 (Heap.bound_of_cell hscope)⟩

theorem HoldsFrame.bound : {f : Nat} → {slots : List (Slot ε)} → {own : List Nat} →
    HoldsFrame heap f slots own → ∀ a ∈ own, a < heap.cells.length
  | _, _, _, .mk hframe hslots => List.forall_mem_append.2
    ⟨HoldsSlot.bounds hslots, List.forall_mem_singleton.2 (Heap.bound_of_cell hframe)⟩

theorem HoldsSlot.bounds : {entries : List (String × Nat)} → {slots : List (Slot ε)} →
    {own : List Nat} → Pieces (HoldsSlot heap) entries slots own → ∀ a ∈ own, a < heap.cells.length
  | _, _, _, .nil => List.forall_mem_nil _
  | _, _, _, .cons (.mk hslot hheld) hrest => List.forall_mem_append.2 ⟨List.forall_mem_append.2
    ⟨hheld.bound, List.forall_mem_singleton.2 (Heap.bound_of_cell hslot)⟩, HoldsSlot.bounds hrest⟩

end

mutual

/-- What is held stands for the same value where the heaps agree on its footprint. -/
theorem Holds.kept : {held : Held ε} → {v : Value ε} → {own : List Nat} → Holds heap held v own →
    (∀ a ∈ own, heap'.cells[a]? = heap.cells[a]?) → Holds heap' held v own
  | _, _, _, .value hv, _ => .value hv
  | _, _, _, .object hscope hframe, hkept => by
    rw [List.forall_mem_append, List.forall_mem_singleton] at hkept
    exact .object (hkept.2.trans hscope) (hframe.kept hkept.1)

theorem HoldsFrame.kept : {f : Nat} → {slots : List (Slot ε)} → {own : List Nat} →
    HoldsFrame heap f slots own → (∀ a ∈ own, heap'.cells[a]? = heap.cells[a]?) →
    HoldsFrame heap' f slots own
  | _, _, _, .mk hframe hslots, hkept => by
    rw [List.forall_mem_append, List.forall_mem_singleton] at hkept
    exact .mk (hkept.2.trans hframe) (HoldsSlot.all_kept hslots hkept.1)

theorem HoldsSlot.all_kept : {entries : List (String × Nat)} → {slots : List (Slot ε)} →
    {own : List Nat} → Pieces (HoldsSlot heap) entries slots own →
    (∀ a ∈ own, heap'.cells[a]? = heap.cells[a]?) → Pieces (HoldsSlot heap') entries slots own
  | _, _, _, .nil, _ => .nil
  | _, _, _, .cons (.mk hslot hheld) hrest, hkept => by
    rw [List.forall_mem_append, List.forall_mem_append, List.forall_mem_singleton] at hkept
    exact .cons (.mk (hkept.1.2.trans hslot) (hheld.kept hkept.1.1)) (HoldsSlot.all_kept hrest hkept.2)

end

theorem Holds.grows (h : Holds heap held v own) (hgrows : heap.cells <+: heap'.cells) :
    Holds heap' held v own :=
  h.kept fun a ha => Heap.cell_kept hgrows (h.bound a ha)

theorem HoldsFrame.grows (h : HoldsFrame heap f slots own) (hgrows : heap.cells <+: heap'.cells) :
    HoldsFrame heap' f slots own :=
  h.kept fun a ha => Heap.cell_kept hgrows (h.bound a ha)

theorem HoldsSlot.all_grow (h : Pieces (HoldsSlot heap) entries slots own)
    (hgrows : heap.cells <+: heap'.cells) : Pieces (HoldsSlot heap') entries slots own :=
  HoldsSlot.all_kept h fun a ha => Heap.cell_kept hgrows (HoldsSlot.bounds h a ha)

theorem Holds.variant_eq (h : Holds heap held v own) : held.variant = v.variant := by
  cases h <;> rfl

/-! ## Nesting -/

mutual

/-- What is held stands for one value only. -/
theorem Holds.unique : {held : Held ε} → {v w : Value ε} → {own own' : List Nat} →
    Holds heap held v own → Holds heap held w own' → w = v
  | _, _, _, _, _, .value _, h => by cases h; rfl
  | _, _, _, _, _, .object hscope hframe, .object hscope' hframe' => by
    cases hscope.symm.trans hscope'
    rw [hframe.unique hframe']

theorem HoldsFrame.unique : {f : Nat} → {slots others : List (Slot ε)} → {own own' : List Nat} →
    HoldsFrame heap f slots own → HoldsFrame heap f others own' → others = slots
  | _, _, _, _, _, .mk hframe hslots, .mk hframe' hslots' => by
    cases hframe.symm.trans hframe'
    exact HoldsSlot.all_unique hslots hslots'

theorem HoldsSlot.all_unique : {entries : List (String × Nat)} → {slots others : List (Slot ε)} →
    {own own' : List Nat} → Pieces (HoldsSlot heap) entries slots own →
    Pieces (HoldsSlot heap) entries others own' → others = slots
  | _, _, _, _, _, .nil, .nil => rfl
  | _, _, _, _, _, .cons (.mk hslot hheld) hrest, .cons (.mk hslot' hheld') hrest' => by
    cases hslot.symm.trans hslot'
    rw [hheld.unique hheld', HoldsSlot.all_unique hrest hrest']

end

/-- The scopes of objects inside one another, none of which is higher than `height`. -/
structure Tower (heap : Heap ε) (height : Nat) (tower : List Nat) : Prop where
  nodup : tower.Nodup
  objects : ∀ a ∈ tower, ∃ f w own, heap.cells[a]? = some (.scope f []) ∧ Holds heap (.object a) w own ∧
    w.height ≤ height

theorem Tower.higher {height height' : Nat} {tower : List Nat} (h : Tower heap height tower)
    (hle : height ≤ height') : Tower heap height' tower where
  nodup := h.nodup
  objects a ha :=
    let ⟨f, w, own, hscope, hw, hheight⟩ := h.objects a ha
    ⟨f, w, own, hscope, hw, hheight.trans hle⟩

mutual

/-- An object does not stand inside of itself, so that objects inside one another have scopes of their
own. -/
theorem Holds.tower : {held : Held ε} → {v : Value ε} → {own : List Nat} → Holds heap held v own →
    ∃ tower, tower.length = v.height ∧ Tower heap v.height tower
  | _, v, _, .value hv => by
    refine ⟨[], ?_, List.nodup_nil, List.forall_mem_nil _⟩
    cases v with
    | object fields => exact (hv rfl).elim
    | _ => rw [List.length_nil, Value.height]; exact nofun
  | .object a, .object fields, _, .object hscope hframe => by
    obtain ⟨tower, hlength, htower⟩ := hframe.tower
    have hholds := Holds.object hscope hframe
    refine ⟨a :: tower, by rw [List.length_cons, hlength, Value.height], ?_, ?_⟩
    · refine List.nodup_cons.2 ⟨fun hmem => ?_, htower.nodup⟩
      obtain ⟨_, w, _, -, hw, hheight⟩ := htower.objects a hmem
      rw [hholds.unique hw, Value.height] at hheight
      exact Nat.not_succ_le_self _ hheight
    · refine List.forall_mem_cons.2 ⟨⟨_, _, _, hscope, hholds, le_rfl⟩, ?_⟩
      rw [Value.height]
      exact (htower.higher (Nat.le_succ _)).objects

theorem HoldsFrame.tower : {f : Nat} → {slots : List (Slot ε)} → {own : List Nat} →
    HoldsFrame heap f slots own → ∃ tower, tower.length = Value.heightIn slots ∧
      Tower heap (Value.heightIn slots) tower
  | _, _, _, .mk _ hslots => HoldsSlot.all_tower hslots

theorem HoldsSlot.all_tower : {entries : List (String × Nat)} → {slots : List (Slot ε)} →
    {own : List Nat} → Pieces (HoldsSlot heap) entries slots own →
    ∃ tower, tower.length = Value.heightIn slots ∧ Tower heap (Value.heightIn slots) tower
  | _, _, _, .nil => ⟨[], by rw [List.length_nil, Value.heightIn], List.nodup_nil, List.forall_mem_nil _⟩
  | _, ⟨_, _, v⟩ :: rest, _, .cons (.mk _ hheld) hrest => by
    obtain ⟨tower, hlength, htower⟩ := hheld.tower
    obtain ⟨tower', hlength', htower'⟩ := HoldsSlot.all_tower hrest
    rw [Value.heightIn]
    rcases Nat.le_total v.height (Value.heightIn rest) with hle | hle
    · rw [Nat.max_eq_right hle]
      exact ⟨tower', hlength', htower'⟩
    · rw [Nat.max_eq_left hle]
      exact ⟨tower, hlength, htower⟩

end

theorem Tower.bound {height : Nat} {tower : List Nat} (h : Tower heap height tower) :
    ∀ a ∈ tower, a < heap.cells.length := fun a ha =>
  let ⟨_, _, _, hscope, _⟩ := h.objects a ha
  Heap.bound_of_cell hscope

/-- As many objects can stand inside one another as there are cells. -/
theorem Holds.height_le (h : Holds heap held v own) : v.height ≤ heap.cells.length := by
  obtain ⟨tower, hlength, htower⟩ := h.tower
  rw [← hlength]
  exact Heap.length_le htower.bound htower.nodup

/-- The cell of a frame is none of those of the objects in it. -/
theorem HoldsFrame.height_lt (h : HoldsFrame heap f slots own) :
    Value.heightIn slots < heap.cells.length := by
  obtain ⟨tower, hlength, htower⟩ := h.tower
  obtain ⟨hframe, -⟩ := h
  rw [← hlength]
  have hbound : ∀ a ∈ f :: tower, a < heap.cells.length :=
    List.forall_mem_cons.2 ⟨Heap.bound_of_cell hframe, htower.bound⟩
  refine Heap.length_le hbound (List.nodup_cons.2 ⟨fun hmem => ?_, htower.nodup⟩)
  obtain ⟨_, _, _, hscope, _⟩ := htower.objects f hmem
  cases hframe.symm.trans hscope

/-! ## Building -/

mutual

/-- A value that is built stands on new cells. -/
theorem Heap.place_holds (heap : Heap ε) : (v : Value ε) → v.Fresh →
    ∃ own, Heap.Adds heap (heap.place v).2 own ∧ Holds (heap.place v).2 (heap.place v).1 v own
  | .number _, _ | .boolean _, _ | .string _, _ | .null, _ | .function _, _ =>
    ⟨[], .refl heap, .value (by simp [Value.variant])⟩
  | .object fields, hfresh => by
    obtain ⟨own, hadds, hslots⟩ := Heap.placeFields_holds heap fields hfresh.2
    rw [Heap.place]
    generalize heap.placeFields fields = placed at hadds hslots ⊢
    obtain ⟨entries, heap₁⟩ := placed
    have hframe := heap₁.adds_alloc (.frame entries)
    have hscope := (heap₁.alloc (.frame entries)).2.adds_alloc (.scope heap₁.cells.length [])
    have hcell := Heap.cell_grows hscope.grows (heap₁.alloc_cell (.frame entries))
    have hfields := HoldsSlot.all_grow hslots (hframe.grows.trans hscope.grows)
    exact ⟨_, (hadds.trans hframe).trans hscope, .object (Heap.alloc_cell _ _) (.mk hcell hfields)⟩

theorem Heap.placeFields_holds (heap : Heap ε) : (fields : List (Slot ε)) → Value.FreshFields fields →
    ∃ own, Heap.Adds heap (heap.placeFields fields).2 own ∧
      Pieces (HoldsSlot (heap.placeFields fields).2) (heap.placeFields fields).1 fields own
  | [], _ => by
    rw [Heap.placeFields]
    exact ⟨[], .refl heap, .nil⟩
  | ⟨name, isMutable, value⟩ :: rest, hfresh => by
    obtain ⟨own, hadds, hheld⟩ := Heap.place_holds heap value hfresh.1
    rw [Heap.placeFields]
    generalize heap.place value = placed at hadds hheld ⊢
    obtain ⟨held, heap₁⟩ := placed
    have hslot := heap₁.adds_alloc (.slot isMutable held)
    obtain ⟨owns, hadds', hslots⟩ :=
      Heap.placeFields_holds (heap₁.alloc (.slot isMutable held)).2 rest hfresh.2
    have hcell := Heap.cell_grows hadds'.grows (heap₁.alloc_cell (.slot isMutable held))
    have hvalue := hheld.grows (hslot.grows.trans hadds'.grows)
    exact ⟨_, (hadds.trans hslot).trans hadds', .cons (.mk hcell hvalue) hslots⟩

end

/-! ## Reading -/

mutual

/-- What is held is read as the value that it stands for. -/
theorem Holds.read : {held : Held ε} → {v : Value ε} → {own : List Nat} → Holds heap held v own →
    v.Fresh → (depth : Nat) → v.height ≤ depth → held.read (heap.readScope depth) = .ok v
  | _, _, _, .value _, _, _, _ => rfl
  | .object _, .object fields, _, .object hscope hframe, hfresh, depth, hdepth => by
    rw [Value.height] at hdepth
    cases depth with
    | zero => cases hdepth
    | succ depth =>
      have hread := hframe.read hfresh.2 depth (Nat.le_of_succ_le_succ hdepth)
      have hitems : Scope.toObject ⟨fields, []⟩ = .object fields := by
        rw [Scope.toObject, Scope.items_single hfresh.1]
      simp only [Held.read, Heap.readScope, Heap.scope_eq hscope, hread, ← hitems]
      rfl

theorem HoldsFrame.read : {f : Nat} → {slots : List (Slot ε)} → {own : List Nat} →
    HoldsFrame heap f slots own → Value.FreshFields slots → (depth : Nat) → Value.heightIn slots ≤ depth →
    heap.readSlots (Held.read (heap.readScope depth)) (heap.frame f) = .ok slots
  | _, _, _, .mk hframe hslots, hfresh, depth, hdepth => by
    rw [Heap.frame_eq hframe]
    exact HoldsSlot.read_all hslots hfresh depth hdepth

theorem HoldsSlot.read_all : {entries : List (String × Nat)} → {slots : List (Slot ε)} →
    {own : List Nat} → Pieces (HoldsSlot heap) entries slots own → Value.FreshFields slots →
    (depth : Nat) → Value.heightIn slots ≤ depth →
    heap.readSlots (Held.read (heap.readScope depth)) entries = .ok slots
  | _, _, _, .nil, _, _, _ => rfl
  | _, _, _, .cons (.mk hslot hheld) hrest, hfresh, depth, hdepth => by
    have ⟨hfirst, hothers⟩ := Nat.max_le.1 hdepth
    have hvalue := hheld.read hfresh.1 depth hfirst
    have hothers := HoldsSlot.read_all hrest hfresh.2 depth hothers
    simp only [Heap.readSlots, Heap.slot_eq hslot, hvalue, hothers]
    rfl

end

/-! ## Copying -/

mutual

/-- A copy of what is held stands for the same value, on new cells. -/
theorem Holds.clone : {held : Held ε} → {v : Value ε} → {own : List Nat} → Holds heap held v own →
    (depth : Nat) → v.height ≤ depth → {heap₁ : Heap ε} → heap.cells <+: heap₁.cells →
    ∃ copied heap₂ own', held.clone (Heap.copyScope depth) heap₁ = .ok (copied, heap₂) ∧
      heap₁.Adds heap₂ own' ∧ Holds heap₂ copied v own'
  | _, _, _, .value hv, _, _, heap₁, _ => ⟨_, heap₁, [], rfl, .refl heap₁, .value hv⟩
  | _, _, _, .object hscope hframe, depth, hdepth, heap₁, hgrows => by
    rw [Value.height] at hdepth
    cases depth with
    | zero => cases hdepth
    | succ depth =>
      obtain ⟨f, heap₂, own', hcopy, hadds, hcopied⟩ :=
        hframe.copy depth (Nat.le_of_succ_le_succ hdepth) hgrows
      have hnew := heap₂.adds_alloc (.scope f [])
      refine ⟨_, _, _, ?_, hadds.trans hnew, .object (heap₂.alloc_cell _) (hcopied.grows hnew.grows)⟩
      simp only [Held.clone, Heap.copyScope, Heap.scope_eq (Heap.cell_grows hgrows hscope), hcopy]
      rfl

theorem HoldsFrame.copy : {f : Nat} → {slots : List (Slot ε)} → {own : List Nat} →
    HoldsFrame heap f slots own → (depth : Nat) → Value.heightIn slots ≤ depth → {heap₁ : Heap ε} →
    heap.cells <+: heap₁.cells →
    ∃ copied heap₂ own', Heap.copyFrame (Held.clone (Heap.copyScope depth)) f heap₁ = .ok (copied, heap₂) ∧
      heap₁.Adds heap₂ own' ∧ HoldsFrame heap₂ copied slots own'
  | _, _, _, .mk hframe hslots, depth, hdepth, heap₁, hgrows => by
    obtain ⟨entries, heap₂, own', hcopy, hadds, hcopied⟩ := HoldsSlot.copy_all hslots depth hdepth hgrows
    have hnew := heap₂.adds_alloc (.frame entries)
    have hslots' := HoldsSlot.all_grow hcopied hnew.grows
    refine ⟨_, _, _, ?_, hadds.trans hnew, .mk (heap₂.alloc_cell _) hslots'⟩
    simp only [Heap.copyFrame, Heap.frame_eq (Heap.cell_grows hgrows hframe), hcopy]
    rfl

theorem HoldsSlot.copy_all : {entries : List (String × Nat)} → {slots : List (Slot ε)} →
    {own : List Nat} → Pieces (HoldsSlot heap) entries slots own → (depth : Nat) →
    Value.heightIn slots ≤ depth → {heap₁ : Heap ε} → heap.cells <+: heap₁.cells →
    ∃ copied heap₂ own',
      Heap.copySlots (Held.clone (Heap.copyScope depth)) entries heap₁ = .ok (copied, heap₂) ∧
      heap₁.Adds heap₂ own' ∧ Pieces (HoldsSlot heap₂) copied slots own'
  | _, _, _, .nil, _, _, heap₁, _ => ⟨[], heap₁, [], rfl, .refl heap₁, .nil⟩
  | _, ⟨_, isMutable, _⟩ :: _, _, .cons (.mk hslot hheld) hrest, depth, hdepth, heap₁, hgrows => by
    have ⟨hfirst, hothers⟩ := Nat.max_le.1 hdepth
    obtain ⟨held, mid, own', hclone, hadds, hcopied⟩ := hheld.clone depth hfirst hgrows
    have hnew := mid.adds_alloc (.slot isMutable held)
    obtain ⟨entries, heap₂, owns', hcopy, hadds', hcopied'⟩ := HoldsSlot.copy_all hrest depth hothers
      ((hgrows.trans hadds.grows).trans hnew.grows)
    have hcell := Heap.cell_grows hadds'.grows (mid.alloc_cell (.slot isMutable held))
    have hvalue := hcopied.grows (hnew.grows.trans hadds'.grows)
    refine ⟨_, heap₂, _, ?_, (hadds.trans hnew).trans hadds', .cons (.mk hcell hvalue) hcopied'⟩
    simp only [Heap.copySlots, Heap.slot_eq (Heap.cell_grows hgrows hslot), hclone, bind, Except.bind,
      Heap.alloc] at hcopy ⊢
    rw [hcopy]

end

/-- Copies of frames have their slots, each on new cells of its own. -/
theorem HoldsFrame.copy_all {depth : Nat} {place : Nat → Nat} {frame : Nat → List (Slot ε)}
    {ids : List Nat} (hframes : ∀ i ∈ ids, ∃ own, HoldsFrame heap (place i) (frame i) own)
    (hdepth : ∀ i ∈ ids, Value.heightIn (frame i) ≤ depth) {heap₁ : Heap ε} (hgrows : heap.cells <+: heap₁.cells) :
    ∃ copied heap₂ own',
      Heap.copyFrames (Held.clone (Heap.copyScope depth)) (ids.map place) heap₁ = .ok (copied, heap₂) ∧
      heap₁.Adds heap₂ own' ∧ Pieces (HoldsFrame heap₂) copied (ids.map frame) own' := by
  induction ids generalizing heap₁ with
  | nil => exact ⟨[], heap₁, [], rfl, .refl heap₁, .nil⟩
  | cons i rest ih =>
    rw [List.forall_mem_cons] at hframes hdepth
    obtain ⟨⟨own, hfirst⟩, hrest⟩ := hframes
    obtain ⟨f, mid, own', hcopy, hadds, hcopied⟩ := hfirst.copy depth hdepth.1 hgrows
    obtain ⟨copied, heap₂, owns', hcopies, hadds', hcopied'⟩ := ih hrest hdepth.2 (hgrows.trans hadds.grows)
    refine ⟨_, heap₂, _, ?_, hadds.trans hadds', .cons (hcopied.grows hadds'.grows) hcopied'⟩
    rw [List.map_cons, Heap.copyFrames, hcopy]
    simp only [bind, Except.bind] at hcopies ⊢
    rw [hcopies]

theorem HoldsSlot.bound {entry : String × Nat} {slot : Slot ε} (h : HoldsSlot heap entry slot own) :
    ∀ a ∈ own, a < heap.cells.length := by
  cases h with
  | mk hslot hheld =>
    rw [List.forall_mem_append, List.forall_mem_singleton]
    exact ⟨hheld.bound, Heap.bound_of_cell hslot⟩

theorem HoldsSlot.kept {entry : String × Nat} {slot : Slot ε} (h : HoldsSlot heap entry slot own)
    (hkept : ∀ a ∈ own, heap'.cells[a]? = heap.cells[a]?) : HoldsSlot heap' entry slot own := by
  cases h with
  | mk hslot hheld =>
    rw [List.forall_mem_append, List.forall_mem_singleton] at hkept
    exact .mk (hkept.2.trans hslot) (hheld.kept hkept.1)

end Footprint

/-! ## Changing -/

namespace Heap

variable {heap heap' : Heap ε} {built own own' : List Nat} {a : Nat} {cell cell' : Cell ε}

/-- A change inside a footprint: it may take in cells that have been built for it, and leaves all cells
elsewhere and all scopes as they are. -/
structure Changes (heap heap' : Heap ε) (built own own' : List Nat) : Prop where
  elsewhere : ∀ a < heap.cells.length, a ∉ own → heap'.cells[a]? = heap.cells[a]?
  scopes : ∀ (a top : Nat) (outer : List Nat), heap.cells[a]? = some (.scope top outer) →
    heap'.cells[a]? = some (.scope top outer)
  mem : ∀ a ∈ own', a ∈ own ∨ a ∈ built
  nodup : own'.Nodup

/-- A change inside a footprint is one inside a larger footprint. -/
theorem Changes.around (h : Changes heap heap' built own own') (left right : List Nat)
    (hapart : ((left ++ own ++ right) ++ built).Nodup) :
    Changes heap heap' built (left ++ own ++ right) (left ++ own' ++ right) where
  elsewhere a ha hown := by
    rw [List.mem_append, List.mem_append, not_or, not_or] at hown
    exact h.elsewhere a ha hown.1.2
  scopes := h.scopes
  mem a ha := by
    rw [List.mem_append, List.mem_append] at ha ⊢
    rcases ha with (ha | ha) | ha
    · exact .inl (.inl (.inl ha))
    · exact (h.mem a ha).imp_left fun ha => .inl (.inr ha)
    · exact .inl (.inr ha)
  nodup := by
    have hmem := h.mem
    have hnodup := h.nodup
    simp only [List.nodup_append, List.mem_append] at hapart ⊢
    grind

/-- What stands elsewhere is kept. -/
theorem Changes.kept (h : Changes heap heap' built own own') {others : List Nat}
    (hbound : ∀ a ∈ others, a < heap.cells.length) (hapart : ∀ a ∈ others, a ∉ own) :
    ∀ a ∈ others, heap'.cells[a]? = heap.cells[a]? :=
  fun a ha => h.elsewhere a (hbound a ha) (hapart a ha)

theorem write_cell (cell' : Cell ε) (h : heap.cells[a]? = some cell) :
    (heap.write a cell').cells[a]? = some cell' :=
  List.getElem?_set_self (bound_of_cell h)

theorem write_other (cell' : Cell ε) {b : Nat} (h : b ≠ a) :
    (heap.write a cell').cells[b]? = heap.cells[b]? :=
  List.getElem?_set_ne h.symm

end Heap

section Changing

variable {heap heap' : Heap ε} {built own : List Nat} {entries : List (String × Nat)}
  {slots : List (Slot ε)} {f : Nat}

/-- A relation that a heap has by what stands in the footprint. -/
structure Heap.Footed {α β : Type} (R : Heap ε → α → β → List Nat → Prop) : Prop where
  bound : ∀ {heap : Heap ε} {a : α} {b : β} {own : List Nat}, R heap a b own →
    ∀ x ∈ own, x < heap.cells.length
  kept : ∀ {heap heap' : Heap ε} {a : α} {b : β} {own : List Nat}, R heap a b own →
    (∀ x ∈ own, heap'.cells[x]? = heap.cells[x]?) → R heap' a b own

theorem HoldsSlot.footed : Heap.Footed (HoldsSlot (ε := ε)) := ⟨HoldsSlot.bound, HoldsSlot.kept⟩

theorem HoldsFrame.footed : Heap.Footed (HoldsFrame (ε := ε)) := ⟨HoldsFrame.bound, HoldsFrame.kept⟩

namespace Heap.Footed

variable {α β : Type} {R : Heap ε → α → β → List Nat → Prop} {as : List α} {bs : List β}

theorem pieces (hR : Footed R) : Footed fun heap => Pieces (R heap) where
  bound h := by
    induction h with
    | nil => exact List.forall_mem_nil _
    | cons hfirst _ ih => exact List.forall_mem_append.2 ⟨hR.bound hfirst, ih⟩
  kept h hkept := h.imp fun _ _ _ hown hpiece => hR.kept hpiece fun x hx => hkept x (hown x hx)

/-- A member may be changed inside its part of the footprint. -/
theorem change (hR : Footed R) (h : Pieces (R heap) as bs own) (hapart : (own ++ built).Nodup)
    {i : Nat} {b : β} (hb : bs[i]? = some b) :
    ∃ a part, as[i]? = some a ∧ R heap a b part ∧ (part ++ built).Nodup ∧
      ∀ heap' b' part', R heap' a b' part' → Changes heap heap' built part part' →
        ∃ own', Pieces (R heap') as (bs.set i b') own' ∧ Changes heap heap' built own own' := by
  induction h generalizing i with
  | nil => cases hb
  | @cons a _ as bs part owns hfirst hrest ih =>
    have hnodup := (List.nodup_append.1 (List.nodup_append.1 hapart).1).2.2
    cases i with
    | zero =>
      obtain rfl := Option.some.inj hb
      refine ⟨a, part, rfl, hfirst, ?_, fun heap' b' part' hpiece hchanges => ?_⟩
      · exact hapart.sublist ((List.sublist_append_left _ _).append_right _)
      · have hothers := hR.pieces.kept hrest (hchanges.kept (hR.pieces.bound hrest)
          fun x hx hpart => hnodup x hpart x hx rfl)
        exact ⟨part' ++ owns, .cons hpiece hothers, by simpa using hchanges.around [] owns hapart⟩
    | succ i =>
      obtain ⟨a', part', ha, hpiece, hpart, hchange⟩ :=
        ih (hapart.sublist ((List.sublist_append_right _ _).append_right _)) (i := i) hb
      refine ⟨a', part', ha, hpiece, hpart, fun heap' b' part'' hpiece' hchanges => ?_⟩
      obtain ⟨own', hpieces, hchanges'⟩ := hchange heap' b' part'' hpiece' hchanges
      have hkept := hR.kept hfirst (hchanges'.kept (hR.bound hfirst)
        fun x hx howns => hnodup x hx x howns rfl)
      refine ⟨part ++ own', .cons hkept hpieces, ?_⟩
      simpa using hchanges'.around part [] (by simpa using hapart)

end Heap.Footed

/-- Looking a name up in a frame leads to the slot that has it. -/
theorem HoldsSlot.lookup (h : Pieces (HoldsSlot heap) entries slots own) (name : String) :
    (Fields.find? name slots = none ∧ entries.lookup name = none) ∨
    ∃ i slot a, slots[i]? = some slot ∧ entries[i]? = some (name, a) ∧
      Fields.find? name slots = some slot ∧ entries.lookup name = some a ∧
      ∀ changed : Slot ε, changed.name = name → Fields.put changed slots = slots.set i changed := by
  induction h with
  | nil => exact .inl ⟨rfl, rfl⟩
  | @cons entry slot entries slots _ _ hfirst _ ih =>
    obtain @⟨first, a, isMutable, _, v, _, _, _⟩ := hfirst
    by_cases hname : first = name
    · subst hname
      refine .inr ⟨0, _, a, rfl, rfl, ?_, ?_, fun changed hchanged => ?_⟩
      · simp [Fields.find?]
      · exact List.lookup_cons_self
      · simp [Fields.put, hchanged]
    · have hne : (first == name) = false := by simpa using hname
      have hne' : (name == first) = false := by simpa using Ne.symm hname
      rcases ih with ⟨hfind, hlookup⟩ | ⟨i, slot, a', hslot, hentry, hfind, hlookup, hput⟩
      · refine .inl ⟨?_, ?_⟩
        · rw [Fields.find?, List.find?_cons, hne]
          exact hfind
        · rw [List.lookup_cons, hne', hlookup]
      · refine .inr ⟨i + 1, slot, a', hslot, hentry, ?_, ?_, fun changed hchanged => ?_⟩
        · rw [Fields.find?, List.find?_cons, hne]
          exact hfind
        · rw [List.lookup_cons, hne', hlookup]
        · rw [Fields.put, if_neg (by simpa [hchanged] using hname), hput changed hchanged,
            List.set_cons_succ]

/-- A frame has an entry for a name that has a slot. -/
theorem HoldsFrame.lookup (h : HoldsFrame heap f slots own) (name : String) :
    (Fields.find? name slots = none ∧ (heap.frame f).lookup name = none) ∨
    ∃ slot a, Fields.find? name slots = some slot ∧ (heap.frame f).lookup name = some a := by
  cases h with
  | mk hframe hslots =>
    rw [Heap.frame_eq hframe]
    refine (HoldsSlot.lookup hslots name).imp_right ?_
    rintro ⟨_, slot, a, _, _, hfind, hlookup, _⟩
    exact ⟨slot, a, hfind, hlookup⟩

/-- The slot of a name in a frame may be changed inside its part of the footprint. -/
theorem HoldsFrame.find (h : HoldsFrame heap f slots own) (hapart : (own ++ built).Nodup)
    (name : String) :
    (Fields.find? name slots = none ∧ (heap.frame f).lookup name = none) ∨
    ∃ slot a part, Fields.find? name slots = some slot ∧ (heap.frame f).lookup name = some a ∧
      HoldsSlot heap (name, a) slot part ∧ (part ++ built).Nodup ∧
      ∀ heap' changed part', changed.name = name → HoldsSlot heap' (name, a) changed part' →
        Heap.Changes heap heap' built part part' →
        ∃ own', HoldsFrame heap' f (Fields.put changed slots) own' ∧
          Heap.Changes heap heap' built own own' := by
  cases h with
  | @mk _ entries _ own hframe hslots =>
    rw [Heap.frame_eq hframe]
    refine (HoldsSlot.lookup hslots name).imp_right ?_
    rintro ⟨i, slot, a, hslot, hentry, hfind, hlookup, hput⟩
    obtain ⟨_, part, hentry', hpiece, hpart, hchange⟩ := HoldsSlot.footed.change hslots
      (hapart.sublist ((List.sublist_append_left _ _).append_right _)) hslot
    obtain rfl := Option.some.inj (hentry.symm.trans hentry')
    refine ⟨slot, a, part, hfind, hlookup, hpiece, hpart, fun heap' changed part' hname hnew hchanges => ?_⟩
    obtain ⟨own', hslots', hchanges'⟩ := hchange heap' changed part' hnew hchanges
    have hf : f ∉ own := fun hmem =>
      (List.nodup_append.1 (List.nodup_append.1 hapart).1).2.2 f hmem f (List.mem_singleton_self f) rfl
    have hkept := (hchanges'.elsewhere f (Heap.bound_of_cell hframe) hf).trans hframe
    refine ⟨own' ++ [f], .mk hkept (hput changed hname ▸ hslots'), ?_⟩
    exact hchanges'.around [] [f] hapart

end Changing

/-! ## Walks -/

section Walking

variable {heap : Heap ε} {built own : List Nat} {name : String} {a : Nat} {slot : Slot ε}

/-- A walk through a tree, and the same walk through a heap.  Both fail alike, or they come to a slot that
may be changed inside its part of the footprint: `modify` says what a change of the slot makes of the tree,
and `holds` what the changed tree stands on. -/
inductive Walks {α : Type} (heap : Heap ε) (built own : List Nat)
    (modify : (Slot ε → Except Failure (Slot ε)) → Except Failure α)
    (holds : Heap ε → α → List Nat → Prop) : Except Cause (Slot ε) → Except Cause Nat → Prop
  | fails (cause : Cause) : (∀ f, modify f = .error (.error cause)) →
    Walks heap built own modify holds (.error cause) (.error cause)
  | finds {slot : Slot ε} {a : Nat} {part : List Nat} :
    HoldsSlot heap (slot.name, a) slot part → (part ++ built).Nodup →
    (∀ f failure, f slot = .error failure → modify f = .error failure) →
    (∀ f changed, f slot = .ok changed → changed.name = slot.name → ∃ tree, modify f = .ok tree ∧
      ∀ heap' part', HoldsSlot heap' (slot.name, a) changed part' → heap.Changes heap' built part part' →
        ∃ own', holds heap' tree own' ∧ heap.Changes heap' built own own') →
    Walks heap built own modify holds (.ok slot) (.ok a)

/-- The entry of a name stands for a slot of that name. -/
def HoldsNamed (name : String) (a : Nat) (heap : Heap ε) (slot : Slot ε) (own : List Nat) : Prop :=
  slot.name = name ∧ HoldsSlot heap (name, a) slot own

/-- A change along the steps that begins at a field. -/
theorem Slot.modify_from_field {store : Store ε} {f : Slot ε → Except Failure (Slot ε)} {field : Slot ε}
    {fields : List (Slot ε)} {n : String} {rest : List Step} (hvalue : slot.value = .object fields)
    (hfind : Fields.find? n fields = some field) :
    slot.modify store f (.name n :: rest) = (field.modify store f rest).map fun change =>
      match change with
      | .slot changed => .slot { slot with value := .object (Fields.put changed fields) }
      | .store changed => .store changed := by
  simp only [modify, hvalue, Step.follow, hfind, mapError_ok, bind, Except.bind]
  cases field.modify store f rest with
  | error failure => rfl
  | ok change => cases change <;> rfl

/-- A walk in a part of a tree is a walk in the whole, where the changed part is put in its place. -/
theorem Walks.within {α β : Type} {part : List Nat} {tree : Except Cause (Slot ε)} {found : Except Cause Nat}
    {modify : (Slot ε → Except Failure (Slot ε)) → Except Failure α}
    {modifyWhole : (Slot ε → Except Failure (Slot ε)) → Except Failure β} {put : α → β}
    {holds : Heap ε → α → List Nat → Prop} {holdsWhole : Heap ε → β → List Nat → Prop}
    (h : Walks heap built part modify holds tree found) (hput : ∀ f, modifyWhole f = (modify f).map put)
    (hwhole : ∀ heap' change part', holds heap' change part' → heap.Changes heap' built part part' →
      ∃ own', holdsWhole heap' (put change) own' ∧ heap.Changes heap' built own own') :
    Walks heap built own modifyWhole holdsWhole tree found := by
  cases h with
  | fails cause hfails => exact .fails cause fun f => by rw [hput, hfails]; rfl
  | finds htarget hapart hfails hchanges =>
    refine .finds htarget hapart ?_ fun f changed hf hname => ?_
    · intro f failure hf
      rw [hput, hfails f failure hf]
      rfl
    · obtain ⟨change, htree, hafter⟩ := hchanges f changed hf hname
      refine ⟨put change, by rw [hput, htree]; rfl, fun heap' part' hnew hnew' => ?_⟩
      obtain ⟨part'', hpart, hchanges'⟩ := hafter heap' part' hnew hnew'
      exact hwhole heap' change part'' hpart hchanges'

/-- The steps from a slot on lead to the same slot in the heap as in the tree. -/
theorem HoldsSlot.walk (h : HoldsSlot heap (name, a) slot own) (hapart : (own ++ built).Nodup)
    (steps : List Step) :
    Walks heap built own (fun f => slot.modify .empty f steps)
      (fun heap' change own' => ∃ changed, change = .slot changed ∧ HoldsNamed name a heap' changed own')
      (slot.resolve .empty steps) (heap.walk steps a) := by
  induction steps generalizing name a slot own with
  | nil =>
    obtain rfl : slot.name = name := by cases h; rfl
    refine .finds h hapart ?_ fun f changed hf hname => ⟨.slot changed, ?_, ?_⟩
    · intro f failure hf
      rw [Slot.modify, hf]
      rfl
    · rw [Slot.modify, hf]
      rfl
    · exact fun heap' part' hnew hchanges => ⟨part', ⟨changed, rfl, hname, hnew⟩, hchanges⟩
  | cons step rest ih =>
    cases h with
    | @mk _ _ isMutable old w own hslot hold =>
      cases hold with
      | value hw =>
        rw [Slot.resolve, Heap.walk, Heap.slot_eq hslot]
        cases w with
        | object fields => exact (hw rfl).elim
        | shared holder place => exact (hw rfl).elim
        | _ => exact .fails .notObject fun _ => rfl
      | @object o f fields own hscope hframe =>
        have hlookup (n : String) : heap.find? o n = (heap.frame f).lookup n := by
          rw [Heap.find?, Heap.scope_eq hscope]
          exact List.findSome?_singleton
        have hown : (own ++ built).Nodup := by
          refine hapart.sublist (List.Sublist.append_right ?_ _)
          rw [List.append_assoc]
          exact List.sublist_append_left _ _
        cases step with
        | other text =>
          rw [Slot.resolve, Heap.walk, Heap.slot_eq hslot]
          exact .fails (.notLvalue text) fun _ => rfl
        | name n =>
          rcases hframe.find hown n with
            ⟨hnone, hnone'⟩ | ⟨field, b, part, hfind, hfound, hfield, hpart, hchange⟩
          · simp only [Slot.resolve, Value.fields?, Heap.walk, Heap.slot_eq hslot, Step.follow, hnone,
              hlookup, hnone']
            refine .fails (.unbound n) fun f => ?_
            rw [Slot.modify]
            simp only [Step.follow, hnone]
            rfl
          · have hwalk : heap.walk (.name n :: rest) a = heap.walk rest b := by
              simp only [Heap.walk, Heap.slot_eq hslot, Step.follow, hlookup, hfound]
              rfl
            have hresolve : (Slot.mk name isMutable (.object fields)).resolve .empty (.name n :: rest) =
                field.resolve .empty rest := by
              simp only [Slot.resolve, Value.fields?, Step.follow, hfind]
              rfl
            rw [hwalk, hresolve]
            refine (ih hfield hpart).within (fun _ => Slot.modify_from_field rfl hfind) ?_
            rintro heap' _ part' ⟨field', rfl, hname', hfield'⟩ hkept
            obtain ⟨own', hframe', hchanges'⟩ := hchange heap' field' part' hname' hfield' hkept
            have hnodup := (List.nodup_append.1 hapart).1
            have ha : a ∉ own := fun hmem =>
              (List.nodup_append.1 hnodup).2.2 a (List.mem_append_left _ hmem) a (by simp) rfl
            have hobject : Holds heap' (.object o) (.object (Fields.put field' fields)) (own' ++ [o]) :=
              .object (hchanges'.scopes o f [] hscope) hframe'
            have hcell := (hchanges'.elsewhere a (Heap.bound_of_cell hslot) ha).trans hslot
            refine ⟨_, ⟨_, rfl, rfl, .mk hcell hobject⟩, ?_⟩
            simpa using hchanges'.around [] [o, a] (by simpa using hapart)

end Walking

/-! ## Assignments -/

section Assigning

variable {heap heap' : Heap ε} {built own : List Nat} {held : Held ε} {v : Value ε} {name : String} {a : Nat}
  {slot : Slot ε}

/-- Only a variable gets a new value. -/
theorem Heap.setValue_eq (h : heap.setValue held a = .ok heap') :
    (∃ old, heap.cells[a]? = some (.slot true old)) ∧ heap' = heap.write a (.slot true held) := by
  rw [setValue] at h
  cases hslot : heap.slot a with | mk isMutable old
  simp only [hslot] at h
  split at h
  · exact nomatch h
  · cases isMutable with
    | false => exact nomatch h
    | true =>
      refine ⟨⟨old, ?_⟩, (Except.ok.inj h).symm⟩
      rw [slot] at hslot
      split at hslot
      · next hcell => exact hcell.trans (by rw [(Prod.mk.inj hslot).1, (Prod.mk.inj hslot).2])
      · exact nomatch (Prod.mk.inj hslot).1

/-- A change of a tree and a change of a heap: both fail alike, or the changed tree stands on what `holds`
says. -/
inductive Alters {α : Type} (heap : Heap ε) (built own : List Nat) (holds : Heap ε → α → List Nat → Prop) :
    Except Failure α → Except Failure (Heap ε) → Prop
  | fails (failure : Failure) : Alters heap built own holds (.error failure) (.error failure)
  | changes {tree : α} {heap' : Heap ε} {own' : List Nat} : holds heap' tree own' →
    heap.Changes heap' built own own' → Alters heap built own holds (.ok tree) (.ok heap')

/-- A change may leave what has been built for it. -/
theorem Alters.unused {α : Type} {holds : Heap ε → α → List Nat → Prop} {tree : Except Failure α}
    {after : Except Failure (Heap ε)} (h : Alters heap [] own holds tree after) :
    Alters heap built own holds tree after := by
  cases h with
  | fails failure => exact .fails failure
  | changes hnew hkept =>
    exact .changes hnew ⟨hkept.elsewhere, hkept.scopes,
      fun a ha => (hkept.mem a ha).imp_right (nomatch ·), hkept.nodup⟩

/-- A slot that is assigned to takes in what has been built for it. -/
theorem HoldsSlot.setValue (h : HoldsSlot heap (name, a) slot own) (hheld : Holds heap held v built)
    (hapart : (own ++ built).Nodup) :
    Alters heap built own (HoldsNamed name a) ((slot.assign v).mapError .error)
      ((heap.setValue held a).mapError .error) := by
  cases h with
  | @mk _ _ isMutable old w own hslot hold =>
    have hsame : Value.sameType w v = (old.variant == held.variant) := by
      rw [hold.variant_eq, hheld.variant_eq]
      rfl
    rw [Slot.assign, Heap.setValue, Heap.slot_eq hslot, hsame]
    dsimp only
    cases old.variant == held.variant with
    | false => exact .fails (.error .typeMismatch)
    | true =>
      cases isMutable with
      | false => exact .fails (.error .constantBinding)
      | true =>
        have ha : a ∉ built := fun hmem => (List.nodup_append.1 hapart).2.2 a (by simp) a hmem rfl
        have hbuilt := (List.nodup_append.1 hapart).2.1
        have hvalue : Holds (heap.write a (.slot true held)) held v built :=
          hheld.kept fun b hb => Heap.write_other _ fun he => ha (he ▸ hb)
        have hnew : HoldsSlot (heap.write a (.slot true held)) (name, a) ⟨name, true, v⟩ (built ++ [a]) :=
          .mk (Heap.write_cell _ hslot) hvalue
        refine .changes ⟨rfl, hnew⟩ ⟨?_, ?_, ?_, ?_⟩
        · exact fun b _ hb => Heap.write_other _ fun he => hb (he ▸ by simp)
        · intro b top outer hscope
          refine (Heap.write_other _ fun he => ?_).trans hscope
          rw [he, hslot] at hscope
          cases hscope
        · intro b hb
          exact (List.mem_append.1 hb).symm.imp_left (List.mem_append_right _)
        · exact (List.perm_append_singleton a built).nodup_iff.2 (List.nodup_cons.2 ⟨ha, hbuilt⟩)

/-- A change at the end of a walk is a change of the whole. -/
theorem Walks.alter {α : Type} {modify : (Slot ε → Except Failure (Slot ε)) → Except Failure α}
    {holds : Heap ε → α → List Nat → Prop} {tree : Except Cause (Slot ε)} {found : Except Cause Nat}
    (h : Walks heap built own modify holds tree found) {f : Slot ε → Except Failure (Slot ε)}
    {g : Nat → Except Failure (Heap ε)}
    (hf : ∀ slot a part, HoldsSlot heap (slot.name, a) slot part → (part ++ built).Nodup →
      Alters heap built part (HoldsNamed slot.name a) (f slot) (g a)) :
    Alters heap built own holds (modify f) (found.mapError .error >>= g) := by
  cases h with
  | fails cause hfails =>
    rw [hfails]
    exact .fails (.error cause)
  | @finds slot a part hslot hpart hfails hchanges =>
    have halters := hf slot a part hslot hpart
    show Alters heap built own holds (modify f) (g a)
    generalize hafter : f slot = after at halters
    generalize g a = heap' at halters ⊢
    cases halters with
    | fails failure =>
      rw [hfails f failure hafter]
      exact .fails failure
    | changes hnew hkept =>
      obtain ⟨tree, htree, hwhole⟩ := hchanges f _ hafter hnew.1
      obtain ⟨own', hholds, hkept'⟩ := hwhole _ _ hnew.2 hkept
      rw [htree]
      exact .changes hholds hkept'

end Assigning

/-! ## Definitions -/

section Defining

variable {heap : Heap ε} {built own : List Nat} {held : Held ε} {v : Value ε} {entries : List (String × Nat)}
  {slots : List (Slot ε)} {f : Nat}

/-- A slot that is put into a frame takes the place of the one of its name, or comes last. -/
theorem HoldsSlot.put {name : String} {a : Nat} {slot : Slot ε}
    (h : Pieces (HoldsSlot heap) entries slots own) (hslot : HoldsSlot heap (name, a) slot built)
    (hapart : (own ++ built).Nodup) :
    ∃ own', Pieces (HoldsSlot heap) (Heap.putEntry name a entries) (Fields.put slot slots) own' ∧
      own'.Nodup ∧ ∀ x ∈ own', x ∈ own ∨ x ∈ built := by
  have hname : slot.name = name := by cases hslot; rfl
  induction h with
  | nil =>
    refine ⟨built ++ [], .cons hslot .nil, ?_, fun x hx => .inr (by simpa using hx)⟩
    rw [List.append_nil]
    exact (List.nodup_append.1 hapart).2.1
  | @cons entry first entries slots part owns hfirst hrest ih =>
    have hsame : entry.1 = first.name := by cases hfirst; rfl
    have hrest' := hapart.sublist ((List.sublist_append_right part owns).append_right built)
    rw [Heap.putEntry, Fields.put, hsame, hname]
    split
    · refine ⟨built ++ owns, .cons hslot hrest, ?_, ?_⟩
      · exact (List.perm_append_comm.nodup_iff).1 hrest'
      · intro x hx
        exact (List.mem_append.1 hx).symm.imp_left (List.mem_append_right _)
    · obtain ⟨own', hpieces, hnodup, hmem⟩ := ih hrest'
      refine ⟨part ++ own', .cons hfirst hpieces, ?_, ?_⟩
      · simp only [List.nodup_append, List.mem_append] at hapart ⊢
        grind
      · intro x hx
        rw [List.mem_append] at hx ⊢
        rcases hx with hx | hx
        · exact .inl (.inl hx)
        · exact (hmem x hx).imp_left .inr

section Setting

variable {scope : Nat} (hscope : (heap.scope scope).1 = f) (hframe : heap.cells[f]? = some (.frame entries))
  (name : String) (isMutable : Bool) (held : Held ε)

include hscope hframe

theorem Heap.set_eq_write : heap.set scope name isMutable held =
    (heap.alloc (.slot isMutable held)).2.write f
      (.frame (Heap.putEntry name heap.cells.length entries)) := by
  have hframe' := Heap.cell_grows (heap.adds_alloc (.slot isMutable held)).grows hframe
  rw [Heap.set, hscope]
  show Heap.write _ f (.frame (Heap.putEntry name _ ((heap.alloc (.slot isMutable held)).2.frame f))) = _
  rw [Heap.frame_eq hframe']
  rfl

/-- The frame names the new slot. -/
theorem Heap.set_cell_frame : (heap.set scope name isMutable held).cells[f]? =
    some (.frame (Heap.putEntry name heap.cells.length entries)) := by
  rw [Heap.set_eq_write hscope hframe]
  exact Heap.write_cell _ (Heap.cell_grows (heap.adds_alloc _).grows hframe)

/-- The new slot stands behind all cells. -/
theorem Heap.set_cell_slot : (heap.set scope name isMutable held).cells[heap.cells.length]? =
    some (.slot isMutable held) := by
  rw [Heap.set_eq_write hscope hframe, Heap.write_other _ (Nat.ne_of_gt (Heap.bound_of_cell hframe))]
  exact heap.alloc_cell _

theorem Heap.set_cell_other {a : Nat} (ha : a < heap.cells.length) (hne : a ≠ f) :
    (heap.set scope name isMutable held).cells[a]? = heap.cells[a]? := by
  rw [Heap.set_eq_write hscope hframe, Heap.write_other _ hne,
    Heap.cell_kept (heap.adds_alloc _).grows ha]

end Setting

/-- The top frame takes a new slot in. -/
theorem HoldsFrame.set (h : HoldsFrame heap f slots own) (hheld : Holds heap held v built)
    (hapart : (own ++ built).Nodup) {scope : Nat} (hscope : (heap.scope scope).1 = f) (name : String)
    (isMutable : Bool) :
    ∃ own', HoldsFrame (heap.set scope name isMutable held) f (Fields.put ⟨name, isMutable, v⟩ slots) own' ∧
      heap.Changes (heap.set scope name isMutable held) (built ++ [heap.cells.length]) own own' := by
  have hbound := h.bound
  have hfresh : heap.cells.length ∉ built := fun hmem => Nat.lt_irrefl _ (hheld.bound _ hmem)
  cases h with
  | @mk _ entries _ own hframe hslots =>
    have hother {a : Nat} : a < heap.cells.length → a ≠ f →
        (heap.set scope name isMutable held).cells[a]? = heap.cells[a]? :=
      Heap.set_cell_other hscope hframe name isMutable held
    have hf : f < heap.cells.length := Heap.bound_of_cell hframe
    have hnodup : ((own ++ [f]) ++ (built ++ [heap.cells.length])).Nodup := by
      rw [← List.append_assoc]
      refine (List.perm_append_singleton _ _).nodup_iff.2 (List.nodup_cons.2 ⟨?_, hapart⟩)
      rw [List.mem_append, not_or]
      exact ⟨fun hmem => Nat.lt_irrefl _ (hbound _ hmem), hfresh⟩
    have hown : f ∉ own ∧ f ∉ built := by
      simp only [List.nodup_append, List.mem_append, List.mem_singleton] at hapart
      grind
    have hslots' := HoldsSlot.all_kept hslots fun a ha =>
      hother (HoldsSlot.bounds hslots a ha) fun he => hown.1 (he ▸ ha)
    have hvalue := hheld.kept fun a ha => hother (hheld.bound a ha) fun he => hown.2 (he ▸ ha)
    obtain ⟨own', hpieces, hnodup', hmem⟩ := HoldsSlot.put hslots'
      (.mk (Heap.set_cell_slot hscope hframe name isMutable held) hvalue)
      (hnodup.sublist ((List.sublist_append_left own [f]).append_right _))
    refine ⟨own' ++ [f], .mk (Heap.set_cell_frame hscope hframe name isMutable held) hpieces,
      ?_, ?_, ?_, ?_⟩
    · exact fun a ha hmem => hother ha fun he => hmem (he ▸ by simp)
    · intro a top outer hcell
      refine (hother (Heap.bound_of_cell hcell) fun he => ?_).trans hcell
      rw [he, hframe] at hcell
      cases hcell
    · intro a ha
      rw [List.mem_append] at ha ⊢
      rcases ha with ha | ha
      · exact (hmem a ha).imp_left .inl
      · exact .inl (.inr ha)
    · refine (List.perm_append_singleton _ _).nodup_iff.2 (List.nodup_cons.2 ⟨fun hmem' => ?_, hnodup'⟩)
      rcases hmem f hmem' with hmem' | hmem'
      · exact hown.1 hmem'
      · rcases List.mem_append.1 hmem' with hmem' | hmem'
        · exact hown.2 hmem'
        · exact Nat.ne_of_lt hf (List.mem_singleton.1 hmem')

end Defining

end Scriptlet
