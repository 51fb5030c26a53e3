import Scriptlet.Proofs.Footprints
import Scriptlet.Proofs.ScopeFamilies

/-!
# Scopes in a heap

Scopes in a heap show what a family of scopes shows that goes through the same operations.  Each frame of
the family stands at an address of the heap, on cells of its own (`Mirrors`), and every operation with a
fresh value keeps it so.  Hence copies in the heap have nothing in common with the original, down to the
fields of objects inside objects, and nested scopes have the frames of the scope around them.
-/

namespace Scriptlet

set_option autoImplicit false

variable {ε : Type}

namespace Scopes

open Family (line)

/-- The scopes after an operation.  One that fails changes nothing. -/
def apply (s : Scopes ε) : Family.Operation ε → Scopes ε
  | .define h slot => (s.define h slot).toOption.getD s
  | .set h slot => (s.set h slot).toOption.getD s
  | .assign h path v => (s.assign h path v).toOption.getD s
  | .nest h => s.nest h
  | .copy h => (s.copy h).toOption.getD s

/-- The scopes after a sequence of operations. -/
def after (s : Scopes ε) (ops : List (Family.Operation ε)) : Scopes ε :=
  ops.foldl apply s

/-- A scope is another one, or is nested in it by one or more steps: its frames go on with those of
the other. -/
def Descends (s : Scopes ε) (d c : Nat) : Prop :=
  ∃ a b, s.handles[d]? = some a ∧ s.handles[c]? = some b ∧
    line (s.heap.scope b) <:+ line (s.heap.scope a)

/-! ## Mirroring a family -/

/-- The address of a frame of a family, given the addresses of all its frames. -/
def spot (places : List Nat) (i : Nat) : Nat :=
  places.getD i 0

/-- The frames of a family stand at some places in the heap, each on cells of its own, and the scopes in
the heap have them as those of the family do. -/
structure Mirrors (s : Scopes ε) (fam : Family ε) (places own : List Nat) : Prop where
  frames : Pieces (HoldsFrame s.heap) places fam.frames own
  nodup : own.Nodup
  length_eq : s.handles.length = fam.scopes.length
  scopes : ∀ (h : Nat) (ids : Nat × List Nat), fam.scopes[h]? = some ids → ∃ a, s.handles[h]? = some a ∧
    s.heap.cells[a]? = some (.scope (spot places ids.1) (ids.2.map (spot places)))

theorem single_mirrors : (single : Scopes ε).Mirrors .single [0] [0] where
  frames := by
    have hframe : HoldsFrame (single : Scopes ε).heap 0 [] ([] ++ [0]) := .mk rfl .nil
    exact .cons hframe .nil
  nodup := List.pairwise_singleton _ _
  length_eq := rfl
  scopes h ids hids := by
    cases h with
    | zero =>
      obtain rfl := Option.some.inj hids
      exact ⟨1, rfl, rfl⟩
    | succ h => cases hids

namespace Mirrors

variable {s : Scopes ε} {fam : Family ε} {places own : List Nat} {h i : Nat} {ids : Nat × List Nat}

theorem handle_none (hm : s.Mirrors fam places own) (hids : fam.scopes[h]? = none) :
    s.handles[h]? = none := by
  rw [List.getElem?_eq_none_iff] at hids ⊢
  rwa [hm.length_eq]

theorem spot_eq (hm : s.Mirrors fam places own) (hi : i < fam.frames.length) :
    places[i]? = some (spot places i) := by
  rw [← hm.frames.length_eq] at hi
  rw [spot, List.getD_eq_getElem?_getD, List.getElem?_eq_getElem hi, Option.getD_some]

theorem frame_eq (hi : i < fam.frames.length) : fam.frames[i]? = some (fam.frame i) := by
  rw [Family.frame_eq_getElem hi, List.getElem?_eq_getElem hi]

/-- A frame of the family stands at its place, on a part of the cells. -/
theorem frame (hm : s.Mirrors fam places own) (hi : i < fam.frames.length) :
    ∃ part, HoldsFrame s.heap (spot places i) (fam.frame i) part ∧ part.Sublist own := by
  obtain ⟨f, part, hf, hframe, hpart⟩ := hm.frames.get (frame_eq hi)
  obtain rfl := Option.some.inj ((hm.spot_eq hi).symm.trans hf)
  exact ⟨part, hframe, hpart⟩

/-- The scope of a handle has the frames of one of the family. -/
theorem line_eq (hm : s.Mirrors fam places own) {a : Nat} (ha : s.handles[h]? = some a) :
    ∃ ids, fam.scopes[h]? = some ids ∧ line (s.heap.scope a) = (line ids).map (spot places) := by
  cases hids : fam.scopes[h]? with
  | none => cases (hm.handle_none hids).symm.trans ha
  | some ids =>
    obtain ⟨a', ha', hcell⟩ := hm.scopes h ids hids
    obtain rfl := Option.some.inj (ha.symm.trans ha')
    rw [Heap.scope_eq hcell]
    exact ⟨ids, rfl, rfl⟩

/-! ## What is shown -/

/-- The scopes in the heap show what those of the family show. -/
theorem view?_eq (hm : s.Mirrors fam places own) (hfam : fam.Layered) (h : Nat) :
    s.view? h = fam.view? h := by
  cases hids : fam.scopes[h]? with
  | none => rw [view?, Family.view?, hids, hm.handle_none hids]; rfl
  | some ids =>
    obtain ⟨a, ha, hcell⟩ := hm.scopes h ids hids
    obtain ⟨depth, hdepth⟩ : ∃ depth, s.heap.cells.length = depth + 1 :=
      ⟨_, (Nat.succ_pred_eq_of_pos (Nat.zero_lt_of_lt (Heap.bound_of_cell hcell))).symm⟩
    have hread : ∀ i ∈ line ids, s.heap.readSlots (Held.read (s.heap.readScope depth))
        (s.heap.frame (spot places i)) = .ok (fam.frame i) := by
      intro i hi
      obtain ⟨part, hframe, -⟩ := hm.frame (hfam.bound ids (List.mem_of_getElem? hids) i hi)
      have hfresh := Value.freshFields_iff.2 (hfam.frame_fresh i).values
      exact hframe.read hfresh depth (Nat.le_of_lt_succ (hframe.height_lt.trans_eq hdepth))
    obtain ⟨htop, houter⟩ := List.forall_mem_cons.1 hread
    have houters := except_mapM_eq_ok.2 (List.forall₂_map_right_iff.2 (List.forall₂_same.2 houter))
    rw [view?, Family.view?_eq hids, ha, hdepth, Option.bind_some, Heap.readScope, Heap.scope_eq hcell]
    simp only [htop, List.mapM_map, Function.comp_def, houters]
    rfl

/-! ## Nested scopes and copies -/

theorem spot_append (added : List Nat) (hi : i < places.length) :
    spot (places ++ added) i = spot places i := by
  rw [spot, spot, List.getD_eq_getElem?_getD, List.getD_eq_getElem?_getD, List.getElem?_append_left hi]

/-- Frames on new cells and a scope of them, or of these and frames that are there, may be added. -/
theorem add (hm : s.Mirrors fam places own) (hfam : fam.Layered) {heap : Heap ε} {added built : List Nat}
    {frames : List (List (Slot ε))} {scope : Nat} (hadds : s.heap.Adds heap built)
    (hframes : Pieces (HoldsFrame heap) added frames built)
    (hscope : heap.cells[scope]? =
      some (.scope (spot (places ++ added) ids.1) (ids.2.map (spot (places ++ added))))) :
    Mirrors ⟨heap, s.handles ++ [scope]⟩ ⟨fam.frames ++ frames, fam.scopes ++ [ids]⟩
      (places ++ added) (own ++ built) where
  frames := by
    refine Pieces.append (hm.frames.imp fun f frame part _ hframe => ?_) hframes
    exact hframe.grows hadds.grows
  nodup := by
    refine List.nodup_append.2 ⟨hm.nodup, hadds.nodup, fun a ha b hb => ?_⟩
    have hold := HoldsFrame.footed.pieces.bound hm.frames a ha
    have hnew := (hadds.bounds b hb).1
    omega
  length_eq := by simp [hm.length_eq]
  scopes h ids' hids' := by
    by_cases hh : h < fam.scopes.length
    · rw [List.getElem?_append_left hh] at hids'
      obtain ⟨a, ha, hcell⟩ := hm.scopes h ids' hids'
      have hbound := hfam.bound ids' (List.mem_of_getElem? hids')
      rw [← hm.frames.length_eq] at hbound
      have hspots : ∀ i ∈ line ids', spot (places ++ added) i = spot places i :=
        fun i hi => spot_append added (hbound i hi)
      refine ⟨a, ?_, ?_⟩
      · rw [List.getElem?_append_left (hm.length_eq.symm ▸ hh), ha]
      · have ⟨htop, houter⟩ := List.forall_mem_cons.1 hspots
        rw [htop, List.map_inj_left.2 houter]
        exact Heap.cell_grows hadds.grows hcell
    · have hlt := (List.getElem?_eq_some_iff.1 hids').1
      rw [List.length_append, List.length_singleton] at hlt
      obtain rfl : h = fam.scopes.length := by omega
      obtain rfl := Option.some.inj (List.getElem?_concat_length.symm.trans hids')
      exact ⟨scope, by rw [← hm.length_eq, List.getElem?_concat_length], hscope⟩

/-- A nested scope. -/
theorem nest (hm : s.Mirrors fam places own) (hfam : fam.Layered) (h : Nat) :
    ∃ places' own', (s.nest h).Mirrors (fam.nest h) places' own' := by
  cases hids : fam.scopes[h]? with
  | none =>
    rw [Scopes.nest, Family.nest, hids, hm.handle_none hids]
    exact ⟨places, own, hm⟩
  | some ids =>
    obtain ⟨a, ha, hcell⟩ := hm.scopes h ids hids
    rw [Scopes.nest, Family.nest, hids, ha]
    simp only [Heap.nest, Heap.scope_eq hcell]
    have hframe := s.heap.adds_alloc (.frame [])
    have hscope := (s.heap.alloc (.frame [])).2.adds_alloc
      (.scope s.heap.cells.length (spot places ids.1 :: ids.2.map (spot places)))
    have hempty : HoldsFrame (s.heap.alloc (.frame [])).2 s.heap.cells.length [] ([] ++ [s.heap.cells.length]) :=
      .mk (s.heap.alloc_cell _) .nil
    have hnew : spot (places ++ [s.heap.cells.length]) fam.frames.length = s.heap.cells.length := by
      rw [spot, List.getD_eq_getElem?_getD, ← hm.frames.length_eq, List.getElem?_concat_length]
      rfl
    have hold : (line ids).map (spot (places ++ [s.heap.cells.length])) = (line ids).map (spot places) := by
      refine List.map_inj_left.2 fun i hi => spot_append _ ?_
      rw [hm.frames.length_eq]
      exact hfam.bound ids (List.mem_of_getElem? hids) i hi
    refine ⟨_, _, hm.add hfam (hframe.grow hscope.grows) (.cons (hempty.grows hscope.grows) .nil) ?_⟩
    rw [hnew]
    show _ = some (Cell.scope _ ((line ids).map _))
    rw [hold]
    exact Heap.alloc_cell _ _

/-- A copy. -/
theorem copy (hm : s.Mirrors fam places own) (hfam : fam.Layered) (h : Nat) :
    ∃ places' own' s', s.copy h = .ok s' ∧ s'.Mirrors (fam.copy h) places' own' := by
  cases hids : fam.scopes[h]? with
  | none =>
    rw [Scopes.copy, Family.copy, hids, hm.handle_none hids]
    exact ⟨places, own, s, rfl, hm⟩
  | some ids =>
    obtain ⟨a, ha, hcell⟩ := hm.scopes h ids hids
    obtain ⟨depth, hdepth⟩ : ∃ depth, s.heap.cells.length = depth + 1 :=
      ⟨_, (Nat.succ_pred_eq_of_pos (Nat.zero_lt_of_lt (Heap.bound_of_cell hcell))).symm⟩
    rw [Scopes.copy, Family.copy, hids, ha, hdepth]
    have hframes : ∀ i ∈ line ids, ∃ part, HoldsFrame s.heap (spot places i) (fam.frame i) part := by
      intro i hi
      obtain ⟨part, hframe, -⟩ := hm.frame (hfam.bound ids (List.mem_of_getElem? hids) i hi)
      exact ⟨part, hframe⟩
    have hheight : ∀ i ∈ line ids, Value.heightIn (fam.frame i) ≤ depth := by
      intro i hi
      obtain ⟨part, hframe⟩ := hframes i hi
      exact Nat.le_of_lt_succ (hframe.height_lt.trans_eq hdepth)
    rw [line, List.forall_mem_cons] at hframes hheight
    obtain ⟨⟨part, htop⟩, houter⟩ := hframes
    obtain ⟨top, heap₁, built, hcopy, hadds, htop'⟩ := htop.copy depth hheight.1 List.prefix_rfl
    obtain ⟨outer, heap₂, builts, hcopies, hadds', houter'⟩ :=
      HoldsFrame.copy_all houter hheight.2 hadds.grows
    have hscope := heap₂.adds_alloc (.scope top outer)
    have hcopied := Pieces.cons (htop'.grows hadds'.grows) houter'
    have hnew := Family.map_getD_range' places (top :: outer) 0
    rw [hcopied.length_eq, hm.frames.length_eq, List.length_cons, List.length_map,
      List.range'_succ] at hnew
    obtain ⟨htop, houter⟩ := List.cons_eq_cons.1 hnew
    have hcell' : (heap₂.alloc (.scope top outer)).2.cells[heap₂.cells.length]? =
        some (Cell.scope (spot (places ++ top :: outer) fam.frames.length)
          ((List.range' (fam.frames.length + 1) ids.2.length).map (spot (places ++ top :: outer)))) := by
      rw [heap₂.alloc_cell, Option.some.injEq, Cell.scope.injEq]
      exact ⟨htop.symm, houter.symm⟩
    have hresult : Heap.copyScope (depth + 1) a s.heap = .ok (heap₂.alloc (.scope top outer)) := by
      simp only [Heap.copyScope, Heap.scope_eq hcell, hcopy, bind, Except.bind] at hcopies ⊢
      rw [hcopies]
    have hframes := hcopied.imp fun f frame part _ h => h.grows hscope.grows
    refine ⟨_, _, _, ?_, hm.add hfam ((hadds.trans hadds').grow hscope.grows) hframes hcell'⟩
    dsimp only
    rw [hresult]
    rfl

/-! ## Changes -/

/-- What an operation makes of a scope of the family, and what it makes of the heap. -/
inductive Follows (handles : List Nat) (fam : Family ε) (places : List Nat) (h : Nat) :
    Option (Scope ε) → Except Cause (Heap ε) → Prop
  | fails (cause : Cause) : Follows handles fam places h none (.error cause)
  | changes {t : Scope ε} {heap : Heap ε} {own : List Nat} :
    Mirrors ⟨heap, handles⟩ (fam.store h t) places own → Follows handles fam places h (some t) (.ok heap)

section Changed

variable {heap : Heap ε} {built : List Nat} {held : Held ε} {v : Value ε} {a : Nat}

/-- What has been built for an operation stands on other cells. -/
theorem grow (hm : s.Mirrors fam places own) (hadds : s.heap.Adds heap built) :
    Mirrors ⟨heap, s.handles⟩ fam places own ∧ (own ++ built).Nodup where
  left :=
    { frames := hm.frames.imp fun f frame part _ hframe => hframe.grows hadds.grows
      nodup := hm.nodup
      length_eq := hm.length_eq
      scopes := fun h ids hids =>
        let ⟨a, ha, hcell⟩ := hm.scopes h ids hids
        ⟨a, ha, Heap.cell_grows hadds.grows hcell⟩ }
  right := by
    refine List.nodup_append.2 ⟨hm.nodup, hadds.nodup, fun a ha b hb => ?_⟩
    have hold := HoldsFrame.footed.pieces.bound hm.frames a ha
    have hnew := (hadds.bounds b hb).1
    omega

/-- A frame may be changed inside its part of the cells. -/
theorem change (hm : s.Mirrors fam places own) (hapart : (own ++ built).Nodup)
    (hi : i < fam.frames.length) :
    ∃ part, HoldsFrame s.heap (spot places i) (fam.frame i) part ∧ (part ++ built).Nodup ∧
      ∀ heap' new part', HoldsFrame heap' (spot places i) new part' →
        s.heap.Changes heap' built part part' →
        ∃ own', Mirrors ⟨heap', s.handles⟩ ⟨fam.frames.set i new, fam.scopes⟩ places own' := by
  obtain ⟨f, part, hf, hframe, hpart, hchange⟩ :=
    HoldsFrame.footed.change hm.frames hapart (frame_eq hi)
  obtain rfl := Option.some.inj ((hm.spot_eq hi).symm.trans hf)
  refine ⟨part, hframe, hpart, fun heap' new part' hnew hchanges => ?_⟩
  obtain ⟨own', hframes, hchanges'⟩ := hchange heap' new part' hnew hchanges
  refine ⟨own', hframes, hchanges'.nodup, hm.length_eq, fun h ids hids => ?_⟩
  obtain ⟨a, ha, hcell⟩ := hm.scopes h ids hids
  exact ⟨a, ha, hchanges'.scopes _ _ _ hcell⟩

variable (hfam : fam.Layered) (hids : fam.scopes[h]? = some ids)
  (hcell : s.heap.cells[a]? = some (.scope (spot places ids.1) (ids.2.map (spot places))))
include hfam hids hcell

/-- A slot is put into the top frame of a scope. -/
theorem set (hm : s.Mirrors fam places own) (slot : Slot ε) (hheld : Holds s.heap held slot.value built)
    (hapart : (own ++ built).Nodup) :
    ∃ own', Mirrors ⟨s.heap.set a slot.name slot.isMutable held, s.handles⟩
      (fam.store h ((fam.scope ids).set slot)) places own' := by
  obtain ⟨name, isMutable, v⟩ := slot
  have hmem := List.mem_of_getElem? hids
  have hbound := hfam.bound ids hmem ids.1 List.mem_cons_self
  have hapart' : (own ++ (built ++ [s.heap.cells.length])).Nodup := by
    rw [← List.append_assoc]
    refine (List.perm_append_singleton _ _).nodup_iff.2 (List.nodup_cons.2 ⟨fun hmem => ?_, hapart⟩)
    rcases List.mem_append.1 hmem with hmem | hmem
    · exact Nat.lt_irrefl _ (HoldsFrame.footed.pieces.bound hm.frames _ hmem)
    · exact Nat.lt_irrefl _ (hheld.bound _ hmem)
  obtain ⟨part, hframe, hpart, hchange⟩ := hm.change hapart' hbound
  have hpart' := hpart.sublist ((List.sublist_append_left built _).append_left part)
  have htop : (s.heap.scope a).1 = spot places ids.1 := by rw [Heap.scope_eq hcell]
  obtain ⟨part', hnew, hchanges⟩ := hframe.set hheld hpart' htop name isMutable
  have hnodup := (List.nodup_cons.1 (hfam.nodup ids hmem)).1
  have hframes : ((fam.scope ids).set ⟨name, isMutable, v⟩).frames = (line ids).map fun j =>
      if j = ids.1 then Fields.put ⟨name, isMutable, v⟩ (fam.frame ids.1) else fam.frame j := by
    rw [line, List.map_cons, if_pos rfl]
    refine congrArg _ (List.map_inj_left.2 fun j hj => ?_)
    rw [if_neg fun he : j = ids.1 => hnodup (he ▸ hj)]
  rw [hfam.store_frame hids (by rw [hframes, List.length_map, Family.frames_scope, List.length_map])
    hframes List.mem_cons_self]
  exact hchange _ _ _ hnew hchanges

/-- Along the frames of a scope a name is found in the heap where it is found in the family. -/
theorem lookup (hm : s.Mirrors fam places own) (n : String) :
    ((fam.scope ids).find? n = none ∧ s.heap.find? a n = none) ∨
    ∃ i ∈ line ids, ∃ slot b, Fields.find? n (fam.frame i) = some slot ∧
      (s.heap.frame (spot places i)).lookup n = some b ∧
      (fam.scope ids).find? n = some slot ∧ s.heap.find? a n = some b ∧
      ∀ changed : Slot ε, changed.name = n → ((fam.scope ids).replace changed).frames =
        (line ids).map fun j => if j = i then Fields.put changed (fam.frame i) else fam.frame j := by
  have hmem := List.mem_of_getElem? hids
  have hfind : s.heap.find? a n =
      ((line ids).map (spot places)).findSome? fun f => (s.heap.frame f).lookup n := by
    rw [Heap.find?, Heap.scope_eq hcell]
    rfl
  rw [hfind, Scope.find?, Family.frames_scope]
  have hbound := hfam.bound ids hmem
  have hnodup := hfam.nodup ids hmem
  simp only [Scope.replace_frames, Family.frames_scope]
  generalize line ids = is at hbound hnodup ⊢
  induction is with
  | nil => exact .inl ⟨rfl, rfl⟩
  | cons i rest ih =>
    rw [List.forall_mem_cons] at hbound
    rw [List.nodup_cons] at hnodup
    obtain ⟨part, hframe, _⟩ := hm.frame hbound.1
    rw [List.map_cons, List.map_cons, List.findSome?_cons, List.findSome?_cons]
    rcases hframe.lookup n with ⟨hnone, hnone'⟩ | ⟨slot, b, hsome, hsome'⟩
    · rw [hnone, hnone']
      refine (ih hbound.2 hnodup.2).imp_right ?_
      rintro ⟨j, hj, slot, b, hslot, hb, hfound, hfound', hreplace⟩
      refine ⟨j, List.mem_cons_of_mem _ hj, slot, b, hslot, hb, hfound, hfound', fun changed hchanged => ?_⟩
      have hhas : Fields.has changed.name (fam.frame i) = false := by
        rw [Fields.has_eq_isSome, hchanged, hnone]
        rfl
      have hne : i ≠ j := fun he => hnodup.1 (he ▸ hj)
      rw [Scope.replaceIn, hhas, if_neg Bool.false_ne_true, hreplace changed hchanged, List.map_cons,
        if_neg hne]
    · rw [hsome, hsome']
      refine .inr ⟨i, List.mem_cons_self, slot, b, hsome, hsome', rfl, rfl, fun changed hchanged => ?_⟩
      have hhas : Fields.has changed.name (fam.frame i) = true := by
        rw [Fields.has_eq_isSome, hchanged, hsome]
        rfl
      rw [Scope.replaceIn, if_pos hhas, List.map_cons, if_pos rfl]
      refine congrArg _ (List.map_inj_left.2 fun j hj => ?_)
      rw [if_neg fun he : j = i => hnodup.1 (he ▸ hj)]

/-- A definition. -/
theorem define (hm : s.Mirrors fam places own) (slot : Slot ε) (hheld : Holds s.heap held slot.value built)
    (hapart : (own ++ built).Nodup) :
    Follows s.handles fam places h (Family.Operation.change? (.define h slot) (fam.scope ids))
      (s.heap.define a slot.name slot.isMutable held) := by
  obtain ⟨part, hframe, _⟩ := hm.frame
    (hfam.bound ids (List.mem_of_getElem? hids) ids.1 List.mem_cons_self)
  have htop : (fam.scope ids).top = fam.frame ids.1 := rfl
  rw [Family.Operation.change?, Scope.define, Fields.define, Heap.define, Heap.scope_eq hcell, htop,
    Fields.has_eq_isSome]
  rcases hframe.lookup slot.name with ⟨hnone, hnone'⟩ | ⟨_, _, hsome, hsome'⟩
  · obtain ⟨own', hset⟩ := hm.set hfam hids hcell slot hheld hapart
    have hnew : Fields.has slot.name (fam.frame ids.1) = false := by rw [Fields.has_eq_isSome, hnone]; rfl
    rw [Scope.set, htop, Fields.put_new hnew] at hset
    rw [hnone, hnone']
    exact .changes hset
  · rw [hsome, hsome']
    exact .fails _

/-- An assignment. -/
theorem assign (hm : s.Mirrors fam places own) (hheld : Holds s.heap held v built)
    (hapart : (own ++ built).Nodup) (path : Path) :
    Follows s.handles fam places h (Family.Operation.change? (.assign h path v) (fam.scope ids))
      (s.heap.assign a path held) := by
  rw [Family.Operation.change?, Scope.assign]
  cases hfirst : path.first with
  | other text =>
    rw [Scope.modify, Heap.assign, hfirst]
    exact .fails (.notLvalue text)
  | name n =>
    rcases hm.lookup hfam hids hcell n with
      ⟨hnone, hnone'⟩ | ⟨i, hi, slot, b, hslot, hb, hfind, hfind', hreplace⟩
    · rw [Scope.modify, Heap.assign, hfirst, Step.follow, Step.follow, hnone, hnone']
      exact .fails (.unbound n)
    · have hbound := hfam.bound ids (List.mem_of_getElem? hids) i hi
      obtain ⟨part, hframe, hpart, hchange⟩ := hm.change hapart hbound
      rcases hframe.find hpart n with
        ⟨hnone, _⟩ | ⟨slot', b', part', hslot', hb', hpiece, hpart', hchange'⟩
      · rw [hslot] at hnone
        cases hnone
      · obtain rfl := Option.some.inj (hslot.symm.trans hslot')
        obtain rfl := Option.some.inj (hb.symm.trans hb')
        have hheap : (s.heap.assign a path held).mapError Failure.error =
            (s.heap.walk path.rest b).mapError .error >>= fun c =>
              (s.heap.setValue held c).mapError .error := by
          simp only [Heap.assign, hfirst, Step.follow, hfind', bind, Except.bind]
          cases s.heap.walk path.rest b <;> rfl
        have halters := (hpiece.walk hpart' path.rest).alter fun _ _ _ htarget hpart =>
          htarget.setValue hheld hpart
        rw [← hheap] at halters
        rw [Scope.modify_found hfirst hfind]
        generalize slot.modify .empty _ path.rest = tree at halters ⊢
        generalize s.heap.assign a path held = after at halters ⊢
        cases after with
        | error cause => cases halters; exact .fails cause
        | ok heap' =>
          cases halters with
          | changes hchanged hkept =>
            obtain ⟨changed, rfl, hname, hnew⟩ := hchanged
            obtain ⟨own', hframe', hkept'⟩ := hchange' heap' changed _ hname hnew hkept
            obtain ⟨owns, hmirrors⟩ := hchange heap' _ own' hframe' hkept'
            have hframes := hreplace changed hname
            have hstore := hfam.store_frame hids (t := (fam.scope ids).replace changed)
              (by rw [hframes, List.length_map, Family.frames_scope, List.length_map]) hframes hi
            rw [← hstore] at hmirrors
            exact .changes hmirrors

end Changed

/-- Changes through a scope that follow each other. -/
theorem through (hm : s.Mirrors fam places own) {change : Nat → Except Cause (Heap ε)}
    {change? : Scope ε → Option (Scope ε)}
    (hfollows : ∀ ids a, fam.scopes[h]? = some ids →
      s.heap.cells[a]? = some (.scope (spot places ids.1) (ids.2.map (spot places))) →
      Follows s.handles fam places h (change? (fam.scope ids)) (change a)) :
    ∃ places' own', ((s.through h change).toOption.getD s).Mirrors
      (match (fam.view? h).bind change? with
        | some t => fam.store h t
        | none => fam) places' own' := by
  cases hids : fam.scopes[h]? with
  | none =>
    rw [Scopes.through, Family.view?, hids, hm.handle_none hids]
    exact ⟨places, own, hm⟩
  | some ids =>
    obtain ⟨a, ha, hcell⟩ := hm.scopes h ids hids
    have hfollows' := hfollows ids a hids hcell
    rw [Scopes.through, Family.view?_eq hids, ha, Option.bind_some]
    generalize change? (fam.scope ids) = tree at hfollows' ⊢
    dsimp only
    generalize change a = after at hfollows' ⊢
    cases hfollows' with
    | fails cause => exact ⟨places, own, hm⟩
    | changes hmirrors => exact ⟨_, _, hmirrors⟩

/-- Every operation with a fresh value is the same in the heap as in the family. -/
theorem apply (hm : s.Mirrors fam places own) (hfam : fam.Layered) (op : Family.Operation ε)
    (hop : op.Fresh) :
    ∃ places' own', (s.apply op).Mirrors (fam.apply op) places' own' := by
  cases op with
  | define h slot =>
    obtain ⟨built, hadds, hheld⟩ := s.heap.place_holds slot.value hop
    have ⟨hgrown, hapart⟩ := hm.grow hadds
    exact hm.through fun ids a hids hcell =>
      hgrown.define hfam hids (Heap.cell_grows hadds.grows hcell) slot hheld hapart
  | set h slot =>
    obtain ⟨built, hadds, hheld⟩ := s.heap.place_holds slot.value hop
    have ⟨hgrown, hapart⟩ := hm.grow hadds
    refine hm.through fun ids a hids hcell => ?_
    obtain ⟨_, hset⟩ := hgrown.set hfam hids (Heap.cell_grows hadds.grows hcell) slot hheld hapart
    exact .changes hset
  | assign h path v =>
    obtain ⟨built, hadds, hheld⟩ := s.heap.place_holds v hop
    have ⟨hgrown, hapart⟩ := hm.grow hadds
    exact hm.through fun ids a hids hcell =>
      hgrown.assign hfam hids (Heap.cell_grows hadds.grows hcell) hheld hapart path
  | nest h => exact hm.nest hfam h
  | copy h =>
    obtain ⟨places', own', s', hcopy, hmirrors⟩ := hm.copy hfam h
    refine ⟨places', own', ?_⟩
    rw [Scopes.apply, hcopy]
    exact hmirrors

/-- The heap mirrors the family after every sequence of operations. -/
theorem after (hm : s.Mirrors fam places own) (hfam : fam.Layered) {ops : List (Family.Operation ε)}
    (hops : ∀ op ∈ ops, op.Fresh) :
    ∃ places' own', (s.after ops).Mirrors (fam.after ops) places' own' := by
  induction ops generalizing s fam places own with
  | nil => exact ⟨places, own, hm⟩
  | cons op rest ih =>
    rw [List.forall_mem_cons] at hops
    obtain ⟨_, _, hmirrors⟩ := hm.apply hfam op hops.1
    exact ih hmirrors (hfam.apply op hops.1) hops.2

/-! ## Nesting -/

theorem sublist_own {heap : Heap ε} {frames : List (List (Slot ε))}
    (h : Pieces (HoldsFrame heap) places frames own) : places.Sublist own := by
  induction h with
  | nil => exact .slnil
  | cons hfirst _ ih =>
    cases hfirst with
    | mk _ _ => exact (List.sublist_append_right _ [_]).append ih

/-- Different frames stand at different places. -/
theorem idxOf_spot (hm : s.Mirrors fam places own) (hi : i < fam.frames.length) :
    places.idxOf (spot places i) = i := by
  have hnodup := hm.nodup.sublist (sublist_own hm.frames)
  obtain ⟨hlt, heq⟩ := List.getElem?_eq_some_iff.1 (hm.spot_eq hi)
  rw [← heq, hnodup.idxOf_getElem]

/-- Scopes in the heap are nested in one another as those of the family are. -/
theorem descends_iff (hm : s.Mirrors fam places own) (hfam : fam.Layered) (d c : Nat) :
    s.Descends d c ↔ fam.Descends d c := by
  have hback {h : Nat} {ids : Nat × List Nat} (hids : fam.scopes[h]? = some ids) :
      ((line ids).map (spot places)).map places.idxOf = line ids := by
    rw [List.map_map]
    refine (List.map_congr_left fun i hi => ?_).trans (List.map_id _)
    exact hm.idxOf_spot (hfam.bound ids (List.mem_of_getElem? hids) i hi)
  constructor
  · rintro ⟨a, b, ha, hb, hsuffix⟩
    obtain ⟨ids, hids, hline⟩ := hm.line_eq ha
    obtain ⟨ids', hids', hline'⟩ := hm.line_eq hb
    rw [hline, hline'] at hsuffix
    have hlines := hsuffix.map places.idxOf
    rw [hback hids, hback hids'] at hlines
    exact ⟨ids, ids', hids, hids', hlines⟩
  · rintro ⟨ids, ids', hids, hids', hsuffix⟩
    obtain ⟨a, ha, hcell⟩ := hm.scopes d ids hids
    obtain ⟨b, hb, hcell'⟩ := hm.scopes c ids' hids'
    refine ⟨a, b, ha, hb, ?_⟩
    rw [Heap.scope_eq hcell, Heap.scope_eq hcell']
    exact hsuffix.map (spot places)

end Mirrors

/-! ## Results -/

/-- Scopes in a heap and a family of scopes that have gone through the same operations. -/
structure Agrees (s : Scopes ε) (fam : Family ε) : Prop where
  layered : fam.Layered
  mirrors : ∃ places own, s.Mirrors fam places own

namespace Agrees

variable {s : Scopes ε} {fam : Family ε}

theorem apply (h : s.Agrees fam) (op : Family.Operation ε) (hop : op.Fresh) :
    (s.apply op).Agrees (fam.apply op) :=
  let ⟨_, _, hm⟩ := h.mirrors
  ⟨h.layered.apply op hop, hm.apply h.layered op hop⟩

theorem after (h : s.Agrees fam) {ops : List (Family.Operation ε)} (hops : ∀ op ∈ ops, op.Fresh) :
    (s.after ops).Agrees (fam.after ops) :=
  let ⟨_, _, hm⟩ := h.mirrors
  ⟨(h.layered.after hops).1, hm.after h.layered hops⟩

theorem view?_eq (h : s.Agrees fam) (handle : Nat) : s.view? handle = fam.view? handle :=
  let ⟨_, _, hm⟩ := h.mirrors
  hm.view?_eq h.layered handle

theorem descends_iff (h : s.Agrees fam) (d c : Nat) : s.Descends d c ↔ fam.Descends d c :=
  let ⟨_, _, hm⟩ := h.mirrors
  hm.descends_iff h.layered d c

theorem length_eq (h : s.Agrees fam) : s.handles.length = fam.scopes.length :=
  let ⟨_, _, hm⟩ := h.mirrors
  hm.length_eq

end Agrees

/-- **Scopes that grow out of one another.**  Start from a single empty scope and do any operations with
values built for them.  Every scope can be looked at.  Copying a scope gives one that is equal to it and
has as many frames, and from then on, whatever else is done, no operation through either of the two, or
through a scope that descends from it, shows in the other or in a scope that descends from that.  A nested
scope has an empty frame on top.  A definition through it shows in no scope that does not descend from
it, such as the one around it; an assignment through it to a name that only the frames around it have
shows in the scope of these frames as if it was made there. -/
theorem independent [BEq ε] [ReflBEq ε] {ops : List (Family.Operation ε)} (hops : ∀ op ∈ ops, op.Fresh) :
    let s : Scopes ε := single.after ops
    let new := s.handles.length
    (∀ h < new, ∃ shown, s.view? h = some shown) ∧
    (∀ h shown, s.view? h = some shown →
      let copied := s.apply (.copy h)
      (∃ twin, copied.view? h = some shown ∧ copied.view? new = some twin ∧ twin.same shown = true ∧
        shown.same twin = true ∧ twin.depth = shown.depth) ∧
      ∀ later, (∀ op ∈ later, op.Fresh) → ∀ op, op.Fresh → ∀ k,
        let now := copied.after later
        (now.Descends op.handle new ∧ now.Descends k h) ∨
            (now.Descends op.handle h ∧ now.Descends k new) →
          (now.apply op).view? k = now.view? k) ∧
    (∀ h shown, s.view? h = some shown →
      let nested := s.apply (.nest h)
      nested.view? new = some shown.push ∧
      ∀ later, (∀ op ∈ later, op.Fresh) →
        (nested.after later).Descends new h ∧ ¬ (nested.after later).Descends h new) ∧
    (∀ d k shown slot, slot.value.Fresh → s.view? k = some shown → ¬ s.Descends k d →
      (s.apply (.define d slot)).view? k = some shown ∧ (s.apply (.set d slot)).view? k = some shown) ∧
    ∀ d k inner outer path n v t store, s.Descends d k → s.view? d = some inner →
      s.view? k = some outer → path.first = .name n →
      (∀ frame ∈ inner.frames.take (inner.depth - outer.depth), Fields.has n frame = false) → v.Fresh →
      inner.assign .empty path v = .ok (t, store) →
      ∃ seen slot, (s.apply (.assign d path v)).view? k = some seen ∧
        outer.assign .empty path v = .ok (seen, .empty) ∧ seen.resolve .empty path = .ok slot ∧
        slot.value = v := by
  intro s new
  let fam : Family ε := Family.single.after ops
  have hs : s.Agrees fam := Agrees.after ⟨Family.single_layered, _, _, single_mirrors⟩ hops
  have hfam := hs.layered
  have hnew : new = fam.scopes.length := hs.length_eq
  refine ⟨fun h hh => ?_, fun h shown hshown => ⟨?_, ?_⟩, fun h shown hshown => ?_, ?_, ?_⟩
  · rw [hs.view?_eq, Family.view?_eq (List.getElem?_eq_getElem (hnew ▸ hh))]
    exact ⟨_, rfl⟩
  · rw [hs.view?_eq] at hshown
    have hcopied := hs.apply (.copy h) trivial
    obtain ⟨horiginal, htwin⟩ := hfam.copy_equal hshown
    obtain ⟨ids, _, rfl⟩ := Family.view?_eq_some hshown
    have hsame := (hfam.scope_fresh ids).same_self
    exact ⟨_, (hcopied.view?_eq h).trans horiginal, (hcopied.view?_eq new).trans (hnew ▸ htwin),
      hsame, hsame, rfl⟩
  · intro later hlater op hop k now hpair
    rw [hs.view?_eq] at hshown
    have hnow := (hs.apply (.copy h) trivial).after hlater
    rw [(hnow.apply op hop).view?_eq, hnow.view?_eq]
    refine hfam.copy_separate hshown hlater hop ?_
    rwa [hnow.descends_iff, hnow.descends_iff, hnow.descends_iff, hnow.descends_iff, hnew] at hpair
  · rw [hs.view?_eq] at hshown
    have hnested := hs.apply (.nest h) trivial
    refine ⟨?_, fun later hlater => ?_⟩
    · rw [hnested.view?_eq, hnew]
      exact (hfam.nest_descends hshown List.prefix_rfl).1
    · have hnow := hnested.after hlater
      rw [hnow.descends_iff, hnow.descends_iff, hnew]
      exact (hfam.nest_descends hshown ((hfam.apply (.nest h) trivial).after hlater).2).2
  · intro d k shown slot hslot hshown hdescends
    rw [hs.view?_eq] at hshown
    rw [hs.descends_iff] at hdescends
    rw [(hs.apply (.define d slot) hslot).view?_eq, (hs.apply (.set d slot) hslot).view?_eq]
    constructor
    · refine hfam.view?_definition (.define d slot) hslot (fun s t ht => ?_) hshown hdescends
      obtain ⟨_, rfl⟩ := Scope.define_eq (toOption_eq_some.1 ht)
      rfl
    · refine hfam.view?_definition (.set d slot) hslot (fun s t ht => ?_) hshown hdescends
      obtain rfl := Option.some.inj ht
      rfl
  · intro d k inner outer path n v t store hd hinner houter hfirst hfront hv ha
    rw [hs.view?_eq] at hinner houter
    rw [hs.descends_iff] at hd
    rw [(hs.apply (.assign d path v) hv).view?_eq]
    exact hfam.view?_assignment hd hinner houter hfirst hfront hv ha

/-- A field of an object is assigned in a copy: it is found there, and a scope that is nested in the
original is as it was. -/
theorem independent_field :
    let field : Path := ⟨.name "obj", [.name "a"]⟩
    let ops : List (Family.Operation Empty) :=
      [.define 0 ⟨"obj", true, .object [⟨"a", true, .number 1⟩]⟩, .nest 0]
    let copied := (single.after ops).apply (.copy 0)
    let assigned := copied.apply (.assign 2 field (.number 9))
    (∀ op ∈ ops, op.Fresh) ∧ copied.Descends 2 2 ∧ copied.Descends 1 0 ∧
      (assigned.view? 2).map (fun s => (s.resolve .empty field).toOption.map (·.value)) =
        some (some (.number 9)) ∧
      assigned.view? 1 = copied.view? 1 := by
  intro field ops copied assigned
  have hfresh : ∀ op ∈ ops, op.Fresh := by
    simp [ops, Family.Operation.Fresh, Value.Fresh, Value.FreshFields]
  have hcopy : copied.Descends 2 2 := ⟨_, _, rfl, rfl, List.suffix_rfl⟩
  have hnested : copied.Descends 1 0 := ⟨_, _, rfl, rfl, List.suffix_cons _ _⟩
  have hcopies := (independent hfresh).2.1 0 _ rfl
  -- The field is at address 8: the objects of both scopes are built from cells of their own.
  have hassigned : assigned = ⟨⟨[.frame [("obj", 5)], .scope 0 [], .slot true (.value (.number 1)),
      .frame [("a", 2)], .scope 3 [], .slot true (.object 4), .frame [], .scope 6 [0],
      .slot true (.value (.number 9)), .frame [("a", 8)], .scope 9 [], .slot true (.object 10),
      .frame [("obj", 11)], .scope 12 []]⟩, [1, 7, 13]⟩ := rfl
  have hread : (assigned.view? 2).map (fun s => (s.resolve .empty field).toOption.map (·.value)) =
      some (some (.number 9)) := by
    rw [hassigned]
    rfl
  refine ⟨hfresh, hcopy, hnested, hread, ?_⟩
  exact hcopies.2 [] (List.forall_mem_nil _) (.assign 2 field (.number 9)) trivial 1
    (.inl ⟨hcopy, hnested⟩)

end Scopes

end Scriptlet
