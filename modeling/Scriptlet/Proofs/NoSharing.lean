import Scriptlet.Machine
import Scriptlet.Proofs.Footprints

/-!
# Nothing is shared

A scope in a heap stands for a scope of trees by way of its footprint, the cells of its frames, their slots
and all objects in them.  The footprint names every cell once (`HoldsScope`): no two slots lead to the same
object.  The operations of a run keep a scope so, and do to it what they do to the tree, because what a slot
takes in stands on cells of its own.  `Heap.Moves` says what else they leave as it is: every cell outside of
the footprint, every scope, and the entries of every frame.
-/

namespace Scriptlet

set_option autoImplicit false

variable {ε : Type}

/-! ## Heaps that go on -/

namespace Heap

variable {heap heap' heap'' start : Heap ε} {own own' own'' built : List Nat}

/-- A heap goes on where its cells are kept. -/
theorem grows_of_kept (hstart : start.cells <+: heap.cells)
    (hkept : ∀ a < start.cells.length, heap'.cells[a]? = heap.cells[a]?) : start.cells <+: heap'.cells := by
  refine List.prefix_iff_getElem?.2 fun a ha => ?_
  rw [hkept a ha, List.prefix_iff_getElem?.1 hstart a ha]

/-- No cell is lost, and no entry of a frame. -/
structure Extends (heap heap' : Heap ε) : Prop where
  length_le : heap.cells.length ≤ heap'.cells.length
  frames : ∀ (f : Nat) (entries : List (String × Nat)), heap.cells[f]? = some (.frame entries) →
    ∃ added, heap'.cells[f]? = some (.frame (entries ++ added))

theorem Extends.trans (h : Extends heap heap') (h' : Extends heap' heap'') : Extends heap heap'' where
  length_le := h.length_le.trans h'.length_le
  frames f entries hframe := by
    obtain ⟨added, hframe'⟩ := h.frames f entries hframe
    obtain ⟨added', hframe''⟩ := h'.frames f _ hframe'
    exact ⟨added ++ added', by rw [hframe'', List.append_assoc]⟩

theorem Extends.of_grows (h : heap.cells <+: heap'.cells) : Extends heap heap' where
  length_le := h.length_le
  frames f entries hframe := ⟨[], by rw [cell_grows h hframe, List.append_nil]⟩

theorem length_write (heap : Heap ε) (a : Nat) (cell : Cell ε) :
    (heap.write a cell).cells.length = heap.cells.length :=
  List.length_set

/-- An assignment touches no frame. -/
theorem Extends.setValue {held : Held ε} {a : Nat} (h : heap.setValue held a = .ok heap') :
    Extends heap heap' := by
  obtain ⟨⟨old, hslot⟩, rfl⟩ := setValue_eq h
  refine ⟨(heap.length_write a _).ge, fun f entries hframe => ⟨[], ?_⟩⟩
  rw [write_other _ fun he => ?_, hframe, List.append_nil]
  rw [he, hslot] at hframe
  exact nomatch hframe

/-- An entry of a new name comes after the others. -/
theorem putEntry_new {name : String} {entries : List (String × Nat)} (h : entries.lookup name = none)
    (a : Nat) : putEntry name a entries = entries ++ [(name, a)] := by
  induction entries with
  | nil => rfl
  | cons entry rest ih =>
    rw [List.lookup_cons] at h
    split at h
    · exact nomatch h
    · next hne =>
      rw [putEntry, BEq.comm.trans hne, if_neg Bool.false_ne_true, ih h, List.cons_append]

/-- A definition adds an entry to one frame. -/
theorem Extends.define {scope : Nat} {name : String} {isMutable : Bool} {held : Held ε} {f : Nat}
    {entries : List (String × Nat)} (hscope : (heap.scope scope).1 = f)
    (hframe : heap.cells[f]? = some (.frame entries)) (hnew : entries.lookup name = none) :
    Extends heap (heap.set scope name isMutable held) where
  length_le := by
    rw [set_eq_write hscope hframe, length_write]
    exact (heap.adds_alloc _).grows.length_le
  frames g entries' hframe' := by
    by_cases hg : g = f
    · subst hg
      obtain rfl : entries = entries' := by simpa using hframe.symm.trans hframe'
      exact ⟨_, by rw [set_cell_frame hscope hframe, putEntry_new hnew]⟩
    · refine ⟨[], ?_⟩
      rw [set_cell_other hscope hframe _ _ _ (bound_of_cell hframe') hg, hframe', List.append_nil]

/-- What a run leaves of a heap.  It changes cells of a footprint only, which may take in new cells. -/
structure Moves (heap heap' : Heap ε) (own own' : List Nat) : Prop where
  elsewhere : ∀ a < heap.cells.length, a ∉ own → heap'.cells[a]? = heap.cells[a]?
  scopes : ∀ (a top : Nat) (outer : List Nat), heap.cells[a]? = some (.scope top outer) →
    heap'.cells[a]? = some (.scope top outer)
  extends_heap : Extends heap heap'
  mem : ∀ a ∈ own', a ∈ own ∨ heap.cells.length ≤ a

namespace Moves

theorem grow (h : Moves start heap own own') (hgrows : heap.cells <+: heap'.cells) :
    Moves start heap' own own' where
  elsewhere a ha hown := (cell_kept hgrows (ha.trans_le h.extends_heap.length_le)).trans (h.elsewhere a ha hown)
  scopes a top outer hscope := cell_grows hgrows (h.scopes a top outer hscope)
  extends_heap := h.extends_heap.trans (.of_grows hgrows)
  mem := h.mem

theorem refl (heap : Heap ε) (own : List Nat) : Moves heap heap own own where
  elsewhere _ _ _ := rfl
  scopes _ _ _ h := h
  extends_heap := .of_grows List.prefix_rfl
  mem _ ha := .inl ha

theorem trans (h : Moves heap heap' own own') (h' : Moves heap' heap'' own' own'') :
    Moves heap heap'' own own'' where
  elsewhere a ha hown := by
    have hown' : a ∉ own' := fun hmem => (h.mem a hmem).elim hown (Nat.not_le_of_lt ha)
    exact (h'.elsewhere a (ha.trans_le h.extends_heap.length_le) hown').trans (h.elsewhere a ha hown)
  scopes a top outer hscope := h'.scopes a top outer (h.scopes a top outer hscope)
  extends_heap := h.extends_heap.trans h'.extends_heap
  mem a ha := (h'.mem a ha).elim (h.mem a) fun hold => .inr (h.extends_heap.length_le.trans hold)

/-- A change that takes in cells which have been built for it since the start. -/
theorem change (h : Moves start heap own own') (hchanges : heap.Changes heap' built own' own'')
    (hextends : Extends heap heap') (hbuilt : ∀ a ∈ built, start.cells.length ≤ a) :
    Moves start heap' own own'' where
  elsewhere a ha hown := by
    have hown' : a ∉ own' := fun hmem => (h.mem a hmem).elim hown (Nat.not_le_of_lt ha)
    exact (hchanges.elsewhere a (ha.trans_le h.extends_heap.length_le) hown').trans (h.elsewhere a ha hown)
  scopes a top outer hscope := hchanges.scopes a top outer (h.scopes a top outer hscope)
  extends_heap := h.extends_heap.trans hextends
  mem a ha := (hchanges.mem a ha).elim (h.mem a) fun hmem => .inr (hbuilt a hmem)

/-- New cells may be counted in. -/
theorem widen (h : Moves heap heap' own own') (hnew : ∀ a ∈ built, heap.cells.length ≤ a) :
    Moves heap heap' own (built ++ own') where
  elsewhere := h.elsewhere
  scopes := h.scopes
  extends_heap := h.extends_heap
  mem a ha := (List.mem_append.1 ha).elim (fun hmem => .inr (hnew a hmem)) (h.mem a)

/-- Cells may be left out of account. -/
theorem narrow (h : Moves heap heap' own own') (hsub : own''.Sublist own') : Moves heap heap' own own'' where
  elsewhere := h.elsewhere
  scopes := h.scopes
  extends_heap := h.extends_heap
  mem a ha := h.mem a (hsub.subset ha)

/-- What stands apart from the footprint before stands apart from the one afterwards. -/
theorem apart (h : Moves heap heap' own own') (hnodup : own'.Nodup) (hapart : (own ++ built).Nodup)
    (hbound : ∀ a ∈ built, a < heap.cells.length) : (own' ++ built).Nodup := by
  refine List.nodup_append.2 ⟨hnodup, (List.nodup_append.1 hapart).2.1, fun a ha b hb => ?_⟩
  rcases h.mem a ha with ha | ha
  · exact (List.nodup_append.1 hapart).2.2 a ha b hb
  · exact (Nat.ne_of_lt (Nat.lt_of_lt_of_le (hbound b hb) ha)).symm

/-- Where only newer cells are used, the older ones are what they were. -/
theorem grows (h : Moves heap heap' own own') (hstart : start.cells <+: heap.cells)
    (hnew : ∀ a ∈ own, start.cells.length ≤ a) : start.cells <+: heap'.cells :=
  grows_of_kept hstart fun a ha => h.elsewhere a (ha.trans_le hstart.length_le) fun hmem =>
    Nat.not_le_of_lt ha (hnew a hmem)

end Moves

end Heap

/-! ## Values -/

/-- What is held shows a value.  Objects may be shared, inside of it and with anything else. -/
structure Heap.Shows (heap : Heap ε) (held : Held ε) (v : Value ε) : Prop where
  holds : ∃ own, Holds heap held v own
  fresh : v.Fresh

/-- What is held stands for a value that shares nothing, on the cells of a footprint. -/
structure StandsFor (heap : Heap ε) (held : Held ε) (v : Value ε) (own : List Nat) : Prop where
  holds : Holds heap held v own
  nodup : own.Nodup
  fresh : v.Fresh

namespace StandsFor

variable {heap heap' : Heap ε} {held : Held ε} {v : Value ε} {own : List Nat}

theorem shows (h : StandsFor heap held v own) : heap.Shows held v :=
  ⟨⟨own, h.holds⟩, h.fresh⟩

/-- A run leaves what stands apart from its footprint. -/
theorem moves (h : StandsFor heap held v own) {used used' : List Nat} (hmoves : heap.Moves heap' used used')
    (hapart : (used ++ own).Nodup) : StandsFor heap' held v own where
  holds := h.holds.kept fun a ha => hmoves.elsewhere a (h.holds.bound a ha) fun hused =>
    (List.nodup_append.1 hapart).2.2 a hused a ha rfl
  nodup := h.nodup
  fresh := h.fresh

theorem value {v : Value ε} (hv : v.variant ≠ .object) (hfresh : v.Fresh) :
    StandsFor heap (.value v) v [] :=
  ⟨.value hv, List.nodup_nil, hfresh⟩

end StandsFor

namespace Heap.Shows

variable {heap heap' : Heap ε} {held : Held ε} {v : Value ε}

theorem grows (h : heap.Shows held v) (hgrows : heap.cells <+: heap'.cells) : heap'.Shows held v :=
  ⟨h.holds.imp fun _ hown => hown.grows hgrows, h.fresh⟩

theorem read (h : heap.Shows held v) : heap.read held = .ok v :=
  let ⟨_, hholds⟩ := h.holds
  hholds.read h.fresh _ hholds.height_le

/-- A copy shares nothing. -/
theorem clone (h : heap.Shows held v) :
    ∃ copied heap' own, heap.clone held = .ok (copied, heap') ∧ heap.Adds heap' own ∧
      StandsFor heap' copied v own := by
  obtain ⟨_, hholds⟩ := h.holds
  obtain ⟨copied, heap', own, hclone, hadds, hcopied⟩ := hholds.clone _ hholds.height_le List.prefix_rfl
  exact ⟨copied, heap', own, hclone, hadds, hcopied, hadds.nodup, h.fresh⟩

end Heap.Shows

theorem Heap.place_standsFor (heap : Heap ε) {v : Value ε} (hv : v.Fresh) :
    ∃ own, heap.Adds (heap.place v).2 own ∧ StandsFor (heap.place v).2 (heap.place v).1 v own := by
  obtain ⟨own, hadds, hholds⟩ := heap.place_holds v hv
  exact ⟨own, hadds, hholds, hadds.nodup, hv⟩

/-! ## Scopes -/

/-- The frames of the scope at an address have the slots of a scope of trees. -/
def HoldsFrames (heap : Heap ε) (address : Nat) (s : Scope ε) (own : List Nat) : Prop :=
  ∃ top outer, heap.cells[address]? = some (.scope top outer) ∧
    Pieces (HoldsFrame heap) (top :: outer) s.frames own

/-- The scope at an address stands for a scope of trees that shares nothing, on the cells of a footprint. -/
structure HoldsScope (heap : Heap ε) (address : Nat) (s : Scope ε) (own : List Nat) : Prop where
  frames : HoldsFrames heap address s own
  nodup : own.Nodup
  fresh : s.Fresh

section Frames

variable {heap : Heap ε} {built own : List Nat} {fs : List Nat} {frames : List (List (Slot ε))}

/-- A slot that is found along some frames may be changed inside its part of the footprint. -/
theorem HoldsFrame.find_all (h : Pieces (HoldsFrame heap) fs frames own) (hapart : (own ++ built).Nodup)
    (n : String) :
    (frames.findSome? (Fields.find? n) = none ∧
      fs.findSome? (fun f => (heap.frame f).lookup n) = none) ∨
    ∃ slot a part, frames.findSome? (Fields.find? n) = some slot ∧
      fs.findSome? (fun f => (heap.frame f).lookup n) = some a ∧
      HoldsSlot heap (n, a) slot part ∧ (part ++ built).Nodup ∧
      ∀ heap' changed part', HoldsNamed n a heap' changed part' → heap.Changes heap' built part part' →
        ∃ own', Pieces (HoldsFrame heap') fs (Scope.replaceIn changed frames) own' ∧
          heap.Changes heap' built own own' := by
  induction h with
  | nil => exact .inl ⟨rfl, rfl⟩
  | @cons f frame fs frames part owns hfirst hrest ih =>
    have hnodup := (List.nodup_append.1 (List.nodup_append.1 hapart).1).2.2
    have hfirst' := hapart.sublist ((List.sublist_append_left part owns).append_right built)
    rw [List.findSome?_cons, List.findSome?_cons]
    rcases hfirst.find hfirst' n with
      ⟨hnone, hnone'⟩ | ⟨slot, a, piece, hfind, hfind', hslot, hpiece, hchange⟩
    · rw [hnone, hnone']
      have hrest' := hapart.sublist ((List.sublist_append_right part owns).append_right built)
      refine (ih hrest').imp_right ?_
      rintro ⟨slot, a, piece, hfind, hfind', hslot, hpiece, hchange⟩
      refine ⟨slot, a, piece, hfind, hfind', hslot, hpiece, fun heap' changed piece' hnew hkept => ?_⟩
      obtain ⟨owns', hframes, hkept'⟩ := hchange heap' changed piece' hnew hkept
      have hhas : Fields.has changed.name frame = false := by
        rw [Fields.has_eq_isSome, hnew.1, hnone]
        rfl
      have hframe := hfirst.kept (hkept'.kept hfirst.bound fun x hx howns => hnodup x hx x howns rfl)
      refine ⟨part ++ owns', ?_, by simpa using hkept'.around part [] (by simpa using hapart)⟩
      rw [Scope.replaceIn, hhas, if_neg Bool.false_ne_true]
      exact .cons hframe hframes
    · rw [hfind, hfind']
      refine .inr ⟨slot, a, piece, rfl, rfl, hslot, hpiece, fun heap' changed piece' hnew hkept => ?_⟩
      obtain ⟨part', hframe, hkept'⟩ := hchange heap' changed piece' hnew.1 hnew.2 hkept
      have hhas : Fields.has changed.name frame = true := by
        rw [Fields.has_eq_isSome, hnew.1, hfind]
        rfl
      have hothers := HoldsFrame.footed.pieces.kept hrest (hkept'.kept
        (HoldsFrame.footed.pieces.bound hrest) fun x hx hpart => hnodup x hpart x hx rfl)
      refine ⟨part' ++ owns, ?_, by simpa using hkept'.around [] owns hapart⟩
      rw [Scope.replaceIn, if_pos hhas]
      exact .cons hframe hothers

end Frames

section Operations

variable {heap heap' : Heap ε} {address : Nat} {s : Scope ε} {own built : List Nat}

theorem HoldsFrames.bound (h : HoldsFrames heap address s own) : ∀ a ∈ own, a < heap.cells.length :=
  let ⟨_, _, _, hframes⟩ := h
  HoldsFrame.footed.pieces.bound hframes

theorem HoldsFrames.kept (h : HoldsFrames heap address s own)
    (hkept : ∀ a ∈ own, heap'.cells[a]? = heap.cells[a]?)
    (hscopes : ∀ (a top : Nat) (outer : List Nat), heap.cells[a]? = some (.scope top outer) →
      heap'.cells[a]? = some (.scope top outer)) : HoldsFrames heap' address s own :=
  let ⟨top, outer, hscope, hframes⟩ := h
  ⟨top, outer, hscopes _ _ _ hscope, HoldsFrame.footed.pieces.kept hframes hkept⟩

theorem HoldsScope.grows (h : HoldsScope heap address s own) (hgrows : heap.cells <+: heap'.cells) :
    HoldsScope heap' address s own where
  frames := h.frames.kept (fun a ha => Heap.cell_kept hgrows (h.frames.bound a ha))
    fun _ _ _ => Heap.cell_grows hgrows
  nodup := h.nodup
  fresh := h.fresh

/-- New cells are apart from those of a scope. -/
theorem HoldsScope.apart (h : HoldsScope heap address s own) (hnodup : built.Nodup)
    (hnew : ∀ a ∈ built, heap.cells.length ≤ a) : (own ++ built).Nodup := by
  refine List.nodup_append.2 ⟨h.nodup, hnodup, fun a ha b hb => ?_⟩
  have hold := h.frames.bound a ha
  have hnew := hnew b hb
  omega

/-- A path leads to the same slot in the heap as in the tree. -/
theorem HoldsScope.walk (h : HoldsScope heap address s own) (hapart : (own ++ built).Nodup) (path : Path) :
    Walks heap built own (fun f => s.modify .empty path f)
      (fun heap' after own' => after.2 = .empty ∧ HoldsFrames heap' address after.1 own')
      (s.resolve .empty path) (heap.resolve address path) := by
  obtain ⟨⟨top, outer, hscope, hframes⟩, -, -⟩ := h
  cases hfirst : path.first with
  | other text =>
    rw [Scope.resolve, Heap.resolve, hfirst]
    refine .fails (.notLvalue text) fun f => ?_
    rw [Scope.modify, hfirst]
    rfl
  | name n =>
    have hfind : heap.find? address n = (top :: outer).findSome? fun f => (heap.frame f).lookup n := by
      rw [Heap.find?, Heap.scope_eq hscope]
    rcases HoldsFrame.find_all hframes hapart n with
      ⟨hnone, hnone'⟩ | ⟨slot, a, part, hslot, ha, hpiece, hpart, hchange⟩
    · rw [Scope.resolve, Heap.resolve, hfirst, Step.follow, Step.follow, Scope.find?, hnone, hfind, hnone']
      refine .fails (.unbound n) fun f => ?_
      rw [Scope.modify, hfirst, Step.follow, Scope.find?, hnone]
      rfl
    · have hresolve : s.resolve .empty path = slot.resolve .empty path.rest := by
        rw [Scope.resolve, hfirst, Step.follow, Scope.find?, hslot]
        rfl
      have hwalk : heap.resolve address path = heap.walk path.rest a := by
        rw [Heap.resolve, hfirst, Step.follow, hfind, ha]
        rfl
      rw [hresolve, hwalk]
      refine (hpiece.walk hpart path.rest).within (Scope.modify_found hfirst hslot .empty) ?_
      rintro heap' _ part' ⟨slot', rfl, hslot'⟩ hkept
      obtain ⟨own', hframes', hkept'⟩ := hchange heap' slot' part' hslot' hkept
      refine ⟨own', ⟨rfl, top, outer, hkept'.scopes _ _ _ hscope, ?_⟩, hkept'⟩
      rw [Scope.replace_frames]
      exact hframes'

/-- The slot at an address has the flag and shows the value of the slot of trees. -/
theorem HoldsSlot.shows {name : String} {a : Nat} {slot : Slot ε}
    (h : HoldsSlot heap (name, a) slot own) (hfresh : slot.value.Fresh) :
    (heap.slot a).1 = slot.isMutable ∧ heap.Shows (heap.slot a).2 slot.value := by
  cases h with
  | mk hslot hheld =>
    rw [Heap.slot_eq hslot]
    exact ⟨rfl, ⟨_, hheld⟩, hfresh⟩

/-- The slot of a name in a frame has the flag and shows the value of the slot of trees. -/
theorem HoldsFrame.shows {f a : Nat} {slots : List (Slot ε)} {x : String} (h : HoldsFrame heap f slots own)
    (hfresh : Fields.Fresh slots) (ha : (heap.frame f).lookup x = some a) :
    ∃ slot, Fields.find? x slots = some slot ∧ (heap.slot a).1 = slot.isMutable ∧
      heap.Shows (heap.slot a).2 slot.value := by
  cases h with
  | mk hframe hslots =>
    rw [Heap.frame_eq hframe] at ha
    rcases HoldsSlot.lookup hslots x with ⟨_, hnone⟩ | ⟨i, slot, b, hslot, hentry, hfind, hlookup, _⟩
    · cases ha.symm.trans hnone
    · obtain rfl := Option.some.inj (ha.symm.trans hlookup)
      obtain ⟨entry, part, hentry', hholds, _⟩ := hslots.get hslot
      obtain rfl := Option.some.inj (hentry.symm.trans hentry')
      exact ⟨slot, hfind, hholds.shows (hfresh.values slot (Fields.find?_mem hfind))⟩

/-- A path leads nowhere in the heap and in the tree, or to slots of the same flag and value. -/
theorem HoldsScope.resolve (h : HoldsScope heap address s own) (path : Path) :
    (∃ cause, s.resolve .empty path = .error cause ∧ heap.resolve address path = .error cause) ∨
    ∃ slot a, s.resolve .empty path = .ok slot ∧ heap.resolve address path = .ok a ∧
      (heap.slot a).1 = slot.isMutable ∧ heap.Shows (heap.slot a).2 slot.value := by
  have hnodup : (own ++ []).Nodup := by
    simpa using h.nodup
  have hwalk := h.walk hnodup path
  generalize htree : s.resolve .empty path = tree at hwalk ⊢
  generalize heap.resolve address path = found at hwalk ⊢
  cases hwalk with
  | fails cause _ => exact .inl ⟨cause, rfl, rfl⟩
  | finds hslot _ _ _ => exact .inr ⟨_, _, rfl, rfl, hslot.shows (h.fresh.resolve htree)⟩

/-- The scope is read as the scope of trees. -/
theorem HoldsScope.read (h : HoldsScope heap address s own) :
    heap.readScope heap.cells.length address = .ok s := by
  obtain ⟨top, outer, hscope, hframes⟩ := h.frames
  obtain ⟨depth, hdepth⟩ : ∃ depth, heap.cells.length = depth + 1 :=
    ⟨_, (Nat.succ_pred_eq_of_pos (Nat.zero_lt_of_lt (Heap.bound_of_cell hscope))).symm⟩
  have hread : List.Forall₂ (fun f slots => heap.readSlots (Held.read (heap.readScope depth))
      (heap.frame f) = .ok slots) (top :: outer) s.frames := by
    refine hframes.forall₂ fun f slots part hslots hframe => ?_
    have hfresh := Value.freshFields_iff.2 (h.fresh slots hslots).values
    exact hframe.read hfresh depth (Nat.le_of_lt_succ (hframe.height_lt.trans_eq hdepth))
  obtain ⟨htop, houter⟩ := List.forall₂_cons.1 hread
  rw [hdepth, Heap.readScope, Heap.scope_eq hscope]
  simp only [htop, except_mapM_eq_ok.2 houter]
  rfl

/-- A change at the end of a path changes the scope in the heap as it does the tree. -/
theorem HoldsScope.alter (h : HoldsScope heap address s own) (hapart : (own ++ built).Nodup) (path : Path)
    {f : Slot ε → Except Failure (Slot ε)} {g : Nat → Except Failure (Heap ε)}
    (hf : ∀ slot a part, HoldsSlot heap (slot.name, a) slot part → (part ++ built).Nodup →
      Alters heap built part (HoldsNamed slot.name a) (f slot) (g a))
    (hfresh : ∀ s t, s.value.Fresh → f s = .ok t → t.value.Fresh) :
    Alters heap built own (fun heap' after own' => after.2 = .empty ∧ HoldsScope heap' address after.1 own')
      (s.modify .empty path f) ((heap.resolve address path).mapError .error >>= g) := by
  have halters := (h.walk hapart path).alter hf
  generalize hafter : s.modify .empty path f = after at halters ⊢
  generalize (heap.resolve address path).mapError Failure.error >>= g = heap' at halters ⊢
  cases halters with
  | fails failure => exact .fails failure
  | changes hnew hkept =>
    exact .changes ⟨hnew.1, hnew.2, hkept.nodup, (h.fresh.modify hfresh hafter).1⟩ hkept

/-- The top frame takes a new slot in. -/
theorem HoldsScope.set (h : HoldsScope heap address s own) {held : Held ε} (slot : Slot ε)
    (hheld : Holds heap held slot.value built) (hfresh : slot.value.Fresh) (hapart : (own ++ built).Nodup) :
    ∃ own', HoldsScope (heap.set address slot.name slot.isMutable held) address (s.set slot) own' ∧
      heap.Changes (heap.set address slot.name slot.isMutable held) (built ++ [heap.cells.length])
        own own' := by
  have hbound := h.frames.bound
  obtain ⟨name, isMutable, v⟩ := slot
  obtain ⟨top, outer, hscope, hframes⟩ := h.frames
  cases hframes with
  | @cons _ _ _ _ part owns htop houter =>
    have htop' : (heap.scope address).1 = top := by rw [Heap.scope_eq hscope]
    obtain ⟨part', hnew, hkept⟩ := htop.set hheld
      (hapart.sublist ((List.sublist_append_left part owns).append_right built)) htop' name
      isMutable
    have hapart' : ((part ++ owns) ++ (built ++ [heap.cells.length])).Nodup := by
      rw [← List.append_assoc]
      refine (List.perm_append_singleton _ _).nodup_iff.2 (List.nodup_cons.2 ⟨fun hmem => ?_, hapart⟩)
      rcases List.mem_append.1 hmem with hmem | hmem
      · exact Nat.lt_irrefl _ (hbound _ hmem)
      · exact Nat.lt_irrefl _ (hheld.bound _ hmem)
    have hkept' := hkept.around [] owns hapart'
    have hnodup := (List.nodup_append.1 (List.nodup_append.1 hapart).1).2.2
    have hothers := HoldsFrame.footed.pieces.kept houter (hkept.kept
      (HoldsFrame.footed.pieces.bound houter) fun x hx hpart => hnodup x hpart x hx rfl)
    refine ⟨part' ++ owns, ⟨⟨top, outer, hkept.scopes _ _ _ hscope, .cons hnew hothers⟩, ?_, ?_⟩, hkept'⟩
    · exact hkept'.nodup
    · exact h.fresh.set hfresh

/-- A definition in the heap is one in the tree. -/
theorem HoldsScope.define (h : HoldsScope heap address s own) {held : Held ε} (slot : Slot ε)
    (hheld : Holds heap held slot.value built) (hfresh : slot.value.Fresh) (hapart : (own ++ built).Nodup) :
    (∃ cause, s.define slot = .error cause ∧
      heap.define address slot.name slot.isMutable held = .error cause) ∨
    ∃ s' heap' own', s.define slot = .ok s' ∧
      heap.define address slot.name slot.isMutable held = .ok heap' ∧ HoldsScope heap' address s' own' ∧
      heap.Changes heap' (built ++ [heap.cells.length]) own own' ∧ heap.Extends heap' := by
  obtain ⟨top, outer, hscope, hframes⟩ := h.frames
  cases hframes with
  | cons htop houter =>
    have htop' : (heap.scope address).1 = top := by rw [Heap.scope_eq hscope]
    rw [Scope.define, Fields.define, Heap.define, htop', Fields.has_eq_isSome]
    rcases htop.lookup slot.name with ⟨hnone, hnone'⟩ | ⟨_, _, hsome, hsome'⟩
    · obtain ⟨own', hset, hkept⟩ := h.set _ hheld hfresh hapart
      have hnew : Fields.has slot.name s.top = false := by rw [Fields.has_eq_isSome, hnone]; rfl
      rw [Scope.set, Fields.put_new hnew] at hset
      rw [hnone, hnone']
      refine .inr ⟨_, _, own', rfl, rfl, hset, hkept, ?_⟩
      cases htop with
      | mk hframe _ =>
        rw [Heap.frame_eq hframe] at hnone'
        exact .define htop' hframe hnone'
    · rw [hsome, hsome']
      exact .inl ⟨_, rfl, rfl⟩

/-- A nested scope has an empty frame on top of the frames of the scope around it. -/
theorem HoldsScope.nest (h : HoldsScope heap address s own) :
    heap.cells <+: (heap.nest address).2.cells ∧
      HoldsScope (heap.nest address).2 (heap.nest address).1 s.push ([heap.cells.length] ++ own) := by
  obtain ⟨top, outer, hscope, hframes⟩ := h.frames
  rw [Heap.nest, Heap.scope_eq hscope]
  have hframe := heap.adds_alloc (.frame [])
  have hnested := (heap.alloc (.frame [])).2.adds_alloc (.scope heap.cells.length (top :: outer))
  have hgrows := hframe.grows.trans hnested.grows
  have hempty : HoldsFrame (heap.alloc (.frame [])).2 heap.cells.length [] ([] ++ [heap.cells.length]) :=
    .mk (heap.alloc_cell _) .nil
  have hothers := hframes.imp fun f frame part _ hold => HoldsFrame.grows hold hgrows
  refine ⟨hgrows, ⟨_, _, Heap.alloc_cell _ _, .cons (hempty.grows hnested.grows) hothers⟩, ?_, h.fresh.push⟩
  exact List.nodup_cons.2 ⟨fun hmem => Nat.lt_irrefl _ (h.frames.bound _ hmem), h.nodup⟩

/-- The scope around a nested one. -/
theorem HoldsScope.unnest {nested f top : Nat} {outer : List Nat} (h : HoldsScope heap nested s own)
    (hnested : heap.cells[nested]? = some (.scope f (top :: outer)))
    (hscope : heap.cells[address]? = some (.scope top outer)) :
    ∃ own', HoldsScope heap address s.pop own' ∧ own'.Sublist own := by
  obtain ⟨_, _, hcell, hframes⟩ := h.frames
  cases hnested.symm.trans hcell
  have hnodup := h.nodup
  have hfresh := h.fresh
  obtain ⟨stop, _ | ⟨frame, rest⟩⟩ := s
  · cases hframes with
    | cons _ hrest => exact nomatch hrest
  · cases hframes with
    | @cons _ _ _ _ part owns _ hrest =>
      have hsub := List.sublist_append_right part owns
      exact ⟨owns, ⟨⟨top, outer, hscope, hrest⟩, hnodup.sublist hsub, hfresh.pop⟩, hsub⟩

/-- A new scope of one empty frame. -/
theorem HoldsScope.empty (heap : Heap ε) :
    let framed := (heap.alloc (.frame [])).2
    let (scope, scopes) := framed.alloc (.scope heap.cells.length [])
    heap.cells <+: scopes.cells ∧ HoldsScope scopes scope .empty [heap.cells.length] := by
  intro framed
  have hframe := heap.adds_alloc (.frame [])
  have hscope := framed.adds_alloc (.scope heap.cells.length [])
  have hempty : HoldsFrame framed heap.cells.length [] ([] ++ [heap.cells.length]) :=
    .mk (heap.alloc_cell _) .nil
  refine ⟨hframe.grows.trans hscope.grows, ⟨_, _, framed.alloc_cell _, ?_⟩, List.nodup_singleton _, ?_⟩
  · exact .cons (hempty.grows hscope.grows) .nil
  · exact List.forall_mem_singleton.2 Fields.fresh_nil

end Operations

end Scriptlet
