import Scriptlet.Proofs.DistinctNames

/-!
# Visible names

A name is looked up from the innermost frame outwards, and the search stops at the first frame that has
it.  The visible names are listed the other way round: every frame is gone through from the outermost one
inwards, and what is found under a name replaces what was found before.  Both agree, whatever the frames
are (`Enumerates`), as long as no frame has a name twice.  That none does is an invariant of scopes
(`Scope.Distinct`, `Heap.Distinct`).

A scope is looked at in two ways: in the heap, where what a name has is the address of its slot, and as a
tree of values, where it is the slot with all that is in it.  The first shows the second, entry by entry.
An object may have the frames of such a scope; it is known by what is visible in it.
-/

namespace Scriptlet

set_option autoImplicit false

variable {ε β : Type}

/-- The look-up of names in a stack of frames, the innermost of which comes first, and the listing of what
is visible in it. -/
structure Enumerates (frames : List (List (String × β))) (get : String → Except Cause β)
    (has : String → Bool) (size : Nat) (items : List (String × β)) : Prop where
  /-- No name is listed twice. -/
  nodup : (items.map Prod.fst).Nodup
  /-- What is listed under a name is what look-up finds, and nothing else. -/
  mem_iff : ∀ name b, (name, b) ∈ items ↔ get name = .ok b
  /-- A name is there if look-up does not fail. -/
  has_iff : ∀ name, has name = true ↔ ∃ b, get name = .ok b
  /-- There are as many as there are different names in the frames. -/
  size_eq : size = (frames.flatten.map Prod.fst).toFinset.card
  /-- The names are listed in the order in which they first come from the outermost frame inwards. -/
  ordered : (items.map Prod.fst).Pairwise fun x y =>
    (frames.reverse.flatten.map Prod.fst).idxOf x < (frames.reverse.flatten.map Prod.fst).idxOf y

namespace Entries

/-- Merging agrees with a search that stops at the first frame with the name. -/
theorem enumerates {frames : List (List (String × β))} (h : Distinct frames)
    {get : String → Except Cause β} {has : String → Bool}
    (hget : ∀ name b, get name = .ok b ↔ frames.findSome? (List.lookup name) = some b)
    (hhas : ∀ name, has name = (frames.findSome? (List.lookup name)).isSome) :
    Enumerates frames get has (merge (reading frames)).length (merge (reading frames)) where
  nodup := nodup_merge _
  mem_iff name b := by
    rw [← lookup_eq_some (nodup_merge _), lookup_merge_reading h, hget]
  has_iff name := by
    rw [hhas, Option.isSome_iff_exists]
    exact exists_congr fun b => (hget name b).symm
  size_eq := by
    have hset : (frames.flatten.map Prod.fst).toFinset = ((reading frames).map Prod.fst).toFinset :=
      Finset.ext fun name => by simp [reading]
    rw [hset, ← length_eraseDups, ← names_merge, List.length_map]
  ordered := by
    rw [names_merge]
    exact pairwise_idxOf_eraseDups _

end Entries

/-! ## Scopes of values -/

namespace Scope

theorem find?_entries (s : Scope ε) (name : String) :
    s.entries.findSome? (List.lookup name) = s.find? name := by
  rw [entries, List.findSome?_map, find?]
  exact congrArg (List.findSome? · s.frames) (funext fun frame => Fields.lookup_map_entry name frame)

theorem items_eq_foldl (s : Scope ε) :
    s.items = s.frames.reverse.flatten.foldl (fun seen slot => Fields.put slot seen) [] := by
  rw [items, List.foldl_flatten]

theorem map_entry_items (s : Scope ε) :
    s.items.map Slot.entry = Entries.merge (Entries.reading s.entries) := by
  rw [Entries.merge, Entries.reading, entries, ← List.map_reverse, ← List.map_flatten, List.foldl_map,
    items_eq_foldl]
  exact (List.foldl_hom (List.map Slot.entry) fun seen slot => (Fields.map_entry_put slot seen).symm).symm

theorem get_eq_ok {s : Scope ε} {name : String} {slot : Slot ε} :
    s.get name = .ok slot ↔ s.find? name = some slot := by
  rw [get]
  cases s.find? name with
  | none => exact ⟨nofun, nofun⟩
  | some found => rw [Except.ok.injEq, Option.some.injEq]

theorem has_eq_isSome (s : Scope ε) (name : String) : s.has name = (s.find? name).isSome := by
  rw [has, find?, List.isSome_findSome?]
  exact congrArg (List.any s.frames) (funext fun frame => Fields.has_eq_isSome name frame)

/-- In a scope of values, looking up and listing agree. -/
theorem enumerates (s : Scope ε) (h : s.Distinct) :
    Enumerates s.entries s.get s.has s.size (s.items.map Slot.entry) := by
  rw [size, names, List.length_map, ← List.length_map Slot.entry, map_entry_items]
  refine Entries.enumerates h (fun name slot => ?_) (fun name => ?_)
  · rw [find?_entries, get_eq_ok]
  · rw [find?_entries, has_eq_isSome]

/-! An object over several frames is one over the single frame of what is visible in them. -/

/-- The scope of one frame with all that is visible. -/
def flat (s : Scope ε) : Scope ε :=
  ⟨s.items, []⟩

theorem nodup_items (s : Scope ε) : (s.items.map Slot.name).Nodup := by
  rw [← Fields.map_fst_entry, map_entry_items]
  exact Entries.nodup_merge _

theorem items_flat (s : Scope ε) : s.flat.items = s.items :=
  items_single s.nodup_items

/-- So an object over these frames is printed alike, -/
theorem toObject_flat (s : Scope ε) : s.flat.toObject = s.toObject :=
  congrArg Value.object s.items_flat

/-- it is equal to the same objects as the scope is to scopes, -/
theorem same_toObject [BEq ε] (s t : Scope ε) : s.toObject.same t.toObject = s.same t := by
  rw [toObject, toObject, Value.same, same]

/-- and a name in it means what it means in the frames. -/
theorem find?_flat {s : Scope ε} (h : s.Distinct) (name : String) : s.flat.find? name = s.find? name := by
  rw [← find?_entries s, ← Entries.lookup_merge_reading h, ← map_entry_items, Fields.lookup_map_entry,
    find?, frames]
  exact List.findSome?_singleton

end Scope

/-! ## Scopes in a heap -/

namespace Heap

open Family (line)

theorem items_eq_merge (heap : Heap ε) (scope : Nat) :
    heap.items scope = Entries.merge (Entries.reading (heap.entries scope)) := by
  rw [Entries.merge, Entries.reading, entries, ← List.map_reverse, List.foldl_flatten, List.foldl_map]
  simp only [items, putEntry_eq]
  rfl

theorem find?_entries (heap : Heap ε) (scope : Nat) (name : String) :
    (heap.entries scope).findSome? (List.lookup name) = heap.find? scope name := by
  rw [entries, List.findSome?_map]
  rfl

theorem get_eq_ok {heap : Heap ε} {scope : Nat} {name : String} {slot : Nat} :
    heap.get scope name = .ok slot ↔ heap.find? scope name = some slot := by
  rw [get]
  cases heap.find? scope name with
  | none => exact ⟨nofun, nofun⟩
  | some found => rw [Except.ok.injEq, Option.some.injEq]

/-- In a heap, looking up and listing agree. -/
theorem enumerates (heap : Heap ε) (scope : Nat) (h : Entries.Distinct (heap.entries scope)) :
    Enumerates (heap.entries scope) (heap.get scope) (heap.has scope) (heap.size scope)
      (heap.items scope) := by
  rw [size, items_eq_merge]
  refine Entries.enumerates h (fun name slot => ?_) (fun name => ?_)
  · rw [find?_entries, get_eq_ok]
  · rw [find?_entries, find?, has, List.isSome_findSome?]

/-! ## What the heap shows -/

/-- The slot of an entry, where `read` reads what it holds. -/
def readSlot (heap : Heap ε) (read : Held ε → Except Breakdown (Value ε)) (entry : String × Nat) :
    Except Breakdown (Slot ε) :=
  (read (heap.slot entry.2).2).map fun value => ⟨entry.1, (heap.slot entry.2).1, value⟩

variable {heap : Heap ε} {read : Held ε → Except Breakdown (Value ε)}

theorem readSlots_eq_mapM (heap : Heap ε) (read : Held ε → Except Breakdown (Value ε))
    (entries : List (String × Nat)) :
    heap.readSlots read entries = entries.mapM (heap.readSlot read) := by
  induction entries with
  | nil => rfl
  | cons entry rest ih =>
    rw [List.mapM_cons, ← ih, readSlot, readSlots]
    dsimp only
    cases read (heap.slot entry.2).2 <;> rfl

/-- Slots are read entry by entry. -/
theorem readSlots_eq_ok {entries : List (String × Nat)} {slots : List (Slot ε)} :
    heap.readSlots read entries = .ok slots ↔
      List.Forall₂ (fun entry slot => heap.readSlot read entry = .ok slot) entries slots := by
  rw [readSlots_eq_mapM, except_mapM_eq_ok]

/-- A scope is read frame by frame, and each frame entry by entry. -/
theorem readScope_eq_ok {depth scope : Nat} {shown : Scope ε} :
    heap.readScope (depth + 1) scope = .ok shown ↔
      List.Forall₂ (List.Forall₂ fun entry slot =>
        heap.readSlot (Held.read (heap.readScope depth)) entry = .ok slot)
        (heap.entries scope) shown.frames := by
  rw [entries, List.forall₂_map_left_iff]
  simp only [← readSlots_eq_ok]
  rw [readScope, Scope.frames, line, List.forall₂_cons, ← except_mapM_eq_ok]
  dsimp only
  rw [except_bind_eq_ok]
  constructor
  · rintro ⟨top, htop, h⟩
    obtain ⟨outer, houter, h⟩ := except_bind_eq_ok.1 h
    obtain rfl := Except.ok.inj h
    exact ⟨htop, houter⟩
  · rintro ⟨htop, houter⟩
    exact ⟨shown.top, htop, except_bind_eq_ok.2 ⟨shown.outer, houter, rfl⟩⟩

section Shown

variable {R : String × Nat → Slot ε → Prop} (hR : ∀ entry slot, R entry slot → slot.name = entry.1)
include hR

theorem names_shown {entries : List (String × Nat)} {slots : List (Slot ε)}
    (h : List.Forall₂ R entries slots) :
    (slots.map Slot.entry).map Prod.fst = entries.map Prod.fst := by
  induction h with
  | nil => rfl
  | cons hfirst _ ih => rw [List.map_cons, List.map_cons, List.map_cons, ih, ← hR _ _ hfirst]; rfl

theorem put_shown {entry : String × Nat} {slot : Slot ε} {entries : List (String × Nat)}
    {slots : List (Slot ε)} (hentry : R entry slot) (h : List.Forall₂ R entries slots) :
    List.Forall₂ R (Entries.put entry entries) (Fields.put slot slots) := by
  induction h with
  | nil => exact .cons hentry .nil
  | @cons e s _ _ hfirst hrest ih =>
    rw [Entries.put, Fields.put, hR _ _ hfirst, hR _ _ hentry]
    by_cases hname : e.1 = entry.1
    · rw [if_pos hname, if_pos (beq_iff_eq.2 hname)]
      exact .cons hentry hrest
    · rw [if_neg hname, if_neg (by simpa using hname)]
      exact .cons hfirst ih

/-- Frames that are shown entry by entry have lists of visible names that are shown so. -/
theorem items_shown {frames : List (List (String × Nat))} {shown : Scope ε}
    (h : List.Forall₂ (List.Forall₂ R) frames shown.frames) :
    List.Forall₂ R (Entries.merge (Entries.reading frames)) shown.items := by
  rw [Scope.items_eq_foldl]
  have hreading : List.Forall₂ R (Entries.reading frames) shown.frames.reverse.flatten :=
    List.rel_flatten (List.rel_reverse h)
  exact List.rel_foldl (P := List.Forall₂ R) (R := R)
    (fun _ _ hseen _ _ hentry => put_shown hR hentry hseen) .nil hreading

theorem distinct_shown {frames : List (List (String × Nat))} {shown : List (List (Slot ε))}
    (h : List.Forall₂ (List.Forall₂ R) frames shown) (hframes : Entries.Distinct frames) :
    Entries.Distinct (shown.map (·.map Slot.entry)) := by
  induction h with
  | nil => exact List.forall_mem_nil _
  | cons hfirst _ ih =>
    obtain ⟨hframe, hrest⟩ := List.forall_mem_cons.1 hframes
    refine List.forall_mem_cons.2 ⟨?_, ih hrest⟩
    rwa [names_shown hR hfirst]

end Shown

theorem readSlot_name (entry : String × Nat) (slot : Slot ε) (h : heap.readSlot read entry = .ok slot) :
    slot.name = entry.1 := by
  obtain ⟨v, _, rfl⟩ := except_map_eq_ok.1 h
  rfl

/-- The listed entries of a scope are read as the visible slots of what the scope shows. -/
theorem readSlots_items {depth scope : Nat} {shown : Scope ε}
    (h : heap.readScope (depth + 1) scope = .ok shown) :
    heap.readSlots (Held.read (heap.readScope depth)) (heap.items scope) = .ok shown.items := by
  rw [readSlots_eq_ok, items_eq_merge]
  exact items_shown readSlot_name (readScope_eq_ok.1 h)

/-- An object that is held is read from the listed entries of its scope alone, whatever its frames are. -/
theorem read_object {depth scope : Nat} {shown : Scope ε}
    (h : heap.readScope (depth + 1) scope = .ok shown) :
    Held.read (heap.readScope (depth + 1)) (.object scope) =
      (heap.readSlots (Held.read (heap.readScope depth)) (heap.items scope)).map .object := by
  rw [readSlots_items h, Held.read, h]
  rfl

end Heap

/-! ## Results -/

/-- **Looking up and listing.**  Take any scope, with any frames in each of which the names are different,
as a tree of values or in a heap.  The names that it lists are different and stand in the order in which
they first come when the frames are read from the outermost one inwards; it lists under a name the very
slot that look-up finds, and nothing under a name that look-up does not find; and there are as many as the
frames have different names.  What a heap shows of its scope is again such a scope, and the slots that it
lists show, one by one, what this lists. -/
theorem lookup_and_items_agree :
    (∀ s : Scope ε, Entries.Distinct s.entries →
      Enumerates s.entries s.get s.has s.size (s.items.map Slot.entry)) ∧
    ∀ (heap : Heap ε) (scope : Nat), Entries.Distinct (heap.entries scope) →
      Enumerates (heap.entries scope) (heap.get scope) (heap.has scope) (heap.size scope)
        (heap.items scope) ∧
      ∀ depth shown, heap.readScope (depth + 1) scope = .ok shown →
        Entries.Distinct shown.entries ∧
        heap.readSlots (Held.read (heap.readScope depth)) (heap.items scope) = .ok shown.items := by
  refine ⟨Scope.enumerates, fun heap scope h => ⟨heap.enumerates scope h, fun depth shown hshown => ?_⟩⟩
  have hframes := Heap.readScope_eq_ok.1 hshown
  exact ⟨Heap.distinct_shown Heap.readSlot_name hframes h, Heap.readSlots_items hshown⟩

/-- A name that is defined again in a nested scope keeps its place in the list, with the new slot. -/
theorem lookup_and_items_agree_shadowed :
    let ops : List (Family.Operation Empty) :=
      [.define 0 ⟨"x", true, .number 1⟩, .define 0 ⟨"y", true, .number 2⟩, .nest 0,
        .define 1 ⟨"z", false, .null⟩, .define 1 ⟨"x", false, .number 3⟩]
    let s := (Scopes.single : Scopes Empty).after ops
    let shown : Scope Empty :=
      ⟨[⟨"z", false, .null⟩, ⟨"x", false, .number 3⟩], [[⟨"x", true, .number 1⟩, ⟨"y", true, .number 2⟩]]⟩
    Entries.Distinct (s.heap.entries 5) ∧ s.heap.items 5 = [("x", 7), ("y", 3), ("z", 6)] ∧
      s.heap.get 5 "x" = .ok 7 ∧ s.view? 1 = some shown ∧ Entries.Distinct shown.entries ∧
      shown.items = [⟨"x", false, .number 3⟩, ⟨"y", true, .number 2⟩, ⟨"z", false, .null⟩] ∧
      shown.get "x" = .ok ⟨"x", false, .number 3⟩ := by
  intro ops s shown
  have hfresh : ∀ op ∈ ops, op.Fresh := by
    simp [ops, Family.Operation.Fresh, Value.Fresh]
  have hitems : s.heap.items 5 = [("x", 7), ("y", 3), ("z", 6)] := by decide
  have hshown : s.heap.readScope 8 5 = .ok shown := rfl
  have hvalues : shown.items =
    [⟨"x", false, .number 3⟩, ⟨"y", true, .number 2⟩, ⟨"z", false, .null⟩] := rfl
  have hdistinct := (Scopes.distinct_after hfresh).entries 5
  obtain ⟨hagree, hshows⟩ := lookup_and_items_agree.2 s.heap 5 hdistinct
  have hdistinct' := (hshows 7 shown hshown).1
  have hagree' := lookup_and_items_agree.1 shown hdistinct'
  refine ⟨hdistinct, hitems, ?_, rfl, hdistinct', hvalues, ?_⟩
  · rw [← hagree.mem_iff, hitems]
    exact List.mem_cons_self
  · rw [← hagree'.mem_iff, hvalues]
    exact List.mem_cons_self

end Scriptlet
