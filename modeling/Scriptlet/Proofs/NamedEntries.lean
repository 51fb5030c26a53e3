import Mathlib.Data.Finset.Card
import Mathlib.Data.List.Induction
import Scriptlet.Scope

/-!
# Entries by name

Entries are put into a list one after the other; an entry whose name is there takes the place of the one
that has it.  What comes of it (`merge`) has each name once, in the order in which the names first come,
each with what it was last given.

A stack of lists of entries, in each of which the names are different, may be searched from its top, or
merged from its bottom.  A name has the same in both (`lookup_merge_reading`).
-/

namespace Scriptlet

set_option autoImplicit false

/-! ## First occurrences -/

section EraseDups

variable {α : Type} [DecidableEq α]

theorem eraseDups_concat (l : List α) (a : α) :
    (l ++ [a]).eraseDups = if a ∈ l then l.eraseDups else l.eraseDups ++ [a] := by
  rw [List.eraseDups_append]
  split
  · next h => simp [List.removeAll, h]
  · next h => simp [List.removeAll, h, List.eraseDups_cons]

/-- What is left of a list stands in the order of the first occurrences. -/
theorem pairwise_idxOf_eraseDups (l : List α) :
    l.eraseDups.Pairwise fun a b => l.idxOf a < l.idxOf b := by
  induction l using List.reverseRecOn with
  | nil => exact List.Pairwise.nil
  | append_singleton l c ih =>
    have hold : ∀ a ∈ l.eraseDups, (l ++ [c]).idxOf a = l.idxOf a := fun a ha =>
      List.idxOf_append_of_mem (List.mem_eraseDups.1 ha)
    have hkept : l.eraseDups.Pairwise fun a b => (l ++ [c]).idxOf a < (l ++ [c]).idxOf b := by
      refine ih.imp_of_mem fun ha hb hlt => ?_
      rwa [hold _ ha, hold _ hb]
    rw [eraseDups_concat]
    split
    · exact hkept
    · next hc =>
      refine List.pairwise_append.2 ⟨hkept, List.pairwise_singleton _ c, fun a ha b hb => ?_⟩
      obtain rfl := List.mem_singleton.1 hb
      rw [hold a ha, List.idxOf_append_of_notMem hc]
      exact Nat.lt_add_right _ (List.idxOf_lt_length_of_mem (List.mem_eraseDups.1 ha))

theorem nodup_eraseDups (l : List α) : l.eraseDups.Nodup := by
  refine (pairwise_idxOf_eraseDups l).imp fun hlt heq => ?_
  rw [heq] at hlt
  exact Nat.lt_irrefl _ hlt

theorem eraseDups_sublist (l : List α) : l.eraseDups.Sublist l := by
  induction l using List.reverseRecOn with
  | nil => exact List.Sublist.refl _
  | append_singleton l a ih =>
    rw [eraseDups_concat]
    split
    · exact ih.trans (List.sublist_append_left l [a])
    · exact ih.append_right [a]

theorem length_eraseDups_eq_iff (l : List α) : l.eraseDups.length = l.length ↔ l.Nodup := by
  constructor
  · intro h
    exact (eraseDups_sublist l).eq_of_length h ▸ nodup_eraseDups l
  · intro h
    induction l using List.reverseRecOn with
    | nil => rfl
    | append_singleton l a ih =>
      obtain ⟨hl, _, hapart⟩ := List.nodup_append.1 h
      have ha : a ∉ l := fun ha => hapart a ha a List.mem_cons_self rfl
      rw [eraseDups_concat, if_neg ha, List.length_append, List.length_append, ih hl]

/-- What is left of a list is as long as it has different elements. -/
theorem length_eraseDups (l : List α) : l.eraseDups.length = l.toFinset.card := by
  have hset : l.eraseDups.toFinset = l.toFinset :=
    Finset.ext fun a => by rw [List.mem_toFinset, List.mem_toFinset, List.mem_eraseDups]
  rw [← hset, List.toFinset_card_of_nodup (nodup_eraseDups l)]

end EraseDups

namespace Entries

variable {β : Type}

/-! ## Looking up -/

theorem lookup_cons_ite (entry : String × β) (entries : List (String × β)) (name : String) :
    (entry :: entries).lookup name = if name = entry.1 then some entry.2 else entries.lookup name := by
  rw [List.lookup_cons]
  split
  · next h => rw [if_pos (beq_iff_eq.1 h)]
  · next h => rw [if_neg (beq_eq_false_iff_ne.1 h)]

/-- A name has what it is looked up to have, if the names are different. -/
theorem lookup_eq_some {entries : List (String × β)} (h : (entries.map Prod.fst).Nodup) {name : String}
    {b : β} : entries.lookup name = some b ↔ (name, b) ∈ entries := by
  induction entries with
  | nil => simp
  | cons entry rest ih =>
    obtain ⟨n, c⟩ := entry
    rw [List.map_cons, List.nodup_cons] at h
    rw [lookup_cons_ite, List.mem_cons, Prod.mk.injEq]
    split
    · next hn =>
      have hrest : (name, b) ∉ rest := fun hmem => h.1 (hn ▸ List.mem_map_of_mem (f := Prod.fst) hmem)
      simp [hn, hn ▸ hrest, eq_comm]
    · next hn => simp [hn, ih h.2]

theorem lookup_reverse {entries : List (String × β)} (h : (entries.map Prod.fst).Nodup) (name : String) :
    entries.reverse.lookup name = entries.lookup name := by
  have hreverse : (entries.reverse.map Prod.fst).Nodup := by
    rwa [List.map_reverse, List.nodup_reverse]
  refine Option.ext fun b => ?_
  rw [lookup_eq_some hreverse, lookup_eq_some h, List.mem_reverse]

/-- Entries of different names are what their names are looked up to have. -/
theorem eq_filterMap_lookup {entries : List (String × β)} (h : (entries.map Prod.fst).Nodup) :
    entries = (entries.map Prod.fst).filterMap fun name =>
      (entries.lookup name).map fun b => (name, b) := by
  have hentry : ∀ entry ∈ entries,
      ((entries.lookup entry.1).map fun b => (entry.1, b)) = some entry := fun entry hentry => by
    rw [(lookup_eq_some h).2 hentry]
    rfl
  rw [List.filterMap_map]
  exact ((List.filterMap_congr hentry).trans List.filterMap_some).symm

/-! ## Putting -/

/-- Puts an entry in the place of the one of the same name, or at the end. -/
def put (entry : String × β) : List (String × β) → List (String × β)
  | [] => [entry]
  | e :: rest => if e.1 = entry.1 then entry :: rest else e :: put entry rest

theorem names_put (entry : String × β) (entries : List (String × β)) :
    (put entry entries).map Prod.fst =
      if entry.1 ∈ entries.map Prod.fst then entries.map Prod.fst
      else entries.map Prod.fst ++ [entry.1] := by
  induction entries with
  | nil => rfl
  | cons e rest ih =>
    rw [put, List.map_cons]
    by_cases he : e.1 = entry.1
    · rw [if_pos he, he, if_pos List.mem_cons_self, List.map_cons]
    · rw [if_neg he, List.map_cons, ih]
      by_cases hmem : entry.1 ∈ rest.map Prod.fst
      · rw [if_pos hmem, if_pos (List.mem_cons_of_mem _ hmem)]
      · rw [if_neg hmem, if_neg (List.not_mem_cons_of_ne_of_not_mem (Ne.symm he) hmem),
          List.cons_append]

theorem nodup_put {entry : String × β} {entries : List (String × β)} (h : (entries.map Prod.fst).Nodup) :
    ((put entry entries).map Prod.fst).Nodup := by
  rw [names_put]
  split
  · exact h
  · next hmem =>
    refine List.nodup_append.2 ⟨h, List.pairwise_singleton _ _, ?_⟩
    rintro name hname _ hentry rfl
    exact hmem (List.mem_singleton.1 hentry ▸ hname)

/-- An entry is found after it was put, and no other name is touched. -/
theorem lookup_put (entry : String × β) (entries : List (String × β)) (name : String) :
    (put entry entries).lookup name = if name = entry.1 then some entry.2 else entries.lookup name := by
  induction entries with
  | nil => exact lookup_cons_ite entry [] name
  | cons e rest ih =>
    rw [put]
    split
    · next he =>
      rw [lookup_cons_ite, lookup_cons_ite, he]
      split <;> rfl
    · next he =>
      rw [lookup_cons_ite, lookup_cons_ite, ih]
      split
      · next hname => rw [if_neg (hname ▸ he)]
      · rfl

theorem put_new {entry : String × β} {entries : List (String × β)} (h : entry.1 ∉ entries.map Prod.fst) :
    put entry entries = entries ++ [entry] := by
  induction entries with
  | nil => rfl
  | cons e rest ih =>
    rw [List.map_cons, List.mem_cons, not_or] at h
    rw [put, if_neg (Ne.symm h.1), ih h.2, List.cons_append]

/-! ## Merging -/

/-- What comes of entries that are put one after the other. -/
def merge (entries : List (String × β)) : List (String × β) :=
  entries.foldl (fun seen entry => put entry seen) []

theorem merge_concat (entries : List (String × β)) (entry : String × β) :
    merge (entries ++ [entry]) = put entry (merge entries) := by
  rw [merge, List.foldl_append]
  rfl

/-- The names stand in the order in which they first come. -/
theorem names_merge (entries : List (String × β)) :
    (merge entries).map Prod.fst = (entries.map Prod.fst).eraseDups := by
  induction entries using List.reverseRecOn with
  | nil => rfl
  | append_singleton entries entry ih =>
    rw [merge_concat, names_put, ih, List.map_append, List.map_singleton, eraseDups_concat]
    simp only [List.mem_eraseDups]

theorem nodup_merge (entries : List (String × β)) : ((merge entries).map Prod.fst).Nodup := by
  rw [names_merge]
  exact nodup_eraseDups _

/-- A name has what it was last given. -/
theorem lookup_merge (entries : List (String × β)) (name : String) :
    (merge entries).lookup name = entries.reverse.lookup name := by
  induction entries using List.reverseRecOn with
  | nil => rfl
  | append_singleton entries entry ih =>
    rw [merge_concat, lookup_put, ih, List.reverse_concat, lookup_cons_ite]

/-- The names in the order in which they first come, each with what it was last given. -/
theorem merge_eq_filterMap (entries : List (String × β)) :
    merge entries = (entries.map Prod.fst).eraseDups.filterMap fun name =>
      (entries.reverse.lookup name).map fun b => (name, b) := by
  simp only [← names_merge, ← lookup_merge]
  exact eq_filterMap_lookup (nodup_merge entries)

theorem merge_distinct {entries : List (String × β)} (h : (entries.map Prod.fst).Nodup) :
    merge entries = entries := by
  induction entries using List.reverseRecOn with
  | nil => rfl
  | append_singleton entries entry ih =>
    rw [List.map_append, List.nodup_append] at h
    have hnew : entry.1 ∉ entries.map Prod.fst := fun hmem => h.2.2 _ hmem _ List.mem_cons_self rfl
    rw [merge_concat, ih h.1, put_new hnew]

/-! ## Stacks of frames -/

/-- In each frame the names are different. -/
def Distinct (frames : List (List (String × β))) : Prop :=
  ∀ frame ∈ frames, (frame.map Prod.fst).Nodup

/-- The entries of a stack of frames, the innermost of which comes first, as they are read from the
outermost frame inwards. -/
def reading (frames : List (List (String × β))) : List (String × β) :=
  frames.reverse.flatten

/-- What comes last in the reading of the frames is what is found first from the innermost one outwards. -/
theorem lookup_reverse_reading {frames : List (List (String × β))} (h : Distinct frames) (name : String) :
    (reading frames).reverse.lookup name = frames.findSome? (List.lookup name) := by
  rw [reading, List.reverse_flatten, List.map_reverse, List.reverse_reverse]
  induction frames with
  | nil => rfl
  | cons frame rest ih =>
    obtain ⟨hframe, hrest⟩ := List.forall_mem_cons.1 h
    rw [List.map_cons, List.flatten_cons, List.lookup_append, lookup_reverse hframe, ih hrest,
      List.findSome?_cons]
    cases frame.lookup name <;> rfl

/-- Frames that are merged from the outermost one inwards have under each name what is found first from
the innermost one outwards. -/
theorem lookup_merge_reading {frames : List (List (String × β))} (h : Distinct frames) (name : String) :
    (merge (reading frames)).lookup name = frames.findSome? (List.lookup name) := by
  rw [lookup_merge, lookup_reverse_reading h]

end Entries

/-! ## Slots by name -/

variable {ε : Type}

/-- A slot under its name. -/
def Slot.entry (slot : Slot ε) : String × Slot ε :=
  (slot.name, slot)

namespace Fields

theorem map_entry_put (slot : Slot ε) (fields : List (Slot ε)) :
    (put slot fields).map Slot.entry = Entries.put slot.entry (fields.map Slot.entry) := by
  induction fields with
  | nil => rfl
  | cons s rest ih =>
    rw [put, List.map_cons, Entries.put, ← ih]
    by_cases hs : s.name = slot.name
    · rw [if_pos (beq_iff_eq.2 hs), List.map_cons]
      exact (if_pos hs).symm
    · rw [if_neg (by simpa using hs), List.map_cons]
      exact (if_neg hs).symm

theorem lookup_map_entry (name : String) (fields : List (Slot ε)) :
    (fields.map Slot.entry).lookup name = find? name fields := by
  induction fields with
  | nil => rfl
  | cons s rest ih =>
    rw [List.map_cons, Entries.lookup_cons_ite, ih, find?, find?, List.find?_cons]
    cases hs : s.name == name with
    | true => exact if_pos (beq_iff_eq.1 hs).symm
    | false => exact if_neg (Ne.symm (beq_eq_false_iff_ne.1 hs))

end Fields

end Scriptlet
