import Scriptlet.Proofs.FreshValues
import Scriptlet.Scope.Family

/-!
# Families of scopes

The operations on a family go through the handle of one scope each.  An operation changes the frames of
its own scope and no others, so that what it leaves alone is told by the numbers of the frames: two
scopes have a frame in common only if they have all the frames around it in common as well
(`Layered.around`).  Hence a copy and all that is nested in it have nothing in common with the original
and all that is nested in that, and a nested scope has a top frame that the scope around it does not
have (`scopes_independent`).
-/

namespace Scriptlet

set_option autoImplicit false

variable {ε : Type}

/-! ## Operations -/

namespace Family

/-- What is done through the handle of a scope. -/
inductive Operation (ε : Type) where
  | define (handle : Nat) (slot : Slot ε)
  | set (handle : Nat) (slot : Slot ε)
  /-- Assigns to a name, or to a field of the object there. -/
  | assign (handle : Nat) (path : Path) (v : Value ε)
  | nest (handle : Nat)
  | copy (handle : Nat)

namespace Operation

/-- The handle of the scope that the operation goes through. -/
def handle : Operation ε → Nat
  | define h _ | set h _ | assign h _ _ | nest h | copy h => h

/-- What an operation makes of its scope, if it does not fail. -/
def change? : Operation ε → Scope ε → Option (Scope ε)
  | define _ slot, s => (s.define slot).toOption
  | set _ slot, s => some (s.set slot)
  | assign _ path v, s => ((s.assign .empty path v).map (·.1)).toOption
  | nest _, _ | copy _, _ => none

/-- The value that is handed in was built for this operation. -/
def Fresh : Operation ε → Prop
  | define _ slot | set _ slot => slot.value.Fresh
  | assign _ _ v => v.Fresh
  | nest _ | copy _ => True

theorem length_replaceIn (slot : Slot ε) (frames : List (List (Slot ε))) :
    (Scope.replaceIn slot frames).length = frames.length := by
  induction frames with
  | nil => rfl
  | cons frame rest ih =>
    rw [Scope.replaceIn]
    split
    · rfl
    · rw [List.length_cons, ih, List.length_cons]

/-- A change keeps a scope fresh and the number of its frames. -/
theorem change?_frames (op : Operation ε) {s t : Scope ε} (hs : s.Fresh) (hop : op.Fresh)
    (ht : op.change? s = some t) : t.Fresh ∧ t.frames.length = s.frames.length := by
  cases op with
  | define _ slot =>
    have hd := toOption_eq_some.1 ht
    obtain ⟨_, rfl⟩ := Scope.define_eq hd
    exact ⟨hs.define hop hd, rfl⟩
  | set _ slot =>
    obtain rfl := Option.some.inj ht
    exact ⟨hs.set hop, rfl⟩
  | assign _ path v =>
    obtain ⟨⟨_, store⟩, ha, rfl⟩ := except_map_eq_ok.1 (toOption_eq_some.1 ht)
    obtain ⟨hfresh, changed, rfl⟩ := hs.assign hop ha
    exact ⟨hfresh, by rw [Scope.replace_frames, length_replaceIn]⟩
  | nest _ => cases ht
  | copy _ => cases ht

end Operation

/-- The family after an operation.  One that fails changes nothing. -/
def apply (fam : Family ε) (op : Operation ε) : Family ε :=
  match op with
  | .nest h => fam.nest h
  | .copy h => fam.copy h
  | op =>
    match (fam.view? op.handle).bind op.change? with
    | some s => fam.store op.handle s
    | none => fam

/-- The family after a sequence of operations. -/
def after (fam : Family ε) (ops : List (Operation ε)) : Family ε :=
  ops.foldl apply fam

/-! ## Frames of a scope -/

/-- The numbers of the frames of a scope, the top one first. -/
def line (ids : Nat × List Nat) : List Nat :=
  ids.1 :: ids.2

/-- The scope of some frames. -/
def scope (fam : Family ε) (ids : Nat × List Nat) : Scope ε :=
  ⟨fam.frame ids.1, ids.2.map fam.frame⟩

theorem frames_scope (fam : Family ε) (ids : Nat × List Nat) :
    (fam.scope ids).frames = (line ids).map fam.frame := rfl

variable {fam : Family ε} {h : Nat} {ids : Nat × List Nat} {s t : Scope ε}

theorem frame_eq_getElem {i : Nat} (hi : i < fam.frames.length) : fam.frame i = fam.frames[i] := by
  rw [frame, List.getD_eq_getElem?_getD, List.getElem?_eq_getElem hi, Option.getD_some]

theorem view?_eq (hids : fam.scopes[h]? = some ids) : fam.view? h = some (fam.scope ids) := by
  rw [view?, hids]
  rfl

theorem view?_eq_some (hs : fam.view? h = some s) :
    ∃ ids, fam.scopes[h]? = some ids ∧ s = fam.scope ids := by
  obtain ⟨ids, hids, rfl⟩ := Option.map_eq_some_iff.1 hs
  exact ⟨ids, hids, rfl⟩

/-- What an operation can do: nothing, a change of its scope, a nested scope or a copy. -/
inductive Effect (fam : Family ε) (op : Operation ε) : Family ε → Prop
  | none : Effect fam op fam
  | change {ids : Nat × List Nat} {t : Scope ε} (hids : fam.scopes[op.handle]? = some ids)
      (ht : op.change? (fam.scope ids) = some t) : Effect fam op (fam.store op.handle t)
  | nest {ids : Nat × List Nat} (hids : fam.scopes[op.handle]? = some ids)
      (hop : op = .nest op.handle) :
      Effect fam op ⟨fam.frames ++ [[]], fam.scopes ++ [(fam.frames.length, line ids)]⟩
  | copy {ids : Nat × List Nat} (hids : fam.scopes[op.handle]? = some ids)
      (hop : op = .copy op.handle) :
      Effect fam op ⟨fam.frames ++ (fam.scope ids).frames,
        fam.scopes ++ [(fam.frames.length, List.range' (fam.frames.length + 1) ids.2.length)]⟩

theorem apply_effect (fam : Family ε) (op : Operation ε) : Effect fam op (fam.apply op) := by
  have hchange : Effect fam op (match (fam.view? op.handle).bind op.change? with
      | some s => fam.store op.handle s
      | none => fam) := by
    cases hids : fam.scopes[op.handle]? with
    | none =>
      rw [view?, hids]
      exact .none
    | some ids =>
      rw [view?_eq hids, Option.bind_some]
      cases ht : op.change? (fam.scope ids) with
      | none => exact .none
      | some t => exact .change hids ht
  cases op with
  | define _ _ => exact hchange
  | set _ _ => exact hchange
  | assign _ _ _ => exact hchange
  | nest h =>
    rw [apply, Family.nest]
    cases hids : fam.scopes[h]? with
    | none => exact .none
    | some ids => exact .nest hids rfl
  | copy h =>
    rw [apply, Family.copy]
    cases hids : fam.scopes[h]? with
    | none => exact .none
    | some ids => exact .copy hids rfl

/-- Frames that are replaced one after the other. -/
theorem frame_replaced {ids : List Nat} {news frames : List (List (Slot ε))} (hids : ids.Nodup)
    (hbound : ∀ i ∈ ids, i < frames.length) (hlength : news.length = ids.length) :
    let replaced := (ids.zip news).foldl (fun fs p => fs.set p.1 p.2) frames
    replaced.length = frames.length ∧ (∀ i ∉ ids, replaced.getD i [] = frames.getD i []) ∧
      ids.map (replaced.getD · []) = news := by
  induction ids generalizing news frames with
  | nil =>
    obtain rfl := List.eq_nil_of_length_eq_zero hlength
    exact ⟨rfl, fun _ _ => rfl, rfl⟩
  | cons i rest ih =>
    cases news with
    | nil => cases hlength
    | cons new news =>
      rw [List.nodup_cons] at hids
      rw [List.forall_mem_cons] at hbound
      have hrest : ∀ j ∈ rest, j < (frames.set i new).length :=
        fun j hj => List.length_set.symm ▸ hbound.2 j hj
      obtain ⟨hsize, hother, hnews⟩ := ih hids.2 hrest (Nat.succ.inj hlength)
      refine ⟨hsize.trans List.length_set, fun j hj => ?_, ?_⟩
      · rw [List.mem_cons, not_or] at hj
        refine (hother j hj.2).trans ?_
        simp [List.getD_eq_getElem?_getD, Ne.symm hj.1]
      · rw [List.map_cons]
        refine List.cons_eq_cons.2 ⟨?_, hnews⟩
        refine (hother i hids.1).trans ?_
        simp [List.getD_eq_getElem?_getD, hbound.1]

/-! ## Layers -/

/-- What holds of every family that grows out of a single scope by operations with fresh values. -/
structure Layered (fam : Family ε) : Prop where
  bound : ∀ ids ∈ fam.scopes, ∀ i ∈ line ids, i < fam.frames.length
  nodup : ∀ ids ∈ fam.scopes, (line ids).Nodup
  /-- Scopes that have a frame in common have all frames around it in common. -/
  around : ∀ ids ∈ fam.scopes, ∀ ids' ∈ fam.scopes, ∀ i ∈ line ids, i ∈ line ids' →
    (line ids).dropWhile (· ≠ i) = (line ids').dropWhile (· ≠ i)
  fresh : ∀ frame ∈ fam.frames, Fields.Fresh frame

theorem single_layered : (single : Family ε).Layered where
  bound := by simp [single, line]
  nodup := by simp [single, line]
  around := by simp [single, line]
  fresh := by simpa [single] using Fields.fresh_nil

namespace Layered

theorem frame_fresh (hfam : fam.Layered) (i : Nat) : Fields.Fresh (fam.frame i) := by
  rw [frame, List.getD_eq_getElem?_getD]
  cases hi : fam.frames[i]? with
  | none => exact Fields.fresh_nil
  | some frame => exact hfam.fresh frame (List.mem_of_getElem? hi)

theorem scope_fresh (hfam : fam.Layered) (ids : Nat × List Nat) : (fam.scope ids).Fresh := by
  rw [Scope.Fresh, frames_scope, List.forall_mem_map]
  exact fun i _ => hfam.frame_fresh i

/-- A scope may be added if, where it shares a frame with another one, it shares those around it. -/
theorem add (hfam : fam.Layered) {new : Nat × List Nat} {frames : List (List (Slot ε))}
    (hbound : ∀ i ∈ line new, i < fam.frames.length + frames.length) (hnodup : (line new).Nodup)
    (haround : ∀ ids ∈ fam.scopes, ∀ i ∈ line new, i ∈ line ids →
      (line new).dropWhile (· ≠ i) = (line ids).dropWhile (· ≠ i))
    (hfresh : ∀ frame ∈ frames, Fields.Fresh frame) :
    Layered ⟨fam.frames ++ frames, fam.scopes ++ [new]⟩ where
  bound ids hids i hi := by
    rw [List.length_append]
    rcases List.mem_append.1 hids with hids | hids
    · exact Nat.lt_add_right _ (hfam.bound ids hids i hi)
    · rw [List.mem_singleton.1 hids] at hi
      exact hbound i hi
  nodup ids hids := by
    rcases List.mem_append.1 hids with hids | hids
    · exact hfam.nodup ids hids
    · rwa [List.mem_singleton.1 hids]
  around ids hids ids' hids' i hi hi' := by
    rcases List.mem_append.1 hids with hids | hids <;> rcases List.mem_append.1 hids' with hids' | hids'
    · exact hfam.around ids hids ids' hids' i hi hi'
    · rw [List.mem_singleton.1 hids'] at hi' ⊢
      exact (haround ids hids i hi' hi).symm
    · rw [List.mem_singleton.1 hids] at hi ⊢
      exact haround ids' hids' i hi hi'
    · rw [List.mem_singleton.1 hids, List.mem_singleton.1 hids']
  fresh frame hframe := by
    rcases List.mem_append.1 hframe with hframe | hframe
    · exact hfam.fresh frame hframe
    · exact hfresh frame hframe

theorem nest (hfam : fam.Layered) (hids : ids ∈ fam.scopes) :
    Layered ⟨fam.frames ++ [[]], fam.scopes ++ [(fam.frames.length, line ids)]⟩ := by
  have hnew : ∀ ids' ∈ fam.scopes, fam.frames.length ∉ line ids' :=
    fun ids' hids' h => Nat.lt_irrefl _ (hfam.bound ids' hids' _ h)
  refine hfam.add ?_ (List.nodup_cons.2 ⟨hnew ids hids, hfam.nodup ids hids⟩) ?_
    (List.forall_mem_singleton.2 Fields.fresh_nil)
  · refine List.forall_mem_cons.2 ⟨by simp, fun i hi => ?_⟩
    exact Nat.lt_add_right _ (hfam.bound ids hids i hi)
  · intro ids' hids' i hi hi'
    have hne : fam.frames.length ≠ i := fun he => hnew ids' hids' (he ▸ hi')
    rcases List.mem_cons.1 hi with rfl | hi
    · exact (hne rfl).elim
    · rw [line, List.dropWhile_cons_of_pos (by simpa using hne)]
      exact hfam.around ids hids ids' hids' i hi hi'

theorem copy (hfam : fam.Layered) (ids : Nat × List Nat) :
    Layered ⟨fam.frames ++ (fam.scope ids).frames,
      fam.scopes ++ [(fam.frames.length, List.range' (fam.frames.length + 1) ids.2.length)]⟩ := by
  have hline : line (fam.frames.length, List.range' (fam.frames.length + 1) ids.2.length) =
      List.range' fam.frames.length (ids.2.length + 1) := List.range'_succ.symm
  refine hfam.add ?_ ?_ ?_ (hfam.scope_fresh ids)
  · intro i hi
    rw [hline, List.mem_range'_1] at hi
    rw [frames_scope, List.length_map]
    exact hi.2
  · rw [hline]
    exact List.nodup_range'
  · intro ids' hids' i hi hi'
    rw [hline, List.mem_range'_1] at hi
    exact (Nat.not_le_of_lt (hfam.bound ids' hids' i hi') hi.1).elim

variable (hfam : fam.Layered) (hids : fam.scopes[h]? = some ids)
  (hlength : t.frames.length = (fam.scope ids).frames.length)
include hfam hids hlength

theorem store_eq : fam.store h t = { fam with frames := (fam.store h t).frames } ∧
    (fam.store h t).frames.length = fam.frames.length ∧
    (∀ i ∉ line ids, (fam.store h t).frame i = fam.frame i) ∧ (fam.store h t).scope ids = t := by
  have hmem := List.mem_of_getElem? hids
  rw [frames_scope, List.length_map] at hlength
  obtain ⟨hsize, hother, hnews⟩ := frame_replaced (hfam.nodup ids hmem) (hfam.bound ids hmem) hlength
  have hstore : fam.store h t = { fam with
      frames := ((line ids).zip t.frames).foldl (fun fs p => fs.set p.1 p.2) fam.frames } := by
    rw [store, hids]
    rfl
  rw [hstore]
  refine ⟨rfl, hsize, hother, ?_⟩
  obtain ⟨top, outer⟩ := t
  rw [scope, Scope.mk.injEq]
  exact List.cons_eq_cons.1 hnews

/-- A scope in which a single frame has changed. -/
theorem store_frame {i : Nat} {new : List (Slot ε)}
    (ht : t.frames = (line ids).map fun j => if j = i then new else fam.frame j) (hi : i ∈ line ids) :
    fam.store h t = ⟨fam.frames.set i new, fam.scopes⟩ := by
  have hbound := hfam.bound ids (List.mem_of_getElem? hids)
  obtain ⟨hstore, hsize, hother, hscope⟩ := hfam.store_eq hids hlength
  rw [hstore, Family.mk.injEq]
  refine ⟨List.ext_getElem (by rw [hsize, List.length_set]) fun j hj hj' => ?_, rfl⟩
  have hj₀ : j < fam.frames.length := hsize ▸ hj
  rw [← frame_eq_getElem hj, List.getElem_set, ← frame_eq_getElem hj₀]
  by_cases hline : j ∈ line ids
  · have hframes : (line ids).map (fam.store h t).frame = t.frames := congrArg Scope.frames hscope
    rw [List.map_inj_left.1 (hframes.trans ht) j hline]
    by_cases hj : j = i
    · rw [if_pos hj, if_pos hj.symm]
    · rw [if_neg hj, if_neg (Ne.symm hj)]
  · have hne : i ≠ j := fun he => hline (he ▸ hi)
    rw [hother j hline, if_neg hne]

end Layered

/-- An operation keeps the layers. -/
theorem Layered.apply (hfam : fam.Layered) (op : Operation ε) (hop : op.Fresh) :
    (fam.apply op).Layered := by
  have heffect := fam.apply_effect op
  generalize fam.apply op = fam' at heffect
  cases heffect with
  | none => exact hfam
  | @change ids t hids ht =>
    obtain ⟨hfresh, hlength⟩ := op.change?_frames (hfam.scope_fresh ids) hop ht
    obtain ⟨hstore, hsize, hother, hscope⟩ := hfam.store_eq hids hlength
    have hscopes : (fam.store op.handle t).scopes = fam.scopes := by rw [hstore]
    refine ⟨?_, hscopes ▸ hfam.nodup, hscopes ▸ hfam.around, ?_⟩
    · rw [hscopes, hsize]
      exact hfam.bound
    · intro frame hframe
      obtain ⟨i, hi⟩ := List.mem_iff_getElem?.1 hframe
      have hframe : (fam.store op.handle t).frame i = frame := by
        rw [Family.frame, List.getD_eq_getElem?_getD, hi, Option.getD_some]
      rw [← hframe]
      by_cases hline : i ∈ line ids
      · have hmem : (fam.store op.handle t).frame i ∈ ((fam.store op.handle t).scope ids).frames :=
          List.mem_map_of_mem hline
        rw [hscope] at hmem
        exact hfresh _ hmem
      · rw [hother i hline]
        exact hfam.frame_fresh i
  | nest hids _ => exact hfam.nest (List.mem_of_getElem? hids)
  | @copy ids _ _ => exact hfam.copy ids

theorem scopes_apply (fam : Family ε) (op : Operation ε) : fam.scopes <+: (fam.apply op).scopes := by
  have heffect := fam.apply_effect op
  generalize fam.apply op = fam' at heffect
  cases heffect with
  | none => exact List.prefix_rfl
  | @change _ s hids _ =>
    have hkept : (fam.store op.handle s).scopes = fam.scopes := by rw [store, hids]
    exact hkept.symm ▸ List.prefix_rfl
  | nest _ _ => exact List.prefix_append _ _
  | copy _ _ => exact List.prefix_append _ _

/-- The layers and the handles after a sequence of operations. -/
theorem Layered.after (hfam : fam.Layered) {ops : List (Operation ε)} (hops : ∀ op ∈ ops, op.Fresh) :
    (fam.after ops).Layered ∧ fam.scopes <+: (fam.after ops).scopes := by
  induction ops generalizing fam with
  | nil => exact ⟨hfam, List.prefix_rfl⟩
  | cons op rest ih =>
    rw [List.forall_mem_cons] at hops
    obtain ⟨hlayered, hstart⟩ := ih (hfam.apply op hops.1) hops.2
    exact ⟨hlayered, (fam.scopes_apply op).trans hstart⟩

theorem scopes_getElem? {fam fam' : Family ε} (hstart : fam.scopes <+: fam'.scopes)
    (hids : fam.scopes[h]? = some ids) : fam'.scopes[h]? = some ids := by
  obtain ⟨added, hadded⟩ := hstart
  obtain ⟨hh, _⟩ := List.getElem?_eq_some_iff.1 hids
  rw [← hadded, List.getElem?_append_left hh, hids]

/-! ## What an operation leaves alone -/

theorem scope_congr {fam fam' : Family ε} (hframe : ∀ i ∈ line ids, fam'.frame i = fam.frame i) :
    fam'.scope ids = fam.scope ids := by
  have ⟨htop, houter⟩ := List.forall_mem_cons.1 hframe
  rw [scope, scope, htop, List.map_inj_left.2 houter]

theorem frame_append {frames : List (List (Slot ε))} {scopes : List (Nat × List Nat)} {i : Nat}
    (hi : i < fam.frames.length) : (Family.mk (fam.frames ++ frames) scopes).frame i = fam.frame i := by
  rw [frame, frame, List.getD_eq_getElem?_getD, List.getD_eq_getElem?_getD,
    List.getElem?_append_left hi]

/-- A scope is as before if no frame of it has changed. -/
theorem Layered.view?_kept (hfam : fam.Layered) {op : Operation ε} (hids : fam.scopes[h]? = some ids)
    (hkept : ∀ own t, fam.scopes[op.handle]? = some own → op.change? (fam.scope own) = some t →
      ∀ i ∈ line ids, (fam.store op.handle t).frame i = fam.frame i) :
    (fam.apply op).view? h = fam.view? h := by
  have hafter := scopes_getElem? (fam.scopes_apply op) hids
  rw [view?_eq hafter, view?_eq hids, Option.some.injEq]
  refine scope_congr fun i hi => ?_
  have hbound := hfam.bound ids (List.mem_of_getElem? hids) i hi
  have heffect := fam.apply_effect op
  generalize fam.apply op = fam' at heffect
  cases heffect with
  | none => rfl
  | change hown ht => exact hkept _ _ hown ht i hi
  | nest _ _ => exact frame_append hbound
  | copy _ _ => exact frame_append hbound

theorem Layered.view?_apart (hfam : fam.Layered) {op : Operation ε} (hop : op.Fresh)
    (hids : fam.scopes[h]? = some ids)
    (hapart : ∀ own, fam.scopes[op.handle]? = some own → ∀ i ∈ line ids, i ∉ line own) :
    (fam.apply op).view? h = fam.view? h := by
  refine hfam.view?_kept hids fun own t hown ht i hi => ?_
  have hlength := (op.change?_frames (hfam.scope_fresh own) hop ht).2
  obtain ⟨_, _, hother, _⟩ := hfam.store_eq hown hlength
  exact hother i (hapart own hown i hi)

/-- A definition changes the top frame only. -/
theorem Layered.view?_top (hfam : fam.Layered) {op : Operation ε} (hop : op.Fresh)
    (hids : fam.scopes[h]? = some ids)
    (houter : ∀ s t, op.change? s = some t → t.outer = s.outer)
    (htop : ∀ own, fam.scopes[op.handle]? = some own → own.1 ∉ line ids) :
    (fam.apply op).view? h = fam.view? h := by
  refine hfam.view?_kept hids fun own t hown ht i hi => ?_
  have hlength := (op.change?_frames (hfam.scope_fresh own) hop ht).2
  obtain ⟨_, _, hother, hscope⟩ := hfam.store_eq hown hlength
  by_cases hmem : i ∈ line own
  · have hbelow : i ∈ own.2 := (List.mem_cons.1 hmem).resolve_left fun he => htop own hown (he ▸ hi)
    have hsame : own.2.map (fam.store op.handle t).frame = own.2.map fam.frame :=
      (congrArg Scope.outer hscope).trans (houter _ t ht)
    exact List.map_inj_left.1 hsame i hbelow
  · exact hother i hmem

/-! ## Nesting -/

/-- A scope is another one, or is nested in it by one or more steps: its frames go on with those of
the other. -/
def Descends (fam : Family ε) (d c : Nat) : Prop :=
  ∃ ids ids', fam.scopes[d]? = some ids ∧ fam.scopes[c]? = some ids' ∧ line ids' <:+ line ids

theorem getLast?_dropWhile {l : List Nat} {i : Nat} (hi : i ∈ l) :
    (l.dropWhile (· ≠ i)).getLast? = l.getLast? := by
  induction l with
  | nil => cases hi
  | cons j rest ih =>
    by_cases hj : j = i
    · rw [List.dropWhile_cons_of_neg (by simpa using hj)]
    · have hrest : i ∈ rest := (List.mem_cons.1 hi).resolve_left (Ne.symm hj)
      rw [List.dropWhile_cons_of_pos (by simpa using hj), ih hrest, List.getLast?_cons,
        List.getLast?_eq_some_getLast (List.ne_nil_of_mem hrest), Option.getD_some]

/-- Scopes with different outermost frames have no frame in common. -/
theorem Layered.apart (hfam : fam.Layered) {ids' : Nat × List Nat} (hids : ids ∈ fam.scopes)
    (hids' : ids' ∈ fam.scopes) (hlast : (line ids).getLast? ≠ (line ids').getLast?) :
    ∀ i ∈ line ids, i ∉ line ids' := by
  intro i hi hi'
  have hshared := congrArg List.getLast? (hfam.around ids hids ids' hids' i hi hi')
  rw [getLast?_dropWhile hi, getLast?_dropWhile hi'] at hshared
  exact hlast hshared

theorem getLast?_of_suffix {ids' : Nat × List Nat} (hsuffix : line ids' <:+ line ids) :
    (line ids').getLast? = (line ids).getLast? := by
  obtain ⟨front, hfront⟩ := hsuffix
  rw [← hfront, List.getLast?_append, line, List.getLast?_cons, Option.some_or]

/-- A nested scope has the outermost frame of the scope that it is nested in. -/
theorem Descends.getLast?_eq {d c : Nat} (hd : fam.Descends d c) {own ids : Nat × List Nat}
    (hown : fam.scopes[d]? = some own) (hids : fam.scopes[c]? = some ids) :
    (line own).getLast? = (line ids).getLast? := by
  obtain ⟨own', ids', hown', hids', hsuffix⟩ := hd
  obtain rfl := Option.some.inj (hown.symm.trans hown')
  obtain rfl := Option.some.inj (hids.symm.trans hids')
  exact (getLast?_of_suffix hsuffix).symm

/-- What has the top frame of a scope is nested in it. -/
theorem Layered.suffix (hfam : fam.Layered) {ids' : Nat × List Nat} (hids : ids ∈ fam.scopes)
    (hids' : ids' ∈ fam.scopes) (htop : ids.1 ∈ line ids') : line ids <:+ line ids' := by
  have hshared := hfam.around ids hids ids' hids' ids.1 List.mem_cons_self htop
  have hwhole : (line ids).dropWhile (· ≠ ids.1) = line ids :=
    List.dropWhile_cons_of_neg (by simp)
  rw [← hwhole, hshared]
  exact List.dropWhile_suffix _

/-! ## Copies -/

/-- What has been added to a list stands behind what was there. -/
theorem map_getD_range' {α : Type} (old added : List α) (a : α) :
    (List.range' old.length added.length).map ((old ++ added).getD · a) = added := by
  refine List.ext_getElem (by simp) fun j hj hj' => ?_
  simp [List.getD_eq_getElem?_getD, hj']

/-- A copy has the frames of the original. -/
theorem scope_copy (fam : Family ε) (ids : Nat × List Nat) :
    (Family.mk (fam.frames ++ (fam.scope ids).frames)
      (fam.scopes ++ [(fam.frames.length, List.range' (fam.frames.length + 1) ids.2.length)])).scope
        (fam.frames.length, List.range' (fam.frames.length + 1) ids.2.length) = fam.scope ids := by
  have hlength : (fam.scope ids).frames.length = ids.2.length + 1 := by
    rw [frames_scope, List.length_map]
    rfl
  have hframes := map_getD_range' fam.frames (fam.scope ids).frames []
  rw [hlength, List.range'_succ] at hframes
  obtain ⟨htop, houter⟩ := List.cons_eq_cons.1 hframes
  show Scope.mk _ _ = Scope.mk _ _
  rw [Scope.mk.injEq]
  exact ⟨htop, houter⟩

/-! ## Assignments through a nested scope -/

theorem replaceIn_append {slot : Slot ε} {front : List (List (Slot ε))}
    (hfront : ∀ frame ∈ front, Fields.has slot.name frame = false) (rest : List (List (Slot ε))) :
    Scope.replaceIn slot (front ++ rest) = front ++ Scope.replaceIn slot rest := by
  induction front with
  | nil => rfl
  | cons frame front ih =>
    rw [List.forall_mem_cons] at hfront
    rw [List.cons_append, Scope.replaceIn, hfront.1, if_neg Bool.false_ne_true, ih hfront.2,
      List.cons_append]

theorem find?_append {n : String} {front : List (List (Slot ε))}
    (hfront : ∀ frame ∈ front, Fields.has n frame = false) (rest : List (List (Slot ε))) :
    (front ++ rest).findSome? (Fields.find? n) = rest.findSome? (Fields.find? n) := by
  rw [List.findSome?_append, List.findSome?_eq_none_iff.2, Option.none_or]
  intro frame hframe
  have hnone := hfront frame hframe
  rwa [Fields.has_eq_isSome, Option.isSome_eq_false_iff, Option.isNone_iff_eq_none] at hnone

/-- An assignment to a name that only the outer frames of a scope have is the same in a scope of these
frames alone. -/
theorem assign_front {inner outer t : Scope ε} {front : List (List (Slot ε))}
    (hinner : inner.frames = front ++ outer.frames) (hfresh : outer.Fresh) {path : Path} {n : String}
    (hfirst : path.first = .name n) (hfront : ∀ frame ∈ front, Fields.has n frame = false)
    {v : Value ε} {store : Store ε} (ha : inner.assign .empty path v = .ok (t, store)) :
    ∃ seen, outer.assign .empty path v = .ok (seen, .empty) ∧ t.frames = front ++ seen.frames := by
  have hfind : inner.find? n = outer.find? n := by
    rw [Scope.find?, hinner, find?_append hfront]
    rfl
  rw [Scope.assign] at ha ⊢
  cases hslot : outer.find? n with
  | none =>
    rw [Scope.modify, hfirst, Step.follow, hfind, hslot] at ha
    cases ha
  | some slot =>
    obtain ⟨frame, hframe, hmem⟩ := Scope.find?_mem hslot
    rw [Scope.modify_found hfirst (hfind.trans hslot)] at ha
    obtain ⟨change, hchange, hresult⟩ := except_map_eq_ok.1 ha
    obtain ⟨changed, rfl, hc⟩ := Slot.modify_every (hfresh.every frame hframe slot hmem) hchange
    obtain ⟨rfl, rfl⟩ := Prod.mk.inj hresult
    refine ⟨outer.replace changed, ?_, ?_⟩
    · rw [Scope.modify_found hfirst hslot, hchange]
      rfl
    · have hname : changed.name = n := by
        refine (hc.name_eq fun u u' hu => ?_).trans (Scope.find?_name hslot)
        rw [(Slot.assign_eq (mapError_eq_ok.1 hu)).2.2]
      rw [Scope.replace_frames, Scope.replace_frames, hinner, replaceIn_append (hname ▸ hfront)]

/-! ## Results -/

namespace Layered

/-- A copy shows what the original shows, and leaves it as it is. -/
theorem copy_equal (hfam : fam.Layered) (hs : fam.view? h = some s) :
    (fam.apply (.copy h)).view? h = some s ∧
      (fam.apply (.copy h)).view? fam.scopes.length = some s := by
  obtain ⟨ids, hids, rfl⟩ := view?_eq_some hs
  constructor
  · rw [← hs]
    exact hfam.view?_kept hids fun own t _ ht => by cases ht
  · rw [Family.apply, Family.copy, hids]
    exact (view?_eq List.getElem?_concat_length).trans (congrArg some (scope_copy fam ids))

/-- Scopes that descend from a copy and from the original have no frame in common. -/
theorem copy_apart (hfam : fam.Layered) (hids : fam.scopes[h]? = some ids) {now : Family ε}
    (hnow : now.Layered) (hstart : (fam.apply (.copy h)).scopes <+: now.scopes) {d k : Nat}
    (hd : now.Descends d fam.scopes.length) (hk : now.Descends k h) {own own' : Nat × List Nat}
    (hown : now.scopes[d]? = some own) (hown' : now.scopes[k]? = some own') :
    ∀ i ∈ line own, i ∉ line own' := by
  let new := (fam.frames.length, List.range' (fam.frames.length + 1) ids.2.length)
  have hcopied : (fam.apply (.copy h)).scopes[fam.scopes.length]? = some new := by
    rw [Family.apply, Family.copy, hids]
    exact List.getElem?_concat_length
  have horiginal := scopes_getElem? ((fam.scopes_apply (.copy h)).trans hstart) hids
  refine hnow.apart (List.mem_of_getElem? hown) (List.mem_of_getElem? hown') ?_
  rw [hd.getLast?_eq hown (scopes_getElem? hstart hcopied), hk.getLast?_eq hown' horiginal]
  -- The outermost frame of the copy was made after all frames of the original.
  intro hlast
  obtain ⟨i, hi⟩ : ∃ i, (line ids).getLast? = some i := ⟨_, List.getLast?_eq_some_getLast (List.cons_ne_nil _ _)⟩
  have hold := hfam.bound ids (List.mem_of_getElem? hids) i (List.mem_of_getLast? hi)
  have hnew : i ∈ line new := List.mem_of_getLast? (hlast.trans hi)
  have hline : line new = List.range' fam.frames.length (ids.2.length + 1) := List.range'_succ.symm
  rw [hline, List.mem_range'_1] at hnew
  exact Nat.not_le_of_lt hold hnew.1

/-- A nested scope has an empty frame on top and descends from the scope that it was nested in, which
does not descend from it. -/
theorem nest_descends (hfam : fam.Layered) (hs : fam.view? h = some s) {now : Family ε}
    (hstart : (fam.apply (.nest h)).scopes <+: now.scopes) :
    (fam.apply (.nest h)).view? fam.scopes.length = some s.push ∧
      now.Descends fam.scopes.length h ∧ ¬ now.Descends h fam.scopes.length := by
  obtain ⟨ids, hids, rfl⟩ := view?_eq_some hs
  have hnested : fam.apply (.nest h) =
      ⟨fam.frames ++ [[]], fam.scopes ++ [(fam.frames.length, line ids)]⟩ := by
    rw [Family.apply, Family.nest, hids]
    rfl
  have hscopes : (fam.apply (.nest h)).scopes[fam.scopes.length]? =
      some (fam.frames.length, line ids) := by
    rw [hnested]
    exact List.getElem?_concat_length
  have houter := scopes_getElem? ((fam.scopes_apply (.nest h)).trans hstart) hids
  have hinner := scopes_getElem? hstart hscopes
  refine ⟨?_, ⟨_, _, hinner, houter, List.suffix_cons _ _⟩, ?_⟩
  · have hbound := hfam.bound ids (List.mem_of_getElem? hids)
    have hframes : (line ids).map (fam.apply (.nest h)).frame = (fam.scope ids).frames := by
      rw [hnested]
      exact List.map_inj_left.2 fun i hi => frame_append (hbound i hi)
    rw [view?_eq hscopes, scope, hframes, hnested, frame, List.getD_eq_getElem?_getD,
      List.getElem?_concat_length]
    rfl
  · rintro ⟨own, own', hown, hown', hsuffix⟩
    obtain rfl := Option.some.inj (houter.symm.trans hown)
    obtain rfl := Option.some.inj (hinner.symm.trans hown')
    exact Nat.not_succ_le_self _ hsuffix.length_le

/-- A definition shows only in the scopes that descend from its own. -/
theorem view?_definition (hfam : fam.Layered) (op : Operation ε) (hop : op.Fresh)
    (houter : ∀ s t, op.change? s = some t → t.outer = s.outer) (hs : fam.view? h = some s)
    (hdescends : ¬ fam.Descends h op.handle) : (fam.apply op).view? h = some s := by
  obtain ⟨ids, hids, rfl⟩ := view?_eq_some hs
  rw [← hs]
  refine hfam.view?_top hop hids houter fun own hown htop => hdescends ⟨ids, own, hids, hown, ?_⟩
  exact hfam.suffix (List.mem_of_getElem? hown) (List.mem_of_getElem? hids) htop

/-- An assignment through a scope to a name of its outer frames is the same assignment in the scope
of these frames. -/
theorem view?_assignment (hfam : fam.Layered) {d k : Nat} {inner outer : Scope ε}
    (hd : fam.Descends d k) (hinner : fam.view? d = some inner) (houter : fam.view? k = some outer)
    {path : Path} {n : String} (hfirst : path.first = .name n)
    (hfront : ∀ frame ∈ inner.frames.take (inner.depth - outer.depth), Fields.has n frame = false)
    {v : Value ε} (hv : v.Fresh) {store : Store ε} (ha : inner.assign .empty path v = .ok (t, store)) :
    ∃ seen slot, (fam.apply (.assign d path v)).view? k = some seen ∧
      outer.assign .empty path v = .ok (seen, .empty) ∧ seen.resolve .empty path = .ok slot ∧
      slot.value = v := by
  obtain ⟨own, ids, hown, hids, front, hline⟩ := hd
  obtain rfl := Option.some.inj ((view?_eq hown).symm.trans hinner)
  obtain rfl := Option.some.inj ((view?_eq hids).symm.trans houter)
  have hframes : (fam.scope own).frames = front.map fam.frame ++ (fam.scope ids).frames := by
    rw [frames_scope, ← hline, List.map_append, frames_scope]
  rw [Scope.depth, Scope.depth, hframes, List.length_append, Nat.add_sub_cancel,
    List.take_left] at hfront
  obtain ⟨seen, hassign, ht⟩ := assign_front hframes (hfam.scope_fresh ids) hfirst hfront ha
  have hchange : Operation.change? (.assign d path v) (fam.scope own) = some t := by
    rw [Operation.change?, ha]
    rfl
  have hafter : fam.apply (.assign d path v) = fam.store d t := by
    show (match (fam.view? d).bind _ with
      | some s => fam.store d s
      | none => fam) = _
    rw [view?_eq hown, Option.bind_some, hchange]
  have hlength := (Operation.change?_frames (.assign d path v) (hfam.scope_fresh own) hv hchange).2
  obtain ⟨hstore, _, _, hscope⟩ := hfam.store_eq hown hlength
  have hseen : (fam.store d t).scope ids = seen := by
    have hlines := congrArg Scope.frames hscope
    rw [frames_scope, ← hline, List.map_append, ht] at hlines
    have hframes := (List.append_inj hlines (by simp)).2
    rw [scope, Scope.mk.injEq]
    exact List.cons_eq_cons.1 hframes
  have hids' : (fam.store d t).scopes[k]? = some ids := by rw [hstore]; exact hids
  obtain ⟨_, slot, _, hslot, hresolve⟩ := Scope.resolve_modify_end (hfam.scope_fresh ids).every
    (fun u u' hu => by rw [(Slot.assign_eq (mapError_eq_ok.1 hu)).2.2]) hassign
  obtain ⟨_, _, rfl⟩ := Slot.assign_eq (mapError_eq_ok.1 hslot)
  exact ⟨seen, _, by rw [hafter, view?_eq hids', hseen], hassign, hresolve, rfl⟩

/-- Nothing that is done through a copy, or through a scope that descends from it, shows in the original
or in a scope that descends from that, whatever has been done since, nor the other way round. -/
theorem copy_separate (hfam : fam.Layered) (hs : fam.view? h = some s) {later : List (Operation ε)}
    (hlater : ∀ op ∈ later, op.Fresh) {op : Operation ε} (hop : op.Fresh) {k : Nat} :
    let now := (fam.apply (.copy h)).after later
    (now.Descends op.handle fam.scopes.length ∧ now.Descends k h) ∨
        (now.Descends op.handle h ∧ now.Descends k fam.scopes.length) →
      (now.apply op).view? k = now.view? k := by
  intro now hpair
  obtain ⟨ids, hids, rfl⟩ := view?_eq_some hs
  obtain ⟨hnow, hstart⟩ := (hfam.apply (.copy h) trivial).after hlater
  rcases hpair with ⟨hd, hk⟩ | ⟨hd, hk⟩
  · obtain ⟨ids', _, hids', _⟩ := id hk
    refine hnow.view?_apart hop hids' fun own hown i hi hi' => ?_
    exact hfam.copy_apart hids hnow hstart hd hk hown hids' i hi' hi
  · obtain ⟨ids', _, hids', _⟩ := id hk
    refine hnow.view?_apart hop hids' fun own hown i hi hi' => ?_
    exact hfam.copy_apart hids hnow hstart hk hd hids' hown i hi hi'

end Layered

end Family

end Scriptlet
