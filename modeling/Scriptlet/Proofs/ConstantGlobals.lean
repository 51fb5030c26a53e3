import Scriptlet.Data.Convert
import Scriptlet.Proofs.ErrorPlaces
import Scriptlet.Proofs.SuccessiveRuns

/-!
# Loaded constants stay as they are

A constant may hold an object whose fields are variable, so that its flag alone does not protect it.
A value is `Frozen` if it is a scalar or an object whose fields are constants with frozen values.  Plain
data become frozen values (`toValue_frozen`), and no assignment gets into a frozen constant
(`not_modify`), so that the constants which a runner is given as data are the same after every
sequence of runs (`globals_unaltered`).
-/

namespace Scriptlet

set_option autoImplicit false

variable {ε σ : Type}

/-! ## Frozen values -/

namespace Value

mutual

/-- A scalar, or an object whose fields are constants with frozen values. -/
def Frozen : Value ε → Prop
  | number _ | boolean _ | string _ | null => True
  | object fields => FrozenFields fields
  | function _ | shared _ _ => False

/-- Fields that are constants with frozen values. -/
def FrozenFields : List (Slot ε) → Prop
  | [] => True
  | ⟨_, isMutable, value⟩ :: rest => (isMutable = false ∧ Frozen value) ∧ FrozenFields rest

end

end Value

/-- A constant with a frozen value. -/
def Slot.Frozen (slot : Slot ε) : Prop :=
  slot.isMutable = false ∧ slot.value.Frozen

namespace Value

theorem frozenFields_iff {fields : List (Slot ε)} :
    FrozenFields fields ↔ ∀ slot ∈ fields, slot.Frozen := by
  induction fields with
  | nil => simp [FrozenFields]
  | cons slot rest ih =>
    obtain ⟨name, isMutable, value⟩ := slot
    rw [FrozenFields, ih, List.forall_mem_cons]
    rfl

mutual

/-- There are no functions in a frozen value. -/
theorem Frozen.every {P : Function ε → Prop} : {v : Value ε} → v.Frozen → v.Every P
  | number _, _ | boolean _, _ | string _, _ | null, _ => trivial
  | object _, h => FrozenFields.everyField h

theorem FrozenFields.everyField {P : Function ε → Prop} :
    {fields : List (Slot ε)} → FrozenFields fields → EveryField P fields
  | [], _ => trivial
  | ⟨_, _, _⟩ :: _, h => ⟨Frozen.every h.1.2, FrozenFields.everyField h.2⟩

end

end Value

namespace Slot

variable [BEq ε]

/-- No assignment goes through at a frozen constant or inside it.  The induction is on the steps of
the path; each of them leads to a frozen constant again. -/
theorem Frozen.not_modify {slot : Slot ε} (h : slot.Frozen) (store : Store ε) (op : String)
    (v : Value ε) (steps : List Step) (change : Change ε) :
    slot.modify store (Eval.assigned op v) steps ≠ .ok change := by
  induction steps generalizing slot change with
  | nil =>
    intro hm
    obtain ⟨changed, hc, _⟩ := except_map_eq_ok.1 hm
    obtain ⟨u, ha, _⟩ := Eval.assigned_eq hc
    obtain ⟨hmutable, _, _⟩ := assign_eq ha
    exact nomatch h.1.symm.trans hmutable
  | cons step rest ih =>
    intro hm
    obtain ⟨n, fields, field, inner, _, hfind, hinner, hcase⟩ := modify_cons_eq hm
    have hvalue := h.2
    rcases hcase with ⟨hobject, _⟩ | ⟨holder, place, hshared, _⟩
    · rw [hobject] at hvalue
      have hfield := Value.frozenFields_iff.1 hvalue field (Fields.find?_mem hfind)
      exact ih hfield inner hinner
    · rw [hshared] at hvalue
      exact hvalue

/-- A slot keeps its name, and all of it if it is a frozen constant. -/
structure SparesFrozen (s t : Slot ε) : Prop where
  name : t.name = s.name
  whole : s.Frozen → t = s

theorem steady_sparesFrozen (T : Path → Prop) :
    Steady T (SparesFrozen : Slot ε → Slot ε → Prop) where
  refl _ := ⟨rfl, fun _ => rfl⟩
  trans s t u hst htu := by
    refine ⟨htu.name.trans hst.name, ?_⟩
    intro hs
    obtain rfl := hst.whole hs
    exact htu.whole hs
  name _ _ h := h.name
  assign path op v store s t _ _ hm :=
    ⟨(keeps_modify hm).name, fun hs => (hs.not_modify store op v path.rest (.slot t) hm).elim⟩

end Slot

/-! ## Plain data -/

namespace Data

mutual

/-- Data without values and functions of a program in them. -/
def IsPlain : Data ε → Prop
  | null | bool _ | int _ | float _ | str _ | foreign _ | endless => True
  | list items => ArePlain items
  | map entries => HasPlain entries
  | value _ | callable _ _ => False

/-- The items of a list are plain. -/
def ArePlain : List (Data ε) → Prop
  | [] => True
  | d :: rest => IsPlain d ∧ ArePlain rest

/-- The data of a map are plain, under whatever keys. -/
def HasPlain : List (Data ε × Data ε) → Prop
  | [] => True
  | (_, d) :: rest => IsPlain d ∧ HasPlain rest

end

mutual

/-- Plain data become frozen values, if they become values at all. -/
theorem toValue_frozen : {d : Data ε} → {v : Value ε} → d.IsPlain → d.toValue false = .ok v → v.Frozen
  | null, _, _, h | bool _, _, _, h | str _, _, _, h => by
    obtain rfl := Except.ok.inj h
    trivial
  | int n, v, _, h => by
    rw [toValue, numberOf] at h
    split at h
    · cases h
    · split at h
      · obtain rfl := Except.ok.inj h
        trivial
      · cases h
  | map entries, v, hp, h => by
    rw [toValue] at h
    obtain ⟨fields, hf, hv⟩ := except_bind_eq_ok.1 h
    obtain rfl := Except.ok.inj hv
    exact toFields_frozen hp (Value.frozenFields_iff.2 (List.forall_mem_nil _)) hf

theorem toFields_frozen : {entries : List (Data ε × Data ε)} → {before after : List (Slot ε)} →
    HasPlain entries → Value.FrozenFields before → toFields false entries before = .ok after →
    Value.FrozenFields after
  | [], _, _, _, hbefore, h => Except.ok.inj h ▸ hbefore
  | (key, d) :: rest, before, after, hp, hbefore, h => by
    rw [toFields] at h
    obtain ⟨name, _, h⟩ := except_bind_eq_ok.1 h
    obtain ⟨v, hv, h⟩ := except_bind_eq_ok.1 h
    obtain ⟨fields, hd, h⟩ := except_bind_eq_ok.1 h
    refine toFields_frozen hp.2 ?_ h
    have hdefine := mapError_eq_ok.1 hd
    rw [Fields.define] at hdefine
    split at hdefine
    · cases hdefine
    · obtain rfl := Except.ok.inj hdefine
      rw [Value.frozenFields_iff] at hbefore ⊢
      rw [List.forall_mem_append]
      exact ⟨hbefore, List.forall_mem_singleton.2 ⟨rfl, toValue_frozen hp.1 hv⟩⟩

end

/-- The constants that named data stand for. -/
def toConstants (data : List (String × Data ε)) : Except Failure (List (String × Value ε)) :=
  data.mapM fun entry => do return (entry.1, ← entry.2.toValue false)

/-- Each of the named data has its constant. -/
theorem toConstants_mem {data : List (String × Data ε)} {globals : List (String × Value ε)}
    (h : toConstants data = .ok globals) :
    (∀ entry ∈ data, ∃ v, entry.2.toValue false = .ok v ∧ (entry.1, v) ∈ globals) ∧
      ∀ g ∈ globals, ∃ entry ∈ data, entry.2.toValue false = .ok g.2 := by
  induction data generalizing globals with
  | nil =>
    obtain rfl := Except.ok.inj h
    exact ⟨List.forall_mem_nil _, List.forall_mem_nil _⟩
  | cons entry rest ih =>
    rw [toConstants, List.mapM_cons] at h
    obtain ⟨first, hfirst, h⟩ := except_bind_eq_ok.1 h
    obtain ⟨others, hothers, h⟩ := except_bind_eq_ok.1 h
    obtain rfl := Except.ok.inj h
    obtain ⟨v, hv, hfirst⟩ := except_bind_eq_ok.1 hfirst
    obtain rfl := Except.ok.inj hfirst
    obtain ⟨hdata, hglobals⟩ := ih hothers
    constructor
    · rw [List.forall_mem_cons]
      refine ⟨⟨v, hv, List.mem_cons_self⟩, fun other hother => ?_⟩
      obtain ⟨u, hu, hmem⟩ := hdata other hother
      exact ⟨u, hu, List.mem_cons_of_mem _ hmem⟩
    · rw [List.forall_mem_cons]
      refine ⟨⟨entry, List.mem_cons_self, hv⟩, fun g hg => ?_⟩
      obtain ⟨other, hother, hu⟩ := hglobals g hg
      exact ⟨other, List.mem_cons_of_mem _ hother, hu⟩

end Data

/-! ## Constants of a runner -/

/-- What the top frame has under a name is what the name means. -/
theorem Scope.find?_of_bindingAt {s : Scope ε} {x : String} {slot : Slot ε}
    (h : s.bindingAt 0 x = some slot) : s.find? x = some slot := by
  have htop : Fields.find? x s.top = some slot := h
  rw [find?, frames, List.findSome?_cons, htop]

namespace Runner

variable [BEq ε]

omit [BEq ε] in
/-- Constants that are all defined stand at the end of the top frame, each found under its name.  If
no function of the host is among them, the world stays without any. -/
theorem define_constants {globals : List (String × Value ε)} {w after : World ε σ}
    (hw : w.Hostless) (hglobals : ∀ g ∈ globals, g.2.Every Function.Owned)
    (h : Exec.outcome (forM globals fun g => Session.define g.1 false g.2) w = (.ok (), after)) :
    after.Hostless ∧ (∃ added, after.scope = { w.scope with top := w.scope.top ++ added }) ∧
      ∀ g ∈ globals, after.scope.bindingAt 0 g.1 = some ⟨g.1, false, g.2⟩ := by
  induction globals generalizing w with
  | nil =>
    obtain rfl := (Prod.mk.inj h).2
    exact ⟨hw, ⟨[], by rw [List.append_nil]⟩, List.forall_mem_nil _⟩
  | cons first rest ih =>
    rw [List.forM_cons, Exec.bind_eq_ok] at h
    obtain ⟨_, between, hfirst, hrest⟩ := h
    rw [List.forall_mem_cons] at hglobals
    rw [Session.define, Exec.outcome_define] at hfirst
    split at hfirst
    · next scope hd =>
      obtain ⟨_, rfl⟩ := Prod.mk.inj hfirst
      have hnext : { w with scope }.Hostless :=
        ⟨Scope.All.define hw.scope hglobals.1.holds hd, hw.store⟩
      obtain ⟨hafter, ⟨added, hadded⟩, hfound⟩ := ih hnext hglobals.2 hrest
      obtain ⟨hnew, rfl⟩ := Scope.define_eq hd
      refine ⟨hafter, ⟨⟨first.1, false, first.2⟩ :: added, ?_⟩, List.forall_mem_cons.2 ⟨?_, hfound⟩⟩
      · rw [hadded, List.append_assoc, List.singleton_append]
      · rw [hadded]
        show Fields.find? first.1 (_ ++ added) = _
        rw [Fields.find?, List.find?_append, ← Fields.find?, Fields.find?_append_new hnew, if_pos rfl]
        rfl
    · cases (Prod.mk.inj hfirst).1

/-- **Loaded constants stay as they are.**  A runner is given constants as plain data.  Whatever
sources it runs afterwards, and whatever they come to, the root scope has each constant with the value
of its datum, which is frozen. -/
theorem globals_unaltered {r : Runner ε σ} (hr : r.world.Hostless) {data : List (String × Data ε)}
    (hplain : ∀ entry ∈ data, entry.2.IsPlain) {globals : List (String × Value ε)}
    (hglobals : Data.toConstants data = .ok globals) (hdefined : (r.defineGlobals globals).1 = .ok ())
    (runs : List (Rule × String)) :
    ∀ entry ∈ data, ∃ v, entry.2.toValue false = .ok v ∧ v.Frozen ∧
      ((r.defineGlobals globals).2.runAll runs).2.world.scope.find? entry.1 =
        some ⟨entry.1, false, v⟩ := by
  obtain ⟨hdata, hfrom⟩ := Data.toConstants_mem hglobals
  have hfrozen : ∀ g ∈ globals, g.2.Frozen := by
    intro g hg
    obtain ⟨entry, hentry, hv⟩ := hfrom g hg
    exact Data.toValue_frozen (hplain entry hentry) hv
  obtain ⟨hhostless, _, hfound⟩ := define_constants hr (fun g hg => (hfrozen g hg).every)
    (Prod.ext hdefined rfl)
  intro entry hentry
  obtain ⟨v, hv, hg⟩ := hdata entry hentry
  have hvalue : v.Frozen := hfrozen _ hg
  have hdefine : (r.defineGlobals globals).2.world.scope.bindingAt 0 entry.1 =
      some ⟨entry.1, false, v⟩ := hfound _ hg
  obtain ⟨kept, hkept, hspared⟩ :=
    runAll_grows (Slot.steady_sparesFrozen _) hhostless runs hdefine
  obtain rfl := hspared.whole ⟨rfl, hvalue⟩
  exact ⟨v, hv, hvalue, Scope.find?_of_bindingAt hkept⟩

theorem standard_hostless : standard.world.Hostless := by
  refine ⟨?_, fun _ => Store.holds_iff.2 (List.forall_mem_nil _)⟩
  intro slots hslots
  obtain rfl := List.mem_singleton.1 hslots
  intro slot hslot
  obtain ⟨b, _, rfl⟩ := List.mem_map.1 hslot
  exact fun e => e.elim

/-- A field of a loaded constant is assigned directly, through a copy and through a parameter, and its
name is used for another variable.  Only the last of these runs succeeds. -/
theorem globals_unaltered_attempts :
    let data : List (String × Data Empty) :=
      [("config", .map [(.str "a", .map [(.str "b", .int 5)])]), ("none", .null)]
    let runs : List (Rule × String) := [(.script, "config.a.b = 6;"),
      (.script, "let copy = config; copy.a.b = 6;"),
      (.script, "function f(p) \x7b p.a.b = 6; return p; \x7d f(config);"),
      (.script, "\x7b let config = 5; config = 6; \x7d")]
    let value : Value Empty := .object [⟨"a", false, .object [⟨"b", false, .number 5⟩]⟩]
    standard.world.Hostless ∧ ∃ globals, Data.toConstants data = .ok globals ∧
      (standard.defineGlobals globals).1 = .ok () ∧
      ((standard.defineGlobals globals).2.runAll runs).1.map (·.outcome.isOk) =
        [false, false, false, true] ∧
      ((standard.defineGlobals globals).2.runAll runs).2.world.scope.find? "config" =
        some ⟨"config", false, value⟩ := by
  intro data runs value
  have hwide : Numeral.isWide 5 = false := by decide +kernel
  have hvalue : (Data.map [(.str "a", .map [(.str "b", .int 5)])]).toValue false = .ok value := by
    simp only [Data.toValue, Data.toFields, Data.numberOf, hwide]
    rfl
  have hglobals : Data.toConstants data = .ok [("config", value), ("none", .null)] := by
    rw [Data.toConstants, List.mapM_cons, hvalue]
    rfl
  have hplain : ∀ entry ∈ data, entry.2.IsPlain := by
    simp [data, Data.IsPlain, Data.HasPlain]
  obtain ⟨v, hv, _, hfound⟩ := globals_unaltered standard_hostless hplain hglobals rfl runs _
    List.mem_cons_self
  obtain rfl := Except.ok.inj (hvalue.symm.trans hv)
  exact ⟨standard_hostless, _, hglobals, rfl, by decide +kernel, hfound⟩

end Runner

end Scriptlet
