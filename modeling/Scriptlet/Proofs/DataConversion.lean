import Mathlib.Data.List.Forall2
import Scriptlet.Data.Convert
import Scriptlet.Proofs.Literals
import Scriptlet.Proofs.Path

/-!
# Which data become values

The entries of a map become slots one by one (`Becomes`), and then the slots are defined one after
the other, which needs different names.  For data that are built from scalars, lists and maps
(`IsBasic`) it is plain to see which become values: those with numbers of 64 bits, without
fractions and lists, and with keys of different texts in each map (`IsConvertible`).  What they
become says all that they say, except for the sort of a key (`renamed`).
-/

namespace Scriptlet

set_option autoImplicit false

variable {ε : Type}

/-! ## Slots defined one after the other -/

namespace Fields

theorem defineAll_cons (slot : Slot ε) (rest before : List (Slot ε)) :
    defineAll (slot :: rest) before = define slot before >>= defineAll rest := rfl

/-- Slots can be defined behind others if their names are new and different. -/
theorem defineAll_eq_ok {slots before fields : List (Slot ε)} :
    defineAll slots before = .ok fields ↔
      (slots.map Slot.name).Nodup ∧ (∀ slot ∈ slots, has slot.name before = false) ∧
        fields = before ++ slots := by
  induction slots generalizing before with
  | nil =>
    constructor
    · intro h
      obtain rfl := Except.ok.inj h
      simp
    · rintro ⟨_, _, rfl⟩
      rw [List.append_nil]
      rfl
  | cons slot rest ih =>
    rw [defineAll_cons, except_bind_eq_ok, List.map_cons, List.nodup_cons, List.forall_mem_cons]
    have hlast (other : Slot ε) : has other.name (before ++ [slot]) = false ↔
        has other.name before = false ∧ other.name ≠ slot.name := by
      rw [has_eq_false, has_eq_false, List.map_append, List.mem_append, not_or, List.map_singleton,
        List.mem_singleton]
    constructor
    · rintro ⟨between, hdefine, hrest⟩
      rw [define] at hdefine
      split at hdefine
      · cases hdefine
      · next hnew =>
        obtain rfl := Except.ok.inj hdefine
        obtain ⟨hnodup, hapart, rfl⟩ := ih.1 hrest
        refine ⟨⟨fun hmem => ?_, hnodup⟩, ⟨eq_false_of_ne_true hnew, fun other hother => ?_⟩,
          (List.append_cons before slot rest).symm⟩
        · obtain ⟨other, hother, hname⟩ := List.mem_map.1 hmem
          exact ((hlast other).1 (hapart other hother)).2 hname
        · exact ((hlast other).1 (hapart other hother)).1
    · rintro ⟨⟨hslot, hnodup⟩, ⟨hnew, hapart⟩, rfl⟩
      refine ⟨before ++ [slot], by rw [define, hnew, if_neg Bool.false_ne_true],
        ih.2 ⟨hnodup, fun other hother => (hlast other).2 ⟨hapart other hother, ?_⟩,
          List.append_cons before slot rest⟩⟩
      intro hname
      exact hslot (hname ▸ List.mem_map_of_mem hother)

/-- Slots that cannot be defined one after the other are refused for a name that two of them have. -/
theorem defineAll_eq_error {slots before : List (Slot ε)} {cause : Cause}
    (h : defineAll slots before = .error cause) :
    ∃ first second, [first, second].Sublist (before ++ slots) ∧ first.name = second.name ∧
      cause = .alreadyDefined second.name := by
  induction slots generalizing before with
  | nil => cases h
  | cons slot rest ih =>
    rw [defineAll_cons] at h
    rcases except_bind_eq_error.1 h with hdefine | ⟨between, hdefine, hrest⟩
    · rw [define] at hdefine
      split at hdefine
      · next hhas =>
        obtain ⟨other, hother, hname⟩ := List.any_eq_true.1 hhas
        have hpair : [other, slot].Sublist (before ++ slot :: rest) :=
          (List.singleton_sublist.2 hother).append (List.singleton_sublist.2 List.mem_cons_self)
        exact ⟨other, slot, hpair, beq_iff_eq.1 hname, (Except.error.inj hdefine).symm⟩
      · cases hdefine
    · rw [define] at hdefine
      split at hdefine
      · cases hdefine
      · obtain rfl := Except.ok.inj hdefine
        rw [List.append_cons]
        exact ih hrest

end Fields

/-! ## The slots of a map -/

namespace Data

/-- A slot is what an entry of a map becomes. -/
structure Becomes (isMutable : Bool) (e : Data ε × Data ε) (slot : Slot ε) : Prop where
  name : e.1.name = .ok slot.name
  flag : slot.isMutable = isMutable
  value : e.2.toValue isMutable = .ok slot.value

variable {isMutable : Bool} {entries : List (Data ε × Data ε)} {slots before fields : List (Slot ε)}

/-- Entries that become slots are converted by defining the slots one after the other. -/
theorem toFields_of_becomes (h : List.Forall₂ (Becomes isMutable) entries slots)
    (before : List (Slot ε)) :
    toFields isMutable entries before = (Fields.defineAll slots before).mapError .error := by
  induction h generalizing before with
  | nil => rfl
  | @cons e slot entries slots he _ ih =>
    obtain ⟨key, datum⟩ := e
    obtain ⟨name, flag, value⟩ := slot
    obtain ⟨hname, rfl, hvalue⟩ := he
    rw [toFields, hname, hvalue, Fields.defineAll_cons]
    change (Fields.define ⟨name, flag, value⟩ before).mapError .error >>= toFields flag entries = _
    cases Fields.define ⟨name, flag, value⟩ before with
    | error cause => rfl
    | ok between => exact ih between

/-- Entries that are converted become slots. -/
theorem exists_becomes (h : toFields isMutable entries before = .ok fields) :
    ∃ slots, List.Forall₂ (Becomes isMutable) entries slots := by
  induction entries generalizing before with
  | nil => exact ⟨[], .nil⟩
  | cons e rest ih =>
    obtain ⟨key, datum⟩ := e
    rw [toFields] at h
    obtain ⟨name, hname, h⟩ := except_bind_eq_ok.1 h
    obtain ⟨v, hv, h⟩ := except_bind_eq_ok.1 h
    obtain ⟨between, _, h⟩ := except_bind_eq_ok.1 h
    obtain ⟨slots, hslots⟩ := ih h
    exact ⟨⟨name, isMutable, v⟩ :: slots, .cons ⟨mapError_eq_ok.1 hname, rfl, hv⟩ hslots⟩

/-- A map becomes an object if its entries become slots of different names, which are its fields. -/
theorem toValue_map_eq_ok {v : Value ε} :
    (map entries).toValue isMutable = .ok v ↔
      ∃ slots, List.Forall₂ (Becomes isMutable) entries slots ∧ (slots.map Slot.name).Nodup ∧
        v = .object slots := by
  have hdefined (slots : List (Slot ε)) (hslots : List.Forall₂ (Becomes isMutable) entries slots)
      (fields : List (Slot ε)) : toFields isMutable entries [] = .ok fields ↔
        (slots.map Slot.name).Nodup ∧ fields = slots := by
    rw [toFields_of_becomes hslots, mapError_eq_ok, Fields.defineAll_eq_ok]
    exact and_congr_right' (and_iff_right fun _ _ => rfl)
  rw [toValue, except_bind_eq_ok]
  constructor
  · rintro ⟨fields, hfields, hv⟩
    obtain ⟨slots, hslots⟩ := exists_becomes hfields
    obtain ⟨hnodup, rfl⟩ := (hdefined slots hslots fields).1 hfields
    exact ⟨fields, hslots, hnodup, (Except.ok.inj hv).symm⟩
  · rintro ⟨slots, hslots, hnodup, rfl⟩
    exact ⟨slots, (hdefined slots hslots slots).2 ⟨hnodup, rfl⟩, rfl⟩

theorem exists_sublist {α β : Type} {R : α → β → Prop} {as : List α} {bs part : List β}
    (h : List.Forall₂ R as bs) (hpart : part.Sublist bs) :
    ∃ part', part'.Sublist as ∧ List.Forall₂ R part' part := by
  induction h generalizing part with
  | nil =>
    obtain rfl := List.sublist_nil.1 hpart
    exact ⟨[], .slnil, .nil⟩
  | cons hab _ ih =>
    cases hpart with
    | cons _ hpart =>
      obtain ⟨part', hsub, hrel⟩ := ih hpart
      exact ⟨part', hsub.cons _, hrel⟩
    | cons_cons _ hpart =>
      obtain ⟨part', hsub, hrel⟩ := ih hpart
      exact ⟨_, hsub.cons_cons _, .cons hab hrel⟩

/-- A map whose entries become slots is refused only for two entries of one name. -/
theorem toValue_map_refused (h : List.Forall₂ (Becomes isMutable) entries slots)
    (hnames : ¬ (slots.map Slot.name).Nodup) :
    ∃ name first second, [first, second].Sublist entries ∧ first.1.name = .ok name ∧
      second.1.name = .ok name ∧
      (map entries).toValue isMutable = .error (.error (.alreadyDefined name)) := by
  cases hdefine : Fields.defineAll slots [] with
  | ok fields => exact absurd (Fields.defineAll_eq_ok.1 hdefine).1 hnames
  | error cause =>
    obtain ⟨s, t, hpair, hname, rfl⟩ := Fields.defineAll_eq_error hdefine
    obtain ⟨_, hentries, hbecome⟩ := exists_sublist h hpair
    obtain _ | @⟨first, _, _, _, hfirst, hlast⟩ := hbecome
    obtain _ | @⟨second, _, _, _, hsecond, hnone⟩ := hlast
    cases hnone
    refine ⟨t.name, first, second, hentries, hname ▸ hfirst.name, hsecond.name, ?_⟩
    rw [toValue, toFields_of_becomes h, hdefine]
    rfl

end Data

/-! ## Basic data -/

namespace Data

/-- An integer that is short enough to be written. -/
def IsWritable (n : Int) : Prop :=
  (Numeral.digits n.natAbs).length ≤ Numeral.digitLimit

/-- A scalar as the key of a map. -/
def IsKey : Data ε → Prop
  | null | bool _ | float _ | str _ => True
  | int n => IsWritable n
  | list _ | map _ | foreign _ | value _ | callable _ _ | endless => False

mutual

/-- Data that are built from scalars, lists and maps with scalars as keys. -/
def IsBasic : Data ε → Prop
  | null | bool _ | float _ | str _ => True
  | int n => IsWritable n
  | list items => AreBasic items
  | map entries => HasBasic entries
  | foreign _ | value _ | callable _ _ | endless => False

/-- The items of a list are basic. -/
def AreBasic : List (Data ε) → Prop
  | [] => True
  | d :: rest => IsBasic d ∧ AreBasic rest

/-- The data of a map are basic, and its keys are scalars. -/
def HasBasic : List (Data ε × Data ε) → Prop
  | [] => True
  | (key, d) :: rest => (IsKey key ∧ IsBasic d) ∧ HasBasic rest

end

mutual

/-- Data without fractions and lists, whose integers are numbers of the language, and whose keys
have different texts in each map. -/
def IsConvertible : Data ε → Prop
  | null | bool _ | str _ => True
  | int n => IsNumber n
  | map entries => (entries.map fun e => e.1.text).Nodup ∧ HasConvertible entries
  | float _ | list _ | foreign _ | value _ | callable _ _ | endless => False

/-- The data of a map are convertible, under whatever keys. -/
def HasConvertible : List (Data ε × Data ε) → Prop
  | [] => True
  | (_, d) :: rest => IsConvertible d ∧ HasConvertible rest

end

mutual

/-- A datum with the text of each key in the place of the key. -/
def renamed : Data ε → Data ε
  | list items => list (renamedItems items)
  | map entries => map (renamedEntries entries)
  | d => d

/-- The items of a list, renamed. -/
def renamedItems : List (Data ε) → List (Data ε)
  | [] => []
  | d :: rest => renamed d :: renamedItems rest

/-- The entries of a map under the texts of their keys. -/
def renamedEntries : List (Data ε × Data ε) → List (Data ε × Data ε)
  | [] => []
  | (key, d) :: rest => (str key.text, renamed d) :: renamedEntries rest

end

end Data

namespace Value

mutual

/-- Every field of a value, at every depth, has the given flag. -/
def HasFlag (isMutable : Bool) : Value ε → Prop
  | number _ | boolean _ | string _ | null | function _ => True
  | object fields => HaveFlag isMutable fields
  | shared _ _ => False

/-- Fields have the given flag, and so have the fields of their values. -/
def HaveFlag (isMutable : Bool) : List (Slot ε) → Prop
  | [] => True
  | ⟨_, flag, value⟩ :: rest => (flag = isMutable ∧ HasFlag isMutable value) ∧ HaveFlag isMutable rest

end

end Value

namespace Data

variable {isMutable : Bool}

theorem IsWritable.isWide {n : Int} (h : IsWritable n) : Numeral.isWide n = false :=
  decide_eq_false (Nat.not_lt.2 h)

/-- A scalar key has its text as its name. -/
theorem IsKey.name_eq {key : Data ε} (h : key.IsKey) : key.name = .ok key.text := by
  cases key with
  | int n =>
    rw [name, IsWritable.isWide h, if_neg Bool.false_ne_true]
    rfl
  | null | bool _ | float _ | str _ => rfl
  | list _ | map _ | foreign _ | value _ | callable _ _ | endless => exact h.elim

/-- The slots of a map are named by the texts of its keys. -/
theorem HasBasic.names {entries : List (Data ε × Data ε)} (h : HasBasic entries)
    {slots : List (Slot ε)} (hslots : List.Forall₂ (Becomes isMutable) entries slots) :
    slots.map Slot.name = entries.map fun e => e.1.text := by
  induction hslots with
  | nil => rfl
  | @cons e slot _ _ he _ ih =>
    have hname : slot.name = e.1.text := Except.ok.inj (he.name.symm.trans h.1.1.name_eq)
    rw [List.map_cons, List.map_cons, hname, ih h.2]

/-- An integer that can be written becomes a number if it is one. -/
theorem numberOf_eq_ok {n : Int} (h : IsWritable n) {v : Value ε} :
    numberOf n = .ok v ↔ IsNumber n ∧ v = .number n := by
  rw [numberOf, h.isWide, if_neg Bool.false_ne_true, ← Literal.inRange_iff]
  split
  · next hin => simp [hin, eq_comm]
  · next hout => simp [hout]

mutual

/-- Basic data become values if they are convertible. -/
theorem exists_toValue (isMutable : Bool) : (d : Data ε) → d.IsBasic →
    ((∃ v, d.toValue isMutable = .ok v) ↔ d.IsConvertible)
  | null, _ => iff_of_true ⟨_, rfl⟩ trivial
  | bool _, _ => iff_of_true ⟨_, rfl⟩ trivial
  | str _, _ => iff_of_true ⟨_, rfl⟩ trivial
  | int n, h => by
    have hnumber (v : Value ε) : (int n).toValue isMutable = .ok v ↔ IsNumber n ∧ v = .number n :=
      numberOf_eq_ok h
    simp only [hnumber, IsConvertible, exists_and_left, exists_eq, and_true]
  | float _, _ => iff_of_false (fun ⟨_, h⟩ => by cases h) id
  | list _, _ => iff_of_false (fun ⟨_, h⟩ => by cases h) id
  | map entries, h => by
    have hentries := exists_slots isMutable entries h
    rw [IsConvertible, ← hentries]
    constructor
    · rintro ⟨v, hv⟩
      obtain ⟨slots, hslots, hnodup, _⟩ := toValue_map_eq_ok.1 hv
      exact ⟨HasBasic.names h hslots ▸ hnodup, slots, hslots⟩
    · rintro ⟨hnodup, slots, hslots⟩
      exact ⟨.object slots,
        toValue_map_eq_ok.2 ⟨slots, hslots, HasBasic.names h hslots ▸ hnodup, rfl⟩⟩
  | foreign _, h | value _, h | callable _ _, h | endless, h => h.elim

/-- The entries of a map become slots if their data are convertible. -/
theorem exists_slots (isMutable : Bool) : (entries : List (Data ε × Data ε)) → HasBasic entries →
    ((∃ slots, List.Forall₂ (Becomes isMutable) entries slots) ↔ HasConvertible entries)
  | [], _ => iff_of_true ⟨[], .nil⟩ trivial
  | (key, d) :: rest, h => by
    rw [HasConvertible, ← exists_toValue isMutable d h.1.2, ← exists_slots isMutable rest h.2]
    constructor
    · rintro ⟨_, hslots⟩
      cases hslots with
      | cons he hrest => exact ⟨⟨_, he.value⟩, _, hrest⟩
    · rintro ⟨⟨v, hv⟩, slots, hslots⟩
      exact ⟨⟨key.text, isMutable, v⟩ :: slots, .cons ⟨h.1.1.name_eq, rfl, hv⟩ hslots⟩

end

mutual

/-- What basic data become has the flag that was asked for, and is the renamed data again. -/
theorem toValue_spec : {d : Data ε} → {v : Value ε} → d.IsBasic → d.toValue isMutable = .ok v →
    v.HasFlag isMutable ∧ v.toData = d.renamed
  | null, _, _, hv | bool _, _, _, hv | str _, _, _, hv => by
    obtain rfl := Except.ok.inj hv
    exact ⟨trivial, rfl⟩
  | int n, _, h, hv => by
    obtain ⟨_, rfl⟩ := (numberOf_eq_ok h).1 hv
    exact ⟨trivial, rfl⟩
  | map entries, _, h, hv => by
    obtain ⟨slots, hslots, _, rfl⟩ := toValue_map_eq_ok.1 hv
    obtain ⟨hflag, hentries⟩ := slots_spec h hslots
    exact ⟨hflag, congrArg map hentries⟩
  | float _, _, _, hv | list _, _, _, hv => by cases hv
  | foreign _, _, h, _ | value _, _, h, _ | callable _ _, _, h, _ | endless, _, h, _ => h.elim

theorem slots_spec : {entries : List (Data ε × Data ε)} → {slots : List (Slot ε)} →
    HasBasic entries → List.Forall₂ (Becomes isMutable) entries slots →
    Value.HaveFlag isMutable slots ∧ Value.toEntries slots = renamedEntries entries
  | [], _, _, .nil => ⟨trivial, rfl⟩
  | (key, _) :: _, ⟨name, _, _⟩ :: _, h, .cons he hslots => by
    obtain ⟨hflag, hdata⟩ := toValue_spec h.1.2 he.value
    obtain ⟨hflags, hentries⟩ := slots_spec h.2 hslots
    have hname : name = key.text := Except.ok.inj (he.name.symm.trans h.1.1.name_eq)
    exact ⟨⟨⟨he.flag, hflag⟩, hflags⟩, by rw [Value.toEntries, renamedEntries, hname, hdata, hentries]⟩

end

/-- **Data and values.**  Data that are built from scalars, lists and maps become a value if there is
no fraction and no list among them, every integer is a number of the language, and the keys of each
map have different texts.  Then every field of the value, at every depth, has the flag that was
asked for, and the value becomes the same data again, with each key renamed to its text. -/
theorem basic_data_conversion (d : Data ε) (hd : d.IsBasic) (isMutable : Bool) :
    ((∃ v, d.toValue isMutable = .ok v) ↔ d.IsConvertible) ∧
      ∀ v, d.toValue isMutable = .ok v → v.HasFlag isMutable ∧ v.toData = d.renamed :=
  ⟨exists_toValue isMutable d hd, fun _ hv => toValue_spec hd hv⟩

/-- A map under keys of every sort, with a map inside it. -/
theorem basic_data_conversion_nested :
    let inner : Data Empty := .map [(.int 2, .int 7), (.float (.ofDecimal false 15 (-1)), .bool true)]
    let d : Data Empty := .map [(.null, inner), (.bool true, .str "x"), (.str "a", .null)]
    d.IsBasic ∧ ∃ v, d.toValue true = .ok v ∧ v.HasFlag true ∧
      v.toData = .map [(.str "None", .map [(.str "2", .int 7), (.str "1.5", .bool true)]),
        (.str "True", .str "x"), (.str "a", .null)] := by
  intro inner d
  have hbasic : d.IsBasic := by
    simp [d, inner, IsBasic, HasBasic, IsKey, IsWritable, Numeral.digits, Numeral.digitLimit]
  have htwo : (int 2 : Data Empty).text = "2" := by decide +kernel
  have hfraction : (float (.ofDecimal false 15 (-1)) : Data Empty).text = "1.5" := by decide +kernel
  have hnumber : IsNumber 7 := by decide
  have hinner : inner.IsConvertible := ⟨by decide +kernel, hnumber, trivial, trivial⟩
  have hconvertible : d.IsConvertible := ⟨by decide +kernel, hinner, trivial, trivial, trivial⟩
  obtain ⟨hsome, hspec⟩ := basic_data_conversion d hbasic true
  obtain ⟨v, hv⟩ := hsome.2 hconvertible
  obtain ⟨hflag, hdata⟩ := hspec v hv
  refine ⟨hbasic, v, hv, hflag, ?_⟩
  rw [hdata]
  simp only [d, inner, renamed, renamedEntries, htwo, hfraction]
  rfl

end Data

end Scriptlet
