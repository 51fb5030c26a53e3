import Scriptlet.Document
import Scriptlet.Proofs.DataConversion
import Scriptlet.Proofs.NamedEntries

/-!
# The constants of a document

A document that holds a map defines a constant for each name of a key.  Keys of different sorts may
have one name; its constant then stands where the first of them does and has the value of the last
(`lastValues`).  The map becomes an object by the same conversion of its entries, but the object is
refused if two names are equal.  So the fields of the object are the constants of the document as
long as there is a constant for every entry (`constants_and_object`).
-/

namespace Scriptlet

set_option autoImplicit false

/-! ## Comparing data -/

namespace Data

variable {ε : Type}

mutual

/-- Whether two data are scalars, lists and maps built alike. -/
def agrees : Data ε → Data ε → Bool
  | null, null => true
  | bool a, bool b => a == b
  | int m, int n => m == n
  | str s, str t => s == t
  | list items, list others => agreesItems items others
  | map entries, map others => agreesEntries entries others
  | _, _ => false

/-- Whether the items of two lists agree. -/
def agreesItems : List (Data ε) → List (Data ε) → Bool
  | [], [] => true
  | d :: rest, e :: others => agrees d e && agreesItems rest others
  | _, _ => false

/-- Whether the entries of two maps agree. -/
def agreesEntries : List (Data ε × Data ε) → List (Data ε × Data ε) → Bool
  | [], [] => true
  | (k, d) :: rest, (l, e) :: others => agrees k l && agrees d e && agreesEntries rest others
  | _, _ => false

end

mutual

theorem eq_of_agrees {d e : Data ε} (h : d.agrees e) : d = e := by
  unfold agrees at h
  split at h
  · rfl
  · rw [beq_iff_eq.1 h]
  · rw [beq_iff_eq.1 h]
  · rw [beq_iff_eq.1 h]
  · rw [eq_of_agreesItems h]
  · rw [eq_of_agreesEntries h]
  · cases h

theorem eq_of_agreesItems {items others : List (Data ε)} (h : agreesItems items others) :
    items = others := by
  unfold agreesItems at h
  split at h
  · rfl
  · rw [Bool.and_eq_true] at h
    rw [eq_of_agrees h.1, eq_of_agreesItems h.2]
  · cases h

theorem eq_of_agreesEntries {entries others : List (Data ε × Data ε)}
    (h : agreesEntries entries others) : entries = others := by
  unfold agreesEntries at h
  split at h
  · rfl
  · rw [Bool.and_eq_true, Bool.and_eq_true] at h
    rw [eq_of_agrees h.1.1, eq_of_agrees h.1.2, eq_of_agreesEntries h.2]
  · cases h

end

end Data

namespace Document

variable {ε : Type}

/-! ## Reading a document -/

/-- The format that a document is read in. -/
def formatOf (path text : String) : Format :=
  (Format.ofFileName? (.ofText path)).getD (.ofText text)

theorem globals_eq (path : String) (bytes : ByteArray) :
    (globals path bytes : Except Failure (List (String × Value ε))) =
      (decode bytes).mapError .breakdown >>= fun text =>
        readAs (formatOf path text) text >>= globalsOf := by
  have hread : ∀ (f : Format) (text : String),
      (read (some f.name) text : Except Failure (Data ε)) = readAs f text := by
    intro f text
    cases f <;> rfl
  unfold globals
  refine congrArg _ (funext fun text => ?_)
  have hdetect : Format.detect? (some path) (some text) = some (formatOf path text) := by
    rw [Format.detect?, Option.bind_some, Option.map_some, Option.or_some, formatOf]
  rw [hdetect, Option.map_some]
  exact congrArg (· >>= globalsOf) (hread _ text)

/-- The datum that a document holds. -/
def datum (path : String) (bytes : ByteArray) : Except Failure (Data ε) :=
  (decode bytes).mapError .breakdown >>= fun text => readAs (formatOf path text) text

/-- What a document holds is found by reading it. -/
theorem datum_of_agrees {path : String} {bytes : ByteArray} {d : Data ε}
    (h : (datum path bytes).toOption.any d.agrees) : datum path bytes = .ok d := by
  cases hread : datum path bytes with
  | error f =>
    rw [hread] at h
    cases h
  | ok e =>
    rw [hread] at h
    rw [Data.eq_of_agrees h]

theorem globals_eq_datum (path : String) (bytes : ByteArray) :
    (globals path bytes : Except Failure (List (String × Value ε))) =
      datum path bytes >>= globalsOf := by
  rw [globals_eq, datum, bind_assoc]

/-! ## The last value of each name -/

theorem setGlobal_eq_put (name : String) (v : Value ε) (globals : List (String × Value ε)) :
    setGlobal name v globals = Entries.put (name, v) globals := by
  induction globals with
  | nil => rfl
  | cons g rest ih =>
    obtain ⟨n, w⟩ := g
    rw [setGlobal, Entries.put, ih]
    split
    · next hn => rw [hn]
    · rfl

/-- What slots define: each name once, in the order in which the names first come, with the value of
its last slot. -/
def lastValues (slots : List (Slot ε)) : List (String × Value ε) :=
  (slots.map Slot.name).eraseDups.filterMap fun name =>
    (Fields.find? name slots.reverse).map fun slot => (name, slot.value)

/-- The values of slots are put under their names one after the other. -/
theorem lastValues_eq_merge (slots : List (Slot ε)) :
    lastValues slots = Entries.merge (slots.map fun slot => (slot.name, slot.value)) := by
  have hlast (name : String) : (slots.map fun slot => (slot.name, slot.value)).reverse.lookup name =
      (Fields.find? name slots.reverse).map Slot.value := by
    rw [← Fields.lookup_map_entry, ← List.map_reverse]
    induction slots.reverse with
    | nil => rfl
    | cons slot rest ih =>
      rw [List.map_cons, List.map_cons, Entries.lookup_cons_ite, Entries.lookup_cons_ite, ih,
        Slot.entry]
      split <;> rfl
  rw [Entries.merge_eq_filterMap, lastValues, List.map_map]
  simp only [hlast, Option.map_map]
  rfl

theorem names_lastValues (slots : List (Slot ε)) :
    (lastValues slots).map (·.1) = (slots.map Slot.name).eraseDups := by
  rw [lastValues_eq_merge, Entries.names_merge, List.map_map]
  rfl

/-- A further slot sets the constant of its name. -/
theorem lastValues_concat (slots : List (Slot ε)) (slot : Slot ε) :
    lastValues (slots ++ [slot]) = setGlobal slot.name slot.value (lastValues slots) := by
  rw [lastValues_eq_merge, lastValues_eq_merge, setGlobal_eq_put, List.map_append, List.map_singleton,
    Entries.merge_concat]

/-- Slots of different names are what they define. -/
theorem lastValues_distinct {slots : List (Slot ε)} (h : (slots.map Slot.name).Nodup) :
    lastValues slots = slots.map fun slot => (slot.name, slot.value) := by
  rw [lastValues_eq_merge]
  refine Entries.merge_distinct ?_
  rwa [List.map_map]

theorem length_lastValues (slots : List (Slot ε)) :
    (lastValues slots).length = (slots.map Slot.name).eraseDups.length := by
  rw [← names_lastValues, List.length_map]

/-! ## The constants of a map -/

section Map

variable {entries : List (Data ε × Data ε)} {slots : List (Slot ε)}
  {constants : List (String × Value ε)}

/-- The constants of a map are what the slots of its entries define.  The entries are read one after
the other, and each adds a slot at the end. -/
theorem globalsOf_of_becomes (h : List.Forall₂ (Data.Becomes false) entries slots) :
    globalsOf (.map entries) = .ok (lastValues slots) := by
  suffices hfold : ∀ before : List (Slot ε),
      entries.foldlM (fun globals e => do
        let name ← e.1.name.mapError .breakdown
        return setGlobal name (← e.2.toValue false) globals) (lastValues before) =
      (.ok (lastValues (before ++ slots)) : Except Failure (List (String × Value ε))) from hfold []
  induction h with
  | nil =>
    intro before
    rw [List.append_nil]
    rfl
  | @cons e slot entries slots he _ ih =>
    intro before
    rw [List.foldlM_cons, he.name, he.value, List.append_cons, ← ih, lastValues_concat]
    rfl

theorem exists_becomes_of_globalsOf (h : globalsOf (.map entries) = .ok constants) :
    ∃ slots, List.Forall₂ (Data.Becomes false) entries slots := by
  suffices hfold : ∀ before : List (String × Value ε),
      entries.foldlM (fun globals e => do
        let name ← e.1.name.mapError .breakdown
        return setGlobal name (← e.2.toValue false) globals) before =
      (.ok constants : Except Failure (List (String × Value ε))) →
      ∃ slots, List.Forall₂ (Data.Becomes false) entries slots from hfold [] h
  clear h
  induction entries with
  | nil => exact fun _ _ => ⟨[], .nil⟩
  | cons e rest ih =>
    intro before h
    rw [List.foldlM_cons] at h
    obtain ⟨next, hnext, hrest⟩ := except_bind_eq_ok.1 h
    obtain ⟨name, hname, hnext⟩ := except_bind_eq_ok.1 hnext
    obtain ⟨v, hv, _⟩ := except_bind_eq_ok.1 hnext
    obtain ⟨slots, hslots⟩ := ih next hrest
    exact ⟨⟨name, false, v⟩ :: slots, .cons ⟨mapError_eq_ok.1 hname, rfl, hv⟩ hslots⟩

theorem globalsOf_map_eq_ok : globalsOf (.map entries) = .ok constants ↔
    ∃ slots, List.Forall₂ (Data.Becomes false) entries slots ∧ constants = lastValues slots := by
  constructor
  · intro h
    obtain ⟨slots, hslots⟩ := exists_becomes_of_globalsOf h
    exact ⟨slots, hslots, Except.ok.inj (h.symm.trans (globalsOf_of_becomes hslots))⟩
  · rintro ⟨slots, hslots, rfl⟩
    exact globalsOf_of_becomes hslots

end Map

/-- A document defines each of its constants once. -/
theorem globals_nodup {path : String} {bytes : ByteArray} {constants : List (String × Value ε)}
    (h : globals path bytes = .ok constants) : (constants.map (·.1)).Nodup := by
  rw [globals_eq_datum] at h
  obtain ⟨d, _, h⟩ := except_bind_eq_ok.1 h
  cases d with
  | null =>
    obtain rfl := Except.ok.inj h
    exact List.nodup_nil
  | map entries =>
    obtain ⟨slots, _, rfl⟩ := globalsOf_map_eq_ok.1 h
    exact names_lastValues slots ▸ nodup_eraseDups _
  | bool _ | int _ | float _ | str _ | list _ | foreign _ | value _ | callable _ _ | endless => cases h

/-- Constants as the fields of an object. -/
def constantFields (constants : List (String × Value ε)) : List (Slot ε) :=
  constants.map fun g => ⟨g.1, false, g.2⟩

theorem constantFields_of_becomes {entries : List (Data ε × Data ε)} {slots : List (Slot ε)}
    (h : List.Forall₂ (Data.Becomes false) entries slots) :
    constantFields (slots.map fun slot => (slot.name, slot.value)) = slots := by
  rw [constantFields, List.map_map]
  induction h with
  | nil => rfl
  | @cons e slot _ _ he _ ih =>
    obtain ⟨name, isMutable, value⟩ := slot
    obtain rfl : isMutable = false := he.flag
    rw [List.map_cons, ih]
    rfl

/-- **The constants of a document and the object of its data.**  The constants of a document that holds a
map are read if its entries become slots, and they are what the slots define.  The map becomes an
object if moreover there is a constant for every entry, and then its fields are these constants, in
order.  If there are fewer constants than entries, two entries have one name, and the object is
refused for it. -/
theorem constants_and_object {path : String} {bytes : ByteArray} {entries : List (Data ε × Data ε)}
    (h : datum path bytes = .ok (.map entries)) :
    (∀ constants : List (String × Value ε), globals path bytes = .ok constants ↔
      ∃ slots, List.Forall₂ (Data.Becomes false) entries slots ∧ constants = lastValues slots) ∧
    (∀ v, (Data.map entries).toValue false = .ok v ↔
      ∃ constants, globals path bytes = .ok constants ∧ constants.length = entries.length ∧
        v = .object (constantFields constants)) ∧
    (∀ constants : List (String × Value ε), globals path bytes = .ok constants →
      constants.length ≠ entries.length → constants.length < entries.length ∧
      ∃ name first second, [first, second].Sublist entries ∧ first.1.name = .ok name ∧
        second.1.name = .ok name ∧
        (Data.map entries).toValue false = .error (.error (.alreadyDefined name))) := by
  have hglobals (constants : List (String × Value ε)) : globals path bytes = .ok constants ↔
      ∃ slots, List.Forall₂ (Data.Becomes false) entries slots ∧ constants = lastValues slots := by
    rw [globals_eq_datum, h]
    exact globalsOf_map_eq_ok
  have hlength {slots : List (Slot ε)} (hslots : List.Forall₂ (Data.Becomes false) entries slots) :
      (lastValues slots).length = entries.length ↔ (slots.map Slot.name).Nodup := by
    rw [length_lastValues, hslots.length_eq, ← length_eraseDups_eq_iff, List.length_map]
  refine ⟨hglobals, fun v => ?_, fun constants hconstants hfew => ?_⟩
  · rw [Data.toValue_map_eq_ok]
    constructor
    · rintro ⟨slots, hslots, hnames, rfl⟩
      refine ⟨lastValues slots, (hglobals _).2 ⟨slots, hslots, rfl⟩, (hlength hslots).2 hnames, ?_⟩
      rw [lastValues_distinct hnames, constantFields_of_becomes hslots]
    · rintro ⟨constants, hconstants, hall, rfl⟩
      obtain ⟨slots, hslots, rfl⟩ := (hglobals _).1 hconstants
      have hnames := (hlength hslots).1 hall
      refine ⟨slots, hslots, hnames, ?_⟩
      rw [lastValues_distinct hnames, constantFields_of_becomes hslots]
  · obtain ⟨slots, hslots, rfl⟩ := (hglobals _).1 hconstants
    have hat_most : (lastValues slots).length ≤ entries.length := by
      rw [length_lastValues, hslots.length_eq, ← List.length_map (f := Slot.name)]
      exact (eraseDups_sublist _).length_le
    refine ⟨Nat.lt_of_le_of_ne hat_most hfew, Data.toValue_map_refused hslots ?_⟩
    exact fun hnames => hfew ((hlength hslots).2 hnames)

/-- A document with keys of three sorts, and a map under one of them. -/
theorem constants_and_object_nested :
    let entries : List (Data Empty × Data Empty) :=
      [(.bool true, .str "x"), (.null, .map [(.str "a", .bool false)]), (.str "b", .null)]
    let file := "true: x\nnull: \x7ba: false\x7d\nb:\n".toUTF8
    let constants : List (String × Value Empty) :=
      [("True", .string "x"), ("None", .object [⟨"a", false, .boolean false⟩]), ("b", .null)]
    datum "g.yaml" file = .ok (.map entries) ∧ globals "g.yaml" file = .ok constants ∧
      (Data.map entries).toValue false = .ok (.object (constantFields constants)) := by
  intro entries file constants
  have hdatum : datum "g.yaml" file = .ok (.map entries) := datum_of_agrees (by decide +kernel)
  obtain ⟨hglobals, hobject, _⟩ := constants_and_object hdatum
  have hslots : List.Forall₂ (Data.Becomes false) entries (constantFields constants) :=
    .cons ⟨rfl, rfl, rfl⟩ (.cons ⟨rfl, rfl, rfl⟩ (.cons ⟨rfl, rfl, rfl⟩ .nil))
  have hconstants := (hglobals constants).2 ⟨_, hslots, rfl⟩
  exact ⟨hdatum, hconstants, (hobject _).2 ⟨constants, hconstants, rfl, rfl⟩⟩

/-- Of two entries of one name the constants keep one, where the object is refused. -/
theorem constants_drop_entry :
    let entries : List (Data Empty × Data Empty) := [(.int 1, .str "a"), (.str "1", .str "b")]
    let file := "1: a\n\"1\": b\n".toUTF8
    let kept : List (String × Value Empty) := [("1", .string "b")]
    datum "g.yaml" file = .ok (.map entries) ∧ globals "g.yaml" file = .ok kept ∧
      (Data.map entries).toValue false = .error (.error (.alreadyDefined "1")) := by
  intro entries file kept
  have hdatum : datum "g.yaml" file = .ok (.map entries) := datum_of_agrees (by decide +kernel)
  let slots : List (Slot Empty) := [⟨"1", false, .string "a"⟩, ⟨"1", false, .string "b"⟩]
  have hkey : (.int 1 : Data Empty).IsKey := by
    simp [Data.IsKey, Data.IsWritable, Numeral.digits, Numeral.digitLimit]
  have hslots : List.Forall₂ (Data.Becomes false) entries slots :=
    .cons ⟨hkey.name_eq.trans (by decide +kernel), rfl, rfl⟩ (.cons ⟨rfl, rfl, rfl⟩ .nil)
  refine ⟨hdatum, ?_, ?_⟩
  · rw [globals_eq_datum, hdatum]
    exact globalsOf_of_becomes hslots
  · rw [Data.toValue, Data.toFields_of_becomes hslots]
    rfl

end Document

end Scriptlet
