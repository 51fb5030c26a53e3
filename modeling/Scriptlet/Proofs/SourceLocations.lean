import Scriptlet.Proofs.ReadingCourse
import Scriptlet.Proofs.Standing

/-!
# Locations lie in the source

Every location in the tree of a source is that of a text which stands in this source, is not empty
and starts with a character of its line (`parse_marks`).  A source that is no program is refused at a
place of its own (`parse_refused`).  The reader is followed by a tie of the reading to itself, which
keeps track of where its tokens start.
-/

namespace Scriptlet

set_option autoImplicit false

/-- The location of a text that stands in a source, from a character `c` on that ends no line. -/
def Location.Marks (source : List Char) (loc : Location) : Prop :=
  ∃ before c text after, source = before ++ (c :: text ++ after) ∧ loc.line = lineBehind before ∧
    loc.col = colBehind before ∧ loc.text = some (String.ofList (c :: text)) ∧
    Text.isLineEnd c = false

theorem Location.Marks.standsIn {source : List Char} {loc : Location} (h : loc.Marks source) :
    loc.StandsIn source := by
  obtain ⟨before, c, text, after, rfl, hline, hcol, htext, _⟩ := h
  refine ⟨before, c :: text ++ after, rfl, hline, hcol, ?_⟩
  rw [htext]
  rintro _ ⟨⟩
  rw [String.toList_ofList]
  exact List.prefix_append _ _

/-- A token can start here and end at `k`. -/
structure Cursor.Opens (source : List Char) (k : Nat) (c : Cursor) : Prop where
  inside : c.In source
  start : c.offset < k
  stop : k ≤ source.length
  visible : ∀ ch ∈ c.rest.head?, Text.isLineEnd ch = false

variable {source : List Char}

theorem Cursor.Opens.marks {k : Nat} {c : Cursor} (h : c.Opens source k) :
    (c.locate k).Marks source := by
  have hlength := h.inside.offset_add
  have hstart := h.start
  have hstop := h.stop
  obtain ⟨before, hsource, hb⟩ := h.inside
  cases hrest : c.rest with
  | nil =>
    rw [hrest, List.length_nil] at hlength
    omega
  | cons ch tail =>
    obtain ⟨m, hm⟩ : ∃ m, k - c.offset = m + 1 := ⟨k - c.offset - 1, by omega⟩
    refine ⟨before, ch, tail.take m, tail.drop m, ?_, hb.line, hb.col, ?_, ?_⟩
    · rw [hsource, hrest, List.cons_append, List.take_append_drop]
    · rw [locate, hrest, hm, List.take_succ_cons]
    · exact h.visible ch (by rw [hrest]; rfl)

namespace Parser

open Reader Lexer

/-- A reading tied to itself, which keeps track of where its tokens start. -/
def survey (source : List Char) : Tie where
  start k c c' := c' = c ∧ c.Opens source k
  stop k := k
  move := id
  good := Location.Marks source
  before := []
  text_move := Tie.text_id
  later := by
    rintro k k' c _ d _ ⟨rfl, hc⟩ ⟨_, hd⟩ hk
    exact ⟨rfl, { hc with start := Nat.lt_of_lt_of_le hc.start hk, stop := hd.stop }⟩
  located := by
    rintro k c _ ⟨rfl, hc⟩
    exact ⟨hc.marks, rfl⟩

namespace Reading

variable {r goal : Reading} {rule : Rule}

/-- A reading stays in its source. -/
theorem Reaches.within (h : r.Reaches goal) (hp : r.place.In source)
    (hl : ∀ t ∈ r.last, t.start.In source) :
    goal.place.In source ∧ ∀ t ∈ goal.last, t.start.In source := by
  induction h with
  | refl r => exact ⟨hp, hl⟩
  | token _ _ _ ih =>
    refine ih (hp.skip.advance _) ?_
    rintro _ ⟨⟩
    exact hp.skip

/-- A reading from the start of a text keeps up with itself. -/
theorem Reaches.surveyed (h : (start rule source).Reaches goal) :
    ∃ other, goal.Alongside (survey source) (fun c c' => c' = c ∧ c.In source) other := by
  have hstart : (start rule source).Alongside (survey source) (fun c c' => c' = c ∧ c.In source)
      (start rule source) := ⟨.initial rfl _ rule, rfl, Cursor.in_start source⟩
  obtain ⟨other, _, hgoal⟩ := h.alongside hstart <| by
    rintro r _ terminal n next ⟨rfl, hin⟩ hl _ _
    have hskip := hin.skip
    refine ⟨hl, ⟨rfl, rfl, ⟨rfl, hskip, ?_, ?_, ?_⟩, rfl⟩, rfl, hskip.advance n⟩
    · exact Nat.lt_add_of_pos_right (lexeme_pos hl)
    · rw [← hskip.offset_add]
      exact Nat.add_le_add_left (lexeme_le hl) _
    · intro ch hch
      obtain ⟨tail, htail⟩ := List.head?_eq_some_iff.1 hch
      rw [show (r.token terminal n).start = skip r.place from rfl] at htail
      rw [htail] at hl
      exact lexeme_head hl
  exact ⟨other, hgoal⟩

end Reading

variable {rule : Rule} {text : String}

/-- The locations in the tree of a source are those of texts in the source. -/
theorem parse_marks {node : Node} (h : parse rule text = .ok node) :
    ∀ loc ∈ node.spots, loc.Marks text.toList := by
  obtain ⟨goal, hreaches, hstops⟩ := Reading.exists_stops (Reading.start rule text.toList)
  obtain ⟨other, hother⟩ := hreaches.surveyed
  rw [show (Reading.start rule text.toList).result = .ok node from h] at hstops
  cases hstops with
  | done _ hf => exact State.finish_good hother.state hf

/-- A source is refused at a place of its own. -/
theorem parse_refused {m : Malformed} (h : parse rule text = .error m) :
    m.loc.StandsIn text.toList := by
  obtain ⟨goal, hreaches, hstops⟩ := Reading.exists_stops (Reading.start rule text.toList)
  have hstart : (Reading.start rule text.toList).place.In text.toList := Cursor.in_start _
  obtain ⟨hplace, hlast⟩ := hreaches.within hstart nofun
  rw [show (Reading.start rule text.toList).result = .error m from h] at hstops
  cases hstops with
  | ending =>
    cases hl : goal.last with
    | none => exact hstart.point
    | some t => exact (hlast t hl).point
  | character => exact hplace.skip.point
  | token => exact hplace.skip.point

end Parser

end Scriptlet
