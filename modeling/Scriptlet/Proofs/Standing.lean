import Scriptlet.Parser

/-!
# Where a place stands in a text

The line of a place is one more than the number of newlines in front of it, and its column one more
than the number of characters since the last of them.  A cursor that starts at the beginning of a
text and moves on keeps to this count (`Cursor.Behind.advance`), so every place that the parser
names stands in the text that it reads.
-/

namespace Scriptlet

set_option autoImplicit false

/-- The line of the place behind a text. -/
def lineBehind (before : List Char) : Nat :=
  1 + before.count '\n'

/-- The column of the place behind a text. -/
def colBehind (before : List Char) : Nat :=
  1 + (before.reverse.takeWhile (· != '\n')).length

theorem lineBehind_concat (before : List Char) (c : Char) :
    lineBehind (before ++ [c]) = if c = '\n' then lineBehind before + 1 else lineBehind before := by
  rw [lineBehind, lineBehind, List.count_append, List.count_singleton]
  split <;> simp_all [Nat.add_assoc]

theorem colBehind_concat (before : List Char) (c : Char) :
    colBehind (before ++ [c]) = if c = '\n' then 1 else colBehind before + 1 := by
  rw [colBehind, colBehind, List.reverse_append, List.reverse_singleton, List.singleton_append,
    List.takeWhile_cons]
  split <;> simp_all [Nat.add_assoc]

/-- The place stands in its source: `loc` has the line and column of some place there, and the text
of `loc`, if it has one, starts at that place. -/
def Location.StandsIn (source : List Char) (loc : Location) : Prop :=
  ∃ before after, source = before ++ after ∧ loc.line = lineBehind before ∧
    loc.col = colBehind before ∧ ∀ text ∈ loc.text, text.toList <+: after

namespace Cursor

/-- The place has the offset, line and column of the end of a text. -/
structure Behind (before : List Char) (c : Cursor) : Prop where
  offset : c.offset = before.length
  line : c.line = lineBehind before
  col : c.col = colBehind before

/-- The place is one of a source. -/
def In (source : List Char) (c : Cursor) : Prop :=
  ∃ before, source = before ++ c.rest ∧ c.Behind before

variable {source before : List Char} {c : Cursor}

theorem behind_start (source : List Char) : (start source).Behind [] :=
  ⟨rfl, rfl, rfl⟩

theorem in_start (source : List Char) : (start source).In source :=
  ⟨[], rfl, behind_start source⟩

/-- A place that moves on counts the characters that it passes. -/
theorem Behind.advance (h : c.Behind before) (n : Nat) :
    (c.advance n).Behind (before ++ c.rest.take n) := by
  induction n generalizing c before with
  | zero => rw [List.take_zero, List.append_nil]; exact h
  | succ n ih =>
    obtain ⟨o, l, k, _ | ⟨ch, rest⟩⟩ := c
    · rw [List.take_nil, List.append_nil]
      exact h
    · obtain ⟨ho, hl, hk⟩ := h
      have hlength : o + 1 = (before ++ [ch]).length := by
        rw [List.length_append, List.length_singleton]
        exact congrArg (· + 1) ho
      rw [List.take_succ_cons, List.append_cons, Cursor.advance]
      split
      · next hc =>
        have hnext : Behind (before ++ [ch]) ⟨o + 1, l + 1, 1, rest⟩ := by
          refine ⟨hlength, ?_, ?_⟩
          · rw [lineBehind_concat, if_pos hc]
            exact congrArg (· + 1) hl
          · rw [colBehind_concat, if_pos hc]
        exact ih hnext
      · next hc =>
        have hnext : Behind (before ++ [ch]) ⟨o + 1, l, k + 1, rest⟩ := by
          refine ⟨hlength, ?_, ?_⟩
          · rw [lineBehind_concat, if_neg hc]
            exact hl
          · rw [colBehind_concat, if_neg hc]
            exact congrArg (· + 1) hk
        exact ih hnext

theorem In.advance (h : c.In source) (n : Nat) : (c.advance n).In source := by
  obtain ⟨before, rfl, hb⟩ := h
  refine ⟨before ++ c.rest.take n, ?_, hb.advance n⟩
  rw [rest_advance, List.append_assoc, List.take_append_drop]

theorem In.offset_add (h : c.In source) : c.offset + c.rest.length = source.length := by
  obtain ⟨before, rfl, hb⟩ := h
  rw [hb.offset, List.length_append]

theorem In.skip (h : c.In source) : (Lexer.skip c).In source :=
  h.advance _

theorem In.point (h : c.In source) : c.point.StandsIn source := by
  obtain ⟨before, rfl, hb⟩ := h
  exact ⟨before, c.rest, rfl, hb.line, hb.col, fun _ ht => nomatch ht⟩

end Cursor

end Scriptlet
