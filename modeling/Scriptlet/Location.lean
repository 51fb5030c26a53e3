/-!
# Positions in a source text

A `Cursor` is a place in a source text together with what is left to read from there; lines
are counted by newline characters and columns by characters, both from one.  A `Location` is
what an error report keeps of a place: its line and column and, when known, the text that
stands there.
-/

namespace Scriptlet

set_option autoImplicit false

/-- A line and a column, and the source text found there if it is known. -/
structure Location where
  line : Nat
  col : Nat
  text : Option String
deriving DecidableEq, Repr, Inhabited

/-- A place in a source text and the characters from there on. -/
structure Cursor where
  offset : Nat
  line : Nat
  col : Nat
  rest : List Char
deriving DecidableEq, Repr, Inhabited

namespace Cursor

/-- The start of a source text. -/
def start (source : List Char) : Cursor :=
  ⟨0, 1, 1, source⟩

/-- The place `n` characters further on, or the end of the text if it is nearer. -/
def advance : Nat → Cursor → Cursor
  | 0, c => c
  | _ + 1, ⟨o, l, k, []⟩ => ⟨o, l, k, []⟩
  | n + 1, ⟨o, l, k, ch :: rest⟩ =>
    if ch = '\n' then advance n ⟨o + 1, l + 1, 1, rest⟩ else advance n ⟨o + 1, l, k + 1, rest⟩

/-- What is left to read after `n` characters. -/
theorem rest_advance (n : Nat) (c : Cursor) : (c.advance n).rest = c.rest.drop n := by
  induction n generalizing c with
  | zero => simp [advance]
  | succ n ih =>
    obtain ⟨o, l, k, _ | ⟨ch, rest⟩⟩ := c
    · simp [advance]
    · simp only [advance]
      split <;> simp [ih]

/-- The location of the text from a place up to the offset `stop`. -/
def locate (c : Cursor) (stop : Nat) : Location :=
  ⟨c.line, c.col, some (String.ofList (c.rest.take (stop - c.offset)))⟩

/-- The location of a place, with no text. -/
def point (c : Cursor) : Location :=
  ⟨c.line, c.col, none⟩

end Cursor

end Scriptlet
