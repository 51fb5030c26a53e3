/-!
# The page that YAML is written on

A page knows how far its last line reaches, and whether that line ends with a blank and holds
nothing but indentation so far.  Everything is written through the three operations `put`,
`mark` and `newLine`.
-/

namespace Scriptlet.Yaml

set_option autoImplicit false

/-- What is written so far. -/
structure Page where
  /-- The characters, the last one first. -/
  written : List Char
  column : Nat
  /-- Whether a mark may follow without a space in front. -/
  spaced : Bool
  /-- Whether the line holds only indentation and the marks of entries. -/
  indented : Bool
deriving Repr

namespace Page

/-- A page without text. -/
def blank : Page := ⟨[], 0, true, true⟩

/-- The text of a page. -/
def text (p : Page) : String :=
  String.ofList p.written.reverse

/-- The width that lines are kept to where they can be folded. -/
def width : Nat := 80

/-- Whether the last line is already too long. -/
def isFull (p : Page) : Bool :=
  width < p.column

/-- Adds characters to the last line. -/
def put (cs : List Char) (p : Page) : Page :=
  { p with written := cs.reverse ++ p.written, column := p.column + cs.length }

/-- Ends the line. -/
def newLine (p : Page) : Page :=
  ⟨'\n' :: p.written, 0, true, true⟩

/-- Says that the line now holds content. -/
def filled (p : Page) : Page :=
  { p with spaced := false, indented := false }

/-- Adds a mark without a space in front. -/
def mark (cs : List Char) (p : Page) : Page :=
  (p.put cs).filled

/-- Puts a space at the end of the line unless there is a blank already. -/
def space (p : Page) : Page :=
  if p.spaced then p else p.put [' ']

/-- Adds the mark of an entry, behind which the line still counts as indentation. -/
def entryMark (c : Char) (p : Page) : Page :=
  let q := p.space.put [c]
  { q with spaced := false }

/-- Goes to a column, on a new line unless only indentation up to there has been written. -/
def indent (column : Nat) (p : Page) : Page :=
  let q :=
    if !p.indented || column < p.column || (p.column == column && !p.spaced) then p.newLine else p
  if q.column < column then
    { q.put (List.replicate (column - q.column) ' ') with spaced := true }
  else q

end Page

end Scriptlet.Yaml
