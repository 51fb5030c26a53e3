/-!
# Lines of a text

A text shown to a reader is cut into lines at every character that a terminal may treat as the
end of a line, not only at the newline; a carriage return directly before a newline belongs to
the same end.  The last line needs no end, and an end at the very end of the text opens no
further line.
-/

namespace Scriptlet.Text

set_option autoImplicit false

/-- A character that ends a line. -/
def isLineEnd (c : Char) : Bool :=
  let n := c.toNat
  (10 ≤ n && n ≤ 13) || (28 ≤ n && n ≤ 30) || n == 0x85 || n == 0x2028 || n == 0x2029

/-- The lines of a text whose current line already holds `line` (most recent character
first). -/
def linesFrom : List Char → List Char → List (List Char)
  | [], [] => []
  | line, [] => [line.reverse]
  | line, '\r' :: '\n' :: rest => line.reverse :: linesFrom [] rest
  | line, c :: rest =>
    if isLineEnd c then line.reverse :: linesFrom [] rest else linesFrom (c :: line) rest

/-- The lines of a text, without their ends. -/
def lines (cs : List Char) : List (List Char) :=
  linesFrom [] cs

/-- The text of a file or of typed input: a carriage return, also before a newline, is a newline. -/
def uniform : List Char → List Char
  | [] => []
  | '\r' :: '\n' :: rest => '\n' :: uniform rest
  | c :: rest => (if c = '\r' then '\n' else c) :: uniform rest

/-- The first line of a text. -/
def firstLine (cs : List Char) : List Char :=
  cs.takeWhile fun c => !isLineEnd c

end Scriptlet.Text
