import Scriptlet.Error

/-!
# Places in a YAML text

A place in a text with its line and column, where five characters end a line and a byte order mark
takes no column, and the small readers that work on it.  The end of the text reads as a null
character, which no readable text holds.
-/

namespace Scriptlet.Yaml

set_option autoImplicit false

/-- A place in a text and what is left to read. -/
structure Place where
  rest : List Char
  index : Nat
  line : Nat
  column : Nat
deriving Repr, Inhabited

/-- The failure of a text that is no YAML. -/
def invalid : Failure := .error .invalidYaml

/-- A character that may stand in a text. -/
def isReadable (c : Char) : Bool :=
  let n := c.toNat
  n == 9 || n == 10 || n == 13 || (0x20 ≤ n && n ≤ 0x7e) || n == 0x85 ||
    (0xa0 ≤ n && n ≤ 0xd7ff) || (0xe000 ≤ n && n ≤ 0xfffd) || 0x10000 ≤ n

/-- A character that ends a line. -/
def isBreak (c : Char) : Bool :=
  c == '\r' || c == '\n' || c == '\u0085' || c == '\u2028' || c == '\u2029'

/-- The end of a line or of the text. -/
def isBreakOrEnd (c : Char) : Bool :=
  c == '\x00' || isBreak c

/-- A space, or the end of a line or of the text. -/
def isSpaceOrEnd (c : Char) : Bool :=
  c == ' ' || isBreakOrEnd c

/-- A space or tab, or the end of a line or of the text. -/
def isBlankOrEnd (c : Char) : Bool :=
  c == '\t' || isSpaceOrEnd c

/-- A letter or digit of ASCII, a hyphen or an underscore. -/
def isNameChar (c : Char) : Bool :=
  c.isAlphanum || c == '-' || c == '_'

namespace Place

/-- The start of a text. -/
def start (text : List Char) : Place :=
  ⟨text, 0, 0, 0⟩

/-- The character `k` places on. -/
def look (p : Place) (k : Nat) : Char :=
  p.rest.getD k '\x00'

/-- The character here. -/
def head (p : Place) : Char :=
  p.look 0

/-- The place after one character. -/
def step (p : Place) : Place :=
  match p.rest with
  | [] => p
  | c :: rest =>
    if c == '\n' || c == '\u0085' || c == '\u2028' || c == '\u2029' ||
        (c == '\r' && rest.head? != some '\n') then
      ⟨rest, p.index + 1, p.line + 1, 0⟩
    else if c == '\uFEFF' then { p with rest, index := p.index + 1 }
    else { p with rest, index := p.index + 1, column := p.column + 1 }

/-- The place after `n` characters. -/
def forward : Nat → Place → Place
  | 0, p => p
  | n + 1, p => forward n p.step

/-- The characters up to the first that fails a test, and the place there. -/
def span (p : Place) (test : Char → Bool) : List Char × Place :=
  let cs := p.rest.takeWhile test
  (cs, p.forward cs.length)

/-- The place after the spaces. -/
def skipSpaces (p : Place) : Place :=
  (p.span (· == ' ')).2

/-- The place after a comment, which runs to the end of the line. -/
def skipComment (p : Place) : Place :=
  if p.head == '#' then (p.span fun c => !isBreak c).2 else p

/-- The end of a line, as the text that it stands for, and the place after it. -/
def lineBreak (p : Place) : List Char × Place :=
  match p.rest with
  | '\r' :: '\n' :: _ => (['\n'], p.forward 2)
  | c :: _ =>
    if c == '\r' || c == '\n' || c == '\u0085' then (['\n'], p.step)
    else if c == '\u2028' || c == '\u2029' then ([c], p.step)
    else ([], p)
  | [] => ([], p)

/-- Whether the text goes on with a mark that separates documents. -/
def isSeparator (p : Place) (mark : Char) : Bool :=
  p.rest.take 3 == [mark, mark, mark] && isBlankOrEnd (p.look 3)

/-- Whether a new document starts or this one ends here. -/
def isDocumentMark (p : Place) : Bool :=
  p.isSeparator '-' || p.isSeparator '.'

/-- The place after the rest of a line that may only hold a comment. -/
def finishLine (p : Place) : Except Failure Place :=
  let stop := p.skipSpaces.skipComment
  if isBreakOrEnd stop.head then .ok stop.lineBreak.2 else .error invalid

end Place

end Scriptlet.Yaml
