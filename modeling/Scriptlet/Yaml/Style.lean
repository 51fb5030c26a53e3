import Scriptlet.Yaml.Page
import Scriptlet.Yaml.Place
import Scriptlet.Yaml.Tag
import Scriptlet.Text.Quoted

/-!
# How a YAML scalar is written

A scalar is written plain if it then reads back as what it is, between single quotes if it holds
only ASCII that these can hold, and otherwise between double quotes with escapes.  Long lines are
folded at single spaces, in double quotes also elsewhere.
-/

namespace Scriptlet.Yaml

set_option autoImplicit false

/-- The three ways to write a scalar here. -/
inductive Style where
  | plain | single | double
deriving DecidableEq, Repr

namespace Style

/-- A character that only double quotes can hold. -/
def isSpecial (c : Char) : Bool :=
  c != '\n' && !(0x20 ≤ c.toNat && c.toNat ≤ 0x7e)

/-- A character that ends a line of a scalar, a lone carriage return excepted. -/
def endsLine (c : Char) : Bool :=
  c != '\r' && isBreak c

/-- Whether a mark at this point would be followed by a blank or the end. -/
def followedByBlank (rest : List Char) : Bool :=
  rest.head?.all isBlankOrEnd

/-- Whether a text starts with something that a plain scalar cannot start with. -/
def startsMarked : List Char → Bool
  | [] => false
  | c :: rest =>
    "#,[]\x7b\x7d&*!|>'\"%@`".toList.contains c ||
      ("?:-".toList.contains c && followedByBlank rest)

/-- Whether a text holds, after the character `before`, the start of a comment or of a map's
value. -/
def holdsMark : Char → List Char → Bool
  | _, [] => false
  | before, c :: rest =>
    (c == ':' && followedByBlank rest) || (c == '#' && isBlankOrEnd before) || holdsMark c rest

/-- Whether a text starts like the mark of a document. -/
def startsDocument (text : List Char) : Bool :=
  text.take 3 == ['-', '-', '-'] || text.take 3 == ['.', '.', '.']

/-- Whether a text has the first character directly before the second. -/
def hasPair (a b : Char) (text : List Char) : Bool :=
  (text.zip text.tail).contains (a, b)

/-- Whether the text of a scalar can stand without quotes. -/
def fitsPlain (text : List Char) : Bool :=
  !text.any (fun c => isSpecial c || c == '\n') && text.head? != some ' ' &&
    text.getLast? != some ' ' && !startsDocument text && !startsMarked text &&
    !holdsMark '.' (text.drop 1)

/-- Whether the text of a scalar can stand between single quotes. -/
def fitsSingle (text : List Char) : Bool :=
  !text.any isSpecial && !hasPair ' ' '\n' text && !hasPair '\n' ' ' text

/-- The style of a scalar of a tag.  A plain scalar has to read back with the same tag. -/
def choose (tag : Tag) (text : List Char) : Style :=
  if Plain.tag text == tag && fitsPlain text then .plain
  else if fitsSingle text then .single
  else .double

/-- The runs of spaces, of line ends and of other characters in a text. -/
def runs (text : List Char) : List (List Char) :=
  text.splitBy fun a b => (a == ' ') == (b == ' ') && (a == '\n') == (b == '\n')

/-- Writes the runs of a plain scalar.  If it may be folded, a full line ends at a single space. -/
def putPlain (indent : Nat) (foldable : Bool) : List (List Char) → Page → Page
  | [], p => p
  | run :: rest, p =>
    let q :=
      if foldable && run == [' '] && p.isFull then (p.indent indent).filled else p.put run
    putPlain indent foldable rest q

/-- Writes the line ends in a single-quoted scalar, of which a lone one would be read as a
space. -/
def putBreaks (indent : Nat) (run : List Char) (p : Page) : Page :=
  (run.foldl (fun q _ => q.newLine) p.newLine).indent indent

/-- Writes the runs of a single-quoted scalar, behind the first character if `inside`. -/
def putSingle (indent : Nat) (foldable : Bool) (inside : Bool) : List (List Char) → Page → Page
  | [], p => p
  | run :: rest, p =>
    let q :=
      if run.head? == some '\n' then putBreaks indent run p
      else if foldable && inside && !rest.isEmpty && run == [' '] && p.isFull then p.indent indent
      else p.put (run.flatMap fun c => if c == '\'' then ['\'', '\''] else [c])
    putSingle indent foldable true rest q

/-- The letter of a short escape. -/
def shortEscape? (c : Char) : Option Char :=
  let table : List (Char × Char) :=
    [('\x00', '0'), ('\x07', 'a'), ('\x08', 'b'), ('\t', 't'), ('\n', 'n'), ('\x0b', 'v'),
     ('\x0c', 'f'), ('\r', 'r'), ('\x1b', 'e'), ('"', '"'), ('\\', '\\'), ('\u0085', 'N'),
     ('\u00a0', '_'), ('\u2028', 'L'), ('\u2029', 'P')]
  (table.find? fun p => p.1 == c).map (·.2)

/-- The escape of a character that needs one in double quotes. -/
def escape? (c : Char) : Option (List Char) :=
  let hex (width : Nat) : List Char := (Text.hexDigits width c.toNat).map Char.toUpper
  match shortEscape? c with
  | some letter => some ['\\', letter]
  | none =>
    if 0x20 ≤ c.toNat && c.toNat ≤ 0x7e then none
    else if c.toNat ≤ 0xff then some ('\\' :: 'x' :: hex 2)
    else if c.toNat ≤ 0xffff then some ('\\' :: 'u' :: hex 4)
    else some ('\\' :: 'U' :: hex 8)

/-- Ends the line inside double quotes.  A space that follows is escaped, for a line's leading
spaces do not count. -/
def foldDouble (indent : Nat) (next : Option Char) (p : Page) : Page :=
  let q := ((p.put ['\\']).indent indent).filled
  if next == some ' ' then q.put ['\\'] else q

/-- Writes the characters of a double-quoted scalar.  A full line ends before a space, before a
character behind an escape, or behind an escape; `inside` is false at the first character, and
`fresh` says that no unescaped character stands directly in front. -/
def putDouble (indent : Nat) (foldable : Bool) : Bool → Bool → List Char → Page → Page
  | _, _, [], p => p
  | inside, fresh, c :: rest, p =>
    let canFold := foldable && inside && !rest.isEmpty
    match escape? c with
    | some cs =>
      let q := p.put cs
      let q := if canFold && Page.width + 1 < q.column then foldDouble indent rest.head? q else q
      putDouble indent foldable true true rest q
    | none =>
      let q :=
        if canFold && (c == ' ' || fresh) && p.isFull then foldDouble indent (some c) p else p
      putDouble indent foldable true false rest (q.put [c])

/-- Writes a scalar whose further lines start at a column. -/
def put (style : Style) (indent : Nat) (foldable : Bool) (text : List Char) (p : Page) : Page :=
  match style with
  | .plain => putPlain indent foldable (runs text) p.space.filled
  | .single => (putSingle indent foldable false (runs text) (p.space.mark ['\''])).mark ['\'']
  | .double => (putDouble indent foldable false true text (p.space.mark ['"'])).mark ['"']

end Style

end Scriptlet.Yaml
