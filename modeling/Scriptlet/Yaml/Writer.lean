import Scriptlet.Data
import Scriptlet.Yaml.Style

/-!
# Writing YAML

Lists and maps are written as indented blocks, empty ones in brackets.  A list that is the value
of a map stands at the column of the map.  A key that is empty, long or of several lines is marked
by `?`, its value by `:` on a line of its own.
-/

namespace Scriptlet.Yaml

set_option autoImplicit false

variable {ε : Type}

/-- A scalar with its tag. -/
structure Scalar where
  tag : Tag
  text : List Char

/-- A number with a fraction; the mantissa always has a point. -/
def doubleText (x : Decimal.Double) : List Char :=
  match x with
  | .nan => ['.', 'n', 'a', 'n']
  | .infinite negative => if negative then ['-', '.', 'i', 'n', 'f'] else ['.', 'i', 'n', 'f']
  | _ =>
    let cs := x.text.toList
    if cs.contains '.' then cs
    else cs.flatMap fun c => if c == 'e' then ['.', '0', 'e'] else [c]

/-- The scalar of a datum that is one. -/
def scalar? : Data ε → Option Scalar
  | .null => some ⟨.null, ['n', 'u', 'l', 'l']⟩
  | .bool b => some ⟨.bool, (if b then "true" else "false").toList⟩
  | .int n => some ⟨.int, (Numeral.ofInt n).toList⟩
  | .float x => some ⟨.float, doubleText x⟩
  | .str s => some ⟨.str, s.toList⟩
  | _ => none

namespace Scalar

/-- The length of the short name of a tag, with its two exclamation marks. -/
def tagLength (s : Scalar) : Nat :=
  match s.tag with
  | .null | .bool => 6
  | .float => 7
  | _ => 5

/-- Whether a scalar can be a key without a mark. -/
def isSimple (s : Scalar) : Bool :=
  s.tagLength + s.text.length < 128 && !s.text.isEmpty && !s.text.any Style.endsLine

/-- Writes a scalar inside a block of the given column, if any. -/
def put (s : Scalar) (block : Option Nat) (foldable : Bool) (p : Page) : Page :=
  (Style.choose s.tag s.text).put (block.elim 2 (· + 2)) foldable s.text p

end Scalar

mutual

/-- Whether a datum has a YAML form. -/
def isWritable : Data ε → Bool
  | .list items => areWritable items
  | .map entries => haveWritable entries
  | d => (scalar? d).isSome

/-- Whether the items of a list have a YAML form. -/
def areWritable : List (Data ε) → Bool
  | [] => true
  | d :: rest => isWritable d && areWritable rest

/-- Whether the entries of a map have a YAML form. -/
def haveWritable : List (Data ε × Data ε) → Bool
  | [] => true
  | (k, d) :: rest => isWritable k && isWritable d && haveWritable rest

end

mutual

/-- Writes a datum inside a block of the given column, if any, as part of a map or not. -/
def put (block : Option Nat) (inMap : Bool) : Data ε → Page → Page
  | .list [], p => (p.space.mark ['[']).mark [']']
  | .list (d :: ds), p =>
    let column := block.elim 0 fun n => if inMap && !p.indented then n else n + 2
    putItems column (d :: ds) p
  | .map [], p => (p.space.mark ['\x7b']).mark ['\x7d']
  | .map (e :: es), p => putEntries (block.elim 0 (· + 2)) (e :: es) p
  | d, p =>
    match scalar? d with
    | some s => s.put block true p
    | none => p

/-- Writes the items of a list at a column. -/
def putItems (column : Nat) : List (Data ε) → Page → Page
  | [], p => p
  | d :: rest, p =>
    let q := put (some column) false d ((p.indent column).entryMark '-')
    putItems column rest q

/-- Writes the entries of a map at a column. -/
def putEntries (column : Nat) : List (Data ε × Data ε) → Page → Page
  | [], p => p
  | (key, d) :: rest, p =>
    let p := p.indent column
    let simple := (scalar? key).filter (·.isSimple)
    let p :=
      match simple with
      | some s => (s.put (some column) false p).mark [':']
      | none =>
        ((put (some column) true key (p.entryMark '?')).indent column).entryMark ':'
    putEntries column rest (put (some column) true d p)

end

/-- Whether a document has to be ended by a mark: a plain scalar could go on. -/
def isOpenEnded (d : Data ε) : Bool :=
  (scalar? d).any fun s => Style.choose s.tag s.text == .plain

/-- The document of a datum. -/
def write (d : Data ε) : Except Breakdown String :=
  if isWritable d then
    let body := (put none false d .blank).indent 0
    .ok (body.text ++ if isOpenEnded d then "...\n" else "")
  else .error .notYaml

end Scriptlet.Yaml
