import Scriptlet.Json.Reader
import Scriptlet.Yaml.Place

/-!
# Scalars of a YAML text

The four ways to write a scalar: plain, between single quotes, between double quotes with escapes,
and as a block of indented lines.  Line ends inside a scalar are folded: a single one becomes a
space, further ones stay.
-/

namespace Scriptlet.Yaml

set_option autoImplicit false

/-- The character of a simple escape. -/
def escape? (c : Char) : Option Char :=
  let table : List (Char × Char) :=
    [('0', '\x00'), ('a', '\x07'), ('b', '\x08'), ('t', '\t'), ('\t', '\t'), ('n', '\n'),
     ('v', '\x0b'), ('f', '\x0c'), ('r', '\r'), ('e', '\x1b'), (' ', ' '), ('"', '"'),
     ('\\', '\\'), ('/', '/'), ('N', '\u0085'), ('_', '\u00a0'), ('L', '\u2028'), ('P', '\u2029')]
  (table.find? fun p => p.1 == c).map (·.2)

/-- The number of hexadecimal digits of a numbered escape. -/
def escapeWidth? (c : Char) : Option Nat :=
  if c = 'x' then some 2 else if c = 'u' then some 4 else if c = 'U' then some 8 else none

/-- The number that hexadecimal digits denote. -/
def hexNumber? (cs : List Char) : Option Nat :=
  cs.foldlM (fun n c => do return n * 16 + (← Json.hexValue? c)) 0

/-- The character of a code point. -/
def codeChar (n : Nat) : Except Failure Char :=
  if n < 0x110000 then Json.character n
  else if n < 0x80000000 then
    .error (.breakdown (.exception "ValueError" "chr() arg not in range(0x110000)"))
  else
    .error (.breakdown (.exception "OverflowError" "Python int too large to convert to C int"))

namespace Place

/-- The further line ends inside a quoted scalar, after the first. -/
def quotedBreaks : Nat → Place → Except Failure (List Char × Place)
  | 0, p => .ok ([], p)
  | fuel + 1, p =>
    if p.isDocumentMark then .error invalid
    else
      let next := (p.span fun c => c == ' ' || c == '\t').2
      if isBreak next.head then do
        let (br, after) := next.lineBreak
        let (more, stop) ← quotedBreaks fuel after
        return (br ++ more, stop)
      else .ok ([], next)

/-- The blanks inside a quoted scalar: kept within a line, folded at its end. -/
def quotedBlanks (p : Place) : Except Failure (List Char × Place) :=
  let (blanks, next) := p.span fun c => c == ' ' || c == '\t'
  if next.head == '\x00' then .error invalid
  else if isBreak next.head then do
    let (br, after) := next.lineBreak
    let (more, stop) ← quotedBreaks (after.rest.length + 1) after
    let folded := if br ≠ ['\n'] then br else if more.isEmpty then [' '] else []
    return (folded ++ more, stop)
  else .ok (blanks, next)

/-- What an escape in double quotes stands for; the place is that after the backslash. -/
def escaped (p : Place) : Except Failure (List Char × Place) :=
  match escape? p.head, escapeWidth? p.head with
  | some c, _ => .ok ([c], p.step)
  | none, some width =>
    let digits := p.step.rest.take width
    match hexNumber? digits with
    | some n =>
      if digits.length = width then do return ([← codeChar n], p.step.forward width)
      else .error invalid
    | none => .error invalid
  | none, none =>
    if isBreak p.head then quotedBreaks (p.rest.length + 1) p.lineBreak.2 else .error invalid

/-- The rest of a quoted scalar up to its closing quote. -/
def quotedBody (double : Bool) : Nat → Place → Except Failure (List Char × Place)
  | 0, _ => .error invalid
  | fuel + 1, p =>
    let c := p.head
    let quote := if double then '"' else '\''
    let continueWith (piece : List Char × Place) : Except Failure (List Char × Place) := do
      let (cs, stop) ← quotedBody double fuel piece.2
      return (piece.1 ++ cs, stop)
    if !double && c == '\'' && p.look 1 == '\'' then continueWith (['\''], p.forward 2)
    else if c == quote then .ok ([], p.step)
    else if double && c == '\\' then do continueWith (← escaped p.step)
    else if isBlankOrEnd c then do continueWith (← quotedBlanks p)
    else continueWith ([c], p.step)

/-- The quoted scalar at its opening quote. -/
def quoted (double : Bool) (p : Place) : Except Failure (List Char × Place) :=
  quotedBody double (p.rest.length + 1) p.step

/-- The spaces and line ends inside a plain scalar.  There are none if a document mark follows.
The flag tells whether a line ended. -/
def plainBlanks (p : Place) : List Char × Bool × Place :=
  let (spaces, next) := p.span (· == ' ')
  if isBreak next.head then
    let (br, after) := next.lineBreak
    if after.isDocumentMark then ([], true, after)
    else
      match breaks (after.rest.length + 1) after [] with
      | (none, stop) => ([], true, stop)
      | (some more, stop) =>
        let folded := if br ≠ ['\n'] then br else if more.isEmpty then [' '] else []
        (folded ++ more, true, stop)
  else (spaces, false, next)
where
  /-- The further line ends, unless a document mark follows one of them. -/
  breaks : Nat → Place → List Char → Option (List Char) × Place
    | 0, p, done => (some done, p)
    | fuel + 1, p, done =>
      if p.head == ' ' then breaks fuel p.step done
      else if isBreak p.head then
        let (br, after) := p.lineBreak
        if after.isDocumentMark then (none, after) else breaks fuel after (done ++ br)
      else (some done, p)

/-- Whether a plain scalar stops in front of a character.  In a flow collection the marks of the
collection end it. -/
def stopsPlain (inFlow : Bool) (c next : Char) : Bool :=
  isBlankOrEnd c ||
    (c == ':' && (isBlankOrEnd next || (inFlow && ",[]\x7b\x7d".toList.contains next))) ||
    (inFlow && ",?[]\x7b\x7d".toList.contains c)

/-- The characters of a plain scalar up to a blank or a mark. -/
def plainWord (inFlow : Bool) : List Char → List Char
  | [] => []
  | c :: rest =>
    if stopsPlain inFlow c (rest.headD '\x00') then [] else c :: plainWord inFlow rest

/-- A plain scalar after some blanks: its text, whether a line ended behind its last word, and the
place after it.  In a block it ends where the indentation is less than `indent`. -/
def plainFrom (inFlow : Bool) (indent : Int) :
    Nat → List Char → Bool → Place → List Char × Bool × Place
  | 0, _, ended, p => ([], ended, p)
  | fuel + 1, blanks, ended, p =>
    let word := if p.head == '#' then [] else plainWord inFlow p.rest
    if word.isEmpty then ([], ended, p)
    else
      let (more, broke, next) := (p.forward word.length).plainBlanks
      if more.isEmpty || next.head == '#' || (!inFlow && (next.column : Int) < indent) then
        (blanks ++ word, broke, next)
      else
        let (cs, ended, stop) := plainFrom inFlow indent fuel more broke next
        (blanks ++ word ++ cs, ended, stop)

/-- The plain scalar here: its text, whether a line ended behind it, and the place after it. -/
def plain (inFlow : Bool) (indent : Int) (p : Place) : List Char × Bool × Place :=
  plainFrom inFlow indent (p.rest.length + 1) [] false p

/-- What a block scalar keeps of the line ends behind it. -/
inductive Chomping where
  | strip | clip | keep
deriving DecidableEq, Repr

/-- The sign that chooses what is kept. -/
def chomping? (c : Char) : Option Chomping :=
  if c = '+' then some .keep else if c = '-' then some .strip else none

/-- The head of a block scalar: what it keeps, its indentation if it is given, and the place
after it. -/
def blockHead (p : Place) : Except Failure (Chomping × Option Nat × Place) :=
  let sized (p : Place) : Except Failure (Option Nat × Place) :=
    if p.head.isDigit then
      if p.head == '0' then .error invalid else .ok (some (p.head.toNat - 48), p.step)
    else .ok (none, p)
  let finish (r : Chomping × Option Nat × Place) : Except Failure (Chomping × Option Nat × Place) :=
    if isSpaceOrEnd r.2.2.head then .ok r else .error invalid
  match chomping? p.head with
  | some chomping => do
    let (size, next) ← sized p.step
    finish (chomping, size, next)
  | none => do
    let (size, next) ← sized p
    match size, chomping? next.head with
    | some _, some chomping => finish (chomping, size, next.step)
    | _, _ => finish (.clip, size, next)

/-- The line ends in front of a block scalar whose indentation is not given, and the greatest
column that its leading spaces reach. -/
def blockIndentation : Nat → Nat → Place → List Char × Nat × Place
  | 0, widest, p => ([], widest, p)
  | fuel + 1, widest, p =>
    if p.head == ' ' then
      let next := p.step
      blockIndentation fuel (max widest next.column) next
    else if isBreak p.head then
      let (br, next) := p.lineBreak
      let (more, widest, stop) := blockIndentation fuel widest next
      (br ++ more, widest, stop)
    else ([], widest, p)

/-- The place after at most as many spaces as the indentation asks for. -/
def blockSpaces (indent : Nat) (p : Place) : Place :=
  p.forward ((p.rest.takeWhile (· == ' ')).take (indent - p.column)).length

/-- The line ends between two lines of a block scalar. -/
def blockBreaks (indent : Nat) : Nat → Place → List Char × Place
  | 0, p => ([], p)
  | fuel + 1, p =>
    let next := p.blockSpaces indent
    if isBreak next.head then
      let (br, after) := next.lineBreak
      let (more, stop) := blockBreaks indent fuel after
      (br ++ more, stop)
    else ([], next)

/-- Whether a block scalar goes on here. -/
def inBlock (indent : Nat) (p : Place) : Bool :=
  p.column == indent && p.head != '\x00'

/-- The lines of a block scalar.  The result has the text without the line ends behind it, the first
of these, the further ones, and the place after them. -/
def blockLines (folded : Bool) (indent : Nat) :
    Nat → List Char → Place → List Char × List Char × List Char × Place
  | 0, breaks, p => ([], [], breaks, p)
  | fuel + 1, breaks, p =>
    if !p.inBlock indent then ([], [], breaks, p)
    else
      let (line, stop) := p.span fun c => !isBreak c
      let (br, after) := stop.lineBreak
      let (more, next) := blockBreaks indent (after.rest.length + 1) after
      if next.inBlock indent then
        let isText (c : Char) : Bool := c != ' ' && c != '\t'
        let joint :=
          if folded && br == ['\n'] && isText p.head && isText next.head then
            if more.isEmpty then [' '] else []
          else br
        let (cs, last, rest, final) := blockLines folded indent fuel more next
        (breaks ++ line ++ joint ++ cs, last, rest, final)
      else (breaks ++ line, br, more, next)

/-- The block scalar at its mark, inside a block of the given indentation. -/
def block (folded : Bool) (parent : Int) (p : Place) : Except Failure (List Char × Place) := do
  let (chomping, size, head) ← p.step.blockHead
  let body ← head.finishLine
  let least := (max 1 (parent + 1)).toNat
  let (breaks, indent, first) :=
    match size with
    | none =>
      let (breaks, widest, first) := blockIndentation (body.rest.length + 1) 0 body
      (breaks, max least widest, first)
    | some n =>
      let indent := least + n - 1
      let (breaks, first) := blockBreaks indent (body.rest.length + 1) body
      (breaks, indent, first)
  let (text, last, rest, stop) := blockLines folded indent (first.rest.length + 1) breaks first
  let tail :=
    match chomping with
    | .strip => []
    | .clip => last
    | .keep => last ++ rest
  return (text ++ tail, stop)

end Place

end Scriptlet.Yaml
