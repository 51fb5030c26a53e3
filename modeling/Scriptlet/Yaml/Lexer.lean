import Scriptlet.Yaml.Scalar
import Scriptlet.Yaml.Token

/-!
# Cutting a YAML text into tokens

Indentation opens and closes blocks, and a scalar turns out to be a key only when a colon follows
it on the same line.  `Scan` therefore remembers, for each level of flow collections, where a key
may have started, and puts the marks of the key in front of it once the colon is seen.  A fault in
the text is met only after the tokens in front of it, as far as these are certain.
-/

namespace Scriptlet.Yaml

set_option autoImplicit false

/-- Where a key may have started. -/
structure KeyStart where
  /-- The number of tokens in front of it. -/
  position : Nat
  /-- Whether the block ends badly if it is none. -/
  required : Bool
  index : Nat
  line : Nat
  column : Nat

/-- The tokens of a text, and what is wrong where they end. -/
structure Tokens where
  list : List Token
  fault : Failure

/-- What has been read of a text. -/
structure Scan where
  place : Place
  /-- How many flow collections are open. -/
  flow : Nat
  indent : Int
  indents : List Int
  keyAllowed : Bool
  /-- Possible keys by the number of flow collections around them. -/
  keys : List (Nat × KeyStart)
  tokens : List Token

namespace Scan

/-- The start of a text. -/
def start (text : List Char) : Scan :=
  ⟨.start text, 0, -1, [], true, [], []⟩

/-- Adds a token. -/
def push (s : Scan) (t : Token) : Scan :=
  { s with tokens := s.tokens ++ [t] }

/-- Adds a mark of `n` characters. -/
def mark (s : Scan) (t : Token) (n : Nat) : Scan :=
  { s.push t with place := s.place.forward n }

/-- The possible key at the present level. -/
def key? (s : Scan) : Option KeyStart :=
  (s.keys.find? fun k => k.1 == s.flow).map (·.2)

/-- Forgets the possible key at the present level, unless it had to be one. -/
def forgetKey (s : Scan) : Except Failure Scan :=
  match s.key? with
  | none => .ok s
  | some k =>
    if k.required then .error invalid
    else .ok { s with keys := s.keys.filter fun k => k.1 != s.flow }

/-- Notes that a key may start here. -/
def noteKey (s : Scan) : Except Failure Scan :=
  if s.keyAllowed then do
    let s ← s.forgetKey
    let required := s.flow == 0 && s.indent == (s.place.column : Int)
    let k : KeyStart :=
      ⟨s.tokens.length, required, s.place.index, s.place.line, s.place.column⟩
    return { s with keys := s.keys ++ [(s.flow, k)] }
  else .ok s

/-- Forgets the possible keys that are too far back: on another line, or too many characters. -/
def forgetStale (s : Scan) : Except Failure Scan :=
  let isStale (k : Nat × KeyStart) : Bool :=
    k.2.line != s.place.line || 1024 < s.place.index - k.2.index
  if s.keys.any fun k => isStale k && k.2.required then .error invalid
  else .ok { s with keys := s.keys.filter fun k => !isStale k }

/-- Closes the blocks that are indented further than a column. -/
def unwind (s : Scan) (column : Int) : Scan :=
  if 0 < s.flow then s
  else go s.indents s
where
  /-- Closes one block after the other. -/
  go : List Int → Scan → Scan
    | [], s => s
    | outer :: rest, s =>
      if column < s.indent then
        go rest { s.push .blockEnd with indent := outer, indents := rest }
      else s

/-- Opens a block at a column, if it is indented further than the present one. -/
def openBlock (s : Scan) (column : Nat) : Option Scan :=
  if s.indent < (column : Int) then
    some { s with indent := column, indents := s.indent :: s.indents }
  else none

/-- Skips blanks, comments and line ends in front of a token. -/
def skipGap : Nat → Scan → Scan
  | 0, s => s
  | fuel + 1, s =>
    let place := s.place.skipSpaces.skipComment
    if isBreak place.head then
      skipGap fuel { s with
        place := place.lineBreak.2,
        keyAllowed := s.keyAllowed || s.flow == 0 }
    else { s with place }

/-- A byte order mark at the very start is skipped. -/
def skipMark (s : Scan) : Scan :=
  if s.place.index == 0 && s.place.head == '\uFEFF' then { s with place := s.place.step } else s

/-- Reads a name of letters, digits, hyphens and underscores. -/
def name (p : Place) : Except Failure (String × Place) :=
  let (cs, stop) := p.span isNameChar
  if cs.isEmpty then .error invalid else .ok (String.ofList cs, stop)

/-- Reads a natural number, whose digits are limited. -/
def natural (p : Place) : Except Failure (Nat × Place) :=
  let (cs, stop) := p.span Char.isDigit
  if cs.isEmpty then .error invalid
  else if Numeral.digitLimit < cs.length then .error (.breakdown (.digitLimit cs.length))
  else .ok (Numeral.value cs, stop)

/-- A character that may stand in a tag as it is. -/
def isTagChar (c : Char) : Bool :=
  isNameChar c || ";/?:@&=+$,.!~*'()[]".toList.contains c

/-- The bytes of a run of escapes in a tag. -/
def tagBytes : Nat → Place → Except Failure (List UInt8 × Place)
  | 0, p => .ok ([], p)
  | fuel + 1, p =>
    if p.head == '%' then
      match Json.hexValue? (p.look 1), Json.hexValue? (p.look 2) with
      | some a, some b => do
        let (bytes, stop) ← tagBytes fuel (p.forward 3)
        return (UInt8.ofNat (a * 16 + b) :: bytes, stop)
      | _, _ => .error invalid
    else .ok ([], p)

/-- The characters of a tag, with its escapes decoded. -/
def tagChars : Nat → Place → Except Failure (List Char × Place)
  | 0, p => .ok ([], p)
  | fuel + 1, p =>
    if p.head == '%' then do
      let (bytes, next) ← tagBytes (p.rest.length + 1) p
      match String.fromUTF8? ⟨bytes.toArray⟩ with
      | none => .error invalid
      | some s =>
        let (cs, stop) ← tagChars fuel next
        return (s.toList ++ cs, stop)
    else if isTagChar p.head then do
      let (cs, stop) ← tagChars fuel p.step
      return (p.head :: cs, stop)
    else .ok ([], p)

/-- The text of a tag, which must not be empty. -/
def tagText (p : Place) : Except Failure (String × Place) := do
  let (cs, stop) ← tagChars (p.rest.length + 1) p
  if stop.index == p.index then .error invalid else .ok (String.ofList cs, stop)

/-- The handle in front of a tag: an exclamation mark, or a name between two of them. -/
def tagHandle (p : Place) : Except Failure (String × Place) :=
  if p.head == '!' then
    let (cs, stop) := p.step.span isNameChar
    if cs.isEmpty && p.look 1 == ' ' then .ok ("!", p.step)
    else if stop.head == '!' then .ok (String.ofList ('!' :: cs ++ ['!']), stop.step)
    else .error invalid
  else .error invalid

/-- Reads a directive. -/
def directive (p : Place) : Except Failure (Directive × Place) := do
  let (word, afterName) ← name p.step
  if !isSpaceOrEnd afterName.head then .error invalid
  if word = "YAML" then
    let (major, dot) ← natural afterName.skipSpaces
    if dot.head != '.' then .error invalid
    let (minor, stop) ← natural dot.step
    if !isSpaceOrEnd stop.head then .error invalid
    return (.version major minor, ← stop.finishLine)
  else if word = "TAG" then
    let (handle, afterHandle) ← tagHandle afterName.skipSpaces
    if afterHandle.head != ' ' then .error invalid
    let (expansion, stop) ← tagText afterHandle.skipSpaces
    if !isSpaceOrEnd stop.head then .error invalid
    return (.tag handle expansion, ← stop.finishLine)
  else
    return (.other, ← (afterName.span fun c => !isBreak c).2.finishLine)

/-- Whether a tag starts with a handle: it has a second exclamation mark. -/
def hasHandle (p : Place) : Bool :=
  (p.step.rest.takeWhile fun c => !isSpaceOrEnd c).contains '!'

/-- Reads the tag of a node. -/
def nodeTag (p : Place) : Except Failure (Token × Place) := do
  let (token, stop) ←
    if p.look 1 == '<' then do
      let (suffix, close) ← tagText (p.forward 2)
      if close.head != '>' then .error invalid
      pure (Token.tag none suffix, close.step)
    else if isBlankOrEnd (p.look 1) then pure (Token.tag none "!", p.step)
    else if hasHandle p then do
      let (handle, next) ← tagHandle p
      let (suffix, stop) ← tagText next
      pure (Token.tag (some handle) suffix, stop)
    else do
      let (suffix, stop) ← tagText p.step
      pure (Token.tag (some "!") suffix, stop)
  if isSpaceOrEnd stop.head then return (token, stop) else .error invalid

/-- Reads the name of an anchor or of a reference to one. -/
def anchorName (p : Place) : Except Failure (String × Place) := do
  let (word, stop) ← name p.step
  if isBlankOrEnd stop.head || "?:,]\x7d%@`".toList.contains stop.head then return (word, stop)
  else .error invalid

/-- The end of the present document or of the text: every block is closed. -/
def leaveDocument (s : Scan) : Except Failure Scan := do
  let s ← (s.unwind (-1)).forgetKey
  return { s with keyAllowed := false }

/-- Starts a flow collection. -/
def openFlow (s : Scan) (t : Token) : Except Failure Scan := do
  let s ← s.noteKey
  return { s.mark t 1 with flow := s.flow + 1, keyAllowed := true }

/-- Ends a flow collection. -/
def closeFlow (s : Scan) (t : Token) : Except Failure Scan := do
  let s ← s.forgetKey
  if s.flow == 0 then .error invalid
  else return { s.mark t 1 with flow := s.flow - 1, keyAllowed := false }

/-- A mark that may open a block here. -/
def openBlockWith (s : Scan) (opening : Token) : Except Failure Scan :=
  if 0 < s.flow then .ok s
  else if !s.keyAllowed then .error invalid
  else
    match s.openBlock s.place.column with
    | some s => .ok (s.push opening)
    | none => .ok s

/-- The dash of a list. -/
def blockEntry (s : Scan) : Except Failure Scan := do
  let s ← s.openBlockWith .blockSeqStart
  let s ← ({ s with keyAllowed := true } : Scan).forgetKey
  return s.mark .blockEntry 1

/-- The question mark of a key. -/
def explicitKey (s : Scan) : Except Failure Scan := do
  let s ← s.openBlockWith .blockMapStart
  let s ← ({ s with keyAllowed := s.flow == 0 } : Scan).forgetKey
  return s.mark .key 1

/-- The colon of a value.  If a key may have started before it, it did. -/
def valueMark (s : Scan) : Except Failure Scan :=
  match s.key? with
  | some k =>
    let s := { s with keys := s.keys.filter fun k => k.1 != s.flow }
    let keyed := { s with tokens := s.tokens.insertIdx k.position .key }
    let opened :=
      if 0 < s.flow then keyed
      else
        match keyed.openBlock k.column with
        | some s => { s with tokens := s.tokens.insertIdx k.position .blockMapStart }
        | none => keyed
    .ok ({ opened with keyAllowed := false }.mark .value 1)
  | none => do
    let s ← s.openBlockWith .blockMapStart
    let s ← ({ s with keyAllowed := s.flow == 0 } : Scan).forgetKey
    return s.mark .value 1

/-- A node or a property of one, after which no key starts. -/
def content (s : Scan) (read : Scan → Except Failure (Token × Place)) : Except Failure Scan := do
  let s ← s.noteKey
  let s := { s with keyAllowed := false }
  let (token, place) ← read s
  return { s.push token with place }

/-- A block scalar. -/
def blockScalar (s : Scan) (folded : Bool) : Except Failure Scan := do
  let s ← ({ s with keyAllowed := true } : Scan).forgetKey
  let (text, place) ← s.place.block folded s.indent
  return { s.push (.scalar (String.ofList text) false) with place }

/-- Whether a plain scalar may start here. -/
def startsPlain (s : Scan) : Bool :=
  let c := s.place.head
  !(isBlankOrEnd c || "-?:,[]\x7b\x7d#&*!|>'\"%@`".toList.contains c) ||
    (!isBlankOrEnd (s.place.look 1) && (c == '-' || (s.flow == 0 && (c == '?' || c == ':'))))

/-- A plain scalar.  A key may start behind it if its line has ended. -/
def plainScalar (s : Scan) : Except Failure Scan := do
  let s ← s.noteKey
  let (text, ended, place) := s.place.plain (0 < s.flow) (s.indent + 1)
  return { s.push (.scalar (String.ofList text) true) with place, keyAllowed := ended }

/-- Reads the token at the present place. -/
def token (s : Scan) : Except Failure Scan :=
  let p := s.place
  let c := p.head
  let markFollows := 0 < s.flow || isBlankOrEnd (p.look 1)
  if c == '%' && p.column == 0 then do
    let s ← s.leaveDocument
    let (d, place) ← directive s.place
    return { s.push (.directive d) with place }
  else if p.column == 0 && p.isSeparator '-' then do return (← s.leaveDocument).mark .documentStart 3
  else if p.column == 0 && p.isSeparator '.' then do return (← s.leaveDocument).mark .documentEnd 3
  else if c == '[' then s.openFlow .flowSeqStart
  else if c == '{' then s.openFlow .flowMapStart
  else if c == ']' then s.closeFlow .flowSeqEnd
  else if c == '}' then s.closeFlow .flowMapEnd
  else if c == ',' then do
    let s ← ({ s with keyAllowed := true } : Scan).forgetKey
    return s.mark .flowEntry 1
  else if c == '-' && isBlankOrEnd (p.look 1) then s.blockEntry
  else if c == '?' && markFollows then s.explicitKey
  else if c == ':' && markFollows then s.valueMark
  else if c == '*' then
    s.content fun s => do
      let (name, place) ← anchorName s.place
      return (.reference name, place)
  else if c == '&' then
    s.content fun s => do
      let (name, place) ← anchorName s.place
      return (.anchor name, place)
  else if c == '!' then s.content fun s => nodeTag s.place
  else if c == '|' && s.flow == 0 then s.blockScalar false
  else if c == '>' && s.flow == 0 then s.blockScalar true
  else if c == '\'' || c == '"' then
    s.content fun s => do
      let (text, place) ← s.place.quoted (c == '"')
      return (.scalar (String.ofList text) false, place)
  else if s.startsPlain then s.plainScalar
  else .error invalid

/-- Reads the next token after the gap in front of it.  Blocks that are indented further end here,
and at the end of the text all of them do. -/
def fetch (s : Scan) : Except Failure Scan := do
  let s ← (skipGap (s.place.rest.length + 1) s.skipMark).forgetStale
  let s := s.unwind s.place.column
  if s.place.rest.isEmpty then do return (← s.leaveDocument).push .streamEnd
  else s.token

/-- The tokens that nothing behind them can change: those in front of the first possible key. -/
def settled (s : Scan) : List Token :=
  let isOpen (k : Nat × KeyStart) : Bool :=
    k.2.line == s.place.line && s.place.index - k.2.index ≤ 1024
  s.tokens.take ((s.keys.filter isOpen).foldl (fun n k => min n k.2.position) s.tokens.length)

/-- Reads tokens up to the end of the text or to the first fault. -/
def run : Nat → Scan → Tokens
  | 0, s => ⟨s.tokens, invalid⟩
  | fuel + 1, s =>
    match s.fetch with
    | .error fault => ⟨s.settled, fault⟩
    | .ok next =>
      if next.tokens.getLast? = some .streamEnd then ⟨next.tokens, invalid⟩ else run fuel next

end Scan

/-- The tokens of a text. -/
def tokens (text : List Char) : Tokens :=
  if text.all isReadable then Scan.run (text.length + 2) (.start text) else ⟨[], invalid⟩

end Scriptlet.Yaml
