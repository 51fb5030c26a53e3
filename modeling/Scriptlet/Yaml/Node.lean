import Scriptlet.Yaml.Graph
import Scriptlet.Yaml.Lexer

/-!
# Reading the nodes of a YAML document

The tokens of a text become the graph of its document.  An anchor names a node from its start on, so
that a reference may stand inside the node that it refers to.  A text holds at most one document.
-/

namespace Scriptlet.Yaml

set_option autoImplicit false

/-- What is left to read, the nodes and anchors so far, and the handles for tags. -/
structure Rest where
  tokens : List Token
  /-- What is wrong where the tokens end. -/
  fault : Failure
  graph : Graph
  anchors : List (String × Nat)
  handles : List (String × String)

/-- The properties in front of a node. -/
structure Properties where
  anchor : Option String
  tag : Option String

namespace Rest

/-- The next token. -/
def peek (r : Rest) : Except Failure Token :=
  match r.tokens with
  | t :: _ => .ok t
  | [] => .error r.fault

/-- Whether the next token is one of some. -/
def next (r : Rest) (ts : List Token) : Except Failure Bool := do
  return ts.contains (← r.peek)

/-- Without the next token. -/
def drop (r : Rest) : Rest :=
  { r with tokens := r.tokens.drop 1 }

/-- The full name of a tag. -/
def tagName (r : Rest) (handle : Option String) (suffix : String) : Except Failure String :=
  match handle with
  | none => .ok suffix
  | some h =>
    match r.handles.find? fun p => p.1 == h with
    | some p => .ok (p.2 ++ suffix)
    | none => .error invalid

/-- Reads the properties of a node, in either order. -/
def properties (r : Rest) : Except Failure (Properties × Rest) := do
  match ← r.peek with
  | .anchor a =>
    match ← r.drop.peek with
    | .tag h s => return (⟨some a, some (← r.tagName h s)⟩, r.drop.drop)
    | _ => return (⟨some a, none⟩, r.drop)
  | .tag h s =>
    match ← r.drop.peek with
    | .anchor a => return (⟨some a, some (← r.tagName h s)⟩, r.drop.drop)
    | _ => return (⟨none, some (← r.tagName h s)⟩, r.drop)
  | _ => return (⟨none, none⟩, r)

/-- Refuses an anchor that is not new. -/
def checkAnchor (r : Rest) (anchor : Option String) : Except Failure Unit :=
  if anchor.any fun a => r.anchors.any fun p => p.1 == a then .error invalid else .ok ()

/-- Adds a node, and its anchor if it has one. -/
def add (r : Rest) (anchor : Option String) (node : Node) : Nat × Rest :=
  let (graph, place) := r.graph.add node
  (place, { r with graph, anchors := anchor.toList.map (·, place) ++ r.anchors })

/-- Adds the node of a place where nothing is written. -/
def addBlank (r : Rest) : Nat × Rest :=
  r.add none .blank

/-- Gives the node at a place its content. -/
def fill (r : Rest) (place : Nat) (content : Content) : Nat × Rest :=
  (place, { r with graph := r.graph.setContent place content })

end Rest

namespace Properties

/-- The tag of a node that is a `default` if nothing else is said. -/
def tagOr (p : Properties) (default : Tag) : Tag :=
  match p.tag with
  | none => default
  | some name => if name = "!" then default else .ofName name

/-- The tag of a scalar. -/
def scalarTag (p : Properties) (text : String) (isPlain : Bool) : Tag :=
  if p.tag.isSome || isPlain then p.tagOr (Plain.tag text.toList) else .str

end Properties

mutual

/-- Reads a node; `inBlock` allows blocks, `flat` a list that is not indented further. -/
def readNode (inBlock flat : Bool) : Nat → Rest → Except Failure (Nat × Rest)
  | 0, _ => .error invalid
  | fuel + 1, r => do
    match ← r.peek with
    | .reference name =>
      match r.anchors.find? fun p => p.1 == name with
      | none => .error invalid
      | some p => return (p.2, r.drop)
    | _ =>
      let (props, r) ← r.properties
      let token ← r.peek
      r.checkAnchor props.anchor
      let list (read : Rest → Except Failure (List Nat × Rest)) (r : Rest) :
          Except Failure (Nat × Rest) := do
        let (place, r) := r.add props.anchor ⟨props.tagOr .seq, .seq []⟩
        let (items, r) ← read r
        return r.fill place (.seq items)
      let table (read : Rest → Except Failure (List (Nat × Nat) × Rest)) (r : Rest) :
          Except Failure (Nat × Rest) := do
        let (place, r) := r.add props.anchor ⟨props.tagOr .map, .map []⟩
        let (entries, r) ← read r
        return r.fill place (.map entries)
      match token with
      | .scalar text isPlain =>
        return r.drop.add props.anchor ⟨props.scalarTag text isPlain, .scalar text⟩
      | .flowSeqStart => list (flowItems true fuel) r.drop
      | .flowMapStart => table (flowEntries true fuel) r.drop
      | .blockSeqStart => if inBlock then list (blockItems fuel) r.drop else .error invalid
      | .blockMapStart => if inBlock then table (blockEntries fuel) r.drop else .error invalid
      | t =>
        if flat && t = .blockEntry then list (flatItems fuel) r
        else if props.anchor.isSome || props.tag.isSome then
          return r.add props.anchor ⟨props.tagOr .null, .scalar ""⟩
        else .error invalid

/-- Reads a node, or the blank one if one of some tokens follows. -/
def readUnless (ts : List Token) (inBlock flat : Bool) :
    Nat → Rest → Except Failure (Nat × Rest)
  | 0, _ => .error invalid
  | fuel + 1, r => do
    if ← r.next ts then return r.addBlank else readNode inBlock flat fuel r

/-- Reads the value behind a colon, or the blank node if there is none. -/
def readValue (ts : List Token) (inBlock : Bool) : Nat → Rest → Except Failure (Nat × Rest)
  | 0, _ => .error invalid
  | fuel + 1, r => do
    if ← r.next [.value] then readUnless ts inBlock inBlock fuel r.drop else return r.addBlank

/-- The items of an indented list. -/
def blockItems : Nat → Rest → Except Failure (List Nat × Rest)
  | 0, _ => .error invalid
  | fuel + 1, r => do
    match ← r.peek with
    | .blockEntry =>
      let (item, r) ← readUnless [.blockEntry, .blockEnd] true false fuel r.drop
      let (items, r) ← blockItems fuel r
      return (item :: items, r)
    | .blockEnd => return ([], r.drop)
    | _ => .error invalid

/-- The items of a list that is not indented further than its key. -/
def flatItems : Nat → Rest → Except Failure (List Nat × Rest)
  | 0, _ => .error invalid
  | fuel + 1, r => do
    match ← r.peek with
    | .blockEntry =>
      let (item, r) ← readUnless [.blockEntry, .key, .value, .blockEnd] true false fuel r.drop
      let (items, r) ← flatItems fuel r
      return (item :: items, r)
    | _ => return ([], r)

/-- The entries of an indented map. -/
def blockEntries : Nat → Rest → Except Failure (List (Nat × Nat) × Rest)
  | 0, _ => .error invalid
  | fuel + 1, r => do
    match ← r.peek with
    | .key =>
      let (key, r) ← readUnless [.key, .value, .blockEnd] true true fuel r.drop
      let (value, r) ← readValue [.key, .value, .blockEnd] true fuel r
      let (entries, r) ← blockEntries fuel r
      return ((key, value) :: entries, r)
    | .blockEnd => return ([], r.drop)
    | _ => .error invalid

/-- The items of a list in brackets.  An item with a colon is a map of one entry. -/
def flowItems (first : Bool) : Nat → Rest → Except Failure (List Nat × Rest)
  | 0, _ => .error invalid
  | fuel + 1, r => do
    if ← r.next [.flowSeqEnd] then return ([], r.drop)
    else if first || (← r.next [.flowEntry]) then
      let r := if first then r else r.drop
      match ← r.peek with
      | .flowSeqEnd => return ([], r.drop)
      | .key =>
        let (place, r) := r.add none ⟨.map, .map []⟩
        let (key, r) ← readUnless [.value, .flowEntry, .flowSeqEnd] false false fuel r.drop
        let (value, r) ← readValue [.flowEntry, .flowSeqEnd] false fuel r
        let (item, r) := r.fill place (.map [(key, value)])
        let (items, r) ← flowItems false fuel r
        return (item :: items, r)
      | _ =>
        let (item, r) ← readNode false false fuel r
        let (items, r) ← flowItems false fuel r
        return (item :: items, r)
    else .error invalid

/-- The entries of a map in braces.  A node without a colon is a key of nothing. -/
def flowEntries (first : Bool) : Nat → Rest → Except Failure (List (Nat × Nat) × Rest)
  | 0, _ => .error invalid
  | fuel + 1, r => do
    if ← r.next [.flowMapEnd] then return ([], r.drop)
    else if first || (← r.next [.flowEntry]) then
      let r := if first then r else r.drop
      match ← r.peek with
      | .flowMapEnd => return ([], r.drop)
      | .key =>
        let (key, r) ← readUnless [.value, .flowEntry, .flowMapEnd] false false fuel r.drop
        let (value, r) ← readValue [.flowEntry, .flowMapEnd] false fuel r
        let (entries, r) ← flowEntries false fuel r
        return ((key, value) :: entries, r)
      | _ =>
        let (key, r) ← readNode false false fuel r
        let (value, r) := r.addBlank
        let (entries, r) ← flowEntries false fuel r
        return ((key, value) :: entries, r)
    else .error invalid

end

/-- The handles that every document knows. -/
def standardHandles : List (String × String) :=
  [("!", "!"), ("!!", standardTags)]

/-- The handles that the directives in front of a document declare, and the tokens behind them. -/
def directives (fault : Failure) : List Token → Bool → List (String × String) →
    Except Failure (List (String × String) × List Token)
  | [], _, _ => .error fault
  | .directive d :: rest, versioned, handles =>
    match d with
    | .version major _ =>
      if versioned || major ≠ 1 then .error invalid else directives fault rest true handles
    | .tag handle expansion =>
      if handles.any fun p => p.1 == handle then .error invalid
      else directives fault rest versioned (handles ++ [(handle, expansion)])
    | .other => directives fault rest versioned handles
  | tokens, _, handles => .ok (handles ++ standardHandles, tokens)

namespace Rest

/-- Reads the directives of a document and its start mark. -/
def openDocument (r : Rest) : Except Failure Rest := do
  let (handles, tokens) ← directives r.fault r.tokens false []
  match tokens with
  | .documentStart :: rest => return { r with tokens := rest, handles }
  | _ => .error invalid

/-- Reads the end of a document, which must be the last. -/
def closeDocument (r : Rest) : Except Failure Unit := do
  let r := { r with tokens := r.tokens.dropWhile (· == Token.documentEnd) }
  if ← r.next [.streamEnd] then return ()
  else do
    let _ ← r.openDocument
    .error invalid

end Rest

/-- The graph of a text and the place of its root, if the text holds a document. -/
def readGraph (text : List Char) : Except Failure (Option (Graph × Nat)) := do
  let ts := tokens text
  let start : Rest := ⟨ts.list, ts.fault, .empty, [], standardHandles⟩
  let fuel := 4 * ts.list.length + 4
  match ← start.peek with
  | .streamEnd => return none
  | .directive _ | .documentStart =>
    let r ← start.openDocument
    let (root, r) ← match ← r.peek with
      | .directive _ | .documentStart | .documentEnd | .streamEnd => pure r.addBlank
      | _ => readNode true false fuel r
    r.closeDocument
    return some (r.graph, root)
  | _ =>
    let (root, r) ← readNode true false fuel start
    r.closeDocument
    return some (r.graph, root)

end Scriptlet.Yaml
