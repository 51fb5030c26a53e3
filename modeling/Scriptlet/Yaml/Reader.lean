import Scriptlet.Yaml.Merge
import Scriptlet.Yaml.Node
import Scriptlet.Yaml.Number
import Scriptlet.Yaml.Time

/-!
# Reading YAML

The data of a document: each node becomes what its tag says.  A list, map or set is made at once and
filled later, in the order in which they were made, so that references to it find it even from
inside.  Of several faults the first that this order meets is reported.
-/

namespace Scriptlet.Yaml

set_option autoImplicit false

variable {ε : Type}

/-- The text of a node where a scalar is wanted: a map may give it under the key `=`.  A map that
gives itself has none; `fuel` is more than the number of nodes. -/
def Graph.text (g : Graph) : Nat → Nat → Except Failure (List Char)
  | 0, _ => .error (.breakdown .callDepth)
  | fuel + 1, place =>
    match (g.node place).content with
    | .scalar text => .ok text.toList
    | .map entries =>
      match entries.find? fun e => g.tag e.1 == .value with
      | some e => text g fuel e.2
      | none => .error invalid
    | .seq _ => .error invalid

/-- The truth value of a scalar. -/
def truth (text : List Char) : Except Failure Bool :=
  let word := String.ofList (Text.lower text)
  if word = "yes" || word = "true" || word = "on" then .ok true
  else if word = "no" || word = "false" || word = "off" then .ok false
  else .error (.breakdown (.exception "KeyError" (Text.quoted word)))

/-- The bytes of a scalar. -/
def bytes (text : List Char) : Except Failure Foreign :=
  match Text.base64? text with
  | some content => if text.all (·.toNat < 128) then .ok (.bytes content) else .error invalid
  | none => .error invalid

/-- The datum of a text under the tag of a scalar. -/
def scalarDatum (tag : Tag) (text : List Char) : Except Failure (Data ε) :=
  match tag with
  | .null => .ok .null
  | .bool => do return .bool (← truth text)
  | .int => do return .int (← integer text)
  | .float => do return .float (← float text)
  | .str => .ok (.str (String.ofList text))
  | .timestamp => do return .foreign (← timestamp text)
  | .binary => do return .foreign (← bytes text)
  | _ => .error invalid

/-- Whether the data of a tag are lists, maps or sets. -/
def Tag.isCollection : Tag → Bool
  | .seq | .map | .set | .omap | .pairs => true
  | _ => false

/-- Whether the data of a tag are scalars.  Other tags have no data. -/
def Tag.isScalar : Tag → Bool
  | .null | .bool | .int | .float | .binary | .timestamp | .str => true
  | _ => false

/-- The datum of a node. -/
inductive Part (ε : Type) where
  /-- A scalar.  What is no number is known by the place of its node, if it has its own. -/
  | scalar (d : Data ε) (origin : Option Nat)
  /-- The list, map or set of the node at a place. -/
  | collection (place : Nat)

namespace Part

/-- Whether two keys are the same entry of a map. -/
def sameKey : Part ε → Part ε → Bool
  | scalar (.float .nan) m, scalar (.float .nan) n => m == n
  | scalar d _, scalar e _ => d.sameKey e
  | _, _ => false

/-- Sets an entry: in the place of the one with the same key, whose key stays, or at the end. -/
def insert (key part : Part ε) : List (Part ε × Part ε) → List (Part ε × Part ε)
  | [] => [(key, part)]
  | (k, p) :: rest => if k.sameKey key then (k, part) :: rest else (k, p) :: insert key part rest

end Part

/-- What a collection holds. -/
inductive Filling (ε : Type) where
  | list (items : List (Part ε))
  | pairs (count : Nat)
  | map (entries : List (Part ε × Part ε))
  | set

/-- The data of a document in the making. -/
structure Work (ε : Type) where
  graph : Graph
  /-- The data of the nodes so far, by their places. -/
  parts : List (Nat × Part ε)
  /-- The places of the collections that are not filled yet. -/
  waiting : List Nat
  filled : List (Nat × Filling ε)

namespace Work

/-- Notes the datum of a node. -/
def note (w : Work ε) (place : Nat) (part : Part ε) : Part ε × Work ε :=
  (part, { w with parts := (place, part) :: w.parts })

/-- The datum of the node at a place, which is made only once. -/
def make (w : Work ε) (place : Nat) : Except Failure (Part ε × Work ε) :=
  let node := w.graph.node place
  match w.parts.lookup place with
  | some part => .ok (part, w)
  | none =>
    if node.tag.isCollection then
      .ok ({ w with waiting := w.waiting ++ [place] }.note place (.collection place))
    else if !node.tag.isScalar then .error invalid
    else do
      let text ← w.graph.text (w.graph.size + 1) place
      match node.tag, node.content with
      | .timestamp, .map _ =>
        .error (.breakdown (.exception "TypeError"
          "expected string or bytes-like object, got 'list'"))
      | tag, _ =>
        let d ← scalarDatum tag text
        return w.note place (.scalar d (if isStandardNan text then none else some place))

/-- The data of the nodes at some places. -/
def makeAll (w : Work ε) : List Nat → Except Failure (List (Part ε) × Work ε)
  | [] => .ok ([], w)
  | place :: rest => do
    let (part, w) ← w.make place
    let (parts, w) ← w.makeAll rest
    return (part :: parts, w)

/-- Adds the data of entries to those of a map.  A key must be a scalar. -/
def makeEntries (w : Work ε) (done : List (Part ε × Part ε)) :
    List (Nat × Nat) → Except Failure (List (Part ε × Part ε) × Work ε)
  | [] => .ok (done, w)
  | (key, value) :: rest => do
    let (k, w) ← w.make key
    match k with
    | .collection _ => .error invalid
    | .scalar _ _ =>
      let (v, w) ← w.make value
      w.makeEntries (Part.insert k v done) rest

/-- Makes the data of pairs, each a map of one entry. -/
def makePairs (w : Work ε) : List Nat → Except Failure (Work ε)
  | [] => .ok w
  | place :: rest =>
    match (w.graph.node place).content with
    | .map [(key, value)] => do
      let (_, w) ← w.make key
      let (_, w) ← w.make value
      w.makePairs rest
    | _ => .error invalid

/-- The entries of the map at a place, after what it names is merged into it. -/
def mapEntries (w : Work ε) (place : Nat) :
    Except Failure (List (Part ε × Part ε) × Work ε) :=
  match (w.graph.node place).content with
  | .map _ => do
    let graph ← w.graph.mergeAll place
    makeEntries { w with graph } [] (graph.entries place)
  | _ => .error invalid

/-- What the collection at a place holds. -/
def filling (w : Work ε) (place : Nat) : Except Failure (Filling ε × Work ε) := do
  let node := w.graph.node place
  match node.tag, node.content with
  | .map, _ =>
    let (entries, w) ← w.mapEntries place
    return (.map entries, w)
  | .set, _ =>
    let (_, w) ← w.mapEntries place
    return (.set, w)
  | .seq, .seq items =>
    let (parts, w) ← w.makeAll items
    return (.list parts, w)
  | _, .seq items => return (.pairs items.length, ← w.makePairs items)
  | _, _ => .error invalid

/-- Fills the waiting collections one after the other.  `fuel` is more than the number of nodes. -/
def run : Nat → Work ε → Except Failure (Work ε)
  | 0, w => .ok w
  | fuel + 1, w =>
    match w.waiting with
    | [] => .ok w
    | place :: rest => do
      let (filling, w) ← { w with waiting := rest }.filling place
      run fuel { w with filled := (place, filling) :: w.filled }

/-- The datum of a node inside collections at some places, to which it may refer.  `fuel` is more
than the number of nodes. -/
def datum (w : Work ε) : Nat → List Nat → Part ε → Data ε
  | _, _, .scalar d _ => d
  | 0, _, .collection _ => .endless
  | fuel + 1, around, .collection place =>
    if around.contains place then .endless
    else
      let inside := datum w fuel (place :: around)
      match w.filled.lookup place with
      | some (.list items) => .list (items.map inside)
      | some (.pairs count) => .list (List.replicate count (.foreign .pair))
      | some (.map entries) => .map (entries.map fun e => (inside e.1, inside e.2))
      | some .set => .foreign .set
      | none => .null

end Work

/-- The datum of a text; an empty text holds nothing. -/
def read (text : String) : Except Failure (Data ε) := do
  match ← readGraph text.toList with
  | none => return .null
  | some (graph, root) =>
    let (part, w) ← Work.make ⟨graph, [], [], []⟩ root
    let w ← w.run (graph.size + 1)
    return w.datum (graph.size + 1) [] part

end Scriptlet.Yaml
