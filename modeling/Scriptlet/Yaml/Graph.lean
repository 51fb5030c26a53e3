import Scriptlet.Yaml.Tag

/-!
# The graph of a YAML document

A document is a graph of scalars, lists and maps, each with a tag.  Nodes are known by their places,
so that a reference is the place of the node that it refers to, which may even lie around it.
-/

namespace Scriptlet.Yaml

set_option autoImplicit false

/-- What a node holds; its parts are places. -/
inductive Content where
  | scalar (text : String)
  | seq (items : List Nat)
  | map (entries : List (Nat × Nat))
deriving DecidableEq, Repr

/-- A node of a document. -/
structure Node where
  tag : Tag
  content : Content
deriving DecidableEq, Repr

/-- The node of a place where nothing is written. -/
def Node.blank : Node := ⟨.null, .scalar ""⟩

instance : Inhabited Node := ⟨.blank⟩

/-- The nodes of a document by their places. -/
structure Graph where
  nodes : Array Node

namespace Graph

/-- A graph without nodes. -/
def empty : Graph := ⟨#[]⟩

/-- The number of nodes. -/
def size (g : Graph) : Nat :=
  g.nodes.size

/-- The node at a place. -/
def node (g : Graph) (place : Nat) : Node :=
  g.nodes.getD place .blank

/-- The tag of the node at a place. -/
def tag (g : Graph) (place : Nat) : Tag :=
  (g.node place).tag

/-- The entries of the map at a place. -/
def entries (g : Graph) (place : Nat) : List (Nat × Nat) :=
  match (g.node place).content with
  | .map entries => entries
  | _ => []

/-- Adds a node; its place comes behind all others. -/
def add (g : Graph) (node : Node) : Graph × Nat :=
  (⟨g.nodes.push node⟩, g.size)

/-- Gives the node at a place another tag. -/
def setTag (g : Graph) (place : Nat) (tag : Tag) : Graph :=
  ⟨g.nodes.modify place fun n => { n with tag }⟩

/-- Gives the node at a place another content. -/
def setContent (g : Graph) (place : Nat) (content : Content) : Graph :=
  ⟨g.nodes.modify place fun n => { n with content }⟩

/-- Whether an entry of a map names what is merged into the map. -/
def isMerge (g : Graph) (entry : Nat × Nat) : Bool :=
  g.tag entry.1 == .merge

/-- The number of entries that name what is merged. -/
def mergeCount (g : Graph) : Nat :=
  (List.range g.size).foldl (fun n place => n + (g.entries place).countP g.isMerge) 0

end Graph

end Scriptlet.Yaml
