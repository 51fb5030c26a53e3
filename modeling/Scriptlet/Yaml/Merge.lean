import Scriptlet.Yaml.Graph
import Scriptlet.Yaml.Place

/-!
# Merged maps

An entry of a map under the key `<<` brings the entries of another map, or of several maps, the last
of them first.  Merging takes such entries out of the map and puts what they bring in front of its
own entries, so that these override it.  A map may be merged into a part of itself: it then brings
what it holds at that moment.
-/

namespace Scriptlet.Yaml.Graph

set_option autoImplicit false

/-- The key `=` is a string for the map that holds it. -/
def nameValueKeys (g : Graph) (place : Nat) : Graph :=
  (g.entries place).foldl (fun g e => if g.tag e.1 = .value then g.setTag e.1 .str else g) g

/-- Takes the first entry that names what is merged out of a map; the result has its value. -/
def takeMerge (g : Graph) (place : Nat) : Option (Nat × Graph) :=
  let entries := g.entries place
  (entries.find? g.isMerge).map fun e =>
    (e.2, g.setContent place (.map (entries.eraseP g.isMerge)))

/-- Puts entries in front of those of a map. -/
def bring (g : Graph) (place : Nat) (brought : List (Nat × Nat)) : Graph :=
  g.setContent place (.map (brought ++ g.entries place))

/-- Merges into the map at a place what it names, and into that first what it names itself.  `fuel`
is more than the number of entries that name something. -/
def merge : Nat → Nat → Graph → Except Failure Graph
  | 0, _, g => .ok g
  | fuel + 1, place, g =>
    match g.takeMerge place with
    | none => .ok (g.nameValueKeys place)
    | some (value, g) => do
      let (brought, g) ←
        match (g.node value).content with
        | .map _ => do
          let g ← merge fuel value g
          pure (g.entries value, g)
        | .seq items =>
          items.foldlM (fun (brought, g) item =>
            match (g.node item).content with
            | .map _ => do
              let g ← merge fuel item g
              pure (g.entries item ++ brought, g)
            | _ => .error invalid) ([], g)
        | .scalar _ => .error invalid
      let g ← merge fuel place g
      return g.bring place brought

/-- Merges into the map at a place all that it names. -/
def mergeAll (g : Graph) (place : Nat) : Except Failure Graph :=
  merge (g.mergeCount + 1) place g

end Scriptlet.Yaml.Graph
