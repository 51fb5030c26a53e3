/-!
# Tokens of a YAML text

Marks, scalars and properties of nodes, together with the starts and ends of blocks that the
indentation stands for.
-/

namespace Scriptlet.Yaml

set_option autoImplicit false

/-- A directive in front of a document. -/
inductive Directive where
  | version (major minor : Nat)
  /-- A short form for tags that start with `expansion`. -/
  | tag (handle expansion : String)
  | other
deriving DecidableEq, Repr

/-- A token. -/
inductive Token where
  | directive (d : Directive)
  | documentStart
  | documentEnd
  | streamEnd
  | blockSeqStart
  | blockMapStart
  | blockEnd
  | flowSeqStart
  | flowSeqEnd
  | flowMapStart
  | flowMapEnd
  | blockEntry
  | flowEntry
  | key
  | value
  | reference (name : String)
  | anchor (name : String)
  | tag (handle : Option String) (suffix : String)
  | scalar (text : String) (isPlain : Bool)
deriving DecidableEq, Repr

end Scriptlet.Yaml
