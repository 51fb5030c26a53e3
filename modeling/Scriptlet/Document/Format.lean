import Scriptlet.Document.FileName
import Scriptlet.Text.Blank

/-!
# Formats of documents

A document is JSON or YAML.  Which of them it is, the suffix of its file tells, or else its text:
what starts with a bracket is taken for JSON, everything else for YAML.
-/

namespace Scriptlet

set_option autoImplicit false

/-- The format of a document. -/
inductive Format where
  | json | yaml
deriving DecidableEq, Repr

namespace Format

/-- The name of a format. -/
def name : Format → String
  | json => "json"
  | yaml => "yaml"

/-- The format of a name. -/
def ofName? (s : String) : Option Format :=
  if s = "json" then some json else if s = "yaml" then some yaml else none

/-- A text in lower-case letters. -/
def lowerCase (s : String) : String :=
  String.ofList (s.toList.map Char.toLower)

/-- The format that the suffix of a file tells. -/
def ofFileName? (n : FileName) : Option Format :=
  let suffix := lowerCase (String.ofList n.suffix)
  if suffix = ".json" then some json
  else if suffix = ".yaml" || suffix = ".yml" then some yaml
  else none

/-- The format that a text is taken for. -/
def ofText (text : String) : Format :=
  match Text.trimStart text.toList with
  | c :: _ => if c = '\x7b' || c = '[' then json else yaml
  | [] => yaml

/-- The format of a document with a file name, a text or both.  The file name comes first. -/
def detect? (path text : Option String) : Option Format :=
  (path.bind fun p => ofFileName? (.ofText p)).or (text.map ofText)

end Format

end Scriptlet
