import Scriptlet.Data.Convert
import Scriptlet.Document.Format
import Scriptlet.Json.Reader
import Scriptlet.Json.Writer
import Scriptlet.Yaml.Reader
import Scriptlet.Yaml.Writer

/-!
# Documents

Reading and writing data in a format that is given by name, and reading the constants that a
document defines for a program.  How much nesting there is room for is up to the platform that the
program runs on.
-/

namespace Scriptlet.Document

set_option autoImplicit false

variable {ε : Type}

/-- The datum of a text in a format. -/
def readAs (format : Format) (text : String) : Except Failure (Data ε) :=
  match format with
  | .json => Json.read text
  | .yaml => Yaml.read text

/-- The datum of a text.  Without the name of a format, the text itself tells it. -/
def read (format : Option String) (text : String) : Except Failure (Data ε) :=
  let chosen :=
    match format with
    | none | some "" => some (Format.ofText text)
    | some name => Format.ofName? name
  match chosen with
  | some f => readAs f text
  | none => .error (.breakdown (.unknownFormat format))

/-- The text of a datum, or of a value, in a format.  Only JSON has a compact layout. -/
def write (format : Option String) (pretty : Bool) (d : Data ε) : Except Breakdown String :=
  let plain :=
    match d with
    | .value v => v.toData
    | d => d
  match format.bind fun name => Format.ofName? (Format.lowerCase name) with
  | some .json => Json.write (if pretty then some 0 else none) plain
  | some .yaml => Yaml.write plain
  | none => .error (.unknownFormat format)

/-- The text of the bytes of a file, with uniform line ends. -/
def decode (bytes : ByteArray) : Except Breakdown String :=
  match String.fromUTF8? bytes with
  | some text => .ok (String.ofList (Text.uniform text.toList))
  | none => .error .notText

/-- Sets a constant: in the place of one with the same name, or at the end. -/
def setGlobal (name : String) (v : Value ε) : List (String × Value ε) → List (String × Value ε)
  | [] => [(name, v)]
  | (n, w) :: rest => if n = name then (n, v) :: rest else (n, w) :: setGlobal name v rest

/-- The constants that a datum defines: the entries of a map. -/
def globalsOf (d : Data ε) : Except Failure (List (String × Value ε)) :=
  match d with
  | .null => .ok []
  | .map entries =>
    entries.foldlM (fun globals e => do
      let name ← e.1.name.mapError .breakdown
      return setGlobal name (← e.2.toValue false) globals) []
  | d => .error (.error (.globalsNotMapping d.typeName))

/-- The constants that a file of a given name and contents defines. -/
def globals (path : String) (bytes : ByteArray) : Except Failure (List (String × Value ε)) := do
  let text ← (decode bytes).mapError .breakdown
  let format := (Format.detect? (some path) (some text)).map Format.name
  globalsOf (← read format text)

end Scriptlet.Document
