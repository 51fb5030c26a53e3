import Scriptlet.Error

/-!
# Names of files

A name is a sequence of parts between slashes, of which empty ones and single dots do not count.
The suffix of its last part tells what the file holds.
-/

namespace Scriptlet

set_option autoImplicit false

/-- The name of a file. -/
structure FileName where
  /-- The slashes in front of an absolute name. -/
  root : String
  parts : List String
deriving DecidableEq, Repr

namespace FileName

/-- The pieces of a text between slashes. -/
def pieces : List Char → List (List Char)
  | [] => [[]]
  | c :: rest =>
    if c = '/' then [] :: pieces rest
    else
      match pieces rest with
      | piece :: more => (c :: piece) :: more
      | [] => [[c]]

/-- The slashes that count in front of a name: two are kept, more are one. -/
def rootOf (text : List Char) : String :=
  match (text.takeWhile (· == '/')).length with
  | 0 => ""
  | 2 => "//"
  | _ => "/"

/-- The name that a text spells. -/
def ofText (text : String) : FileName :=
  let kept := (pieces text.toList).filter fun piece => piece != [] && piece != ['.']
  ⟨rootOf text.toList, kept.map String.ofList⟩

/-- The spelling of a name. -/
def text (n : FileName) : String :=
  let s := n.root ++ String.intercalate "/" n.parts
  if s = "" then "." else s

/-- The last part of a name from its last dot on, unless that dot is its first or last
character. -/
def suffix (n : FileName) : List Char :=
  let part := (n.parts.getLast?.getD "").toList
  let tail := (part.reverse.takeWhile (· != '.')).reverse
  if tail.isEmpty || part.length ≤ tail.length + 1 then [] else '.' :: tail

end FileName

/-- Why a file cannot be read. -/
inductive Obstacle where
  | missing
  | folder
  | notFolder
  | longName
  /-- The name holds a null character. -/
  | nullCharacter
deriving DecidableEq, Repr

namespace Obstacle

/-- The number of an obstacle and the words for it. -/
def reason : Obstacle → Nat × String
  | missing => (2, "No such file or directory")
  | folder => (21, "Is a directory")
  | notFolder => (20, "Not a directory")
  | longName => (36, "File name too long")
  | nullCharacter => (22, "Invalid argument")

/-- The message that names the obstacle and the file. -/
def message (o : Obstacle) (name : FileName) : String :=
  match o with
  | nullCharacter => "embedded null byte"
  | _ =>
    "[Errno " ++ Numeral.ofNat o.reason.1 ++ "] " ++ o.reason.2 ++ ": " ++ Text.quoted name.text

/-- The obstacle as a failure outside the language. -/
def breakdown (o : Obstacle) (name : FileName) : Breakdown :=
  let kind :=
    match o with
    | missing => "FileNotFoundError"
    | folder => "IsADirectoryError"
    | notFolder => "NotADirectoryError"
    | longName => "OSError"
    | nullCharacter => "ValueError"
  .exception kind (o.message name)

end Obstacle

/-- What reading the file of a name gives. -/
abbrev Files := FileName → Except Obstacle ByteArray

/-- The longest part of a name and the longest name, in bytes. -/
def FileName.limits : Nat × Nat := (255, 4095)

/-- Follows the parts of a name from a folder of files, or from a folder around it, of which nothing
else is known.  The first part that cannot be followed is the obstacle. -/
def Files.walk (folder : List (String × ByteArray)) (inside : Bool) :
    List String → Except Obstacle ByteArray
  | [] => .error .folder
  | part :: rest =>
    if part = ".." then walk folder false rest
    else if FileName.limits.1 < part.utf8ByteSize then .error .longName
    else
      match if inside then folder.lookup part else none with
      | none => .error .missing
      | some bytes => if rest.isEmpty then .ok bytes else .error .notFolder

/-- A folder of files and nothing else. -/
def Files.ofFolder (folder : List (String × ByteArray)) : Files := fun name =>
  if name.text.toList.contains '\x00' then .error .nullCharacter
  else if FileName.limits.2 < name.text.utf8ByteSize then .error .longName
  else walk folder (name.root = "") name.parts

end Scriptlet
